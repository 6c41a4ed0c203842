/-
The whole way from a process graph to the net that is handed on: conversion, reduction, a last
check of the net, and the search for its final marking.
-/
import ProcessNet.Conversion.Result
import ProcessNet.Reduction.Schedule
import ProcessNet.Settings
import ProcessNet.StateSpace.Basic

namespace ProcessNet

/-- Why no net is handed on. -/
inductive DeliveryError where
  | conversion (error : ConversionError)
  | reduction (error : ReductionError)
  | net (error : NetError)
  /-- The final marking is not reached. -/
  | notEasySound (process : String)
  | fault (fault : Fault)
deriving DecidableEq, Repr

def DeliveryError.message : DeliveryError → String
  | .conversion e => e.message
  | .reduction e => e.message
  | .net e => e.message
  | .notEasySound p =>
    "final marking of `" ++ p ++ "` is not reachable from its initial marking"
  | .fault _ => ""

/-- A net that is handed on, with the report of its reduction. -/
structure Delivery where
  accepting : AcceptingNet
  report : ReductionReport

namespace Delivery

/-- Reduces the net if the settings ask for it. -/
def reduced (s : Settings) (a : AcceptingNet) : Except ReductionError Delivery :=
  if s.reduce then
    let outcome := a.reduce s.reduction.toOptions
    outcome.report.map fun report => { accepting := outcome.accepting, report }
  else .ok { accepting := a, report := {} }

/-- Fails if the settings ask for a net whose final marking is reached, and it is not. -/
def checkSoundness (s : Settings) (process : String) (a : AcceptingNet) :
    Except DeliveryError Unit :=
  if s.checkSoundness then
    match a.net.isEasySound a.initial a.final s.stateLimit with
    | .ok true => .ok ()
    | .ok false => .error (.notEasySound process)
    | .error f => .error (.fault f)
  else .ok ()

end Delivery

/-- The net of a graph under the given settings. -/
def ProcessGraph.deliver (g : ProcessGraph) (s : Settings) : Except DeliveryError Delivery := do
  let accepting ← (g.toAcceptingNet s.includeEvents).mapError .conversion
  let delivery ← (Delivery.reduced s accepting).mapError .reduction
  delivery.accepting.net.checkConsistency.mapError .net
  Delivery.checkSoundness s g.processId delivery.accepting
  return delivery

end ProcessNet
