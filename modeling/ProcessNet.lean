import ProcessNet.Delivery
import ProcessNet.Net.Dot
import ProcessNet.Net.Handoff
import ProcessNet.Net.TokenGame
import ProcessNet.Process.Document
import ProcessNet.Reduction.Document
import ProcessNet.StateSpace.Dot
import ProcessNet.StateSpace.Language
import ProcessNet.Proofs.Incidence.Mirror
import ProcessNet.Proofs.Net.Consistent
import ProcessNet.Proofs.Net.Neighbours
import ProcessNet.Proofs.Net.Simulation
import ProcessNet.Proofs.Outcome
import ProcessNet.Proofs.Reduction.Agglomeration
import ProcessNet.Proofs.Reduction.Match
import ProcessNet.Proofs.Reduction.Edit
import ProcessNet.Proofs.Reduction.Apply
import ProcessNet.Proofs.Reduction.Turn
import ProcessNet.Proofs.Reduction.Language
import ProcessNet.Proofs.Conversion.Edit
import ProcessNet.Proofs.StateSpace.Search
import ProcessNet.Proofs.Conversion.Program
import ProcessNet.Proofs.Conversion.Valid
import ProcessNet.Proofs.Delivery.Verdict
import ProcessNet.Proofs.Net.Editing
import ProcessNet.Proofs.Conversion.Effect
import ProcessNet.Proofs.Net.Gate
import ProcessNet.Proofs.Conversion.Lasting
import ProcessNet.Proofs.Process.GatewayForm
import ProcessNet.Proofs.Conversion.Gate
import ProcessNet.Proofs.Conversion.Nesting
import ProcessNet.Proofs.Conversion.Exclusion
import ProcessNet.Proofs.Process.Normal
import ProcessNet.Proofs.Process.Renaming
import ProcessNet.Proofs.Conversion.Renumbering
import ProcessNet.Proofs.Process.Build
import ProcessNet.Proofs.Conversion.DeclarationOrder
import ProcessNet.Proofs.Conversion.Clearance
import ProcessNet.Proofs.Conversion.Finish
import ProcessNet.Proofs.Conversion.Finished
import ProcessNet.Proofs.Conversion.Built
import ProcessNet.Proofs.Conversion.Termination
import ProcessNet.Proofs.Conversion.Raising
import ProcessNet.Proofs.Reduction.Bound
import ProcessNet.Proofs.Reduction.NormalForm
import ProcessNet.Proofs.Reduction.SelfLoop
import ProcessNet.Proofs.Reduction.Exhaustion
import ProcessNet.Proofs.Conversion.Meaning
import ProcessNet.Proofs.Game.Junction
import ProcessNet.Proofs.Process.Detour
import ProcessNet.Proofs.Reduction.Deadlock
import ProcessNet.Proofs.Net.History
import ProcessNet.Proofs.Format.Document
import ProcessNet.Proofs.Format.Json.Document
import ProcessNet.Proofs.Net.Document
import ProcessNet.Proofs.Net.Handoff
import ProcessNet.Proofs.Process.Document
import ProcessNet.Proofs.Conversion.Interrupted
import ProcessNet.Proofs.Reduction.Frame
import ProcessNet.Proofs.Net.Firing
import ProcessNet.Proofs.Process.Acceptance
import ProcessNet.Proofs.Process.Contraction
import ProcessNet.Proofs.Process.Containment
import ProcessNet.Proofs.Net.Check
import ProcessNet.Proofs.StateSpace.Language
import ProcessNet.Proofs.StateSpace.Limit
import ProcessNet.Proofs.Conversion.Inventory
import ProcessNet.Proofs.Conversion.Branches
import ProcessNet.Proofs.Conversion.Legible
import ProcessNet.Proofs.Conversion.Completion
import ProcessNet.Proofs.Conversion.Convertible
import ProcessNet.Proofs.Delivery.Decoded
import ProcessNet.Proofs.Reduction.Removal
import ProcessNet.Proofs.Reduction.Report
import ProcessNet.Proofs.Reduction.Tokens
import ProcessNet.Proofs.Reduction.Confluence
