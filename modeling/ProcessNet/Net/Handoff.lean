/-
Handing accepting nets on as JSON or RON texts. What is read back is only taken when its parts
agree.
-/
import ProcessNet.Format.Json.Document
import ProcessNet.Format.Json.Printer
import ProcessNet.Format.Json.Reader
import ProcessNet.Format.Ron.Document
import ProcessNet.Format.Ron.Printer
import ProcessNet.Format.Ron.Reader
import ProcessNet.Net.Consistency
import ProcessNet.Net.Document

namespace ProcessNet

/-- Why no accepting net could be taken from a text. -/
inductive HandoffError where
  /-- The text is not the JSON form of an accepting net. -/
  | json
  /-- The text is not the RON form of an accepting net. -/
  | ron
  /-- The parts of the net do not agree. -/
  | inconsistent (error : NetError)
deriving DecidableEq, Repr

def HandoffError.message : HandoffError → String
  | .json | .ron => ""
  | .inconsistent e => "decoded net is inconsistent: " ++ e.message

namespace AcceptingNet

def toJson (a : AcceptingNet) : String := (a.encode : Json).pretty

def toRon (a : AcceptingNet) : String := (a.encode : Ron).pretty

/-- Reads the JSON form, whether or not the parts of the net agree. -/
def readJson (s : String) : Except HandoffError AcceptingNet :=
  match (Json.parse? s).bind decode? with
  | some a => .ok a
  | none => .error .json

/-- Reads the RON form, whether or not the parts of the net agree. -/
def readRon (s : String) : Except HandoffError AcceptingNet :=
  match ((Ron.parse? s).map Ron.Part.whole).bind decode? with
  | some a => .ok a
  | none => .error .ron

/-- Takes an accepting net whose parts agree. -/
def checked (a : AcceptingNet) : Except HandoffError AcceptingNet :=
  match a.net.checkConsistency with
  | .ok () => .ok a
  | .error e => .error (.inconsistent e)

def ofJson (s : String) : Except HandoffError AcceptingNet := readJson s >>= checked

def ofRon (s : String) : Except HandoffError AcceptingNet := readRon s >>= checked

end AcceptingNet

end ProcessNet
