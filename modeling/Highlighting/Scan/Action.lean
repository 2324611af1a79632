import Highlighting.Scan.Context

/-!
The moves of a scan context as data, so that sequences of them can be carried out, recorded and
reasoned about.
-/

namespace Highlighting

inductive ScanAction where
  | bump
  | advance (count : Nat)
  | advanceWhile (p : UInt8 → Bool)
  | advanceLine
  | advanceToLimit
  | setCursor (position : Nat)
  | retreat (count : Nat)
  | start (condition : Int)
  | push (condition : Int)
  | pop

inductive ScanAnswer where
  | nothing
  | byte (value : Option UInt8)
  | count (value : Nat)
  | flag (value : Bool)
  deriving DecidableEq, Repr

namespace ScanAction

variable {w : Window}

def perform (action : ScanAction) (cx : ScanContext w) : ScanAnswer × ScanContext w :=
  match action with
  | .bump => (.byte cx.peek, cx.bump)
  | .advance count => (.nothing, cx.advance count)
  | .advanceWhile p => (.count (cx.runLength p 0), cx.advanceWhile p)
  | .advanceLine =>
    let (found, after) := cx.advanceLine
    (.flag found, after)
  | .advanceToLimit => (.nothing, cx.advanceToLimit)
  | .setCursor position => (.nothing, cx.setCursor position)
  | .retreat count => (.nothing, cx.retreat count)
  | .start condition => (.nothing, cx.setState (cx.state.start condition))
  | .push condition => (.nothing, cx.setState (cx.state.push condition))
  | .pop => (.flag cx.state.pop?.isSome, cx.setState cx.state.pop)

def performAll (actions : List ScanAction) (cx : ScanContext w) : ScanContext w :=
  actions.foldl (fun cx action => (action.perform cx).2) cx

def performOnState (action : ScanAction) (state : ScanState) : ScanState :=
  match action with
  | .start condition => state.start condition
  | .push condition => state.push condition
  | .pop => state.pop
  | _ => state

end ScanAction

end Highlighting
