/-!
The memory of a lexer between scan calls: the condition it is in and the conditions it saved.
-/

namespace Highlighting

structure ScanState where
  condition : Int := 0
  saved : List Int := []
  deriving DecidableEq, Repr

namespace ScanState

def start (state : ScanState) (condition : Int) : ScanState :=
  { state with condition := condition }

def push (state : ScanState) (condition : Int) : ScanState :=
  { condition := condition, saved := state.condition :: state.saved }

def pop? (state : ScanState) : Option ScanState :=
  match state.saved with
  | [] => none
  | condition :: rest => some { condition := condition, saved := rest }

def pop (state : ScanState) : ScanState :=
  state.pop?.getD state

def depth (state : ScanState) : Nat :=
  state.saved.length

end ScanState

end Highlighting
