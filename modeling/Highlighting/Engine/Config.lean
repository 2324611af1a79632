/-!
How a run is carried out.
-/

namespace Highlighting

inductive ShebangMode where
  | passThrough
  | lex
  deriving DecidableEq, Repr

def ShebangMode.word : ShebangMode → String
  | .passThrough => "pass-through"
  | .lex => "lex"

structure EngineConfig where
  stripByteOrderMark : Bool := true
  shebang : ShebangMode := .passThrough
  /-- How many spans are queued before they are rendered; at least one is. -/
  bufferCapacity : Nat := 4096
  parserBridge : Bool := true
  deriving DecidableEq, Repr

end Highlighting
