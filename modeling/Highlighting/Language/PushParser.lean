import Highlighting.Bytes
import Highlighting.Token

/-!
Push parsers. A parser is fed the tokens of a lexer one by one and may give other kinds to spans that
are queued but not yet rendered. It answers with the changes it wants, so it can change kinds and
nothing else.
-/

namespace Highlighting

structure Span where
  start : Nat
  stop : Nat
  defaultKind : TokenKind
  kind : TokenKind
  deriving DecidableEq, Repr

namespace Span

def ofLexer (start stop : Nat) (kind : TokenKind) : Span :=
  ⟨start, stop, kind, kind⟩

def isEmpty (span : Span) : Bool :=
  decide (span.stop ≤ span.start)

def relabel (span : Span) (kind : TokenKind) : Span :=
  { span with kind := kind }

def reset (span : Span) : Span :=
  { span with kind := span.defaultKind }

end Span

structure Relabelling where
  index : Nat
  kind : TokenKind
  deriving DecidableEq, Repr

inductive Verdict where
  | proceed
  | syntaxError
  deriving DecidableEq, Repr

structure ParserStep (State : Type) where
  state : State
  relabellings : List Relabelling
  verdict : Verdict

/-- A parser that tokens are pushed into. It sees the kind and the bytes of the token and all queued
spans, of which the token's own is the last. -/
structure PushParser where
  State : Type
  initial : State
  feed : State → TokenKind → Bytes → Array Span → ParserStep State

structure RunningParser where
  parser : PushParser
  state : parser.State

def PushParser.running (parser : PushParser) : RunningParser :=
  ⟨parser, parser.initial⟩

namespace Relabelling

/-- Carries out one relabelling; an index that no span has is passed over. -/
def apply (spans : Array Span) (relabelling : Relabelling) : Array Span :=
  spans.modify relabelling.index (Span.relabel · relabelling.kind)

def applyAll (relabellings : List Relabelling) (spans : Array Span) : Array Span :=
  relabellings.foldl apply spans

end Relabelling

namespace RunningParser

def feed (running : RunningParser) (kind : TokenKind) (text : Bytes) (pending : Array Span) :
    RunningParser × Array Span × Verdict :=
  let step := running.parser.feed running.state kind text pending
  (⟨running.parser, step.state⟩, Relabelling.applyAll step.relabellings pending, step.verdict)

end RunningParser

end Highlighting
