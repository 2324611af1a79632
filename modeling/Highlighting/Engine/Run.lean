import Highlighting.Engine.Emitter
import Highlighting.Lexer.Instance

/-!
The state of a run: the live lexers, the delegations that are under way, the spans that are queued
and the place in the input.

At most one lexer of a language is live at a time. The stack records the order in which lexers became
live; there are at most `lexerCapacity` of them, and at most `delegationCapacity` delegations are under
way.
-/

namespace Highlighting

def lexerCapacity : Nat := 32

def delegationCapacity : Nat := 16

/-- How many scan calls in a row may fail to move on before a run is given up. -/
def stallLimit : Nat := 8

inductive Owner where
  | caller (index : Nat)
  | engine
  deriving DecidableEq, Repr

structure Element where
  lexer : Lexer
  owner : Owner
  parser? : Option RunningParser

namespace Element

def language (element : Element) : LanguageId :=
  element.lexer.language

def setState (element : Element) (state : ScanState) : Element :=
  { element with lexer := { element.lexer with state := state } }

def setParser (element : Element) (parser : RunningParser) : Element :=
  { element with parser? := some parser }

end Element

/-- The live lexers: a table of them by language, and the stack of their languages in the order in
which they became live. -/
structure LiveLexers : Type 1 where
  table : List Element := []
  stack : List LanguageId := []

namespace LiveLexers

def get? (live : LiveLexers) (id : LanguageId) : Option Element :=
  live.table.find? (fun element => element.language == id)

def contains (live : LiveLexers) (id : LanguageId) : Bool :=
  live.table.any (fun element => element.language == id)

def isFull (live : LiveLexers) : Bool :=
  decide (lexerCapacity ≤ live.stack.length)

def insert (live : LiveLexers) (element : Element) : LiveLexers :=
  if live.contains element.language then live
  else ⟨live.table ++ [element], live.stack ++ [element.language]⟩

def update (live : LiveLexers) (id : LanguageId) (change : Element → Element) : LiveLexers :=
  { live with
    table := live.table.map (fun element =>
      if element.language == id then change element else element) }

def erase (live : LiveLexers) (id : LanguageId) : LiveLexers where
  table := live.table.filter (fun element => element.language != id)
  stack := live.stack.filter (fun entry => entry != id)

end LiveLexers

structure Frame where
  mode : DelegationMode
  parent : LanguageId
  child : LanguageId
  start : Nat
  savedLimit : Nat
  resume : Option Int
  /-- Whether the delegate was made for this delegation. -/
  activated : Bool
  deriving DecidableEq, Repr

structure Job where
  catalog : Catalog
  host : Host
  input : Bytes
  capacity : Nat

structure Run where
  live : LiveLexers
  active : LanguageId
  frames : List Frame
  bridge : Bool
  pending : Array Span
  emitter : Emitter
  text : Nat
  cursor : Nat
  limit : Nat
  /-- Whether the pending span was kept open. -/
  accumulating : Bool
  stalls : Nat
  lifetimes : Lifetimes

namespace Job

def element (job : Job) (bridge : Bool) (owner : Owner) (lexer : Lexer) : Element where
  lexer := lexer
  owner := owner
  parser? :=
    if bridge then
      ((job.catalog.language lexer.language).grammar.parser?
        ⟨lexer.options, job.host⟩).map PushParser.running
    else none

def enlist (job : Job) (bridge : Bool) (live : LiveLexers) (entry : Lexer × Nat) :
    LiveLexers :=
  if live.isFull then live
  else live.insert (job.element bridge (.caller entry.2) entry.1)

end Job

end Highlighting
