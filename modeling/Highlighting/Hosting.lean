import Highlighting.Session

/-!
What a host can do with the cells in which it keeps lexers, beside the steps of a session. A lexer can
move into a new cell, take the place of another one, or change places with it. A handle leads to its
cell whatever stands there, so a lexer can come to stand where a reference of its own leads.
-/

namespace Highlighting

inductive HostStep where
  | session (step : SessionStep)
  | rehouse (slot : String)
  /-- The lexer of the source, which is empty afterwards, is assigned to the cell of the slot; what was
  there is dropped. -/
  | replace (slot source : String)
  | swap (first second : String)

namespace Lexer

def holds (lexer : Lexer) (handle : LexerHandle) : Bool :=
  lexer.options.slots.any (fun slot => refersTo (some handle) slot.value)

end Lexer

namespace Session

variable (catalog : Catalog) (fuel : Nat)

def rehouse (session : Session) (slot : String) : Session :=
  match session.lexer? slot with
  | some kept => session.keepLexer slot kept.lexer
  | none => session

def replace (session : Session) (slot source : String) : Session :=
  match session.lexer? slot, session.lexer? source with
  | some _, some other =>
    if slot = source then session else (session.eraseLexer source).updateLexer slot other.lexer
  | _, _ => session

def swap (session : Session) (first second : String) : Session :=
  match session.lexer? first, session.lexer? second with
  | some kept, some other =>
    (session.updateLexer first other.lexer).updateLexer second kept.lexer
  | _, _ => session

/-- The lexers that a step puts into other cells, each with the handle of the cell it comes to. -/
def moved (session : Session) : HostStep → List (LexerHandle × Lexer)
  | .session _ => []
  | .rehouse slot =>
    match session.lexer? slot with
    | some kept => [(⟨session.nextSerial⟩, kept.lexer)]
    | none => []
  | .replace slot source =>
    match session.lexer? slot, session.lexer? source with
    | some kept, some other => if slot = source then [] else [(kept.handle, other.lexer)]
    | _, _ => []
  | .swap first second =>
    match session.lexer? first, session.lexer? second with
    | some kept, some other => [(kept.handle, other.lexer), (other.handle, kept.lexer)]
    | _, _ => []

def carryOut (session : Session) : HostStep → Session
  | .session step => (session.perform catalog fuel step).2
  | .rehouse slot => session.rehouse slot
  | .replace slot source => session.replace slot source
  | .swap first second => session.swap first second

def carryOutAll (session : Session) (steps : List HostStep) : Session :=
  steps.foldl (carryOut catalog fuel) session

/-- Whether no step puts a lexer into a cell that the lexer has a reference to. -/
def discreet (session : Session) : List HostStep → Bool
  | [] => true
  | step :: rest =>
    (session.moved step).all (fun (handle, lexer) => !lexer.holds handle)
      && discreet (session.carryOut catalog fuel step) rest

end Session

end Highlighting
