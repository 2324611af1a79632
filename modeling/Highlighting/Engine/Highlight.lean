import Highlighting.Engine.Config
import Highlighting.Engine.Step
import Highlighting.Formatter

/-!
Highlighting a source: a run from the first byte to the end, and the calls that render it.

`highlight` is the run, which begins once there is room for its queue. `attempt` is the whole call: it
takes that room first, and panics where no allocation can be that large.
-/

namespace Highlighting

/-- What highlighting came to: the calls of the document or an error, the lexers of the caller as they
are afterwards, and the lexers that were made and finalised on the way. -/
structure Highlighted where
  outcome : Except HighlightError (Array Call)
  lexers : List Lexer
  lifetimes : Lifetimes

namespace Job

def ofSource (catalog : Catalog) (host : Host) (config : EngineConfig) (source : Bytes) :
    Job where
  catalog := catalog
  host := host
  input := if config.stripByteOrderMark then source.stripByteOrderMark else source
  capacity := max 1 config.bufferCapacity

def passedThrough? (job : Job) (config : EngineConfig) : Option Nat :=
  match config.shebang with
  | .passThrough => job.input.shebangLineEnd?
  | .lex => none

/-- The run before its first step: the lexers of the caller are live, the document is begun, and a
shebang line that is passed through is queued. -/
def start (job : Job) (config : EngineConfig) (top : Lexer) (others : List Lexer) : Run :=
  let shebang? := job.passedThrough? config
  { live := (top :: others).zipIdx.foldl (job.enlist config.parserBridge) {}
    active := top.language
    frames := []
    bridge := config.parserBridge
    pending :=
      match shebang? with
      | some stop => #[Span.ofLexer 0 stop .ignorable]
      | none => #[]
    emitter := ({} : Emitter).call .startDocument
    text := 0
    cursor := shebang?.getD 0
    limit := job.input.size
    accumulating := false
    stalls := 0
    lifetimes := {} }

end Job

namespace Run

def document (job : Job) (run : Run) : Array Call :=
  (run.flush job).emitter.endDocument.calls

def finalLifetimes (job : Job) (run : Run) : Lifetimes :=
  run.live.table.foldl (fun lifetimes element => lifetimes.finalize (finalizedBy job element))
    run.lifetimes

/-- The lexers of the caller as the run leaves them; one that never became live is as it was. -/
def callerLexers (run : Run) (lexers : List Lexer) : List Lexer :=
  lexers.zipIdx.map (fun (lexer, index) =>
    match run.live.table.find? (fun element => element.owner == .caller index) with
    | some element => element.lexer
    | none => lexer)

end Run

/-- Highlights a source with the first of the given lexers; the others are at hand for delegations.
There is no answer if the run takes more than `fuel` steps. -/
def highlight (fuel : Nat) (catalog : Catalog) (host : Host) (config : EngineConfig)
    (source : Bytes) (lexers : List Lexer) : Option Highlighted :=
  match lexers with
  | [] => some ⟨.error .noLexer, [], {}⟩
  | top :: others =>
    let job := Job.ofSource catalog host config source
    (Run.drive job fuel (job.start config top others)).map (fun (result, last) =>
      { outcome := result.map (fun _ => last.document job)
        lexers := last.callerLexers lexers
        lifetimes := last.finalLifetimes job })

/-- The bytes that a span takes in the queue: two offsets of eight bytes each and two kinds of one byte
each, rounded up to whole words. -/
def spanBytes : Nat := 24

/-- The most bytes that one allocation can have: the greatest signed integer of 64 bits. -/
def allocationLimit : Nat := 0x7FFFFFFFFFFFFFFF

def queueLimit : Nat := allocationLimit / spanBytes

/-- What a call of the highlighter comes to. A call that panics leaves the lexers as they are. -/
inductive Attempt where
  | panicked
  | returned (highlighted : Highlighted)

/-- Calls the highlighter. Without a lexer it returns at once; otherwise the room for the queue is taken
before anything else. -/
def attempt (fuel : Nat) (catalog : Catalog) (host : Host) (config : EngineConfig) (source : Bytes)
    (lexers : List Lexer) : Option Attempt :=
  if lexers ≠ [] ∧ queueLimit < max 1 config.bufferCapacity then some .panicked
  else (highlight fuel catalog host config source lexers).map .returned

def Highlighted.render (highlighted : Highlighted) (formatter : Formatter) :
    Except HighlightError Bytes :=
  highlighted.outcome.map formatter.document

end Highlighting
