import Highlighting.Engine.Run

/-!
One step of a run: the active lexer makes a scan call, and the event it comes to is carried out.
-/

namespace Highlighting

inductive HighlightError where
  | noLexer
  | aborted (lexer : String) (position : Nat) (iterations : Nat)
  deriving DecidableEq, Repr

def HighlightError.message : HighlightError → String
  | .noLexer => "no lexer to highlight with"
  | .aborted lexer position iterations =>
    "lexer " ++ lexer ++ " made no progress at byte " ++ toString position ++ " after "
      ++ toString iterations ++ " iterations"

inductive Progress where
  | running (run : Run)
  | finished (run : Run)
  | aborted (error : HighlightError) (run : Run)

namespace Run

variable (job : Job)

def nameOf (run : Run) (id : LanguageId) : String :=
  if run.live.contains id then job.catalog.name id else ""

def flush (run : Run) : Run :=
  { run with
    emitter := run.pending.foldl (Emitter.emitSpan job.input) run.emitter
    pending := #[] }

def flushIfFull (run : Run) : Run :=
  if job.capacity ≤ run.pending.size then run.flush job else run

def queue (run : Run) (kind : TokenKind) : Run :=
  { run with pending := run.pending.push (Span.ofLexer run.text run.cursor kind) }

def abandonParsers (run : Run) : Run :=
  { run with bridge := false, pending := run.pending.map Span.reset }

def consultParser (run : Run) (kind : TokenKind) : Run :=
  match (if run.bridge then (run.live.get? run.active).bind Element.parser? else none) with
  | none => run
  | some parser =>
    let text := job.input.extract run.text run.cursor
    let (parser, pending, verdict) := parser.feed kind text run.pending
    let fed := { run with
      live := run.live.update run.active (Element.setParser · parser)
      pending := pending }
    match verdict with
    | .proceed => fed
    | .syntaxError => fed.abandonParsers

def token (run : Run) (kind : TokenKind) : Run :=
  if run.cursor ≤ run.text then run
  else ((run.queue kind).consultParser job kind).flushIfFull job

def unterminated (run : Run) : Run :=
  if run.cursor ≤ run.text then run
  else { (run.queue .text).flushIfFull job with text := run.cursor }

def refuses (run : Run) (target : LanguageId) : Bool :=
  decide (delegationCapacity ≤ run.frames.length)
    || (!run.live.contains target && run.live.isFull)

/-- A delegation that was turned down: the pending span is a token of the fallback kind. Where a
delegate was to decide by itself and the span is empty, the span reaches to the limit. -/
def fallback (run : Run) (delegation : Delegation) : Run :=
  let claimed :=
    if delegation.mode = .full ∧ run.cursor = run.text then { run with cursor := run.limit }
    else run
  claimed.token job delegation.fallback

def activate (run : Run) (id : LanguageId) : Run :=
  { run with
    live := run.live.insert (job.element run.bridge .engine (Lexer.create job.catalog id))
    lifetimes := run.lifetimes.create id }

def finalizedBy (element : Element) : List LanguageId :=
  match element.owner with
  | .caller _ => []
  | .engine => (element.lexer.destroy job.host).finalized

def deactivate (run : Run) (id : LanguageId) : Run :=
  { run with
    live := run.live.erase id
    lifetimes := run.lifetimes.finalize
      (((run.live.get? id).map (finalizedBy job)).getD []) }

def enter (run : Run) (delegation : Delegation) : Run :=
  let target := delegation.target
  let reused := run.live.contains target
  let ready := (if reused then run else run.activate job target).flush job
  { ready with
    active := target
    frames :=
      { mode := delegation.mode
        parent := run.active
        child := target
        start := run.text
        savedLimit := run.limit
        resume := delegation.resume
        activated := !reused } :: ready.frames
    emitter := ready.emitter.startLexing (job.catalog.name target)
    limit := if delegation.mode = .within then run.cursor else run.limit
    cursor := run.text }

def leave (run : Run) (frame : Frame) : Run :=
  let name := run.nameOf job frame.child
  let flushed := run.flush job
  let resumed := { flushed with
    active := frame.parent
    emitter := flushed.emitter.endLexing name
    limit := frame.savedLimit
    live :=
      match frame.resume with
      | none => flushed.live
      | some condition =>
        flushed.live.update frame.parent (fun element =>
          element.setState (element.lexer.state.start condition)) }
  if frame.mode = .full ∧ frame.activated then resumed.deactivate job frame.child else resumed

def stall (run : Run) (lexer : String) : Progress :=
  let stalled := { run with stalls := run.stalls + 1 }
  if stalled.stalls < stallLimit then .running stalled
  else .aborted (.aborted lexer stalled.cursor stalled.stalls) stalled

def settle (run : Run) (before : Nat) (lexer : String) : Progress :=
  if before < run.cursor then .running { run with stalls := 0 } else run.stall lexer

/-- The lexer is done: its delegation ends, or the run does. A delegate that took nothing counts as
a stall. -/
def done (run : Run) (lexer : String) : Progress :=
  let closed := run.unterminated job
  match closed.frames with
  | [] => .finished closed
  | frame :: frames =>
    let left := { closed with frames := frames }.leave job frame
    if frame.start < closed.cursor then .running left else left.stall lexer

def prepare (run : Run) : Run :=
  { run with
    text := if run.accumulating then run.text else run.cursor
    accumulating := false }

def scanCall (run : Run) (lexer : Lexer) :
    ScanEvent × ScanContext (Window.clamp job.input run.text run.limit) :=
  (job.catalog.language lexer.language).grammar.scan ⟨lexer.options, job.host⟩ _
    ((ScanContext.opening _ lexer.state).setCursor run.cursor)

def follow {w : Window} (run : Run) (after : ScanContext w) : Run :=
  { run with
    cursor := after.cursor
    live := run.live.update run.active (Element.setState · after.state) }

def scan (run : Run) : Option (ScanEvent × Run) :=
  (run.live.get? run.active).map (fun element =>
    let (event, after) := run.scanCall job element.lexer
    (event, run.follow after))

def handle (run : Run) (before : Nat) (event : ScanEvent) : Progress :=
  let lexer := job.catalog.name run.active
  match event with
  | .token kind => (run.token job kind).settle before lexer
  | .extend => { run with accumulating := true }.settle before lexer
  | .done => run.done job lexer
  | .delegate delegation =>
    if run.refuses delegation.target then (run.fallback job delegation).settle before lexer
    else .running (run.enter job delegation)

def step (run : Run) : Progress :=
  let prepared := run.prepare
  match prepared.scan job with
  | none => .finished prepared
  | some (event, scanned) => scanned.handle job prepared.cursor event

def drive : Nat → Run → Option (Except HighlightError Unit × Run)
  | 0, _ => none
  | fuel + 1, run =>
    match run.step job with
    | .running next => drive fuel next
    | .finished last => some (.ok (), last)
    | .aborted error last => some (.error error, last)

end Run

end Highlighting
