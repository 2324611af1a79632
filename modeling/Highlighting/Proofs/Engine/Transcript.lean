import Highlighting.Proofs.Engine.Consultation

/-! What a run hands over to be rendered: the spans of its tokens and the marks of where delegates begin
and end, one step after the other. The queue puts rendering off and changes nothing about it: the
document is the one that comes of rendering everything as soon as it is handed over, provided that spans
are handed over under the kinds that they have when they leave the queue. -/
namespace Highlighting

inductive Output where
  | span (span : Span)
  | startLexing (lexer : String)
  | endLexing (lexer : String)
  deriving DecidableEq, Repr

namespace Emitter

variable (input : Bytes) (emitter : Emitter)

def put : Output → Emitter
  | .span span => emitSpan input emitter span
  | .startLexing lexer => emitter.startLexing lexer
  | .endLexing lexer => emitter.endLexing lexer

def putAll (outputs : List Output) : Emitter :=
  outputs.foldl (put input) emitter

@[simp]
theorem putAll_nil : emitter.putAll input [] = emitter := rfl

@[simp]
theorem putAll_singleton (output : Output) :
    emitter.putAll input [output] = emitter.put input output := rfl

theorem putAll_append (first second : List Output) :
    emitter.putAll input (first ++ second) = (emitter.putAll input first).putAll input second :=
  List.foldl_append

theorem putAll_spans (spans : Array Span) :
    emitter.putAll input (spans.toList.map .span) = spans.foldl (emitSpan input) emitter := by
  rw [putAll, List.foldl_map, ← Array.foldl_toList]
  rfl

end Emitter

def Output.document (input : Bytes) (outputs : List Output) : Array Call :=
  ((({} : Emitter).call .startDocument).putAll input outputs).endDocument.calls

namespace Run

variable (job : Job)

/-- A way to label tokens: the span under which the pending span is handed over, by the kind that its
lexer gives it. -/
abbrev Labelling : Type 1 :=
  Run → TokenKind → Span

def handOver (label : Labelling) (run : Run) (kind : TokenKind) : List Output :=
  if run.cursor ≤ run.text then [] else [.span (label run kind)]

/-- What is handed over when an event is carried out. Only a span that was left open when its lexer was
done is text whatever the labelling. -/
def outputs (label : Labelling) (run : Run) : ScanEvent → List Output
  | .token kind => handOver label run kind
  | .extend => []
  | .done =>
    handOver ownSpan run .text ++
      (run.frames.head?.map (fun frame => Output.endLexing (run.nameOf job frame.child))).toList
  | .delegate delegation =>
    if run.refuses delegation.target then
      handOver label (run.claimed delegation) delegation.fallback
    else [.startLexing (job.catalog.name delegation.target)]

def transcript (label : Labelling) : (fuel : Nat) → Run → List Output
  | 0, _ => []
  | fuel + 1, run =>
    match run.prepare.scan job with
    | none => []
    | some (event, scanned) =>
      scanned.outputs job label event ++
        match run.step job with
        | .running next => transcript label fuel next
        | _ => []

def rendered (run : Run) : Emitter :=
  (run.flush job).emitter

def LabelsBy (label : Labelling) (run : Run) : Prop :=
  ∀ event scanned claimed kind, run.prepare.scan job = some (event, scanned) →
    scanned.tokenOf? event = some (claimed, kind) → claimed.text < claimed.cursor →
      ((claimed.queue kind).consultParser job kind).pending = claimed.pending.push (label claimed kind)

section Rendering

variable {job} {run : Run} {label : Labelling}

theorem flush_rendered : (run.flush job).rendered job = run.rendered job := by
  simp [rendered, flush]

theorem flushIfFull_rendered : (run.flushIfFull job).rendered job = run.rendered job := by
  unfold flushIfFull
  split
  · exact flush_rendered
  · rfl

theorem rendered_of_push {queued : Run} {span : Span} (hemitter : queued.emitter = run.emitter)
    (hpending : queued.pending = run.pending.push span) :
    queued.rendered job = Emitter.emitSpan job.input (run.rendered job) span := by
  simp only [rendered, flush, hemitter, hpending, Array.foldl_push]

theorem token_rendered {kind : TokenKind}
    (hlabel : run.text < run.cursor →
      ((run.queue kind).consultParser job kind).pending = run.pending.push (label run kind)) :
    (run.token job kind).rendered job =
      (run.rendered job).putAll job.input (handOver label run kind) := by
  unfold token handOver
  split
  case isTrue => rfl
  case isFalse hmore =>
    rw [flushIfFull_rendered]
    apply rendered_of_push
    · exact consultParser_emitter job (run.queue kind) kind
    · apply hlabel
      omega

theorem unterminated_rendered :
    (run.unterminated job).rendered job =
      (run.rendered job).putAll job.input (handOver ownSpan run .text) := by
  unfold unterminated handOver
  split
  case isTrue => rfl
  case isFalse hmore =>
    have hqueued : (run.queue .text).rendered job =
        Emitter.emitSpan job.input (run.rendered job) (run.ownSpan .text) := rendered_of_push rfl rfl
    rw [← flushIfFull_rendered] at hqueued
    exact hqueued

theorem enter_rendered (delegation : Delegation) :
    (run.enter job delegation).rendered job =
      (run.rendered job).startLexing (job.catalog.name delegation.target) := by
  have hemitter := enter_emitter job run delegation
  have hpending : (run.enter job delegation).pending = #[] := rfl
  simp only [rendered, flush, hpending, Array.foldl_empty]
  exact hemitter

theorem leave_rendered (frame : Frame) :
    (run.leave job frame).rendered job =
      (run.rendered job).endLexing (run.nameOf job frame.child) := by
  have hemitter := leave_emitter job run frame
  have hpending : (run.leave job frame).pending = #[] := by
    unfold leave
    dsimp only
    split <;> rfl
  unfold rendered
  rw [← hemitter, flush, hpending, Array.foldl_empty]

theorem unterminated_live : (run.unterminated job).live = run.live := by
  unfold unterminated flushIfFull
  split
  · rfl
  · split <;> rfl

theorem scan_rendered {event : ScanEvent} {scanned : Run}
    (hscan : run.prepare.scan job = some (event, scanned)) :
    scanned.rendered job = run.rendered job := by
  obtain ⟨element, -, -, rfl⟩ := (run.prepare.scan_eq_some_iff job).mp hscan
  rfl

/-- Carrying out an event renders, sooner or later, what it hands over. -/
theorem Move.rendered {scanned after : Run} {event : ScanEvent} (hmove : Move job scanned event after)
    (hlabel : ∀ claimed kind, scanned.tokenOf? event = some (claimed, kind) →
      claimed.text < claimed.cursor →
        ((claimed.queue kind).consultParser job kind).pending =
          claimed.pending.push (label claimed kind)) :
    after.rendered job =
      (scanned.rendered job).putAll job.input (scanned.outputs job label event) := by
  cases hmove with
  | token kind => exact token_rendered (hlabel scanned kind rfl)
  | extend => rfl
  | leave frame outer hframes =>
    have hname : nameOf job ({ scanned.unterminated job with frames := outer } : Run) frame.child =
        nameOf job scanned frame.child := by
      simp only [nameOf, unterminated_live]
    have hclosed : ({ scanned.unterminated job with frames := outer } : Run).rendered job =
        (scanned.rendered job).putAll job.input (handOver ownSpan scanned .text) :=
      unterminated_rendered
    rw [leave_rendered, hname, hclosed, outputs, hframes, Emitter.putAll_append]
    rfl
  | refuse delegation hrefused =>
    have htoken : scanned.tokenOf? (.delegate delegation) =
        some (scanned.claimed delegation, delegation.fallback) := if_pos hrefused
    have hclaimed : (scanned.claimed delegation).rendered job = scanned.rendered job := by
      unfold claimed
      split <;> rfl
    rw [fallback_eq_token, token_rendered (hlabel _ _ htoken), hclaimed, outputs, if_pos hrefused]
  | enter delegation haccepted =>
    rw [enter_rendered, outputs, if_neg (ne_true_of_eq_false haccepted)]
    rfl

end Rendering

section Transcript

variable {job} {label : Labelling}

theorem transcript_running {run next scanned : Run} {event : ScanEvent} (fuel : Nat)
    (hscan : run.prepare.scan job = some (event, scanned)) (hstep : run.step job = .running next) :
    run.transcript job label (fuel + 1) =
      scanned.outputs job label event ++ next.transcript job label fuel := by
  simp only [transcript, hscan, hstep]

/-- The document of a run renders its transcript. -/
theorem drive_rendered {fuel : Nat} {run last : Run}
    (hlabel : ∀ later, Reaches job run later → later.LabelsBy job label)
    (hdrive : drive job fuel run = some (.ok (), last)) :
    last.rendered job = (run.rendered job).putAll job.input (run.transcript job label fuel) := by
  induction fuel generalizing run with
  | zero => cases hdrive
  | succ fuel ih =>
    simp only [drive] at hdrive
    split at hdrive
    case h_1 next hstep =>
      obtain ⟨event, scanned, after, stalls, hscan, hmove, rfl⟩ := step_running hstep
      have hmoved := hmove.rendered (fun claimed kind => hlabel run .refl event scanned claimed kind hscan)
      rw [scan_rendered hscan] at hmoved
      -- The rest is labelled as well, being reached through this step.
      have hrest := ih (fun later hlater => hlabel later (Relation.ReflTransGen.head hstep hlater)) hdrive
      rw [hrest, transcript_running fuel hscan hstep, Emitter.putAll_append]
      exact congrArg (Emitter.putAll job.input · _) hmoved
    case h_2 ending hstep =>
      obtain ⟨-, rfl⟩ := Prod.mk.inj (Option.some.inj hdrive)
      rcases step_finished hstep with ⟨hscan, rfl⟩ | ⟨scanned, hscan, hframes, rfl⟩
      · simp only [transcript, hscan]
        rfl
      · simp only [transcript, hscan, hstep, outputs, hframes]
        rw [unterminated_rendered, scan_rendered hscan]
        simp
    case h_3 =>
      obtain ⟨hresult, -⟩ := Prod.mk.inj (Option.some.inj hdrive)
      cases hresult

theorem transcript_add {count fuel : Nat} {first run : Run} (hafter : after? job count first = some run) :
    first.transcript job label (count + fuel) =
      first.transcript job label count ++ run.transcript job label fuel := by
  induction count generalizing first with
  | zero =>
    cases hafter
    rw [Nat.zero_add]
    rfl
  | succ count ih =>
    simp only [after?] at hafter
    split at hafter
    case h_1 next hstep =>
      obtain ⟨event, scanned, after, stalls, hscan, hmove, rfl⟩ := step_running hstep
      rw [Nat.succ_add, transcript_running _ hscan hstep, transcript_running _ hscan hstep, ih hafter,
        List.append_assoc]
    case h_2 => cases hafter

/-- A run with an answer has fuel left wherever it goes on. -/
theorem drive_after {count fuel : Nat} {first run : Run} {answer : Except HighlightError Unit × Run}
    (hafter : after? job count first = some run) (hdrive : drive job fuel first = some answer) :
    ∃ left, fuel = count + left ∧ drive job left run = some answer := by
  induction count generalizing fuel first with
  | zero =>
    cases hafter
    exact ⟨fuel, (Nat.zero_add fuel).symm, hdrive⟩
  | succ count ih =>
    simp only [after?] at hafter
    split at hafter
    case h_1 next hstep =>
      cases fuel with
      | zero => cases hdrive
      | succ fuel =>
        simp only [drive, hstep] at hdrive
        obtain ⟨left, hleft, hrest⟩ := ih hafter hdrive
        exact ⟨left, by omega, hrest⟩
    case h_2 => cases hafter

end Transcript

end Run

namespace Job

def opening (job : Job) (config : EngineConfig) : List Output :=
  ((job.passedThrough? config).map (fun stop => Output.span (Span.ofLexer 0 stop .ignorable))).toList

theorem start_rendered (job : Job) (config : EngineConfig) (lexer : Lexer) (others : List Lexer) :
    (job.start config lexer others).rendered job =
      (({} : Emitter).call .startDocument).putAll job.input (job.opening config) := by
  unfold opening Run.rendered
  cases hshebang : job.passedThrough? config with
  | none => simp [start, Run.flush, hshebang]
  | some stop => simp [start, Run.flush, hshebang, Emitter.put]

end Job

theorem highlight_ends {fuel : Nat} {catalog : Catalog} {host : Host} {config : EngineConfig}
    {source : Bytes} {lexer : Lexer} {others : List Lexer} {highlighted : Highlighted}
    {calls : Array Call}
    (hrun : highlight fuel catalog host config source (lexer :: others) = some highlighted)
    (hok : highlighted.outcome = .ok calls) :
    ∃ last, Run.drive (Job.ofSource catalog host config source) fuel
        ((Job.ofSource catalog host config source).start config lexer others) = some (.ok (), last) ∧
      calls = (last.rendered (Job.ofSource catalog host config source)).endDocument.calls ∧
        highlighted.lexers = last.callerLexers (lexer :: others) := by
  obtain ⟨⟨result, last⟩, hdrive, rfl⟩ := Option.map_eq_some_iff.mp hrun
  cases result with
  | error error => cases hok
  | ok _ =>
    cases hok
    exact ⟨last, hdrive, rfl, rfl⟩

end Highlighting
