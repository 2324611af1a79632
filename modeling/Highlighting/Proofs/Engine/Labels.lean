import Highlighting.Proofs.Engine.Shown
import Highlighting.Proofs.Engine.Transition

/-! The kinds under which texts are written. A text has the kind of the run it is written in; a queued
span counts as written under the kind it has at present. Rendering the queue early or late then makes
no difference. -/
namespace Highlighting

/-- What calls amount to so far: the kind of the run that is open, and the texts that were written,
each with the kind of its run. -/
structure Labels where
  openKind : Option TokenKind := none
  spans : Array (Option TokenKind × Bytes) := #[]

def Labels.after (labels : Labels) : Call → Labels
  | .startToken kind => { labels with openKind := some kind }
  | .endToken _ => { labels with openKind := none }
  | .write text => { labels with spans := labels.spans.push (labels.openKind, text) }
  | _ => labels

def Call.labelled (calls : Array Call) : Array (Option TokenKind × Bytes) :=
  (calls.foldl Labels.after {}).spans

namespace Emitter

variable {emitter : Emitter}

def labels (emitter : Emitter) : Labels :=
  emitter.calls.foldl Labels.after {}

def Tracks (emitter : Emitter) : Prop :=
  emitter.labels.openKind = emitter.openRun

theorem call_labels (emitter : Emitter) (call : Call) :
    (emitter.call call).labels = emitter.labels.after call :=
  Array.foldl_push

theorem closeRun_labels (h : emitter.Tracks) :
    emitter.closeRun.labels = ⟨none, emitter.labels.spans⟩ := by
  unfold closeRun
  split
  case h_1 hopen => rw [← hopen, ← h]
  case h_2 kind hopen => exact call_labels emitter (.endToken kind)

theorem openRunOf_labels (h : emitter.Tracks) (kind : TokenKind) :
    (emitter.openRunOf kind).labels = ⟨some kind, emitter.labels.spans⟩ := by
  unfold openRunOf
  split
  case isTrue hopen => rw [← hopen, ← h]
  case isFalse =>
    have hstart := call_labels emitter.closeRun (.startToken kind)
    rw [closeRun_labels h] at hstart
    exact hstart

theorem emit_labels (h : emitter.Tracks) (kind : TokenKind) {text : Bytes} (htext : text ≠ #[]) :
    (emitter.emit kind text).labels = ⟨some kind, emitter.labels.spans.push (some kind, text)⟩ := by
  have hsome : ¬ text.isEmpty = true := fun hempty => htext (Array.isEmpty_iff.mp hempty)
  rw [emit, if_neg hsome, call_labels, openRunOf_labels h]
  rfl

theorem Tracks.emit (h : emitter.Tracks) (kind : TokenKind) (text : Bytes) :
    (emitter.emit kind text).Tracks := by
  by_cases htext : text = #[]
  · rw [Emitter.emit, if_pos (Array.isEmpty_iff.mpr htext)]
    exact h
  · have hsome : ¬ text.isEmpty = true := fun hempty => htext (Array.isEmpty_iff.mp hempty)
    rw [Tracks, emit_labels h kind htext, Emitter.emit, if_neg hsome, openRunOf]
    -- The run of this kind is open, be it an old one or a new one.
    split
    case isTrue hopen => exact hopen.symm
    case isFalse => rfl

theorem Tracks.emitSpans (h : emitter.Tracks) (input : Bytes) (spans : Array Span) :
    (spans.foldl (Emitter.emitSpan input) emitter).Tracks := by
  refine Array.foldl_induction (motive := fun _ emitter => Tracks emitter) h ?_
  intro i emitter hbefore
  exact hbefore.emit spans[i].kind _

end Emitter

namespace Run

variable (job : Job) (run : Run)

def labelled : Array (Option TokenKind × Bytes) :=
  (run.pending.foldl (Emitter.emitSpan job.input) run.emitter).labels.spans

theorem flush_labelled : (run.flush job).labelled job = run.labelled job := by
  simp [labelled, flush]

theorem flushIfFull_labelled : (run.flushIfFull job).labelled job = run.labelled job := by
  unfold flushIfFull
  split
  · exact flush_labelled job run
  · rfl

variable {run}

theorem flushIfFull_tracks (h : run.emitter.Tracks) : (run.flushIfFull job).emitter.Tracks := by
  unfold flushIfFull
  split
  · exact h.emitSpans job.input run.pending
  · exact h

theorem push_labelled (h : run.emitter.Tracks) {span : Span} {queued : Run}
    (hemitter : queued.emitter = run.emitter) (hpending : queued.pending = run.pending.push span)
    (htext : job.input.extract span.start span.stop ≠ #[]) :
    queued.labelled job =
      (run.labelled job).push (some span.kind, job.input.extract span.start span.stop) := by
  have hbefore := h.emitSpans job.input run.pending
  rw [labelled, hemitter, hpending, Array.foldl_push, Emitter.emitSpan,
    Emitter.emit_labels hbefore _ htext]
  rfl

/-- The document of a run writes what the run has come to. -/
theorem document_labelled (h : run.emitter.Tracks) :
    Call.labelled (run.document job) = run.labelled job := by
  have hflushed : (run.flush job).emitter.Tracks := h.emitSpans job.input run.pending
  have hlabels := Emitter.call_labels (run.flush job).emitter.closeRun .endDocument
  rw [Emitter.closeRun_labels hflushed] at hlabels
  have hspans := congrArg Labels.spans hlabels
  exact hspans

/-- The last step of a run that has no span open: the document writes what the run has come to. -/
theorem step_of_closed_labelled {w : Window} {found : ScanContext w}
    (hscan : run.prepare.scan job = some (.done, run.prepare.follow found))
    (hframes : run.frames = []) (hidle : run.accumulating = false)
    (hcursor : found.cursor = run.cursor) (h : run.emitter.Tracks) :
    ∃ last, run.step job = .finished last ∧
      Call.labelled (last.document job) = run.labelled job := by
  have htext : (run.prepare.follow found).text = run.cursor := prepare_text_of_idle run hidle
  have hclosed : (run.prepare.follow found).unterminated job = run.prepare.follow found :=
    if_pos (by rw [htext]; exact Nat.le_of_eq hcursor)
  refine ⟨run.prepare.follow found, ?_, document_labelled job h⟩
  rw [step_of_closed hscan hframes, hclosed]

end Run

end Highlighting
