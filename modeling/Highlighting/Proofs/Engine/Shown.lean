import Highlighting.Proofs.Engine.Queue

/-! What a run shows of what it has scanned: the texts it writes and the marks of where delegates begin
and end, with the kinds and the bounds of runs left out. A queued span counts as shown, so neither
parsers nor the time at which the queue is rendered make a difference. -/
namespace Highlighting

def Call.isScanned : Call → Bool
  | .write _ | .startLexing _ | .endLexing _ => true
  | _ => false

def Call.ofText (text : Bytes) : Array Call :=
  if text.isEmpty then #[] else #[.write text]

namespace Emitter

variable (emitter : Emitter)

def shown : Array Call :=
  emitter.calls.filter Call.isScanned

@[simp]
theorem call_shown (call : Call) :
    (emitter.call call).shown =
      if call.isScanned then emitter.shown.push call else emitter.shown := by
  simp only [shown, Emitter.call, Array.filter_push]

@[simp]
theorem closeRun_shown : emitter.closeRun.shown = emitter.shown := by
  unfold closeRun
  split
  · rfl
  · exact call_shown emitter _

@[simp]
theorem openRunOf_shown (kind : TokenKind) : (emitter.openRunOf kind).shown = emitter.shown := by
  unfold openRunOf
  split
  · rfl
  · have hpush : (emitter.closeRun.call (.startToken kind)).shown = emitter.shown := by
      simp [Call.isScanned]
    exact hpush

theorem emit_shown (kind : TokenKind) (text : Bytes) :
    (emitter.emit kind text).shown = emitter.shown ++ Call.ofText text := by
  unfold emit Call.ofText
  split
  · exact Array.append_empty.symm
  · simp [Call.isScanned]

@[simp]
theorem startLexing_shown (lexer : String) :
    (emitter.startLexing lexer).shown = emitter.shown.push (.startLexing lexer) := by
  simp [startLexing, Call.isScanned]

@[simp]
theorem endLexing_shown (lexer : String) :
    (emitter.endLexing lexer).shown = emitter.shown.push (.endLexing lexer) := by
  simp [endLexing, Call.isScanned]

@[simp]
theorem endDocument_shown : emitter.endDocument.shown = emitter.shown := by
  simp [endDocument, Call.isScanned]

end Emitter

namespace Run

variable (job : Job) (run : Run)

def shown : Array Call :=
  run.ranges.foldl (fun out range => out ++ Call.ofText (job.input.extract range.1 range.2))
    run.emitter.shown

theorem flush_emitter_shown : (run.flush job).emitter.shown = run.shown job := by
  unfold shown ranges
  rw [Array.foldl_map]
  symm
  apply Array.foldl_hom Emitter.shown
  intro emitter span
  exact (emitter.emit_shown span.kind _).symm

theorem shown_of_ranges_empty (hempty : run.ranges = #[]) : run.shown job = run.emitter.shown := by
  rw [shown, hempty, Array.foldl_empty]

@[simp]
theorem flush_shown : (run.flush job).shown job = run.shown job := by
  rw [shown_of_ranges_empty job _ (flush_ranges job run), flush_emitter_shown]

@[simp]
theorem flushIfFull_shown : (run.flushIfFull job).shown job = run.shown job := by
  unfold flushIfFull
  split
  · exact flush_shown job run
  · rfl

@[simp]
theorem queue_shown (kind : TokenKind) :
    (run.queue kind).shown job =
      run.shown job ++ Call.ofText (job.input.extract run.text run.cursor) := by
  rw [shown, queue_ranges, Array.foldl_push]
  rfl

theorem consultParser_emitter (kind : TokenKind) :
    (run.consultParser job kind).emitter = run.emitter := by
  unfold consultParser
  split
  · rfl
  · dsimp only
    split <;> rfl

@[simp]
theorem consultParser_shown (kind : TokenKind) :
    (run.consultParser job kind).shown job = run.shown job := by
  rw [shown, consultParser_ranges, consultParser_emitter]
  rfl

theorem ofText_extract_of_le {stop start : Nat} (hempty : stop ≤ start) :
    Call.ofText (job.input.extract start stop) = #[] := by
  rw [Array.extract_empty_of_stop_le_start hempty]
  rfl

theorem token_shown (kind : TokenKind) :
    (run.token job kind).shown job =
      run.shown job ++ Call.ofText (job.input.extract run.text run.cursor) := by
  unfold token
  split
  case isTrue hempty => rw [ofText_extract_of_le job hempty, Array.append_empty]
  case isFalse => rw [flushIfFull_shown, consultParser_shown, queue_shown]

theorem unterminated_shown :
    (run.unterminated job).shown job =
      run.shown job ++ Call.ofText (job.input.extract run.text run.cursor) := by
  unfold unterminated
  split
  case isTrue hempty => rw [ofText_extract_of_le job hempty, Array.append_empty]
  case isFalse =>
    have hqueue := flushIfFull_shown job (run.queue .text)
    rw [queue_shown] at hqueue
    exact hqueue

theorem enter_shown (delegation : Delegation) :
    (run.enter job delegation).shown job =
      (run.shown job).push (.startLexing (job.catalog.name delegation.target)) := by
  rw [shown_of_ranges_empty job _ (enter_ranges job run delegation)]
  simp only [enter, Emitter.startLexing_shown]
  split
  · rw [flush_emitter_shown]
  · rw [flush_emitter_shown]
    rfl

theorem leave_shown (frame : Frame) :
    (run.leave job frame).shown job =
      (run.shown job).push (.endLexing (run.nameOf job frame.child)) := by
  rw [shown_of_ranges_empty job _ (leave_ranges job run frame), ← flush_emitter_shown]
  unfold leave
  dsimp only
  split
  · exact Emitter.endLexing_shown _ _
  · exact Emitter.endLexing_shown _ _

/-- Of a document everything is shown that was produced. -/
theorem document_shown : (run.document job).filter Call.isScanned = run.shown job := by
  have hshown := (run.flush job).emitter.endDocument_shown
  rw [flush_emitter_shown] at hshown
  exact hshown

end Run

end Highlighting
