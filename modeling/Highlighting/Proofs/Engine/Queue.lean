import Highlighting.Proofs.Engine.Place

/-! The queued spans as ranges of the input. Parsers give spans other kinds and never other ranges, so
what is queued is fixed by the places of the run at its tokens. -/
namespace Highlighting

def Span.range (span : Span) : Nat × Nat :=
  (span.start, span.stop)

section Relabelling

variable {β : Type} {form : Span → β} (hform : ∀ span kind, form (span.relabel kind) = form span)

include hform

theorem Relabelling.apply_map (spans : Array Span) (relabelling : Relabelling) :
    (relabelling.apply spans).map form = spans.map form := by
  apply Array.ext
  · simp [apply]
  · intro i hi _
    simp only [apply, Array.getElem_map, Array.getElem_modify]
    split
    · exact hform _ _
    · rfl

/-- What a span is, its kind apart, no parser changes. -/
theorem Relabelling.applyAll_map (relabellings : List Relabelling) (spans : Array Span) :
    (applyAll relabellings spans).map form = spans.map form := by
  induction relabellings generalizing spans with
  | nil => rfl
  | cons relabelling rest ih =>
    exact (ih (relabelling.apply spans)).trans (apply_map hform spans relabelling)

end Relabelling

theorem Relabelling.applyAll_ranges (relabellings : List Relabelling) (spans : Array Span) :
    (applyAll relabellings spans).map Span.range = spans.map Span.range :=
  applyAll_map (fun _ _ => rfl) relabellings spans

namespace Run

variable (job : Job) (run : Run)

def ranges (run : Run) : Array (Nat × Nat) :=
  run.pending.map Span.range

theorem ranges_of_pending_empty (hempty : run.pending = #[]) : run.ranges = #[] := by
  rw [ranges, hempty, Array.map_empty]

@[simp]
theorem flush_ranges : (run.flush job).ranges = #[] :=
  ranges_of_pending_empty _ rfl

@[simp]
theorem queue_ranges (kind : TokenKind) :
    (run.queue kind).ranges = run.ranges.push (run.text, run.cursor) := by
  simp only [ranges, queue, Array.map_push]
  rfl

@[simp]
theorem abandonParsers_ranges : run.abandonParsers.ranges = run.ranges := by
  simp only [ranges, abandonParsers, Array.map_map]
  rfl

@[simp]
theorem consultParser_ranges (kind : TokenKind) :
    (run.consultParser job kind).ranges = run.ranges := by
  unfold consultParser
  split
  · rfl
  · dsimp only
    split
    · exact Relabelling.applyAll_ranges _ _
    · rw [abandonParsers_ranges]
      exact Relabelling.applyAll_ranges _ _

/-- Whatever happens to a token, the queue holds no range but those it held and that of the token. -/
theorem mem_token_ranges {kind : TokenKind} {range : Nat × Nat}
    (hrange : range ∈ (run.token job kind).ranges) :
    range ∈ run.ranges ∨ range = (run.text, run.cursor) := by
  unfold token flushIfFull at hrange
  split at hrange
  · exact Or.inl hrange
  · -- A full queue is rendered at once and then empty.
    split at hrange
    · simp at hrange
    · simpa using hrange

theorem mem_unterminated_ranges {range : Nat × Nat}
    (hrange : range ∈ (run.unterminated job).ranges) :
    range ∈ run.ranges ∨ range = (run.text, run.cursor) := by
  unfold unterminated flushIfFull at hrange
  split at hrange
  · exact Or.inl hrange
  · split at hrange
    · have hnone : range ∈ ((run.queue .text).flush job).ranges := hrange
      simp at hnone
    · have hpush : range ∈ (run.queue .text).ranges := hrange
      simpa using hpush

theorem mem_fallback_ranges {delegation : Delegation} {range : Nat × Nat}
    (hrange : range ∈ (run.fallback job delegation).ranges) :
    range ∈ run.ranges ∨ range = (run.text, run.cursor) ∨ range = (run.text, run.limit) := by
  unfold fallback at hrange
  dsimp only at hrange
  split at hrange
  · rcases mem_token_ranges job _ hrange with hold | hnew
    · exact Or.inl hold
    · exact Or.inr (Or.inr hnew)
  · rcases mem_token_ranges job _ hrange with hold | hnew
    · exact Or.inl hold
    · exact Or.inr (Or.inl hnew)

@[simp]
theorem enter_ranges (delegation : Delegation) : (run.enter job delegation).ranges = #[] :=
  ranges_of_pending_empty _ rfl

@[simp]
theorem leave_ranges (frame : Frame) : (run.leave job frame).ranges = #[] := by
  apply ranges_of_pending_empty
  unfold leave
  dsimp only
  split <;> rfl

@[simp]
theorem scan_ranges {event : ScanEvent} {scanned : Run}
    (hscan : run.scan job = some (event, scanned)) : scanned.ranges = run.ranges := by
  obtain ⟨element, -, -, rfl⟩ := (run.scan_eq_some_iff job).mp hscan
  rfl

end Run

end Highlighting
