import Highlighting.Engine.Highlight

/-! When a call panics, and what it comes to otherwise. -/
namespace Highlighting

def Attempt.returned? : Attempt → Option Highlighted
  | .panicked => none
  | .returned highlighted => some highlighted

variable {fuel : Nat} {catalog : Catalog} {host : Host} {config : EngineConfig} {source : Bytes}
  {lexers : List Lexer}

theorem queueLimit_lt_max_iff (capacity : Nat) :
    queueLimit < max 1 capacity ↔ queueLimit < capacity := by
  have hone : 1 ≤ queueLimit := by decide
  omega

/-- A call panics exactly if it has a lexer and room for more spans is asked for than any allocation can
have. -/
theorem attempt_eq_panicked_iff :
    attempt fuel catalog host config source lexers = some .panicked ↔
      lexers ≠ [] ∧ queueLimit < config.bufferCapacity := by
  simp only [attempt, queueLimit_lt_max_iff]
  split
  case isTrue hpanics => exact iff_of_true rfl hpanics
  case isFalse hreturns =>
    refine iff_of_false ?_ hreturns
    intro hpanicked
    obtain ⟨highlighted, -, hreturned⟩ := Option.map_eq_some_iff.mp hpanicked
    cases hreturned

/-- A call returns what its run comes to, if there can be a queue of the length asked for. -/
theorem attempt_eq_of_highlight (hroom : config.bufferCapacity ≤ queueLimit) {highlighted : Highlighted}
    (hrun : highlight fuel catalog host config source lexers = some highlighted) :
    attempt fuel catalog host config source lexers = some (.returned highlighted) := by
  simp only [attempt, queueLimit_lt_max_iff, hrun]
  exact if_neg (fun hpanics => Nat.not_lt.mpr hroom hpanics.2)

theorem attempt_eq_returned {highlighted : Highlighted}
    (hreturned : attempt fuel catalog host config source lexers = some (.returned highlighted)) :
    highlight fuel catalog host config source lexers = some highlighted := by
  unfold attempt at hreturned
  split at hreturned
  case isTrue => cases hreturned
  case isFalse =>
    obtain ⟨same, hrun, hsame⟩ := Option.map_eq_some_iff.mp hreturned
    cases hsame
    exact hrun

/-- Calls with different settings come to the same as far as their runs do, unless room for the queue can
be had for one of them only. -/
theorem attempt_map_congr {α : Type} (f : Highlighted → α) {other : EngineConfig}
    (hroom : config.bufferCapacity ≤ queueLimit ↔ other.bufferCapacity ≤ queueLimit)
    (hsame : (highlight fuel catalog host config source lexers).map f =
      (highlight fuel catalog host other source lexers).map f) :
    (attempt fuel catalog host config source lexers).map (fun ended => ended.returned?.map f) =
      (attempt fuel catalog host other source lexers).map (fun ended => ended.returned?.map f) := by
  have hpanics : (lexers ≠ [] ∧ queueLimit < max 1 config.bufferCapacity) ↔
      (lexers ≠ [] ∧ queueLimit < max 1 other.bufferCapacity) := by
    rw [queueLimit_lt_max_iff, queueLimit_lt_max_iff, ← Nat.not_le, ← Nat.not_le, hroom]
  have hreturns (run? : Option Highlighted) :
      (run?.map .returned).map (fun ended : Attempt => ended.returned?.map f) = (run?.map f).map some := by
    cases run? <;> rfl
  simp only [attempt, hpanics]
  split
  case isTrue => rfl
  case isFalse => rw [hreturns, hreturns, hsame]

end Highlighting
