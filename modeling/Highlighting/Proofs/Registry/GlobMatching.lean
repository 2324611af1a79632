import Highlighting.Registry.Glob
import Mathlib.Data.List.Forall2
import Mathlib.Data.List.Infix

/-! What a glob matches. The search goes through the parts of a glob and keeps what can be left of the
text behind them; it ends with nothing left if and only if the text can be cut into segments that are
matched by the parts one by one. -/
namespace Highlighting

def GlobPiece.Matches : GlobPiece → List Char → Prop
  | .anyRun, _ => True
  | .anyOne, text => ∃ c, text = [c]
  | .literal c, text => text = [c]
  | .oneOf cls, text => ∃ c, cls.contains c = true ∧ text = [c]

namespace Glob

variable {rests : List (List Char)} {rest cs : List Char} {p : Char → Bool} {piece : GlobPiece}

def Nested (rests : List (List Char)) : Prop :=
  rests.Pairwise (fun longer shorter => shorter <:+ longer)

theorem suffixes_eq_tails (cs : List Char) : suffixes cs = cs.tails := by
  induction cs with
  | nil => rfl
  | cons c cs ih =>
    unfold suffixes at ih ⊢
    rw [List.foldr_cons, ih, List.tails_cons]
    cases cs <;> rfl

theorem nested_suffixes (cs : List Char) : Nested (suffixes cs) := by
  rw [suffixes_eq_tails]
  induction cs with
  | nil => exact List.pairwise_singleton _ _
  | cons c cs ih =>
    rw [List.tails_cons]
    refine .cons ?_ ih
    intro shorter hshorter
    exact (List.mem_tails _ _ |>.mp hshorter).trans (List.suffix_cons c cs)

theorem stepOver_some_iff {start : List Char} :
    (match start with
      | [] => none
      | c :: rest => if p c then some rest else none) = some rest ↔
      ∃ c, p c = true ∧ start = c :: rest := by
  cases start with
  | nil => simp
  | cons c tail =>
    by_cases hp : p c = true
    · simp [hp]
    · simp [hp]

theorem mem_stepOver : rest ∈ stepOver p rests ↔ ∃ c, p c = true ∧ c :: rest ∈ rests := by
  rw [stepOver, List.mem_filterMap]
  constructor
  · rintro ⟨start, hstart, hleft⟩
    obtain ⟨c, hp, rfl⟩ := stepOver_some_iff.mp hleft
    exact ⟨c, hp, hstart⟩
  · rintro ⟨c, hp, hstart⟩
    exact ⟨c :: rest, hstart, if_pos hp⟩

theorem Nested.stepOver (h : Nested rests) (p : Char → Bool) : Nested (stepOver p rests) := by
  refine List.Pairwise.filterMap _ ?_ h
  intro longer shorter hends left hleft left' hleft'
  obtain ⟨c, -, rfl⟩ := stepOver_some_iff.mp hleft
  obtain ⟨d, -, rfl⟩ := stepOver_some_iff.mp hleft'
  rcases List.suffix_cons_iff.mp hends with hsame | hinside
  · rw [(List.cons.inj hsame).2]
  · exact (List.suffix_cons d left').trans hinside

theorem mem_step (h : Nested rests) (piece : GlobPiece) :
    rest ∈ step rests piece ↔ ∃ segment, piece.Matches segment ∧ segment ++ rest ∈ rests := by
  have hsingle (p : Char → Bool) (hmatches : ∀ segment, piece.Matches segment ↔
      ∃ c, p c = true ∧ segment = [c]) : rest ∈ Glob.stepOver p rests ↔
        ∃ segment, piece.Matches segment ∧ segment ++ rest ∈ rests := by
    rw [mem_stepOver]
    constructor
    · rintro ⟨c, hp, hstart⟩
      exact ⟨[c], (hmatches [c]).mpr ⟨c, hp, rfl⟩, hstart⟩
    · rintro ⟨segment, hsegment, hstart⟩
      obtain ⟨c, hp, rfl⟩ := (hmatches segment).mp hsegment
      exact ⟨c, hp, hstart⟩
  cases piece with
  | anyRun =>
    cases rests with
    | nil => simp [step]
    | cons longest others =>
      have hlongest : ∀ other ∈ others, other <:+ longest := (List.pairwise_cons.mp h).1
      change rest ∈ suffixes longest ↔ _
      rw [suffixes_eq_tails, List.mem_tails]
      constructor
      · rintro ⟨segment, hsegment⟩
        exact ⟨segment, trivial, hsegment ▸ List.mem_cons_self⟩
      · rintro ⟨segment, -, hstart⟩
        -- All that can be left are ends of the longest, and so are their ends.
        have hend : rest <:+ segment ++ rest := List.suffix_append segment rest
        rcases List.mem_cons.mp hstart with hfirst | hother
        · exact hfirst ▸ hend
        · exact hend.trans (hlongest _ hother)
  | anyOne => exact hsingle _ (by simp [GlobPiece.Matches])
  | literal c => exact hsingle _ (by simp [GlobPiece.Matches])
  | oneOf cls => exact hsingle _ (fun _ => Iff.rfl)

theorem Nested.step (h : Nested rests) (piece : GlobPiece) : Nested (step rests piece) := by
  cases piece with
  | anyRun =>
    cases rests with
    | nil => exact .nil
    | cons longest others => exact nested_suffixes longest
  | anyOne | literal | oneOf => exact h.stepOver _

theorem mem_foldl_step (glob : Glob) (h : Nested rests) :
    rest ∈ glob.foldl Glob.step rests ↔
      ∃ segments, List.Forall₂ GlobPiece.Matches glob segments ∧ segments.flatten ++ rest ∈ rests := by
  induction glob generalizing rests with
  | nil => simp
  | cons piece glob ih =>
    rw [List.foldl_cons, ih (h.step piece)]
    simp only [mem_step h, List.forall₂_cons_left_iff]
    constructor
    · rintro ⟨segments, hsegments, segment, hsegment, hstart⟩
      refine ⟨segment :: segments, ⟨segment, segments, hsegment, hsegments, rfl⟩, ?_⟩
      rw [List.flatten_cons, List.append_assoc]
      exact hstart
    · rintro ⟨_, ⟨segment, segments, hsegment, hsegments, rfl⟩, hstart⟩
      refine ⟨segments, hsegments, segment, hsegment, ?_⟩
      rw [List.flatten_cons, List.append_assoc] at hstart
      exact hstart

/-- A glob matches the texts that can be cut into segments for its parts. -/
theorem matchesChars_iff (glob : Glob) (cs : List Char) :
    glob.matchesChars cs = true ↔
      ∃ segments, List.Forall₂ GlobPiece.Matches glob segments ∧ segments.flatten = cs := by
  have hone : Nested [cs] := List.pairwise_singleton _ _
  rw [matchesChars, List.contains_iff_mem, mem_foldl_step glob hone]
  simp only [List.append_nil, List.mem_singleton]

end Glob

end Highlighting
