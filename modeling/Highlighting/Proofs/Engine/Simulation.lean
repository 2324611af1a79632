import Highlighting.Proofs.Engine.Scanning
import Highlighting.Proofs.Engine.Transition

/-! Two runs in lockstep. If related runs make scan calls with the same event, and carrying the event
out leads to related runs again, then the two go on for the same number of steps and end in the same
way. The count of stalls is kept here, so a relation has to do with the moves only. -/
namespace Highlighting

inductive Progress.Agree (R : Run → Run → Prop) : Progress → Progress → Prop
  | running {a b : Run} (h : R a b) : Agree R (.running a) (.running b)
  | finished {a b : Run} (h : R a b) : Agree R (.finished a) (.finished b)
  | aborted {a b : Run} (error : HighlightError) (h : R a b) :
      Agree R (.aborted error a) (.aborted error b)

namespace Run

/-- What carrying out an event makes of runs of two jobs: `M` relates them after the scan call that came
to the event, and `R` once the event has been carried out. -/
structure CarriesOut (first second : Job) (R : Run → Run → Prop)
    (M : ScanEvent → Run → Run → Prop) : Prop where
  names : ∀ id, first.catalog.name id = second.catalog.name id
  cursor : ∀ {a b}, R a b → a.cursor = b.cursor
  stalls : ∀ {a b}, R a b → a.stalls = b.stalls
  recount : ∀ {a b}, R a b → ∀ stalls, R { a with stalls := stalls } { b with stalls := stalls }
  active : ∀ {event a b}, M event a b → a.active = b.active
  token : ∀ {a b kind}, M (.token kind) a b → R (a.token first kind) (b.token second kind)
  extend : ∀ {a b}, M .extend a b →
    R { a with accumulating := true } { b with accumulating := true }
  closed : ∀ {a b}, M .done a b → R (a.unterminated first) (b.unterminated second)
  starts : ∀ {a b}, M .done a b → a.frames.map Frame.start = b.frames.map Frame.start
  leave : ∀ {a b}, M .done a b → ∀ frame outer frame' outer', a.frames = frame :: outer →
    b.frames = frame' :: outer' →
      R ({ a.unterminated first with frames := outer }.leave first frame)
        ({ b.unterminated second with frames := outer' }.leave second frame')
  refuses : ∀ {a b delegation}, M (.delegate delegation) a b →
    a.refuses delegation.target = b.refuses delegation.target
  refuse : ∀ {a b delegation}, M (.delegate delegation) a b →
    a.refuses delegation.target = true →
      R (a.fallback first delegation) (b.fallback second delegation)
  enter : ∀ {a b delegation}, M (.delegate delegation) a b →
    a.refuses delegation.target = false →
      R (a.enter first delegation) (b.enter second delegation)

/-- What makes runs of two jobs go in lockstep: `R` relates them before every step. -/
structure Lockstep (first second : Job) (R : Run → Run → Prop)
    (M : ScanEvent → Run → Run → Prop) : Prop extends CarriesOut first second R M where
  scan : ∀ {a b}, R a b →
    (a.prepare.scan first = none ∧ b.prepare.scan second = none ∧ R a.prepare b.prepare) ∨
      ∃ event a' b', a.prepare.scan first = some (event, a') ∧
        b.prepare.scan second = some (event, b') ∧ M event a' b'

/-- Scan calls that come to the same in some form are both without an answer, or come to the same event
and to runs of one form. -/
theorem scan_both {first second : Job} {a b : Run} {β : Type 1} {form : Run → β}
    (h : (a.scan first).map (fun found => (found.1, form found.2)) =
      (b.scan second).map (fun found => (found.1, form found.2))) :
    (a.scan first = none ∧ b.scan second = none) ∨
      ∃ event a' b', a.scan first = some (event, a') ∧ b.scan second = some (event, b') ∧
        form a' = form b' := by
  cases ha : a.scan first with
  | none =>
    rw [ha] at h
    exact Or.inl ⟨rfl, Option.map_eq_none_iff.mp h.symm⟩
  | some found =>
    rw [ha] at h
    obtain ⟨⟨event, b'⟩, hb, heq⟩ := Option.map_eq_some_iff.mp h.symm
    obtain ⟨rfl, hform⟩ := Prod.mk.inj heq
    exact Or.inr ⟨found.1, found.2, b', rfl, hb, hform.symm⟩

section Together

variable {first second : Job} {R : Run → Run → Prop} {M : ScanEvent → Run → Run → Prop}

/-- Runs that agree after every step that the first of them takes end together and with the same result;
so whatever is the same for related runs is the same for their ends. -/
theorem drive_map_of_step {a b : Run}
    (hstep : ∀ run other, Reaches first a run → R run other →
      (run.step first).Agree R (other.step second))
    (fuel : Nat) (hab : R a b) {α : Type} {f g : Except HighlightError Unit × Run → α}
    (hends : ∀ result a b, R a b → f (result, a) = g (result, b)) :
    (Run.drive first fuel a).map f = (Run.drive second fuel b).map g := by
  induction fuel generalizing a b with
  | zero => rfl
  | succ fuel ih =>
    have hagree := hstep a b .refl hab
    simp only [Run.drive]
    generalize hnext : a.step first = progress at hagree
    generalize b.step second = progress' at hagree
    cases hagree with
    | running hrelated =>
      refine ih (fun run other hreach => ?_) hrelated
      exact hstep run other (Relation.ReflTransGen.head hnext hreach)
    | finished hlast => exact congrArg some (hends _ _ _ hlast)
    | aborted error hlast => exact congrArg some (hends _ _ _ hlast)

namespace CarriesOut

theorem stall (h : CarriesOut first second R M) {a b : Run} (hab : R a b) (lexer : String) :
    (a.stall lexer).Agree R (b.stall lexer) := by
  have hcount := h.stalls hab
  have herror : HighlightError.aborted lexer a.cursor (a.stalls + 1) =
      .aborted lexer b.cursor (b.stalls + 1) := by
    rw [h.cursor hab, hcount]
  have hmore := h.recount hab (a.stalls + 1)
  simp only [Run.stall]
  by_cases hless : a.stalls + 1 < stallLimit
  · rw [if_pos hless, if_pos (hcount ▸ hless), ← hcount]
    exact .running hmore
  · rw [if_neg hless, if_neg (hcount ▸ hless), herror, ← hcount]
    exact .aborted _ hmore

theorem settle (h : CarriesOut first second R M) {a b : Run} (hab : R a b) (before : Nat)
    (lexer : String) : (a.settle before lexer).Agree R (b.settle before lexer) := by
  have hcursor := h.cursor hab
  unfold Run.settle
  by_cases hmore : before < a.cursor
  · rw [if_pos hmore, if_pos (hcursor ▸ hmore)]
    exact .running (h.recount hab 0)
  · rw [if_neg hmore, if_neg (hcursor ▸ hmore)]
    exact h.stall hab lexer

theorem done (h : CarriesOut first second R M) {a b : Run} (hab : M .done a b) (lexer : String) :
    (a.done first lexer).Agree R (b.done second lexer) := by
  have hcursor := h.cursor (h.closed hab)
  have hstarts := h.starts hab
  simp only [Run.done]
  cases ha : a.frames with
  | nil =>
    have hb : b.frames = [] := by simpa [ha] using hstarts
    simp only [unterminated_frames, ha, hb]
    exact .finished (h.closed hab)
  | cons frame outer =>
    obtain ⟨frame', outer', hb⟩ : ∃ frame' outer', b.frames = frame' :: outer' := by
      apply List.exists_cons_of_ne_nil
      intro hnil
      simp [ha, hnil] at hstarts
    have hstart : frame.start = frame'.start := by
      simp only [ha, hb, List.map_cons, List.cons.injEq] at hstarts
      exact hstarts.1
    have hleave := h.leave hab frame outer frame' outer' ha hb
    simp only [unterminated_frames, ha, hb]
    by_cases htook : frame.start < (a.unterminated first).cursor
    · rw [if_pos htook, if_pos (hstart ▸ hcursor ▸ htook)]
      exact .running hleave
    · rw [if_neg htook, if_neg (hstart ▸ hcursor ▸ htook)]
      exact h.stall hleave lexer

theorem handle (h : CarriesOut first second R M) {event : ScanEvent} {a b : Run}
    (hab : M event a b) (before : Nat) :
    (a.handle first before event).Agree R (b.handle second before event) := by
  have hname : first.catalog.name a.active = second.catalog.name b.active := by
    rw [h.active hab, h.names]
  simp only [Run.handle, hname]
  cases event with
  | token kind => exact h.settle (h.token hab) before _
  | extend => exact h.settle (h.extend hab) before _
  | done => exact h.done hab _
  | delegate delegation =>
    simp only [← h.refuses hab]
    split
    case isTrue hrefused => exact h.settle (h.refuse hab hrefused) before _
    case isFalse haccepted => exact .running (h.enter hab (Bool.eq_false_iff.mpr haccepted))

/-- Related runs agree after a step if their scan calls come to the same event. -/
theorem step (h : CarriesOut first second R M) {a b a' b' : Run} {event : ScanEvent}
    (hcursor : a.cursor = b.cursor) (ha : a.prepare.scan first = some (event, a'))
    (hb : b.prepare.scan second = some (event, b')) (hscanned : M event a' b') :
    (a.step first).Agree R (b.step second) := by
  have hbefore : a.prepare.cursor = b.prepare.cursor := hcursor
  simp only [Run.step, ha, hb, hbefore]
  exact h.handle hscanned _

end CarriesOut

namespace Lockstep

theorem step (h : Lockstep first second R M) {a b : Run} (hab : R a b) :
    (a.step first).Agree R (b.step second) := by
  rcases h.scan hab with ⟨ha, hb, hprepared⟩ | ⟨event, a', b', ha, hb, hscanned⟩
  · simp only [Run.step, ha, hb]
    exact .finished hprepared
  · exact h.toCarriesOut.step (h.cursor hab) ha hb hscanned

/-- Runs in lockstep end together and with the same result, or go on together; so whatever is the same
for related runs is the same for their ends. -/
theorem drive_map (h : Lockstep first second R M) (fuel : Nat) {a b : Run} (hab : R a b)
    {α : Type} {f g : Except HighlightError Unit × Run → α}
    (hends : ∀ result a b, R a b → f (result, a) = g (result, b)) :
    (Run.drive first fuel a).map f = (Run.drive second fuel b).map g :=
  drive_map_of_step (fun _ _ _ hrelated => h.step hrelated) fuel hab hends

end Lockstep

end Together

end Run

end Highlighting
