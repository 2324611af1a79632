import Highlighting.Proofs.Engine.Place
import Mathlib.Logic.Relation

/-! What a step of a run can do, said once, and what follows for runs of any length. An invariant of a
run is a property that holds before the first step, after every scan call in the weaker form that the
carrying out of the event needs, and after every move. -/
namespace Highlighting.Run

/-- What becomes of a run after its scan call if it goes on, the count of stalls apart. -/
inductive Move (job : Job) (scanned : Run) : ScanEvent → Run → Prop
  | token (kind : TokenKind) : Move job scanned (.token kind) (scanned.token job kind)
  | extend : Move job scanned .extend { scanned with accumulating := true }
  | leave (frame : Frame) (outer : List Frame) (hframes : scanned.frames = frame :: outer) :
      Move job scanned .done ({ scanned.unterminated job with frames := outer }.leave job frame)
  | refuse (delegation : Delegation) (hrefused : scanned.refuses delegation.target = true) :
      Move job scanned (.delegate delegation) (scanned.fallback job delegation)
  | enter (delegation : Delegation) (haccepted : scanned.refuses delegation.target = false) :
      Move job scanned (.delegate delegation) (scanned.enter job delegation)

inductive Stepped (job : Job) (run : Run) : Progress → Prop
  | lost (hscan : run.prepare.scan job = none) : Stepped job run (.finished run.prepare)
  | closed {scanned : Run} (hscan : run.prepare.scan job = some (.done, scanned))
      (hframes : scanned.frames = []) : Stepped job run (.finished (scanned.unterminated job))
  | moved {event : ScanEvent} {scanned after : Run} (stalls : Nat)
      (hscan : run.prepare.scan job = some (event, scanned)) (hmove : Move job scanned event after) :
      Stepped job run (.running { after with stalls := stalls })
  | stuck {event : ScanEvent} {scanned after : Run} (stalls : Nat) (error : HighlightError)
      (hscan : run.prepare.scan job = some (event, scanned)) (hmove : Move job scanned event after) :
      Stepped job run (.aborted error { after with stalls := stalls })

section Steps

variable {job : Job} {run scanned after : Run} {event : ScanEvent}

theorem stepped_stall (hscan : run.prepare.scan job = some (event, scanned))
    (hmove : Move job scanned event after) (lexer : String) :
    Stepped job run (after.stall lexer) := by
  unfold stall
  dsimp only
  split
  · exact .moved _ hscan hmove
  · exact .stuck _ _ hscan hmove

theorem stepped_settle (hscan : run.prepare.scan job = some (event, scanned))
    (hmove : Move job scanned event after) (before : Nat) (lexer : String) :
    Stepped job run (after.settle before lexer) := by
  unfold settle
  split
  · exact .moved 0 hscan hmove
  · exact stepped_stall hscan hmove lexer

theorem unterminated_frames (job : Job) (run : Run) :
    (run.unterminated job).frames = run.frames := by
  unfold unterminated
  split
  · rfl
  · exact congrArg Place.frames (flushIfFull_place job (run.queue .text))

theorem step_stepped (job : Job) (run : Run) : Stepped job run (run.step job) := by
  unfold step
  dsimp only
  split
  case h_1 hscan => exact .lost hscan
  case h_2 event scanned hscan =>
    unfold handle
    cases event with
    | token kind => exact stepped_settle hscan (.token kind) _ _
    | extend => exact stepped_settle hscan .extend _ _
    | done =>
      -- The frames are looked at after the open span is closed, which does not change them.
      have hkeep := unterminated_frames job scanned
      simp only [done]
      split
      case h_1 hframes => exact .closed hscan (hkeep.symm.trans hframes)
      case h_2 frame outer hframes =>
        have hmove : Move job scanned .done _ := .leave frame outer (hkeep.symm.trans hframes)
        split
        · exact .moved _ hscan hmove
        · exact stepped_stall hscan hmove _
    | delegate delegation =>
      dsimp only
      split
      case isTrue hrefused => exact stepped_settle hscan (.refuse delegation hrefused) _ _
      case isFalse haccepted =>
        exact .moved _ hscan (.enter delegation (Bool.eq_false_iff.mpr haccepted))

theorem step_running {next : Run} (hstep : run.step job = .running next) :
    ∃ event scanned after stalls, run.prepare.scan job = some (event, scanned) ∧
      Move job scanned event after ∧ next = { after with stalls := stalls } := by
  have hstepped := step_stepped job run
  rw [hstep] at hstepped
  cases hstepped with
  | moved stalls hscan hmove => exact ⟨_, _, _, stalls, hscan, hmove, rfl⟩

theorem step_aborted {error : HighlightError} {last : Run}
    (hstep : run.step job = .aborted error last) :
    ∃ event scanned after stalls, run.prepare.scan job = some (event, scanned) ∧
      Move job scanned event after ∧ last = { after with stalls := stalls } := by
  have hstepped := step_stepped job run
  rw [hstep] at hstepped
  cases hstepped with
  | stuck stalls error hscan hmove => exact ⟨_, _, _, stalls, hscan, hmove, rfl⟩

/-- A run ends because the active lexer is not live, or with an outermost lexer that is done. -/
theorem step_finished {last : Run} (hstep : run.step job = .finished last) :
    (run.prepare.scan job = none ∧ last = run.prepare) ∨
      ∃ scanned, run.prepare.scan job = some (.done, scanned) ∧ scanned.frames = [] ∧
        last = scanned.unterminated job := by
  have hstepped := step_stepped job run
  rw [hstep] at hstepped
  cases hstepped with
  | lost hscan => exact Or.inl ⟨hscan, rfl⟩
  | closed hscan hframes => exact Or.inr ⟨_, hscan, hframes, rfl⟩

theorem step_of_token {kind : TokenKind} (hscan : run.prepare.scan job = some (.token kind, scanned))
    (hforward : run.cursor < scanned.cursor) :
    run.step job = .running { scanned.token job kind with stalls := 0 } := by
  have hcursor : (scanned.token job kind).cursor = scanned.cursor :=
    congrArg Place.cursor (token_place job scanned kind)
  have hmoves : run.prepare.cursor < (scanned.token job kind).cursor := by
    rw [hcursor]
    exact hforward
  simp only [step, hscan, handle, settle, if_pos hmoves]

theorem step_of_closed (hscan : run.prepare.scan job = some (.done, scanned))
    (hframes : scanned.frames = []) : run.step job = .finished (scanned.unterminated job) := by
  have hnone := (unterminated_frames job scanned).trans hframes
  simp only [step, hscan, handle, done, hnone]

theorem step_of_enter {delegation : Delegation}
    (hscan : run.prepare.scan job = some (.delegate delegation, scanned))
    (haccepted : scanned.refuses delegation.target = false) :
    run.step job = .running (scanned.enter job delegation) := by
  simp [step, hscan, handle, haccepted]

theorem step_of_refuse {delegation : Delegation}
    (hscan : run.prepare.scan job = some (.delegate delegation, scanned))
    (hrefused : scanned.refuses delegation.target = true) :
    ∃ stalls, run.step job = .running { scanned.fallback job delegation with stalls := stalls } ∨
      ∃ error, run.step job =
        .aborted error { scanned.fallback job delegation with stalls := stalls } := by
  have hstep : run.step job = (scanned.fallback job delegation).settle run.prepare.cursor
      (job.catalog.name scanned.active) := by
    simp only [step, hscan, handle, hrefused, if_true]
  rw [hstep]
  unfold settle stall
  dsimp only
  split
  · exact ⟨0, Or.inl rfl⟩
  · split
    · exact ⟨_, Or.inl rfl⟩
    · exact ⟨_, Or.inr ⟨_, rfl⟩⟩

end Steps

def Reaches (job : Job) : Run → Run → Prop :=
  Relation.ReflTransGen (fun run next => run.step job = .running next)

def after? (job : Job) : Nat → Run → Option Run
  | 0, run => some run
  | count + 1, run =>
    match run.step job with
    | .running next => after? job count next
    | _ => none

theorem reaches_of_after? {job : Job} {count : Nat} {first run : Run}
    (hafter : after? job count first = some run) : Reaches job first run := by
  induction count generalizing first with
  | zero =>
    cases hafter
    exact .refl
  | succ count ih =>
    simp only [after?] at hafter
    split at hafter
    case h_1 next hstep => exact Relation.ReflTransGen.head hstep (ih hafter)
    case h_2 => cases hafter

theorem Reaches.after? {job : Job} {first run : Run} (hreach : Reaches job first run) :
    ∃ count, after? job count first = some run := by
  induction hreach using Relation.ReflTransGen.head_induction_on with
  | refl => exact ⟨0, rfl⟩
  | head hstep _ ih =>
    obtain ⟨count, hafter⟩ := ih
    exact ⟨count + 1, by simp only [Run.after?, hstep, hafter]⟩

theorem after?_add {job : Job} (count more : Nat) (first : Run) :
    after? job (count + more) first = (after? job count first).bind (after? job more) := by
  induction count generalizing first with
  | zero => simp [after?]
  | succ count ih =>
    rw [Nat.succ_add]
    simp only [after?]
    cases first.step job with
    | running next => exact ih next
    | finished last => rfl
    | aborted error last => rfl

/-- What holds after every number of steps up to the end of a run holds of all runs reached. -/
theorem Reaches.all_of_after? {job : Job} {first run : Run} {p : Run → Bool} (bound : Nat)
    (hend : (Run.after? job bound first).isNone)
    (hall : ∀ count < bound, (Run.after? job count first).all p) (hreach : Reaches job first run) :
    p run := by
  obtain ⟨count, hafter⟩ := hreach.after?
  have hless : count < bound := by
    apply Nat.lt_of_not_le
    intro hmore
    obtain ⟨more, rfl⟩ := Nat.exists_eq_add_of_le hmore
    rw [after?_add, Option.isNone_iff_eq_none.mp hend] at hafter
    cases hafter
  simpa [hafter] using hall count hless

/-- A property is kept by a whole run if scan calls and moves keep it between them, whatever the count
of stalls. -/
theorem Reaches.invariant {job : Job} {I : Run → Prop} {M : ScanEvent → Run → Prop}
    (hscan : ∀ run event scanned, I run → run.prepare.scan job = some (event, scanned) →
      M event scanned)
    (hmove : ∀ event scanned after stalls, M event scanned → Move job scanned event after →
      I { after with stalls := stalls })
    {first run : Run} (hreach : Reaches job first run) (hfirst : I first) : I run := by
  -- The induction is on the steps taken, the last one split off.
  induction hreach with
  | refl => exact hfirst
  | tail _ hstep ih =>
    obtain ⟨event, scanned, after, stalls, hcall, hafter, rfl⟩ := step_running hstep
    exact hmove event scanned after stalls (hscan _ event scanned ih hcall) hafter

theorem Reaches.undelegated {job : Job} {first run : Run} (hreach : Reaches job first run)
    (hframes : first.frames = [])
    (hnever : ∀ (run : Run) (event : ScanEvent) (scanned : Run), run.active = first.active →
      run.prepare.scan job = some (event, scanned) → ∀ delegation, event ≠ .delegate delegation) :
    run.active = first.active ∧ run.frames = [] := by
  refine hreach.invariant (I := fun run => run.active = first.active ∧ run.frames = [])
    (M := fun event scanned => scanned.active = first.active ∧ scanned.frames = [] ∧
      ∀ delegation, event ≠ .delegate delegation) ?_ ?_ ⟨rfl, hframes⟩
  · intro run event scanned ⟨hactive, hframes⟩ hscan
    have hevent := hnever run event scanned hactive hscan
    obtain ⟨element, -, -, rfl⟩ := (run.prepare.scan_eq_some_iff job).mp hscan
    exact ⟨hactive, hframes, hevent⟩
  · intro event scanned after stalls ⟨hactive, hframes, hevent⟩ hmove
    cases hmove with
    | token kind =>
      have hplace := token_place job scanned kind
      exact ⟨(congrArg Place.active hplace).trans hactive, (congrArg Place.frames hplace).trans hframes⟩
    | extend => exact ⟨hactive, hframes⟩
    | leave frame outer hsome => cases hframes.symm.trans hsome
    | refuse delegation => exact absurd rfl (hevent delegation)
    | enter delegation => exact absurd rfl (hevent delegation)

theorem drive_eq_some {job : Job} {fuel : Nat} {first last : Run}
    {result : Except HighlightError Unit} (hdrive : drive job fuel first = some (result, last)) :
    ∃ run, Reaches job first run ∧
      ((result = .ok () ∧ run.step job = .finished last) ∨
        ∃ error, result = .error error ∧ run.step job = .aborted error last) := by
  induction fuel generalizing first with
  | zero => simp [drive] at hdrive
  | succ fuel ih =>
    simp only [drive] at hdrive
    split at hdrive
    case h_1 next hstep =>
      obtain ⟨run, hreach, hend⟩ := ih hdrive
      exact ⟨run, Relation.ReflTransGen.head hstep hreach, hend⟩
    case h_2 ending hstep =>
      obtain ⟨rfl, rfl⟩ := Prod.mk.inj (Option.some.inj hdrive)
      exact ⟨first, .refl, Or.inl ⟨rfl, hstep⟩⟩
    case h_3 error ending hstep =>
      obtain ⟨rfl, rfl⟩ := Prod.mk.inj (Option.some.inj hdrive)
      exact ⟨first, .refl, Or.inr ⟨error, rfl, hstep⟩⟩

/-- A run has an answer within more fuel than a bound for its steps, if every step that goes on lowers
the bound. -/
theorem drive_isSome {job : Job} {I : Run → Prop} {B : Run → Nat}
    (hstep : ∀ run next, I run → run.step job = .running next → I next ∧ B next < B run)
    {fuel : Nat} {first : Run} (hfirst : I first) (hfuel : B first < fuel) :
    ∃ result last, drive job fuel first = some (result, last) := by
  induction fuel generalizing first with
  | zero => exact absurd hfuel (Nat.not_lt_zero _)
  | succ fuel ih =>
    simp only [drive]
    split
    case h_1 next hnext =>
      obtain ⟨hkept, hless⟩ := hstep first next hfirst hnext
      exact ih hkept (Nat.lt_of_lt_of_le hless (Nat.le_of_lt_succ hfuel))
    case h_2 last _ => exact ⟨_, last, rfl⟩
    case h_3 error last _ => exact ⟨_, last, rfl⟩

/-- A run ends well within more fuel than a bound for its steps, if no step gives it up and every step
that goes on lowers the bound. -/
theorem drive_eq_ok {job : Job} {I : Run → Prop} {B : Run → Nat}
    (hstep : ∀ run, I run → (∃ last, run.step job = .finished last) ∨
      ∃ next, run.step job = .running next ∧ I next ∧ B next < B run)
    {fuel : Nat} {first : Run} (hfirst : I first) (hfuel : B first < fuel) :
    ∃ last, drive job fuel first = some (.ok (), last) := by
  -- Fuel goes down by one with a step, the bound by at least one.
  induction fuel generalizing first with
  | zero => exact absurd hfuel (Nat.not_lt_zero _)
  | succ fuel ih =>
    rcases hstep first hfirst with ⟨last, hlast⟩ | ⟨next, hnext, hkept, hless⟩
    · exact ⟨last, by simp only [drive, hlast]⟩
    · obtain ⟨last, hdrive⟩ := ih hkept (Nat.lt_of_lt_of_le hless (Nat.le_of_lt_succ hfuel))
      exact ⟨last, by simp only [drive, hnext, hdrive]⟩

end Highlighting.Run
