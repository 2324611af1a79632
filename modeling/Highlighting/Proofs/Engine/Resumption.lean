import Highlighting.Proofs.Engine.Delegates
import Highlighting.Proofs.Engine.Scanning

/-! The condition in which a delegating lexer goes on. It is kept in the frame of the delegation and set
when the delegate is done, whatever became of the lexer meanwhile. A delegation that is turned down has
no frame: its lexer goes on in the condition in which the scan call left it. -/
namespace Highlighting

namespace LiveLexers

def InCondition (live : LiveLexers) (id : LanguageId) (condition : Int) : Prop :=
  ∀ element ∈ live.table, element.language = id → element.lexer.state.condition = condition

variable {live : LiveLexers} {id : LanguageId} {condition : Int}

theorem inCondition_update (live : LiveLexers) (id : LanguageId) (condition : Int) :
    (live.update id (fun element =>
      element.setState (element.lexer.state.start condition))).InCondition id condition := by
  intro changed hchanged hlanguage
  obtain ⟨element, -, rfl⟩ := List.mem_map.mp hchanged
  split at hlanguage
  case isTrue hid =>
    rw [if_pos hid]
    rfl
  case isFalse hother => exact absurd (beq_iff_eq.mpr hlanguage) hother

theorem InCondition.erase (h : live.InCondition id condition) (other : LanguageId) :
    (live.erase other).InCondition id condition :=
  fun element helement hlanguage => h element (List.mem_of_mem_filter helement) hlanguage

end LiveLexers

namespace Run

def condition? (run : Run) : Option Int :=
  (run.prepare.live.get? run.prepare.active).map (fun element => element.lexer.state.condition)

theorem condition?_eq_some {run : Run} {condition : Int}
    (h : run.live.InCondition run.active condition) (hlive : run.active ∈ run.live.languages) :
    run.condition? = some condition := by
  obtain ⟨element, hmem, hlanguage, hget⟩ := run.live.get?_of_mem_languages run.active hlive
  exact Option.map_eq_some_iff.mpr ⟨element, hget, h element hmem hlanguage⟩

theorem condition?_scanning (run : Run) : run.scanning.condition? = run.condition? := by
  have hget := run.live.unparsed_get? run.active
  simp only [condition?, prepare, scanning, hget, Option.map_map]
  rfl

theorem fallback_condition? (job : Job) (run : Run) (delegation : Delegation) :
    (run.fallback job delegation).condition? = run.condition? := by
  rw [← condition?_scanning, fallback_scanning]
  exact run.condition?_scanning

/-- The end of a delegation sets the condition that its frame keeps, also where the delegate goes. -/
theorem leave_inCondition (job : Job) (run : Run) {frame : Frame} {condition : Int}
    (hresume : frame.resume = some condition) :
    (run.leave job frame).live.InCondition frame.parent condition := by
  have hresumed : (run.resumed job frame).live.InCondition frame.parent condition := by
    simp only [resumed, hresume]
    exact LiveLexers.inCondition_update _ _ _
  rw [leave_eq]
  split
  · exact hresumed.erase frame.child
  · exact hresumed

/-- The first step back from a delegation that was entered with `depth` delegations under way: up to
`before` there were more of them, at `resumed` there are as many. -/
structure FirstBack (job : Job) (entered : Run) (depth : Nat) (before resumed : Run) : Prop where
  reached : Reaches job entered before
  inside : ∀ mid, Reaches job entered mid → Reaches job mid before → depth < mid.frames.length
  step : before.step job = .running resumed
  back : resumed.frames.length = depth

section Returning

variable {job : Job} {config : EngineConfig} {lexer : Lexer} {others : List Lexer}
  {run scanned before resumed : Run} {delegation : Delegation}
  {base : Array Call} {limit : Nat} {frame : Frame} {outer deeper : List Frame} {top : LanguageId}

theorem InDelegate.depth_lt (h : run.InDelegate job base limit frame outer deeper) :
    outer.length < run.frames.length := by
  rw [h.frames, List.length_append, List.length_cons]
  omega

theorem Returns.frames_eq (h : Returns job base limit frame outer before scanned resumed)
    (hvalid : before.place.Valid job.input.size top) : resumed.frames = outer :=
  congrArg Place.frames (h.place (scan_valid hvalid h.scan))

/-- The first step back is the one that ends the delegation. -/
theorem FirstBack.returns {entered : Run} (h : FirstBack job entered outer.length before resumed)
    (hvalid : entered.place.Valid job.input.size top)
    (hinside : entered.InDelegate job base limit frame outer deeper) :
    ∃ scanned, Returns job base limit frame outer before scanned resumed := by
  obtain ⟨hreached, hdeep, hstep, hback⟩ := h
  -- The induction is on the steps to the last one inside, the first one split off.
  induction hreached using Relation.ReflTransGen.head_induction_on generalizing deeper with
  | refl =>
    rcases hinside.step hvalid hstep with ⟨further, hwithin⟩ | hreturns
    · exact absurd hback (Nat.ne_of_gt hwithin.depth_lt)
    · exact hreturns
  | @head run next hnext hrest ih =>
    rcases hinside.step hvalid hnext with ⟨further, hwithin⟩ | ⟨scanned, hreturns⟩
    · apply ih (step_valid hvalid hnext) hwithin
      intro mid hmid
      exact hdeep mid (hmid.head hnext)
    · have hmore := hdeep next (.single hnext) hrest
      rw [hreturns.frames_eq hvalid] at hmore
      exact absurd hmore (Nat.lt_irrefl _)

theorem InDelegate.resume_eq
    (h : (scanned.enter job delegation).InDelegate job base limit frame outer []) :
    frame.resume = delegation.resume := by
  have hframes := h.frames.symm.trans (congrArg Place.frames (enter_place job scanned delegation))
  exact congrArg Frame.resume (List.cons.inj hframes).1

/-- A delegation that was accepted comes back to the delegating lexer in the condition asked for. -/
theorem FirstBack.resumes {condition : Int}
    (h : FirstBack job (scanned.enter job delegation) scanned.frames.length before resumed)
    (hentered : Reaches job (job.start config lexer others) (scanned.enter job delegation))
    (hresume : delegation.resume = some condition) :
    resumed.active = scanned.active ∧ resumed.condition? = some condition := by
  obtain ⟨frame, hparent, -, -, -, hinside⟩ := enter_inDelegate job scanned delegation
  have hbefore : Reaches job (job.start config lexer others) before := hentered.trans h.reached
  obtain ⟨returned, hreturns⟩ := h.returns hentered.valid hinside
  have hactive : resumed.active = frame.parent :=
    congrArg Place.active (hreturns.place (scan_valid hbefore.valid hreturns.scan))
  -- The lexer may have scanned inside its own delegation; its condition is set after that.
  have hset : resumed.live.InCondition resumed.active condition := by
    obtain ⟨stalls, hresumed⟩ := hreturns.resumed_eq
    rw [hactive, hresumed]
    exact leave_inCondition job _ (hinside.resume_eq.trans hresume)
  have hlive := (step_valid hbefore.valid h.step).active_live
  exact ⟨hactive.trans hparent, condition?_eq_some hset hlive⟩

/-- In a run that ends every delegation that was accepted comes back. -/
theorem EndsAt.comes_back {final : Run} (hend : EndsAt job (job.start config lexer others) final)
    (hentered : Reaches job (job.start config lexer others) (scanned.enter job delegation)) :
    ∃ before resumed,
      FirstBack job (scanned.enter job delegation) scanned.frames.length before resumed := by
  obtain ⟨last, hahead, hframes, -⟩ := hend.ahead hentered
  obtain ⟨frame, -, -, -, -, hinside⟩ := enter_inDelegate job scanned delegation
  obtain ⟨before, returned, resumed, hreturns, hreached, -, hmeanwhile⟩ :=
    hahead.returns hframes hentered.valid hinside
  have hbefore : Reaches job (job.start config lexer others) before := hentered.trans hreached
  refine ⟨before, resumed, hreached, ?_, hreturns.step, ?_⟩
  · intro mid hmid hrest
    rcases hmeanwhile mid hmid with ⟨⟨deeper, hwithin⟩, -⟩ | hlater
    · exact hwithin.depth_lt
    · -- From the end of the delegation, with its call made, nothing before it is reached.
      have hfewer := (Reaches.extends (hlater.trans hrest)).length_le
      exact absurd hreturns.more (Nat.not_lt_of_le hfewer)
  · exact congrArg List.length (hreturns.frames_eq hbefore.valid)

/-- A delegation that is turned down leaves the delegating lexer as its scan call did. -/
theorem step_of_refuse_condition?
    (hscan : run.prepare.scan job = some (.delegate delegation, scanned))
    (hrefused : scanned.refuses delegation.target = true) :
    ∃ next, (run.step job = .running next ∨ ∃ error, run.step job = .aborted error next) ∧
      next.active = scanned.active ∧ next.frames = scanned.frames ∧
      next.condition? = scanned.condition? := by
  have hplace := fallback_place job scanned delegation
  obtain ⟨stalls, hstep⟩ := step_of_refuse hscan hrefused
  exact ⟨_, hstep, congrArg Place.active hplace, congrArg Place.frames hplace,
    fallback_condition? job scanned delegation⟩

end Returning

end Run

/-- A delegating lexer that asks to go on in a condition does so if its delegation is accepted: whatever
the delegate and those inside it do, the first scan call back at the same depth is one of that lexer, in
that condition, and in a run that ends there is one. If the delegation is turned down, the next scan call
is one of that lexer as well, but in the condition in which it was when it asked. -/
theorem delegating_lexer_resumes (job : Job) (config : EngineConfig) (lexer : Lexer)
    (others : List Lexer) (run scanned : Run) (delegation : Delegation) (condition : Int)
    (hreach : Run.Reaches job (job.start config lexer others) run)
    (hscan : run.prepare.scan job = some (.delegate delegation, scanned))
    (hresume : delegation.resume = some condition) :
    (scanned.refuses delegation.target = false →
      run.step job = .running (scanned.enter job delegation) ∧
      (∀ before resumed,
        Run.FirstBack job (scanned.enter job delegation) run.frames.length before resumed →
          resumed.active = run.active ∧ resumed.condition? = some condition) ∧
      (∀ final, Run.EndsAt job (job.start config lexer others) final →
        ∃ before resumed,
          Run.FirstBack job (scanned.enter job delegation) run.frames.length before resumed)) ∧
    (scanned.refuses delegation.target = true →
      ∃ next, (run.step job = .running next ∨ ∃ error, run.step job = .aborted error next) ∧
        next.active = run.active ∧ next.frames = run.frames ∧
        next.condition? = scanned.condition?) := by
  have hplace := (Run.scan_place job run.prepare hscan).1
  have hactive : scanned.active = run.active := congrArg Place.active hplace
  have hframes : scanned.frames = run.frames := congrArg Place.frames hplace
  rw [← hactive, ← hframes]
  constructor
  · intro haccepted
    have hstep := Run.step_of_enter hscan haccepted
    have hentered : Run.Reaches job (job.start config lexer others) (scanned.enter job delegation) :=
      hreach.tail hstep
    refine ⟨hstep, ?_, ?_⟩
    · intro before resumed hback
      exact hback.resumes hentered hresume
    · intro final hend
      exact hend.comes_back hentered
  · intro hrefused
    exact Run.step_of_refuse_condition? hscan hrefused

def Delegation.nesting : Delegation where
  mode := .full
  target := .custom 1
  fallback := .text
  resume := some 0

def Catalog.nesting : Catalog where
  custom number :=
    { name := if number = 0 then "Outer" else "Inner"
      grammar :=
        { scan := fun _ _ cx =>
            if cx.state.condition = 1 then (.delegate .nesting, cx)
            else if cx.atEnd then (.done, cx)
            else if number = 0 ∧ cx.peek = some 0x3C then
              (.token .punctuation, cx.bump.setState (cx.state.start 1))
            else (.token .text, cx.bump) } }

def Job.nesting : Job :=
  Job.ofSource .nesting (fun _ => none) {} #[0x3C, 0x61]

def Lexer.nesting : Lexer :=
  Lexer.create .nesting (.custom 0)

def Lexer.idle (count : Nat) : List Lexer :=
  (List.range count).map (fun number => Lexer.create .nesting (.custom (number + 2)))

theorem nested_lexer_resumes :
    ∃ run scanned before resumed,
      Run.Reaches Job.nesting (Job.nesting.start {} .nesting []) run ∧
      run.prepare.scan Job.nesting = some (.delegate .nesting, scanned) ∧
      scanned.refuses (.custom 1) = false ∧ scanned.condition? = some 1 ∧
      Run.FirstBack Job.nesting (scanned.enter Job.nesting .nesting) run.frames.length before resumed ∧
      resumed.active = run.active ∧ resumed.condition? = some 0 := by
  obtain ⟨highlighted, hrun, hok⟩ : ∃ highlighted,
      highlight 8 .nesting (fun _ => none) {} #[0x3C, 0x61] [.nesting] = some highlighted ∧
      highlighted.outcome = .ok #[.startDocument, .startToken .punctuation, .write #[0x3C],
        .endToken .punctuation, .startLexing "Inner", .startToken .text, .write #[0x61],
        .endToken .text, .endLexing "Inner", .endDocument] :=
    exists_highlighted_of_calls (by decide +kernel)
  obtain ⟨_, _, final, hlexers, hend, -⟩ := highlight_eq_ok hrun hok
  obtain ⟨rfl, rfl⟩ := List.cons.inj hlexers
  have hasked : (Run.after? Job.nesting 1 (Job.nesting.start {} .nesting [])).bind (fun run =>
      (run.prepare.scan Job.nesting).map (fun found =>
        (found.1, found.2.refuses (.custom 1), found.2.condition?))) =
      some (.delegate .nesting, false, some 1) := by decide +kernel
  obtain ⟨run, hafter, hfound⟩ := Option.bind_eq_some_iff.mp hasked
  obtain ⟨⟨event, scanned⟩, hscan, hvalues⟩ := Option.map_eq_some_iff.mp hfound
  obtain ⟨rfl, haccepted, hcondition⟩ : event = .delegate .nesting ∧
      scanned.refuses (.custom 1) = false ∧ scanned.condition? = some 1 := by simpa using hvalues
  have hreach := Run.reaches_of_after? hafter
  obtain ⟨-, hresumes, hreturns⟩ := (delegating_lexer_resumes Job.nesting {} .nesting [] run
    scanned .nesting 0 hreach hscan rfl).1 haccepted
  obtain ⟨before, resumed, hback⟩ := hreturns final hend
  obtain ⟨hactive, hresumed⟩ := hresumes before resumed hback
  exact ⟨run, scanned, before, resumed, hreach, hscan, haccepted, hcondition, hback, hactive, hresumed⟩

theorem Run.after?_one {job : Job} {run next : Run} (hafter : after? job 1 run = some next) :
    run.step job = .running next := by
  simp only [after?] at hafter
  split at hafter
  case h_1 following hstep =>
    cases hafter
    exact hstep
  case h_2 => cases hafter

/-- With as many lexers live as may be, the same delegation is turned down. Its lexer stays in the
condition in which it asked and asks again, and the run is given up at the end of the input. -/
theorem refused_lexer_asks_again :
    ∃ run scanned next highlighted,
      Run.Reaches Job.nesting (Job.nesting.start {} .nesting (Lexer.idle 31)) run ∧
      run.prepare.scan Job.nesting = some (.delegate .nesting, scanned) ∧
      scanned.refuses (.custom 1) = true ∧
      run.step Job.nesting = .running next ∧
      next.active = run.active ∧ next.frames = run.frames ∧ next.condition? = some 1 ∧
      highlight 16 .nesting (fun _ => none) {} #[0x3C, 0x61] (.nesting :: Lexer.idle 31) =
        some highlighted ∧
      highlighted.outcome = .error (.aborted "Outer" 2 stallLimit) := by
  have hasked : (Run.after? Job.nesting 1 (Job.nesting.start {} .nesting (Lexer.idle 31))).bind
      (fun run => (Run.after? Job.nesting 1 run).bind (fun next =>
        (run.prepare.scan Job.nesting).map (fun found =>
          (found.1, found.2.refuses (.custom 1), decide (next.active = run.active),
            decide (next.frames = run.frames), next.condition?)))) =
      some (.delegate .nesting, true, true, true, some 1) := by decide +kernel
  obtain ⟨run, hafter, hstepped⟩ := Option.bind_eq_some_iff.mp hasked
  obtain ⟨next, hnext, hfound⟩ := Option.bind_eq_some_iff.mp hstepped
  obtain ⟨⟨event, scanned⟩, hscan, hvalues⟩ := Option.map_eq_some_iff.mp hfound
  obtain ⟨rfl, hrefused, hactive, hframes, hcondition⟩ : event = .delegate .nesting ∧
      scanned.refuses (.custom 1) = true ∧ next.active = run.active ∧ next.frames = run.frames ∧
      next.condition? = some 1 := by simpa using hvalues
  have herror : (highlight 16 .nesting (fun _ => none) {} #[0x3C, 0x61]
      (.nesting :: Lexer.idle 31)).map (fun highlighted => highlighted.outcome) =
      some (.error (.aborted "Outer" 2 stallLimit)) := by decide +kernel
  obtain ⟨highlighted, hrun, habort⟩ := Option.map_eq_some_iff.mp herror
  exact ⟨run, scanned, next, highlighted, Run.reaches_of_after? hafter, hscan, hrefused,
    Run.after?_one hnext, hactive, hframes, hcondition, hrun, habort⟩

end Highlighting
