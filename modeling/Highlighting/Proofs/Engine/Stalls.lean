import Highlighting.Proofs.Engine.Coverage
import Highlighting.Proofs.Engine.Termination

/-! When a run is given up. Stalls are counted from a first one on, and a scan call that goes forward
sets the count back, unless it is the last one of a delegate. So during a series of stalls the cursor
does not get on, and all that can be queued is a span that was kept open before the first of them. -/
namespace Highlighting

namespace Run

/-- How a step counts whose scan call comes to `event` and leaves `scanned` behind, whatever the
languages do. -/
inductive Tallied (run : Run) (event : ScanEvent) (scanned : Run) : Progress → Prop
  | ended (last : Run) : Tallied run event scanned (.finished last)
  | forward {next : Run} (hmore : run.cursor < next.cursor) (hstalls : next.stalls = 0) :
      Tallied run event scanned (.running next)
  | stalled {next : Run} (hcursor : next.cursor ≤ run.cursor)
      (hstalls : next.stalls = run.stalls + 1) (hlimit : next.stalls < stallLimit) :
      Tallied run event scanned (.running next)
  | entered {next : Run} (hcursor : next.cursor ≤ run.cursor) (hstalls : next.stalls = run.stalls) :
      Tallied run event scanned (.running next)
  | left {next : Run} (hdone : event = .done) (hframes : scanned.frames ≠ [])
      (hcursor : next.cursor = scanned.cursor) (hstalls : next.stalls = run.stalls) :
      Tallied run event scanned (.running next)
  | aborted {last : Run} (lexer : String) (position : Nat) (hcursor : last.cursor ≤ run.cursor)
      (hlimit : stallLimit ≤ run.stalls + 1) :
      Tallied run event scanned (.aborted (.aborted lexer position (run.stalls + 1)) last)

section Tally

variable {job : Job} {top : LanguageId} {run next scanned after : Run} {event : ScanEvent}

theorem tallied_stall (lexer : String) (hcursor : after.cursor ≤ run.cursor)
    (hstalls : after.stalls = run.stalls) : Tallied run event scanned (after.stall lexer) := by
  unfold stall
  dsimp only
  split
  case isTrue hless =>
    have hcount : after.stalls + 1 = run.stalls + 1 := congrArg (· + 1) hstalls
    exact .stalled hcursor hcount hless
  case isFalse hmany =>
    rw [hstalls] at hmany ⊢
    exact .aborted lexer _ hcursor (Nat.le_of_not_lt hmany)

theorem tallied_settle (lexer : String) (hstalls : after.stalls = run.stalls) :
    Tallied run event scanned (after.settle run.cursor lexer) := by
  unfold settle
  split
  case isTrue hmore => exact .forward hmore rfl
  case isFalse hstay => exact tallied_stall lexer (Nat.le_of_not_lt hstay) hstalls

theorem tallied_done (hvalid : run.place.Valid job.input.size top)
    (hscan : run.prepare.scan job = some (.done, scanned)) (lexer : String) :
    Tallied run .done scanned (scanned.done job lexer) := by
  have hscanned := scan_valid hvalid hscan
  have htext : scanned.text ≤ scanned.cursor := hscanned.text_le_cursor
  have hclosed : (scanned.unterminated job).cursor = scanned.cursor :=
    congrArg Place.cursor (unterminated_place job scanned htext)
  simp only [Run.done]
  split
  case h_1 => exact .ended _
  case h_2 frame outer hframes =>
    rw [unterminated_frames] at hframes
    have hcursor := congrArg Place.cursor (unterminated_leave_place job scanned htext frame outer)
    have hstalls := (unterminated_leave_stalls job scanned frame outer).trans (scan_stalls hscan)
    split
    case isTrue => exact .left rfl (hframes ▸ List.cons_ne_nil _ _) hcursor hstalls
    case isFalse hnothing =>
      -- The delegate stopped where it began, which is where the call began or before that.
      rw [hclosed] at hnothing
      have hstart : frame.start ≤ scanned.text := by
        apply hscanned.start_le_text
        rw [show scanned.place.frames = frame :: outer from hframes]
        exact List.mem_cons_self
      have hbegin : scanned.text = run.prepare.text :=
        congrArg Place.text (scan_place job run.prepare hscan).1
      have hle := prepare_text_le hvalid
      have hstay : scanned.cursor ≤ run.cursor := by omega
      exact tallied_stall lexer (hcursor.trans_le hstay) hstalls

theorem step_tallied (hvalid : run.place.Valid job.input.size top)
    (hscan : run.prepare.scan job = some (event, scanned)) :
    Tallied run event scanned (run.step job) := by
  have hstalls := scan_stalls hscan
  have hstep : run.step job = scanned.handle job run.cursor event := by
    simp only [step, hscan]
    rfl
  rw [hstep]
  unfold handle
  cases event with
  | token kind => exact tallied_settle _ ((token_stalls job scanned kind).trans hstalls)
  | extend => exact tallied_settle _ hstalls
  | done => exact tallied_done hvalid hscan _
  | delegate delegation =>
    dsimp only
    split
    · exact tallied_settle _ ((fallback_stalls job scanned delegation).trans hstalls)
    · -- The delegate goes back to the beginning of the pending span.
      have hcursor : (scanned.enter job delegation).cursor = run.prepare.text :=
        (congrArg Place.cursor (enter_place job scanned delegation)).trans
          (congrArg Place.text (scan_place job run.prepare hscan).1)
      exact .entered (hcursor.trans_le (prepare_text_le hvalid))
        ((enter_stalls job scanned delegation).trans hstalls)

def EndsAhead (job : Job) (run : Run) : Prop :=
  ∃ scanned, run.prepare.scan job = some (.done, scanned) ∧ scanned.frames ≠ [] ∧
    run.cursor < scanned.cursor

/-- A step that goes on: the count goes back to zero if the cursor gets on, and else it stays or goes up
by one. -/
theorem step_counts (hvalid : run.place.Valid job.input.size top)
    (hstep : run.step job = .running next) (hahead : ¬ run.EndsAhead job) :
    run.cursor < next.cursor ∧ next.stalls = 0 ∨
      next.cursor ≤ run.cursor ∧ (next.stalls = run.stalls ∨
        next.stalls = run.stalls + 1 ∧ next.stalls < stallLimit) := by
  obtain ⟨event, scanned, hscan⟩ := run.prepare.scan_isSome job hvalid.active_live
  have htallied := step_tallied hvalid hscan
  rw [hstep] at htallied
  cases htallied with
  | forward hmore hstalls => exact Or.inl ⟨hmore, hstalls⟩
  | stalled hcursor hstalls hlimit => exact Or.inr ⟨hcursor, Or.inr ⟨hstalls, hlimit⟩⟩
  | entered hcursor hstalls => exact Or.inr ⟨hcursor, Or.inl hstalls⟩
  | left hdone hframes hcursor hstalls =>
    subst hdone
    have hstay : scanned.cursor ≤ run.cursor := by
      by_contra hmore
      exact hahead ⟨scanned, hscan, hframes, Nat.lt_of_not_le hmore⟩
    exact Or.inr ⟨hcursor.trans_le hstay, Or.inl hstalls⟩

end Tally

section Series

variable {job : Job} {top : LanguageId} {run next scanned after last : Run} {event : ScanEvent}
  {config : EngineConfig} {lexer : Lexer} {others : List Lexer}

/-- A step in the course of a series of stalls: it is one of them, or it leaves the count alone. -/
def Lingers (job : Job) (run next : Run) : Prop :=
  run.step job = .running next ∧ (next.stalls = run.stalls ∨ next.stalls = run.stalls + 1)

/-- A run that is given up. Its count of stalls goes from none, before the step from `first` to `second`,
to as many as there may be, after the step from `last` to `ended`, and is not set back meanwhile. -/
structure GivenUp (job : Job) (start first second last ended : Run) (error : HighlightError) :
    Prop where
  reached : Reaches job start first
  fresh : first.stalls = 0
  begins : first.step job = .running second
  counted : second.stalls = 1
  lingers : Relation.ReflTransGen (Lingers job) second last
  full : last.stalls + 1 = stallLimit
  aborts : last.step job = .aborted error ended

theorem lingers_reaches (hlingers : Relation.ReflTransGen (Lingers job) run next) :
    Reaches job run next := by
  induction hlingers with
  | refl => exact .refl
  | tail _ hstep ih => exact ih.tail hstep.1

theorem lingers_stalls_le (hlingers : Relation.ReflTransGen (Lingers job) run next) :
    run.stalls ≤ next.stalls := by
  induction hlingers with
  | refl => exact le_rfl
  | tail _ hstep ih =>
    have hcount := hstep.2
    omega

/-- Whatever a step does, the count goes back to zero, stays or goes up by one, below the limit. -/
theorem step_stalls (hvalid : run.place.Valid job.input.size top)
    (hstep : run.step job = .running next) :
    next.stalls = 0 ∨ next.stalls = run.stalls ∨
      next.stalls = run.stalls + 1 ∧ next.stalls < stallLimit ∧ next.cursor ≤ run.cursor := by
  obtain ⟨event, scanned, hscan⟩ := run.prepare.scan_isSome job hvalid.active_live
  have htallied := step_tallied hvalid hscan
  rw [hstep] at htallied
  cases htallied with
  | forward hmore hstalls => exact Or.inl hstalls
  | stalled hcursor hstalls hlimit => exact Or.inr (Or.inr ⟨hstalls, hlimit, hcursor⟩)
  | entered hcursor hstalls => exact Or.inr (Or.inl hstalls)
  | left hdone hframes hcursor hstalls => exact Or.inr (Or.inl hstalls)

theorem Reaches.stalls_lt_limit (hreach : Reaches job (job.start config lexer others) run) :
    run.stalls < stallLimit := by
  induction hreach with
  | refl => exact Nat.zero_lt_succ _
  | tail hbefore hstep ih =>
    have hvalid := Reaches.valid hbefore
    rcases step_stalls hvalid hstep with hzero | hsame | ⟨-, hless, -⟩
    · rw [hzero]
      exact Nat.zero_lt_succ _
    · rw [hsame]
      exact ih
    · exact hless

/-- A count of stalls goes back to a first one. -/
theorem Reaches.series (hreach : Reaches job (job.start config lexer others) run)
    (hstalls : 0 < run.stalls) :
    ∃ first second, Reaches job (job.start config lexer others) first ∧ first.stalls = 0 ∧
      first.step job = .running second ∧ second.stalls = 1 ∧
      Relation.ReflTransGen (Lingers job) second run := by
  -- The induction is on the steps from the beginning; the last one counts on or counts for the first.
  induction hreach with
  | refl => exact absurd hstalls (Nat.lt_irrefl _)
  | @tail run next hbefore hstep ih =>
    have hvalid := Reaches.valid hbefore
    by_cases hnone : run.stalls = 0
    · have hone : next.stalls = 1 := by
        rcases step_stalls hvalid hstep with hzero | hsame | ⟨hmore, -⟩ <;> omega
      exact ⟨run, next, hbefore, hnone, hstep, hone, .refl⟩
    · obtain ⟨first, second, hfirst, hzero, hbegin, hone, hlingers⟩ :=
        ih (Nat.pos_of_ne_zero hnone)
      refine ⟨first, second, hfirst, hzero, hbegin, hone, hlingers.tail ⟨hstep, ?_⟩⟩
      rcases step_stalls hvalid hstep with hback | hsame | ⟨hmore, -⟩
      · omega
      · exact Or.inl hsame
      · exact Or.inr hmore

/-- What a scan call began with is produced or still pending after its step. -/
theorem Move.prepare_text_le (hmove : Move job scanned event after)
    (hvalid : scanned.place.Valid job.input.size top) (hidle : scanned.accumulating = false) :
    scanned.text ≤ after.prepare.text := by
  have htext : scanned.text ≤ scanned.cursor := hvalid.text_le_cursor
  have hlimit : scanned.cursor ≤ scanned.limit := hvalid.cursor_le_limit
  -- All moves but one leave no span open, and then the next call begins at the cursor.
  have hcursor {place : Place} (hplace : after.place = place)
      (hkept : place.accumulating = scanned.accumulating) (hle : scanned.text ≤ place.cursor) :
      scanned.text ≤ after.prepare.text := by
    have hclosed : after.accumulating = false :=
      (congrArg Place.accumulating hplace).trans (hkept.trans hidle)
    have hsame : after.cursor = place.cursor := congrArg Place.cursor hplace
    rw [after.prepare_text_of_idle hclosed, hsame]
    exact hle
  cases hmove with
  | token kind => exact hcursor (token_place job scanned kind) rfl htext
  | extend => exact le_rfl
  | leave frame outer hframes =>
    exact hcursor (unterminated_leave_place job scanned htext frame outer) rfl htext
  | refuse delegation hrefused =>
    apply hcursor (fallback_place job scanned delegation) rfl
    dsimp only [place]
    split
    · exact htext.trans hlimit
    · exact htext
  | enter delegation haccepted => exact hcursor (enter_place job scanned delegation) rfl le_rfl

/-- Between two runs of a series of stalls the cursor does not get on, so what is produced meanwhile was
pending before. -/
structure Stays (run next : Run) : Prop where
  cursor_le : next.cursor ≤ run.cursor
  text_le : run.prepare.text ≤ next.prepare.text

theorem Stays.trans (h : Stays run next) (hlater : Stays next last) : Stays run last :=
  ⟨hlater.cursor_le.trans h.cursor_le, h.text_le.trans hlater.text_le⟩

theorem step_text_le (hreach : Reaches job (job.start config lexer others) run)
    (hscan : run.prepare.scan job = some (event, scanned)) (hmove : Move job scanned event after) :
    run.prepare.text ≤ after.prepare.text := by
  obtain ⟨hcovers, hidle⟩ := hreach.covers.scan hscan
  have hbegin : scanned.text = run.prepare.text :=
    congrArg Place.text (scan_place job run.prepare hscan).1
  exact hbegin ▸ hmove.prepare_text_le hcovers.1 hidle

theorem Lingers.stays (h : Lingers job run next) (hreach : Reaches job (job.start config lexer others) run)
    (hpositive : 0 < next.stalls) (hahead : ¬ run.EndsAhead job) : Stays run next := by
  constructor
  case cursor_le =>
    rcases step_counts hreach.valid h.1 hahead with ⟨-, hzero⟩ | ⟨hcursor, -⟩
    · omega
    · exact hcursor
  case text_le =>
    obtain ⟨event, scanned, after, stalls, hscan, hmove, rfl⟩ := step_running h.1
    have hle := step_text_le hreach hscan hmove
    exact hle

theorem lingers_stay (hlingers : Relation.ReflTransGen (Lingers job) run last)
    (hreach : Reaches job (job.start config lexer others) run) (hpositive : 0 < run.stalls)
    (hahead : ∀ mid, Reaches job run mid → Reaches job mid last → ¬ mid.EndsAhead job) :
    Stays run last := by
  induction hlingers with
  | refl => exact ⟨le_rfl, le_rfl⟩
  | @tail mid next hbefore hstep ih =>
    have hmid := lingers_reaches hbefore
    have hnext : Reaches job mid next := Relation.ReflTransGen.single hstep.1
    have hcount : 0 < next.stalls :=
      hpositive.trans_le (lingers_stalls_le (hbefore.tail hstep))
    have hsofar := ih (fun other hother hlater => hahead other hother (hlater.trans hnext))
    exact hsofar.trans (hstep.stays (hreach.trans hmid) hcount (hahead mid hmid hnext))

theorem step_gives_up {error : HighlightError} (hvalid : run.place.Valid job.input.size top)
    (hstep : run.step job = .aborted error last) :
    last.cursor ≤ run.cursor ∧ stallLimit ≤ run.stalls + 1 ∧
      ∃ name position, error = .aborted name position (run.stalls + 1) := by
  obtain ⟨event, scanned, hscan⟩ := run.prepare.scan_isSome job hvalid.active_live
  have htallied := step_tallied hvalid hscan
  rw [hstep] at htallied
  cases htallied with
  | aborted name position hcursor hlimit => exact ⟨hcursor, hlimit, name, position, rfl⟩

/-- A run that is given up is so after as many stalls as there may be. -/
theorem Reaches.givenUp {error : HighlightError} {ended : Run}
    (hreach : Reaches job (job.start config lexer others) last)
    (hstep : last.step job = .aborted error ended) :
    (∃ name position, error = .aborted name position stallLimit) ∧
      ∃ first second, GivenUp job (job.start config lexer others) first second last ended error := by
  obtain ⟨-, hlimit, name, position, herror⟩ := step_gives_up hreach.valid hstep
  have hless := hreach.stalls_lt_limit
  have hfull : last.stalls + 1 = stallLimit := by omega
  have hpositive : 0 < last.stalls := by
    unfold stallLimit at hfull
    omega
  -- Seven stalls are counted before the last step, so there is a first one.
  obtain ⟨first, second, hfirst, hzero, hbegin, hone, hlingers⟩ := hreach.series hpositive
  rw [hfull] at herror
  exact ⟨⟨name, position, herror⟩, first, second, hfirst, hzero, hbegin, hone, hlingers, hfull, hstep⟩

/-- From before the first stall of a run that is given up to after the last one, only bytes of the span
that was pending before the first one are produced. -/
theorem GivenUp.produced {first second ended : Run} {error : HighlightError}
    (h : GivenUp job (job.start config lexer others) first second last ended error)
    (hahead : ∀ mid, Reaches job second mid → Reaches job mid last → ¬ mid.EndsAhead job) :
    ∃ stop, first.prepare.text ≤ stop ∧ stop ≤ first.cursor ∧
      first.produced job = job.input.extract 0 first.prepare.text ∧
      ended.produced job = job.input.extract 0 stop := by
  have hsecond : Reaches job (job.start config lexer others) second := h.reached.tail h.begins
  have hlast : Reaches job (job.start config lexer others) last :=
    hsecond.trans (lingers_reaches h.lingers)
  have hfirst : Stays first second := by
    obtain ⟨event, scanned, after, stalls, hscan, hmove, hnext⟩ := step_running h.begins
    have htext := step_text_le h.reached hscan hmove
    have hone := h.counted
    have hzero := h.fresh
    refine ⟨?_, hnext ▸ htext⟩
    -- Of the ways to count only a stall leads from none to one.
    rcases step_stalls h.reached.valid h.begins with hback | hsame | ⟨-, -, hcursor⟩
    · omega
    · omega
    · exact hcursor
  have hmiddle := lingers_stay h.lingers hsecond (h.counted ▸ Nat.one_pos) hahead
  obtain ⟨event, scanned, after, stalls, hscan, hmove, hended⟩ := step_aborted h.aborts
  have hcovers : ended.Covers job lexer.language ended.prepare.text := by
    obtain ⟨hscanned, hidle⟩ := hlast.covers.scan hscan
    rw [hended]
    exact hmove.covers hscanned hidle
  have hfinal : Stays last ended := by
    have htext := step_text_le hlast hscan hmove
    exact ⟨(step_gives_up hlast.valid h.aborts).1, hended ▸ htext⟩
  have hstays := (hfirst.trans hmiddle).trans hfinal
  exact ⟨ended.prepare.text, hstays.text_le,
    (prepare_text_le hcovers.1).trans hstays.cursor_le, h.reached.covers.2, hcovers.2⟩

def lingered? (job : Job) : Nat → Run → Option Run
  | 0, run => some run
  | count + 1, run =>
    match run.step job with
    | .running next =>
      if next.stalls = run.stalls ∨ next.stalls = run.stalls + 1 then lingered? job count next else none
    | _ => none

theorem lingers_of_lingered? {count : Nat} (hlingered : lingered? job count run = some last) :
    Relation.ReflTransGen (Lingers job) run last := by
  induction count generalizing run with
  | zero =>
    cases hlingered
    exact .refl
  | succ count ih =>
    simp only [lingered?] at hlingered
    split at hlingered
    case h_1 next hstep =>
      split at hlingered
      case isTrue hcount => exact .head ⟨hstep, hcount⟩ (ih hlingered)
      case isFalse => cases hlingered
    case h_2 => cases hlingered

/-- The run that is given up after so many steps to the first stall and so many in the course of the
series, with its first and its last stall. -/
def givenUp? (job : Job) (lead series : Nat) (start : Run) :
    Option (Run × Run × Run × Run × HighlightError) := do
  let first ← after? job lead start
  let second ← lingered? job 1 first
  let last ← lingered? job series second
  match last.step job with
  | .aborted error ended =>
    if first.stalls = 0 ∧ second.stalls = 1 ∧ last.stalls + 1 = stallLimit then
      some (first, second, last, ended, error)
    else none
  | _ => none

theorem givenUp_of_givenUp? {lead series : Nat} {start first second ended : Run}
    {error : HighlightError}
    (h : givenUp? job lead series start = some (first, second, last, ended, error)) :
    GivenUp job start first second last ended error := by
  simp only [givenUp?, Option.bind_eq_bind, Option.bind_eq_some_iff] at h
  obtain ⟨one, hone, two, htwo, three, hthree, hend⟩ := h
  have hbegins : one.step job = .running two := by
    simp only [lingered?] at htwo
    split at htwo
    case h_1 next hstep =>
      split at htwo
      case isTrue =>
        cases htwo
        exact hstep
      case isFalse => cases htwo
    case h_2 => cases htwo
  split at hend
  case h_1 hstep =>
    split at hend
    case isTrue hcounts =>
      cases hend
      exact ⟨reaches_of_after? hone, hcounts.1, hbegins, hcounts.2.1, lingers_of_lingered? hthree,
        hcounts.2.2, hstep⟩
    case isFalse => cases hend
  case h_2 => cases hend

end Series

end Run

theorem highlight_eq_aborted {fuel : Nat} {catalog : Catalog} {host : Host} {config : EngineConfig}
    {source : Bytes} {lexers : List Lexer} {highlighted : Highlighted} {name : String}
    {position iterations : Nat}
    (hrun : highlight fuel catalog host config source lexers = some highlighted)
    (habort : highlighted.outcome = .error (.aborted name position iterations)) :
    ∃ lexer others last ended, lexers = lexer :: others ∧
      Run.Reaches (Job.ofSource catalog host config source)
        ((Job.ofSource catalog host config source).start config lexer others) last ∧
      last.step (Job.ofSource catalog host config source) =
        .aborted (.aborted name position iterations) ended := by
  cases lexers with
  | nil =>
    cases hrun
    cases habort
  | cons lexer others =>
    obtain ⟨⟨result, ended⟩, hdrive, rfl⟩ := Option.map_eq_some_iff.mp hrun
    obtain ⟨last, hreach, ⟨rfl, -⟩ | ⟨error, rfl, hstep⟩⟩ := Run.drive_eq_some hdrive
    · cases habort
    · cases habort
      exact ⟨lexer, others, last, ended, rfl, hreach, hstep⟩

/-- A run is given up only if it is stuck. Whatever the languages do, its count of stalls has then gone
from none to as many as there may be without being set back; a scan call that goes forward sets it back,
the last one of a delegate apart; and if no such last call went forward meanwhile, nothing was produced
from before the first stall to after the last one but bytes of the span that had been kept open before
the first one, and nothing at all if none had been. -/
theorem aborted_run_stuck (fuel : Nat) (catalog : Catalog) (host : Host) (config : EngineConfig)
    (source : Bytes) (lexers : List Lexer) (highlighted : Highlighted) (name : String)
    (position iterations : Nat)
    (hrun : highlight fuel catalog host config source lexers = some highlighted)
    (habort : highlighted.outcome = .error (.aborted name position iterations)) :
    ∃ job lexer others first second last ended,
      job = Job.ofSource catalog host config source ∧ lexers = lexer :: others ∧
      Run.GivenUp job (job.start config lexer others) first second last ended
        (.aborted name position iterations) ∧
      iterations = stallLimit ∧
      (∀ run next, Run.Reaches job (job.start config lexer others) run →
        run.step job = .running next → run.cursor < next.cursor → ¬ run.EndsAhead job →
          next.stalls = 0) ∧
      ((∀ run, Run.Reaches job second run → Run.Reaches job run last → ¬ run.EndsAhead job) →
        ∃ stop, first.prepare.text ≤ stop ∧ stop ≤ first.cursor ∧
          first.produced job = job.input.extract 0 first.prepare.text ∧
          ended.produced job = job.input.extract 0 stop ∧
          (first.accumulating = false → ended.produced job = first.produced job)) := by
  obtain ⟨lexer, others, last, ended, hlexers, hreach, hstep⟩ := highlight_eq_aborted hrun habort
  obtain ⟨⟨_, _, herror⟩, first, second, hgivenUp⟩ := hreach.givenUp hstep
  have hcount : iterations = stallLimit := by
    cases herror
    rfl
  refine ⟨_, lexer, others, first, second, last, ended, rfl, hlexers, hgivenUp, hcount, ?_, ?_⟩
  · intro run next hrun hnext hmore hahead
    rcases Run.step_counts hrun.valid hnext hahead with ⟨-, hzero⟩ | ⟨hstay, -⟩
    · exact hzero
    · exact absurd hmore (Nat.not_lt_of_le hstay)
  · intro hahead
    obtain ⟨stop, hle, hcursor, hbefore, hafter⟩ := hgivenUp.produced hahead
    refine ⟨stop, hle, hcursor, hbefore, hafter, fun hidle => ?_⟩
    have hsame := first.prepare_text_of_idle hidle
    have hstop : stop = first.prepare.text := by omega
    rw [hafter, hbefore, hstop]

/-- A language that takes a byte and keeps it open, does nothing, and then makes seven tokens where it
stands, of which the first is that byte. -/
def Catalog.slow : Catalog where
  custom _ :=
    { name := "Slow"
      grammar :=
        { scan := fun _ _ cx =>
            match cx.state.condition with
            | 0 => (.extend, cx.bump.setState (cx.state.start 1))
            | 1 => (.extend, cx.setState (cx.state.start 2))
            | 9 => (.done, cx)
            | condition => (.token .text, cx.setState (cx.state.start (condition + 1))) } }

def Job.slow : Job :=
  Job.ofSource .slow (fun _ => none) {} #[0x61]

theorem slow_highlighted :
    ∃ highlighted,
      highlight 16 .slow (fun _ => none) {} #[0x61] [Lexer.create .slow (.custom 0)] =
        some highlighted ∧
      highlighted.outcome = .error (.aborted "Slow" 1 stallLimit) := by
  have herror : (highlight 16 .slow (fun _ => none) {} #[0x61]
      [Lexer.create .slow (.custom 0)]).map (fun highlighted => highlighted.outcome) =
      some (.error (.aborted "Slow" 1 stallLimit)) := by rfl
  exact Option.map_eq_some_iff.mp herror

/-- The guard fires although a byte is queued between the first stall and the last one: the byte was kept
open, and the call that makes it a token does not move. -/
theorem slow_byte_queued_between_stalls :
    ∃ highlighted first second last ended,
      highlight 16 .slow (fun _ => none) {} #[0x61] [Lexer.create .slow (.custom 0)] =
        some highlighted ∧
      highlighted.outcome = .error (.aborted "Slow" 1 stallLimit) ∧
      Run.GivenUp Job.slow (Job.slow.start {} (Lexer.create .slow (.custom 0)) []) first second last
        ended (.aborted "Slow" 1 stallLimit) ∧
      second.produced Job.slow = #[] ∧ last.produced Job.slow = #[0x61] := by
  obtain ⟨highlighted, hrun, habort⟩ := slow_highlighted
  have hseries : (Run.givenUp? Job.slow 1 6
      (Job.slow.start {} (Lexer.create .slow (.custom 0)) [])).map
        (fun found => (found.2.1.produced Job.slow, found.2.2.1.produced Job.slow, found.2.2.2.2)) =
      some (#[], #[0x61], .aborted "Slow" 1 stallLimit) := by decide +kernel
  obtain ⟨⟨first, second, last, ended, error⟩, hfound, hvalues⟩ := Option.map_eq_some_iff.mp hseries
  obtain ⟨hsecond, hlast, rfl⟩ : second.produced Job.slow = #[] ∧ last.produced Job.slow = #[0x61] ∧
      error = .aborted "Slow" 1 stallLimit := by simpa using hvalues
  exact ⟨highlighted, first, second, last, ended, hrun, habort, Run.givenUp_of_givenUp? hfound, hsecond,
    hlast⟩

theorem slow_run_stuck :
    ∃ highlighted,
      highlight 16 .slow (fun _ => none) {} #[0x61] [Lexer.create .slow (.custom 0)] =
        some highlighted ∧
      highlighted.outcome = .error (.aborted "Slow" 1 stallLimit) ∧
      ∃ job lexer others first second last ended,
        job = Job.slow ∧ [Lexer.create .slow (.custom 0)] = lexer :: others ∧
        Run.GivenUp job (job.start {} lexer others) first second last ended
          (.aborted "Slow" 1 stallLimit) := by
  obtain ⟨highlighted, hrun, habort⟩ := slow_highlighted
  obtain ⟨job, lexer, others, first, second, last, ended, hjob, hlexers, hgivenUp, -⟩ :=
    aborted_run_stuck 16 .slow (fun _ => none) {} #[0x61] _ highlighted "Slow" 1 stallLimit hrun habort
  exact ⟨highlighted, hrun, habort, job, lexer, others, first, second, last, ended, hjob, hlexers,
    hgivenUp⟩

end Highlighting
