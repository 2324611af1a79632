import Highlighting.Proofs.Engine.Scanning
import Highlighting.Proofs.Engine.Totality
import Mathlib.Algebra.Group.Nat.Defs

/-! Runs come to an end. Languages may ask for tokens and delegations without moving on, and delegates
may give back what they were handed; what they must not do is go back behind the cursor at which a scan
call began, or delegate a span that was kept open, since either takes back progress that was counted.

While the cursor stays, a step is a stall, or it begins a delegation, or it ends one that took
something. Stalls are limited. Delegations that begin meanwhile have taken nothing yet, so those that
took something only become fewer; and between two ends there is room for so many beginnings. -/
namespace Highlighting

namespace Run

structure Orderly (job : Job) (run : Run) : Prop where
  /-- The call does not end before the position at which it started. -/
  forward : ∀ event scanned, run.prepare.scan job = some (event, scanned) →
    run.prepare.cursor ≤ scanned.cursor
  /-- The call does not delegate if it started on a span that was kept open. -/
  closed : ∀ delegation scanned, run.prepare.scan job = some (.delegate delegation, scanned) →
    ¬ run.prepare.text < run.prepare.cursor

inductive Counted (run : Run) : Progress → Prop
  | ended (last : Run) : Counted run (.finished last)
  | forward {next : Run} (hmore : run.cursor < next.cursor) (hstalls : next.stalls ≤ run.stalls) :
      Counted run (.running next)
  | inward {next : Run} (frame : Frame) (hstart : frame.start = run.cursor)
      (hcursor : next.cursor = run.cursor) (hstalls : next.stalls = run.stalls)
      (hframes : next.frames = frame :: run.frames) : Counted run (.running next)
  | outward {next : Run} (frame : Frame) (hstart : frame.start < run.cursor)
      (hcursor : next.cursor = run.cursor) (hstalls : next.stalls = run.stalls)
      (hframes : run.frames = frame :: next.frames) : Counted run (.running next)
  | stalled {next : Run} (hcursor : next.cursor = run.cursor)
      (hstalls : next.stalls = run.stalls + 1) (hlimit : next.stalls < stallLimit)
      (hframes : next.frames <:+ run.frames) : Counted run (.running next)
  | aborted {last : Run} (lexer : String) (position : Nat) (hlimit : stallLimit ≤ run.stalls + 1) :
      Counted run (.aborted (.aborted lexer position (run.stalls + 1)) last)

section Counting

variable {job : Job} {top : LanguageId} {run scanned after : Run} {event : ScanEvent}

theorem counted_stall (lexer : String) (hcursor : after.cursor = run.cursor)
    (hstalls : after.stalls = run.stalls) (hframes : after.frames <:+ run.frames) :
    Counted run (after.stall lexer) := by
  unfold stall
  dsimp only
  split
  case isTrue hless =>
    have hcount : after.stalls + 1 = run.stalls + 1 := congrArg (· + 1) hstalls
    exact .stalled hcursor hcount hless hframes
  case isFalse hmany =>
    rw [hstalls] at hmany ⊢
    exact .aborted lexer _ (Nat.le_of_not_lt hmany)

theorem counted_settle (lexer : String) (hcursor : run.cursor ≤ after.cursor)
    (hstalls : after.stalls = run.stalls) (hframes : after.frames = run.frames) :
    Counted run (after.settle run.cursor lexer) := by
  unfold settle
  split
  case isTrue hmore => exact .forward hmore (Nat.zero_le _)
  case isFalse hstay =>
    have hsame : after.cursor = run.cursor := by omega
    exact counted_stall lexer hsame hstalls (hframes ▸ List.suffix_refl _)

-- Only the end of a step touches the count of stalls.

theorem scan_stalls (hscan : run.prepare.scan job = some (event, scanned)) :
    scanned.stalls = run.stalls := by
  obtain ⟨element, -, -, rfl⟩ := (run.prepare.scan_eq_some_iff job).mp hscan
  rfl

theorem token_stalls (job : Job) (run : Run) (kind : TokenKind) :
    (run.token job kind).stalls = run.stalls := by
  change (run.token job kind).scanning.stalls = run.scanning.stalls
  rw [token_scanning]

theorem fallback_stalls (job : Job) (run : Run) (delegation : Delegation) :
    (run.fallback job delegation).stalls = run.stalls := by
  change (run.fallback job delegation).scanning.stalls = run.scanning.stalls
  rw [fallback_scanning]

theorem enter_stalls (job : Job) (run : Run) (delegation : Delegation) :
    (run.enter job delegation).stalls = run.stalls := by
  unfold enter
  dsimp only
  split <;> rfl

theorem unterminated_leave_stalls (job : Job) (run : Run) (frame : Frame) (outer : List Frame) :
    ({ run.unterminated job with frames := outer }.leave job frame).stalls = run.stalls := by
  have hclosed : (run.unterminated job).scanning.stalls = run.scanning.stalls := by
    rw [unterminated_scanning]
  unfold leave
  dsimp only
  split <;> exact hclosed

structure Followed (job : Job) (top : LanguageId) (run scanned : Run) : Prop where
  valid : scanned.place.Valid job.input.size top
  frames : scanned.frames = run.frames
  stalls : scanned.stalls = run.stalls
  forward : run.cursor ≤ scanned.cursor
  start_le : ∀ frame ∈ run.frames, frame.start ≤ run.cursor

theorem Orderly.followed (h : run.Orderly job) (hvalid : run.place.Valid job.input.size top)
    (hscan : run.prepare.scan job = some (event, scanned)) : Followed job top run scanned where
  valid := scan_valid hvalid hscan
  frames := congrArg Place.frames (scan_place job run.prepare hscan).1
  stalls := scan_stalls hscan
  forward := h.forward event scanned hscan
  start_le := by
    intro frame hframe
    exact (hvalid.start_le_text frame hframe).trans hvalid.text_le_cursor

theorem Followed.token (h : Followed job top run scanned) (kind : TokenKind) (lexer : String) :
    Counted run ((scanned.token job kind).settle run.cursor lexer) := by
  have hkept := token_place job scanned kind
  apply counted_settle
  · exact h.forward.trans_eq (congrArg Place.cursor hkept).symm
  · exact (token_stalls job scanned kind).trans h.stalls
  · exact (congrArg Place.frames hkept).trans h.frames

theorem Followed.done (h : Followed job top run scanned) (lexer : String) :
    Counted run (scanned.done job lexer) := by
  have htext : scanned.text ≤ scanned.cursor := h.valid.text_le_cursor
  have hcursor : (scanned.unterminated job).cursor = scanned.cursor :=
    congrArg Place.cursor (unterminated_place job scanned htext)
  have hforward := h.forward
  simp only [Run.done]
  split
  case h_1 => exact .ended _
  case h_2 frame outer houter =>
    rw [unterminated_frames, h.frames] at houter
    have hstart : frame.start ≤ run.cursor := by
      apply h.start_le
      rw [houter]
      exact List.mem_cons_self
    have hleft := unterminated_leave_place job scanned htext frame outer
    have hstay := congrArg Place.cursor hleft
    have hrest := congrArg Place.frames hleft
    have hcount := (unterminated_leave_stalls job scanned frame outer).trans h.stalls
    split
    case isTrue htook =>
      rw [hcursor] at htook
      by_cases hmore : run.cursor < scanned.cursor
      · exact .forward (hmore.trans_eq hstay.symm) hcount.le
      · have hsame : scanned.cursor = run.cursor := by omega
        refine .outward frame (htook.trans_eq hsame) (hstay.trans hsame) hcount ?_
        rw [houter]
        exact congrArg (frame :: ·) hrest.symm
    case isFalse hnothing =>
      rw [hcursor] at hnothing
      have hsame : scanned.cursor = run.cursor := by omega
      apply counted_stall _ (hstay.trans hsame) hcount
      rw [houter]
      exact ⟨[frame], congrArg (frame :: ·) hrest⟩

theorem Followed.refuse (h : Followed job top run scanned) (delegation : Delegation)
    (lexer : String) :
    Counted run ((scanned.fallback job delegation).settle run.cursor lexer) := by
  have hkept := fallback_place job scanned delegation
  have hcursor := congrArg Place.cursor hkept
  -- An empty span may be taken to reach to the limit, which is not before the cursor.
  have hreach : scanned.cursor ≤ (scanned.fallback job delegation).cursor := by
    have hlimit : scanned.cursor ≤ scanned.limit := h.valid.cursor_le_limit
    refine le_of_le_of_eq ?_ hcursor.symm
    dsimp only [place]
    split
    · exact hlimit
    · exact le_rfl
  apply counted_settle
  · exact h.forward.trans hreach
  · exact (fallback_stalls job scanned delegation).trans h.stalls
  · exact (congrArg Place.frames hkept).trans h.frames

theorem Followed.enter (h : Followed job top run scanned) (delegation : Delegation)
    (hbegin : scanned.text = run.cursor) :
    Counted run (.running (scanned.enter job delegation)) := by
  have hentered := enter_place job scanned delegation
  have hframes : (scanned.enter job delegation).frames = _ :: scanned.frames :=
    congrArg Place.frames hentered
  rw [h.frames] at hframes
  refine .inward _ ?_ ?_ ?_ hframes
  · exact hbegin
  · exact (congrArg Place.cursor hentered).trans hbegin
  · exact (enter_stalls job scanned delegation).trans h.stalls

theorem Orderly.text_eq_cursor {delegation : Delegation} (h : run.Orderly job)
    (hvalid : run.place.Valid job.input.size top)
    (hscan : run.prepare.scan job = some (.delegate delegation, scanned)) :
    scanned.text = run.cursor := by
  have hclosed : ¬ run.prepare.text < run.cursor := h.closed delegation scanned hscan
  have hsame : scanned.text = run.prepare.text :=
    congrArg Place.text (scan_place job run.prepare hscan).1
  have hle := prepare_text_le hvalid
  omega

theorem Orderly.step_counted (h : run.Orderly job)
    (hvalid : run.place.Valid job.input.size top) : Counted run (run.step job) := by
  obtain ⟨event, scanned, hscan⟩ := run.prepare.scan_isSome job hvalid.active_live
  have hfollowed := h.followed hvalid hscan
  have hstep : run.step job = scanned.handle job run.cursor event := by
    simp only [step, hscan]
    rfl
  rw [hstep]
  unfold handle
  cases event with
  | token kind => exact hfollowed.token kind _
  | extend => exact counted_settle _ hfollowed.forward hfollowed.stalls hfollowed.frames
  | done => exact hfollowed.done _
  | delegate delegation =>
    dsimp only
    split
    · exact hfollowed.refuse delegation _
    · exact hfollowed.enter delegation (h.text_eq_cursor hvalid hscan)

end Counting

def fed (run : Run) : Nat :=
  run.frames.countP (fun frame => decide (frame.start < run.cursor))

/-- A bound for the number of steps to go. Bytes count most, then the stalls that are left, then the
delegations that have taken something, then the room for further ones. -/
def budget (job : Job) (run : Run) : Nat :=
  ((stallLimit * (job.input.size - run.cursor) + (stallLimit - run.stalls)) *
      (delegationCapacity + 1) + run.fed) * (delegationCapacity + 1) +
    (delegationCapacity - run.frames.length)

theorem fed_le_length (run : Run) : run.fed ≤ run.frames.length :=
  List.countP_le_length

variable {job : Job} {top : LanguageId} {run next : Run}

theorem Counted.stalls_lt (h : Counted run (.running next)) (hrun : run.stalls < stallLimit) :
    next.stalls < stallLimit := by
  cases h with
  | forward hmore hstalls => omega
  | inward frame hstart hcursor hstalls hframes => omega
  | outward frame hstart hcursor hstalls hframes => omega
  | stalled hcursor hstalls hlimit hframes => exact hlimit

/-- Every step that is not the last one lowers the bound. -/
theorem Counted.budget_lt (h : Counted run (.running next)) (hstalls : run.stalls < stallLimit)
    (hnext : next.place.Valid job.input.size top) : next.budget job < run.budget job := by
  have hsize : next.cursor ≤ job.input.size := hnext.cursor_le_limit.trans hnext.limit_le_size
  have hroom : next.frames.length ≤ delegationCapacity := hnext.frames_le
  have hfed := next.fed_le_length
  unfold budget delegationCapacity stallLimit at *
  cases h with
  | forward hmore hkept =>
    -- One byte outweighs whatever stalls and delegations come to.
    have hbytes : job.input.size - next.cursor + 1 ≤ job.input.size - run.cursor := by omega
    omega
  | inward frame hstart hcursor hkept hframes =>
    have hsame : next.fed = run.fed := by
      unfold fed
      rw [hframes, hcursor, List.countP_cons_of_neg]
      simp [hstart]
    rw [hframes, List.length_cons] at hroom ⊢
    rw [hcursor, hkept, hsame]
    omega
  | outward frame hstart hcursor hkept hframes =>
    have hless : run.fed = next.fed + 1 := by
      unfold fed
      rw [hframes, hcursor, List.countP_cons_of_pos]
      simp [hstart]
    rw [hcursor, hkept, hless]
    omega
  | stalled hcursor hcount hlimit hframes =>
    have hle : next.fed ≤ run.fed := by
      unfold fed
      rw [hcursor]
      exact hframes.sublist.countP_le
    rw [hcursor, hcount]
    omega

theorem Reaches.stalls_lt {config : EngineConfig} {lexer : Lexer} {others : List Lexer}
    (hreach : Reaches job (job.start config lexer others) run)
    (horderly : ∀ run, Reaches job (job.start config lexer others) run → run.Orderly job) :
    run.stalls < stallLimit := by
  induction hreach with
  | refl => exact Nat.zero_lt_succ _
  | tail hbefore hstep ih =>
    have hcounted := (horderly _ hbefore).step_counted (Reaches.valid hbefore)
    rw [hstep] at hcounted
    exact hcounted.stalls_lt ih

theorem start_budget_lt (job : Job) (config : EngineConfig) (lexer : Lexer) (others : List Lexer) :
    (job.start config lexer others).budget job <
      stallLimit * (delegationCapacity + 1) ^ 2 * (job.input.size + 2) := by
  have hfed : (job.start config lexer others).fed = 0 := rfl
  have hstalls : (job.start config lexer others).stalls = 0 := rfl
  have hframes : (job.start config lexer others).frames.length = 0 := rfl
  unfold budget stallLimit delegationCapacity
  rw [hfed, hstalls, hframes]
  omega

/-- A run whose scan calls are orderly ends within a linear number of steps, well or by being given up
after as many stalls as there may be. -/
theorem drive_of_orderly (config : EngineConfig) (lexer : Lexer) (others : List Lexer)
    (horderly : ∀ run, Reaches job (job.start config lexer others) run → run.Orderly job)
    {fuel : Nat}
    (hfuel : stallLimit * (delegationCapacity + 1) ^ 2 * (job.input.size + 2) ≤ fuel) :
    ∃ result last, drive job fuel (job.start config lexer others) = some (result, last) ∧
      (result = .ok () ∨
        ∃ name position, result = .error (.aborted name position stallLimit)) := by
  have hstep (run next : Run) (hreach : Reaches job (job.start config lexer others) run)
      (hnext : run.step job = .running next) :
      Reaches job (job.start config lexer others) next ∧ next.budget job < run.budget job := by
    have hlater : Reaches job (job.start config lexer others) next := hreach.tail hnext
    have hcounted := (horderly run hreach).step_counted hreach.valid
    rw [hnext] at hcounted
    exact ⟨hlater, hcounted.budget_lt (hreach.stalls_lt horderly) hlater.valid⟩
  obtain ⟨result, last, hdrive⟩ := drive_isSome hstep .refl
    ((start_budget_lt job config lexer others).trans_le hfuel)
  refine ⟨result, last, hdrive, ?_⟩
  obtain ⟨run, hreach, ⟨hok, -⟩ | ⟨error, rfl, haborted⟩⟩ := drive_eq_some hdrive
  · exact Or.inl hok
  · have hcounted := (horderly run hreach).step_counted hreach.valid
    have hstalls := hreach.stalls_lt horderly
    rw [haborted] at hcounted
    cases hcounted with
    | aborted name position hlimit =>
      have hall : run.stalls + 1 = stallLimit := by omega
      rw [hall]
      exact Or.inr ⟨name, position, rfl⟩

end Run

/-- The drive loop of a run ends, whatever the languages do, as long as no scan call ends before the
position at which it started and none that started on a span kept open delegates: the run succeeds or
is given up, and the number of steps is linear in the size of the source. -/
theorem orderly_highlight_ends (catalog : Catalog) (host : Host) (config : EngineConfig)
    (source : Bytes) (lexer : Lexer) (others : List Lexer)
    (horderly : ∀ run, Run.Reaches (Job.ofSource catalog host config source)
      ((Job.ofSource catalog host config source).start config lexer others) run →
        run.Orderly (Job.ofSource catalog host config source))
    (fuel : Nat) (hfuel : stallLimit * (delegationCapacity + 1) ^ 2 * (source.size + 2) ≤ fuel) :
    ∃ highlighted,
      highlight fuel catalog host config source (lexer :: others) = some highlighted ∧
      ((∃ calls, highlighted.outcome = .ok calls) ∨
        ∃ name position, highlighted.outcome = .error (.aborted name position stallLimit)) := by
  have hsize := Job.ofSource_input_size_le catalog host config source
  have henough : stallLimit * (delegationCapacity + 1) ^ 2 *
      ((Job.ofSource catalog host config source).input.size + 2) ≤ fuel :=
    (Nat.mul_le_mul_left _ (Nat.add_le_add_right hsize 2)).trans hfuel
  obtain ⟨result, last, hdrive, hresult⟩ := Run.drive_of_orderly config lexer others horderly henough
  refine ⟨_, congrArg (Option.map _) hdrive, ?_⟩
  rcases hresult with rfl | ⟨name, position, rfl⟩
  · exact Or.inl ⟨_, rfl⟩
  · exact Or.inr ⟨name, position, rfl⟩

/-! Which languages make orderly scan calls. -/

def Grammar.Extends (grammar : Grammar) : Prop :=
  ∃ settings w, ∃ cx : ScanContext w, (grammar.scan settings w cx).1 = .extend

/-- A grammar that never moves the cursor back and, if it ever keeps a span open, never delegates in
the middle of one. -/
structure Grammar.Orderly (grammar : Grammar) : Prop where
  forward : ∀ settings w (cx : ScanContext w), cx.cursor ≤ (grammar.scan settings w cx).2.cursor
  closed : grammar.Extends → ∀ settings w (cx : ScanContext w) delegation,
    (grammar.scan settings w cx).1 = .delegate delegation → ¬ w.start < cx.cursor

theorem Diff.scan_orderly (content? : Option LanguageId) {w : Window} (cx : ScanContext w) :
    cx.cursor ≤ (Diff.scan content? cx).2.cursor ∧ (Diff.scan content? cx).1 ≠ .extend := by
  unfold scan
  split
  case isTrue => exact ⟨le_rfl, nofun⟩
  case isFalse hmore =>
    rw [Bool.not_eq_true, cx.atEnd_eq_false_iff] at hmore
    have hline := (cx.advanceLine_cursor_lt hmore).le
    split
    case isTrue =>
      refine ⟨hline, ?_⟩
      unfold scanBody
      cases content? <;> exact nofun
    case isFalse =>
      split
      case h_1 => exact ⟨cx.advance_cursor_le 1, nofun⟩
      case h_2 => exact ⟨hline, nofun⟩

theorem Json.scan_orderly (next? : Scanner) {w : Window} (cx : ScanContext w) :
    cx.cursor ≤ (Json.scan next? cx).2.cursor ∧ (Json.scan next? cx).1 ≠ .extend := by
  unfold scan
  split
  case h_1 => exact ⟨le_rfl, nofun⟩
  case h_2 found _ => exact ⟨cx.advance_cursor_le _, nofun⟩

theorem PlainText.scan_orderly {w : Window} (cx : ScanContext w) :
    cx.cursor ≤ (PlainText.scan cx).2.cursor ∧ (PlainText.scan cx).1 ≠ .extend := by
  unfold scan
  split
  case isTrue => exact ⟨le_rfl, nofun⟩
  case isFalse => exact ⟨cx.advance_cursor_le _, nofun⟩

theorem Grammar.orderly_of_never_extend {grammar : Grammar}
    (h : ∀ settings w (cx : ScanContext w), cx.cursor ≤ (grammar.scan settings w cx).2.cursor ∧
      (grammar.scan settings w cx).1 ≠ .extend) : grammar.Orderly where
  forward settings w cx := (h settings w cx).1
  closed := by
    rintro ⟨settings, w, cx, hextend⟩
    exact absurd hextend (h settings w cx).2

/-- The languages of the library are orderly, so it is a question of the others. -/
theorem Catalog.language_orderly (catalog : Catalog)
    (hcustom : ∀ number, (catalog.custom number).grammar.Orderly) (id : LanguageId) :
    (catalog.language id).grammar.Orderly := by
  cases id with
  | diff => exact Grammar.orderly_of_never_extend (fun _ _ cx => Diff.scan_orderly _ cx)
  | json => exact Grammar.orderly_of_never_extend (fun _ _ cx => Json.scan_orderly _ cx)
  | text => exact Grammar.orderly_of_never_extend (fun _ _ cx => PlainText.scan_orderly cx)
  | custom number => exact hcustom number

namespace Run

variable {job : Job} {top : LanguageId} {run scanned after : Run} {event : ScanEvent}

theorem scanCall_cursor (hvalid : run.place.Valid job.input.size top) (state : ScanState) :
    ((ScanContext.opening (Window.clamp job.input run.prepare.text run.prepare.limit)
      state).setCursor run.prepare.cursor).cursor = run.cursor ∧
      (Window.clamp job.input run.prepare.text run.prepare.limit).start = run.prepare.text := by
  have htext := prepare_text_le hvalid
  have hcursor : run.cursor ≤ run.limit := hvalid.cursor_le_limit
  have hsize : run.limit ≤ job.input.size := hvalid.limit_le_size
  have hlimit : run.prepare.limit = run.limit := rfl
  have hkept : run.prepare.cursor = run.cursor := rfl
  simp only [ScanContext.setCursor, Window.clamp, hlimit, hkept]
  omega

structure Keeps (job : Job) (top : LanguageId) (run : Run) : Prop where
  valid : run.place.Valid job.input.size top
  extends_of_open : run.accumulating = true → (job.catalog.language run.active).grammar.Extends

theorem scan_extends (hscan : run.prepare.scan job = some (event, scanned)) :
    scanned.accumulating = false ∧
      (event = .extend → (job.catalog.language scanned.active).grammar.Extends) := by
  obtain ⟨element, hget, rfl, rfl⟩ := (run.prepare.scan_eq_some_iff job).mp hscan
  refine ⟨rfl, fun hextend => ?_⟩
  have hactive : element.language = run.active := LiveLexers.language_of_get? hget
  exact hactive ▸ ⟨_, _, _, hextend⟩

theorem Move.keeps (hmove : Move job scanned event after)
    (hvalid : scanned.place.Valid job.input.size top) (hidle : scanned.accumulating = false)
    (hextends : event = .extend → (job.catalog.language scanned.active).grammar.Extends) :
    after.Keeps job top := by
  refine ⟨hmove.valid hvalid, fun hopen => ?_⟩
  have hclosed {place : Place} (hplace : after.place = place)
      (hkept : place.accumulating = scanned.accumulating) : False := by
    have hsame : after.accumulating = scanned.accumulating :=
      (congrArg Place.accumulating hplace).trans hkept
    rw [hopen, hidle] at hsame
    cases hsame
  cases hmove with
  | token kind => exact (hclosed (token_place job scanned kind) rfl).elim
  | extend => exact hextends rfl
  | leave frame outer hframes =>
    exact (hclosed (unterminated_leave_place job scanned hvalid.text_le_cursor frame outer) rfl).elim
  | refuse delegation hrefused => exact (hclosed (fallback_place job scanned delegation) rfl).elim
  | enter delegation haccepted => exact (hclosed (enter_place job scanned delegation) rfl).elim

theorem Reaches.keeps {config : EngineConfig} {lexer : Lexer} {others : List Lexer}
    (hreach : Reaches job (job.start config lexer others) run) : run.Keeps job lexer.language := by
  refine hreach.invariant (I := Keeps job lexer.language)
    (M := fun event scanned => scanned.place.Valid job.input.size lexer.language ∧
      scanned.accumulating = false ∧
      (event = .extend → (job.catalog.language scanned.active).grammar.Extends)) ?_ ?_ ?_
  · intro run event scanned h hscan
    exact ⟨scan_valid h.valid hscan, scan_extends hscan⟩
  · rintro event scanned after stalls ⟨hvalid, hidle, hextends⟩ hmove
    obtain ⟨hafter, hopen⟩ := hmove.keeps hvalid hidle hextends
    exact ⟨hafter, hopen⟩
  · exact ⟨job.start_valid config lexer others, nofun⟩

/-- All scan calls over orderly languages are orderly. -/
theorem Reaches.orderly {config : EngineConfig} {lexer : Lexer} {others : List Lexer}
    (hreach : Reaches job (job.start config lexer others) run)
    (hcustom : ∀ number, (job.catalog.custom number).grammar.Orderly) : run.Orderly job := by
  have hkeeps := hreach.keeps
  constructor
  case forward =>
    intro event scanned hscan
    obtain ⟨element, -, -, rfl⟩ := (run.prepare.scan_eq_some_iff job).mp hscan
    have hgrammar := job.catalog.language_orderly hcustom element.lexer.language
    exact (scanCall_cursor hkeeps.valid element.lexer.state).1.symm.trans_le (hgrammar.forward _ _ _)
  case closed =>
    intro delegation scanned hscan hopen
    obtain ⟨element, hget, hevent, rfl⟩ := (run.prepare.scan_eq_some_iff job).mp hscan
    have haccumulating : run.accumulating = true := by
      by_contra hidle
      rw [run.prepare_text_of_idle (Bool.eq_false_iff.mpr hidle)] at hopen
      exact lt_irrefl _ hopen
    have hactive : element.language = run.active := LiveLexers.language_of_get? hget
    have hextends : (job.catalog.language element.language).grammar.Extends :=
      hactive ▸ hkeeps.extends_of_open haccumulating
    obtain ⟨hcursor, hstart⟩ := scanCall_cursor hkeeps.valid element.lexer.state
    refine (job.catalog.language_orderly hcustom element.language).closed hextends _ _ _ _ hevent ?_
    rw [hcursor, hstart]
    exact hopen

end Run

/-- Three languages in a ring that hardly get on. The first hands all it is given to the second, and
the second an empty span to the third; the third makes an empty token, goes back to the first, hands an
empty span to itself and gives the rest back. -/
def Catalog.ring : Catalog where
  custom number :=
    { name := "Ring"
      grammar :=
        { scan := fun _ _ cx =>
            if cx.atEnd then (.done, cx)
            else
              match number, cx.state.condition with
              | 0, _ =>
                (.delegate { mode := .within, target := .custom 1, fallback := .text },
                  cx.advanceToLimit)
              | 1, _ => (.delegate { mode := .full, target := .custom 2, fallback := .text }, cx)
              | _, 0 => (.token .text, cx.setState (cx.state.start 1))
              | _, 1 =>
                (.delegate { mode := .full, target := .custom 0, fallback := .text },
                  cx.setState (cx.state.start 2))
              | _, 2 =>
                (.delegate { mode := .within, target := .custom number, fallback := .text },
                  cx.setState (cx.state.start 3))
              | _, _ => (.done, cx) } }

theorem Catalog.ring_orderly (number : Nat) : (Catalog.ring.custom number).grammar.Orderly := by
  apply Grammar.orderly_of_never_extend
  intro settings w cx
  dsimp only [Catalog.ring]
  split
  · exact ⟨le_rfl, nofun⟩
  · split
    · exact ⟨cx.advance_cursor_le _, nofun⟩
    all_goals exact ⟨le_rfl, nofun⟩

theorem ring_highlight_ends :
    (∀ run, Run.Reaches (Job.ofSource .ring (fun _ => none) {} #[0x61, 0x62])
      ((Job.ofSource .ring (fun _ => none) {} #[0x61, 0x62]).start {} (Lexer.create .ring (.custom 0))
        []) run → run.Orderly (Job.ofSource .ring (fun _ => none) {} #[0x61, 0x62])) ∧
    ∃ highlighted,
      highlight 10000 .ring (fun _ => none) {} #[0x61, 0x62] [Lexer.create .ring (.custom 0)] =
        some highlighted ∧
      ((∃ calls, highlighted.outcome = .ok calls) ∨
        ∃ name position, highlighted.outcome = .error (.aborted name position stallLimit)) := by
  have horderly (run : Run) (hreach : Run.Reaches (Job.ofSource .ring (fun _ => none) {} #[0x61, 0x62])
      ((Job.ofSource .ring (fun _ => none) {} #[0x61, 0x62]).start {} (Lexer.create .ring (.custom 0))
        []) run) : run.Orderly (Job.ofSource .ring (fun _ => none) {} #[0x61, 0x62]) :=
    hreach.orderly Catalog.ring_orderly
  exact ⟨horderly, orderly_highlight_ends .ring (fun _ => none) {} #[0x61, 0x62]
    (Lexer.create .ring (.custom 0)) [] horderly 10000 (by decide)⟩

end Highlighting
