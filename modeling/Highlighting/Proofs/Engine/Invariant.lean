import Highlighting.Proofs.Engine.Queue
import Highlighting.Proofs.Engine.Transition
import Mathlib.Data.List.Nodup
import Mathlib.Order.Nat

/-! The state of a run is sound before every step: the place is inside the input, the delegations form
a chain of nested ranges, and every language that is still needed is live. The point is the end of a
delegation, which may take a lexer out while others are under way; a delegate that goes then was not
live when its delegation began, so no delegation further out can refer to it. -/
namespace Highlighting

/-- The delegations, the innermost first, lead from the language `top` to the active one: the outermost
was made by `top`, and each was made by the delegate of the next one out. -/
def Linked (top : LanguageId) : List Frame → LanguageId → Prop
  | [], active => active = top
  | frame :: outer, active => frame.child = active ∧ Linked top outer frame.parent

def Restores (size : Nat) : List Frame → Nat → Prop
  | [], limit => limit = size
  | frame :: outer, _ => Restores size outer frame.savedLimit

structure Frame.Inside (inner outer : Frame) : Prop where
  start_le : outer.start ≤ inner.start
  limit_le : inner.savedLimit ≤ outer.savedLimit
  fresh : inner.activated = true → inner.child ≠ outer.parent ∧ inner.child ≠ outer.child

/-- A place that a run over an input of a given size can be at, with `top` the language of its first
lexer. -/
structure Place.Valid (size : Nat) (top : LanguageId) (place : Place) : Prop where
  text_le_cursor : place.text ≤ place.cursor
  cursor_le_limit : place.cursor ≤ place.limit
  limit_le_size : place.limit ≤ size
  frames_le : place.frames.length ≤ delegationCapacity
  stack_le : place.stack.length ≤ lexerCapacity
  stack_eq : place.stack = place.languages
  stack_nodup : place.stack.Nodup
  linked : Linked top place.frames place.active
  restores : Restores size place.frames place.limit
  inside : place.frames.Pairwise Frame.Inside
  start_le_text : ∀ frame ∈ place.frames, frame.start ≤ place.text
  limit_le_saved : ∀ frame ∈ place.frames, place.limit ≤ frame.savedLimit
  saved_le_size : ∀ frame ∈ place.frames, frame.savedLimit ≤ size
  parent_live : ∀ frame ∈ place.frames, frame.parent ∈ place.languages
  child_live : ∀ frame ∈ place.frames, frame.child ∈ place.languages
  child_fresh : ∀ frame ∈ place.frames, frame.activated = true → frame.child ≠ frame.parent
  active_live : place.active ∈ place.languages

namespace Place.Valid

variable {size : Nat} {top : LanguageId} {place : Place}

theorem reposition (h : place.Valid size top) {text cursor : Nat} (accumulating : Bool)
    (htext : place.text ≤ text) (hcursor : text ≤ cursor) (hlimit : cursor ≤ place.limit) :
    Place.Valid size top
      { place with text := text, cursor := cursor, accumulating := accumulating } :=
  { h with
    text_le_cursor := hcursor
    cursor_le_limit := hlimit
    start_le_text := fun frame hframe => (h.start_le_text frame hframe).trans htext }

theorem enter (h : place.Valid size top) (delegation : Delegation)
    (hframes : place.frames.length < delegationCapacity)
    (hstack : delegation.target ∉ place.languages → place.stack.length < lexerCapacity) :
    (place.enter delegation).Valid size top := by
  have hkeep {id : LanguageId} (hid : id ∈ place.languages) :
      id ∈ (place.enter delegation).languages := by
    simp only [Place.enter]
    split
    · exact hid
    · exact List.mem_append_left _ hid
  have htarget : delegation.target ∈ (place.enter delegation).languages := by
    simp only [Place.enter]
    split
    · assumption
    · exact List.mem_append_right _ (List.mem_singleton_self _)
  have hlimit : (place.enter delegation).limit ≤ place.limit := by
    have := h.cursor_le_limit
    simp only [Place.enter]
    split <;> omega
  have hcursor : place.text ≤ (place.enter delegation).limit := by
    have := h.text_le_cursor
    have := h.cursor_le_limit
    simp only [Place.enter]
    split <;> omega
  constructor
  case text_le_cursor => exact le_rfl
  case cursor_le_limit => exact hcursor
  case limit_le_size => exact hlimit.trans h.limit_le_size
  case frames_le => exact hframes
  case stack_le =>
    simp only [Place.enter]
    split
    case isTrue => exact h.stack_le
    case isFalse hnew =>
      rw [List.length_append]
      exact hstack hnew
  case stack_eq =>
    simp only [Place.enter, h.stack_eq]
  case stack_nodup =>
    simp only [Place.enter]
    split
    case isTrue => exact h.stack_nodup
    case isFalse hnew =>
      rw [← h.stack_eq] at hnew
      exact List.nodup_append_comm.mp (h.stack_nodup.cons hnew)
  case linked => exact ⟨rfl, h.linked⟩
  case restores => exact h.restores
  case inside =>
    refine List.pairwise_cons.mpr ⟨?_, h.inside⟩
    intro outer houter
    refine ⟨h.start_le_text outer houter, h.limit_le_saved outer houter, ?_⟩
    -- A target that has to be made is not live, while both parties of every delegation are.
    intro hactivated
    have hnew : delegation.target ∉ place.languages := of_decide_eq_true hactivated
    have hother {id : LanguageId} (hid : id ∈ place.languages) : delegation.target ≠ id := by
      intro heq
      rw [heq] at hnew
      exact hnew hid
    exact ⟨hother (h.parent_live outer houter), hother (h.child_live outer houter)⟩
  case start_le_text =>
    exact List.forall_mem_cons.mpr ⟨le_rfl, h.start_le_text⟩
  case limit_le_saved =>
    exact List.forall_mem_cons.mpr ⟨hlimit, fun frame hframe =>
      hlimit.trans (h.limit_le_saved frame hframe)⟩
  case saved_le_size =>
    exact List.forall_mem_cons.mpr ⟨h.limit_le_size, h.saved_le_size⟩
  case parent_live =>
    exact List.forall_mem_cons.mpr ⟨hkeep h.active_live, fun frame hframe =>
      hkeep (h.parent_live frame hframe)⟩
  case child_live =>
    exact List.forall_mem_cons.mpr ⟨htarget, fun frame hframe => hkeep (h.child_live frame hframe)⟩
  case child_fresh =>
    refine List.forall_mem_cons.mpr ⟨?_, h.child_fresh⟩
    intro hactivated heq
    have hnew : delegation.target ∉ place.languages := of_decide_eq_true hactivated
    have hparent : delegation.target = place.active := heq
    rw [hparent] at hnew
    exact hnew h.active_live
  case active_live => exact htarget

theorem leave (h : place.Valid size top) (frame : Frame) (outer : List Frame)
    (hframes : place.frames = frame :: outer) : (place.leave frame outer).Valid size top := by
  have hmem {other : Frame} (hother : other ∈ outer) : other ∈ place.frames := by
    rw [hframes]
    exact List.mem_cons_of_mem frame hother
  have hself : frame ∈ place.frames := by
    rw [hframes]
    exact List.mem_cons_self
  have hinside := h.inside
  rw [hframes, List.pairwise_cons] at hinside
  have hlinked := h.linked
  have hrestores := h.restores
  rw [hframes] at hlinked hrestores
  -- Only the delegate itself can go, and it is no party to what remains.
  have hkeep {id : LanguageId} (hid : id ∈ place.languages)
      (hother : frame.activated = true → frame.child ≠ id) :
      id ∈ (place.leave frame outer).languages := by
    simp only [Place.leave]
    split
    case isTrue hrelease =>
      refine List.mem_filter.mpr ⟨hid, ?_⟩
      exact bne_iff_ne.mpr (hother hrelease.2).symm
    case isFalse => exact hid
  constructor
  case text_le_cursor => exact h.text_le_cursor
  case cursor_le_limit => exact h.cursor_le_limit.trans (h.limit_le_saved frame hself)
  case limit_le_size => exact h.saved_le_size frame hself
  case frames_le =>
    have hlength := h.frames_le
    rw [hframes, List.length_cons] at hlength
    exact (Nat.le_succ _).trans hlength
  case stack_le =>
    simp only [Place.leave]
    split
    · exact (List.length_filter_le _ _).trans h.stack_le
    · exact h.stack_le
  case stack_eq => simp only [Place.leave, h.stack_eq]
  case stack_nodup =>
    simp only [Place.leave]
    split
    · exact h.stack_nodup.filter _
    · exact h.stack_nodup
  case linked => exact hlinked.2
  case restores => exact hrestores
  case inside => exact hinside.2
  case start_le_text => exact fun other hother => h.start_le_text other (hmem hother)
  case limit_le_saved => exact fun other hother => (hinside.1 other hother).limit_le
  case saved_le_size => exact fun other hother => h.saved_le_size other (hmem hother)
  case parent_live =>
    intro other hother
    exact hkeep (h.parent_live other (hmem hother))
      (fun hactivated => ((hinside.1 other hother).fresh hactivated).1)
  case child_live =>
    intro other hother
    exact hkeep (h.child_live other (hmem hother))
      (fun hactivated => ((hinside.1 other hother).fresh hactivated).2)
  case child_fresh => exact fun other hother => h.child_fresh other (hmem hother)
  case active_live => exact hkeep (h.parent_live frame hself) (h.child_fresh frame hself)

end Place.Valid

theorem Bytes.shebangLineEnd?_le (bytes : Bytes) (stop : Nat)
    (hstop : bytes.shebangLineEnd? = some stop) : stop ≤ bytes.size := by
  have hread {i : Nat} {b : UInt8} (hb : bytes[i]? = some b) : i < bytes.size :=
    (Array.getElem?_eq_some_iff.mp hb).1
  unfold shebangLineEnd? at hstop
  split at hstop
  · dsimp only at hstop
    split at hstop
    case h_1 hcr =>
      have := hread hcr
      split at hstop
      case isTrue hlf =>
        have := hread hlf
        cases hstop
        omega
      case isFalse =>
        cases hstop
        omega
    case h_2 hlf =>
      have := hread hlf
      cases hstop
      omega
    case h_3 => cases hstop
  · cases hstop

structure LiveLexers.Tidy (live : LiveLexers) : Prop where
  stack_eq : live.stack = live.languages
  nodup : live.stack.Nodup
  length_le : live.stack.length ≤ lexerCapacity

namespace Job

variable (job : Job) (bridge : Bool)

/-- Making a lexer of the caller live keeps the live lexers tidy and takes none of them out. -/
theorem enlist_tidy (live : LiveLexers) (entry : Lexer × Nat) (h : live.Tidy) :
    (job.enlist bridge live entry).Tidy ∧
      live.languages ⊆ (job.enlist bridge live entry).languages := by
  unfold enlist
  split
  case isTrue => exact ⟨h, List.Subset.refl _⟩
  case isFalse hroom =>
    have hlength : live.stack.length < lexerCapacity := by
      simpa [LiveLexers.isFull] using hroom
    by_cases hold : live.contains entry.1.language = true
    · have hsame : live.insert (job.element bridge (.caller entry.2) entry.1) = live := by
        simp only [LiveLexers.insert]
        exact if_pos hold
      rw [hsame]
      exact ⟨h, List.Subset.refl _⟩
    · rw [Bool.not_eq_true] at hold
      have hnew : entry.1.language ∉ live.stack := by
        rw [h.stack_eq, ← live.contains_iff_mem_languages, hold]
        exact Bool.false_ne_true
      obtain ⟨hlanguages, hstack⟩ := live.languages_insert
        (job.element bridge (.caller entry.2) entry.1) hold
      refine ⟨⟨?_, ?_, ?_⟩, ?_⟩
      · rw [hlanguages, hstack, h.stack_eq]
      · rw [hstack]
        exact List.nodup_append_comm.mp (h.nodup.cons hnew)
      · rw [hstack, List.length_append]
        exact hlength
      · rw [hlanguages]
        exact List.subset_append_left _ _

theorem enlist_all_tidy (entries : List (Lexer × Nat)) (live : LiveLexers) (h : live.Tidy) :
    (entries.foldl (job.enlist bridge) live).Tidy ∧
      live.languages ⊆ (entries.foldl (job.enlist bridge) live).languages := by
  induction entries generalizing live with
  | nil => exact ⟨h, List.Subset.refl _⟩
  | cons entry rest ih =>
    obtain ⟨htidy, hsubset⟩ := job.enlist_tidy bridge live entry h
    obtain ⟨hrest, hmore⟩ := ih (job.enlist bridge live entry) htidy
    exact ⟨hrest, List.Subset.trans hsubset hmore⟩

theorem passedThrough?_le (config : EngineConfig) (stop : Nat)
    (hstop : job.passedThrough? config = some stop) : stop ≤ job.input.size := by
  unfold passedThrough? at hstop
  split at hstop
  · exact Bytes.shebangLineEnd?_le job.input stop hstop
  · cases hstop

theorem start_valid (config : EngineConfig) (lexer : Lexer) (others : List Lexer) :
    (job.start config lexer others).place.Valid job.input.size lexer.language := by
  -- The first lexer always finds room, and those after it take none out.
  have hfirst := job.enlist_tidy config.parserBridge {} (lexer, 0)
    ⟨rfl, List.nodup_nil, Nat.zero_le _⟩
  have hall := job.enlist_all_tidy config.parserBridge (others.zipIdx 1)
    (job.enlist config.parserBridge {} (lexer, 0)) hfirst.1
  have hlexer : lexer.language ∈ (job.enlist config.parserBridge {} (lexer, 0)).languages :=
    List.mem_singleton_self _
  have hcursor : (job.passedThrough? config).getD 0 ≤ job.input.size := by
    cases hstop : job.passedThrough? config with
    | none => exact Nat.zero_le _
    | some stop => exact job.passedThrough?_le config stop hstop
  constructor
  case text_le_cursor => exact Nat.zero_le _
  case cursor_le_limit => exact hcursor
  case limit_le_size => exact le_rfl
  case frames_le => exact Nat.zero_le _
  case stack_le => exact hall.1.length_le
  case stack_eq => exact hall.1.stack_eq
  case stack_nodup => exact hall.1.nodup
  case linked => exact rfl
  case restores => exact rfl
  case inside => exact List.Pairwise.nil
  case active_live => exact hall.2 hlexer
  all_goals exact fun frame hframe => absurd hframe List.not_mem_nil

end Job

namespace Run

variable {job : Job} {top : LanguageId}

theorem prepare_text_le {run : Run} (h : run.place.Valid job.input.size top) :
    run.prepare.text ≤ run.cursor := by
  have hcursor : run.text ≤ run.cursor := h.text_le_cursor
  unfold prepare
  dsimp only
  split
  · exact hcursor
  · exact le_rfl

theorem scan_valid {run scanned : Run} {event : ScanEvent}
    (h : run.place.Valid job.input.size top)
    (hscan : run.prepare.scan job = some (event, scanned)) :
    scanned.place.Valid job.input.size top := by
  have hprepare : run.prepare.place.Valid job.input.size top := by
    have hcursor := h.text_le_cursor
    have htext : run.text ≤ run.prepare.text ∧ run.prepare.text ≤ run.cursor := by
      simp only [prepare]
      split
      · exact ⟨le_rfl, hcursor⟩
      · exact ⟨hcursor, le_rfl⟩
    exact h.reposition false htext.1 htext.2 h.cursor_le_limit
  obtain ⟨hplace, hlow, hhigh⟩ := scan_place job run.prepare hscan
  have htext : run.prepare.text ≤ run.prepare.limit :=
    hprepare.text_le_cursor.trans hprepare.cursor_le_limit
  have hsize : run.prepare.limit ≤ job.input.size := hprepare.limit_le_size
  -- The window of the call is clamped to the input, which has no effect here.
  have hmin : min run.prepare.limit job.input.size = run.prepare.limit := Nat.min_eq_left hsize
  rw [hmin] at hlow hhigh
  rw [Nat.min_eq_left htext] at hlow
  rw [hplace]
  exact hprepare.reposition run.prepare.accumulating le_rfl hlow hhigh

theorem Move.valid {event : ScanEvent} {scanned after : Run} (hmove : Move job scanned event after)
    (h : scanned.place.Valid job.input.size top) : after.place.Valid job.input.size top := by
  have htext : scanned.text ≤ scanned.cursor := h.text_le_cursor
  have hcursor : scanned.cursor ≤ scanned.limit := h.cursor_le_limit
  cases hmove with
  | token kind =>
    rw [token_place]
    exact h
  | extend => exact h.reposition true le_rfl htext hcursor
  | leave frame outer hframes =>
    -- The open span is closed first, so the pending span is empty when the delegation ends.
    rw [unterminated_leave_place job scanned htext]
    exact (h.reposition scanned.accumulating htext le_rfl hcursor).leave frame outer hframes
  | refuse delegation hrefused =>
    rw [fallback_place]
    split
    · exact h.reposition scanned.accumulating le_rfl (htext.trans hcursor) le_rfl
    · exact h
  | enter delegation haccepted =>
    rw [enter_place]
    obtain ⟨hframes, hstack⟩ := (scanned.refuses_eq_false_iff delegation.target).mp haccepted
    exact h.enter delegation hframes hstack

/-- Whatever a run reaches from its beginning is at a valid place. -/
theorem Reaches.valid {config : EngineConfig} {lexer : Lexer} {others : List Lexer} {run : Run}
    (hreach : Reaches job (job.start config lexer others) run) :
    run.place.Valid job.input.size lexer.language := by
  refine hreach.invariant (I := fun run => run.place.Valid job.input.size lexer.language)
    (M := fun _ scanned => scanned.place.Valid job.input.size lexer.language) ?_ ?_
    (job.start_valid config lexer others)
  · intro run event scanned h hscan
    exact scan_valid h hscan
  · intro event scanned after stalls h hmove
    exact hmove.valid h

/-- The ranges that can be taken out of the input while the event of a scan call is carried out: those
of the queued spans, and the pending span up to the cursor or, where a delegation is turned down, up to
the limit. -/
def slices (scanned : Run) : Array (Nat × Nat) :=
  (scanned.ranges.push (scanned.text, scanned.cursor)).push (scanned.text, scanned.limit)

theorem mem_slices {scanned : Run} {range : Nat × Nat} :
    range ∈ scanned.slices ↔ range ∈ scanned.ranges ∨ range = (scanned.text, scanned.cursor) ∨
      range = (scanned.text, scanned.limit) := by
  simp only [slices, Array.mem_push, or_assoc]

/-- What is queued after a move was queued before it or is the pending span. -/
theorem Move.ranges_subset {event : ScanEvent} {scanned after : Run}
    (hmove : Move job scanned event after) :
    ∀ range ∈ after.ranges, range ∈ scanned.slices := by
  intro range hrange
  rw [mem_slices]
  cases hmove with
  | token kind =>
    rcases mem_token_ranges job scanned hrange with hold | hnew
    · exact Or.inl hold
    · exact Or.inr (Or.inl hnew)
  | extend => exact Or.inl hrange
  | leave frame outer hframes => simp at hrange
  | refuse delegation hrefused => exact mem_fallback_ranges job scanned hrange
  | enter delegation haccepted => simp at hrange

def InRange (job : Job) (range : Nat × Nat) : Prop :=
  range.1 ≤ range.2 ∧ range.2 ≤ job.input.size

theorem slices_inRange {scanned : Run} (h : scanned.place.Valid job.input.size top)
    (hqueued : ∀ range ∈ scanned.ranges, InRange job range) :
    ∀ range ∈ scanned.slices, InRange job range := by
  have htext : scanned.text ≤ scanned.cursor := h.text_le_cursor
  have hcursor : scanned.cursor ≤ scanned.limit := h.cursor_le_limit
  have hlimit : scanned.limit ≤ job.input.size := h.limit_le_size
  intro range hrange
  rcases mem_slices.mp hrange with hold | rfl | rfl
  · exact hqueued range hold
  · exact ⟨htext, hcursor.trans hlimit⟩
  · exact ⟨htext.trans hcursor, hlimit⟩

theorem Reaches.ranges_inRange {config : EngineConfig} {lexer : Lexer} {others : List Lexer}
    {run : Run} (hreach : Reaches job (job.start config lexer others) run) :
    ∀ range ∈ run.ranges, InRange job range := by
  refine (hreach.invariant
    (I := fun run => run.place.Valid job.input.size lexer.language ∧
      ∀ range ∈ run.ranges, InRange job range)
    (M := fun _ scanned => scanned.place.Valid job.input.size lexer.language ∧
      ∀ range ∈ scanned.ranges, InRange job range) ?_ ?_
    ⟨job.start_valid config lexer others, ?_⟩).2
  · intro run event scanned h hscan
    refine ⟨scan_valid h.1 hscan, ?_⟩
    rw [scan_ranges job run.prepare hscan]
    exact h.2
  · intro event scanned after stalls h hmove
    refine ⟨hmove.valid h.1, fun range hrange => ?_⟩
    exact slices_inRange h.1 h.2 range (hmove.ranges_subset range hrange)
  · intro range hrange
    cases hstop : job.passedThrough? config with
    | none => simp [Job.start, ranges, hstop] at hrange
    | some stop =>
      have hline : range = (0, stop) := by
        simpa [Job.start, ranges, hstop, Span.range, Span.ofLexer] using hrange
      rw [hline]
      exact ⟨Nat.zero_le _, job.passedThrough?_le config stop hstop⟩

/-- What holds of a run before a step, with `top` the language of its first lexer. -/
structure Sound (job : Job) (top : LanguageId) (run : Run) : Prop where
  valid : run.place.Valid job.input.size top
  queued : ∀ range ∈ run.ranges, InRange job range
  /-- The active lexer is found. -/
  answers : ∃ event scanned, run.prepare.scan job = some (event, scanned)
  scanned_valid : ∀ event scanned, run.prepare.scan job = some (event, scanned) →
    scanned.place.Valid job.input.size top
  /-- The delegate of every delegation is found by name when the lexer is done. -/
  named : ∀ event scanned, run.prepare.scan job = some (event, scanned) →
    ∀ frame ∈ scanned.frames, (scanned.unterminated job).live.contains frame.child = true ∧
      (scanned.unterminated job).nameOf job frame.child = job.catalog.name frame.child
  /-- Nothing is taken out of the input that does not lie inside it. -/
  sliced : ∀ event scanned, run.prepare.scan job = some (event, scanned) →
    ∀ range ∈ scanned.slices, InRange job range
  /-- The run ends only with an outermost lexer that is done, and what it leaves in the queue lies
  inside the input. -/
  ended : ∀ last, run.step job = .finished last →
    (∃ scanned, run.prepare.scan job = some (.done, scanned) ∧ scanned.frames = []) ∧
      ∀ range ∈ last.ranges, InRange job range

theorem unterminated_named {scanned : Run} (h : scanned.place.Valid job.input.size top)
    (frame : Frame) (hframe : frame ∈ scanned.frames) :
    (scanned.unterminated job).live.contains frame.child = true ∧
      (scanned.unterminated job).nameOf job frame.child = job.catalog.name frame.child := by
  have hkept : (scanned.unterminated job).live.languages = scanned.live.languages :=
    congrArg Place.languages (unterminated_place job scanned h.text_le_cursor)
  have hlive : (scanned.unterminated job).live.contains frame.child = true := by
    rw [LiveLexers.contains_iff_mem_languages, hkept]
    exact h.child_live frame hframe
  exact ⟨hlive, if_pos hlive⟩

/-- A run that reached its last step by a valid place ends with its outermost lexer. -/
theorem step_finished_valid {run last : Run} (h : run.place.Valid job.input.size top)
    (hstep : run.step job = .finished last) :
    ∃ scanned, run.prepare.scan job = some (.done, scanned) ∧ scanned.frames = [] ∧
      last = scanned.unterminated job := by
  -- A live active lexer answers, which rules out the other way to end.
  obtain ⟨event, scanned, hscan⟩ := run.prepare.scan_isSome job h.active_live
  rcases step_finished hstep with ⟨hnone, -⟩ | hclosed
  · rw [hnone] at hscan
    cases hscan
  · exact hclosed

/-- A run ends at `scanned`: so it is after the scan call in which the outermost lexer is done, with no
delegation under way. -/
def EndsAt (job : Job) (first scanned : Run) : Prop :=
  scanned.frames = [] ∧
    ∃ run, Reaches job first run ∧ run.prepare.scan job = some (.done, scanned)

end Run

/-- A document comes of a run that ends with its outermost lexer. -/
theorem highlight_eq_ok {fuel : Nat} {catalog : Catalog} {host : Host} {config : EngineConfig}
    {source : Bytes} {lexers : List Lexer} {highlighted : Highlighted} {calls : Array Call}
    (hrun : highlight fuel catalog host config source lexers = some highlighted)
    (hok : highlighted.outcome = .ok calls) :
    ∃ lexer others scanned, lexers = lexer :: others ∧
      Run.EndsAt (Job.ofSource catalog host config source)
        ((Job.ofSource catalog host config source).start config lexer others) scanned ∧
      calls = (scanned.unterminated (Job.ofSource catalog host config source)).document
        (Job.ofSource catalog host config source) := by
  cases lexers with
  | nil =>
    cases hrun
    cases hok
  | cons lexer others =>
    obtain ⟨⟨result, last⟩, hdrive, rfl⟩ := Option.map_eq_some_iff.mp hrun
    obtain ⟨run, hreach, ⟨rfl, hstep⟩ | ⟨error, rfl, -⟩⟩ := Run.drive_eq_some hdrive
    · obtain ⟨scanned, hscan, hframes, rfl⟩ := Run.step_finished_valid hreach.valid hstep
      cases hok
      exact ⟨lexer, others, scanned, rfl, ⟨hframes, run, hreach, hscan⟩, rfl⟩
    · cases hok

/-- Every run is sound before each of its steps, whatever the grammars, the source, the settings and
the lexers are. -/
theorem reached_run_sound (job : Job) (config : EngineConfig) (lexer : Lexer) (others : List Lexer)
    (run : Run) (hreach : Run.Reaches job (job.start config lexer others) run) :
    run.Sound job lexer.language := by
  have hvalid := hreach.valid
  have hscanned {event : ScanEvent} {scanned : Run}
      (hscan : run.prepare.scan job = some (event, scanned)) :=
    Run.scan_valid hvalid hscan
  have hslices {event : ScanEvent} {scanned : Run}
      (hscan : run.prepare.scan job = some (event, scanned)) :
      ∀ range ∈ scanned.slices, Run.InRange job range := by
    refine Run.slices_inRange (hscanned hscan) ?_
    rw [Run.scan_ranges job run.prepare hscan]
    exact hreach.ranges_inRange
  constructor
  case valid => exact hvalid
  case queued => exact hreach.ranges_inRange
  case answers => exact run.prepare.scan_isSome job hvalid.active_live
  case scanned_valid => exact fun event scanned hscan => hscanned hscan
  case named =>
    exact fun event scanned hscan frame hframe =>
      Run.unterminated_named (hscanned hscan) frame hframe
  case sliced => exact fun event scanned hscan => hslices hscan
  case ended =>
    intro last hstep
    obtain ⟨scanned, hscan, hframes, rfl⟩ := Run.step_finished_valid hvalid hstep
    refine ⟨⟨scanned, hscan, hframes⟩, fun range hrange => ?_⟩
    apply hslices hscan
    rcases Run.mem_unterminated_ranges job scanned hrange with hold | hnew
    · exact Run.mem_slices.mpr (Or.inl hold)
    · exact Run.mem_slices.mpr (Or.inr (Or.inl hnew))

def Catalog.relay : Catalog where
  custom number :=
    { name := "Relay"
      grammar :=
        { scan := fun _ _ cx =>
            if cx.atEnd then (.done, cx)
            else
              (.delegate { mode := .full, target := .custom (number + 1), fallback := .text }, cx) } }

def Job.relay : Job :=
  Job.ofSource .relay (fun _ => none) {} #[0x61, 0x62]

def Job.relayed : Array Call :=
  #[.startDocument] ++ Array.replicate delegationCapacity (.startLexing "Relay") ++
    #[.startToken .text, .write #[0x61, 0x62], .endToken .text] ++
    Array.replicate delegationCapacity (.endLexing "Relay") ++ #[.endDocument]

theorem exists_highlighted_of_calls {answer : Option Highlighted} {calls : Array Call}
    (hcalls : answer.map (fun highlighted => highlighted.outcome.toOption) = some (some calls)) :
    ∃ highlighted, answer = some highlighted ∧ highlighted.outcome = .ok calls := by
  obtain ⟨highlighted, hrun, houtcome⟩ := Option.map_eq_some_iff.mp hcalls
  refine ⟨highlighted, hrun, ?_⟩
  cases hok : highlighted.outcome with
  | error error =>
    rw [hok] at houtcome
    cases houtcome
  | ok calls =>
    rw [hok] at houtcome
    cases houtcome
    rfl

theorem exists_highlighted {answer : Option Highlighted}
    (hcalls : (answer.map (fun highlighted => highlighted.outcome.toOption)).join.isSome) :
    ∃ highlighted calls, answer = some highlighted ∧ highlighted.outcome = .ok calls := by
  obtain ⟨calls, hcalls⟩ := Option.isSome_iff_exists.mp hcalls
  obtain ⟨highlighted, hrun, hok⟩ := exists_highlighted_of_calls (Option.join_eq_some_iff.mp hcalls)
  exact ⟨highlighted, calls, hrun, hok⟩

theorem relay_highlighted :
    ∃ highlighted,
      highlight 64 .relay (fun _ => none) {} #[0x61, 0x62] [Lexer.create .relay (.custom 0)] =
        some highlighted ∧
      highlighted.outcome = .ok Job.relayed :=
  exists_highlighted_of_calls (by decide +kernel)

/-- The run with as many delegations under way as there may be. -/
theorem reached_run_sound_deepest :
    ∃ run, Run.Reaches Job.relay (Job.relay.start {} (Lexer.create .relay (.custom 0)) []) run ∧
      run.frames.length = delegationCapacity ∧ run.Sound Job.relay (.custom 0) := by
  have hafter : ((Run.after? Job.relay 16 (Job.relay.start {} (Lexer.create .relay (.custom 0)) [])).map
      (fun run => run.frames.length)) = some delegationCapacity := by decide +kernel
  obtain ⟨run, hrun, hframes⟩ := Option.map_eq_some_iff.mp hafter
  have hreach := Run.reaches_of_after? hrun
  exact ⟨run, hreach, hframes, reached_run_sound Job.relay {} _ [] run hreach⟩

end Highlighting
