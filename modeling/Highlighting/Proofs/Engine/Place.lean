import Highlighting.Engine.Highlight

/-! Where a run is: the part of its state that decides which lexer scans what next. Queueing,
rendering and parsing leave it alone; only scan calls, delegations and their ends change it. -/
namespace Highlighting

namespace LiveLexers

def languages (live : LiveLexers) : List LanguageId :=
  live.table.map Element.language

theorem contains_iff_mem_languages (live : LiveLexers) (id : LanguageId) :
    live.contains id = true ↔ id ∈ live.languages := by
  simp only [contains, languages, List.any_eq_true, beq_iff_eq, List.mem_map]

theorem get?_of_mem_languages (live : LiveLexers) (id : LanguageId) (hid : id ∈ live.languages) :
    ∃ element ∈ live.table, element.language = id ∧ live.get? id = some element := by
  obtain ⟨member, hmember, hlanguage⟩ := List.mem_map.mp hid
  cases hfound : live.get? id with
  | none =>
    have hnone := List.find?_eq_none.mp hfound member hmember
    exact absurd (beq_iff_eq.mpr hlanguage) hnone
  | some element =>
    have hnamed := List.find?_some (p := fun entry : Element => entry.language == id) hfound
    exact ⟨element, List.mem_of_find?_eq_some hfound, beq_iff_eq.mp hnamed, rfl⟩

theorem language_of_get? {live : LiveLexers} {id : LanguageId} {element : Element}
    (hget : live.get? id = some element) : element.language = id := by
  have hnamed := List.find?_some (p := fun entry : Element => entry.language == id) hget
  exact beq_iff_eq.mp hnamed

theorem languages_update (live : LiveLexers) (id : LanguageId) (change : Element → Element)
    (hchange : ∀ element, (change element).language = element.language) :
    (live.update id change).languages = live.languages := by
  simp only [languages, update, List.map_map]
  apply List.map_congr_left
  intro element _
  by_cases hid : (element.language == id) = true
  · simp only [Function.comp_apply, hid, if_true, hchange]
  · simp only [Function.comp_apply, hid, Bool.false_eq_true, if_false]

theorem languages_erase (live : LiveLexers) (id : LanguageId) :
    (live.erase id).languages = live.languages.filter (fun entry => entry != id) := by
  simp only [languages, erase, List.filter_map]
  rfl

theorem languages_insert (live : LiveLexers) (element : Element)
    (hnew : live.contains element.language = false) :
    (live.insert element).languages = live.languages ++ [element.language] ∧
      (live.insert element).stack = live.stack ++ [element.language] := by
  simp [insert, hnew, languages]

end LiveLexers

/-- The part of a run's state that decides which lexer scans what next. -/
structure Place where
  active : LanguageId
  frames : List Frame
  text : Nat
  cursor : Nat
  limit : Nat
  accumulating : Bool
  stack : List LanguageId
  languages : List LanguageId

namespace Place

def enter (place : Place) (delegation : Delegation) : Place where
  active := delegation.target
  frames :=
    { mode := delegation.mode
      parent := place.active
      child := delegation.target
      start := place.text
      savedLimit := place.limit
      resume := delegation.resume
      activated := decide (delegation.target ∉ place.languages) } :: place.frames
  text := place.text
  cursor := place.text
  limit := if delegation.mode = .within then place.cursor else place.limit
  accumulating := place.accumulating
  stack :=
    if delegation.target ∈ place.languages then place.stack
    else place.stack ++ [delegation.target]
  languages :=
    if delegation.target ∈ place.languages then place.languages
    else place.languages ++ [delegation.target]

/-- The place after a delegation has ended: the delegating lexer is active again with its old limit,
and a delegate that was made for the delegation and decided by itself where to stop is gone. -/
def leave (place : Place) (frame : Frame) (outer : List Frame) : Place where
  active := frame.parent
  frames := outer
  text := place.text
  cursor := place.cursor
  limit := frame.savedLimit
  accumulating := place.accumulating
  stack :=
    if frame.mode = .full ∧ frame.activated then
      place.stack.filter (fun entry => entry != frame.child)
    else place.stack
  languages :=
    if frame.mode = .full ∧ frame.activated then
      place.languages.filter (fun entry => entry != frame.child)
    else place.languages

end Place

namespace Run

def place (run : Run) : Place where
  active := run.active
  frames := run.frames
  text := run.text
  cursor := run.cursor
  limit := run.limit
  accumulating := run.accumulating
  stack := run.live.stack
  languages := run.live.languages

section Rendering

variable (job : Job) (run : Run)

@[simp]
theorem flush_place : (run.flush job).place = run.place := rfl

@[simp]
theorem queue_place (kind : TokenKind) : (run.queue kind).place = run.place := rfl

@[simp]
theorem abandonParsers_place : run.abandonParsers.place = run.place := rfl

@[simp]
theorem flushIfFull_place : (run.flushIfFull job).place = run.place := by
  unfold flushIfFull
  split
  · exact flush_place job run
  · rfl

theorem setParser_place (parser : RunningParser) (pending : Array Span) :
    { run with
      live := run.live.update run.active (Element.setParser · parser)
      pending := pending }.place = run.place := by
  have hlanguages := run.live.languages_update run.active (Element.setParser · parser)
    (fun _ => rfl)
  simp only [place, hlanguages]
  rfl

@[simp]
theorem consultParser_place (kind : TokenKind) :
    (run.consultParser job kind).place = run.place := by
  unfold consultParser
  split
  · rfl
  · dsimp only
    split
    · exact setParser_place run _ _
    · rw [abandonParsers_place]
      exact setParser_place run _ _

@[simp]
theorem token_place (kind : TokenKind) : (run.token job kind).place = run.place := by
  unfold token
  split
  · rfl
  · simp only [flushIfFull_place, consultParser_place, queue_place]

end Rendering

section Moving

variable (job : Job) (run : Run)

theorem unterminated_place (hcursor : run.text ≤ run.cursor) :
    (run.unterminated job).place = { run.place with text := run.cursor } := by
  unfold unterminated
  split
  · -- There is no span to close: it ends where it begins.
    have htext : run.text = run.cursor := by omega
    simp only [place, htext]
  · have hflush := flushIfFull_place job (run.queue .text)
    exact congrArg (fun place => { place with text := run.cursor }) hflush

theorem fallback_place (delegation : Delegation) :
    (run.fallback job delegation).place =
      { run.place with
        cursor :=
          if delegation.mode = .full ∧ run.cursor = run.text then run.limit else run.cursor } := by
  simp only [fallback, token_place]
  split <;> rfl

theorem fallback_within_place (delegation : Delegation) (hmode : delegation.mode = .within) :
    (run.fallback job delegation).place = run.place := by
  rw [fallback_place, hmode]
  rfl

/-- A delegation is accepted if there is room for its frame and, unless its target is live, for a lexer
of the target. -/
theorem refuses_eq_false_iff (target : LanguageId) :
    run.refuses target = false ↔ run.frames.length < delegationCapacity ∧
      (target ∉ run.live.languages → run.live.stack.length < lexerCapacity) := by
  rw [← run.live.contains_iff_mem_languages]
  simp [refuses, LiveLexers.isFull]

theorem enter_place (delegation : Delegation) :
    (run.enter job delegation).place = run.place.enter delegation := by
  by_cases hlive : delegation.target ∈ run.live.languages
  · have hcontains := (run.live.contains_iff_mem_languages delegation.target).mpr hlive
    simp [enter, place, Place.enter, flush, hcontains, hlive]
  · have hcontains : run.live.contains delegation.target = false := by
      rw [← Bool.not_eq_true, run.live.contains_iff_mem_languages]
      exact hlive
    have hinsert := run.live.languages_insert
      (job.element run.bridge .engine (Lexer.create job.catalog delegation.target)) hcontains
    simp only [enter, place, Place.enter, flush, activate, hcontains, hinsert, hlive,
      Bool.false_eq_true, if_false, not_false_eq_true, decide_true, Bool.not_false]
    rfl

def resumed (frame : Frame) : Run :=
  let flushed := run.flush job
  { flushed with
    active := frame.parent
    emitter := flushed.emitter.endLexing (run.nameOf job frame.child)
    limit := frame.savedLimit
    live :=
      match frame.resume with
      | none => flushed.live
      | some condition =>
        flushed.live.update frame.parent (fun element =>
          element.setState (element.lexer.state.start condition)) }

theorem leave_eq (frame : Frame) :
    run.leave job frame =
      if frame.mode = .full ∧ frame.activated then
        (run.resumed job frame).deactivate job frame.child
      else run.resumed job frame := rfl

theorem resumed_languages (frame : Frame) :
    (run.resumed job frame).live.languages = run.live.languages := by
  unfold resumed
  cases frame.resume with
  | none => rfl
  | some condition => exact run.live.languages_update _ _ (fun _ => rfl)

theorem leave_place (frame : Frame) :
    (run.leave job frame).place = run.place.leave frame run.frames := by
  -- Resuming in a condition touches the state of the delegating lexer, which is no part of the place.
  have hlanguages := resumed_languages job run frame
  have hstack : (run.resumed job frame).live.stack = run.live.stack := by
    unfold resumed
    cases frame.resume <;> rfl
  rw [leave_eq]
  by_cases hrelease : frame.mode = .full ∧ frame.activated
  · simp only [if_pos hrelease, deactivate, place, Place.leave, LiveLexers.languages_erase,
      hlanguages]
    rw [← hstack]
    rfl
  · simp only [if_neg hrelease, place, Place.leave, hlanguages, hstack]
    rfl

theorem unterminated_leave_place (hcursor : run.text ≤ run.cursor) (frame : Frame)
    (outer : List Frame) :
    ({ run.unterminated job with frames := outer }.leave job frame).place =
      { run.place with text := run.cursor }.leave frame outer := by
  rw [leave_place, ← unterminated_place job run hcursor]
  rfl

/-- A scan call starts from the cursor, or from the pending span if that was kept open. -/
theorem prepare_place :
    run.prepare.place =
      { run.place with
        text := if run.accumulating then run.text else run.cursor
        accumulating := false } := rfl

theorem prepare_text_of_idle (hidle : run.accumulating = false) : run.prepare.text = run.cursor :=
  if_neg (ne_true_of_eq_false hidle)

theorem follow_place {w : Window} (after : ScanContext w) :
    (run.follow after).place = { run.place with cursor := after.cursor } := by
  have hlanguages := run.live.languages_update run.active (Element.setState · after.state)
    (fun _ => rfl)
  simp only [follow, place, hlanguages]
  rfl

theorem scan_eq_some_iff {event : ScanEvent} {scanned : Run} :
    run.scan job = some (event, scanned) ↔
      ∃ element, run.live.get? run.active = some element ∧
        (run.scanCall job element.lexer).1 = event ∧
        run.follow (run.scanCall job element.lexer).2 = scanned := by
  simp only [scan, Option.map_eq_some_iff, Prod.mk.injEq]

/-- A scan call of the active lexer moves the cursor inside the window and nothing else. -/
theorem scan_place {event : ScanEvent} {scanned : Run}
    (hscan : run.scan job = some (event, scanned)) :
    scanned.place = { run.place with cursor := scanned.cursor } ∧
      min run.text (min run.limit job.input.size) ≤ scanned.cursor ∧
      scanned.cursor ≤ min run.limit job.input.size := by
  obtain ⟨element, -, -, rfl⟩ := (run.scan_eq_some_iff job).mp hscan
  exact ⟨run.follow_place _, (run.scanCall job element.lexer).2.start_le_cursor,
    (run.scanCall job element.lexer).2.cursor_le_limit⟩

theorem scan_isSome (hactive : run.active ∈ run.live.languages) :
    ∃ event scanned, run.scan job = some (event, scanned) := by
  obtain ⟨element, -, -, hget⟩ := run.live.get?_of_mem_languages run.active hactive
  exact ⟨_, _, (run.scan_eq_some_iff job).mpr ⟨element, hget, rfl, rfl⟩⟩

end Moving

end Run

end Highlighting
