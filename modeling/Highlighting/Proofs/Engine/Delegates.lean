import Highlighting.Proofs.Engine.Protocol

/-! A delegate writes nothing but its own range. Between the two marks of a delegation stand the texts
from where the pending span began to where the delegate stopped, whatever further delegations there
were meanwhile; what lies before is written before, and the delegating lexer goes on from there under
its old limit. -/
namespace Highlighting

namespace Emitter

def prepend (base : Array Call) (emitter : Emitter) : Emitter :=
  ⟨emitter.openRun, base ++ emitter.calls⟩

variable (base : Array Call) (emitter : Emitter)

theorem call_prepend (call : Call) :
    (emitter.prepend base).call call = (emitter.call call).prepend base := by
  simp only [Emitter.call, prepend, Array.append_push]

theorem closeRun_prepend : (emitter.prepend base).closeRun = emitter.closeRun.prepend base := by
  cases hopen : emitter.openRun <;>
    simp only [closeRun, prepend, hopen, Array.append_push]

theorem emit_prepend (kind : TokenKind) (text : Bytes) :
    (emitter.prepend base).emit kind text = (emitter.emit kind text).prepend base := by
  have hopen : (emitter.prepend base).openRunOf kind = (emitter.openRunOf kind).prepend base := by
    unfold openRunOf
    rw [closeRun_prepend]
    split
    case isTrue hsame => rw [if_pos (show emitter.openRun = some kind from hsame)]
    case isFalse hother =>
      rw [if_neg (show emitter.openRun ≠ some kind from hother)]
      simp only [prepend, Array.append_push]
  unfold emit
  rw [hopen, call_prepend]
  split <;> rfl

theorem emitSpans_prepend (input : Bytes) (spans : List Span) :
    spans.foldl (emitSpan input) (emitter.prepend base) =
      (spans.foldl (emitSpan input) emitter).prepend base := by
  induction spans generalizing emitter with
  | nil => rfl
  | cons span rest ih =>
    rw [List.foldl_cons, List.foldl_cons, ← ih]
    exact congrArg (rest.foldl (emitSpan input)) (emit_prepend base emitter span.kind _)

def Emits (input : Bytes) (first second : Emitter) : Prop :=
  ∃ spans : List Span, second = spans.foldl (emitSpan input) first

variable {input : Bytes} {first second third : Emitter}

theorem Emits.refl (emitter : Emitter) : Emits input emitter emitter :=
  ⟨[], rfl⟩

theorem Emits.trans (h : Emits input first second) (hnext : Emits input second third) :
    Emits input first third := by
  obtain ⟨spans, rfl⟩ := h
  obtain ⟨more, rfl⟩ := hnext
  exact ⟨spans ++ more, List.foldl_append.symm⟩

/-- The calls made since `base` are those of a document under way, its beginning apart. The delegates
`names` were begun since then and are open. -/
def Since (base : Array Call) (names : List String) (emitter : Emitter) : Prop :=
  ∃ part : Emitter, emitter = part.prepend base ∧ (part.prepend #[.startDocument]).Renders names

variable {base emitter} {names : List String}

theorem since_self (hopen : emitter.openRun = none) : emitter.Since emitter.calls [] := by
  refine ⟨{}, ?_, Underway.document .empty⟩
  cases emitter with
  | mk openRun calls =>
    cases hopen
    simp [prepend]

theorem Since.emits (h : first.Since base names) (hemits : Emits input first second) :
    second.Since base names := by
  obtain ⟨part, rfl, hrenders⟩ := h
  obtain ⟨spans, rfl⟩ := hemits
  -- The spans are written behind `base` as they are behind the beginning of a document.
  refine ⟨spans.foldl (emitSpan input) part, emitSpans_prepend base part input spans, ?_⟩
  have hmore := hrenders.emitSpans input spans.toArray
  rw [List.foldl_toArray, emitSpans_prepend] at hmore
  exact hmore

theorem Since.startLexing (h : emitter.Since base names) (name : String)
    (hroom : names.length < delegationCapacity) :
    (emitter.startLexing name).Since base (name :: names) := by
  obtain ⟨part, rfl, hrenders⟩ := h
  have hmore := hrenders.startLexing name hroom
  simp only [Emitter.startLexing, closeRun_prepend, call_prepend] at hmore ⊢
  exact ⟨_, rfl, hmore⟩

theorem Since.endLexing {name : String} (h : emitter.Since base (name :: names)) :
    (emitter.endLexing name).Since base names := by
  obtain ⟨part, rfl, hrenders⟩ := h
  have hmore := hrenders.endLexing
  simp only [Emitter.endLexing, closeRun_prepend, call_prepend] at hmore ⊢
  exact ⟨_, rfl, hmore⟩

/-- With nothing begun since that is still open, the calls since then are complete. -/
theorem Since.closed (h : emitter.Since base []) :
    ∃ inner last, emitter.closeRun.calls = base ++ inner ∧
      Body delegationCapacity last inner.toList := by
  obtain ⟨part, rfl, hrenders⟩ := h
  have hclosed := hrenders.closeRun
  rw [closeRun_prepend] at hclosed ⊢
  refine ⟨part.closeRun.calls, part.openRun, rfl, ?_⟩
  generalize hcalls : (part.closeRun.prepend #[.startDocument]).calls.toList = calls at hclosed
  have hopen : (part.prepend #[.startDocument]).openRun = part.openRun := rfl
  rw [hopen] at hclosed
  -- A document in which no delegate is open is its beginning and a complete body.
  cases hclosed with
  | document hbody =>
    simp only [prepend, Array.toList_append, List.cons_append, List.nil_append,
      List.cons.injEq, true_and] at hcalls
    rw [hcalls]
    exact hbody

def Extends (first second : Emitter) : Prop :=
  first.calls.toList <+: second.calls.toList

theorem Extends.exists_append (h : first.Extends second) :
    ∃ rest, second.calls = first.calls ++ rest := by
  obtain ⟨rest, hrest⟩ := h
  refine ⟨rest.toArray, ?_⟩
  apply Array.toList_inj.mp
  rw [← hrest, Array.toList_append]

theorem extends_closeRun_call (emitter : Emitter) (call : Call) :
    emitter.Extends (emitter.closeRun.call call) ∧
      emitter.calls.size < (emitter.closeRun.call call).calls.size := by
  unfold Extends closeRun Emitter.call
  split
  · simp
  · simp only [Array.toList_push, Array.size_push]
    exact ⟨⟨_, (List.append_assoc _ _ _).symm⟩, by omega⟩

theorem Emits.extends (h : Emits input first second) : first.Extends second := by
  obtain ⟨spans, rfl⟩ := h
  -- An emitter is one without calls of its own behind the calls it has made.
  have hself : first = (⟨first.openRun, #[]⟩ : Emitter).prepend first.calls := by
    simp only [prepend, Array.append_empty]
  rw [hself, emitSpans_prepend]
  simp [Extends, prepend]

end Emitter

namespace Run

section Rendering

variable (job : Job) (run : Run)

theorem flush_emits : Emitter.Emits job.input run.emitter (run.flush job).emitter :=
  ⟨run.pending.toList, (Array.foldl_toList _).symm⟩

theorem flushIfFull_emits : Emitter.Emits job.input run.emitter (run.flushIfFull job).emitter := by
  unfold flushIfFull
  split
  · exact flush_emits job run
  · exact .refl _

theorem token_emits (kind : TokenKind) :
    Emitter.Emits job.input run.emitter (run.token job kind).emitter := by
  unfold token
  split
  · exact .refl _
  · have hconsulted := flushIfFull_emits job ((run.queue kind).consultParser job kind)
    rw [consultParser_emitter] at hconsulted
    exact hconsulted

theorem unterminated_emits : Emitter.Emits job.input run.emitter (run.unterminated job).emitter := by
  unfold unterminated
  split
  · exact .refl _
  · exact flushIfFull_emits job (run.queue .text)

theorem fallback_emits (delegation : Delegation) :
    Emitter.Emits job.input run.emitter (run.fallback job delegation).emitter := by
  unfold fallback
  dsimp only
  split
  · exact token_emits job { run with cursor := run.limit } delegation.fallback
  · exact token_emits job run delegation.fallback

theorem enter_emitter (delegation : Delegation) :
    (run.enter job delegation).emitter =
      (run.flush job).emitter.startLexing (job.catalog.name delegation.target) := by
  unfold enter
  dsimp only
  split <;> rfl

theorem leave_emitter (frame : Frame) :
    (run.leave job frame).emitter =
      (run.flush job).emitter.endLexing (run.nameOf job frame.child) := by
  unfold leave
  dsimp only
  split <;> rfl

theorem unterminated_leave_emitter {top : LanguageId} {frame : Frame} {outer : List Frame}
    (hvalid : run.place.Valid job.input.size top) (hframe : frame ∈ run.frames) :
    ({ run.unterminated job with frames := outer }.leave job frame).emitter =
      ((run.unterminated job).flush job).emitter.endLexing (job.catalog.name frame.child) := by
  -- The name at the end was looked up among the live lexers, where the delegate still is.
  rw [leave_emitter, ← (unterminated_named hvalid frame hframe).2]
  rfl

end Rendering

variable {job : Job} {top : LanguageId} {run next scanned after : Run} {event : ScanEvent}

theorem Move.extends (hmove : Move job scanned event after) :
    scanned.emitter.Extends after.emitter := by
  cases hmove with
  | token kind => exact (token_emits job scanned kind).extends
  | extend => exact List.prefix_refl _
  | leave frame outer hframes =>
    have hflushed := (unterminated_emits job scanned).trans (flush_emits job _)
    rw [leave_emitter]
    exact hflushed.extends.trans (Emitter.extends_closeRun_call _ _).1
  | refuse delegation hrefused => exact (fallback_emits job scanned delegation).extends
  | enter delegation haccepted =>
    rw [enter_emitter]
    exact (flush_emits job scanned).extends.trans (Emitter.extends_closeRun_call _ _).1

theorem Reaches.extends (hreach : Reaches job run next) : run.emitter.Extends next.emitter := by
  induction hreach with
  | refl => exact List.prefix_refl _
  | tail _ hstep ih =>
    obtain ⟨event, scanned, after, stalls, hscan, hmove, rfl⟩ := step_running hstep
    obtain ⟨element, -, -, rfl⟩ := (scan_eq_some_iff job _).mp hscan
    exact ih.trans hmove.extends

/-- A run goes one way only. -/
theorem Reaches.total {first : Run} (hrun : Reaches job first run) (hnext : Reaches job first next) :
    Reaches job run next ∨ Reaches job next run := by
  refine Relation.ReflTransGen.total_of_right_unique ?_ hrun hnext
  intro start one other hone hother
  exact Progress.running.inj (hone.symm.trans hother)

/-- The delegation `frame` is under way with the delegations `outer` around it and `deeper` inside it.
Its delegate was given the limit `limit`, and the calls up to its beginning are `base`. -/
structure InDelegate (job : Job) (base : Array Call) (limit : Nat) (frame : Frame)
    (outer deeper : List Frame) (run : Run) : Prop where
  frames : run.frames = deeper ++ frame :: outer
  restores : Restores limit deeper run.limit
  since : run.emitter.Since base (deeper.map (fun inner => job.catalog.name inner.child))

variable {base : Array Call} {limit : Nat} {frame : Frame} {outer deeper : List Frame}

theorem InDelegate.scan (h : run.InDelegate job base limit frame outer deeper)
    (hscan : run.prepare.scan job = some (event, scanned)) :
    scanned.InDelegate job base limit frame outer deeper := by
  obtain ⟨element, -, -, rfl⟩ := (run.prepare.scan_eq_some_iff job).mp hscan
  exact ⟨h.frames, h.restores, h.since⟩

theorem InDelegate.move (h : scanned.InDelegate job base limit frame outer deeper)
    (hvalid : scanned.place.Valid job.input.size top) (hmove : Move job scanned event after) :
    (∃ deeper, after.InDelegate job base limit frame outer deeper) ∨
      deeper = [] ∧ event = .done ∧
        after = { scanned.unterminated job with frames := outer }.leave job frame := by
  -- What only renders stays at the same frames and under the same limit.
  have hrender {place : Place} (hplace : after.place = place) (hframes : place.frames = scanned.frames)
      (hlimit : place.limit = scanned.limit)
      (hemits : Emitter.Emits job.input scanned.emitter after.emitter) :
      ∃ deeper, after.InDelegate job base limit frame outer deeper := by
    have hkept : after.frames = scanned.frames := (congrArg Place.frames hplace).trans hframes
    have hsame : after.limit = scanned.limit := (congrArg Place.limit hplace).trans hlimit
    exact ⟨deeper, hkept.trans h.frames, hsame ▸ h.restores, h.since.emits hemits⟩
  cases hmove with
  | token kind =>
    exact Or.inl (hrender (token_place job scanned kind) rfl rfl (token_emits job scanned kind))
  | extend => exact Or.inl (hrender rfl rfl rfl (.refl _))
  | leave ended around hframes =>
    have hended : ended ∈ scanned.frames := hframes ▸ List.mem_cons_self
    have hsame := h.frames.symm.trans hframes
    cases deeper with
    | nil =>
      obtain ⟨rfl, rfl⟩ := List.cons.inj hsame
      exact Or.inr ⟨rfl, rfl, rfl⟩
    | cons inner further =>
      obtain ⟨rfl, haround⟩ := List.cons.inj hsame
      have hplace := unterminated_leave_place job scanned hvalid.text_le_cursor inner around
      have hrest := (congrArg Place.frames hplace).trans haround.symm
      have hlimit := congrArg Place.limit hplace
      refine Or.inl ⟨further, hrest, ?_, ?_⟩
      · exact (congrArg (Restores limit further) hlimit).mpr h.restores
      · rw [unterminated_leave_emitter job scanned hvalid hended]
        exact (h.since.emits ((unterminated_emits job scanned).trans (flush_emits job _))).endLexing
  | refuse delegation hrefused =>
    exact Or.inl (hrender (fallback_place job scanned delegation) rfl rfl
      (fallback_emits job scanned delegation))
  | enter delegation haccepted =>
    have hplace := enter_place job scanned delegation
    have hframes := congrArg Place.frames hplace
    obtain ⟨hroom, -⟩ := (scanned.refuses_eq_false_iff delegation.target).mp haccepted
    refine Or.inl ⟨_ :: deeper, hframes.trans (congrArg (_ :: ·) h.frames), h.restores, ?_⟩
    rw [enter_emitter]
    refine (h.since.emits (flush_emits job scanned)).startLexing _ ?_
    rw [h.frames, List.length_append] at hroom
    rw [List.length_map]
    omega

/-- What ends a delegation makes one more call at least, and the calls since its beginning are then
complete. -/
theorem InDelegate.leave (h : scanned.InDelegate job base limit frame outer [])
    (hvalid : scanned.place.Valid job.input.size top) :
    scanned.emitter.calls.size <
        ({ scanned.unterminated job with frames := outer }.leave job frame).emitter.calls.size ∧
      ∃ inner last, Body delegationCapacity last inner.toList ∧
        ({ scanned.unterminated job with frames := outer }.leave job frame).emitter.calls =
          base ++ inner ++ #[.endLexing (job.catalog.name frame.child)] := by
  have hframe : frame ∈ scanned.frames := by
    rw [h.frames]
    exact List.mem_cons_self
  have hemits := (unterminated_emits job scanned).trans (flush_emits job _)
  obtain ⟨inner, last, hcalls, hbody⟩ := (h.since.emits hemits).closed
  rw [unterminated_leave_emitter job scanned hvalid hframe]
  constructor
  · exact hemits.extends.length_le.trans_lt (Emitter.extends_closeRun_call _ _).2
  · refine ⟨inner, last, hbody, ?_⟩
    rw [← hcalls]
    exact Array.push_eq_append

/-- The step from `before` to `resumed` ends the delegation `frame`; `scanned` is the run after the
last scan call of the delegate. -/
structure Returns (job : Job) (base : Array Call) (limit : Nat) (frame : Frame) (outer : List Frame)
    (before scanned resumed : Run) : Prop where
  inside : before.InDelegate job base limit frame outer []
  scan : before.prepare.scan job = some (.done, scanned)
  step : before.step job = .running resumed
  resumed_eq : ∃ stalls, resumed =
    { { scanned.unterminated job with frames := outer }.leave job frame with stalls := stalls }
  more : before.emitter.calls.size < resumed.emitter.calls.size

namespace Returns

variable {before resumed : Run}

theorem place (h : Returns job base limit frame outer before scanned resumed)
    (hvalid : scanned.place.Valid job.input.size top) :
    resumed.place = { scanned.place with text := scanned.cursor }.leave frame outer := by
  obtain ⟨stalls, rfl⟩ := h.resumed_eq
  exact unterminated_leave_place job scanned hvalid.text_le_cursor frame outer

/-- The delegating lexer goes on where the delegate stopped: no span is kept open. -/
theorem starts (h : Returns job base limit frame outer before scanned resumed)
    (hvalid : scanned.place.Valid job.input.size top) (hidle : scanned.accumulating = false) :
    resumed.prepare.text = scanned.cursor ∧ resumed.cursor = scanned.cursor := by
  have hplace := h.place hvalid
  have hclosed : resumed.accumulating = false := (congrArg Place.accumulating hplace).trans hidle
  have hcursor : resumed.cursor = scanned.cursor := congrArg Place.cursor hplace
  exact ⟨(resumed.prepare_text_of_idle hclosed).trans hcursor, hcursor⟩

theorem ranges (h : Returns job base limit frame outer before scanned resumed) :
    resumed.ranges = #[] := by
  obtain ⟨stalls, rfl⟩ := h.resumed_eq
  exact leave_ranges job { scanned.unterminated job with frames := outer } frame

theorem calls (h : Returns job base limit frame outer before scanned resumed)
    (hvalid : scanned.place.Valid job.input.size top) :
    ∃ inner last, Body delegationCapacity last inner.toList ∧
      resumed.emitter.calls = base ++ inner ++ #[.endLexing (job.catalog.name frame.child)] := by
  obtain ⟨stalls, rfl⟩ := h.resumed_eq
  exact ((h.inside.scan h.scan).leave hvalid).2

end Returns

theorem step_valid (hvalid : run.place.Valid job.input.size top) (hstep : run.step job = .running next) :
    next.place.Valid job.input.size top := by
  obtain ⟨event, scanned, after, stalls, hscan, hmove, rfl⟩ := step_running hstep
  have hafter := hmove.valid (scan_valid hvalid hscan)
  exact hafter

/-- A step stays inside a delegation or is the one that ends it. -/
theorem InDelegate.step (h : run.InDelegate job base limit frame outer deeper)
    (hvalid : run.place.Valid job.input.size top) (hstep : run.step job = .running next) :
    (∃ deeper, next.InDelegate job base limit frame outer deeper) ∨
      ∃ scanned, Returns job base limit frame outer run scanned next := by
  obtain ⟨event, scanned, after, stalls, hscan, hmove, hnext⟩ := step_running hstep
  have hscanned := scan_valid hvalid hscan
  have hinside := h.scan hscan
  rcases hinside.move hscanned hmove with ⟨further, hafter⟩ | ⟨rfl, rfl, rfl⟩
  · refine Or.inl ⟨further, ?_⟩
    rw [hnext]
    exact ⟨hafter.frames, hafter.restores, hafter.since⟩
  · have hmore : run.emitter.calls.size < next.emitter.calls.size := by
      have hless := (hinside.leave hscanned).1
      obtain ⟨element, -, -, rfl⟩ := (run.prepare.scan_eq_some_iff job).mp hscan
      rw [hnext]
      exact hless
    exact Or.inr ⟨scanned, h, hscan, hstep, ⟨stalls, hnext⟩, hmore⟩

/-- A delegation that is under way in a run that ends comes to its end. Up to there the run is inside
the delegation, and from there on it has made the call that ends it. -/
theorem Reaches.returns {last : Run} (hreach : Reaches job run last) (hlast : last.frames = [])
    (hvalid : run.place.Valid job.input.size top)
    (h : run.InDelegate job base limit frame outer deeper) :
    ∃ before scanned resumed, Returns job base limit frame outer before scanned resumed ∧
      Reaches job run before ∧ Reaches job resumed last ∧
      ∀ mid, Reaches job run mid →
        (∃ deeper, mid.InDelegate job base limit frame outer deeper) ∧
            mid.emitter.calls.size < resumed.emitter.calls.size ∨
          Reaches job resumed mid := by
  -- The induction is on the steps to the end, the first one split off.
  induction hreach using Relation.ReflTransGen.head_induction_on generalizing deeper with
  | refl =>
    rw [h.frames] at hlast
    exact absurd hlast (List.append_ne_nil_of_right_ne_nil _ (List.cons_ne_nil _ _))
  | @head run next hstep hrest ih =>
    -- What is reached from here is the run itself or is reached from the next one.
    have hfrom {mid : Run} (hmid : Reaches job run mid) : run = mid ∨ Reaches job next mid := by
      rcases hmid.cases_head with rfl | ⟨second, hsecond, hmid⟩
      · exact Or.inl rfl
      · obtain rfl := Progress.running.inj (hstep.symm.trans hsecond)
        exact Or.inr hmid
    rcases h.step hvalid hstep with ⟨further, hwithin⟩ | ⟨scanned, hreturns⟩
    · obtain ⟨before, returned, resumed, hreturns, hbefore, hend, hmeanwhile⟩ :=
        ih (step_valid hvalid hstep) hwithin
      have hreach : Reaches job run before := hbefore.head hstep
      refine ⟨before, returned, resumed, hreturns, hreach, hend, ?_⟩
      intro mid hmid
      rcases hfrom hmid with rfl | hlater
      · exact Or.inl ⟨⟨deeper, h⟩, hreach.extends.length_le.trans_lt hreturns.more⟩
      · exact hmeanwhile mid hlater
    · refine ⟨run, scanned, next, hreturns, .refl, hrest, ?_⟩
      intro mid hmid
      rcases hfrom hmid with rfl | hlater
      · exact Or.inl ⟨⟨deeper, h⟩, hreturns.more⟩
      · exact Or.inr hlater

theorem Reaches.before_end {first last ending : Run} (hrun : Reaches job first run)
    (hlast : Reaches job first last) (hend : last.step job = .finished ending) :
    Reaches job run last := by
  rcases hrun.total hlast with hbefore | hafter
  · exact hbefore
  · -- From the last run no further one is reached.
    rcases hafter.cases_head with rfl | ⟨next, hnext, -⟩
    · exact .refl
    · rw [hend] at hnext
      cases hnext

theorem EndsAt.ahead {first final : Run} (hend : EndsAt job first final)
    (hrun : Reaches job first run) :
    ∃ last, Reaches job run last ∧ last.frames = [] ∧
      last.prepare.scan job = some (.done, final) := by
  obtain ⟨hnone, last, hlast, hdone⟩ := hend
  refine ⟨last, hrun.before_end hlast (step_of_closed hdone hnone), ?_, hdone⟩
  rw [← hnone]
  exact (congrArg Place.frames (scan_place job last.prepare hdone).1).symm

/-- How the calls of a document and the steps of its run lie around a delegation: `scanned` is the run
after the scan call that asked for it, `before`, `inner` and `rest` are the calls before, between and
after its two marks, `stop` is where the delegate stopped, and `resumed` is the run after its end. -/
structure Confined (job : Job) (scanned : Run) (delegation : Delegation) (calls : Array Call)
    (before inner rest : Array Call) (stop : Nat) (resumed : Run) : Prop where
  calls_eq : calls = before ++ #[.startLexing (job.catalog.name delegation.target)] ++ inner ++
    #[.endLexing (job.catalog.name delegation.target)] ++ rest
  /-- The first mark is the one of this delegation. -/
  begins : (scanned.enter job delegation).emitter.calls =
    before ++ #[.startLexing (job.catalog.name delegation.target)]
  /-- The second mark is the one that matches it. -/
  matched : ∃ last, Body delegationCapacity last inner.toList
  before_written : Call.written before = job.input.extract 0 scanned.text
  inner_written : Call.written inner = job.input.extract scanned.text stop
  start_le : scanned.text ≤ stop
  stop_le : stop ≤ if delegation.mode = .within then scanned.cursor else scanned.limit
  reached : Reaches job (scanned.enter job delegation) resumed
  ends : resumed.emitter.calls = before ++ #[.startLexing (job.catalog.name delegation.target)] ++
    inner ++ #[.endLexing (job.catalog.name delegation.target)]
  /-- No scan call was made since the second mark. -/
  first : ∀ run, Reaches job (scanned.enter job delegation) run →
    resumed.emitter.calls.size ≤ run.emitter.calls.size → Reaches job resumed run
  /-- The delegating lexer was live all the time. -/
  live : ∀ run, Reaches job (scanned.enter job delegation) run →
    run.emitter.calls.size < resumed.emitter.calls.size → scanned.active ∈ run.live.languages
  active : resumed.active = scanned.active
  text : resumed.prepare.text = stop
  cursor : resumed.prepare.cursor = stop
  limit : resumed.prepare.limit = scanned.limit
  answers : ∃ event after, resumed.prepare.scan job = some (event, after)

/-- The frame of a delegation that has just begun, inside of which nothing has happened yet. -/
theorem enter_inDelegate (job : Job) (scanned : Run) (delegation : Delegation) :
    ∃ frame : Frame, frame.parent = scanned.active ∧ frame.child = delegation.target ∧
      frame.start = scanned.text ∧ frame.savedLimit = scanned.limit ∧
      (scanned.enter job delegation).InDelegate job (scanned.enter job delegation).emitter.calls
        (if delegation.mode = .within then scanned.cursor else scanned.limit) frame scanned.frames
        [] := by
  have hplace := enter_place job scanned delegation
  refine ⟨_, rfl, rfl, rfl, rfl, congrArg Place.frames hplace, congrArg Place.limit hplace, ?_⟩
  apply Emitter.since_self
  rw [enter_emitter]
  exact Emitter.openRun_closeRun _

theorem Covers.written_eq {stop : Nat} (h : run.Covers job top stop) (hempty : run.ranges = #[]) :
    Call.written run.emitter.calls = job.input.extract 0 stop := by
  rw [← h.2, produced_of_ranges_empty job run hempty]
  rfl

theorem enter_prepare_text (job : Job) (scanned : Run) (delegation : Delegation) :
    (scanned.enter job delegation).prepare.text = scanned.text := by
  have hplace := enter_place job scanned delegation
  unfold prepare
  dsimp only
  split
  · exact congrArg Place.text hplace
  · exact congrArg Place.cursor hplace

theorem enter_calls (job : Job) (scanned : Run) (delegation : Delegation) :
    (scanned.enter job delegation).emitter.calls =
      (scanned.flush job).emitter.closeRun.calls ++
        #[.startLexing (job.catalog.name delegation.target)] := by
  rw [enter_emitter]
  exact Array.push_eq_append

theorem Reaches.written_before {config : EngineConfig} {lexer : Lexer} {others : List Lexer}
    {delegation : Delegation}
    (hentered : Reaches job (job.start config lexer others) (scanned.enter job delegation)) :
    Call.written (scanned.flush job).emitter.closeRun.calls = job.input.extract 0 scanned.text := by
  have hwritten := hentered.covers.written_eq (enter_ranges job scanned delegation)
  rw [enter_prepare_text, enter_calls, Call.written_append] at hwritten
  exact hwritten

/-- A document goes on from the calls of every run before its end. -/
theorem Reaches.document_eq {last : Run} (hreach : Reaches job run last)
    (hdone : last.prepare.scan job = some (event, scanned)) :
    ∃ rest, (scanned.unterminated job).document job = run.emitter.calls ++ rest := by
  have hemits := (unterminated_emits job scanned).trans (flush_emits job _)
  have hkept : scanned.emitter = last.emitter := by
    obtain ⟨element, -, -, rfl⟩ := (last.prepare.scan_eq_some_iff job).mp hdone
    rfl
  have hlast := hreach.extends
  rw [← hkept] at hlast
  have hall : run.emitter.Extends ((scanned.unterminated job).flush job).emitter.endDocument :=
    (hlast.trans hemits.extends).trans (Emitter.extends_closeRun_call _ _).1
  exact hall.exists_append

theorem EndsAt.confines {config : EngineConfig} {lexer : Lexer} {others : List Lexer} {final : Run}
    {delegation : Delegation} (hend : EndsAt job (job.start config lexer others) final)
    (hreach : Reaches job (job.start config lexer others) run)
    (hscan : run.prepare.scan job = some (.delegate delegation, scanned))
    (haccepted : scanned.refuses delegation.target = false) :
    ∃ before inner rest stop resumed, Confined job scanned delegation
      ((final.unterminated job).document job) before inner rest stop resumed := by
  have hentered : Reaches job (job.start config lexer others) (scanned.enter job delegation) :=
    hreach.tail (step_of_enter hscan haccepted)
  obtain ⟨last, hahead, hlastframes, hdone⟩ := hend.ahead hentered
  obtain ⟨frame, hparent, hchild, hstart, hsaved, hinside⟩ := enter_inDelegate job scanned delegation
  obtain ⟨prior, returned, resumed, hreturns, hprior, hrest, hmeanwhile⟩ :=
    hahead.returns hlastframes hentered.valid hinside
  have hbefore : Reaches job (job.start config lexer others) prior := hentered.trans hprior
  have hresumed : Reaches job (job.start config lexer others) resumed :=
    hbefore.tail hreturns.step
  have hvalid := scan_valid hbefore.valid hreturns.scan
  have hplace := hreturns.place hvalid
  obtain ⟨inner, kind, hbody, hcalls⟩ := hreturns.calls hvalid
  obtain ⟨rest, hdocument⟩ := hrest.document_eq hdone
  obtain ⟨htext, hcursor⟩ := hreturns.starts hvalid (hbefore.covers.scan hreturns.scan).2
  have hframe : frame ∈ returned.frames := by
    rw [(hreturns.inside.scan hreturns.scan).frames]
    exact List.mem_cons_self
  have hle : scanned.text ≤ returned.cursor :=
    hstart.symm.trans_le ((hvalid.start_le_text frame hframe).trans hvalid.text_le_cursor)
  have hlimit : returned.limit = _ := (hreturns.inside.scan hreturns.scan).restores
  rw [hchild, enter_calls] at hcalls
  have hbegin := hentered.written_before
  have hstop := hresumed.covers.written_eq hreturns.ranges
  rw [htext, hcalls, Call.written_append, Call.written_append, Call.written_append, hbegin] at hstop
  refine ⟨(scanned.flush job).emitter.closeRun.calls, inner, rest, returned.cursor, resumed, ?_⟩
  constructor
  case calls_eq => rw [hdocument, hcalls]
  case begins => exact enter_calls job scanned delegation
  case matched => exact ⟨kind, hbody⟩
  case before_written => exact hbegin
  case inner_written =>
    -- What is written up to the second mark is written up to the first one or between the two.
    apply (Array.append_right_inj (job.input.extract 0 scanned.text)).mp
    rw [Array.extract_append_extract, Nat.zero_min, Nat.max_eq_right hle]
    exact hstop
  case start_le => exact hle
  case stop_le => exact hlimit ▸ hvalid.cursor_le_limit
  case reached => exact hprior.tail hreturns.step
  case ends => exact hcalls
  case first =>
    intro mid hmid hmore
    rcases hmeanwhile mid hmid with ⟨-, hfewer⟩ | hlater
    · exact absurd hmore (Nat.not_le_of_lt hfewer)
    · exact hlater
  case live =>
    intro mid hmid hfewer
    rcases hmeanwhile mid hmid with ⟨⟨deeper, hunder⟩, -⟩ | hlater
    · have hmem : frame ∈ mid.frames := by
        rw [hunder.frames]
        exact List.mem_append_right _ List.mem_cons_self
      have hreached : Reaches job (job.start config lexer others) mid := hentered.trans hmid
      exact hparent ▸ hreached.valid.parent_live frame hmem
    · exact absurd hfewer (Nat.not_lt_of_le hlater.extends.length_le)
  case active => exact (congrArg Place.active hplace).trans hparent
  case text => exact htext
  case cursor => exact hcursor
  case limit => exact (congrArg Place.limit hplace).trans hsaved
  case answers => exact resumed.prepare.scan_isSome job hresumed.valid.active_live

end Run

/-- Whatever the grammars and parsers do, every delegation that a successful run accepts is confined to
its range: its marks enclose the texts from where the pending span began to where the delegate stopped,
not behind the cursor if the delegate was given the span and not behind the limit if it was to decide by
itself; all that lies before is written before; and the next scan call is one of the delegating lexer,
from where the delegate stopped and under the limit from before. -/
theorem delegates_confined (fuel : Nat) (catalog : Catalog) (host : Host) (config : EngineConfig)
    (source : Bytes) (lexer : Lexer) (others : List Lexer) (highlighted : Highlighted)
    (calls : Array Call)
    (hrun : highlight fuel catalog host config source (lexer :: others) = some highlighted)
    (hok : highlighted.outcome = .ok calls) (run scanned : Run) (delegation : Delegation)
    (hreach : Run.Reaches (Job.ofSource catalog host config source)
      ((Job.ofSource catalog host config source).start config lexer others) run)
    (hscan : run.prepare.scan (Job.ofSource catalog host config source) =
      some (.delegate delegation, scanned))
    (haccepted : scanned.refuses delegation.target = false) :
    ∃ before inner rest stop resumed,
      Run.Confined (Job.ofSource catalog host config source) scanned delegation calls before inner rest
        stop resumed := by
  obtain ⟨first, following, final, hlexers, hend, rfl⟩ := highlight_eq_ok hrun hok
  obtain ⟨rfl, rfl⟩ := List.cons.inj hlexers
  exact hend.confines hreach hscan haccepted

/-- Three languages. The first lends three bytes to the second, which lends all of them to the third;
the third takes one byte and is done, and so is then the second. -/
def Catalog.loan : Catalog where
  custom number :=
    { name := "Loan"
      grammar :=
        { scan := fun _ _ cx =>
            match number, cx.state.condition with
            | 0, 0 =>
              (.delegate { mode := .within, target := .custom 1, fallback := .text },
                (cx.advance 3).setState (cx.state.start 1))
            | 0, _ => if cx.atEnd then (.done, cx) else (.token .text, cx.advanceToLimit)
            | 1, 0 =>
              (.delegate { mode := .full, target := .custom 2, fallback := .text },
                cx.setState (cx.state.start 1))
            | _, 0 => (.token .text, cx.bump.setState (cx.state.start 1))
            | _, _ => (.done, cx) } }

def Job.loan : Job :=
  Job.ofSource .loan (fun _ => none) {} #[0x61, 0x62, 0x63, 0x64]

def Job.loaned : Array Call :=
  #[.startDocument, .startLexing "Loan", .startLexing "Loan", .startToken .text, .write #[0x61],
    .endToken .text, .endLexing "Loan", .endLexing "Loan", .startToken .text,
    .write #[0x62, 0x63, 0x64], .endToken .text, .endDocument]

theorem loaned_delegate_confined :
    ∃ highlighted scanned before inner rest stop resumed,
      highlight 16 .loan (fun _ => none) {} #[0x61, 0x62, 0x63, 0x64]
        [Lexer.create .loan (.custom 0)] = some highlighted ∧
      highlighted.outcome = .ok Job.loaned ∧
      scanned.refuses (.custom 1) = false ∧
      Run.Confined Job.loan scanned { mode := .within, target := .custom 1, fallback := .text }
        Job.loaned before inner rest stop resumed := by
  obtain ⟨highlighted, hrun, hok⟩ : ∃ highlighted,
      highlight 16 .loan (fun _ => none) {} #[0x61, 0x62, 0x63, 0x64]
        [Lexer.create .loan (.custom 0)] = some highlighted ∧
      highlighted.outcome = .ok Job.loaned := exists_highlighted_of_calls (by decide +kernel)
  have hfirst : ((Job.loan.start {} (Lexer.create .loan (.custom 0)) []).prepare.scan Job.loan).map
      (fun found => (found.1, found.2.refuses (.custom 1))) =
      some (.delegate { mode := .within, target := .custom 1, fallback := .text }, false) := by
    decide +kernel
  obtain ⟨⟨event, scanned⟩, hscan, hfound⟩ := Option.map_eq_some_iff.mp hfirst
  obtain ⟨rfl, haccepted⟩ := Prod.mk.inj hfound
  obtain ⟨before, inner, rest, stop, resumed, hconfined⟩ :=
    delegates_confined 16 .loan (fun _ => none) {} #[0x61, 0x62, 0x63, 0x64]
      (Lexer.create .loan (.custom 0)) [] highlighted Job.loaned hrun hok _ scanned _ .refl hscan
      haccepted
  exact ⟨highlighted, scanned, before, inner, rest, stop, resumed, hrun, hok, haccepted, hconfined⟩

end Highlighting
