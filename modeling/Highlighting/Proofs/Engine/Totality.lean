import Highlighting.Proofs.Engine.Attempts
import Highlighting.Proofs.Engine.Coverage
import Highlighting.Proofs.Engine.Elements
import Highlighting.Proofs.Grammar.Consumption

/-! Highlighting with the languages of the library always succeeds and writes the whole input, and the
number of steps is linear in the size of the input. Every scan call either goes forward or finds its
range used up. A delegation starts again where the pending span does, but its range is not empty, so it
is followed by progress or by a delegation further in, of which there are only so many. -/
namespace Highlighting

namespace Run

structure Consuming (job : Job) (top : LanguageId) (run : Run) : Prop where
  valid : run.place.Valid job.input.size top
  builtIn : run.live.All (fun element => element.lexer.BuiltIn job.host)
  idle : run.accumulating = false
  start_lt : ∀ frame ∈ run.frames, frame.start < run.limit

inductive Consumed (run scanned : Run) : ScanEvent → Prop
  | done (hend : run.cursor = run.limit) (hstay : scanned.cursor = run.cursor) :
      Consumed run scanned .done
  | token (kind : TokenKind) (hmore : run.cursor < scanned.cursor) :
      Consumed run scanned (.token kind)
  | within (delegation : Delegation) (hmode : delegation.mode = .within)
      (htarget : delegation.target.IsBuiltIn) (hmore : run.cursor < scanned.cursor) :
      Consumed run scanned (.delegate delegation)

variable {job : Job} {top : LanguageId} {run scanned after : Run} {event : ScanEvent}

theorem Consuming.scan (h : run.Consuming job top) (hscanner : job.catalog.jsonScanner.FindsAll)
    (hscan : run.prepare.scan job = some (event, scanned)) : Consumed run scanned event := by
  obtain ⟨element, hget, hevent, rfl⟩ := (run.prepare.scan_eq_some_iff job).mp hscan
  have hbuiltIn := h.builtIn element (List.mem_of_find?_eq_some hget)
  have hconsumes : ScanContext.Consumes _ (run.prepare.scanCall job element.lexer).1
      (run.prepare.scanCall job element.lexer).2 :=
    hbuiltIn.scan_consumes hscanner _
  rw [hevent] at hconsumes
  -- The window is the pending span up to the limit, and the cursor is where it was.
  have htext := run.prepare_text_of_idle h.idle
  have hcursor : run.cursor ≤ run.limit := h.valid.cursor_le_limit
  have hsize : run.limit ≤ job.input.size := h.valid.limit_le_size
  have hlimit : (Window.clamp job.input run.prepare.text run.prepare.limit).limit = run.limit :=
    Nat.min_eq_left hsize
  have hbefore : ((ScanContext.opening (Window.clamp job.input run.prepare.text run.prepare.limit)
      element.lexer.state).setCursor run.prepare.cursor).cursor = run.cursor := by
    have hstart : (Window.clamp job.input run.prepare.text run.prepare.limit).start ≤ run.cursor :=
      (Nat.min_le_left _ _).trans_eq htext
    have hkept : run.prepare.cursor = run.cursor := rfl
    simp only [ScanContext.setCursor, hlimit, hkept]
    omega
  cases hconsumes with
  | done hend hstay =>
    rw [hbefore] at hend hstay
    rw [hlimit] at hend
    exact .done (Nat.le_antisymm hcursor hend) hstay
  | token kind hmore =>
    rw [hbefore] at hmore
    exact .token kind hmore
  | within delegation hmode htarget hmore =>
    rw [hbefore] at hmore
    exact .within delegation hmode htarget hmore

theorem Consuming.scanned_place (h : run.Consuming job top)
    (hscan : run.prepare.scan job = some (event, scanned)) :
    scanned.place = { run.place with text := run.cursor, cursor := scanned.cursor } := by
  rw [(scan_place job run.prepare hscan).1, prepare_place]
  simp only [place, h.idle, Bool.false_eq_true, if_false]

theorem builtIn_stable (host : Host) :
    Element.Stable (fun element => element.lexer.BuiltIn host) where
  setState := fun _ _ h => ⟨h.language, h.content⟩
  setParser := fun h _ _ _ _ => h

inductive Advanced (run after : Run) : Prop
  | forward (hmore : run.cursor < after.cursor) (hlimit : after.limit = run.limit)
      (hframes : after.frames = run.frames)
  | inward (frame : Frame) (hstart : frame.start = run.cursor) (hcursor : after.cursor = run.cursor)
      (hmore : run.cursor < after.limit) (hlimit : after.limit ≤ run.limit)
      (hframes : after.frames = frame :: run.frames)
  | outward (frame : Frame) (hend : run.cursor = run.limit) (hcursor : after.cursor = run.cursor)
      (hlimit : after.limit = frame.savedLimit) (hframes : run.frames = frame :: after.frames)

/-- A move goes forward, or into a range that is not empty, or out of one that is used up. No span is
kept open. -/
theorem Move.advanced (hmove : Move job scanned event after) (h : run.Consuming job top)
    (hscan : run.prepare.scan job = some (event, scanned)) (hconsumed : Consumed run scanned event) :
    Advanced run after ∧ after.accumulating = false := by
  have hvalid := scan_valid h.valid hscan
  have hcursor : scanned.cursor ≤ scanned.limit := hvalid.cursor_le_limit
  have hplace := h.scanned_place hscan
  have hlimit : scanned.limit = run.limit := congrArg Place.limit hplace
  have hframes : scanned.frames = run.frames := congrArg Place.frames hplace
  have htext : scanned.text = run.cursor := congrArg Place.text hplace
  have hidle : scanned.accumulating = false :=
    (congrArg Place.accumulating hplace).trans h.idle
  -- What stays where the scan call left it is further on.
  have hforward {next : Run} (hmore : run.cursor < scanned.cursor)
      (hnext : next.place = scanned.place) : Advanced run next ∧ next.accumulating = false := by
    have hsame : next.cursor = scanned.cursor := congrArg Place.cursor hnext
    refine ⟨.forward (hmore.trans_eq hsame.symm) ?_ ?_, ?_⟩
    · exact (congrArg Place.limit hnext).trans hlimit
    · exact (congrArg Place.frames hnext).trans hframes
    · exact (congrArg Place.accumulating hnext).trans hidle
  cases hmove with
  | token kind =>
    cases hconsumed with
    | token _ hmore => exact hforward hmore (token_place job scanned kind)
  | extend => cases hconsumed
  | leave frame outer houter =>
    cases hconsumed with
    | done hend hstay =>
      have hleft := unterminated_leave_place job scanned hvalid.text_le_cursor frame outer
      have hrest := congrArg Place.frames hleft
      refine ⟨.outward frame hend ?_ (congrArg Place.limit hleft) ?_, ?_⟩
      · exact (congrArg Place.cursor hleft).trans hstay
      · rw [← hframes, houter]
        exact congrArg (frame :: ·) hrest.symm
      · exact (congrArg Place.accumulating hleft).trans hidle
  | refuse delegation hrefused =>
    cases hconsumed with
    | within _ hmode _ hmore =>
      exact hforward hmore (fallback_within_place job scanned delegation hmode)
  | enter delegation haccepted =>
    cases hconsumed with
    | within _ hmode _ hmore =>
      have hentered := enter_place job scanned delegation
      have hrange : (scanned.enter job delegation).limit = scanned.cursor :=
        (congrArg Place.limit hentered).trans (if_pos hmode)
      have hframe : (scanned.enter job delegation).frames = _ :: scanned.frames :=
        congrArg Place.frames hentered
      rw [hframes] at hframe
      refine ⟨.inward _ htext ?_ ?_ ?_ hframe, ?_⟩
      · exact (congrArg Place.cursor hentered).trans htext
      · exact hmore.trans_eq hrange.symm
      · rw [hrange, ← hlimit]
        exact hcursor
      · exact (congrArg Place.accumulating hentered).trans hidle

theorem Advanced.start_lt (hadvanced : Advanced run after) (h : run.Consuming job top) :
    ∀ frame ∈ after.frames, frame.start < after.limit := by
  have hbelow (frame : Frame) (hframe : frame ∈ run.frames) : frame.start ≤ run.cursor :=
    (h.valid.start_le_text frame hframe).trans h.valid.text_le_cursor
  cases hadvanced with
  | forward hmore hlimit hframes =>
    rw [hframes, hlimit]
    exact h.start_lt
  | inward frame hstart hcursor hmore hlimit hframes =>
    rw [hframes]
    refine List.forall_mem_cons.mpr ⟨hstart.trans_lt hmore, ?_⟩
    intro outer houter
    exact (hbelow outer houter).trans_lt hmore
  | outward frame hend hcursor hlimit hframes =>
    have hself : frame ∈ run.frames := hframes ▸ List.mem_cons_self
    intro outer houter
    have hmem : outer ∈ run.frames := hframes ▸ List.mem_cons_of_mem frame houter
    rw [hlimit]
    exact (h.start_lt outer hmem).trans_le (h.valid.limit_le_saved frame hself)

theorem Move.consuming (hmove : Move job scanned event after) (h : run.Consuming job top)
    (hscanner : job.catalog.jsonScanner.FindsAll)
    (hscan : run.prepare.scan job = some (event, scanned)) (stalls : Nat) :
    Consuming job top { after with stalls := stalls } := by
  have hconsumed := h.scan hscanner hscan
  obtain ⟨hadvanced, hidle⟩ := hmove.advanced h hscan hconsumed
  refine ⟨hmove.valid (scan_valid h.valid hscan), ?_, hidle, hadvanced.start_lt h⟩
  refine hmove.all (builtIn_stable job.host) (scan_all (builtIn_stable job.host) h.builtIn hscan) ?_
  -- A delegate that has to be made is new, and of a language of the library.
  intro delegation hdelegation
  rw [hdelegation] at hconsumed
  cases hconsumed with
  | within _ _ htarget _ => exact Lexer.create_builtIn job.catalog job.host htarget

theorem start_consuming (job : Job) (config : EngineConfig) (lexer : Lexer) (others : List Lexer)
    (hbuiltIn : ∀ entry ∈ lexer :: others, entry.BuiltIn job.host) :
    (job.start config lexer others).Consuming job lexer.language where
  valid := job.start_valid config lexer others
  builtIn := by
    apply start_all
    intro entry hentry
    exact hbuiltIn entry.1 (List.fst_mem_of_mem_zipIdx hentry)
  idle := rfl
  start_lt := fun _ hframe => absurd hframe List.not_mem_nil

theorem Reaches.consuming {config : EngineConfig} {lexer : Lexer} {others : List Lexer} {run : Run}
    (hreach : Reaches job (job.start config lexer others) run)
    (hscanner : job.catalog.jsonScanner.FindsAll)
    (hbuiltIn : ∀ entry ∈ lexer :: others, entry.BuiltIn job.host) :
    run.Consuming job lexer.language := by
  refine hreach.invariant (I := Consuming job lexer.language)
    (M := fun event scanned => ∃ run : Run, run.Consuming job lexer.language ∧
      run.prepare.scan job = some (event, scanned)) ?_ ?_
    (start_consuming job config lexer others hbuiltIn)
  · intro run event scanned h hscan
    exact ⟨run, h, hscan⟩
  · -- What a scan call comes to depends on the run before it, so that is kept in between.
    rintro event scanned after stalls ⟨run, h, hscan⟩ hmove
    exact hmove.consuming h hscanner hscan stalls

/-- A run over lexers of the library is not given up: what does not end it moves it on. -/
theorem Consuming.step (h : run.Consuming job top) (hscanner : job.catalog.jsonScanner.FindsAll) :
    ∃ next, run.step job = .running next ∨ run.step job = .finished next := by
  obtain ⟨event, scanned, hscan⟩ := run.prepare.scan_isSome job h.valid.active_live
  have hstep : run.step job = scanned.handle job run.cursor event := by
    simp only [Run.step, hscan]
    rfl
  have hsettle (next : Run) (lexer : String) (hmore : run.cursor < scanned.cursor)
      (hnext : next.place = scanned.place) :
      next.settle run.cursor lexer = .running { next with stalls := 0 } :=
    if_pos (hmore.trans_eq (congrArg Place.cursor hnext).symm)
  have hvalid := scan_valid h.valid hscan
  have hframes : scanned.frames = run.frames := congrArg Place.frames (h.scanned_place hscan)
  rw [hstep]
  cases h.scan hscanner hscan with
  | done hend hstay =>
    have hclosed := unterminated_place job scanned hvalid.text_le_cursor
    have hcursor : (scanned.unterminated job).cursor = run.limit :=
      (congrArg Place.cursor hclosed).trans (hstay.trans hend)
    simp only [handle, done]
    split
    case h_1 => exact ⟨_, Or.inr rfl⟩
    case h_2 frame outer houter =>
      -- The delegate used up its range, which was not empty, so this is no stall.
      have hmem : frame ∈ run.frames := by
        rw [← hframes, ← unterminated_frames job scanned, houter]
        exact List.mem_cons_self
      rw [hcursor, if_pos (h.start_lt frame hmem)]
      exact ⟨_, Or.inl rfl⟩
  | token kind hmore =>
    exact ⟨_, Or.inl (hsettle _ _ hmore (token_place job scanned kind))⟩
  | within delegation hmode htarget hmore =>
    simp only [handle]
    split
    · have hplace := fallback_within_place job scanned delegation hmode
      exact ⟨_, Or.inl (hsettle _ _ hmore hplace)⟩
    · exact ⟨_, Or.inl rfl⟩

/-- A bound for the number of steps to go. Bytes count most. Where a range is used up, the delegations
under way are still to be ended; where it is not, there is room for so many further delegations. -/
def remaining (job : Job) (run : Run) : Nat :=
  (2 * delegationCapacity + 2) * (job.input.size - run.cursor) +
    if run.cursor = run.limit then delegationCapacity + 1 + run.frames.length
    else delegationCapacity - run.frames.length

/-- Every step that is not the last one lowers the bound. -/
theorem Advanced.remaining_lt (hadvanced : Advanced run after)
    (hvalid : after.place.Valid job.input.size top) : after.remaining job < run.remaining job := by
  have hsize : after.cursor ≤ job.input.size :=
    hvalid.cursor_le_limit.trans hvalid.limit_le_size
  have hcapacity : after.frames.length ≤ delegationCapacity := hvalid.frames_le
  unfold remaining delegationCapacity at *
  cases hadvanced with
  | forward hmore hlimit hframes =>
    -- One byte outweighs whatever the delegations come to.
    have hbytes : job.input.size - after.cursor + 1 ≤ job.input.size - run.cursor := by omega
    split <;> split <;> omega
  | inward frame hstart hcursor hmore hlimit hframes =>
    -- Neither range is used up, and there is room for one delegation less.
    rw [hframes, List.length_cons] at hcapacity
    have hhere : after.cursor ≠ after.limit := by omega
    have hbefore : run.cursor ≠ run.limit := by omega
    rw [if_neg hhere, if_neg hbefore, hcursor, hframes, List.length_cons]
    omega
  | outward frame hend hcursor hlimit hframes =>
    -- The outer range may have bytes left; that was allowed for.
    rw [if_pos hend, hcursor, hframes, List.length_cons]
    split <;> omega

/-- Before the first step the bound is linear in the size of the input. -/
theorem start_remaining_lt (job : Job) (config : EngineConfig) (lexer : Lexer)
    (others : List Lexer) :
    (job.start config lexer others).remaining job <
      (2 * delegationCapacity + 2) * (job.input.size + 1) := by
  have hframes : (job.start config lexer others).frames.length = 0 := rfl
  unfold remaining delegationCapacity
  rw [hframes]
  split <;> omega

/-- A run over lexers of the library ends well within a linear number of steps. -/
theorem drive_start_eq_ok (job : Job) (hscanner : job.catalog.jsonScanner.FindsAll)
    (config : EngineConfig) (lexer : Lexer) (others : List Lexer)
    (hbuiltIn : ∀ entry ∈ lexer :: others, entry.BuiltIn job.host) {fuel : Nat}
    (hfuel : (2 * delegationCapacity + 2) * (job.input.size + 1) ≤ fuel) :
    ∃ last, drive job fuel (job.start config lexer others) = some (.ok (), last) := by
  refine drive_eq_ok (I := Consuming job lexer.language) (B := remaining job) ?_
    (start_consuming job config lexer others hbuiltIn)
    ((start_remaining_lt job config lexer others).trans_le hfuel)
  intro run h
  obtain ⟨next, hrunning | hfinished⟩ := h.step hscanner
  · obtain ⟨event, scanned, after, stalls, hscan, hmove, rfl⟩ := step_running hrunning
    have hconsuming := hmove.consuming h hscanner hscan stalls
    obtain ⟨hadvanced, -⟩ := hmove.advanced h hscan (h.scan hscanner hscan)
    have hless := hadvanced.remaining_lt (hmove.valid (scan_valid h.valid hscan))
    exact Or.inr ⟨_, hrunning, hconsuming, hless⟩
  · exact Or.inl ⟨next, hfinished⟩

theorem EndsAt.cursor_eq_size {config : EngineConfig} {lexer : Lexer} {others : List Lexer}
    (hend : EndsAt job (job.start config lexer others) scanned)
    (hscanner : job.catalog.jsonScanner.FindsAll)
    (hbuiltIn : ∀ entry ∈ lexer :: others, entry.BuiltIn job.host) :
    scanned.cursor = job.input.size := by
  obtain ⟨hframes, run, hreach, hscan⟩ := hend
  have h := hreach.consuming hscanner hbuiltIn
  have hplace := h.scanned_place hscan
  have hrestores := h.valid.restores
  have hnone : run.place.frames = [] := (congrArg Place.frames hplace).symm.trans hframes
  rw [hnone] at hrestores
  cases h.scan hscanner hscan with
  | done hlimit hstay => exact hstay.trans (hlimit.trans hrestores)

end Run

theorem Job.ofSource_input_size_le (catalog : Catalog) (host : Host) (config : EngineConfig)
    (source : Bytes) : (Job.ofSource catalog host config source).input.size ≤ source.size := by
  unfold Job.ofSource
  dsimp only
  split
  · unfold Bytes.stripByteOrderMark
    split
    · simp [Bytes.drop]
    · exact le_rfl
  · exact le_rfl

/-- Highlighting any bytes with lexers of the library, whatever their states and options are, comes to a
document that writes the whole source, less the byte order mark that is left out; the number of steps is
linear in the size of the source. Of the scanner for JSON nothing is needed but that it finds something
exactly where bytes remain, and of the settings that there can be a queue of the length they ask for. -/
theorem builtIn_highlight_total (catalog : Catalog) (hscanner : catalog.jsonScanner.FindsAll)
    (host : Host) (config : EngineConfig) (hroom : config.bufferCapacity ≤ queueLimit) (source : Bytes)
    (lexers : List Lexer) (hlexers : lexers ≠ []) (hbuiltIn : ∀ lexer ∈ lexers, lexer.BuiltIn host)
    (fuel : Nat)
    (hfuel : (2 * delegationCapacity + 2) * (source.size + 1) ≤ fuel) :
    ∃ highlighted calls,
      attempt fuel catalog host config source lexers = some (.returned highlighted) ∧
      highlighted.outcome = .ok calls ∧
      Call.written calls =
        if config.stripByteOrderMark then source.stripByteOrderMark else source := by
  cases lexers with
  | nil => exact absurd rfl hlexers
  | cons lexer others =>
    have hsize := Job.ofSource_input_size_le catalog host config source
    have henough : (2 * delegationCapacity + 2) *
        ((Job.ofSource catalog host config source).input.size + 1) ≤ fuel :=
      (Nat.mul_le_mul_left _ (Nat.succ_le_succ hsize)).trans hfuel
    obtain ⟨last, hdrive⟩ := Run.drive_start_eq_ok (Job.ofSource catalog host config source)
      hscanner config lexer others hbuiltIn henough
    have hrun : highlight fuel catalog host config source (lexer :: others) =
        some ⟨.ok (last.document (Job.ofSource catalog host config source)),
          last.callerLexers (lexer :: others),
          last.finalLifetimes (Job.ofSource catalog host config source)⟩ := by
      simp only [highlight, hdrive]
      rfl
    obtain ⟨_, _, scanned, hsplit, hend, hcalls⟩ := highlight_eq_ok hrun rfl
    obtain ⟨rfl, rfl⟩ := List.cons.inj hsplit
    refine ⟨_, _, attempt_eq_of_highlight hroom hrun, rfl, ?_⟩
    rw [hcalls, hend.written.2, hend.cursor_eq_size hscanner hbuiltIn]
    exact Array.extract_size

/-- A lexer for diffs of diffs. The body of a line goes to the live lexer for diffs, which it is
itself. -/
def Lexer.nestedDiff : Lexer where
  language := .diff
  options := ⟨Diff.language.options.map (fun declaration =>
    ⟨declaration, .lexer (some (.owned (Lexer.create .relay .diff)))⟩)⟩
  state := {}

theorem Lexer.nestedDiff_builtIn : Lexer.nestedDiff.BuiltIn (fun _ => none) := by
  refine ⟨trivial, ?_⟩
  intro _ target htarget
  have hself : Settings.language? ⟨Lexer.nestedDiff.options, fun _ => none⟩ "content" =
      some .diff := rfl
  rw [hself] at htarget
  cases htarget
  exact trivial

/-- More markers than delegations can be under way. -/
theorem builtIn_highlight_total_nested :
    ∃ highlighted calls,
      attempt 1000 .relay (fun _ => none) {} (Bytes.ofText "++-++-++-++-++-++-a\n")
        [Lexer.nestedDiff] = some (.returned highlighted) ∧
      highlighted.outcome = .ok calls ∧
      Call.written calls = Bytes.ofText "++-++-++-++-++-++-a\n" := by
  have hall : ∀ lexer ∈ [Lexer.nestedDiff], lexer.BuiltIn (fun _ => none) :=
    fun lexer hlexer => List.mem_singleton.mp hlexer ▸ Lexer.nestedDiff_builtIn
  have hsource : Bytes.stripByteOrderMark (Bytes.ofText "++-++-++-++-++-++-a\n") =
      Bytes.ofText "++-++-++-++-++-++-a\n" := by decide +kernel
  have htotal := builtIn_highlight_total .relay Json.scanner_findsAll (fun _ => none) {}
    (by decide) (Bytes.ofText "++-++-++-++-++-++-a\n") [Lexer.nestedDiff] (List.cons_ne_nil _ _) hall
    1000 (by decide +kernel)
  simpa [hsource] using htotal

/-- No queue is as long as a capacity can be. -/
theorem builtIn_highlight_panics :
    (∀ lexer ∈ [Lexer.create .relay .text], lexer.BuiltIn (fun _ => none)) ∧
      Catalog.relay.jsonScanner.FindsAll ∧
      ∀ fuel, attempt fuel .relay (fun _ => none) { bufferCapacity := 0xFFFFFFFFFFFFFFFF } (Bytes.ofText "hi")
        [Lexer.create .relay .text] = some .panicked := by
  refine ⟨?_, Json.scanner_findsAll, ?_⟩
  · intro lexer hlexer
    obtain rfl := List.mem_singleton.mp hlexer
    exact ⟨trivial, nofun⟩
  · exact fun fuel => attempt_eq_panicked_iff.mpr ⟨List.cons_ne_nil _ _, by decide⟩

end Highlighting
