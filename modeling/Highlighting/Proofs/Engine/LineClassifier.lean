import Highlighting.Proofs.Engine.DiffRuns
import Highlighting.Proofs.Engine.JsonKeys
import Highlighting.Proofs.Grammar.LineKinds

/-! Diffs whose bodies are not handed over: a run with a lexer for diffs in front writes the input line by
line, and each line under the kind that its own bytes give it. -/
namespace Highlighting

namespace Run

variable {job : Job} {lexer : Lexer} {run : Run}

/-- A run between two lines: the outermost lexer is a given one for diffs. It has no parser, and its state
is never changed. -/
structure Classifies (job : Job) (lexer : Lexer) (run : Run) : Prop where
  active : run.active = .diff
  frames : run.frames = []
  idle : run.accumulating = false
  limit : run.limit = job.input.size
  live : run.live.get? .diff = some ⟨lexer, .caller 0, none⟩
  tracks : run.emitter.Tracks

def diffContext (job : Job) (run : Run) (lexer : Lexer) :
    ScanContext (Window.clamp job.input run.text run.limit) :=
  (ScanContext.opening _ lexer.state).setCursor run.cursor

theorem Classifies.scan_eq (h : run.Classifies job lexer) :
    run.prepare.scan job =
      some ((Diff.scan (lexer.content? job.host) (run.prepare.diffContext job lexer)).1,
        run.prepare.follow
          (Diff.scan (lexer.content? job.host) (run.prepare.diffContext job lexer)).2) := by
  have hlanguage : lexer.language = .diff := LiveLexers.language_of_get? h.live
  have hcall : run.prepare.scanCall job lexer =
      Diff.scan (lexer.content? job.host) (run.prepare.diffContext job lexer) := by
    unfold Run.scanCall
    rw [hlanguage]
    rfl
  refine (scan_eq_some_iff job run.prepare).mpr ⟨⟨lexer, .caller 0, none⟩, ?_, ?_, ?_⟩
  · rw [← h.live, ← h.active]
    rfl
  · rw [hcall]
  · rw [hcall]

theorem Classifies.context (h : run.Classifies job lexer) (hcursor : run.cursor ≤ job.input.size) :
    (run.prepare.diffContext job lexer).cursor = run.cursor ∧
      (Window.clamp job.input run.prepare.text run.prepare.limit).limit = job.input.size := by
  have htext : run.prepare.text = run.cursor := prepare_text_of_idle run h.idle
  have hlimit : run.prepare.limit = job.input.size := h.limit
  have hstays : run.prepare.cursor = run.cursor := rfl
  simp only [diffContext, ScanContext.setCursor, Window.clamp, htext, hlimit, hstays]
  omega

theorem Classifies.follow (h : run.Classifies job lexer) {w : Window} {after : ScanContext w}
    (hstate : after.state = lexer.state) : (run.prepare.follow after).Classifies job lexer := by
  have hupdated := LiveLexers.get?_update h.live (Element.setState · after.state) (fun _ => rfl)
  have hsame : Element.setState ⟨lexer, .caller 0, none⟩ after.state = ⟨lexer, .caller 0, none⟩ := by
    rw [hstate]
    exact congrArg (fun lexer => Element.mk lexer (.caller 0) none) lexer.inState_self
  refine ⟨h.active, h.frames, rfl, h.limit, ?_, h.tracks⟩
  rw [← hsame, ← hupdated, ← h.active]
  rfl

theorem Classifies.consultParser (h : run.Classifies job lexer) (kind : TokenKind) :
    (run.queue kind).consultParser job kind = run.queue kind := by
  have hlive : (run.queue kind).live.get? (run.queue kind).active = some ⟨lexer, .caller 0, none⟩ := by
    rw [← h.live, ← h.active]
    rfl
  unfold Run.consultParser
  rw [hlive]
  simp

theorem Classifies.token (h : run.Classifies job lexer) (kind : TokenKind) (hmore : run.text < run.cursor)
    (hwithin : run.cursor ≤ job.input.size) :
    (run.token job kind).Classifies job lexer ∧ (run.token job kind).cursor = run.cursor ∧
      (run.token job kind).labelled job =
        (run.labelled job).push (some kind, job.input.extract run.text run.cursor) := by
  have htoken : run.token job kind = (run.queue kind).flushIfFull job := by
    rw [Run.token, if_neg (Nat.not_le.mpr hmore), h.consultParser]
  have htracks : ((run.queue kind).flushIfFull job).emitter.Tracks := flushIfFull_tracks job h.tracks
  have hwritten : job.input.extract run.text run.cursor ≠ #[] := by
    intro hempty
    have hsize := congrArg Array.size hempty
    simp only [Array.size_extract, List.size_toArray, List.length_nil] at hsize
    omega
  have hcursor := congrArg Place.cursor (token_place job run kind)
  refine ⟨?_, hcursor, ?_⟩
  · rw [htoken]
    unfold Run.flushIfFull at htracks ⊢
    split
    · exact ⟨h.active, h.frames, h.idle, h.limit, h.live, by simpa [*] using htracks⟩
    · exact ⟨h.active, h.frames, h.idle, h.limit, h.live, h.tracks⟩
  · rw [htoken, flushIfFull_labelled]
    have hemitter : (run.queue kind).emitter = run.emitter := rfl
    have hpending : (run.queue kind).pending =
        run.pending.push (Span.ofLexer run.text run.cursor kind) := rfl
    exact push_labelled job h.tracks hemitter hpending hwritten

/-- A scan call takes a whole line, whatever its bytes are. -/
theorem Classifies.scan_line (h : run.Classifies job lexer) (hstart : lexer.state.condition = 0)
    (hcontent : lexer.content? job.host = none) (hmore : run.cursor < job.input.size) {stop : Nat}
    (hstop : stop = job.input.lineEnd job.input.size run.cursor) :
    ∃ (w : Window) (after : ScanContext w),
      run.prepare.scan job =
        some (.token (Diff.kindOfLine (job.input.extract run.cursor stop).toList),
          run.prepare.follow after) ∧
        after.cursor = stop ∧ after.state = lexer.state := by
  obtain ⟨hcursor, hlimit⟩ := h.context (Nat.le_of_lt hmore)
  have hscan := h.scan_eq
  have hstate : (run.prepare.diffContext job lexer).state = lexer.state := rfl
  have hscanned := Diff.scan_scanned (lexer.content? job.host) (run.prepare.diffContext job lexer)
  generalize Diff.scan (lexer.content? job.host) (run.prepare.diffContext job lexer) = answer
    at hscan hscanned
  obtain ⟨event, after⟩ := answer
  -- There is more to scan, nothing to hand bodies to, and the lexer is at the beginning of a line.
  cases hscanned with
  | done hend => omega
  | handed target _ htarget => cases hcontent.symm.trans htarget
  | kept _ _ hbody => exact absurd hstart hbody
  | marker body _ hsome => simp [hcontent] at hsome
  | line =>
    obtain ⟨-, hend, hkept⟩ := (run.prepare.diffContext job lexer).advanceLine_eq
    have hkind := Diff.lineToken_eq (run.prepare.diffContext job lexer)
    rw [hcursor, hlimit] at hend hkind
    rw [hkind] at hscan
    subst hstop
    exact ⟨_, _, hscan, hend, hkept.trans hstate⟩

theorem Classifies.scan_done (h : run.Classifies job lexer) (hend : run.cursor = job.input.size) :
    ∃ (w : Window) (after : ScanContext w),
      run.prepare.scan job = some (.done, run.prepare.follow after) ∧ after.cursor = run.cursor := by
  obtain ⟨hcursor, hlimit⟩ := h.context (Nat.le_of_eq hend)
  have hscan := h.scan_eq
  have hatEnd : (run.prepare.diffContext job lexer).atEnd = true := by
    rw [ScanContext.atEnd, hcursor, hlimit, hend]
    exact decide_eq_true (Nat.le_refl _)
  simp only [Diff.scan, hatEnd, if_true] at hscan
  exact ⟨_, _, hscan, hcursor⟩

theorem Classifies.step_line (h : run.Classifies job lexer) (hstart : lexer.state.condition = 0)
    (hcontent : lexer.content? job.host = none) (hmore : run.cursor < job.input.size) {stop : Nat}
    (hstop : stop = job.input.lineEnd job.input.size run.cursor) :
    ∃ after, run.step job = .running after ∧ after.Classifies job lexer ∧ after.cursor = stop ∧
      after.labelled job = (run.labelled job).push
        (some (Diff.kindOfLine (job.input.extract run.cursor stop).toList),
          job.input.extract run.cursor stop) := by
  obtain ⟨w, found, hscan, hfound, hkept⟩ := h.scan_line hstart hcontent hmore hstop
  generalize Diff.kindOfLine (job.input.extract run.cursor stop).toList = kind at hscan ⊢
  have hfrom : (run.prepare.follow found).text = run.cursor := prepare_text_of_idle run h.idle
  have hto : (run.prepare.follow found).cursor = stop := hfound
  have hforward : run.cursor < stop := hstop ▸ Bytes.lt_lineEnd hmore
  have hwithin : stop ≤ job.input.size := hstop ▸ Bytes.lineEnd_le (Nat.le_of_lt hmore)
  have hwritten : (run.prepare.follow found).text < (run.prepare.follow found).cursor := by
    rw [hfrom, hto]
    exact hforward
  obtain ⟨hafter, hsettled, hlabelled⟩ :=
    (h.follow hkept).token kind hwritten (hto ▸ hwithin)
  rw [hfrom, hto] at hlabelled
  rw [hto] at hsettled
  refine ⟨_, step_of_token hscan (hto.symm ▸ hforward), ?_, hsettled, hlabelled⟩
  exact ⟨hafter.active, hafter.frames, hafter.idle, hafter.limit, hafter.live, hafter.tracks⟩

theorem Classifies.step_done (h : run.Classifies job lexer) (hend : run.cursor = job.input.size) :
    ∃ last, run.step job = .finished last ∧ Call.labelled (last.document job) = run.labelled job := by
  obtain ⟨w, found, hscan, hcursor⟩ := h.scan_done hend
  exact step_of_closed_labelled job hscan h.frames h.idle hcursor h.tracks

/-- A whole run over what is left of an input. -/
theorem Classifies.drive {fuel : Nat} (h : run.Classifies job lexer)
    (hstart : lexer.state.condition = 0) (hcontent : lexer.content? job.host = none)
    (hcursor : run.cursor ≤ job.input.size) (hfuel : job.input.size - run.cursor < fuel) :
    ∃ last, drive job fuel run = some (.ok (), last) ∧
      Call.labelled (last.document job) = run.labelled job ++
        ((Bytes.splitLines (job.input.extract run.cursor job.input.size).toList).map
          (fun line => (some (Diff.kindOfLine line), line.toArray))).toArray := by
  -- Each line takes one step and has at least one byte, and the end takes one more step.
  induction fuel generalizing run with
  | zero => omega
  | succ fuel ih =>
    by_cases hmore : run.cursor < job.input.size
    case neg =>
      have hend : run.cursor = job.input.size := Nat.le_antisymm hcursor (Nat.le_of_not_lt hmore)
      obtain ⟨last, hstep, hdocument⟩ := h.step_done hend
      refine ⟨last, by simp only [Run.drive, hstep], ?_⟩
      rw [hdocument, hend, Bytes.extract_nil (Nat.le_refl _)]
      simp [Bytes.splitLines]
    case pos =>
      have hforward : run.cursor < job.input.lineEnd job.input.size run.cursor :=
        Bytes.lt_lineEnd hmore
      have hwithin : job.input.lineEnd job.input.size run.cursor ≤ job.input.size :=
        Bytes.lineEnd_le hcursor
      obtain ⟨after, hstep, hafter, hstop, hlabelled⟩ := h.step_line hstart hcontent hmore rfl
      obtain ⟨last, hdrive, hdocument⟩ := ih hafter (by omega) (by omega)
      refine ⟨last, by simp only [Run.drive, hstep, hdrive], ?_⟩
      rw [hdocument, hlabelled, hstop, Bytes.splitLines_extract (Nat.le_refl _) hmore, List.map_cons]
      simp [-Array.toList_extract]

theorem start_classifies (job : Job) (config : EngineConfig) (others : List Lexer)
    (hdiff : lexer.language = .diff) (hshebang : job.passedThrough? config = none) :
    (job.start config lexer others).Classifies job lexer ∧
      (job.start config lexer others).cursor = 0 ∧
      (job.start config lexer others).labelled job = #[] := by
  have hnone : job.element config.parserBridge (.caller 0) lexer = ⟨lexer, .caller 0, none⟩ := by
    have hparser : (job.catalog.language lexer.language).grammar.parser? ⟨lexer.options, job.host⟩ =
        none := by
      rw [hdiff]
      rfl
    simp [Job.element, hparser]
  have hget := job.start_get? config lexer others
  rw [hdiff, hnone] at hget
  refine ⟨⟨hdiff, rfl, rfl, rfl, hget, rfl⟩, ?_, ?_⟩
  · simp [Job.start, hshebang]
  · simp only [labelled, Job.start, hshebang]
    rfl

end Run

/-- A lexer for diffs that has nothing to hand bodies to writes the lines of the input one by one, with
their terminators, and each under the kind of what it begins with; a last line that nothing terminates is
of no particular kind. -/
theorem diff_lines_labelled (fuel : Nat) (catalog : Catalog) (host : Host) (config : EngineConfig)
    (source : Bytes) (lexer : Lexer) (others : List Lexer) (hdiff : lexer.language = .diff)
    (hstart : lexer.state.condition = 0) (hcontent : lexer.content? host = none)
    (hshebang : (Job.ofSource catalog host config source).passedThrough? config = none)
    (hfuel : (Job.ofSource catalog host config source).input.size < fuel) :
    ∃ highlighted calls,
      highlight fuel catalog host config source (lexer :: others) = some highlighted ∧
        highlighted.outcome = .ok calls ∧
        Bytes.FallsInto (Job.ofSource catalog host config source).input.toList
          (Bytes.splitLines (Job.ofSource catalog host config source).input.toList) ∧
        Call.labelled calls =
          ((Bytes.splitLines (Job.ofSource catalog host config source).input.toList).map
            (fun line => (some (Diff.kindOfLine line), line.toArray))).toArray := by
  generalize hjob : Job.ofSource catalog host config source = job at hshebang hfuel ⊢
  have hhost : lexer.content? job.host = none := by
    rw [← hjob]
    exact hcontent
  obtain ⟨hclassifies, hbegin, hnothing⟩ := Run.start_classifies job config others hdiff hshebang
  have hcursor : (job.start config lexer others).cursor ≤ job.input.size := by
    rw [hbegin]
    exact Nat.zero_le _
  have hremaining : job.input.size - (job.start config lexer others).cursor < fuel :=
    Nat.lt_of_le_of_lt (Nat.sub_le _ _) hfuel
  obtain ⟨last, hdrive, hdocument⟩ := hclassifies.drive hstart hhost hcursor hremaining
  have hrun : highlight fuel catalog host config source (lexer :: others) =
      some ⟨.ok (last.document job), last.callerLexers (lexer :: others), last.finalLifetimes job⟩ := by
    simp only [highlight, hjob, hdrive]
    rfl
  refine ⟨_, _, hrun, rfl, Bytes.splitLines_fallsInto _, ?_⟩
  rw [hdocument, hnothing, hbegin, Array.extract_size, Array.empty_append]

/-- All terminators, all beginnings, and a last line that has the look of an inserted one. -/
theorem diff_lines_labelled_mixed :
    ∃ highlighted calls,
      highlight 64 .relay (fun _ => none) { bufferCapacity := 2 }
        (Bytes.ofText "index 1\r\n=\r@@\n\n-a\r\r\n+b\n!c\nIndex: d\ndiff\n d\ninde\n+e")
        [Lexer.create .relay .diff] = some highlighted ∧
      highlighted.outcome = .ok calls ∧
      Call.labelled calls =
        #[(some .genericHeading, Bytes.ofText "index 1\r\n"),
          (some .genericHeading, Bytes.ofText "=\r"),
          (some .genericSubheading, Bytes.ofText "@@\n"), (some .ignorable, Bytes.ofText "\n"),
          (some .genericDeleted, Bytes.ofText "-a\r"), (some .ignorable, Bytes.ofText "\r\n"),
          (some .genericInserted, Bytes.ofText "+b\n"), (some .genericStrong, Bytes.ofText "!c\n"),
          (some .genericHeading, Bytes.ofText "Index: d\n"),
          (some .genericHeading, Bytes.ofText "diff\n"), (some .ignorable, Bytes.ofText " d\n"),
          (some .ignorable, Bytes.ofText "inde\n"), (some .ignorable, Bytes.ofText "+e")] := by
  obtain ⟨highlighted, calls, hrun, hok, -, hlabelled⟩ :=
    diff_lines_labelled 64 .relay (fun _ => none) { bufferCapacity := 2 }
      (Bytes.ofText "index 1\r\n=\r@@\n\n-a\r\r\n+b\n!c\nIndex: d\ndiff\n d\ninde\n+e")
      (Lexer.create .relay .diff) [] rfl rfl rfl (by decide +kernel) (by decide +kernel)
  refine ⟨highlighted, calls, hrun, hok, hlabelled.trans ?_⟩
  decide +kernel

end Highlighting
