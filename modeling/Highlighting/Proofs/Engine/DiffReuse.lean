import Highlighting.Proofs.Engine.DiffRuns
import Highlighting.Proofs.Engine.Transcript

/-! In which state a run leaves a lexer for diffs. Between a marker and its body the lexer is in the
condition of the body, and the scan call over the body brings it back to the start of a line. That call
is not made if nothing comes after the marker, so a source that ends with a marker can leave the lexer in
the condition of a body. -/
namespace Highlighting

namespace Run

/-- The lexer in front is at the start of a line, or it is about to scan the body that belongs to the
marker before the cursor. -/
def Between (job : Job) (lexer : Lexer) (state : ScanState) (run : Run) : Prop :=
  state.saved = [] ∧
    (state.condition = 0 ∨
      run.active = .diff ∧ 0 < run.cursor ∧ (lexer.content? job.host).isSome ∧
        ∃ b body, job.input[run.cursor - 1]? = some b ∧ Diff.Body.ofMarker? b = some body ∧
          state.condition = body.condition)

variable {job : Job} {lexer : Lexer} {state : ScanState} {run scanned after : Run} {event : ScanEvent}

theorem Between.of_line (hsaved : state.saved = []) (hline : state.condition = 0) :
    run.Between job lexer state :=
  ⟨hsaved, Or.inl hline⟩

theorem Between.stay (h : run.Between job lexer state) (hactive : after.active = .diff)
    (hcursor : after.cursor = run.cursor) : after.Between job lexer state := by
  refine ⟨h.1, h.2.imp_right ?_⟩
  rintro ⟨-, hpos, hmarker⟩
  rw [← hcursor] at hpos hmarker
  exact ⟨hactive, hpos, hmarker⟩

theorem Move.between (hmove : Move job scanned event after) (h : run.Diffs job lexer state)
    (hbetween : run.Between job lexer state) (hdiff : lexer.language = .diff)
    (hscanner : job.catalog.jsonScanner.FindsAll) (hactive : run.active = .diff)
    (hscan : run.prepare.scan job = some (event, scanned)) (stalls : Nat) :
    ∃ state', Diffs job lexer state' { after with stalls := stalls } ∧
      Between job lexer state' { after with stalls := stalls } := by
  obtain ⟨w, cx, found, hinput, hlimit, hcursor, hstate, hscanned, hafter, hfirst⟩ :=
    h.scan hdiff hactive hscan
  have hplace := h.consuming.scanned_place hscan
  have hvalid := scan_valid h.consuming.valid hscan
  have hframes : scanned.frames = run.frames := congrArg Place.frames hplace
  subst hstate
  cases hscanned with
  | done hend =>
    refine ⟨cx.state, hmove.diffs h hscanner hscan hfirst (fun _ hsome => by cases hsome) stalls, ?_⟩
    cases hmove with
    | leave frame outer houter =>
      have hleft := unterminated_leave_place job scanned hvalid.text_le_cursor frame outer
      have hparent := (h.frames frame (by rw [← hframes, houter]; exact List.mem_cons_self)).1
      apply hbetween.stay
      · exact (congrArg Place.active hleft).trans hparent
      · exact (congrArg Place.cursor hleft).trans (hafter.trans hcursor)
  | handed target hmore hcontent hbody =>
    refine ⟨_, hmove.diffs h hscanner hscan hfirst ?_ stalls, .of_line hbetween.1 rfl⟩
    rintro delegation ⟨⟩
    exact ⟨hactive, rfl, rfl⟩
  | kept hmore hcontent hbody =>
    exact ⟨_, hmove.diffs h hscanner hscan hfirst (fun _ hsome => by cases hsome) stalls,
      .of_line hbetween.1 rfl⟩
  | marker body hmore hcontent hstart hbody =>
    refine ⟨_, hmove.diffs h hscanner hscan hfirst (fun _ hsome => by cases hsome) stalls, ?_⟩
    obtain ⟨b, hpeek, hmarker⟩ := Diff.announced?_eq_some hbody
    have hbyte : job.input[run.cursor]? = some b := by
      rw [← hinput, ← hcursor]
      exact ScanContext.getElem?_of_peek hpeek
    have hnext : ((cx.advance 1).setState (cx.state.start body.condition)).cursor = run.cursor + 1 := by
      simp only [ScanContext.setState, ScanContext.advance]
      omega
    cases hmove with
    | token kind =>
      have htoken := token_place job scanned body.markerKind
      have hforward : (scanned.token job body.markerKind).cursor = run.cursor + 1 :=
        (congrArg Place.cursor htoken).trans (hafter.trans hnext)
      have hstays : (scanned.token job body.markerKind).active = .diff :=
        (congrArg Place.active (htoken.trans hplace)).trans hactive
      refine ⟨hbetween.1, Or.inr ⟨hstays, ?_, hcontent, b, body, ?_, hmarker, rfl⟩⟩
      · exact Nat.lt_of_lt_of_eq (Nat.succ_pos _) hforward.symm
      · have hbefore : (scanned.token job body.markerKind).cursor - 1 = run.cursor := by omega
        exact hbefore ▸ hbyte
  | line hmore hstart hbody =>
    refine ⟨_, hmove.diffs h hscanner hscan hfirst (fun _ hsome => by cases hsome) stalls, ?_⟩
    rw [cx.advanceLine_eq.2.2]
    exact .of_line hbetween.1 hstart

theorem Reaches.between {config : EngineConfig} {others : List Lexer}
    (hreach : Reaches job (job.start config lexer others) run) (hdiff : lexer.language = .diff)
    (hstate : lexer.state = {}) (hscanner : job.catalog.jsonScanner.FindsAll)
    (hbuiltIn : ∀ entry ∈ lexer :: others, entry.BuiltIn job.host) :
    ∃ state, run.Diffs job lexer state ∧ run.Between job lexer state := by
  have hstart := start_diffs job config others hdiff hbuiltIn
  refine hreach.invariant (I := fun run => ∃ state, run.Diffs job lexer state ∧
      run.Between job lexer state)
    (M := fun event scanned => ∃ (run : Run) (state : ScanState), run.Diffs job lexer state ∧
      run.Between job lexer state ∧ run.prepare.scan job = some (event, scanned)) ?_ ?_
    ⟨_, hstart, .of_line (by rw [hstate]) (by rw [hstate])⟩
  · rintro run event scanned ⟨state, h, hbetween⟩ hscan
    exact ⟨run, state, h, hbetween, hscan⟩
  · rintro event scanned after stalls ⟨run, state, h, hbetween, hscan⟩ hmove
    by_cases hactive : run.active = .diff
    · exact hmove.between h hbetween hdiff hscanner hactive hscan stalls
    · -- Other lexers scan bodies, and the lexer in front is back at the start of a line by then.
      obtain ⟨hnever, hfirst⟩ := h.scan_other hdiff hactive hscan
      have hline : state.condition = 0 := hbetween.2.resolve_right (fun hbody => hactive hbody.1)
      refine ⟨state, hmove.diffs h hscanner hscan hfirst ?_ stalls, .of_line hbetween.1 hline⟩
      intro delegation hdelegation
      exact absurd hdelegation (hnever delegation)

end Run

/-- A lexer for diffs that was at the start of a line is so again after a successful run, and with that
it is as it was; unless it has a lexer for bodies and the input ends with a marker, in which case it may
be left in the condition of the body that is missing. -/
theorem diff_lexer_given_back (fuel : Nat) (catalog : Catalog)
    (hscanner : catalog.jsonScanner.FindsAll) (host : Host) (config : EngineConfig) (source : Bytes)
    (lexer : Lexer) (others : List Lexer) (hdiff : lexer.language = .diff) (hstate : lexer.state = {})
    (hbuiltIn : ∀ entry ∈ lexer :: others, entry.BuiltIn host) (highlighted : Highlighted)
    (calls : Array Call)
    (hrun : highlight fuel catalog host config source (lexer :: others) = some highlighted)
    (hok : highlighted.outcome = .ok calls) :
    highlighted.lexers.head? = some lexer ∨
      (lexer.content? host).isSome ∧
        ∃ b body, (Job.ofSource catalog host config source).input.back? = some b ∧
          Diff.Body.ofMarker? b = some body ∧
          highlighted.lexers.head? = some (lexer.inState ⟨body.condition, []⟩) := by
  obtain ⟨last, hdrive, -, hlexers⟩ := highlight_ends hrun hok
  obtain ⟨run, hreach, ⟨-, hstep⟩ | ⟨error, hresult, -⟩⟩ := Run.drive_eq_some hdrive
  case inr => cases hresult
  case inl =>
    obtain ⟨state, h, hsaved, hcondition⟩ := hreach.between hdiff hstate hscanner hbuiltIn
    obtain ⟨scanned, hscan, hframes, rfl⟩ := Run.step_finished_valid h.consuming.valid hstep
    obtain ⟨-, hactive, hend⟩ := h.ends hscanner hscan hframes
    obtain ⟨w, cx, found, -, -, -, rfl, hscanned, -, hfirst⟩ := h.scan hdiff hactive hscan
    cases hscanned with
    | done hused =>
      have hlast := (Run.unterminated_first? (Job.ofSource catalog host config source)).trans hfirst
      have hback := Run.callerLexers_head? hlast lexer others
      have hform : cx.state = ⟨cx.state.condition, []⟩ := by rw [← hsaved]
      rw [hlexers, hback]
      rcases hcondition with hline | ⟨-, hpos, hcontent, b, body, hbyte, hmarker, hbody⟩
      · have hsame : cx.state = lexer.state := by
          rw [hform, hline, hstate]
        rw [hsame, lexer.inState_self]
        exact Or.inl rfl
      · refine Or.inr ⟨hcontent, b, body, ?_, hmarker, ?_⟩
        · rw [Array.back?, ← hend]
          exact hbyte
        · rw [hform, hbody]

/-- A line that has a body: the lexer is as it was. -/
theorem textDiff_given_back :
    ∃ highlighted,
      highlight 64 .relay (fun _ => none) {} (Bytes.ofText "+a\n") [Lexer.textDiff] =
        some highlighted ∧
      highlighted.lexers.head? = some Lexer.textDiff := by
  obtain ⟨highlighted, calls, hrun, hok⟩ : ∃ highlighted calls,
      highlight 64 .relay (fun _ => none) {} (Bytes.ofText "+a\n") [Lexer.textDiff] =
        some highlighted ∧ highlighted.outcome = .ok calls := exists_highlighted (by decide +kernel)
  have hall : ∀ entry ∈ [Lexer.textDiff], entry.BuiltIn (fun _ => none) :=
    fun entry hentry => List.mem_singleton.mp hentry ▸ Lexer.textDiff_builtIn
  refine ⟨highlighted, hrun, ?_⟩
  rcases diff_lexer_given_back 64 .relay Json.scanner_findsAll (fun _ => none) {}
    (Bytes.ofText "+a\n") .textDiff [] rfl rfl hall highlighted calls hrun hok with
    hsame | ⟨-, b, body, hback, hmarker, -⟩
  · exact hsame
  · have hlast : (Job.ofSource .relay (fun _ => none) {} (Bytes.ofText "+a\n")).input.back? =
        some 0x0A := by decide +kernel
    rw [hlast] at hback
    cases hback
    cases hmarker

/-- A marker without a body: the lexer is left in the condition of the body, and highlights the first line
of the next source as one. -/
theorem textDiff_left_in_body :
    ∃ highlighted,
      highlight 64 .relay (fun _ => none) {} (Bytes.ofText "+") [Lexer.textDiff] =
        some highlighted ∧
      highlighted.outcome.toOption.isSome ∧
      highlighted.lexers = [Lexer.textDiff.inState ⟨1, []⟩] ∧
      (highlight 64 .relay (fun _ => none) {} (Bytes.ofText "abc\n") highlighted.lexers).map
          Highlighted.outcome ≠
        (highlight 64 .relay (fun _ => none) {} (Bytes.ofText "abc\n") [Lexer.textDiff]).map
          Highlighted.outcome := by
  have hrun : highlight 64 .relay (fun _ => none) {} (Bytes.ofText "+") [Lexer.textDiff] =
      some ⟨.ok #[.startDocument, .startToken .genericInserted, .write #[0x2B],
        .endToken .genericInserted, .endDocument], [Lexer.textDiff.inState ⟨1, []⟩], {}⟩ := by rfl
  refine ⟨_, hrun, rfl, rfl, ?_⟩
  intro hsame
  have hcalls := congrArg (Option.map Except.toOption) hsame
  simp only [Option.map_map] at hcalls
  revert hcalls
  decide +kernel

end Highlighting
