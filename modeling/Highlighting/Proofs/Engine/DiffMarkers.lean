import Highlighting.Proofs.Engine.DiffRuns
import Highlighting.Proofs.Engine.Marks
import Mathlib.Data.List.Perm.Subperm

/-! What a lexer for diffs classifies itself does not depend on whether it has a lexer for the bodies of
lines. With one or without, the kinds of the bytes outside of delegates are those that the lines of the
input have by themselves, so two runs over one input can be compared line by line. -/
namespace Highlighting

namespace Run

/-- Where the lexer in front is in its line. What lies between the cursor and the offset is handed over,
and another line begins there. -/
inductive Stands (job : Job) (content? : Option LanguageId) (state : ScanState) (run : Run) : Nat → Prop
  | line (htop : run.frames = []) (hstart : state.condition = 0) :
      Stands job content? state run run.cursor
  | body (htop : run.frames = []) (hcontent : content?.isSome) (hbody : state.condition ≠ 0) :
      Stands job content? state run (job.input.lineEnd job.input.size run.cursor)
  | delegate (hone : run.frames.length = 1) (hother : run.active ≠ .diff)
      (hstart : state.condition = 0) : Stands job content? state run run.limit

/-- The bytes that are written and queued, followed by those to come, are marked as a list says. -/
structure OnCourse (job : Job) (lexer : Lexer) (total : List (Option (Option TokenKind)))
    (state : ScanState) (stop : Nat) (run : Run) : Prop where
  diffs : run.Diffs job lexer state
  stands : Stands job (lexer.content? job.host) state run stop
  marks : run.outside job ++
    (Diff.marksFrom (lexer.content? job.host).isSome job.input run.cursor stop).map (Option.map some) =
      total

section Steps

variable {job : Job} {lexer : Lexer} {state : ScanState} {run scanned after : Run} {event : ScanEvent}
  {top : LanguageId} {total : List (Option (Option TokenKind))} {stop : Nat}

theorem Stands.of_line {content? : Option LanguageId} (h : Stands job content? state run stop)
    (htop : run.frames = []) (hstart : state.condition = 0) : stop = run.cursor := by
  cases h with
  | line => rfl
  | body _ _ hbody => exact absurd hstart hbody
  | delegate hone => simp [htop] at hone

theorem Stands.of_body {content? : Option LanguageId} (h : Stands job content? state run stop)
    (htop : run.frames = []) (hbody : state.condition ≠ 0) :
    content?.isSome ∧ stop = job.input.lineEnd job.input.size run.cursor := by
  cases h with
  | line _ hstart => exact absurd hstart hbody
  | body _ hcontent => exact ⟨hcontent, rfl⟩
  | delegate hone => simp [htop] at hone

theorem Stands.of_inside {content? : Option LanguageId} (h : Stands job content? state run stop)
    (hinside : run.frames ≠ []) :
    run.frames.length = 1 ∧ run.active ≠ .diff ∧ state.condition = 0 ∧ stop = run.limit := by
  cases h with
  | line htop => exact absurd htop hinside
  | body htop => exact absurd htop hinside
  | delegate hone hother hstart => exact ⟨hone, hother, hstart, rfl⟩

theorem OnCourse.onward {state' : ScanState} {stop' count : Nat} (entry : Option TokenKind)
    (h : run.OnCourse job lexer total state stop) (hdiffs : after.Diffs job lexer state')
    (hstands : Stands job (lexer.content? job.host) state' after stop')
    (houtside : after.outside job = run.outside job ++ List.replicate count (entry.map some))
    (hahead : Diff.marksFrom (lexer.content? job.host).isSome job.input run.cursor stop =
      List.replicate count entry ++
        Diff.marksFrom (lexer.content? job.host).isSome job.input after.cursor stop') :
    after.OnCourse job lexer total state' stop' := by
  refine ⟨hdiffs, hstands, ?_⟩
  rw [houtside, ← h.marks, hahead, List.map_append, List.map_replicate, List.append_assoc]

theorem OnCourse.stay {state' : ScanState} {stop' : Nat} (h : run.OnCourse job lexer total state stop)
    (hdiffs : after.Diffs job lexer state')
    (hstands : Stands job (lexer.content? job.host) state' after stop')
    (houtside : after.outside job = run.outside job) (hcursor : after.cursor = run.cursor)
    (hstop : stop' = stop) : after.OnCourse job lexer total state' stop' := by
  refine ⟨hdiffs, hstands, ?_⟩
  rw [houtside, hcursor, hstop]
  exact h.marks

theorem unasked_of_diff (h : run.live.All (Element.HasOwnParser job)) (hactive : run.active = .diff)
    (kind : TokenKind) : run.consultation? job kind = none := by
  cases hconsultation : run.consultation? job kind with
  | none => rfl
  | some consultation =>
    obtain ⟨settings, hsettings⟩ := parser_of_consultation? hconsultation h
    rw [hactive] at hsettings
    cases hsettings

/-- There are not so many languages in the library that a delegation could be turned down while no other
one is under way. -/
theorem refuses_of_top (hvalid : run.place.Valid job.input.size top)
    (hbuiltIn : run.live.All (fun element => element.lexer.BuiltIn job.host))
    (htop : run.frames = []) (target : LanguageId) : run.refuses target = false := by
  have hsubset : run.live.languages ⊆ [.diff, .json, .text] := by
    intro id hid
    obtain ⟨element, helement, rfl⟩ := List.mem_map.mp hid
    have hlanguage : element.language.IsBuiltIn := (hbuiltIn element helement).language
    cases hid : element.language with
    | custom number =>
      rw [hid] at hlanguage
      exact hlanguage.elim
    | _ => simp
  have hstack : run.live.stack = run.live.languages := hvalid.stack_eq
  have hnodup : run.live.stack.Nodup := hvalid.stack_nodup
  have hfew : run.live.stack.length ≤ 3 := by
    rw [hstack] at hnodup ⊢
    exact (List.subperm_of_subset hnodup hsubset).length_le
  rw [refuses_eq_false_iff, htop]
  refine ⟨by decide, ?_⟩
  intro _
  unfold lexerCapacity
  omega

theorem Diffs.token_outside (h : run.Diffs job lexer state) (hnested : run.Nested)
    (hparsers : run.live.All (Element.HasOwnParser job)) (htop : run.frames = []) {kind : TokenKind}
    (hscan : run.prepare.scan job = some (.token kind, scanned)) :
    (scanned.token job kind).outside job =
      run.outside job ++ List.replicate (scanned.cursor - run.cursor) (some (some kind)) := by
  obtain ⟨hactive, hwhole⟩ := h.top htop
  have hplace := h.consuming.scanned_place hscan
  have hvalid := scan_valid h.consuming.valid hscan
  have htext : scanned.text = run.cursor := congrArg Place.text hplace
  have hframes : scanned.frames = [] := (congrArg Place.frames hplace).trans htop
  have hsize : scanned.cursor ≤ job.input.size := hvalid.cursor_le_limit.trans hvalid.limit_le_size
  have hunasked := unasked_of_diff (scan_all (Element.hasOwnParser_stable job) hparsers hscan)
    ((congrArg Place.active hplace).trans hactive) kind
  rw [(hnested.scan hscan).token_outside hframes kind hunasked hsize, scan_outside hscan, htext]

theorem OnCourse.token {kind : TokenKind} {state' : ScanState} {stop' stalls : Nat}
    (h : run.OnCourse job lexer total state stop) (hnested : run.Nested)
    (hparsers : run.live.All (Element.HasOwnParser job)) (htop : run.frames = [])
    (hscan : run.prepare.scan job = some (.token kind, scanned))
    (hdiffs : Diffs job lexer state' { scanned.token job kind with stalls := stalls })
    (hstands : ∀ next : Run, next.frames = [] → next.cursor = scanned.cursor →
      Stands job (lexer.content? job.host) state' next stop')
    (hahead : Diff.marksFrom (lexer.content? job.host).isSome job.input run.cursor stop =
      List.replicate (scanned.cursor - run.cursor) (some kind) ++
        Diff.marksFrom (lexer.content? job.host).isSome job.input scanned.cursor stop') :
    OnCourse job lexer total state' stop' { scanned.token job kind with stalls := stalls } := by
  have hplace := h.diffs.consuming.scanned_place hscan
  have htoken := token_place job scanned kind
  have hcursor : (scanned.token job kind).cursor = scanned.cursor := congrArg Place.cursor htoken
  have hframes : (scanned.token job kind).frames = [] :=
    (congrArg Place.frames (htoken.trans hplace)).trans htop
  have hwritten := h.diffs.token_outside hnested hparsers htop hscan
  rw [← hcursor] at hahead
  exact OnCourse.onward (some kind) h hdiffs (hstands _ hframes hcursor) (hcursor ▸ hwritten) hahead

theorem OnCourse.enter {delegation : Delegation} {state' : ScanState} {stalls : Nat}
    (h : run.OnCourse job lexer total state stop) (htop : run.frames = [])
    (hbody : state.condition ≠ 0) (hmode : delegation.mode = .within)
    (hother : delegation.target ≠ .diff)
    (hscan : run.prepare.scan job = some (.delegate delegation, scanned))
    (hline : scanned.cursor = job.input.lineEnd job.input.size run.cursor)
    (hstart : state'.condition = 0)
    (hdiffs : Diffs job lexer state' { scanned.enter job delegation with stalls := stalls }) :
    ∃ stop', OnCourse job lexer total state' stop'
      { scanned.enter job delegation with stalls := stalls } := by
  have hplace := h.diffs.consuming.scanned_place hscan
  have hentered := enter_place job scanned delegation
  have hframes : scanned.frames = [] := (congrArg Place.frames hplace).trans htop
  have hone : (scanned.enter job delegation).frames.length = 1 := by
    have hlength := congrArg (fun place => place.frames.length) hentered
    exact hlength.trans (congrArg (fun frames => frames.length + 1) hframes)
  have hlimit : (scanned.enter job delegation).limit = scanned.cursor :=
    (congrArg Place.limit hentered).trans (if_pos hmode)
  have hstop := (h.stands.of_body htop hbody).2
  refine ⟨_, h.stay hdiffs (.delegate hone hother hstart) ?_ ?_ ?_⟩
  · exact (enter_outside _).trans (scan_outside hscan)
  · exact (congrArg Place.cursor hentered).trans (congrArg Place.text hplace)
  · exact hlimit.trans (hline.trans hstop.symm)

theorem Move.front (hmove : Move job scanned event after) (h : run.OnCourse job lexer total state stop)
    (hdiff : lexer.language = .diff) (hcontent : lexer.content? job.host ≠ some .diff)
    (hscanner : job.catalog.jsonScanner.FindsAll) (hnested : run.Nested)
    (hparsers : run.live.All (Element.HasOwnParser job)) (htop : run.frames = [])
    (hscan : run.prepare.scan job = some (event, scanned)) (stalls : Nat) :
    ∃ state' stop', OnCourse job lexer total state' stop' { after with stalls := stalls } := by
  obtain ⟨hactive, hwhole⟩ := h.diffs.top htop
  obtain ⟨w, cx, found, hinput, hlimit, hcursor, rfl, hscanned, hafter, hfirst⟩ :=
    h.diffs.scan hdiff hactive hscan
  rw [hwhole] at hlimit
  have hframes : scanned.frames = [] :=
    (congrArg Place.frames (h.diffs.consuming.scanned_place hscan)).trans htop
  have hline : cx.advanceLine.2.cursor = job.input.lineEnd job.input.size run.cursor := by
    rw [cx.advanceLine_eq.2.1, hinput, hlimit, hcursor]
  cases hscanned with
  | done hend =>
    cases hmove with
    | leave frame outer houter => cases hframes.symm.trans houter
  | handed target hmore htarget hbody =>
    have hvalid := scan_valid h.diffs.consuming.valid hscan
    have hbuiltIn := scan_all (builtIn_stable job.host) h.diffs.consuming.builtIn hscan
    have haccepted := refuses_of_top hvalid hbuiltIn hframes target
    have hdelegates (delegation : Delegation) (hsame : ScanEvent.delegate
        { mode := .within, target := target, fallback := Diff.bodyKind cx.state.condition } =
          .delegate delegation) :
        run.active = .diff ∧ delegation.mode = .within ∧ delegation.resume = none := by
      cases hsame
      exact ⟨hactive, rfl, rfl⟩
    have hdiffs := hmove.diffs h.diffs hscanner hscan hfirst hdelegates stalls
    cases hmove with
    | refuse delegation hrefused => cases hrefused.symm.trans haccepted
    | enter delegation =>
      have hother : target ≠ .diff := fun hself => hcontent (hself ▸ htarget)
      exact ⟨_, h.enter htop hbody rfl hother hscan (hafter.trans hline) rfl hdiffs⟩
  | kept hmore hnone hbody =>
    -- A body is only waited for where there is a lexer for it.
    obtain ⟨hsome, -⟩ := h.stands.of_body htop hbody
    simp [hnone] at hsome
  | marker body hmore hsome hstart hbody =>
    have hdiffs := hmove.diffs h.diffs hscanner hscan hfirst (fun _ hsome => by cases hsome) stalls
    have hnext : scanned.cursor = run.cursor + 1 := by
      rw [hafter, ← hcursor]
      simp only [ScanContext.setState, ScanContext.advance]
      omega
    rw [hlimit, hcursor] at hmore
    have hahead := Diff.marksFrom_marker hinput hlimit hcursor hmore hbody
    have hone : scanned.cursor - run.cursor = 1 := by omega
    rw [← hnext, ← hone] at hahead
    cases hmove with
    | token kind =>
      refine ⟨_, job.input.lineEnd job.input.size scanned.cursor,
        h.token hnested hparsers htop hscan hdiffs ?_ ?_⟩
      · intro next hframes hsame
        exact hsame ▸ .body hframes hsome body.condition_ne_zero
      · rw [h.stands.of_line htop hstart, hsome]
        exact hahead
  | line hmore hstart hbody =>
    have hdiffs := hmove.diffs h.diffs hscanner hscan hfirst (fun _ hsome => by cases hsome) stalls
    have hkept : cx.advanceLine.2.state.condition = 0 := by
      rw [cx.advanceLine_eq.2.2]
      exact hstart
    rw [hlimit, hcursor] at hmore
    have hahead := Diff.marksFrom_whole hinput hlimit hcursor hmore hbody
    rw [← hline, ← hafter] at hahead
    cases hmove with
    | token kind =>
      refine ⟨_, scanned.cursor, h.token hnested hparsers htop hscan hdiffs ?_ ?_⟩
      · intro next hframes hsame
        exact hsame ▸ .line hframes hkept
      · rw [h.stands.of_line htop hstart]
        exact hahead

theorem Move.inner (hmove : Move job scanned event after) (h : run.OnCourse job lexer total state stop)
    (hdiff : lexer.language = .diff) (hscanner : job.catalog.jsonScanner.FindsAll)
    (hnested : run.Nested) (hinside : run.frames ≠ [])
    (hscan : run.prepare.scan job = some (event, scanned)) (stalls : Nat) :
    ∃ stop', OnCourse job lexer total state stop' { after with stalls := stalls } := by
  obtain ⟨hone, hother, hstart, hstop⟩ := h.stands.of_inside hinside
  obtain ⟨hnever, hfirst⟩ := h.diffs.scan_other hdiff hother hscan
  have hdiffs := hmove.diffs h.diffs hscanner hscan hfirst
    (fun delegation hdelegation => absurd hdelegation (hnever delegation)) stalls
  have hplace := h.diffs.consuming.scanned_place hscan
  have hvalid := scan_valid h.diffs.consuming.valid hscan
  have htext : scanned.text = run.cursor := congrArg Place.text hplace
  have hlimit : scanned.limit = run.limit := congrArg Place.limit hplace
  have hframes : scanned.frames = run.frames := congrArg Place.frames hplace
  cases h.diffs.consuming.scan hscanner hscan with
  | done hend hstay =>
    cases hmove with
    | leave frame outer houter =>
      have hleft := unterminated_leave_place job scanned hvalid.text_le_cursor frame outer
      have hnone : outer = [] := by
        rw [← hframes, houter] at hone
        exact List.length_eq_zero_iff.mp (Nat.succ.inj hone)
      have hcursor : ({ scanned.unterminated job with frames := outer }.leave job frame).cursor =
          run.cursor := (congrArg Place.cursor hleft).trans hstay
      have hclosed : scanned.cursor ≤ scanned.text := by omega
      refine ⟨_, h.stay hdiffs (.line ?_ hstart) ?_ hcursor ?_⟩
      · exact (congrArg Place.frames hleft).trans hnone
      · exact (leave_outside frame).trans
          ((unterminated_outside hclosed).trans (scan_outside hscan))
      · exact hcursor.trans (hend.trans hstop.symm)
  | token kind hmore =>
    cases hmove with
    | token =>
      have htoken := token_place job scanned kind
      have hcursor : (scanned.token job kind).cursor = scanned.cursor := congrArg Place.cursor htoken
      have hsame : (scanned.token job kind).frames = run.frames :=
        (congrArg Place.frames htoken).trans hframes
      have hactive : (scanned.token job kind).active = run.active :=
        congrArg Place.active (htoken.trans hplace)
      have hsize : scanned.cursor ≤ job.input.size :=
        hvalid.cursor_le_limit.trans hvalid.limit_le_size
      have hwritten : (scanned.token job kind).outside job =
          run.outside job ++ List.replicate (scanned.cursor - run.cursor) none := by
        rw [(hnested.scan hscan).token_inside (hframes ▸ hinside) kind hsize, scan_outside hscan, htext]
      have hbelow : scanned.cursor ≤ scanned.limit := hvalid.cursor_le_limit
      refine ⟨_, OnCourse.onward none h hdiffs (.delegate ?_ ?_ hstart) hwritten ?_⟩
      · exact (congrArg List.length hsame).trans hone
      · exact fun hself => hother (hactive.symm.trans hself)
      · have hkept : (scanned.token job kind).limit = run.limit :=
          (congrArg Place.limit htoken).trans hlimit
        rw [hstop, Diff.marksFrom_handed (Nat.le_of_lt hmore) (hlimit ▸ hbelow)]
        simp only [hcursor, hkept]
  | within delegation => exact absurd rfl (hnever delegation)

end Steps

end Run

def Job.lineMarks (job : Job) (config : EngineConfig) (delegates : Bool) : List (Option TokenKind) :=
  let start := (job.passedThrough? config).getD 0
  List.replicate start (some .ignorable) ++ Diff.marks delegates job.input start

namespace Run

section Runs

variable {job : Job} {config : EngineConfig} {lexer : Lexer} {others : List Lexer} {run : Run}

theorem start_outside (job : Job) (config : EngineConfig) (lexer : Lexer) (others : List Lexer) :
    (job.start config lexer others).outside job =
      List.replicate ((job.passedThrough? config).getD 0) (some (some .ignorable)) := by
  have hat : (({} : Emitter).call .startDocument).At 0 := rfl
  rw [outside, job.start_rendered]
  cases hshebang : job.passedThrough? config with
  | none =>
    rw [Job.opening, hshebang]
    rfl
  | some stop =>
    have hlength : (job.input.extract 0 stop).size = stop := by
      rw [Array.size_extract, Nat.min_eq_left (job.passedThrough?_le config stop hshebang)]
      rfl
    have hmarks := hat.emit_marks .ignorable (job.input.extract 0 stop)
    rw [hlength] at hmarks
    rw [Job.opening, hshebang]
    exact (congrArg (List.map Mark.outside) hmarks).trans (List.map_replicate)

/-- The steps of a run keep it on course. -/
theorem Reaches.onCourse (hreach : Reaches job (job.start config lexer others) run)
    (hdiff : lexer.language = .diff) (hstate : lexer.state = {})
    (hcontent : lexer.content? job.host ≠ some .diff)
    (hscanner : job.catalog.jsonScanner.FindsAll)
    (hbuiltIn : ∀ entry ∈ lexer :: others, entry.BuiltIn job.host) :
    ∃ state stop, run.OnCourse job lexer
      ((job.lineMarks config (lexer.content? job.host).isSome).map (Option.map some)) state stop := by
  induction hreach with
  | refl =>
    have hstart := start_diffs job config others hdiff hbuiltIn
    refine ⟨_, _, hstart, .line rfl (by rw [hstate]), ?_⟩
    rw [start_outside, Diff.marksFrom_self, Job.lineMarks, List.map_append, List.map_replicate]
    rfl
  | @tail before next hreach hstep ih =>
    have hbefore : Reaches job (job.start config lexer others) before := hreach
    obtain ⟨state, stop, h⟩ := ih
    obtain ⟨event, scanned, after, stalls, hscan, hmove, rfl⟩ := step_running hstep
    by_cases htop : before.frames = []
    · exact hmove.front h hdiff hcontent hscanner hbefore.nested hbefore.hasOwnParser htop hscan stalls
    · exact ⟨state, hmove.inner h hdiff hscanner hbefore.nested htop hscan stalls⟩

/-- At the end nothing is to come, and the bytes of the whole input are marked. -/
theorem OnCourse.ends {total : List (Option (Option TokenKind))} {state : ScanState} {stop : Nat}
    {scanned : Run} (h : run.OnCourse job lexer total state stop)
    (hscanner : job.catalog.jsonScanner.FindsAll)
    (hscan : run.prepare.scan job = some (.done, scanned)) (hframes : scanned.frames = []) :
    (scanned.unterminated job).outside job = total := by
  obtain ⟨htop, -, hend⟩ := h.diffs.ends hscanner hscan hframes
  have hstop : stop = job.input.size := by
    cases h.stands with
    | line => exact hend
    | body =>
      apply Nat.le_antisymm
      · exact Bytes.lineEnd_le (Nat.le_of_eq hend)
      · exact hend ▸ job.input.le_lineEnd job.input.size run.cursor
    | delegate hone => simp [htop] at hone
  have htext : scanned.text = run.cursor :=
    congrArg Place.text (h.diffs.consuming.scanned_place hscan)
  have hclosed : scanned.cursor ≤ scanned.text := by
    cases h.diffs.consuming.scan hscanner hscan with
    | done _ hstay => omega
  rw [unterminated_outside hclosed, scan_outside hscan, ← h.marks, hend, hstop, Diff.marksFrom_self,
    Diff.marks_size]
  exact (List.append_nil _).symm

end Runs

end Run

/-- The bytes of a document that a lexer for diffs writes itself have the kinds that the lines of the
input give them. -/
theorem diff_document_marks {fuel : Nat} {catalog : Catalog} {host : Host} {config : EngineConfig}
    {source : Bytes} {lexer : Lexer} {others : List Lexer} {highlighted : Highlighted}
    {calls : Array Call} (hscanner : catalog.jsonScanner.FindsAll) (hdiff : lexer.language = .diff)
    (hstate : lexer.state = {}) (hcontent : lexer.content? host ≠ some .diff)
    (hbuiltIn : ∀ entry ∈ lexer :: others, entry.BuiltIn host)
    (hrun : highlight fuel catalog host config source (lexer :: others) = some highlighted)
    (hok : highlighted.outcome = .ok calls) :
    (Call.marks calls).map Mark.outside =
      ((Job.ofSource catalog host config source).lineMarks config
        (lexer.content? host).isSome).map (Option.map some) := by
  obtain ⟨last, hdrive, rfl, -⟩ := highlight_ends hrun hok
  obtain ⟨run, hreach, ⟨-, hstep⟩ | ⟨error, hresult, -⟩⟩ := Run.drive_eq_some hdrive
  case inr => cases hresult
  case inl =>
    obtain ⟨state, stop, h⟩ := hreach.onCourse hdiff hstate hcontent hscanner hbuiltIn
    obtain ⟨scanned, hscan, hframes, rfl⟩ :=
      Run.step_finished_valid h.diffs.consuming.valid hstep
    exact Run.document_outside.trans (h.ends hscanner hscan hframes)

theorem Mark.getElem?_eq_some_iff {marks : List Mark} {kinds : List (Option TokenKind)}
    (hsame : marks.map Mark.outside = kinds.map (Option.map some)) {i : Nat}
    {kind? : Option TokenKind} :
    marks[i]? = some ⟨0, kind?⟩ ↔ ∃ kind, kind? = some kind ∧ kinds[i]? = some (some kind) := by
  have hat := congrArg (fun list => list[i]?) hsame
  simp only [List.getElem?_map] at hat
  constructor
  · intro hmark
    rw [hmark] at hat
    obtain ⟨entry, hentry, hkind⟩ := Option.map_eq_some_iff.mp hat.symm
    obtain ⟨kind, rfl, rfl⟩ := Option.map_eq_some_iff.mp hkind
    exact ⟨kind, rfl, hentry⟩
  · rintro ⟨kind, rfl, hkind⟩
    rw [hkind] at hat
    obtain ⟨mark, hmark, houtside⟩ := Option.map_eq_some_iff.mp hat
    rw [hmark, Mark.outside_eq_some.mp houtside]

/-- Behind a shebang line that is passed through, and at the beginning, a line begins. -/
theorem Job.lineStart_passedThrough? (job : Job) (config : EngineConfig) :
    job.input.LineStart ((job.passedThrough? config).getD 0) := by
  cases hstop : job.passedThrough? config with
  | none => exact Or.inl rfl
  | some stop =>
    unfold passedThrough? at hstop
    split at hstop
    · exact Bytes.shebangLineEnd?_lineStart hstop
    · cases hstop

/-- Whether there is a lexer for bodies makes no difference to the kinds of the other bytes, but for the
marker of a last line that nothing terminates. -/
theorem Job.lineMarks_agree {job : Job} {config : EngineConfig} {i : Nat} {kind : TokenKind}
    (hmark : (job.lineMarks config true)[i]? = some (some kind)) :
    (job.lineMarks config false)[i]? = some (some kind) ∨
      (job.lineMarks config false)[i]? = some (some .ignorable) ∧ job.input.OpensLastLine i ∧
        ∃ b body, job.input[i]? = some b ∧ Diff.Body.ofMarker? b = some body ∧
          kind = body.markerKind := by
  have hstart := job.lineStart_passedThrough? config
  unfold lineMarks at hmark ⊢
  dsimp only at hmark ⊢
  generalize (job.passedThrough? config).getD 0 = start at hmark hstart ⊢
  by_cases hbefore : i < start
  · rw [List.getElem?_append_left (by simpa using hbefore)] at hmark ⊢
    exact Or.inl hmark
  · rw [List.getElem?_append_right (by simpa using hbefore), List.length_replicate] at hmark ⊢
    have hsame : start + (i - start) = i := by omega
    have hagree := Diff.marks_agree hstart hmark
    rw [hsame] at hagree
    exact hagree

/-- A run over lexers of the library has fuel enough, and its document writes the input. -/
theorem exists_document {catalog : Catalog} {host : Host} {source : Bytes} {lexer : Lexer}
    {others : List Lexer} {fuel : Nat} (config : EngineConfig)
    (hscanner : catalog.jsonScanner.FindsAll)
    (hbuiltIn : ∀ entry ∈ lexer :: others, entry.BuiltIn host)
    (hfuel : (2 * delegationCapacity + 2) * (source.size + 1) ≤ fuel) :
    ∃ highlighted calls,
      highlight fuel catalog host config source (lexer :: others) = some highlighted ∧
      highlighted.outcome = .ok calls ∧
      Call.written calls = (Job.ofSource catalog host config source).input := by
  have hsize := Job.ofSource_input_size_le catalog host config source
  obtain ⟨last, hdrive⟩ := Run.drive_start_eq_ok (Job.ofSource catalog host config source) hscanner
    config lexer others hbuiltIn ((Nat.mul_le_mul_left _ (Nat.succ_le_succ hsize)).trans hfuel)
  have hsome : (highlight fuel catalog host config source (lexer :: others)).map
      (fun highlighted => highlighted.outcome.toOption) =
        some (some (last.document (Job.ofSource catalog host config source))) := by
    simp only [highlight, hdrive]
    rfl
  obtain ⟨highlighted, hrun, hok⟩ := exists_highlighted_of_calls hsome
  obtain ⟨_, _, scanned, hsplit, hend, hcalls⟩ := highlight_eq_ok hrun hok
  obtain ⟨rfl, rfl⟩ := List.cons.inj hsplit
  refine ⟨highlighted, _, hrun, hok, ?_⟩
  rw [hcalls, hend.written.2, hend.cursor_eq_size hscanner hbuiltIn]
  exact Array.extract_size

/-- With a lexer for bodies and without one, a lexer for diffs gives the bytes that it does not hand over
the same kinds. The one exception is the marker of a last line that nothing terminates: it keeps its kind
if the body is handed over, while the line as a whole is not classified. -/
theorem content_keeps_markers (catalog : Catalog) (hscanner : catalog.jsonScanner.FindsAll)
    (host : Host) (config : EngineConfig) (source : Bytes) (lexer plain : Lexer) (others : List Lexer)
    (content : LanguageId) (hdiff : lexer.language = .diff) (hplain : plain.language = .diff)
    (hstate : lexer.state = {}) (hplainState : plain.state = {})
    (hcontent : lexer.content? host = some content) (hother : content ≠ .diff)
    (hnone : plain.content? host = none)
    (hbuiltIn : ∀ entry ∈ lexer :: plain :: others, entry.BuiltIn host) (fuel : Nat)
    (hfuel : (2 * delegationCapacity + 2) * (source.size + 1) ≤ fuel) :
    ∃ highlighted calls plainly plainCalls,
      highlight fuel catalog host config source (lexer :: others) = some highlighted ∧
      highlighted.outcome = .ok calls ∧
      Call.written calls = (Job.ofSource catalog host config source).input ∧
      highlight fuel catalog host config source (plain :: others) = some plainly ∧
      plainly.outcome = .ok plainCalls ∧
      Call.written plainCalls = (Job.ofSource catalog host config source).input ∧
      ∀ (i : Nat) (kind? : Option TokenKind), (Call.marks calls)[i]? = some ⟨0, kind?⟩ →
        (Call.marks plainCalls)[i]? = some ⟨0, kind?⟩ ∨
          (Call.marks plainCalls)[i]? = some ⟨0, some .ignorable⟩ ∧
            (Job.ofSource catalog host config source).input.OpensLastLine i ∧
            ((Job.ofSource catalog host config source).input[i]? = some (Bytes.code '+') ∧
                kind? = some .genericInserted ∨
              (Job.ofSource catalog host config source).input[i]? = some (Bytes.code '-') ∧
                kind? = some .genericDeleted) := by
  obtain ⟨hfirst, hrest⟩ := List.forall_mem_cons.mp hbuiltIn
  obtain ⟨hsecond, hothers⟩ := List.forall_mem_cons.mp hrest
  have hall := List.forall_mem_cons.mpr ⟨hfirst, hothers⟩
  obtain ⟨highlighted, calls, hrun, hok, hwritten⟩ := exists_document config hscanner hall hfuel
  obtain ⟨plainly, plainCalls, hplainRun, hplainOk, hplainWritten⟩ :=
    exists_document config hscanner hrest hfuel
  refine ⟨highlighted, calls, plainly, plainCalls, hrun, hok, hwritten, hplainRun, hplainOk,
    hplainWritten, ?_⟩
  have hmarks := diff_document_marks hscanner hdiff hstate
    (fun hself => hother (Option.some.inj (hcontent.symm.trans hself))) hall hrun hok
  have hplainMarks := diff_document_marks hscanner hplain hplainState
    (fun hself => Option.some_ne_none _ (hself.symm.trans hnone)) hrest hplainRun hplainOk
  rw [hcontent] at hmarks
  rw [hnone] at hplainMarks
  intro i kind? hmark
  obtain ⟨kind, rfl, hkind⟩ := (Mark.getElem?_eq_some_iff hmarks).mp hmark
  rcases Job.lineMarks_agree hkind with hsame | ⟨hignored, hlast, b, body, hbyte, hmarker, rfl⟩
  · exact Or.inl ((Mark.getElem?_eq_some_iff hplainMarks).mpr ⟨kind, rfl, hsame⟩)
  · have hplainMark := (Mark.getElem?_eq_some_iff hplainMarks).mpr ⟨.ignorable, rfl, hignored⟩
    rcases Diff.Body.ofMarker?_eq_some hmarker with ⟨rfl, rfl⟩ | ⟨rfl, rfl⟩ | ⟨rfl, rfl⟩
    · exact Or.inr ⟨hplainMark, hlast, Or.inl ⟨hbyte, rfl⟩⟩
    · exact Or.inr ⟨hplainMark, hlast, Or.inr ⟨hbyte, rfl⟩⟩
    · -- The marker of a context line is not classified either way.
      exact Or.inl hplainMark

/-- Lines that end: all markers keep their kinds. -/
theorem textDiff_keeps_markers :
    ∃ highlighted calls plainly plainCalls,
      highlight 500 .relay (fun _ => none) {} (Bytes.ofText "+a\n-b\n") [Lexer.textDiff] =
        some highlighted ∧ highlighted.outcome = .ok calls ∧
      highlight 500 .relay (fun _ => none) {} (Bytes.ofText "+a\n-b\n") [Lexer.create .relay .diff] =
        some plainly ∧ plainly.outcome = .ok plainCalls ∧
      ∀ (i : Nat) (kind? : Option TokenKind), (Call.marks calls)[i]? = some ⟨0, kind?⟩ →
        (Call.marks plainCalls)[i]? = some ⟨0, kind?⟩ := by
  have hall : ∀ entry ∈ [Lexer.textDiff, Lexer.create .relay .diff],
      entry.BuiltIn (fun _ => none) := by
    intro entry hentry
    rcases List.mem_pair.mp hentry with rfl | rfl
    · exact Lexer.textDiff_builtIn
    · exact Lexer.create_builtIn .relay (fun _ => none) trivial
  obtain ⟨highlighted, calls, plainly, plainCalls, hrun, hok, -, hplainRun, hplainOk, -, hmarks⟩ :=
    content_keeps_markers .relay Json.scanner_findsAll (fun _ => none) {}
      (Bytes.ofText "+a\n-b\n") .textDiff (Lexer.create .relay .diff) [] .text rfl rfl rfl rfl
      Lexer.textDiff_content? (by decide) rfl hall 500 (by decide +kernel)
  refine ⟨highlighted, calls, plainly, plainCalls, hrun, hok, hplainRun, hplainOk, ?_⟩
  intro i kind? hmark
  rcases hmarks i kind? hmark with hsame | ⟨-, hlast, hbyte⟩
  · exact hsame
  · have hinput : (Job.ofSource .relay (fun _ => none) {} (Bytes.ofText "+a\n-b\n")).input[5]? =
        some 0x0A := by decide +kernel
    have hsize : (Job.ofSource .relay (fun _ => none) {} (Bytes.ofText "+a\n-b\n")).input.size = 6 := by
      decide +kernel
    have hless : i ≤ 5 := by
      rcases hbyte with ⟨hplus, -⟩ | ⟨hminus, -⟩
      · have hbelow := (Array.getElem?_eq_some_iff.mp hplus).1
        omega
      · have hbelow := (Array.getElem?_eq_some_iff.mp hminus).1
        omega
    cases hlast.unbroken 5 0x0A hless hinput

/-- A last line that nothing terminates: its marker is classified if the body is handed over, and not
classified otherwise. -/
theorem unterminated_marker_differs :
    ((highlight 500 .relay (fun _ => none) {} (Bytes.ofText "+a") [Lexer.textDiff]).bind
        (fun highlighted => highlighted.outcome.toOption)).map Call.marks =
      some [⟨0, some .genericInserted⟩, ⟨1, some .text⟩] ∧
    ((highlight 500 .relay (fun _ => none) {} (Bytes.ofText "+a") [Lexer.create .relay .diff]).bind
        (fun highlighted => highlighted.outcome.toOption)).map Call.marks =
      some [⟨0, some .ignorable⟩, ⟨0, some .ignorable⟩] := by
  decide +kernel

end Highlighting
