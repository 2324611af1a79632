import Highlighting.Proofs.Engine.Scanning
import Highlighting.Proofs.Engine.Totality
import Highlighting.Proofs.Grammar.DiffLines

/-! Runs with a lexer for diffs in front. Only lexers for diffs delegate in such a run, and they hand over
bodies of lines; so the lexer in front stays live from the beginning to the end, and its state is changed
by its own scan calls only. -/
namespace Highlighting

def Lexer.content? (host : Host) (lexer : Lexer) : Option LanguageId :=
  Settings.language? ⟨lexer.options, host⟩ "content"

theorem Json.scan_ne_delegate (next? : Json.Scanner) {w : Window} (cx : ScanContext w)
    (delegation : Delegation) : (Json.scan next? cx).1 ≠ .delegate delegation := by
  unfold Json.scan
  split <;> exact nofun

theorem PlainText.scan_ne_delegate {w : Window} (cx : ScanContext w) (delegation : Delegation) :
    (PlainText.scan cx).1 ≠ .delegate delegation := by
  unfold PlainText.scan
  split <;> exact nofun

def Lexer.inState (lexer : Lexer) (state : ScanState) : Lexer :=
  { lexer with state := state }

theorem Lexer.inState_self (lexer : Lexer) : lexer.inState lexer.state = lexer := by
  cases lexer
  rfl

namespace Run

def first? (run : Run) : Option (Lexer × Owner) :=
  run.live.table.head?.map (fun element => (element.lexer, element.owner))

section First

variable (job : Job) {run : Run} {first : Lexer × Owner}

theorem first?_scanning (run : Run) : run.scanning.first? = run.first? := by
  simp only [first?, scanning, LiveLexers.unparsed, LiveLexers.map, List.head?_map, Option.map_map]
  rfl

theorem first?_of_scanning {other : Run} (hsame : run.scanning = other.scanning) :
    run.first? = other.first? := by
  rw [← run.first?_scanning, hsame, first?_scanning]

theorem token_first? (kind : TokenKind) : (run.token job kind).first? = run.first? :=
  first?_of_scanning (token_scanning job run kind)

theorem unterminated_first? : (run.unterminated job).first? = run.first? := by
  rw [← first?_scanning, unterminated_scanning]
  exact run.first?_scanning

theorem fallback_first? (delegation : Delegation) :
    (run.fallback job delegation).first? = run.first? := by
  rw [← first?_scanning, fallback_scanning]
  exact run.first?_scanning

theorem enter_first? (hfirst : run.first? = some first) (delegation : Delegation) :
    (run.enter job delegation).first? = some first := by
  have hready : (if run.live.contains delegation.target then run
      else run.activate job delegation.target).first? = some first := by
    split
    · exact hfirst
    · obtain ⟨element, hhead, rfl⟩ := Option.map_eq_some_iff.mp hfirst
      simp only [first?, activate, LiveLexers.insert]
      split
      · exact hfirst
      · simp [List.head?_append, hhead]
  exact hready

theorem leave_first? (frame : Frame) (hmode : frame.mode = .within) (hresume : frame.resume = none) :
    (run.leave job frame).first? = run.first? := by
  have hkept : ¬(frame.mode = .full ∧ frame.activated) := by simp [hmode]
  rw [leave_eq, if_neg hkept]
  simp only [first?, resumed, hresume]
  rfl

theorem get?_of_first? (hfirst : run.first? = some first) :
    ∃ element, run.live.get? first.1.language = some element ∧ element.lexer = first.1 := by
  obtain ⟨element, hhead, rfl⟩ := Option.map_eq_some_iff.mp hfirst
  obtain ⟨rest, htable⟩ := List.head?_eq_some_iff.mp hhead
  refine ⟨element, ?_, rfl⟩
  simp [LiveLexers.get?, htable, Element.language]

theorem follow_first? (hfirst : run.first? = some first) (hactive : run.active = first.1.language)
    {w : Window} (after : ScanContext w) :
    (run.follow after).first? = some (first.1.inState after.state, first.2) := by
  obtain ⟨element, hhead, rfl⟩ := Option.map_eq_some_iff.mp hfirst
  obtain ⟨rest, htable⟩ := List.head?_eq_some_iff.mp hhead
  simp [first?, follow, LiveLexers.update, htable, hactive, Element.language, Element.setState,
    Lexer.inState]

theorem follow_first?_of_ne (hfirst : run.first? = some first) (hactive : run.active ≠ first.1.language)
    {w : Window} (after : ScanContext w) : (run.follow after).first? = some first := by
  obtain ⟨element, hhead, rfl⟩ := Option.map_eq_some_iff.mp hfirst
  obtain ⟨rest, htable⟩ := List.head?_eq_some_iff.mp hhead
  have hother : ¬element.language = run.active := fun hsame => hactive hsame.symm
  simp [first?, follow, LiveLexers.update, htable, hother]

theorem start_first? (config : EngineConfig) (lexer : Lexer) (others : List Lexer) :
    (job.start config lexer others).first? = some (lexer, .caller 0) := by
  have hone : (job.enlist config.parserBridge {} (lexer, 0)).table.head? =
      some (job.element config.parserBridge (.caller 0) lexer) := by
    simp [Job.enlist, LiveLexers.isFull, lexerCapacity, LiveLexers.insert, LiveLexers.contains]
  have hrest (entries : List (Lexer × Nat)) (live : LiveLexers) (element : Element)
      (hhead : live.table.head? = some element) :
      (entries.foldl (job.enlist config.parserBridge) live).table.head? = some element := by
    induction entries generalizing live with
    | nil => exact hhead
    | cons entry entries ih =>
      apply ih
      unfold Job.enlist LiveLexers.insert
      split
      · exact hhead
      · split
        · exact hhead
        · simp [List.head?_append, hhead]
  have hlive := hrest (others.zipIdx 1) _ _ hone
  exact congrArg (Option.map (fun element : Element => (element.lexer, element.owner))) hlive

/-- The caller gets the lexer back that became live first. -/
theorem callerLexers_head? {lexer : Lexer} (hfirst : run.first? = some (lexer, .caller 0))
    (given : Lexer) (others : List Lexer) :
    (run.callerLexers (given :: others)).head? = some lexer := by
  obtain ⟨element, hhead, heq⟩ := Option.map_eq_some_iff.mp hfirst
  obtain ⟨rest, htable⟩ := List.head?_eq_some_iff.mp hhead
  obtain ⟨rfl, howner⟩ := Prod.mk.inj heq
  simp [callerLexers, List.zipIdx_cons, htable, howner]

end First

/-- A run with a lexer for diffs in front, which is in a given state. -/
structure Diffs (job : Job) (lexer : Lexer) (state : ScanState) (run : Run) : Prop where
  consuming : run.Consuming job .diff
  first : run.first? = some (lexer.inState state, .caller 0)
  frames : ∀ frame ∈ run.frames, frame.parent = .diff ∧ frame.mode = .within ∧ frame.resume = none

section Diffs

variable {job : Job} {lexer : Lexer} {state state' : ScanState} {run scanned after : Run}
  {event : ScanEvent}

theorem start_diffs (job : Job) (config : EngineConfig) (others : List Lexer)
    (hdiff : lexer.language = .diff) (hbuiltIn : ∀ entry ∈ lexer :: others, entry.BuiltIn job.host) :
    (job.start config lexer others).Diffs job lexer lexer.state where
  consuming := hdiff ▸ start_consuming job config lexer others hbuiltIn
  first := by
    rw [lexer.inState_self]
    exact start_first? job config lexer others
  frames := fun _ hframe => absurd hframe List.not_mem_nil

/-- With no delegation under way, the lexer in front scans, and nothing but the end of the input limits
it. -/
theorem Diffs.top (h : run.Diffs job lexer state) (htop : run.frames = []) :
    run.active = .diff ∧ run.limit = job.input.size := by
  have hlinked := h.consuming.valid.linked
  have hrestores := h.consuming.valid.restores
  have hplace : run.place.frames = [] := htop
  rw [hplace] at hlinked hrestores
  exact ⟨hlinked, hrestores⟩

theorem Consuming.context {top : LanguageId} (h : run.Consuming job top) (state : ScanState) :
    (Window.clamp job.input run.prepare.text run.prepare.limit).limit = run.limit ∧
      ((ScanContext.opening (Window.clamp job.input run.prepare.text run.prepare.limit)
        state).setCursor run.prepare.cursor).cursor = run.cursor := by
  have hlimit : (Window.clamp job.input run.prepare.text run.prepare.limit).limit = run.limit :=
    Nat.min_eq_left h.valid.limit_le_size
  have hstart : (Window.clamp job.input run.prepare.text run.prepare.limit).start ≤ run.cursor :=
    (Nat.min_le_left _ _).trans_eq (run.prepare_text_of_idle h.idle)
  have hcursor : run.cursor ≤ run.limit := h.valid.cursor_le_limit
  have hkept : run.prepare.cursor = run.cursor := rfl
  refine ⟨hlimit, ?_⟩
  simp only [ScanContext.setCursor, hlimit, hkept]
  omega

theorem Diffs.scan (h : run.Diffs job lexer state) (hdiff : lexer.language = .diff)
    (hactive : run.active = .diff) (hscan : run.prepare.scan job = some (event, scanned)) :
    ∃ (w : Window) (cx after : ScanContext w), w.input = job.input ∧ w.limit = run.limit ∧
      cx.cursor = run.cursor ∧ cx.state = state ∧
      Diff.Scanned (lexer.content? job.host) cx event after ∧ scanned.cursor = after.cursor ∧
      scanned.first? = some (lexer.inState after.state, .caller 0) := by
  obtain ⟨element, hget, hevent, rfl⟩ := (run.prepare.scan_eq_some_iff job).mp hscan
  obtain ⟨front, hfront, hlexer⟩ := get?_of_first? h.first
  have hsame : front = element := by
    have hkept : run.prepare.live.get? run.prepare.active = run.live.get? .diff := by
      rw [← hactive]
      rfl
    rw [hkept, ← hdiff] at hget
    exact Option.some.inj (hfront.symm.trans hget)
  subst hsame
  have hcall : run.prepare.scanCall job (lexer.inState state) =
      Diff.scan (lexer.content? job.host)
        ((ScanContext.opening (Window.clamp job.input run.prepare.text run.prepare.limit)
          state).setCursor run.prepare.cursor) := by
    unfold Run.scanCall
    have hlanguage : (lexer.inState state).language = .diff := hdiff
    rw [hlanguage]
    rfl
  rw [hlexer, hcall] at hevent ⊢
  obtain ⟨hlimit, hcursor⟩ := h.consuming.context state
  have hprepared : run.prepare.first? = some (lexer.inState state, .caller 0) := h.first
  refine ⟨_, _, _, rfl, hlimit, hcursor, rfl, ?_, rfl, ?_⟩
  · exact hevent ▸ Diff.scan_scanned _ _
  · exact follow_first? hprepared (hactive.trans hdiff.symm) _

theorem Diffs.scan_other (h : run.Diffs job lexer state) (hdiff : lexer.language = .diff)
    (hactive : run.active ≠ .diff) (hscan : run.prepare.scan job = some (event, scanned)) :
    (∀ delegation, event ≠ .delegate delegation) ∧
      scanned.first? = some (lexer.inState state, .caller 0) := by
  obtain ⟨element, hget, hevent, rfl⟩ := (run.prepare.scan_eq_some_iff job).mp hscan
  have hprepared : run.prepare.first? = some (lexer.inState state, .caller 0) := h.first
  have hother : run.prepare.active ≠ lexer.language := fun hsame => hactive (hsame.trans hdiff)
  refine ⟨?_, follow_first?_of_ne hprepared hother _⟩
  have hlanguage : element.lexer.language = run.active := LiveLexers.language_of_get? hget
  have hbuiltIn := (h.consuming.builtIn element (List.mem_of_find?_eq_some hget)).language
  rw [← hevent, Run.scanCall]
  intro delegation
  rw [hlanguage] at hbuiltIn
  cases hlive : run.active with
  | diff => exact absurd hlive hactive
  | json =>
    rw [hlanguage, hlive]
    exact Json.scan_ne_delegate _ _ delegation
  | text =>
    rw [hlanguage, hlive]
    exact PlainText.scan_ne_delegate _ delegation
  | custom number =>
    rw [hlive] at hbuiltIn
    exact hbuiltIn.elim

/-- What a step makes of such a run, the state of the lexer in front apart. -/
theorem Move.diffs (hmove : Move job scanned event after) (h : run.Diffs job lexer state)
    (hscanner : job.catalog.jsonScanner.FindsAll)
    (hscan : run.prepare.scan job = some (event, scanned))
    (hfirst : scanned.first? = some (lexer.inState state', .caller 0))
    (hdelegates : ∀ delegation, event = .delegate delegation →
      run.active = .diff ∧ delegation.mode = .within ∧ delegation.resume = none) (stalls : Nat) :
    Diffs job lexer state' { after with stalls := stalls } := by
  have hplace := h.consuming.scanned_place hscan
  have hframes : scanned.frames = run.frames := congrArg Place.frames hplace
  have hactive : scanned.active = run.active := congrArg Place.active hplace
  have hkept : ∀ frame ∈ scanned.frames,
      frame.parent = .diff ∧ frame.mode = .within ∧ frame.resume = none := hframes ▸ h.frames
  have hsame {next : Run} (hnext : next.frames = scanned.frames) : ∀ frame ∈ next.frames,
      frame.parent = .diff ∧ frame.mode = .within ∧ frame.resume = none := hnext ▸ hkept
  refine ⟨hmove.consuming h.consuming hscanner hscan stalls, ?_, ?_⟩
  · cases hmove with
    | token kind => exact (token_first? job kind).trans hfirst
    | extend => exact hfirst
    | leave frame outer houter =>
      obtain ⟨-, hmode, hresume⟩ := hkept frame (houter ▸ List.mem_cons_self)
      have hclosed : ({ scanned.unterminated job with frames := outer } : Run).first? =
          some (lexer.inState state', .caller 0) := (unterminated_first? job).trans hfirst
      exact (leave_first? job frame hmode hresume).trans hclosed
    | refuse delegation => exact (fallback_first? job delegation).trans hfirst
    | enter delegation => exact enter_first? job hfirst delegation
  · cases hmove with
    | token kind => exact hsame (congrArg Place.frames (token_place job scanned kind))
    | extend => exact hkept
    | leave frame outer houter =>
      have hvalid := scan_valid h.consuming.valid hscan
      have hleft := unterminated_leave_place job scanned hvalid.text_le_cursor frame outer
      have hrest : ({ scanned.unterminated job with frames := outer }.leave job frame).frames = outer :=
        congrArg Place.frames hleft
      intro other hother
      exact hkept other (houter ▸ List.mem_cons_of_mem frame (hrest ▸ hother))
    | refuse delegation =>
      exact hsame (congrArg Place.frames (fallback_place job scanned delegation))
    | enter delegation =>
      obtain ⟨hparent, hmode, hresume⟩ := hdelegates delegation rfl
      have hentered : (scanned.enter job delegation).frames = _ :: scanned.frames :=
        congrArg Place.frames (enter_place job scanned delegation)
      intro other hother
      rcases List.mem_cons.mp (hentered ▸ hother) with rfl | houter
      · exact ⟨hactive.trans hparent, hmode, hresume⟩
      · exact hkept other houter

/-- Such a run ends with the lexer in front, at the end of the input. -/
theorem Diffs.ends (h : run.Diffs job lexer state) (hscanner : job.catalog.jsonScanner.FindsAll)
    (hscan : run.prepare.scan job = some (.done, scanned)) (hframes : scanned.frames = []) :
    run.frames = [] ∧ run.active = .diff ∧ run.cursor = job.input.size := by
  have hnone : run.frames = [] :=
    (congrArg Place.frames (h.consuming.scanned_place hscan)).symm.trans hframes
  obtain ⟨hactive, hlimit⟩ := h.top hnone
  cases h.consuming.scan hscanner hscan with
  | done hend hstay => exact ⟨hnone, hactive, hend.trans hlimit⟩

end Diffs

end Run

def Lexer.textDiff : Lexer where
  language := .diff
  options := ⟨Diff.language.options.map (fun declaration =>
    ⟨declaration, .lexer (some (.owned (Lexer.create .relay .text)))⟩)⟩
  state := {}

theorem Lexer.textDiff_content? : Lexer.textDiff.content? (fun _ => none) = some .text := rfl

theorem Lexer.textDiff_builtIn : Lexer.textDiff.BuiltIn (fun _ => none) := by
  refine ⟨trivial, ?_⟩
  intro _ target htarget
  cases Lexer.textDiff_content?.symm.trans htarget
  exact trivial

end Highlighting
