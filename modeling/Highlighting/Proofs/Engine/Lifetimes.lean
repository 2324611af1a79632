import Highlighting.Proofs.Engine.Elements
import Highlighting.Proofs.Engine.Invariant
import Highlighting.Proofs.Engine.Scanning
import Mathlib.Data.List.Perm.Subperm

/-! The books of a run: which lexers were made for delegations, and what became of them. At any moment
the lexers made so far are those finalised and those that are still live, each counted once. Lexers of
the caller have no part in this; they stay live from beginning to end, and of all their state a run
changes nothing but the scan states. -/
namespace Highlighting

namespace LiveLexers

variable (live : LiveLexers) (p : Owner → Bool)

def ownedBy : List LanguageId :=
  (live.table.filter (fun element => p element.owner)).map Element.language

def made : List LanguageId :=
  live.ownedBy (· == .engine)

def listed : List LanguageId :=
  live.ownedBy (· != .engine)

theorem ownedBy_sublist : (live.ownedBy p).Sublist live.languages :=
  List.filter_sublist.map Element.language

theorem ownedBy_update (id : LanguageId) (change : Element → Element)
    (hlanguage : ∀ element, (change element).language = element.language)
    (howner : ∀ element, (change element).owner = element.owner) :
    (live.update id change).ownedBy p = live.ownedBy p := by
  have hkept (element : Element) :
      (if element.language == id then change element else element).language = element.language ∧
        (if element.language == id then change element else element).owner = element.owner := by
    split
    · exact ⟨hlanguage element, howner element⟩
    · exact ⟨rfl, rfl⟩
  simp only [ownedBy, update, List.filter_map, List.map_map, Function.comp_def, (hkept _).1,
    (hkept _).2]

theorem ownedBy_insert (element : Element) (hnew : live.contains element.language = false) :
    (live.insert element).ownedBy p =
      live.ownedBy p ++ if p element.owner then [element.language] else [] := by
  simp only [ownedBy, insert, hnew, Bool.false_eq_true, if_false, List.filter_append,
    List.map_append]
  cases howner : p element.owner with
  | false => simp [howner]
  | true => simp [howner]

theorem ownedBy_erase (id : LanguageId) :
    (live.erase id).ownedBy p = (live.ownedBy p).filter (fun entry => entry != id) := by
  simp only [ownedBy, erase, List.filter_map, List.filter_filter, Function.comp_def, Bool.and_comm]

theorem ownedBy_unparsed : live.unparsed.ownedBy p = live.ownedBy p := by
  simp only [ownedBy, unparsed, map, List.filter_map, List.map_map, Function.comp_def]
  rfl

theorem mem_ownedBy_of_get? {live : LiveLexers} {p : Owner → Bool} {id : LanguageId}
    {element : Element} (hget : live.get? id = some element) (howner : p element.owner = true) :
    id ∈ live.ownedBy p := by
  refine List.mem_map.mpr ⟨element, List.mem_filter.mpr ⟨?_, howner⟩, language_of_get? hget⟩
  exact List.mem_of_find?_eq_some hget

end LiveLexers

def Lexer.stateless (lexer : Lexer) : Lexer :=
  { lexer with state := {} }

/-- A live lexer has the option values it came with: one of the caller is, but for its state, the one
that stands at its place in the list, and one made for a delegation has the defaults of its language. -/
def Element.AsGiven (catalog : Catalog) (lexers : List Lexer) (element : Element) : Prop :=
  match element.owner with
  | .caller index => lexers[index]?.map Lexer.stateless = some element.lexer.stateless
  | .engine =>
    element.lexer.options = .ofDeclarations (catalog.language element.language).options

theorem Element.asGiven_stable (catalog : Catalog) (lexers : List Lexer) :
    Element.Stable (Element.AsGiven catalog lexers) where
  setState _ _ h := h
  setParser h _ _ _ _ := h

theorem Lexer.releaseSlots_finalized_of_defaults (host : Host)
    (declarations : List OptionDeclaration) :
    (Lexer.releaseSlots host (declarations.map
      (fun declaration => ⟨declaration, .ofDefault declaration.default⟩))).finalized = [] := by
  induction declarations with
  | nil => rfl
  | cons declaration rest ih =>
    have hvalue : (Lexer.releaseValue host (.ofDefault declaration.default)).finalized = [] := by
      cases declaration.default <;> rfl
    rw [List.map_cons, Lexer.releaseSlots]
    change (Lexer.releaseValue host _).finalized ++ (Lexer.releaseSlots host _).finalized = []
    rw [hvalue, ih]
    rfl

/-- Nothing is finalised with a lexer that was made for a delegation but the lexer itself. -/
theorem Element.AsGiven.finalizedBy {job : Job} {lexers : List Lexer} {element : Element}
    (h : element.AsGiven job.catalog lexers) (howner : element.owner = .engine) :
    Run.finalizedBy job element = [element.language] := by
  obtain ⟨⟨language, options, state⟩, owner, parser?⟩ := element
  change owner = .engine at howner
  subst howner
  change options = .ofDeclarations (job.catalog.language language).options at h
  subst h
  simp only [Run.finalizedBy, OptionSet.ofDeclarations, Lexer.destroy]
  change [language] ++ (Lexer.releaseSlots job.host _).finalized = [language]
  rw [Lexer.releaseSlots_finalized_of_defaults]
  rfl

namespace Run

structure Accounted (run : Run) : Prop where
  single : run.live.languages.Nodup
  /-- The lexers made so far are those finalised and those that were made and are live. -/
  balanced : run.lifetimes.created.toList.Perm (run.lifetimes.finalized.toList ++ run.live.made)

/-- The books together with what keeps them in order. The caller listed `lexers`, and `callers` are the
languages of those that became live. -/
structure Audited (job : Job) (top : LanguageId) (lexers : List Lexer) (callers : List LanguageId)
    (run : Run) : Prop where
  valid : run.place.Valid job.input.size top
  given : run.live.All (Element.AsGiven job.catalog lexers)
  callers_live : run.live.listed = callers
  activated : ∀ frame ∈ run.frames, frame.activated = true → frame.child ∉ callers
  balanced : run.lifetimes.created.toList.Perm (run.lifetimes.finalized.toList ++ run.live.made)
  /-- Lexers are made only of languages that the caller did not list, and only where there is room. -/
  unlisted : ∀ id ∈ run.lifetimes.created, id ∉ callers ∧ callers.length < lexerCapacity

variable {job : Job} {top : LanguageId} {lexers : List Lexer} {callers : List LanguageId}
  {run scanned after : Run} {event : ScanEvent}

theorem Audited.accounted (h : run.Audited job top lexers callers) : run.Accounted where
  single := by
    have hstack : run.live.stack = run.live.languages := h.valid.stack_eq
    rw [← hstack]
    exact h.valid.stack_nodup
  balanced := h.balanced

/-- The books are on the scanning side, so rendering does not touch them. -/
theorem Audited.rendered (h : run.Audited job top lexers callers)
    (hvalid : after.place.Valid job.input.size top)
    (hgiven : after.live.All (Element.AsGiven job.catalog lexers)) {text cursor : Nat}
    {accumulating : Bool} (hscanning : after.scanning =
      { run.scanning with text := text, cursor := cursor, accumulating := accumulating }) :
    after.Audited job top lexers callers := by
  have hlive : after.live.unparsed = run.live.unparsed := congrArg Run.live hscanning
  have hframes : after.frames = run.frames := by
    change after.scanning.frames = run.scanning.frames
    rw [hscanning]
  have hlifetimes : after.lifetimes = run.lifetimes := by
    change after.scanning.lifetimes = run.scanning.lifetimes
    rw [hscanning]
  have howned (p : Owner → Bool) : after.live.ownedBy p = run.live.ownedBy p := by
    rw [← after.live.ownedBy_unparsed, hlive, run.live.ownedBy_unparsed]
  constructor
  case valid => exact hvalid
  case given => exact hgiven
  case callers_live => exact (howned _).trans h.callers_live
  case activated =>
    rw [hframes]
    exact h.activated
  case balanced =>
    rw [hlifetimes, LiveLexers.made, howned]
    exact h.balanced
  case unlisted =>
    rw [hlifetimes]
    exact h.unlisted

theorem Audited.unterminated (h : run.Audited job top lexers callers) :
    (run.unterminated job).Audited job top lexers callers := by
  have htext : run.text ≤ run.cursor := h.valid.text_le_cursor
  have hvalid : (run.unterminated job).place.Valid job.input.size top := by
    rw [unterminated_place job run htext]
    exact h.valid.reposition run.accumulating htext le_rfl h.valid.cursor_le_limit
  exact h.rendered hvalid (unterminated_all h.given) (unterminated_scanning job run)

theorem Audited.scan (h : run.Audited job top lexers callers)
    (hscan : run.prepare.scan job = some (event, scanned)) :
    scanned.Audited job top lexers callers := by
  have hvalid := scan_valid h.valid hscan
  have hgiven := scan_all (Element.asGiven_stable job.catalog lexers) h.given hscan
  obtain ⟨element, -, -, rfl⟩ := (run.prepare.scan_eq_some_iff job).mp hscan
  have howned (p : Owner → Bool) := run.live.ownedBy_update p run.active
    (Element.setState · (run.prepare.scanCall job element.lexer).2.state) (fun _ => rfl)
    (fun _ => rfl)
  exact ⟨hvalid, hgiven, (howned _).trans h.callers_live, h.activated,
    h.balanced.trans (List.Perm.of_eq (congrArg _ (howned _).symm)), h.unlisted⟩

theorem deactivate_balanced {id : LanguageId}
    (hgiven : run.live.All (Element.AsGiven job.catalog lexers))
    (hlive : id ∈ run.live.languages) (hother : id ∉ run.live.listed) (hsingle : run.live.languages.Nodup)
    (hbalanced : run.lifetimes.created.toList.Perm
      (run.lifetimes.finalized.toList ++ run.live.made)) :
    (run.deactivate job id).lifetimes.created.toList.Perm
      ((run.deactivate job id).lifetimes.finalized.toList ++ (run.deactivate job id).live.made) := by
  obtain ⟨element, hmem, hlanguage, hget⟩ := run.live.get?_of_mem_languages id hlive
  have howner : element.owner = .engine := by
    by_contra hcaller
    exact hother (LiveLexers.mem_ownedBy_of_get? hget (bne_iff_ne.mpr hcaller))
  have hmade : id ∈ run.live.made :=
    LiveLexers.mem_ownedBy_of_get? hget (beq_iff_eq.mpr howner)
  -- There is no second lexer of the language, so taking out all of them takes out one.
  have hdistinct : run.live.made.Nodup := hsingle.sublist (run.live.ownedBy_sublist _)
  have hfinalized : (run.deactivate job id).lifetimes.finalized.toList =
      run.lifetimes.finalized.toList ++ [id] := by
    simp [deactivate, Lifetimes.finalize, hget, (hgiven element hmem).finalizedBy howner, hlanguage]
  have hrest : (run.deactivate job id).live.made = run.live.made.erase id := by
    rw [hdistinct.erase_eq_filter]
    exact run.live.ownedBy_erase _ id
  rw [hfinalized, hrest, List.append_assoc]
  exact hbalanced.trans ((List.perm_cons_erase hmade).append_left _)

theorem deactivate_listed {id : LanguageId} (hother : id ∉ run.live.listed) :
    (run.deactivate job id).live.listed = run.live.listed := by
  refine (run.live.ownedBy_erase _ id).trans (List.filter_eq_self.mpr ?_)
  intro entry hentry
  apply bne_iff_ne.mpr
  rintro rfl
  exact hother hentry

theorem resumed_ownedBy (job : Job) (run : Run) (frame : Frame) (p : Owner → Bool) :
    (run.resumed job frame).live.ownedBy p = run.live.ownedBy p := by
  unfold resumed
  cases frame.resume with
  | none => rfl
  | some condition => exact run.live.ownedBy_update p _ _ (fun _ => rfl) (fun _ => rfl)

theorem resumed_given {frame : Frame} (h : run.live.All (Element.AsGiven job.catalog lexers)) :
    (run.resumed job frame).live.All (Element.AsGiven job.catalog lexers) := by
  unfold resumed
  cases frame.resume with
  | none => exact h
  | some condition => exact LiveLexers.All.update h _ (fun _ _ hgiven => hgiven)

theorem Audited.leave (h : run.Audited job top lexers callers) {frame : Frame} {outer : List Frame}
    (hframes : run.frames = frame :: outer) (hvalid : Place.Valid job.input.size top
      (({ run with frames := outer } : Run).leave job frame).place) :
    ({ run with frames := outer }.leave job frame).Audited job top lexers callers := by
  have hself : frame ∈ run.frames := by
    rw [hframes]
    exact List.mem_cons_self
  have hactivated : ∀ other ∈ outer, other.activated = true → other.child ∉ callers := by
    intro other hother
    apply h.activated
    rw [hframes]
    exact List.mem_cons_of_mem frame hother
  let resumed := ({ run with frames := outer } : Run).resumed job frame
  have howned (p : Owner → Bool) : resumed.live.ownedBy p = run.live.ownedBy p :=
    resumed_ownedBy job _ frame p
  have hlanguages : resumed.live.languages = run.live.languages := resumed_languages job _ frame
  have hgiven : resumed.live.All (Element.AsGiven job.catalog lexers) := resumed_given h.given
  have hlisted : resumed.live.listed = callers := (howned _).trans h.callers_live
  have hbalanced : resumed.lifetimes.created.toList.Perm
      (resumed.lifetimes.finalized.toList ++ resumed.live.made) := by
    rw [LiveLexers.made, howned]
    exact h.balanced
  rw [leave_eq] at hvalid ⊢
  split at hvalid
  case isTrue hrelease =>
    rw [if_pos hrelease]
    have hother : frame.child ∉ resumed.live.listed := by
      rw [hlisted]
      exact h.activated frame hself hrelease.2
    have hlive : frame.child ∈ resumed.live.languages := by
      rw [hlanguages]
      exact h.valid.child_live frame hself
    have hsingle : resumed.live.languages.Nodup := by
      rw [hlanguages]
      exact h.accounted.single
    constructor
    case valid => exact hvalid
    case given => exact hgiven.erase _
    case callers_live => exact (deactivate_listed hother).trans hlisted
    case activated => exact hactivated
    case balanced => exact deactivate_balanced hgiven hlive hother hsingle hbalanced
    case unlisted => exact h.unlisted
  case isFalse hstays =>
    rw [if_neg hstays]
    exact ⟨hvalid, hgiven, hlisted, hactivated, hbalanced, h.unlisted⟩

theorem Audited.enter (h : run.Audited job top lexers callers) {delegation : Delegation}
    (haccepted : run.refuses delegation.target = false)
    (hvalid : (run.enter job delegation).place.Valid job.input.size top) :
    (run.enter job delegation).Audited job top lexers callers := by
  obtain ⟨-, hroom⟩ := (run.refuses_eq_false_iff delegation.target).mp haccepted
  have hframes : (run.enter job delegation).frames = _ :: run.frames :=
    congrArg Place.frames (enter_place job run delegation)
  have hcallers : callers.Sublist run.live.languages := by
    rw [← h.callers_live]
    exact run.live.ownedBy_sublist _
  have hactivated : ∀ frame ∈ (run.enter job delegation).frames,
      frame.activated = true → frame.child ∉ callers := by
    rw [hframes]
    refine List.forall_mem_cons.mpr ⟨?_, h.activated⟩
    -- A delegate that has to be made is of a language that is not live.
    intro hactivated hchild
    have hnew : delegation.target ∉ run.live.languages := of_decide_eq_true hactivated
    exact hnew (hcallers.subset hchild)
  by_cases hlive : run.live.contains delegation.target = true
  · have hkept : (run.enter job delegation).live = run.live ∧
        (run.enter job delegation).lifetimes = run.lifetimes := by
      simp [Run.enter, hlive, flush]
    constructor
    case valid => exact hvalid
    case given =>
      rw [hkept.1]
      exact h.given
    case callers_live =>
      rw [hkept.1]
      exact h.callers_live
    case activated => exact hactivated
    case balanced =>
      rw [hkept.1, hkept.2]
      exact h.balanced
    case unlisted =>
      rw [hkept.2]
      exact h.unlisted
  · rw [Bool.not_eq_true] at hlive
    have hnew : delegation.target ∉ run.live.languages := by
      rw [← run.live.contains_iff_mem_languages, hlive]
      exact Bool.false_ne_true
    let element := job.element run.bridge .engine (Lexer.create job.catalog delegation.target)
    have hmade : (run.enter job delegation).live = run.live.insert element ∧
        (run.enter job delegation).lifetimes = run.lifetimes.create delegation.target := by
      simp [Run.enter, hlive, flush, activate, element]
    constructor
    case valid => exact hvalid
    case given =>
      rw [hmade.1]
      exact h.given.insert rfl
    case callers_live =>
      rw [hmade.1]
      refine (run.live.ownedBy_insert _ element hlive).trans ?_
      exact (List.append_nil _).trans h.callers_live
    case activated => exact hactivated
    case balanced =>
      have hlonger : (run.live.insert element).made = run.live.made ++ [delegation.target] :=
        run.live.ownedBy_insert _ element hlive
      rw [hmade.1, hmade.2, hlonger, ← List.append_assoc]
      simpa [Lifetimes.create] using h.balanced.append_right [delegation.target]
    case unlisted =>
      rw [hmade.2]
      intro id hid
      rcases Array.mem_push.mp hid with hold | rfl
      · exact h.unlisted id hold
      · have hlength : callers.length ≤ run.live.stack.length := by
          have hstack : run.live.stack = run.live.languages := h.valid.stack_eq
          rw [hstack]
          exact hcallers.length_le
        exact ⟨fun hid => hnew (hcallers.subset hid), hlength.trans_lt (hroom hnew)⟩

theorem Move.audited (hmove : Move job scanned event after)
    (h : scanned.Audited job top lexers callers) : after.Audited job top lexers callers := by
  have hvalid := hmove.valid h.valid
  have hgiven := hmove.all (Element.asGiven_stable job.catalog lexers) h.given (fun _ _ => rfl)
  cases hmove with
  | token kind => exact h.rendered hvalid hgiven (token_scanning job scanned kind)
  | extend => exact h.rendered hvalid hgiven rfl
  | leave frame outer hframes =>
    have hclosed : (scanned.unterminated job).frames = frame :: outer :=
      (unterminated_frames job scanned).trans hframes
    exact h.unterminated.leave hclosed hvalid
  | refuse delegation hrefused =>
    exact h.rendered hvalid hgiven (fallback_scanning job scanned delegation)
  | enter delegation haccepted => exact h.enter haccepted hvalid

theorem Audited.recount (h : run.Audited job top lexers callers) (stalls : Nat) :
    Audited job top lexers callers { run with stalls := stalls } :=
  ⟨h.valid, h.given, h.callers_live, h.activated, h.balanced, h.unlisted⟩

theorem start_audited (job : Job) (config : EngineConfig) (lexer : Lexer) (others : List Lexer) :
    (job.start config lexer others).Audited job lexer.language (lexer :: others)
      (job.start config lexer others).live.languages := by
  have howner : (job.start config lexer others).live.All (fun element => element.owner ≠ .engine) :=
    start_all job config lexer others (fun _ _ => nofun)
  have hmade : (job.start config lexer others).live.made = [] := by
    refine List.map_eq_nil_iff.mpr (List.filter_eq_nil_iff.mpr ?_)
    intro element helement
    exact fun hengine => howner element helement (beq_iff_eq.mp hengine)
  constructor
  case valid => exact job.start_valid config lexer others
  case given =>
    apply start_all
    intro entry hentry
    have hindex := List.mem_zipIdx_iff_getElem?.mp hentry
    exact congrArg (Option.map Lexer.stateless) hindex
  case callers_live =>
    refine congrArg (List.map Element.language) (List.filter_eq_self.mpr ?_)
    exact fun element helement => bne_iff_ne.mpr (howner element helement)
  case activated => exact fun frame hframe => absurd hframe List.not_mem_nil
  case balanced =>
    rw [hmade]
    exact .refl _
  case unlisted => exact fun id hid => absurd hid (Array.not_mem_empty id)

theorem Reaches.audited {config : EngineConfig} {lexer : Lexer} {others : List Lexer}
    (hreach : Reaches job (job.start config lexer others) run) :
    run.Audited job lexer.language (lexer :: others)
      (job.start config lexer others).live.languages := by
  let callers := (job.start config lexer others).live.languages
  refine hreach.invariant (I := Audited job lexer.language (lexer :: others) callers)
    (M := fun _ => Audited job lexer.language (lexer :: others) callers) ?_ ?_
    (start_audited job config lexer others)
  · intro run event scanned h hscan
    exact h.scan hscan
  · intro event scanned after stalls h hmove
    exact (hmove.audited h).recount stalls

end Run

def Progress.run : Progress → Run
  | .running run | .finished run | .aborted _ run => run

namespace Run

variable {job : Job} {top : LanguageId} {lexers : List Lexer} {callers : List LanguageId} {run : Run}

theorem Audited.step (h : run.Audited job top lexers callers) :
    (run.step job).run.Audited job top lexers callers := by
  have hstepped := step_stepped job run
  generalize run.step job = progress at hstepped
  cases hstepped with
  | lost hscan =>
    obtain ⟨event, scanned, hfound⟩ := run.prepare.scan_isSome job h.valid.active_live
    rw [hscan] at hfound
    cases hfound
  | closed hscan hframes => exact (h.scan hscan).unterminated
  | moved stalls hscan hmove => exact (hmove.audited (h.scan hscan)).recount stalls
  | stuck stalls error hscan hmove => exact (hmove.audited (h.scan hscan)).recount stalls

theorem finalLifetimes_eq (hgiven : run.live.All (Element.AsGiven job.catalog lexers)) :
    run.finalLifetimes job = run.lifetimes.finalize run.live.made := by
  have hall (table : List Element) (lifetimes : Lifetimes)
      (htable : ∀ element ∈ table, element.AsGiven job.catalog lexers) :
      table.foldl (fun lifetimes element => lifetimes.finalize (finalizedBy job element)) lifetimes =
        lifetimes.finalize (LiveLexers.made ⟨table, []⟩) := by
    induction table generalizing lifetimes with
    | nil => simp [LiveLexers.made, LiveLexers.ownedBy, Lifetimes.finalize]
    | cons element rest ih =>
      obtain ⟨helement, hrest⟩ := List.forall_mem_cons.mp htable
      rw [List.foldl_cons, ih _ hrest]
      cases howner : element.owner with
      | caller index =>
        simp [LiveLexers.made, LiveLexers.ownedBy, Lifetimes.finalize, finalizedBy, howner]
      | engine =>
        simp [LiveLexers.made, LiveLexers.ownedBy, Lifetimes.finalize, helement.finalizedBy howner,
          howner]
  exact hall run.live.table run.lifetimes hgiven

/-- At the end every lexer that was made has been finalised, and no other. -/
theorem Audited.finalLifetimes (h : run.Audited job top lexers callers) :
    (run.finalLifetimes job).finalized.toList.Perm (run.finalLifetimes job).created.toList ∧
      (run.finalLifetimes job).created = run.lifetimes.created := by
  rw [finalLifetimes_eq h.given]
  refine ⟨?_, rfl⟩
  simpa [Lifetimes.finalize] using h.balanced.symm

end Run

/-- A lexer that the caller lists becomes live unless one of its language is or there is no room. -/
theorem Job.enlist_listed (job : Job) (bridge : Bool) (live : LiveLexers) (entry : Lexer × Nat) :
    live.isFull = true ∨ entry.1.language ∈ (job.enlist bridge live entry).languages := by
  by_cases hfull : live.isFull = true
  · exact Or.inl hfull
  · right
    rw [Job.enlist, if_neg hfull]
    by_cases hlive : live.contains entry.1.language = true
    · have hsame : live.insert (job.element bridge (.caller entry.2) entry.1) = live :=
        if_pos hlive
      rw [hsame]
      exact (live.contains_iff_mem_languages _).mp hlive
    · have hinsert := live.languages_insert (job.element bridge (.caller entry.2) entry.1)
        (Bool.eq_false_iff.mpr hlive)
      rw [hinsert.1]
      exact List.mem_append_right _ (List.mem_singleton_self _)

/-- A lexer that the caller listed is live from the beginning, or there is no room for another. -/
theorem Job.start_listed (job : Job) (config : EngineConfig) (lexer : Lexer) (others : List Lexer)
    (entry : Lexer) (hentry : entry ∈ lexer :: others) :
    entry.language ∈ (job.start config lexer others).live.languages ∨
      lexerCapacity ≤ (job.start config lexer others).live.languages.length := by
  let enlist := job.enlist config.parserBridge
  have hall (entries : List (Lexer × Nat)) (live : LiveLexers) (hlive : live.Tidy)
      (entry : Lexer × Nat) (hentry : entry ∈ entries) :
      entry.1.language ∈ (entries.foldl enlist live).languages ∨
        lexerCapacity ≤ (entries.foldl enlist live).languages.length := by
    induction entries generalizing live with
    | nil => exact absurd hentry List.not_mem_nil
    | cons first rest ih =>
      obtain ⟨htidy, hkept⟩ := job.enlist_tidy config.parserBridge live first hlive
      rcases List.mem_cons.mp hentry with rfl | hrest
      · obtain ⟨-, hmore⟩ := job.enlist_all_tidy config.parserBridge rest _ htidy
        rcases job.enlist_listed config.parserBridge live entry with hfull | hlisted
        · -- No lexer goes while the others become live, so there is still no room.
          have hlanguages := hlive.nodup
          have hlength : lexerCapacity ≤ live.stack.length := of_decide_eq_true hfull
          rw [hlive.stack_eq] at hlanguages hlength
          have hgrown := (List.Nodup.subperm hlanguages (List.Subset.trans hkept hmore)).length_le
          exact Or.inr (hlength.trans hgrown)
        · exact Or.inl (hmore hlisted)
      · exact ih _ htidy hrest
  obtain ⟨index, hindex⟩ := List.mem_iff_getElem?.mp hentry
  exact hall _ {} ⟨rfl, List.nodup_nil, Nat.zero_le _⟩ (entry, index)
    (List.mem_zipIdx_iff_getElem?.mpr hindex)

/-- The run leaves the lexers of the caller as they were, but for their states. -/
theorem Run.callerLexers_stateless {job : Job} {run : Run} {lexers : List Lexer}
    (hgiven : run.live.All (Element.AsGiven job.catalog lexers)) :
    (run.callerLexers lexers).map Lexer.stateless = lexers.map Lexer.stateless := by
  calc (run.callerLexers lexers).map Lexer.stateless
      = lexers.zipIdx.map (fun entry => entry.1.stateless) := by
        rw [callerLexers, List.map_map]
        apply List.map_congr_left
        rintro ⟨lexer, index⟩ hentry
        have hindex := List.mem_zipIdx_iff_getElem?.mp hentry
        simp only [Function.comp_apply]
        split
        case h_1 element hfound =>
          have hnamed := List.find?_some
            (p := fun element : Element => element.owner == .caller index) hfound
          have howner : element.owner = .caller index := beq_iff_eq.mp hnamed
          have hsame := hgiven element (List.mem_of_find?_eq_some hfound)
          simp only [Element.AsGiven, howner] at hsame
          rw [hindex] at hsame
          exact (Option.some.inj hsame).symm
        case h_2 => rfl
    _ = lexers.map Lexer.stateless := by
        have hfirst := congrArg (List.map Lexer.stateless) (List.zipIdx_map_fst 0 lexers)
        rw [List.map_map] at hfirst
        exact hfirst

/-- Every lexer that is made for a delegation is made once and finalised once before highlighting
ends, in success or not. No lexer of the caller, nor any of its language, is made or finalised, and the
lexers of the caller are left as they were but for their states. No two lexers of one language are ever
live, and whenever a step is over, the lexers made so far are those finalised so far and those live. -/
theorem instances_accounted (fuel : Nat) (catalog : Catalog) (host : Host) (config : EngineConfig)
    (source : Bytes) (lexers : List Lexer) (highlighted : Highlighted)
    (hrun : highlight fuel catalog host config source lexers = some highlighted) :
    highlighted.lifetimes.finalized.toList.Perm highlighted.lifetimes.created.toList ∧
    (∀ lexer ∈ lexers, lexer.language ∉ highlighted.lifetimes.created ∧
      lexer.language ∉ highlighted.lifetimes.finalized) ∧
    highlighted.lexers.map Lexer.stateless = lexers.map Lexer.stateless ∧
    ∀ lexer others run, lexers = lexer :: others →
      Run.Reaches (Job.ofSource catalog host config source)
        ((Job.ofSource catalog host config source).start config lexer others) run →
      run.Accounted ∧ (run.step (Job.ofSource catalog host config source)).run.Accounted := by
  cases lexers with
  | nil =>
    cases hrun
    refine ⟨.refl _, nofun, rfl, ?_⟩
    intro lexer others run hsplit
    exact absurd hsplit (List.cons_ne_nil lexer others).symm
  | cons lexer others =>
    let job := Job.ofSource catalog host config source
    obtain ⟨⟨result, last⟩, hdrive, rfl⟩ := Option.map_eq_some_iff.mp hrun
    obtain ⟨run, hreach, hend⟩ := Run.drive_eq_some hdrive
    have hlast : (run.step job).run = last := by
      rcases hend with ⟨-, hstep⟩ | ⟨error, -, hstep⟩
      · rw [hstep]
        rfl
      · rw [hstep]
        rfl
    have haudited := hreach.audited.step
    rw [hlast] at haudited
    obtain ⟨hperm, hcreated⟩ := haudited.finalLifetimes
    have hunlisted (entry : Lexer) (hentry : entry ∈ lexer :: others) :
        entry.language ∉ (last.finalLifetimes job).created := by
      rw [hcreated]
      intro hmade
      obtain ⟨hother, hroom⟩ := haudited.unlisted entry.language hmade
      rcases job.start_listed config lexer others entry hentry with hlive | hfull
      · exact hother hlive
      · exact absurd hroom (Nat.not_lt.mpr hfull)
    refine ⟨hperm, ?_, Run.callerLexers_stateless haudited.given, ?_⟩
    · intro entry hentry
      refine ⟨hunlisted entry hentry, fun hfinalized => hunlisted entry hentry ?_⟩
      exact Array.mem_toList_iff.mp (hperm.subset (Array.mem_toList_iff.mpr hfinalized))
    · rintro _ _ other hsplit hother
      obtain ⟨rfl, rfl⟩ := List.cons.inj hsplit
      exact ⟨hother.audited.accounted, hother.audited.step.accounted⟩

/-- As many lexers are made as delegations can be under way, and all of them are gone in the end. -/
theorem relayed_instances_accounted :
    ∃ highlighted,
      highlight 64 .relay (fun _ => none) {} #[0x61, 0x62] [Lexer.create .relay (.custom 0)] =
        some highlighted ∧
      highlighted.lifetimes.created.size = delegationCapacity ∧
      highlighted.lifetimes.finalized.toList.Perm highlighted.lifetimes.created.toList := by
  have hmade : (highlight 64 .relay (fun _ => none) {} #[0x61, 0x62]
      [Lexer.create .relay (.custom 0)]).map (fun highlighted => highlighted.lifetimes.created.size) =
      some delegationCapacity := by decide +kernel
  obtain ⟨highlighted, hrun, hsize⟩ := Option.map_eq_some_iff.mp hmade
  exact ⟨highlighted, hrun, hsize,
    (instances_accounted 64 .relay (fun _ => none) {} _ _ highlighted hrun).1⟩

end Highlighting
