import Highlighting.Grammar.RuleTable
import Highlighting.Proofs.Engine.Invariant
import Highlighting.Proofs.Engine.Relocation
import Mathlib.Data.List.Dedup

/-! Entries without effect in the list of lexers that a run is given. At most one lexer of a language
becomes live, and at most as many lexers as there is room for; what comes after that in the list might as
well not be there. -/
namespace Highlighting

def languagesBefore (lexers : List Lexer) (index : Nat) : List LanguageId :=
  (lexers.take index).map Lexer.language

/-- An entry is redundant if its language is that of an earlier one, or if as many languages as there is
room for come before it. -/
def Redundant (lexers : List Lexer) (index : Nat) : Prop :=
  (∃ lexer ∈ lexers[index]?, lexer.language ∈ languagesBefore lexers index) ∨
    lexerCapacity ≤ (languagesBefore lexers index).dedup.length

instance (lexers : List Lexer) (index : Nat) : Decidable (Redundant lexers index) :=
  inferInstanceAs (Decidable (_ ∨ _))

def irredundantEntries {α : Type} (lexers : List Lexer) (entries : List α) : List (α × Nat) :=
  entries.zipIdx.filter (fun entry => ¬ Redundant lexers entry.2)

def irredundant {α : Type} (lexers : List Lexer) (entries : List α) : List α :=
  (irredundantEntries lexers entries).map Prod.fst

section Enlisting

structure LiveLexers.Enlisted (listed : List LanguageId) (live : LiveLexers) : Prop where
  tidy : live.Tidy
  listed_of_live : live.languages ⊆ listed
  live_of_listed : live.isFull = false → listed ⊆ live.languages

namespace LiveLexers.Enlisted

variable {listed : List LanguageId} {live : LiveLexers} {lexer : Lexer}

theorem length_le (h : live.Enlisted listed) : live.stack.length ≤ listed.dedup.length := by
  have hsubset : live.stack ⊆ listed.dedup := by
    rw [h.tidy.stack_eq]
    intro id hid
    exact List.mem_dedup.mpr (h.listed_of_live hid)
  exact (h.tidy.nodup.subperm hsubset).length_le

theorem isFull_of_le (h : live.Enlisted listed) (hmany : lexerCapacity ≤ listed.dedup.length) :
    live.isFull = true := by
  by_contra hroom
  have hsubset : listed.dedup ⊆ live.stack := by
    rw [h.tidy.stack_eq]
    intro id hid
    exact h.live_of_listed (Bool.eq_false_iff.mpr hroom) (List.mem_dedup.mp hid)
  have hlength := (listed.nodup_dedup.subperm hsubset).length_le
  exact hroom (decide_eq_true (hmany.trans hlength))

theorem skip (h : live.Enlisted listed) (job : Job) (bridge : Bool) (index : Nat)
    (hredundant : lexer.language ∈ listed ∨ lexerCapacity ≤ listed.dedup.length) :
    job.enlist bridge live (lexer, index) = live ∧ live.Enlisted (listed ++ [lexer.language]) := by
  have hlive (hroom : live.isFull = false) : lexer.language ∈ live.languages := by
    rcases hredundant with hearlier | hmany
    · exact h.live_of_listed hroom hearlier
    · rw [h.isFull_of_le hmany] at hroom
      cases hroom
  constructor
  · unfold Job.enlist
    split
    case isTrue => rfl
    case isFalse hroom =>
      have hcontains := (live.contains_iff_mem_languages _).mpr (hlive (Bool.eq_false_iff.mpr hroom))
      exact if_pos hcontains
  · refine ⟨h.tidy, fun id hid => List.mem_append_left _ (h.listed_of_live hid), ?_⟩
    intro hroom id hid
    rcases List.mem_append.mp hid with hid | hid
    · exact h.live_of_listed hroom hid
    · rw [List.mem_singleton.mp hid]
      exact hlive hroom

theorem take (h : live.Enlisted listed) (job : Job) (bridge : Bool) (index : Nat)
    (hnew : lexer.language ∉ listed) (hfew : ¬ lexerCapacity ≤ listed.dedup.length) :
    (job.enlist bridge live (lexer, index)).Enlisted (listed ++ [lexer.language]) := by
  have hroom : live.isFull = false := by
    apply decide_eq_false
    have := h.length_le
    omega
  have hmissing : live.contains lexer.language = false := by
    rw [Bool.eq_false_iff]
    intro hcontains
    exact hnew (h.listed_of_live ((live.contains_iff_mem_languages _).mp hcontains))
  obtain ⟨htidy, -⟩ := job.enlist_tidy bridge live (lexer, index) h.tidy
  have hlanguages : (job.enlist bridge live (lexer, index)).languages =
      live.languages ++ [lexer.language] := by
    rw [Job.enlist, hroom]
    exact (live.languages_insert (job.element bridge (.caller index) lexer) hmissing).1
  refine ⟨htidy, ?_, ?_⟩
  · rw [hlanguages]
    exact List.append_subset.mpr ⟨fun id hid => List.mem_append_left _ (h.listed_of_live hid),
      List.subset_append_right _ _⟩
  · intro _
    rw [hlanguages]
    exact List.append_subset.mpr ⟨fun id hid => List.mem_append_left _ (h.live_of_listed hroom hid),
      List.subset_append_right _ _⟩

end LiveLexers.Enlisted

theorem redundant_append (front : List Lexer) (lexer : Lexer) (rest : List Lexer) :
    Redundant (front ++ lexer :: rest) front.length ↔
      lexer.language ∈ front.map Lexer.language ∨
        lexerCapacity ≤ (front.map Lexer.language).dedup.length := by
  simp [Redundant, languagesBefore]

/-- The lexers of a list become live as they do without the redundant entries. -/
theorem Job.foldl_enlist_irredundant (job : Job) (bridge : Bool) (lexers : List Lexer) :
    lexers.zipIdx.foldl (job.enlist bridge) {} =
      (irredundantEntries lexers lexers).foldl (job.enlist bridge) {} := by
  -- Along the list: in front are the lexers that the live ones come from.
  have hrest (front rest : List Lexer) (live : LiveLexers)
      (hlive : live.Enlisted (front.map Lexer.language)) (hlexers : lexers = front ++ rest) :
      (rest.zipIdx front.length).foldl (job.enlist bridge) live =
        ((rest.zipIdx front.length).filter (fun entry => ¬ Redundant lexers entry.2)).foldl
          (job.enlist bridge) live := by
    induction rest generalizing front live with
    | nil => rfl
    | cons lexer rest ih =>
      have hnext (after : LiveLexers)
          (hafter : after.Enlisted (front.map Lexer.language ++ [lexer.language])) :
          (rest.zipIdx (front.length + 1)).foldl (job.enlist bridge) after =
            ((rest.zipIdx (front.length + 1)).filter (fun entry => ¬ Redundant lexers entry.2)).foldl
              (job.enlist bridge) after := by
        have hfront := ih (front ++ [lexer]) after (by simpa using hafter) (by simp [hlexers])
        rw [List.length_append, List.length_singleton] at hfront
        exact hfront
      rw [List.zipIdx_cons, List.foldl_cons]
      by_cases hredundant : Redundant lexers front.length
      · rw [List.filter_cons_of_neg (by simpa using hredundant)]
        rw [hlexers, redundant_append] at hredundant
        obtain ⟨hsame, hafter⟩ := hlive.skip job bridge front.length hredundant
        rw [hsame]
        exact hnext live hafter
      · rw [List.filter_cons_of_pos (by simpa using hredundant), List.foldl_cons]
        rw [hlexers, redundant_append, not_or] at hredundant
        exact hnext _ (hlive.take job bridge front.length hredundant.1 hredundant.2)
  refine hrest [] lexers {} ⟨⟨rfl, List.nodup_nil, Nat.zero_le _⟩, ?_, ?_⟩ rfl
  · exact List.nil_subset _
  · exact fun _ => List.nil_subset _

end Enlisting

section Places

variable {lexers : List Lexer}

theorem irredundantEntries_getElem? {α : Type} {entries : List α} {index : Nat} {entry : α × Nat}
    (hentry : (irredundantEntries lexers entries)[index]? = some entry) :
    entries[entry.2]? = some entry.1 ∧ ¬ Redundant lexers entry.2 := by
  obtain ⟨hmem, hremains⟩ := List.mem_filter.mp (List.mem_of_getElem? hentry)
  exact ⟨List.mem_zipIdx_iff_getElem?.mp hmem, by simpa using hremains⟩

/-- Where the lexers that are not redundant stand in the whole list. Further numbers stand for places
behind it, so that no two numbers stand for the same place. -/
def placeBefore (lexers : List Lexer) (index : Nat) : Nat :=
  (((irredundantEntries lexers lexers)[index]?).map Prod.snd).getD (lexers.length + index)

theorem placeBefore_cases (lexers : List Lexer) (index : Nat) :
    (∃ entry, (irredundantEntries lexers lexers)[index]? = some entry ∧
        placeBefore lexers index = entry.2 ∧ entry.2 < lexers.length ∧ ¬ Redundant lexers entry.2) ∨
      placeBefore lexers index = lexers.length + index := by
  cases hentry : (irredundantEntries lexers lexers)[index]? with
  | none =>
    right
    rw [placeBefore, hentry]
    rfl
  | some entry =>
    obtain ⟨hplace, hremains⟩ := irredundantEntries_getElem? hentry
    have hless := (List.getElem?_eq_some_iff.mp hplace).1
    refine Or.inl ⟨entry, rfl, ?_, hless, hremains⟩
    rw [placeBefore, hentry]
    rfl

theorem placeBefore_injective (lexers : List Lexer) : Function.Injective (placeBefore lexers) := by
  have hnodup : ((irredundantEntries lexers lexers).map Prod.snd).Nodup := by
    have hsublist := (List.filter_sublist (p := fun entry => ¬ Redundant lexers entry.2)
      (l := lexers.zipIdx)).map Prod.snd
    refine hsublist.nodup ?_
    rw [List.zipIdx_map_snd]
    exact List.nodup_range'
  intro first second hsame
  -- Two places in the list are told apart by the list, and all others by their distance from its end.
  rcases placeBefore_cases lexers first with ⟨entry, hentry, hplace, hless, -⟩ | hplace <;>
    rcases placeBefore_cases lexers second with ⟨entry', hentry', hplace', hless', -⟩ | hplace'
  · have hget : ((irredundantEntries lexers lexers).map Prod.snd)[first]? =
        ((irredundantEntries lexers lexers).map Prod.snd)[second]? := by
      rw [List.getElem?_map, List.getElem?_map, hentry, hentry', Option.map_some, Option.map_some,
        ← hplace, ← hplace', hsame]
    have hfirst : first < ((irredundantEntries lexers lexers).map Prod.snd).length := by
      rw [List.length_map]
      exact (List.getElem?_eq_some_iff.mp hentry).1
    exact (List.getElem?_inj hfirst hnodup).mp hget
  · omega
  · omega
  · omega

theorem placeBefore_ne {index : Nat} (hredundant : Redundant lexers index)
    (hindex : index < lexers.length) (other : Nat) : placeBefore lexers other ≠ index := by
  rcases placeBefore_cases lexers other with ⟨entry, -, hplace, -, hremains⟩ | hplace
  · rintro rfl
    rw [hplace] at hredundant
    exact hremains hredundant
  · omega

theorem irredundantEntries_eq (lexers : List Lexer) :
    irredundantEntries lexers lexers =
      (irredundant lexers lexers).zipIdx.map (fun entry => (entry.1, placeBefore lexers entry.2)) := by
  apply List.ext_getElem?
  intro index
  rw [List.getElem?_map, List.getElem?_zipIdx, Nat.zero_add, irredundant, List.getElem?_map]
  cases hentry : (irredundantEntries lexers lexers)[index]? with
  | none => rfl
  | some entry => simp [placeBefore, hentry]

theorem irredundant_map (form : Lexer × Nat → Lexer) :
    irredundant lexers (lexers.zipIdx.map form) = (irredundantEntries lexers lexers).map form := by
  have hzip : (lexers.zipIdx.map form).zipIdx =
      lexers.zipIdx.map (fun entry => (form entry, entry.2)) := by
    apply List.ext_getElem?
    intro index
    simp only [List.getElem?_zipIdx, List.getElem?_map, Option.map_map, Nat.zero_add]
    rfl
  rw [irredundant, irredundantEntries, hzip, List.filter_map, List.map_map]
  rfl

theorem mem_of_mem_irredundant {α : Type} {entries : List α} {entry : α}
    (hentry : entry ∈ irredundant lexers entries) : entry ∈ entries := by
  obtain ⟨found, hfound, rfl⟩ := List.mem_map.mp hentry
  exact List.mem_of_getElem? (List.mem_zipIdx_iff_getElem?.mp (List.mem_filter.mp hfound).1)

theorem irredundant_cons (lexer : Lexer) (others : List Lexer) :
    ∃ rest, irredundant (lexer :: others) (lexer :: others) = lexer :: rest := by
  have hfirst : ¬ Redundant (lexer :: others) 0 := by
    simp [Redundant, languagesBefore, lexerCapacity]
  refine ⟨((others.zipIdx 1).filter (fun entry => ¬ Redundant (lexer :: others) entry.2)).map
    Prod.fst, ?_⟩
  rw [irredundant, irredundantEntries, List.zipIdx_cons, List.filter_cons_of_pos (by simpa using hfirst)]
  rfl

end Places

namespace Run

variable {lexers : List Lexer}

theorem start_relocates {job : Job} {host : Host} (config : EngineConfig) {top : Lexer}
    {others rest : List Lexer} (hrest : irredundant (top :: others) (top :: others) = top :: rest)
    (hlisted : ∀ lexer ∈ top :: others, lexer.SeesSame job.catalog job.host host) :
    Relocates (placeBefore (top :: others)) job host (job.start config top others)
      (Job.start { job with host := host } config top rest) := by
  have hmem (lexer : Lexer) (hlexer : lexer ∈ top :: rest) :
      lexer.SeesSame job.catalog job.host host := by
    rw [← hrest] at hlexer
    exact hlisted lexer (mem_of_mem_irredundant hlexer)
  constructor
  case same =>
    have hlive : (top :: others).zipIdx.foldl (job.enlist config.parserBridge) {} =
        ((top :: rest).zipIdx.foldl (Job.enlist { job with host := host } config.parserBridge) {}).map
          (Element.relocated (placeBefore (top :: others))) := by
      rw [job.foldl_enlist_irredundant, irredundantEntries_eq, hrest, List.foldl_map]
      refine List.foldl_rel (r := fun live (live' : LiveLexers) =>
        live = live'.map (Element.relocated (placeBefore (top :: others)))) rfl ?_
      rintro ⟨lexer, index⟩ hentry live live' rfl
      have hlexer := hmem lexer (List.mem_of_getElem? (List.mem_zipIdx_iff_getElem?.mp hentry))
      exact (job.enlist_relocated config.parserBridge _ live' hlexer index).symm
    simp only [Job.start, relocated, hlive]
    rfl
  case sees =>
    apply start_all
    rintro ⟨lexer, index⟩ hentry
    exact hmem lexer (List.mem_of_getElem? (List.mem_zipIdx_iff_getElem?.mp hentry))

/-- The other lexers are given back as they are if the redundant ones are not listed. -/
theorem irredundant_callerLexers (run : Run) :
    irredundant lexers ((run.relocated (placeBefore lexers)).callerLexers lexers) =
      run.callerLexers (irredundant lexers lexers) := by
  unfold callerLexers
  rw [irredundant_map, irredundantEntries_eq, List.map_map]
  apply List.map_congr_left
  rintro ⟨lexer, index⟩ -
  simp only [Function.comp_apply]
  rw [find?_relocated (placeBefore_injective lexers)]
  cases run.live.table.find? (fun element => element.owner == .caller index) with
  | none => rfl
  | some element => rfl

/-- A redundant lexer is given back as it was, for no live lexer stands at its place. -/
theorem callerLexers_redundant (run : Run) {index : Nat} (hredundant : Redundant lexers index) :
    ((run.relocated (placeBefore lexers)).callerLexers lexers)[index]? = lexers[index]? := by
  rw [callerLexers, List.getElem?_map, List.getElem?_zipIdx, Nat.zero_add]
  cases hlexer : lexers[index]? with
  | none => rfl
  | some lexer =>
    have hindex := (List.getElem?_eq_some_iff.mp hlexer).1
    have hnone := run.find?_relocated_eq_none (placeBefore_ne hredundant hindex)
    simp only [Option.map_some, hnone]

end Run

/-- The calls that are made to render a source. If the run is given up, the document is not complete. -/
def renderedCalls (fuel : Nat) (catalog : Catalog) (host : Host) (config : EngineConfig)
    (source : Bytes) (lexers : List Lexer) : Option (Array Call) :=
  match lexers with
  | [] => some #[]
  | top :: others =>
    let job := Job.ofSource catalog host config source
    (Run.drive job fuel (job.start config top others)).map (fun (result, last) =>
      match result with
      | .ok _ => last.document job
      | .error _ => last.emitter.calls)

/-- Highlighting with a list of lexers under one host comes to the same as highlighting with the
redundant entries left out under another: the outcome, the other lexers and what was made and
finalised are the same, and so are the calls even if the run is given up; and the redundant entries stay
as they were. -/
structure RedundantEntriesInert (fuel : Nat) (catalog : Catalog) (host host' : Host)
    (config : EngineConfig) (source : Bytes) (lexers : List Lexer) : Prop where
  answer : (highlight fuel catalog host config source lexers).map
      (fun highlighted =>
        (highlighted.outcome, irredundant lexers highlighted.lexers, highlighted.lifetimes)) =
    (highlight fuel catalog host' config source (irredundant lexers lexers)).map
      (fun highlighted => (highlighted.outcome, highlighted.lexers, highlighted.lifetimes))
  calls : renderedCalls fuel catalog host config source lexers =
    renderedCalls fuel catalog host' config source (irredundant lexers lexers)
  untouched : ∀ highlighted, highlight fuel catalog host config source lexers = some highlighted →
    ∀ index, Redundant lexers index → highlighted.lexers[index]? = lexers[index]?

theorem redundantEntriesInert_of_seesSame (fuel : Nat) {catalog : Catalog} {host host' : Host}
    (config : EngineConfig) (source : Bytes) {lexers : List Lexer}
    (hlisted : ∀ lexer ∈ lexers, lexer.SeesSame catalog host host')
    (hnew : ∀ id, (Lexer.create catalog id).SeesSame catalog host host') :
    RedundantEntriesInert fuel catalog host host' config source lexers := by
  cases lexers with
  | nil =>
    refine ⟨rfl, rfl, ?_⟩
    intro highlighted hhighlighted index _
    cases hhighlighted
    rfl
  | cons top others =>
    obtain ⟨rest, hrest⟩ := irredundant_cons top others
    let job := Job.ofSource catalog host config source
    have hstart : Run.Relocates (placeBefore (top :: others)) job host' _ _ :=
      Run.start_relocates config hrest hlisted
    have hlockstep : Run.Lockstep job { job with host := host' }
        (Run.Relocates (placeBefore (top :: others)) job host')
        (fun _ => Run.Relocates (placeBefore (top :: others)) job host') :=
      Run.relocates_lockstep hnew
    constructor
    case answer =>
      rw [hrest]
      simp only [highlight, Option.map_map]
      refine hlockstep.drive_map fuel hstart ?_
      rintro result a b ⟨rfl, -⟩
      simp only [Function.comp_apply, Run.irredundant_callerLexers, hrest]
      rw [Run.finalLifetimes_relocated host']
      rfl
    case calls =>
      rw [hrest]
      refine hlockstep.drive_map fuel hstart ?_
      rintro result a b ⟨rfl, -⟩
      cases result with
      | ok => rfl
      | error => rfl
    case untouched =>
      intro highlighted hhighlighted index hredundant
      obtain ⟨⟨result, last⟩, hdrive, rfl⟩ := Option.map_eq_some_iff.mp hhighlighted
      have hsame := hlockstep.drive_map fuel hstart
        (f := fun ended => (ended.2.callerLexers (top :: others))[index]?)
        (g := fun _ => (top :: others)[index]?) (by
          rintro result a b ⟨rfl, -⟩
          exact b.callerLexers_redundant hredundant)
      rw [hdrive, Option.map_some] at hsame
      obtain ⟨_, -, hentry⟩ := Option.map_eq_some_iff.mp hsame.symm
      exact hentry.symm

section Hosts

def Lexer.Borrows (lexer : Lexer) (handle : LexerHandle) : Prop :=
  ∃ path, lexer.Holds ⟨path, .borrowed handle⟩

def Host.without (host : Host) (busy : List LexerHandle) : Host :=
  fun handle => if handle ∈ busy then none else host handle

/-- A grammar is given the options of its lexer and comes to other lexers only through the handles in
them. -/
def Catalog.ReadsOwnHandles (catalog : Catalog) : Prop :=
  ∀ (lexer : Lexer) (host host' : Host),
    (∀ handle, lexer.Borrows handle → host handle = host' handle) →
      lexer.SeesSame catalog host host'

variable {lexer : Lexer}

theorem Lexer.not_borrows_of_lexerless (h : lexer.options.Lexerless) (handle : LexerHandle) :
    ¬ lexer.Borrows handle := by
  rintro ⟨path, hheld⟩
  cases path with
  | nil =>
    obtain ⟨front, place, -, hpath, -⟩ := hheld
    exact absurd hpath.symm (List.append_ne_nil_of_right_ne_nil front (List.cons_ne_nil place []))
  | cons place rest =>
    obtain ⟨slot, hslot, hsub⟩ := Lexer.holds_cons.mp hheld
    have hnone := h slot (List.mem_of_getElem? hslot)
    rcases hsub with ⟨-, hsome⟩ | ⟨inner, hsome, -⟩
    · cases hnone.symm.trans hsome
    · cases hnone.symm.trans hsome

theorem Lexer.borrows_of_subLexer? {name : String} {handle : LexerHandle}
    (hsub : lexer.options.subLexer? name = some (.borrowed handle)) : lexer.Borrows handle := by
  obtain ⟨value, hget, hvalue⟩ := Option.bind_eq_some_iff.mp hsub
  obtain ⟨slot, hslot, rfl⟩ := Option.map_eq_some_iff.mp hget
  obtain ⟨place, hplace⟩ := List.mem_iff_getElem?.mp (List.mem_of_find?_eq_some hslot)
  exact ⟨[place], Lexer.holds_cons.mpr ⟨slot, hplace, .inl ⟨rfl, hvalue⟩⟩⟩

theorem Settings.language?_congr {host host' : Host}
    (hagree : ∀ handle, lexer.Borrows handle → host handle = host' handle) (name : String) :
    Settings.language? ⟨lexer.options, host⟩ name = Settings.language? ⟨lexer.options, host'⟩ name := by
  unfold Settings.language?
  cases hsub : lexer.options.subLexer? name with
  | none => rfl
  | some sub =>
    cases sub with
    | owned inner => rfl
    | borrowed handle => exact hagree handle (Lexer.borrows_of_subLexer? hsub)

/-- The languages of the library and those given by tables keep to their own options. -/
theorem Catalog.ofTables_readsOwnHandles (languages : Array TableLanguage) :
    (Catalog.ofTables languages).ReadsOwnHandles := by
  intro lexer host host' hagree
  have hcontent := Settings.language?_congr hagree "content"
  obtain ⟨language, options, state⟩ := lexer
  cases language with
  | diff =>
    refine ⟨?_, rfl⟩
    change (fun _ cx => Diff.scan (Settings.language? ⟨options, host⟩ "content") cx) =
      (fun _ cx => Diff.scan (Settings.language? ⟨options, host'⟩ "content") cx)
    rw [hcontent]
  | json => exact ⟨rfl, rfl⟩
  | text => exact ⟨rfl, rfl⟩
  | custom number =>
    have htable (described? : Option TableLanguage) (settings settings' : Settings) :
        let grammar := ((described?.map TableLanguage.language).getD PlainText.language).grammar
        grammar.scan settings = grammar.scan settings' ∧
          grammar.parser? settings = grammar.parser? settings' := by
      cases described? with
      | none => exact ⟨rfl, rfl⟩
      | some described => exact ⟨rfl, rfl⟩
    obtain ⟨hscan, hparser⟩ := htable languages[number]? ⟨options, host⟩ ⟨options, host'⟩
    exact ⟨hscan, hparser⟩

end Hosts

/-- Redundant entries of the list of lexers are inert. While they are listed they are in use and not lent
out, so leaving them out lets the host lend more; that makes no difference either if no option of a
listed lexer refers to a listed lexer. -/
theorem redundant_entries_inert (fuel : Nat) (catalog : Catalog) (host : Host)
    (config : EngineConfig) (source : Bytes) (kept : List KeptLexer) :
    RedundantEntriesInert fuel catalog host host config source (kept.map KeptLexer.lexer) ∧
    (catalog.ReadsOwnHandles →
      (∀ holder ∈ kept, ∀ entry ∈ kept, ¬ holder.lexer.Borrows entry.handle) →
      RedundantEntriesInert fuel catalog (host.without (kept.map KeptLexer.handle))
        (host.without (irredundant (kept.map KeptLexer.lexer) (kept.map KeptLexer.handle)))
        config source (kept.map KeptLexer.lexer)) := by
  constructor
  · apply redundantEntriesInert_of_seesSame
    · exact fun _ _ => ⟨rfl, rfl⟩
    · exact fun _ => ⟨rfl, rfl⟩
  · intro hreads hborrows
    apply redundantEntriesInert_of_seesSame
    · intro lexer hlexer
      obtain ⟨holder, hholder, rfl⟩ := List.mem_map.mp hlexer
      apply hreads
      intro handle hborrowed
      -- What is borrowed is not listed, so it is lent out in both cases or in none.
      have hlisted : handle ∉ kept.map KeptLexer.handle := by
        intro hmem
        obtain ⟨entry, hentry, rfl⟩ := List.mem_map.mp hmem
        exact hborrows holder hholder entry hentry hborrowed
      have hremaining : handle ∉
          irredundant (kept.map KeptLexer.lexer) (kept.map KeptLexer.handle) :=
        fun hmem => hlisted (mem_of_mem_irredundant hmem)
      rw [Host.without, Host.without, if_neg hlisted, if_neg hremaining]
    · intro id
      apply hreads
      intro handle hborrowed
      have hnone : ¬ (Lexer.create catalog id).Borrows handle :=
        Lexer.not_borrows_of_lexerless (OptionSet.ofDeclarations_lexerless _) handle
      exact absurd hborrowed hnone

def KeptLexer.twoTexts : List KeptLexer :=
  [⟨⟨0⟩, { Lexer.create (.ofTables #[]) .diff with
      options := ⟨OptionSet.store "content" (.lexer (some (.borrowed ⟨7⟩)))
        (Lexer.create (.ofTables #[]) .diff).options.slots⟩ }⟩,
    ⟨⟨1⟩, Lexer.create (.ofTables #[]) .text⟩,
    ⟨⟨2⟩, { Lexer.create (.ofTables #[]) .text with state := { condition := 5 } }⟩]

def Host.lendingJson : Host :=
  fun handle => if handle = ⟨7⟩ then some .json else none

theorem KeptLexer.twoTexts_unlisted (holder : KeptLexer) (hholder : holder ∈ twoTexts)
    (entry : KeptLexer) (hentry : entry ∈ twoTexts) : ¬ holder.lexer.Borrows entry.handle := by
  rintro ⟨path, hheld⟩
  rw [← HeldLexer.mem_inLexer] at hheld
  simp only [twoTexts, List.mem_cons, List.not_mem_nil, or_false] at hholder hentry
  rcases hholder with rfl | rfl | rfl
  · have hhandle := SubLexer.borrowed.inj (congrArg HeldLexer.sub (List.mem_singleton.mp hheld))
    rcases hentry with rfl | rfl | rfl
    all_goals cases hhandle
  · exact absurd hheld List.not_mem_nil
  · exact absurd hheld List.not_mem_nil

/-- The second lexer for plain text is redundant. The object in the body is highlighted as JSON whether
or not that lexer is listed. -/
theorem second_text_inert :
    irredundant (KeptLexer.twoTexts.map KeptLexer.lexer) KeptLexer.twoTexts =
      KeptLexer.twoTexts.take 2 ∧
    (highlight 64 (.ofTables #[]) (Host.lendingJson.without [⟨0⟩, ⟨1⟩, ⟨2⟩]) {} .insertedObject
        (KeptLexer.twoTexts.map KeptLexer.lexer)).map
        (fun highlighted => highlighted.outcome.toOption.map
          (fun calls => calls.contains (.startLexing "Json"))) = some (some true) ∧
    RedundantEntriesInert 64 (.ofTables #[]) (Host.lendingJson.without [⟨0⟩, ⟨1⟩, ⟨2⟩])
      (Host.lendingJson.without [⟨0⟩, ⟨1⟩]) {} .insertedObject
      (KeptLexer.twoTexts.map KeptLexer.lexer) := by
  refine ⟨rfl, by decide +kernel, ?_⟩
  exact (redundant_entries_inert 64 (.ofTables #[]) .lendingJson {} .insertedObject
    KeptLexer.twoTexts).2
    (Catalog.ofTables_readsOwnHandles #[]) KeptLexer.twoTexts_unlisted

end Highlighting
