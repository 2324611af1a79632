import Highlighting.Proofs.Registry.Interpreters

/-! Guessing the language of a source. A shebang line that names an interpreter of a listed language
decides. Otherwise the languages give scores to the text behind that line, and the guess is the first of
those with the highest score, if that is above zero; so a language that is not the guess can be taken off
the list, and one with no higher score can be put at its end. -/
namespace Highlighting

/-- The first of the languages with the highest score, where that score is above zero. -/
inductive Leads (score : LanguageId → Int) (languages : List LanguageId) (id : LanguageId) : Prop
  | intro (front back : List LanguageId) (hsplit : languages = front ++ id :: back)
      (hpositive : 0 < score id) (hfront : ∀ other ∈ front, score other < score id)
      (hback : ∀ other ∈ back, score other ≤ score id)

section Scores

variable {score : LanguageId → Int} {languages front back : List LanguageId} {id other : LanguageId}

theorem Leads.mem (h : Leads score languages id) : id ∈ languages := by
  obtain ⟨front, back, rfl, -, -, -⟩ := h
  exact List.mem_append_right front List.mem_cons_self

theorem Leads.positive (h : Leads score languages id) : 0 < score id := by
  obtain ⟨-, -, -, hpositive, -, -⟩ := h
  exact hpositive

theorem Leads.highest (h : Leads score languages id) : ∀ other ∈ languages, score other ≤ score id := by
  obtain ⟨front, back, rfl, -, hfront, hback⟩ := h
  intro other hother
  rcases List.mem_append.mp hother with hbefore | hrest
  · exact Int.le_of_lt (hfront other hbefore)
  · rcases List.mem_cons.mp hrest with rfl | hbehind
    · exact Int.le_refl _
    · exact hback other hbehind

theorem Leads.unique (hid : Leads score languages id) (hother : Leads score languages other) :
    id = other := by
  have hle := hid.highest other hother.mem
  have hge := hother.highest id hid.mem
  obtain ⟨front, back, rfl, -, hfront, -⟩ := hid
  obtain ⟨front', back', hsplit, -, hfront', -⟩ := hother
  -- Of two that score the same, neither stands in front of the other.
  rcases List.append_eq_append_iff.mp hsplit with ⟨between, rfl, hrest⟩ | ⟨between, rfl, hrest⟩
  · cases between with
    | nil => exact (List.cons.inj hrest).1
    | cons first between =>
      obtain ⟨rfl, -⟩ := List.cons.inj hrest
      have hless := hfront' id (List.mem_append_right front List.mem_cons_self)
      omega
  · cases between with
    | nil => exact (List.cons.inj hrest).1.symm
    | cons first between =>
      obtain ⟨rfl, -⟩ := List.cons.inj hrest
      have hless := hfront other (List.mem_append_right front' List.mem_cons_self)
      omega

/-- A language that is put at the end takes the lead only with a higher score. -/
theorem Leads.append (h : Leads score languages id) (hless : score other ≤ score id) :
    Leads score (languages ++ [other]) id := by
  obtain ⟨front, back, rfl, hpositive, hfront, hback⟩ := h
  refine ⟨front, back ++ [other], ?_, hpositive, hfront, ?_⟩
  · rw [List.append_assoc, List.cons_append]
  · intro another hmem
    rcases List.mem_append.mp hmem with hold | hnew
    · exact hback another hold
    · rw [List.mem_singleton.mp hnew]
      exact hless

theorem Leads.remove (h : Leads score (front ++ other :: back) id) (hother : other ≠ id) :
    Leads score (front ++ back) id := by
  obtain ⟨before, behind, hsplit, hpositive, hbefore, hbehind⟩ := h
  rcases List.append_eq_append_iff.mp hsplit with ⟨between, rfl, hrest⟩ | ⟨between, rfl, hrest⟩
  · cases between with
    | nil => exact absurd (List.cons.inj hrest).1 hother
    | cons first between =>
      obtain ⟨rfl, rfl⟩ := List.cons.inj hrest
      refine ⟨front ++ between, behind, (List.append_assoc ..).symm, hpositive, ?_, hbehind⟩
      intro another hmem
      apply hbefore another
      rcases List.mem_append.mp hmem with hfront | hbetween
      · exact List.mem_append_left _ hfront
      · exact List.mem_append_right _ (List.mem_cons_of_mem _ hbetween)
  · cases between with
    | nil => exact absurd (List.cons.inj hrest).1.symm hother
    | cons first between =>
      obtain ⟨rfl, rfl⟩ := List.cons.inj hrest
      refine ⟨before, between ++ back, by rw [List.append_assoc, List.cons_append], hpositive,
        hbefore, ?_⟩
      intro another hmem
      apply hbehind another
      rcases List.mem_append.mp hmem with hbetween | hback
      · exact List.mem_append_left _ hbetween
      · exact List.mem_append_right _ (List.mem_cons_of_mem _ hback)

end Scores

namespace LexerRegistry

variable {catalog : Catalog} {registry : LexerRegistry} {input source : Bytes}
  {seen rest : List LanguageId} {best? : Option (LanguageId × Int)} {id : LanguageId}

def score (catalog : Catalog) (input : Bytes) (id : LanguageId) : Int :=
  (catalog.language id).grammar.analyse input

inductive Best (catalog : Catalog) (input : Bytes) (seen : List LanguageId) :
    Option (LanguageId × Int) → Prop
  | nothing (hnothing : ∀ id ∈ seen, score catalog input id ≤ 0) : Best catalog input seen none
  | leader {id : LanguageId} (hleads : Leads (score catalog input) seen id) :
      Best catalog input seen (some (id, score catalog input id))

theorem Best.overtaken (hpositive : 0 < score catalog input id)
    (hseen : ∀ other ∈ seen, score catalog input other < score catalog input id) :
    Best catalog input (seen ++ [id]) (some (id, score catalog input id)) :=
  .leader ⟨seen, [], rfl, hpositive, hseen, List.forall_mem_nil _⟩

theorem Best.next (h : Best catalog input seen best?) (id : LanguageId) :
    Best catalog input (seen ++ [id]) (better catalog input best? id) := by
  cases h with
  | nothing hnothing =>
    by_cases hhigher : 0 < score catalog input id
    · have hstep : better catalog input none id = some (id, score catalog input id) := if_pos hhigher
      rw [hstep]
      apply Best.overtaken hhigher
      intro other hother
      have hless := hnothing other hother
      omega
    · have hstep : better catalog input none id = none := if_neg hhigher
      rw [hstep]
      apply Best.nothing
      intro other hother
      rcases List.mem_append.mp hother with hold | hnew
      · exact hnothing other hold
      · rw [List.mem_singleton.mp hnew]
        omega
  | @leader first hleads =>
    by_cases hhigher : score catalog input first < score catalog input id
    · have hstep : better catalog input (some (first, score catalog input first)) id =
          some (id, score catalog input id) := if_pos hhigher
      have hpositive := hleads.positive
      rw [hstep]
      apply Best.overtaken (by omega)
      intro other hother
      have hless := hleads.highest other hother
      omega
    · have hstep : better catalog input (some (first, score catalog input first)) id =
          some (first, score catalog input first) := if_neg hhigher
      rw [hstep]
      exact .leader (hleads.append (by omega))

theorem Best.foldl (h : Best catalog input seen best?) (rest : List LanguageId) :
    Best catalog input (seen ++ rest) (rest.foldl (better catalog input) best?) := by
  induction rest generalizing seen best? with
  | nil =>
    rw [List.append_nil]
    exact h
  | cons id rest ih =>
    have hnext := ih (h.next id)
    rw [List.append_assoc] at hnext
    exact hnext

/-- The search ends with the leader of all languages, or with nothing if no score is above zero. -/
theorem bestScoring?_cases (catalog : Catalog) (registry : LexerRegistry) (input : Bytes) :
    registry.bestScoring? catalog input = none ∧
        (∀ id ∈ registry.languages, score catalog input id ≤ 0) ∨
      ∃ id, registry.bestScoring? catalog input = some id ∧
        Leads (score catalog input) registry.languages id := by
  have hbest : Best catalog input registry.languages
      (registry.languages.foldl (better catalog input) none) :=
    Best.foldl (.nothing (List.forall_mem_nil _)) registry.languages
  unfold bestScoring?
  generalize registry.languages.foldl (better catalog input) none = best? at hbest
  cases hbest with
  | nothing hnothing => exact .inl ⟨rfl, hnothing⟩
  | leader hleads => exact .inr ⟨_, rfl, hleads⟩

theorem bestScoring?_eq_some_iff :
    registry.bestScoring? catalog input = some id ↔
      Leads (score catalog input) registry.languages id := by
  rcases bestScoring?_cases catalog registry input with ⟨hnone, hnothing⟩ | ⟨first, hsome, hleads⟩
  · rw [hnone]
    refine iff_of_false nofun ?_
    intro hleads
    have hpositive := hleads.positive
    have hless := hnothing id hleads.mem
    omega
  · rw [hsome]
    constructor
    · intro hsame
      rw [← Option.some.inj hsame]
      exact hleads
    · intro hother
      rw [hleads.unique hother]

theorem bestScoring?_eq_none_iff :
    registry.bestScoring? catalog input = none ↔
      ∀ id ∈ registry.languages, score catalog input id ≤ 0 := by
  rcases bestScoring?_cases catalog registry input with ⟨hnone, hnothing⟩ | ⟨first, hsome, hleads⟩
  · exact iff_of_true hnone hnothing
  · rw [hsome]
    refine iff_of_false nofun ?_
    intro hnothing
    have hpositive := hleads.positive
    have hless := hnothing first hleads.mem
    omega

theorem bestScoring?_congr {other : LexerRegistry}
    (hleads : ∀ id, Leads (score catalog input) registry.languages id →
      Leads (score catalog input) other.languages id)
    (hnothing : (∀ id ∈ registry.languages, score catalog input id ≤ 0) →
      ∀ id ∈ other.languages, score catalog input id ≤ 0) :
    other.bestScoring? catalog input = registry.bestScoring? catalog input := by
  rcases bestScoring?_cases catalog registry input with ⟨hnone, hless⟩ | ⟨id, hsome, hfirst⟩
  · rw [hnone]
    exact bestScoring?_eq_none_iff.mpr (hnothing hless)
  · rw [hsome]
    exact bestScoring?_eq_some_iff.mpr (hleads id hfirst)

theorem guess?_of_unnamed (hunnamed : ∀ id ∈ registry.languages, ¬ (catalog.language id).NamedBy source) :
    registry.guess? catalog source = registry.bestScoring? catalog source.body := by
  have hnone : source.shebangLine?.bind (registry.forLine? catalog) = none := by
    rw [Option.bind_eq_none_iff]
    intro line hline
    rw [forLine?, List.findSome?_eq_none_iff]
    intro program hprogram
    rw [forInterpreter?_eq_none_iff]
    rintro ⟨id, hid, hinterprets⟩
    exact hunnamed id hid ⟨line, hline, program, hprogram, hinterprets⟩
  rw [guess?_eq, hnone, Option.none_or]

end LexerRegistry

open LexerRegistry (score)

/-- Where the shebang line names no interpreter of a listed language, the guess is the first of the
languages with the highest score for the rest of the source. -/
theorem guess_leftmost_best (catalog : Catalog) (registry : LexerRegistry) (source : Bytes)
    (hunnamed : ∀ id ∈ registry.languages, ¬ (catalog.language id).NamedBy source) :
    (registry.guess? catalog source = none ↔
      ∀ id ∈ registry.languages, score catalog source.body id ≤ 0) ∧
    (∀ id, registry.guess? catalog source = some id ↔
      Leads (score catalog source.body) registry.languages id) ∧
    (∀ front other back, registry.languages = front ++ other :: back →
      registry.guess? catalog source ≠ some other →
      (⟨front ++ back⟩ : LexerRegistry).guess? catalog source = registry.guess? catalog source) ∧
    ∀ other, ¬ (catalog.language other).NamedBy source →
      (∀ id, registry.guess? catalog source = some id →
        score catalog source.body other ≤ score catalog source.body id) →
      (registry.guess? catalog source = none → score catalog source.body other ≤ 0) →
      (⟨registry.languages ++ [other]⟩ : LexerRegistry).guess? catalog source =
        registry.guess? catalog source := by
  rw [LexerRegistry.guess?_of_unnamed hunnamed]
  refine ⟨LexerRegistry.bestScoring?_eq_none_iff, fun id => LexerRegistry.bestScoring?_eq_some_iff,
    ?_, ?_⟩
  · intro front other back hsplit hother
    have hsub : ∀ id ∈ front ++ back, id ∈ registry.languages := by
      intro id hid
      rw [hsplit]
      exact List.Sublist.mem hid ((List.sublist_cons_self other back).append_left front)
    rw [LexerRegistry.guess?_of_unnamed (fun id hid => hunnamed id (hsub id hid))]
    apply LexerRegistry.bestScoring?_congr
    · intro id hleads
      rw [ne_eq, LexerRegistry.bestScoring?_eq_some_iff] at hother
      have hdistinct : other ≠ id := by
        rintro rfl
        exact hother hleads
      rw [hsplit] at hleads
      exact hleads.remove hdistinct
    · intro hnothing id hid
      exact hnothing id (hsub id hid)
  · intro other hother hless hnothing
    have hnone : ∀ id ∈ registry.languages ++ [other], ¬ (catalog.language id).NamedBy source := by
      intro id hid
      rcases List.mem_append.mp hid with hold | hnew
      · exact hunnamed id hold
      · rw [List.mem_singleton.mp hnew]
        exact hother
    rw [LexerRegistry.guess?_of_unnamed hnone]
    apply LexerRegistry.bestScoring?_congr
    · intro id hleads
      exact hleads.append (hless id (LexerRegistry.bestScoring?_eq_some_iff.mpr hleads))
    · intro hzero id hid
      rcases List.mem_append.mp hid with hold | hnew
      · exact hzero id hold
      · rw [List.mem_singleton.mp hnew]
        exact hnothing (LexerRegistry.bestScoring?_eq_none_iff.mpr hzero)

/-- Of two languages with the same score the first one is guessed, and a shebang line that names neither
is not scored. -/
theorem guess_leftmost_best_tied :
    (∀ id ∈ [LanguageId.custom 2, .custom 0, .custom 1], ¬ (Catalog.scripts.language id).NamedBy
      (Bytes.ofText "\ufeff#!/usr/bin/env -S VAR=1 nothing\r\nbody")) ∧
    (⟨[.custom 2, .custom 0, .custom 1]⟩ : LexerRegistry).guess? .scripts
      (Bytes.ofText "\ufeff#!/usr/bin/env -S VAR=1 nothing\r\nbody") = some (.custom 0) := by
  have hunnamed : ∀ id ∈ [LanguageId.custom 2, .custom 0, .custom 1],
      ¬ (Catalog.scripts.language id).NamedBy
        (Bytes.ofText "\ufeff#!/usr/bin/env -S VAR=1 nothing\r\nbody") := by decide +kernel
  refine ⟨hunnamed, ((guess_leftmost_best .scripts _ _ hunnamed).2.1 (.custom 0)).mpr ?_⟩
  exact ⟨[.custom 2], [.custom 1], rfl, by decide +kernel, by decide +kernel, by decide +kernel⟩

/-- A language that is put at the end of the list is guessed in spite of its score if the shebang line
names its interpreter. -/
theorem appended_language_named :
    ¬ ∀ (catalog : Catalog) (registry : LexerRegistry) (source : Bytes),
      (∀ id ∈ registry.languages, ¬ (catalog.language id).NamedBy source) →
      ∀ other,
        (∀ id, registry.guess? catalog source = some id →
          score catalog source.body other ≤ score catalog source.body id) →
        (registry.guess? catalog source = none → score catalog source.body other ≤ 0) →
        (⟨registry.languages ++ [other]⟩ : LexerRegistry).guess? catalog source =
          registry.guess? catalog source := by
  intro hall
  have hguess : (⟨[.custom 0]⟩ : LexerRegistry).guess? .scripts (Bytes.ofText "#!/bin/late\nbody") =
      some (.custom 0) := by decide +kernel
  have hsame := hall .scripts ⟨[.custom 0]⟩ (Bytes.ofText "#!/bin/late\nbody") (by decide +kernel)
    (.custom 2) ?_ ?_
  · revert hsame
    decide +kernel
  · intro id hid
    rw [hguess] at hid
    cases hid
    decide
  · intro hnone
    rw [hguess] at hnone
    cases hnone

end Highlighting
