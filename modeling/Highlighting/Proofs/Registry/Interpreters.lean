import Highlighting.Proofs.Registry.ShebangLines

/-! The interpreter that a shebang line names. The line launches one program, directly or through `env`.
Its arguments have no influence on the guess, with one exception: where `env` launches a program that no
language knows, they are taken for programs themselves. -/
namespace Highlighting

def Language.Interprets (language : Language) (program : List Char) : Prop :=
  ∃ glob ∈ language.interpreters, globMatches glob (baseName program) = true

instance (language : Language) (program : List Char) : Decidable (language.Interprets program) :=
  inferInstanceAs (Decidable (∃ glob ∈ language.interpreters, globMatches glob (baseName program) = true))

def Language.NamedBy (language : Language) (source : Bytes) : Prop :=
  ∃ line ∈ source.shebangLine?, ∃ program ∈ interpreterCandidates (Utf8.decode line.toArray).toList,
    language.Interprets program

instance (language : Language) (source : Bytes) : Decidable (language.NamedBy source) :=
  inferInstanceAs (Decidable (∃ line ∈ source.shebangLine?, ∃ program ∈
    interpreterCandidates (Utf8.decode line.toArray).toList, language.Interprets program))

def IsOperand (word : List Char) : Prop :=
  word.head? ≠ some '-' ∧ '=' ∉ word

instance (word : List Char) : Decidable (IsOperand word) :=
  inferInstanceAs (Decidable (word.head? ≠ some '-' ∧ '=' ∉ word))

/-- The words up to the program that a line launches: none where the first word is the program, and `env`
with its flags and assignments where that is to find the program. -/
inductive Launches : List (List Char) → List Char → Prop
  | directly {program : List Char} (hprogram : baseName program ≠ "env".toList) : Launches [] program
  | throughEnv {env program : List Char} {skipped : List (List Char)}
      (henv : baseName env = "env".toList) (hskipped : ∀ word ∈ skipped, ¬ IsOperand word)
      (hprogram : IsOperand program) : Launches (env :: skipped) program

structure Commands (source : Bytes) (front : List (List Char)) (program : List Char)
    (arguments : List (List Char)) : Prop where
  launches : Launches front program
  words : source.shebangLine?.map shebangWords = some (front ++ program :: arguments)

variable {catalog : Catalog} {registry : LexerRegistry} {source source' : Bytes} {line : List UInt8}
  {front arguments arguments' : List (List Char)} {program : List Char}

theorem operand_iff (word : List Char) :
    (word.head? != some '-' && !word.contains '=') = true ↔ IsOperand word := by
  simp [IsOperand]

/-- The programs that a line may mean. Behind `env` its arguments are among them. -/
theorem interpreterCandidates_eq (hlaunches : Launches front program) {text : List Char}
    (hwords : Text.words text = front ++ program :: arguments) :
    interpreterCandidates text =
      program :: if front = [] then [] else arguments.filter (fun word => decide (IsOperand word)) := by
  have hfilter : (fun word : List Char => word.head? != some '-' && !word.contains '=') =
      fun word => decide (IsOperand word) := by
    funext word
    rw [Bool.eq_iff_iff, operand_iff, decide_eq_true_iff]
  rw [interpreterCandidates, hwords]
  cases hlaunches with
  | directly hprogram => exact if_neg hprogram
  | @throughEnv env program skipped henv hskipped hprogram =>
    have hnone : skipped.filter (fun word => decide (IsOperand word)) = [] := by
      simpa using hskipped
    have hfirst : decide (IsOperand program) = true := decide_eq_true hprogram
    change (if baseName env = "env".toList then (skipped ++ program :: arguments).filter _ else _) = _
    rw [if_pos henv, hfilter, List.filter_append, hnone, List.nil_append,
      List.filter_cons, if_pos hfirst, if_neg (List.cons_ne_nil _ _)]

namespace LexerRegistry

def Knows (catalog : Catalog) (registry : LexerRegistry) (program : List Char) : Prop :=
  ∃ id ∈ registry.languages, (catalog.language id).Interprets program

theorem forInterpreter?_eq_none_iff :
    registry.forInterpreter? catalog program = none ↔ ¬ registry.Knows catalog program := by
  rw [forInterpreter?, find?, List.find?_eq_none, Knows]
  simp [Language.Interprets]

/-- A line with a program is decided by it, unless `env` launches it and no language knows it. -/
theorem forLine?_eq (hlaunches : Launches front program)
    (hwords : shebangWords line = front ++ program :: arguments)
    (hdecides : front = [] ∨ registry.Knows catalog program ∨
      ∀ word ∈ arguments, IsOperand word → ¬ registry.Knows catalog word) :
    registry.forLine? catalog line = registry.forInterpreter? catalog program := by
  rw [forLine?, interpreterCandidates_eq hlaunches hwords, List.findSome?_cons]
  cases hprogram : registry.forInterpreter? catalog program with
  | some id => rfl
  | none =>
    dsimp only
    apply List.findSome?_eq_none_iff.mpr
    intro word hword
    rw [forInterpreter?_eq_none_iff] at hprogram
    rcases hdecides with rfl | hknown | hunknown
    · exact absurd hword List.not_mem_nil
    · exact absurd hknown hprogram
    · rw [forInterpreter?_eq_none_iff]
      split at hword
      case isTrue => exact absurd hword List.not_mem_nil
      case isFalse =>
        obtain ⟨hargument, hoperand⟩ := List.mem_filter.mp hword
        exact hunknown word hargument (of_decide_eq_true hoperand)

theorem guess?_of_commands (hcommands : Commands source front program arguments)
    (hdecides : front = [] ∨ registry.Knows catalog program ∨
      ∀ word ∈ arguments, IsOperand word → ¬ registry.Knows catalog word) :
    registry.guess? catalog source =
      (registry.forInterpreter? catalog program).or (registry.bestScoring? catalog source.body) := by
  obtain ⟨line, hline, hwords⟩ := Option.map_eq_some_iff.mp hcommands.words
  rw [guess?_eq, hline, Option.bind_some, forLine?_eq hcommands.launches hwords hdecides]

end LexerRegistry

/-- Two sources with the same text behind their shebang lines, which launch the same program, are taken
for the same language. The arguments may be different, unless `env` launches a program that is not known
and one of them is known. -/
theorem arguments_do_not_decide (hcommands : Commands source front program arguments)
    (hcommands' : Commands source' front program arguments') (hbody : source.body = source'.body)
    (hdecides : front = [] ∨ registry.Knows catalog program ∨
      ∀ word ∈ arguments ++ arguments', IsOperand word → ¬ registry.Knows catalog word) :
    registry.guess? catalog source = registry.guess? catalog source' := by
  have hpart (words : List (List Char)) (hwords : ∀ word ∈ words, word ∈ arguments ++ arguments') :
      front = [] ∨ registry.Knows catalog program ∨
        ∀ word ∈ words, IsOperand word → ¬ registry.Knows catalog word :=
    hdecides.imp_right (Or.imp_right (fun hunknown word hword => hunknown word (hwords word hword)))
  rw [LexerRegistry.guess?_of_commands hcommands
      (hpart arguments (fun _ hword => List.mem_append_left _ hword)),
    LexerRegistry.guess?_of_commands hcommands'
      (hpart arguments' (fun _ hword => List.mem_append_right _ hword)), hbody]

def Catalog.scripts : Catalog where
  custom number :=
    { name := "Script"
      interpreters := [if number = 0 then "first*" else if number = 1 then "second" else "late"]
      grammar :=
        { scan := fun _ _ cx => (.done, cx)
          analyse := fun _ => if number < 2 then 10 else 0 } }

/-- Behind a known program an argument does not matter that is itself the name of a known one. -/
theorem known_program_decides :
    (⟨[.custom 0, .custom 1]⟩ : LexerRegistry).Knows .scripts "first-3".toList ∧
      (⟨[.custom 0, .custom 1]⟩ : LexerRegistry).guess? .scripts
          (Bytes.ofText "\ufeff#!/usr/bin/env -S VAR=1 second -x\nbody") =
        (⟨[.custom 0, .custom 1]⟩ : LexerRegistry).guess? .scripts
          (Bytes.ofText "#! /usr/bin/env -S\tVAR=1 second first-3 --y=2\r\nbody") := by
  have hlaunches : Launches ["/usr/bin/env".toList, "-S".toList, "VAR=1".toList] "second".toList :=
    .throughEnv (by decide) (by decide) (by decide)
  refine ⟨⟨.custom 0, by decide, "first*", by decide, by decide +kernel⟩, ?_⟩
  apply arguments_do_not_decide ⟨hlaunches, ?_⟩ ⟨hlaunches, ?_⟩ (by decide +kernel)
    (.inr (.inl ⟨.custom 1, by decide, "second", by decide, by decide +kernel⟩))
  · exact ["-x".toList]
  · exact ["first-3".toList, "--y=2".toList]
  · decide +kernel
  · decide +kernel

/-- Where `env` launches a program that no language knows, an argument can decide. -/
theorem argument_decides_behind_env :
    ¬ ∀ (catalog : Catalog) (registry : LexerRegistry) (source source' : Bytes)
      (front : List (List Char)) (program : List Char) (arguments arguments' : List (List Char)),
      Commands source front program arguments → Commands source' front program arguments' →
      source.body = source'.body →
      registry.guess? catalog source = registry.guess? catalog source' := by
  intro hall
  have hlaunches : Launches ["/usr/bin/env".toList] "unknown".toList :=
    .throughEnv (by decide) (by decide) (by decide)
  have hsame := hall .scripts ⟨[.custom 0, .custom 1]⟩ (Bytes.ofText "#!/usr/bin/env unknown\nbody")
    (Bytes.ofText "#!/usr/bin/env unknown second\nbody") ["/usr/bin/env".toList] "unknown".toList []
    ["second".toList] ⟨hlaunches, by decide +kernel⟩ ⟨hlaunches, by decide +kernel⟩ (by decide +kernel)
  revert hsame
  decide +kernel

end Highlighting
