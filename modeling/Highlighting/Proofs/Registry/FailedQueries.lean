import Highlighting.Grammar.RuleTable
import Highlighting.Proofs.Options.Slots
import Highlighting.Registry.Create

/-! What a query that fails leaves behind. The lexer is made first and its options are set one after the
other, so by the time an option is refused there is the lexer, and one more for every option set before
that holds a lexer. All of them are dropped, and none is finalised. -/
namespace Highlighting

def OptionDeclaration.makes? (catalog : Catalog) (declarations : List OptionDeclaration)
    (option : String × String) : Option LanguageId :=
  (declarations.find? (·.name == option.1)).bind (fun declaration =>
    if declaration.kind = .lexer then LexerRegistry.builtin.byName? catalog option.2 else none)

/-- Why an option is refused: it is not declared, or the text denotes no value of it. -/
def OptionDeclaration.refusal? (catalog : Catalog) (declarations : List OptionDeclaration)
    (option : String × String) : Option OptionError :=
  match declarations.find? (·.name == option.1) with
  | none => some (.invalidOption option.1)
  | some declaration =>
    match declaration.read catalog option.2 .allowed with
    | .error error => some error
    | .ok _ => none

section Options

variable {catalog : Catalog} {declaration : OptionDeclaration} {name text : String}
  {value : OptionValue Lexer} {error : OptionError}

/-- A text is read as a value of the declared type, and a lexer is made if that is the type of lexers. -/
theorem OptionDeclaration.read_eq_ok (hread : declaration.read catalog text .allowed = .ok value) :
    value.kind = declaration.kind ∧
      value.madeLexers =
        (if declaration.kind = .lexer then LexerRegistry.builtin.byName? catalog text
          else none).toList := by
  unfold OptionDeclaration.read at hread
  dsimp only at hread
  split at hread
  case h_1 hkind | h_2 hkind | h_4 hkind =>
    split at hread
    · cases hread
      rw [hkind]
      exact ⟨rfl, rfl⟩
    · cases hread
  case h_3 hkind =>
    cases hread
    rw [hkind]
    exact ⟨rfl, rfl⟩
  case h_5 hkind =>
    split at hread
    case h_1 id hid =>
      cases hread
      rw [hkind, if_pos rfl, hid]
      exact ⟨rfl, rfl⟩
    case h_2 => cases hread

variable {declarations : List OptionDeclaration} {lexer configured : Lexer}
  {previous : OptionValue Lexer} {lifetimes : Lifetimes}

theorem Lexer.setOptionText_eq_error (hlexer : lexer.options.Conforms declarations)
    (hset : lexer.setOptionText catalog none name text = .error error) :
    OptionDeclaration.refusal? catalog declarations (name, text) = some error := by
  rw [OptionDeclaration.refusal?, ← hlexer.declared, ← OptionSet.declaration?_eq]
  unfold setOptionText at hset
  cases hdeclared : lexer.options.declaration? name with
  | none =>
    rw [hdeclared] at hset
    cases hset
    rfl
  | some declaration =>
    rw [hdeclared] at hset
    dsimp only at hset ⊢
    cases hread : declaration.read catalog text .allowed with
    | error refused =>
      rw [hread] at hset
      cases hset
      rfl
    | ok value =>
      rw [hread] at hset
      obtain ⟨hkind, -⟩ := OptionDeclaration.read_eq_ok hread
      obtain ⟨slot, hslot, rfl⟩ := Option.map_eq_some_iff.mp hdeclared
      have hother : refersTo none value = false := by
        unfold refersTo
        split <;> rfl
      unfold setOption OptionSet.replace at hset
      simp only [hslot, hkind, if_true, hother] at hset
      cases hset

theorem Lexer.setOptionText_makes (hlexer : lexer.options.Conforms declarations)
    (hset : lexer.setOptionText catalog none name text = .ok (previous, configured)) :
    OptionDeclaration.refusal? catalog declarations (name, text) = none ∧
      configured.options.Conforms declarations ∧
      ((configured.options.get? name).map OptionValue.madeLexers).getD [] =
        (OptionDeclaration.makes? catalog declarations (name, text)).toList := by
  obtain ⟨value, ⟨declaration, hdeclared, hread⟩, hvalue⟩ := setOptionText_eq_ok hset
  obtain ⟨options, rfl, hreplaced⟩ := setOption_eq_ok hvalue
  obtain ⟨-, hmade⟩ := OptionDeclaration.read_eq_ok hread
  rw [OptionSet.declaration?_eq, hlexer.declared] at hdeclared
  refine ⟨?_, hreplaced.conforms hlexer, ?_⟩
  · simp only [OptionDeclaration.refusal?, hdeclared, hread]
  · rw [hreplaced.get?_eq, OptionDeclaration.makes?, hdeclared]
    exact hmade

theorem Lifetimes.foldl_create (ids : List LanguageId) (lifetimes : Lifetimes) :
    ids.foldl Lifetimes.create lifetimes =
      ⟨lifetimes.created ++ ids.toArray, lifetimes.finalized⟩ := by
  induction ids generalizing lifetimes with
  | nil => simp
  | cons id ids ih =>
    rw [List.foldl_cons, ih]
    simp [Lifetimes.create]

/-- Options are set up to the first that is refused. -/
theorem Lexer.configure_eq_error {options : List (String × String)}
    (hlexer : lexer.options.Conforms declarations)
    (hfailed : (lexer.configure catalog lifetimes options).result = .error error) :
    ∃ before option after, options = before ++ option :: after ∧
      (∀ granted ∈ before, OptionDeclaration.refusal? catalog declarations granted = none) ∧
      OptionDeclaration.refusal? catalog declarations option = some error ∧
      (lexer.configure catalog lifetimes options).lifetimes =
        (before.filterMap (OptionDeclaration.makes? catalog declarations)).foldl
          Lifetimes.create lifetimes := by
  induction options generalizing lexer lifetimes with
  | nil => cases hfailed
  | cons option rest ih =>
    rw [configure] at hfailed ⊢
    cases hset : lexer.setOptionText catalog none option.1 option.2 with
    | error refused =>
      rw [hset] at hfailed
      cases hfailed
      exact ⟨[], option, rest, rfl, nofun, setOptionText_eq_error hlexer hset, rfl⟩
    | ok answer =>
      obtain ⟨previous, configured⟩ := answer
      rw [hset] at hfailed
      obtain ⟨hgranted, hconfigured, hmade⟩ := setOptionText_makes hlexer hset
      dsimp only at hfailed ⊢
      obtain ⟨before, refused, after, rfl, hbefore, hrefused, hlifetimes⟩ := ih hconfigured hfailed
      refine ⟨option :: before, refused, after, rfl, ?_, hrefused, ?_⟩
      · exact List.forall_mem_cons.mpr ⟨hgranted, hbefore⟩
      · rw [hlifetimes, hmade]
        cases hmakes : OptionDeclaration.makes? catalog declarations option with
        | none =>
          rw [List.filterMap_cons_none hmakes]
          rfl
        | some id =>
          rw [List.filterMap_cons_some hmakes]
          rfl

end Options

/-- A query fails because no lexer has the name, and then none was made; or because an option is refused,
and then the lexer and those made for the options before it were made. Nothing is ever finalised, so
what was made and what was finalised agree if and only if no lexer has the name. -/
theorem failed_query_finalizes_nothing (catalog : Catalog) (registry : LexerRegistry) (text : String)
    (error : OptionError) (hfailed : (registry.createFromQuery catalog text).result = .error error) :
    (registry.byName? catalog (Query.parse text).name = none ∧
        error = .unknownLexer (Query.parse text).name ∧
        (registry.createFromQuery catalog text).lifetimes = {} ∨
      ∃ id before option after,
        registry.byName? catalog (Query.parse text).name = some id ∧
        (Query.parse text).pairs = before ++ option :: after ∧
        (∀ granted ∈ before,
          OptionDeclaration.refusal? catalog (catalog.language id).options granted = none) ∧
        OptionDeclaration.refusal? catalog (catalog.language id).options option = some error ∧
        (registry.createFromQuery catalog text).lifetimes.created.toList =
          id :: before.filterMap (OptionDeclaration.makes? catalog (catalog.language id).options) ∧
        (registry.createFromQuery catalog text).lifetimes.finalized = #[]) ∧
    ((registry.createFromQuery catalog text).lifetimes.finalized.toList.Perm
        (registry.createFromQuery catalog text).lifetimes.created.toList ↔
      registry.byName? catalog (Query.parse text).name = none) := by
  unfold LexerRegistry.createFromQuery at hfailed ⊢
  dsimp only at hfailed ⊢
  cases hname : registry.byName? catalog (Query.parse text).name with
  | none =>
    rw [hname] at hfailed
    cases hfailed
    exact ⟨.inl ⟨rfl, rfl, rfl⟩, iff_of_true .rfl rfl⟩
  | some id =>
    rw [hname] at hfailed
    dsimp only at hfailed ⊢
    obtain ⟨before, option, after, hpairs, hgranted, hrefused, hlifetimes⟩ :=
      Lexer.configure_eq_error (Lexer.create_conforms catalog id) hfailed
    rw [hlifetimes, Lifetimes.foldl_create]
    refine ⟨.inr ⟨id, before, option, after, rfl, hpairs, hgranted, hrefused, ?_, rfl⟩, ?_⟩
    · simp [Lifetimes.create]
    · -- The lexer itself was made, so the two cannot agree.
      refine iff_of_false ?_ nofun
      intro hperm
      have hlength := hperm.length_eq
      simp [Lifetimes.create] at hlength

/-- The content lexer was made when the second option is refused. -/
theorem refused_option_finalizes_nothing :
    ∃ error,
      (LexerRegistry.builtin.createFromQuery (.ofTables #[]) "diff?content=text&none").result =
        .error error ∧
      ¬ (LexerRegistry.builtin.createFromQuery (.ofTables #[])
          "diff?content=text&none").lifetimes.finalized.toList.Perm
        (LexerRegistry.builtin.createFromQuery (.ofTables #[])
          "diff?content=text&none").lifetimes.created.toList := by
  have hfailed : (LexerRegistry.builtin.createFromQuery (.ofTables #[])
      "diff?content=text&none").result = .error (.invalidOption "none") := by
    rfl
  have hknown : LexerRegistry.builtin.byName? (.ofTables #[])
      (Query.parse "diff?content=text&none").name = some .diff := by
    decide +kernel
  refine ⟨_, hfailed, ?_⟩
  rw [(failed_query_finalizes_nothing _ _ _ _ hfailed).2, hknown]
  exact nofun

/-- A query may fail and leave lexers behind that are never finalised. -/
theorem failed_query_drops_lexers :
    ¬ ∀ (catalog : Catalog) (registry : LexerRegistry) (text : String) (error : OptionError),
      (registry.createFromQuery catalog text).result = .error error →
        (registry.createFromQuery catalog text).lifetimes.finalized.toList.Perm
          (registry.createFromQuery catalog text).lifetimes.created.toList := by
  intro hall
  have hperm := hall (.ofTables #[]) .builtin "diff?content=text&none" (.invalidOption "none") rfl
  revert hperm
  decide +kernel

end Highlighting
