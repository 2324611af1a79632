import Highlighting.Formatter

/-! What setting an option does to the slots of a lexer or a formatter. A call that is granted puts the
value into the first slot of the name and touches nothing else, so slots keep their number and order,
and each of them holds a value of its declared type for good. -/
namespace Highlighting

namespace OptionSet

variable {L : Type} {declarations : List OptionDeclaration} {before after : OptionSet L}
  {name : String} {previous value : OptionValue L}

/-- The slots are those declared, in their order, and each holds a value of its declared type. -/
structure Conforms (declarations : List OptionDeclaration) (options : OptionSet L) : Prop where
  declared : options.declarations = declarations
  typed : ∀ slot ∈ options.slots, slot.value.kind = slot.declaration.kind

/-- No slot holds a lexer. A slot for one may be declared and is then empty. -/
def Lexerless (options : OptionSet L) : Prop :=
  ∀ slot ∈ options.slots, slot.value.subLexer? = none

inductive Replaced (name : String) (previous value : OptionValue L) (before after : OptionSet L) : Prop
  | intro (front : List (OptionSlot L)) (slot : OptionSlot L) (back : List (OptionSlot L))
      (hbefore : before.slots = front ++ slot :: back)
      (hfirst : ∀ other ∈ front, other.declaration.name ≠ name)
      (hname : slot.declaration.name = name) (hprevious : slot.value = previous)
      (hkind : value.kind = slot.declaration.kind)
      (hafter : after.slots = front ++ { slot with value := value } :: back)

theorem declaration?_eq (options : OptionSet L) (name : String) :
    options.declaration? name = options.declarations.find? (·.name == name) := by
  rw [declaration?, slot?, declarations, List.find?_map]
  rfl

theorem ofDeclarations_conforms (declarations : List OptionDeclaration) :
    (ofDeclarations declarations : OptionSet L).Conforms declarations where
  declared := by simp [OptionSet.declarations, ofDeclarations, Function.comp_def]
  typed := by
    intro slot hslot
    obtain ⟨declaration, -, rfl⟩ := List.mem_map.mp hslot
    exact OptionValue.kind_ofDefault declaration.default

theorem ofDeclarations_lexerless (declarations : List OptionDeclaration) :
    (ofDeclarations declarations : OptionSet L).Lexerless := by
  intro slot hslot
  obtain ⟨declaration, -, rfl⟩ := List.mem_map.mp hslot
  cases declaration.default <;> rfl

theorem store_append {front back : List (OptionSlot L)} {slot : OptionSlot L}
    (hfirst : ∀ other ∈ front, other.declaration.name ≠ name) (hname : slot.declaration.name = name) :
    store name value (front ++ slot :: back) = front ++ { slot with value := value } :: back := by
  induction front with
  | nil => simp [store, hname]
  | cons other front ih =>
    obtain ⟨hother, hfront⟩ := List.forall_mem_cons.mp hfirst
    simp [store, hother, ih hfront]

theorem replace_eq_ok (hreplace : before.replace name value = .ok (previous, after)) :
    Replaced name previous value before after := by
  unfold replace at hreplace
  split at hreplace
  case h_1 => cases hreplace
  case h_2 slot hslot =>
    split at hreplace
    case isFalse => cases hreplace
    case isTrue hkind =>
      obtain ⟨rfl, rfl⟩ := Prod.mk.inj (Except.ok.inj hreplace)
      obtain ⟨hnamed, front, back, hsplit, hothers⟩ := List.find?_eq_some_iff_append.mp hslot
      have hname : slot.declaration.name = name := beq_iff_eq.mp hnamed
      have hfirst : ∀ other ∈ front, other.declaration.name ≠ name := by
        intro other hother
        simpa using hothers other hother
      refine ⟨front, slot, back, hsplit, hfirst, hname, rfl, hkind, ?_⟩
      rw [hsplit]
      exact store_append hfirst hname

/-- What holds of every slot holds of every slot afterwards if it holds of the one that was changed. -/
theorem Replaced.forall_slots {P : OptionSlot L → Prop} (h : Replaced name previous value before after)
    (hnew : ∀ declaration, value.kind = declaration.kind → P ⟨declaration, value⟩)
    (hbefore : ∀ slot ∈ before.slots, P slot) : ∀ slot ∈ after.slots, P slot := by
  obtain ⟨front, slot, back, hsplit, -, -, -, hkind, hafter⟩ := h
  rw [hsplit] at hbefore
  intro other hother
  rw [hafter] at hother
  rcases List.mem_append.mp hother with hfront | hrest
  · exact hbefore other (List.mem_append_left _ hfront)
  · rcases List.mem_cons.mp hrest with rfl | hback
    · exact hnew slot.declaration hkind
    · exact hbefore other (List.mem_append_right _ (List.mem_cons_of_mem slot hback))

theorem Replaced.conforms (h : Replaced name previous value before after)
    (hbefore : before.Conforms declarations) : after.Conforms declarations := by
  refine ⟨?_, h.forall_slots (fun _ hkind => hkind) hbefore.typed⟩
  obtain ⟨front, slot, back, hsplit, -, -, -, -, hafter⟩ := h
  rw [← hbefore.declared]
  simp only [OptionSet.declarations, hsplit, hafter, List.map_append, List.map_cons]

theorem Replaced.get?_eq (h : Replaced name previous value before after) :
    after.get? name = some value := by
  obtain ⟨front, slot, back, -, hfirst, hname, -, -, hafter⟩ := h
  have hskipped : front.find? (fun other => other.declaration.name == name) = none := by
    rw [List.find?_eq_none]
    intro other hother
    simpa using hfirst other hother
  rw [get?, slot?, hafter, List.find?_append, hskipped, Option.none_or,
    List.find?_cons_of_pos (by simpa using hname)]
  rfl

theorem Replaced.lexerless (h : Replaced name previous value before after)
    (hvalue : value.subLexer? = none) (hbefore : before.Lexerless) : after.Lexerless :=
  h.forall_slots (fun _ _ => hvalue) hbefore

end OptionSet

theorem OptionValue.subLexer?_of_kind {L : Type} {value : OptionValue L}
    (hkind : value.kind ≠ .lexer) : value.subLexer? = none := by
  cases value with
  | lexer => exact absurd rfl hkind
  | _ => rfl

/-- Where lexers are not allowed, no text denotes one. -/
theorem OptionDeclaration.read_forbidden {catalog : Catalog} {declaration : OptionDeclaration}
    {text : String} {value : OptionValue Lexer}
    (hread : declaration.read catalog text .forbidden = .ok value) : value.subLexer? = none := by
  unfold OptionDeclaration.read at hread
  dsimp only at hread
  split at hread
  case h_1 | h_2 | h_4 =>
    split at hread
    · cases hread
      rfl
    · cases hread
  case h_3 =>
    cases hread
    rfl
  case h_5 => cases hread

def OptionSet.Denotes (catalog : Catalog) (options : OptionSet Lexer) (name text : String)
    (lexers : LexerValues) (value : OptionValue Lexer) : Prop :=
  ∃ declaration, options.declaration? name = some declaration ∧
    declaration.read catalog text lexers = .ok value

namespace Lexer

variable {catalog : Catalog} {self? : Option LexerHandle} {lexer changed : Lexer}
  {name text : String} {previous value : OptionValue Lexer}

theorem setOption_eq_ok (hset : lexer.setOption self? name value = .ok (previous, changed)) :
    ∃ options, changed = { lexer with options := options } ∧
      lexer.options.Replaced name previous value options := by
  unfold setOption at hset
  split at hset
  case h_1 => cases hset
  case h_2 before options hreplace =>
    split at hset
    case isTrue => cases hset
    case isFalse =>
      obtain ⟨rfl, rfl⟩ := Prod.mk.inj (Except.ok.inj hset)
      exact ⟨options, rfl, OptionSet.replace_eq_ok hreplace⟩

theorem setOptionText_eq_ok
    (hset : lexer.setOptionText catalog self? name text = .ok (previous, changed)) :
    ∃ value, lexer.options.Denotes catalog name text .allowed value ∧
      lexer.setOption self? name value = .ok (previous, changed) := by
  unfold setOptionText at hset
  split at hset
  case h_1 => cases hset
  case h_2 declaration hdeclared =>
    split at hset
    case h_1 => cases hset
    case h_2 value hread => exact ⟨value, ⟨declaration, hdeclared, hread⟩, hset⟩

theorem create_conforms (catalog : Catalog) (id : LanguageId) :
    (Lexer.create catalog id).options.Conforms (catalog.language id).options :=
  OptionSet.ofDeclarations_conforms _

end Lexer

namespace Formatter

variable {catalog : Catalog} {host : Host} {formatter changed : Formatter}
  {name text : String} {previous value : OptionValue Lexer}

theorem setOption_eq_ok
    (hset : formatter.setOption catalog host name value = .ok (previous, changed)) :
    ∃ options, changed = { formatter with options := options } ∧ value.subLexer? = none ∧
      formatter.options.Replaced name previous value options := by
  unfold setOption at hset
  split at hset
  case isTrue => cases hset
  case isFalse hkind =>
    split at hset
    case h_1 => cases hset
    case h_2 before options hreplace =>
      obtain ⟨rfl, rfl⟩ := Prod.mk.inj (Except.ok.inj hset)
      exact ⟨options, rfl, OptionValue.subLexer?_of_kind hkind, OptionSet.replace_eq_ok hreplace⟩

theorem setOptionText_eq_ok
    (hset : formatter.setOptionText catalog name text = .ok (previous, changed)) :
    ∃ value options, formatter.options.Denotes catalog name text .forbidden value ∧
      changed = { formatter with options := options } ∧ value.subLexer? = none ∧
      formatter.options.Replaced name previous value options := by
  unfold setOptionText at hset
  split at hset
  case h_1 => cases hset
  case h_2 declaration hdeclared =>
    split at hset
    case h_1 => cases hset
    case h_2 value hread =>
      -- The look-up is done a second time, by the store.
      split at hset
      case h_1 => cases hset
      case h_2 before options hreplace =>
        obtain ⟨rfl, rfl⟩ := Prod.mk.inj (Except.ok.inj hset)
        exact ⟨value, options, ⟨declaration, hdeclared, hread⟩, rfl,
          OptionDeclaration.read_forbidden hread, OptionSet.replace_eq_ok hreplace⟩

end Formatter

end Highlighting
