import Highlighting.Grammar.Json.Declarations
import Highlighting.Proofs.Grammar.Expressions
import Highlighting.Proofs.Grammar.JsonText

/-! The declarations for JSON say what the patterns say. Where classes are read as bytes they are the
patterns of bytes; where they are read as characters, strings are made of characters and all else is the
same. -/
namespace Highlighting.Json

/-- What the pattern of strings matches between the quotes if its classes are sets of characters. -/
inductive CharacterBody : List UInt8 → Prop
  | empty : CharacterBody []
  | plain {c : Char} {rest : List UInt8} (hc : 0x20 ≤ c.toNat ∧ c ≠ '"' ∧ c ≠ '\\')
      (hrest : CharacterBody rest) : CharacterBody (String.utf8EncodeChar c ++ rest)
  | escape {c : Char} {rest : List UInt8} (hc : 0x20 ≤ c.toNat) (hrest : CharacterBody rest) :
      CharacterBody (0x5C :: (String.utf8EncodeChar c ++ rest))

/-- The declared patterns if their classes are sets of characters. All classes but those of strings have
characters of one byte only. -/
inductive CharacterPattern : TokenKind → List UInt8 → Prop
  | string {body : List UInt8} (hbody : CharacterBody body) :
      CharacterPattern .stringDouble (0x22 :: (body ++ [0x22]))
  | other {kind : TokenKind} {text : List UInt8} (hkind : kind ≠ .stringDouble)
      (htext : Pattern kind text) : CharacterPattern kind text

def ReadPattern : Reading → TokenKind → List UInt8 → Prop
  | .characters => CharacterPattern
  | .bytes => Pattern

section Classes

variable {cls : CharClass} {p : UInt8 → Bool} {word : List UInt8}

theorem oneOf_iff (hp : ∀ b : UInt8, cls.contains (Char.ofNat b.toNat) = p b) :
    (Expression.oneOf cls).Matches .bytes word ↔ Single p word := by
  simp only [Expression.Matches, CharClass.Matches, hp]
  rfl

theorem many_oneOf_iff (hp : ∀ b : UInt8, cls.contains (Char.ofNat b.toNat) = p b) :
    (Expression.many (.oneOf cls)).Matches .bytes word ↔ ∀ b ∈ word, p b = true := by
  constructor
  · intro hword
    refine Expression.many_induction (P := fun word => ∀ b ∈ word, p b = true) hword nofun ?_
    intro front rest hfront hrest
    obtain ⟨b, hb, rfl⟩ := (oneOf_iff hp).mp hfront
    exact List.forall_mem_cons.mpr ⟨hb, hrest⟩
  · intro hall
    induction word with
    | nil => exact Expression.many_nil
    | cons b rest ih =>
      obtain ⟨hb, hrest⟩ := List.forall_mem_cons.mp hall
      have hfront : (Expression.oneOf cls).Matches .bytes [b] := (oneOf_iff hp).mpr ⟨b, hb, rfl⟩
      exact Expression.many_append hfront (ih hrest)

theorem repeated_oneOf_iff (hp : ∀ b : UInt8, cls.contains (Char.ofNat b.toNat) = p b) :
    (Expression.oneOf cls).repeated.Matches .bytes word ↔ Repeats p word := by
  constructor
  · rintro ⟨front, back, rfl, hfront, hback⟩
    obtain ⟨b, hb, rfl⟩ := (oneOf_iff hp).mp hfront
    exact ⟨List.cons_ne_nil _ _, List.forall_mem_cons.mpr ⟨hb, (many_oneOf_iff hp).mp hback⟩⟩
  · rintro ⟨hsome, hall⟩
    obtain ⟨b, rest, rfl⟩ := List.exists_cons_of_ne_nil hsome
    obtain ⟨hb, hrest⟩ := List.forall_mem_cons.mp hall
    exact ⟨[b], rest, rfl, (oneOf_iff hp).mpr ⟨b, hb, rfl⟩, (many_oneOf_iff hp).mpr hrest⟩

end Classes

section Numbers

variable {text : List UInt8}

theorem classes_contain : ∀ b : UInt8,
    CharClass.contains { members := [⟨'0', '9'⟩] } (Char.ofNat b.toNat) = isDigit b ∧
      CharClass.contains { members := [⟨'1', '9'⟩] } (Char.ofNat b.toNat) = (isDigit b && b != 0x30) ∧
      CharClass.contains { members := ['+', '-'].map (fun c => ⟨c, c⟩) } (Char.ofNat b.toNat) = isSign b ∧
      CharClass.contains { members := ['e', 'E'].map (fun c => ⟨c, c⟩) } (Char.ofNat b.toNat) =
        isExponentMark b ∧
      CharClass.contains { members := [' ', '\t', '\r', '\n'].map (fun c => ⟨c, c⟩) }
        (Char.ofNat b.toNat) = isSpace b :=
  forall_byte (by decide +kernel)

theorem digits_iff : Declared.digit.repeated.Matches .bytes text ↔ Repeats isDigit text :=
  repeated_oneOf_iff (fun b => (classes_contain b).1)

theorem blanks_iff : Declared.whitespace.Matches .bytes text ↔ Repeats isSpace text :=
  repeated_oneOf_iff (fun b => (classes_contain b).2.2.2.2)

theorem minus_iff : (Expression.literal "-").Matches .bytes text ↔ Single (· == 0x2D) text := by
  have hbytes : (Bytes.ofText "-").toList = [0x2D] := rfl
  simp [Expression.Matches, hbytes, Single]

theorem leading_iff :
    (Expression.seq (.oneOf { members := [⟨'1', '9'⟩] }) (.many Declared.digit)).Matches .bytes text ↔
      Repeats isDigit text ∧ text.head? ≠ some 0x30 := by
  have hfirst (front : List UInt8) : (Expression.oneOf _).Matches .bytes front ↔ Single _ front :=
    oneOf_iff (fun b => (classes_contain b).2.1)
  have hmany (back : List UInt8) : (Expression.many Declared.digit).Matches .bytes back ↔ _ :=
    many_oneOf_iff (fun b => (classes_contain b).1)
  constructor
  · rintro ⟨front, back, rfl, hfront, hback⟩
    obtain ⟨b, hb, rfl⟩ := (hfirst front).mp hfront
    simp only [Bool.and_eq_true, bne_iff_ne] at hb
    refine ⟨⟨List.cons_ne_nil _ _, List.forall_mem_cons.mpr ⟨hb.1, (hmany back).mp hback⟩⟩, ?_⟩
    exact fun hzero => hb.2 (Option.some.inj hzero)
  · rintro ⟨⟨hsome, hall⟩, hnonzero⟩
    obtain ⟨b, rest, rfl⟩ := List.exists_cons_of_ne_nil hsome
    obtain ⟨hb, hrest⟩ := List.forall_mem_cons.mp hall
    refine ⟨[b], rest, rfl, (hfirst [b]).mpr ⟨b, ?_, rfl⟩, (hmany rest).mpr hrest⟩
    simp only [Bool.and_eq_true, bne_iff_ne]
    exact ⟨hb, fun hzero => hnonzero (congrArg some hzero)⟩

theorem integer_iff : Declared.integer.Matches .bytes text ↔ Integer text := by
  have hzero (digits : List UInt8) :
      (Expression.literal "0").Matches .bytes digits ↔ digits = [0x30] := by
    have hbytes : (Bytes.ofText "0").toList = [0x30] := rfl
    simp [Expression.Matches, hbytes]
  have hsign (sign : List UInt8) : (Expression.literal "-").optional.Matches .bytes sign ↔
      Optionally (Single (· == 0x2D)) sign :=
    or_congr Iff.rfl minus_iff
  constructor
  · rintro ⟨sign, digits, rfl, hfront, hdigits⟩
    exact ⟨sign, digits, rfl, (hsign sign).mp hfront, hdigits.imp (hzero digits).mp leading_iff.mp⟩
  · rintro ⟨sign, digits, rfl, hfront, hdigits⟩
    exact ⟨sign, digits, rfl, (hsign sign).mpr hfront, hdigits.imp (hzero digits).mpr leading_iff.mpr⟩

theorem fraction_iff : Declared.fraction.Matches .bytes text ↔ Fraction text := by
  have hpoint : (Bytes.ofText ".").toList = [0x2E] := rfl
  constructor
  · rintro ⟨point, digits, rfl, rfl, hdigits⟩
    rw [hpoint]
    exact ⟨digits, rfl, digits_iff.mp hdigits⟩
  · rintro ⟨digits, rfl, hdigits⟩
    exact ⟨[0x2E], digits, rfl, hpoint.symm, digits_iff.mpr hdigits⟩

theorem exponent_iff : Declared.exponent.Matches .bytes text ↔ Exponent text := by
  have hmark (front : List UInt8) : (Expression.anyOf ['e', 'E']).Matches .bytes front ↔
      Single isExponentMark front :=
    oneOf_iff (fun b => (classes_contain b).2.2.2.1)
  have hsign (sign : List UInt8) : (Expression.anyOf ['+', '-']).optional.Matches .bytes sign ↔
      Optionally (Single isSign) sign :=
    or_congr Iff.rfl (oneOf_iff (fun b => (classes_contain b).2.2.1))
  constructor
  · rintro ⟨front, back, rfl, hfront, sign, digits, rfl, hback, hdigits⟩
    obtain ⟨mark, hfirst, rfl⟩ := (hmark front).mp hfront
    exact ⟨mark, sign, digits, rfl, hfirst, (hsign sign).mp hback, digits_iff.mp hdigits⟩
  · rintro ⟨mark, sign, digits, rfl, hfirst, hback, hdigits⟩
    exact ⟨[mark], sign ++ digits, rfl, (hmark [mark]).mpr ⟨mark, hfirst, rfl⟩, sign, digits, rfl,
      (hsign sign).mpr hback, digits_iff.mpr hdigits⟩

theorem float_iff : Declared.float.Matches .bytes text ↔ Float text := by
  have hexponent (exponent : List UInt8) : Declared.exponent.optional.Matches .bytes exponent ↔
      Optionally Exponent exponent :=
    or_congr Iff.rfl exponent_iff
  constructor
  · rintro ⟨whole, rest, rfl, hwhole, ⟨fraction, exponent, rfl, hfraction, hrest⟩ | hrest⟩
    · have hpoint := fraction_iff.mp hfraction
      refine ⟨whole, fraction, exponent, rfl, integer_iff.mp hwhole, .inr hpoint,
        (hexponent exponent).mp hrest, ?_⟩
      obtain ⟨digits, rfl, -⟩ := hpoint
      exact List.cons_ne_nil _ _
    · have hmark := exponent_iff.mp hrest
      refine ⟨whole, [], rest, rfl, integer_iff.mp hwhole, .inl rfl, .inr hmark, ?_⟩
      obtain ⟨mark, sign, digits, rfl, -⟩ := hmark
      exact List.cons_ne_nil _ _
  · rintro ⟨whole, fraction, exponent, rfl, hwhole, hfraction, hrest, hsome⟩
    refine ⟨whole, fraction ++ exponent, rfl, integer_iff.mpr hwhole, ?_⟩
    rcases hfraction with rfl | hfraction
    · rcases hrest with rfl | hrest
      · exact absurd rfl hsome
      · exact .inr (exponent_iff.mpr hrest)
    · exact .inl ⟨fraction, exponent, rfl, fraction_iff.mpr hfraction, (hexponent exponent).mpr hrest⟩

end Numbers

section Strings

variable {text word : List UInt8} {reading : Reading}

theorem quote_bytes : (Bytes.ofText "\"").toList = [0x22] := rfl

theorem backslash_bytes : (Bytes.ofText "\\").toList = [0x5C] := rfl

theorem stringClasses_contain : ∀ b : UInt8,
    CharClass.contains { negated := true, members := [⟨'"', '"'⟩, ⟨'\\', '\\'⟩, ⟨'\x00', '\x1F'⟩] }
        (Char.ofNat b.toNat) = isPlain b ∧
      CharClass.contains { negated := true, members := [⟨'\x00', '\x1F'⟩] } (Char.ofNat b.toNat) =
        decide (0x20 ≤ b) :=
  forall_byte (by decide +kernel)

theorem stringItem_iff : Declared.stringItem.Matches .bytes word ↔
    Single isPlain word ∨ ∃ b : UInt8, 0x20 ≤ b ∧ word = [0x5C, b] := by
  have hplain : (Expression.oneOf _).Matches .bytes word ↔ Single _ word :=
    oneOf_iff (fun b => (stringClasses_contain b).1)
  have hescaped (escaped : List UInt8) : (Expression.oneOf _).Matches .bytes escaped ↔ Single _ escaped :=
    oneOf_iff (fun b => (stringClasses_contain b).2)
  refine or_congr hplain ⟨?_, ?_⟩
  · rintro ⟨backslash, escaped, rfl, rfl, hback⟩
    obtain ⟨b, hb, rfl⟩ := (hescaped escaped).mp hback
    exact ⟨b, of_decide_eq_true hb, rfl⟩
  · rintro ⟨b, hb, rfl⟩
    exact ⟨[0x5C], [b], rfl, backslash_bytes.symm, (hescaped [b]).mpr ⟨b, decide_eq_true hb, rfl⟩⟩

theorem many_stringItem_iff :
    (Expression.many Declared.stringItem).Matches .bytes word ↔ StringBody word := by
  constructor
  · intro hword
    refine Expression.many_induction hword .empty ?_
    intro front rest hfront hrest
    rcases stringItem_iff.mp hfront with ⟨b, hb, rfl⟩ | ⟨b, hb, rfl⟩
    · exact .plain hb hrest
    · exact .escape hb hrest
  · intro hbody
    induction hbody with
    | empty => exact Expression.many_nil
    | @plain b rest hb _ ih => exact Expression.many_append (stringItem_iff.mpr (.inl ⟨b, hb, rfl⟩)) ih
    | @escape b rest hb _ ih => exact Expression.many_append (stringItem_iff.mpr (.inr ⟨b, hb, rfl⟩)) ih

theorem escaped_contains_iff (c : Char) :
    CharClass.contains { negated := true, members := [⟨'\x00', '\x1F'⟩] } c = true ↔
      0x20 ≤ c.toNat := by
  have hcontrol : c ≤ '\x1F' ↔ c.toNat < 0x20 := Nat.lt_succ_iff.symm
  have hzero : '\x00' ≤ c := Nat.zero_le _
  simp [CharClass.contains, CharRange.contains, hzero, hcontrol]

theorem plain_contains_iff (c : Char) :
    CharClass.contains { negated := true, members := [⟨'"', '"'⟩, ⟨'\\', '\\'⟩, ⟨'\x00', '\x1F'⟩] } c =
      true ↔ 0x20 ≤ c.toNat ∧ c ≠ '"' ∧ c ≠ '\\' := by
  have hsingle (d : Char) : CharRange.contains ⟨d, d⟩ c = decide (c = d) := by
    have hboth : d ≤ c ∧ c ≤ d ↔ c = d := by
      rw [and_comm]
      exact ⟨fun ⟨hle, hge⟩ => Char.le_antisymm hle hge, fun hsame => by simp [hsame]⟩
    rw [CharRange.contains, ← Bool.decide_and]
    exact decide_eq_decide.mpr hboth
  rw [← escaped_contains_iff c]
  simp only [CharClass.contains, List.any_cons, List.any_nil, hsingle]
  cases CharRange.contains ⟨'\x00', '\x1F'⟩ c <;> simp

theorem many_stringItem_characters_iff :
    (Expression.many Declared.stringItem).Matches .characters word ↔ CharacterBody word := by
  constructor
  · intro hword
    refine Expression.many_induction hword .empty ?_
    rintro front rest (⟨c, hc, rfl⟩ | ⟨backslash, escaped, rfl, rfl, c, hc, rfl⟩) hrest
    · exact .plain ((plain_contains_iff c).mp hc) hrest
    · rw [backslash_bytes]
      exact .escape ((escaped_contains_iff c).mp hc) hrest
  · intro hbody
    induction hbody with
    | empty => exact Expression.many_nil
    | @plain c rest hc _ ih =>
      have hitem : Declared.stringItem.Matches .characters (String.utf8EncodeChar c) :=
        .inl ⟨c, (plain_contains_iff c).mpr hc, rfl⟩
      exact Expression.many_append hitem ih
    | @escape c rest hc _ ih =>
      have hitem : Declared.stringItem.Matches .characters (0x5C :: String.utf8EncodeChar c) :=
        .inr ⟨[0x5C], _, rfl, backslash_bytes.symm, c, (escaped_contains_iff c).mpr hc, rfl⟩
      exact Expression.many_append hitem ih

theorem string_iff : Declared.string.Matches reading text ↔
    ∃ body, (Expression.many Declared.stringItem).Matches reading body ∧
      text = 0x22 :: (body ++ [0x22]) := by
  constructor
  · rintro ⟨front, back, rfl, rfl, body, quote, rfl, hbody, rfl⟩
    rw [quote_bytes]
    exact ⟨body, hbody, rfl⟩
  · rintro ⟨body, hbody, rfl⟩
    exact ⟨[0x22], body ++ [0x22], rfl, quote_bytes.symm, body, [0x22], rfl, hbody, quote_bytes.symm⟩

end Strings

section Declarations

variable {reading : Reading} {kind : TokenKind} {text : List UInt8} {e : Expression}
  {variant : Variant}

theorem structurals_bytes : Declared.structurals.map (fun word => (Bytes.ofText word).toList) =
    [[0x7B], [0x7D], [0x5B], [0x5D], [0x3A], [0x2C]] :=
  rfl

theorem constants_bytes : Declared.constants.map (fun word => (Bytes.ofText word).toList) = constants :=
  rfl

theorem mem_structurals_iff :
    text ∈ Declared.structurals.map (fun word => (Bytes.ofText word).toList) ↔ Single isStructural text := by
  rw [structurals_bytes]
  constructor
  · intro htext
    simp only [List.mem_cons, List.not_mem_nil, or_false] at htext
    rcases htext with rfl | rfl | rfl | rfl | rfl | rfl <;> exact ⟨_, rfl, rfl⟩
  · rintro ⟨b, hb, rfl⟩
    simpa [isStructural, or_assoc] using hb

theorem mem_declarations : (e, variant) ∈ declarations ↔
    (e = Declared.whitespace ∧ variant = .whitespace) ∨ (e = Declared.string ∧ variant = .string) ∨
      (e = Declared.integer ∧ variant = .integer) ∨ (e = Declared.float ∧ variant = .float) ∨
      (∃ word ∈ Declared.structurals, e = .literal word ∧ variant = .punctuation) ∨
      ∃ word ∈ Declared.constants, e = .literal word ∧ variant = .constant := by
  simp [declarations, eq_comm]

/-- What is declared for bytes are the patterns of bytes. -/
theorem declared_bytes_iff :
    (∃ e variant, (e, variant) ∈ declarations ∧ variant.kind = kind ∧ e.Matches .bytes text) ↔
      Pattern kind text := by
  constructor
  · rintro ⟨e, variant, hmem, rfl, htext⟩
    rcases mem_declarations.mp hmem with ⟨rfl, rfl⟩ | ⟨rfl, rfl⟩ | ⟨rfl, rfl⟩ | ⟨rfl, rfl⟩ |
      ⟨word, hword, rfl, rfl⟩ | ⟨word, hword, rfl, rfl⟩
    · exact .blank (blanks_iff.mp htext)
    · obtain ⟨body, hbody, rfl⟩ := string_iff.mp htext
      exact .string (many_stringItem_iff.mp hbody)
    · exact .integer (integer_iff.mp htext)
    · exact .float (float_iff.mp htext)
    · obtain ⟨b, hb, rfl⟩ := mem_structurals_iff.mp (List.mem_map.mpr ⟨word, hword, htext.symm⟩)
      exact .structural hb
    · have hbytes : text ∈ constants := by
        rw [← constants_bytes]
        exact List.mem_map.mpr ⟨word, hword, htext.symm⟩
      exact .constant hbytes
  · intro htext
    cases htext with
    | blank htext =>
      exact ⟨Declared.whitespace, .whitespace, by simp [declarations], rfl, blanks_iff.mpr htext⟩
    | structural hb =>
      obtain ⟨word, hword, hbytes⟩ := List.mem_map.mp (mem_structurals_iff.mpr ⟨_, hb, rfl⟩)
      exact ⟨.literal word, .punctuation, by simp [declarations, hword], rfl, hbytes.symm⟩
    | string hbody =>
      exact ⟨Declared.string, .string, by simp [declarations], rfl,
        string_iff.mpr ⟨_, many_stringItem_iff.mpr hbody, rfl⟩⟩
    | integer htext =>
      exact ⟨Declared.integer, .integer, by simp [declarations], rfl, integer_iff.mpr htext⟩
    | float htext =>
      exact ⟨Declared.float, .float, by simp [declarations], rfl, float_iff.mpr htext⟩
    | constant htext =>
      rw [← constants_bytes] at htext
      obtain ⟨word, hword, rfl⟩ := List.mem_map.mp htext
      exact ⟨.literal word, .constant, by simp [declarations, hword], rfl, rfl⟩

theorem declared_string (hmem : (e, .string) ∈ declarations) : e = Declared.string := by
  rcases mem_declarations.mp hmem with ⟨-, hother⟩ | ⟨hstring, -⟩ | ⟨-, hother⟩ | ⟨-, hother⟩ |
    ⟨word, -, -, hother⟩ | ⟨word, -, -, hother⟩
  case inr.inl => exact hstring
  all_goals cases hother

theorem isAscii_of_mem : ∀ declaration ∈ declarations, declaration.2 ≠ .string →
    declaration.1.isAscii = true := by
  decide

theorem kind_eq_stringDouble_iff : variant.kind = .stringDouble ↔ variant = .string := by
  cases variant <;> simp [Variant.kind]

/-- What is declared is what the patterns of either reading match. -/
theorem declared_iff (reading : Reading) :
    (∃ e variant, (e, variant) ∈ declarations ∧ variant.kind = kind ∧ e.Matches reading text) ↔
      ReadPattern reading kind text := by
  cases reading with
  | bytes => exact declared_bytes_iff
  | characters =>
    constructor
    · rintro ⟨e, variant, hmem, rfl, htext⟩
      by_cases hstring : variant = .string
      · subst hstring
        rw [declared_string hmem] at htext
        obtain ⟨body, hbody, rfl⟩ := string_iff.mp htext
        exact .string (many_stringItem_characters_iff.mp hbody)
      · have hbytes := (Expression.matches_reading (isAscii_of_mem _ hmem hstring)).mp htext
        refine .other (fun hkind => hstring (kind_eq_stringDouble_iff.mp hkind)) ?_
        exact declared_bytes_iff.mp ⟨e, variant, hmem, rfl, hbytes⟩
    · intro htext
      cases htext with
      | string hbody =>
        exact ⟨Declared.string, .string, by simp [declarations], rfl,
          string_iff.mpr ⟨_, many_stringItem_characters_iff.mpr hbody, rfl⟩⟩
      | other hkind htext =>
        obtain ⟨e, variant, hmem, rfl, hbytes⟩ := declared_bytes_iff.mpr htext
        have hstring : variant ≠ .string := fun hsame => hkind (kind_eq_stringDouble_iff.mpr hsame)
        exact ⟨e, variant, hmem, rfl,
          (Expression.matches_reading (isAscii_of_mem _ hmem hstring)).mpr hbytes⟩

end Declarations

end Highlighting.Json
