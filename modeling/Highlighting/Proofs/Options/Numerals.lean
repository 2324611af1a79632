import Highlighting.Options.Reading
import Mathlib

/-! Numbers and truth values written as text. An integer option takes the decimal numerals with a value
of 64 bits and nothing else, and a boolean option takes four words besides, so every text either has the
one value it denotes or is refused under the name of the option. -/
namespace Highlighting

namespace Text

def decimalValue (digits : List Char) : Nat :=
  Nat.ofDigits 10 (digits.reverse.map (fun c => c.toNat - '0'.toNat))

structure IsDigits (digits : List Char) : Prop where
  nonempty : digits ≠ []
  digit : ∀ c ∈ digits, '0' ≤ c ∧ c ≤ '9'

inductive Numeral : List Char → Int → Prop
  | unsigned {digits : List Char} (h : IsDigits digits) : Numeral digits (decimalValue digits)
  | positive {digits : List Char} (h : IsDigits digits) :
      Numeral ('+' :: digits) (decimalValue digits)
  | negative {digits : List Char} (h : IsDigits digits) :
      Numeral ('-' :: digits) (-decimalValue digits)

def Int64Numeral (text : String) (n : Int) : Prop :=
  Numeral text.toList n ∧ -2 ^ 63 ≤ n ∧ n ≤ 2 ^ 63 - 1

def InAnyCase (word text : String) : Prop :=
  List.Forall₂ (fun letter c => c = letter ∨ c = letter.toUpper) word.toList text.toList

variable {cs : List Char} {text : String}

theorem isDigit_iff (c : Char) : c.isDigit = true ↔ '0' ≤ c ∧ c ≤ '9' := by
  simp only [Char.isDigit, Bool.and_eq_true, decide_eq_true_eq]
  exact Iff.rfl

theorem isDigits_iff : IsDigits cs ↔ (!cs.isEmpty && cs.all Char.isDigit) = true := by
  have hall : (∀ c ∈ cs, '0' ≤ c ∧ c ≤ '9') ↔ ∀ c ∈ cs, c.isDigit = true := by
    simp only [isDigit_iff]
  have hsplit : IsDigits cs ↔ cs ≠ [] ∧ ∀ c ∈ cs, '0' ≤ c ∧ c ≤ '9' :=
    ⟨fun h => ⟨h.nonempty, h.digit⟩, fun h => ⟨h.1, h.2⟩⟩
  rw [hsplit, hall]
  simp

/-- Taking the digits from the left, each added to ten times what came before it, gives their value. -/
theorem foldl_digits (cs : List Char) :
    cs.foldl (fun n c => 10 * n + (c.toNat - '0'.toNat)) 0 = decimalValue cs := by
  have hstep : (fun n (c : Char) => 10 * n + (c.toNat - '0'.toNat)) =
      fun n c => ((c.toNat - '0'.toNat : Nat) : Nat) + 10 * n := by
    funext n c
    exact Nat.add_comm _ _
  rw [decimalValue, Nat.ofDigits_eq_foldr, List.map_reverse, List.foldr_reverse, List.foldl_map, hstep]
  rfl

theorem digits?_map_eq_some_iff (f : Nat → Int) (n : Int) :
    (digits? cs).map f = some n ↔ IsDigits cs ∧ f (decimalValue cs) = n := by
  rw [digits?, isDigits_iff, foldl_digits]
  split
  case isTrue h => simp [h]
  case isFalse h => simp [h]

theorem not_isDigits_of_sign {sign : Char} (hsign : sign.isDigit = false) :
    ¬ IsDigits (sign :: cs) := by
  intro h
  have hdigit := (isDigit_iff sign).mpr (h.digit sign List.mem_cons_self)
  rw [hsign] at hdigit
  cases hdigit

theorem signed?_eq_some_iff (n : Int) : signed? cs = some n ↔ Numeral cs n := by
  unfold signed?
  split
  -- No digit is a sign, so each form of numerals belongs to one case.
  case h_1 digits =>
    rw [digits?_map_eq_some_iff]
    constructor
    · rintro ⟨hdigits, rfl⟩
      exact .positive hdigits
    · intro h
      cases h with
      | unsigned hdigits => exact absurd hdigits (not_isDigits_of_sign (by decide))
      | positive hdigits => exact ⟨hdigits, rfl⟩
  case h_2 digits =>
    rw [digits?_map_eq_some_iff]
    constructor
    · rintro ⟨hdigits, rfl⟩
      exact .negative hdigits
    · intro h
      cases h with
      | unsigned hdigits => exact absurd hdigits (not_isDigits_of_sign (by decide))
      | negative hdigits => exact ⟨hdigits, rfl⟩
  case h_3 hplus hminus =>
    rw [digits?_map_eq_some_iff]
    constructor
    · rintro ⟨hdigits, rfl⟩
      exact .unsigned hdigits
    · intro h
      cases h with
      | unsigned hdigits => exact ⟨hdigits, rfl⟩
      | positive => exact absurd rfl (hplus _)
      | negative => exact absurd rfl (hminus _)

theorem fitsInt64_iff (n : Int) : fitsInt64 n = true ↔ -2 ^ 63 ≤ n ∧ n ≤ 2 ^ 63 - 1 := by
  simp only [fitsInt64, Bool.and_eq_true, decide_eq_true_eq]
  omega

theorem int64?_eq_some_iff (n : Int) : int64? text = some n ↔ Int64Numeral text n := by
  rw [int64?, Option.filter_eq_some_iff, signed?_eq_some_iff, fitsInt64_iff, Int64Numeral]

theorem isDigits_toDigits (n : Nat) :
    IsDigits (Nat.toDigits 10 n) ∧ decimalValue (Nat.toDigits 10 n) = n := by
  refine ⟨⟨Nat.toDigits_ne_nil, ?_⟩, ?_⟩
  · intro c hc
    exact (isDigit_iff c).mp (Nat.isDigit_of_mem_toDigits (by decide) (by decide) hc)
  · calc
      decimalValue (Nat.toDigits 10 n) = Nat.ofDigitChars 10 (Nat.toDigits 10 n) 0 :=
        (foldl_digits _).symm
      _ = n := Nat.ofDigitChars_ten_toDigits

theorem numeral_toString (n : Int) : Numeral (toString n).toList n := by
  rw [Int.toString_eq_repr, Int.repr_eq_if]
  split
  case isTrue hn =>
    obtain ⟨hdigits, hvalue⟩ := isDigits_toDigits n.toNat
    have h := Numeral.unsigned hdigits
    rw [hvalue, Int.toNat_of_nonneg hn] at h
    rw [Nat.toList_repr]
    exact h
  case isFalse hn =>
    obtain ⟨hdigits, hvalue⟩ := isDigits_toDigits (-n).toNat
    have h := Numeral.negative hdigits
    rw [hvalue, Int.toNat_of_nonneg (by omega), Int.neg_neg] at h
    rw [String.toList_append, Nat.toList_repr]
    exact h

theorem toLower_eq_iff {letter c : Char} (hletter : letter.isLower = true) :
    c.toLower = letter ↔ c = letter ∨ c = letter.toUpper := by
  have hkept : letter.toLower = letter :=
    Char.toLower_eq_of_not_isUpper (Char.not_isUpper_of_isLower hletter)
  constructor
  · rintro rfl
    by_cases hupper : c.isUpper = true
    · right
      rw [Char.toUpper_toLower_eq_toUpper]
      exact (Char.toUpper_eq_of_not_isLower (Char.not_isLower_of_isUpper hupper)).symm
    · left
      exact (Char.toLower_eq_of_not_isUpper hupper).symm
  · rintro (rfl | rfl)
    · exact hkept
    · rw [Char.toLower_toUpper_eq_toLower]
      exact hkept

/-- Where a word has no capitals, comparing up to case is comparing with both cases of each letter. -/
theorem sameIgnoringCase_iff {word : String} (hword : word.toList.all Char.isLower = true) :
    sameIgnoringCase text word = true ↔ InAnyCase word text := by
  have hletters (letters : List Char) (hlower : ∀ letter ∈ letters, letter.isLower = true)
      (cs : List Char) : cs.map Char.toLower = letters.map Char.toLower ↔
        List.Forall₂ (fun letter c => c = letter ∨ c = letter.toUpper) letters cs := by
    induction letters generalizing cs with
    | nil => simp
    | cons letter letters ih =>
      obtain ⟨hletter, hrest⟩ := List.forall_mem_cons.mp hlower
      have hkept : letter.toLower = letter := (toLower_eq_iff hletter).mpr (.inl rfl)
      cases cs with
      | nil => simp
      | cons c cs =>
        rw [List.forall₂_cons, ← ih hrest, ← toLower_eq_iff hletter, List.map_cons, List.map_cons,
          List.cons.injEq, hkept]
  rw [sameIgnoringCase, beq_iff_eq]
  exact hletters word.toList (List.all_eq_true.mp hword) text.toList

theorem InAnyCase.length_eq {word : String} (h : InAnyCase word text) :
    text.toList.length = word.toList.length :=
  (List.Forall₂.length_eq h).symm

theorem Numeral.exists_digit {n : Int} (h : Numeral cs n) : ∃ c ∈ cs, c.isDigit = true := by
  have hfirst (digits : List Char) (hdigits : IsDigits digits) : ∃ c ∈ digits, c.isDigit = true := by
    obtain ⟨c, hc⟩ := List.exists_mem_of_ne_nil digits hdigits.nonempty
    exact ⟨c, hc, (isDigit_iff c).mpr (hdigits.digit c hc)⟩
  cases h with
  | unsigned hdigits => exact hfirst _ hdigits
  | positive hdigits | negative hdigits =>
    obtain ⟨c, hc, hdigit⟩ := hfirst _ hdigits
    exact ⟨c, List.mem_cons_of_mem _ hc, hdigit⟩

/-- Where a word has letters only, no numeral is a spelling of it. -/
theorem InAnyCase.not_numeral {word : String} {n : Int}
    (hword : word.toList.all Char.isLower = true) (h : InAnyCase word text) :
    ¬ Numeral text.toList n := by
  intro hnumeral
  obtain ⟨c, hc, hdigit⟩ := hnumeral.exists_digit
  have hsame : text.toList.map Char.toLower = word.toList.map Char.toLower := by
    rw [← sameIgnoringCase_iff hword, sameIgnoringCase, beq_iff_eq] at h
    exact h
  have hmem : c.toLower ∈ word.toList.map Char.toLower := by
    rw [← hsame]
    exact List.mem_map_of_mem hc
  obtain ⟨letter, hletter, hcase⟩ := List.mem_map.mp hmem
  have hlower := List.all_eq_true.mp hword letter hletter
  rw [(toLower_eq_iff hlower).mpr (.inl rfl)] at hcase
  rw [hcase, Char.isLower_toLower_eq_isAlpha] at hlower
  simp only [Char.isDigit, Char.isAlpha, Char.isUpper, Char.isLower, Bool.and_eq_true, Bool.or_eq_true,
    decide_eq_true_eq, ge_iff_le, UInt32.le_iff_toNat_le, Char.reduceVal, UInt32.reduceToNat]
    at hdigit hlower
  omega

end Text

open Text

def IsOnWord (text : String) : Prop :=
  text = "" ∨ InAnyCase "on" text ∨ InAnyCase "true" text

def IsOffWord (text : String) : Prop :=
  InAnyCase "off" text ∨ InAnyCase "false" text

variable {text : String}

theorem isOnWord_iff : IsOnWord text ↔ (text == "" || Text.sameIgnoringCase text "on" ||
    Text.sameIgnoringCase text "true") = true := by
  rw [Bool.or_eq_true, Bool.or_eq_true, beq_iff_eq, sameIgnoringCase_iff (by decide),
    sameIgnoringCase_iff (by decide), or_assoc, IsOnWord]

theorem isOffWord_iff : IsOffWord text ↔ (Text.sameIgnoringCase text "off" ||
    Text.sameIgnoringCase text "false") = true := by
  rw [Bool.or_eq_true, sameIgnoringCase_iff (by decide), sameIgnoringCase_iff (by decide), IsOffWord]

/-- The words for true have an even number of letters, those for false an odd one. -/
theorem IsOnWord.not_isOffWord (h : IsOnWord text) : ¬ IsOffWord text := by
  have heven : text.toList.length % 2 = 0 := by
    rcases h with rfl | hon | htrue
    · rfl
    · rw [hon.length_eq]
      rfl
    · rw [htrue.length_eq]
      rfl
  rintro (hoff | hfalse)
  · rw [hoff.length_eq] at heven
    cases heven
  · rw [hfalse.length_eq] at heven
    cases heven

theorem IsOnWord.not_numeral {n : Int} (h : IsOnWord text) : ¬ Int64Numeral text n := by
  intro hnumeral
  rcases h with rfl | hon | htrue
  · obtain ⟨c, hc, -⟩ := hnumeral.1.exists_digit
    exact absurd hc List.not_mem_nil
  · exact hon.not_numeral (by decide) hnumeral.1
  · exact htrue.not_numeral (by decide) hnumeral.1

theorem IsOffWord.not_numeral {n : Int} (h : IsOffWord text) : ¬ Int64Numeral text n := by
  intro hnumeral
  rcases h with hoff | hfalse
  · exact hoff.not_numeral (by decide) hnumeral.1
  · exact hfalse.not_numeral (by decide) hnumeral.1

theorem readBool?_eq_true_iff :
    readBool? text = some true ↔ IsOnWord text ∨ ∃ n, Int64Numeral text n ∧ n ≠ 0 := by
  rw [readBool?]
  split
  case isTrue hon => exact iff_of_true rfl (.inl (isOnWord_iff.mpr hon))
  case isFalse hon =>
    split
    case isTrue hoff =>
      have hword := isOffWord_iff.mpr hoff
      apply iff_of_false nofun
      rintro (hother | ⟨n, hn, -⟩)
      · exact hother.not_isOffWord hword
      · exact hword.not_numeral hn
    case isFalse hoff =>
      rw [← isOnWord_iff] at hon
      simp [hon, int64?_eq_some_iff]

theorem readBool?_eq_false_iff :
    readBool? text = some false ↔ IsOffWord text ∨ Int64Numeral text 0 := by
  rw [readBool?]
  split
  case isTrue hon =>
    have hword := isOnWord_iff.mpr hon
    apply iff_of_false nofun
    rintro (hother | hn)
    · exact hword.not_isOffWord hother
    · exact hword.not_numeral hn
  case isFalse hon =>
    split
    case isTrue hoff => exact iff_of_true rfl (.inl (isOffWord_iff.mpr hoff))
    case isFalse hoff =>
      rw [← isOffWord_iff] at hoff
      simp [hoff, int64?_eq_some_iff]

section Read

variable (catalog : Catalog) (lexers : LexerValues) (name doc : String)

theorem read_int_eq (initial : Int) :
    (OptionDeclaration.mk name (.int initial) doc).read catalog text lexers =
      match int64? text with
      | some value => .ok (.int value)
      | none => .error (.invalidValue name text) :=
  rfl

theorem read_bool_eq (preset : Bool) :
    (OptionDeclaration.mk name (.bool preset) doc).read catalog text lexers =
      match readBool? text with
      | some value => .ok (.bool value)
      | none => .error (.invalidValue name text) :=
  rfl

theorem read_int_eq_ok_iff (initial n : Int) :
    (OptionDeclaration.mk name (.int initial) doc).read catalog text lexers = .ok (.int n) ↔
      Int64Numeral text n := by
  rw [read_int_eq, ← int64?_eq_some_iff]
  cases int64? text with
  | none => exact iff_of_false nofun nofun
  | some value => simp

theorem read_bool_eq_ok_iff (preset value : Bool) :
    (OptionDeclaration.mk name (.bool preset) doc).read catalog text lexers = .ok (.bool value) ↔
      readBool? text = some value := by
  rw [read_bool_eq]
  cases readBool? text with
  | none => exact iff_of_false nofun nofun
  | some other => simp

end Read

/-- An integer option takes the numerals of 64 bits, a boolean option those and the words for its values,
and any other text is refused under the name of the option. -/
theorem number_texts_read (catalog : Catalog) (lexers : LexerValues) (name doc : String)
    (initial : Int) (preset : Bool) :
    (∀ text n, (OptionDeclaration.mk name (.int initial) doc).read catalog text lexers = .ok (.int n) ↔
      Int64Numeral text n) ∧
    (∀ text, (∀ n, ¬ Int64Numeral text n) →
      (OptionDeclaration.mk name (.int initial) doc).read catalog text lexers =
        .error (.invalidValue name text)) ∧
    (∀ n : Int64,
      (OptionDeclaration.mk name (.int initial) doc).read catalog (toString n) lexers =
        .ok (.int n.toInt)) ∧
    (∀ text,
      (OptionDeclaration.mk name (.bool preset) doc).read catalog text lexers = .ok (.bool true) ↔
        IsOnWord text ∨ ∃ n, Int64Numeral text n ∧ n ≠ 0) ∧
    (∀ text,
      (OptionDeclaration.mk name (.bool preset) doc).read catalog text lexers = .ok (.bool false) ↔
        IsOffWord text ∨ Int64Numeral text 0) ∧
    ∀ text, ¬ IsOnWord text → ¬ IsOffWord text → (∀ n, ¬ Int64Numeral text n) →
      (OptionDeclaration.mk name (.bool preset) doc).read catalog text lexers =
        .error (.invalidValue name text) := by
  refine ⟨?_, ?_, ?_, ?_, ?_, ?_⟩
  · intro text n
    exact read_int_eq_ok_iff catalog lexers name doc initial n
  · intro text hnumeral
    have hread : int64? text = none := by
      apply Option.eq_none_iff_forall_not_mem.mpr
      intro n hn
      exact hnumeral n ((int64?_eq_some_iff n).mp hn)
    rw [read_int_eq, hread]
  · intro n
    have hlower := n.le_toInt
    have hupper := n.toInt_lt
    apply (read_int_eq_ok_iff catalog lexers name doc initial n.toInt).mpr
    exact ⟨numeral_toString n.toInt, hlower, by omega⟩
  · intro text
    rw [read_bool_eq_ok_iff, readBool?_eq_true_iff]
  · intro text
    rw [read_bool_eq_ok_iff, readBool?_eq_false_iff]
  · intro text hon hoff hnumeral
    have hread : readBool? text = none := by
      apply Option.eq_none_iff_forall_not_mem.mpr
      intro value hvalue
      cases value with
      | true =>
        rcases readBool?_eq_true_iff.mp hvalue with hword | ⟨n, hn, -⟩
        · exact hon hword
        · exact hnumeral n hn
      | false =>
        rcases readBool?_eq_false_iff.mp hvalue with hword | hn
        · exact hoff hword
        · exact hnumeral 0 hn
    rw [read_bool_eq, hread]

end Highlighting
