import Highlighting.Grammar.Json.Lexeme

/-! The patterns of the lexemes of JSON, and the texts that are the longest match where they stand.
A scanner that takes the longest match is all that is assumed of whatever finds the lexemes. -/
namespace Highlighting.Json

structure Repeats (p : UInt8 → Bool) (text : List UInt8) : Prop where
  nonempty : text ≠ []
  each : ∀ b ∈ text, p b = true

def Optionally (P : List UInt8 → Prop) (text : List UInt8) : Prop :=
  text = [] ∨ P text

def Single (p : UInt8 → Bool) (text : List UInt8) : Prop :=
  ∃ b, p b = true ∧ text = [b]

/-- The pattern `-?(0|[1-9][0-9]*)`. -/
def Integer (text : List UInt8) : Prop :=
  ∃ sign digits, text = sign ++ digits ∧ Optionally (Single (· == 0x2D)) sign ∧
    (digits = [0x30] ∨ Repeats isDigit digits ∧ digits.head? ≠ some 0x30)

/-- The pattern `\.[0-9]+`. -/
def Fraction (text : List UInt8) : Prop :=
  ∃ digits, text = 0x2E :: digits ∧ Repeats isDigit digits

/-- The pattern `[eE][+-]?[0-9]+`. -/
def Exponent (text : List UInt8) : Prop :=
  ∃ mark sign digits, text = mark :: (sign ++ digits) ∧ isExponentMark mark = true ∧
    Optionally (Single isSign) sign ∧ Repeats isDigit digits

def Float (text : List UInt8) : Prop :=
  ∃ whole fraction exponent, text = whole ++ (fraction ++ exponent) ∧ Integer whole ∧
    Optionally Fraction fraction ∧ Optionally Exponent exponent ∧ fraction ++ exponent ≠ []

def isPlain (b : UInt8) : Bool :=
  b != 0x22 && b != 0x5C && 0x20 ≤ b

/-- What the pattern of strings matches between the quotes: plain bytes, and backslashes each with a
byte that is no control. -/
inductive StringBody : List UInt8 → Prop
  | empty : StringBody []
  | plain {b : UInt8} {rest : List UInt8} (hb : isPlain b = true) (hrest : StringBody rest) :
      StringBody (b :: rest)
  | escape {b : UInt8} {rest : List UInt8} (hb : 0x20 ≤ b) (hrest : StringBody rest) :
      StringBody (0x5C :: b :: rest)

/-- The declared patterns, each with the kind it stands for. -/
inductive Pattern : TokenKind → List UInt8 → Prop
  | blank {text : List UInt8} (htext : Repeats isSpace text) : Pattern .ignorable text
  | structural {b : UInt8} (hb : isStructural b = true) : Pattern .punctuation [b]
  | string {body : List UInt8} (hbody : StringBody body) :
      Pattern .stringDouble (0x22 :: (body ++ [0x22]))
  | integer {text : List UInt8} (htext : Integer text) : Pattern .numberDecimal text
  | float {text : List UInt8} (htext : Float text) : Pattern .numberFloat text
  | constant {text : List UInt8} (htext : text ∈ constants) : Pattern .keywordConstant text

/-- A pattern matches `text` in front of `rest`, and none matches more than that. -/
structure LongestMatch (kind : TokenKind) (text rest : List UInt8) : Prop where
  pattern : Pattern kind text
  longest : ∀ other longer, Pattern other longer → longer <+: text ++ rest →
    longer.length ≤ text.length

/-- A scanner that takes the longest match, with the kind of its pattern, and finds nothing where
nothing remains. -/
structure Scanner.TakesLongest (next? : Scanner) : Prop where
  exhausted : ∀ (w : Window) (cx : ScanContext w), cx.atEnd = true → next? w cx = none
  longest : ∀ (w : Window) (cx : ScanContext w) (kind : TokenKind) (text rest : List UInt8),
    cx.rest.toList = text ++ rest → LongestMatch kind text rest →
      next? w cx = some ⟨kind, text.length⟩

def isNumeric (b : UInt8) : Bool :=
  isDigit b || isSign b || b == 0x2E || isExponentMark b

section Numbers

variable {text : List UInt8}

theorem isNumeric_of_isDigit {b : UInt8} (hb : isDigit b = true) : isNumeric b = true := by
  simp [isNumeric, hb]

theorem Repeats.numeric (h : Repeats isDigit text) : ∀ b ∈ text, isNumeric b = true :=
  fun b hb => isNumeric_of_isDigit (h.each b hb)

theorem Optionally.numeric {P : List UInt8 → Prop} (h : Optionally P text)
    (hnumeric : P text → ∀ b ∈ text, isNumeric b = true) : ∀ b ∈ text, isNumeric b = true := by
  rcases h with rfl | h
  · exact nofun
  · exact hnumeric h

theorem Integer.numeric (h : Integer text) : ∀ b ∈ text, isNumeric b = true := by
  obtain ⟨sign, digits, rfl, hsign, hdigits⟩ := h
  rw [List.forall_mem_append]
  constructor
  · apply hsign.numeric
    rintro ⟨b, hb, rfl⟩
    simp_all [isNumeric, isSign]
  · rcases hdigits with rfl | ⟨hdigits, -⟩
    · exact List.forall_mem_singleton.mpr rfl
    · exact hdigits.numeric

theorem Fraction.numeric (h : Fraction text) : ∀ b ∈ text, isNumeric b = true := by
  obtain ⟨digits, rfl, hdigits⟩ := h
  exact List.forall_mem_cons.mpr ⟨by decide, hdigits.numeric⟩

theorem Exponent.numeric (h : Exponent text) : ∀ b ∈ text, isNumeric b = true := by
  obtain ⟨mark, sign, digits, rfl, hmark, hsign, hdigits⟩ := h
  rw [List.forall_mem_cons, List.forall_mem_append]
  refine ⟨by simp [isNumeric, hmark], ?_, hdigits.numeric⟩
  apply hsign.numeric
  rintro ⟨b, hb, rfl⟩
  simp [isNumeric, hb]

theorem Float.numeric (h : Float text) : ∀ b ∈ text, isNumeric b = true := by
  obtain ⟨whole, fraction, exponent, rfl, hwhole, hfraction, hexponent, -⟩ := h
  rw [List.forall_mem_append, List.forall_mem_append]
  exact ⟨hwhole.numeric, hfraction.numeric Fraction.numeric, hexponent.numeric Exponent.numeric⟩

theorem Integer.head (h : Integer text) :
    ∃ b rest, text = b :: rest ∧ (b = 0x2D ∨ isDigit b = true) := by
  obtain ⟨sign, digits, rfl, rfl | ⟨b, hb, rfl⟩, hdigits⟩ := h
  · rcases hdigits with rfl | ⟨hdigits, -⟩
    · exact ⟨0x30, [], rfl, .inr (by decide)⟩
    · obtain ⟨b, rest, rfl⟩ := List.exists_cons_of_ne_nil hdigits.nonempty
      exact ⟨b, rest, rfl, .inr (hdigits.each b List.mem_cons_self)⟩
  · exact ⟨b, digits, rfl, .inl (beq_iff_eq.mp hb)⟩

theorem Repeats.snoc {p : UInt8 → Bool} (h : Repeats p text) {b : UInt8}
    (hb : p b = true) : Repeats p (text ++ [b]) := by
  refine ⟨by simp, ?_⟩
  rw [List.forall_mem_append]
  exact ⟨h.each, by simpa using hb⟩

theorem Fraction.snoc (h : Fraction text) {b : UInt8} (hb : isDigit b = true) :
    Fraction (text ++ [b]) := by
  obtain ⟨digits, rfl, hdigits⟩ := h
  exact ⟨digits ++ [b], rfl, hdigits.snoc hb⟩

theorem Exponent.snoc (h : Exponent text) {b : UInt8} (hb : isDigit b = true) :
    Exponent (text ++ [b]) := by
  obtain ⟨mark, sign, digits, rfl, hmark, hsign, hdigits⟩ := h
  exact ⟨mark, sign, digits ++ [b], by simp, hmark, hsign, hdigits.snoc hb⟩

theorem number_pattern {whole fraction exponent : List UInt8} (hwhole : Integer whole)
    (hfraction : Optionally Fraction fraction) (hexponent : Optionally Exponent exponent) :
    Pattern (if fraction ++ exponent = [] then .numberDecimal else .numberFloat)
      (whole ++ (fraction ++ exponent)) := by
  split
  case isTrue hnone =>
    rw [hnone, List.append_nil]
    exact .integer hwhole
  case isFalse hsome => exact .float ⟨whole, fraction, exponent, rfl, hwhole, hfraction, hexponent, hsome⟩

end Numbers

section FirstBytes

/-- The kind of the pattern that begins with a byte, if one does; numbers count as integers. -/
def opens (b : UInt8) : Option TokenKind :=
  if isSpace b then some .ignorable
  else if isStructural b then some .punctuation
  else if b == 0x22 then some .stringDouble
  else if b == 0x2D || isDigit b then some .numberDecimal
  else if b == 0x74 || b == 0x66 || b == 0x6E then some .keywordConstant
  else none

/-- Facts about classes of bytes are checked byte by byte. -/
theorem forall_byte {P : UInt8 → Prop} (h : ∀ n < 256, P (UInt8.ofNat n)) (b : UInt8) : P b := by
  have hb := h b.toNat b.toNat_lt
  rwa [UInt8.ofNat_toNat] at hb

theorem digit_class : ∀ b : UInt8, isDigit b = true →
    isSpace b = false ∧ isStructural b = false ∧ isSign b = false ∧ b ≠ 0x22 ∧ b ≠ 0x2D :=
  forall_byte (by decide +kernel)

theorem space_class {b : UInt8} (hb : isSpace b = true) : isNumeric b = false := by
  simp only [isSpace, Bool.or_eq_true, beq_iff_eq] at hb
  rcases hb with ((rfl | rfl) | rfl) | rfl <;> rfl

theorem structural_class {b : UInt8} (hb : isStructural b = true) :
    isSpace b = false ∧ isNumeric b = false := by
  simp only [isStructural, Bool.or_eq_true, beq_iff_eq] at hb
  rcases hb with ((((rfl | rfl) | rfl) | rfl) | rfl) | rfl <;> exact ⟨rfl, rfl⟩

theorem mark_class {b : UInt8} (hb : isExponentMark b = true) : isDigit b = false := by
  simp only [isExponentMark, Bool.or_eq_true, beq_iff_eq] at hb
  rcases hb with rfl | rfl <;> rfl

theorem opens_space {b : UInt8} (hb : isSpace b = true) : opens b = some .ignorable :=
  if_pos hb

theorem opens_structural {b : UInt8} (hb : isStructural b = true) :
    opens b = some .punctuation := by
  simp [opens, structural_class hb, hb]

theorem opens_numeric {b : UInt8} (hb : b = 0x2D ∨ isDigit b = true) :
    opens b = some .numberDecimal := by
  rcases hb with rfl | hb
  · rfl
  · simp [opens, digit_class b hb, hb]

/-- The first byte of a match tells the patterns apart, but for integers and floats. -/
theorem Pattern.opens {kind : TokenKind} {text : List UInt8} (h : Pattern kind text) :
    ∃ b rest, text = b :: rest ∧
      opens b = some (if kind = .numberFloat then .numberDecimal else kind) := by
  cases h with
  | blank htext =>
    obtain ⟨b, rest, rfl⟩ := List.exists_cons_of_ne_nil htext.nonempty
    exact ⟨b, rest, rfl, opens_space (htext.each b List.mem_cons_self)⟩
  | @structural b hb => exact ⟨b, [], rfl, opens_structural hb⟩
  | string hbody => exact ⟨0x22, _, rfl, by decide⟩
  | integer htext =>
    obtain ⟨b, rest, rfl, hb⟩ := htext.head
    exact ⟨b, rest, rfl, opens_numeric hb⟩
  | float htext =>
    obtain ⟨whole, fraction, exponent, rfl, hwhole, -⟩ := htext
    obtain ⟨b, rest, rfl, hb⟩ := hwhole.head
    exact ⟨b, rest ++ (fraction ++ exponent), rfl, opens_numeric hb⟩
  | constant htext =>
    have hall : ∀ text ∈ constants, ∃ b rest, text = b :: rest ∧
        Json.opens b = some .keywordConstant := by
      simp [constants]
      decide
    exact hall text htext

end FirstBytes

section Longest

variable {kind other : TokenKind} {text rest longer : List UInt8}

/-- A match in the place of another one is of the same kind, integers and floats being one. -/
theorem Pattern.kind_eq_of_front (h : Pattern kind text) (hother : Pattern other longer)
    (hlonger : longer <+: text ++ rest) :
    (if other = .numberFloat then TokenKind.numberDecimal else other) =
      if kind = .numberFloat then .numberDecimal else kind := by
  obtain ⟨b, tail, rfl, hb⟩ := h.opens
  obtain ⟨c, more, rfl, hc⟩ := hother.opens
  rw [List.cons_append, List.cons_prefix_cons] at hlonger
  rw [hlonger.1, hb] at hc
  exact (Option.some.inj hc).symm

theorem length_le_of_forall {p : UInt8 → Bool} (hlonger : longer <+: text ++ rest)
    (hall : ∀ b ∈ longer, p b = true) (hstop : ∀ b ∈ rest.head?, p b = false) :
    longer.length ≤ text.length := by
  rcases List.prefix_or_prefix_of_prefix hlonger (List.prefix_append text rest) with
    hwithin | ⟨more, rfl⟩
  · exact hwithin.length_le
  · -- The first byte beyond the text would be of the class.
    rw [List.prefix_append_right_inj] at hlonger
    cases more with
    | nil => simp
    | cons b more =>
      obtain ⟨tail, rfl⟩ := hlonger
      have hclass := hall b (by simp)
      simp [hstop b (by simp)] at hclass

theorem blank_longest (htext : Repeats isSpace text) (hrest : ∀ b ∈ rest.head?, isSpace b = false) :
    LongestMatch .ignorable text rest := by
  refine ⟨.blank htext, ?_⟩
  intro other longer hother hlonger
  have hkind := (Pattern.blank htext).kind_eq_of_front hother hlonger
  cases hother with
  | blank hmore => exact length_le_of_forall hlonger hmore.each hrest
  | _ => simp at hkind

theorem structural_longest {b : UInt8} (hb : isStructural b = true) (rest : List UInt8) :
    LongestMatch .punctuation [b] rest := by
  refine ⟨.structural hb, ?_⟩
  intro other longer hother hlonger
  have hkind := (Pattern.structural hb).kind_eq_of_front hother hlonger
  cases hother with
  | structural => exact Nat.le_refl 1
  | _ => simp at hkind

/-- The quote that closes a string is the first one that is not escaped. -/
theorem StringBody.eq_of_append {body other before after : List UInt8} (hbody : StringBody body)
    (hother : StringBody other) (h : body ++ 0x22 :: before = other ++ 0x22 :: after) :
    body = other := by
  -- Both are read from the front; a plain byte is neither a quote nor a backslash, so at each byte they
  -- go on alike.
  induction hbody generalizing other with
  | empty =>
    cases hother with
    | empty => rfl
    | plain hb =>
      obtain ⟨rfl, -⟩ := List.cons.inj h
      exact absurd hb (by decide)
    | escape => exact absurd (List.cons.inj h).1 (by decide)
  | plain hb _ ih =>
    cases hother with
    | empty =>
      obtain ⟨rfl, -⟩ := List.cons.inj h
      exact absurd hb (by decide)
    | plain _ hrest =>
      obtain ⟨rfl, htail⟩ := List.cons.inj h
      rw [ih hrest htail]
    | escape =>
      obtain ⟨rfl, -⟩ := List.cons.inj h
      exact absurd hb (by decide)
  | escape _ _ ih =>
    cases hother with
    | empty => exact absurd (List.cons.inj h).1 (by decide)
    | plain hb =>
      obtain ⟨rfl, -⟩ := List.cons.inj h
      exact absurd hb (by decide)
    | escape _ hrest =>
      obtain ⟨rfl, htail⟩ := List.cons.inj (List.cons.inj h).2
      rw [ih hrest htail]

theorem string_longest {body : List UInt8} (hbody : StringBody body) (rest : List UInt8) :
    LongestMatch .stringDouble (0x22 :: (body ++ [0x22])) rest := by
  refine ⟨.string hbody, ?_⟩
  intro other longer hother hlonger
  have hkind := (Pattern.string hbody).kind_eq_of_front hother hlonger
  cases hother with
  | string hmore =>
    obtain ⟨tail, htail⟩ := hlonger
    simp only [List.cons_append, List.append_assoc, List.nil_append, List.cons.injEq,
      true_and] at htail
    exact Nat.le_of_eq (by rw [hmore.eq_of_append hbody htail])
  | _ => simp at hkind

theorem number_longest (hnumber : Pattern kind text)
    (hkind : kind = .numberDecimal ∨ kind = .numberFloat)
    (hrest : ∀ b ∈ rest.head?, isNumeric b = false) : LongestMatch kind text rest := by
  refine ⟨hnumber, ?_⟩
  intro other longer hother hlonger
  have hsame := hnumber.kind_eq_of_front hother hlonger
  have hnumber : (if kind = .numberFloat then TokenKind.numberDecimal else kind) =
      .numberDecimal := by
    rcases hkind with rfl | rfl <;> rfl
  rw [hnumber] at hsame
  cases hother with
  | integer hmore => exact length_le_of_forall hlonger hmore.numeric hrest
  | float hmore => exact length_le_of_forall hlonger hmore.numeric hrest
  | _ => simp at hsame

theorem constant_longest (htext : text ∈ constants) (rest : List UInt8) :
    LongestMatch .keywordConstant text rest := by
  refine ⟨.constant htext, ?_⟩
  intro other longer hother hlonger
  have hkind := (Pattern.constant htext).kind_eq_of_front hother hlonger
  cases hother with
  | constant hmore =>
    have hhead : longer.head? = text.head? := by
      obtain ⟨b, more, rfl, -⟩ := (Pattern.constant hmore).opens
      obtain ⟨c, tail, rfl, -⟩ := (Pattern.constant htext).opens
      rw [List.cons_append, List.cons_prefix_cons] at hlonger
      exact congrArg some hlonger.1
    have hall : ∀ longer ∈ constants, ∀ text ∈ constants,
        longer.head? = text.head? → longer.length ≤ text.length := by
      decide
    exact hall longer hmore text htext hhead
  | _ => simp at hkind

end Longest

end Highlighting.Json
