import Highlighting.Proofs.Grammar.JsonPatterns
import Highlighting.Proofs.Grammar.JsonValue

/-! JSON texts, as RFC 8259 has them: values whose strings and numbers are written out, with any
whitespace before, between and behind their lexemes. Each lexeme of such a text, and each run of
whitespace, is the longest match of a pattern where it stands, and the parser for member names follows
the text from its beginning to its end. -/
namespace Highlighting.Json

section Grammar

inductive Space where
  | space
  | tab
  | lineFeed
  | carriageReturn
  deriving DecidableEq, Repr

def Space.byte : Space → UInt8
  | .space => 0x20
  | .tab => 0x09
  | .lineFeed => 0x0A
  | .carriageReturn => 0x0D

inductive Escape where
  | quote
  | backslash
  | slash
  | backspace
  | formFeed
  | lineFeed
  | carriageReturn
  | tab
  deriving DecidableEq, Repr

def Escape.byte : Escape → UInt8
  | .quote => 0x22
  | .backslash => 0x5C
  | .slash => 0x2F
  | .backspace => 0x62
  | .formFeed => 0x66
  | .lineFeed => 0x6E
  | .carriageReturn => 0x72
  | .tab => 0x74

def isHexDigit (b : UInt8) : Bool :=
  isDigit b || (0x41 ≤ b && b ≤ 0x46) || (0x61 ≤ b && b ≤ 0x66)

abbrev HexDigit : Type :=
  { b : UInt8 // isHexDigit b = true }

inductive Character where
  | plain (c : Char) (hc : 0x20 ≤ c.toNat ∧ c ≠ '"' ∧ c ≠ '\\')
  | escape (mark : Escape)
  | codeUnit (first second third fourth : HexDigit)

def Character.text : Character → List UInt8
  | .plain c _ => String.utf8EncodeChar c
  | .escape mark => [0x5C, mark.byte]
  | .codeUnit first second third fourth =>
    [0x5C, 0x75, first.val, second.val, third.val, fourth.val]

structure StringLiteral where
  characters : List Character

def StringLiteral.text (literal : StringLiteral) : List UInt8 :=
  0x22 :: (literal.characters.flatMap Character.text ++ [0x22])

structure Digits where
  first : Fin 10
  rest : List (Fin 10)

def digitByte (digit : Fin 10) : UInt8 :=
  0x30 + digit.val.toUInt8

def Digits.text (digits : Digits) : List UInt8 :=
  (digits.first :: digits.rest).map digitByte

inductive Whole where
  | zero
  | positive (digits : Digits) (hfirst : digits.first ≠ 0)

def Whole.text : Whole → List UInt8
  | .zero => [0x30]
  | .positive digits _ => digits.text

structure Power where
  upper : Bool
  minus? : Option Bool
  digits : Digits

def Power.text (power : Power) : List UInt8 :=
  (if power.upper then 0x45 else 0x65) ::
    ((match power.minus? with
      | none => []
      | some minus => [if minus then 0x2D else 0x2B]) ++ power.digits.text)

structure Numeral where
  minus : Bool
  whole : Whole
  fraction? : Option Digits
  power? : Option Power

namespace Numeral

variable (numeral : Numeral)

def integerText : List UInt8 :=
  (if numeral.minus then [0x2D] else []) ++ numeral.whole.text

def fractionText : List UInt8 :=
  match numeral.fraction? with
  | none => []
  | some digits => 0x2E :: digits.text

def powerText : List UInt8 :=
  match numeral.power? with
  | none => []
  | some power => power.text

def text : List UInt8 :=
  numeral.integerText ++ (numeral.fractionText ++ numeral.powerText)

def isWhole : Bool :=
  numeral.fraction?.isNone && numeral.power?.isNone

end Numeral

inductive Constant where
  | true
  | false
  | null
  deriving DecidableEq, Repr

def Constant.text : Constant → List UInt8
  | .true => [0x74, 0x72, 0x75, 0x65]
  | .false => [0x66, 0x61, 0x6C, 0x73, 0x65]
  | .null => [0x6E, 0x75, 0x6C, 0x6C]

inductive Scalar where
  | string (literal : StringLiteral)
  | number (numeral : Numeral)
  | constant (constant : Constant)

def Scalar.text : Scalar → List UInt8
  | .string literal => literal.text
  | .number numeral => numeral.text
  | .constant word => word.text

def Scalar.kind : Scalar → TokenKind
  | .string _ => .stringDouble
  | .number numeral => if numeral.isWhole then .numberDecimal else .numberFloat
  | .constant _ => .keywordConstant

/-- A lexeme of a text, or a run of whitespace between two of them. -/
inductive Token where
  | part (part : Part StringLiteral Scalar)
  | blank (first : Space) (rest : List Space)

namespace Token

def text : Token → List UInt8
  | .part (.name literal) => literal.text
  | .part (.scalar scalar) => scalar.text
  | .part (.structural mark) => [mark.byte]
  | .blank first rest => (first :: rest).map Space.byte

def kind : Token → TokenKind
  | .part (.name _) => .nameTag
  | .part (.scalar scalar) => scalar.kind
  | .part (.structural _) => .punctuation
  | .blank _ _ => .ignorable

def ofGap : List Space → List Token
  | [] => []
  | first :: rest => [.blank first rest]

end Token

def layOut (gap : Nat → List Space) : List (Part StringLiteral Scalar) → List Token
  | [] => Token.ofGap (gap 0)
  | part :: rest => Token.ofGap (gap 0) ++ .part part :: layOut (fun place => gap (place + 1)) rest

def Value.tokens (value : Value StringLiteral Scalar) (gap : Nat → List Space) : List Token :=
  layOut gap value.parts

def Value.text (value : Value StringLiteral Scalar) (gap : Nat → List Space) : Bytes :=
  ((value.tokens gap).flatMap Token.text).toArray

def nested : Value StringLiteral Scalar :=
  .object
    [(⟨[.plain 'k' (by decide), .codeUnit ⟨0x30, rfl⟩ ⟨0x30, rfl⟩ ⟨0x65, rfl⟩ ⟨0x39, rfl⟩]⟩,
      .array
        [.scalar (.string ⟨[.plain 'é' (by decide), .escape .quote]⟩),
          .scalar (.number ⟨true, .positive ⟨1, [0]⟩ (by decide), some ⟨5, []⟩,
            some ⟨true, some false, ⟨2, []⟩⟩⟩),
          .scalar (.number ⟨false, .zero, none, none⟩)]),
      (⟨[.plain 'n' (by decide)]⟩, .scalar (.constant .null))]

def nestedGap : Nat → List Space
  | 2 | 3 => [.space]
  | 11 => [.lineFeed, .tab]
  | 15 => [.carriageReturn, .lineFeed]
  | _ => []

theorem nested_text :
    nested.text nestedGap =
      Bytes.ofText "\x7b\"k\\u00e9\" : [\"é\\\"\",-10.5E+2,0],\n\t\"n\":null\x7d\r\n" := by
  decide +kernel

end Grammar

section Strings

theorem isPlain_ofNat :
    ∀ n < 256, 0x20 ≤ n → n ≠ 0x22 → n ≠ 0x5C → isPlain (UInt8.ofNat n) = true := by
  decide +kernel

/-- Characters outside ASCII are written with bytes outside ASCII, so no byte of a character that
stands for itself is a quote, a backslash or a control. -/
theorem isPlain_of_mem {c : Char} (hc : 0x20 ≤ c.toNat ∧ c ≠ '"' ∧ c ≠ '\\') {b : UInt8}
    (hb : b ∈ String.utf8EncodeChar c) : isPlain b = true := by
  have hhigh (n : Nat) (hlow : 0x80 ≤ n) (hbyte : n < 256) : isPlain (UInt8.ofNat n) = true :=
    isPlain_ofNat n hbyte (by omega) (by omega) (by omega)
  obtain ⟨hcontrol, hquote, hbackslash⟩ := hc
  have hvalue : c.val.toNat = c.toNat := rfl
  simp only [String.utf8EncodeChar, hvalue] at hb
  split at hb
  case isTrue hascii =>
    rw [List.mem_singleton.mp hb]
    refine isPlain_ofNat _ (by omega) hcontrol ?_ ?_
    · exact fun hcode => hquote (Char.toNat_inj.mp hcode)
    · exact fun hcode => hbackslash (Char.toNat_inj.mp hcode)
  case isFalse =>
    split at hb
    · simp only [List.mem_cons, List.not_mem_nil, or_false] at hb
      rcases hb with rfl | rfl <;> exact hhigh _ (by omega) (by omega)
    split at hb
    · simp only [List.mem_cons, List.not_mem_nil, or_false] at hb
      rcases hb with rfl | rfl | rfl <;> exact hhigh _ (by omega) (by omega)
    · simp only [List.mem_cons, List.not_mem_nil, or_false] at hb
      rcases hb with rfl | rfl | rfl | rfl <;> exact hhigh _ (by omega) (by omega)

theorem StringBody.plainAll {text rest : List UInt8} (htext : ∀ b ∈ text, isPlain b = true)
    (hrest : StringBody rest) : StringBody (text ++ rest) := by
  induction text with
  | nil => exact hrest
  | cons b text ih =>
    obtain ⟨hb, htext⟩ := List.forall_mem_cons.mp htext
    exact .plain hb (ih htext)

theorem isPlain_of_isHexDigit : ∀ b : UInt8, isHexDigit b = true → isPlain b = true :=
  forall_byte (by decide +kernel)

theorem Character.body (character : Character) {rest : List UInt8} (hrest : StringBody rest) :
    StringBody (character.text ++ rest) := by
  cases character with
  | plain c hc => exact .plainAll (fun b hb => isPlain_of_mem hc hb) hrest
  | escape mark => exact .escape (by cases mark <;> decide) hrest
  | codeUnit first second third fourth =>
    -- The letter belongs to the backslash, and the digits stand for themselves.
    have hdigits : StringBody ([first.val, second.val, third.val, fourth.val] ++ rest) :=
      .plainAll (by simp [isPlain_of_isHexDigit, first.2, second.2, third.2, fourth.2]) hrest
    exact .escape (by decide) hdigits

theorem StringLiteral.longest (literal : StringLiteral) (rest : List UInt8) :
    LongestMatch .stringDouble literal.text rest := by
  refine string_longest ?_ rest
  induction literal.characters with
  | nil => exact .empty
  | cons character characters ih =>
    rw [List.flatMap_cons]
    exact character.body ih

end Strings

section Numbers

theorem isDigit_digitByte : ∀ digit : Fin 10, isDigit (digitByte digit) = true := by
  decide

theorem Digits.repeats (digits : Digits) : Repeats isDigit digits.text := by
  refine ⟨List.cons_ne_nil _ _, ?_⟩
  rw [text, List.forall_mem_map]
  exact fun digit _ => isDigit_digitByte digit

namespace Numeral

variable (numeral : Numeral)

theorem isInteger : Integer numeral.integerText := by
  refine ⟨_, _, rfl, ?_, ?_⟩
  · cases numeral.minus with
    | false => exact .inl rfl
    | true => exact .inr ⟨0x2D, rfl, rfl⟩
  · cases numeral.whole with
    | zero => exact .inl rfl
    | positive digits hfirst =>
      refine .inr ⟨digits.repeats, ?_⟩
      have hall : ∀ digit : Fin 10, digit ≠ 0 → digitByte digit ≠ 0x30 := by decide
      exact fun hzero => hall digits.first hfirst (Option.some.inj hzero)

theorem isFraction : Optionally Fraction numeral.fractionText := by
  unfold fractionText
  split
  case h_1 => exact .inl rfl
  case h_2 digits _ => exact .inr ⟨digits.text, rfl, digits.repeats⟩

theorem isExponent : Optionally Exponent numeral.powerText := by
  unfold powerText
  split
  case h_1 => exact .inl rfl
  case h_2 power _ =>
    refine .inr ⟨_, _, _, rfl, ?_, ?_, power.digits.repeats⟩
    · cases power.upper <;> rfl
    · cases power.minus? with
      | none => exact .inl rfl
      | some minus => exact .inr ⟨_, by cases minus <;> rfl, rfl⟩

theorem isWhole_iff : numeral.isWhole = true ↔ numeral.fractionText ++ numeral.powerText = [] := by
  rcases numeral with ⟨minus, whole, fraction?, power?⟩
  cases fraction? <;> cases power? <;> simp [isWhole, fractionText, powerText, Power.text]

theorem longest {rest : List UInt8} (hrest : ∀ b ∈ rest.head?, isNumeric b = false) :
    LongestMatch (Scalar.number numeral).kind numeral.text rest := by
  have hpattern := number_pattern numeral.isInteger numeral.isFraction numeral.isExponent
  have hkind : (Scalar.number numeral).kind =
      if numeral.fractionText ++ numeral.powerText = [] then .numberDecimal else .numberFloat := by
    simp only [Scalar.kind, isWhole_iff]
  rw [hkind]
  refine number_longest hpattern ?_ hrest
  split
  · exact .inl rfl
  · exact .inr rfl

end Numeral

end Numbers

section Layout

theorem Scalar.kind_mem (leaf : Scalar) : leaf.kind ∈ scalarKinds := by
  cases leaf with
  | string literal => exact List.mem_cons_self
  | number numeral =>
    simp only [Scalar.kind]
    split <;> decide
  | constant word => exact List.mem_of_elem_eq_true rfl

def spelling : Spelling StringLiteral Scalar where
  name := StringLiteral.text
  scalar leaf := (leaf.kind, leaf.text)
  scalar_kind := Scalar.kind_mem

def Token.fed : Token → Fed
  | .part lexeme => spelling.fed lexeme
  | .blank first rest => ⟨.ignorable, (first :: rest).map Space.byte, false⟩

theorem Token.fed_text (token : Token) : token.fed.text = token.text := by
  cases token with
  | part part => cases part <;> rfl
  | blank => rfl

theorem Token.kind_eq (token : Token) :
    token.kind = if token.fed.isName then .nameTag else token.fed.kind := by
  cases token with
  | part part => cases part <;> rfl
  | blank => rfl

variable {gap : Nat → List Space} {parts : List (Part StringLiteral Scalar)}

/-- Whitespace makes no difference to the parser. -/
theorem layOut_reads {state after : KeyState} (h : state.Reads (parts.map spelling.fed) after) :
    state.Reads ((layOut gap parts).map Token.fed) after := by
  have hgap {state after : KeyState} (spaces : List Space) {rest : List Token}
      (hrest : state.Reads (rest.map Token.fed) after) :
      state.Reads ((Token.ofGap spaces ++ rest).map Token.fed) after := by
    cases spaces with
    | nil => exact hrest
    | cons first spaces => exact .cons rfl rfl hrest
  induction parts generalizing state gap with
  | nil =>
    rw [layOut, ← List.append_nil (Token.ofGap (gap 0))]
    exact hgap _ h
  | cons part parts ih =>
    cases h with
    | cons hnext hkey hrest => exact hgap _ (.cons hnext hkey (ih hrest))

theorem isStructural_byte (mark : Structural) : Json.isStructural mark.byte = true := by
  cases mark <;> rfl

theorem blank_repeats (first : Space) (rest : List Space) :
    Repeats isSpace ((first :: rest).map Space.byte) := by
  refine ⟨List.cons_ne_nil _ _, ?_⟩
  rw [List.forall_mem_map]
  intro blank _
  cases blank <;> rfl

/-- Names and scalars end where no number goes on, structural characters anywhere. -/
theorem part_longest (part : Part StringLiteral Scalar) {rest : List UInt8}
    (hrest : part.isStructural = false → ∀ b ∈ rest.head?, isNumeric b = false) :
    LongestMatch (Token.part part).fed.kind (Token.part part).text rest := by
  cases part with
  | name literal => exact literal.longest rest
  | scalar leaf =>
    cases leaf with
    | string literal => exact literal.longest rest
    | number numeral => exact numeral.longest (hrest rfl)
    | constant word =>
      have hword : word.text ∈ constants := by cases word <;> decide
      exact constant_longest hword rest
  | structural mark => exact structural_longest (isStructural_byte mark) rest

theorem part_kind_ne (part : Part StringLiteral Scalar) : (Token.part part).fed.kind ≠ .ignorable := by
  cases part with
  | name literal => exact nofun
  | scalar leaf =>
    intro hkind
    have hmem : leaf.kind ∈ scalarKinds := leaf.kind_mem
    rw [show leaf.kind = .ignorable from hkind] at hmem
    exact absurd hmem (by decide)
  | structural mark => exact nofun

theorem part_head (part : Part StringLiteral Scalar) :
    ∃ b tail, (Token.part part).text = b :: tail ∧ isSpace b = false := by
  have hlongest : LongestMatch (Token.part part).fed.kind (Token.part part).text [] :=
    part_longest part (fun _ => nofun)
  obtain ⟨b, tail, htext, hopens⟩ := hlongest.pattern.opens
  refine ⟨b, tail, htext, Bool.eq_false_iff.mpr ?_⟩
  intro hspace
  rw [opens_space hspace] at hopens
  have hkind := Option.some.inj hopens
  split at hkind
  · cases hkind
  · exact part_kind_ne part hkind.symm

def LongestMatches : List Token → Prop
  | [] => True
  | token :: rest =>
    LongestMatch token.fed.kind token.text (rest.flatMap Token.text) ∧ LongestMatches rest

theorem layOut_head (hhead : ∀ part ∈ parts.head?, part.isStructural = true) :
    ∀ b ∈ ((layOut gap parts).flatMap Token.text).head?, isNumeric b = false := by
  intro b hb
  cases hgap : gap 0 with
  | cons first rest =>
    have hspace : isSpace b = true := by
      refine (blank_repeats first rest).each b ?_
      cases parts <;> simp_all [layOut, Token.ofGap, Token.text]
    exact space_class hspace
  | nil =>
    cases parts with
    | nil => simp [layOut, hgap, Token.ofGap] at hb
    | cons part parts =>
      cases part with
      | structural mark =>
        have hfirst : mark.byte = b := by simpa [layOut, hgap, Token.ofGap, Token.text] using hb
        rw [← hfirst]
        exact (structural_class (isStructural_byte mark)).2
      | name literal => cases hhead _ rfl
      | scalar leaf => cases hhead _ rfl

theorem gap_longestMatches (spaces : List Space) {rest : List Token} (hrest : LongestMatches rest)
    (hhead : ∀ b ∈ (rest.flatMap Token.text).head?, isSpace b = false) :
    LongestMatches (Token.ofGap spaces ++ rest) := by
  cases spaces with
  | nil => exact hrest
  | cons first spaces => exact ⟨blank_longest (blank_repeats first spaces) hhead, hrest⟩

/-- However lexemes are laid out, each of them and each run of whitespace is the longest match. -/
theorem layOut_longestMatches (hchain : parts.IsChain Part.Apart) :
    LongestMatches (layOut gap parts) := by
  induction parts generalizing gap with
  | nil =>
    rw [layOut, ← List.append_nil (Token.ofGap (gap 0))]
    exact gap_longestMatches _ trivial nofun
  | cons part parts ih =>
    obtain ⟨happart, hchain⟩ := List.isChain_cons.mp hchain
    refine gap_longestMatches _ ⟨part_longest part ?_, ih hchain⟩ ?_
    · intro hpart
      refine layOut_head ?_
      intro next hnext
      rcases happart next hnext with hself | hother
      · rw [hself] at hpart
        cases hpart
      · exact hother
    · obtain ⟨b, tail, htext, hb⟩ := part_head part
      simpa [htext] using hb

end Layout

section Texts

variable (value : Value StringLiteral Scalar) (gap : Nat → List Space)

theorem tokens_longestMatches : LongestMatches (value.tokens gap) := by
  refine layOut_longestMatches ?_
  have hchain := parts_keepsApart value [] .nil nofun
  rwa [List.append_nil] at hchain

/-- The parser follows a whole text and is done at its end. -/
theorem tokens_reads :
    KeyState.Reads {} ((value.tokens gap).map Token.fed) ⟨[], .nothing⟩ :=
  layOut_reads (parts_reads value rfl)

theorem LongestMatches.head {tokens : List Token} (h : LongestMatches tokens) (hsome : tokens ≠ []) :
    ∃ b tail, tokens.flatMap Token.text = b :: tail ∧ opens b ≠ none := by
  obtain ⟨token, rest, rfl⟩ := List.exists_cons_of_ne_nil hsome
  obtain ⟨b, tail, htext, hopens⟩ := h.1.pattern.opens
  refine ⟨b, tail ++ rest.flatMap Token.text, ?_, by simp [hopens]⟩
  rw [List.flatMap_cons, htext, List.cons_append]

theorem LongestMatches.length_le {tokens : List Token} (h : LongestMatches tokens) :
    tokens.length ≤ (tokens.flatMap Token.text).length := by
  induction tokens with
  | nil => exact Nat.le_refl 0
  | cons token rest ih =>
    obtain ⟨b, tail, htext, -⟩ := h.1.pattern.opens
    have hrest := ih h.2
    simp only [List.flatMap_cons, htext, List.length_append, List.length_cons]
    omega

theorem tokens_ne_nil : value.tokens gap ≠ [] := by
  have hparts : value.parts ≠ [] := by
    cases value <;> simp [Value.parts]
  obtain ⟨part, rest, hcons⟩ := List.exists_cons_of_ne_nil hparts
  simp [Value.tokens, hcons, layOut]

end Texts

end Highlighting.Json
