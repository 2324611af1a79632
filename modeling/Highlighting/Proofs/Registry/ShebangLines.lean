import Highlighting.Proofs.Grammar.LineKinds
import Highlighting.Registry.Lexers

/-! How a source opens. A byte order mark is passed over, and a shebang line is set apart from the text
behind it, wherever the first line of that text ends. A guess is made from the words of that line, and if
they say nothing from the text. -/
namespace Highlighting

namespace Bytes

def unmarked (text : List UInt8) : List UInt8 :=
  if byteOrderMark.isPrefixOf text then text.drop byteOrderMark.length else text

/-- What the first line of a text says behind `#!`, if it says anything, and the text behind the line. -/
def shebangSplit? (text : List UInt8) : Option (List UInt8 × List UInt8) :=
  match splitLines text with
  | (0x23 :: 0x21 :: b :: line) :: lines => some (b :: line, lines.flatten)
  | _ => none

variable {bytes : Bytes} {text : List UInt8} {lines : List (List UInt8)}

theorem toList_extract_size (bytes : Bytes) : (bytes.extract 0 bytes.size).toList = bytes.toList := by
  rw [Array.extract_size]

theorem toList_drop (bytes : Bytes) (start : Nat) :
    (bytes.drop start).toList = bytes.toList.drop start := by
  rw [drop, Array.toList_extract, List.extract, ← Array.length_toList, ← List.length_drop,
    List.take_length]

theorem startsWith_eq_isPrefixOf (bytes : Bytes) (pattern : List UInt8) :
    bytes.startsWith pattern = pattern.isPrefixOf bytes.toList := by
  rw [startsWith, matchesAt_eq_isPrefixOf (Nat.le_refl _), toList_extract_size]

theorem stripByteOrderMark_toList (bytes : Bytes) :
    bytes.stripByteOrderMark.toList = unmarked bytes.toList := by
  rw [stripByteOrderMark, unmarked, startsWith_eq_isPrefixOf]
  split
  case isTrue => exact bytes.toList_drop _
  case isFalse => rfl

theorem FallsInto.flatten_eq (h : FallsInto text lines) : lines.flatten = text := by
  induction h with
  | nil => rfl
  | last => exact List.flatten_singleton
  | cons _ _ _ _ ih => rw [List.flatten_cons, ih]

theorem opensWithShebang_iff :
    bytes.opensWithShebang = true ↔ ∃ b more, bytes.toList = 0x23 :: 0x21 :: b :: more := by
  rw [opensWithShebang, startsWith_eq_isPrefixOf, Bool.and_eq_true, decide_eq_true_eq,
    List.isPrefixOf_iff_prefix, ← Array.length_toList]
  constructor
  · rintro ⟨hmore, rest, hrest⟩
    cases rest with
    | nil =>
      rw [← hrest] at hmore
      exact absurd hmore (by decide)
    | cons b more => exact ⟨b, more, hrest.symm⟩
  · rintro ⟨b, more, hbytes⟩
    rw [hbytes]
    refine ⟨?_, b :: more, rfl⟩
    simp only [shebang, List.length_cons, List.length_nil]
    omega

theorem shebangEnd_eq_lineEnd (hopens : bytes.opensWithShebang = true) :
    LexerRegistry.shebangEnd bytes = bytes.lineEnd bytes.size 0 := by
  have hend : bytes.lineBreak bytes.size 0 ≤ bytes.size := lineBreak_le (Nat.zero_le _)
  rw [LexerRegistry.shebangEnd, shebangLineEnd?_eq hopens]
  split
  case isTrue => rfl
  case isFalse hunbroken =>
    rw [lineEnd, if_neg hunbroken, Option.getD_none]
    omega

theorem extract_lineEnd {b : UInt8} {more : List UInt8}
    (hbytes : bytes.toList = 0x23 :: 0x21 :: b :: more) :
    ∃ line, (bytes.extract 0 (bytes.lineEnd bytes.size 0)).toList = 0x23 :: 0x21 :: b :: line ∧
      (bytes.extract 2 (bytes.lineEnd bytes.size 0)).toList = b :: line := by
  have hbyte (i : Nat) : bytes[i]? = (0x23 :: 0x21 :: b :: more)[i]? := by
    rw [← hbytes, Array.getElem?_toList]
  have hsize : 2 < bytes.size := by
    rw [← Array.length_toList, hbytes, List.length_cons, List.length_cons, List.length_cons]
    omega
  -- The two bytes are no line breaks, so the line reaches beyond them.
  have hend : 2 < bytes.lineEnd bytes.size 0 := by
    rw [← lineEnd_succ (by omega) (hbyte 0) rfl, ← lineEnd_succ (by omega) (hbyte 1) rfl]
    exact lt_lineEnd hsize
  refine ⟨(bytes.extract 3 (bytes.lineEnd bytes.size 0)).toList, ?_, extract_cons hend (hbyte 2)⟩
  rw [extract_cons (by omega) (hbyte 0), extract_cons (by omega) (hbyte 1), extract_cons hend (hbyte 2)]

theorem shebangSplit?_toList (bytes : Bytes) :
    shebangSplit? bytes.toList =
      if bytes.opensWithShebang then
        some ((bytes.extract 2 (bytes.lineEnd bytes.size 0)).toList,
          (bytes.drop (bytes.lineEnd bytes.size 0)).toList)
      else none := by
  have hsplit (hsome : 0 < bytes.size) : splitLines bytes.toList =
      (bytes.extract 0 (bytes.lineEnd bytes.size 0)).toList ::
        splitLines (bytes.drop (bytes.lineEnd bytes.size 0)).toList := by
    rw [drop, ← splitLines_extract (Nat.le_refl _) hsome, toList_extract_size]
  split
  case isTrue hopens =>
    obtain ⟨b, more, hbytes⟩ := opensWithShebang_iff.mp hopens
    obtain ⟨line, hline, hbehind⟩ := extract_lineEnd hbytes
    have hsome : 0 < bytes.size := by
      rw [← Array.length_toList, hbytes]
      exact Nat.zero_lt_succ _
    rw [shebangSplit?, hsplit hsome, hline, hbehind]
    simp only [(splitLines_fallsInto _).flatten_eq]
  case isFalse hopens =>
    unfold shebangSplit?
    split
    case h_2 => rfl
    case h_1 b line lines hlines =>
      refine absurd (opensWithShebang_iff.mpr ⟨b, line ++ lines.flatten, ?_⟩) hopens
      rw [← (splitLines_fallsInto bytes.toList).flatten_eq, hlines]
      rfl

def shebangLine? (source : Bytes) : Option (List UInt8) :=
  (shebangSplit? (unmarked source.toList)).map Prod.fst

def body (source : Bytes) : Bytes :=
  match shebangSplit? (unmarked source.toList) with
  | some (_, text) => text.toArray
  | none => (unmarked source.toList).toArray

end Bytes

def shebangWords (line : List UInt8) : List (List Char) :=
  Text.words (Utf8.decode line.toArray).toList

namespace LexerRegistry

variable (catalog : Catalog) (registry : LexerRegistry)

def forLine? (line : List UInt8) : Option LanguageId :=
  (interpreterCandidates (Utf8.decode line.toArray).toList).findSome? (registry.forInterpreter? catalog)

/-- A guess is made from the shebang line, and if that says nothing from the text behind it. -/
theorem guess?_eq (source : Bytes) :
    registry.guess? catalog source =
      (source.shebangLine?.bind (registry.forLine? catalog)).or
        (registry.bestScoring? catalog source.body) := by
  rw [guess?, Bytes.shebangLine?, Bytes.body, ← Bytes.stripByteOrderMark_toList,
    Bytes.shebangSplit?_toList]
  generalize source.stripByteOrderMark = input
  split
  case isTrue hopens =>
    simp only [Option.map_some, Option.bind_some, forShebang?, Bytes.shebangEnd_eq_lineEnd hopens]
    rfl
  case isFalse => simp only [Option.map_none, Option.bind_none, Option.none_or]

end LexerRegistry

end Highlighting
