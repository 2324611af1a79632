import Highlighting.Grammar.Generator

/-! Expressions of ASCII characters match the same texts however their classes are read, and whether an
expression matches bytes can be decided by trying all ways to cut them. A generator that tries everything,
the longest first, is one that takes the longest match. -/
namespace Highlighting

def CharClass.isAscii (cls : CharClass) : Bool :=
  !cls.negated && cls.members.all (fun range => decide (range.last.toNat < 0x80))

def Expression.isAscii : Expression → Bool
  | .literal _ => true
  | .oneOf cls => cls.isAscii
  | .seq first second => first.isAscii && second.isAscii
  | .either first second => first.isAscii && second.isAscii
  | .many inner => inner.isAscii

section Readings

variable {cls : CharClass} {c : Char} {word : List UInt8} {reading : Reading}

theorem CharClass.lt_of_isAscii (hascii : cls.isAscii = true) (hc : cls.contains c = true) :
    c.toNat < 0x80 := by
  simp only [isAscii, Bool.and_eq_true, Bool.not_eq_true', List.all_eq_true, decide_eq_true_eq] at hascii
  obtain ⟨hpositive, hmembers⟩ := hascii
  simp only [contains, hpositive, Bool.bne_false, Bool.and_eq_true, List.any_eq_true] at hc
  obtain ⟨⟨range, hrange, hinside⟩, -⟩ := hc
  simp only [CharRange.contains, Bool.and_eq_true, decide_eq_true_eq] at hinside
  exact Nat.lt_of_le_of_lt hinside.2 (hmembers range hrange)

theorem utf8EncodeChar_of_lt (hc : c.toNat < 0x80) :
    String.utf8EncodeChar c = [UInt8.ofNat c.toNat] := by
  have hvalue : c.val.toNat = c.toNat := rfl
  have hle : c.toNat ≤ 0x7F := Nat.le_of_lt_succ hc
  simp [String.utf8EncodeChar, hvalue, hle]

theorem CharClass.matches_reading (hascii : cls.isAscii = true) :
    cls.Matches word reading ↔ cls.Matches word .bytes := by
  cases reading with
  | bytes => rfl
  | characters =>
    constructor
    · rintro ⟨c, hc, rfl⟩
      have hlow := cls.lt_of_isAscii hascii hc
      have hbyte : (UInt8.ofNat c.toNat).toNat = c.toNat :=
        UInt8.toNat_ofNat_of_lt' (Nat.lt_trans hlow (by decide))
      refine ⟨UInt8.ofNat c.toNat, ?_, utf8EncodeChar_of_lt hlow⟩
      rwa [hbyte, Char.ofNat_toNat]
    · rintro ⟨b, hb, rfl⟩
      have hlow := cls.lt_of_isAscii hascii hb
      refine ⟨Char.ofNat b.toNat, hb, ?_⟩
      have hvalid : b.toNat.isValidChar := .inl (Nat.lt_trans b.toNat_lt (by decide))
      have hnumber : (Char.ofNat b.toNat).toNat = b.toNat := by
        rw [Char.ofNat, dif_pos hvalid]
        rfl
      rw [utf8EncodeChar_of_lt hlow, hnumber, UInt8.ofNat_toNat]

theorem Expression.matches_reading {e : Expression} (hascii : e.isAscii = true) :
    e.Matches reading word ↔ e.Matches .bytes word := by
  induction e generalizing word with
  | literal text => rfl
  | oneOf cls => exact cls.matches_reading hascii
  | seq first second hfirst hsecond =>
    obtain ⟨hone, htwo⟩ := Bool.and_eq_true_iff.mp hascii
    simp only [Matches, hfirst hone, hsecond htwo]
  | either first second hfirst hsecond =>
    obtain ⟨hone, htwo⟩ := Bool.and_eq_true_iff.mp hascii
    simp only [Matches, hfirst hone, hsecond htwo]
  | many inner ih => simp only [Matches, ih hascii]

end Readings

section Many

variable {reading : Reading} {inner : Expression} {word front rest : List UInt8}

theorem Expression.many_nil : (Expression.many inner).Matches reading [] :=
  ⟨[], rfl, nofun⟩

theorem Expression.many_append (hfront : inner.Matches reading front)
    (hrest : (Expression.many inner).Matches reading rest) :
    (Expression.many inner).Matches reading (front ++ rest) := by
  obtain ⟨parts, rfl, hall⟩ := hrest
  exact ⟨front :: parts, rfl, List.forall_mem_cons.mpr ⟨hfront, hall⟩⟩

/-- What holds of nothing, and still with one more match in front, holds of all that is matched. -/
theorem Expression.many_induction {P : List UInt8 → Prop}
    (hword : (Expression.many inner).Matches reading word) (hnil : P [])
    (happend : ∀ front rest, inner.Matches reading front → P rest → P (front ++ rest)) : P word := by
  obtain ⟨parts, rfl, hall⟩ := hword
  induction parts with
  | nil => exact hnil
  | cons part parts ih =>
    obtain ⟨hpart, hparts⟩ := List.forall_mem_cons.mp hall
    exact happend part _ hpart (ih hparts)

end Many

section Trying

/-- Whether a word can be cut into parts of which each passes a test, with a bound for their number. -/
def cutsInto (test : List UInt8 → Bool) : Nat → List UInt8 → Bool
  | 0, word => word.isEmpty
  | count + 1, word =>
    word.isEmpty || (List.range word.length).any (fun length =>
      test (word.take (length + 1)) && cutsInto test count (word.drop (length + 1)))

def Expression.test : Expression → List UInt8 → Bool
  | .literal text, word => word == (Bytes.ofText text).toList
  | .oneOf cls, word => (word.head?.any (fun b => cls.contains (Char.ofNat b.toNat))) && word.length == 1
  | .seq first second, word =>
    (List.range (word.length + 1)).any (fun length =>
      first.test (word.take length) && second.test (word.drop length))
  | .either first second, word => first.test word || second.test word
  | .many inner, word => cutsInto inner.test word.length word

theorem cutsInto_iff {test : List UInt8 → Bool} {count : Nat} {word : List UInt8}
    (hcount : word.length ≤ count) :
    cutsInto test count word = true ↔
      ∃ parts : List (List UInt8), word = parts.flatten ∧ ∀ part ∈ parts, test part = true := by
  constructor
  · intro hcuts
    induction count generalizing word with
    | zero =>
      rw [List.length_eq_zero_iff.mp (Nat.le_zero.mp hcount)]
      exact ⟨[], rfl, nofun⟩
    | succ count ih =>
      simp only [cutsInto, Bool.or_eq_true, List.any_eq_true, List.mem_range, Bool.and_eq_true] at hcuts
      rcases hcuts with hempty | ⟨length, hlength, hpart, hrest⟩
      · rw [List.isEmpty_iff.mp hempty]
        exact ⟨[], rfl, nofun⟩
      · have hshort : (word.drop (length + 1)).length ≤ count := by
          rw [List.length_drop]
          omega
        obtain ⟨parts, hparts, hall⟩ := ih hshort hrest
        refine ⟨word.take (length + 1) :: parts, ?_, List.forall_mem_cons.mpr ⟨hpart, hall⟩⟩
        rw [List.flatten_cons, ← hparts, List.take_append_drop]
  · rintro ⟨parts, rfl, hall⟩
    -- Parts without a byte are left out.
    induction parts generalizing count with
    | nil => cases count <;> rfl
    | cons part parts ih =>
      obtain ⟨hpart, hrest⟩ := List.forall_mem_cons.mp hall
      rw [List.flatten_cons] at hcount ⊢
      cases part with
      | nil => exact ih hrest hcount
      | cons b more =>
        cases count with
        | zero => cases hcount
        | succ count =>
          rw [List.length_append, List.length_cons] at hcount
          have hshort : parts.flatten.length ≤ count := by omega
          simp only [cutsInto, Bool.or_eq_true, List.any_eq_true, List.mem_range, Bool.and_eq_true]
          refine .inr ⟨more.length, ?_, ?_, ?_⟩
          · rw [List.length_append, List.length_cons]
            omega
          · simpa using hpart
          · simpa using ih hrest hshort

theorem Expression.test_iff {e : Expression} {word : List UInt8} :
    e.test word = true ↔ e.Matches .bytes word := by
  induction e generalizing word with
  | literal text => exact beq_iff_eq
  | oneOf cls =>
    simp only [test, Matches, CharClass.Matches, Bool.and_eq_true, beq_iff_eq]
    constructor
    · rintro ⟨hfirst, hlength⟩
      obtain ⟨b, rfl⟩ := List.length_eq_one_iff.mp hlength
      exact ⟨b, by simpa using hfirst, rfl⟩
    · rintro ⟨b, hb, rfl⟩
      exact ⟨by simpa using hb, rfl⟩
  | seq first second hfirst hsecond =>
    simp only [test, Matches, List.any_eq_true, List.mem_range, Bool.and_eq_true, hfirst, hsecond]
    constructor
    · rintro ⟨length, -, hfront, hback⟩
      exact ⟨_, _, (List.take_append_drop length word).symm, hfront, hback⟩
    · rintro ⟨front, back, rfl, hfront, hback⟩
      refine ⟨front.length, ?_, ?_, ?_⟩
      · rw [List.length_append]
        omega
      · rwa [List.take_left]
      · rwa [List.drop_left]
  | either first second hfirst hsecond => simp only [test, Matches, Bool.or_eq_true, hfirst, hsecond]
  | many inner ih => simp only [test, Matches, cutsInto_iff (Nat.le_refl _), ih]

variable {τ : Type}

def longestFrom (found? : Nat → Option τ) : Nat → Option (τ × Nat)
  | 0 => none
  | length + 1 =>
    match found? (length + 1) with
    | some token => some (token, length + 1)
    | none => longestFrom found? length

theorem longestFrom_eq_some {found? : Nat → Option τ} {bound length : Nat} {token : τ}
    (h : longestFrom found? bound = some (token, length)) :
    0 < length ∧ length ≤ bound ∧ found? length = some token ∧
      ∀ longer, length < longer → longer ≤ bound → found? longer = none := by
  induction bound with
  | zero => cases h
  | succ bound ih =>
    unfold longestFrom at h
    split at h
    case h_1 token hfound =>
      cases h
      exact ⟨Nat.succ_pos bound, Nat.le_refl _, hfound, fun longer hmore hless => by omega⟩
    case h_2 hnone =>
      obtain ⟨hpos, hbound, hfound, hlonger⟩ := ih h
      refine ⟨hpos, Nat.le_succ_of_le hbound, hfound, ?_⟩
      intro longer hmore hless
      rcases Nat.le_succ_iff.mp hless with hwithin | rfl
      · exact hlonger longer hmore hwithin
      · exact hnone

theorem longestFrom_eq_none {found? : Nat → Option τ} {bound : Nat}
    (h : longestFrom found? bound = none) {length : Nat} (hpos : 0 < length) (hbound : length ≤ bound) :
    found? length = none := by
  induction bound with
  | zero => omega
  | succ bound ih =>
    unfold longestFrom at h
    split at h
    case h_1 => cases h
    case h_2 hnone =>
      rcases Nat.le_succ_iff.mp hbound with hwithin | rfl
      · exact ih h hwithin
      · exact hnone

def declared? (declarations : List (Expression × τ)) (source : List UInt8) (length : Nat) : Option τ :=
  (declarations.find? (fun declaration => declaration.1.test (source.take length))).map Prod.snd

/-- The generator that tries everything. An error takes one byte. -/
def Generator.exhaustive : Generator := fun _ declarations source =>
  if source = [] then none
  else
    match longestFrom (declared? declarations source) source.length with
    | some (token, length) => some ⟨some token, length⟩
    | none => some ⟨none, 1⟩

variable {declarations : List (Expression × τ)} {source : List UInt8} {token : τ} {length : Nat}

theorem Declares.bounds {reading : Reading}
    (h : Declares reading declarations source token length) : 0 < length ∧ length ≤ source.length := by
  obtain ⟨-, -, hpos, hlength, -⟩ := h
  exact ⟨hpos, hlength⟩

theorem declares_of_declared? (h : declared? declarations source length = some token)
    (hpos : 0 < length) (hlength : length ≤ source.length) :
    Declares .bytes declarations source token length := by
  obtain ⟨declaration, hfound, rfl⟩ := Option.map_eq_some_iff.mp h
  refine ⟨declaration.1, List.mem_of_find?_eq_some hfound, hpos, hlength, ?_⟩
  have htest := List.find?_some (p := fun declaration : Expression × τ =>
    declaration.1.test (source.take length)) hfound
  exact Expression.test_iff.mp htest

theorem not_declares_of_declared? (h : declared? declarations source length = none) :
    ¬ Declares .bytes declarations source token length := by
  rintro ⟨expression, hmem, -, -, hmatches⟩
  rw [declared?, Option.map_eq_none_iff, List.find?_eq_none] at h
  exact h _ hmem (Expression.test_iff.mpr hmatches)

theorem Generator.exhaustive_takesLongest : Generator.exhaustive.TakesLongest .bytes where
  exhausted _ _ := if_pos rfl
  answers _ declarations source hsome := by
    simp only [exhaustive, if_neg hsome]
    split <;> exact ⟨_, rfl⟩
  token _ declarations source token length h := by
    unfold exhaustive at h
    split at h
    case isTrue => cases h
    case isFalse =>
      split at h
      case h_1 hlongest =>
        cases h
        obtain ⟨hpos, hbound, hfound, hlonger⟩ := longestFrom_eq_some hlongest
        refine ⟨declares_of_declared? hfound hpos hbound, ?_⟩
        intro other longer hother
        apply Nat.le_of_not_lt
        intro hmore
        exact not_declares_of_declared? (hlonger longer hmore hother.bounds.2) hother
      case h_2 => cases h
  error _ declarations source length h token longer hother := by
    unfold exhaustive at h
    split at h
    case isTrue => cases h
    case isFalse =>
      split at h
      case h_1 => cases h
      case h_2 hnone =>
        have hsilent := longestFrom_eq_none hnone hother.bounds.1 hother.bounds.2
        exact not_declares_of_declared? hsilent hother

end Trying

end Highlighting
