import Highlighting.Proofs.Grammar.Consumption
import Highlighting.Proofs.Grammar.JsonPatterns

/-! The scanner for JSON takes the longest match. It reads the window byte by byte; what it sees is
said here in terms of the list of the bytes that remain. -/
namespace Highlighting

theorem Bytes.extract_eq_cons {bytes : Bytes} {start stop : Nat} {b : UInt8} {tail : List UInt8}
    (h : (bytes.extract start stop).toList = b :: tail) :
    start < stop ∧ bytes[start]? = some b ∧ (bytes.extract (start + 1) stop).toList = tail := by
  have hfirst : (bytes.extract start stop)[0]? = some b := by
    rw [← Array.getElem?_toList, h]
    rfl
  have htail : (bytes.extract (start + 1) stop).toList = ((bytes.extract start stop).toList).drop 1 := by
    simp only [Array.toList_extract, List.extract, List.drop_take, List.drop_drop]
    rw [Nat.sub_sub]
  rw [Array.getElem?_extract] at hfirst
  split at hfirst
  · refine ⟨by omega, by simpa using hfirst, ?_⟩
    rw [htail, h]
    rfl
  · cases hfirst

theorem Bytes.extract_cons {bytes : Bytes} {start stop : Nat} {b : UInt8} (hmore : start < stop)
    (hbyte : bytes[start]? = some b) :
    (bytes.extract start stop).toList = b :: (bytes.extract (start + 1) stop).toList := by
  cases hview : (bytes.extract start stop).toList with
  | nil =>
    have hsize := congrArg List.length hview
    have hless : start < bytes.size := (Array.getElem?_eq_some_iff.mp hbyte).1
    simp only [Array.length_toList, Array.size_extract, List.length_nil] at hsize
    omega
  | cons c tail =>
    obtain ⟨-, hc, htail⟩ := extract_eq_cons hview
    rw [htail, Option.some.inj (hc.symm.trans hbyte)]

theorem Bytes.extract_nil {bytes : Bytes} {start stop : Nat} (hstop : stop ≤ start) :
    (bytes.extract start stop).toList = [] := by
  rw [Array.extract_empty_of_stop_le_start hstop]

theorem Bytes.extract_append (bytes : Bytes) {start middle stop : Nat} (hstart : start ≤ middle)
    (hmiddle : middle ≤ stop) :
    (bytes.extract start stop).toList =
      (bytes.extract start middle).toList ++ (bytes.extract middle stop).toList := by
  rw [← Array.toList_append, Array.extract_append_extract, Nat.min_eq_left hstart,
    Nat.max_eq_right hmiddle]

theorem Bytes.matchesAt_eq_isPrefixOf {bytes : Bytes} {limit start : Nat} (hlimit : limit ≤ bytes.size)
    (pattern : List UInt8) :
    bytes.matchesAt limit start pattern = pattern.isPrefixOf (bytes.extract start limit).toList := by
  induction pattern generalizing start with
  | nil => rfl
  | cons first pattern ih =>
    by_cases hmore : start < limit
    · have hbyte : bytes[start]? = some bytes[start] := Array.getElem?_eq_getElem _
      rw [matchesAt, ih, extract_cons hmore hbyte, hbyte]
      simp [List.isPrefixOf, hmore, Bool.beq_comm]
    · rw [matchesAt, extract_nil (Nat.le_of_not_lt hmore)]
      simp [hmore]

theorem Bytes.extract_eq_append {bytes : Bytes} {start stop : Nat} {front tail : List UInt8}
    (h : (bytes.extract start stop).toList = front ++ tail) :
    (bytes.extract start (start + front.length)).toList = front ∧
      (bytes.extract (start + front.length) stop).toList = tail := by
  have hlength : front.length ≤ stop - start := by
    have hsize := congrArg List.length h
    simp only [Array.length_toList, Array.size_extract, List.length_append] at hsize
    omega
  have hfront : (bytes.extract start (start + front.length)).toList =
      ((bytes.extract start stop).toList).take front.length := by
    simp only [Array.toList_extract, List.extract, List.take_take]
    rw [Nat.add_sub_cancel_left, Nat.min_eq_left hlength]
  have htail : (bytes.extract (start + front.length) stop).toList =
      ((bytes.extract start stop).toList).drop front.length := by
    simp only [Array.toList_extract, List.extract, List.drop_take, List.drop_drop]
    rw [Nat.sub_sub]
  rw [hfront, htail, h]
  exact ⟨List.take_left, List.drop_left⟩

theorem Bytes.skipUpTo_eq_takeWhile (bytes : Bytes) (p : UInt8 → Bool) (count start : Nat) :
    bytes.skipUpTo p count start =
      start + ((bytes.extract start (start + count)).toList.takeWhile p).length := by
  induction count generalizing start with
  | zero => simp [skipUpTo]
  | succ count ih =>
    cases hview : (bytes.extract start (start + (count + 1))).toList with
    | nil =>
      have hend : bytes[start]? = none := by
        have hsize := congrArg List.length hview
        simp only [Array.length_toList, Array.size_extract, List.length_nil] at hsize
        exact Array.getElem?_eq_none (by omega)
      simp [skipUpTo, hend]
    | cons b tail =>
      obtain ⟨-, hb, htail⟩ := extract_eq_cons hview
      have hstop : start + (count + 1) = start + 1 + count := by omega
      rw [hstop] at htail
      simp only [skipUpTo, hb, ih, htail, List.takeWhile_cons]
      split
      · rw [List.length_cons]
        omega
      · rfl

namespace ScanContext

variable {w : Window} (cx : ScanContext w)

theorem peekAt_eq_getElem? (offset : Nat) : cx.peekAt offset = cx.rest.toList[offset]? := by
  have hlimit := w.limit_le_size
  rw [Array.getElem?_toList, rest, Array.getElem?_extract, peekAt]
  simp only [Nat.min_eq_left hlimit]
  split
  · rw [if_pos (by omega)]
  · rw [if_neg (by omega)]

variable {cx} {front tail : List UInt8}

theorem peekAt_length (hrest : cx.rest.toList = front ++ tail) :
    cx.peekAt front.length = tail.head? := by
  rw [peekAt_eq_getElem?, hrest, List.getElem?_append_right (Nat.le_refl _), Nat.sub_self,
    List.head?_eq_getElem?]

theorem runLength_length (hrest : cx.rest.toList = front ++ tail) (p : UInt8 → Bool) :
    cx.runLength p front.length = (tail.takeWhile p).length := by
  have htail := (Bytes.extract_eq_append hrest).2
  rw [runLength, Bytes.skipWhile, Bytes.skipUpTo_eq_takeWhile, Nat.add_sub_cancel_left]
  by_cases hwithin : cx.cursor + front.length ≤ w.limit
  · rw [Nat.add_sub_cancel' hwithin, htail]
  · -- Behind the limit nothing is seen, and nothing remains.
    have hnone : tail = [] := by
      rw [← htail, Array.extract_empty_of_stop_le_start (by omega)]
    have hzero : w.limit - (cx.cursor + front.length) = 0 := by omega
    rw [hzero, Nat.add_zero, Array.extract_empty_of_stop_le_start (Nat.le_refl _), hnone]

theorem startsWith_eq_true {text : List UInt8} (hrest : cx.rest.toList = text ++ tail) :
    cx.startsWith text = true := by
  have hmatches (text : List UInt8) (start : Nat)
      (hview : (w.input.extract start w.limit).toList = text ++ tail) :
      w.input.matchesAt w.limit start text = true := by
    induction text generalizing start with
    | nil => rfl
    | cons b text ih =>
      obtain ⟨hlt, hb, hview⟩ := Bytes.extract_eq_cons hview
      simp [Bytes.matchesAt, hlt, hb, ih (start + 1) hview]
  exact hmatches text cx.cursor hrest

end ScanContext

namespace Json

variable {w : Window} {cx : ScanContext w} {front tail : List UInt8}

theorem testAt_length (hrest : cx.rest.toList = front ++ tail) (p : UInt8 → Bool) :
    testAt cx p front.length = tail.head?.any p := by
  rw [testAt, ScanContext.peekAt_length hrest]

theorem takeWhile_eq {p : UInt8 → Bool} {run : List UInt8} (hrun : ∀ b ∈ run, p b = true)
    (hstop : ∀ b ∈ tail.head?, p b = false) : (run ++ tail).takeWhile p = run := by
  have hnone : tail.takeWhile p = [] := by
    cases tail with
    | nil => rfl
    | cons b tail => simp [hstop b rfl]
  rw [List.takeWhile_append_of_pos hrun, hnone, List.append_nil]

section Numbers

theorem integerLength?_eq {text : List UInt8} (hrest : cx.rest.toList = text ++ tail)
    (htext : Integer text)
    (hstop : ∀ b ∈ tail.head?, isDigit b = true → ¬ Integer (text ++ [b])) :
    integerLength? cx = some text.length := by
  obtain ⟨sign, digits, rfl, hsign, hdigits⟩ := htext
  rw [List.append_assoc] at hrest
  have hfirst : ∃ b more, digits = b :: more ∧ isDigit b = true := by
    rcases hdigits with rfl | ⟨hdigits, -⟩
    · exact ⟨0x30, [], rfl, by decide⟩
    · obtain ⟨b, more, rfl⟩ := List.exists_cons_of_ne_nil hdigits.nonempty
      exact ⟨b, more, rfl, hdigits.each b List.mem_cons_self⟩
  obtain ⟨first, more, hcons, hfirst⟩ := hfirst
  -- The sign is there if the first byte is a minus, which no digit is.
  have hlength : (if testAt cx (· == 0x2D) 0 then 1 else 0) = sign.length := by
    have hnil : cx.rest.toList = [] ++ (sign ++ (digits ++ tail)) := hrest
    have hhead : testAt cx (· == 0x2D) 0 = (sign ++ (digits ++ tail)).head?.any (· == 0x2D) :=
      testAt_length hnil _
    rw [hhead]
    rcases hsign with rfl | ⟨b, hb, rfl⟩
    · have hminus : first ≠ 0x2D := (digit_class first hfirst).2.2.2.2
      simp [hcons, hminus]
    · simp [hb]
  have hzero : testAt cx (· == 0x30) sign.length = (first == 0x30) := by
    rw [testAt_length hrest]
    simp [hcons]
  simp only [integerLength?, hlength, hzero]
  split
  case isTrue hfirst =>
    rcases hdigits with rfl | ⟨-, hnonzero⟩
    · simp
    · rw [hcons, beq_iff_eq.mp hfirst] at hnonzero
      exact absurd rfl hnonzero
  case isFalse hfirst =>
    rcases hdigits with rfl | ⟨hdigits, hnonzero⟩
    · cases hcons
      exact absurd rfl hfirst
    · have hdigit : testAt cx isDigit sign.length = true := by
        rw [testAt_length hrest]
        simp_all
      have hrun : (digits ++ tail).takeWhile isDigit = digits := by
        refine takeWhile_eq hdigits.each ?_
        intro b hb
        cases hclass : isDigit b with
        | false => rfl
        | true =>
          refine absurd ⟨sign, digits ++ [b], by simp, hsign, .inr ⟨⟨by simp, ?_⟩, ?_⟩⟩
            (hstop b hb hclass)
          · rw [List.forall_mem_append]
            exact ⟨hdigits.each, by simpa using hclass⟩
          · simpa [hcons] using hnonzero
      rw [if_pos hdigit, ScanContext.runLength_length hrest, hrun, List.length_append]

theorem fractionLength_eq {fraction : List UInt8} (hrest : cx.rest.toList = front ++ (fraction ++ tail))
    (hfraction : Fraction fraction) (hstop : ∀ b ∈ tail.head?, isDigit b = false) :
    fractionLength cx front.length = fraction.length := by
  obtain ⟨digits, rfl, hdigits⟩ := hfraction
  have hpoint : testAt cx (· == 0x2E) front.length = true := by
    rw [testAt_length hrest]
    rfl
  have hrun : cx.runLength isDigit (front.length + 1) = digits.length := by
    have hbehind : cx.rest.toList = (front ++ [0x2E]) ++ (digits ++ tail) := by simp [hrest]
    have hlength := ScanContext.runLength_length hbehind isDigit
    rwa [takeWhile_eq hdigits.each hstop, List.length_append] at hlength
  have hsome : digits.length ≠ 0 := fun hzero => hdigits.nonempty (List.eq_nil_of_length_eq_zero hzero)
  simp only [fractionLength, hpoint, if_true, hrun, if_neg hsome, List.length_cons]
  omega

theorem fractionLength_eq_zero (hrest : cx.rest.toList = front ++ tail)
    (hnone : ∀ more, Fraction more → ¬ more <+: tail) : fractionLength cx front.length = 0 := by
  unfold fractionLength
  split
  case isTrue hpoint =>
    dsimp only
    split
    case isTrue => rfl
    case isFalse hsome =>
      rw [testAt_length hrest] at hpoint
      obtain ⟨b, more, rfl⟩ : ∃ b more, tail = b :: more := by
        cases tail with
        | nil => cases hpoint
        | cons b more => exact ⟨b, more, rfl⟩
      have hb : b = 0x2E := by simpa using hpoint
      have hbehind : cx.rest.toList = (front ++ [b]) ++ more := by simp [hrest]
      have hrun := ScanContext.runLength_length hbehind isDigit
      rw [List.length_append, List.length_singleton] at hrun
      rw [hrun] at hsome
      refine absurd ?_ (hnone (0x2E :: more.takeWhile isDigit) ⟨_, rfl, ?_, ?_⟩)
      · rw [hb, List.cons_prefix_cons]
        exact ⟨rfl, List.takeWhile_prefix isDigit⟩
      · intro hempty
        exact hsome (by simp [hempty])
      · exact List.all_eq_true.mp List.all_takeWhile
  case isFalse => rfl

theorem exponent_parts {mark : UInt8} {sign digits : List UInt8}
    (hrest : cx.rest.toList = front ++ (mark :: (sign ++ (digits ++ tail))))
    (hsign : Optionally (Single isSign) sign) (hdigits : Repeats isDigit digits)
    (hstop : ∀ b ∈ tail.head?, isDigit b = false) :
    (if testAt cx isSign (front.length + 1) then 1 else 0) = sign.length ∧
      cx.runLength isDigit (front.length + 1 + sign.length) = digits.length := by
  have hbehind : cx.rest.toList = (front ++ [mark]) ++ (sign ++ (digits ++ tail)) := by simp [hrest]
  have hdeeper : cx.rest.toList = (front ++ [mark] ++ sign) ++ (digits ++ tail) := by simp [hrest]
  constructor
  · have htest := testAt_length hbehind isSign
    rw [List.length_append, List.length_singleton] at htest
    rw [htest]
    rcases hsign with rfl | ⟨b, hb, rfl⟩
    · obtain ⟨b, more, rfl⟩ := List.exists_cons_of_ne_nil hdigits.nonempty
      have hnoSign : isSign b = false := (digit_class b (hdigits.each b List.mem_cons_self)).2.2.1
      simp [hnoSign]
    · simp [hb]
  · have hlength := ScanContext.runLength_length hdeeper isDigit
    rwa [takeWhile_eq hdigits.each hstop, List.length_append, List.length_append,
      List.length_singleton] at hlength

theorem exponentLength_eq {exponent : List UInt8}
    (hrest : cx.rest.toList = front ++ (exponent ++ tail)) (hexponent : Exponent exponent)
    (hstop : ∀ b ∈ tail.head?, isDigit b = false) :
    exponentLength cx front.length = exponent.length := by
  obtain ⟨mark, sign, digits, rfl, hmark, hsign, hdigits⟩ := hexponent
  have htest : testAt cx isExponentMark front.length = true := by
    rw [testAt_length hrest]
    exact hmark
  rw [List.cons_append, List.append_assoc] at hrest
  obtain ⟨hlength, hrun⟩ := exponent_parts hrest hsign hdigits hstop
  have hsome : digits.length ≠ 0 := fun hzero => hdigits.nonempty (List.eq_nil_of_length_eq_zero hzero)
  simp only [exponentLength, htest, if_true, hlength, hrun, if_neg hsome, List.length_cons,
    List.length_append]
  omega

theorem exponentLength_eq_zero (hrest : cx.rest.toList = front ++ tail)
    (hnone : ∀ more, Exponent more → ¬ more <+: tail) : exponentLength cx front.length = 0 := by
  unfold exponentLength
  split
  case isTrue hmark =>
    rw [testAt_length hrest] at hmark
    obtain ⟨mark, more, rfl⟩ : ∃ b more, tail = b :: more := by
      cases tail with
      | nil => cases hmark
      | cons b more => exact ⟨b, more, rfl⟩
    have hmark : isExponentMark mark = true := by simpa using hmark
    have hbehind : cx.rest.toList = (front ++ [mark]) ++ more := by simp [hrest]
    have htest := testAt_length hbehind isSign
    rw [List.length_append, List.length_singleton] at htest
    obtain ⟨sign, digits, hmore, hsign, hlength⟩ : ∃ sign digits, more = sign ++ digits ∧
        Optionally (Single isSign) sign ∧
        (if testAt cx isSign (front.length + 1) then 1 else 0) = sign.length := by
      cases hhead : more.head?.any isSign with
      | false => exact ⟨[], more, rfl, .inl rfl, by simp [htest, hhead]⟩
      | true =>
        cases more with
        | nil => cases hhead
        | cons b digits =>
          refine ⟨[b], digits, rfl, .inr ⟨b, by simpa using hhead, rfl⟩, ?_⟩
          rw [htest, hhead]
          rfl
    have hdeeper : cx.rest.toList = (front ++ [mark] ++ sign) ++ digits := by simp [hrest, hmore]
    have hrun := ScanContext.runLength_length hdeeper isDigit
    rw [List.length_append, List.length_append, List.length_singleton] at hrun
    simp only [hlength, hrun]
    split
    case isTrue => rfl
    case isFalse hsome =>
      refine absurd ?_ (hnone (mark :: (sign ++ digits.takeWhile isDigit))
        ⟨mark, sign, _, rfl, hmark, hsign, ?_, ?_⟩)
      · rw [hmore, List.cons_prefix_cons, List.prefix_append_right_inj]
        exact ⟨rfl, List.takeWhile_prefix isDigit⟩
      · intro hempty
        exact hsome (by simp [hempty])
      · exact List.all_eq_true.mp List.all_takeWhile
  case isFalse => rfl

/-- A number at the cursor that nothing longer stands in the place of. -/
structure NumberAt (cx : ScanContext w) (whole fraction exponent tail : List UInt8) : Prop where
  rest_eq : cx.rest.toList = whole ++ (fraction ++ (exponent ++ tail))
  isInteger : Integer whole
  isFraction : Optionally Fraction fraction
  isExponent : Optionally Exponent exponent
  longest : ∀ other longer, Pattern other longer →
    longer <+: whole ++ (fraction ++ (exponent ++ tail)) →
      longer.length ≤ whole.length + (fraction.length + exponent.length)

namespace NumberAt

variable {whole fraction exponent : List UInt8}

/-- What could stand behind the integer instead is not longer than what does. -/
theorem length_le (h : NumberAt cx whole fraction exponent tail) {otherFraction otherExponent : List UInt8}
    (hfraction : Optionally Fraction otherFraction) (hexponent : Optionally Exponent otherExponent)
    (hstands : otherFraction ++ otherExponent <+: fraction ++ (exponent ++ tail)) :
    otherFraction.length + otherExponent.length ≤ fraction.length + exponent.length := by
  have hle := h.longest _ _ (number_pattern h.isInteger hfraction hexponent)
    ((List.prefix_append_right_inj whole).mpr hstands)
  simp only [List.length_append] at hle
  omega

theorem integerLength?_eq (h : NumberAt cx whole fraction exponent tail) :
    integerLength? cx = some whole.length := by
  refine Json.integerLength?_eq h.rest_eq h.isInteger ?_
  intro b hb hdigit hlonger
  rcases h.isFraction with rfl | ⟨digits, rfl, -⟩
  · rcases h.isExponent with rfl | ⟨mark, sign, digits, rfl, hmark, -⟩
    · -- Another digit would make the integer longer.
      obtain ⟨rest, rfl⟩ := List.head?_eq_some_iff.mp hb
      have hle := h.longest _ _ (.integer hlonger) ⟨rest, by simp⟩
      simp only [List.length_append, List.length_singleton, List.length_nil] at hle
      omega
    · obtain rfl := Option.some.inj hb
      rw [mark_class hmark] at hdigit
      cases hdigit
  · obtain rfl := Option.some.inj hb
    exact absurd hdigit (by decide)

theorem fractionLength_eq (h : NumberAt cx whole fraction exponent tail) :
    fractionLength cx whole.length = fraction.length := by
  -- If a fraction were found where there is none, or one digit more than there is, the number with it
  -- would be a longer match.
  rcases h.isFraction with rfl | hfraction
  · refine fractionLength_eq_zero h.rest_eq ?_
    intro more hmore hstands
    rcases h.isExponent with rfl | ⟨mark, sign, digits, rfl, hmark, -⟩
    · have hle := h.length_le (.inr hmore) (.inl rfl) (by simpa using hstands)
      obtain ⟨digits, rfl, -⟩ := hmore
      simp only [List.length_cons, List.length_nil] at hle
      omega
    · -- What stands there begins with a mark and not with a point.
      obtain ⟨digits, rfl, -⟩ := hmore
      rw [List.nil_append, List.cons_append, List.cons_prefix_cons] at hstands
      rw [← hstands.1] at hmark
      exact absurd hmark (by decide)
  · refine Json.fractionLength_eq h.rest_eq hfraction ?_
    intro b hb
    rcases h.isExponent with rfl | ⟨mark, sign, digits, rfl, hmark, -⟩
    · refine Bool.eq_false_iff.mpr ?_
      intro hdigit
      obtain ⟨rest, rfl⟩ := List.head?_eq_some_iff.mp hb
      have hle := h.length_le (.inr (hfraction.snoc hdigit)) (.inl rfl) ⟨rest, by simp⟩
      simp only [List.length_append, List.length_singleton, List.length_nil] at hle
      omega
    · obtain rfl := Option.some.inj hb
      exact mark_class hmark

theorem exponentLength_eq (h : NumberAt cx whole fraction exponent tail) :
    exponentLength cx (whole.length + fraction.length) = exponent.length := by
  have hfront : cx.rest.toList = (whole ++ fraction) ++ (exponent ++ tail) := by simp [h.rest_eq]
  rw [← List.length_append]
  rcases h.isExponent with rfl | hexponent
  · refine exponentLength_eq_zero hfront ?_
    intro more hmore hstands
    have hle := h.length_le h.isFraction (.inr hmore) ((List.prefix_append_right_inj fraction).mpr hstands)
    obtain ⟨mark, sign, digits, rfl, -⟩ := hmore
    simp only [List.length_cons, List.length_nil] at hle
    omega
  · refine Json.exponentLength_eq hfront hexponent ?_
    intro b hb
    refine Bool.eq_false_iff.mpr ?_
    intro hdigit
    obtain ⟨rest, rfl⟩ := List.head?_eq_some_iff.mp hb
    have hle := h.length_le h.isFraction (.inr (hexponent.snoc hdigit)) ⟨rest, by simp⟩
    simp only [List.length_append, List.length_singleton] at hle
    omega

theorem number?_eq (h : NumberAt cx whole fraction exponent tail) :
    number? cx = some ⟨if fraction ++ exponent = [] then .numberDecimal else .numberFloat,
      (whole ++ (fraction ++ exponent)).length⟩ := by
  have hkind : whole.length + (fraction.length + exponent.length) = whole.length ↔
      fraction ++ exponent = [] := by
    rw [← List.length_eq_zero_iff, List.length_append]
    omega
  simp only [number?, h.integerLength?_eq, Option.map_some, h.fractionLength_eq,
    h.exponentLength_eq, hkind, List.length_append, Nat.add_assoc]

end NumberAt

end Numbers

section Strings

/-- Going over the characters of a string ends at the quote that closes it. -/
theorem skipStringChars_eq {input : Bytes} {limit : Nat} {body : List UInt8} (hbody : StringBody body)
    {count i : Nat} (hview : (input.extract i limit).toList = body ++ 0x22 :: tail)
    (hcount : body.length ≤ count) : skipStringChars input limit count i = i + body.length := by
  induction hbody generalizing count i with
  | empty =>
    obtain ⟨hlt, hquote, -⟩ := Bytes.extract_eq_cons hview
    cases count with
    | zero => rfl
    | succ count => simp [skipStringChars, stringCharLength, hlt, hquote]
  | @plain b body hb _ ih =>
    obtain ⟨hlt, hfirst, hview⟩ := Bytes.extract_eq_cons hview
    obtain ⟨count, rfl⟩ := Nat.exists_eq_add_one.mpr (Nat.zero_lt_of_lt hcount)
    have hchar : stringCharLength input limit i = 1 := by
      simp only [isPlain, Bool.and_eq_true, bne_iff_ne, decide_eq_true_eq] at hb
      obtain ⟨⟨hquote, hbackslash⟩, hcontrol⟩ := hb
      simp [stringCharLength, hlt, hfirst, hquote, hbackslash, UInt8.not_lt.mpr hcontrol]
    have hskip := ih hview (Nat.le_of_succ_le_succ hcount)
    simp only [skipStringChars, hchar, hskip, List.length_cons]
    omega
  | @escape b body hb _ ih =>
    obtain ⟨hlt, hfirst, hview⟩ := Bytes.extract_eq_cons hview
    obtain ⟨hnext, hsecond, hview⟩ := Bytes.extract_eq_cons hview
    obtain ⟨count, rfl⟩ := Nat.exists_eq_add_one.mpr (Nat.zero_lt_of_lt hcount)
    have hchar : stringCharLength input limit i = 2 := by
      simp [stringCharLength, hlt, hfirst, hnext, hsecond, hb]
    have hbound : body.length ≤ count := by
      simp only [List.length_cons] at hcount
      omega
    have hskip := ih hview hbound
    simp only [skipStringChars, hchar, hskip, List.length_cons]
    omega

theorem string_eq {body : List UInt8} (hbody : StringBody body)
    (hrest : cx.rest.toList = 0x22 :: (body ++ [0x22]) ++ tail) :
    string cx = ⟨.stringDouble, (0x22 :: (body ++ [0x22])).length⟩ := by
  have hfront : cx.rest.toList = (0x22 :: body) ++ 0x22 :: tail := by simp [hrest]
  have hview : (w.input.extract (cx.cursor + 1) w.limit).toList = body ++ 0x22 :: tail := by
    have hfirst : cx.rest.toList = [0x22] ++ (body ++ 0x22 :: tail) := hfront
    exact (Bytes.extract_eq_append hfirst).2
  have hcount : body.length ≤ w.limit - (cx.cursor + 1) := by
    have hsize := congrArg List.length hview
    simp only [Array.length_toList, Array.size_extract, List.length_append, List.length_cons] at hsize
    have := w.limit_le_size
    omega
  have hstop : stringStop w.input w.limit (cx.cursor + 1) - cx.cursor = (0x22 :: body).length := by
    rw [stringStop, skipStringChars_eq hbody hview hcount, List.length_cons]
    omega
  have hquote : testAt cx (· == 0x22) (0x22 :: body).length = true := testAt_length hfront _
  simp only [string, hstop, hquote, if_true]
  simp

end Strings

section Longest

variable {kind : TokenKind} {text : List UInt8}

theorem scanner_eq {b : UInt8} {more : List UInt8} (hrest : cx.rest.toList = b :: more) :
    scanner w cx = some (lexeme cx b) := by
  have hnil : cx.rest.toList = [] ++ b :: more := hrest
  have hpeek : cx.peek = some b := ScanContext.peekAt_length hnil
  rw [scanner, hpeek, Option.map_some]

theorem blank_eq (hrest : cx.rest.toList = text ++ tail) (htext : Repeats isSpace text)
    (hlongest : LongestMatch .ignorable text tail) :
    scanner w cx = some ⟨.ignorable, text.length⟩ := by
  obtain ⟨b, more, hcons⟩ := List.exists_cons_of_ne_nil htext.nonempty
  have hspace : isSpace b = true := htext.each b (by simp [hcons])
  have hrun : (text ++ tail).takeWhile isSpace = text := by
    refine takeWhile_eq htext.each ?_
    intro c hc
    refine Bool.eq_false_iff.mpr ?_
    intro hmore
    obtain ⟨rest, rfl⟩ := List.head?_eq_some_iff.mp hc
    have hle := hlongest.longest _ _ (.blank (htext.snoc hmore)) ⟨rest, by simp⟩
    simp only [List.length_append, List.length_singleton] at hle
    omega
  have hlength : cx.runLength isSpace 0 = text.length := by
    have hnil : cx.rest.toList = [] ++ (text ++ tail) := hrest
    have hlength := ScanContext.runLength_length hnil isSpace
    rwa [hrun] at hlength
  rw [scanner_eq (by rw [hrest, hcons, List.cons_append])]
  simp [lexeme, hspace, hlength]

/-- Where a number begins, neither blanks nor structural characters nor strings do. -/
theorem lexeme_number {b : UInt8} (hb : b = 0x2D ∨ isDigit b = true) {found : Lexeme}
    (hnumber : number? cx = some found) : lexeme cx b = found := by
  have hclass : isSpace b = false ∧ isStructural b = false ∧ b ≠ 0x22 := by
    rcases hb with rfl | hb
    · decide
    · obtain ⟨hspace, hstructural, -, hquote, -⟩ := digit_class b hb
      exact ⟨hspace, hstructural, hquote⟩
  simp [lexeme, hclass, hnumber]

theorem number_eq {whole fraction exponent : List UInt8}
    (h : NumberAt cx whole fraction exponent tail) :
    scanner w cx = some ⟨if fraction ++ exponent = [] then .numberDecimal else .numberFloat,
      (whole ++ (fraction ++ exponent)).length⟩ := by
  obtain ⟨b, more, rfl, hb⟩ := h.isInteger.head
  rw [scanner_eq h.rest_eq, lexeme_number hb h.number?_eq]

theorem number?_eq_none {b : UInt8} {more : List UInt8} (hrest : cx.rest.toList = b :: more)
    (hminus : b ≠ 0x2D) (hdigit : isDigit b = false) : number? cx = none := by
  have hnil : cx.rest.toList = [] ++ b :: more := hrest
  have htest (p : UInt8 → Bool) : testAt cx p 0 = p b := testAt_length hnil p
  have hzero : b ≠ 0x30 := by
    rintro rfl
    exact absurd hdigit (by decide)
  simp [number?, integerLength?, htest, hminus, hzero, hdigit]

theorem startsWith_eq_false {b c : UInt8} {more : List UInt8}
    (hrest : cx.rest.toList = b :: more) (hc : c ≠ b) (text : List UInt8) :
    cx.startsWith (c :: text) = false := by
  obtain ⟨-, hb, -⟩ := Bytes.extract_eq_cons hrest
  simp [ScanContext.startsWith, Bytes.matchesAt, hb, hc.symm]

theorem constant_eq (hrest : cx.rest.toList = text ++ tail) (htext : text ∈ constants) :
    scanner w cx = some ⟨.keywordConstant, text.length⟩ := by
  have hstarts := ScanContext.startsWith_eq_true hrest
  simp only [constants, List.mem_cons, List.not_mem_nil, or_false] at htext
  -- The first byte tells the constants apart from each other and from all else.
  rcases htext with rfl | rfl | rfl
  · have hnumber := number?_eq_none hrest (by decide) (by decide)
    rw [scanner_eq hrest]
    simp [lexeme, isSpace, isStructural, hnumber, constant?, constants, hstarts]
  · have hnumber := number?_eq_none hrest (by decide) (by decide)
    have htrue := startsWith_eq_false hrest (show (0x74 : UInt8) ≠ 0x66 by decide)
    rw [scanner_eq hrest]
    simp [lexeme, isSpace, isStructural, hnumber, constant?, constants, hstarts, htrue]
  · have hnumber := number?_eq_none hrest (by decide) (by decide)
    have htrue := startsWith_eq_false hrest (show (0x74 : UInt8) ≠ 0x6E by decide)
    have hfalse := startsWith_eq_false hrest (show (0x66 : UInt8) ≠ 0x6E by decide)
    rw [scanner_eq hrest]
    simp [lexeme, isSpace, isStructural, hnumber, constant?, constants, hstarts, htrue, hfalse]

/-- The scanner for JSON takes the longest match. -/
theorem scanner_takesLongest : scanner.TakesLongest := by
  constructor
  · intro w cx hend
    exact (scanner_findsAll w cx).mpr hend
  · intro w cx kind text rest hrest hlongest
    cases hlongest.pattern with
    | blank htext => exact blank_eq hrest htext hlongest
    | @structural b hb =>
      rw [scanner_eq hrest]
      simp [lexeme, hb, structural_class hb]
    | string hbody =>
      -- The closing quote is where the characters end, so being longest adds nothing.
      rw [scanner_eq hrest, ← string_eq hbody hrest]
      rfl
    | integer htext =>
      have hnumber : NumberAt cx text [] [] rest :=
        ⟨hrest, htext, .inl rfl, .inl rfl, hlongest.longest⟩
      simpa using number_eq hnumber
    | float htext =>
      obtain ⟨whole, fraction, exponent, rfl, hwhole, hfraction, hexponent, hsome⟩ := htext
      have hnumber : NumberAt cx whole fraction exponent rest := by
        refine ⟨by simp [hrest], hwhole, hfraction, hexponent, ?_⟩
        simpa using hlongest.longest
      rw [number_eq hnumber, if_neg hsome]
    | constant htext => exact constant_eq hrest htext

end Longest

end Json

end Highlighting
