import Highlighting.Grammar.Json
import Highlighting.Proofs.Grammar.JsonDeclared
import Highlighting.Proofs.Grammar.JsonScanner

/-! What a scan call for JSON comes to, whatever bytes remain, with any scanner that is generated from the
declarations: the longest match where a pattern matches, and text otherwise. Whether a string has to be
valid text is a matter of how the generator reads classes. The scanner of the library finds what a
generated one does that reads them as bytes. -/
namespace Highlighting.Json

/-- A pattern of a family matches the beginning of what remains, and none matches more of it. -/
structure Longest (P : TokenKind → List UInt8 → Prop) (kind : TokenKind) (text rest : List UInt8) :
    Prop where
  matched : P kind text
  front : text <+: rest
  longest : ∀ other longer, P other longer → longer <+: rest → longer.length ≤ text.length

section Patterns

variable {kind : TokenKind} {text rest body : List UInt8}

theorem exists_longest {P : TokenKind → List UInt8 → Prop} {kind : TokenKind} {text rest : List UInt8}
    (htext : P kind text) (hfront : text <+: rest) : ∃ kind text, Longest P kind text rest := by
  by_cases hmore : ∃ other longer, P other longer ∧ longer <+: rest ∧ text.length < longer.length
  · obtain ⟨other, longer, hlonger, hprefix, hless⟩ := hmore
    have hbound := hprefix.length_le
    exact exists_longest hlonger hprefix
  · refine ⟨kind, text, htext, hfront, ?_⟩
    intro other longer hlonger hprefix
    apply Nat.le_of_not_lt
    intro hless
    exact hmore ⟨other, longer, hlonger, hprefix, hless⟩
termination_by rest.length - text.length

/-- The first byte of a character that is no control is none, and all others stand for themselves. -/
theorem utf8EncodeChar_parts {c : Char} (hc : 0x20 ≤ c.toNat) :
    ∃ b more, String.utf8EncodeChar c = b :: more ∧ 0x20 ≤ b ∧ ∀ d ∈ more, isPlain d = true := by
  by_cases hquote : c = '"'
  · exact ⟨0x22, [], by rw [hquote]; decide, by decide, nofun⟩
  by_cases hbackslash : c = '\\'
  · exact ⟨0x5C, [], by rw [hbackslash]; decide, by decide, nofun⟩
  have hplain (b : UInt8) (hb : b ∈ String.utf8EncodeChar c) : isPlain b = true :=
    isPlain_of_mem ⟨hc, hquote, hbackslash⟩ hb
  cases hbytes : String.utf8EncodeChar c with
  | nil => exact absurd hbytes String.utf8EncodeChar_ne_nil
  | cons b more =>
    rw [hbytes] at hplain
    obtain ⟨hb, hmore⟩ := List.forall_mem_cons.mp hplain
    refine ⟨b, more, rfl, ?_, hmore⟩
    simp only [isPlain, Bool.and_eq_true, decide_eq_true_eq] at hb
    exact hb.2

theorem CharacterBody.bytes (h : CharacterBody body) : StringBody body := by
  induction h with
  | empty => exact .empty
  | plain hc _ ih => exact .plainAll (fun b hb => isPlain_of_mem hc hb) ih
  | escape hc _ ih =>
    obtain ⟨b, more, hbytes, hb, hmore⟩ := utf8EncodeChar_parts hc
    rw [hbytes, List.cons_append]
    exact .escape hb (.plainAll hmore ih)

theorem CharacterPattern.pattern (h : CharacterPattern kind text) : Pattern kind text := by
  cases h with
  | string hbody => exact .string hbody.bytes
  | other _ htext => exact htext

/-- A longest match of a pattern of characters is a longest match of a pattern of bytes. -/
theorem Longest.longestMatch (h : Longest CharacterPattern kind text (text ++ rest)) :
    LongestMatch kind text rest := by
  cases h.matched with
  | string hbody => exact string_longest hbody.bytes rest
  | other hkind htext =>
    refine ⟨htext, ?_⟩
    intro other longer hother hlonger
    have hsame := htext.kind_eq_of_front hother hlonger
    have hstring : other ≠ .stringDouble := by
      rintro rfl
      simp only [reduceCtorEq, if_false] at hsame
      split at hsame
      · cases hsame
      · exact hkind hsame.symm
    exact h.longest other longer (.other hstring hother) hlonger

theorem ReadPattern.pattern {reading : Reading} (h : ReadPattern reading kind text) :
    Pattern kind text := by
  cases reading with
  | characters => exact CharacterPattern.pattern h
  | bytes => exact h

theorem CharacterPattern.readPattern (h : CharacterPattern kind text) (reading : Reading) :
    ReadPattern reading kind text := by
  cases reading with
  | characters => exact h
  | bytes => exact h.pattern

theorem Pattern.ne_nil (h : Pattern kind text) : text ≠ [] := by
  obtain ⟨b, more, rfl, -⟩ := h.opens
  exact List.cons_ne_nil b more

theorem Integer.not_float (h : Integer text) : ¬ Float text := by
  have hbytes : ∀ b ∈ text, b = 0x2D ∨ isDigit b = true := by
    obtain ⟨sign, digits, rfl, hsign, hdigits⟩ := h
    intro b hb
    rcases List.mem_append.mp hb with hb | hb
    · rcases hsign with rfl | ⟨c, hc, rfl⟩
      · cases hb
      · rw [List.mem_singleton.mp hb]
        exact .inl (beq_iff_eq.mp hc)
    · rcases hdigits with rfl | ⟨hdigits, -⟩
      · rw [List.mem_singleton.mp hb]
        exact .inr (by decide)
      · exact .inr (hdigits.each b hb)
  rintro ⟨whole, fraction, exponent, rfl, -, hfraction, hexponent, hsome⟩
  rcases hfraction with rfl | ⟨digits, rfl, -⟩
  · rcases hexponent with rfl | ⟨mark, sign, digits, rfl, hmark, -⟩
    · exact hsome rfl
    · rcases hbytes mark (by simp) with rfl | hdigit
      · exact absurd hmark (by decide)
      · rw [mark_class hmark] at hdigit
        cases hdigit
  · exact absurd (hbytes 0x2E (by simp)) (by decide)

theorem Pattern.kind_unique {other : TokenKind} (h : Pattern kind text) (hother : Pattern other text) :
    other = kind := by
  have hfront : text <+: text ++ [] := List.prefix_append text []
  have hsame := h.kind_eq_of_front hother hfront
  -- Only the kinds of numbers can be told apart by no first byte.
  by_cases hnumber : kind = .numberFloat
  · subst hnumber
    rw [if_pos rfl] at hsame
    by_cases hfloat : other = .numberFloat
    · exact hfloat
    · rw [if_neg hfloat] at hsame
      subst hsame
      cases h with
      | float htext =>
        cases hother with
        | integer hmore => exact absurd htext hmore.not_float
  · rw [if_neg hnumber] at hsame
    by_cases hfloat : other = .numberFloat
    · subst hfloat
      rw [if_pos rfl] at hsame
      subst hsame
      cases h with
      | integer htext =>
        cases hother with
        | float hmore => exact absurd hmore htext.not_float
    · rw [if_neg hfloat] at hsame
      exact hsame

end Patterns

section Text

variable {w : Window} {cx : ScanContext w} {b : UInt8} {more : List UInt8}

theorem stringCharLength_cases (input : Bytes) (limit i : Nat) :
    stringCharLength input limit i = 0 ∨
      stringCharLength input limit i = 1 ∧ i < limit ∧
        (∃ b, input[i]? = some b ∧ isPlain b = true) ∨
      stringCharLength input limit i = 2 ∧ i + 1 < limit ∧ input[i]? = some 0x5C ∧
        ∃ b, input[i + 1]? = some b ∧ 0x20 ≤ b := by
  unfold stringCharLength
  split
  case isFalse => exact .inl rfl
  case isTrue hmore =>
    split
    case h_1 => exact .inl rfl
    case h_2 b hb =>
      split
      case isTrue => exact .inl rfl
      case isFalse hinside =>
        simp only [Bool.or_eq_true, beq_iff_eq, decide_eq_true_eq, not_or, UInt8.not_lt] at hinside
        split
        case isFalse hplain =>
          refine .inr (.inl ⟨rfl, hmore, b, hb, ?_⟩)
          simpa [isPlain, hinside] using hplain
        case isTrue hescape =>
          split
          case isFalse => exact .inl rfl
          case isTrue hnext =>
            simp only [Bool.and_eq_true, decide_eq_true_eq, Option.any_eq_true] at hnext
            obtain ⟨hroom, c, hc, hcontrol⟩ := hnext
            rw [beq_iff_eq.mp hescape] at hb
            exact .inr (.inr ⟨rfl, hroom, hb, c, hc, hcontrol⟩)

theorem skipStringChars_body {input : Bytes} {limit count i : Nat} (hi : i ≤ limit) :
    i ≤ skipStringChars input limit count i ∧ skipStringChars input limit count i ≤ limit ∧
      StringBody (input.extract i (skipStringChars input limit count i)).toList := by
  induction count generalizing i with
  | zero =>
    rw [skipStringChars, Bytes.extract_nil (Nat.le_refl i)]
    exact ⟨Nat.le_refl i, hi, .empty⟩
  | succ count ih =>
    rcases stringCharLength_cases input limit i with
      hnone | ⟨hone, hmore, b, hb, hplain⟩ | ⟨htwo, hmore, hescape, b, hb, hcontrol⟩
    · have hskip : skipStringChars input limit (count + 1) i = i := by
        simp only [skipStringChars, hnone]
      rw [hskip, Bytes.extract_nil (Nat.le_refl i)]
      exact ⟨Nat.le_refl i, hi, .empty⟩
    · have hnext : i + 1 ≤ limit := hmore
      obtain ⟨hle, hlimit, hbody⟩ := ih hnext
      have hskip : skipStringChars input limit (count + 1) i =
          skipStringChars input limit count (i + 1) := by simp only [skipStringChars, hone]
      rw [hskip]
      refine ⟨by omega, hlimit, ?_⟩
      rw [Bytes.extract_cons (by omega) hb]
      exact .plain hplain hbody
    · have hnext : i + 1 + 1 ≤ limit := hmore
      obtain ⟨hle, hlimit, hbody⟩ := ih hnext
      have hskip : skipStringChars input limit (count + 1) i =
          skipStringChars input limit count (i + 1 + 1) := by simp only [skipStringChars, htwo]
      rw [hskip]
      refine ⟨by omega, hlimit, ?_⟩
      rw [Bytes.extract_cons (by omega) hescape, Bytes.extract_cons (by omega) hb]
      exact .escape hcontrol hbody

theorem string_kind (hrest : cx.rest.toList = 0x22 :: more)
    (hnone : ∀ body, StringBody body → ¬ 0x22 :: (body ++ [0x22]) <+: cx.rest.toList) :
    (string cx).kind = .text := by
  obtain ⟨hmore, -, hbehind⟩ := Bytes.extract_eq_cons hrest
  have hnext : cx.cursor + 1 ≤ w.limit := hmore
  have hskipped : cx.cursor + 1 ≤ stringStop w.input w.limit (cx.cursor + 1) ∧
      stringStop w.input w.limit (cx.cursor + 1) ≤ w.limit ∧
      StringBody (w.input.extract (cx.cursor + 1)
        (stringStop w.input w.limit (cx.cursor + 1))).toList := skipStringChars_body hnext
  unfold string
  generalize stringStop w.input w.limit (cx.cursor + 1) = stop at hskipped
  obtain ⟨hle, hlimit, hbody⟩ := hskipped
  dsimp only
  split
  case isFalse => rfl
  case isTrue hquote =>
    have hstop : cx.cursor + (stop - cx.cursor) = stop := by omega
    simp only [testAt, ScanContext.peekAt, hstop] at hquote
    split at hquote
    case isFalse => cases hquote
    case isTrue hless =>
      obtain ⟨b, hb, hsame⟩ := (Option.any_eq_true _ _).mp hquote
      rw [beq_iff_eq.mp hsame] at hb
      refine absurd ?_ (hnone _ hbody)
      rw [hrest, ← hbehind, w.input.extract_append hle hlimit, Bytes.extract_cons hless hb,
        List.cons_prefix_cons, List.prefix_append_right_inj]
      exact ⟨rfl, List.cons_prefix_cons.mpr ⟨rfl, List.nil_prefix⟩⟩

theorem Integer.of_digit {sign : List UInt8} {digit : UInt8}
    (hsign : Optionally (Single (· == 0x2D)) sign) (hdigit : isDigit digit = true) :
    Integer (sign ++ [digit]) := by
  refine ⟨sign, [digit], rfl, hsign, ?_⟩
  by_cases hzero : digit = 0x30
  · exact .inl (by rw [hzero])
  · refine .inr ⟨⟨List.cons_ne_nil _ _, List.forall_mem_singleton.mpr hdigit⟩, ?_⟩
    exact fun hsame => hzero (Option.some.inj hsame)

theorem number?_eq_none_of_forall (hnone : ∀ text, Integer text → ¬ text <+: cx.rest.toList) :
    number? cx = none := by
  obtain ⟨sign, tail, hrest, hsign, hlength⟩ : ∃ sign tail, cx.rest.toList = sign ++ tail ∧
      Optionally (Single (· == 0x2D)) sign ∧
      (if testAt cx (· == 0x2D) 0 then 1 else 0) = sign.length := by
    have hnil : cx.rest.toList = [] ++ cx.rest.toList := rfl
    have htest : testAt cx (· == 0x2D) 0 = cx.rest.toList.head?.any (· == 0x2D) := testAt_length hnil _
    rw [htest]
    cases hview : cx.rest.toList with
    | nil => exact ⟨[], [], rfl, .inl rfl, rfl⟩
    | cons b more =>
      by_cases hminus : b = 0x2D
      · exact ⟨[b], more, rfl, .inr ⟨b, beq_iff_eq.mpr hminus, rfl⟩, by simp [hminus]⟩
      · exact ⟨[], b :: more, rfl, .inl rfl, by simp [hminus]⟩
  have hdigit : ∀ b ∈ tail.head?, isDigit b = false := by
    intro b hb
    apply Bool.eq_false_iff.mpr
    intro hclass
    obtain ⟨more, rfl⟩ := List.head?_eq_some_iff.mp hb
    refine hnone _ (Integer.of_digit hsign hclass) ⟨more, ?_⟩
    rw [hrest, List.append_assoc]
    rfl
  have hfails (p : UInt8 → Bool) (hp : ∀ b, p b = true → isDigit b = true) :
      testAt cx p sign.length = false := by
    rw [testAt_length hrest]
    apply Bool.eq_false_iff.mpr
    intro hsome
    obtain ⟨b, hb, hclass⟩ := (Option.any_eq_true _ _).mp hsome
    have hother : isDigit b = false := hdigit b hb
    rw [hp b hclass] at hother
    cases hother
  have hzero := hfails (· == 0x30) (fun b hb => by rw [beq_iff_eq.mp hb]; decide)
  simp [number?, integerLength?, hlength, hzero, hfails isDigit (fun _ hb => hb)]

/-- What is found where no pattern matches is text. -/
theorem lexeme_kind (hrest : cx.rest.toList = b :: more)
    (hnone : ∀ kind text, Pattern kind text → ¬ text <+: cx.rest.toList) : (lexeme cx b).kind = .text := by
  have hfirst (kind : TokenKind) (hpattern : Pattern kind [b]) : False :=
    hnone kind [b] hpattern (by rw [hrest]; exact ⟨more, rfl⟩)
  unfold lexeme
  split
  case isTrue hspace =>
    exact (hfirst _ (.blank ⟨List.cons_ne_nil _ _, List.forall_mem_singleton.mpr hspace⟩)).elim
  case isFalse =>
    split
    case isTrue hstructural => exact (hfirst _ (.structural hstructural)).elim
    case isFalse =>
      split
      case isTrue hquote =>
        rw [beq_iff_eq.mp hquote] at hrest
        exact string_kind hrest (fun body hbody => hnone _ _ (.string hbody))
      case isFalse =>
        have hnumber : number? cx = none :=
          number?_eq_none_of_forall (fun text htext => hnone _ _ (.integer htext))
        have hconstant : constant? cx = none := by
          rw [constant?, Option.map_eq_none_iff, List.find?_eq_none]
          intro constant hmem hstarts
          rw [ScanContext.startsWith, Bytes.matchesAt_eq_isPrefixOf w.limit_le_size] at hstarts
          exact hnone _ _ (.constant hmem) (List.isPrefixOf_iff_prefix.mp hstarts)
        rw [hnumber, hconstant]
        rfl

end Text

section Scan

variable {w : Window} {cx : ScanContext w} {generate : Generator} {reading : Reading} {kind : TokenKind}
  {text rest source : List UInt8}

theorem pattern_of_declares {variant : Variant} {length : Nat}
    (h : Declares reading declarations source variant length) :
    ReadPattern reading variant.kind (source.take length) := by
  obtain ⟨e, hmem, -, -, htext⟩ := h
  exact (declared_iff reading).mp ⟨e, variant, hmem, rfl, htext⟩

theorem declares_of_pattern (htext : ReadPattern reading kind text) (hfront : text <+: source) :
    ∃ variant, Declares reading declarations source variant text.length := by
  obtain ⟨e, variant, hmem, -, hmatches⟩ := (declared_iff reading).mpr htext
  have hpos := List.length_pos_of_ne_nil htext.pattern.ne_nil
  refine ⟨variant, e, hmem, hpos, hfront.length_le, ?_⟩
  rwa [List.prefix_iff_eq_take.mp hfront] at hmatches

/-- What a generated scanner finds where something remains: the longest match, or an error where no pattern
matches. -/
theorem generate_cases (h : generate.TakesLongest reading) (hsome : source ≠ []) :
    (∃ variant text, Longest (ReadPattern reading) variant.kind text source ∧
        generate Variant declarations source = some ⟨some variant, text.length⟩) ∨
      (∀ kind text, ReadPattern reading kind text → ¬ text <+: source) ∧
        ∃ length, generate Variant declarations source = some ⟨none, length⟩ := by
  obtain ⟨⟨token?, length⟩, hfound⟩ := h.answers Variant declarations source hsome
  cases token? with
  | some variant =>
    obtain ⟨hdeclares, hlongest⟩ := h.token _ _ _ _ _ hfound
    have hlength : (source.take length).length = length :=
      List.length_take_of_le hdeclares.bounds.2
    refine .inl ⟨variant, source.take length, ⟨pattern_of_declares hdeclares, List.take_prefix _ _, ?_⟩, ?_⟩
    · intro other longer hother hfront
      obtain ⟨token, htoken⟩ := declares_of_pattern hother hfront
      rw [hlength]
      exact hlongest token longer.length htoken
    · rw [hlength]
      exact hfound
  | none =>
    refine .inr ⟨?_, length, hfound⟩
    intro kind text htext hfront
    obtain ⟨token, htoken⟩ := declares_of_pattern htext hfront
    exact h.error _ _ _ _ hfound token text.length htoken

/-- A longest match of all patterns of bytes is found however classes are read, if it is read as a match. -/
theorem generate_longest (h : generate.TakesLongest reading) (htext : ReadPattern reading kind text)
    (hlongest : LongestMatch kind text rest) :
    ∃ variant : Variant, variant.kind = kind ∧
      generate Variant declarations (text ++ rest) = some ⟨some variant, text.length⟩ := by
  have hsome : text ++ rest ≠ [] := List.append_ne_nil_of_left_ne_nil htext.pattern.ne_nil rest
  have hfront : text <+: text ++ rest := List.prefix_append text rest
  rcases generate_cases h hsome with ⟨variant, other, hother, hfound⟩ | ⟨hnone, -⟩
  · have hsame : other = text := by
      have hle := hlongest.longest _ other hother.matched.pattern hother.front
      have hge := hother.longest kind text htext hfront
      have hlength := Nat.le_antisymm hle hge
      exact (List.prefix_of_prefix_length_le hother.front hfront hle).eq_of_length hlength
    rw [hsame] at hother hfound
    exact ⟨variant, hlongest.pattern.kind_unique hother.matched.pattern, hfound⟩
  · exact absurd hfront (hnone kind text htext)

end Scan

section Generated

variable {generate : Generator} {reading : Reading} {w : Window} {cx : ScanContext w} {kind : TokenKind}
  {text rest : List UInt8}

theorem rest_eq_nil_iff : cx.rest.toList = [] ↔ cx.atEnd = true := by
  rw [← cx.peek_eq_none_iff, ScanContext.peek, cx.peekAt_eq_getElem?, List.getElem?_eq_none_iff]
  exact List.length_eq_zero_iff.symm.trans Nat.le_zero.symm

theorem generated_findsAll (h : generate.TakesLongest reading) : (generated generate).FindsAll := by
  intro w cx
  rw [← rest_eq_nil_iff]
  constructor
  · intro hnone
    apply Classical.byContradiction
    intro hsome
    obtain ⟨found, hfound⟩ := h.answers Variant declarations cx.rest.toList hsome
    simp [generated, hfound] at hnone
  · intro hnil
    simp [generated, hnil, h.exhausted]

theorem generated_longest (h : generate.TakesLongest reading) (htext : ReadPattern reading kind text)
    (hrest : cx.rest.toList = text ++ rest) (hlongest : LongestMatch kind text rest) :
    generated generate w cx = some ⟨kind, text.length⟩ := by
  obtain ⟨variant, rfl, hfound⟩ := generate_longest h htext hlongest
  rw [generated, hrest, hfound]
  rfl

theorem generated_text (h : generate.TakesLongest reading) (hsome : cx.rest.toList ≠ [])
    (hnone : ∀ kind text, ReadPattern reading kind text → ¬ text <+: cx.rest.toList) :
    ∃ length, generated generate w cx = some ⟨.text, length⟩ := by
  rcases generate_cases h hsome with ⟨variant, text, hlongest, -⟩ | ⟨-, length, hfound⟩
  · exact absurd hlongest.front (hnone _ text hlongest.matched)
  · refine ⟨length, ?_⟩
    rw [generated, hfound]
    rfl

/-- A generated scanner that reads classes as bytes is one that takes the longest match. -/
theorem generated_takesLongest (h : generate.TakesLongest .bytes) : (generated generate).TakesLongest where
  exhausted w cx := (generated_findsAll h w cx).mpr
  longest _ _ _ _ _ hrest hlongest := generated_longest h hlongest.pattern hrest hlongest

/-- The scanner of the library finds what a generated one does that reads classes as bytes, but for how far
it goes over what is text. -/
theorem scanner_agrees (h : generate.TakesLongest .bytes) (cx : ScanContext w) :
    scanner w cx = generated generate w cx ∨
      ∃ length other, scanner w cx = some ⟨.text, length⟩ ∧
        generated generate w cx = some ⟨.text, other⟩ := by
  by_cases hnil : cx.rest.toList = []
  · have hend := rest_eq_nil_iff.mp hnil
    rw [(scanner_findsAll w cx).mpr hend, (generated_findsAll h w cx).mpr hend]
    exact .inl rfl
  · by_cases hsome : ∃ kind text, Pattern kind text ∧ text <+: cx.rest.toList
    · obtain ⟨kind, text, htext, hfront⟩ := hsome
      obtain ⟨kind, text, hlongest⟩ := exists_longest htext hfront
      obtain ⟨rest, hrest⟩ := hlongest.front
      rw [← hrest] at hlongest
      have hmatch : LongestMatch kind text rest := ⟨hlongest.matched, hlongest.longest⟩
      rw [scanner_takesLongest.longest w cx kind text rest hrest.symm hmatch,
        (generated_takesLongest h).longest w cx kind text rest hrest.symm hmatch]
      exact .inl rfl
    · have hnone : ∀ kind text, Pattern kind text → ¬ text <+: cx.rest.toList :=
        fun kind text htext hfront => hsome ⟨kind, text, htext, hfront⟩
      obtain ⟨b, more, hrest⟩ := List.exists_cons_of_ne_nil hnil
      obtain ⟨other, hother⟩ := generated_text h hnil hnone
      refine .inr ⟨(lexeme cx b).length, other, ?_, hother⟩
      rw [scanner_eq hrest, ← lexeme_kind hrest hnone]

end Generated

def Takes {w : Window} (cx : ScanContext w) (answer : ScanEvent × ScanContext w) (kind : TokenKind)
    (text : List UInt8) : Prop :=
  answer.1 = .token kind ∧ answer.2.cursor = cx.cursor + text.length

/-- The longest match of a pattern of characters, where one matches; elsewhere some text, unless classes
are read as bytes and a string stands there that is no valid text. -/
structure Maximal {w : Window} (reading : Reading) (cx : ScanContext w)
    (answer : ScanEvent × ScanContext w) : Prop where
  done : answer.1 = .done ↔ cx.rest.toList = []
  within : answer.2.cursor ≤ w.limit
  longest : (∃ kind text, CharacterPattern kind text ∧ text <+: cx.rest.toList) →
    ∃ kind text, Longest CharacterPattern kind text cx.rest.toList
  token : ∀ kind text, Longest CharacterPattern kind text cx.rest.toList → Takes cx answer kind text
  string : reading = .bytes → (∀ kind text, CharacterPattern kind text → ¬ text <+: cx.rest.toList) →
    ∀ body, StringBody body → 0x22 :: (body ++ [0x22]) <+: cx.rest.toList →
      Takes cx answer .stringDouble (0x22 :: (body ++ [0x22]))
  text : (∀ kind text, ReadPattern reading kind text → ¬ text <+: cx.rest.toList) →
    cx.rest.toList ≠ [] → answer.1 = .token .text ∧ cx.cursor < answer.2.cursor

section Answers

variable {w : Window} {cx : ScanContext w} {next? : Scanner} {kind : TokenKind} {text rest : List UInt8}

theorem scan_done_iff (hnext : next?.FindsAll) : (scan next? cx).1 = .done ↔ cx.rest.toList = [] := by
  rw [rest_eq_nil_iff, ← hnext w cx]
  unfold scan
  split
  case h_1 hnone => simp [hnone]
  case h_2 found hsome => simp [hsome]

theorem scan_takes (hfound : next? w cx = some ⟨kind, text.length⟩)
    (hrest : cx.rest.toList = text ++ rest) (hsome : text ≠ []) : Takes cx (scan next? cx) kind text := by
  have hpos := List.length_pos_of_ne_nil hsome
  have hsize := congrArg List.length hrest
  have hlimit := w.limit_le_size
  simp only [ScanContext.rest, Array.length_toList, Array.size_extract, List.length_append] at hsize
  simp only [Takes, scan, hfound]
  refine ⟨trivial, ?_⟩
  simp only [ScanContext.advance]
  omega

theorem scan_text {length : Nat} (hfound : next? w cx = some ⟨.text, length⟩)
    (hsome : cx.rest.toList ≠ []) :
    (scan next? cx).1 = .token .text ∧ cx.cursor < (scan next? cx).2.cursor := by
  obtain ⟨b, more, hrest⟩ := List.exists_cons_of_ne_nil hsome
  have hmore : cx.cursor < w.limit := (Bytes.extract_eq_cons hrest).1
  simp only [scan, hfound]
  refine ⟨trivial, ?_⟩
  exact cx.advance_cursor_lt hmore (Nat.lt_of_lt_of_le Nat.one_pos (Nat.le_max_left 1 _))

end Answers

/-- What a scan call finds is maximal, whatever bytes remain. -/
theorem scan_maximal (generate : Generator) (reading : Reading) (h : generate.TakesLongest reading)
    (settings : Settings) {w : Window} (cx : ScanContext w) :
    Maximal reading cx ((language (generated generate)).grammar.scan settings w cx) := by
  have hscan : (language (generated generate)).grammar.scan settings w cx =
      scan (generated generate) cx := rfl
  rw [hscan]
  refine ⟨scan_done_iff (generated_findsAll h), (scan (generated generate) cx).2.cursor_le_limit,
    ?_, ?_, ?_, ?_⟩
  · rintro ⟨kind, text, htext, hfront⟩
    exact exists_longest htext hfront
  · intro kind text hlongest
    obtain ⟨rest, hrest⟩ := hlongest.front
    rw [← hrest] at hlongest
    have htext := hlongest.matched.readPattern reading
    exact scan_takes (generated_longest h htext hrest.symm hlongest.longestMatch) hrest.symm
      htext.pattern.ne_nil
  · rintro rfl - body hbody ⟨rest, hrest⟩
    have htext : ReadPattern .bytes .stringDouble (0x22 :: (body ++ [0x22])) := .string hbody
    exact scan_takes (generated_longest h htext hrest.symm (string_longest hbody rest)) hrest.symm
      htext.pattern.ne_nil
  · intro hnone hsome
    obtain ⟨length, hfound⟩ := generated_text h hsome hnone
    exact scan_text hfound hsome

def brokenExponent : ScanContext (Window.clamp (Bytes.ofText "1.5e+2") 0 5) :=
  .opening _ {}

theorem scan_maximal_broken_exponent :
    Generator.exhaustive.TakesLongest .bytes ∧
      Longest CharacterPattern .numberFloat [0x31, 0x2E, 0x35] brokenExponent.rest.toList ∧
      Takes brokenExponent
        ((language (generated .exhaustive)).grammar.scan ⟨⟨[]⟩, fun _ => none⟩ _ brokenExponent)
        .numberFloat [0x31, 0x2E, 0x35] := by
  have hmaximal := scan_maximal .exhaustive .bytes Generator.exhaustive_takesLongest
    ⟨⟨[]⟩, fun _ => none⟩ brokenExponent
  have hrest : brokenExponent.rest.toList = [0x31, 0x2E, 0x35, 0x65, 0x2B] := by decide +kernel
  have hanswer : (generated .exhaustive) _ brokenExponent = some ⟨.numberFloat, 3⟩ := by decide +kernel
  have htakes : Takes brokenExponent (scan (generated .exhaustive) brokenExponent) .numberFloat
      [0x31, 0x2E, 0x35] :=
    scan_takes hanswer hrest (List.cons_ne_nil _ _)
  have hdigit : Pattern .numberDecimal [0x31] := .integer (Integer.of_digit (.inl rfl) (by decide))
  obtain ⟨kind, text, hlongest⟩ := hmaximal.longest
    ⟨_, _, .other (by decide) hdigit, by rw [hrest]; exact ⟨_, rfl⟩⟩
  obtain ⟨hkind, hcursor⟩ := hmaximal.token kind text hlongest
  have hsame : kind = .numberFloat := ScanEvent.token.inj (hkind.symm.trans htakes.1)
  have hlength : text.length = 3 := Nat.add_left_cancel (hcursor.symm.trans htakes.2)
  have htext := List.prefix_iff_eq_take.mp hlongest.front
  rw [hlength, hrest] at htext
  rw [hsame, htext] at hlongest
  exact ⟨Generator.exhaustive_takesLongest, hlongest, htakes⟩

def strayByte : ScanContext (Window.clamp #[0x22, 0xFF, 0x22] 0 3) :=
  .opening _ {}

/-- It is a string by its bytes only, and found to be one. -/
theorem stray_byte_is_string :
    Generator.exhaustive.TakesLongest .bytes ∧
      (∀ kind text, CharacterPattern kind text → ¬ text <+: strayByte.rest.toList) ∧
      ((language (generated .exhaustive)).grammar.scan ⟨⟨[]⟩, fun _ => none⟩ _ strayByte).1 =
        .token .stringDouble := by
  have hrest : strayByte.rest.toList = [0x22, 0xFF, 0x22] := by decide
  have hanswer : (generated .exhaustive) _ strayByte = some ⟨.stringDouble, 3⟩ := by decide +kernel
  have htakes : Takes strayByte (scan (generated .exhaustive) strayByte) .stringDouble
      [0x22, 0xFF, 0x22] :=
    scan_takes hanswer hrest (List.cons_ne_nil _ _)
  refine ⟨Generator.exhaustive_takesLongest, ?_, htakes.1⟩
  rw [hrest]
  intro kind text htext hfront
  cases htext with
  | other hkind htext =>
    -- No other pattern begins with a quote.
    obtain ⟨b, more, rfl, hopens⟩ := htext.opens
    rw [(List.cons_prefix_cons.mp hfront).1] at hopens
    have hquote : Json.opens 0x22 = some .stringDouble := by decide
    rw [hquote, Option.some.injEq] at hopens
    split at hopens
    · cases hopens
    · exact hkind hopens.symm
  | string hbody =>
    have hinside := (List.cons_prefix_cons.mp hfront).2
    cases hbody with
    | empty => exact absurd hinside (by decide)
    | escape => exact absurd (List.cons_prefix_cons.mp hinside).1 (by decide)
    | @plain c =>
      -- Its first byte would be that of a character.
      have hfirst := UInt8.isUTF8FirstByte_getElem_zero_utf8EncodeChar (c := c)
      obtain ⟨b, more, hbytes⟩ := List.exists_cons_of_ne_nil (String.utf8EncodeChar_ne_nil (c := c))
      simp only [hbytes, List.getElem_cons_zero] at hfirst
      rw [hbytes] at hinside
      have hsame : b = 0xFF := (List.cons_prefix_cons.mp hinside).1
      rw [hsame] at hfirst
      exact absurd hfirst (by decide)

end Highlighting.Json
