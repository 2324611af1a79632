import Highlighting.Options.Query
import Mathlib.Data.List.TakeWhile

/-! What a query may look like, and that reading it gives back what was written. The name ends at the
first question mark; behind it stand pairs, each a key and a value at the first equals sign, with any
number of semicolons and ampersands around them. -/
namespace Highlighting

namespace Text

variable {p : Char → Bool} {c : Char} {cs front back : List Char}

theorem exists_toList (cs : List Char) : ∃ text : String, text.toList = cs :=
  ⟨String.ofList cs, String.toList_ofList⟩

theorem splitFirst_append (hfront : ∀ d ∈ front, p d = false) (hc : p c = true) (back : List Char) :
    splitFirst p (front ++ c :: back) = (front, some back) := by
  induction front with
  | nil => simp [splitFirst, hc]
  | cons d front ih =>
    obtain ⟨hd, hrest⟩ := List.forall_mem_cons.mp hfront
    have hsplit := ih hrest
    simp only [splitFirst, Prod.mk.injEq] at hsplit ⊢
    simp [hd, hsplit]

theorem splitFirst_of_forall (hcs : ∀ d ∈ cs, p d = false) : splitFirst p cs = (cs, none) := by
  have hpass : ∀ d ∈ cs, (!p d) = true := by
    intro d hd
    rw [hcs d hd]
    rfl
  have hdrop : cs.dropWhile (fun d => !p d) = [] := List.dropWhile_eq_nil_iff.mpr hpass
  rw [splitFirst, List.takeWhile_eq_self_iff.mpr hpass, hdrop]
  rfl

theorem forall_or_first (p : Char → Bool) (cs : List Char) :
    (∀ d ∈ cs, p d = false) ∨
      ∃ front c back, cs = front ++ c :: back ∧ (∀ d ∈ front, p d = false) ∧ p c = true := by
  induction cs with
  | nil => exact Or.inl nofun
  | cons d cs ih =>
    cases hd : p d with
    | true => exact Or.inr ⟨[], d, cs, rfl, nofun, hd⟩
    | false =>
      rcases ih with hnone | ⟨front, c, back, rfl, hfront, hc⟩
      · exact Or.inl (List.forall_mem_cons.mpr ⟨hd, hnone⟩)
      · exact Or.inr ⟨d :: front, c, back, rfl, List.forall_mem_cons.mpr ⟨hd, hfront⟩, hc⟩

theorem splitAll_cons_of_break (hc : p c = true) : splitAll p (c :: cs) = [] :: splitAll p cs := by
  simp [splitAll, hc]

theorem splitAll_cons_of_inside (hc : p c = false) (cs : List Char) :
    ∃ piece rest, splitAll p cs = piece :: rest ∧ splitAll p (c :: cs) = (c :: piece) :: rest := by
  induction cs generalizing c with
  | nil => exact ⟨[], [], rfl, by simp [splitAll, hc]⟩
  | cons d cs ih =>
    obtain ⟨piece, rest, hpieces⟩ : ∃ piece rest, splitAll p (d :: cs) = piece :: rest := by
      cases hd : p d with
      | true => exact ⟨[], _, splitAll_cons_of_break hd⟩
      | false =>
        obtain ⟨piece, rest, -, hpieces⟩ := ih hd
        exact ⟨d :: piece, rest, hpieces⟩
    refine ⟨piece, rest, hpieces, ?_⟩
    rw [splitAll, List.foldr_cons, hc, ← splitAll, hpieces]
    rfl

/-- Splitting goes on behind a break as if nothing stood before it. -/
theorem splitAll_append_break (hc : p c = true) :
    splitAll p (front ++ c :: back) = splitAll p front ++ splitAll p back := by
  induction front with
  | nil => exact splitAll_cons_of_break hc
  | cons d front ih =>
    cases hd : p d with
    | true =>
      rw [List.cons_append, splitAll_cons_of_break hd, splitAll_cons_of_break hd, ih]
      rfl
    | false =>
      obtain ⟨piece, rest, hpieces, hmore⟩ := splitAll_cons_of_inside hd front
      obtain ⟨first, others, hwhole, hlonger⟩ :=
        splitAll_cons_of_inside hd (front ++ c :: back)
      rw [ih, hpieces] at hwhole
      obtain ⟨rfl, rfl⟩ := List.cons.inj hwhole
      rw [List.cons_append, hlonger, hmore]
      rfl

theorem splitAll_of_forall (hcs : ∀ d ∈ cs, p d = false) : splitAll p cs = [cs] := by
  induction cs with
  | nil => rfl
  | cons d cs ih =>
    obtain ⟨hd, hrest⟩ := List.forall_mem_cons.mp hcs
    obtain ⟨piece, rest, hpieces, hmore⟩ := splitAll_cons_of_inside hd cs
    rw [ih hrest] at hpieces
    obtain ⟨rfl, rfl⟩ := List.cons.inj hpieces
    exact hmore

end Text

namespace Query

def Undivided (text : List Char) : Prop :=
  ';' ∉ text ∧ '&' ∉ text

/-- A pair as it may be written: the key, an equals sign and the value, or only the key, if there is one
and the value is empty. -/
inductive PairWrittenAs : String × String → List Char → Prop
  | valued {key value : String} (hkey : Undivided key.toList) (hequals : '=' ∉ key.toList)
      (hvalue : Undivided value.toList) :
      PairWrittenAs (key, value) (key.toList ++ '=' :: value.toList)
  | bare {key : String} (hkey : Undivided key.toList) (hequals : '=' ∉ key.toList)
      (hsome : key.toList ≠ []) : PairWrittenAs (key, "") key.toList

/-- Pairs as they may be written: one after the other, with at least one separator between two of them
and any number in front, in between and behind. -/
inductive PairsWrittenAs : List (String × String) → List Char → Prop
  | nil : PairsWrittenAs [] []
  | extra {pairs : List (String × String)} {text : List Char} {c : Char} (hc : c = ';' ∨ c = '&')
      (hpairs : PairsWrittenAs pairs text) : PairsWrittenAs pairs (c :: text)
  | last {pair : String × String} {text : List Char} (hpair : PairWrittenAs pair text) :
      PairsWrittenAs [pair] text
  | cons {pair : String × String} {pairs : List (String × String)} {text more : List Char} {c : Char}
      (hpair : PairWrittenAs pair text) (hc : c = ';' ∨ c = '&')
      (hpairs : PairsWrittenAs pairs more) : PairsWrittenAs (pair :: pairs) (text ++ c :: more)

/-- A query as it may be written: a name without a question mark, and behind a question mark the pairs.
The question mark can be left out if there are none. -/
inductive WrittenAs : Query → String → Prop
  | named {name : String} (hname : '?' ∉ name.toList) : WrittenAs ⟨name, []⟩ name
  | configured {name : String} {pairs : List (String × String)} {text : List Char}
      (hname : '?' ∉ name.toList) (hpairs : PairsWrittenAs pairs text) :
      WrittenAs ⟨name, pairs⟩ (String.ofList (name.toList ++ '?' :: text))

section Pairs

variable {c : Char} {text front back : List Char} {written : String × String}
  {pairs : List (String × String)}

theorem isSeparator_iff : isSeparator c = true ↔ c = ';' ∨ c = '&' := by
  simp [isSeparator]

theorem not_mem_iff {d : Char} : d ∉ text ↔ ∀ c ∈ text, (c == d) = false := by
  constructor
  · intro hd c hc
    apply beq_eq_false_iff_ne.mpr
    intro heq
    exact hd (heq ▸ hc)
  · intro hall hd
    exact absurd (beq_self_eq_true d) (ne_true_of_eq_false (hall d hd))

theorem undivided_iff : Undivided text ↔ ∀ c ∈ text, isSeparator c = false := by
  simp only [Undivided, not_mem_iff, isSeparator, Bool.or_eq_false_iff, forall_and]

theorem PairWrittenAs.pair_eq (h : PairWrittenAs written text) : pair text = written := by
  cases h with
  | @valued key value hkey hequals hvalue =>
    have hsplit := Text.splitFirst_append (p := (· == '=')) (not_mem_iff.mp hequals)
      (beq_self_eq_true '=') value.toList
    simp only [pair, hsplit, Option.getD_some, String.ofList_toList]
  | bare hkey hequals hsome =>
    simp only [pair, Text.splitFirst_of_forall (not_mem_iff.mp hequals), String.ofList_toList]
    rfl

theorem PairWrittenAs.undivided (h : PairWrittenAs written text) : Undivided text := by
  cases h with
  | valued hkey hequals hvalue => simp_all [Undivided]
  | bare hkey hequals hsome => exact hkey

theorem PairWrittenAs.ne_nil (h : PairWrittenAs written text) : text ≠ [] := by
  cases h with
  | valued hkey hequals hvalue => simp
  | bare hkey hequals hsome => exact hsome

theorem pairWrittenAs_pair (htext : Undivided text) (hsome : text ≠ []) :
    PairWrittenAs (pair text) text := by
  rcases Text.forall_or_first (· == '=') text with hnone | ⟨front, c, back, rfl, hfront, hc⟩
  · obtain ⟨key, rfl⟩ := Text.exists_toList text
    have hbare : PairWrittenAs (key, "") key.toList := .bare htext (not_mem_iff.mpr hnone) hsome
    rwa [hbare.pair_eq]
  · obtain rfl : c = '=' := beq_iff_eq.mp hc
    obtain ⟨key, rfl⟩ := Text.exists_toList front
    obtain ⟨value, rfl⟩ := Text.exists_toList back
    have hparts : Undivided key.toList ∧ Undivided value.toList := by
      simp_all [Undivided]
    have hvalued : PairWrittenAs (key, value) (key.toList ++ '=' :: value.toList) :=
      .valued hparts.1 (not_mem_iff.mpr hfront) hparts.2
    rwa [hvalued.pair_eq]

def pairsOf (text : List Char) : List (String × String) :=
  ((Text.splitAll isSeparator text).filter (fun piece => !piece.isEmpty)).map pair

theorem pairsOf_append_separator (hc : c = ';' ∨ c = '&') :
    pairsOf (front ++ c :: back) = pairsOf front ++ pairsOf back := by
  rw [pairsOf, Text.splitAll_append_break (isSeparator_iff.mpr hc), List.filter_append,
    List.map_append]
  rfl

theorem pairsOf_piece (htext : Undivided text) (hsome : text ≠ []) :
    pairsOf text = [pair text] := by
  rw [pairsOf, Text.splitAll_of_forall (undivided_iff.mp htext)]
  simp [hsome]

theorem PairWrittenAs.pairsOf_eq (h : PairWrittenAs written text) : pairsOf text = [written] := by
  rw [pairsOf_piece h.undivided h.ne_nil, h.pair_eq]

theorem PairsWrittenAs.pairsOf_eq (h : PairsWrittenAs pairs text) : pairsOf text = pairs := by
  induction h with
  | nil => rfl
  | @extra pairs text c hc hpairs ih =>
    have hfront : pairsOf ([] ++ c :: text) = pairsOf [] ++ pairsOf text :=
      pairsOf_append_separator hc
    exact hfront.trans ih
  | last hpair => exact hpair.pairsOf_eq
  | cons hpair hc hpairs ih =>
    rw [pairsOf_append_separator hc, hpair.pairsOf_eq, ih]
    rfl

/-- Every text is a way to write the pairs that are read from it. -/
theorem pairsWrittenAs_pairsOf (text : List Char) : PairsWrittenAs (pairsOf text) text := by
  -- By the length of the text: its first separator leaves a shorter one.
  induction hlength : text.length using Nat.strong_induction_on generalizing text with
  | h length ih =>
    rcases Text.forall_or_first isSeparator text with hnone | ⟨front, c, back, rfl, hfront, hc⟩
    · by_cases hsome : text = []
      · subst hsome
        exact .nil
      · have hundivided := undivided_iff.mpr hnone
        rw [pairsOf_piece hundivided hsome]
        exact .last (pairWrittenAs_pair hundivided hsome)
    · have hseparator := isSeparator_iff.mp hc
      have hless : back.length < length := by
        rw [← hlength, List.length_append, List.length_cons]
        omega
      have hback := ih back.length hless back rfl
      rw [pairsOf_append_separator hseparator]
      by_cases hsome : front = []
      · subst hsome
        exact .extra hseparator hback
      · have hundivided := undivided_iff.mpr hfront
        rw [pairsOf_piece hundivided hsome]
        exact .cons (pairWrittenAs_pair hundivided hsome) hseparator hback

end Pairs

theorem parse_of_mark {name : String} (hname : '?' ∉ name.toList) (text : List Char) :
    parse (String.ofList (name.toList ++ '?' :: text)) = ⟨name, pairsOf text⟩ := by
  have hsplit := Text.splitFirst_append (p := (· == '?')) (not_mem_iff.mp hname)
    (beq_self_eq_true '?') text
  simp only [parse, String.toList_ofList, hsplit, String.ofList_toList]
  rfl

theorem parse_of_no_mark {name : String} (hname : '?' ∉ name.toList) : parse name = ⟨name, []⟩ := by
  simp only [parse, Text.splitFirst_of_forall (not_mem_iff.mp hname), String.ofList_toList]
  rfl

/-- Reading a query gives back the name and the pairs in their order, however they were written, and
every text is read as a query that it is a way to write. -/
theorem parse_eq_iff_writtenAs (text : String) (query : Query) :
    parse text = query ↔ query.WrittenAs text := by
  constructor
  · rintro rfl
    rcases Text.forall_or_first (· == '?') text.toList with hnone | ⟨front, c, rest, hsplit, hfront, hc⟩
    · have hname : '?' ∉ text.toList := not_mem_iff.mpr hnone
      rw [parse_of_no_mark hname]
      exact .named hname
    · obtain rfl : c = '?' := beq_iff_eq.mp hc
      obtain ⟨name, rfl⟩ := Text.exists_toList front
      have hname : '?' ∉ name.toList := not_mem_iff.mpr hfront
      have htext : text = String.ofList (name.toList ++ '?' :: rest) := by
        rw [← hsplit, String.ofList_toList]
      rw [htext, parse_of_mark hname]
      exact .configured hname (pairsWrittenAs_pairsOf rest)
  · intro hwritten
    cases hwritten with
    | named hname => exact parse_of_no_mark hname
    | configured hname hpairs => rw [parse_of_mark hname, hpairs.pairsOf_eq]

example : parse "json?;&keys=off&&indent;mode=a=b?;" =
    ⟨"json", [("keys", "off"), ("indent", ""), ("mode", "a=b?")]⟩ := by decide

end Query

end Highlighting
