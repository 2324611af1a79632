import Highlighting.Registry.Glob

/-! Reading what was escaped. A character comes out of a regular expression as it went in, be it by itself
or in a class, and a class without dashes has just the characters that are written in it. -/
namespace Highlighting

theorem CharRange.contains_single {c d : Char} : (⟨d, d⟩ : CharRange).contains c = true ↔ c = d := by
  rw [CharRange.contains, Bool.and_eq_true, decide_eq_true_iff, decide_eq_true_iff]
  constructor
  · rintro ⟨hfirst, hlast⟩
    exact Char.le_antisymm hlast hfirst
  · rintro rfl
    exact ⟨Char.le_refl c, Char.le_refl c⟩

namespace CharClass

variable {cs : List Char} {negated : Bool}

theorem sets?_of_dashless (hdash : '-' ∉ cs) : sets? cs = some [cs.map (fun c => ⟨c, c⟩)] := by
  induction cs with
  | nil => rw [sets?, List.map_nil]
  | cons c cs ih =>
    obtain ⟨hc, hcs⟩ := not_or.mp (mt List.mem_cons.mpr hdash)
    have hread : sets? (c :: cs) = (sets? cs).map (addFirst ⟨c, c⟩) := by
      rw [sets?]
      · rintro rest rfl
        exact absurd rfl hc
      · rintro d rest rfl
        exact absurd List.mem_cons_self hcs
    rw [hread, ih hcs]
    rfl

theorem ofText?_of_dashless (negated : Bool) (hdash : '-' ∉ cs) :
    ofText? negated cs = some ⟨negated, cs.map (fun c => ⟨c, c⟩), []⟩ := by
  have hfront : cs.takeWhile (· == '-') = [] ∧ cs.dropWhile (· == '-') = cs := by
    cases cs with
    | nil => exact ⟨rfl, rfl⟩
    | cons c cs =>
      have hc : ¬ (c == '-') = true := by
        rw [beq_iff_eq]
        rintro rfl
        exact hdash List.mem_cons_self
      exact ⟨List.takeWhile_cons_of_neg hc, List.dropWhile_cons_of_neg hc⟩
  simp only [ofText?, hfront, sets?_of_dashless hdash, List.map_nil, List.nil_append]

theorem contains_singletons {c : Char} :
    (⟨negated, cs.map (fun c => ⟨c, c⟩), []⟩ : CharClass).contains c = true ↔
      if negated then c ∉ cs else c ∈ cs := by
  have hinside : (cs.map (fun c => (⟨c, c⟩ : CharRange))).any (·.contains c) = decide (c ∈ cs) := by
    rw [Bool.eq_iff_iff, decide_eq_true_iff, List.any_map, List.any_eq_true]
    constructor
    · rintro ⟨d, hd, hrange⟩
      rw [CharRange.contains_single.mp hrange]
      exact hd
    · intro hc
      exact ⟨c, hc, CharRange.contains_single.mpr rfl⟩
  simp only [contains, hinside]
  cases negated <;> simp

end CharClass

namespace Regex

variable {rest text : List Char}

theorem pieces?_closing : pieces? closing = some [] := by
  decide +kernel

theorem pieces?_anyRun (rest : List Char) :
    pieces? ('.' :: '*' :: rest) = (pieces? rest).map (GlobPiece.anyRun :: ·) := by
  rw [pieces?]

theorem pieces?_anyOne (hrest : rest.head? ≠ some '*') :
    pieces? ('.' :: rest) = (pieces? rest).map (GlobPiece.anyOne :: ·) := by
  rw [pieces?]
  rintro tail rfl
  exact hrest rfl

theorem pieces?_escape (c : Char) (rest : List Char) :
    pieces? (escape c ++ rest) = (pieces? rest).map (GlobPiece.literal c :: ·) := by
  unfold escape
  split
  case isTrue hmeta =>
    rw [List.cons_append, List.singleton_append, pieces?, if_pos hmeta]
  case isFalse hmeta =>
    -- What is not escaped has no meaning of its own, so no other case of the reader applies to it.
    have hplain (d : Char) (hd : isMeta d = true) : c ≠ d := by
      rintro rfl
      exact hmeta hd
    have hopen : c :: rest ≠ closing := by
      intro hclosing
      exact hplain ')' (by decide) (List.cons.inj hclosing).1
    rw [List.singleton_append, pieces?, if_neg hopen, if_neg hmeta]
    · rintro tail hc
      exact absurd hc (hplain '.' (by decide))
    · exact hplain '.' (by decide)
    · rintro d tail hc
      exact absurd hc (hplain '\\' (by decide))
    · exact hplain '[' (by decide)

/-- A character of a class is escaped, or it is none of those that mean something in a class. -/
theorem escape_cases (c : Char) :
    BracketText.escape c = ['\\', c] ∧ isMeta c = true ∧ c ≠ '-' ∨
      BracketText.escape c = [c] ∧ c ∉ ['\\', '[', ']', '^', '&', '~'] := by
  unfold BracketText.escape
  split
  case isTrue hspecial =>
    left
    have hmeta : "\\[]^&~".toList.all (fun d => isMeta d && d != '-') = true := by decide
    have hc := List.all_eq_true.mp hmeta c (List.contains_iff_mem.mp hspecial)
    rw [Bool.and_eq_true, bne_iff_ne] at hc
    exact ⟨rfl, hc⟩
  case isFalse hspecial =>
    right
    exact ⟨rfl, mt List.contains_iff_mem.mpr hspecial⟩

/-- The characters of a class are read as they were before they were escaped. -/
theorem classText?_escape (text rest : List Char) :
    classText? (text.flatMap BracketText.escape ++ ']' :: rest) = some (text, rest) := by
  induction text with
  | nil => rw [List.flatMap_nil, List.nil_append, classText?]
  | cons c text ih =>
    rw [List.flatMap_cons, List.append_assoc]
    rcases escape_cases c with ⟨hescape, hmeta, hdash⟩ | ⟨hescape, hplain⟩
    · have hread : (isMeta c && c != '-') = true := by
        rw [hmeta, Bool.true_and, bne_iff_ne]
        exact hdash
      rw [hescape, List.cons_append, List.singleton_append, classText?, if_pos hread, ih]
      rfl
    · simp only [List.mem_cons, List.not_mem_nil, or_false, not_or] at hplain
      obtain ⟨hbackslash, hopen, hclose, -, hand, htilde⟩ := hplain
      rw [hescape, List.singleton_append, classText?, ih]
      · rfl
      · exact hclose
      · exact fun _ _ hc _ => hbackslash hc
      · exact hopen
      · exact fun _ hc _ => hand hc
      · exact fun _ hc _ => htilde hc

theorem mark_escape (negated : Bool) (text rest : List Char) :
    mark ((if negated then ['^'] else []) ++ (text.flatMap BracketText.escape ++ ']' :: rest)) =
      (negated, text.flatMap BracketText.escape ++ ']' :: rest) := by
  cases negated with
  | true => rfl
  | false =>
    -- A caret that is the first member is escaped, so it is not taken for the mark.
    rw [if_neg Bool.false_ne_true, List.nil_append]
    cases text with
    | nil => rfl
    | cons c text =>
      rw [List.flatMap_cons, List.append_assoc]
      rcases escape_cases c with ⟨hescape, -, -⟩ | ⟨hescape, hplain⟩
      · rw [hescape]
        rfl
      · rw [hescape, List.singleton_append, mark]
        intro tail hc
        rw [(List.cons.inj hc).1] at hplain
        exact hplain (by decide)

theorem class?_escape (negated : Bool) (rest : List Char) (hsome : text ≠ []) (hdash : '-' ∉ text) :
    class? ((if negated then ['^'] else []) ++ (text.flatMap BracketText.escape ++ ']' :: rest)) =
      some (⟨negated, text.map (fun c => ⟨c, c⟩), []⟩, rest) := by
  obtain ⟨c, tail, rfl⟩ := List.exists_cons_of_ne_nil hsome
  simp only [class?, mark_escape, classText?_escape, CharClass.ofText?_of_dashless negated hdash,
    Option.map_some]

theorem pieces?_class (found : BracketText) (rest : List Char) (hsome : found.text ≠ [])
    (hdash : '-' ∉ found.text) :
    pieces? (found.regex ++ rest) = (pieces? rest).map
      (GlobPiece.oneOf ⟨found.negated, found.text.map (fun c => ⟨c, c⟩), []⟩ :: ·) := by
  have hread := class?_escape found.negated rest hsome hdash
  have hregex : found.regex ++ rest = '[' :: ((if found.negated then ['^'] else []) ++
      (found.text.flatMap BracketText.escape ++ ']' :: rest)) := by
    simp only [BracketText.regex, List.cons_append, List.append_assoc, List.nil_append]
  rw [hregex, pieces?]
  split
  case h_1 hnone =>
    rw [hread] at hnone
    cases hnone
  case h_2 cls left hsome =>
    rw [hread] at hsome
    obtain ⟨rfl, rfl⟩ := Prod.mk.inj (Option.some.inj hsome)
    rfl

end Regex

end Highlighting
