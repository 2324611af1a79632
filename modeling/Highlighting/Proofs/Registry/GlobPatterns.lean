import Highlighting.Proofs.Registry.GlobMatching
import Highlighting.Proofs.Registry.RegexReading
import Highlighting.Registry.GlobLimit

/-! What a pattern means and what becomes of it. A pattern is a sequence of parts: stars, question marks,
bracketed classes and characters that stand for themselves. Its regular expression is read as the same
sequence, whatever characters occur in it, so a pattern without dashes in its classes matches the texts
that can be cut into segments for its parts. -/
namespace Highlighting

inductive PatternPart where
  | anyRun
  | anyOne
  | literal (c : Char)
  | oneOf (negated : Bool) (members : List Char)

namespace PatternPart

/-- The texts that a part stands for. -/
def Matches : PatternPart → List Char → Prop
  | .anyRun, _ => True
  | .anyOne, text => ∃ c, text = [c]
  | .literal c, text => text = [c]
  | .oneOf negated members, text =>
    ∃ c, (if negated then c ∉ members else c ∈ members) ∧ text = [c]

def members : PatternPart → List Char
  | .oneOf _ members => members
  | _ => []

def piece : PatternPart → GlobPiece
  | .anyRun => .anyRun
  | .anyOne => .anyOne
  | .literal c => .literal c
  | .oneOf negated members => .oneOf ⟨negated, members.map (fun c => ⟨c, c⟩), []⟩

end PatternPart

/-- The members of a class up to the bracket that closes it. There is at least one, and only the first
can be a closing bracket. -/
structure Encloses (cs members rest : List Char) : Prop where
  split : cs = members ++ ']' :: rest
  nonempty : members ≠ []
  closed : ']' ∉ members.tail

inductive IsClass : List Char → Bool → List Char → List Char → Prop
  | plain {cs members rest : List Char} (hencloses : Encloses cs members rest)
      (hmark : cs.head? ≠ some '!') : IsClass cs false members rest
  | negated {cs members rest : List Char} (hencloses : Encloses cs members rest) :
      IsClass ('!' :: cs) true members rest

/-- What it is for a pattern to be a sequence of parts. An opening bracket stands for itself only where no
class begins with it. -/
inductive IsPattern : List Char → List PatternPart → Prop
  | nil : IsPattern [] []
  | anyRun {cs : List Char} {parts : List PatternPart} (h : IsPattern cs parts) :
      IsPattern ('*' :: cs) (.anyRun :: parts)
  | anyOne {cs : List Char} {parts : List PatternPart} (h : IsPattern cs parts) :
      IsPattern ('?' :: cs) (.anyOne :: parts)
  | oneOf {cs members rest : List Char} {negated : Bool} {parts : List PatternPart}
      (hclass : IsClass cs negated members rest) (h : IsPattern rest parts) :
      IsPattern ('[' :: cs) (.oneOf negated members :: parts)
  | unclosed {cs : List Char} {parts : List PatternPart}
      (hopen : ∀ negated members rest, ¬ IsClass cs negated members rest) (h : IsPattern cs parts) :
      IsPattern ('[' :: cs) (.literal '[' :: parts)
  | literal {c : Char} {cs : List Char} {parts : List PatternPart}
      (hc : c ≠ '*' ∧ c ≠ '?' ∧ c ≠ '[') (h : IsPattern cs parts) :
      IsPattern (c :: cs) (.literal c :: parts)

section Classes

variable {cs members rest body inner : List Char} {negated : Bool}

theorem cut_iff :
    body.dropWhile (· != ']') = ']' :: rest ∧ body.takeWhile (· != ']') = inner ↔
      body = inner ++ ']' :: rest ∧ ']' ∉ inner := by
  constructor
  · rintro ⟨hdrop, rfl⟩
    refine ⟨?_, ?_⟩
    · rw [← hdrop, List.takeWhile_append_dropWhile]
    · intro hmem
      have hkept := List.all_eq_true.mp List.all_takeWhile _ hmem
      exact absurd hkept (by decide)
  · rintro ⟨rfl, hinner⟩
    have hall : ∀ c ∈ inner, (c != ']') = true := by
      intro c hc
      rw [bne_iff_ne]
      rintro rfl
      exact hinner hc
    rw [List.takeWhile_append_of_pos hall, List.dropWhile_append_of_pos hall]
    exact ⟨rfl, List.append_nil _⟩

/-- A closing bracket in front is a member, and the class ends at the first one behind it. -/
theorem encloses_iff :
    Encloses cs members rest ↔ ∃ inner, (BracketText.leading cs).2 = inner ++ ']' :: rest ∧
      ']' ∉ inner ∧ members = (BracketText.leading cs).1 ++ inner := by
  unfold BracketText.leading
  split
  case h_1 tail =>
    constructor
    · rintro ⟨hsplit, hsome, hclosed⟩
      cases members with
      | nil => exact absurd rfl hsome
      | cons first inner =>
        obtain ⟨rfl, rfl⟩ := List.cons.inj hsplit
        exact ⟨inner, rfl, hclosed, rfl⟩
    · rintro ⟨inner, rfl, hinner, rfl⟩
      exact ⟨rfl, List.cons_ne_nil _ _, hinner⟩
  case h_2 hfirst =>
    constructor
    · rintro ⟨rfl, hsome, hclosed⟩
      cases members with
      | nil => exact absurd rfl hsome
      | cons first inner =>
        refine ⟨first :: inner, rfl, ?_, rfl⟩
        intro hmem
        rcases List.mem_cons.mp hmem with rfl | hinner
        · exact hfirst _ rfl
        · exact hclosed hinner
    · rintro ⟨inner, rfl, hinner, rfl⟩
      refine ⟨rfl, ?_, ?_⟩
      · rintro rfl
        exact hfirst _ rfl
      · intro hmem
        exact hinner (List.mem_of_mem_tail hmem)

theorem BracketText.ofChars?_eq_some_iff :
    BracketText.ofChars? cs = some ⟨negated, members, rest⟩ ↔
      (BracketText.mark cs).1 = negated ∧ Encloses (BracketText.mark cs).2 members rest := by
  rw [encloses_iff]
  simp only [BracketText.ofChars?]
  generalize (BracketText.leading (BracketText.mark cs).2).2 = body
  split
  case h_1 hdrop =>
    apply iff_of_false
    · intro hsome
      cases hsome
    · rintro ⟨-, inner, hbody, hinner, -⟩
      rw [(cut_iff.mpr ⟨hbody, hinner⟩).1] at hdrop
      cases hdrop
  case h_2 c tail hdrop =>
    have hbracket : c = ']' := by
      have hstops := List.head?_dropWhile_not (· != ']') body
      rw [hdrop] at hstops
      simpa using hstops
    subst hbracket
    rw [Option.some.injEq, BracketText.mk.injEq]
    constructor
    · rintro ⟨rfl, rfl, rfl⟩
      obtain ⟨hbody, hinner⟩ := cut_iff.mp ⟨hdrop, rfl⟩
      exact ⟨rfl, _, hbody, hinner, rfl⟩
    · rintro ⟨rfl, inner, hbody, hinner, rfl⟩
      obtain ⟨hbehind, hwhile⟩ := cut_iff.mpr ⟨hbody, hinner⟩
      rw [hdrop] at hbehind
      exact ⟨rfl, by rw [hwhile], (List.cons.inj hbehind).2⟩

theorem IsClass.nonempty (h : IsClass cs negated members rest) : members ≠ [] := by
  cases h with
  | plain hencloses _ => exact hencloses.nonempty
  | negated hencloses => exact hencloses.nonempty

theorem isClass_iff :
    IsClass cs negated members rest ↔ BracketText.ofChars? cs = some ⟨negated, members, rest⟩ := by
  rw [BracketText.ofChars?_eq_some_iff]
  constructor
  · intro h
    cases h with
    | plain hencloses hmark =>
      have hunmarked : BracketText.mark cs = (false, cs) := by
        unfold BracketText.mark
        split
        case h_1 => exact absurd rfl hmark
        case h_2 => rfl
      rw [hunmarked]
      exact ⟨rfl, hencloses⟩
    | negated hencloses => exact ⟨rfl, hencloses⟩
  · unfold BracketText.mark
    split
    case h_1 tail =>
      rintro ⟨rfl, hencloses⟩
      exact .negated hencloses
    case h_2 hmark =>
      rintro ⟨rfl, hencloses⟩
      refine .plain hencloses ?_
      intro hhead
      obtain ⟨tail, rfl⟩ := List.head?_eq_some_iff.mp hhead
      exact hmark tail rfl

end Classes

section Patterns

variable {cs : List Char} {parts parts' : List PatternPart}

/-- Every text is a pattern. -/
theorem exists_isPattern (cs : List Char) : ∃ parts, IsPattern cs parts := by
  induction cs using Glob.regexParts.induct with
  | case1 => exact ⟨[], .nil⟩
  | case2 rest ih =>
    obtain ⟨parts, hparts⟩ := ih
    exact ⟨.anyRun :: parts, .anyRun hparts⟩
  | case3 rest ih =>
    obtain ⟨parts, hparts⟩ := ih
    exact ⟨.anyOne :: parts, .anyOne hparts⟩
  | case4 rest hnone ih =>
    obtain ⟨parts, hparts⟩ := ih
    refine ⟨.literal '[' :: parts, .unclosed ?_ hparts⟩
    intro negated members rest hclass
    rw [isClass_iff, hnone] at hclass
    cases hclass
  | case5 rest found hfound ih =>
    obtain ⟨parts, hparts⟩ := ih
    exact ⟨.oneOf found.negated found.text :: parts, .oneOf (isClass_iff.mpr hfound) hparts⟩
  | case6 c rest hstar hquestion hbracket ih =>
    obtain ⟨parts, hparts⟩ := ih
    exact ⟨.literal c :: parts, .literal ⟨hstar, hquestion, hbracket⟩ hparts⟩

/-- A text is a pattern in one way only. -/
theorem IsPattern.unique (h : IsPattern cs parts) (h' : IsPattern cs parts') : parts = parts' := by
  induction h generalizing parts' with
  | nil =>
    cases h'
    rfl
  | anyRun _ ih =>
    cases h' with
    | anyRun h' => rw [ih h']
    | literal hc => exact absurd rfl hc.1
  | anyOne _ ih =>
    cases h' with
    | anyOne h' => rw [ih h']
    | literal hc => exact absurd rfl hc.2.1
  | oneOf hclass _ ih =>
    cases h' with
    | oneOf hclass' h' =>
      rw [isClass_iff] at hclass hclass'
      have hsame := Option.some.inj (hclass.symm.trans hclass')
      obtain ⟨rfl, rfl, rfl⟩ := BracketText.mk.inj hsame
      rw [ih h']
    | unclosed hopen => exact absurd hclass (hopen _ _ _)
    | literal hc => exact absurd rfl hc.2.2
  | unclosed hopen _ ih =>
    cases h' with
    | oneOf hclass => exact absurd hclass (hopen _ _ _)
    | unclosed _ h' => rw [ih h']
    | literal hc => exact absurd rfl hc.2.2
  | literal hc _ ih =>
    cases h' with
    | anyRun => exact absurd rfl hc.1
    | anyOne => exact absurd rfl hc.2.1
    | oneOf => exact absurd rfl hc.2.2
    | unclosed => exact absurd rfl hc.2.2
    | literal _ h' => rw [ih h']

theorem Glob.regexParts_unclosed (hopen : ∀ negated members rest, ¬ IsClass cs negated members rest) :
    Glob.regexParts ('[' :: cs) = Regex.escape '[' ++ Glob.regexParts cs := by
  rw [Glob.regexParts]
  split
  case h_1 => rfl
  case h_2 found hfound => exact absurd (isClass_iff.mpr hfound) (hopen _ _ _)

theorem Glob.regexParts_class {members rest : List Char} {negated : Bool}
    (hclass : IsClass cs negated members rest) :
    Glob.regexParts ('[' :: cs) =
      (⟨negated, members, rest⟩ : BracketText).regex ++ Glob.regexParts rest := by
  have hread := isClass_iff.mp hclass
  rw [Glob.regexParts]
  split
  case h_1 hnone =>
    rw [hread] at hnone
    cases hnone
  case h_2 found hfound =>
    rw [hread] at hfound
    obtain rfl := Option.some.inj hfound
    rfl

theorem Glob.regexParts_literal {c : Char} (hc : c ≠ '*' ∧ c ≠ '?' ∧ c ≠ '[') :
    Glob.regexParts (c :: cs) = Regex.escape c ++ Glob.regexParts cs := by
  rw [Glob.regexParts]
  · exact hc.1
  · exact hc.2.1
  · exact hc.2.2

theorem IsPattern.head?_regexParts (h : IsPattern cs parts) :
    (Glob.regexParts cs ++ Regex.closing).head? ≠ some '*' := by
  have hescape (c : Char) (rest : List Char) : (Regex.escape c ++ rest).head? ≠ some '*' := by
    unfold Regex.escape
    split
    case isTrue => exact of_decide_eq_true rfl
    case isFalse hmeta =>
      intro hhead
      obtain rfl := Option.some.inj hhead
      exact hmeta (by decide)
  cases h with
  | nil =>
    rw [Glob.regexParts]
    decide
  | anyRun | anyOne =>
    rw [Glob.regexParts]
    exact of_decide_eq_true rfl
  | oneOf hclass =>
    rw [Glob.regexParts_class hclass]
    exact of_decide_eq_true rfl
  | unclosed hopen =>
    rw [Glob.regexParts_unclosed hopen, List.append_assoc]
    exact hescape _ _
  | literal hc =>
    rw [Glob.regexParts_literal hc, List.append_assoc]
    exact hescape _ _

theorem IsPattern.pieces?_regexParts (h : IsPattern cs parts)
    (hdash : ∀ part ∈ parts, '-' ∉ part.members) :
    Regex.pieces? (Glob.regexParts cs ++ Regex.closing) = some (parts.map PatternPart.piece) := by
  induction h with
  | nil =>
    rw [Glob.regexParts]
    exact Regex.pieces?_closing
  | anyRun _ ih =>
    rw [Glob.regexParts, List.cons_append, List.cons_append, Regex.pieces?_anyRun,
      ih (List.forall_mem_cons.mp hdash).2]
    rfl
  | anyOne hparts ih =>
    -- No star follows the dot, as no part of an expression begins with one.
    rw [Glob.regexParts, List.cons_append, Regex.pieces?_anyOne hparts.head?_regexParts,
      ih (List.forall_mem_cons.mp hdash).2]
    rfl
  | oneOf hclass _ ih =>
    obtain ⟨hmembers, hothers⟩ := List.forall_mem_cons.mp hdash
    rw [Glob.regexParts_class hclass, List.append_assoc, Regex.pieces?_class _ _ hclass.nonempty hmembers,
      ih hothers]
    rfl
  | unclosed hopen _ ih =>
    rw [Glob.regexParts_unclosed hopen, List.append_assoc, Regex.pieces?_escape,
      ih (List.forall_mem_cons.mp hdash).2]
    rfl
  | literal hc _ ih =>
    rw [Glob.regexParts_literal hc, List.append_assoc, Regex.pieces?_escape,
      ih (List.forall_mem_cons.mp hdash).2]
    rfl

theorem IsPattern.ofChars? (h : IsPattern cs parts) (hdash : ∀ part ∈ parts, '-' ∉ part.members) :
    Glob.ofChars? cs = some (parts.map PatternPart.piece) := by
  have hopening : Regex.opening.isPrefixOf (Glob.regex cs) = true := by
    rw [List.isPrefixOf_iff_prefix, Glob.regex, List.append_assoc]
    exact List.prefix_append _ _
  rw [Glob.ofChars?, Regex.ofChars?, if_pos hopening, Glob.regex, List.append_assoc, List.drop_left]
  exact h.pieces?_regexParts hdash

end Patterns

namespace PatternPart

theorem matches_piece_iff {part : PatternPart} {text : List Char} :
    part.piece.Matches text ↔ part.Matches text := by
  cases part with
  | anyRun | anyOne | literal => rfl
  | oneOf negated members =>
    simp only [piece, GlobPiece.Matches, CharClass.contains_singletons, PatternPart.Matches]

/-- Without dashes nothing is nested deep, whatever the number of parts and members. -/
theorem depth_pieces_le (parts : List PatternPart) : Glob.depth (parts.map piece) ≤ 5 := by
  have hpiece (part : PatternPart) : part.piece.depth ≤ 2 := by
    cases part with
    | anyRun | anyOne | literal => simp [piece, GlobPiece.depth]
    | oneOf negated members =>
      simp only [piece, GlobPiece.depth, List.length_nil]
      split <;> omega
  have hdeepest : ((parts.map piece).map GlobPiece.depth).foldl max 0 ≤ 2 := by
    refine List.foldlRecOn (motive := (· ≤ 2)) _ max (Nat.zero_le 2) ?_
    intro deepest hle depth hdepth
    rw [List.map_map] at hdepth
    obtain ⟨part, -, rfl⟩ := List.mem_map.mp hdepth
    exact max_le hle (hpiece part)
  unfold Glob.depth
  split <;> omega

end PatternPart

/-- The texts that a pattern stands for can be cut into segments for its parts, one for each. -/
def StandsFor (pattern text : List Char) : Prop :=
  ∃ parts, IsPattern pattern parts ∧
    ∃ segments, List.Forall₂ PatternPart.Matches parts segments ∧ segments.flatten = text

theorem IsPattern.matchesChars_pieces_iff {cs text : List Char} {parts : List PatternPart}
    (h : IsPattern cs parts) :
    Glob.matchesChars (parts.map PatternPart.piece) text = true ↔ StandsFor cs text := by
  simp only [Glob.matchesChars_iff, List.forall₂_map_left_iff, PatternPart.matches_piece_iff]
  constructor
  · rintro ⟨segments, hsegments, htext⟩
    exact ⟨parts, h, segments, hsegments, htext⟩
  · rintro ⟨parts', hparts', segments, hsegments, htext⟩
    rw [hparts'.unique h] at hsegments
    exact ⟨segments, hsegments, htext⟩

/-- Every pattern without dashes in its classes is read, and matches the texts that it stands for. Only its
size limits it. -/
theorem glob_matches_what_pattern_stands_for (pattern : String)
    (hdash : ∀ parts, IsPattern pattern.toList parts → ∀ part ∈ parts, '-' ∉ part.members) :
    (∃! parts, IsPattern pattern.toList parts) ∧
      ∃ glob, Glob.ofChars? pattern.toList = some glob ∧
        (∀ text, glob.matchesChars text = true ↔ StandsFor pattern.toList text) ∧
        (glob.automatonSize ≤ 10 * 1024 * 1024 →
          ∀ text, globMatches pattern text = true ↔ StandsFor pattern.toList text) := by
  obtain ⟨parts, hparts⟩ := exists_isPattern pattern.toList
  have hread := hparts.ofChars? (hdash parts hparts)
  refine ⟨⟨parts, hparts, ?_⟩, _, hread, ?_, ?_⟩
  · intro parts' hparts'
    exact hparts'.unique hparts
  · intro text
    exact hparts.matchesChars_pieces_iff
  · intro hsize text
    have hdepth := PatternPart.depth_pieces_le parts
    have hfits : Glob.fits (parts.map PatternPart.piece) = true := by
      rw [Glob.fits, Bool.and_eq_true, decide_eq_true_iff, decide_eq_true_iff]
      exact ⟨hsize, by omega⟩
    rw [globMatches, hread, Option.any_some, hfits, Bool.true_and]
    exact hparts.matchesChars_pieces_iff

/-- A dash outside the classes, a closing bracket and a caret as members, and a bracket that is never
closed. -/
theorem isPattern_brackets :
    IsPattern ['-', '[', ']', ']', '[', '!', '^', ']', '*', '?', '[', 'o'] [.literal '-',
      .oneOf false [']'], .oneOf true ['^'], .anyRun, .anyOne, .literal '[', .literal 'o'] := by
  refine .literal (by decide) ?_
  refine .oneOf (.plain ⟨rfl, by decide, by decide⟩ (by decide)) ?_
  refine .oneOf (.negated ⟨rfl, by decide, by decide⟩) ?_
  refine .anyRun (.anyOne (.unclosed ?_ (.literal (by decide) .nil)))
  intro negated members rest hclass
  have hnone : BracketText.ofChars? ['o'] = none := rfl
  rw [isClass_iff, hnone] at hclass
  cases hclass

theorem glob_matches_brackets :
    (∀ parts, IsPattern "-[]][!^]*?[o".toList parts → ∀ part ∈ parts, '-' ∉ part.members) ∧
      (∀ text, globMatches "-[]][!^]*?[o" text = true ↔ StandsFor "-[]][!^]*?[o".toList text) ∧
      StandsFor "-[]][!^]*?[o".toList "-]a\n?[o".toList ∧
      ¬ StandsFor "-[]][!^]*?[o".toList "-]^\n?[o".toList := by
  have hchars : "-[]][!^]*?[o".toList =
      ['-', '[', ']', ']', '[', '!', '^', ']', '*', '?', '[', 'o'] := rfl
  have hdash : ∀ parts, IsPattern "-[]][!^]*?[o".toList parts →
      ∀ part ∈ parts, '-' ∉ part.members := by
    intro parts hparts
    rw [hchars] at hparts
    rw [hparts.unique isPattern_brackets]
    decide
  obtain ⟨-, glob, hread, hglob, hmatches⟩ := glob_matches_what_pattern_stands_for _ hdash
  rw [hchars, isPattern_brackets.ofChars? (by decide)] at hread
  obtain rfl := Option.some.inj hread
  refine ⟨hdash, hmatches (by decide +kernel), (hglob _).mp (by decide +kernel), ?_⟩
  intro hstands
  exact absurd ((hglob _).mpr hstands) (by decide +kernel)

end Highlighting
