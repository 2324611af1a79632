import Highlighting.Registry.Regex

/-!
Globs, the patterns for file names. A star stands for any sequence of characters, a question mark
for any one character, and a bracketed class for one character of a set. An exclamation mark in front
negates a class, and an opening bracket that is never closed stands for itself.

A pattern is translated to a regular expression, which is then read and run.
-/

namespace Highlighting

structure BracketText where
  negated : Bool
  text : List Char
  rest : List Char

def BracketText.leading : List Char → List Char × List Char
  | ']' :: rest => ([']'], rest)
  | cs => ([], cs)

def BracketText.mark : List Char → Bool × List Char
  | '!' :: rest => (true, rest)
  | cs => (false, cs)

def BracketText.ofChars? (cs : List Char) : Option BracketText :=
  let (negated, unmarked) := BracketText.mark cs
  let (bracket, body) := BracketText.leading unmarked
  match body.dropWhile (· != ']') with
  | [] => none
  | _ :: rest => some ⟨negated, bracket ++ body.takeWhile (· != ']'), rest⟩

theorem BracketText.length_mark_le (cs : List Char) : (BracketText.mark cs).2.length ≤ cs.length := by
  unfold BracketText.mark
  split <;> simp

theorem BracketText.length_leading_le (cs : List Char) :
    (BracketText.leading cs).2.length ≤ cs.length := by
  unfold BracketText.leading
  split <;> simp

theorem BracketText.length_rest_lt {cs : List Char} {found : BracketText}
    (h : BracketText.ofChars? cs = some found) : found.rest.length < cs.length := by
  simp only [BracketText.ofChars?] at h
  split at h
  · simp at h
  · rename_i rest heq
    obtain rfl := Option.some.inj h
    have hd := (List.dropWhile_sublist (fun c => c != ']')
      (l := (BracketText.leading (BracketText.mark cs).2).2)).length_le
    have hm := BracketText.length_mark_le cs
    have hl := BracketText.length_leading_le (BracketText.mark cs).2
    rw [heq] at hd
    simp only [List.length_cons] at hd
    simp only
    omega

def BracketText.escape (c : Char) : List Char :=
  if "\\[]^&~".toList.contains c then ['\\', c] else [c]

def BracketText.regex (found : BracketText) : List Char :=
  '[' :: (if found.negated then ['^'] else []) ++ found.text.flatMap escape ++ [']']

abbrev Glob : Type :=
  List GlobPiece

namespace Glob

def regexParts (cs : List Char) : List Char :=
  match cs with
  | [] => []
  | '*' :: rest => '.' :: '*' :: regexParts rest
  | '?' :: rest => '.' :: regexParts rest
  | '[' :: rest =>
    match _h : BracketText.ofChars? rest with
    | none => '\\' :: '[' :: regexParts rest
    | some found => found.regex ++ regexParts found.rest
  | c :: rest => Regex.escape c ++ regexParts rest
termination_by cs.length
decreasing_by
  all_goals simp only [List.length_cons]
  all_goals first
    | omega
    | exact Nat.lt_succ_of_lt (BracketText.length_rest_lt (by assumption))

def regex (cs : List Char) : List Char :=
  Regex.opening ++ regexParts cs ++ Regex.closing

def ofChars? (cs : List Char) : Option Glob :=
  Regex.ofChars? (regex cs)

def suffixes (cs : List Char) : List (List Char) :=
  cs.foldr
    (fun c found =>
      match found with
      | [] => []
      | longest :: _ => (c :: longest) :: found)
    [[]]

def stepOver (p : Char → Bool) (rests : List (List Char)) : List (List Char) :=
  rests.filterMap (fun cs =>
    match cs with
    | [] => none
    | c :: rest => if p c then some rest else none)

/-- What can be left after one part of a glob. The texts in `rests` are suffixes of one text with the
longest first, so its suffixes include those of the others. -/
def step (rests : List (List Char)) : GlobPiece → List (List Char)
  | .anyRun =>
    match rests with
    | [] => []
    | longest :: _ => suffixes longest
  | .anyOne => stepOver (fun _ => true) rests
  | .literal c => stepOver (· == c) rests
  | .oneOf cls => stepOver cls.contains rests

def matchesChars (glob : Glob) (cs : List Char) : Bool :=
  (glob.foldl step [cs]).contains []

end Glob

end Highlighting
