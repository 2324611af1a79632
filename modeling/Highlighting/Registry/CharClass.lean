/-!
Bracketed classes, the sets of characters in globs. A closing bracket in front is a member, `a-c` is a
range, and `--` takes everything that follows it away from what precedes it. Dashes in front and at
the end are members. A class with a range that runs backwards is invalid.
-/

namespace Highlighting

structure CharRange where
  first : Char
  last : Char
  deriving DecidableEq, Repr

def CharRange.contains (range : CharRange) (c : Char) : Bool :=
  decide (range.first ≤ c) && decide (c ≤ range.last)

/-- A bracketed class: its members, and the sets that are taken away from them in turn. -/
structure CharClass where
  negated : Bool := false
  members : List CharRange := []
  excluded : List (List CharRange) := []
  deriving DecidableEq, Repr

namespace CharClass

def contains (cls : CharClass) (c : Char) : Bool :=
  let inside := cls.members.any (·.contains c) && !cls.excluded.any (·.any (·.contains c))
  inside != cls.negated

def addFirst (range : CharRange) : List (List CharRange) → List (List CharRange)
  | [] => [[range]]
  | set :: sets => (range :: set) :: sets

/-- The sets of a class, which are divided by `--`; there is always at least one. A range that runs
backwards is refused. -/
def sets? : List Char → Option (List (List CharRange))
  | [] => some [[]]
  | '-' :: '-' :: rest => (sets? rest).map ([] :: ·)
  | c :: tail@('-' :: d :: rest) =>
    if d = '-' then (sets? tail).map (addFirst ⟨c, c⟩)
    else if c ≤ d then (sets? rest).map (addFirst ⟨c, d⟩)
    else none
  | c :: rest => (sets? rest).map (addFirst ⟨c, c⟩)

def ofText? (negated : Bool) (text : List Char) : Option CharClass :=
  let dashes := text.takeWhile (· == '-')
  match sets? (text.dropWhile (· == '-')) with
  | some (set :: sets) => some ⟨negated, dashes.map (fun c => ⟨c, c⟩) ++ set, sets⟩
  | _ => none

end CharClass

end Highlighting
