import Highlighting.Registry.CharClass

/-!
Regular expressions in the notation to which globs are translated. An expression is a group between two
anchors in which a dot stands for any character, line breaks included. The group holds dots, runs of
dots, bracketed classes, and characters that stand for themselves, escaped where they mean something
else. What is written in any other way is not read.
-/

namespace Highlighting

inductive GlobPiece where
  | anyRun
  | anyOne
  | literal (c : Char)
  | oneOf (cls : CharClass)
  deriving DecidableEq, Repr

namespace Regex

def isMeta (c : Char) : Bool :=
  "\\.+*?()|[]\x7b\x7d^$#&-~".toList.contains c

def escape (c : Char) : List Char :=
  if isMeta c then ['\\', c] else [c]

def opening : List Char :=
  "^(?s:".toList

def closing : List Char :=
  ")$".toList

/-- Reads a class up to the bracket that closes it and takes the escapes away. Classes in classes,
intersections and symmetric differences are not read. -/
def classText? : List Char → Option (List Char × List Char)
  | [] => none
  | ']' :: rest => some ([], rest)
  | '\\' :: c :: rest =>
    if isMeta c && c != '-' then (classText? rest).map (fun (text, rest) => (c :: text, rest)) else none
  | '[' :: _ => none
  | '&' :: '&' :: _ => none
  | '~' :: '~' :: _ => none
  | c :: rest => (classText? rest).map (fun (text, rest) => (c :: text, rest))

def mark : List Char → Bool × List Char
  | '^' :: rest => (true, rest)
  | cs => (false, cs)

def class? (cs : List Char) : Option (CharClass × List Char) :=
  match classText? (mark cs).2 with
  | some (c :: text, rest) => (CharClass.ofText? (mark cs).1 (c :: text)).map (·, rest)
  | _ => none

theorem length_classText?_lt {cs text rest : List Char} (h : classText? cs = some (text, rest)) :
    rest.length < cs.length := by
  fun_induction classText? cs generalizing text rest with
  | case1 => cases h
  | case2 tail =>
    obtain ⟨-, rfl⟩ := Prod.mk.inj (Option.some.inj h)
    exact Nat.lt_succ_self _
  | case3 c tail _ ih =>
    obtain ⟨⟨read, left⟩, hread, hpair⟩ := Option.map_eq_some_iff.mp h
    obtain ⟨-, rfl⟩ := Prod.mk.inj hpair
    exact Nat.lt_succ_of_lt (Nat.lt_succ_of_lt (ih hread))
  | case4 => cases h
  | case5 => cases h
  | case6 => cases h
  | case7 => cases h
  | case8 c tail _ _ _ _ _ ih =>
    obtain ⟨⟨read, left⟩, hread, hpair⟩ := Option.map_eq_some_iff.mp h
    obtain ⟨-, rfl⟩ := Prod.mk.inj hpair
    exact Nat.lt_succ_of_lt (ih hread)

theorem length_mark_le (cs : List Char) : (mark cs).2.length ≤ cs.length := by
  unfold mark
  split <;> simp

theorem length_class?_lt {cs rest : List Char} {cls : CharClass} (h : class? cs = some (cls, rest)) :
    rest.length < cs.length := by
  unfold class? at h
  split at h
  case h_1 c text left hread =>
    obtain ⟨read, -, hpair⟩ := Option.map_eq_some_iff.mp h
    obtain ⟨-, rfl⟩ := Prod.mk.inj hpair
    exact Nat.lt_of_lt_of_le (length_classText?_lt hread) (length_mark_le cs)
  case h_2 => cases h

def pieces? (cs : List Char) : Option (List GlobPiece) :=
  match cs with
  | '.' :: '*' :: rest => (pieces? rest).map (GlobPiece.anyRun :: ·)
  | '.' :: rest => (pieces? rest).map (GlobPiece.anyOne :: ·)
  | '\\' :: c :: rest => if isMeta c then (pieces? rest).map (GlobPiece.literal c :: ·) else none
  | '[' :: rest =>
    match _h : class? rest with
    | none => none
    | some (cls, rest) => (pieces? rest).map (GlobPiece.oneOf cls :: ·)
  | c :: rest =>
    if cs = closing then some []
    else if isMeta c then none
    else (pieces? rest).map (GlobPiece.literal c :: ·)
  | [] => none
termination_by cs.length
decreasing_by
  all_goals simp only [List.length_cons]
  all_goals first
    | omega
    | exact Nat.lt_succ_of_lt (length_class?_lt (by assumption))

def ofChars? (cs : List Char) : Option (List GlobPiece) :=
  if opening.isPrefixOf cs then pieces? (cs.drop opening.length) else none

end Regex

end Highlighting
