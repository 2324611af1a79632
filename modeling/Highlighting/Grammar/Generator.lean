import Highlighting.Bytes
import Highlighting.Registry.CharClass

/-!
Scanners that are generated from declarations. A declaration is a regular expression with the token that a
match of it is. The generator is not part of the library; what is relied on is said in
`Generator.TakesLongest`.
-/

namespace Highlighting

inductive Expression where
  | literal (text : String)
  | oneOf (cls : CharClass)
  | seq (first second : Expression)
  | either (first second : Expression)
  | many (inner : Expression)

namespace Expression

def optional (inner : Expression) : Expression :=
  .either (.literal "") inner

def repeated (inner : Expression) : Expression :=
  .seq inner (.many inner)

def anyOf (chars : List Char) : Expression :=
  .oneOf { members := chars.map (fun c => ⟨c, c⟩) }

end Expression

/-- What a class of characters stands for in a source of bytes: the encodings of its characters, or the
bytes that have their numbers. -/
inductive Reading where
  | characters
  | bytes
  deriving DecidableEq, Repr

def CharClass.Matches (cls : CharClass) (word : List UInt8) : Reading → Prop
  | .characters => ∃ c, cls.contains c = true ∧ word = String.utf8EncodeChar c
  | .bytes => ∃ b : UInt8, cls.contains (Char.ofNat b.toNat) = true ∧ word = [b]

def Expression.Matches (reading : Reading) : Expression → List UInt8 → Prop
  | .literal text, word => word = (Bytes.ofText text).toList
  | .oneOf cls, word => cls.Matches word reading
  | .seq first second, word =>
    ∃ front back, word = front ++ back ∧ first.Matches reading front ∧ second.Matches reading back
  | .either first second, word => first.Matches reading word ∨ second.Matches reading word
  | .many inner, word => ∃ parts : List (List UInt8), word = parts.flatten ∧
    ∀ part ∈ parts, inner.Matches reading part

structure Found (τ : Type) where
  token? : Option τ
  length : Nat
  deriving DecidableEq, Repr

abbrev Generator : Type 1 :=
  (τ : Type) → List (Expression × τ) → List UInt8 → Option (Found τ)

def Declares {τ : Type} (reading : Reading) (declarations : List (Expression × τ))
    (source : List UInt8) (token : τ) (length : Nat) : Prop :=
  ∃ expression, (expression, token) ∈ declarations ∧ 0 < length ∧ length ≤ source.length ∧
    expression.Matches reading (source.take length)

/-- What a generator is documented to do, whatever is declared: at the end of the source nothing is found,
elsewhere the longest match of any declaration, or an error if none matches. Which one is taken of two
that match equally far is left open, and so is the length of an error. -/
structure Generator.TakesLongest (generate : Generator) (reading : Reading) : Prop where
  exhausted : ∀ τ (declarations : List (Expression × τ)), generate τ declarations [] = none
  answers : ∀ τ (declarations : List (Expression × τ)) source, source ≠ [] →
    ∃ found, generate τ declarations source = some found
  token : ∀ τ (declarations : List (Expression × τ)) source token length,
    generate τ declarations source = some ⟨some token, length⟩ →
      Declares reading declarations source token length ∧
        ∀ other longer, Declares reading declarations source other longer → longer ≤ length
  error : ∀ τ (declarations : List (Expression × τ)) source length,
    generate τ declarations source = some ⟨none, length⟩ →
      ∀ token length, ¬ Declares reading declarations source token length

end Highlighting
