import Highlighting.Grammar.Generator
import Highlighting.Grammar.Json.Lexeme

/-!
The declarations from which the scanner for JSON is generated.
-/

namespace Highlighting.Json

inductive Variant where
  | whitespace
  | punctuation
  | string
  | integer
  | float
  | constant
  deriving DecidableEq, Repr

def Variant.kind : Variant → TokenKind
  | .whitespace => .ignorable
  | .punctuation => .punctuation
  | .string => .stringDouble
  | .integer => .numberDecimal
  | .float => .numberFloat
  | .constant => .keywordConstant

namespace Declared

def digit : Expression :=
  .oneOf { members := [⟨'0', '9'⟩] }

/-- The expression `[ \t\r\n]+`. -/
def whitespace : Expression :=
  (Expression.anyOf [' ', '\t', '\r', '\n']).repeated

/-- The expression `[^"\\\x00-\x1F]|\\[^\x00-\x1F]`. -/
def stringItem : Expression :=
  .either
    (.oneOf { negated := true, members := [⟨'"', '"'⟩, ⟨'\\', '\\'⟩, ⟨'\x00', '\x1F'⟩] })
    (.seq (.literal "\\") (.oneOf { negated := true, members := [⟨'\x00', '\x1F'⟩] }))

def string : Expression :=
  .seq (.literal "\"") (.seq (.many stringItem) (.literal "\""))

/-- The expression `-?(0|[1-9][0-9]*)`. -/
def integer : Expression :=
  .seq (.optional (.literal "-"))
    (.either (.literal "0") (.seq (.oneOf { members := [⟨'1', '9'⟩] }) (.many digit)))

/-- The expression `\.[0-9]+`. -/
def fraction : Expression :=
  .seq (.literal ".") digit.repeated

/-- The expression `[eE][+-]?[0-9]+`. -/
def exponent : Expression :=
  .seq (.anyOf ['e', 'E']) (.seq (.optional (.anyOf ['+', '-'])) digit.repeated)

def float : Expression :=
  .seq integer (.either (.seq fraction exponent.optional) exponent)

def structurals : List String :=
  ["\x7b", "\x7d", "[", "]", ":", ","]

def constants : List String :=
  ["true", "false", "null"]

end Declared

def declarations : List (Expression × Variant) :=
  (Declared.whitespace, .whitespace)
    :: (Declared.string, .string)
    :: (Declared.integer, .integer)
    :: (Declared.float, .float)
    :: Declared.structurals.map (fun text => (.literal text, .punctuation))
    ++ Declared.constants.map (fun text => (.literal text, .constant))

/-- The scanner that is generated: it looks at the bytes up to the limit, and an error is text. -/
def generated (generate : Generator) : Scanner := fun _ cx =>
  (generate Variant declarations cx.rest.toList).map (fun found =>
    ⟨(found.token?.map Variant.kind).getD .text, found.length⟩)

end Highlighting.Json
