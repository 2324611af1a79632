import Highlighting.Format.Basic

/-!
The terminal format: runs are wrapped in control sequences that set and reset the colour.
-/

namespace Highlighting.Terminal

def sequence (parameters : String) : Bytes :=
  Bytes.ofText ("\x1b[" ++ parameters ++ "m")

def ownParameters? : TokenKind → Option String
  | .nameBuiltin => some "36"
  | .nameAttribute => some "36"
  | .keywordType => some "36"
  | .nameTag => some "36;01"
  | .nameVariable => some "31"
  | .nameFunction => some "32"
  | .nameClass => some "32;04"
  | .nameNamespace => some "32;04"
  | .keyword => some "34"
  | .keywordDeclaration => some "34"
  | .operator => some "35"
  | .number => some "34"
  | .literalSize => some "34"
  | .literalDuration => some "34"
  | .comment => some "37"
  | .string => some "33"
  | .sequenceEscaped => some "30;01;01"
  | .sequenceInterpolated => some "30;01"
  | .genericHeading => some "37;01;01"
  | .genericSubheading => some "37;01;01"
  | .genericInserted => some "34"
  | .genericDeleted => some "31"
  | _ => none

/-- The parameters of a kind, taken from the nearest ancestor that has some. Special keywords do not
take those of keywords in general. -/
def parameters? (kind : TokenKind) : Option String :=
  if kind.parent? = some .keyword then ownParameters? kind
  else kind.lineage.findSome? ownParameters?

def render : Call → Bytes
  | .startToken kind =>
    match parameters? kind with
    | some parameters => sequence parameters
    | none => #[]
  | .endToken kind => if (parameters? kind).isSome then sequence "39;49;00" else #[]
  | .write text => text
  | _ => #[]

def format : Format where
  name := "Terminal"
  description := "Format tokens with ANSI color sequences, for output in a text console"
  render _ := render

end Highlighting.Terminal
