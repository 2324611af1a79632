import Highlighting.Scan.Context
import Highlighting.Token

/-!
The lexemes of JSON at a cursor. Each recogniser gives the length of the longest lexeme of its class
that begins at the cursor and ends at or before the limit.
-/

namespace Highlighting.Json

variable {w : Window}

structure Lexeme where
  kind : TokenKind
  length : Nat
  deriving DecidableEq, Repr

def isSpace (b : UInt8) : Bool :=
  b == 0x20 || b == 0x09 || b == 0x0D || b == 0x0A

def isStructural (b : UInt8) : Bool :=
  b == 0x7B || b == 0x7D || b == 0x5B || b == 0x5D || b == 0x3A || b == 0x2C

def isDigit (b : UInt8) : Bool :=
  0x30 ≤ b && b ≤ 0x39

def isExponentMark (b : UInt8) : Bool :=
  b == 0x65 || b == 0x45

def isSign (b : UInt8) : Bool :=
  b == 0x2B || b == 0x2D

def testAt (cx : ScanContext w) (p : UInt8 → Bool) (offset : Nat) : Bool :=
  (cx.peekAt offset).any p

def integerLength? (cx : ScanContext w) : Option Nat :=
  let sign := if testAt cx (· == 0x2D) 0 then 1 else 0
  if testAt cx (· == 0x30) sign then some (sign + 1)
  else if testAt cx isDigit sign then some (sign + cx.runLength isDigit sign)
  else none

def fractionLength (cx : ScanContext w) (offset : Nat) : Nat :=
  if testAt cx (· == 0x2E) offset then
    let digits := cx.runLength isDigit (offset + 1)
    if digits = 0 then 0 else 1 + digits
  else 0

def exponentLength (cx : ScanContext w) (offset : Nat) : Nat :=
  if testAt cx isExponentMark offset then
    let sign := if testAt cx isSign (offset + 1) then 1 else 0
    let digits := cx.runLength isDigit (offset + 1 + sign)
    if digits = 0 then 0 else 1 + sign + digits
  else 0

def number? (cx : ScanContext w) : Option Lexeme :=
  (integerLength? cx).map (fun whole =>
    let mantissa := whole + fractionLength cx whole
    let length := mantissa + exponentLength cx mantissa
    ⟨if length = whole then .numberDecimal else .numberFloat, length⟩)

/-- How many bytes the next character of a string takes at offset `i`: a plain byte that is neither a
quote nor a control, or a backslash with a byte that is no control; zero if none stands there. -/
def stringCharLength (input : Bytes) (limit i : Nat) : Nat :=
  if i < limit then
    match input[i]? with
    | none => 0
    | some b =>
      if b == 0x22 || b < 0x20 then 0
      else if b == 0x5C then
        if i + 1 < limit && (input[i + 1]?).any (0x20 ≤ ·) then 2 else 0
      else 1
  else 0

def skipStringChars (input : Bytes) (limit : Nat) : (count i : Nat) → Nat
  | 0, i => i
  | count + 1, i =>
    match stringCharLength input limit i with
    | 0 => i
    | length => skipStringChars input limit count (i + length)

def stringStop (input : Bytes) (limit i : Nat) : Nat :=
  skipStringChars input limit (limit - i) i

def string (cx : ScanContext w) : Lexeme :=
  let body := stringStop w.input w.limit (cx.cursor + 1) - cx.cursor
  if testAt cx (· == 0x22) body then ⟨.stringDouble, body + 1⟩ else ⟨.text, body⟩

def constants : List (List UInt8) :=
  [[0x74, 0x72, 0x75, 0x65], [0x66, 0x61, 0x6C, 0x73, 0x65], [0x6E, 0x75, 0x6C, 0x6C]]

def constant? (cx : ScanContext w) : Option Lexeme :=
  (constants.find? cx.startsWith).map (fun constant => ⟨.keywordConstant, constant.length⟩)

/-- The lexeme that begins at the cursor with the byte `first`; a byte that begins none is text. -/
def lexeme (cx : ScanContext w) (first : UInt8) : Lexeme :=
  if isSpace first then ⟨.ignorable, cx.runLength isSpace 0⟩
  else if isStructural first then ⟨.punctuation, 1⟩
  else if first == 0x22 then string cx
  else ((number? cx).or (constant? cx)).getD ⟨.text, 1⟩

abbrev Scanner : Type :=
  (w : Window) → ScanContext w → Option Lexeme

def scanner : Scanner :=
  fun _ cx => cx.peek.map (lexeme cx)

end Highlighting.Json
