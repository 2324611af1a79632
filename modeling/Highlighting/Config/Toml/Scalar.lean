import Highlighting.Config.Toml.Date
import Highlighting.Config.Toml.Reader
import Highlighting.Config.Value

/-!
The scalars of TOML: strings in their four forms, integers, floating-point numbers, truth values and
dates. As configuration values dates are texts.
-/

namespace Highlighting.Toml

open Reader

inductive Scalar where
  | bool (value : Bool)
  | int (value : Int)
  | float (value : Float)
  | text (value : String)
  | date (value : String)

def Scalar.toValue : Scalar → ConfigValue
  | .bool value => .bool value
  | .int value => .int value
  | .float value => .float value
  | .text value => .text value
  | .date value => .text value

def hexValue? (c : Char) : Option Nat :=
  if c.isDigit then some (c.toNat - '0'.toNat)
  else if 'a' ≤ c && c ≤ 'f' then some (c.toNat - 'a'.toNat + 10)
  else if 'A' ≤ c && c ≤ 'F' then some (c.toNat - 'A'.toNat + 10)
  else none

def readHex : (count acc : Nat) → Reader Nat
  | 0, acc => return acc
  | count + 1, acc => do
    match hexValue? (← next) with
    | some n => readHex count (16 * acc + n)
    | none => fail

def charOf (code : Nat) : Reader Char :=
  if code.isValidChar then return Char.ofNat code else fail

def readEscape : Reader Char := do
  match ← next with
  | 'b' => return '\x08'
  | 't' => return '\t'
  | 'n' => return '\n'
  | 'f' => return '\x0c'
  | 'r' => return '\r'
  | '"' => return '"'
  | '\\' => return '\\'
  | 'u' => readHex 4 0 >>= charOf
  | 'U' => readHex 8 0 >>= charOf
  | _ => fail

def readBasic : (fuel : Nat) → (acc : List Char) → Reader String
  | 0, _ => fail
  | fuel + 1, acc => do
    let c ← next
    if c == '"' then return String.ofList acc.reverse
    else if c == '\\' then
      let escaped ← readEscape
      readBasic fuel (escaped :: acc)
    else if isPlain c then readBasic fuel (c :: acc)
    else fail

def readLiteral : Reader String := do
  let text ← takeWhile (fun c => isPlain c && c != '\x27')
  expect ['\x27']
  return String.ofList text

/-- Takes the quotes at the end of a string of several lines. Up to two quotes before the last three
belong to the string. -/
def readClosing (quote : Char) : Reader (Option (List Char)) := do
  let quotes ← takeWhile (· == quote)
  if quotes.length < 3 then
    set (quotes ++ (← rest))
    return none
  else if quotes.length ≤ 5 then return some (quotes.drop 3)
  else fail

def skipContinuation (fuel : Nat) : Reader Unit := do
  skipBlanks
  unless ← acceptNewline do fail
  go fuel
where
  go : Nat → Reader Unit
    | 0 => return ()
    | fuel + 1 => do
      skipBlanks
      if ← acceptNewline then go fuel

/-- Takes the rest of a string of several lines. Escapes count in double quotes only. -/
def readMultiline (quote : Char) : (fuel : Nat) → (acc : List Char) → Reader String
  | 0, _ => fail
  | fuel + 1, acc => do
    match ← readClosing quote with
    | some quotes => return String.ofList (acc.reverse ++ quotes)
    | none =>
      if ← acceptNewline then readMultiline quote fuel ('\n' :: acc)
      else
        let c ← next
        if c == '\\' && quote == '"' then
          if (← peek?).any (fun d => isBlank d || d == '\n' || d == '\r') then
            skipContinuation fuel
            readMultiline quote fuel acc
          else
            let escaped ← readEscape
            readMultiline quote fuel (escaped :: acc)
        else if isPlain c then readMultiline quote fuel (c :: acc)
        else fail

def readString (fuel : Nat) (multiline : Bool) (quote : Char) : Reader String := do
  if multiline && (← accept [quote, quote, quote]) then
    let _ ← acceptNewline
    readMultiline quote fuel []
  else
    expect [quote]
    if quote == '"' then readBasic fuel [] else readLiteral

def plainDigits? (isDigit : Char → Bool) (cs : List Char) : Option (List Char) :=
  let groups := Text.splitAll (· == '_') cs
  if groups.all (fun group => !group.isEmpty && group.all isDigit) then some groups.flatten
  else none

def digitsValue (base : Nat) (digits : List Char) : Nat :=
  digits.foldl (fun n c => base * n + (hexValue? c).getD 0) 0

def isDigitIn (base : Nat) (c : Char) : Bool :=
  (hexValue? c).any (· < base)

/-- Value of digits in a base. More than 64 digits behind leading zeros are refused: in any base their
value takes more than 64 bits. -/
def wordValue? (base : Nat) (digits : List Char) : Option Int :=
  let significant := digits.dropWhile (· == '0')
  if significant.length ≤ 64 then some (Int.ofNat (digitsValue base significant)) else none

def inBase? (base : Nat) (cs : List Char) : Option Int :=
  (plainDigits? (isDigitIn base) cs).bind (wordValue? base)

/-- Splits off a sign; true means negative. -/
def splitSign : List Char → Option Bool × List Char
  | '+' :: rest => (some false, rest)
  | '-' :: rest => (some true, rest)
  | cs => (none, cs)

def wholeDigits? (cs : List Char) : Option (List Char) :=
  (plainDigits? Char.isDigit cs).filter (fun digits =>
    digits.length == 1 || digits.head? != some '0')

def integer? (cs : List Char) : Option Int :=
  let value? :=
    match cs with
    | '0' :: 'x' :: digits => inBase? 16 digits
    | '0' :: 'o' :: digits => inBase? 8 digits
    | '0' :: 'b' :: digits => inBase? 2 digits
    | _ =>
      let (sign?, digits) := splitSign cs
      ((wholeDigits? digits).bind (wordValue? 10)).map (fun n =>
        if sign? == some true then -n else n)
  value?.filter Text.fitsInt64

/-- Value of the digits of an exponent. Once it has reached 2^16, further digits are passed over: such
an exponent is taken to decide the number alone. -/
def exponentValue (digits : List Char) : Nat :=
  digits.foldl (fun n c => if n < 0x10000 then 10 * n + (hexValue? c).getD 0 else n) 0

def exponent? (cs : List Char) : Option Int :=
  match cs with
  | [] => some 0
  | _ :: rest =>
    let (sign?, digits) := splitSign rest
    (plainDigits? Char.isDigit digits).map (fun digits =>
      let n := Int.ofNat (exponentValue digits)
      if sign? == some true then -n else n)

/-- How many digits decide how a number is rounded, if it is also known whether any other than zero
follows: no number halfway between two neighbours has as many. -/
def decidingDigits : Nat :=
  800

def shortened (digits : List Char) : List Char :=
  let dropped := digits.drop decidingDigits
  if dropped.isEmpty then digits
  else digits.take decidingDigits ++ [if dropped.all (· == '0') then '0' else '1']

def floatOf (digits : List Char) (exponent : Int) : Float :=
  let significant := digits.dropWhile (· == '0')
  let kept := shortened significant
  let scale := exponent + significant.length - kept.length
  Float.ofScientific (digitsValue 10 kept) (decide (scale < 0)) scale.natAbs

def unsignedFloat? (cs : List Char) : Option Float := do
  let isMark := fun c => c == 'e' || c == 'E'
  let mantissa := cs.takeWhile (fun c => !isMark c)
  let exponent ← exponent? (cs.dropWhile (fun c => !isMark c))
  let (whole, fraction?) := Text.splitFirst (· == '.') mantissa
  let whole ← wholeDigits? whole
  match fraction? with
  | some fraction =>
    let fraction ← plainDigits? Char.isDigit fraction
    return floatOf (whole ++ fraction) (exponent - fraction.length)
  | none => if mantissa.length == cs.length then none else return floatOf whole exponent

/-- A floating-point number. One that is too large is refused, but below zero it is infinite. -/
def float? (cs : List Char) : Option Float :=
  let (sign?, unsigned) := splitSign cs
  let infinity : Float := 1.0 / 0.0
  let signed := fun (value : Float) => if sign? == some true then -value else value
  if unsigned == "inf".toList then some (signed infinity)
  else if unsigned == "nan".toList then some (signed (0.0 / 0.0))
  else ((unsignedFloat? unsigned).map signed).filter (· != infinity)

def isWordChar (c : Char) : Bool :=
  c.isAlphanum || c == '_' || c == '+' || c == '-' || c == '.' || c == ':'

/-- Takes a word; a date and a time with a space between them are one. -/
def readWord : Reader (List Char) := do
  let word ← takeWhile isWordChar
  match ← rest with
  | ' ' :: c :: _ =>
    if isDate word && c.isDigit then
      let _ ← next
      return word ++ ' ' :: (← takeWhile isWordChar)
    else return word
  | _ => return word

def readPlain : Reader Scalar := do
  let word ← readWord
  if word == "true".toList then return .bool true
  else if word == "false".toList then return .bool false
  else
    match integer? word, float? word with
    | some n, _ => return .int n
    | none, some x => return .float x
    | none, none =>
      if isDateTime word then return .date (String.ofList word) else fail

end Highlighting.Toml
