import Highlighting.Format.Basic

/-!
The plain format: a line for each run, with its kind in front. Line breaks, tabs, backslashes and
whatever is not printable ASCII are escaped, so that a run never breaks its line.
-/

namespace Highlighting.Plain

def hexEscape (b : UInt8) : Bytes :=
  #[0x5C, 0x78, Bytes.code (Text.hexDigit 'A' (b.toNat / 16)),
    Bytes.code (Text.hexDigit 'A' (b.toNat % 16))]

def escape (b : UInt8) : Bytes :=
  if b == 0x0A then #[0x5C, 0x6E]
  else if b == 0x0D then #[0x5C, 0x72]
  else if b == 0x09 then #[0x5C, 0x74]
  else if b == 0x5C then #[0x5C, 0x5C]
  else if 0x20 ≤ b && b ≤ 0x7E then #[b]
  else hexEscape b

def render : Call → Bytes
  | .startToken kind => Bytes.ofText kind.canonicalName ++ #[0x3A, 0x20]
  | .endToken _ => #[0x0A]
  | .write text => text.flatMap escape
  | _ => #[]

def format : Format where
  name := "Plain"
  description := "Format tokens in plain text, one run per line as <token name>: <token value>"
  render _ := render

end Highlighting.Plain
