/-!
Reading a text from front to back. A reader takes characters from the rest of a text, or fails.
-/

namespace Highlighting.Toml

abbrev Reader : Type → Type :=
  StateT (List Char) Option

namespace Reader

def fail {α : Type} : Reader α :=
  fun _ => none

def rest : Reader (List Char) :=
  get

def peek? : Reader (Option Char) :=
  return (← rest).head?

def next : Reader Char := do
  match ← rest with
  | [] => fail
  | c :: cs => set cs; return c

def takeWhile (p : Char → Bool) : Reader (List Char) := do
  let cs ← rest
  set (cs.dropWhile p)
  return cs.takeWhile p

def accept (word : List Char) : Reader Bool := do
  let cs ← rest
  if word.isPrefixOf cs then
    set (cs.drop word.length)
    return true
  else return false

def expect (word : List Char) : Reader Unit := do
  unless ← accept word do fail

def atEnd : Reader Bool :=
  return (← rest).isEmpty

end Reader

def isBlank (c : Char) : Bool :=
  c == ' ' || c == '\t'

/-- Whether a character may stand in comments and strings: no control character but the tab. -/
def isPlain (c : Char) : Bool :=
  c == '\t' || (0x20 ≤ c.toNat && c.toNat != 0x7F)

def skipBlanks : Reader Unit := do
  let _ ← Reader.takeWhile isBlank

def skipComment : Reader Unit := do
  if (← Reader.peek?) = some '#' then
    let _ ← Reader.takeWhile isPlain

def acceptNewline : Reader Bool := do
  if ← Reader.accept ['\n'] then return true
  else Reader.accept ['\r', '\n']

def endLine : Reader Unit := do
  skipBlanks
  skipComment
  unless (← acceptNewline) || (← Reader.atEnd) do Reader.fail

def skipLines : (fuel : Nat) → Reader Unit
  | 0 => return ()
  | fuel + 1 => do
    skipBlanks
    skipComment
    if ← acceptNewline then skipLines fuel

end Highlighting.Toml
