import Highlighting.Language.Grammar

/-!
Unified and context diffs. A line is classified by the bytes it begins with. When the option
`content` holds a lexer, added, removed and context lines are taken apart: the marker in front keeps
its classification, and the body behind it is handed to the language of that lexer.
-/

namespace Highlighting.Diff

variable {w : Window}

/-- What kind of line a body belongs to; the condition of a lexer between a marker and its body. -/
inductive Body where
  | inserted
  | deleted
  | context
  deriving DecidableEq, Repr

namespace Body

/-- The condition in which the body is scanned. At the start of a line the condition is zero. -/
def condition : Body → Int
  | .inserted => 1
  | .deleted => 2
  | .context => 3

def markerKind : Body → TokenKind
  | .inserted => .genericInserted
  | .deleted => .genericDeleted
  | .context => .ignorable

def ofMarker? (marker : UInt8) : Option Body :=
  if marker == Bytes.code '+' then some .inserted
  else if marker == Bytes.code '-' then some .deleted
  else if marker == Bytes.code ' ' then some .context
  else none

end Body

def bodyKind (condition : Int) : TokenKind :=
  if condition = Body.inserted.condition then .genericInserted
  else if condition = Body.deleted.condition then .genericDeleted
  else .ignorable

def insertedHeader : List UInt8 :=
  [0x2B, 0x2B, 0x2B]

def deletedHeader : List UInt8 :=
  [0x2D, 0x2D, 0x2D]

def lineKind (cx : ScanContext w) : TokenKind :=
  if cx.startsWith [0x2B] then .genericInserted
  else if cx.startsWith [0x2D] then .genericDeleted
  else if cx.startsWith [0x21] then .genericStrong
  else if cx.startsWith [0x40] then .genericSubheading
  else if cx.startsWith [0x3D] then .genericHeading
  else if cx.startsWith (Bytes.ofText "index").toList then .genericHeading
  else if cx.startsWith (Bytes.ofText "Index").toList then .genericHeading
  else if cx.startsWith (Bytes.ofText "diff").toList then .genericHeading
  else .ignorable

def announced? (cx : ScanContext w) : Option Body :=
  if cx.startsWith insertedHeader || cx.startsWith deletedHeader then none
  else cx.peek.bind Body.ofMarker?

/-- One whole line. A line that nothing terminates is not classified. -/
def scanLine (cx : ScanContext w) : ScanEvent × ScanContext w :=
  let (terminated, after) := cx.advanceLine
  (.token (if terminated then lineKind cx else .ignorable), after)

def scanBody (content? : Option LanguageId) (cx : ScanContext w) : ScanEvent × ScanContext w :=
  let kind := bodyKind cx.state.condition
  let after := cx.advanceLine.2
  let event :=
    match content? with
    | some target => .delegate { mode := .within, target := target, fallback := kind }
    | none => .token kind
  (event, after.setState (after.state.start 0))

def scan (content? : Option LanguageId) (cx : ScanContext w) : ScanEvent × ScanContext w :=
  if cx.atEnd then (.done, cx)
  else if cx.state.condition ≠ 0 then scanBody content? cx
  else
    match content?.bind (fun _ => announced? cx) with
    | some body =>
      let after := cx.advance 1
      (.token body.markerKind, after.setState (after.state.start body.condition))
    | none => scanLine cx

/-- Diffs are recognised by the header that tools write. -/
def analyse (input : Bytes) : Int :=
  if input.startsWith (Bytes.ofText "Index: ").toList
      || input.startsWith (Bytes.ofText "diff ").toList then 999
  else if input.startsWith (Bytes.ofText "--- ").toList then 600
  else 0

def language : Language where
  name := "Diff"
  description := "Lexer for unified or context-style diffs or patches"
  aliases := ["udiff"]
  patterns := ["*.diff", "*.patch"]
  mimetypes := ["text/x-diff", "text/x-patch"]
  options :=
    [{ name := "content",
       default := .lexer,
       doc := "lexer used to highlight the content of added, removed and context lines" }]
  grammar :=
    { scan := fun settings _ cx => scan (settings.language? "content") cx
      analyse := analyse }

end Highlighting.Diff
