import Highlighting.Language.PushParser

/-!
Finding the member names of JSON objects. The scanner cannot tell a member name from a string value;
a push parser that follows the structure of the document can, and gives member names the kind of tag
names.
-/

namespace Highlighting.Json

inductive Container where
  | object
  | array
  deriving DecidableEq, Repr

inductive Expectation where
  | value
  | valueOrClose
  | keyOrClose
  | key
  | colon
  | commaOrClose
  | nothing
  deriving DecidableEq, Repr

/-- Where the parser stands: the open containers, innermost first, and what may come next. -/
structure KeyState where
  containers : List Container := []
  expect : Expectation := .value
  deriving DecidableEq, Repr

namespace KeyState

def takesValue (state : KeyState) : Bool :=
  state.expect == .value || state.expect == .valueOrClose

def takesKey (state : KeyState) : Bool :=
  state.expect == .key || state.expect == .keyOrClose

def takesClose (state : KeyState) : Container → Bool
  | .object => state.expect == .keyOrClose || state.expect == .commaOrClose
  | .array => state.expect == .valueOrClose || state.expect == .commaOrClose

def afterValue (state : KeyState) : KeyState :=
  { state with expect := if state.containers.isEmpty then .nothing else .commaOrClose }

def enter (state : KeyState) (container : Container) : KeyState × Verdict :=
  if state.takesValue then
    let expect :=
      match container with
      | .object => Expectation.keyOrClose
      | .array => Expectation.valueOrClose
    (⟨container :: state.containers, expect⟩, .proceed)
  else (state, .syntaxError)

/-- Closes a container. Where a closing bracket may come at all, one that does not fit still takes
the innermost container away. -/
def leave (state : KeyState) (container : Container) : KeyState × Verdict :=
  if state.takesClose container then
    let outer : KeyState := { state with containers := state.containers.tail }
    if state.containers.head? = some container then (outer.afterValue, .proceed)
    else (outer, .syntaxError)
  else (state, .syntaxError)

def colon (state : KeyState) : KeyState × Verdict :=
  if state.expect = .colon then ({ state with expect := .value }, .proceed)
  else (state, .syntaxError)

def comma (state : KeyState) : KeyState × Verdict :=
  if state.expect = .commaOrClose then
    let expect :=
      if state.containers.head? = some .object then Expectation.key else Expectation.value
    ({ state with expect := expect }, .proceed)
  else (state, .syntaxError)

def punctuation (state : KeyState) (text : List UInt8) : KeyState × Verdict :=
  match text with
  | [0x7B] => state.enter .object
  | [0x5B] => state.enter .array
  | [0x7D] => state.leave .object
  | [0x5D] => state.leave .array
  | [0x3A] => state.colon
  | [0x2C] => state.comma
  | _ => (state, .syntaxError)

def scalar (state : KeyState) : KeyState × Verdict :=
  if state.takesValue then (state.afterValue, .proceed) else (state, .syntaxError)

def next (state : KeyState) (kind : TokenKind) (text : List UInt8) : KeyState × Verdict :=
  match kind with
  | .ignorable => (state, .proceed)
  | .punctuation => state.punctuation text
  | .stringDouble =>
    if state.takesKey then ({ state with expect := .colon }, .proceed) else state.scalar
  | .numberDecimal => state.scalar
  | .numberFloat => state.scalar
  | .keywordConstant => state.scalar
  | _ => (state, .syntaxError)

def isKey (state : KeyState) (kind : TokenKind) : Bool :=
  kind == .stringDouble && state.takesKey

end KeyState

/-- The parser that finds member names: the span of the token just fed is the last one queued. -/
def keyParser : PushParser where
  State := KeyState
  initial := {}
  feed state kind text pending :=
    let (after, verdict) := state.next kind text.toList
    let relabellings :=
      if state.isKey kind && !pending.isEmpty then [⟨pending.size - 1, .nameTag⟩] else []
    ⟨after, relabellings, verdict⟩

end Highlighting.Json
