import Highlighting.Format.Basic

/-!
The HTML format: a `pre` element in which each run of a kind with a class stands in a `span`, and so
does whatever a delegate scanned.
-/

namespace Highlighting.Html

def escape (b : UInt8) : Bytes :=
  if b == 0x26 then Bytes.ofText "&amp;"
  else if b == 0x3C then Bytes.ofText "&lt;"
  else if b == 0x3E then Bytes.ofText "&gt;"
  else if b == 0x22 then Bytes.ofText "&quot;"
  else #[b]

def escapeText (text : Bytes) : Bytes :=
  text.flatMap escape

def openTag (element : String) (cssClass : Bytes) : Bytes :=
  Bytes.ofText "<" ++ Bytes.ofText element ++ Bytes.ofText " class=\"" ++ cssClass
    ++ Bytes.ofText "\">"

def spanClass? (kind : TokenKind) : Option String :=
  if kind.cssClass == "" || kind == .ignorable then none else some kind.cssClass

def openDocument (cssClass? : Option String) : Bytes :=
  match cssClass?.filter (· != "") with
  | some cssClass => openTag "pre" (escapeText (Bytes.ofText cssClass))
  | none => Bytes.ofText "<pre>"

def render (cssClass? : Option String) : Call → Bytes
  | .startDocument => openDocument cssClass?
  | .endDocument => Bytes.ofText "</pre>"
  | .startToken kind =>
    match spanClass? kind with
    | some cssClass => openTag "span" (Bytes.ofText cssClass)
    | none => #[]
  | .endToken kind => if (spanClass? kind).isSome then Bytes.ofText "</span>" else #[]
  | .write text => escapeText text
  | .startLexing lexer => openTag "span" (escapeText (Bytes.ofText lexer))
  | .endLexing _ => Bytes.ofText "</span>"

def format : Format where
  name := "HTML"
  description := "Format tokens as HTML <span> tags within a <pre> tag"
  options :=
    [{ name := "cssclass",
       default := .text "",
       doc := "if set to `foo`, ` class=\"foo\"` is added to the <pre> tag" }]
  render options := render (options.text? "cssclass")

end Highlighting.Html
