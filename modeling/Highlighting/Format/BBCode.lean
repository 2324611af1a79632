import Highlighting.Format.Basic

/-!
The format of forum posts: runs are marked bold, italic and with a colour as the theme says.
Backgrounds and underlines have no mark.
-/

namespace Highlighting.BBCode

def themeOf (options : OptionSet Lexer) : Theme :=
  (options.theme? "theme").getD Theme.monokai

def openMarks (style : Style) : String :=
  (if style.bold then "[b]" else "") ++ (if style.italic then "[i]" else "")
    ++ (match style.foreground with
        | some color => "[color=" ++ color.hex ++ "]"
        | none => "")

def closeMarks (style : Style) : String :=
  (if style.foreground.isSome then "[/color]" else "") ++ (if style.italic then "[/i]" else "")
    ++ (if style.bold then "[/b]" else "")

def render (theme : Theme) : Call → Bytes
  | .startToken kind => Bytes.ofText (((theme.style? kind).map openMarks).getD "")
  | .endToken kind => Bytes.ofText (((theme.style? kind).map closeMarks).getD "")
  | .write text => text
  | _ => #[]

def format : Format where
  name := "BBCode"
  description := "Format tokens for forums using BBCode markup"
  options := [{ name := "theme", default := .theme (some "monokai"), doc := "the theme to use" }]
  render options := render (themeOf options)

end Highlighting.BBCode
