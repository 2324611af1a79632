import Highlighting.Text.Integer
import Highlighting.Token

/-!
Themes. A theme gives styles to token kinds; a kind without a style of its own takes that of its
nearest ancestor that has one. Themes are looked up by name, up to ASCII case.
-/

namespace Highlighting

structure Color where
  red : UInt8
  green : UInt8
  blue : UInt8
  deriving DecidableEq, Repr

def Color.hex (color : Color) : String :=
  "#" ++ Text.hexByte color.red ++ Text.hexByte color.green ++ Text.hexByte color.blue

structure Style where
  foreground : Option Color := none
  background : Option Color := none
  bold : Bool := false
  italic : Bool := false
  underline : Bool := false
  deriving DecidableEq, Repr

def Style.isPlain (style : Style) : Bool :=
  style == {}

structure Theme where
  name : String
  styles : List (TokenKind × Style)
  deriving DecidableEq, Repr

namespace Theme

def ownStyle? (theme : Theme) (kind : TokenKind) : Option Style :=
  theme.styles.lookup kind

def style? (theme : Theme) (kind : TokenKind) : Option Style :=
  kind.lineage.findSome? theme.ownStyle?

def find? (themes : List Theme) (name : String) : Option Theme :=
  themes.find? (fun theme => Text.sameIgnoringCase theme.name name)

end Theme

end Highlighting
