import Highlighting.Theme

/-!
The themes that come with the library.
-/

namespace Highlighting

namespace Palette

def grey : Color := ⟨0x99, 0x99, 0x99⟩
def white : Color := ⟨0xFF, 0xFF, 0xFF⟩
def dimRed : Color := ⟨0x49, 0x31, 0x31⟩
def whitish : Color := ⟨0xF8, 0xF8, 0xF2⟩
def dimGrey : Color := ⟨0x75, 0x71, 0x5E⟩
def dimGreen : Color := ⟨0x32, 0x49, 0x32⟩
def softCyan : Color := ⟨0x66, 0xD9, 0xEF⟩
def lightGrey : Color := ⟨0xAA, 0xAA, 0xAA⟩
def softYellow : Color := ⟨0xE6, 0xDB, 0x74⟩
def brightPink : Color := ⟨0xF9, 0x26, 0x72⟩
def brightGreen : Color := ⟨0xA6, 0xE2, 0x2E⟩
def lightViolet : Color := ⟨0xAE, 0x81, 0xFF⟩
def slate : Color := ⟨0x40, 0x3D, 0x3D⟩
def violet : Color := ⟨0xAF, 0x87, 0xFF⟩
def straw : Color := ⟨0xD7, 0xD7, 0x87⟩
def duskBlue : Color := ⟨0x5E, 0x5D, 0x83⟩
def steel : Color := ⟨0x46, 0x54, 0x57⟩

end Palette

namespace Theme

def monokai : Theme where
  name := "monokai"
  styles :=
    [(.comment, { foreground := some Palette.dimGrey, italic := true }),
      (.commentDocumentation, { foreground := some Palette.dimGrey, italic := true, bold := true }),
      (.genericInserted, { foreground := some Palette.white, background := some Palette.dimGreen }),
      (.genericDeleted, { foreground := some Palette.white, background := some Palette.dimRed }),
      (.genericHeading, { foreground := some Palette.grey }),
      (.genericStrong, { bold := true }),
      (.genericSubheading, { foreground := some Palette.lightGrey }),
      (.keyword, { foreground := some Palette.softCyan, bold := true }),
      (.keywordNamespace, { foreground := some Palette.brightPink, bold := true }),
      (.operator, { foreground := some Palette.brightPink, bold := true }),
      (.number, { foreground := some Palette.lightViolet }),
      (.stringSingle, { foreground := some Palette.lightViolet }),
      (.string, { foreground := some Palette.softYellow }),
      (.nameClass, { foreground := some Palette.brightGreen, bold := true }),
      (.nameFunction, { foreground := some Palette.brightGreen, bold := true }),
      (.name, { foreground := some Palette.whitish }),
      (.nameTag, { foreground := some Palette.brightPink })]

def molokai : Theme where
  name := "molokai"
  styles :=
    [(.comment, { foreground := some Palette.duskBlue, italic := true }),
      (.commentDocumentation, { foreground := some Palette.steel, italic := true }),
      (.genericInserted, { foreground := some Palette.brightGreen }),
      (.genericDeleted, { foreground := some Palette.brightPink }),
      (.genericHeading, { foreground := some Palette.slate }),
      (.genericStrong, { bold := true }),
      (.genericSubheading, { foreground := some Palette.steel }),
      (.keyword, { foreground := some Palette.softCyan, bold := true }),
      (.keywordNamespace, { foreground := some Palette.brightPink, bold := true }),
      (.operator, { foreground := some Palette.brightPink, bold := true }),
      (.number, { foreground := some Palette.violet }),
      (.sequenceEscaped, { foreground := some Palette.violet }),
      (.string, { foreground := some Palette.straw }),
      (.nameClass, { foreground := some Palette.brightGreen, bold := true }),
      (.nameFunction, { foreground := some Palette.brightGreen, bold := true }),
      (.name, { foreground := some Palette.whitish }),
      (.nameTag, { foreground := some Palette.brightPink })]

def builtin : List Theme :=
  [monokai, molokai]

def builtin? (name : String) : Option Theme :=
  find? builtin name

end Theme

end Highlighting
