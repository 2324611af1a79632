import Highlighting.Text.Ascii

/-!
Token kinds. Every span of a source is classified by a `TokenKind`. The kinds form a shallow
hierarchy, and each has a name, a short class for markup and a description; all of that stands in one
table, `TokenKind.entry`.
-/

namespace Highlighting

inductive TokenKind where
  | eos
  | ignorable
  | text
  | tagPreproc
  | name
  | nameBuiltin
  | nameBuiltinPseudo
  | nameTag
  | nameEntity
  | nameAttribute
  | nameVariable
  | nameVariableClass
  | nameVariableInstance
  | nameVariableGlobal
  | nameFunction
  | nameClass
  | nameNamespace
  | punctuation
  | keyword
  | keywordDefault
  | keywordBuiltin
  | keywordConstant
  | keywordDeclaration
  | keywordNamespace
  | keywordPseudo
  | keywordReserved
  | keywordType
  | operator
  | number
  | numberFloat
  | numberDecimal
  | numberBinary
  | numberOctal
  | numberHexadecimal
  | comment
  | commentSingle
  | commentMultiline
  | commentDocumentation
  | string
  | stringSingle
  | stringDouble
  | stringBacktick
  | stringRegex
  | stringInterned
  | sequence
  | sequenceEscaped
  | sequenceInterpolated
  | literal
  | literalSize
  | literalDuration
  | generic
  | genericStrong
  | genericHeading
  | genericSubheading
  | genericDeleted
  | genericInserted
  deriving DecidableEq, Repr

structure TokenEntry where
  name : String
  cssClass : String
  parent? : Option TokenKind
  description : String

namespace TokenKind

def all : List TokenKind :=
  [.eos, .ignorable, .text, .tagPreproc, .name, .nameBuiltin, .nameBuiltinPseudo, .nameTag,
   .nameEntity, .nameAttribute, .nameVariable, .nameVariableClass, .nameVariableInstance,
   .nameVariableGlobal, .nameFunction, .nameClass, .nameNamespace, .punctuation, .keyword,
   .keywordDefault, .keywordBuiltin, .keywordConstant, .keywordDeclaration, .keywordNamespace,
   .keywordPseudo, .keywordReserved, .keywordType, .operator, .number, .numberFloat,
   .numberDecimal, .numberBinary, .numberOctal, .numberHexadecimal, .comment, .commentSingle,
   .commentMultiline, .commentDocumentation, .string, .stringSingle, .stringDouble,
   .stringBacktick, .stringRegex, .stringInterned, .sequence, .sequenceEscaped,
   .sequenceInterpolated, .literal, .literalSize, .literalDuration, .generic, .genericStrong,
   .genericHeading, .genericSubheading, .genericDeleted, .genericInserted]

def entry : TokenKind → TokenEntry
  | .eos => ⟨"EOS", "", none, "end of stream"⟩
  | .ignorable => ⟨"IGNORABLE", "", none, "ignorable like spaces"⟩
  | .text => ⟨"TEXT", "", none, "regular text"⟩
  | .tagPreproc => ⟨"TAG_PREPROC", "tp", none, "tag PI"⟩
  | .name => ⟨"NAME", "n", none, "any kind of name"⟩
  | .nameBuiltin =>
    ⟨"NAME_BUILTIN", "nb", (some .name),
      "builtin names; names that are available in the global namespace"⟩
  | .nameBuiltinPseudo =>
    ⟨"NAME_BUILTIN_PSEUDO", "bp", (some .name),
      "builtin names that are implicit"⟩
  | .nameTag => ⟨"NAME_TAG", "nt", (some .name), "tag name"⟩
  | .nameEntity => ⟨"NAME_ENTITY", "ne", (some .name), "HTML/XML name entity"⟩
  | .nameAttribute => ⟨"NAME_ATTRIBUTE", "na", (some .name), "tag attribute's name"⟩
  | .nameVariable => ⟨"NAME_VARIABLE", "v", (some .name), "variable name"⟩
  | .nameVariableClass =>
    ⟨"NAME_VARIABLE_CLASS", "vc", (some .nameVariable),
      "name of a class variable"⟩
  | .nameVariableInstance =>
    ⟨"NAME_VARIABLE_INSTANCE", "vi", (some .nameVariable),
      "name of a variable instance"⟩
  | .nameVariableGlobal =>
    ⟨"NAME_VARIABLE_GLOBAL", "vg", (some .nameVariable),
      "name of a global variable"⟩
  | .nameFunction => ⟨"NAME_FUNCTION", "nf", (some .name), "a function name"⟩
  | .nameClass => ⟨"NAME_CLASS", "nc", (some .name), "a class name"⟩
  | .nameNamespace => ⟨"NAME_NAMESPACE", "nn", (some .name), "a namespace name"⟩
  | .punctuation => ⟨"PUNCTUATION", "p", none, "syntax element like ';' in C"⟩
  | .keyword => ⟨"KEYWORD", "k", none, "keyword"⟩
  | .keywordDefault => ⟨"KEYWORD_DEFAULT", "kd", (some .keyword), "default keyword"⟩
  | .keywordBuiltin => ⟨"KEYWORD_BUILTIN", "kb", (some .keyword), "builtin keyword"⟩
  | .keywordConstant => ⟨"KEYWORD_CONSTANT", "kc", (some .keyword), "keyword for constants"⟩
  | .keywordDeclaration => ⟨"KEYWORD_DECLARATION", "kd", (some .keyword), "declaration keyword"⟩
  | .keywordNamespace => ⟨"KEYWORD_NAMESPACE", "kn", (some .keyword), "namespace keyword"⟩
  | .keywordPseudo => ⟨"KEYWORD_PSEUDO", "kp", (some .keyword), "pseudo keyword"⟩
  | .keywordReserved => ⟨"KEYWORD_RESERVED", "kr", (some .keyword), "reserved keyword"⟩
  | .keywordType => ⟨"KEYWORD_TYPE", "kt", (some .keyword), "builtin type"⟩
  | .operator => ⟨"OPERATOR", "o", none, "operator"⟩
  | .number => ⟨"NUMBER", "m", none, "any kind of number"⟩
  | .numberFloat => ⟨"NUMBER_FLOAT", "mf", (some .number), "float number"⟩
  | .numberDecimal => ⟨"NUMBER_DECIMAL", "md", (some .number), "decimal number"⟩
  | .numberBinary => ⟨"NUMBER_BINARY", "mb", (some .number), "binary number"⟩
  | .numberOctal => ⟨"NUMBER_OCTAL", "mo", (some .number), "octal number"⟩
  | .numberHexadecimal => ⟨"NUMBER_HEXADECIMAL", "mh", (some .number), "hexadecimal number"⟩
  | .comment => ⟨"COMMENT", "c", none, "any kind of comment"⟩
  | .commentSingle =>
    ⟨"COMMENT_SINGLE", "cs", (some .comment),
      "comment which ends at the end of the line"⟩
  | .commentMultiline => ⟨"COMMENT_MULTILINE", "cm", (some .comment), "multiline comment"⟩
  | .commentDocumentation =>
    ⟨"COMMENT_DOCUMENTATION", "cd", (some .comment),
      "comment with documentation value"⟩
  | .string => ⟨"STRING", "s", none, "any kind of string"⟩
  | .stringSingle => ⟨"STRING_SINGLE", "ss", (some .string), "single quoted string"⟩
  | .stringDouble => ⟨"STRING_DOUBLE", "sd", (some .string), "double quoted string"⟩
  | .stringBacktick => ⟨"STRING_BACKTICK", "sb", (some .string), "string enclosed in backticks"⟩
  | .stringRegex => ⟨"STRING_REGEX", "sr", (some .string), "regular expression"⟩
  | .stringInterned => ⟨"STRING_INTERNED", "si", (some .string), "interned string"⟩
  | .sequence => ⟨"SEQUENCE", "sq", none, "special sequence inside a string"⟩
  | .sequenceEscaped =>
    ⟨"SEQUENCE_ESCAPED", "es", (some .sequence),
      "escaped sequence in string like \\n, \\x32, \\u1234, etc"⟩
  | .sequenceInterpolated =>
    ⟨"SEQUENCE_INTERPOLATED", "is", (some .sequence),
      "sequence in string for interpolated variables"⟩
  | .literal => ⟨"LITERAL", "l", none, "any other literal"⟩
  | .literalSize => ⟨"LITERAL_SIZE", "ls", (some .literal), "size literals (eg: 3ko)"⟩
  | .literalDuration => ⟨"LITERAL_DURATION", "ld", (some .literal), "duration literals (eg: 23s)"⟩
  | .generic => ⟨"GENERIC", "g", none, "generic markup"⟩
  | .genericStrong => ⟨"GENERIC_STRONG", "gb", (some .generic), "the token value as bold"⟩
  | .genericHeading => ⟨"GENERIC_HEADING", "gh", (some .generic), "the token value is a headline"⟩
  | .genericSubheading =>
    ⟨"GENERIC_SUBHEADING", "gs", (some .generic),
      "the token value is a subheadline"⟩
  | .genericDeleted =>
    ⟨"GENERIC_DELETED", "gd", (some .generic),
      "marks the token value as deleted"⟩
  | .genericInserted =>
    ⟨"GENERIC_INSERTED", "gi", (some .generic),
      "marks the token value as inserted"⟩

def canonicalName (kind : TokenKind) : String :=
  kind.entry.name

def cssClass (kind : TokenKind) : String :=
  kind.entry.cssClass

def description (kind : TokenKind) : String :=
  kind.entry.description

def parent? (kind : TokenKind) : Option TokenKind :=
  kind.entry.parent?

def value (kind : TokenKind) : Nat :=
  kind.ctorIdx

def ofValue? (n : Nat) : Option TokenKind :=
  all[n]?

def ofName? (name : String) : Option TokenKind :=
  all.find? (fun kind => Text.sameIgnoringCase kind.canonicalName name)

def lineageWithin (depth : Nat) (kind : TokenKind) : List TokenKind :=
  match depth with
  | 0 => [kind]
  | depth + 1 =>
    match kind.parent? with
    | none => [kind]
    | some parent => kind :: lineageWithin depth parent

/-- The kind and its ancestors, nearest first. A parent has a smaller value than its child, so the
value bounds the number of ancestors. -/
def lineage (kind : TokenKind) : List TokenKind :=
  lineageWithin kind.value kind

def isA (kind ancestor : TokenKind) : Bool :=
  kind.lineage.contains ancestor

theorem mem_all (kind : TokenKind) : kind ∈ all := by
  cases kind <;> decide

section Lineage

variable {kind parent : TokenKind} {depth : Nat}

theorem value_parent_lt (h : kind.parent? = some parent) : parent.value < kind.value := by
  cases kind <;> cases h <;> decide

theorem lineageWithin_succ (hdepth : kind.value ≤ depth) :
    lineageWithin (depth + 1) kind = lineageWithin depth kind := by
  induction depth generalizing kind with
  | zero =>
    cases hparent : kind.parent? with
    | none => simp only [lineageWithin, hparent]
    | some parent => exact absurd (Nat.lt_of_lt_of_le (value_parent_lt hparent) hdepth) (Nat.not_lt_zero _)
  | succ depth ih =>
    cases hparent : kind.parent? with
    | none => simp only [lineageWithin, hparent]
    | some parent =>
      have hless := Nat.le_of_lt_succ (Nat.lt_of_lt_of_le (value_parent_lt hparent) hdepth)
      rw [lineageWithin, lineageWithin, hparent]
      exact congrArg (kind :: ·) (ih hless)

theorem lineageWithin_of_le (hdepth : kind.value ≤ depth) : lineageWithin depth kind = kind.lineage := by
  obtain ⟨more, rfl⟩ := Nat.exists_eq_add_of_le hdepth
  induction more with
  | zero => rfl
  | succ more ih =>
    have hless := Nat.le_add_right kind.value more
    rw [← ih hless]
    exact lineageWithin_succ hless

/-- The bound on the number of ancestors is never what ends a lineage. -/
theorem lineage_eq (kind : TokenKind) :
    kind.lineage = kind :: (kind.parent?.map lineage).getD [] := by
  rw [← lineageWithin_of_le (Nat.le_succ kind.value), lineageWithin]
  cases hparent : kind.parent? with
  | none => rfl
  | some parent =>
    have hless := Nat.le_of_lt (value_parent_lt hparent)
    simp only [lineageWithin_of_le hless, Option.map_some, Option.getD_some]

theorem lineage_reaches_root (kind : TokenKind) :
    ∃ root, kind.lineage.getLast? = some root ∧ root.parent? = none := by
  rw [lineage_eq]
  cases hparent : kind.parent? with
  | none => exact ⟨kind, rfl, hparent⟩
  | some parent =>
    have hless := value_parent_lt hparent
    obtain ⟨root, hlast, hroot⟩ := lineage_reaches_root parent
    refine ⟨root, ?_, hroot⟩
    rw [Option.map_some, Option.getD_some, List.getLast?_cons, hlast]
    rfl
termination_by kind.value

end Lineage

end TokenKind

end Highlighting
