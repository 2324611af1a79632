import Highlighting.Config.Loader
import Highlighting.Grammar.RuleTable
import Highlighting.Language.Feeding
import Highlighting.Lexer.Scanning
import Highlighting.Session
import Highlighting.Proofs.Engine.Place
import Highlighting.Proofs.Engine.Transition
import Highlighting.Proofs.Engine.Invariant
import Highlighting.Proofs.Engine.Coverage
import Highlighting.Proofs.Engine.Protocol
import Highlighting.Proofs.Engine.Delegates
import Highlighting.Proofs.Engine.Elements
import Highlighting.Proofs.Grammar.Consumption
import Highlighting.Proofs.Engine.Totality
import Highlighting.Proofs.Engine.Scanning
import Highlighting.Proofs.Engine.Resumption
import Highlighting.Proofs.Engine.Termination
import Highlighting.Proofs.Engine.Stalls
import Highlighting.Proofs.Engine.Independence
import Highlighting.Proofs.Engine.Lifetimes
import Highlighting.Proofs.Engine.Ownership
import Highlighting.Proofs.Engine.ContentLexer
import Highlighting.Proofs.Options.Slots
import Highlighting.Proofs.Session.OptionCalls
import Highlighting.Proofs.Session.Changes
import Highlighting.Proofs.Session.CellMoves
import Highlighting.Proofs.Session.Destruction
import Highlighting.Proofs.Format.Document
import Highlighting.Proofs.Format.Markup
import Highlighting.Proofs.Format.PlainLines
import Highlighting.Proofs.Grammar.JsonPatterns
import Highlighting.Proofs.Grammar.JsonScanner
import Highlighting.Proofs.Grammar.JsonText
import Highlighting.Grammar.Json.Declarations
import Highlighting.Proofs.Grammar.Expressions
import Highlighting.Proofs.Grammar.JsonMaximal
import Highlighting.Proofs.Grammar.JsonPrefixes
import Highlighting.Proofs.Engine.JsonKeys
import Highlighting.Proofs.Engine.Consultation
import Highlighting.Proofs.Engine.Transcript
import Highlighting.Proofs.Engine.Buffering
import Highlighting.Proofs.Engine.ParserFailure
import Highlighting.Proofs.Grammar.DiffLines
import Highlighting.Proofs.Engine.DiffReuse
import Highlighting.Proofs.Engine.Marks
import Highlighting.Proofs.Engine.DiffMarkers
import Highlighting.Proofs.Engine.LineClassifier
import Highlighting.Proofs.Options.Numerals
import Highlighting.Proofs.Registry.Guessing
import Highlighting.Proofs.Registry.GlobMatching
import Highlighting.Proofs.Registry.GlobPatterns
import Highlighting.Proofs.Registry.RegexReading
import Highlighting.Proofs.Options.Queries
import Highlighting.Proofs.Registry.FailedQueries
import Highlighting.Proofs.Engine.QueueBound
import Highlighting.Proofs.Engine.RedundantEntries
import Highlighting.Proofs.Scan.WordOffsets
import Highlighting.Proofs.Scan.LineStarts
import Highlighting.Proofs.Engine.ShebangStart
