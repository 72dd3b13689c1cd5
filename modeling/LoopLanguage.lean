import LoopLanguage.Action
import LoopLanguage.Atom
import LoopLanguage.Command.Options
import LoopLanguage.Command.Path
import LoopLanguage.Command.Run
import LoopLanguage.Error
import LoopLanguage.Execution.Machine
import LoopLanguage.Execution.Run
import LoopLanguage.Execution.Store
import LoopLanguage.Grammar.Meaning
import LoopLanguage.Grammar.Phrase
import LoopLanguage.Grammar.Terminal
import LoopLanguage.Json.Basic
import LoopLanguage.Json.Canonical
import LoopLanguage.Json.Reader
import LoopLanguage.Json.Writer
import LoopLanguage.Main
import LoopLanguage.Number.Binary64
import LoopLanguage.Number.Numeral
import LoopLanguage.Registry
import LoopLanguage.Session.Basic
import LoopLanguage.Session.Files
import LoopLanguage.Session.Interpreter
import LoopLanguage.Source.Lexeme
import LoopLanguage.Source.Lexer
import LoopLanguage.Source.Parser
import LoopLanguage.Statement.Basic
import LoopLanguage.Statement.Document
import LoopLanguage.Statement.Draft
import LoopLanguage.Statement.Source
import LoopLanguage.Text.Blank
import LoopLanguage.Text.CodePoint
import LoopLanguage.Text.Digit
import LoopLanguage.Text.Encoding
import LoopLanguage.Text.Letter
import LoopLanguage.Text.Line
import LoopLanguage.Text.Printable
import LoopLanguage.Text.Quoted
import LoopLanguage.Token.Basic
import LoopLanguage.Token.Display
import LoopLanguage.Token.Literal
import LoopLanguage.Token.Number
import LoopLanguage.Proofs.Enrollment
import LoopLanguage.Proofs.Scanning
import LoopLanguage.Proofs.Descent
import LoopLanguage.Proofs.DescentComplete
import LoopLanguage.Proofs.Phrases
import LoopLanguage.Proofs.PhrasesComplete
import LoopLanguage.Proofs.Layout
import LoopLanguage.Proofs.Unambiguous
import LoopLanguage.Proofs.Termination
import LoopLanguage.Proofs.Faults
import LoopLanguage.Proofs.Canonical
import LoopLanguage.Proofs.Spelling
import LoopLanguage.Proofs.Writing
import LoopLanguage.Proofs.Printing
import LoopLanguage.Proofs.Relocation
import LoopLanguage.Proofs.RoundTrip
import LoopLanguage.Proofs.Growth
import LoopLanguage.Proofs.Derivation
import LoopLanguage.Proofs.Placeless
import LoopLanguage.Proofs.Documents
import LoopLanguage.Proofs.DescentErrors
import LoopLanguage.Proofs.PhraseErrors
import LoopLanguage.Proofs.Agreement
import LoopLanguage.Proofs.Isolation
import LoopLanguage.Proofs.Tracing
import LoopLanguage.Proofs.Stepping
import LoopLanguage.Proofs.ValueRange
import LoopLanguage.Proofs.Renaming
import LoopLanguage.Proofs.Formatting
import LoopLanguage.Proofs.Verbosity
import LoopLanguage.Proofs.Lexemes
import LoopLanguage.Proofs.Literals
import LoopLanguage.Proofs.Concatenation
import LoopLanguage.Proofs.Outcomes
import LoopLanguage.Proofs.WellFormed
import LoopLanguage.Proofs.Reloading
import LoopLanguage.Proofs.Positions
import LoopLanguage.Proofs.Trivia
import LoopLanguage.Proofs.Flaws
import LoopLanguage.Proofs.LoadedValues
import LoopLanguage.Proofs.Equivariance
import LoopLanguage.Proofs.Causality
import LoopLanguage.Proofs.Lookahead
import LoopLanguage.Proofs.Buffering
import LoopLanguage.Proofs.Rendering
