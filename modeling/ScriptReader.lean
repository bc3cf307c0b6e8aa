import ScriptReader.Source.LineMap
import ScriptReader.Parse.Tree
import ScriptReader.Parse.Trace
import ScriptReader.Grammar.ParseTable
import ScriptReader.Diagnostic
import ScriptReader.Text.Numeral
import ScriptReader.Text.Alternatives
import ScriptReader.Reading
import ScriptReader.Stage.Basic
import ScriptReader.Lexeme
import ScriptReader.Rich.Segments
import ScriptReader.Proofs.Parse.Soundness
import ScriptReader.Proofs.Parse.Forest
import ScriptReader.Proofs.Reading.Coverage
import ScriptReader.Proofs.Reading.Blocks
import ScriptReader.Proofs.Reading.NormalForm
import ScriptReader.Proofs.Reading.Locations
import ScriptReader.Proofs.Stream.Causality
import ScriptReader.Proofs.Lexeme.Scan
import ScriptReader.Proofs.Rich.Agreement
import ScriptReader.Proofs.Rich.Nesting
import ScriptReader.Proofs.Grammar.Encoding
import ScriptReader.Proofs.Parse.Indifference
import ScriptReader.Proofs.Stage.Groups
import ScriptReader.Proofs.Stage.Blocks
import ScriptReader.Proofs.Reading.Patterns
import ScriptReader.Proofs.Lexeme.Alone
import ScriptReader.Proofs.Rich.Balance
import ScriptReader.Proofs.Parse.Patience
import ScriptReader.Proofs.Parse.Failures
import ScriptReader.Proofs.Grammar.Numbering
import ScriptReader.Proofs.Source.LineMap
import ScriptReader.Proofs.Parse.Expectations
import ScriptReader.Proofs.Grammar.Spelling
import ScriptReader.Proofs.Stream.Indexing
import ScriptReader.Proofs.Token.Chunks
import ScriptReader.Proofs.Stage.Moved
import ScriptReader.Proofs.Reading.Descent
