import Fluent.Conversion
import Fluent.Diagnostic
import Fluent.Host.Object
import Fluent.Source.Decoder
import Fluent.Strategy
import Fluent.Proofs.Conversion.Escapes
import Fluent.Proofs.Conversion.Float
import Fluent.Proofs.Conversion.Integer
import Fluent.Proofs.Conversion.Text
import Fluent.Proofs.Host.Marshalling
import Fluent.Proofs.Json.Grammar
import Fluent.Proofs.Json.Keys
import Fluent.Proofs.Json.Quoting
import Fluent.Proofs.Json.Reading
import Fluent.Proofs.Json.Surrogates
import Fluent.Proofs.Json.Symbols
import Fluent.Proofs.Lexer.Balance
import Fluent.Proofs.Lexer.Blob
import Fluent.Proofs.Lexer.Boundary
import Fluent.Proofs.Lexer.Literals
import Fluent.Proofs.Lexer.Lookahead
import Fluent.Proofs.Lexer.Munch
import Fluent.Proofs.Lexer.Names
import Fluent.Proofs.Lexer.Numerals
import Fluent.Proofs.Lexer.Quoted
import Fluent.Proofs.Lexer.Spacing
import Fluent.Proofs.Lexer.Truncation
import Fluent.Proofs.Parser.Arguments
import Fluent.Proofs.Parser.Closings
import Fluent.Proofs.Parser.Concatenation
import Fluent.Proofs.Parser.Derivation
import Fluent.Proofs.Parser.Interruption
import Fluent.Proofs.Parser.Positions
import Fluent.Proofs.Parser.Recovery
import Fluent.Proofs.Parser.Spacing
import Fluent.Proofs.Parser.Targets
import Fluent.Proofs.Parser.Truncation
import Fluent.Proofs.Parser.ViablePrefix
import Fluent.Proofs.Parser.Walk
import Fluent.Proofs.Program.Members
import Fluent.Proofs.Program.RoundTrip
import Fluent.Proofs.Scanner.Failure
import Fluent.Proofs.Scanner.Respelling
import Fluent.Proofs.Scanner.Safety
import Fluent.Proofs.Scanner.Tiling
import Fluent.Proofs.Sink.Script
import Fluent.Proofs.Source.ByteView
import Fluent.Proofs.Source.Bytes
import Fluent.Proofs.Source.Decoding
import Fluent.Proofs.Source.Extension
import Fluent.Proofs.Source.Guard
import Fluent.Proofs.Source.Interleaving
import Fluent.Proofs.Source.Lockstep
import Fluent.Proofs.Source.Order
import Fluent.Proofs.Source.Places
import Fluent.Proofs.Source.Shift
import Fluent.Proofs.Source.TextView
import Fluent.Proofs.Source.Transcript
import Fluent.Proofs.Source.Truncation
import Fluent.Proofs.Source.View
import Fluent.Proofs.Strategy.Agreement
import Fluent.Proofs.Strategy.Atomicity
import Fluent.Proofs.Strategy.Backends
import Fluent.Proofs.Strategy.Calls
import Fluent.Proofs.Strategy.Chronicle
import Fluent.Proofs.Strategy.Concatenation
import Fluent.Proofs.Strategy.Course
import Fluent.Proofs.Strategy.Evaluated
import Fluent.Proofs.Strategy.Frame
import Fluent.Proofs.Strategy.Interruption
import Fluent.Proofs.Strategy.Isolation
import Fluent.Proofs.Strategy.Overflow
import Fluent.Proofs.Strategy.Performance
import Fluent.Proofs.Strategy.Shape
import Fluent.Proofs.Strategy.Streaming
import Fluent.Proofs.Strategy.Trace
import Fluent.Proofs.Strategy.Truncation
import Fluent.Proofs.Text.WellFormed
