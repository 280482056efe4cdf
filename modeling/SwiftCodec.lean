import SwiftCodec.Document.Writer
import SwiftCodec.Main
import SwiftCodec.Proofs.Resolution.Steps
import SwiftCodec.Proofs.Resolution.Cycles
import SwiftCodec.Proofs.Resolution.Scope
import SwiftCodec.Proofs.Codec.Plans
import SwiftCodec.Proofs.TypeExpr.Validity
import SwiftCodec.Proofs.Codec.Alike
import SwiftCodec.Proofs.Resolution.Unfolding
import SwiftCodec.Proofs.Codec.Transparency
import SwiftCodec.Proofs.Codec.Capture
import SwiftCodec.Proofs.Output.Emission
import SwiftCodec.Proofs.Registry.Scan
import SwiftCodec.Proofs.Declaration.Validity
import SwiftCodec.Proofs.Output.Completion
import SwiftCodec.Proofs.Resolution.Meaning
import SwiftCodec.Proofs.Registry.KnownEnums
import SwiftCodec.Proofs.Codec.Marks
import SwiftCodec.Proofs.Codec.Remarks
import SwiftCodec.Proofs.Output.Warnings
import SwiftCodec.Proofs.Output.Failures
import SwiftCodec.Proofs.Registry.Agreement
import SwiftCodec.Proofs.Output.Order
import SwiftCodec.Proofs.Output.Reduction
import SwiftCodec.Proofs.Json.Lexeme
import SwiftCodec.Proofs.Output.Saturation
import SwiftCodec.Proofs.Json.Grammar
import SwiftCodec.Proofs.Json.Skipping
import SwiftCodec.Proofs.Json.Distinct
import SwiftCodec.Proofs.Document.Settling
import SwiftCodec.Proofs.Document.Agreement
import SwiftCodec.Proofs.Json.Depth
import SwiftCodec.Proofs.Json.Writing
import SwiftCodec.Proofs.Document.RoundTrip
import SwiftCodec.Proofs.Document.Limit
import SwiftCodec.Proofs.Command.Loading
import SwiftCodec.Proofs.Command.Printing
import SwiftCodec.Proofs.Command.Writing
import SwiftCodec.Proofs.Codec.Bindings
import SwiftCodec.Proofs.Output.Containment
import SwiftCodec.Proofs.Resolution.NormalForm
import SwiftCodec.Proofs.Output.Attribution
import SwiftCodec.Proofs.Codec.Alphabet
import SwiftCodec.Proofs.Codec.Calls
import SwiftCodec.Proofs.Output.Signatures
import SwiftCodec.Proofs.Codec.Shadowing
import SwiftCodec.Proofs.TypeExpr.Unambiguous
import SwiftCodec.Proofs.Codec.Outline
import SwiftCodec.Proofs.Declaration.Offences
import SwiftCodec.Proofs.Declaration.Flattening
import SwiftCodec.Proofs.Registry.Records
import SwiftCodec.Proofs.Codec.Texts
import SwiftCodec.Proofs.Output.Session
import SwiftCodec.Proofs.Text.Depth
import SwiftCodec.Proofs.Output.Balance
import SwiftCodec.Proofs.Output.Footprint
import SwiftCodec.Proofs.Codec.Hygiene
