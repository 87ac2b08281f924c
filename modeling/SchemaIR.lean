import SchemaIR.Files.FileSystem
import SchemaIR.Main
import SchemaIR.Program.Encoding
import SchemaIR.Program.Samples
import SchemaIR.Proofs.Acceptance
import SchemaIR.Proofs.ArrayTypes
import SchemaIR.Proofs.Circles
import SchemaIR.Proofs.Completion
import SchemaIR.Proofs.Conformance
import SchemaIR.Proofs.Consistency
import SchemaIR.Proofs.Course
import SchemaIR.Proofs.Dependence
import SchemaIR.Proofs.Documents
import SchemaIR.Proofs.Embedding
import SchemaIR.Proofs.Failure
import SchemaIR.Proofs.Files
import SchemaIR.Proofs.Finality
import SchemaIR.Proofs.Flattening
import SchemaIR.Proofs.FloatSpelling
import SchemaIR.Proofs.Generation
import SchemaIR.Proofs.Indentation
import SchemaIR.Proofs.Inheritance
import SchemaIR.Proofs.InlineObjects
import SchemaIR.Proofs.IntegerText
import SchemaIR.Proofs.Inventory
import SchemaIR.Proofs.Levels
import SchemaIR.Proofs.Limits
import SchemaIR.Proofs.Lockstep
import SchemaIR.Proofs.MemberReferences
import SchemaIR.Proofs.Members
import SchemaIR.Proofs.Memoization
import SchemaIR.Proofs.Nesting
import SchemaIR.Proofs.Normalization
import SchemaIR.Proofs.Numbers
import SchemaIR.Proofs.Order
import SchemaIR.Proofs.Parallel
import SchemaIR.Proofs.ProgramText
import SchemaIR.Proofs.Published
import SchemaIR.Proofs.Raising
import SchemaIR.Proofs.Readability
import SchemaIR.Proofs.Reading
import SchemaIR.Proofs.References
import SchemaIR.Proofs.RoundTrip
import SchemaIR.Proofs.Routes
import SchemaIR.Proofs.Termination
import SchemaIR.Proofs.Typing
import SchemaIR.Proofs.Validity
import SchemaIR.Schema.Decoding
