import ServiceIdl.Render.Format
import ServiceIdl.Resolve.Document
import ServiceIdl.Proofs.Syntax.DocumentTree
import ServiceIdl.Proofs.Resolve.ErrorFree
import ServiceIdl.Proofs.Grammar.Alphabet
import ServiceIdl.Proofs.Peg.Completeness
import ServiceIdl.Proofs.Shape.Named
import ServiceIdl.Proofs.Resolve.Sources
import ServiceIdl.Proofs.Resolve.Rules
import ServiceIdl.Proofs.Resolve.Spelling
import ServiceIdl.Proofs.Grammar.Rank
import ServiceIdl.Proofs.Text.Spacing
import ServiceIdl.Proofs.Grammar.Spacing
import ServiceIdl.Proofs.Resolve.Bare
import ServiceIdl.Proofs.Resolve.Spacing
import ServiceIdl.Proofs.Decimal.Written
import ServiceIdl.Proofs.Grammar.Written
import ServiceIdl.Proofs.Peg.Farthest
import ServiceIdl.Proofs.Render.Fields
import ServiceIdl.Proofs.Render.Json
import ServiceIdl.Proofs.Render.Metadata
import ServiceIdl.Proofs.Render.RoundTrip
import ServiceIdl.Proofs.Text.Scan
import ServiceIdl.Proofs.Resolve.Reporting
import ServiceIdl.Proofs.Shape.Last
import ServiceIdl.Proofs.Resolve.Order
import ServiceIdl.Proofs.Resolve.Namesakes
import ServiceIdl.Proofs.Resolve.Steps
import ServiceIdl.Proofs.Resolve.Integrity
import ServiceIdl.Proofs.Resolve.Collector
import ServiceIdl.Proofs.Resolve.Reported
import ServiceIdl.Proofs.Resolve.Contents
import ServiceIdl.Proofs.Resolve.Inputs
import ServiceIdl.Proofs.Grammar.Termination
import ServiceIdl.Proofs.Resolve.Rejected
import ServiceIdl.Proofs.Resolve.TypeNames
import ServiceIdl.Proofs.Resolve.Options
import ServiceIdl.Proofs.Render.Yaml.Injective
import ServiceIdl.Proofs.Resolve.Listings
import ServiceIdl.Proofs.Resolve.Bindings
import ServiceIdl.Proofs.Resolve.Elision
import ServiceIdl.Proofs.Resolve.PreludeNames
import ServiceIdl.Proofs.Text.Decoding
import ServiceIdl.Proofs.Resolve.Restrictions
import ServiceIdl.Proofs.Resolve.Signatures
import ServiceIdl.Proofs.Resolve.Extents
import ServiceIdl.Proofs.Resolve.Numbers
import ServiceIdl.Proofs.Resolve.Lookup
import ServiceIdl.Proofs.Model.Version
import ServiceIdl.Proofs.Resolve.Header
import ServiceIdl.Proofs.Grammar.Lexicon
import ServiceIdl.Proofs.Syntax.Leaves
