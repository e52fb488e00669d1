import PosDictionary.Bytes.Buffer
import PosDictionary.Bytes.LittleEndian
import PosDictionary.Bytes.View
import PosDictionary.Cursor
import PosDictionary.Decimal.Layout
import PosDictionary.Decimal.Shortest
import PosDictionary.Definition.Basic
import PosDictionary.Definition.Builder
import PosDictionary.Dictionary
import PosDictionary.Engine
import PosDictionary.Error
import PosDictionary.Event
import PosDictionary.Expansion
import PosDictionary.Failure
import PosDictionary.Fault
import PosDictionary.Json.Definitions
import PosDictionary.Json.Number
import PosDictionary.Json.Numeral
import PosDictionary.Json.Primitive
import PosDictionary.Json.ReadError
import PosDictionary.Json.Reader
import PosDictionary.Json.Schema
import PosDictionary.Json.Shape
import PosDictionary.Json.Skip
import PosDictionary.Json.Streamed
import PosDictionary.Json.Text
import PosDictionary.Json.ValueText
import PosDictionary.PosIndex.Basic
import PosDictionary.PosIndex.DistinctIds
import PosDictionary.Proofs.ByteViews
import PosDictionary.Proofs.ByteViews.Parts
import PosDictionary.Proofs.Cursors
import PosDictionary.Proofs.Cursors.Scripts
import PosDictionary.Proofs.Definition.Accepted
import PosDictionary.Proofs.Definition.Canonical
import PosDictionary.Proofs.Definition.Capacity
import PosDictionary.Proofs.Definition.Offers
import PosDictionary.Proofs.Definition.Written
import PosDictionary.Proofs.Digits
import PosDictionary.Proofs.Engine.Acceptance
import PosDictionary.Proofs.Engine.Definitions
import PosDictionary.Proofs.Engine.Enumeration
import PosDictionary.Proofs.Engine.Lookup
import PosDictionary.Proofs.Engine.Ranks
import PosDictionary.Proofs.Engine.Rebuilding
import PosDictionary.Proofs.Engine.Reversal
import PosDictionary.Proofs.Engine.RoundTrip
import PosDictionary.Proofs.Engine.Runs
import PosDictionary.Proofs.Engine.Safety
import PosDictionary.Proofs.Engine.StoredForms
import PosDictionary.Proofs.Expansion
import PosDictionary.Proofs.Json.Definitions
import PosDictionary.Proofs.Json.Enclosures
import PosDictionary.Proofs.Json.Numbers
import PosDictionary.Proofs.Json.Readers
import PosDictionary.Proofs.Json.Records
import PosDictionary.Proofs.Json.Shapes
import PosDictionary.Proofs.Json.Streamed
import PosDictionary.Proofs.Json.Strings
import PosDictionary.Proofs.Json.ValueTexts
import PosDictionary.Proofs.Outcomes
import PosDictionary.Proofs.PosIndex.DistinctIds
import PosDictionary.Proofs.PosIndex.IdRuns
import PosDictionary.Proofs.PosIndex.Queries
import PosDictionary.Proofs.PosIndex.Scripts
import PosDictionary.Proofs.Rules
import PosDictionary.Proofs.Sample.Dictionary
import PosDictionary.Proofs.Sample.Generator
import PosDictionary.Proofs.Sample.Random
import PosDictionary.Proofs.Search
import PosDictionary.Proofs.Search.Probes
import PosDictionary.Proofs.Sorting
import PosDictionary.Proofs.Spans
import PosDictionary.Proofs.StringTable.Acceptance
import PosDictionary.Proofs.StringTable.Extent
import PosDictionary.Proofs.StringTable.Layout
import PosDictionary.Proofs.StringTable.Members
import PosDictionary.Proofs.StringTable.Placement
import PosDictionary.Proofs.StringTable.RoundTrip
import PosDictionary.Proofs.StringTable.Strings
import PosDictionary.Proofs.StringTable.Writing
import PosDictionary.Proofs.Texts
import PosDictionary.Proofs.TokenArray.Acceptance
import PosDictionary.Proofs.TokenArray.Codec
import PosDictionary.Proofs.TokenArray.Layout
import PosDictionary.Proofs.TokenArray.Records
import PosDictionary.Proofs.TokenArray.Reversal
import PosDictionary.Proofs.TokenArray.Searches
import PosDictionary.Proofs.TokenArray.Verdicts
import PosDictionary.Sample.Generator
import PosDictionary.Sample.Random
import PosDictionary.Sample.Reversal
import PosDictionary.Sample.Source
import PosDictionary.Search
import PosDictionary.Segments
import PosDictionary.StringTable.Basic
import PosDictionary.StringTable.Violation
import PosDictionary.StringTable.Writer
import PosDictionary.SuffixDictionary
import PosDictionary.Text.ByteOrder
import PosDictionary.Text.Quoted
import PosDictionary.Text.Structured
import PosDictionary.Text.Unprintable
import PosDictionary.Text.Utf8
import PosDictionary.TokenArray
import PosDictionary.TokenRecord
import PosDictionary.UserEntry
