import GribCatalog.Axis.Basic
import GribCatalog.Axis.Dimension
import GribCatalog.Axis.Hashing
import GribCatalog.Axis.Json
import GribCatalog.Axis.Kind
import GribCatalog.Axis.Reading
import GribCatalog.Axis.Value
import GribCatalog.Binary64.Basic
import GribCatalog.Binary64.Reading
import GribCatalog.Binary64.Rounding
import GribCatalog.Binary64.Shortest
import GribCatalog.Bytes
import GribCatalog.Calendar.Date
import GribCatalog.Calendar.Instant
import GribCatalog.Calendar.Rfc3339
import GribCatalog.Catalog.Build
import GribCatalog.Catalog.Checked
import GribCatalog.Catalog.Document
import GribCatalog.Catalog.Expansion
import GribCatalog.Catalog.Inputs
import GribCatalog.Catalog.Lookup
import GribCatalog.Catalog.Settings
import GribCatalog.Catalog.SettingsFile
import GribCatalog.Catalog.Summary
import GribCatalog.CommandLine.Invocation
import GribCatalog.CommandLine.Run
import GribCatalog.CommandLine.Word
import GribCatalog.Files.Basic
import GribCatalog.Files.Path
import GribCatalog.Files.Tree
import GribCatalog.Grib.Dimension
import GribCatalog.Grib.Encoding
import GribCatalog.Grib.Fault
import GribCatalog.Grib.Field
import GribCatalog.Grib.Identification
import GribCatalog.Grib.Indicator
import GribCatalog.Grib.Message
import GribCatalog.Grib.Product
import GribCatalog.Grib.Scan
import GribCatalog.Grib.Section
import GribCatalog.Grib.Tables
import GribCatalog.Grib.TimeUnit
import GribCatalog.Gzip.Bits
import GribCatalog.Gzip.Checksum
import GribCatalog.Gzip.Huffman
import GribCatalog.Gzip.Inflate
import GribCatalog.Gzip.Member
import GribCatalog.Json.Basic
import GribCatalog.Json.Decode
import GribCatalog.Json.Printer
import GribCatalog.Json.Reader
import GribCatalog.Main
import GribCatalog.Proofs.Address
import GribCatalog.Proofs.Alike
import GribCatalog.Proofs.Answers
import GribCatalog.Proofs.Axis
import GribCatalog.Proofs.Build
import GribCatalog.Proofs.Calendar
import GribCatalog.Proofs.Capacity
import GribCatalog.Proofs.Cells
import GribCatalog.Proofs.Checked
import GribCatalog.Proofs.Decimal
import GribCatalog.Proofs.Dense
import GribCatalog.Proofs.DenseSize
import GribCatalog.Proofs.Digits
import GribCatalog.Proofs.DimensionName
import GribCatalog.Proofs.Encoding
import GribCatalog.Proofs.Expansion
import GribCatalog.Proofs.Extension
import GribCatalog.Proofs.Extent
import GribCatalog.Proofs.Fields
import GribCatalog.Proofs.Frames
import GribCatalog.Proofs.Growth
import GribCatalog.Proofs.Guarded
import GribCatalog.Proofs.History
import GribCatalog.Proofs.Invariant
import GribCatalog.Proofs.JsonText
import GribCatalog.Proofs.Layout
import GribCatalog.Proofs.Lookup
import GribCatalog.Proofs.Nearest
import GribCatalog.Proofs.Numbering
import GribCatalog.Proofs.NumericOrder
import GribCatalog.Proofs.Offers
import GribCatalog.Proofs.Order
import GribCatalog.Proofs.Outcome
import GribCatalog.Proofs.Overlay
import GribCatalog.Proofs.Persistence
import GribCatalog.Proofs.Phases
import GribCatalog.Proofs.Placement
import GribCatalog.Proofs.Positions
import GribCatalog.Proofs.Printed
import GribCatalog.Proofs.Progress
import GribCatalog.Proofs.Query
import GribCatalog.Proofs.Refusal
import GribCatalog.Proofs.Resolution
import GribCatalog.Proofs.Restoration
import GribCatalog.Proofs.Rounding
import GribCatalog.Proofs.Scaling
import GribCatalog.Proofs.Scan
import GribCatalog.Proofs.Seeding
import GribCatalog.Proofs.Snapshot
import GribCatalog.Proofs.Sorting
import GribCatalog.Proofs.Stream
import GribCatalog.Proofs.Stride
import GribCatalog.Proofs.Survey
import GribCatalog.Proofs.Transposition
import GribCatalog.Proofs.Untouched
import GribCatalog.Proofs.Update
import GribCatalog.Proofs.ValidTime
import GribCatalog.Proofs.ValueOrder
import GribCatalog.Proofs.ValueText
import GribCatalog.Proofs.Walk
import GribCatalog.Proofs.WellFormed
import GribCatalog.Space.Basic
import GribCatalog.Space.Build
import GribCatalog.Space.Cell
import GribCatalog.Space.Checked
import GribCatalog.Space.Collector
import GribCatalog.Space.Dense
import GribCatalog.Space.Entry
import GribCatalog.Space.Fault
import GribCatalog.Space.Options
import GribCatalog.Space.Placement
import GribCatalog.Space.Policy
import GribCatalog.Space.Query
import GribCatalog.Space.Report
import GribCatalog.Space.Resolution
import GribCatalog.Space.Snapshot
import GribCatalog.Space.Survey
import GribCatalog.Stride
import GribCatalog.Text.Blank
import GribCatalog.Text.LetterCase
import GribCatalog.Text.Lowercase
import GribCatalog.Text.Numeral
import GribCatalog.Text.Split
import GribCatalog.Yaml.Basic
import GribCatalog.Yaml.Cursor
import GribCatalog.Yaml.Decode
import GribCatalog.Yaml.Meaning
import GribCatalog.Yaml.Reader
import GribCatalog.Yaml.Scalar
import GribCatalog.Yaml.Token
