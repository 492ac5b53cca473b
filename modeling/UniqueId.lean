import UniqueId.Bytes
import UniqueId.Bits
import UniqueId.Numeral
import UniqueId.Word
import UniqueId.Uuid.Basic
import UniqueId.Uuid.Binary
import UniqueId.Uuid.Kind
import UniqueId.Uuid.Stamp
import UniqueId.Uuid.Sorting
import UniqueId.Fault
import UniqueId.Text.Canonical
import UniqueId.Text.Reader
import UniqueId.Text.Printer
import UniqueId.Region
import UniqueId.Time.Ticks
import UniqueId.Time.Layout
import UniqueId.Time.Timestamp
import UniqueId.Stream.Format
import UniqueId.Stream.Insertion
import UniqueId.Log.Level
import UniqueId.Log.Entry
import UniqueId.Log.Logger
import UniqueId.Diagnostics
import UniqueId.Operation
import UniqueId.Course
import UniqueId.Session
import UniqueId.Inspection
import UniqueId.Proofs.Positional
import UniqueId.Proofs.Text.Canonical
import UniqueId.Proofs.Text.Reading
import UniqueId.Proofs.Text.Writing
import UniqueId.Proofs.Stream.Identifier
import UniqueId.Proofs.Text.RoundTrip
import UniqueId.Proofs.Uuid.Binary
import UniqueId.Proofs.Uuid.Nibble
import UniqueId.Proofs.Uuid.Kind
import UniqueId.Proofs.Region.Window
import UniqueId.Proofs.Region.Slots
import UniqueId.Proofs.Text.InMemory
import UniqueId.Proofs.Time.Layout
import UniqueId.Proofs.Time.Ticks
import UniqueId.Proofs.Time.Transit
import UniqueId.Proofs.Time.Order
import UniqueId.Proofs.Lexicographic
import UniqueId.Proofs.Sorting
import UniqueId.Proofs.Uuid.Order
import UniqueId.Proofs.Log.History
import UniqueId.Proofs.Text.Faults
import UniqueId.Proofs.Stream.Frame
import UniqueId.Proofs.Diagnostics.Course
import UniqueId.Proofs.Diagnostics.Objections
import UniqueId.Proofs.Diagnostics.Records
import UniqueId.Proofs.Diagnostics.Silence
import UniqueId.Proofs.Region.InPlace
import UniqueId.Proofs.Uuid.Stamping
import UniqueId.Proofs.Uuid.Codes
import UniqueId.Proofs.Region.Overwriting
import UniqueId.Proofs.Region.Footprint
import UniqueId.Proofs.Stream.Shown
import UniqueId.Proofs.Time.Conversion
import UniqueId.Proofs.Time.Truncation
import UniqueId.Proofs.Time.Timestamp
import UniqueId.Proofs.Log.Placeholders
import UniqueId.Proofs.Text.Terminated
import UniqueId.Proofs.Uuid.Forms
import UniqueId.Proofs.Text.Messages
import UniqueId.Proofs.Uuid.Hash
import UniqueId.Proofs.Text.Packing
import UniqueId.Proofs.Session
import UniqueId.Proofs.Inspection
