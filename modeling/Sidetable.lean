import Sidetable.Action
import Sidetable.Architecture
import Sidetable.Batch
import Sidetable.Breach
import Sidetable.Browser
import Sidetable.Browser.Key
import Sidetable.Browser.TextInput
import Sidetable.Browser.View
import Sidetable.Browser.Viewport
import Sidetable.Browser.Widgets
import Sidetable.Browser.Terminal
import Sidetable.Buffer
import Sidetable.Buffer.Storage
import Sidetable.Build
import Sidetable.CommandLine
import Sidetable.Compile
import Sidetable.Cursor
import Sidetable.Effect
import Sidetable.Entry
import Sidetable.Event
import Sidetable.Fault
import Sidetable.Field
import Sidetable.Generator
import Sidetable.Hex
import Sidetable.Instr
import Sidetable.Instr.Decode
import Sidetable.Instr.Encode
import Sidetable.Layout
import Sidetable.Leb128
import Sidetable.Listing
import Sidetable.LittleEndian
import Sidetable.Main
import Sidetable.Metadata
import Sidetable.Module
import Sidetable.Module.Encode
import Sidetable.Module.Parse
import Sidetable.Opcode
import Sidetable.Problem
import Sidetable.Proofs.Acceptance
import Sidetable.Proofs.Accounting
import Sidetable.Proofs.Advance
import Sidetable.Proofs.Bounds
import Sidetable.Proofs.Breakage
import Sidetable.Proofs.Conservation
import Sidetable.Proofs.Contract
import Sidetable.Proofs.Count
import Sidetable.Proofs.Emission
import Sidetable.Proofs.Entries
import Sidetable.Proofs.Format
import Sidetable.Proofs.Growth
import Sidetable.Proofs.Job
import Sidetable.Proofs.Landing
import Sidetable.Proofs.Ledger
import Sidetable.Proofs.Marshalling
import Sidetable.Proofs.Nesting
import Sidetable.Proofs.Pairing
import Sidetable.Proofs.Patching
import Sidetable.Proofs.Plain
import Sidetable.Proofs.Reading
import Sidetable.Proofs.Resolution
import Sidetable.Proofs.Safety
import Sidetable.Proofs.Standing
import Sidetable.Proofs.Stream
import Sidetable.Proofs.Synchrony
import Sidetable.Proofs.Tracking
import Sidetable.Proofs.Turns
import Sidetable.Scope
import Sidetable.Text.Blank
import Sidetable.Text.Cluster
import Sidetable.Text.Columns
import Sidetable.Text.Numeral
import Sidetable.Text.Placed
import Sidetable.Text.Printable
import Sidetable.Text.Quoted
import Sidetable.Text.Template
import Sidetable.ValType
import Sidetable.Validation
import Sidetable.Validation.Body
import Sidetable.Validation.Invalid
import Sidetable.Validation.Operands
import Sidetable.Validation.Operation
import Sidetable.Validation.Outline
import Sidetable.Validation.Scan
import Sidetable.Validation.Segment
import Sidetable.Validation.Signature
import Sidetable.Validation.Vector
import Sidetable.Walk
import Sidetable.Proofs.Groups
import Sidetable.Proofs.Taking
import Sidetable.Proofs.Spelling
import Sidetable.Proofs.Sections
import Sidetable.Proofs.Reencoding
import Sidetable.Proofs.Capacity
import Sidetable.Dispatch
import Sidetable.Proofs.Adjustment
import Sidetable.Proofs.BlockTypes
import Sidetable.Proofs.Schedules
import Sidetable.Proofs.Exits
import Sidetable.Proofs.Replay
import Sidetable.Proofs.Twins
import Sidetable.Proofs.Abreast
import Sidetable.Proofs.Comparison
import Sidetable.Proofs.Appending
import Sidetable.Proofs.Exactness
import Sidetable.Proofs.Padding
import Sidetable.Proofs.Insertion
import Sidetable.Proofs.Agreement
import Sidetable.Proofs.Slots
import Sidetable.Proofs.Canonical
import Sidetable.Proofs.Chunks
import Sidetable.Proofs.Tiling
import Sidetable.Proofs.Scans
import Sidetable.Proofs.IndexSpaces
import Sidetable.Proofs.Blame
import Sidetable.Proofs.Bookkeeping
import Sidetable.Proofs.Allocation
import Sidetable.Proofs.Retention
import Sidetable.Proofs.Fields
import Sidetable.Proofs.Selection
