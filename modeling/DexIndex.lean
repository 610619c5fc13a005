import DexIndex.Analytics
import DexIndex.Bytes.Base58
import DexIndex.Bytes.Radix
import DexIndex.Bytes.Utf8
import DexIndex.Bytes.Word
import DexIndex.Chain.Block
import DexIndex.Chain.BlockFile
import DexIndex.Config
import DexIndex.Engine
import DexIndex.Event.Basic
import DexIndex.Event.Description
import DexIndex.Event.Json
import DexIndex.Exchange.Instruction
import DexIndex.Exchange.Queue
import DexIndex.Extraction
import DexIndex.FileTree
import DexIndex.Flush
import DexIndex.History
import DexIndex.IoFault
import DexIndex.Json.Basic
import DexIndex.Json.Parser
import DexIndex.Json.Printer
import DexIndex.Json.Record
import DexIndex.Key
import DexIndex.Lifecycle
import DexIndex.Live
import DexIndex.LogFilter
import DexIndex.Main
import DexIndex.Metrics
import DexIndex.Order
import DexIndex.Ownership
import DexIndex.Proofs.Bytes.Base58
import DexIndex.Proofs.Bytes.Utf8
import DexIndex.Proofs.Chain.BlockFile
import DexIndex.Proofs.Chain.Json
import DexIndex.Proofs.Engine.Calls
import DexIndex.Proofs.Engine.Emission
import DexIndex.Proofs.Engine.Execution
import DexIndex.Proofs.Engine.LiveView
import DexIndex.Proofs.Engine.Resumption
import DexIndex.Proofs.Engine.Startup
import DexIndex.Proofs.Engine.Tracking
import DexIndex.Proofs.Event.Json
import DexIndex.Proofs.Exchange.Acceptance
import DexIndex.Proofs.Exchange.Account
import DexIndex.Proofs.Exchange.Appended
import DexIndex.Proofs.Exchange.Entry
import DexIndex.Proofs.Exchange.Idle
import DexIndex.Proofs.Exchange.Instruction
import DexIndex.Proofs.Exchange.Ring
import DexIndex.Proofs.Extraction.Faults
import DexIndex.Proofs.Extraction.Harvest
import DexIndex.Proofs.Extraction.Placement
import DexIndex.Proofs.Extraction.Relevance
import DexIndex.Proofs.Extraction.Resolution
import DexIndex.Proofs.History.Fills
import DexIndex.Proofs.History.Integrity
import DexIndex.Proofs.History.Latest
import DexIndex.Proofs.History.NewestFirst
import DexIndex.Proofs.History.Orders
import DexIndex.Proofs.History.Pages
import DexIndex.Proofs.History.ReadBack
import DexIndex.Proofs.Json.Line
import DexIndex.Proofs.Json.Record
import DexIndex.Proofs.Json.RoundTrip
import DexIndex.Proofs.Json.Text
import DexIndex.Proofs.Key.Canonical
import DexIndex.Proofs.Key.Codec
import DexIndex.Proofs.Key.Order
import DexIndex.Proofs.Key.Prefix
import DexIndex.Proofs.Key.Sorted
import DexIndex.Proofs.Lifecycle.Coherence
import DexIndex.Proofs.Lifecycle.Outcome
import DexIndex.Proofs.Lifecycle.Redelivery
import DexIndex.Proofs.Lifecycle.Replay
import DexIndex.Proofs.Lifecycle.Taken
import DexIndex.Proofs.Live.Broadcast
import DexIndex.Proofs.Live.Clients
import DexIndex.Proofs.Live.Delivery
import DexIndex.Proofs.Live.Departures
import DexIndex.Proofs.Live.Mailboxes
import DexIndex.Proofs.Live.Registry
import DexIndex.Proofs.Live.Upkeep
import DexIndex.Proofs.Ownership.Interleaving
import DexIndex.Proofs.Ownership.WriteOnce
import DexIndex.Proofs.Results
import DexIndex.Proofs.Store.Mirror
import DexIndex.Proofs.Store.Session
import DexIndex.Proofs.Table.Lookup
import DexIndex.Proofs.Table.Prefix
import DexIndex.Proofs.Table.Scan
import DexIndex.Proofs.Time.Range
import DexIndex.Proofs.Time.Text
import DexIndex.Proofs.Writer.Attempts
import DexIndex.Proofs.Writer.Backed
import DexIndex.Proofs.Writer.Backlog
import DexIndex.Proofs.Writer.Basis
import DexIndex.Proofs.Writer.Durable
import DexIndex.Proofs.Writer.Entries
import DexIndex.Proofs.Writer.Owners
import DexIndex.Proofs.Writer.Reached
import DexIndex.Proofs.Writer.Rewrites
import DexIndex.Proofs.Writer.Rows
import DexIndex.Proofs.Writer.Shared
import DexIndex.Proofs.Writer.Steps
import DexIndex.Proofs.Writer.Written
import DexIndex.PublicKey
import DexIndex.Service
import DexIndex.Store.Address
import DexIndex.Store.Basic
import DexIndex.Store.SortedSet
import DexIndex.Store.Table
import DexIndex.Text.Blank
import DexIndex.Text.Letter
import DexIndex.Text.Number
import DexIndex.Text.Pattern
import DexIndex.Text.Printable
import DexIndex.Text.Slice
import DexIndex.Text.Url
import DexIndex.Time.Date
import DexIndex.Time.Span
import DexIndex.Time.Timestamp
import DexIndex.Writer
