import ChainIndex.Chain.Basic
import ChainIndex.Chain.Decode
import ChainIndex.Chain.Filter
import ChainIndex.Chain.Record
import ChainIndex.Chunks
import ChainIndex.Command.Arguments
import ChainIndex.Command.Grammar
import ChainIndex.Command.Run
import ChainIndex.Config.Basic
import ChainIndex.Config.File
import ChainIndex.Config.Logging
import ChainIndex.Confirmation
import ChainIndex.Derived.Basic
import ChainIndex.Derived.Key
import ChainIndex.Derived.Record
import ChainIndex.Derived.Scope
import ChainIndex.Derived.Tables
import ChainIndex.Effect.Action
import ChainIndex.Effect.Query
import ChainIndex.Effect.Routine
import ChainIndex.Fault
import ChainIndex.Indexer.Basic
import ChainIndex.Indexer.Events
import ChainIndex.Indexer.Frames
import ChainIndex.Indexer.Reindex
import ChainIndex.Json.Document
import ChainIndex.Json.Number
import ChainIndex.Json.Printer
import ChainIndex.Json.Record
import ChainIndex.Json.Value
import ChainIndex.Ledger.Basic
import ChainIndex.Ledger.Record
import ChainIndex.Main
import ChainIndex.Provider
import ChainIndex.Quantity
import ChainIndex.Reprocess
import ChainIndex.Resolve.Batch
import ChainIndex.Resolve.Retry
import ChainIndex.Resolve.Single
import ChainIndex.Rpc.Client
import ChainIndex.Rpc.Envelope
import ChainIndex.Rpc.Offline
import ChainIndex.Service
import ChainIndex.Store.Columns
import ChainIndex.Store.Disturbed
import ChainIndex.Store.Location
import ChainIndex.Store.Memory
import ChainIndex.Store.Relational
import ChainIndex.Store.Row
import ChainIndex.Store.Session
import ChainIndex.Store.Storage
import ChainIndex.Table
import ChainIndex.Text.Ascii
import ChainIndex.Text.Blank
import ChainIndex.Text.Decimal
import ChainIndex.Text.Percent
import ChainIndex.Proofs.Lists
import ChainIndex.Proofs.Json.Reading
import ChainIndex.Proofs.Store.Row
import ChainIndex.Proofs.Text.Canonical
import ChainIndex.Proofs.Effect.Execution
import ChainIndex.Proofs.Store.Effect
import ChainIndex.Proofs.Table.Values
import ChainIndex.Proofs.Table.Selection
import ChainIndex.Proofs.Store.Signed
import ChainIndex.Proofs.Store.ReadBack
import ChainIndex.Proofs.Store.Represents
import ChainIndex.Proofs.Store.Simulation
import ChainIndex.Proofs.Effect.Ensures
import ChainIndex.Proofs.Derived.Tables
import ChainIndex.Proofs.Store.Integrity
import ChainIndex.Proofs.Resolve.Retry
import ChainIndex.Proofs.Resolve.Single
import ChainIndex.Proofs.Resolve.Batch
import ChainIndex.Proofs.Resolve.Counting
import ChainIndex.Proofs.Service.Operation
import ChainIndex.Proofs.Service.Integrity
import ChainIndex.Proofs.Service.Batch
import ChainIndex.Proofs.Service.Forks
import ChainIndex.Proofs.Service.Pending
import ChainIndex.Proofs.Effect.Order
import ChainIndex.Proofs.Effect.Guarded
import ChainIndex.Proofs.Resolve.Order
import ChainIndex.Proofs.Service.Atomic
import ChainIndex.Proofs.Effect.Built
import ChainIndex.Proofs.Store.Ledger
import ChainIndex.Proofs.Store.Confirmation
import ChainIndex.Proofs.Resolve.Snapshot
import ChainIndex.Proofs.Resolve.Grounded
import ChainIndex.Proofs.Service.Engine
import ChainIndex.Proofs.Service.Grounded
import ChainIndex.Proofs.Service.Course
import ChainIndex.Proofs.Service.Confirmation
import ChainIndex.Proofs.Service.Local
import ChainIndex.Proofs.Service.Served
import ChainIndex.Proofs.Store.Alike
import ChainIndex.Proofs.Resolve.Reference
import ChainIndex.Proofs.Resolve.Refinement
import ChainIndex.Proofs.Resolve.Together
import ChainIndex.Proofs.Service.Agreement
import ChainIndex.Proofs.Derived.Scope
import ChainIndex.Proofs.Derived.Invalidation
import ChainIndex.Proofs.Store.Invalidation
import ChainIndex.Proofs.Service.Reprocess
import ChainIndex.Proofs.Store.Faltering
import ChainIndex.Proofs.Service.Rollback
import ChainIndex.Proofs.Store.Keys
import ChainIndex.Proofs.Resolve.Spelling
import ChainIndex.Proofs.Service.Spelling
import ChainIndex.Proofs.Effect.Trace
import ChainIndex.Proofs.Indexer.Windows
import ChainIndex.Proofs.Indexer.Search
import ChainIndex.Proofs.Service.Replay
import ChainIndex.Proofs.Service.Exactness
import ChainIndex.Proofs.Service.Chunking
import ChainIndex.Proofs.Service.Repeat
import ChainIndex.Proofs.Store.Growth
import ChainIndex.Proofs.Service.Shared
import ChainIndex.Proofs.Service.Merging
import ChainIndex.Proofs.Service.Absorption
import ChainIndex.Proofs.Service.LookedUp
import ChainIndex.Proofs.Service.Races
import ChainIndex.Proofs.Store.Lasting
import ChainIndex.Proofs.Service.Lasting
import ChainIndex.Proofs.Store.Interchange
import ChainIndex.Proofs.Service.Interchange
import ChainIndex.Proofs.Derived.Composition
import ChainIndex.Proofs.Service.Composition
import ChainIndex.Proofs.Indexer.Parts
import ChainIndex.Proofs.Derived.Regeneration
import ChainIndex.Proofs.Service.Regeneration
import ChainIndex.Proofs.Store.Frame
import ChainIndex.Proofs.Resolve.Frame
import ChainIndex.Proofs.Service.Frame
import ChainIndex.Proofs.Rpc.Numbering
import ChainIndex.Proofs.Rpc.Matching
import ChainIndex.Proofs.Rpc.Batching
import ChainIndex.Proofs.Service.Provider
import ChainIndex.Proofs.Service.Windows
import ChainIndex.Proofs.Effect.Asking
import ChainIndex.Proofs.Resolve.Script
import ChainIndex.Proofs.Service.Questions
import ChainIndex.Proofs.Service.Union
import ChainIndex.Proofs.Service.Markers
import ChainIndex.Proofs.Text.Numeral
import ChainIndex.Proofs.Chain.Reading
import ChainIndex.Proofs.Chain.Quantities
import ChainIndex.Proofs.Rpc.Searches
import ChainIndex.Proofs.Indexer.Keys
import ChainIndex.Proofs.Service.Scopes
import ChainIndex.Proofs.Text.Quantity
import ChainIndex.Proofs.Rpc.Bounds
