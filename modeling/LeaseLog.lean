import LeaseLog.Agent
import LeaseLog.Clock
import LeaseLog.CommandLine.Arguments
import LeaseLog.CommandLine.Launch
import LeaseLog.CommandLine.Run
import LeaseLog.CommandLine.Workspace
import LeaseLog.Config
import LeaseLog.Envelope
import LeaseLog.ErrorKind
import LeaseLog.Guard
import LeaseLog.Ident
import LeaseLog.Instant.Basic
import LeaseLog.Instant.Calendar
import LeaseLog.Instant.Text
import LeaseLog.Journal
import LeaseLog.Json.Basic
import LeaseLog.Json.Binary64
import LeaseLog.Json.Decoder
import LeaseLog.Json.Fields
import LeaseLog.Json.Forms
import LeaseLog.Json.Number
import LeaseLog.Json.Outcome
import LeaseLog.Json.Printer
import LeaseLog.Json.Reading
import LeaseLog.Lease
import LeaseLog.Listing
import LeaseLog.Main
import LeaseLog.Message
import LeaseLog.OrdSet
import LeaseLog.Pointer
import LeaseLog.Proofs.CommandLine.AppendOnly
import LeaseLog.Proofs.CommandLine.Appends
import LeaseLog.Proofs.CommandLine.Journals
import LeaseLog.Proofs.CommandLine.Reopening
import LeaseLog.Proofs.CommandLine.Reports
import LeaseLog.Proofs.CommandLine.Runs
import LeaseLog.Proofs.Edits
import LeaseLog.Proofs.FirstAppearances
import LeaseLog.Proofs.Json.Decimal
import LeaseLog.Proofs.Json.Journal
import LeaseLog.Proofs.Json.Numbers
import LeaseLog.Proofs.Json.Payloads
import LeaseLog.Proofs.Json.Prefixes
import LeaseLog.Proofs.Json.Records
import LeaseLog.Proofs.Json.RoundTrip
import LeaseLog.Proofs.Json.Rounding
import LeaseLog.Proofs.Json.Shortest
import LeaseLog.Proofs.Json.Texts
import LeaseLog.Proofs.Json.Values
import LeaseLog.Proofs.OrdSet
import LeaseLog.Proofs.Query.Criteria
import LeaseLog.Proofs.Query.Reversal
import LeaseLog.Proofs.Query.Selection
import LeaseLog.Proofs.Query.Simplification
import LeaseLog.Proofs.State.Accepted
import LeaseLog.Proofs.State.History
import LeaseLog.Proofs.State.Independence
import LeaseLog.Proofs.State.LeaseIndex
import LeaseLog.Proofs.State.Marks
import LeaseLog.Proofs.State.Reachable
import LeaseLog.Proofs.State.Rebuilt
import LeaseLog.Proofs.State.Repetitions
import LeaseLog.Proofs.State.Replay
import LeaseLog.Proofs.State.Sequential
import LeaseLog.Proofs.Storage.Bootstrap
import LeaseLog.Proofs.Storage.EntityHistories
import LeaseLog.Proofs.Storage.Enumerations
import LeaseLog.Proofs.Storage.Layers
import LeaseLog.Proofs.Storage.Lookups
import LeaseLog.Proofs.Storage.PointerQueries
import LeaseLog.Proofs.Storage.Purge
import LeaseLog.Proofs.Storage.Retries
import LeaseLog.Proofs.Storage.Rollback
import LeaseLog.Proofs.Storage.RollbackCounts
import LeaseLog.Proofs.Storage.Scripts
import LeaseLog.Proofs.Storage.Session
import LeaseLog.Proofs.Storage.Tickets
import LeaseLog.Proofs.Storage.Waits
import LeaseLog.Proofs.Stream.Accounts
import LeaseLog.Proofs.Stream.Backends
import LeaseLog.Proofs.Stream.Basic
import LeaseLog.Proofs.Stream.BlindLooks
import LeaseLog.Proofs.Stream.Calls
import LeaseLog.Proofs.Stream.Desk
import LeaseLog.Proofs.Stream.ExactlyOnce
import LeaseLog.Proofs.Stream.Extras
import LeaseLog.Proofs.Stream.Handles
import LeaseLog.Proofs.Stream.Naming
import LeaseLog.Proofs.Stream.Optimistic
import LeaseLog.Proofs.Stream.World
import LeaseLog.Proofs.Text.Ident
import LeaseLog.Proofs.Text.Instant
import LeaseLog.Proofs.Text.Numerals
import LeaseLog.Query.Criteria
import LeaseLog.Query.Filter
import LeaseLog.Query.Json
import LeaseLog.Query.Order
import LeaseLog.Query.Plan
import LeaseLog.Report
import LeaseLog.Repository
import LeaseLog.RepositoryError
import LeaseLog.RetryPolicy
import LeaseLog.Rounding
import LeaseLog.Source
import LeaseLog.Staging
import LeaseLog.State.Basic
import LeaseLog.State.Invariant
import LeaseLog.State.Json
import LeaseLog.State.Overlay
import LeaseLog.State.Replay
import LeaseLog.Storage.Basic
import LeaseLog.Storage.Cursor
import LeaseLog.Storage.Json
import LeaseLog.Storage.Session
import LeaseLog.Storage.Store
import LeaseLog.Stream.Basic
import LeaseLog.Stream.Factory
import LeaseLog.Stream.Json
import LeaseLog.Stream.Single
import LeaseLog.Stream.UnitOfWork
import LeaseLog.Text.Blank
import LeaseLog.Text.Decimal
import LeaseLog.Text.Hex
import LeaseLog.Version
