import BatchStore.Batch.Call
import BatchStore.Client
import BatchStore.Transport
import BatchStore.Number.AnyScript
import BatchStore.Octets.Hex
import BatchStore.Datum.Shown
import BatchStore.Proofs.Number.Order
import BatchStore.Proofs.Store.View
import BatchStore.Proofs.Store.KeySteps
import BatchStore.Proofs.Store.Script
import BatchStore.Proofs.Store.Effects
import BatchStore.Proofs.Store.Trace
import BatchStore.Proofs.Store.Transaction
import BatchStore.Proofs.Store.Expiry
import BatchStore.Proofs.Store.Refused
import BatchStore.Proofs.Store.Outcomes
import BatchStore.Proofs.Transport.Shuffle
import BatchStore.Proofs.Client.Session
import BatchStore.Proofs.Batch.Requests
import BatchStore.Proofs.Batch.Cluster
import BatchStore.Proofs.Octets.Utf8
import BatchStore.Proofs.Store.Reach
import BatchStore.Proofs.Store.Request
import BatchStore.Proofs.Store.WellFormed
import BatchStore.Proofs.Store.Orderly
import BatchStore.Proofs.Store.Breaks
import BatchStore.Proofs.Store.Pipeline
import BatchStore.Proofs.Number.Bits
import BatchStore.Proofs.Store.RoundTrip
import BatchStore.Proofs.Store.Invariant
import BatchStore.Proofs.Number.Rounding
import BatchStore.Proofs.Number.Scientific
import BatchStore.Proofs.Number.Shortest
import BatchStore.Proofs.Number.Digits
import BatchStore.Proofs.Number.Decimal
import BatchStore.Proofs.Number.Written
import BatchStore.Proofs.Options.Order
import BatchStore.Proofs.Options.Said
import BatchStore.Proofs.Options.Words
import BatchStore.Proofs.Options.Writes
import BatchStore.Proofs.Options.Searches
import BatchStore.Proofs.Options.Transfers
import BatchStore.Proofs.Options.Ranges
import BatchStore.Proofs.Store.Understood
import BatchStore.Proofs.Argument
import BatchStore.Proofs.Batch.Formed
import BatchStore.Proofs.Batch.Typed
import BatchStore.Proofs.Batch.Agreement
import BatchStore.Proofs.Store.Handled
import BatchStore.Proofs.Store.Spelled
import BatchStore.Proofs.Store.OneByOne
import BatchStore.Proofs.Transport.Flush
import BatchStore.Proofs.Transport.Flushes
import BatchStore.Proofs.Transport.Ledger
import BatchStore.Proofs.Transport.Queue
import BatchStore.Proofs.Client.Waiting
import BatchStore.Proofs.Store.Footprint
import BatchStore.Proofs.Store.Exchange
import BatchStore.Proofs.Executor
import BatchStore.Proofs.Client.Aligned
import BatchStore.Proofs.Store.Restored
import BatchStore.Proofs.Store.Restoring
import BatchStore.Proofs.Store.Accepted
import BatchStore.Proofs.Store.Scanning
import BatchStore.Proofs.Sorting
import BatchStore.Proofs.Store.Ranked
import BatchStore.Proofs.Store.IndexRanges
import BatchStore.Proofs.Store.Shrinking
import BatchStore.Proofs.Store.EndRanges
import BatchStore.Proofs.Store.Popping
import BatchStore.Proofs.Store.Transfers
import BatchStore.Proofs.Store.Split
import BatchStore.Proofs.Store.Split.Invariant
import BatchStore.Proofs.Store.Split.Transfers
import BatchStore.Proofs.Number.Nearest
import BatchStore.Proofs.Options.Moments
import BatchStore.Proofs.Options.Lifetimes
import BatchStore.Proofs.Options.LetterCase
import BatchStore.Proofs.Store.Collection
import BatchStore.Proofs.Store.Elements
import BatchStore.Proofs.Store.Maps
import BatchStore.Proofs.Store.Collections
import BatchStore.Proofs.Store.Deeds
import BatchStore.Proofs.Store.Contests
import BatchStore.Proofs.Store.Counters
import BatchStore.Proofs.Store.Occurrences
import BatchStore.Proofs.Store.Libraries
import BatchStore.Proofs.Datum
import BatchStore.Proofs.Client.Readable
import BatchStore.Proofs.Batch.Lifecycle
import BatchStore.Proofs.Store.Kinds
import BatchStore.Proofs.Store.KeptKinds
import BatchStore.Proofs.Store.Places
import BatchStore.Proofs.Store.Cells
