import LockTrace.AscMap
import LockTrace.Block
import LockTrace.Command.Arguments
import LockTrace.Command.Files
import LockTrace.Command.LogPath
import LockTrace.Command.Run
import LockTrace.Command.Work
import LockTrace.Conversion
import LockTrace.Conversion.File
import LockTrace.Event
import LockTrace.Fatal
import LockTrace.Folder
import LockTrace.Folder.Device
import LockTrace.Folder.Path
import LockTrace.Gzip.Bits
import LockTrace.Gzip.Huffman
import LockTrace.Gzip.Inflate
import LockTrace.Gzip.Member
import LockTrace.Gzip.Unpacker
import LockTrace.Heap
import LockTrace.Inconsistency
import LockTrace.Journal
import LockTrace.Json.Printer
import LockTrace.Json.Reader
import LockTrace.Json.Value
import LockTrace.Lock.Basic
import LockTrace.Lock.Side
import LockTrace.Lock.Store
import LockTrace.Log
import LockTrace.Main
import LockTrace.Moment
import LockTrace.Moment.Format
import LockTrace.Monitor.Basic
import LockTrace.Monitor.Closing
import LockTrace.Monitor.Step
import LockTrace.Monitor.Writing
import LockTrace.Numbering
import LockTrace.Proofs.AccessRows
import LockTrace.Proofs.Accounts
import LockTrace.Proofs.Acquisitions
import LockTrace.Proofs.AddressLookups
import LockTrace.Proofs.AllocationRows
import LockTrace.Proofs.AscMap
import LockTrace.Proofs.Attribution
import LockTrace.Proofs.Calls
import LockTrace.Proofs.Changes
import LockTrace.Proofs.Closings
import LockTrace.Proofs.Commuting
import LockTrace.Proofs.Conservation
import LockTrace.Proofs.Deliveries
import LockTrace.Proofs.Faithful
import LockTrace.Proofs.Faults
import LockTrace.Proofs.Following
import LockTrace.Proofs.FreedRanges
import LockTrace.Proofs.HeldListings
import LockTrace.Proofs.HeldRows
import LockTrace.Proofs.HeldStarts
import LockTrace.Proofs.Immediacy
import LockTrace.Proofs.InStep
import LockTrace.Proofs.InternalReports
import LockTrace.Proofs.Intervals
import LockTrace.Proofs.LastClosings
import LockTrace.Proofs.Ledger
import LockTrace.Proofs.LeftAside
import LockTrace.Proofs.LegalTraces
import LockTrace.Proofs.Lifetimes
import LockTrace.Proofs.LineByLine
import LockTrace.Proofs.LineGrammar
import LockTrace.Proofs.Lines
import LockTrace.Proofs.LiveLocks
import LockTrace.Proofs.LockKeys
import LockTrace.Proofs.LockLifetimes
import LockTrace.Proofs.LockReferences
import LockTrace.Proofs.LockRows
import LockTrace.Proofs.LookBehind
import LockTrace.Proofs.Mirrors
import LockTrace.Proofs.Moves
import LockTrace.Proofs.NumeralGrammar
import LockTrace.Proofs.Numerals
import LockTrace.Proofs.OneSided
import LockTrace.Proofs.Openings
import LockTrace.Proofs.Operations
import LockTrace.Proofs.OwnUpdates
import LockTrace.Proofs.Pairs
import LockTrace.Proofs.Positions
import LockTrace.Proofs.Preemption
import LockTrace.Proofs.Purging
import LockTrace.Proofs.References
import LockTrace.Proofs.Releases
import LockTrace.Proofs.Renaming
import LockTrace.Proofs.Reopenings
import LockTrace.Proofs.Roster
import LockTrace.Proofs.RosterSteps
import LockTrace.Proofs.RoundTrip
import LockTrace.Proofs.Sessions
import LockTrace.Proofs.Stacks
import LockTrace.Proofs.Stopping
import LockTrace.Proofs.Summaries
import LockTrace.Proofs.SymbolLookups
import LockTrace.Proofs.TableTexts
import LockTrace.Proofs.Tallies
import LockTrace.Proofs.Thinning
import LockTrace.Proofs.Tilings
import LockTrace.Proofs.TraceTexts
import LockTrace.Proofs.Tracks
import LockTrace.Proofs.Truncation
import LockTrace.Proofs.TxnRows
import LockTrace.Proofs.UnmatchedReleases
import LockTrace.Proofs.Unwinding
import LockTrace.Proofs.WrittenTxns
import LockTrace.Record
import LockTrace.Session.Basic
import LockTrace.Session.Delivery
import LockTrace.Sink
import LockTrace.Summary
import LockTrace.Summary.Json
import LockTrace.Symbols
import LockTrace.Symbols.Listing
import LockTrace.Table
import LockTrace.Table.Block
import LockTrace.Text.Blank
import LockTrace.Text.Bytes
import LockTrace.Text.Columns
import LockTrace.Text.Numeral
import LockTrace.Text.Search
import LockTrace.Trace.Feed
import LockTrace.Trace.Printer
import LockTrace.Trace.Reader
import LockTrace.Trace.Row
import LockTrace.Transaction
import LockTrace.Writing
