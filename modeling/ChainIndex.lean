import ChainIndex.Main
import ChainIndex.Follower.Health
import ChainIndex.Rehearsal.Changes
import ChainIndex.Proofs.Store.Contents
import ChainIndex.Proofs.Store.Scanning
import ChainIndex.Proofs.Program.Runs
import ChainIndex.Proofs.Entity.RoundTrip
import ChainIndex.Proofs.Program.Records
import ChainIndex.Proofs.Indexer.Dispatch
import ChainIndex.Proofs.Text.Keys
import ChainIndex.Proofs.Indexer.Coherence
import ChainIndex.Proofs.Indexer.Footprint
import ChainIndex.Proofs.Indexer.Restore
import ChainIndex.Proofs.Indexer.Undo
import ChainIndex.Proofs.Indexer.ApplyOp
import ChainIndex.Proofs.Chain.Built
import ChainIndex.Proofs.Chain.Interrupted
import ChainIndex.Proofs.Chain.Refused
import ChainIndex.Proofs.Follower.Ledger
import ChainIndex.Proofs.Chain.Mirror
import ChainIndex.Proofs.Chain.Tip
import ChainIndex.Proofs.Follower.Attempts
import ChainIndex.Proofs.Follower.Steps
import ChainIndex.Proofs.Follower.Faithful
import ChainIndex.Proofs.Chain.Fork
import ChainIndex.Proofs.Follower.Settled
import ChainIndex.Proofs.Follower.Convergence
import ChainIndex.Proofs.Program.Makes
import ChainIndex.Proofs.Indexer.Writes
import ChainIndex.Proofs.Follower.Legible
import ChainIndex.Proofs.Follower.Hooks
import ChainIndex.Proofs.Follower.Conduct
import ChainIndex.Proofs.Program.Points
import ChainIndex.Proofs.Follower.History
import ChainIndex.Proofs.Follower.WriteAhead
import ChainIndex.Proofs.Follower.Unbroken
import ChainIndex.Proofs.Follower.Ending
import ChainIndex.Proofs.Indexer.Retract
import ChainIndex.Proofs.Follower.Cleanup
import ChainIndex.Proofs.Store.Contract
import ChainIndex.Proofs.Indexer.Reverts
import ChainIndex.Proofs.Chain.Rolled
import ChainIndex.Proofs.Chain.OracleRecords
import ChainIndex.Proofs.Indexer.Recount
import ChainIndex.Proofs.Indexer.Statistics
import ChainIndex.Proofs.Chain.Statistics
import ChainIndex.Proofs.Program.Reading
import ChainIndex.Proofs.Indexer.Pairs
import ChainIndex.Proofs.Chain.Pairs
import ChainIndex.Proofs.Store.Interchange
import ChainIndex.Proofs.Indexer.Schedule
import ChainIndex.Proofs.Entity.Kinds
import ChainIndex.Proofs.Entity.Walk
import ChainIndex.Proofs.Indexer.Unapplied
import ChainIndex.Proofs.Follower.Unapplied
import ChainIndex.Proofs.Chain.Document
import ChainIndex.Proofs.Follower.Deeds
import ChainIndex.Proofs.Follower.Callers
import ChainIndex.Proofs.Entity.GivenBack
import ChainIndex.Proofs.Json.Numbers
import ChainIndex.Proofs.Json.Texts
import ChainIndex.Proofs.Store.Outside
import ChainIndex.Proofs.Store.Texts
import ChainIndex.Proofs.Chain.Tables
import ChainIndex.Proofs.Follower.Resumed
import ChainIndex.Proofs.Command.Shell
import ChainIndex.Proofs.Command.Replays
import ChainIndex.Proofs.Entity.Shapes
import ChainIndex.Proofs.Entity.Drained
import ChainIndex.Proofs.Indexer.Derived
import ChainIndex.Proofs.Indexer.Averages
import ChainIndex.Proofs.Chain.Newest
import ChainIndex.Proofs.Indexer.Resignations
import ChainIndex.Proofs.Chain.Resignations
import ChainIndex.Proofs.Text.Bytes
import ChainIndex.Proofs.Entity.SortOrder
import ChainIndex.Proofs.Entity.Heights
import ChainIndex.Proofs.Entity.Pages
import ChainIndex.Proofs.Indexer.Listing
