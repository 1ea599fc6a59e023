import Reassembly.Provider
import Reassembly.Trace.Tracing
import Reassembly.Value.Dump
import Reassembly.Value.Json
import Reassembly.Workspace.Basic
import Reassembly.Session
import Reassembly.Proofs.Feeding
import Reassembly.Proofs.Segments
import Reassembly.Proofs.Coalescing
import Reassembly.Proofs.ByValue
import Reassembly.Proofs.Expansion
import Reassembly.Proofs.Formed
import Reassembly.Proofs.Maps
import Reassembly.Proofs.Counters
import Reassembly.Proofs.Records
import Reassembly.Proofs.Parallel
import Reassembly.Proofs.Rechunk
import Reassembly.Proofs.Refold
import Reassembly.Proofs.Returned
import Reassembly.Proofs.Folded
import Reassembly.Proofs.Resume
import Reassembly.Proofs.RoundTrip
import Reassembly.Proofs.Endings
import Reassembly.Proofs.Parts
import Reassembly.Proofs.Regions
import Reassembly.Proofs.Carried
import Reassembly.Proofs.Steady
import Reassembly.Proofs.Bench
import Reassembly.Proofs.Streams
import Reassembly.Proofs.Isolation
import Reassembly.Proofs.Untouched
import Reassembly.Proofs.Additions
import Reassembly.Proofs.Turns
import Reassembly.Proofs.Tidy
import Reassembly.Proofs.Checks
import Reassembly.Proofs.Placing
import Reassembly.Proofs.Upkeep
import Reassembly.Proofs.Workshop
import Reassembly.Proofs.Unfailing
import Reassembly.Proofs.WrittenOut
import Reassembly.Proofs.Restored
import Reassembly.Proofs.Dumps
import Reassembly.Proofs.Scenes
import Reassembly.Proofs.Spans
import Reassembly.Proofs.Leading
import Reassembly.Proofs.Calls
import Reassembly.Proofs.Batches
import Reassembly.Proofs.Meetings
import Reassembly.Proofs.Moves
import Reassembly.Proofs.Interleaving
import Reassembly.Proofs.Stretches
import Reassembly.Proofs.Runs
import Reassembly.Proofs.Merging
import Reassembly.Proofs.Pieces
import Reassembly.Proofs.Losses
import Reassembly.Proofs.Influence
import Reassembly.Proofs.Aliases
import Reassembly.Proofs.Entrywise
import Reassembly.Proofs.Sums
import Reassembly.Proofs.Figures
import Reassembly.Proofs.Totals
import Reassembly.Proofs.Adding
import Reassembly.Proofs.Metadata
import Reassembly.Proofs.Fields
import Reassembly.Proofs.Walk
import Reassembly.Proofs.Reports
import Reassembly.Proofs.Texts
import Reassembly.Proofs.Transcripts
import Reassembly.Proofs.Progression
