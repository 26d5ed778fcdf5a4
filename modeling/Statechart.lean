import Statechart.Bytes.Block
import Statechart.Bytes.LittleEndian
import Statechart.Bytes.Room
import Statechart.Chart.Compile
import Statechart.Chart.Diagnostic
import Statechart.Chart.Digest
import Statechart.Chart.Findings
import Statechart.Chart.Flat
import Statechart.Chart.Graph
import Statechart.Chart.Layout
import Statechart.Chart.Node
import Statechart.Checksum.Crc32
import Statechart.Cli.Arguments
import Statechart.Cli.Folder
import Statechart.Cli.Report
import Statechart.Command.Page
import Statechart.Command.Pool
import Statechart.Digest.Sha256
import Statechart.Event.Basic
import Statechart.Fault
import Statechart.Instance.Basic
import Statechart.Instance.Image
import Statechart.Instance.Queue
import Statechart.Json.Basic
import Statechart.Json.Parser
import Statechart.Json.Printer
import Statechart.Json.Quoted
import Statechart.Kernel.Activity
import Statechart.Kernel.Basic
import Statechart.Kernel.Batch
import Statechart.Kernel.Callbacks
import Statechart.Kernel.Entry
import Statechart.Kernel.Exit
import Statechart.Kernel.Limits
import Statechart.Kernel.Post
import Statechart.Kernel.Selection
import Statechart.Kernel.Tick
import Statechart.Kernel.Timer
import Statechart.Kernel.Transition
import Statechart.Main
import Statechart.Metadata
import Statechart.Name.Hash
import Statechart.Name.Roster
import Statechart.Proofs.Bytes.Parts
import Statechart.Proofs.Chart.Accepted
import Statechart.Proofs.Chart.Allotment
import Statechart.Proofs.Chart.BreadthFirst
import Statechart.Proofs.Chart.Compilation
import Statechart.Proofs.Chart.Configurations
import Statechart.Proofs.Chart.Conflicts
import Statechart.Proofs.Chart.Correspondence
import Statechart.Proofs.Chart.Drawn
import Statechart.Proofs.Chart.Flattening
import Statechart.Proofs.Chart.Hierarchy
import Statechart.Proofs.Chart.Lineage
import Statechart.Proofs.Chart.Naming
import Statechart.Proofs.Chart.Placement
import Statechart.Proofs.Chart.Precedence
import Statechart.Proofs.Chart.Ready
import Statechart.Proofs.Chart.Renaming
import Statechart.Proofs.Chart.Restoring
import Statechart.Proofs.Chart.Runs
import Statechart.Proofs.Chart.Sharing
import Statechart.Proofs.Chart.Sizing
import Statechart.Proofs.Chart.Slots
import Statechart.Proofs.Chart.Strays
import Statechart.Proofs.Chart.Tables
import Statechart.Proofs.Chart.Verdicts
import Statechart.Proofs.Chart.Vocabulary
import Statechart.Proofs.Checksum.Window
import Statechart.Proofs.Command.Log
import Statechart.Proofs.Ends
import Statechart.Proofs.Folds
import Statechart.Proofs.Gathering
import Statechart.Proofs.Instance.Alike
import Statechart.Proofs.Instance.Fields
import Statechart.Proofs.Instance.Handling
import Statechart.Proofs.Instance.Image
import Statechart.Proofs.Instance.Leaves
import Statechart.Proofs.Instance.Mailbox
import Statechart.Proofs.Instance.Queue
import Statechart.Proofs.Instance.Slots
import Statechart.Proofs.Instance.Waiting
import Statechart.Proofs.Kernel.Abiding
import Statechart.Proofs.Kernel.Activity
import Statechart.Proofs.Kernel.Advancing
import Statechart.Proofs.Kernel.Arriving
import Statechart.Proofs.Kernel.Batches
import Statechart.Proofs.Kernel.Budget
import Statechart.Proofs.Kernel.Callees
import Statechart.Proofs.Kernel.Calls
import Statechart.Proofs.Kernel.Carrying
import Statechart.Proofs.Kernel.Choosing
import Statechart.Proofs.Kernel.Chronicle
import Statechart.Proofs.Kernel.Closing
import Statechart.Proofs.Kernel.Conservation
import Statechart.Proofs.Kernel.Containment
import Statechart.Proofs.Kernel.Countdown
import Statechart.Proofs.Kernel.Course
import Statechart.Proofs.Kernel.Endurance
import Statechart.Proofs.Kernel.Entry
import Statechart.Proofs.Kernel.Exchanging
import Statechart.Proofs.Kernel.Exit
import Statechart.Proofs.Kernel.History
import Statechart.Proofs.Kernel.Keeping
import Statechart.Proofs.Kernel.Lanes
import Statechart.Proofs.Kernel.Ledger
import Statechart.Proofs.Kernel.Legality
import Statechart.Proofs.Kernel.Lockstep
import Statechart.Proofs.Kernel.Marching
import Statechart.Proofs.Kernel.Moves
import Statechart.Proofs.Kernel.Opening
import Statechart.Proofs.Kernel.Performing
import Statechart.Proofs.Kernel.Punctual
import Statechart.Proofs.Kernel.Quiet
import Statechart.Proofs.Kernel.Recording
import Statechart.Proofs.Kernel.Recounting
import Statechart.Proofs.Kernel.Regions
import Statechart.Proofs.Kernel.Reloading
import Statechart.Proofs.Kernel.Remembering
import Statechart.Proofs.Kernel.Restarting
import Statechart.Proofs.Kernel.Resuming
import Statechart.Proofs.Kernel.Retaining
import Statechart.Proofs.Kernel.Safety
import Statechart.Proofs.Kernel.Scopes
import Statechart.Proofs.Kernel.Selection
import Statechart.Proofs.Kernel.Spending
import Statechart.Proofs.Kernel.Stays
import Statechart.Proofs.Kernel.Steady
import Statechart.Proofs.Kernel.Steps
import Statechart.Proofs.Kernel.Tick
import Statechart.Proofs.Kernel.Tiers
import Statechart.Proofs.Kernel.Timing
import Statechart.Proofs.Kernel.Traffic
import Statechart.Proofs.Kernel.Transition
import Statechart.Proofs.Kernel.Unfolding
import Statechart.Proofs.Random.Draws
import Statechart.Proofs.Reload.Registry
import Statechart.Proofs.Returns
import Statechart.Proofs.Rom.Ascent
import Statechart.Proofs.Rom.Capacity
import Statechart.Proofs.Rom.Configuration
import Statechart.Proofs.Rom.Corruption
import Statechart.Proofs.Rom.Encoding
import Statechart.Proofs.Rom.Landing
import Statechart.Proofs.Rom.Legal
import Statechart.Proofs.Rom.Loading
import Statechart.Proofs.Rom.RoundTrip
import Statechart.Proofs.Rom.Streams
import Statechart.Proofs.Rom.Topology
import Statechart.Proofs.Rom.Tour
import Statechart.Proofs.Rom.Tree
import Statechart.Proofs.Rom.WellFormed
import Statechart.Proofs.Rom.Widest
import Statechart.Proofs.Rom.Widths
import Statechart.Proofs.Trace.Newest
import Statechart.Proofs.Tracks
import Statechart.Proofs.Yields
import Statechart.Random.Binary32
import Statechart.Random.Xorshift
import Statechart.Reload.Outcome
import Statechart.Reload.Registry
import Statechart.Rom.Definition
import Statechart.Rom.Dump
import Statechart.Rom.Header
import Statechart.Rom.Index
import Statechart.Rom.Record
import Statechart.Rom.Sections
import Statechart.Rom.Shape
import Statechart.Text.Names
import Statechart.Text.Numeral
import Statechart.Text.Palette
import Statechart.Tier
import Statechart.Trace.Listing
import Statechart.Trace.Record
import Statechart.Trace.Ring
import Statechart.Proofs.Json.RoundTrip
import Statechart.Proofs.Sidecar
