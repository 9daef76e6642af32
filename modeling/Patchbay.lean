import Patchbay.Call
import Patchbay.Catalog
import Patchbay.Definition.Basic
import Patchbay.Definition.Codec
import Patchbay.Definition.Flaw
import Patchbay.Error
import Patchbay.Event
import Patchbay.Graph.Basic
import Patchbay.Graph.Edit
import Patchbay.Guarded.Basic
import Patchbay.Guarded.Compile
import Patchbay.Guarded.Edit
import Patchbay.Json.Basic
import Patchbay.Json.Reader
import Patchbay.Json.Writer
import Patchbay.Layout
import Patchbay.Linker.Config
import Patchbay.Linker.Error
import Patchbay.Linker.Link
import Patchbay.Linker.Template
import Patchbay.Literal
import Patchbay.Module
import Patchbay.Number.Binary32
import Patchbay.Number.BinaryFormat
import Patchbay.Number.Decimal
import Patchbay.Number.Shortest
import Patchbay.Patch
import Patchbay.Program
import Patchbay.Proofs.Buffering
import Patchbay.Proofs.ByteOrder
import Patchbay.Proofs.Capacity
import Patchbay.Proofs.Chains
import Patchbay.Proofs.Checks
import Patchbay.Proofs.Clearing
import Patchbay.Proofs.Codec
import Patchbay.Proofs.Contents
import Patchbay.Proofs.Dataflow
import Patchbay.Proofs.DeadModules
import Patchbay.Proofs.Defaults
import Patchbay.Proofs.DepthFirst
import Patchbay.Proofs.Documents
import Patchbay.Proofs.Flaws
import Patchbay.Proofs.Guarded
import Patchbay.Proofs.GuardedCompile
import Patchbay.Proofs.Handles
import Patchbay.Proofs.InitialValues
import Patchbay.Proofs.Isolation
import Patchbay.Proofs.Linking
import Patchbay.Proofs.Listing
import Patchbay.Proofs.Machine
import Patchbay.Proofs.Markers
import Patchbay.Proofs.Mirror
import Patchbay.Proofs.Mixdown
import Patchbay.Proofs.Numerals
import Patchbay.Proofs.Outcomes
import Patchbay.Proofs.Quoting
import Patchbay.Proofs.Reachable
import Patchbay.Proofs.Relabel
import Patchbay.Proofs.Removal
import Patchbay.Proofs.Renaming
import Patchbay.Proofs.Retuning
import Patchbay.Proofs.Rewiring
import Patchbay.Proofs.Rounding
import Patchbay.Proofs.Scheduling
import Patchbay.Proofs.Script
import Patchbay.Proofs.Severing
import Patchbay.Proofs.Simulation
import Patchbay.Proofs.StateArray
import Patchbay.Proofs.Substitution
import Patchbay.Proofs.Termination
import Patchbay.Proofs.Tiling
import Patchbay.Proofs.Voice
import Patchbay.Proofs.WalkInvariant
import Patchbay.Proofs.WellFormed
import Patchbay.Proofs.Widening
import Patchbay.Proofs.Wiring
import Patchbay.Schedule.Basic
import Patchbay.Schedule.Walk
import Patchbay.Text.Reader
import Patchbay.Toml.Document
import Patchbay.Toml.Number
import Patchbay.Toml.Text
import Patchbay.Toml.Value
