import CausalBlocks.Main
import CausalBlocks.Proofs.Block.Asking
import CausalBlocks.Proofs.Block.Compute
import CausalBlocks.Proofs.Block.Failing
import CausalBlocks.Proofs.Dependency.Build
import CausalBlocks.Proofs.Dependency.Flat
import CausalBlocks.Proofs.Dependency.Graph
import CausalBlocks.Proofs.Dependency.Influence
import CausalBlocks.Proofs.Dependency.Order
import CausalBlocks.Proofs.Dependency.Relation
import CausalBlocks.Proofs.Dependency.Validity
import CausalBlocks.Proofs.Diagram.Alike
import CausalBlocks.Proofs.Diagram.Atomicity
import CausalBlocks.Proofs.Diagram.Blueprint
import CausalBlocks.Proofs.Diagram.Clocking
import CausalBlocks.Proofs.Diagram.Cloning
import CausalBlocks.Proofs.Diagram.Consistency
import CausalBlocks.Proofs.Diagram.Construction
import CausalBlocks.Proofs.Diagram.Copies
import CausalBlocks.Proofs.Diagram.Descendants
import CausalBlocks.Proofs.Diagram.Downstream
import CausalBlocks.Proofs.Diagram.Editing
import CausalBlocks.Proofs.Diagram.Filling
import CausalBlocks.Proofs.Diagram.Fitting
import CausalBlocks.Proofs.Diagram.Flattened
import CausalBlocks.Proofs.Diagram.Flattening
import CausalBlocks.Proofs.Diagram.Frame
import CausalBlocks.Proofs.Diagram.FreeInputs
import CausalBlocks.Proofs.Diagram.FreshName
import CausalBlocks.Proofs.Diagram.Growth
import CausalBlocks.Proofs.Diagram.Hierarchy
import CausalBlocks.Proofs.Diagram.Inlining
import CausalBlocks.Proofs.Diagram.Insulation
import CausalBlocks.Proofs.Diagram.Issuing
import CausalBlocks.Proofs.Diagram.Listing
import CausalBlocks.Proofs.Diagram.Lookup
import CausalBlocks.Proofs.Diagram.Naming
import CausalBlocks.Proofs.Diagram.Paths
import CausalBlocks.Proofs.Diagram.Retiming
import CausalBlocks.Proofs.Diagram.Samples
import CausalBlocks.Proofs.Diagram.Signals
import CausalBlocks.Proofs.Diagram.Sources
import CausalBlocks.Proofs.Diagram.Stalling
import CausalBlocks.Proofs.Diagram.Targets
import CausalBlocks.Proofs.Diagram.Thinning
import CausalBlocks.Proofs.Diagram.Undoing
import CausalBlocks.Proofs.Diagram.Validation
import CausalBlocks.Proofs.Diagram.View
import CausalBlocks.Proofs.Diagram.Wiring
import CausalBlocks.Proofs.Event.Locating
import CausalBlocks.Proofs.Event.Narrowing
import CausalBlocks.Proofs.Event.Search
import CausalBlocks.Proofs.Failing
import CausalBlocks.Proofs.Lockstep
import CausalBlocks.Proofs.Loop.Elimination
import CausalBlocks.Proofs.Loop.Equations
import CausalBlocks.Proofs.Loop.Failing
import CausalBlocks.Proofs.Loop.Reading
import CausalBlocks.Proofs.Loop.Regularity
import CausalBlocks.Proofs.Outcome
import CausalBlocks.Proofs.Scalar.Counting
import CausalBlocks.Proofs.Scalar.Exact
import CausalBlocks.Proofs.Scalar.Ordered
import CausalBlocks.Proofs.Scalar.PartialReal
import CausalBlocks.Proofs.Scalar.Rational
import CausalBlocks.Proofs.Schedule.Components
import CausalBlocks.Proofs.Schedule.Rates
import CausalBlocks.Proofs.Schedule.Walk
import CausalBlocks.Proofs.Simulation.Abreast
import CausalBlocks.Proofs.Simulation.Alignment
import CausalBlocks.Proofs.Simulation.Backstage
import CausalBlocks.Proofs.Simulation.Carrying
import CausalBlocks.Proofs.Simulation.Course
import CausalBlocks.Proofs.Simulation.Crossing
import CausalBlocks.Proofs.Simulation.Echoes
import CausalBlocks.Proofs.Simulation.Ending
import CausalBlocks.Proofs.Simulation.Equations
import CausalBlocks.Proofs.Simulation.Evaluation
import CausalBlocks.Proofs.Simulation.Failing
import CausalBlocks.Proofs.Simulation.Firing
import CausalBlocks.Proofs.Simulation.Flattening
import CausalBlocks.Proofs.Simulation.Forgetting
import CausalBlocks.Proofs.Simulation.Inspection
import CausalBlocks.Proofs.Simulation.Insulation
import CausalBlocks.Proofs.Simulation.Iteration
import CausalBlocks.Proofs.Simulation.Offstage
import CausalBlocks.Proofs.Simulation.Overtaking
import CausalBlocks.Proofs.Simulation.Past
import CausalBlocks.Proofs.Simulation.Policies
import CausalBlocks.Proofs.Simulation.Probing
import CausalBlocks.Proofs.Simulation.Progress
import CausalBlocks.Proofs.Simulation.Reachable
import CausalBlocks.Proofs.Simulation.Rearming
import CausalBlocks.Proofs.Simulation.Recurrences
import CausalBlocks.Proofs.Simulation.Reporting
import CausalBlocks.Proofs.Simulation.Restarting
import CausalBlocks.Proofs.Simulation.Scheduling
import CausalBlocks.Proofs.Simulation.Settling
import CausalBlocks.Proofs.Simulation.Silence
import CausalBlocks.Proofs.Simulation.Stepping
import CausalBlocks.Proofs.Simulation.Supplying
import CausalBlocks.Proofs.Simulation.Synchrony
import CausalBlocks.Proofs.Simulation.Tracking
import CausalBlocks.Proofs.Simulation.Twins
import CausalBlocks.Proofs.Simulation.Underway
import CausalBlocks.Proofs.Simulation.Wear
import CausalBlocks.Proofs.Text.Numeral
import CausalBlocks.Proofs.Text.Positional
import CausalBlocks.Proofs.Trace.Delivery
import CausalBlocks.Proofs.Trace.Interleaving
import CausalBlocks.Proofs.Trace.Rows
