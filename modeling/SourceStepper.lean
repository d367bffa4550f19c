import SourceStepper.Main
import SourceStepper.Proofs.Controller.Run
import SourceStepper.Proofs.Controller.Conservation
import SourceStepper.Proofs.Controller.Promptness
import SourceStepper.Proofs.Controller.Justification
import SourceStepper.Proofs.Controller.Stepping
import SourceStepper.Proofs.Controller.Waiting
import SourceStepper.Proofs.Controller.Release
import SourceStepper.Proofs.Controller.Breakpoints
import SourceStepper.Proofs.Controller.Departure
import SourceStepper.Proofs.Controller.Leftover
import SourceStepper.Proofs.Controller.Callees
import SourceStepper.Proofs.Loader.Mapping
import SourceStepper.Proofs.Terminal.Pairing
import SourceStepper.Proofs.Channel.Usage
import SourceStepper.Proofs.Terminal.Closing
import SourceStepper.Proofs.SourceMap.Inheritance
import SourceStepper.Proofs.Source.Locate
import SourceStepper.Proofs.Loader.Snapshot
import SourceStepper.Proofs.Breakpoint.Sets
import SourceStepper.Proofs.Session.Ending
import SourceStepper.Proofs.Session.Observation
import SourceStepper.Proofs.Config.Saved
import SourceStepper.Proofs.Disassembly.Partition
import SourceStepper.Proofs.Disassembly.Appended
import SourceStepper.Proofs.Source.LineEnds
import SourceStepper.Proofs.Source.Overflow
import SourceStepper.Proofs.Breakpoint.Listing
import SourceStepper.Proofs.Breakpoint.SkipMarks
import SourceStepper.Proofs.Controller.Resolution
import SourceStepper.Proofs.Controller.Frames
import SourceStepper.Proofs.SourceMap.Written
import SourceStepper.Proofs.Source.Union
import SourceStepper.Proofs.Terminal.Queue
import SourceStepper.Proofs.Inspector.Attribution
import SourceStepper.Proofs.Source.Merge
import SourceStepper.Proofs.Artifact.Scan
