import StatusShell.CommandLine
import StatusShell.Console
import StatusShell.Grammar.Cursor
import StatusShell.Main
import StatusShell.Proofs.CursorLimit
import StatusShell.Proofs.Frames
import StatusShell.Proofs.LayoutReading
import StatusShell.Proofs.Reports
import StatusShell.Proofs.Simplification
import StatusShell.Session
import StatusShell.Proofs.Lockstep
import StatusShell.Proofs.Opacity
import StatusShell.Proofs.Interchange
import StatusShell.Proofs.Listings
import StatusShell.Proofs.Locality
import StatusShell.Proofs.Concatenation
import StatusShell.Proofs.Encoding
import StatusShell.Proofs.Sessions
import StatusShell.Proofs.Loops
import StatusShell.Proofs.Display
import StatusShell.Proofs.Unrolling
import StatusShell.Proofs.Conclusions
import StatusShell.Proofs.Iterations
import StatusShell.Proofs.Placement
import StatusShell.Proofs.Walk
import StatusShell.Proofs.Fuel
import StatusShell.Proofs.KeywordLines
import StatusShell.Proofs.Parentheses
import StatusShell.Proofs.Spelling
import StatusShell.Proofs.Outcomes
import StatusShell.Proofs.ProcessLog
import StatusShell.Proofs.Height
import StatusShell.Proofs.Displacement
import StatusShell.Proofs.Progress
