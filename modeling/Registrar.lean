import Registrar.Binary.Cursor
import Registrar.Main
import Registrar.Proofs.RuleOrder
import Registrar.Proofs.OffsetTables
import Registrar.Proofs.Registrations
import Registrar.Proofs.Constants
import Registrar.Proofs.ClassFiles
import Registrar.Proofs.Rewriting
import Registrar.Proofs.Paths
import Registrar.Proofs.Interference
import Registrar.Proofs.Turns
import Registrar.Proofs.Schedules
import Registrar.Proofs.Isolation
import Registrar.Proofs.Scanning
import Registrar.Proofs.Frames
import Registrar.Proofs.Linking
import Registrar.Proofs.Carrying
import Registrar.Proofs.Requests
import Registrar.Proofs.FailedRules
import Registrar.Proofs.Registered
import Registrar.Proofs.Acceptance
import Registrar.Proofs.Safety
import Registrar.Proofs.OperandStack
import Registrar.Proofs.StackSizes
import Registrar.Proofs.Automata
import Registrar.Proofs.Brackets
import Registrar.Proofs.Enclosing
import Registrar.Proofs.HeaderWalks
import Registrar.Proofs.Overloads
import Registrar.Proofs.Repetitions
import Registrar.Proofs.Sweeps
import Registrar.Proofs.WholeNames
import Registrar.Proofs.Boundaries
import Registrar.Proofs.Listings
import Registrar.Proofs.Sparing
import Registrar.Proofs.Receivers
