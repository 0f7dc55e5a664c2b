import Cpu16.Run.Processor
import Cpu16.Proofs.Run.Bookkeeping
import Cpu16.Proofs.Run.Comparison
import Cpu16.Proofs.Run.DeviceCalls
import Cpu16.Proofs.Run.Families
import Cpu16.Proofs.Run.Progress
import Cpu16.Proofs.Listing.Boundaries
import Cpu16.Proofs.Listing.Readback
import Cpu16.Proofs.Stack.Refinement
import Cpu16.Proofs.Stack.ReservedWord
import Cpu16.Proofs.Stack.RoundTrip
import Cpu16.Proofs.Checked.Step
import Cpu16.Proofs.Step.Locality
import Cpu16.Proofs.Run.CarryChain
import Cpu16.Proofs.Run.Lockstep
import Cpu16.Proofs.Run.Tracing
import Cpu16.Proofs.Run.BorrowChain
import Cpu16.Proofs.Listing.Window
import Cpu16.Proofs.Machine.ByteForm
import Cpu16.Proofs.Run.Loading
import Cpu16.Proofs.Run.Program
import Cpu16.Proofs.Run.CountedLoop
import Cpu16.Proofs.Step.ShiftBits
import Cpu16.Proofs.Run.MemoryAccess
import Cpu16.Proofs.Run.PacingArithmetic
import Cpu16.Proofs.Run.ShiftChain
import Cpu16.Proofs.Run.Waiting
import Cpu16.Proofs.Isa.FlagAlgebra
