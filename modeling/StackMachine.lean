import StackMachine.Config.Document
import StackMachine.Host.Session
import StackMachine.Proofs.OperandStack
import StackMachine.Proofs.CallStack
import StackMachine.Proofs.Heap
import StackMachine.Proofs.Effect
import StackMachine.Proofs.Moves
import StackMachine.Proofs.Codec
import StackMachine.Proofs.Run
import StackMachine.Proofs.Atomicity
import StackMachine.Proofs.Safety
import StackMachine.Proofs.Handles
import StackMachine.Proofs.Isolation
import StackMachine.Proofs.Local
import StackMachine.Proofs.Slices
import StackMachine.Proofs.Budget
import StackMachine.Proofs.Listing
import StackMachine.Proofs.Accounts
import StackMachine.Proofs.ObjectMap
import StackMachine.Proofs.References
import StackMachine.Proofs.Provenance
import StackMachine.Proofs.Limits
import StackMachine.Proofs.Lifecycle
import StackMachine.Proofs.StraightLine
import StackMachine.Proofs.HostFloor
import StackMachine.Proofs.Faults
import StackMachine.Proofs.Session
import StackMachine.Proofs.Calls
import StackMachine.Proofs.StackEffect
import StackMachine.Proofs.Causes
import StackMachine.Proofs.Integers
import StackMachine.Proofs.Lifo
import StackMachine.Proofs.Statistics
import StackMachine.Proofs.Equality
import StackMachine.Proofs.Density
import StackMachine.Proofs.Indexing
import StackMachine.Proofs.Ordering
import StackMachine.Proofs.Reader
import StackMachine.Proofs.Settings
import StackMachine.Proofs.Inspection
