import Lvalue.Session
import Lvalue.Proofs.Change
import Lvalue.Proofs.Lockstep
import Lvalue.Proofs.Behaviour
import Lvalue.Proofs.Lockstep.Resolution
import Lvalue.Proofs.Watch
import Lvalue.Proofs.Depth
import Lvalue.Proofs.Integrity
import Lvalue.Proofs.Deletion
import Lvalue.Proofs.Lock
import Lvalue.Proofs.Thing
import Lvalue.Proofs.Custody
import Lvalue.Proofs.Custody.Access
import Lvalue.Proofs.Custody.Command
import Lvalue.Proofs.Custody.Resolution
import Lvalue.Proofs.Ownership
import Lvalue.Proofs.Lifespan
import Lvalue.Proofs.Hiding
import Lvalue.Proofs.Ancestry
import Lvalue.Proofs.Entries
import Lvalue.Proofs.WeakMap
import Lvalue.Proofs.Passing
import Lvalue.Proofs.Filing
import Lvalue.Proofs.PrimitiveReceiver
import Lvalue.Proofs.PrivateState
import Lvalue.Proofs.Invocation
import Lvalue.Proofs.Strictness
import Lvalue.Proofs.Failure
import Lvalue.Proofs.Equality
import Lvalue.Proofs.Map
import Lvalue.Proofs.Assignment
import Lvalue.Proofs.Visibility
import Lvalue.Proofs.Commutation
import Lvalue.Proofs.Staleness
import Lvalue.Proofs.PrimitiveBase
import Lvalue.Proofs.ImplicitGlobal
import Lvalue.Proofs.MemberDeletion
import Lvalue.Proofs.Acquisition
import Lvalue.Proofs.AbstractFailure
import Lvalue.Proofs.Pruning
import Lvalue.Proofs.Completion
import Lvalue.Proofs.Termination
