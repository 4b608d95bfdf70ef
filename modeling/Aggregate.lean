import Aggregate.Trace.Code
import Aggregate.Key.Basic
import Aggregate.Settings.Document
import Aggregate.Optional.Program
import Aggregate.Twin.Program
import Aggregate.Lock.Code
import Aggregate.SharedLock.Program
import Aggregate.Execution.Workload
import Aggregate.Proofs.Trace.Path
import Aggregate.Proofs.Trace.Arithmetic
import Aggregate.Proofs.Trace.Shadow
import Aggregate.Proofs.Trace.Representation
import Aggregate.Proofs.Trace.Runs
import Aggregate.Proofs.Trace.Restoration
import Aggregate.Proofs.Execution.HandOut
import Aggregate.Proofs.Binary.Rounding
import Aggregate.Proofs.Decimal.Positional
import Aggregate.Proofs.Settings.RoundTrip
import Aggregate.Proofs.Execution.Counting
import Aggregate.Lock.Threads
import Aggregate.Proofs.Lock.Exclusion
import Aggregate.Proofs.Lock.Alone
import Aggregate.Proofs.Trace.Folding
import Aggregate.Proofs.Trace.Salted
import Aggregate.Proofs.Trace.Iteration
import Aggregate.Proofs.Trace.Faithful
import Aggregate.Proofs.Execution.Progress
import Aggregate.Proofs.Trace.Nesting
import Aggregate.Proofs.Trace.Stray
import Aggregate.Proofs.Settings.Republish
import Aggregate.Proofs.Settings.Layout
import Aggregate.Proofs.Execution.Stopping
import Aggregate.SharedLock.Contexts
import Aggregate.Proofs.SharedLock.Exclusion
import Aggregate.Proofs.SharedLock.Programs
import Aggregate.Execution.Race
import Aggregate.Proofs.Execution.Racing
import Aggregate.Lock.Routine
import Aggregate.Proofs.Lock.Disabled
import Aggregate.Proofs.Lock.Programs
import Aggregate.Proofs.Trace.Equality
import Aggregate.Proofs.Trace.Limit
import Aggregate.Proofs.Optional.Programs
import Aggregate.Proofs.Twin.Layouts
import Aggregate.Proofs.Trace.Siblings
import Aggregate.Proofs.Trace.Salting
import Aggregate.Proofs.Trace.Digits
import Aggregate.Proofs.Trace.Operations
import Aggregate.Proofs.Trace.Caught
import Aggregate.Proofs.Digest.Locations
import Aggregate.Proofs.Digest.Keys
import Aggregate.Proofs.Execution.Panicking
import Aggregate.Proofs.Trace.Cycles
import Aggregate.Proofs.Settings.Compatibility
import Aggregate.Proofs.Projection
