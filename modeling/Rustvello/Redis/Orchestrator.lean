import Rustvello.Redis.Server

/-!
# Waiting relations on Redis

`get_waiters` and `get_blocking_invocations` of the Redis orchestrator, for any sets.  One
set per waited-on invocation holds its waiters; nothing records what a waiter waits on,
so the query scans the sets for that.
-/

namespace Rustvello.Redis

open Proto Rustvello.Core

namespace Keyspace

variable (ks : Keyspace)

/-- `SMEMBERS orch:waiters:<id>` -/
def getWaiters (id : InvocationId) : List InvocationId :=
  (ks.waiters.lookup id).getD []

/-- What `SCAN` may answer: every set that exists, in some order, some perhaps twice. -/
def ScansWaiters (scanned : List InvocationId) : Prop :=
  ∀ id, id ∈ scanned ↔ ks.getWaiters id ≠ []

/-- The statuses that the query takes for runnable. -/
def blockingStatus (status : InvocationStatus) : Bool :=
  decide (status = .registered ∨ status = .pending)

/-- The scanned invocations that are members of no scanned set and have such a status; the
loop stops as soon as there are `maxNum`. -/
def getBlockingInvocations (scanned : List InvocationId) (maxNum : Nat) : List InvocationId :=
  let selfWaiting := scanned.flatMap ks.getWaiters
  (scanned.filter fun id => decide (id ∉ selfWaiting) &&
    (ks.status.lookup id).any fun record => blockingStatus record.status).take maxNum

end Keyspace

end Rustvello.Redis
