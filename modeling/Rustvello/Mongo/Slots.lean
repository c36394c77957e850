import Rustvello.Concurrency.History
import Rustvello.Core.Error
import Mathlib.Data.Finset.Card

/-!
# Slot admission on MongoDB

`try_acquire_concurrency_slot` (`orchestrator/concurrency.rs`) reads the documents of the
argument pairs, counts the invocations that stand in all of them, and enters its own into
each.  The calls in between are made under a lock document that expires after five seconds;
none of the later calls names the lock.

* `tryAcquireConcurrencySlot`, `removeFromConcurrencyIndex` — the operations, call by call;
* `slotMachine` — any number of them by any processes, with a clock that any call may find
  advanced, and a note of who took the lock last and whose invocation was not removed since;
* `Holds` — an invocation was granted a slot, and has not been removed since;
* `undisturbed` — the runs in which nothing is entered under a lock that another operation
  has taken since, and nothing is removed while it is being entered;
* `slots_within_limit` — in these runs the limit is kept;
* `slot_limit_exceeded`, `removal_exceeds_limit` — two invocations hold slots under limit one.
-/

namespace Rustvello.Mongo

open Concurrency Proto Rustvello.Core

/-! ## The collection -/

/-- What identifies one acquisition of the lock: the process, the invocation, and the value
of the process-wide counter. -/
structure LockOwner where
  process : Nat
  invocationId : InvocationId
  sequence : Nat
deriving DecidableEq, Repr

/-- The owner as the lock document has it; the counter is a `u64`. -/
def LockOwner.text (pid : Nat → Nat) (owner : LockOwner) : String :=
  toString (pid owner.process) ++ ":" ++ owner.invocationId.raw ++ ":" ++
    toString (owner.sequence % 2 ^ 64)

structure LockDocument where
  owner : String
  lockedUntil : Nat
deriving DecidableEq, Repr

/-- The concurrency collection, the counters of the processes, and the time in
milliseconds. -/
structure SlotState where
  lock : Option LockDocument := none
  /-- The `invocations` of the document of an argument pair. -/
  documents : String → Option (Finset InvocationId) := fun _ => none
  sequences : Nat → Nat := fun _ => 0
  clock : Nat := 0

/-- `cc_pair_mongo_key`. -/
def ccPairMongoKey (taskId : TaskId) (pair : String × String) : String :=
  taskId.toText ++ "\x1f" ++ pair.1 ++ "\x1f" ++ pair.2

def ccLockTimeoutMs : Nat := 5000

def ccLockAttempts : Nat := 500

inductive LockAnswer where
  | matched
  | upserted
  | duplicateKey
deriving DecidableEq, Repr

/-- The calls of slot admission: on the counter, the clock and the two collections. -/
inductive SlotCall where
  | nextSequence (process : Nat)
  | utcNow
  | updateLock (owner : LockOwner) (now : Nat)
  | findOne (key : String)
  | addToSet (key : String) (id : InvocationId)
  | pullFromAll (id : InvocationId)
  | expireLock (owner : LockOwner)
  | findByTask (taskId : TaskId)
  | countActive (ids : Finset InvocationId)
deriving DecidableEq

abbrev SlotCall.Ret : SlotCall → Type
  | .nextSequence _ => Nat
  | .utcNow => Nat
  | .updateLock _ _ => LockAnswer
  | .findOne _ => Option (Finset InvocationId)
  | .findByTask _ => Finset InvocationId
  | .countActive _ => Nat
  | _ => Unit

abbrev slotCalls : Interface := ⟨SlotCall, SlotCall.Ret⟩

abbrev SlotProg := ExceptT RustvelloError (Prog slotCalls)

/-- How long the call was waited for, and what the status collection answers. -/
structure SlotEnv where
  elapsedMs : Nat := 0
  ofTask : Finset InvocationId := ∅
  active : Nat := 0

namespace SlotState

/-- `update_one` with `upsert`: the filter matches an expired lock, or the owner's own. -/
def updateLock (pid : Nat → Nat) (s : SlotState) (owner : LockOwner) (now : Nat) :
    LockAnswer × SlotState :=
  let locked : SlotState :=
    { s with lock := some ⟨owner.text pid, now + ccLockTimeoutMs⟩ }
  match s.lock with
  | none => (.upserted, locked)
  | some document =>
      if document.lockedUntil ≤ now ∨ document.owner = owner.text pid then (.matched, locked)
      else (.duplicateKey, s)

def addToSet (s : SlotState) (key : String) (id : InvocationId) : SlotState :=
  let members := insert id ((s.documents key).getD ∅)
  { s with documents := Function.update s.documents key (some members) }

def pullFromAll (s : SlotState) (id : InvocationId) : SlotState :=
  { s with documents := fun key => (s.documents key).map fun members => members.erase id }

def expireLock (pid : Nat → Nat) (s : SlotState) (owner : LockOwner) : SlotState :=
  match s.lock with
  | none => s
  | some document =>
      if document.owner = owner.text pid then
        { s with lock := some { document with lockedUntil := 0 } }
      else s

/-- What one call does; time may have passed before it. -/
def exec (pid : Nat → Nat) (env : SlotEnv) : (c : SlotCall) → SlotState → c.Ret × SlotState
  | .nextSequence process, s =>
      (s.sequences process, { s with
        clock := s.clock + env.elapsedMs
        sequences := Function.update s.sequences process (s.sequences process + 1) })
  | .utcNow, s => (s.clock + env.elapsedMs, { s with clock := s.clock + env.elapsedMs })
  | .updateLock owner now, s =>
      updateLock pid { s with clock := s.clock + env.elapsedMs } owner now
  | .findOne key, s => (s.documents key, { s with clock := s.clock + env.elapsedMs })
  | .addToSet key id, s => ((), { s with clock := s.clock + env.elapsedMs }.addToSet key id)
  | .pullFromAll id, s => ((), { s with clock := s.clock + env.elapsedMs }.pullFromAll id)
  | .expireLock owner, s =>
      ((), { s with clock := s.clock + env.elapsedMs }.expireLock pid owner)
  | .findByTask _, s => (env.ofTask, { s with clock := s.clock + env.elapsedMs })
  | .countActive _, s => (env.active, { s with clock := s.clock + env.elapsedMs })

/-- The lock is refused, or taken; nothing else changes. -/
theorem updateLock_cases (pid : Nat → Nat) (s : SlotState) (owner : LockOwner) (now : Nat) :
    updateLock pid s owner now = (.duplicateKey, s) ∨
      ∃ answer s', updateLock pid s owner now = (answer, s') ∧ answer ≠ .duplicateKey ∧
        s'.documents = s.documents ∧ s'.sequences = s.sequences := by
  unfold updateLock
  split
  · exact .inr ⟨_, _, rfl, by decide, rfl, rfl⟩
  · split
    · exact .inr ⟨_, _, rfl, by decide, rfl, rfl⟩
    · exact .inl rfl

theorem expireLock_frame (pid : Nat → Nat) (s : SlotState) (owner : LockOwner) :
    (s.expireLock pid owner).documents = s.documents ∧
      (s.expireLock pid owner).sequences = s.sequences := by
  unfold expireLock
  split
  · exact ⟨rfl, rfl⟩
  · split <;> exact ⟨rfl, rfl⟩

end SlotState

/-! ## The operations -/

/-- The attempts to take the lock; the pause between two of them is not a call. -/
def lockAttempts (owner : LockOwner) : Nat → SlotProg Unit
  | 0 => throw (.infrastructure .timeout "timed out acquiring MongoDB concurrency-control lock")
  | attempts + 1 => do
      let now ← Prog.ask (I := slotCalls) .utcNow
      match ← Prog.ask (I := slotCalls) (.updateLock owner now) with
      | .matched => pure ()
      | .upserted => pure ()
      | .duplicateKey => lockAttempts owner attempts

def acquireConcurrencyLock (process : Nat) (id : InvocationId) : SlotProg LockOwner := do
  let sequence ← Prog.ask (I := slotCalls) (.nextSequence process)
  lockAttempts ⟨process, id, sequence⟩ ccLockAttempts
  pure ⟨process, id, sequence⟩

def releaseConcurrencyLock (owner : LockOwner) : SlotProg Unit :=
  Prog.ask (I := slotCalls) (.expireLock owner)

/-- The invocations found so far that are in one more document. -/
def narrowed : Option (Finset InvocationId) → Finset InvocationId → Finset InvocationId
  | some previous, members => previous ∩ members
  | none, members => members

/-- The invocations in all documents, read one after the other; reading stops as soon as
none is left. -/
def intersectMembers : List String → Option (Finset InvocationId) →
    SlotProg (Option (Finset InvocationId))
  | [], found => pure found
  | key :: rest, found => do
      let document ← Prog.ask (I := slotCalls) (.findOne key)
      let found := narrowed found (document.getD ∅)
      if found = ∅ then pure (some found) else intersectMembers rest (some found)

def addToSets (id : InvocationId) : List String → SlotProg Unit
  | [] => pure ()
  | key :: rest => do
      Prog.ask (I := slotCalls) (.addToSet key id)
      addToSets id rest

def indexForConcurrencyControl (id : InvocationId) (taskId : TaskId) :
    Option SerializedArguments → SlotProg Unit
  | none => pure ()
  | some args => addToSets id (args.ccArgPairs.map (ccPairMongoKey taskId))

def checkRunningConcurrency (taskId : TaskId) (config : TaskConfig)
    (ccArgs : Option SerializedArguments) : SlotProg Bool := do
  let candidates ← match ccArgs with
    | some args => do
        let found ← intersectMembers (args.ccArgPairs.map (ccPairMongoKey taskId)) none
        pure (found.getD ∅)
    | none => Prog.ask (I := slotCalls) (.findByTask taskId)
  if candidates = ∅ then pure (decide (0 < config.limit))
  else
    let count ← Prog.ask (I := slotCalls) (.countActive candidates)
    pure (decide (count < config.limit))

/-- The invocations that count against a newcomer: an entry of its own does not. -/
def othersIn (found : Option (Finset InvocationId)) (id : InvocationId) : Nat :=
  match found with
  | none => 0
  | some members => (members.erase id).card

def tryAcquireConcurrencySlot (process : Nat) (id : InvocationId) (taskId : TaskId)
    (config : TaskConfig) (ccArgs : Option SerializedArguments) : SlotProg Bool :=
  if config.concurrencyControl = .unlimited then do
    indexForConcurrencyControl id taskId ccArgs
    pure true
  else
    match ccArgs with
    | none => checkRunningConcurrency taskId config none
    | some args => do
        let owner ← acquireConcurrencyLock process id
        let intersection ← intersectMembers (args.ccArgPairs.map (ccPairMongoKey taskId)) none
        let result ←
          if othersIn intersection id < config.limit then do
            indexForConcurrencyControl id taskId (some args)
            pure true
          else pure false
        releaseConcurrencyLock owner
        pure result

def removeFromConcurrencyIndex (id : InvocationId) : SlotProg Unit :=
  Prog.ask (I := slotCalls) (.pullFromAll id)

/-! ## The machine -/

inductive SlotTask where
  | acquire (process : Nat) (id : InvocationId) (taskId : TaskId)
      (ccArgs : Option SerializedArguments)
  | remove (id : InvocationId)
deriving DecidableEq

/-- Who took the lock last, and the admissions that are over, granted or not, and whose
invocation has not been removed since. -/
structure SlotNote where
  holder : Option LockOwner := none
  standing : Finset LockOwner := ∅

/-- The last call of an admission lets the lock go. -/
def slotNotes : Observer slotCalls SlotEnv SlotNote where
  look _ env := env
  note n _
    | .updateLock owner _, answer =>
        if answer = .duplicateKey then n else { n with holder := some owner }
    | .expireLock owner, _ => { n with standing := insert owner n.standing }
    | .pullFromAll id, _ =>
        { n with standing := n.standing.filter fun owner => owner.invocationId ≠ id }
    | _, _ => n

/-- Slot admission by processes with the given process ids. -/
abbrev slotMachine (configs : TaskId → TaskConfig) (pid : Nat → Nat) :
    Machine slotCalls (SlotState × SlotNote) SlotEnv SlotTask :=
  (⟨SlotState.exec pid, fun
    | .acquire process id taskId ccArgs =>
        (tryAcquireConcurrencySlot process id taskId (configs taskId) ccArgs).run.toUnit
    | .remove id => (removeFromConcurrencyIndex id).run.toUnit⟩ :
      Machine slotCalls SlotState SlotEnv SlotTask).observed slotNotes

/-- The collection is empty. -/
def noSlots : System slotCalls (SlotState × SlotNote) SlotTask :=
  ⟨({}, {}), []⟩

/-- The invocation stands in the documents of all its pairs. -/
def SlotState.Indexed (s : SlotState) (taskId : TaskId) (args : SerializedArguments)
    (id : InvocationId) : Prop :=
  ∀ pair ∈ args.ccArgPairs, id ∈ (s.documents (ccPairMongoKey taskId pair)).getD ∅

/-! ## What an operation knows -/

/-- The book of an operation: its acquisition of the lock, if it has drawn a number,
whether it has taken the lock and not let it go, the invocations it has seen in every
document read since, and the documents it has entered its own in. -/
structure SlotBook where
  task : SlotTask
  owner : Option LockOwner := none
  locked : Bool := false
  seen : Option (Finset InvocationId) := none
  entered : Finset String := ∅

namespace SlotTask

/-- The invocation an operation is about. -/
def id : SlotTask → InvocationId
  | .acquire _ id _ _ => id
  | .remove id => id

/-- The documents of its key. -/
def keys : SlotTask → List String
  | .acquire _ _ taskId (some args) => args.ccArgPairs.map (ccPairMongoKey taskId)
  | _ => []

/-- The operation enters its invocation without a check. -/
def Unlimited (configs : TaskId → TaskConfig) : SlotTask → Prop
  | .acquire _ _ taskId _ => (configs taskId).concurrencyControl = .unlimited
  | .remove _ => False

def limit (configs : TaskId → TaskConfig) : SlotTask → Nat
  | .acquire _ _ taskId _ => (configs taskId).limit
  | .remove _ => 0

end SlotTask

/-- Documents of the own key are read, and the own invocation is entered, under the lock only
if fewer others than the limit were seen, and without it only if there is no limit. -/
def admission (configs : TaskId → TaskConfig) : Discipline slotCalls SlotTask SlotBook where
  start task := { task }
  next
    | .nextSequence process, sequence, g =>
        { g with owner := some ⟨process, g.task.id, sequence⟩ }
    | .updateLock _ _, answer, g =>
        if answer = .duplicateKey then g
        else { g with locked := true, seen := none, entered := ∅ }
    | .findOne _, document, g => { g with seen := some (narrowed g.seen (document.getD ∅)) }
    | .addToSet key _, _, g => { g with entered := insert key g.entered }
    | .expireLock _, _, g => { g with locked := false }
    | _, _, g => g
  pre
    | .nextSequence _, g => g.owner = none ∧ g.locked = false ∧ g.entered = ∅
    | .updateLock owner _, g => g.owner = some owner
    | .findOne key, g => g.locked = true ∧ key ∈ g.task.keys
    | .addToSet _ id, g => id = g.task.id ∧
        if g.locked then g.seen.isSome ∧ othersIn g.seen id < g.task.limit configs
        else g.task.Unlimited configs
    | .expireLock owner, g => g.owner = some owner ∧ g.locked = true
    | _, _ => True
  resp _ _ _ := True

/-- A call for the task and the key returned `true` for the invocation, which has not been
removed since. -/
def Holds (configs : TaskId → TaskConfig)
    (s : System slotCalls (SlotState × SlotNote) SlotTask) (taskId : TaskId)
    (args : SerializedArguments) (id : InvocationId) : Prop :=
  ∃ t ∈ s.threads, ∃ process, t.task = .acquire process id taskId (some args) ∧
    t.returned (tryAcquireConcurrencySlot process id taskId (configs taskId) (some args)).run =
      some (.ok true) ∧
    ∃ owner ∈ ((admission configs).book t).owner, owner ∈ s.shared.2.standing

section Programs

variable {configs : TaskId → TaskConfig} {task : SlotTask} {owner : LockOwner}
  {E : RustvelloError → SlotBook → Prop}

/-- After the attempts the lock is taken, or the operation has failed. -/
theorem lockAttempts_obeys (attempts : Nat) :
    (admission configs).ObeysE (lockAttempts owner attempts)
      (fun _ g => g = ⟨task, some owner, true, none, ∅⟩) (fun _ _ => True)
      ⟨task, some owner, false, none, ∅⟩ := by
  induction attempts with
  | zero => trivial
  | succ attempts ih =>
      unfold lockAttempts
      rw [Discipline.obeysE_ask_bind]
      refine ⟨trivial, fun now _ => ?_⟩
      rw [Discipline.obeysE_ask_bind]
      refine ⟨rfl, fun answer _ => ?_⟩
      cases answer with
      | matched => exact Discipline.obeysE_pure.mpr rfl
      | upserted => exact Discipline.obeysE_pure.mpr rfl
      | duplicateKey => exact ih

theorem acquireConcurrencyLock_obeys (process : Nat) :
    (admission configs).ObeysE (acquireConcurrencyLock process task.id)
      (fun owner g => g = ⟨task, some owner, true, none, ∅⟩) (fun _ _ => True) { task } := by
  unfold acquireConcurrencyLock
  rw [Discipline.obeysE_ask_bind]
  refine ⟨⟨rfl, rfl, rfl⟩, fun sequence _ => ?_⟩
  refine (lockAttempts_obeys ccLockAttempts).bind ?_
  rintro _ _ rfl
  exact Discipline.obeysE_pure.mpr rfl

/-- What is found is what was seen. -/
theorem intersectMembers_obeys {keys : List String} (hkeys : ∀ key ∈ keys, key ∈ task.keys)
    (found : Option (Finset InvocationId)) (hsome : keys ≠ [] ∨ found.isSome) :
    (admission configs).ObeysE (intersectMembers keys found)
      (fun found' g => g = ⟨task, some owner, true, found', ∅⟩ ∧ found'.isSome) E
      ⟨task, some owner, true, found, ∅⟩ := by
  induction keys generalizing found with
  | nil => exact Discipline.obeysE_pure.mpr ⟨rfl, by simpa using hsome⟩
  | cons key rest ih =>
      rw [List.forall_mem_cons] at hkeys
      unfold intersectMembers
      rw [Discipline.obeysE_ask_bind]
      refine ⟨⟨rfl, hkeys.1⟩, fun document _ => ?_⟩
      dsimp only
      split
      · exact Discipline.obeysE_pure.mpr ⟨rfl, rfl⟩
      · exact ih hkeys.2 _ (.inr rfl)

/-- Entering the own invocation into some documents. -/
theorem addToSets_obeys {g : SlotBook}
    (hpermitted : ∀ key, (admission configs).pre (.addToSet key g.task.id) g) (keys : List String) :
    (admission configs).ObeysE (addToSets g.task.id keys)
      (fun _ g' => ∃ entered, g' = { g with entered := entered } ∧ keys.toFinset ∪ g.entered ⊆ entered)
      E g := by
  induction keys generalizing g with
  | nil => exact Discipline.obeysE_pure.mpr ⟨g.entered, rfl, by simp⟩
  | cons key rest ih =>
      unfold addToSets
      rw [Discipline.obeysE_ask_bind]
      refine ⟨hpermitted key, fun _ _ => ?_⟩
      refine (ih (g := { g with entered := insert key g.entered }) hpermitted).mono ?_ fun _ _ h => h
      rintro _ _ ⟨entered, rfl, hentered⟩
      refine ⟨entered, rfl, ?_⟩
      simpa [Finset.insert_union, Finset.union_insert] using hentered

/-- What a granted slot of a limited task comes with: an entry in all documents. -/
def Entered (configs : TaskId → TaskConfig) (task : SlotTask) (granted : Bool) (g : SlotBook) :
    Prop :=
  granted = true → ¬ task.Unlimited configs → g.task = task ∧ ∀ key ∈ task.keys, key ∈ g.entered

/-- **A slot is taken only after a count below the limit.** -/
theorem tryAcquireConcurrencySlot_obeys (process : Nat) (id : InvocationId) (taskId : TaskId)
    (ccArgs : Option SerializedArguments) :
    (admission configs).ObeysE
      (tryAcquireConcurrencySlot process id taskId (configs taskId) ccArgs)
      (Entered configs (.acquire process id taskId ccArgs)) (fun _ _ => True)
      { task := .acquire process id taskId ccArgs } := by
  unfold tryAcquireConcurrencySlot
  split
  · rename_i hunlimited
    have hindexed : (admission configs).ObeysE (indexForConcurrencyControl id taskId ccArgs)
        (fun _ _ => True) (fun _ _ => True) { task := .acquire process id taskId ccArgs } := by
      cases ccArgs with
      | none => trivial
      | some args =>
          refine (addToSets_obeys (E := fun _ _ => True)
            (g := { task := .acquire process id taskId (some args) }) ?_ _).mono
              (fun _ _ _ => trivial) fun _ _ h => h
          exact fun key => ⟨rfl, hunlimited⟩
    exact hindexed.bind fun _ _ _ _ hlimited => absurd hunlimited hlimited
  · cases ccArgs with
    | none =>
        -- without a key there is nothing to enter
        have hentered : ∀ granted, Entered configs (.acquire process id taskId none) granted
            { task := .acquire process id taskId none } :=
          fun _ _ _ => ⟨rfl, fun key hkey => absurd hkey List.not_mem_nil⟩
        unfold checkRunningConcurrency
        rw [Discipline.obeysE_ask_bind]
        refine ⟨trivial, fun candidates _ => ?_⟩
        dsimp only
        split
        · exact Discipline.obeysE_pure.mpr (hentered _)
        · rw [Discipline.obeysE_ask_bind]
          exact ⟨trivial, fun _ _ => Discipline.obeysE_pure.mpr (hentered _)⟩
    | some args =>
        have hlock : (admission configs).ObeysE (acquireConcurrencyLock process id)
            (fun owner g => g = ⟨.acquire process id taskId (some args), some owner, true, none, ∅⟩)
            (fun _ _ => True) { task := .acquire process id taskId (some args) } :=
          acquireConcurrencyLock_obeys process
        refine hlock.bind ?_
        rintro owner _ rfl
        have hkeys : args.ccArgPairs.map (ccPairMongoKey taskId) ≠ [] := by
          simpa using args.ccArgPairs_ne_nil
        have hread : (admission configs).ObeysE
            (intersectMembers (args.ccArgPairs.map (ccPairMongoKey taskId)) none)
            (fun found g => g =
              ⟨.acquire process id taskId (some args), some owner, true, found, ∅⟩ ∧ found.isSome)
            (fun _ _ => True) ⟨.acquire process id taskId (some args), some owner, true, none, ∅⟩ :=
          intersectMembers_obeys (by exact fun _ h => h) none (.inl hkeys)
        refine hread.bind ?_
        rintro found _ ⟨rfl, hfound⟩
        dsimp only
        split
        · rename_i hbelow
          refine (addToSets_obeys (g := ⟨.acquire process id taskId (some args), some owner, true,
            found, ∅⟩) ?_ _).bind ?_
          · exact fun key => ⟨rfl, hfound, hbelow⟩
          · rintro _ _ ⟨entered, rfl, hentered⟩
            refine ⟨⟨rfl, rfl⟩, fun _ _ _ _ => ⟨rfl, fun key hkey => hentered ?_⟩⟩
            exact Finset.mem_union_left _ (List.mem_toFinset.mpr hkey)
        · exact ⟨⟨rfl, rfl⟩, fun _ _ hgranted => by cases hgranted⟩

end Programs

/-! ## Runs in which the lock holds -/

/-- Every invocation is offered under one task and key, those of its call; whoever enters one
under the lock is the one who took it last; and none is removed between its first entry and the
end of the call that enters it. -/
def undisturbed (configs : TaskId → TaskConfig)
    (key : InvocationId → TaskId × Option SerializedArguments) :
    Guard slotCalls (SlotState × SlotNote) SlotTask where
  start _
    | .acquire _ id taskId ccArgs => key id = (taskId, ccArgs)
    | .remove _ => True
  call s i
    | .addToSet _ _ =>
        ∀ t ∈ s.threads[i]?, ((admission configs).book t).locked = true →
          s.shared.2.holder = ((admission configs).book t).owner
    | .pullFromAll id => ∀ g ∈ s.books (admission configs).toMonitor,
        g.task.id = id → g.locked = true → g.entered = ∅
    | _ => True

instance (configs : TaskId → TaskConfig)
    (key : InvocationId → TaskId × Option SerializedArguments)
    (s : System slotCalls (SlotState × SlotNote) SlotTask) (task : SlotTask) :
    Decidable ((undisturbed configs key).start s task) :=
  match task with
  | .acquire _ _ _ _ => inferInstanceAs (Decidable (_ = _))
  | .remove _ => inferInstanceAs (Decidable True)

instance (configs : TaskId → TaskConfig)
    (key : InvocationId → TaskId × Option SerializedArguments)
    (s : System slotCalls (SlotState × SlotNote) SlotTask) (i : Nat) (c : SlotCall) :
    Decidable ((undisturbed configs key).call s i c) :=
  match c with
  | .addToSet _ _ =>
      inferInstanceAs (Decidable (∀ t ∈ s.threads[i]?, _ = true → s.shared.2.holder = _))
  | .pullFromAll _ => inferInstanceAs (Decidable (∀ g ∈ s.books _, _ → _ → _))
  | .nextSequence _ | .utcNow | .updateLock _ _ | .findOne _ | .expireLock _ | .findByTask _
  | .countActive _ => inferInstanceAs (Decidable True)

/-- An invocation counts for a key if it is its own and it is indexed under it. -/
def CountsFor (key : InvocationId → TaskId × Option SerializedArguments) (s : SlotState)
    (taskId : TaskId) (args : SerializedArguments) (id : InvocationId) : Prop :=
  key id = (taskId, some args) ∧ s.Indexed taskId args id

/-- The limits are kept. -/
def WithinLimits (configs : TaskId → TaskConfig)
    (key : InvocationId → TaskId × Option SerializedArguments) (s : SlotState) : Prop :=
  ∀ taskId args, (configs taskId).concurrencyControl ≠ .unlimited →
    ∀ ids : Finset InvocationId, (∀ id ∈ ids, CountsFor key s taskId args id) →
      ids.card ≤ (configs taskId).limit

/-- While an operation holds the lock of a limited task, it has seen all others that count for
its key. -/
def HasSeen (configs : TaskId → TaskConfig)
    (key : InvocationId → TaskId × Option SerializedArguments)
    (s : SlotState × SlotNote) (g : SlotBook) : Prop :=
  g.locked = true → s.2.holder = g.owner → ∀ process id taskId args,
    g.task = .acquire process id taskId (some args) →
    (configs taskId).concurrencyControl ≠ .unlimited → ∀ seen ∈ g.seen,
      ∀ other, other ≠ id → CountsFor key s.1 taskId args other → other ∈ seen

/-- What an operation has entered under the lock is there until it is over, and then until it is
removed. -/
def Kept (s : SlotState × SlotNote) (g : SlotBook) : Prop :=
  (g.locked = true ∨ ∃ owner ∈ g.owner, owner ∈ s.2.standing) →
    ∀ key ∈ g.entered, g.task.id ∈ (s.1.documents key).getD ∅

/-- What is known of one operation: its task is the one that its invocation is offered under,
it holds the lock under a number it has drawn for it, and no counter will give that number
again. -/
structure Known (key : InvocationId → TaskId × Option SerializedArguments) (s : SlotState)
    (g : SlotBook) : Prop where
  offered : ∀ process id taskId ccArgs, g.task = .acquire process id taskId ccArgs →
    key id = (taskId, ccArgs)
  drawn : g.locked = true → g.owner.isSome
  named : ∀ owner ∈ g.owner, owner.invocationId = g.task.id
  below : ∀ owner ∈ g.owner, owner.sequence < s.sequences owner.process

/-- What holds of the collection and all operations. -/
structure Admits (configs : TaskId → TaskConfig)
    (key : InvocationId → TaskId × Option SerializedArguments)
    (s : SlotState × SlotNote) (books : List SlotBook) : Prop where
  within : WithinLimits configs key s.1
  seen : ∀ g ∈ books, HasSeen configs key s g
  kept : ∀ g ∈ books, Kept s g
  known : ∀ g ∈ books, Known key s.1 g
  distinct : (books.filterMap SlotBook.owner).Nodup

section Steps

variable {configs : TaskId → TaskConfig} {key : InvocationId → TaskId × Option SerializedArguments}
  {s s' : SlotState × SlotNote} {before after : List SlotBook} {g g' : SlotBook} {document : String}
  {id other : InvocationId}

/-- Nobody counts who has not counted before. -/
abbrev FewerCount (key : InvocationId → TaskId × Option SerializedArguments) (s s' : SlotState) :
    Prop :=
  ∀ taskId args id, CountsFor key s' taskId args id → CountsFor key s taskId args id

theorem FewerCount.of_documents {s s' : SlotState} (h : s'.documents = s.documents) :
    FewerCount key s s' := by
  intro taskId args id hcounts
  refine ⟨hcounts.1, fun pair hpair => ?_⟩
  rw [← h]
  exact hcounts.2 pair hpair

theorem WithinLimits.fewer (h : WithinLimits configs key s.1) (hfewer : FewerCount key s.1 s'.1) :
    WithinLimits configs key s'.1 :=
  fun taskId args hlimited ids hids =>
    h taskId args hlimited ids fun id hid => hfewer taskId args id (hids id hid)

theorem HasSeen.fewer (h : HasSeen configs key s g) (hfewer : FewerCount key s.1 s'.1)
    (hholder : s'.2.holder = s.2.holder) : HasSeen configs key s' g :=
  fun hlocked howner process id taskId args htask hlimited seen hseen other hne hcounts =>
    h hlocked (hholder ▸ howner) process id taskId args htask hlimited seen hseen other hne
      (hfewer taskId args other hcounts)

/-- More may be entered elsewhere. -/
theorem Kept.grow (h : Kept s g)
    (hgrow : ∀ document id, id ∈ (s.1.documents document).getD ∅ →
      id ∈ (s'.1.documents document).getD ∅)
    (hstanding : s'.2.standing = s.2.standing) : Kept s' g := by
  intro hopen document hdocument
  rw [hstanding] at hopen
  exact hgrow _ _ (h hopen document hdocument)

/-- Two operations of a pool have not drawn the same number. -/
theorem Admits.owner_ne (h : Admits configs key s (before ++ g :: after)) {b : SlotBook}
    (hb : b ∈ before ++ after) (hsome : g.owner.isSome) : b.owner ≠ g.owner := by
  obtain ⟨owner, howner⟩ := Option.isSome_iff_exists.mp hsome
  have hdistinct := h.distinct
  rw [List.filterMap_append, List.filterMap_cons_some howner] at hdistinct
  intro heq
  rw [howner] at heq
  have hmem : owner ∈ before.filterMap SlotBook.owner ++ after.filterMap SlotBook.owner := by
    rw [← List.filterMap_append]
    exact List.mem_filterMap.mpr ⟨b, hb, heq⟩
  have hperm := List.perm_middle.nodup_iff.mp hdistinct
  exact (List.nodup_cons.mp hperm).1 hmem

/-- One operation has made a call: what has to be shown for its book and for the others. -/
theorem Admits.replace (h : Admits configs key s (before ++ g :: after))
    (hwithin : WithinLimits configs key s'.1)
    (hothers : ∀ b ∈ before ++ after, HasSeen configs key s b → HasSeen configs key s' b)
    (hstill : ∀ b ∈ before ++ after, Known key s.1 b → Kept s b → Kept s' b)
    (hsequences : ∀ process, s.1.sequences process ≤ s'.1.sequences process)
    (hown : HasSeen configs key s' g') (hkept : Kept s' g') (hknown : Known key s'.1 g')
    (hdistinct : ((before ++ g' :: after).filterMap SlotBook.owner).Nodup) :
    Admits configs key s' (before ++ g' :: after) where
  within := hwithin
  seen := forall_replace_mem h.seen hothers hown
  kept := forall_replace_mem (fun b hb => And.intro (h.known b hb) (h.kept b hb))
    (fun b hb hboth => hstill b hb hboth.1 hboth.2) hkept
  known := by
    refine forall_replace h.known (fun b hb => ⟨hb.offered, hb.drawn, hb.named, ?_⟩) hknown
    exact fun owner howner => lt_of_lt_of_le (hb.below owner howner) (hsequences _)
  distinct := hdistinct

/-- A call that enters nobody, takes no lock and draws no number. -/
theorem Admits.quiet (h : Admits configs key s (before ++ g :: after))
    (hfewer : FewerCount key s.1 s'.1) (hholder : s'.2.holder = s.2.holder)
    (hstill : ∀ b ∈ before ++ after, Known key s.1 b → Kept s b → Kept s' b)
    (hsequences : s'.1.sequences = s.1.sequences) (htask : g'.task = g.task)
    (howner : g'.owner = g.owner) (hlocked : g'.locked = true → g.locked = true)
    (hown : HasSeen configs key s' g') (hkept : Kept s' g') :
    Admits configs key s' (before ++ g' :: after) := by
  have hg := h.known g (by simp)
  refine h.replace (h.within.fewer hfewer) (fun b _ hb => hb.fewer hfewer hholder) hstill ?_ hown
    hkept ?_ ?_
  · intro process
    rw [hsequences]
  · refine ⟨?_, ?_, ?_, ?_⟩
    · rw [htask]
      exact hg.offered
    · rw [howner]
      exact fun hheld => hg.drawn (hlocked hheld)
    · rw [howner, htask]
      exact hg.named
    · rw [howner, hsequences]
      exact hg.below
  · have hdistinct := h.distinct
    simp only [List.filterMap_append, List.filterMap_cons] at hdistinct ⊢
    rw [howner]
    exact hdistinct

/-- A call after which documents and notes are as before. -/
theorem Admits.reads (h : Admits configs key s (before ++ g :: after))
    (seen : Option (Finset InvocationId)) (hdocuments : s'.1.documents = s.1.documents)
    (hsequences : s'.1.sequences = s.1.sequences) (hnote : s'.2 = s.2)
    (hown : HasSeen configs key s' { g with seen := seen }) :
    Admits configs key s' (before ++ { g with seen := seen } :: after) := by
  have hkept : ∀ b, Kept s b → Kept s' b := by
    intro b hb
    refine hb.grow (fun document id hid => ?_) (by rw [hnote])
    rwa [hdocuments]
  exact h.quiet (.of_documents hdocuments) (by rw [hnote]) (fun b _ _ hb => hkept b hb) hsequences
    rfl rfl (fun hl => hl) hown (hkept g (h.kept g (by simp)))

/-- Drawing a number. -/
theorem Admits.nextSequence (h : Admits configs key s (before ++ g :: after)) {process : Nat}
    (howner : g.owner = none) (hlocked : g.locked = false) (hentered : g.entered = ∅)
    (hdocuments : s'.1.documents = s.1.documents) (hnote : s'.2 = s.2)
    (hsequences : s'.1.sequences =
      Function.update s.1.sequences process (s.1.sequences process + 1)) :
    Admits configs key s' (before ++
      { g with owner := some ⟨process, g.task.id, s.1.sequences process⟩ } :: after) := by
  have hfewer : FewerCount key s.1 s'.1 := .of_documents hdocuments
  have hgrow : ∀ other, s.1.sequences other ≤ s'.1.sequences other := by
    intro other
    rw [hsequences]
    by_cases hother : other = process
    · subst hother
      simp
    · simp [hother]
  have hg := h.known g (by simp)
  refine h.replace (h.within.fewer hfewer) (fun b _ hb => hb.fewer hfewer (by rw [hnote]))
    (fun b _ _ hb => hb.grow (fun _ _ hid => by rwa [hdocuments]) (by rw [hnote])) hgrow ?_ ?_
    ⟨hg.offered, fun _ => rfl, ?_, ?_⟩ ?_
  · intro hheld
    exact absurd (hlocked.symm.trans hheld) (by decide)
  · intro _ document hdocument
    rw [hentered] at hdocument
    exact absurd hdocument (Finset.notMem_empty _)
  · intro owner hmem
    obtain rfl := Option.some.inj hmem
    rfl
  · intro owner hmem
    obtain rfl := Option.some.inj hmem
    show s.1.sequences process < s'.1.sequences process
    rw [hsequences, Function.update_self]
    exact Nat.lt_succ_self _
  · -- the counter has not given this number before
    have hdistinct := h.distinct
    rw [List.filterMap_append, List.filterMap_cons_none howner,
      ← List.filterMap_append] at hdistinct
    have hdrawn : SlotBook.owner { g with
        owner := some ⟨process, g.task.id, s.1.sequences process⟩ } =
          some ⟨process, g.task.id, s.1.sequences process⟩ := rfl
    rw [List.filterMap_append, List.filterMap_cons_some hdrawn]
    refine List.perm_middle.nodup_iff.mpr (List.nodup_cons.mpr ⟨?_, ?_⟩)
    · rw [← List.filterMap_append]
      intro hmem
      obtain ⟨b, hb, hbowner⟩ := List.mem_filterMap.mp hmem
      exact lt_irrefl _ ((h.known b (mem_of_others hb g)).below _ hbowner)
    · rw [← List.filterMap_append]
      exact hdistinct

/-- Taking the lock. -/
theorem Admits.taken (h : Admits configs key s (before ++ g :: after)) {owner : LockOwner}
    (howner : g.owner = some owner) (hdocuments : s'.1.documents = s.1.documents)
    (hsequences : s'.1.sequences = s.1.sequences) (hholder : s'.2.holder = some owner)
    (hstanding : s'.2.standing = s.2.standing) :
    Admits configs key s'
      (before ++ { g with locked := true, seen := none, entered := ∅ } :: after) := by
  have hg := h.known g (by simp)
  refine h.replace (h.within.fewer (.of_documents hdocuments)) ?_
    (fun b _ _ hb => hb.grow (fun _ _ hid => by rwa [hdocuments]) hstanding) ?_ ?_ ?_
    ⟨hg.offered, ?_, hg.named, ?_⟩ ?_
  · -- the others do not hold it
    intro b hb _ _ hheld
    have hne := h.owner_ne hb (by rw [howner]; rfl)
    exact absurd (hheld.symm.trans hholder) (howner ▸ hne)
  · intro process
    rw [hsequences]
  · intro _ _ process id taskId args _ _ seen hseen
    cases hseen
  · exact fun _ document hdocument => absurd hdocument (Finset.notMem_empty _)
  · intro _
    show g.owner.isSome
    rw [howner]
    rfl
  · rw [hsequences]
    exact hg.below
  · have hdistinct := h.distinct
    simp only [List.filterMap_append, List.filterMap_cons] at hdistinct ⊢
    exact hdistinct

/-- Letting the lock go: what was entered under it stands until it is removed. -/
theorem Admits.released (h : Admits configs key s (before ++ g :: after)) {owner : LockOwner}
    (hpre : (admission configs).pre (.expireLock owner) g)
    (hdocuments : s'.1.documents = s.1.documents) (hsequences : s'.1.sequences = s.1.sequences)
    (hholder : s'.2.holder = s.2.holder) (hstanding : s'.2.standing = insert owner s.2.standing) :
    Admits configs key s' (before ++ { g with locked := false } :: after) := by
  obtain ⟨howner, hlocked⟩ := hpre
  refine h.quiet (.of_documents hdocuments) hholder ?_ hsequences rfl rfl (by simp) ?_ ?_
  · intro b hb _ hkept hopen document hdocument
    rw [hdocuments]
    refine hkept (hopen.imp_right ?_) document hdocument
    rintro ⟨other, hother, hin⟩
    rw [hstanding] at hin
    refine ⟨other, hother, (Finset.mem_insert.mp hin).resolve_left ?_⟩
    -- the owner of another operation
    rintro rfl
    exact h.owner_ne hb (by rw [howner]; rfl) (hother.trans howner.symm)
  · intro hl
    cases hl
  · intro _ document hdocument
    rw [hdocuments]
    exact h.kept g (by simp) (.inl hlocked) document hdocument

/-- Entering changes the standing of one invocation only. -/
theorem countsFor_addToSet {s : SlotState} {taskId : TaskId} {args : SerializedArguments}
    (hne : other ≠ id) (h : CountsFor key (s.addToSet document id) taskId args other) :
    CountsFor key s taskId args other := by
  refine ⟨h.1, fun pair hpair => ?_⟩
  have hin := h.2 pair hpair
  by_cases hdocument : ccPairMongoKey taskId pair = document
  · rw [hdocument] at hin ⊢
    simpa [SlotState.addToSet, hne] using hin
  · simpa [SlotState.addToSet, hdocument] using hin

theorem mem_addToSet {s : SlotState} {document document' : String}
    (h : other ∈ (s.documents document').getD ∅ ∨ document' = document ∧ other = id) :
    other ∈ ((s.addToSet document id).documents document').getD ∅ := by
  by_cases hdocument : document' = document
  · subst hdocument
    simp only [SlotState.addToSet, Function.update_self, Option.getD_some, Finset.mem_insert]
    tauto
  · simpa [SlotState.addToSet, hdocument] using h

/-- **Entering an invocation.**  Under the lock the others were counted, and nobody else can
have entered since. -/
theorem Admits.addToSet (h : Admits configs key s (before ++ g :: after)) {id : InvocationId}
    (hpre : (admission configs).pre (.addToSet document id) g)
    (hheld : g.locked = true → s.2.holder = g.owner)
    (hdocuments : s'.1.documents = (s.1.addToSet document id).documents)
    (hsequences : s'.1.sequences = s.1.sequences) (hnote : s'.2 = s.2) :
    Admits configs key s'
      (before ++ { g with entered := insert document g.entered } :: after) := by
  obtain ⟨hid, hpermitted⟩ := hpre
  have hg := h.known g (by simp)
  have hkept : ∀ taskId args other, other ≠ id → CountsFor key s'.1 taskId args other →
      CountsFor key s.1 taskId args other := fun taskId args other hne hcounts =>
    countsFor_addToSet hne (FewerCount.of_documents (s := s.1.addToSet document id) hdocuments
      taskId args other hcounts)
  -- where the entered invocation counts, there is a limit, and the lock is held
  have hunder : ∀ taskId args, (configs taskId).concurrencyControl ≠ .unlimited →
      key id = (taskId, some args) →
      ∃ process, g.task = .acquire process id taskId (some args) ∧ g.locked = true := by
    intro taskId args hlimited hkey
    cases htask : g.task with
    | remove other =>
        rw [htask] at hpermitted
        split at hpermitted
        · exact absurd hpermitted.2 (Nat.not_lt_zero _)
        · exact hpermitted.elim
    | acquire process own taskId' ccArgs =>
        have hown : id = own := by
          rw [hid, htask]
          rfl
        subst hown
        obtain ⟨rfl, rfl⟩ := Prod.mk.inj ((hg.offered process id taskId' ccArgs htask).symm.trans
          hkey)
        refine ⟨process, rfl, ?_⟩
        by_contra hfree
        rw [if_neg hfree, htask] at hpermitted
        exact hlimited hpermitted
  have hgrow : ∀ document' other, other ∈ (s.1.documents document').getD ∅ →
      other ∈ (s'.1.documents document').getD ∅ := by
    intro document' other hother
    rw [hdocuments]
    exact mem_addToSet (.inl hother)
  refine h.replace ?_ ?_ (fun b _ _ hb => hb.grow hgrow (by rw [hnote]))
    (fun process => by rw [hsequences]) ?_ ?_ ⟨hg.offered, hg.drawn, hg.named, ?_⟩ ?_
  · intro taskId args hlimited ids hids
    by_cases hmem : id ∈ ids
    · obtain ⟨process, htask, hlocked⟩ := hunder taskId args hlimited (hids id hmem).1
      rw [if_pos hlocked, htask] at hpermitted
      obtain ⟨hseen, hbelow⟩ := hpermitted
      obtain ⟨seen, hseen⟩ := Option.isSome_iff_exists.mp hseen
      rw [hseen] at hbelow
      have hsubset : ids.erase id ⊆ seen.erase id := by
        intro other hother
        obtain ⟨hne, hother⟩ := Finset.mem_erase.mp hother
        refine Finset.mem_erase.mpr ⟨hne, ?_⟩
        exact h.seen g (by simp) hlocked (hheld hlocked) process id taskId args htask hlimited seen
          hseen other hne (hkept taskId args other hne (hids other hother))
      have hcard := Finset.card_le_card hsubset
      have herase := Finset.card_erase_of_mem hmem
      simp only [othersIn, SlotTask.limit] at hbelow
      omega
    · refine h.within taskId args hlimited ids fun other hother => ?_
      exact hkept taskId args other (fun heq => hmem (heq ▸ hother)) (hids other hother)
  · intro b hb hseen hlocked howner process own taskId args htask hlimited seen hmem other hne hcounts
    by_cases hother : other = id
    · subst hother
      obtain ⟨_, -, hheldBy⟩ := hunder taskId args hlimited hcounts.1
      have hdifferent := h.owner_ne hb (hg.drawn hheldBy)
      exact absurd (howner.symm.trans (hnote ▸ hheld hheldBy)) hdifferent
    · exact hseen hlocked (hnote ▸ howner) process own taskId args htask hlimited seen hmem other
        hne (hkept taskId args other hother hcounts)
  · intro hlocked howner process own taskId args htask hlimited seen hmem other hne hcounts
    have hown : id = own := by
      rw [hid, htask]
      rfl
    exact h.seen g (by simp) hlocked (hnote ▸ howner) process own taskId args htask hlimited seen
      hmem other hne (hkept taskId args other (hown ▸ hne) hcounts)
  · intro hopen document' hentered
    rcases Finset.mem_insert.mp hentered with rfl | hentered
    · rw [hdocuments]
      exact mem_addToSet (.inr ⟨rfl, hid.symm⟩)
    · exact hgrow _ _ (h.kept g (by simp) (hnote ▸ hopen) document' hentered)
  · rw [hsequences]
    exact hg.below
  · have hdistinct := h.distinct
    simp only [List.filterMap_append, List.filterMap_cons] at hdistinct ⊢
    exact hdistinct

/-- Reading one more document of the own key. -/
theorem HasSeen.findOne (h : HasSeen configs key s g) (hkey : document ∈ g.task.keys)
    (hdocuments : s'.1.documents = s.1.documents) (hholder : s'.2.holder = s.2.holder) :
    HasSeen configs key s'
      { g with seen := some (narrowed g.seen ((s.1.documents document).getD ∅)) } := by
  intro hlocked howner process id taskId args htask hlimited seen hseen other hne hcounts
  have hbefore : CountsFor key s.1 taskId args other :=
    FewerCount.of_documents hdocuments taskId args other hcounts
  obtain rfl := Option.some.inj hseen
  have htask' : g.task = .acquire process id taskId (some args) := htask
  rw [htask'] at hkey
  obtain ⟨pair, hpair, rfl⟩ := List.mem_map.mp hkey
  have hin := hbefore.2 pair hpair
  cases hprevious : g.seen with
  | none => exact hin
  | some previous =>
      refine Finset.mem_inter.mpr ⟨?_, hin⟩
      exact h hlocked (hholder ▸ howner) process id taskId args htask hlimited previous hprevious
        other hne hbefore

theorem mem_pullFromAll {s : SlotState} :
    other ∈ ((s.pullFromAll id).documents document).getD ∅ ↔
      other ≠ id ∧ other ∈ (s.documents document).getD ∅ := by
  simp only [SlotState.pullFromAll]
  cases s.documents document <;> simp

/-- Removing an invocation takes it out of every document, and enters nobody. -/
theorem Admits.pulled (h : Admits configs key s (before ++ g :: after)) {id : InvocationId}
    (hfree : ∀ b ∈ before ++ g :: after, b.task.id = id → b.locked = true → b.entered = ∅)
    (hdocuments : s'.1.documents = (s.1.pullFromAll id).documents)
    (hsequences : s'.1.sequences = s.1.sequences) (hholder : s'.2.holder = s.2.holder)
    (hstanding : s'.2.standing = s.2.standing.filter fun owner => owner.invocationId ≠ id) :
    Admits configs key s' (before ++ g :: after) := by
  have hfewer : FewerCount key s.1 s'.1 := by
    intro taskId args other hcounts
    refine ⟨hcounts.1, fun pair hpair => ?_⟩
    have hin := hcounts.2 pair hpair
    rw [hdocuments] at hin
    exact (mem_pullFromAll.mp hin).2
  have hstill : ∀ b ∈ before ++ g :: after, Kept s b → Kept s' b := by
    intro b hb hkept hopen document hdocument
    -- whoever keeps its entries after the removal is not the one that was removed
    have hold : (b.locked = true ∨ ∃ owner ∈ b.owner, owner ∈ s.2.standing) ∧ b.task.id ≠ id := by
      rcases hopen with hlocked | ⟨owner, howner, hin⟩
      · refine ⟨.inl hlocked, fun hid => ?_⟩
        rw [hfree b hb hid hlocked] at hdocument
        exact absurd hdocument (Finset.notMem_empty _)
      · rw [hstanding] at hin
        obtain ⟨hin, hother⟩ := Finset.mem_filter.mp hin
        rw [(h.known b hb).named owner howner] at hother
        exact ⟨.inr ⟨owner, howner, hin⟩, hother⟩
    rw [hdocuments]
    exact mem_pullFromAll.mpr ⟨hold.2, hkept hold.1 document hdocument⟩
  exact h.quiet hfewer hholder (fun b hb _ hkept => hstill b (mem_of_others hb g) hkept) hsequences
    rfl rfl (fun hl => hl) ((h.seen g (by simp)).fewer hfewer hholder) (hstill g (by simp)
      (h.kept g (by simp)))

end Steps

/-! ## The limit -/

section Limit

variable {configs : TaskId → TaskConfig} {pid : Nat → Nat}
  {key : InvocationId → TaskId × Option SerializedArguments}

/-- An operation starts with an empty book. -/
theorem known_start {s : SlotState} {task : SlotTask}
    (h : ∀ process id taskId ccArgs, task = .acquire process id taskId ccArgs →
      key id = (taskId, ccArgs)) : Known key s { task } where
  offered := h
  drawn hlocked := by cases hlocked
  named _ howner := by cases howner
  below _ howner := by cases howner

/-- **The step.**  Every call that the guard allows keeps the limits and what is known. -/
theorem admits_call {s : SlotState × SlotNote} {before after : List SlotBook}
    {g : SlotBook} (h : Admits configs key s (before ++ g :: after)) (env : SlotEnv)
    {c : SlotCall} (hpre : (admission configs).pre c g)
    (hheld : ∀ document id, c = .addToSet document id → g.locked = true → s.2.holder = g.owner)
    (hfree : ∀ id, c = .pullFromAll id → ∀ b ∈ before ++ g :: after,
      b.task.id = id → b.locked = true → b.entered = ∅) :
    Admits configs key ((slotMachine configs pid).exec env c s).2
      (before ++ (admission configs).next c ((slotMachine configs pid).exec env c s).1 g ::
        after) := by
  have hseen := h.seen g (by simp)
  cases c with
  | nextSequence process =>
      exact h.nextSequence hpre.1 hpre.2.1 hpre.2.2 rfl rfl rfl
  | updateLock owner now =>
      rcases SlotState.updateLock_cases pid { s.1 with clock := s.1.clock + env.elapsedMs } owner
        now with hrefused | ⟨answer, s', htaken, hanswer, hdocuments, hsequences⟩
      · simp only [Machine.observed, SlotState.exec, hrefused, slotNotes, admission, if_true]
        exact h.reads g.seen rfl rfl rfl (hseen.fewer (.of_documents rfl) rfl)
      · simp only [Machine.observed, SlotState.exec, htaken, slotNotes, admission, if_neg hanswer]
        exact h.taken hpre hdocuments hsequences rfl rfl
  | findOne document => exact h.reads _ rfl rfl rfl (hseen.findOne hpre.2 rfl rfl)
  | addToSet document id => exact h.addToSet hpre (hheld document id rfl) rfl rfl rfl
  | pullFromAll id => exact h.pulled (hfree id rfl) rfl rfl rfl rfl
  | expireLock owner =>
      obtain ⟨hdocuments, hsequences⟩ := SlotState.expireLock_frame pid
        { s.1 with clock := s.1.clock + env.elapsedMs } owner
      exact h.released hpre hdocuments hsequences rfl rfl
  | utcNow | findByTask | countActive =>
      exact h.reads g.seen rfl rfl rfl (hseen.fewer (.of_documents rfl) rfl)

theorem admits_upheld : (admission configs).Upheld (fun _ => True) (Admits configs key)
    (slotMachine configs pid) (undisturbed configs key) noSlots where
  program _ task _ := by
    cases task with
    | acquire process id taskId ccArgs =>
        exact Discipline.Obeys.toUnit
          (Discipline.Obeys.mono (tryAcquireConcurrencySlot_obeys process id taskId ccArgs)
            fun _ _ _ => trivial)
    | remove id => exact ⟨trivial, fun _ _ => trivial⟩
  obey t ht := absurd ht List.not_mem_nil
  logs t ht := absurd ht List.not_mem_nil
  holds := by
    refine ⟨?_, ?_, ?_, ?_, List.nodup_nil⟩
    · intro taskId args _ ids hids
      refine le_of_eq_of_le (Finset.card_eq_zero.mpr (Finset.eq_empty_of_forall_notMem ?_))
        (Nat.zero_le _)
      intro id hid
      obtain ⟨pair, hpair⟩ := List.exists_mem_of_ne_nil _ args.ccArgPairs_ne_nil
      exact absurd ((hids id hid).2 pair hpair) (Finset.notMem_empty _)
    all_goals exact fun g hg => absurd hg List.not_mem_nil
  start s task hallowed h := by
    have hkey : ∀ process id taskId ccArgs, task = .acquire process id taskId ccArgs →
        key id = (taskId, ccArgs) := by
      rintro process id taskId ccArgs rfl
      exact hallowed
    refine ⟨h.within, List.forall_mem_append.mpr ⟨h.seen, List.forall_mem_singleton.mpr ?_⟩,
      List.forall_mem_append.mpr ⟨h.kept, List.forall_mem_singleton.mpr ?_⟩,
      List.forall_mem_append.mpr ⟨h.known, List.forall_mem_singleton.mpr (known_start hkey)⟩, ?_⟩
    · intro hlocked
      cases hlocked
    · exact fun _ document hdocument => absurd hdocument (Finset.notMem_empty _)
    · rw [List.filterMap_append]
      simpa [admission] using h.distinct
  call s i env t c before after hturn h := by
    refine ⟨trivial, admits_call h env hturn.permitted ?_ ?_⟩
    · rintro document id rfl
      exact hturn.allowed t hturn.thread
    · rintro id rfl b hb
      rw [← hturn.books] at hb
      exact hturn.allowed b hb

/-- **The limit.**  In every run in which invocations are entered under the lock only by the
operation that took it last, and are not removed while they are being entered, at most as many
of them as the limit have been granted a slot for a key and not been removed since. -/
theorem slots_within_limit {s : System slotCalls (SlotState × SlotNote) SlotTask}
    (hreach : Reachable (slotMachine configs pid) (undisturbed configs key) noSlots s)
    (taskId : TaskId) (args : SerializedArguments)
    (hlimited : (configs taskId).concurrencyControl ≠ .unlimited) {ids : Finset InvocationId}
    (hids : ∀ id ∈ ids, Holds configs s taskId args id) : ids.card ≤ (configs taskId).limit := by
  have hup := @admits_upheld configs pid key
  obtain ⟨-, hadmits⟩ := hup.obeyed hreach
  refine hadmits.within taskId args hlimited ids fun id hid => ?_
  obtain ⟨t, ht, process, htask, hreturned, owner, howner, hstanding⟩ := hids id hid
  have hbook : (admission configs).book t ∈ s.books (admission configs).toMonitor :=
    List.mem_map_of_mem ht
  have hobeys : (admission configs).Obeys
      (tryAcquireConcurrencySlot process id taskId (configs taskId) (some args)).run
      (Discipline.Outcome (Entered configs (.acquire process id taskId (some args)))
        fun _ _ => True) ((admission configs).start t.task) := by
    rw [htask]
    exact tryAcquireConcurrencySlot_obeys process id taskId (some args)
  -- a call that returned `true` entered every document of its key, and these entries stand
  obtain ⟨hsame, hentered⟩ := hup.outcome hreach ht hobeys hreturned rfl hlimited
  refine ⟨(hadmits.known _ hbook).offered process id taskId (some args) hsame, fun pair hpair => ?_⟩
  have hkept := hadmits.kept _ hbook (.inr ⟨owner, howner, hstanding⟩)
    (ccPairMongoKey taskId pair) (hentered _ (List.mem_map_of_mem hpair))
  rwa [hsame] at hkept

end Limit

/-! ## An expired lock, and a removal too early -/

def syncTask : TaskId := ⟨.rust, "app", "sync"⟩

/-- One invocation at a time. -/
def oneSlot : TaskConfig := { concurrencyControl := .task, runningConcurrency := some 1 }

/-- Process and invocation `n` ask for a slot. -/
def askFor (args : SerializedArguments) (n : Nat) : SlotTask :=
  .acquire n ⟨toString n⟩ syncTask (some args)

/-- Invocation `n` was granted its slot and not removed since, and is in the index, under one
pair at least. -/
def HoldsSlot (args : SerializedArguments)
    (s : System slotCalls (SlotState × SlotNote) SlotTask) (n : Nat) : Prop :=
  (∃ t ∈ s.threads, t.task = askFor args n ∧ t.returned
      (tryAcquireConcurrencySlot n ⟨toString n⟩ syncTask oneSlot (some args)).run =
        some (.ok true) ∧
      ∃ owner ∈ ((admission fun _ => oneSlot).book t).owner, owner ∈ s.shared.2.standing) ∧
    ∃ pair ∈ args.ccArgPairs,
      ⟨toString n⟩ ∈ (s.shared.1.documents (ccPairMongoKey syncTask pair)).getD ∅

instance (args : SerializedArguments) (s : System slotCalls (SlotState × SlotNote) SlotTask)
    (n : Nat) : Decidable (HoldsSlot args s n) :=
  inferInstanceAs (Decidable ((∃ t ∈ s.threads, _ ∧ _ ∧ ∃ owner ∈ _, _) ∧ ∃ pair ∈ _, _))

theorem HoldsSlot.holds {args : SerializedArguments}
    {s : System slotCalls (SlotState × SlotNote) SlotTask} {n : Nat} (h : HoldsSlot args s n) :
    Holds (fun _ => oneSlot) s syncTask args ⟨toString n⟩ := by
  obtain ⟨⟨t, ht, htask, hrest⟩, -⟩ := h
  exact ⟨t, ht, n, htask, hrest⟩

/-- No time passes. -/
def promptly : SlotEnv := { elapsedMs := 0 }

/-- A slot is asked for and granted, and a second one refused. -/
theorem slots_within_limit_alone :
    ∃ s, Reachable (slotMachine (fun _ => oneSlot) id)
        (undisturbed (fun _ => oneSlot) fun _ => (syncTask, some .empty)) noSlots s ∧
      HoldsSlot .empty s 0 ∧ ({⟨toString 0⟩} : Finset InvocationId).card ≤ oneSlot.limit := by
  obtain ⟨s, hreach, hholds⟩ := Reachable.exists_of_run (slotMachine (fun _ => oneSlot) id)
    (undisturbed (fun _ => oneSlot) fun _ => (syncTask, some .empty)) noSlots
    (.start (askFor .empty 0) :: Label.steps 0 6 promptly ++
      .start (askFor .empty 1) :: Label.steps 1 5 promptly)
    (fun s => HoldsSlot .empty s 0) (by decide +kernel) (by decide +kernel)
  refine ⟨s, hreach, hholds, slots_within_limit hreach syncTask .empty (by decide) ?_⟩
  intro id hid
  obtain rfl := Finset.mem_singleton.mp hid
  exact hholds.holds

/-- Two invocations hold the one slot of a key. -/
def Exceeds (args : SerializedArguments)
    (s : System slotCalls (SlotState × SlotNote) SlotTask) : Prop :=
  ∃ ids : Finset InvocationId, oneSlot.limit < ids.card ∧ ∀ id ∈ ids,
    Holds (fun _ => oneSlot) s syncTask args id ∧ ∃ pair ∈ args.ccArgPairs,
      id ∈ (s.shared.1.documents (ccPairMongoKey syncTask pair)).getD ∅

theorem exceeds_of_run (args : SerializedArguments) (ls : List (Label SlotEnv SlotTask))
    (hrun : (System.run (slotMachine (fun _ => oneSlot) id) noSlots ls).any
      (fun s => decide (HoldsSlot args s 0 ∧ HoldsSlot args s 1)) = true) :
    ∃ s, Reachable (slotMachine (fun _ => oneSlot) id) (Guard.top _ _ _) noSlots s ∧
      Exceeds args s := by
  obtain ⟨s, hreach, hfirst, hsecond⟩ := Reachable.exists_of_run (slotMachine (fun _ => oneSlot) id)
    (Guard.top _ _ _) noSlots ls (fun s => HoldsSlot args s 0 ∧ HoldsSlot args s 1)
    (Guard.allowsAll_top _ _ _) hrun
  refine ⟨s, hreach, {⟨toString 0⟩, ⟨toString 1⟩}, by decide, ?_⟩
  intro id hid
  rcases Finset.mem_insert.mp hid with rfl | hid
  · exact ⟨hfirst.holds, hfirst.2⟩
  · obtain rfl := Finset.mem_singleton.mp hid
    exact ⟨hsecond.holds, hsecond.2⟩

/-- **Two slots where one is allowed.**  The first operation pauses before it enters its
invocation; six seconds later the second one takes the lock over, enters its own, and the first
goes on. -/
theorem slot_limit_exceeded :
    ∃ s, Reachable (slotMachine (fun _ => oneSlot) id) (Guard.top _ _ _) noSlots s ∧
      Exceeds .empty s :=
  exceeds_of_run .empty
    ([.start (askFor .empty 0), .start (askFor .empty 1)] ++ Label.steps 0 4 promptly ++
      [.step 1 promptly, .step 1 { elapsedMs := 6000 }] ++ Label.steps 1 4 promptly ++
      Label.steps 0 2 promptly) (by decide +kernel)

def twoPairs : SerializedArguments := ⟨[("city", "1"), ("day", "2")], by decide⟩

/-- **A removal between two entries.**  Under the lock, with no time passing: the first
invocation is removed after its first entry, and only the second one is left, where the next
operation does not look. -/
theorem removal_exceeds_limit :
    ∃ s, Reachable (slotMachine (fun _ => oneSlot) id) (Guard.top _ _ _) noSlots s ∧
      Exceeds twoPairs s :=
  exceeds_of_run twoPairs
    (.start (askFor twoPairs 0) :: Label.steps 0 5 promptly ++
      .start (.remove ⟨toString 0⟩) :: Label.steps 1 1 promptly ++ Label.steps 0 2 promptly ++
      .start (askFor twoPairs 1) :: Label.steps 2 7 promptly) (by decide +kernel)

end Rustvello.Mongo
