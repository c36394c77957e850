import Rustvello.Redis.Changes
import Rustvello.Concurrency.History

/-!
# The concurrency index on Redis

`concurrency.rs` of `rustvello-redis`.  A pair set holds the invocations that occupy an
argument pair, and the reverse set of an invocation lists its pair sets, so that a release
finds them.  Acquisition is one script; indexing and removal are commands one after the
other, each for itself atomic, and a client may stop between two of them.

* `SlotCall`, `execSlot` — the commands, and a client that stops;
* `indexForConcurrencyControl`, `tryAcquireConcurrencySlot`, `removeFromConcurrencyIndex` —
  the calls;
* `Awaited` — a call is about to list a pair;
* `keepsListed` — a reverse set is deleted when the invocation is in no pair set any more but
  awaited ones, and no client stops when a pair waits for it alone to be listed;
* `tracked_of_keepsListed` — in these runs no pair set is without its reverse entry at rest;
* `slot_lost` — in others one is, and no removal finds it.
-/

namespace Rustvello.Redis

open Concurrency Proto Rustvello.Core Keyspace

/-! ## Commands -/

/-- One command or script of a client. -/
inductive SlotCall where
  /-- `SMEMBERS orch:task_inv:<task>` -/
  | taskMembers (client : Nat) (taskId : TaskId)
  /-- `MGET` of status records -/
  | statuses (client : Nat) (ids : List InvocationId)
  /-- `SADD orch:cc:<pair> id` -/
  | addToPair (client : Nat) (key : Word) (id : InvocationId)
  /-- `SADD orch:cc_rev:<id> pair` -/
  | addToReverse (client : Nat) (id : InvocationId) (key : Word)
  /-- `SMEMBERS orch:cc_rev:<id>` -/
  | reverseMembers (client : Nat) (id : InvocationId)
  /-- `SREM orch:cc:<pair> id` -/
  | removeFromPair (client : Nat) (key : Word) (id : InvocationId)
  /-- `DEL orch:cc_rev:<id>` -/
  | deleteReverse (client : Nat) (id : InvocationId)
  /-- The script of `try_acquire_concurrency_slot`. -/
  | acquire (client : Nat) (keys : List Word) (id : InvocationId) (limit : Nat)
  /-- The client stops; its calls are over. -/
  | stop (client : Nat)
deriving DecidableEq

namespace SlotCall

abbrev Ans : SlotCall → Type
  | taskMembers .. => RustvelloResult (List InvocationId)
  | statuses .. => RustvelloResult (List (Option InvocationStatus))
  | addToPair .. => RustvelloResult Unit
  | addToReverse .. => RustvelloResult Unit
  | reverseMembers .. => RustvelloResult (List Word)
  | removeFromPair .. => RustvelloResult Unit
  | deleteReverse .. => RustvelloResult Unit
  | acquire .. => RustvelloResult Bool
  | stop _ => Unit

def client : SlotCall → Nat
  | taskMembers client _ | statuses client _ | addToPair client .. | addToReverse client ..
  | reverseMembers client _ | removeFromPair client .. | deleteReverse client _
  | acquire client .. | stop client => client

end SlotCall

def slotCalls : Interface :=
  ⟨SlotCall, SlotCall.Ans⟩

/-- The keys, and the clients that have stopped. -/
structure SlotServer where
  keys : Keyspace := {}
  stopped : List Nat := []

/-- What a step does not determine: the order of a set's members, the invocations of a task
and their statuses, which other calls keep. -/
structure SlotEnv where
  order : List Word → List Word
  perm : ∀ words, (order words).Perm words
  taskMembers : List InvocationId
  statuses : List (Option InvocationStatus)

namespace Keyspace

variable (ks : Keyspace)

/-- The invocations in a pair set. -/
def pairMembers (key : Word) : List InvocationId :=
  (ks.cc.lookup key).getD []

/-- The pair sets that a reverse set lists. -/
def reverseMembers (id : InvocationId) : List Word :=
  (ks.ccReverse.lookup id).getD []

/-- Members of all pair sets but the invocation itself. -/
def otherHolders (keys : List Word) (id : InvocationId) : List InvocationId :=
  match keys with
  | [] => []
  | key :: rest => (ks.pairMembers key).filter fun holder =>
      decide (holder ≠ id) && rest.all fun other => decide (holder ∈ ks.pairMembers other)

/-- Enter an invocation in pair sets and its reverse set. -/
def addToPairs (keys : List Word) (id : InvocationId) : Keyspace :=
  { ks with
    cc := keys.foldl (fun sets key => sadd sets key id) ks.cc
    ccReverse := keys.foldl (fun sets key => sadd sets id key) ks.ccReverse }

def acquireScript (keys : List Word) (id : InvocationId) (limit : Nat) : Bool × Keyspace :=
  if (ks.otherHolders keys id).length < limit then (true, ks.addToPairs keys id)
  else (false, ks)

end Keyspace

/-- The error of a command that is not answered. -/
def commandLost : RustvelloError :=
  .stateBackend "Redis: connection lost"

/-- A command of a client that has not stopped. -/
def execCommand (env : SlotEnv) : (c : SlotCall) → SlotServer → c.Ans × SlotServer
  | .taskMembers .., s => (.ok env.taskMembers, s)
  | .statuses .., s => (.ok env.statuses, s)
  | .addToPair _ key id, s =>
      (.ok (), { s with keys := { s.keys with cc := sadd s.keys.cc key id } })
  | .addToReverse _ id key, s =>
      (.ok (), { s with keys := { s.keys with ccReverse := sadd s.keys.ccReverse id key } })
  | .reverseMembers _ id, s => (.ok (env.order (s.keys.reverseMembers id)), s)
  | .removeFromPair _ key id, s =>
      (.ok (), { s with keys := { s.keys with cc := srem s.keys.cc key id } })
  | .deleteReverse _ id, s =>
      (.ok (), { s with keys := { s.keys with ccReverse := s.keys.ccReverse.erase id } })
  | .acquire _ keys id limit, s =>
      let answer := s.keys.acquireScript keys id limit
      (.ok answer.1, { s with keys := answer.2 })
  | .stop client, s => ((), { s with stopped := client :: s.stopped })

/-- The answer to a command of a stopped client. -/
def SlotCall.lost : (c : SlotCall) → c.Ans
  | taskMembers .. | statuses .. | addToPair .. | addToReverse .. | reverseMembers ..
  | removeFromPair .. | deleteReverse .. | acquire .. => .error commandLost
  | stop _ => ()

def execSlot (env : SlotEnv) (c : SlotCall) (s : SlotServer) : c.Ans × SlotServer :=
  if c.client ∈ s.stopped then (c.lost, s) else execCommand env c s

/-! ## Calls -/

abbrev SlotProg (α : Type) :=
  ExceptT RustvelloError (Prog slotCalls) α


section Calls

variable (client : Nat)

def addToPair (key : Word) (id : InvocationId) : SlotProg Unit :=
  ExceptT.mk (Prog.request (I := slotCalls) (.addToPair client key id))

def addToReverse (id : InvocationId) (key : Word) : SlotProg Unit :=
  ExceptT.mk (Prog.request (I := slotCalls) (.addToReverse client id key))

def readReverse (id : InvocationId) : SlotProg (List Word) :=
  ExceptT.mk (Prog.request (I := slotCalls) (.reverseMembers client id))

def removeFromPair (key : Word) (id : InvocationId) : SlotProg Unit :=
  ExceptT.mk (Prog.request (I := slotCalls) (.removeFromPair client key id))

def deleteReverse (id : InvocationId) : SlotProg Unit :=
  ExceptT.mk (Prog.request (I := slotCalls) (.deleteReverse client id))

/-- The loop of `index_for_concurrency_control`. -/
def indexKeys (id : InvocationId) : List Word → SlotProg Unit
  | [] => pure ()
  | key :: rest => do
      addToPair client key id
      addToReverse client id key
      indexKeys id rest

/-- The keys of the pair sets of some arguments. -/
def pairKeys (taskId : TaskId) (args : SerializedArguments) : List Word :=
  args.ccArgPairs.map (ccKey taskId)

/-- `index_for_concurrency_control` -/
def indexForConcurrencyControl (id : InvocationId) (taskId : TaskId) :
    Option SerializedArguments → SlotProg Unit
  | none => pure ()
  | some args => indexKeys client id (pairKeys taskId args)

/-- The loop of `remove_from_concurrency_index`. -/
def removeKeys (id : InvocationId) : List Word → SlotProg Unit
  | [] => pure ()
  | key :: rest => do
      removeFromPair client key id
      removeKeys id rest

/-- `remove_from_concurrency_index` -/
def removeFromConcurrencyIndex (id : InvocationId) : SlotProg Unit := do
  let keys ← readReverse client id
  removeKeys client id keys
  if keys.isEmpty then pure () else deleteReverse client id

/-- `check_running_concurrency` without arguments: the running invocations of the task. -/
def checkRunningTask (taskId : TaskId) (config : TaskConfig) : SlotProg Bool := do
  let candidates ← ExceptT.mk (Prog.request (I := slotCalls) (.taskMembers client taskId))
  if candidates.isEmpty then return decide (0 < config.limit)
  let statuses ← ExceptT.mk (Prog.request (I := slotCalls) (.statuses client candidates))
  return decide ((statuses.filter fun status =>
    decide (status = some .pending ∨ status = some .running)).length < config.limit)

/-- `try_acquire_concurrency_slot` -/
def tryAcquireConcurrencySlot (id : InvocationId) (taskId : TaskId) (config : TaskConfig)
    (ccArgs : Option SerializedArguments) : SlotProg Bool :=
  if config.concurrencyControl = .unlimited then do
    indexForConcurrencyControl client id taskId ccArgs
    return true
  else match ccArgs with
    | none => checkRunningTask client taskId config
    | some args => ExceptT.mk (Prog.request (I := slotCalls)
        (.acquire client (pairKeys taskId args) id config.limit))

end Calls

/-- The calls of clients, and clients that stop. -/
inductive SlotTask where
  | index (client : Nat) (id : InvocationId) (taskId : TaskId)
      (ccArgs : Option SerializedArguments)
  | acquire (client : Nat) (id : InvocationId) (taskId : TaskId) (config : TaskConfig)
      (ccArgs : Option SerializedArguments)
  | remove (client : Nat) (id : InvocationId)
  | stop (client : Nat)
deriving DecidableEq

namespace SlotTask

def client : SlotTask → Nat
  | index client .. | acquire client .. | remove client _ | stop client => client

def program : SlotTask → Prog slotCalls Unit
  | index client id taskId ccArgs =>
      (indexForConcurrencyControl client id taskId ccArgs).run.toUnit
  | acquire client id taskId config ccArgs =>
      (tryAcquireConcurrencySlot client id taskId config ccArgs).run.toUnit
  | remove client id => (removeFromConcurrencyIndex client id).run.toUnit
  | stop client => Prog.request (I := slotCalls) (.stop client)

end SlotTask

def slotMachine : Machine slotCalls SlotServer SlotEnv SlotTask where
  exec := execSlot
  program := SlotTask.program

abbrev SlotSystem := System slotCalls SlotServer SlotTask

/-- An empty index, and no call. -/
def noSlots : SlotSystem :=
  ⟨{}, []⟩

/-- No call is in progress: each is finished, or its client has stopped. -/
def AtRest (s : SlotSystem) : Prop :=
  ∀ t ∈ s.threads, t.next? = none ∨ t.task.client ∈ s.shared.stopped

instance : DecidablePred AtRest :=
  fun _ => inferInstanceAs (Decidable (∀ t ∈ _, _ ∨ _))

/-- A call in progress is about to list a pair set in the reverse set. -/
def Awaited (s : SlotSystem) (key : Word) (id : InvocationId) : Prop :=
  ∃ t ∈ s.threads, ∃ client, client ∉ s.shared.stopped ∧
    t.next? = some (SlotCall.addToReverse client id key)

/-- A reverse set is deleted when the invocation is in no pair set but awaited ones; and no
client stops while a pair waits for it alone to be listed. -/
def keepsListed : Guard slotCalls SlotServer SlotTask where
  start _ _ := True
  call s _ c :=
    match c with
    | SlotCall.deleteReverse client id => client ∉ s.shared.stopped →
        ∀ key, id ∈ s.shared.keys.pairMembers key → Awaited s key id
    | SlotCall.stop client =>
        ∀ id key, id ∈ s.shared.keys.pairMembers key →
          key ∈ s.shared.keys.reverseMembers id ∨
            ∃ t ∈ s.threads, ∃ other, other ≠ client ∧ other ∉ s.shared.stopped ∧
              t.next? = some (SlotCall.addToReverse other id key)
    | _ => True

/-! ## Sets -/

section Sets

variable {K A : Type} [DecidableEq K] [DecidableEq A]

theorem mem_sadd (sets : Table K (List A)) (key k : K) (a b : A) :
    b ∈ ((sadd sets key a).lookup k).getD [] ↔
      b ∈ (sets.lookup k).getD [] ∨ (k = key ∧ b = a) := by
  unfold sadd
  by_cases hk : k = key
  · subst hk
    rw [AList.lookup_insert, Option.getD_some]
    by_cases ha : a ∈ (sets.lookup k).getD []
    · rw [if_pos ha]
      constructor
      · exact .inl
      · rintro (hb | ⟨-, rfl⟩)
        · exact hb
        · exact ha
    · rw [if_neg ha]
      simp
  · rw [AList.lookup_insert_ne hk]
    simp [hk]

theorem mem_foldl_sadd_key (keys : List K) (sets : Table K (List A)) (k : K) (a b : A) :
    b ∈ ((keys.foldl (fun sets key => sadd sets key a) sets).lookup k).getD [] ↔
      b ∈ (sets.lookup k).getD [] ∨ (k ∈ keys ∧ b = a) := by
  induction keys generalizing sets with
  | nil => simp
  | cons key rest ih =>
      rw [List.foldl_cons, ih, mem_sadd, List.mem_cons]
      tauto

theorem mem_foldl_sadd (items : List A) (sets : Table K (List A)) (k key : K) (b : A) :
    b ∈ ((items.foldl (fun sets a => sadd sets key a) sets).lookup k).getD [] ↔
      b ∈ (sets.lookup k).getD [] ∨ (k = key ∧ b ∈ items) := by
  induction items generalizing sets with
  | nil => simp
  | cons a rest ih =>
      rw [List.foldl_cons, ih, mem_sadd, List.mem_cons]
      tauto

end Sets

/-! ## The books -/

/-- Who makes the call, and the entry of a pair set it has still to list. -/
structure SlotBook where
  client : Nat
  pending : Option (Word × InvocationId)
deriving DecidableEq

/-- After an entry in a pair set the call lists it in the reverse set, before anything else. -/
def slotBooks : Discipline slotCalls SlotTask SlotBook where
  start task := ⟨task.client, none⟩
  next c r g :=
    match c, r with
    | SlotCall.addToPair _ key id, Except.ok () => ⟨g.client, some (key, id)⟩
    | _, _ => ⟨g.client, none⟩
  pre c g := SlotCall.client c = g.client ∧
    match c with
    | SlotCall.addToReverse _ id key => g.pending = some (key, id)
    | _ => g.pending = none
  resp _ _ _ := True

/-- A call ends with nothing left to list. -/
def Settled (client : Nat) (g : SlotBook) : Prop :=
  g = ⟨client, none⟩

/-- A book keeps the client of its task. -/
theorem client_book (t : Thread slotCalls SlotTask) :
    (slotBooks.book t).client = t.task.client := by
  refine slotBooks.book_field SlotBook.client (fun c r g => ?_) t
  cases c with
  | addToPair => cases r <;> rfl
  | _ => rfl

section Programs

variable (client : Nat) (id : InvocationId) (taskId : TaskId)

theorem indexKeys_settles (keys : List Word) :
    slotBooks.ObeysE (indexKeys client id keys) (fun _ => Settled client)
      (fun _ => Settled client) ⟨client, none⟩ := by
  induction keys with
  | nil => exact Discipline.obeysE_pure.mpr rfl
  | cons key rest ih =>
      refine Discipline.obeysE_bind.mpr ⟨⟨rfl, rfl⟩, ?_⟩
      rintro (e | ⟨⟩) -
      · exact rfl
      · refine Discipline.obeysE_bind.mpr ⟨⟨rfl, rfl⟩, ?_⟩
        rintro (e | ⟨⟩) -
        · exact rfl
        · exact ih

theorem indexForConcurrencyControl_settles (ccArgs : Option SerializedArguments) :
    slotBooks.ObeysE (indexForConcurrencyControl client id taskId ccArgs)
      (fun _ => Settled client) (fun _ => Settled client) ⟨client, none⟩ := by
  cases ccArgs with
  | none => exact Discipline.obeysE_pure.mpr rfl
  | some args => exact indexKeys_settles client id _

theorem removeKeys_settles (keys : List Word) :
    slotBooks.ObeysE (removeKeys client id keys) (fun _ => Settled client)
      (fun _ => Settled client) ⟨client, none⟩ := by
  induction keys with
  | nil => exact Discipline.obeysE_pure.mpr rfl
  | cons key rest ih =>
      refine Discipline.obeysE_bind.mpr ⟨⟨rfl, rfl⟩, ?_⟩
      rintro (e | ⟨⟩) -
      · exact rfl
      · exact ih

theorem removeFromConcurrencyIndex_settles :
    slotBooks.ObeysE (removeFromConcurrencyIndex client id) (fun _ => Settled client)
      (fun _ => Settled client) ⟨client, none⟩ := by
  refine Discipline.obeysE_bind.mpr ⟨⟨rfl, rfl⟩, ?_⟩
  rintro (e | keys) -
  · exact rfl
  · refine Discipline.ObeysE.bind (removeKeys_settles client id keys) ?_
    rintro - g rfl
    split
    · exact rfl
    · refine ⟨⟨rfl, rfl⟩, ?_⟩
      rintro (e | ⟨⟩) - <;> exact rfl

theorem checkRunningTask_settles (config : TaskConfig) :
    slotBooks.ObeysE (checkRunningTask client taskId config) (fun _ => Settled client)
      (fun _ => Settled client) ⟨client, none⟩ := by
  refine Discipline.obeysE_bind.mpr ⟨⟨rfl, rfl⟩, ?_⟩
  rintro (e | candidates) -
  · exact rfl
  · show slotBooks.ObeysE (ite _ _ _) _ _ _
    split
    · exact rfl
    · refine Discipline.obeysE_bind.mpr ⟨⟨rfl, rfl⟩, ?_⟩
      rintro (e | statuses) - <;> exact rfl

theorem tryAcquireConcurrencySlot_settles (config : TaskConfig)
    (ccArgs : Option SerializedArguments) :
    slotBooks.ObeysE (tryAcquireConcurrencySlot client id taskId config ccArgs)
      (fun _ => Settled client) (fun _ => Settled client) ⟨client, none⟩ := by
  unfold tryAcquireConcurrencySlot
  split
  · refine Discipline.ObeysE.bind
      (indexForConcurrencyControl_settles client id taskId ccArgs) ?_
    rintro - g rfl
    exact rfl
  · cases ccArgs with
    | none => exact checkRunningTask_settles client taskId config
    | some args =>
        refine ⟨⟨rfl, rfl⟩, ?_⟩
        rintro (e | acquired) - <;> exact rfl

end Programs

variable {client : Nat}

/-- A fallible call that settles obeys as a task. -/
theorem obeys_of_settles {α : Type} {p : SlotProg α}
    (h : slotBooks.ObeysE p (fun _ => Settled client) (fun _ => Settled client) ⟨client, none⟩) :
    slotBooks.Obeys p.run.toUnit (fun _ g => g.pending = none) ⟨client, none⟩ := by
  refine (Discipline.Obeys.mono h ?_).toUnit
  rintro (e | a) g hg <;> exact congrArg SlotBook.pending hg

theorem slotProgram_obeys (task : SlotTask) :
    slotBooks.Obeys task.program (fun _ g => g.pending = none) (slotBooks.start task) := by
  cases task with
  | index client id taskId ccArgs =>
      exact obeys_of_settles (indexForConcurrencyControl_settles client id taskId ccArgs)
  | acquire client id taskId config ccArgs =>
      exact obeys_of_settles (tryAcquireConcurrencySlot_settles client id taskId config ccArgs)
  | remove client id => exact obeys_of_settles (removeFromConcurrencyIndex_settles client id)
  | stop client => exact ⟨⟨rfl, rfl⟩, fun _ _ => rfl⟩

/-- Every entry of a pair set is listed, or a call in progress has it to list. -/
def ListedOrPending (s : SlotServer) (books : List SlotBook) : Prop :=
  ∀ id key, id ∈ s.keys.pairMembers key → key ∈ s.keys.reverseMembers id ∨
    ∃ g ∈ books, g.pending = some (key, id) ∧ g.client ∉ s.stopped

section Listing

variable {before after : List SlotBook} {id : InvocationId} {s : SlotSystem}
  {t : Thread slotCalls SlotTask}

/-- What another call has to list it still has to list. -/
theorem pending_of_others {g g' : SlotBook} {stopped : List Nat} {key : Word}
    (h : ∃ b ∈ before ++ g :: after, b.pending = some (key, id) ∧ b.client ∉ stopped)
    (hg : g.pending ≠ some (key, id) ∨ g.client ∈ stopped) :
    ∃ b ∈ before ++ g' :: after, b.pending = some (key, id) ∧ b.client ∉ stopped := by
  obtain ⟨b, hb, hpending, hclient⟩ := h
  rcases mem_replaced hb with hb | rfl
  · exact ⟨b, mem_of_others hb g', hpending, hclient⟩
  · exact (hg.elim (fun h => h hpending) fun h => hclient h).elim

/-- The book of a call that is about to list a pair set. -/
theorem book_of_next {F : SlotBook → Prop} (hobey : Discipline.AllObey slotBooks F s)
    (ht : t ∈ s.threads) {key : Word}
    (hnext : t.next? = some (SlotCall.addToReverse client id key)) :
    slotBooks.book t = ⟨client, some (key, id)⟩ := by
  obtain ⟨k, hprog⟩ := Thread.prog_of_next hnext
  have hob := hobey t ht
  rw [hprog] at hob
  obtain ⟨hclient, hpending⟩ := hob.1
  cases hbook : slotBooks.book t with
  | mk client' pending =>
      rw [hbook] at hclient hpending
      subst hclient
      exact congrArg (SlotBook.mk _) hpending

/-- An awaited entry is pending for another call than the one that moves. -/
theorem pending_of_next {F : SlotBook → Prop} {t t' : Thread slotCalls SlotTask}
    (hobey : Discipline.AllObey slotBooks F s)
    (hbooks : s.books slotBooks.toMonitor = before ++ slotBooks.book t :: after)
    (hidle : (slotBooks.book t).pending = none) (ht' : t' ∈ s.threads) {key : Word}
    {stopped : List Nat} (hclient : client ∉ stopped)
    (hnext : t'.next? = some (SlotCall.addToReverse client id key)) (g' : SlotBook) :
    ∃ b ∈ before ++ g' :: after, b.pending = some (key, id) ∧ b.client ∉ stopped := by
  have hbook := book_of_next hobey ht' hnext
  have hmem : slotBooks.book t' ∈ before ++ slotBooks.book t :: after := by
    rw [← hbooks]
    exact List.mem_map_of_mem ht'
  refine pending_of_others ⟨slotBooks.book t', hmem, ?_, ?_⟩ (.inl ?_)
  · rw [hbook]
  · rwa [hbook]
  · rw [hidle]
    exact nofun

section Step

variable {s : SlotServer} {before after : List SlotBook} {g : SlotBook}

/-- A command of a stopped client changes nothing. -/
theorem ListedOrPending.lost (h : ListedOrPending s (before ++ g :: after)) (g' : SlotBook)
    (hclient : g.client ∈ s.stopped) : ListedOrPending s (before ++ g' :: after) :=
  fun id key hmem => (h id key hmem).imp_right fun hpending =>
    pending_of_others hpending (.inr hclient)

/-- A command that leaves the sets as they are. -/
theorem ListedOrPending.idle (h : ListedOrPending s (before ++ g :: after)) (g' : SlotBook)
    (hidle : g.pending = none) : ListedOrPending s (before ++ g' :: after) :=
  fun id key hmem => (h id key hmem).imp_right fun hpending =>
    pending_of_others hpending (.inl (by rw [hidle]; exact nofun))

theorem ListedOrPending.addToPair (h : ListedOrPending s (before ++ g :: after)) (key : Word)
    (id : InvocationId) (hidle : g.pending = none) (hclient : g.client ∉ s.stopped) :
    ListedOrPending { s with keys := { s.keys with cc := sadd s.keys.cc key id } }
      (before ++ ⟨g.client, some (key, id)⟩ :: after) := by
  intro id' key' hmem
  rcases (mem_sadd s.keys.cc key key' id id').mp hmem with hold | ⟨rfl, rfl⟩
  · exact h.idle _ hidle id' key' hold
  · exact .inr ⟨⟨g.client, some (key', id')⟩, by simp, rfl, hclient⟩

theorem ListedOrPending.addToReverse (h : ListedOrPending s (before ++ g :: after)) (key : Word)
    (id : InvocationId) (hpending : g.pending = some (key, id)) (g' : SlotBook) :
    ListedOrPending { s with keys := { s.keys with ccReverse := sadd s.keys.ccReverse id key } }
      (before ++ g' :: after) := by
  intro id' key' hmem
  by_cases hown : key' = key ∧ id' = id
  · exact .inl ((mem_sadd s.keys.ccReverse id id' key key').mpr (.inr ⟨hown.2, hown.1⟩))
  · rcases h id' key' hmem with hlisted | hother
    · exact .inl ((mem_sadd s.keys.ccReverse id id' key key').mpr (.inl hlisted))
    · refine .inr (pending_of_others hother (.inl fun heq => hown ?_))
      rw [hpending] at heq
      obtain ⟨rfl, rfl⟩ := Prod.mk.inj (Option.some.inj heq)
      exact ⟨rfl, rfl⟩

theorem ListedOrPending.removeFromPair (h : ListedOrPending s (before ++ g :: after))
    (key : Word) (id : InvocationId) (hidle : g.pending = none) (g' : SlotBook) :
    ListedOrPending { s with keys := { s.keys with cc := srem s.keys.cc key id } }
      (before ++ g' :: after) :=
  fun id' key' hmem => h.idle g' hidle id' key' ((mem_srem s.keys.cc key key' id id').mp hmem).1

theorem ListedOrPending.addToPairs (h : ListedOrPending s (before ++ g :: after))
    (keys : List Word) (id : InvocationId) (hidle : g.pending = none) (g' : SlotBook) :
    ListedOrPending { s with keys := s.keys.addToPairs keys id } (before ++ g' :: after) := by
  intro id' key' hmem
  have hreverse := mem_foldl_sadd keys s.keys.ccReverse id' id key'
  rcases (mem_foldl_sadd_key keys s.keys.cc key' id id').mp hmem with hold | ⟨hkey, rfl⟩
  · exact (h.idle g' hidle id' key' hold).imp_left fun hlisted => hreverse.mpr (.inl hlisted)
  · exact .inl (hreverse.mpr (.inr ⟨rfl, hkey⟩))

/-- Other reverse sets stay as they are. -/
theorem mem_reverse_erase (ks : Keyspace) {id other : InvocationId} (hne : other ≠ id)
    (key : Word) :
    key ∈ Keyspace.reverseMembers { ks with ccReverse := ks.ccReverse.erase id } other ↔
      key ∈ ks.reverseMembers other := by
  unfold Keyspace.reverseMembers
  rw [AList.lookup_erase_ne hne]

theorem ListedOrPending.deleteReverse (h : ListedOrPending s (before ++ g :: after))
    (id : InvocationId) (hidle : g.pending = none) (g' : SlotBook)
    (hawaited : ∀ key, id ∈ s.keys.pairMembers key →
      ∃ b ∈ before ++ g' :: after, b.pending = some (key, id) ∧ b.client ∉ s.stopped) :
    ListedOrPending { s with keys := { s.keys with ccReverse := s.keys.ccReverse.erase id } }
      (before ++ g' :: after) := by
  intro id' key' hmem
  by_cases hid : id' = id
  · subst hid
    exact .inr (hawaited key' hmem)
  · exact (h.idle g' hidle id' key' hmem).imp_left fun hlisted =>
      (mem_reverse_erase s.keys hid key').mpr hlisted

end Step

/-- A command that the runs allow keeps every entry listed or awaited. -/
theorem ListedOrPending.call {i : Nat} {env : SlotEnv} {c : SlotCall} {init : SlotSystem}
    (h : ListedOrPending s.shared (before ++ slotBooks.book t :: after))
    (hturn : slotBooks.Turn slotMachine keepsListed init (fun g => g.pending = none) s i t c
      before after) :
    ListedOrPending (execSlot env c s.shared).2
      (before ++ slotBooks.next c (execSlot env c s.shared).1 (slotBooks.book t) :: after) := by
  obtain ⟨hclient, hpending⟩ := hturn.permitted
  by_cases hstopped : c.client ∈ s.shared.stopped
  · have hexec : execSlot env c s.shared = (c.lost, s.shared) := if_pos hstopped
    rw [hexec]
    exact h.lost _ (hclient ▸ hstopped)
  · have hexec : execSlot env c s.shared = execCommand env c s.shared := if_neg hstopped
    rw [hexec]
    have halive : (slotBooks.book t).client ∉ s.shared.stopped := hclient ▸ hstopped
    cases c with
    | taskMembers => exact h.idle _ hpending
    | statuses => exact h.idle _ hpending
    | reverseMembers => exact h.idle _ hpending
    | addToPair client key id => exact h.addToPair key id hpending halive
    | addToReverse client id key => exact h.addToReverse key id hpending _
    | removeFromPair client key id => exact h.removeFromPair key id hpending _
    | deleteReverse client id =>
        refine h.deleteReverse id hpending _ fun key hmem => ?_
        obtain ⟨t', ht', other, hother, hnext⟩ := hturn.allowed hstopped key hmem
        exact pending_of_next hturn.obey hturn.books hpending ht' hother hnext _
    | acquire client keys id limit =>
        simp only [execCommand, Keyspace.acquireScript]
        split
        · exact h.addToPairs keys id hpending _
        · exact h.idle _ hpending
    | stop client =>
        intro id key hmem
        rcases hturn.allowed id key hmem with hlisted | ⟨t', ht', other, hne, hother, hnext⟩
        · exact .inl hlisted
        · have halive' : other ∉ client :: s.shared.stopped := by
            simp [hne, hother]
          exact .inr (pending_of_next hturn.obey hturn.books hpending ht' halive' hnext _)

theorem listedUpheld : slotBooks.Upheld (fun g => g.pending = none) ListedOrPending slotMachine
    keepsListed noSlots where
  program _ task _ := slotProgram_obeys task
  obey := by simp [Discipline.AllObey, noSlots]
  logs := by simp [noSlots]
  holds := by
    intro id key hmem
    simp [noSlots, Keyspace.pairMembers] at hmem
  start s task _ h := fun id key hmem => (h id key hmem).imp_right fun ⟨g, hg, hrest⟩ =>
    ⟨g, List.mem_append_left _ hg, hrest⟩
  call _ _ _ _ _ _ _ hturn h := ⟨trivial, h.call hturn⟩

/-! ## The index at rest -/

/-- The removals of one call, with nobody in between. -/
theorem removeKeys_alone (id : InvocationId) (env : SlotEnv) (keys : List Word) {s : SlotServer}
    (hclient : client ∉ s.stopped) :
    Prog.aloneE (execSlot env) (removeKeys client id keys) s =
      (.ok (), { s with keys :=
        { s.keys with cc := keys.foldl (fun sets key => srem sets key id) s.keys.cc } }) := by
  induction keys generalizing s with
  | nil => rfl
  | cons key rest ih =>
      have hfirst : Prog.aloneE (execSlot env) (removeFromPair client key id) s =
          execCommand env (.removeFromPair client key id) s := if_neg hclient
      rw [removeKeys, Prog.aloneE_bind_ok hfirst]
      exact ih hclient

/-- A complete removal takes the invocation out of the pair sets that its reverse set lists. -/
theorem removeFromConcurrencyIndex_alone {s : SlotServer} (hclient : client ∉ s.stopped)
    (id : InvocationId) (env : SlotEnv) :
    ∃ s', Prog.aloneE (execSlot env) (removeFromConcurrencyIndex client id) s = (.ok (), s') ∧
      ∀ key, id ∈ s'.keys.pairMembers key ↔
        id ∈ s.keys.pairMembers key ∧ key ∉ s.keys.reverseMembers id := by
  let keys := env.order (s.keys.reverseMembers id)
  have hread : Prog.aloneE (execSlot env) (readReverse client id) s = (.ok keys, s) :=
    if_neg hclient
  have hmem : ∀ key, id ∈ ((keys.foldl (fun sets key => srem sets key id) s.keys.cc).lookup
      key).getD [] ↔ id ∈ s.keys.pairMembers key ∧ key ∉ s.keys.reverseMembers id := by
    intro key
    rw [mem_foldl_srem]
    have hlisted : key ∈ keys ↔ key ∈ s.keys.reverseMembers id := (env.perm _).mem_iff
    simp [hlisted, Keyspace.pairMembers]
  unfold removeFromConcurrencyIndex
  rw [Prog.aloneE_bind_ok hread, Prog.aloneE_bind_ok (removeKeys_alone id env keys hclient)]
  by_cases hempty : keys.isEmpty = true
  · rw [if_pos hempty]
    exact ⟨_, rfl, hmem⟩
  · rw [if_neg hempty]
    exact ⟨_, if_neg hclient, hmem⟩

/-- **No slot is lost.**  Where reverse sets are deleted and clients stop only as `keepsListed`
says, every pair set is listed whenever no call is in progress, and one complete removal takes
an invocation out of all of them. -/
theorem tracked_of_keepsListed {s : SlotSystem}
    (h : Reachable slotMachine keepsListed noSlots s) (hrest : AtRest s) :
    Tracked s.shared.keys ∧ ∀ client, client ∉ s.shared.stopped → ∀ id env, ∃ s',
      Prog.aloneE (execSlot env) (removeFromConcurrencyIndex client id) s.shared = (.ok (), s') ∧
        ∀ key, id ∉ s'.keys.pairMembers key := by
  obtain ⟨hobey, hlisted⟩ := listedUpheld.obeyed h
  have htracked : Tracked s.shared.keys := by
    intro id key hmem
    rcases hlisted id key hmem with hkey | ⟨g, hg, hpending, hclient⟩
    · exact hkey
    · -- a call with an entry to list is unfinished, and its client has not stopped
      obtain ⟨t, ht, rfl⟩ := List.mem_map.mp hg
      rcases hrest t ht with hdone | hstopped
      · have hob := hobey t ht
        cases hprog : t.prog with
        | done u =>
            rw [hprog] at hob
            exact absurd (hob.symm.trans hpending) nofun
        | call c k => simp [Thread.next?, hprog] at hdone
      · rw [client_book] at hclient
        exact absurd hstopped hclient
  refine ⟨htracked, fun client hclient id env => ?_⟩
  obtain ⟨s', halone, hmem⟩ := removeFromConcurrencyIndex_alone hclient id env
  refine ⟨s', halone, fun key hkey => ?_⟩
  obtain ⟨hold, hunlisted⟩ := (hmem key).mp hkey
  exact hunlisted (htracked id key hold)

end Listing

/-! ## A release beside a re-admission -/

def insertionOrder : SlotEnv :=
  ⟨id, fun _ => .refl _, [], []⟩

def oneSlot : TaskConfig :=
  { concurrencyControl := .task }

def admission (client : Nat) : SlotTask :=
  .acquire client ⟨"a"⟩ ⟨.rust, "m", "f"⟩ oneSlot (some .empty)

/-- A late worker releases its slot; between its last `SREM` and its `DEL` the invocation is
admitted again. -/
def lateRelease : List (Label SlotEnv SlotTask) :=
  [.start (admission 0), .step 0 insertionOrder, .start (.remove 1 ⟨"a"⟩),
    .step 1 insertionOrder, .step 1 insertionOrder, .start (admission 2),
    .step 2 insertionOrder, .step 1 insertionOrder]

theorem slot_lost :
    ¬ ∀ s, Reachable slotMachine (Guard.top slotCalls SlotServer SlotTask) noSlots s →
      AtRest s → Tracked s.shared.keys := by
  intro hall
  obtain ⟨s, hreach, hrest, hin, hout⟩ := Reachable.exists_of_run slotMachine
    (Guard.top slotCalls SlotServer SlotTask) noSlots lateRelease
    (fun s => AtRest s ∧
      ⟨"a"⟩ ∈ s.shared.keys.pairMembers (ccKey ⟨.rust, "m", "f"⟩ ("", "")) ∧
      ccKey ⟨.rust, "m", "f"⟩ ("", "") ∉ s.shared.keys.reverseMembers ⟨"a"⟩)
    (Guard.allowsAll_top _ _ _) (by decide +kernel)
  exact hout (hall s hreach hrest _ _ hin)

/-- The same calls, the release complete before the second admission. -/
def orderlyRelease : List (Label SlotEnv SlotTask) :=
  [.start (admission 0), .step 0 insertionOrder, .start (.remove 1 ⟨"a"⟩),
    .step 1 insertionOrder, .step 1 insertionOrder, .step 1 insertionOrder,
    .start (admission 2), .step 2 insertionOrder]

theorem keepsListed_orderlyRelease :
    keepsListed.AllowsAll slotMachine noSlots orderlyRelease := by
  refine ⟨trivial, ?_, trivial, ?_, ?_, ?_, trivial, ?_, trivial⟩
  · rintro t ht c hn
    cases ht
    cases hn
    trivial
  · rintro t ht c hn
    cases ht
    cases hn
    trivial
  · rintro t ht c hn
    cases ht
    cases hn
    trivial
  · rintro t ht c hn
    cases ht
    cases hn
    intro _ key hmem
    exact absurd hmem List.not_mem_nil
  · rintro t ht c hn
    cases ht
    cases hn
    trivial

theorem tracked_of_keepsListed_orderly : ∃ s : SlotSystem,
    ⟨"a"⟩ ∈ s.shared.keys.pairMembers (ccKey ⟨.rust, "m", "f"⟩ ("", "")) ∧
      Tracked s.shared.keys ∧ ∀ client, client ∉ s.shared.stopped → ∀ id env, ∃ s',
        Prog.aloneE (execSlot env) (removeFromConcurrencyIndex client id) s.shared =
            (.ok (), s') ∧
          ∀ key, id ∉ s'.keys.pairMembers key := by
  obtain ⟨s, hreach, hrest, hin⟩ := Reachable.exists_of_run slotMachine keepsListed noSlots
    orderlyRelease
    (fun s => AtRest s ∧
      ⟨"a"⟩ ∈ s.shared.keys.pairMembers (ccKey ⟨.rust, "m", "f"⟩ ("", "")))
    keepsListed_orderlyRelease (by decide +kernel)
  exact ⟨s, hin, tracked_of_keepsListed hreach hrest⟩

end Rustvello.Redis
