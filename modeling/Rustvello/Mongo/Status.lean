import Rustvello.Concurrency.Discipline
import Rustvello.Core.Error
import Mathlib.Data.List.AList

/-!
# Status writes on MongoDB

`MongoOrchestrator::set_invocation_status` reads the status document, computes the
new record, and writes it with an `update_one` whose filter names the status it
read.  The two database calls are atomic; other writers may run in between.

* `setInvocationStatus` — the operation, call by call;
* `machine` — any number of such operations over one collection;
* `WritesTransition` — a step that applies an update stores the transition of the
  record stored immediately before;
* `writesTransition_iff` — exactly which applied updates do so: the filter does not
  compare the owner, so the others are those that find an owned status with a
  different owner and do not take over.
-/

namespace Rustvello.Mongo

open Concurrency Proto Rustvello.Core

/-- A document of the status collection (`_id` is its key). -/
structure StatusDocument where
  statusName : String
  runnerId : Option String
  record : InvocationStatusRecord
deriving DecidableEq, Repr

/-- The document of a record; the two copied fields are what filters may name. -/
def StatusDocument.ofRecord (record : InvocationStatusRecord) : StatusDocument where
  statusName := record.status.toName
  runnerId := record.runnerId.map RunnerId.raw
  record := record

abbrev StatusCollection := AList fun _ : InvocationId => StatusDocument

/-- The database calls of a status write, and the clock. -/
inductive StatusCall where
  | findOne (id : InvocationId)
  | utcNow
  | updateOne (id : InvocationId) (statusName : String) (update : StatusDocument)
deriving DecidableEq, Repr

/-- `updateOne` answers the matched count. -/
abbrev StatusCall.Ret : StatusCall → Type
  | .findOne _ => Option StatusDocument
  | .utcNow => Timestamp
  | .updateOne _ _ _ => Nat

abbrev statusCalls : Interface := ⟨StatusCall, StatusCall.Ret⟩

abbrev StatusProg := ExceptT RustvelloError (Prog statusCalls)

def getInvocationStatus (id : InvocationId) : StatusProg InvocationStatusRecord := do
  match ← Prog.ask (I := statusCalls) (.findOne id) with
  | some document => pure document.record
  | none => throw (.invocationNotFound id)

def setInvocationStatus (id : InvocationId) (status : InvocationStatus)
    (runnerId : Option RunnerId) : StatusProg InvocationStatusRecord := do
  -- read current status and validate transition
  let currentRecord ← getInvocationStatus id
  let now ← Prog.ask (I := statusCalls) .utcNow
  match statusRecordTransition now (some currentRecord) status runnerId with
  | .error e => throw (statusMachineErrorToRustvello e id currentRecord.status)
  | .ok newRecord =>
      -- optimistic write: only if the status name still matches what was read
      let matched ← Prog.ask (I := statusCalls)
        (.updateOne id currentRecord.status.toName (.ofRecord newRecord))
      if matched = 0 then
        throw (.stateBackend "concurrent status modification detected")
      else
        pure newRecord

/-- One `set_invocation_status` request. -/
structure StatusRequest where
  id : InvocationId
  target : InvocationStatus
  requester : Option RunnerId
deriving DecidableEq, Repr

/-- What one call does; the environment is the clock reading. -/
def exec (clock : Timestamp) :
    (c : StatusCall) → StatusCollection → c.Ret × StatusCollection
  | .findOne id, docs => (docs.lookup id, docs)
  | .utcNow, docs => (clock, docs)
  | .updateOne id statusName update, docs =>
      match docs.lookup id with
      | some document =>
          if document.statusName = statusName then (1, docs.insert id update) else (0, docs)
      | none => (0, docs)

def machine : Machine statusCalls StatusCollection Timestamp StatusRequest where
  exec := exec
  program q := (setInvocationStatus q.id q.target q.requester).run.toUnit

/-- Every document repeats the fields of its record. -/
def Consistent (docs : StatusCollection) : Prop :=
  ∀ id document, docs.lookup id = some document → document = .ofRecord document.record

/-- A collection no operation works on yet. -/
def idle (docs : StatusCollection) : System statusCalls StatusCollection StatusRequest :=
  ⟨docs, []⟩

/-- Thread `i` is about to apply an update: its next call is an `update_one` whose
filter matches the stored document. -/
structure Applies (s : System statusCalls StatusCollection StatusRequest) (i : Nat)
    (request : StatusRequest) (stored update : StatusDocument) : Prop where
  thread : ∃ t, s.threads[i]? = some t ∧ t.task = request ∧
    t.next? = some (.updateOne request.id stored.statusName update)
  found : s.shared.lookup request.id = some stored

/-- **The property of one applied update:** it stores the transition of the record
that was stored immediately before. -/
def WritesTransition (s : System statusCalls StatusCollection StatusRequest) (i : Nat) : Prop :=
  ∀ request stored update, Applies s i request stored update →
    ∀ clock s', s.apply machine (.step i clock) = some s' →
      ∃ now next, statusRecordTransition now (some stored.record) request.target
          request.requester = .ok next ∧
        s'.shared.lookup request.id = some (.ofRecord next)

/-! ## What an operation knows when it writes -/

/-- The book of one operation: its request, the record it read and the time it took. -/
structure StatusBook where
  request : StatusRequest
  read : Option InvocationStatusRecord
  now : Option Timestamp

/-- An operation updates only its own document, only with a transition of the
record it read, and filters on the status of that record. -/
def writer : Discipline statusCalls StatusRequest StatusBook where
  start q := ⟨q, none, none⟩
  next
    | .findOne _, document, book => { book with read := document.map StatusDocument.record }
    | .utcNow, now, book => { book with now := some now }
    | .updateOne _ _ _, _, book => book
  pre
    | .updateOne id statusName update, book =>
        id = book.request.id ∧ ∃ current now next, statusName = current.status.toName ∧
          update = .ofRecord next ∧
          statusRecordTransition now (some current) book.request.target
            book.request.requester = .ok next
    | _, _ => True
  resp _ _ _ := True

/-- The request in a book never changes. -/
theorem book_request (t : Thread statusCalls StatusRequest) :
    (writer.book t).request = t.task := by
  unfold Monitor.book
  induction t.log with
  | nil => rfl
  | cons e log ih =>
      obtain ⟨op, ret⟩ := e
      cases op <;> exact ih

theorem getInvocationStatus_obeys (id : InvocationId) (book : StatusBook) :
    writer.ObeysE (getInvocationStatus id)
      (fun record book' => book' = { book with read := some record }) (fun _ _ => True) book := by
  unfold getInvocationStatus
  rw [Discipline.obeysE_ask_bind]
  refine ⟨trivial, fun document _ => ?_⟩
  cases document with
  | none => trivial
  | some document => rfl

theorem setInvocationStatus_obeys (q : StatusRequest) :
    writer.ObeysE (setInvocationStatus q.id q.target q.requester) (fun _ _ => True)
      (fun _ _ => True) ⟨q, none, none⟩ := by
  unfold setInvocationStatus
  refine (getInvocationStatus_obeys q.id _).bind ?_
  rintro current _ rfl
  rw [Discipline.obeysE_ask_bind]
  refine ⟨trivial, fun now _ => ?_⟩
  cases htrans : statusRecordTransition now (some current) q.target q.requester with
  | error e => trivial
  | ok next =>
      rw [Discipline.obeysE_ask_bind]
      refine ⟨⟨rfl, current, now, next, rfl, rfl, htrans⟩, fun matched _ => ?_⟩
      split <;> trivial

variable {s : System statusCalls StatusCollection StatusRequest} {stored update : StatusDocument}

/-- In every reachable state all operations keep to `writer`, and the documents
are consistent. -/
theorem reachable_writer {docs : StatusCollection} (hdocs : Consistent docs)
    (h : Reachable machine (Guard.top _ _ _) (idle docs) s) :
    Discipline.AllObey writer (fun _ => True) s ∧ Consistent s.shared := by
  refine writer.invariant (fun _ => True) (fun docs _ => Consistent docs) ?_ ?_ ?_ ?_ h
  · intro _ q _
    exact Discipline.Obeys.toUnit
      (Discipline.Obeys.mono (setInvocationStatus_obeys q) fun _ _ _ => trivial)
  · exact ⟨fun t ht => absurd ht (List.not_mem_nil), hdocs⟩
  · intro _ _ _ hinv
    exact hinv
  · intro s i clock t c _ _ hturn hinv
    have hpre := hturn.permitted
    refine ⟨trivial, ?_⟩
    cases c with
    | findOne id => exact hinv
    | utcNow => exact hinv
    | updateOne id statusName update =>
        obtain ⟨-, current, now, next, -, rfl, -⟩ := hpre
        change Consistent (exec clock (.updateOne id statusName (.ofRecord next)) s.shared).2
        simp only [exec]
        split
        · split
          · intro id' document hdocument
            by_cases hid : id' = id
            · subst hid
              rw [AList.lookup_insert] at hdocument
              cases hdocument
              rfl
            · rw [AList.lookup_insert_ne hid] at hdocument
              exact hinv id' document hdocument
          · exact hinv
        · exact hinv

/-! ## Applied updates -/

/-- An update that is about to be applied can be applied, and is then stored. -/
theorem Applies.step {i : Nat} {request : StatusRequest} (h : Applies s i request stored update)
    (clock : Timestamp) :
    ∃ s', s.apply machine (.step i clock) = some s' ∧
      s'.shared.lookup request.id = some update := by
  obtain ⟨⟨t, ht, -, hnext⟩, hfound⟩ := h
  unfold Thread.next? at hnext
  split at hnext
  · cases hnext
  · rename_i c k hprog
    cases hnext
    refine ⟨_, by simp only [System.apply, ht, hprog]; rfl, ?_⟩
    simp [System.afterCall, machine, exec, hfound]

/-- What an operation knows about an update it is about to apply: it is the
transition of a record of the stored status. -/
theorem Applies.computed {docs : StatusCollection} (hdocs : Consistent docs)
    (hs : Reachable machine (Guard.top _ _ _) (idle docs) s) {i : Nat} {request : StatusRequest}
    (h : Applies s i request stored update) :
    ∃ current now next, stored.record.status = current.status ∧ update = .ofRecord next ∧
      statusRecordTransition now (some current) request.target request.requester
        = .ok next := by
  obtain ⟨hobey, hcons⟩ := reachable_writer hdocs hs
  obtain ⟨⟨t, ht, rfl, hnext⟩, hfound⟩ := h
  have hthread := hobey t (List.mem_of_getElem? ht)
  unfold Thread.next? at hnext
  split at hnext
  · cases hnext
  · rename_i c k hprog
    rw [hprog] at hthread
    cases hnext
    obtain ⟨⟨-, current, now, next, hname, hupdate, htrans⟩, -⟩ := hthread
    rw [book_request] at htrans
    rw [hcons _ _ hfound] at hname
    exact ⟨current, now, next, InvocationStatus.toName_injective hname, hupdate, htrans⟩

/-- **Which applied updates are linearizable.**  In every state of every
interleaving, for every update that is applied: it stores the transition of the
record stored immediately before exactly when that record is not in an owned
status, or the target takes over, or the requester is the stored owner. -/
theorem writesTransition_iff {docs : StatusCollection} (hdocs : Consistent docs)
    {s : System statusCalls StatusCollection StatusRequest}
    (hs : Reachable machine (Guard.top _ _ _) (idle docs) s) (i : Nat) :
    WritesTransition s i ↔
      ∀ request stored update, Applies s i request stored update →
        ¬ stored.record.status.Owned ∨ request.target.TakesOver ∨
          stored.record.runnerId = request.requester := by
  constructor
  · intro hwrites request stored update happ
    obtain ⟨current, now, next, hstatus, rfl, htrans⟩ := happ.computed hdocs hs
    obtain ⟨s', hs', hlookup⟩ := happ.step 0
    obtain ⟨now', next', htrans', hlookup'⟩ := hwrites request stored _ happ 0 s' hs'
    have hnext : next' = next := by
      rw [hlookup] at hlookup'
      exact (congrArg StatusDocument.record (Option.some.inj hlookup')).symm
    subst hnext
    have hnow : now' = now := by
      rw [((statusRecordTransition_ok_iff _ _ _ _ _).mp htrans).2.2] at htrans'
      exact (congrArg InvocationStatusRecord.timestamp
        ((statusRecordTransition_ok_iff _ _ _ _ _).mp htrans').2.2).symm
    subst hnow
    exact (transition_same_status_iff hstatus htrans).mp htrans'
  · intro hcond request stored update happ clock s' hs'
    obtain ⟨current, now, next, hstatus, rfl, htrans⟩ := happ.computed hdocs hs
    obtain ⟨s'', hs'', hlookup⟩ := happ.step clock
    rw [hs'] at hs''
    cases hs''
    exact ⟨now, next, (transition_same_status_iff hstatus htrans).mpr
      (hcond request stored _ happ), hlookup⟩

/-! ## A late writer -/

/-- Start request number `i` and let it run to its end. -/
def serve (i : Nat) (q : StatusRequest) : List (Label Timestamp StatusRequest) :=
  [.start q, .step i 0, .step i 0, .step i 0]

/-- Start request number `i` and stop it in front of its `update_one`. -/
def prepare (i : Nat) (q : StatusRequest) : List (Label Timestamp StatusRequest) :=
  [.start q, .step i 0, .step i 0]

/-- One registered invocation. -/
def oneRegistered : StatusCollection :=
  AList.insert ⟨"inv"⟩ (.ofRecord ⟨.registered, none, 0⟩) ∅

theorem consistent_oneRegistered : Consistent oneRegistered := by
  intro id document h
  by_cases hid : id = ⟨"inv"⟩
  · subst hid
    rw [oneRegistered, AList.lookup_insert] at h
    cases h
    rfl
  · rw [oneRegistered, AList.lookup_insert_ne hid] at h
    simp at h

/-- The first worker claims and runs the invocation and is about to write its result. -/
def firstAttempt : List (Label Timestamp StatusRequest) :=
  serve 0 ⟨⟨"inv"⟩, .pending, some ⟨"w1"⟩⟩ ++ serve 1 ⟨⟨"inv"⟩, .running, some ⟨"w1"⟩⟩ ++
    prepare 2 ⟨⟨"inv"⟩, .success, some ⟨"w1"⟩⟩

/-- Meanwhile it is recovered, and a second worker claims and runs it. -/
def takeOver : List (Label Timestamp StatusRequest) :=
  serve 3 ⟨⟨"inv"⟩, .runningRecovery, some ⟨"recovery"⟩⟩ ++
    serve 4 ⟨⟨"inv"⟩, .rerouted, some ⟨"recovery"⟩⟩ ++
    serve 5 ⟨⟨"inv"⟩, .pending, some ⟨"w2"⟩⟩ ++ serve 6 ⟨⟨"inv"⟩, .running, some ⟨"w2"⟩⟩

/-- The update of thread 2 in both schedules. -/
def lateSuccess : StatusRequest := ⟨⟨"inv"⟩, .success, some ⟨"w1"⟩⟩

/-- Thread 2 is about to move a `running` invocation of the given owner to `success`. -/
def AboutToFinish (owner : RunnerId)
    (s : System statusCalls StatusCollection StatusRequest) : Prop :=
  s.threads[2]?.map (fun t => (t.task, t.next?)) =
      some (lateSuccess,
        some (.updateOne ⟨"inv"⟩ "RUNNING" (.ofRecord ⟨.success, none, 0⟩))) ∧
    s.shared.lookup ⟨"inv"⟩ = some (.ofRecord ⟨.running, some owner, 0⟩)

instance (owner : RunnerId) : DecidablePred (AboutToFinish owner) :=
  fun _ => inferInstanceAs (Decidable (_ ∧ _))

theorem AboutToFinish.applies {owner : RunnerId} (h : AboutToFinish owner s) :
    Applies s 2 lateSuccess (.ofRecord ⟨.running, some owner, 0⟩)
      (.ofRecord ⟨.success, none, 0⟩) := by
  obtain ⟨hthread, hfound⟩ := h
  obtain ⟨t, ht, htask⟩ := Option.map_eq_some_iff.mp hthread
  refine ⟨⟨t, ht, congrArg Prod.fst htask, congrArg Prod.snd htask⟩, hfound⟩

/-- Without a take-over the first worker's result is written as the machine says. -/
theorem writesTransition_of_owner :
    ∃ s, Reachable machine (Guard.top _ _ _) (idle oneRegistered) s ∧
      AboutToFinish ⟨"w1"⟩ s ∧ (WritesTransition s 2 ↔
        ∀ request stored update, Applies s 2 request stored update →
          ¬ stored.record.status.Owned ∨ request.target.TakesOver ∨
            stored.record.runnerId = request.requester) := by
  obtain ⟨s, hs, hfinish⟩ := Reachable.exists_of_run machine (Guard.top _ _ _)
    (idle oneRegistered) firstAttempt (AboutToFinish ⟨"w1"⟩)
    (Guard.allowsAll_top _ _ _) (by decide)
  exact ⟨s, hs, hfinish, writesTransition_iff consistent_oneRegistered hs 2⟩

/-- **A stale owner moves the invocation out of its new owner's `running`.**  The
recovered first worker's update is applied although the machine refuses it on the
stored record. -/
theorem staleOwner_overwrites :
    ∃ s s', Reachable machine (Guard.top _ _ _) (idle oneRegistered) s ∧
      s.shared.lookup ⟨"inv"⟩ = some (.ofRecord ⟨.running, some ⟨"w2"⟩, 0⟩) ∧
      s.apply machine (.step 2 0) = some s' ∧
      s'.shared.lookup ⟨"inv"⟩ = some (.ofRecord ⟨.success, none, 0⟩) ∧
      ¬ WritesTransition s 2 := by
  obtain ⟨s, hs, hfinish⟩ := Reachable.exists_of_run machine (Guard.top _ _ _)
    (idle oneRegistered) (firstAttempt ++ takeOver) (AboutToFinish ⟨"w2"⟩)
    (Guard.allowsAll_top _ _ _) (by decide)
  obtain ⟨s', hs', hstored⟩ := hfinish.applies.step 0
  refine ⟨s, s', hs, hfinish.2, hs', hstored, fun hwrites => ?_⟩
  obtain ⟨now, next, htrans, -⟩ := hwrites _ _ _ hfinish.applies 0 s' hs'
  have hown := ((statusRecordTransition_ok_iff _ _ _ _ _).mp htrans).2.1
  revert hown
  decide

end Rustvello.Mongo
