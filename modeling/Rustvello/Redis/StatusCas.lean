import Rustvello.Concurrency.History
import Rustvello.Core.Error
import Mathlib.Data.List.AList

/-!
# Status writes on Redis

`RedisOrchestrator::set_invocation_status` (`orchestrator/status.rs`) reads the status
record, computes the new one, and sends it with a Lua script that writes only where the
status is still the one that was read; on a conflict it starts again.  The read and the
script are atomic; other writers may run in between.

The script does not compare records.  It takes the status out of the stored JSON text with
a pattern and compares it, in upper case, with the name that `Display` gives the status
that was read.

* `casScript` — the script, on the text of the stored record;
* `setInvocationStatus` — the operation, call by call;
* `upper_eq_iff` — when the two spellings agree: the status is the same and its name is one
  word;
* `CasStep` — what one call of the operation should do; `casStep_iff` — when it does.
-/

namespace Rustvello.Redis.StatusCas

open Concurrency Proto Rustvello.Core

/-! ## The script -/

/-- What opens the text of a record. -/
def opening : List Char :=
  "\x7b\"status\":\"".toList

/-- How the fields after the status are written. -/
structure RecordFormat where
  rest : Option RunnerId → Timestamp → List Char

/-- `serialize_status_record`: the status is the first field. -/
def serializeStatusRecord (fmt : RecordFormat) (record : InvocationStatusRecord) : List Char :=
  opening ++ record.status.debugName.toList ++ '"' :: fmt.rest record.runnerId record.timestamp

/-- `string.match(current, '^{"status":"([^"]*)"')` -/
def matchStatus (text : List Char) : Option (List Char) :=
  if opening <+: text then
    let value := text.drop opening.length
    if '"' ∈ value then some (value.takeWhile (· ≠ '"')) else none
  else none

/-- `string.upper` -/
def upper (text : List Char) : List Char :=
  text.map Char.toUpper

/-- Records by invocation.  A stored text stands for the record it encodes. -/
abbrev StatusKeys := AList fun _ : InvocationId => InvocationStatusRecord

/-- The script: 1 when it wrote, 0 without a record, -1 on a conflict.  Without a match
`string.upper` gets `nil` and the script fails. -/
def casScript (fmt : RecordFormat) (id : InvocationId) (expected : String)
    (update : InvocationStatusRecord) (keys : StatusKeys) : RustvelloResult Int × StatusKeys :=
  match keys.lookup id with
  | none => (.ok 0, keys)
  | some current =>
      match matchStatus (serializeStatusRecord fmt current) with
      | none => (.error (.stateBackend "Redis: bad argument #1 to 'upper'"), keys)
      | some currentStatus =>
          if upper currentStatus ≠ upper expected.toList then (.ok (-1), keys)
          else (.ok 1, keys.insert id update)

/-! ## The operation -/

/-- The calls of a status write, and the clock. -/
inductive CasCall where
  | get (id : InvocationId)
  | utcNow
  | cas (id : InvocationId) (expected : String) (update : InvocationStatusRecord)
deriving DecidableEq, Repr

abbrev CasCall.Ret : CasCall → Type
  | .get _ => Option InvocationStatusRecord
  | .utcNow => Timestamp
  | .cas _ _ _ => RustvelloResult Int

abbrev casCalls : Interface := ⟨CasCall, CasCall.Ret⟩

abbrev CasProg := ExceptT RustvelloError (Prog casCalls)

def getInvocationStatus (id : InvocationId) : CasProg InvocationStatusRecord := do
  match ← Prog.ask (I := casCalls) (.get id) with
  | some record => pure record
  | none => throw (.invocationNotFound id)

/-- The loop, followed for a number of iterations; `none` when it is still going then. -/
def setInvocationStatus (id : InvocationId) (status : InvocationStatus)
    (runnerId : Option RunnerId) : Nat → CasProg (Option InvocationStatusRecord)
  | 0 => pure none
  | iterations + 1 => do
      let currentRecord ← getInvocationStatus id
      let now ← Prog.ask (I := casCalls) .utcNow
      match statusRecordTransition now (some currentRecord) status runnerId with
      | .error e => throw (statusMachineErrorToRustvello e id currentRecord.status)
      | .ok newRecord =>
          let answer ← Prog.ask (I := casCalls) (.cas id currentRecord.status.toName newRecord)
          match answer with
          | .error e => throw e
          | .ok 1 => pure (some newRecord)
          | .ok 0 => throw (.invocationNotFound id)
          | .ok _ => setInvocationStatus id status runnerId iterations

/-- One `set_invocation_status` request, and for how long it is followed. -/
structure CasRequest where
  id : InvocationId
  target : InvocationStatus
  requester : Option RunnerId
  iterations : Nat
deriving DecidableEq, Repr

def CasRequest.operation (q : CasRequest) :
    Prog casCalls (Except RustvelloError (Option InvocationStatusRecord)) :=
  (setInvocationStatus q.id q.target q.requester q.iterations).run

/-- What one call does; the environment is the clock reading. -/
def exec (fmt : RecordFormat) (clock : Timestamp) :
    (c : CasCall) → StatusKeys → c.Ret × StatusKeys
  | .get id, keys => (keys.lookup id, keys)
  | .utcNow, keys => (clock, keys)
  | .cas id expected update, keys => casScript fmt id expected update keys

def machine (fmt : RecordFormat) : Machine casCalls StatusKeys Timestamp CasRequest where
  exec := exec fmt
  program q := q.operation.toUnit

/-- A server no operation works on yet. -/
def idle (keys : StatusKeys) : System casCalls StatusKeys CasRequest :=
  ⟨keys, []⟩

/-! ## The two spellings of a status -/

/-- The statuses whose name is one word. -/
def OneWord (status : InvocationStatus) : Prop :=
  status ≠ .concurrencyControlled ∧ status ≠ .concurrencyControlledFinal ∧
    status ≠ .pendingRecovery ∧ status ≠ .runningRecovery

instance (status : InvocationStatus) : Decidable (OneWord status) :=
  inferInstanceAs (Decidable (_ ∧ _))

theorem quote_notMem_debugName (status : InvocationStatus) :
    '"' ∉ status.debugName.toList := by
  revert status
  decide

variable (fmt : RecordFormat)

/-- The pattern finds the name that serde wrote. -/
theorem matchStatus_serialize (record : InvocationStatusRecord) :
    matchStatus (serializeStatusRecord fmt record) = some record.status.debugName.toList := by
  have hopening : opening <+: serializeStatusRecord fmt record := by
    unfold serializeStatusRecord
    rw [List.append_assoc]
    exact List.prefix_append _ _
  have hdrop : (serializeStatusRecord fmt record).drop opening.length =
      record.status.debugName.toList ++
        '"' :: fmt.rest record.runnerId record.timestamp := by
    unfold serializeStatusRecord
    rw [List.append_assoc, List.drop_left]
  have hquote := quote_notMem_debugName record.status
  unfold matchStatus
  rw [if_pos hopening]
  simp only [hdrop]
  rw [if_pos (by simp)]
  have htake : ∀ c ∈ record.status.debugName.toList, decide (c ≠ '"') = true := by
    intro c hc
    have hne : c ≠ '"' := fun h => hquote (h ▸ hc)
    simp [hne]
  rw [List.takeWhile_append_of_pos htake]
  simp

/-- The spellings of two statuses agree exactly on one and the same one-word status. -/
theorem upper_eq_iff (stored expected : InvocationStatus) :
    upper stored.debugName.toList = upper expected.toName.toList ↔
      stored = expected ∧ OneWord stored := by
  revert stored expected
  decide +kernel

/-- The script, read on records. -/
theorem casScript_eq {id : InvocationId} {stored : InvocationStatusRecord} {keys : StatusKeys}
    (hstored : keys.lookup id = some stored) (expected : InvocationStatus)
    (update : InvocationStatusRecord) :
    casScript fmt id expected.toName update keys =
      if stored.status = expected ∧ OneWord stored.status then (.ok 1, keys.insert id update)
      else (.ok (-1), keys) := by
  have hiff := upper_eq_iff stored.status expected
  simp only [casScript, hstored, matchStatus_serialize]
  by_cases h : stored.status = expected ∧ OneWord stored.status
  · rw [if_pos h, if_neg (not_not.mpr (hiff.mpr h))]
  · rw [if_neg h, if_pos (fun heq => h (hiff.mp heq))]

/-! ## What an operation knows when it sends the script -/

/-- The book of one operation: its request, the record of the present iteration, and how
it ended. -/
structure CasBook where
  request : CasRequest
  read : Option InvocationStatusRecord
  outcome : Option (Except RustvelloError InvocationStatusRecord)

/-- How the state machine answers an operation that read `current`. -/
def refusal (q : CasRequest) (now : Timestamp) (current : InvocationStatusRecord) :
    Option RustvelloError :=
  match statusRecordTransition now (some current) q.target q.requester with
  | .error e => some (statusMachineErrorToRustvello e q.id current.status)
  | .ok _ => none

/-- How the answer of the script ends an operation. -/
def settled (id : InvocationId) (update : InvocationStatusRecord) :
    RustvelloResult Int → Option (Except RustvelloError InvocationStatusRecord)
  | .error e => some (.error e)
  | .ok 1 => some (.ok update)
  | .ok 0 => some (.error (.invocationNotFound id))
  | .ok _ => none

/-- An operation that is not over sends the script only with a transition of the record it
read, and names the status of that record. -/
def writer : Discipline casCalls CasRequest CasBook where
  start q := ⟨q, none, none⟩
  next
    | .get id, record, book =>
        { book with
          read := record
          outcome := if record = none then some (.error (.invocationNotFound id)) else none }
    | .utcNow, now, book =>
        { book with
          outcome := (book.read.bind (refusal book.request now)).map .error }
    | .cas id _ update, answer, book =>
        { book with read := none, outcome := settled id update answer }
  pre c book := book.outcome = none ∧
    match c with
    | .get id => id = book.request.id
    | .utcNow => True
    | .cas id expected update => id = book.request.id ∧
        ∃ current now, book.read = some current ∧ expected = current.status.toName ∧
          statusRecordTransition now (some current) book.request.target
            book.request.requester = .ok update
  resp _ _ _ := True

/-- The request in a book never changes. -/
theorem book_request (t : Thread casCalls CasRequest) : (writer.book t).request = t.task := by
  unfold Monitor.book
  induction t.log with
  | nil => rfl
  | cons e log ih =>
      obtain ⟨op, ret⟩ := e
      cases op <;> exact ih

/-- An operation ends with the outcome in its book. -/
theorem setInvocationStatus_obeys (q : CasRequest) (iterations : Nat) {book : CasBook}
    (hrequest : book.request = q) (hopen : book.outcome = none) :
    writer.ObeysE (setInvocationStatus q.id q.target q.requester iterations)
      (fun record book' => book'.outcome = record.map .ok)
      (fun e book' => book'.outcome = some (.error e)) book := by
  -- an iteration that ends in a conflict leaves an open book for the next one
  induction iterations generalizing book with
  | zero => exact hopen
  | succ iterations ih =>
      subst hrequest
      unfold setInvocationStatus getInvocationStatus
      rw [Discipline.obeysE_bind, Discipline.obeysE_ask_bind]
      refine ⟨⟨hopen, rfl⟩, fun record _ => ?_⟩
      cases record with
      | none => rfl
      | some current =>
          rw [Discipline.obeysE_pure, Discipline.obeysE_ask_bind]
          refine ⟨⟨rfl, trivial⟩, fun now _ => ?_⟩
          cases htrans : statusRecordTransition now (some current) book.request.target
              book.request.requester with
          | error e =>
              rw [Discipline.obeysE_throw]
              simp [writer, refusal, htrans]
          | ok next =>
              rw [Discipline.obeysE_ask_bind]
              constructor
              · refine ⟨?_, rfl, current, now, rfl, rfl, htrans⟩
                simp [writer, refusal, htrans]
              · intro answer _
                split
                · rfl
                · rfl
                · rfl
                · rename_i code hone hzero
                  refine ih rfl ?_
                  simp only [writer, settled]

/-- Every interleaving keeps to `writer`. -/
theorem upheld (keys : StatusKeys) :
    writer.Upheld (fun _ => True) (fun _ _ => True) (machine fmt) (Guard.top _ _ _)
      (idle keys) where
  program _ q _ := by
    have hobeys := @setInvocationStatus_obeys q q.iterations (writer.start q) rfl rfl
    exact Discipline.Obeys.toUnit (Discipline.Obeys.mono hobeys fun _ _ _ => trivial)
  obey := by
    intro t ht
    simp [idle] at ht
  logs := by simp [idle]
  holds := trivial
  start _ _ _ _ := trivial
  call _ _ _ _ _ _ _ _ _ := ⟨trivial, trivial⟩

section Steps

variable {fmt : RecordFormat} {keys : StatusKeys} {s s' : System casCalls StatusKeys CasRequest}
  {i : Nat} {t : Thread casCalls CasRequest}

/-- An operation whose book has an outcome has returned it. -/
theorem returned_of_outcome (hs : Reachable (machine fmt) (Guard.top _ _ _) (idle keys) s)
    (ht : t ∈ s.threads) {outcome : Except RustvelloError InvocationStatusRecord}
    (hbook : (writer.book t).outcome = some outcome) :
    t.returned t.task.operation = some (outcome.map some) := by
  have hdone : t.next? = none := by
    cases hnext : t.next? with
    | none => rfl
    | some c =>
        obtain ⟨k, hprog⟩ := Thread.prog_of_next hnext
        have hobey := ((upheld fmt keys).obeyed hs).1 t ht
        rw [hprog] at hobey
        have hopen := hobey.1.1
        rw [hbook] at hopen
        cases hopen
  obtain ⟨value, hvalue⟩ := hs.returned rfl ht rfl hdone
  have hreturns := (upheld fmt keys).outcome hs ht
    (setInvocationStatus_obeys t.task t.task.iterations rfl rfl) hvalue
  rw [hvalue]
  cases value with
  | error e =>
      have heq : (writer.book t).outcome = some (.error e) := hreturns
      rw [hbook] at heq
      obtain rfl := Option.some.inj heq
      rfl
  | ok record =>
      have heq : (writer.book t).outcome = record.map .ok := hreturns
      rw [hbook] at heq
      cases record with
      | none => cases heq
      | some record =>
          obtain rfl := Option.some.inj heq
          rfl

/-- One call of an operation: the shared state after it, and the book. -/
theorem step_of_next (fmt : RecordFormat) {c : CasCall} (ht : s.threads[i]? = some t) (hnext : t.next? = some c)
    (clock : Timestamp) :
    ∃ s' t', s.apply (machine fmt) (.step i clock) = some s' ∧
      s'.shared = (exec fmt clock c s.shared).2 ∧ s'.threads[i]? = some t' ∧ t'.task = t.task ∧
      writer.book t' = writer.next c (exec fmt clock c s.shared).1 (writer.book t) := by
  obtain ⟨k, hprog⟩ := Thread.prog_of_next hnext
  have hi : i < s.threads.length := (List.getElem?_eq_some_iff.mp ht).1
  refine ⟨s.afterCall (machine fmt) i t clock c k,
    { t with prog := k (exec fmt clock c s.shared).1,
             log := ⟨c, (exec fmt clock c s.shared).1⟩ :: t.log }, ?_, rfl, ?_, rfl, rfl⟩
  · simp [System.apply, ht, hprog]
  · exact List.getElem?_set_self hi

end Steps

/-! ## One call of an operation -/

/-- Operation `i` is about to send the script: it read `read`, it is going to write
`update`, and `stored` is there now. -/
structure Scripting (s : System casCalls StatusKeys CasRequest) (i : Nat) (request : CasRequest)
    (read stored update : InvocationStatusRecord) : Prop where
  thread : ∃ t, s.threads[i]? = some t ∧ t.task = request ∧ (writer.book t).read = some read ∧
    t.next? = some (.cas request.id read.status.toName update)
  found : s.shared.lookup request.id = some stored

/-- **What the next call of operation `i` should do.** -/
structure CasStep (fmt : RecordFormat) (s : System casCalls StatusKeys CasRequest) (i : Nat) :
    Prop where
  /-- A script that writes stores the transition of the record stored immediately before. -/
  sound : ∀ request read stored update, Scripting s i request read stored update →
    (casScript fmt request.id read.status.toName update s.shared).1 = .ok 1 →
    ∀ clock s', s.apply (machine fmt) (.step i clock) = some s' →
      ∃ now next, statusRecordTransition now (some stored) request.target request.requester
        = .ok next ∧ s'.shared.lookup request.id = some next
  /-- A request that the state machine refuses returns its error without writing. -/
  refuses : ∀ t read, s.threads[i]? = some t → t.next? = some .utcNow →
    (writer.book t).read = some read → ∀ clock s' e,
    s.apply (machine fmt) (.step i clock) = some s' →
    statusRecordTransition clock (some read) t.task.target t.task.requester = .error e →
      s'.shared = s.shared ∧ ∃ t', s'.threads[i]? = some t' ∧ t'.returned t'.task.operation =
        some (.error (statusMachineErrorToRustvello e t.task.id read.status))
  /-- A script that finds the record that was read writes, and the operation returns. -/
  settles : ∀ request read update, Scripting s i request read read update →
    ∀ clock s', s.apply (machine fmt) (.step i clock) = some s' →
      s'.shared.lookup request.id = some update ∧
        ∃ t', s'.threads[i]? = some t' ∧ t'.returned request.operation = some (.ok (some update))

namespace Scripting

variable {fmt : RecordFormat} {keys : StatusKeys} {s : System casCalls StatusKeys CasRequest}
  {i : Nat} {request : CasRequest} {read stored update : InvocationStatusRecord}
  {s' : System casCalls StatusKeys CasRequest}

/-- What is sent is the transition of what was read. -/
theorem computed (hs : Reachable (machine fmt) (Guard.top _ _ _) (idle keys) s)
    (h : Scripting s i request read stored update) :
    ∃ now, statusRecordTransition now (some read) request.target request.requester
      = .ok update := by
  obtain ⟨t, ht, rfl, hread, hnext⟩ := h.thread
  obtain ⟨k, hprog⟩ := Thread.prog_of_next hnext
  have hobey := ((upheld fmt keys).obeyed hs).1 t (List.mem_of_getElem? ht)
  rw [hprog] at hobey
  obtain ⟨-, -, current, now, hcurrent, -, htrans⟩ := hobey.1
  rw [hread] at hcurrent
  obtain rfl := Option.some.inj hcurrent
  rw [book_request] at htrans
  exact ⟨now, htrans⟩

/-- The script writes exactly where it finds the one-word status that was read. -/
theorem answer_eq_one_iff (fmt : RecordFormat) (h : Scripting s i request read stored update) :
    (casScript fmt request.id read.status.toName update s.shared).1 = .ok 1 ↔
      stored.status = read.status ∧ OneWord stored.status := by
  rw [casScript_eq fmt h.found]
  by_cases hwrites : stored.status = read.status ∧ OneWord stored.status
  · rw [if_pos hwrites]
    simp [hwrites.1, hwrites.1 ▸ hwrites.2]
  · rw [if_neg hwrites]
    simp [hwrites]

/-- What the script stores when it writes. -/
theorem stored_of_writes (h : Scripting s i request read stored update)
    (hwrites : stored.status = read.status ∧ OneWord stored.status) (clock : Timestamp)
    (happly : s.apply (machine fmt) (.step i clock) = some s') :
    s'.shared.lookup request.id = some update := by
  obtain ⟨t, ht, -, -, hnext⟩ := h.thread
  obtain ⟨s'', t', happly', hshared, -⟩ := step_of_next fmt ht hnext clock
  rw [happly] at happly'
  obtain rfl := Option.some.inj happly'
  rw [hshared]
  simp only [exec]
  rw [casScript_eq fmt h.found, if_pos hwrites]
  exact AList.lookup_insert _

/-- A script that does not write leaves the record. -/
theorem stored_of_not_writes (h : Scripting s i request read stored update)
    (hwrites : ¬ (stored.status = read.status ∧ OneWord stored.status)) (clock : Timestamp)
    (happly : s.apply (machine fmt) (.step i clock) = some s') :
    s'.shared.lookup request.id = some stored := by
  obtain ⟨t, ht, -, -, hnext⟩ := h.thread
  obtain ⟨s'', t', happly', hshared, -⟩ := step_of_next fmt ht hnext clock
  rw [happly] at happly'
  obtain rfl := Option.some.inj happly'
  rw [hshared]
  simp only [exec]
  rw [casScript_eq fmt h.found, if_neg hwrites]
  exact h.found

/-- An operation returns after a script that writes. -/
theorem returned_of_writes (hs : Reachable (machine fmt) (Guard.top _ _ _) (idle keys) s)
    (h : Scripting s i request read stored update)
    (hwrites : stored.status = read.status ∧ OneWord stored.status) (clock : Timestamp)
    (happly : s.apply (machine fmt) (.step i clock) = some s') :
    ∃ t', s'.threads[i]? = some t' ∧ t'.returned request.operation = some (.ok (some update)) := by
  obtain ⟨t, ht, rfl, -, hnext⟩ := h.thread
  obtain ⟨s'', t', happly', -, ht', htask, hbook⟩ := step_of_next fmt ht hnext clock
  rw [happly] at happly'
  obtain rfl := Option.some.inj happly'
  have hs' : Reachable (machine fmt) (Guard.top _ _ _) (idle keys) s' :=
    hs.next (l := .step i clock) (fun _ _ _ _ => trivial) happly
  have houtcome : (writer.book t').outcome = some (.ok update) := by
    have hanswer := (h.answer_eq_one_iff fmt).mpr hwrites
    rw [hbook]
    simp only [writer, exec]
    rw [hanswer]
    rfl
  refine ⟨t', ht', ?_⟩
  rw [← htask]
  exact returned_of_outcome hs' (List.mem_of_getElem? ht') houtcome

end Scripting

/-- A refused request ends without a write. -/
theorem refused {fmt : RecordFormat} {keys : StatusKeys}
    {s s' : System casCalls StatusKeys CasRequest} {i : Nat} {t : Thread casCalls CasRequest}
    {read : InvocationStatusRecord}
    (hs : Reachable (machine fmt) (Guard.top _ _ _) (idle keys) s)
    (ht : s.threads[i]? = some t) (hnext : t.next? = some .utcNow)
    (hread : (writer.book t).read = some read) {clock : Timestamp} {e : StatusMachineError}
    (happly : s.apply (machine fmt) (.step i clock) = some s')
    (htrans : statusRecordTransition clock (some read) t.task.target t.task.requester
      = .error e) :
    s'.shared = s.shared ∧ ∃ t', s'.threads[i]? = some t' ∧ t'.returned t'.task.operation =
      some (.error (statusMachineErrorToRustvello e t.task.id read.status)) := by
  obtain ⟨s'', t', happly', hshared, ht', -, hbook⟩ := step_of_next fmt ht hnext clock
  rw [happly] at happly'
  obtain rfl := Option.some.inj happly'
  have hs' : Reachable (machine fmt) (Guard.top _ _ _) (idle keys) s' :=
    hs.next (l := .step i clock) (fun _ _ _ _ => trivial) happly
  have houtcome : (writer.book t').outcome =
      some (.error (statusMachineErrorToRustvello e t.task.id read.status)) := by
    have hrefusal : refusal t.task clock read =
        some (statusMachineErrorToRustvello e t.task.id read.status) := by
      simp only [refusal, htrans]
    rw [hbook]
    show ((writer.book t).read.bind (refusal (writer.book t).request clock)).map Except.error = _
    rw [hread, book_request, Option.bind_some, hrefusal]
    rfl
  exact ⟨hshared, t', ht', returned_of_outcome hs' (List.mem_of_getElem? ht') houtcome⟩

/-- What the script may find so that it does what it should: in a one-word status that was
read, no owner that matters but the requester; and no other status in the very record that
was read. -/
def FindsFit (request : CasRequest) (read stored : InvocationStatusRecord) : Prop :=
  (stored.status = read.status → OneWord stored.status →
    ¬ stored.status.Owned ∨ request.target.TakesOver ∨ stored.runnerId = request.requester) ∧
  (stored = read → OneWord stored.status)

section Condition

variable {fmt : RecordFormat} {keys : StatusKeys} {s : System casCalls StatusKeys CasRequest}
  {i : Nat} {request : CasRequest} {read stored update : InvocationStatusRecord}

/-- A sound write finds no owner that matters but the requester. -/
theorem CasStep.owner (hs : Reachable (machine fmt) (Guard.top _ _ _) (idle keys) s)
    (hstep : CasStep fmt s i) (h : Scripting s i request read stored update)
    (hstatus : stored.status = read.status) (hword : OneWord stored.status) :
    ¬ stored.status.Owned ∨ request.target.TakesOver ∨ stored.runnerId = request.requester := by
  obtain ⟨t, ht, -, -, hnext⟩ := h.thread
  obtain ⟨s', -, happly, -⟩ := step_of_next fmt ht hnext 0
  obtain ⟨now, htrans⟩ := h.computed hs
  have hwrites := (h.answer_eq_one_iff fmt).mpr ⟨hstatus, hword⟩
  obtain ⟨now', next', htrans', hlookup'⟩ := hstep.sound _ _ _ _ h hwrites 0 s' happly
  rw [h.stored_of_writes ⟨hstatus, hword⟩ 0 happly] at hlookup'
  obtain rfl := Option.some.inj hlookup'
  have hnow : now' = now := by
    rw [((statusRecordTransition_ok_iff _ _ _ _ _).mp htrans).2.2] at htrans'
    exact (congrArg InvocationStatusRecord.timestamp
      ((statusRecordTransition_ok_iff _ _ _ _ _).mp htrans').2.2).symm
  subst hnow
  exact (transition_same_status_iff hstatus htrans).mp htrans'

/-- An undisturbed iteration that settles has read a one-word status. -/
theorem CasStep.oneWord (hs : Reachable (machine fmt) (Guard.top _ _ _) (idle keys) s)
    (hstep : CasStep fmt s i) (h : Scripting s i request read read update) :
    OneWord read.status := by
  obtain ⟨t, ht, -, -, hnext⟩ := h.thread
  obtain ⟨s', -, happly, -⟩ := step_of_next fmt ht hnext 0
  by_contra hword
  -- the script reports a conflict, but no transition leads to the record that is there
  obtain ⟨now, htrans⟩ := h.computed hs
  obtain ⟨hcan, -, hupdate⟩ := (statusRecordTransition_ok_iff _ _ _ _ _).mp htrans
  have hlookup := (hstep.settles _ _ _ h 0 s' happly).1
  rw [h.stored_of_not_writes (fun hw => hword hw.2) 0 happly] at hlookup
  have hstatus : read.status = request.target := by
    rw [Option.some.inj hlookup, hupdate]
  rw [← hstatus, InvocationStatus.not_canTransitionTo_self] at hcan
  cases hcan

/-- **When the compare-and-set does what it should.**  In every state of every
interleaving and for every operation: exactly when what its script finds is fit. -/
theorem casStep_iff (hs : Reachable (machine fmt) (Guard.top _ _ _) (idle keys) s) (i : Nat) :
    CasStep fmt s i ↔ ∀ request read stored update,
      Scripting s i request read stored update → FindsFit request read stored := by
  constructor
  · intro hstep request read stored update h
    constructor
    · intro hstatus hword
      exact hstep.owner hs h hstatus hword
    · intro hsame
      subst hsame
      exact hstep.oneWord hs h
  · intro hfit
    refine ⟨?_, ?_, ?_⟩
    · intro request read stored update h hanswer clock s' happly
      obtain ⟨now, htrans⟩ := h.computed hs
      have hwrites := (h.answer_eq_one_iff fmt).mp hanswer
      have howner := (hfit _ _ _ _ h).1 hwrites.1 hwrites.2
      exact ⟨now, update, (transition_same_status_iff hwrites.1 htrans).mpr howner,
        h.stored_of_writes hwrites clock happly⟩
    · intro t read ht hnext hread clock s' e happly htrans
      exact refused hs ht hnext hread happly htrans
    · intro request read update h clock s' happly
      have hwrites := (hfit _ _ _ _ h).2 rfl
      exact ⟨h.stored_of_writes ⟨rfl, hwrites⟩ clock happly,
        h.returned_of_writes hs ⟨rfl, hwrites⟩ clock happly⟩

end Condition

/-! ## Two runs -/

/-- Start request number `i`, to be followed for two iterations, and let it make `n` calls. -/
def serve (i n : Nat) (target : InvocationStatus) (runner : String) :
    List (Label Timestamp CasRequest) :=
  .start ⟨⟨"inv"⟩, target, some ⟨runner⟩, 2⟩ :: Label.steps i n 0

/-- One registered invocation. -/
def oneRegistered : StatusKeys :=
  AList.insert ⟨"inv"⟩ ⟨.registered, none, 0⟩ ∅

/-- A format for the runs below: what it writes after the status plays no part. -/
def plainFormat : RecordFormat where
  rest runnerId _ := ",\"runner_id\":".toList ++
    ((runnerId.map fun r => '"' :: r.raw.toList ++ ['"']).getD "null".toList) ++
    ",\"timestamp\":\"1970-01-01T00:00:00Z\"\x7d".toList

/-- Operation `i` is about to move `inv` on: it read `read` and finds `stored`. -/
def AboutToWrite (i : Nat) (target : InvocationStatus) (runner : String)
    (read stored update : InvocationStatusRecord)
    (s : System casCalls StatusKeys CasRequest) : Prop :=
  s.threads[i]?.map (fun t => (t.task, (writer.book t).read, t.next?)) =
      some (⟨⟨"inv"⟩, target, some ⟨runner⟩, 2⟩, some read,
        some (.cas ⟨"inv"⟩ read.status.toName update)) ∧
    s.shared.lookup ⟨"inv"⟩ = some stored

instance (i : Nat) (target : InvocationStatus) (runner : String)
    (read stored update : InvocationStatusRecord) :
    DecidablePred (AboutToWrite i target runner read stored update) :=
  fun _ => inferInstanceAs (Decidable (_ ∧ _))

theorem AboutToWrite.scripting {i : Nat} {target : InvocationStatus} {runner : String}
    {read stored update : InvocationStatusRecord} {s : System casCalls StatusKeys CasRequest}
    (h : AboutToWrite i target runner read stored update s) :
    Scripting s i ⟨⟨"inv"⟩, target, some ⟨runner⟩, 2⟩ read stored update := by
  obtain ⟨hthread, hfound⟩ := h
  obtain ⟨t, ht, hparts⟩ := Option.map_eq_some_iff.mp hthread
  simp only [Prod.mk.injEq] at hparts
  obtain ⟨htask, hread, hnext⟩ := hparts
  exact ⟨⟨t, ht, htask, hread, hnext⟩, hfound⟩

/-- A worker that claimed an invocation moves it to `running`. -/
theorem casStep_of_owner :
    ∃ s, Reachable (machine plainFormat) (Guard.top _ _ _) (idle oneRegistered) s ∧
      AboutToWrite 1 .running "w1" ⟨.pending, some ⟨"w1"⟩, 0⟩ ⟨.pending, some ⟨"w1"⟩, 0⟩
        ⟨.running, some ⟨"w1"⟩, 0⟩ s ∧
      (CasStep plainFormat s 1 ↔ ∀ request read stored update,
        Scripting s 1 request read stored update → FindsFit request read stored) := by
  obtain ⟨s, hs, habout⟩ := Reachable.exists_of_run (machine plainFormat) (Guard.top _ _ _)
    (idle oneRegistered) (serve 0 3 .pending "w1" ++ serve 1 2 .running "w1")
    (AboutToWrite 1 .running "w1" ⟨.pending, some ⟨"w1"⟩, 0⟩ ⟨.pending, some ⟨"w1"⟩, 0⟩
      ⟨.running, some ⟨"w1"⟩, 0⟩)
    (Guard.allowsAll_top _ _ _) (by decide +kernel)
  exact ⟨s, hs, habout, casStep_iff hs 1⟩

/-- Recovery took the invocation over and is about to hand it back. -/
def handBack : List (Label Timestamp CasRequest) :=
  serve 0 3 .pending "w1" ++ serve 1 3 .pendingRecovery "recovery" ++
    serve 2 2 .rerouted "recovery"

/-- The first worker is about to start while the invocation is given to another one. -/
def lateStart : List (Label Timestamp CasRequest) :=
  serve 0 3 .pending "w1" ++ serve 1 2 .running "w1" ++ serve 2 3 .rerouted "w1" ++
    serve 3 3 .pending "w2"

/-- After the next call of operation `i` the record is `record`, and the operation is at `next`. -/
def Leaves (i : Nat) (record : InvocationStatusRecord) (next : Option CasCall)
    (s : System casCalls StatusKeys CasRequest) : Prop :=
  (s.apply (machine plainFormat) (.step i 0)).map
      (fun s' => (s'.shared.lookup ⟨"inv"⟩, s'.threads[i]?.map Thread.next?)) =
    some (some record, some next)

instance (i : Nat) (record : InvocationStatusRecord) (next : Option CasCall) :
    DecidablePred (Leaves i record next) :=
  fun _ => inferInstanceAs (Decidable (_ = _))

/-- **An endless loop, and a stale owner.**  The script does not recognise the name of
`PENDING_RECOVERY` in the record it stored itself, so the operation that alone works on
the invocation starts over; and it does not compare owners, so a worker moves an
invocation to `running` that is pending for another one. -/
theorem casStep_fails :
    (∃ s, Reachable (machine plainFormat) (Guard.top _ _ _) (idle oneRegistered) s ∧
      AboutToWrite 2 .rerouted "recovery" ⟨.pendingRecovery, none, 0⟩
        ⟨.pendingRecovery, none, 0⟩ ⟨.rerouted, none, 0⟩ s ∧
      Leaves 2 ⟨.pendingRecovery, none, 0⟩ (some (.get ⟨"inv"⟩)) s ∧
      ¬ CasStep plainFormat s 2) ∧
    (∃ s, Reachable (machine plainFormat) (Guard.top _ _ _) (idle oneRegistered) s ∧
      AboutToWrite 1 .running "w1" ⟨.pending, some ⟨"w1"⟩, 0⟩ ⟨.pending, some ⟨"w2"⟩, 0⟩
        ⟨.running, some ⟨"w1"⟩, 0⟩ s ∧
      Leaves 1 ⟨.running, some ⟨"w1"⟩, 0⟩ none s ∧ ¬ CasStep plainFormat s 1) := by
  constructor
  · obtain ⟨s, hs, habout, hleaves⟩ := Reachable.exists_of_run (machine plainFormat)
      (Guard.top _ _ _) (idle oneRegistered) handBack
      (fun s => AboutToWrite 2 .rerouted "recovery" ⟨.pendingRecovery, none, 0⟩
        ⟨.pendingRecovery, none, 0⟩ ⟨.rerouted, none, 0⟩ s ∧
        Leaves 2 ⟨.pendingRecovery, none, 0⟩ (some (.get ⟨"inv"⟩)) s)
      (Guard.allowsAll_top _ _ _) (by decide +kernel)
    refine ⟨s, hs, habout, hleaves, fun hstep => ?_⟩
    have hword := hstep.oneWord hs habout.scripting
    revert hword
    decide
  · obtain ⟨s, hs, habout, hleaves⟩ := Reachable.exists_of_run (machine plainFormat)
      (Guard.top _ _ _) (idle oneRegistered) lateStart
      (fun s => AboutToWrite 1 .running "w1" ⟨.pending, some ⟨"w1"⟩, 0⟩
        ⟨.pending, some ⟨"w2"⟩, 0⟩ ⟨.running, some ⟨"w1"⟩, 0⟩ s ∧
        Leaves 1 ⟨.running, some ⟨"w1"⟩, 0⟩ none s)
      (Guard.allowsAll_top _ _ _) (by decide +kernel)
    refine ⟨s, hs, habout, hleaves, fun hstep => ?_⟩
    have howner := hstep.owner hs habout.scripting rfl (by decide)
    revert howner
    decide

end Rustvello.Redis.StatusCas
