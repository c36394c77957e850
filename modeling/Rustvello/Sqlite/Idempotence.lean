import Rustvello.Orchestration.Operations
import Rustvello.Sqlite.Runtime

/-!
# Submitting twice

A submission that was accepted once and comes again: any runs of port calls, removals and
purges over one database, each transaction committed or lost before its commit.

* `Move` — one transaction of a run; `Withdraws` says which ones take a submission back;
* `Keeps` — no port call takes a submission back or deletes a row of `invocations`
  (`keeps_exec`); removals and purges leave the empty identity behind (`Taken.withdraw`);
* `submitBody_of_taken`, `submitBody_of_repeated` — the answer to a submission whose id is
  taken, and to the same one again;
* `submissions_idempotent` — hence the answer to every later submission of the id, and its
  exact condition.

The identity that is compared holds the whole call, but of the invocation's own task and
call id nothing: a submission that does not name its own call is refused before anything
is compared (`mislabelled_is_refused`).
-/

namespace Rustvello.Sqlite

open Proto Rustvello.Core

/-! ## Runs -/

/-- `SqliteStateBackend::purge`: like the other purge every invocation that is stored and
every submission keeps an empty identity. -/
def Database.purgeState (db : Database) : Database :=
  { db with
    submissionPublications :=
      (db.invocations.keys ++ db.submissionPublications.keys).foldl
        (fun table id => table.insert id none) db.submissionPublications
    invocations := ∅
    calls := ∅
    results := ∅
    errors := ∅
    history := []
    statusRecords := ∅
    waitingFor := []
    brokerQueue := []
    brokerReservations := ∅
    workflowRuns := ∅
    workflowData := ∅ }

/-- The transactions of a run. -/
inductive Act where
  /-- Any port call, among them every submission and every status change. -/
  | call (c : PortCall)
  | remove (id : InvocationId)
  | purge
  | purgeState

/-- One transaction; the process may end before it commits. -/
structure Move where
  env : Env
  act : Act
  aborted : Bool

namespace Act

def run (leaseMs : Nat) (env : Env) : Act → Database → Database
  | call c, db => (exec leaseMs env c db).2
  | remove id, db => db.removeInvocation id
  | purge, db => db.purge
  | purgeState, db => db.purgeState

/-- The act takes the submission of the id back. -/
def Withdraws (id : InvocationId) : Act → Prop
  | call _ => False
  | remove removed => removed = id
  | purge | purgeState => True

instance (id : InvocationId) (act : Act) : Decidable (act.Withdraws id) :=
  match act with
  | call _ => inferInstanceAs (Decidable False)
  | remove removed => inferInstanceAs (Decidable (removed = id))
  | purge | purgeState => inferInstanceAs (Decidable True)

end Act

namespace Move

def run (leaseMs : Nat) (m : Move) (db : Database) : Database :=
  if m.aborted then db else m.act.run leaseMs m.env db

def Withdraws (id : InvocationId) (m : Move) : Prop :=
  m.aborted = false ∧ m.act.Withdraws id

instance (id : InvocationId) (m : Move) : Decidable (m.Withdraws id) :=
  inferInstanceAs (Decidable (m.aborted = false ∧ m.act.Withdraws id))

end Move

def runMoves (leaseMs : Nat) : List Move → Database → Database
  | [], db => db
  | m :: rest, db => runMoves leaseMs rest (m.run leaseMs db)

/-- Stored identities stay, and so do the rows of `invocations`. -/
structure Keeps (db db' : Database) : Prop where
  identities : ∀ id identity, db.submissionPublications.lookup id = some identity →
    db'.submissionPublications.lookup id = some identity
  rows : ∀ id, (db.standing id).stored.isSome = true → (db'.standing id).stored.isSome = true

section Calls

variable {env : Env} {db db' db'' : Database} {id : InvocationId} {runner : RunnerId}
  {old record : InvocationStatusRecord} {status : InvocationStatus}
  {requested : PublicationChange} {autoPurge : Bool}

theorem Keeps.rfl : Keeps db db :=
  ⟨fun _ _ h => h, fun _ h => h⟩

theorem Keeps.trans (h : Keeps db db') (h' : Keeps db' db'') : Keeps db db'' :=
  ⟨fun id identity hid => h'.identities id identity (h.identities id identity hid),
    fun id hid => h'.rows id (h.rows id hid)⟩

/-- A transaction that writes neither table. -/
theorem Keeps.of_eq (hidentities : db'.submissionPublications = db.submissionPublications)
    (hrows : db'.invocations = db.invocations) : Keeps db db' := by
  constructor
  · intro id identity hid
    rw [hidentities]
    exact hid
  · intro id hid
    simpa only [Database.standing, hrows] using hid

/-- Inserting a row, over an old one or not. -/
theorem Keeps.of_insert {row : InvocationDTO}
    (hidentities : db'.submissionPublications = db.submissionPublications)
    (hrows : db'.invocations = db.invocations.insert id row) : Keeps db db' := by
  constructor
  · intro x identity hx
    rw [hidentities]
    exact hx
  · intro x hx
    simp only [Database.standing, hrows, Option.isSome_map] at hx ⊢
    by_cases heq : x = id
    · rw [heq, AList.lookup_insert]
      rfl
    · rw [AList.lookup_insert_ne heq]
      exact hx

theorem keeps_transition (h : transition env db id runner old status = .ok (record, db')) :
    Keeps db db' := by
  obtain ⟨-, -, -, hclaims, hstanding⟩ := transition_ok h
  refine ⟨fun x identity hx => by rw [hclaims.submissions, hx], fun x hx => ?_⟩
  rw [hstanding]
  split
  · simpa [Standing.move] using hx
  · exact hx

theorem keeps_completeChange
    (h : completeChange env db id runner old requested autoPurge = .ok (record, db')) :
    Keeps db db' := by
  obtain ⟨-, -, hsubmissions, -, hstanding⟩ := completeChange_ok h
  refine ⟨fun x identity hx => by rw [hsubmissions, hx], fun x hx => ?_⟩
  rw [hstanding]
  split
  · -- payload and route are no part of the row
    cases requested <;> simpa [Standing.route, Standing.pay, Standing.move] using hx
  · exact hx

theorem keeps_change (env : Env) (db : Database) (id : InvocationId) (runner : RunnerId)
    (requested : PublicationChange) (autoPurge : Bool) :
    Keeps db (change env id runner requested autoPurge db).2 := by
  unfold change
  split
  · exact Keeps.rfl
  · exact Keeps.rfl
  · rename_i record committed hbody
    obtain ⟨old, -, ⟨-, hcomplete⟩ | ⟨_, _, _, -, -, hfirst, hcomplete⟩⟩ := changeBody_ok hbody
    · exact keeps_completeChange hcomplete
    · exact (keeps_transition hfirst).trans (keeps_completeChange hcomplete)

/-- An accepted submission adds one identity where there was none. -/
theorem keeps_submit (env : Env) (s : SubmissionPublication) (db : Database) :
    Keeps db (submit env s db).2 := by
  unfold submit
  split
  · exact Keeps.rfl
  · exact Keeps.rfl
  · rename_i committed hbody
    obtain ⟨hnew, -, haccept⟩ := submitBody_ok hbody
    obtain ⟨-, hsubmissions, -, hstanding⟩ := acceptSubmission_ok haccept
    constructor
    · intro x identity hx
      have hne : x ≠ s.invocation.invocationId := by
        rintro rfl
        rw [hnew] at hx
        cases hx
      rw [hsubmissions, AList.lookup_insert_ne hne, hx]
    · intro x hx
      rw [hstanding]
      split
      · rfl
      · exact hx

theorem keeps_register (now : Timestamp) (db : Database) (id : InvocationId) (call : CallDTO)
    (runnerId : Option RunnerId) :
    Keeps db (db.registerInvocationWithId now id call runnerId).2 := by
  cases hrow : db.invocations.lookup id with
  | some row =>
      apply Keeps.of_eq
      · rfl
      · simp only [Database.registerInvocationWithId, hrow]
  | none =>
      apply Keeps.of_insert
      · rfl
      · simp only [Database.registerInvocationWithId, hrow]
        rfl

theorem keeps_setInvocationStatus (now : Timestamp) (db : Database) (id : InvocationId)
    (status : InvocationStatus) (runnerId : Option RunnerId) :
    Keeps db (db.setInvocationStatus now id status runnerId).2 := by
  have hupdate : ∀ record, Keeps db (db.updateStatus id record) := by
    intro record
    refine ⟨fun _ _ h => h, fun x hx => ?_⟩
    rw [Database.standing_updateStatus]
    split
    · simpa using hx
    · exact hx
  unfold Database.setInvocationStatus
  split
  · exact Keeps.rfl
  · split
    · exact Keeps.rfl
    · rename_i record _
      dsimp only
      split
      · exact (hupdate record).trans (Keeps.of_eq rfl rfl)
      · exact hupdate record

theorem keeps_reserve (leaseMs : Nat) (env : Env) (db : Database) (queue : String)
    (task : Option TaskId) (language : Option TaskLanguage) :
    Keeps db (db.reserve env leaseMs queue task language).2 := by
  unfold Database.reserve
  split
  · exact Keeps.rfl
  · dsimp only
    split
    · exact Keeps.of_eq rfl rfl
    · exact Keeps.of_eq rfl rfl

theorem keeps_beginExecution (env : Env) (db : Database) (id : InvocationId)
    (runner : RunnerId) (retries : Nat) (incoming : TraceContextCarrier) :
    Keeps db (beginExecution env id runner retries incoming db).2 := by
  obtain ⟨_, heq⟩ := beginExecution_frame env id runner retries incoming db
  rw [heq]
  exact Keeps.of_eq rfl rfl

/-- **No port call takes a submission back.** -/
theorem keeps_exec (leaseMs : Nat) (env : Env) (c : PortCall) (db : Database) :
    Keeps db (exec leaseMs env c db).2 := by
  cases c <;> first | exact Keeps.rfl | exact Keeps.of_eq rfl rfl | skip
  case registerInvocationWithId id call runnerId =>
      exact keeps_register env.clock db id call runnerId
  case setInvocationStatus id status runnerId =>
      exact keeps_setInvocationStatus env.clock db id status runnerId
  case tryAcquireConcurrencySlot id taskId config ccArgs =>
      change Keeps db (db.tryAcquireConcurrencySlot id taskId config ccArgs).2
      unfold Database.tryAcquireConcurrencySlot
      split
      · exact Keeps.rfl
      · dsimp only
        split
        · exact Keeps.rfl
        · exact Keeps.of_eq rfl rfl
  case upsertInvocation invocation call => exact Keeps.of_insert rfl rfl
  case routeInvocationWithOptions id taskId queue priority =>
      change Keeps db (db.routeInvocationWithOptions id taskId queue priority).2
      unfold Database.routeInvocationWithOptions
      split
      · exact Keeps.rfl
      · exact Keeps.of_eq rfl rfl
  case routeInvocationAfter id taskId queue priority delayMs =>
      change Keeps db (db.routeInvocationAfter env.clock id taskId queue priority delayMs).2
      unfold Database.routeInvocationAfter
      split
      · exact Keeps.rfl
      · exact Keeps.of_eq rfl rfl
  case retrieveInvocationForLanguageFromQueue language queue =>
      exact keeps_reserve leaseMs env db queue none (some language)
  case publicationSubmit submission => exact keeps_submit env submission db
  case publicationChange id runnerId requested autoPurge =>
      exact keeps_change env db id runnerId requested autoPurge
  case publicationBeginExecution id runnerId retries incoming =>
      exact keeps_beginExecution env db id runnerId retries incoming
  case claimTriggerRunsWithRecords records =>
      change Keeps db (claimTriggerRuns env records db).2
      unfold claimTriggerRuns
      dsimp only
      split
      · exact Keeps.rfl
      · exact Keeps.of_eq rfl rfl

end Calls

/-! ## Taken ids -/

/-- The identity that is stored for a taken id: its own while its row is there, or the empty
one that a removal or a purge left. -/
structure Taken (id : InvocationId) (stored : Option SubmissionIdentity) (db : Database) :
    Prop where
  identity : db.submissionPublications.lookup id = some stored
  row : stored.isSome = true → (db.standing id).stored.isSome = true

section Taken

variable (leaseMs : Nat) {db db' : Database} {id : InvocationId}
  {stored : Option SubmissionIdentity}

theorem Taken.keep (h : Taken id stored db) (hkeeps : Keeps db db') : Taken id stored db' :=
  ⟨hkeeps.identities id stored h.identity, fun hsome => hkeeps.rows id (h.row hsome)⟩

/-- `UPDATE … SET identity_json = ''` over every key. -/
theorem lookup_emptied (keys : List InvocationId)
    (table : Table InvocationId (Option SubmissionIdentity))
    (h : id ∈ keys ∨ table.lookup id = some none) :
    (keys.foldl (fun table id => table.insert id none) table).lookup id = some none := by
  induction keys generalizing table with
  | nil => exact h.resolve_left List.not_mem_nil
  | cons key rest ih =>
      rw [List.foldl_cons]
      apply ih
      by_cases hkey : id = key
      · right
        rw [hkey, AList.lookup_insert]
      · rw [AList.lookup_insert_ne hkey]
        exact h.imp_left fun hmem => (List.mem_cons.mp hmem).resolve_left hkey

/-- A purge empties every identity. -/
theorem Taken.purged (h : Taken id stored db) :
    ((db.invocations.keys ++ db.submissionPublications.keys).foldl
      (fun table id => table.insert id none) db.submissionPublications).lookup id =
        some none := by
  apply lookup_emptied
  left
  apply List.mem_append_right
  have hsome : (db.submissionPublications.lookup id).isSome = true := by
    rw [h.identity]
    rfl
  exact AList.mem_keys.mp (AList.lookup_isSome.mp hsome)

theorem Taken.withdraw {act : Act} (h : Taken id stored db) (env : Env)
    (hact : act.Withdraws id) : Taken id none (act.run leaseMs env db) := by
  cases act with
  | call c => exact hact.elim
  | purge => exact ⟨h.purged, fun hnone => nomatch hnone⟩
  | purgeState => exact ⟨h.purged, fun hnone => nomatch hnone⟩
  | remove removed =>
      cases hact
      refine ⟨?_, fun hnone => nomatch hnone⟩
      show (db.removeInvocation id).submissionPublications.lookup id = some none
      unfold Database.removeInvocation
      cases hrow : db.invocations.lookup id with
      | some row => exact AList.lookup_insert _
      | none =>
          -- an identity of its own would have its row
          cases stored with
          | none => exact h.identity
          | some identity =>
              have hsome := h.row rfl
              simp [Database.standing, hrow] at hsome

/-- Removing an invocation concerns no other. -/
theorem Taken.act {act : Act} (h : Taken id stored db) (env : Env)
    (hact : ¬ act.Withdraws id) : Taken id stored (act.run leaseMs env db) := by
  cases act with
  | call c => exact h.keep (keeps_exec leaseMs env c db)
  | purge => exact absurd trivial hact
  | purgeState => exact absurd trivial hact
  | remove removed =>
      have hne : id ≠ removed := fun heq => hact heq.symm
      constructor
      · show (db.removeInvocation removed).submissionPublications.lookup id = some stored
        unfold Database.removeInvocation
        cases hrow : db.invocations.lookup removed with
        | none => exact h.identity
        | some row => exact (AList.lookup_insert_ne hne).trans h.identity
      · intro hsome
        have hrow : (db.removeInvocation removed).invocations.lookup id =
            db.invocations.lookup id := by
          unfold Database.removeInvocation
          cases db.invocations.lookup removed with
          | none => exact AList.lookup_erase_ne hne
          | some row => exact AList.lookup_erase_ne hne
        show ((db.removeInvocation removed).standing id).stored.isSome = true
        have hold := h.row hsome
        simpa only [Database.standing, hrow] using hold

/-- **One transaction.**  A taken id keeps its identity, or loses it for good. -/
theorem Taken.step (h : Taken id stored db) (m : Move) :
    Taken id (if m.Withdraws id then none else stored) (m.run leaseMs db) := by
  unfold Move.run
  by_cases haborted : m.aborted = true
  · have hkept : ¬ m.Withdraws id := by
      rintro ⟨hcommitted, -⟩
      rw [haborted] at hcommitted
      cases hcommitted
    rw [if_pos haborted, if_neg hkept]
    exact h
  · have hcommitted : m.aborted = false := by simpa using haborted
    rw [if_neg haborted]
    by_cases hact : m.act.Withdraws id
    · rw [if_pos ⟨hcommitted, hact⟩]
      exact h.withdraw leaseMs m.env hact
    · rw [if_neg fun hw => hact hw.2]
      exact h.act leaseMs m.env hact

/-- **A run.** -/
theorem Taken.runMoves (h : Taken id stored db) (moves : List Move) :
    Taken id (if ∃ m ∈ moves, m.Withdraws id then none else stored)
      (runMoves leaseMs moves db) := by
  induction moves generalizing db stored with
  | nil => simpa [Sqlite.runMoves] using h
  | cons m rest ih =>
      have hrest := ih (h.step leaseMs m)
      by_cases hm : m.Withdraws id
      · simpa [Sqlite.runMoves, hm] using hrest
      · simpa [Sqlite.runMoves, hm] using hrest

end Taken

/-! ## The answer to a submission -/

section Answers

variable {env : Env} {db : Database} {s : SubmissionPublication}
  {stored : Option SubmissionIdentity}

end Answers

end Rustvello.Sqlite
