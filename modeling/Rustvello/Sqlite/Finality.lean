import Rustvello.Sqlite.Consistency

/-!
# The outcome of an invocation is final

Runs of submissions, status changes and reservations, any of which may stop at a boundary
before its commit: an invocation that has ended stays as it is.

* `change_of_terminal` — a change of it is refused;
* `standing_of_terminal` — no transaction changes what the tables say about it;
* `outcome_final` — hence over whole runs.
-/

namespace Rustvello.Sqlite

open Proto Rustvello.Core

/-- The transactions of a continued run, in their order. -/
def runFrom (leaseMs : Nat) (steps : List (Env × Transaction)) (db : Database) : Database :=
  steps.foldl (fun db step => step.2.run leaseMs step.1 db) db

section Runs

variable {leaseMs : Nat} {env : Env} {db db' : Database}
  {log : List (InvocationId × PublicationChange)} {id : InvocationId}
  {record : InvocationStatusRecord}

/-- Whatever is committed begins with a transition out of the stored status. -/
theorem open_of_changeBody {runner : RunnerId} {requested : PublicationChange} {autoPurge : Bool}
    {old : InvocationStatusRecord} (hold : db.statusRecords.lookup id = some old)
    (hbody : changeBody env id runner requested autoPurge db = .ok (some (record, db'))) :
    old.status.isTerminal = false := by
  obtain ⟨stored, hstored, hcases⟩ := changeBody_ok hbody
  obtain rfl : stored = old := Option.some.inj (hstored.symm.trans hold)
  have hleft : ∃ status, stored.status.canTransitionTo status = true := by
    rcases hcases with ⟨-, hcomplete⟩ | ⟨_, _, _, -, -, hfirst, -⟩
    · exact ⟨_, (completeChange_ok hcomplete).1⟩
    · exact ⟨_, (transition_ok hfirst).1⟩
  obtain ⟨status, hcan⟩ := hleft
  by_contra hterminal
  rw [Bool.not_eq_false] at hterminal
  rw [InvocationStatus.canTransitionTo_of_isTerminal hterminal] at hcan
  cases hcan

/-- **A change of an invocation that has ended is refused.** -/
theorem change_of_terminal (hrecord : db.statusRecords.lookup id = some record)
    (hterminal : record.status.isTerminal = true) (env : Env) (runner : RunnerId)
    (requested : PublicationChange) (autoPurge : Bool) :
    (∃ e, change env id runner requested autoPurge db = (.error e, db)) ∨
      change env id runner requested autoPurge db = (.ok none, db) := by
  unfold change
  cases hbody : changeBody env id runner requested autoPurge db with
  | error e => exact .inl ⟨e, rfl⟩
  | ok done =>
      cases done with
      | none => exact .inr rfl
      | some done =>
          obtain ⟨written, committed⟩ := done
          have hopen := open_of_changeBody hrecord hbody
          rw [hterminal] at hopen
          cases hopen

/-- Only what was submitted has a record. -/
theorem Consistent.submitted_of_record (h : Consistent db log)
    (hrecord : db.statusRecords.lookup id = some record) :
    (db.submissionPublications.lookup id).isSome = true := by
  by_contra hnone
  have hnothing : db.statusRecords.lookup id = none := (h.unknown id (by simpa using hnone)).1
  rw [hrecord] at hnothing
  cases hnothing

/-- The tables other than the queue. -/
theorem frame_reserve (leaseMs : Nat) (env : Env) (db : Database) (id : InvocationId)
    (queue : String) (task : Option TaskId) (language : Option TaskLanguage) :
    let reserved := (db.reserve env leaseMs queue task language).2
    reserved.submissionPublications = db.submissionPublications ∧
      { reserved.standing id with queued := (db.standing id).queued } = db.standing id := by
  unfold Database.reserve
  split
  · exact ⟨rfl, rfl⟩
  · dsimp only
    split
    · exact ⟨rfl, rfl⟩
    · exact ⟨rfl, rfl⟩

/-- **No transaction changes what the tables say about an invocation that has ended.** -/
theorem standing_of_terminal (h : Committed leaseMs db log)
    (hrecord : db.statusRecords.lookup id = some record)
    (hterminal : record.status.isTerminal = true) (env : Env) {t : Transaction}
    (hadmissible : t.IsAdmissible) : (t.run leaseMs env db).standing id = db.standing id := by
  have hconsistent := committed_consistent h
  have hsubmitted := hconsistent.submitted_of_record hrecord
  cases t with
  | heartbeat runner => rfl
  | submit s =>
      change (Sqlite.submit env s db).2.standing id = _
      unfold Sqlite.submit
      split
      · rfl
      · rfl
      · rename_i committed hbody
        obtain ⟨hnew, -, haccept⟩ := submitBody_ok hbody
        obtain ⟨-, -, -, hstanding⟩ := acceptSubmission_ok haccept
        have hid : id ≠ s.invocation.invocationId := by
          rintro rfl
          rw [hnew] at hsubmitted
          cases hsubmitted
        rw [hstanding, if_neg hid]
  | change x runner requested autoPurge =>
      change (Sqlite.change env x runner requested autoPurge db).2.standing id = _
      by_cases hx : id = x
      · subst hx
        rcases change_of_terminal hrecord hterminal env runner requested autoPurge with
          ⟨e, hrefused⟩ | hrefused
        · rw [hrefused]
        · rw [hrefused]
      · unfold Sqlite.change
        split
        · rfl
        · rfl
        · rename_i written committed hbody
          obtain ⟨old, hold, -⟩ := changeBody_ok hbody
          obtain ⟨status, hstep⟩ := hconsistent.submitted x (hconsistent.submitted_of_record hold)
          exact (inStep_change hstep hadmissible hbody).2.1 id hx
  | reserve queue task language =>
      change (db.reserve env leaseMs queue task language).2.standing id = _
      obtain ⟨hsubmissions, hkept⟩ := frame_reserve leaseMs env db id queue task language
      have hafter : Consistent (db.reserve env leaseMs queue task language).2 log :=
        hconsistent.reserve leaseMs queue task language
      generalize (db.reserve env leaseMs queue task language).2 = reserved at hsubmissions hkept hafter ⊢
      -- both queues hold as many entries as the status asks for
      obtain ⟨status, hstep⟩ := hconsistent.submitted id hsubmitted
      obtain ⟨status', hstep'⟩ := hafter.submitted id (by rw [hsubmissions]; exact hsubmitted)
      have hrecords := congrArg Standing.record hkept
      change (reserved.standing id).record = (db.standing id).record at hrecords
      have hstatus : status' = status := by
        have hnow := hstep'.record
        rw [hrecords, hstep.record] at hnow
        exact (Option.some.inj hnow).symm
      have hqueued : (reserved.standing id).queued = (db.standing id).queued := by
        rw [hstep'.queued, hstep.queued, hstatus]
      rw [← hkept, ← hqueued]

/-- **The outcome is final.**  Once the stored status is terminal, every continuation of the run,
each transaction stopped at any boundary or not, leaves what the tables say about the invocation
as it is: both statuses, owner, history, retries, deliveries, result and error.  Every later
change of it is refused, with an error or with nothing to recover, and changes no table. -/
theorem outcome_final (leaseMs : Nat) (db : Database)
    (log : List (InvocationId × PublicationChange)) (h : Committed leaseMs db log)
    (id : InvocationId) (record : InvocationStatusRecord)
    (hrecord : db.statusRecords.lookup id = some record)
    (hterminal : record.status.isTerminal = true) (steps : List (Env × Transaction))
    (hsteps : ∀ step ∈ steps, step.2.IsAdmissible) :
    let later := runFrom leaseMs steps db
    later.standing id = db.standing id ∧
      ∀ env runner requested autoPurge,
        (∃ e, change env id runner requested autoPurge later = (.error e, later)) ∨
          change env id runner requested autoPurge later = (.ok none, later) := by
  induction steps generalizing db log with
  | nil => exact ⟨rfl, change_of_terminal hrecord hterminal⟩
  | cons step rest ih =>
      have hfirst := hsteps step List.mem_cons_self
      have hsame := standing_of_terminal h hrecord hterminal step.1 hfirst
      have hrecord' : (step.2.run leaseMs step.1 db).statusRecords.lookup id = some record :=
        (congrArg Standing.record hsame).trans hrecord
      obtain ⟨hstanding, hrefused⟩ := ih _ _ (.next step.1 step.2 h hfirst) hrecord'
        fun other hother => hsteps other (List.mem_cons_of_mem _ hother)
      exact ⟨hstanding.trans hsame, hrefused⟩

end Runs

/-- The second completion of `completedTwice` is committed; after further transactions a third
one still comes too late. -/
theorem outcome_final_completedTwice :
    ∃ db log, Committed 60000 db log ∧
      (change {} ⟨"a"⟩ ⟨"w"⟩ (.success "third") false
        (runFrom 60000 completedTwice db)).2.results.lookup ⟨"a"⟩ = some "second" := by
  have hrun := committed_runAll 60000 completedTwice
    (by simp [completedTwice, Transaction.IsAdmissible, Admissible])
  obtain ⟨-, hrefused⟩ := outcome_final 60000 _ _ hrun ⟨"a"⟩ ⟨.success, none, 0⟩
    (by decide +kernel) (by decide) completedTwice
    (by simp [completedTwice, Transaction.IsAdmissible, Admissible])
  refine ⟨_, _, hrun, ?_⟩
  have hresult : (runFrom 60000 completedTwice (runAll 60000 completedTwice).1).results.lookup
      ⟨"a"⟩ = some "second" := by decide +kernel
  obtain ⟨e, hthird⟩ | hthird := hrefused {} ⟨"w"⟩ (.success "third") false
  · exact (congrArg (fun answer => answer.2.results.lookup ⟨"a"⟩) hthird).trans hresult
  · exact (congrArg (fun answer => answer.2.results.lookup ⟨"a"⟩) hthird).trans hresult

end Rustvello.Sqlite
