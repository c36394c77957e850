import Rustvello.Redis.Conservation

/-!
# Submissions to Redis are accepted once

Any number of clients, their requests interleaved in any order.

* `submissions_exec` — only an accepted submission writes an identity;
* `redis_submitted_once` — hence over whole runs.
-/

namespace Rustvello.Redis

open Concurrency Proto Rustvello.Core Keyspace

section Keys

variable {fmt : ScoreFormat} {ks : Keyspace}

theorem submissions_remove (ks : Keyspace) (id : Word) :
    (ks.removeQueued id).submissions = ks.submissions ∧
      (ks.removeLeased id).submissions = ks.submissions := by
  constructor
  · unfold Keyspace.removeQueued
    split <;> rfl
  · unfold Keyspace.removeLeased
    split <;> rfl

theorem submissions_popScript (args : PopArgs) :
    (ks.popScript fmt args).2.submissions = ks.submissions := by
  have hstep : ∀ (ks : Keyspace) member,
      (ks.expireLease fmt member).submissions = ks.submissions := by
    intro ks member
    unfold Keyspace.expireLease
    dsimp only
    split
    · rfl
    · split
      · split <;> rfl
      · rfl
  have hexpired : (ks.expireLeases fmt args.now).submissions = ks.submissions := by
    unfold Keyspace.expireLeases
    generalize zrangebyscore ks.leases args.now = members
    induction members generalizing ks with
    | nil => rfl
    | cons member rest ih => exact ih.trans (hstep ks member)
  unfold popScript
  dsimp only
  split <;> exact hexpired

theorem submissions_applyChange (args : ChangeArgs) :
    (ks.applyChange args).submissions = ks.submissions := by
  have hmoved : (ks.moveDelivery args).submissions = ks.submissions := by
    have hremoved := (submissions_remove ((ks.removeQueued (idWord args.id)).unlist
      (idWord args.id)) (idWord args.id)).2.trans (submissions_remove ks (idWord args.id)).1
    unfold Keyspace.moveDelivery
    dsimp only
    split <;> exact hremoved
  have hpushed : ∀ (histories : List InvocationHistory) (ks : Keyspace),
      (histories.foldl (fun ks history => ks.pushHistory args.id history) ks).submissions =
        ks.submissions := by
    intro histories
    induction histories with
    | nil => exact fun _ => rfl
    | cons history rest ih => exact fun ks => ih _
  have hpaid : ∀ ks : Keyspace, (ks.writePayload args).submissions = ks.submissions := by
    intro ks
    unfold Keyspace.writePayload
    split <;> rfl
  have hended : ∀ ks : Keyspace, (ks.writeTerminal args).submissions = ks.submissions := by
    intro ks
    unfold Keyspace.writeTerminal
    split
    · dsimp only
      split <;> rfl
    · rfl
  unfold Keyspace.applyChange
  dsimp only
  rw [hended]
  split
  · exact (hpaid _).trans ((hpushed _ _).trans hmoved)
  · exact (hpaid _).trans ((hpushed _ _).trans hmoved)

/-- **Only an accepted submission writes an identity.** -/
theorem submissions_exec (env : Env) {c : RedisCall} (hc : ∀ args, c ≠ .submit args) :
    (exec fmt env c ks).2.submissions = ks.submissions := by
  cases c with
  | utcNow => rfl
  | getCurrent _ => rfl
  | getHeartbeat _ => rfl
  | submit args => exact absurd rfl (hc args)
  | pop args => exact submissions_popScript args
  | incrSequence =>
      show ks.incrSequence.2.submissions = _
      unfold Keyspace.incrSequence
      split <;> rfl
  | route args =>
      have hremoved := (submissions_remove (ks.removeQueued (idWord args.id))
        (idWord args.id)).2.trans (submissions_remove ks (idWord args.id)).1
      show (ks.routeScript args).2.submissions = _
      unfold routeScript
      dsimp only
      split
      · rfl
      · split <;> exact hremoved
  | change args =>
      show (ks.changeScript args).2.submissions = _
      unfold changeScript
      split
      · rfl
      · exact submissions_applyChange args

variable {args : SubmitArgs} {identity : SubmissionIdentity}

/-- A stored identity decides. -/
theorem submitScript_of_stored
    (h : ks.submissions.lookup args.submission.invocation.invocationId = some (some identity)) :
    ks.submitScript args =
      (if submissionIdentity args.submission = identity then 0 else -3, ks) := by
  unfold submitScript submitRefusal
  simp only [h]
  by_cases hsame : identity = submissionIdentity args.submission
  · simp [hsame]
  · simp [hsame, Ne.symm hsame]

/-- No refusal is answered with one. -/
theorem submitScript_accepted (h : (ks.submitScript args).1 = 1) :
    ks.submissions.lookup args.submission.invocation.invocationId = none ∧
      (ks.submitScript args).2.submissions = ks.submissions.insert
        args.submission.invocation.invocationId (some (submissionIdentity args.submission)) := by
  cases hlookup : ks.submissions.lookup args.submission.invocation.invocationId with
  | none =>
      refine ⟨rfl, ?_⟩
      unfold submitScript at h ⊢
      cases hrefusal : submitRefusal args ks with
      | none => rfl
      | some code =>
          exfalso
          rw [hrefusal] at h
          obtain rfl : code = 1 := h
          simp only [submitRefusal, hlookup] at hrefusal
          split at hrefusal
          · simp at hrefusal
          · split at hrefusal
            · simp at hrefusal
            · split at hrefusal <;> simp at hrefusal
  | some stored =>
      exfalso
      cases stored with
      | none => simp [submitScript, submitRefusal, hlookup] at h
      | some identity =>
          rw [submitScript_of_stored hlookup] at h
          dsimp only at h
          split at h <;> omega

/-- **A stored identity stays.** -/
theorem stored_exec {id : InvocationId} (h : ks.submissions.lookup id = some (some identity))
    (env : Env) (c : RedisCall) :
    (exec fmt env c ks).2.submissions.lookup id = some (some identity) := by
  by_cases hc : ∀ args, c ≠ .submit args
  · rw [submissions_exec env hc]
    exact h
  · simp only [not_forall, not_not] at hc
    obtain ⟨args, rfl⟩ := hc
    show (ks.submitScript args).2.submissions.lookup id = _
    by_cases haccepted : (ks.submitScript args).1 = 1
    · obtain ⟨hnone, hinsert⟩ := submitScript_accepted haccepted
      have hid : id ≠ args.submission.invocation.invocationId := by
        rintro rfl
        rw [h] at hnone
        cases hnone
      rw [hinsert, AList.lookup_insert_ne hid, h]
    · unfold submitScript at haccepted ⊢
      split
      · exact h
      · rename_i hrefusal
        rw [hrefusal] at haccepted
        exact absurd rfl haccepted

end Keys

/-- **Submissions are accepted once.**  A submission that is accepted finds none stored under
its id.  From then on, in every interleaving of any clients' requests, every submission of the
id changes nothing; it is answered with zero if its identity is the accepted one, and refused if
it is another one. -/
theorem redis_submitted_once (pool : RedisPool) (fmt : ScoreFormat) (ks : Keyspace)
    (accepted args : SubmitArgs) (haccepted : (ks.submitScript accepted).1 = 1)
    (hid : args.submission.invocation.invocationId =
      accepted.submission.invocation.invocationId)
    {s s' : System server Keyspace Request} (hs : s.shared = (ks.submitScript accepted).2)
    (hlater : Reachable (redisMachine pool fmt) (Guard.top _ _ _) s s') :
    ks.submissions.lookup accepted.submission.invocation.invocationId = none ∧
      s'.shared.submitScript args =
        (if submissionIdentity args.submission = submissionIdentity accepted.submission then 0
          else -3, s'.shared) := by
  obtain ⟨hnone, hinsert⟩ := submitScript_accepted haccepted
  refine ⟨hnone, submitScript_of_stored ?_⟩
  rw [hid]
  refine hlater.shared_invariant (fun ks => ks.submissions.lookup
    accepted.submission.invocation.invocationId =
      some (some (submissionIdentity accepted.submission))) ?_
    fun _ _ env c _ h => stored_exec h env c
  show s.shared.submissions.lookup _ = _
  rw [hs, hinsert, AList.lookup_insert]

/-- The second of two submissions is answered with zero, although a retrieval came between. -/
theorem redis_submitted_once_retrieved :
    let task : TaskId := ⟨.rust, "tasks", "serial"⟩
    let call := CallDTO.new (fun _ => "") task .empty
    let submission : SubmissionPublication :=
      ⟨.new 0 ⟨"a"⟩ task call.callId, call, ⟨"client"⟩, false, none, ⟨defaultQueue, .finite 0⟩⟩
    let record : InvocationStatusRecord := ⟨.registered, some ⟨"client"⟩, 0⟩
    let args : SubmitArgs := ⟨submission, ⟨defaultQueue, .finite 0, by decide⟩, 1, record,
      historyEntry ⟨"a"⟩ record ⟨"client"⟩, 10⟩
    ∃ s : System server Keyspace Request, s.shared.leases.keys ≠ [] ∧
      s.shared.submitScript args = (0, s.shared) := by
  intro task call submission record args
  obtain ⟨s, hlater, hleased⟩ := Reachable.exists_of_run (redisMachine plainPool plainFormat)
    (Guard.top _ _ _) ⟨(Keyspace.submitScript args {}).2, []⟩
    (.start retrieveAny :: Label.steps 0 2 (atMs 0)) (fun s => s.shared.leases.keys ≠ [])
    (Guard.allowsAll_top _ _ _) (by decide +kernel)
  refine ⟨s, hleased, ?_⟩
  exact (redis_submitted_once plainPool plainFormat {} args args (by decide +kernel) rfl rfl
    hlater).2.trans (by rw [if_pos rfl])

end Rustvello.Redis
