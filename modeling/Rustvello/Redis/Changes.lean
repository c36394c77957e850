import Rustvello.Core.Account
import Rustvello.Redis.Conservation

/-!
# Changes of the Redis publication, account by account

* `Keyspace.account` — what the keys hold about one invocation, its delivery read off its
  place;
* `Tracked` — the reverse sets know every argument pair of an invocation, so that the end of
  the invocation finds them all;
* `applyChange_commits` — the script commits the planned change under `policy`;
* `change_commits` — the whole operation, run alone.
-/

namespace Rustvello.Redis

open Concurrency Proto Rustvello.Core Text Keyspace

/-! ## Accounts in the keys -/

def historyItem (history : InvocationHistory) : HistoryEntry :=
  ⟨history.statusRecord.status, history.runnerId, history.statusRecord.timestamp, history.message⟩

def Entry.delivery (e : Entry) : Delivery :=
  ⟨e.route.queue, e.route.priority, e.task⟩

/-- A leased entry is still to be delivered. -/
def Place.deliveries : Place → List Delivery
  | absent => []
  | queued e | leased e _ => [e.delivery]

def Keyspace.account (ks : Keyspace) (id : InvocationId) (place : Place) : Account where
  record := ks.status.lookup id
  invocation := ks.invocations.lookup id
  history := ((ks.histories.lookup id).getD []).map historyItem
  retries := (ks.retries.lookup id).getD 0
  result := ks.results.lookup id
  error := ks.errors.lookup id
  deliveries := place.deliveries
  waiters := {waiter | waiter ∈ (ks.waiters.lookup id).getD []}
  pairs := {pair | id ∈ (ks.cc.lookup (ccKey pair.1 pair.2)).getD []}
  purgeAt := ks.autoPurge.lookup id

/-- Every change ends the delivery, and only a final status gives the argument pairs back. -/
def policy : Policy where
  ends _ := true
  freesRouted := false

/-- The verdict of a recovery on the present owner; without a heartbeat it is gone. -/
def alive (now : Timestamp) (ks : Keyspace) (old : InvocationStatusRecord) :
    PublicationChange → RustvelloResult Bool
  | .recover _ staleAfterSeconds _ =>
      let cutoff := now - (min staleAfterSeconds 31536000 : Nat) * 1000000000
      let seen := if old.status = .pending then some old.timestamp
        else ks.heartbeats.lookup (old.runnerId.getD ⟨""⟩)
      .ok (seen.any fun timestamp => decide (cutoff ≤ timestamp))
  | _ => .ok false

/-- The words of the Redis publication. -/
def ownerReason : String := "completion requires current Running ownership"

/-- An invocation under an argument pair has the pair in its reverse set. -/
def Tracked (ks : Keyspace) : Prop :=
  ∀ id key, id ∈ (ks.cc.lookup key).getD [] → key ∈ (ks.ccReverse.lookup id).getD []

/-! ## The parts of the script -/

section Sets

variable {K A : Type} [DecidableEq K] [DecidableEq A]

theorem mem_srem (sets : Table K (List A)) (key k : K) (a b : A) :
    b ∈ ((srem sets key a).lookup k).getD [] ↔
      b ∈ (sets.lookup k).getD [] ∧ ¬ (k = key ∧ b = a) := by
  unfold srem
  split
  · rename_i hnone
    constructor
    · intro hmem
      refine ⟨hmem, fun ⟨hk, _⟩ => ?_⟩
      rw [hk, hnone] at hmem
      exact absurd hmem List.not_mem_nil
    · exact fun hmem => hmem.1
  · rename_i old hold
    dsimp only
    by_cases hk : k = key
    · subst hk
      have hrest : b ∈ old.filter (fun b => b ≠ a) ↔ b ∈ old ∧ b ≠ a := by simp
      split
      · rename_i hempty
        rw [hempty] at hrest
        simpa [hold] using hrest
      · simp [hold]
    · split
      · simp [AList.lookup_erase_ne hk, hk]
      · simp [AList.lookup_insert_ne hk, hk]

theorem mem_foldl_srem (keys : List K) (sets : Table K (List A)) (k : K) (a b : A) :
    b ∈ ((keys.foldl (fun sets key => srem sets key a) sets).lookup k).getD [] ↔
      b ∈ (sets.lookup k).getD [] ∧ ¬ (k ∈ keys ∧ b = a) := by
  induction keys generalizing sets with
  | nil => simp
  | cons key rest ih =>
      rw [List.foldl_cons, ih, mem_srem, List.mem_cons]
      tauto

end Sets

section Script

variable {fmt : ScoreFormat} {ks ks' : Keyspace} {id : InvocationId} {args : ChangeArgs}

/-- An invocation leaves the index completely, and nobody else does. -/
theorem mem_cc_unindexPairs (htracked : Tracked ks) (x : InvocationId) (key : Word) :
    x ∈ ((ks.unindexPairs id).cc.lookup key).getD [] ↔
      x ∈ (ks.cc.lookup key).getD [] ∧ x ≠ id := by
  show x ∈ ((((ks.ccReverse.lookup id).getD []).foldl (fun sets key => srem sets key id)
    ks.cc).lookup key).getD [] ↔ _
  rw [mem_foldl_srem]
  constructor
  · intro ⟨hmem, hkept⟩
    refine ⟨hmem, fun hx => hkept ⟨?_, hx⟩⟩
    subst hx
    exact htracked x key hmem
  · intro ⟨hmem, hx⟩
    exact ⟨hmem, fun hgone => hx hgone.2⟩

theorem Tracked.unindexPairs (h : Tracked ks) (id : InvocationId) :
    Tracked (ks.unindexPairs id) := by
  intro x key hmem
  obtain ⟨hold, hx⟩ := (mem_cc_unindexPairs h x key).mp hmem
  have hreverse : (ks.unindexPairs id).ccReverse.lookup x = ks.ccReverse.lookup x :=
    AList.lookup_erase_ne hx
  rw [hreverse]
  exact h x key hold

theorem Tracked.writeTerminal (h : Tracked ks) (args : ChangeArgs) :
    Tracked (ks.writeTerminal args) := by
  have hfreed := h.unindexPairs args.id
  unfold Keyspace.writeTerminal
  split
  · dsimp only
    split
    · exact hfreed
    · exact hfreed
  · exact h

/-- The broker part of a change writes no other key. -/
theorem moveDelivery_same (ks : Keyspace) (args : ChangeArgs) :
    (∀ x place, (ks.moveDelivery args).account x place = ks.account x place) ∧
      (ks.moveDelivery args).heartbeats = ks.heartbeats ∧ (ks.moveDelivery args).cc = ks.cc ∧
      (ks.moveDelivery args).ccReverse = ks.ccReverse := by
  have hqueued : ∀ (ks : Keyspace) word,
      (∀ x place, (ks.removeQueued word).account x place = ks.account x place) ∧
        (ks.removeQueued word).heartbeats = ks.heartbeats ∧ (ks.removeQueued word).cc = ks.cc ∧
        (ks.removeQueued word).ccReverse = ks.ccReverse := by
    intro ks word
    unfold Keyspace.removeQueued
    split
    · exact ⟨fun _ _ => rfl, rfl, rfl, rfl⟩
    · exact ⟨fun _ _ => rfl, rfl, rfl, rfl⟩
  have hleased : ∀ (ks : Keyspace) word,
      (∀ x place, (ks.removeLeased word).account x place = ks.account x place) ∧
        (ks.removeLeased word).heartbeats = ks.heartbeats ∧ (ks.removeLeased word).cc = ks.cc ∧
        (ks.removeLeased word).ccReverse = ks.ccReverse := by
    intro ks word
    unfold Keyspace.removeLeased
    split
    · exact ⟨fun _ _ => rfl, rfl, rfl, rfl⟩
    · exact ⟨fun _ _ => rfl, rfl, rfl, rfl⟩
  obtain ⟨haccount, hheartbeats, hcc, hreverse⟩ := hqueued ks (idWord args.id)
  obtain ⟨haccount', hheartbeats', hcc', hreverse'⟩ :=
    hleased ((ks.removeQueued (idWord args.id)).unlist (idWord args.id)) (idWord args.id)
  unfold Keyspace.moveDelivery
  dsimp only
  split
  · exact ⟨fun x place => (haccount' x place).trans (haccount x place),
      hheartbeats'.trans hheartbeats, hcc'.trans hcc, hreverse'.trans hreverse⟩
  · exact ⟨fun x place => (haccount' x place).trans (haccount x place),
      hheartbeats'.trans hheartbeats, hcc'.trans hcc, hreverse'.trans hreverse⟩

/-- The account of one invocation changes, every delivery read off a given place; heartbeats
and argument pairs stay. -/
abbrev Writes (places : InvocationId → Place) (id : InvocationId) (f : Account → Account)
    (ks ks' : Keyspace) : Prop :=
  Core.Updates (fun ks x => ks.account x (places x))
    (fun ks => (ks.heartbeats, ks.cc, ks.ccReverse)) id f ks ks'

variable (places : InvocationId → Place)

theorem writes_moveDelivery (ks : Keyspace) (args : ChangeArgs) :
    Writes places args.id (fun a => a) ks (ks.moveDelivery args) := by
  obtain ⟨haccount, hheartbeats, hcc, hreverse⟩ := moveDelivery_same ks args
  refine ⟨fun x => ?_, ?_⟩
  · rw [ite_self]
    exact haccount x (places x)
  · simp only [hheartbeats, hcc, hreverse]

theorem writes_control (ks : Keyspace) (id : InvocationId) (record : InvocationStatusRecord)
    (invocation : InvocationDTO) :
    Writes places id (fun a => { a with record := some record, invocation := some invocation }) ks
      { ks with
        status := ks.status.insert id record
        invocations := ks.invocations.insert id invocation } where
  account x := by
    by_cases hx : x = id
    · subst hx
      simp [Keyspace.account]
    · simp [Keyspace.account, AList.lookup_insert_ne hx, hx]
  same := rfl

theorem writes_pushHistories (ks : Keyspace) (id : InvocationId)
    (histories : List InvocationHistory) :
    Writes places id (fun a => { a with history := a.history ++ histories.map historyItem }) ks
      (histories.foldl (fun ks history => ks.pushHistory id history) ks) := by
  induction histories generalizing ks with
  | nil =>
      apply (Core.Updates.refl _ _ id ks).congr
      simp
  | cons history rest ih =>
      have hpush : Writes places id
          (fun a => { a with history := a.history ++ [historyItem history] }) ks
          (ks.pushHistory id history) := by
        refine ⟨fun x => ?_, rfl⟩
        by_cases hx : x = id
        · subst hx
          simp [Keyspace.account, pushHistory]
        · simp [Keyspace.account, pushHistory, AList.lookup_insert_ne hx, hx]
      apply (hpush.trans (ih _)).congr
      simp

theorem writes_payload (ks : Keyspace) (args : ChangeArgs) {change : PublicationChange}
    (hpayload : args.payload = payloadOf change) :
    Writes places args.id
      (fun a => { a with result := (a.payload change).1, error := (a.payload change).2 })
      ks (ks.writePayload args) := by
  have hnone : payloadOf change = .none →
      (∀ a : Account, a.payload change = (a.result, a.error)) →
      Writes places args.id
        (fun a => { a with result := (a.payload change).1, error := (a.payload change).2 })
        ks (ks.writePayload args) := by
    intro hempty hkept
    have hsame : ks.writePayload args = ks := by simp [Keyspace.writePayload, hpayload, hempty]
    rw [hsame]
    apply (Core.Updates.refl _ _ args.id ks).congr
    simp [hkept]
  cases change with
  | status s => exact hnone rfl fun _ => rfl
  | retry route => exact hnone rfl fun _ => rfl
  | delayedRetry route delayMs => exact hnone rfl fun _ => rfl
  | reroute route => exact hnone rfl fun _ => rfl
  | concurrencyReroute route => exact hnone rfl fun _ => rfl
  | recover s stale route => exact hnone rfl fun _ => rfl
  | success result =>
      have hwritten : ks.writePayload args =
          { ks with results := ks.results.insert args.id result } := by
        simp [Keyspace.writePayload, hpayload, payloadOf]
      rw [hwritten]
      refine ⟨fun x => ?_, rfl⟩
      by_cases hx : x = args.id
      · subst hx
        simp [Keyspace.account, Account.payload]
      · simp [Keyspace.account, AList.lookup_insert_ne hx, hx]
  | failure error =>
      have hwritten : ks.writePayload args =
          { ks with errors := ks.errors.insert args.id error } := by
        simp [Keyspace.writePayload, hpayload, payloadOf]
      rw [hwritten]
      refine ⟨fun x => ?_, rfl⟩
      by_cases hx : x = args.id
      · subst hx
        simp [Keyspace.account, Account.payload]
      · simp [Keyspace.account, AList.lookup_insert_ne hx, hx]

theorem writes_retries (ks : Keyspace) (id : InvocationId) (counts : Bool) :
    Writes places id
      (fun a => { a with retries := if counts then a.retries + 1 else a.retries }) ks
      (if counts then
        { ks with retries := ks.retries.insert id ((ks.retries.lookup id).getD 0 + 1) }
      else ks) := by
  cases counts with
  | false => exact Core.Updates.refl _ _ id ks
  | true =>
      refine ⟨fun x => ?_, rfl⟩
      by_cases hx : x = id
      · subst hx
        simp [Keyspace.account]
      · simp [Keyspace.account, AList.lookup_insert_ne hx, hx]

/-- The end of an invocation: the reverse set leads to every pair that it holds. -/
theorem updates_writeTerminal (htracked : Tracked ks) (args : ChangeArgs) :
    Core.Updates (fun ks x => ks.account x (places x)) Keyspace.heartbeats args.id
      (Account.finish args.record args.autoPurge) ks (ks.writeTerminal args) := by
  have hwaiters : Core.Updates (fun ks x => ks.account x (places x)) Keyspace.heartbeats args.id
      (fun a => { a with waiters := ∅ }) ks { ks with waiters := ks.waiters.erase args.id } := by
    refine ⟨fun x => ?_, rfl⟩
    by_cases hx : x = args.id
    · subst hx
      simp [Keyspace.account]
    · simp [Keyspace.account, AList.lookup_erase_ne hx, hx]
  have hunindex : ∀ ks : Keyspace, Tracked ks →
      Core.Updates (fun ks x => ks.account x (places x)) Keyspace.heartbeats args.id
        (fun a => { a with pairs := ∅ }) ks (ks.unindexPairs args.id) := by
    intro ks htracked
    refine ⟨fun x => ?_, rfl⟩
    have hpairs : ∀ key, x ∈ ((ks.unindexPairs args.id).cc.lookup key).getD [] ↔
        x ∈ (ks.cc.lookup key).getD [] ∧ x ≠ args.id := mem_cc_unindexPairs htracked x
    by_cases hx : x = args.id
    · simp only [Keyspace.account, hpairs, if_pos hx]
      simp only [hx, ne_eq, not_true, and_false]
      rfl
    · simp only [Keyspace.account, hpairs, if_neg hx]
      simp only [hx, ne_eq, not_false_iff, and_true]
      rfl
  have hpurge : ∀ ks : Keyspace,
      Core.Updates (fun ks x => ks.account x (places x)) Keyspace.heartbeats args.id
        (fun a => { a with purgeAt := some args.record.timestamp }) ks
        { ks with autoPurge := ks.autoPurge.insert args.id args.record.timestamp } := by
    intro ks
    refine ⟨fun x => ?_, rfl⟩
    by_cases hx : x = args.id
    · subst hx
      simp [Keyspace.account]
    · simp [Keyspace.account, AList.lookup_insert_ne hx, hx]
  have hfreed := hwaiters.trans (hunindex _ htracked)
  unfold Keyspace.writeTerminal
  cases hterminal : args.record.status.isTerminal with
  | false =>
      apply (Core.Updates.refl _ _ args.id ks).congr
      simp [Account.finish, hterminal]
  | true =>
      cases hauto : args.autoPurge with
      | false =>
          apply hfreed.congr
          simp [Account.finish, hterminal]
      | true =>
          apply (hfreed.trans (hpurge _)).congr
          simp [Account.finish, hterminal]

end Script

/-! ## What the script commits -/

section Commit

variable {fmt : ScoreFormat} {pool : RedisPool} {ks : Keyspace} {id : InvocationId}
  {runner : RunnerId} {old : InvocationStatusRecord} {invocation : InvocationDTO} {moves : Moves}
  {change : PublicationChange} {autoPurge : Bool} {heartbeat : Option (RunnerId × Option Timestamp)}
  {route : Option (ValidRoute × Nat)} {places : InvocationId → Place}

/-- What the operation sends for the planned records. -/
def changeArgs (pool : RedisPool) (id : InvocationId) (runner : RunnerId)
    (old : InvocationStatusRecord) (invocation : InvocationDTO) (moves : Moves)
    (change : PublicationChange) (autoPurge : Bool)
    (heartbeat : Option (RunnerId × Option Timestamp)) (route : Option (ValidRoute × Nat)) :
    ChangeArgs where
  id := id
  old := old
  record := moves.final
  invocation :=
    { invocation with status := moves.final.status, updatedAt := moves.final.timestamp }
  histories := moves.records.map fun record => historyEntry id record runner
  payload := payloadOf change
  countsRetry := match change with
    | .retry _ => true
    | _ => false
  autoPurge := autoPurge
  route := route
  maxQueueRows := pool.options.maxQueueRows
  heartbeat := heartbeat

/-- The route that is sent is the one of the change. -/
def Routes (change : PublicationChange) (route : Option (ValidRoute × Nat)) : Prop :=
  routeOf change = route.map fun sent => ⟨sent.1.queue, sent.1.priority⟩

theorem historyItem_historyEntry (record : InvocationStatusRecord) :
    historyItem (historyEntry id record runner) = Account.entry runner record := rfl

/-- Every id keeps its place, except the one that is moved. -/
theorem at_applyChange (args : ChangeArgs) (hat : ∀ x, At fmt ks x (places x)) (x : InvocationId) :
    At fmt (ks.applyChange args) x (Function.update places args.id (newPlace args) x) := by
  have hrest : Agree (ks.moveDelivery args) (ks.applyChange args) x :=
    agree_of_broker (broker_applyChange args) x
  by_cases hx : x = args.id
  · subst hx
    rw [Function.update_self]
    exact (hat args.id).moveDelivery.congr hrest
  · rw [Function.update_of_ne hx]
    exact (hat x).congr ((agree_moveDelivery (hat args.id) hx).trans hrest)

/-- What the script writes before the effects of a final status, the delivery apart. -/
def written (runner : RunnerId) (invocation : InvocationDTO) (moves : Moves)
    (change : PublicationChange) (a : Account) : Account :=
  { a with
    record := some moves.final
    invocation := some { invocation with
      status := moves.final.status, updatedAt := moves.final.timestamp }
    history := a.history ++ moves.records.map (Account.entry runner)
    retries := a.attempts change
    result := (a.payload change).1
    error := (a.payload change).2 }

theorem writes_applyChange (places : InvocationId → Place) (ks : Keyspace) (args : ChangeArgs)
    (hargs : args = changeArgs pool id runner old invocation moves change autoPurge heartbeat
      route)
    (hdelayed : ∀ route delayMs, change ≠ .delayedRetry route delayMs) :
    ∃ ks', ks.applyChange args = ks'.writeTerminal args ∧
      Writes places args.id (written runner invocation moves change) ks ks' := by
  have hpayload : args.payload = payloadOf change := by rw [hargs]; rfl
  have hall := ((((writes_moveDelivery places ks args).trans
    (writes_control places _ args.id args.record args.invocation)).trans
    (writes_pushHistories places _ args.id args.histories)).trans
    (writes_payload places _ args hpayload)).trans
    (writes_retries places _ args.id args.countsRetry)
  refine ⟨_, rfl, hall.congr ?_⟩
  subst hargs
  cases change with
  | delayedRetry route delayMs => exact absurd rfl (hdelayed route delayMs)
  | _ =>
      simp [written, changeArgs, Account.attempts, Account.payload, Function.comp_def,
        historyItem_historyEntry]

theorem updates_applyChange (places : InvocationId → Place) (htracked : Tracked ks)
    (args : ChangeArgs)
    (hargs : args = changeArgs pool id runner old invocation moves change autoPurge heartbeat
      route)
    (hdelayed : ∀ route delayMs, change ≠ .delayedRetry route delayMs) :
    Core.Updates (fun ks x => ks.account x (places x)) Keyspace.heartbeats args.id
      (fun a => Account.finish args.record args.autoPurge
        (written runner invocation moves change a)) ks (ks.applyChange args) ∧
    Tracked (ks.applyChange args) := by
  obtain ⟨ks', hrun, hwritten⟩ := writes_applyChange places ks args hargs hdelayed
  have hkept := hwritten.same
  simp only [Prod.mk.injEq] at hkept
  obtain ⟨hheartbeats, hcc, hreverse⟩ := hkept
  have htracked' : Tracked ks' := by
    intro x key hmem
    rw [hcc] at hmem
    rw [hreverse]
    exact htracked x key hmem
  rw [hrun]
  constructor
  · exact Core.Updates.trans ⟨hwritten.account, hheartbeats⟩
      (updates_writeTerminal places htracked' args)
  · exact htracked'.writeTerminal args

/-- The delivery that the script leaves is the one of the change. -/
theorem deliveries_newPlace (a : Account) (status : InvocationStatus)
    (hinvocation : a.invocation = some invocation) (hroute : Routes change route) :
    (newPlace (changeArgs pool id runner old invocation moves change autoPurge heartbeat
      route)).deliveries = a.redeliver policy status change := by
  unfold Routes at hroute
  rcases route with _ | ⟨valid, number⟩
  · have hnone : routeOf change = none := hroute
    simp [newPlace, changeArgs, Place.deliveries, Account.redeliver, hnone, policy]
  · have hsome : routeOf change = some ⟨valid.queue, valid.priority⟩ := hroute
    simp [newPlace, changeArgs, Place.deliveries, Account.redeliver, hsome, hinvocation,
      Entry.delivery, taskWord, taskText]

theorem commit_eq (a : Account) (hinvocation : a.invocation = some invocation) :
    { Account.finish moves.final autoPurge (written runner invocation moves change a) with
      deliveries := a.redeliver policy moves.final.status change } =
      a.commit policy runner moves change autoPurge := by
  cases hterminal : moves.final.status.isTerminal with
  | false =>
      simp [Account.finish, written, Account.commit, hterminal, hinvocation, policy]
  | true =>
      simp [Account.finish, written, Account.commit, hterminal, hinvocation]

/-- **The script commits the planned change.** -/
theorem applyChange_commits (htracked : Tracked ks) (places : InvocationId → Place)
    (hinvocation : ks.invocations.lookup id = some invocation)
    (args : ChangeArgs)
    (hargs : args = changeArgs pool id runner old invocation moves change autoPurge heartbeat
      route)
    (hdelayed : ∀ route delayMs, change ≠ .delayedRetry route delayMs)
    (hroute : Routes change route) :
    (∀ x, (ks.applyChange args).account x (Function.update places id (newPlace args) x) =
      if x = id then (ks.account x (places x)).commit policy runner moves change autoPurge
      else ks.account x (places x)) ∧
    (ks.applyChange args).heartbeats = ks.heartbeats ∧ Tracked (ks.applyChange args) := by
  obtain ⟨hupdates, htracked'⟩ := updates_applyChange places htracked args hargs hdelayed
  subst hargs
  refine ⟨fun x => ?_, hupdates.same, htracked'⟩
  have haccount : (ks.applyChange _).account x (places x) = _ := hupdates.account x
  by_cases hx : x = id
  · subst hx
    have hdeliveries : (newPlace (changeArgs pool x runner old invocation moves change autoPurge
        heartbeat route)).deliveries =
        (ks.account x (places x)).redeliver policy moves.final.status change :=
      deliveries_newPlace _ _ hinvocation hroute
    have hwritten := haccount.trans (if_pos rfl)
    rw [Function.update_self, if_pos rfl, ← commit_eq _ hinvocation, ← hdeliveries]
    exact congrArg (fun a : Account => { a with deliveries := (newPlace (changeArgs pool x runner
      old invocation moves change autoPurge heartbeat route)).deliveries }) hwritten
  · rw [Function.update_of_ne hx, if_neg hx]
    exact haccount.trans (if_neg hx)

end Commit

/-! ## The operation, run alone -/

section Alone

variable {fmt : ScoreFormat} {env : Env} {pool : RedisPool} {ks : Keyspace} {id : InvocationId}
  {runner : RunnerId} {old : InvocationStatusRecord} {invocation : InvocationDTO} {moves : Moves}
  {change : PublicationChange} {autoPurge : Bool} {e : RustvelloError} (status : InvocationStatus)
  {ks' : Keyspace}

/-- No other client sends a request, and the clock stands still. -/
def alone (fmt : ScoreFormat) (env : Env) {α : Type} (p : RedisM α) (ks : Keyspace) :
    RustvelloResult α × Keyspace :=
  Prog.aloneE (exec fmt env) p ks

theorem alone_request (c : RedisCall) :
    alone fmt env (request c) ks = (.ok (exec fmt env c ks).1, (exec fmt env c ks).2) := rfl

theorem alone_checked {α : Type} (result : RustvelloResult α) :
    alone fmt env (checked result) ks = (result, ks) := rfl

theorem alone_bind_ok {α β : Type} {p : RedisM α} {f : α → RedisM β} {a : α}
    (h : alone fmt env p ks = (.ok a, ks')) :
    alone fmt env (p >>= f) ks = alone fmt env (f a) ks' :=
  Prog.aloneE_bind_ok h

theorem alone_bind_error {α β : Type} {p : RedisM α} {f : α → RedisM β}
    (h : alone fmt env p ks = (.error e, ks')) :
    alone fmt env (p >>= f) ks = (.error e, ks') :=
  Prog.aloneE_bind_error h

theorem alone_transition :
    alone fmt env (transition id old status runner) ks =
      (moveTo env.clock id runner old status, ks) := by
  unfold transition moveTo
  have hclock : exec fmt env .utcNow ks = (env.clock, ks) := rfl
  rw [alone_bind_ok (alone_request .utcNow), hclock]
  cases statusRecordTransition env.clock (some old) status (some runner) with
  | error e => rfl
  | ok record => rfl

/-- Two transitions, as a recovery and a concurrency reroute make them. -/
theorem alone_transitions (heartbeat : Option (RunnerId × Option Timestamp)) :
    alone fmt env (do
      let first ← transition id old status runner
      let final ← transition id first .rerouted runner
      pure (some ([first, final], heartbeat))) ks =
      ((moveTwice env.clock id runner old status).map fun moves =>
        some (moves.records, heartbeat), ks) := by
  unfold moveTwice
  cases hfirst : moveTo env.clock id runner old status with
  | error e => exact alone_bind_error (by rw [alone_transition, hfirst])
  | ok first =>
      rw [alone_bind_ok (by rw [alone_transition, hfirst])]
      cases hfinal : moveTo env.clock id runner first .rerouted with
      | error e =>
          rw [alone_bind_error (by rw [alone_transition, hfinal])]
          simp only [bind, Except.bind, hfinal, Except.map]
      | ok final =>
          rw [alone_bind_ok (by rw [alone_transition, hfinal])]
          simp only [bind, Except.bind, hfinal]
          rfl

/-- The heartbeat that a recovery decided on is still the stored one. -/
def StillSeen (ks : Keyspace) (heartbeat : Option (RunnerId × Option Timestamp)) : Prop :=
  (heartbeat.any fun seen => decide (ks.heartbeats.lookup seen.1 ≠ seen.2)) = false

/-- Changes of two transitions are planned before anything else. -/
theorem alone_prepare_recover (stale : Nat) (route : PublicationRoute) :
    ∃ heartbeat, StillSeen ks heartbeat ∧
      alone fmt env (prepare id runner old (.recover status stale route)) ks =
        ((plan env.clock id runner ownerReason
          (alive env.clock ks old (.recover status stale route)) old
          (.recover status stale route)).map fun planned =>
            planned.map fun moves => (moves.records, heartbeat), ks) := by
  have hnone : StillSeen ks none := rfl
  simp only [prepare, plan, alive]
  cases htaken : takenOverFrom status with
  | none => exact ⟨none, hnone, rfl⟩
  | some expected =>
      by_cases hstatus : old.status ≠ expected
      · simp only [if_pos hstatus]
        exact ⟨none, hnone, rfl⟩
      · simp only [if_neg hstatus]
        have hexpected : old.status = expected := not_not.mp hstatus
        subst hexpected
        -- the owner is asked for unless the status record itself tells
        obtain ⟨heartbeat, hseen, hlast⟩ : ∃ heartbeat, StillSeen ks heartbeat ∧
            alone fmt env (lastSeen old old.status) ks =
              (.ok (heartbeat, if old.status = .pending then some old.timestamp
                else ks.heartbeats.lookup (old.runnerId.getD ⟨""⟩)), ks) := by
          unfold lastSeen
          by_cases hpending : old.status = .pending
          · simp only [if_pos hpending]
            exact ⟨none, hnone, rfl⟩
          · simp only [if_neg hpending]
            refine ⟨some (old.runnerId.getD ⟨""⟩,
              ks.heartbeats.lookup (old.runnerId.getD ⟨""⟩)), ?_, rfl⟩
            simp [StillSeen]
        refine ⟨heartbeat, hseen, ?_⟩
        rw [alone_bind_ok (alone_request .utcNow)]
        simp only [exec]
        rw [alone_bind_ok hlast]
        have hok : ∀ {α β : Type} (a : α) (f : α → RustvelloResult β),
            (Except.ok a >>= f) = f a := fun _ _ => rfl
        simp only [hok]
        generalize (if old.status = .pending then some old.timestamp
          else ks.heartbeats.lookup (old.runnerId.getD ⟨""⟩)) = seen
        cases hverdict : seen.any fun timestamp =>
            decide (env.clock - (min stale 31536000 : Nat) * 1000000000 ≤ timestamp) with
        | true =>
            refine (congrArg (fun p => alone fmt env p ks) (if_pos hverdict)).trans ?_
            rfl
        | false =>
            have hgone := ne_true_of_eq_false hverdict
            refine (congrArg (fun p => alone fmt env p ks) (if_neg hgone)).trans ?_
            rw [alone_transitions]
            cases moveTwice env.clock id runner old status <;> rfl

theorem alone_prepare_concurrencyReroute (route : PublicationRoute) :
    alone fmt env (prepare id runner old (.concurrencyReroute route)) ks =
      ((plan env.clock id runner ownerReason (alive env.clock ks old (.concurrencyReroute route))
        old (.concurrencyReroute route)).map fun planned =>
          planned.map fun moves => (moves.records, none), ks) := by
  simp only [prepare, plan]
  rw [alone_transitions]
  cases moveTwice env.clock id runner old .concurrencyControlled <;> rfl

/-- The rest of an attempt, once the records are known. -/
def sendRecords (pool : RedisPool) (id : InvocationId) (runner : RunnerId)
    (old : InvocationStatusRecord) (invocation : InvocationDTO) (change : PublicationChange)
    (autoPurge : Bool) (heartbeat : Option (RunnerId × Option Timestamp))
    (records : List InvocationStatusRecord) : RedisM (Option (Option InvocationStatusRecord)) :=
  let final := records.getLast?.getD old
  if pool.options.maxPayloadBytes < payloadBytes pool (payloadOf change) then
    throw (.configuration "completion payload exceeds limit")
  else do
    let route ← checked (checkedRoute change)
    let code ← sendChange
      (fun route =>
        { id := id
          old := old
          record := final
          invocation :=
            { invocation with status := final.status, updatedAt := final.timestamp }
          histories := records.map fun record => historyEntry id record runner
          payload := payloadOf change
          countsRetry := match change with
            | .retry _ => true
            | _ => false
          autoPurge := autoPurge
          route := route
          maxQueueRows := pool.options.maxQueueRows
          heartbeat := heartbeat })
      route
    checked (changeAnswer change final code)

/-- What the limits of the broker leave room for. -/
structure Fits (pool : RedisPool) (ks : Keyspace) (change : PublicationChange) : Prop where
  route : ∀ route, routeOf change = some route → ∃ valid, validateRoute route = .ok valid
  room : ks.count < pool.options.maxQueueRows
  sequence : ks.sequence < i64Max.toNat
  payload : payloadBytes pool (payloadOf change) ≤ pool.options.maxPayloadBytes

theorem validateRoute_queue {route : PublicationRoute} {valid : ValidRoute}
    (h : validateRoute route = .ok valid) :
    valid.queue = route.queue ∧ valid.priority = route.priority := by
  obtain ⟨checked, hcheck, h⟩ := bind_eq_ok.mp h
  split at h
  · cases h
  · cases h
    unfold ValidRoute.check at hcheck
    split at hcheck
    · cases hcheck
    · cases hcheck
      exact ⟨rfl, rfl⟩

/-- Nothing stands against the script when no other client is there. -/
theorem changeScript_accepts {args : ChangeArgs} (hold : ks.status.lookup args.id = some args.old)
    (hseen : StillSeen ks args.heartbeat) (hroom : ks.count < args.maxQueueRows) :
    ks.changeScript args = (1, ks.applyChange args) := by
  have hrefusal : changeRefusal args ks = none := by
    unfold changeRefusal
    rw [if_neg (not_not.mpr hold)]
    have hsame : ¬ (args.heartbeat.any fun seen =>
        decide (ks.heartbeats.lookup seen.1 ≠ seen.2)) = true := ne_true_of_eq_false hseen
    rw [if_neg hsame, if_neg]
    intro hfull
    omega
  unfold changeScript
  rw [hrefusal]

/-- The script is sent and accepted. -/
theorem alone_sendRecords (hfits : Fits pool ks change)
    (hold : ks.status.lookup id = some old) {heartbeat : Option (RunnerId × Option Timestamp)}
    (hseen : StillSeen ks heartbeat) :
    ∃ route sequence, Routes change route ∧
      alone fmt env (sendRecords pool id runner old invocation change autoPurge heartbeat
        moves.records) ks =
        (.ok (some (some moves.final)), { ks with sequence := sequence }.applyChange
          (changeArgs pool id runner old invocation moves change autoPurge heartbeat route)) := by
  have hfinal : moves.records.getLast?.getD old = moves.final := by
    simp [Moves.records]
  have hpayload := hfits.payload
  have hsent : ∀ (ks' : Keyspace) (args : ChangeArgs),
      ks'.changeScript args = (1, ks'.applyChange args) →
      alone fmt env (request (.change args)) ks' = (.ok 1, ks'.applyChange args) := by
    intro ks' args hscript
    rw [alone_request]
    show (Except.ok (ks'.changeScript args).1, (ks'.changeScript args).2) = _
    rw [hscript]
  unfold sendRecords
  simp only [hfinal]
  rw [if_neg (by omega)]
  cases hrouted : routeOf change with
  | none =>
      have hchecked : checkedRoute change = .ok none := by simp [checkedRoute, hrouted]
      refine ⟨none, ks.sequence, hrouted, ?_⟩
      rw [alone_bind_ok (by rw [alone_checked, hchecked])]
      have hsend := hsent ks (changeArgs pool id runner old invocation moves change autoPurge
        heartbeat none) (changeScript_accepts hold hseen hfits.room)
      exact alone_bind_ok hsend
  | some route =>
      obtain ⟨valid, hvalid⟩ := hfits.route route hrouted
      obtain ⟨hqueue, hpriority⟩ := validateRoute_queue hvalid
      have hchecked : checkedRoute change = .ok (some valid) := by
        simp [checkedRoute, hrouted, hvalid, Except.map]
      have hnext : alone fmt env nextSequence ks =
          (.ok (ks.sequence + 1), { ks with sequence := ks.sequence + 1 }) := by
        have hroom := hfits.sequence
        have hincr : ks.incrSequence =
            (.ok (ks.sequence + 1), { ks with sequence := ks.sequence + 1 }) := by
          unfold Keyspace.incrSequence
          rw [if_neg (by omega)]
        unfold nextSequence
        rw [alone_bind_ok (alone_request .incrSequence)]
        show (ks.incrSequence.1, ks.incrSequence.2) = _
        rw [hincr]
      refine ⟨some (valid, ks.sequence + 1), ks.sequence + 1, ?_, ?_⟩
      · unfold Routes
        rw [hrouted, Option.map_some, hqueue, hpriority]
      · rw [alone_bind_ok (by rw [alone_checked, hchecked])]
        have hsend := hsent { ks with sequence := ks.sequence + 1 } (changeArgs pool id runner old
          invocation moves change autoPurge heartbeat (some (valid, ks.sequence + 1)))
          (changeScript_accepts hold hseen hfits.room)
        have hboth := (show alone fmt env (sendChange (fun route => changeArgs pool id runner old
            invocation moves change autoPurge heartbeat route) (some valid)) ks = _ from
          alone_bind_ok hnext).trans hsend
        exact alone_bind_ok hboth

theorem alone_current (hold : ks.status.lookup id = some old)
    (hinvocation : ks.invocations.lookup id = some invocation) :
    alone fmt env (current id) ks = (.ok (old, invocation), ks) := by
  unfold current
  rw [alone_bind_ok (alone_request (.getCurrent id))]
  simp only [exec, hold, hinvocation]
  rfl

/-- The rest of an attempt, once it is prepared. -/
def afterPrepare (pool : RedisPool) (id : InvocationId) (runner : RunnerId)
    (old : InvocationStatusRecord) (invocation : InvocationDTO) (change : PublicationChange)
    (autoPurge : Bool) :
    Option (List InvocationStatusRecord × Option (RunnerId × Option Timestamp)) →
      RedisM (Option (Option InvocationStatusRecord))
  | none => pure (some none)
  | some (prepared, heartbeat) => do
      checked (checkOwner id runner old change)
      let records ← match prepared with
        | [] => do
            let record ← transition id old (targetOf change) runner
            pure [record]
        | _ => pure prepared
      sendRecords pool id runner old invocation change autoPurge heartbeat records

/-- A change of one transition: ownership, the transition, the script. -/
theorem alone_afterPrepare_one :
    alone fmt env (afterPrepare pool id runner old invocation change autoPurge (some ([], none)))
      ks =
      match (do
        requireOwner id runner ownerReason old change
        moveTo env.clock id runner old (targetOf change) : RustvelloResult _) with
      | .error e => (.error e, ks)
      | .ok final =>
          alone fmt env (sendRecords pool id runner old invocation change autoPurge none [final])
            ks := by
  have hcheck : checkOwner id runner old change = requireOwner id runner ownerReason old change :=
    rfl
  unfold afterPrepare
  rw [hcheck]
  cases requireOwner id runner ownerReason old change with
  | error e => exact alone_bind_error (alone_checked _)
  | ok _ =>
      rw [alone_bind_ok (alone_checked _)]
      cases hmove : moveTo env.clock id runner old (targetOf change) with
      | error e =>
          have hfails : alone fmt env (transition id old (targetOf change) runner) ks =
              (.error e, ks) := by rw [alone_transition, hmove]
          exact alone_bind_error hfails
      | ok final =>
          have hmoves : alone fmt env (transition id old (targetOf change) runner) ks =
              (.ok final, ks) := by rw [alone_transition, hmove]
          exact alone_bind_ok hmoves

/-- A change of two transitions: only the script is left. -/
theorem alone_afterPrepare_two (hpayload : hasPayload change = false)
    (heartbeat : Option (RunnerId × Option Timestamp)) :
    alone fmt env (afterPrepare pool id runner old invocation change autoPurge
      (some (moves.records, heartbeat))) ks =
      alone fmt env (sendRecords pool id runner old invocation change autoPurge heartbeat
        moves.records) ks := by
  have howner : checkOwner id runner old change = .ok () := by simp [checkOwner, hpayload]
  unfold afterPrepare
  rw [howner, alone_bind_ok (alone_checked _)]
  obtain ⟨first, final⟩ := moves
  cases first with
  | none => exact alone_bind_ok rfl
  | some first => exact alone_bind_ok rfl

/-- **An attempt plans and then sends.** -/
theorem alone_changeAttempt (hold : ks.status.lookup id = some old)
    (hinvocation : ks.invocations.lookup id = some invocation) :
    ∃ heartbeat, StillSeen ks heartbeat ∧
      alone fmt env (changeAttempt pool id runner change autoPurge) ks =
        match plan env.clock id runner ownerReason (alive env.clock ks old change) old change with
        | .error e => (.error e, ks)
        | .ok none => (.ok (some none), ks)
        | .ok (some moves) =>
            alone fmt env (sendRecords pool id runner old invocation change autoPurge heartbeat
              moves.records) ks := by
  have hattempt : alone fmt env (changeAttempt pool id runner change autoPurge) ks =
      alone fmt env (do
        let prepared ← prepare id runner old change
        afterPrepare pool id runner old invocation change autoPurge prepared) ks :=
    (alone_bind_ok (alone_current hold hinvocation) : alone fmt env (do
      let found ← current id
      let prepared ← prepare id runner found.1 change
      afterPrepare pool id runner found.1 found.2 change autoPurge prepared) ks = _)
  rw [hattempt]
  -- changes of one transition
  have hone : prepare id runner old change = pure (some ([], none)) →
      plan env.clock id runner ownerReason (alive env.clock ks old change) old change =
        planOnce env.clock id runner ownerReason old change →
      StillSeen ks none ∧ alone fmt env (do
        let prepared ← prepare id runner old change
        afterPrepare pool id runner old invocation change autoPurge prepared) ks =
        match plan env.clock id runner ownerReason (alive env.clock ks old change) old change with
        | .error e => (.error e, ks)
        | .ok none => (.ok (some none), ks)
        | .ok (some moves) =>
            alone fmt env (sendRecords pool id runner old invocation change autoPurge none
              moves.records) ks := by
    intro hprepare hplan
    refine ⟨rfl, ?_⟩
    rw [hprepare, hplan]
    unfold planOnce
    refine (alone_bind_ok rfl).trans (alone_afterPrepare_one.trans ?_)
    cases requireOwner id runner ownerReason old change with
    | error e => rfl
    | ok _ => cases moveTo env.clock id runner old (targetOf change) <;> rfl
  -- changes of two transitions
  have htwo : ∀ heartbeat, hasPayload change = false →
      alone fmt env (prepare id runner old change) ks =
        ((plan env.clock id runner ownerReason (alive env.clock ks old change) old change).map
          fun planned => planned.map fun moves => (moves.records, heartbeat), ks) →
      alone fmt env (do
        let prepared ← prepare id runner old change
        afterPrepare pool id runner old invocation change autoPurge prepared) ks =
        match plan env.clock id runner ownerReason (alive env.clock ks old change) old change with
        | .error e => (.error e, ks)
        | .ok none => (.ok (some none), ks)
        | .ok (some moves) =>
            alone fmt env (sendRecords pool id runner old invocation change autoPurge heartbeat
              moves.records) ks := by
    intro heartbeat hpayload hprepare
    cases hplan : plan env.clock id runner ownerReason (alive env.clock ks old change) old change with
    | error e =>
        rw [hplan] at hprepare
        exact alone_bind_error hprepare
    | ok planned =>
        rw [hplan] at hprepare
        refine (alone_bind_ok hprepare).trans ?_
        cases planned with
        | none => rfl
        | some moves => exact alone_afterPrepare_two hpayload heartbeat
  cases change with
  | status s => exact ⟨none, hone rfl rfl⟩
  | retry route => exact ⟨none, hone rfl rfl⟩
  | delayedRetry route delayMs => exact ⟨none, hone rfl rfl⟩
  | reroute route => exact ⟨none, hone rfl rfl⟩
  | success result => exact ⟨none, hone rfl rfl⟩
  | failure error => exact ⟨none, hone rfl rfl⟩
  | concurrencyReroute route =>
      exact ⟨none, rfl, htwo none rfl (alone_prepare_concurrencyReroute route)⟩
  | recover s stale route =>
      obtain ⟨heartbeat, hseen, hprepare⟩ := alone_prepare_recover s stale route
      exact ⟨heartbeat, hseen, htwo heartbeat rfl hprepare⟩

/-- The first attempt decides, unless the record changed meanwhile. -/
theorem alone_change {result : RustvelloResult (Option (Option InvocationStatusRecord))}
    (hdelayed : ∀ route delayMs, change ≠ .delayedRetry route delayMs)
    (hattempt : alone fmt env (changeAttempt pool id runner change autoPurge) ks = (result, ks'))
    (hdecided : result ≠ .ok none) :
    alone fmt env (Redis.change pool id runner change autoPurge) ks =
      (result.map fun answer => answer.getD none, ks') := by
  have hloop : Redis.change pool id runner change autoPurge =
      changeLoop pool id runner change autoPurge 8 := by
    cases change with
    | delayedRetry route delayMs => exact absurd rfl (hdelayed route delayMs)
    | _ => rfl
  rw [hloop]
  unfold changeLoop
  cases result with
  | error e => exact alone_bind_error hattempt
  | ok answer =>
      cases answer with
      | none => exact absurd rfl hdecided
      | some answer => exact alone_bind_ok hattempt

theorem change_unknown (hdelayed : ∀ route delayMs, change ≠ .delayedRetry route delayMs)
    (hold : ks.status.lookup id = none) :
    alone fmt env (Redis.change pool id runner change autoPurge) ks =
      (.error (.invocationNotFound id), ks) := by
  have hcurrent : alone fmt env (current id) ks = (.error (.invocationNotFound id), ks) := by
    unfold current
    rw [alone_bind_ok (alone_request (.getCurrent id))]
    simp only [exec, hold]
    rfl
  exact alone_change hdelayed (alone_bind_error hcurrent) (by simp)

/-- A status record without its invocation. -/
theorem change_incomplete (hdelayed : ∀ route delayMs, change ≠ .delayedRetry route delayMs)
    (hold : ks.status.lookup id = some old) (hinvocation : ks.invocations.lookup id = none) :
    alone fmt env (Redis.change pool id runner change autoPurge) ks =
      (.error (.configuration "invocation state is incomplete"), ks) := by
  have hcurrent : alone fmt env (current id) ks =
      (.error (.configuration "invocation state is incomplete"), ks) := by
    unfold current
    rw [alone_bind_ok (alone_request (.getCurrent id))]
    simp only [exec, hold, hinvocation]
    rfl
  exact alone_change hdelayed (alone_bind_error hcurrent) (by simp)

/-- A plan that fails is the answer. -/
theorem change_refuses (hdelayed : ∀ route delayMs, change ≠ .delayedRetry route delayMs)
    (hold : ks.status.lookup id = some old)
    (hinvocation : ks.invocations.lookup id = some invocation)
    (hplan : plan env.clock id runner ownerReason (alive env.clock ks old change) old change =
      .error e) :
    alone fmt env (Redis.change pool id runner change autoPurge) ks = (.error e, ks) := by
  obtain ⟨heartbeat, -, hattempt⟩ : ∃ heartbeat, StillSeen ks heartbeat ∧
      alone fmt env (changeAttempt pool id runner change autoPurge) ks = _ :=
    alone_changeAttempt hold hinvocation
  rw [hplan] at hattempt
  exact alone_change hdelayed hattempt (by simp)

/-- Nothing to recover. -/
theorem change_passes (hdelayed : ∀ route delayMs, change ≠ .delayedRetry route delayMs)
    (hold : ks.status.lookup id = some old)
    (hinvocation : ks.invocations.lookup id = some invocation)
    (hplan : plan env.clock id runner ownerReason (alive env.clock ks old change) old change =
      .ok none) :
    alone fmt env (Redis.change pool id runner change autoPurge) ks = (.ok none, ks) := by
  obtain ⟨heartbeat, -, hattempt⟩ : ∃ heartbeat, StillSeen ks heartbeat ∧
      alone fmt env (changeAttempt pool id runner change autoPurge) ks = _ :=
    alone_changeAttempt hold hinvocation
  rw [hplan] at hattempt
  exact alone_change hdelayed hattempt (by simp)

/-- **What the operation, run alone, commits.** -/
theorem change_commits {places : InvocationId → Place}
    (hdelayed : ∀ route delayMs, change ≠ .delayedRetry route delayMs)
    (hfits : Fits pool ks change) (htracked : Tracked ks) (hcount : ks.count = ks.held)
    (hat : ∀ x, At fmt ks x (places x)) (hold : ks.status.lookup id = some old)
    (hinvocation : ks.invocations.lookup id = some invocation)
    (hplan : plan env.clock id runner ownerReason (alive env.clock ks old change) old change =
      .ok (some moves)) :
    ∃ (ks' : Keyspace) (places' : InvocationId → Place), alone fmt env (Redis.change pool id runner change autoPurge) ks =
        (.ok (some moves.final), ks') ∧
      (∀ x, At fmt ks' x (places' x)) ∧ ks'.count = ks'.held ∧ Tracked ks' ∧
      ks'.heartbeats = ks.heartbeats ∧
      ∀ x, ks'.account x (places' x) =
        if x = id then (ks.account x (places x)).commit policy runner moves change autoPurge
        else ks.account x (places x) := by
  obtain ⟨heartbeat, hseen, hattempt⟩ : ∃ heartbeat, StillSeen ks heartbeat ∧
      alone fmt env (changeAttempt pool id runner change autoPurge) ks = _ :=
    alone_changeAttempt hold hinvocation
  rw [hplan] at hattempt
  obtain ⟨route, sequence, hroute, hsend⟩ : ∃ route sequence, Routes change route ∧
      alone fmt env (sendRecords pool id runner old invocation change autoPurge heartbeat
        moves.records) ks = _ := alone_sendRecords hfits hold hseen
  have hdone := alone_change hdelayed (hattempt.trans hsend) (by simp)
  -- the sequence number is no part of any account
  have hat' : ∀ x, At fmt { ks with sequence := sequence } x (places x) := by
    intro x
    have hbroker : { ks with sequence := sequence }.broker = ks.broker := rfl
    exact (hat x).congr (agree_of_broker hbroker x)
  have hconserved : Conserved fmt { ks with sequence := sequence } :=
    ⟨fun x => ⟨places x, hat' x⟩, hcount⟩
  have htracked' : Tracked { ks with sequence := sequence } := htracked
  obtain ⟨haccount, hheartbeats, hkept⟩ := applyChange_commits htracked' places hinvocation _ rfl
    hdelayed hroute
  refine ⟨_, _, hdone, at_applyChange _ hat', ?_, hkept, hheartbeats, haccount⟩
  exact ((hconserved.moveDelivery _).of_broker (broker_applyChange _)).count

end Alone

end Rustvello.Redis
