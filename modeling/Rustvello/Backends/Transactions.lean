import Rustvello.Redis.Changes
import Rustvello.Sqlite.Changes

/-!
# One transaction on two backends

`SqlitePublication::change` and `RedisPublication::change` are written for the same purpose.
This module compares them: from a database and a keyspace that say the same, both carry out
the same change at the same time, and nothing else happens.

* `Corresponds` — database and keyspace say the same about every invocation and runner;
* `SameOutcome` — both fail alike, both find nothing to recover, or both accept;
* `Concordant` — the situations in which the two rules of staleness, the two rules for
  argument pairs and the two rules for deliveries lead to the same;
* `transactions_agree_iff` — these are exactly the situations in which the transactions
  agree.
-/

namespace Rustvello.Backends

open Proto Rustvello.Core

/-! ## What is compared -/

/-- Two errors of one kind. -/
def SameKind (e e' : RustvelloError) : Prop :=
  e.ctorIdx = e'.ctorIdx

/-- Both reject with errors of one kind, both have nothing to recover, or both accept. -/
def SameOutcome : RustvelloResult (Option InvocationStatusRecord) →
    RustvelloResult (Option InvocationStatusRecord) → Prop
  | .error e, .error e' => SameKind e e'
  | .ok none, .ok none => True
  | .ok (some record), .ok (some record') => record = record'
  | _, _ => False

/-- Tables and keys say the same, and the keys are in order among themselves. -/
structure Corresponds (fmt : Redis.ScoreFormat) (db : Sqlite.Database) (ks : Redis.Keyspace) :
    Prop where
  accounts : ∃ places : InvocationId → Redis.Place, (∀ id, Redis.At fmt ks id (places id)) ∧
    ∀ id, db.account id = ks.account id (places id)
  heartbeats : ∀ runner, db.runnerHeartbeats.lookup runner = ks.heartbeats.lookup runner
  count : ks.count = ks.held
  tracked : Redis.Tracked ks

/-! ## Where the rules differ -/

section Rules

variable (now : Timestamp) (heartbeat : RunnerId → Option Timestamp)

/-- The instant before which an owner counts as gone. -/
def limit (staleAfterSeconds : Nat) : Timestamp :=
  now - min (staleAfterSeconds : Int) i64Max * 1000000000

/-- The same on Redis, where no one is waited for longer than a year. -/
def cappedLimit (staleAfterSeconds : Nat) : Timestamp :=
  now - (min staleAfterSeconds 31536000 : Nat) * 1000000000

/-- Both limits lie on the same side of an instant. -/
def OneSide (staleAfterSeconds : Nat) (seen : Timestamp) : Prop :=
  ¬ (limit now staleAfterSeconds ≤ seen ∧ seen < cappedLimit now staleAfterSeconds)

/-- Both rules of staleness come to the same verdict: the limit is an instant of the
calendar, the owner was not last seen between the two limits, and an owner without a heartbeat
has its record for longer than the limit. -/
def JudgedAlike (old : InvocationStatusRecord) (staleAfterSeconds : Nat) : Prop :=
  Sqlite.minInstant ≤ limit now staleAfterSeconds ∧
    if old.status = .pending then OneSide now staleAfterSeconds old.timestamp
    else match heartbeat (old.runnerId.getD ⟨""⟩) with
      | none => old.timestamp < limit now staleAfterSeconds
      | some seen =>
          -- a record without an owner is looked up under the empty runner id on Redis only
          if old.runnerId = none then
            limit now staleAfterSeconds ≤ old.timestamp ↔ cappedLimit now staleAfterSeconds ≤ seen
          else OneSide now staleAfterSeconds seen

/-- The change is carried out. -/
def GoesAhead (runner : RunnerId) (old : InvocationStatusRecord) : PublicationChange → Prop
  | .recover status staleAfterSeconds _ =>
      takenOverFrom status = some old.status ∧
        (if old.status = .pending then old.timestamp
          else (old.runnerId.bind heartbeat).getD old.timestamp) < limit now staleAfterSeconds
  | .concurrencyReroute _ => Permitted runner old .concurrencyControlled
  | change => Permitted runner old (targetOf change)

/-- The situations in which it does not matter that the two transactions differ. -/
structure Concordant (account : Account) (runner : RunnerId) (change : PublicationChange)
    (old : InvocationStatusRecord) : Prop where
  /-- Redis needs the stored invocation. -/
  stored : account.invocation.isSome = true ∨
    ∃ status stale route, change = .recover status stale route ∧ takenOverFrom status = none
  judged : ∀ status stale route, change = .recover status stale route →
    takenOverFrom status = some old.status → JudgedAlike now heartbeat old stale
  /-- Only SQLite gives argument pairs back when it queues the invocation again. -/
  freed : (routeOf change).isSome = true → GoesAhead now heartbeat runner old change →
    account.pairs = ∅
  /-- Only Redis ends the delivery at every status. -/
  delivered : ∀ status, change = .status status → Permitted runner old status →
    status ≠ .pending → status.isTerminal = false → account.deliveries = []

end Rules

section Judging

variable {now : Timestamp} {fmt : Redis.ScoreFormat} {db : Sqlite.Database} {ks : Redis.Keyspace}
  {runner : RunnerId} {old : InvocationStatusRecord} {status : InvocationStatus} {stale : Nat}
  {route : PublicationRoute}

theorem limit_le_cappedLimit (now : Timestamp) (stale : Nat) :
    limit now stale ≤ cappedLimit now stale := by
  have hmax : (31536000 : Int) ≤ i64Max := by decide
  have hcap : ∀ time longest : Int, 31536000 ≤ longest →
      time - min (stale : Int) longest * 1000000000 ≤
        time - ((min stale 31536000 : Nat) : Int) * 1000000000 := by
    intro time longest hlongest
    omega
  exact hcap now i64Max hmax

theorem oneSide_iff (seen : Timestamp) :
    OneSide now stale seen ↔ (limit now stale ≤ seen ↔ cappedLimit now stale ≤ seen) := by
  have hle : (limit now stale : Int) ≤ cappedLimit now stale := limit_le_cappedLimit now stale
  unfold OneSide
  constructor
  · intro hside
    constructor
    · intro hlimit
      by_contra hcapped
      exact hside ⟨hlimit, Int.not_le.mp hcapped⟩
    · exact fun hcapped => Int.le_trans hle hcapped
  · intro hiff hbetween
    exact absurd (hiff.mp hbetween.1) (Int.not_le.mpr hbetween.2)

/-- **When the two rules of staleness agree.** -/
theorem alive_eq_iff (hheartbeats : ∀ runner, db.runnerHeartbeats.lookup runner =
    ks.heartbeats.lookup runner) :
    Sqlite.alive now db old (.recover status stale route) =
        Redis.alive now ks old (.recover status stale route) ↔
      JudgedAlike now db.runnerHeartbeats.lookup old stale := by
  have hcutoff : Sqlite.staleCutoff now stale =
      if limit now stale < Sqlite.minInstant then .error (.internal "spawn_blocking join error")
      else .ok (limit now stale) := rfl
  unfold Sqlite.alive Redis.alive JudgedAlike
  simp only [hcutoff, ← hheartbeats]
  by_cases hcalendar : limit now stale < Sqlite.minInstant
  · simp [hcalendar, Except.map]
  · have hlimit : Sqlite.minInstant ≤ limit now stale := Int.not_lt.mp hcalendar
    simp only [if_neg hcalendar, Except.map, Except.ok.injEq, hlimit, true_and, oneSide_iff]
    by_cases hpending : old.status = .pending
    · simp only [Sqlite.lastSeen, if_pos hpending, Option.any_some, decide_eq_decide]
      rfl
    · simp only [Sqlite.lastSeen, if_neg hpending]
      cases howner : old.runnerId with
      | none =>
          simp only [Option.bind_none, Option.getD_none]
          rcases Option.eq_none_or_eq_some (db.runnerHeartbeats.lookup ⟨""⟩) with
            hseen | ⟨seen, hseen⟩
          · simp [hseen]
          · simp only [hseen, Option.any_some, decide_eq_decide, if_true]
            rfl
      | some owner =>
          simp only [Option.bind_some, Option.getD_some]
          rcases Option.eq_none_or_eq_some (db.runnerHeartbeats.lookup owner) with
            hseen | ⟨seen, hseen⟩
          · simp [hseen]
          · simp only [hseen, Option.any_some, Option.getD_some, decide_eq_decide, reduceCtorEq,
              if_false]
            rfl

end Judging

/-! ## Plans on both sides -/

section Plans

variable {now : Timestamp} {id : InvocationId} {db : Sqlite.Database} {runner : RunnerId}
  {old : InvocationStatusRecord} {change : PublicationChange} {reason reason' : String}
  {alive alive' : RustvelloResult Bool} {moves : Moves}

/-- The same verdict on the owner leads to the same records, or to errors of one kind. -/
theorem plan_alike (halive : ∀ status stale route, change = .recover status stale route →
      takenOverFrom status = some old.status → alive = alive') :
    plan now id runner reason alive old change = plan now id runner reason' alive' old change ∨
      ∃ e e', plan now id runner reason alive old change = .error e ∧
        plan now id runner reason' alive' old change = .error e' ∧ SameKind e e' := by
  have hone : planOnce now id runner reason old change =
        planOnce now id runner reason' old change ∨
      ∃ e e', planOnce now id runner reason old change = .error e ∧
        planOnce now id runner reason' old change = .error e' ∧ SameKind e e' := by
    unfold planOnce requireOwner
    by_cases hforeign : hasPayload change = true ∧
        (old.status ≠ .running ∨ old.runnerId ≠ some runner)
    · simp only [if_pos hforeign]
      exact .inr ⟨_, _, rfl, rfl, rfl⟩
    · left
      simp only [if_neg hforeign]
  cases change with
  | status s => exact hone
  | retry route => exact hone
  | delayedRetry route delayMs => exact hone
  | reroute route => exact hone
  | success result => exact hone
  | failure error => exact hone
  | concurrencyReroute route => exact .inl rfl
  | recover s stale route =>
      left
      simp only [plan]
      cases htaken : takenOverFrom s with
      | none => rfl
      | some expected =>
          by_cases hstatus : old.status ≠ expected
          · simp only [if_pos hstatus]
          · have hexpected : old.status = expected := not_not.mp hstatus
            rw [halive s stale route rfl (hexpected ▸ htaken)]

theorem alive_eq_false_iff {status : InvocationStatus} {stale : Nat} {route : PublicationRoute}
    (hcalendar : Sqlite.minInstant ≤ limit now stale) :
    Sqlite.alive now db old (.recover status stale route) = .ok false ↔
      (if old.status = .pending then old.timestamp
        else (old.runnerId.bind db.runnerHeartbeats.lookup).getD old.timestamp) <
        limit now stale := by
  have hcutoff : Sqlite.staleCutoff now stale = .ok (limit now stale) :=
    if_neg (Int.not_lt.mpr hcalendar)
  unfold Sqlite.alive
  simp only [hcutoff, Except.map, Except.ok.injEq, decide_eq_false_iff_not]
  exact Int.not_le

/-- A planned change goes ahead. -/
theorem goesAhead_of_plan
    (hplan : plan now id runner reason (Sqlite.alive now db old change) old change =
      .ok (some moves)) :
    GoesAhead now db.runnerHeartbeats.lookup runner old change := by
  have hone : planOnce now id runner reason old change = .ok (some moves) →
      Permitted runner old (targetOf change) := by
    intro hplan
    obtain ⟨_, -, hplan⟩ := bind_eq_ok.mp hplan
    obtain ⟨final, hfinal, -⟩ := bind_eq_ok.mp hplan
    exact (permitted_of_moveTo hfinal).1
  cases change with
  | status s => exact hone hplan
  | retry route => exact hone hplan
  | delayedRetry route delayMs => exact hone hplan
  | reroute route => exact hone hplan
  | success result => exact hone hplan
  | failure error => exact hone hplan
  | concurrencyReroute route =>
      obtain ⟨twice, htwice, -⟩ := bind_eq_ok.mp hplan
      exact (permitted_of_moveTwice htwice).1
  | recover s stale route =>
      simp only [plan] at hplan
      split at hplan
      · cases hplan
      · rename_i expected htaken
        split at hplan
        · cases hplan
        · rename_i hstatus
          have hexpected : old.status = expected := not_not.mp hstatus
          obtain ⟨seen, hseen, hplan⟩ := bind_eq_ok.mp hplan
          cases seen with
          | true => cases hplan
          | false =>
              have hcalendar : Sqlite.minInstant ≤ limit now stale := by
                by_contra hearly
                have hcutoff : Sqlite.staleCutoff now stale = .error _ :=
                  if_pos (Int.not_le.mp hearly)
                simp [Sqlite.alive, hcutoff, Except.map] at hseen
              exact ⟨hexpected ▸ htaken, (alive_eq_false_iff hcalendar).mp hseen⟩

/-- A routed or plain change that goes ahead is planned. -/
theorem plan_of_goesAhead (hpayload : hasPayload change = false)
    (hcalendar : ∀ status stale route, change = .recover status stale route →
      Sqlite.minInstant ≤ limit now stale)
    (h : GoesAhead now db.runnerHeartbeats.lookup runner old change) :
    ∃ moves, plan now id runner reason (Sqlite.alive now db old change) old change =
      .ok (some moves) := by
  have howner : requireOwner id runner reason old change = .ok () := by
    simp [requireOwner, hpayload]
  have hone : Permitted runner old (targetOf change) →
      ∃ moves, planOnce now id runner reason old change = .ok (some moves) := by
    intro hpermitted
    unfold planOnce
    rw [howner, moveTo_permitted now id hpermitted]
    exact ⟨_, rfl⟩
  cases change with
  | status s => exact hone h
  | retry route => exact hone h
  | delayedRetry route delayMs => exact hone h
  | reroute route => exact hone h
  | success result => cases hpayload
  | failure error => cases hpayload
  | concurrencyReroute route =>
      obtain ⟨moves, hmoves, -⟩ := moveTwice_permitted now id h (by decide) (by decide)
      refine ⟨moves, ?_⟩
      simp only [plan, hmoves]
      rfl
  | recover s stale route =>
      obtain ⟨htaken, hgone⟩ := h
      obtain ⟨hpermitted, hnext, hfree⟩ : Permitted runner old s ∧ _ ∧ _ :=
        permitted_takenOverFrom htaken
      obtain ⟨moves, hmoves, -⟩ := moveTwice_permitted now id hpermitted hnext hfree
      have hseen : Sqlite.alive now db old (.recover s stale route) = .ok false :=
        (alive_eq_false_iff (hcalendar s stale route rfl)).mpr hgone
      refine ⟨moves, ?_⟩
      simp only [plan, htaken]
      rw [if_neg (not_not.mpr rfl), hseen, hmoves]
      rfl

end Plans

/-! ## Commits on both sides -/

section Commits

variable {fmt : Redis.ScoreFormat} {db db' : Sqlite.Database} {ks ks' : Redis.Keyspace}
  {id : InvocationId} {runner : RunnerId} {change : PublicationChange} {moves : Moves}
  {autoPurge : Bool} {a : Account}

/-- The two commits differ at most in argument pairs and delivery. -/
def Indifferent (change : PublicationChange) (a : Account) : Prop :=
  ((routeOf change).isSome = true → a.pairs = ∅) ∧
    (routeOf change = none → targetOf change ≠ .pending →
      (targetOf change).isTerminal = false → a.deliveries = [])

theorem routed_not_terminal (h : (routeOf change).isSome = true) :
    (targetOf change).isTerminal = false := by
  cases change with
  | status s => cases h
  | success result => cases h
  | failure error => cases h
  | retry route => rfl
  | delayedRetry route delayMs => rfl
  | reroute route => rfl
  | concurrencyReroute route => rfl
  | recover s stale route => rfl

theorem commit_eq_iff (runner : RunnerId) (autoPurge : Bool) (a : Account)
    (hfinal : moves.final.status = targetOf change) :
    a.commit Sqlite.policy runner moves change autoPurge =
      a.commit Redis.policy runner moves change autoPurge ↔ Indifferent change a := by
  have hpairs : (a.commit Sqlite.policy runner moves change autoPurge).pairs =
      (a.commit Redis.policy runner moves change autoPurge).pairs ↔
      ((routeOf change).isSome = true → a.pairs = ∅) := by
    cases hrouted : (routeOf change).isSome with
    | false => simp [Account.commit, hrouted]
    | true =>
        have hterminal := routed_not_terminal hrouted
        simp [Account.commit, hrouted, hfinal, hterminal, Sqlite.policy, Redis.policy, eq_comm]
  have hdeliveries : (a.commit Sqlite.policy runner moves change autoPurge).deliveries =
      (a.commit Redis.policy runner moves change autoPurge).deliveries ↔
      (routeOf change = none → targetOf change ≠ .pending →
        (targetOf change).isTerminal = false → a.deliveries = []) := by
    cases hrouted : routeOf change with
    | some route => simp [Account.commit, Account.redeliver, hrouted]
    | none =>
        simp [Account.commit, Account.redeliver, hrouted, hfinal, Sqlite.policy, Redis.policy]
  unfold Indifferent
  rw [← hpairs, ← hdeliveries]
  constructor
  · intro heq
    exact ⟨congrArg Account.pairs heq, congrArg Account.deliveries heq⟩
  · rintro ⟨heqPairs, heqDeliveries⟩
    unfold Account.commit at heqPairs heqDeliveries ⊢
    dsimp only at heqPairs heqDeliveries
    rw [heqPairs, heqDeliveries]

/-- An id without a delivery is absent. -/
theorem deliveries_nil_iff {place : Redis.Place} (hat : Redis.At fmt ks id place) :
    place.deliveries = [] ↔ ks.has (Redis.idWord id) = false := by
  rw [hat.has]
  cases place <;> simp [Redis.Place.deliveries]

/-- **Commits of the same plan.**  Database and keyspace say the same afterwards exactly when
the difference between the commits does not show. -/
theorem corresponds_commits_iff (h : Corresponds fmt db ks)
    (hfinal : moves.final.status = targetOf change)
    (hsqlite : Sqlite.Updates id (fun a => a.commit Sqlite.policy runner moves change autoPurge)
      db db')
    {places places' : InvocationId → Redis.Place}
    (haccounts : ∀ x, db.account x = ks.account x (places x))
    (hat' : ∀ x, Redis.At fmt ks' x (places' x)) (hcount' : ks'.count = ks'.held)
    (htracked' : Redis.Tracked ks') (hheartbeats' : ks'.heartbeats = ks.heartbeats)
    (hredis : ∀ x, ks'.account x (places' x) =
      if x = id then (ks.account x (places x)).commit Redis.policy runner moves change autoPurge
      else ks.account x (places x)) :
    Corresponds fmt db' ks' ↔ Indifferent change (db.account id) := by
  rw [← commit_eq_iff runner autoPurge (db.account id) hfinal]
  have hself : ks'.account id (places' id) =
      (db.account id).commit Redis.policy runner moves change autoPurge := by
    rw [hredis, if_pos rfl, haccounts]
  have hself' : db'.account id =
      (db.account id).commit Sqlite.policy runner moves change autoPurge := by
    rw [hsqlite.account, if_pos rfl]
  constructor
  · intro hafter
    obtain ⟨places'', hat'', haccounts''⟩ := hafter.accounts
    -- the keys determine whether there is a delivery, whatever places explain them
    have hsame : (places'' id).deliveries = (places' id).deliveries := by
      have hleft : (places'' id).deliveries = (db.account id).redeliver Sqlite.policy
          moves.final.status change := by
        have hdeliveries := congrArg Account.deliveries ((haccounts'' id).symm.trans hself')
        exact hdeliveries
      have hright : (places' id).deliveries = (db.account id).redeliver Redis.policy
          moves.final.status change := by
        have hdeliveries := congrArg Account.deliveries hself
        exact hdeliveries
      cases hrouted : routeOf change with
      | some route =>
          rw [hleft, hright]
          simp [Account.redeliver, hrouted]
      | none =>
          have hnil : (places' id).deliveries = [] := by
            rw [hright]
            simp [Account.redeliver, hrouted, Redis.policy]
          rw [hnil, deliveries_nil_iff (hat'' id), ← deliveries_nil_iff (hat' id), hnil]
    have hplaces : ks'.account id (places'' id) = ks'.account id (places' id) := by
      simp only [Redis.Keyspace.account, hsame]
    rw [← hself', haccounts'', hplaces, hself]
  · intro heq
    refine ⟨⟨places', hat', fun x => ?_⟩, fun owner => ?_, hcount', htracked'⟩
    · rw [hsqlite.account, hredis, haccounts]
      by_cases hx : x = id
      · subst hx
        rw [if_pos rfl, if_pos rfl, ← haccounts, heq]
      · rw [if_neg hx, if_neg hx]
    · rw [hsqlite.same, hheartbeats']
      exact h.heartbeats owner

end Commits

/-! ## Agreement -/

section Agreement

variable {fmt : Redis.ScoreFormat} {pool : Redis.RedisPool} {env : Env} {db : Sqlite.Database}
  {ks : Redis.Keyspace} {id : InvocationId} {runner : RunnerId} {change : PublicationChange}
  {old : InvocationStatusRecord} {invocation : InvocationDTO} {autoPurge : Bool}
  {e : RustvelloError} {status : InvocationStatus} {now : Timestamp}

/-- Both transactions have the same outcome and leave corresponding states. -/
def Agrees (fmt : Redis.ScoreFormat)
    (sqlite : RustvelloResult (Option InvocationStatusRecord) × Sqlite.Database)
    (redis : RustvelloResult (Option InvocationStatusRecord) × Redis.Keyspace) : Prop :=
  SameOutcome sqlite.1 redis.1 ∧ Corresponds fmt sqlite.2 redis.2

/-- A valid route of Redis is one of SQLite. -/
theorem validateRoute_ok {route : PublicationRoute} {valid : Redis.ValidRoute}
    (h : Redis.validateRoute route = .ok valid) : Sqlite.validateRoute route = .ok () := by
  obtain ⟨hqueue, hpriority⟩ := Redis.validateRoute_queue h
  have hvalid := (validateRouting_ok_iff _ _).mp valid.valid
  rw [hqueue, hpriority] at hvalid
  have hname : route.queue ≠ "" := by
    intro hempty
    rw [hempty] at hvalid
    exact absurd hvalid.1 (by decide)
  have hfinite : route.priority.isFinite = true := by
    have hpriority := hvalid.2
    cases hcase : route.priority with
    | finite value => rfl
    | negZero => rfl
    | negInf => simp [hcase, validPriority] at hpriority
    | posInf => simp [hcase, validPriority] at hpriority
    | nan => simp [hcase, validPriority] at hpriority
  unfold Sqlite.validateRoute
  rw [if_neg]
  rintro (hqueue | hpriority)
  · exact hname hqueue
  · rw [hfinite] at hpriority
    cases hpriority

theorem configuration_of_sameKind {message : String}
    (h : SameKind e (.configuration message)) : ∃ text, e = .configuration text := by
  cases e with
  | configuration text => exact ⟨text, rfl⟩
  | _ => exact absurd h (by simp [SameKind, RustvelloError.ctorIdx])

/-- The status machine has errors of its own. -/
theorem moveTo_error (h : moveTo now id runner old status = .error e) (message : String) :
    ¬ SameKind e (.configuration message) := by
  unfold moveTo at h
  split at h
  · rename_i refusal _
    cases h
    intro hkind
    obtain ⟨text, htext⟩ := configuration_of_sameKind hkind
    cases refusal <;> cases htext
  · cases h

theorem moveTwice_error (h : moveTwice now id runner old status = .error e) (message : String) :
    ¬ SameKind e (.configuration message) := by
  unfold moveTwice at h
  cases hfirst : moveTo now id runner old status with
  | error e' =>
      rw [hfirst] at h
      cases h
      exact moveTo_error hfirst message
  | ok first =>
      rw [hfirst] at h
      cases hfinal : moveTo now id runner first .rerouted with
      | error e' =>
          simp only [bind, Except.bind, hfinal] at h
          cases h
          exact moveTo_error hfinal message
      | ok final =>
          simp only [bind, Except.bind, hfinal] at h
          cases h

/-- A plan is refused as a configuration error only when it is no recovery at all. -/
theorem plan_error {reason : String} {message : String}
    (h : plan now id runner reason (Sqlite.alive now db old change) old change = .error e)
    (hkind : SameKind e (.configuration message)) :
    ∃ status stale route, change = .recover status stale route ∧ takenOverFrom status = none := by
  have hone : planOnce now id runner reason old change = .error e →
      ¬ SameKind e (.configuration message) := by
    intro h
    unfold planOnce requireOwner at h
    split at h
    · cases h
      intro hkind
      obtain ⟨text, htext⟩ := configuration_of_sameKind hkind
      cases htext
    · cases hfinal : moveTo now id runner old (targetOf change) with
      | error e' =>
          simp only [bind, Except.bind, hfinal] at h
          cases h
          exact moveTo_error hfinal message
      | ok final =>
          simp only [bind, Except.bind, hfinal] at h
          cases h
  have htwo : ∀ status, (do
        let moves ← moveTwice now id runner old status
        pure (some moves) : RustvelloResult (Option Moves)) = .error e →
      ¬ SameKind e (.configuration message) := by
    intro status h
    cases htwice : moveTwice now id runner old status with
    | error e' =>
        rw [htwice] at h
        cases h
        exact moveTwice_error htwice message
    | ok moves =>
        rw [htwice] at h
        cases h
  cases change with
  | status s => exact absurd hkind (hone h)
  | retry route => exact absurd hkind (hone h)
  | delayedRetry route delayMs => exact absurd hkind (hone h)
  | reroute route => exact absurd hkind (hone h)
  | success result => exact absurd hkind (hone h)
  | failure error => exact absurd hkind (hone h)
  | concurrencyReroute route => exact absurd hkind (htwo _ h)
  | recover s stale route =>
      refine ⟨s, stale, route, rfl, ?_⟩
      by_contra htaken
      obtain ⟨expected, hexpected⟩ := Option.ne_none_iff_exists'.mp htaken
      simp only [plan, hexpected] at h
      split at h
      · cases h
      · cases halive : Sqlite.alive now db old (.recover s stale route) with
        | error e' =>
            rw [halive] at h
            cases h
            unfold Sqlite.alive Sqlite.staleCutoff at halive
            dsimp only at halive
            split at halive
            · cases halive
              obtain ⟨text, htext⟩ := configuration_of_sameKind hkind
              cases htext
            · cases halive
        | ok seen =>
            rw [halive] at h
            cases seen with
            | true => cases h
            | false => exact absurd hkind (htwo s h)

/-- Without the stored invocation Redis always rejects, and SQLite rejects alike only what is
no recovery at all. -/
theorem agrees_unstored_iff (h : Corresponds fmt db ks)
    (hdelayed : ∀ route delayMs, change ≠ .delayedRetry route delayMs)
    (hfault : env.failpoint = none) (hold : db.statusRecords.lookup id = some old)
    (hredis : ks.status.lookup id = some old)
    (hstored : db.invocations.lookup id = none) (hstored' : ks.invocations.lookup id = none) :
    Agrees fmt (Sqlite.change env id runner change autoPurge db)
        (Redis.alone fmt env (Redis.change pool id runner change autoPurge) ks) ↔
      ∃ status stale route, change = .recover status stale route ∧ takenOverFrom status = none := by
  rw [Redis.change_incomplete hdelayed hredis hstored']
  constructor
  · rintro ⟨houtcome, -⟩
    cases hplan : plan env.clock id runner Sqlite.ownerReason (Sqlite.alive env.clock db old change)
        old change with
    | error e =>
        rw [Sqlite.change_refuses hfault hold hplan] at houtcome
        exact plan_error hplan houtcome
    | ok planned =>
        cases planned with
        | none =>
            rw [Sqlite.change_passes hfault hold hplan] at houtcome
            exact houtcome.elim
        | some moves =>
            cases hrouted : routeOf change with
            | some route =>
                rw [Sqlite.change_unstored hfault hold hplan hrouted hstored] at houtcome
                obtain ⟨text, htext⟩ := configuration_of_sameKind houtcome
                cases htext
            | none =>
                obtain ⟨db', hdone, -⟩ := Sqlite.change_commits hfault hold hplan
                  (fun route hroute => by rw [hrouted] at hroute; cases hroute)
                rw [hdone] at houtcome
                exact houtcome.elim
  · rintro ⟨status, stale, route, rfl, htaken⟩
    have hplan : plan env.clock id runner Sqlite.ownerReason
        (Sqlite.alive env.clock db old (.recover status stale route)) old
        (.recover status stale route) = .error (.configuration "invalid recovery status") := by
      simp [plan, htaken]
    rw [Sqlite.change_refuses hfault hold hplan]
    exact ⟨rfl, h⟩

/-- Opposite verdicts on the owner: one side recovers, the other does not. -/
theorem not_agrees_of_judged {stale : Nat} {route : PublicationRoute} (h : Corresponds fmt db ks)
    (hfits : Redis.Fits pool ks (.recover status stale route)) (hfault : env.failpoint = none)
    (hold : db.statusRecords.lookup id = some old) (hredis : ks.status.lookup id = some old)
    (hstored : db.invocations.lookup id = some invocation)
    (hstored' : ks.invocations.lookup id = some invocation)
    (htaken : takenOverFrom status = some old.status)
    (hjudged : ¬ JudgedAlike env.clock db.runnerHeartbeats.lookup old stale) :
    ¬ Agrees fmt (Sqlite.change env id runner (.recover status stale route) autoPurge db)
      (Redis.alone fmt env (Redis.change pool id runner (.recover status stale route) autoPurge)
        ks) := by
  have hdelayed : ∀ other delayMs,
      PublicationChange.recover status stale route ≠ .delayedRetry other delayMs := by
    intro other delayMs hcase
    cases hcase
  have hdiffer : Sqlite.alive env.clock db old (.recover status stale route) ≠
      Redis.alive env.clock ks old (.recover status stale route) :=
    fun heq => hjudged ((alive_eq_iff h.heartbeats).mp heq)
  obtain ⟨hpermitted, hnext, hfree⟩ : Permitted runner old status ∧ _ ∧ _ :=
    permitted_takenOverFrom htaken
  obtain ⟨moves, hmoves, -⟩ := moveTwice_permitted env.clock id hpermitted hnext hfree
  have hplan : ∀ (reason : String) (alive : RustvelloResult Bool),
      plan env.clock id runner reason alive old (.recover status stale route) =
        alive >>= fun seen => if seen then pure none else pure (some moves) := by
    intro reason alive
    simp only [plan, htaken, ne_eq, not_true, if_false, hmoves]
    rfl
  obtain ⟨places, hat, haccounts⟩ := h.accounts
  have hsqlitePlan := hplan Sqlite.ownerReason
    (Sqlite.alive env.clock db old (.recover status stale route))
  have hredisPlan := hplan Redis.ownerReason
    (Redis.alive env.clock ks old (.recover status stale route))
  obtain ⟨verdict, hverdict⟩ : ∃ verdict,
      Redis.alive env.clock ks old (.recover status stale route) = .ok verdict := ⟨_, rfl⟩
  rw [hverdict] at hdiffer hredisPlan
  -- what Redis answers on either verdict
  have hanswer : ∃ ks', Redis.alone fmt env
      (Redis.change pool id runner (.recover status stale route) autoPurge) ks =
        (.ok (if verdict then none else some moves.final), ks') := by
    cases verdict with
    | true => exact ⟨ks, Redis.change_passes hdelayed hredis hstored'
        (by rw [hverdict]; exact hredisPlan)⟩
    | false =>
        obtain ⟨ks', -, hdone, -⟩ := Redis.change_commits hdelayed hfits h.tracked h.count hat
          hredis hstored' (by rw [hverdict]; exact hredisPlan)
        exact ⟨ks', hdone⟩
  obtain ⟨ks', hredisDone⟩ := hanswer
  rintro ⟨houtcome, -⟩
  rw [hredisDone] at houtcome
  cases halive : Sqlite.alive env.clock db old (.recover status stale route) with
  | error e =>
      rw [halive] at hsqlitePlan
      rw [Sqlite.change_refuses hfault hold (by rw [halive]; exact hsqlitePlan)] at houtcome
      exact houtcome.elim
  | ok seen =>
      rw [halive] at hsqlitePlan hdiffer
      cases seen with
      | true =>
          rw [Sqlite.change_passes hfault hold (by rw [halive]; exact hsqlitePlan)] at houtcome
          cases verdict with
          | true => exact hdiffer rfl
          | false => exact houtcome.elim
      | false =>
          obtain ⟨db', hdone, -⟩ := Sqlite.change_commits hfault hold
            (by rw [halive]; exact hsqlitePlan) fun other hroute => by
              obtain ⟨valid, hvalid⟩ := hfits.route other hroute
              exact ⟨validateRoute_ok hvalid, Option.isSome_iff_exists.mpr ⟨invocation, hstored⟩⟩
          rw [hdone] at houtcome
          cases verdict with
          | true => exact houtcome.elim
          | false => exact hdiffer rfl

/-- The same verdict, and both sides have the stored invocation. -/
theorem agrees_stored_iff (h : Corresponds fmt db ks)
    (hdelayed : ∀ route delayMs, change ≠ .delayedRetry route delayMs)
    (hfits : Redis.Fits pool ks change) (hfault : env.failpoint = none)
    (hold : db.statusRecords.lookup id = some old) (hredis : ks.status.lookup id = some old)
    (hstored : db.invocations.lookup id = some invocation)
    (hstored' : ks.invocations.lookup id = some invocation)
    (hjudged : ∀ status stale route, change = .recover status stale route →
      takenOverFrom status = some old.status →
      JudgedAlike env.clock db.runnerHeartbeats.lookup old stale) :
    Agrees fmt (Sqlite.change env id runner change autoPurge db)
        (Redis.alone fmt env (Redis.change pool id runner change autoPurge) ks) ↔
      ∀ moves, plan env.clock id runner Sqlite.ownerReason (Sqlite.alive env.clock db old change)
        old change = .ok (some moves) → Indifferent change (db.account id) := by
  have halike : plan env.clock id runner Sqlite.ownerReason (Sqlite.alive env.clock db old change)
        old change = plan env.clock id runner Redis.ownerReason
          (Redis.alive env.clock ks old change) old change ∨
      ∃ e e', plan env.clock id runner Sqlite.ownerReason (Sqlite.alive env.clock db old change)
          old change = .error e ∧
        plan env.clock id runner Redis.ownerReason (Redis.alive env.clock ks old change) old
          change = .error e' ∧ SameKind e e' := by
    apply plan_alike
    rintro status stale route rfl htaken
    exact (alive_eq_iff h.heartbeats).mpr (hjudged status stale route rfl htaken)
  rcases halike with hsame | ⟨e, e', hplan, hplan', hkind⟩
  · cases hplan : plan env.clock id runner Sqlite.ownerReason (Sqlite.alive env.clock db old change)
        old change with
    | error e =>
        rw [hplan] at hsame
        rw [Sqlite.change_refuses hfault hold hplan,
          Redis.change_refuses hdelayed hredis hstored' hsame.symm]
        constructor
        · intro _ moves hmoves
          cases hmoves
        · exact fun _ => ⟨rfl, h⟩
    | ok planned =>
        rw [hplan] at hsame
        cases planned with
        | none =>
            rw [Sqlite.change_passes hfault hold hplan,
              Redis.change_passes hdelayed hredis hstored' hsame.symm]
            constructor
            · intro _ moves hmoves
              cases hmoves
            · exact fun _ => ⟨trivial, h⟩
        | some moves =>
            obtain ⟨places, hat, haccounts⟩ := h.accounts
            obtain ⟨db', hdone, hsqlite⟩ : ∃ db',
                Sqlite.change env id runner change autoPurge db = (.ok (some moves.final), db') ∧
                  _ := Sqlite.change_commits hfault hold hplan fun other hroute => by
                obtain ⟨valid, hvalid⟩ := hfits.route other hroute
                exact ⟨validateRoute_ok hvalid, Option.isSome_iff_exists.mpr ⟨invocation, hstored⟩⟩
            obtain ⟨ks', places', hdone', hat', hcount', htracked', hheartbeats', hredis'⟩ :
                ∃ (ks' : Redis.Keyspace) (places' : InvocationId → Redis.Place),
                  Redis.alone fmt env (Redis.change pool id runner change autoPurge) ks =
                    (.ok (some moves.final), ks') ∧ _ :=
              Redis.change_commits hdelayed hfits h.tracked h.count hat hredis hstored' hsame.symm
            have hiff := corresponds_commits_iff h (plan_final hplan) hsqlite haccounts hat' hcount'
              htracked' hheartbeats' hredis'
            rw [hdone, hdone']
            constructor
            · rintro ⟨-, hafter⟩ other -
              exact hiff.mp hafter
            · intro hindifferent
              exact ⟨rfl, hiff.mpr (hindifferent moves rfl)⟩
  · rw [Sqlite.change_refuses hfault hold hplan, Redis.change_refuses hdelayed hredis hstored' hplan']
    constructor
    · intro _ moves hmoves
      rw [hplan] at hmoves
      cases hmoves
    · exact fun _ => ⟨hkind, h⟩

/-- Being concordant, once both verdicts are the same and the invocation is stored. -/
theorem concordant_iff (hstored : db.invocations.lookup id = some invocation)
    (hjudged : ∀ status stale route, change = .recover status stale route →
      takenOverFrom status = some old.status →
      JudgedAlike env.clock db.runnerHeartbeats.lookup old stale) :
    (∀ moves, plan env.clock id runner Sqlite.ownerReason (Sqlite.alive env.clock db old change)
        old change = .ok (some moves) → Indifferent change (db.account id)) ↔
      Concordant env.clock db.runnerHeartbeats.lookup (db.account id) runner change old := by
  constructor
  · intro hindifferent
    refine ⟨.inl (Option.isSome_iff_exists.mpr ⟨invocation, hstored⟩), hjudged, ?_, ?_⟩
    · intro hrouted hgoes
      have hpayload : hasPayload change = false := by
        cases change <;> first | rfl | cases hrouted
      obtain ⟨moves, hplan⟩ : ∃ moves, plan env.clock id runner Sqlite.ownerReason
          (Sqlite.alive env.clock db old change) old change = .ok (some moves) := by
        apply plan_of_goesAhead hpayload _ hgoes
        rintro status stale route rfl
        exact (hjudged status stale route rfl hgoes.1).1
      exact (hindifferent moves hplan).1 hrouted
    · rintro status rfl hpermitted hpending hterminal
      have hgoes : GoesAhead env.clock db.runnerHeartbeats.lookup runner old (.status status) :=
        hpermitted
      obtain ⟨moves, hplan⟩ : ∃ moves, plan env.clock id runner Sqlite.ownerReason
          (Sqlite.alive env.clock db old (.status status)) old (.status status) =
            .ok (some moves) := by
        apply plan_of_goesAhead rfl _ hgoes
        intro other stale route hcase
        cases hcase
      exact (hindifferent moves hplan).2 rfl hpending hterminal
  · intro hconcordant moves hplan
    have hgoes := goesAhead_of_plan hplan
    refine ⟨fun hrouted => hconcordant.freed hrouted hgoes, fun hnone hpending hterminal => ?_⟩
    cases change with
    | status s => exact hconcordant.delivered s rfl hgoes hpending hterminal
    | success result =>
        exact absurd (show InvocationStatus.success.isTerminal = false from hterminal) (by decide)
    | failure error =>
        exact absurd (show InvocationStatus.failed.isTerminal = false from hterminal) (by decide)
    | retry route => cases hnone
    | delayedRetry route delayMs => cases hnone
    | reroute route => cases hnone
    | concurrencyReroute route => cases hnone
    | recover s stale route => cases hnone

/-- **When the transactions agree.**  From corresponding states, for every change but a
delayed retry, with a valid route and within the limits, at one time and with nobody else
writing: SQLite and Redis reject with errors of one kind, both find nothing to recover, or both
accept the same record, and the states correspond again, exactly when the situation is
concordant. -/
theorem transactions_agree_iff (h : Corresponds fmt db ks)
    (hdelayed : ∀ route delayMs, change ≠ .delayedRetry route delayMs)
    (hfits : Redis.Fits pool ks change) (hfault : env.failpoint = none) :
    Agrees fmt (Sqlite.change env id runner change autoPurge db)
        (Redis.alone fmt env (Redis.change pool id runner change autoPurge) ks) ↔
      ∀ old, db.statusRecords.lookup id = some old →
        Concordant env.clock db.runnerHeartbeats.lookup (db.account id) runner change old := by
  obtain ⟨places, -, haccounts⟩ := h.accounts
  have hrecord : ks.status.lookup id = db.statusRecords.lookup id :=
    congrArg Account.record (haccounts id).symm
  have hinvocation : ks.invocations.lookup id = db.invocations.lookup id :=
    congrArg Account.invocation (haccounts id).symm
  cases hold : db.statusRecords.lookup id with
  | none =>
      rw [Sqlite.change_unknown hfault hold, Redis.change_unknown hdelayed (hrecord.trans hold)]
      constructor
      · intro _ old hsome
        cases hsome
      · exact fun _ => ⟨rfl, h⟩
  | some old =>
      have hredis := hrecord.trans hold
      simp only [Option.some.injEq, forall_eq']
      cases hstored : db.invocations.lookup id with
      | none =>
          rw [agrees_unstored_iff h hdelayed hfault hold hredis hstored
            (hinvocation.trans hstored)]
          have hnone : (db.account id).invocation = none := hstored
          constructor
          · intro hinvalid
            have hnothing := hinvalid
            obtain ⟨status, stale, route, rfl, htaken⟩ := hinvalid
            refine ⟨.inr hnothing, ?_, ?_, ?_⟩
            · rintro s st r hchange hsome
              cases hchange
              rw [htaken] at hsome
              cases hsome
            · rintro - ⟨hsome, -⟩
              rw [htaken] at hsome
              cases hsome
            · rintro s hchange
              cases hchange
          · intro hconcordant
            rcases hconcordant.stored with hsome | hinvalid
            · rw [hnone] at hsome
              cases hsome
            · exact hinvalid
      | some invocation =>
          have hstored' := hinvocation.trans hstored
          by_cases hjudged : ∀ status stale route, change = .recover status stale route →
              takenOverFrom status = some old.status →
              JudgedAlike env.clock db.runnerHeartbeats.lookup old stale
          · rw [agrees_stored_iff h hdelayed hfits hfault hold hredis hstored hstored' hjudged]
            exact concordant_iff hstored hjudged
          · constructor
            · intro hagrees
              push Not at hjudged
              obtain ⟨status, stale, route, rfl, htaken, hdiffer⟩ := hjudged
              exact absurd hagrees (not_agrees_of_judged h hfits hfault hold hredis hstored
                hstored' htaken hdiffer)
            · exact fun hconcordant => absurd hconcordant.judged hjudged

end Agreement

/-! ## A running invocation on both backends -/

def heldId : InvocationId := ⟨"a"⟩

def heldRecord : InvocationStatusRecord := ⟨.running, some ⟨"r"⟩, 0⟩

def heldInvocation : InvocationDTO :=
  { InvocationDTO.new 0 heldId ⟨.rust, "m", "t"⟩ ⟨⟨.rust, "m", "t"⟩, "x"⟩ with
    status := .running }

/-- One running invocation, without a delivery. -/
def heldDatabase (heartbeats : Table RunnerId Timestamp) : Sqlite.Database where
  invocations := (∅ : Table _ _).insert heldId heldInvocation
  statusRecords := (∅ : Table _ _).insert heldId heldRecord
  runnerHeartbeats := heartbeats

def heldKeyspace (heartbeats : Table RunnerId Timestamp) : Redis.Keyspace where
  invocations := (∅ : Table _ _).insert heldId heldInvocation
  status := (∅ : Table _ _).insert heldId heldRecord
  heartbeats := heartbeats

theorem corresponds_held (fmt : Redis.ScoreFormat) (heartbeats : Table RunnerId Timestamp) :
    Corresponds fmt (heldDatabase heartbeats) (heldKeyspace heartbeats) where
  accounts := by
    refine ⟨fun _ => .absent, fun id => ?_, fun id => ?_⟩
    · exact ⟨fun _ _ _ => rfl, fun _ _ _ => rfl, rfl, fun _ _ => rfl, fun _ _ => rfl, rfl⟩
    · simp [Sqlite.Database.account, Redis.Keyspace.account, heldDatabase, heldKeyspace,
        Redis.Place.deliveries]
  heartbeats _ := rfl
  count := rfl
  tracked := by
    intro id key hmem
    simp [heldKeyspace] at hmem

def heldRoute : PublicationRoute := ⟨"default", .finite 0⟩

/-- Recover what has been running for more than a minute. -/
def heldRecovery : PublicationChange := .recover .runningRecovery 60 heldRoute

theorem fits_held (heartbeats : Table RunnerId Timestamp) :
    Redis.Fits Redis.plainPool (heldKeyspace heartbeats) heldRecovery where
  route := by
    rintro route hroute
    cases hroute
    exact ⟨⟨"default", .finite 0, by decide⟩, by decide⟩
  room := by
    show 0 < 10000
    decide
  sequence := by
    show 0 < i64Max.toNat
    decide
  payload := by
    show 0 ≤ _
    exact Nat.zero_le _

/-- An owner last seen two minutes ago is replaced on both sides. -/
theorem transactions_agree_abandoned :
    let heartbeats : Table RunnerId Timestamp := (∅ : Table _ _).insert ⟨"r"⟩ 0
    Agrees Redis.plainFormat
      (Sqlite.change { clock := 120 * 1000000000 } heldId ⟨"s"⟩ heldRecovery false
        (heldDatabase heartbeats))
      (Redis.alone Redis.plainFormat { clock := 120 * 1000000000 }
        (Redis.change Redis.plainPool heldId ⟨"s"⟩ heldRecovery false)
        (heldKeyspace heartbeats)) := by
  intro heartbeats
  refine (transactions_agree_iff (corresponds_held _ _) (fun _ _ hcase => by cases hcase)
    (fits_held _) rfl).mpr ?_
  intro old hold
  obtain rfl : heldRecord = old :=
    Option.some.inj ((AList.lookup_insert (∅ : Table _ _)).symm.trans hold)
  refine ⟨.inl rfl, ?_, ?_, ?_⟩
  · rintro status stale route hcase -
    cases hcase
    have hside : OneSide (120 * 1000000000) 60 0 := fun hbetween => absurd hbetween.1 (by decide)
    exact ⟨by decide, hside⟩
  · intro _ _
    simp [Sqlite.Database.account, heldDatabase]
  · intro status hcase
    cases hcase

/-- **A runner that has not sent a heartbeat yet.**  Its invocation has been running for ten
seconds: SQLite leaves it alone, Redis takes it away. -/
theorem unseen_owner_replaced_on_redis :
    Corresponds Redis.plainFormat (heldDatabase ∅) (heldKeyspace ∅) ∧
      Redis.Fits Redis.plainPool (heldKeyspace ∅) heldRecovery ∧
      (Sqlite.change { clock := 10 * 1000000000 } heldId ⟨"s"⟩ heldRecovery false
        (heldDatabase ∅)).1 = .ok none ∧
      (Redis.alone Redis.plainFormat { clock := 10 * 1000000000 }
        (Redis.change Redis.plainPool heldId ⟨"s"⟩ heldRecovery false) (heldKeyspace ∅)).1 =
          .ok (some ⟨.rerouted, none, 10 * 1000000000⟩) := by
  refine ⟨corresponds_held _ _, fits_held _, ?_, ?_⟩
  · decide +kernel
  · decide +kernel

end Rustvello.Backends
