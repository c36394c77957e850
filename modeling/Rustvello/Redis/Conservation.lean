import Mathlib.Data.Set.Card
import Rustvello.Redis.Places

/-!
# Conservation of queue entries on Redis

Every script keeps every id in a place, with two exceptions: the end of a lease drops an
entry whose payload cannot be read back, and a submission does not look at the broker
before it enters its id.

* `conserved_exec` — what every request keeps, under one condition on retrievals
  (`CleanLeases`) and one on submissions;
* `conserved_reachable` — the result for every run;
* `taskless_lost` — an entry without a task does not survive the end of its lease.
-/

namespace Rustvello.Redis

open Concurrency Proto Rustvello.Core Text Keyspace

/-! ## What every script keeps -/

section Scripts

variable {fmt : ScoreFormat} {ks ks' : Keyspace} {id : InvocationId} (args : ChangeArgs)

/-- The keys that conservation is about. -/
def Keyspace.broker (ks : Keyspace) :=
  (ks.queues, ks.metadata, ks.queuedByInv, ks.leases, ks.leasePayload, ks.leasedByInv, ks.count)

theorem agree_of_broker (hsame : ks'.broker = ks.broker) (id : InvocationId) :
    Agree ks ks' id := by
  simp only [Keyspace.broker, Prod.mk.injEq] at hsame
  obtain ⟨hqueues, hmetadata, hqueued, hleases, hpayload, hleased, -⟩ := hsame
  refine ⟨?_, ?_, ?_, ?_, ?_, ?_⟩
  · simp [hqueues]
  · simp [hmetadata]
  · rw [hqueued]
  · simp [hleases]
  · simp [hpayload]
  · rw [hleased]

theorem Conserved.of_broker (h : Conserved fmt ks) (hsame : ks'.broker = ks.broker) :
    Conserved fmt ks' := by
  constructor
  · intro id
    obtain ⟨place, hat⟩ := h.places id
    exact ⟨place, hat.congr (agree_of_broker hsame id)⟩
  · simp only [Keyspace.broker, Prod.mk.injEq] at hsame
    obtain ⟨-, -, hqueued, -, -, hleased, hcount⟩ := hsame
    rw [hcount, h.count, Keyspace.held, Keyspace.held, hqueued, hleased]

/-- One id moves, all others stay. -/
theorem Conserved.move (place : Place) (h : Conserved fmt ks) (hid : At fmt ks' id place)
    (hothers : ∀ x, x ≠ id → Agree ks ks' x) (hcount : ks'.count = ks'.held) :
    Conserved fmt ks' := by
  refine ⟨fun x => ?_, hcount⟩
  by_cases hx : x = id
  · exact ⟨place, hx ▸ hid⟩
  · obtain ⟨old, hold⟩ := h.places x
    exact ⟨old, hold.congr (hothers x hx)⟩

/-- A new entry takes the place of whatever there was. -/
theorem Conserved.replace (h : Conserved fmt ks) (id : InvocationId) (e : Entry) (count : Nat)
    (hcount : count = if ks.has (idWord id) then ks.count else ks.count + 1) :
    Conserved fmt
      { ((ks.removeQueued (idWord id)).removeLeased (idWord id)).enqueue (idWord id)
          e.route.queueWord (e.member id) e.task e.route.priority with
        count := count } := by
  obtain ⟨place, hat⟩ := h.places id
  have hid := At.enqueue e hat.remove
  refine h.move (.queued e) { hid with } (fun x hx => ?_) ?_
  · exact { (hat.agree_remove hx).trans (agree_enqueue hx (memberId_entry e)) with }
  · have hheld := held_remove hat
    have hweight := place.weight_le
    have henqueued : (((ks.removeQueued (idWord id)).removeLeased (idWord id)).enqueue (idWord id)
        e.route.queueWord (e.member id) e.task e.route.priority).held =
          (((ks.removeQueued (idWord id)).removeLeased (idWord id)).unlist (idWord id)).held + 1 :=
      held_enqueue
    have hlen := h.count
    change count = (((ks.removeQueued (idWord id)).removeLeased (idWord id)).enqueue (idWord id)
        e.route.queueWord (e.member id) e.task e.route.priority).held
    rw [hcount, henqueued]
    split
    · rename_i hhas
      have hone := hat.has_iff.mp hhas
      omega
    · rename_i hhas
      have hzero : place.weight ≠ 1 := fun hone => hhas (hat.has_iff.mpr hone)
      omega

theorem Conserved.route (h : Conserved fmt ks) (args : RouteArgs) :
    Conserved fmt (ks.routeScript args).2 := by
  unfold routeScript
  dsimp only
  split
  · exact h
  · have hmoved := h.replace args.id ⟨args.route, args.sequence, taskWord args.taskId⟩ _ rfl
    refine hmoved.of_broker ?_
    split <;> simp [Keyspace.broker, Keyspace.enqueue, Entry.member]

/-- An accepted submission, of an id the broker does not hold. -/
theorem Conserved.submit (h : Conserved fmt ks) (args : SubmitArgs)
    (hfresh : submitRefusal args ks = none →
      ks.has (idWord args.submission.invocation.invocationId) = false) :
    Conserved fmt (ks.submitScript args).2 := by
  unfold submitScript
  split
  · exact h
  · rename_i haccepted
    have hhas := hfresh haccepted
    have hnone := Bool.or_eq_false_iff.mp hhas
    have hqueued : ks.queuedByInv.lookup (idWord args.submission.invocation.invocationId) =
        none := by simpa using hnone.1
    have hleased : ks.leasedByInv.lookup (idWord args.submission.invocation.invocationId) =
        none := by simpa using hnone.2
    have hmoved := h.replace args.submission.invocation.invocationId
      ⟨args.route, args.sequence, taskWord (some args.submission.invocation.taskId)⟩
      (ks.count + 1) (by simp [hhas])
    rw [removeQueued_of_none hqueued, removeLeased_of_none hleased] at hmoved
    exact hmoved.of_broker rfl

/-- The index of queued ids plays no part in ending a lease. -/
theorem removeLeased_unlist (ks : Keyspace) (id : Word) :
    (ks.unlist id).removeLeased id = (ks.removeLeased id).unlist id := by
  unfold Keyspace.removeLeased
  have hsame : (ks.unlist id).leasedByInv = ks.leasedByInv := rfl
  rw [hsame]
  split <;> rfl

/-- A new entry overwrites the index anyway. -/
theorem enqueue_unlist (ks : Keyspace) (id queue member task : Word) (priority : F64) :
    (ks.unlist id).enqueue id queue member task priority =
      ks.enqueue id queue member task priority := by
  have hinsert : (ks.queuedByInv.erase id).insert id (join unitSeparator [queue, member]) =
      ks.queuedByInv.insert id (join unitSeparator [queue, member]) := by
    refine AList.ext ?_
    rw [AList.entries_insert, AList.entries_insert]
    have hgone : id ∉ (ks.queuedByInv.erase id).entries.keys :=
      List.notMem_keys_kerase id ks.queuedByInv.nodupKeys
    have herased := List.kerase_of_notMem_keys hgone
    simp only [herased]
    rfl
  unfold Keyspace.enqueue
  change { ks with
    queues := _, metadata := _,
    queuedByInv := (ks.queuedByInv.erase id).insert id (join unitSeparator [queue, member]) } = _
  rw [hinsert]
  rfl

/-- Where a change leaves its invocation. -/
def newPlace (args : ChangeArgs) : Place :=
  match args.route with
  | none => .absent
  | some (route, number) => .queued ⟨route, number, taskWord (some args.invocation.taskId)⟩

theorem At.moveDelivery {args : ChangeArgs} {place : Place} (h : At fmt ks args.id place) :
    At fmt (ks.moveDelivery args) args.id (newPlace args) := by
  unfold Keyspace.moveDelivery newPlace
  dsimp only
  rw [removeLeased_unlist]
  rcases args.route with _ | ⟨route, number⟩
  · exact { h.remove with }
  · have hid := At.enqueue ⟨route, number, taskWord (some args.invocation.taskId)⟩ h.remove
    dsimp only
    rw [enqueue_unlist]
    exact { hid with }

theorem agree_moveDelivery {args : ChangeArgs} {place : Place} {x : InvocationId}
    (h : At fmt ks args.id place) (hx : x ≠ args.id) : Agree ks (ks.moveDelivery args) x := by
  unfold Keyspace.moveDelivery
  dsimp only
  rw [removeLeased_unlist]
  split
  · exact { (h.agree_remove hx).trans (agree_unlist hx) with }
  · rename_i route number _
    rw [enqueue_unlist]
    exact { (h.agree_remove hx).trans (agree_enqueue hx (memberId_queueMember number args.id)) with }

theorem Conserved.moveDelivery (h : Conserved fmt ks) (args : ChangeArgs) :
    Conserved fmt (ks.moveDelivery args) := by
  obtain ⟨place, hat⟩ := h.places args.id
  refine h.move (newPlace args) hat.moveDelivery (fun x hx => agree_moveDelivery hat hx) ?_
  have hheld := held_remove hat
  have hlen := h.count
  have hweight := place.weight_le
  unfold Keyspace.moveDelivery
  dsimp only
  rw [removeLeased_unlist]
  split
  · change (if ks.has (idWord args.id) then ks.count - 1 else ks.count) =
      (((ks.removeQueued (idWord args.id)).removeLeased (idWord args.id)).unlist
        (idWord args.id)).held
    split
    · rename_i hhas
      have hone := hat.has_iff.mp hhas
      omega
    · rename_i hhas
      have hzero : place.weight ≠ 1 := fun hone => hhas (hat.has_iff.mpr hone)
      omega
  · rename_i route number _
    rw [enqueue_unlist]
    exact (h.replace args.id ⟨route, number, taskWord (some args.invocation.taskId)⟩ _ rfl).count

theorem broker_foldl_pushHistory (histories : List InvocationHistory) :
    (histories.foldl (fun ks history => ks.pushHistory args.id history) ks).broker =
      ks.broker := by
  induction histories generalizing ks with
  | nil => rfl
  | cons history rest ih => exact ih

theorem broker_writePayload : (ks.writePayload args).broker = ks.broker := by
  unfold Keyspace.writePayload
  split <;> rfl

theorem broker_writeTerminal : (ks.writeTerminal args).broker = ks.broker := by
  unfold Keyspace.writeTerminal
  split
  · dsimp only
    split <;> rfl
  · rfl

/-- The rest of a change is no business of the broker. -/
theorem broker_applyChange :
    (ks.applyChange args).broker = (ks.moveDelivery args).broker := by
  unfold Keyspace.applyChange
  dsimp only
  rw [broker_writeTerminal]
  split
  · change (Keyspace.writePayload args _).broker = _
    rw [broker_writePayload, broker_foldl_pushHistory]
    rfl
  · rw [broker_writePayload, broker_foldl_pushHistory]
    rfl

theorem Conserved.change (h : Conserved fmt ks) (args : ChangeArgs) :
    Conserved fmt (ks.changeScript args).2 := by
  unfold changeScript
  split
  · exact h
  · exact (h.moveDelivery args).of_broker (broker_applyChange args)

end Scripts

/-! ## The end of a lease -/

/-- Not empty and without the separator. -/
def Clean (word : Word) : Prop :=
  word ≠ [] ∧ unitSeparator ∉ word

/-- What the end of the lease of a member does to a place. -/
def Place.afterLease (id : InvocationId) (member : Word) : Place → Place
  | leased e expiresAt => if e.member id = member then queued e else leased e expiresAt
  | place => place

section Expiry

variable {fmt : ScoreFormat} {ks : Keyspace} {id x : InvocationId} {e : Entry} {expiresAt : Int}
  {member : Word} {place : Place}

theorem separator_notMem_member : unitSeparator ∉ e.member id ↔ unitSeparator ∉ idWord id := by
  have hpadded : ∀ n, unitSeparator ∉ padded n :=
    fun n h => absurd (isDigit_of_mem_padded h) (by decide)
  have hcolon : unitSeparator ≠ ':' := by decide
  simp [Entry.member, queueMember, hpadded, hcolon]

/-- The payload of a lease is read back exactly when id and task are clean. -/
theorem intact_leaseWord (fmt : ScoreFormat) (id : InvocationId) (e : Entry) :
    Intact unitSeparator 5 (leaseWord fmt (idWord id) e.route.queueWord (e.member id) e.task
      e.route.priority) ↔ Clean (idWord id) ∧ Clean e.task := by
  have hmember : e.member id ≠ [] := by simp [Entry.member, queueMember]
  have hfields : [idWord id, e.route.queueWord, e.member id, e.task,
      fmt.text e.route.priority] ≠ [] := by simp
  refine (intact_join_iff hfields).trans ?_
  simp only [List.mem_cons, List.not_mem_nil, or_false, forall_eq_or_imp, forall_eq,
    separator_notMem_member]
  have hqueue := e.route.queueWord_ne_nil
  have hqueueClean := e.route.separator_notMem
  have hscore := fmt.text_ne_nil e.route.priority
  have hscoreClean := fmt.separator_notMem_text e.route.priority
  unfold Clean
  tauto

theorem number_text_route (route : ValidRoute) :
    fmt.number (fmt.text route.priority) = route.priority :=
  fmt.number_text _ ((validateRouting_ok_iff _ _).mp route.valid).2

/-- An intact payload brings the entry back as it was. -/
theorem expireLease_of_leased (h : At fmt ks id (.leased e expiresAt))
    (hintact : ∀ payload ∈ ks.leasePayload.lookup (e.member id), Intact unitSeparator 5 payload) :
    ks.expireLease fmt (e.member id) =
      { ks.enqueue (idWord id) e.route.queueWord (e.member id) e.task e.route.priority with
        leasedByInv := ks.leasedByInv.erase (idWord id) }.endLease (e.member id) := by
  have hpayload : ks.leasePayload.lookup (e.member id) =
      some (leaseWord fmt (idWord id) e.route.queueWord (e.member id) e.task
        e.route.priority) := by
    rw [h.leasePayload _ (memberId_entry e)]
    simp [Place.holding]
  have hruns : runs unitSeparator (leaseWord fmt (idWord id) e.route.queueWord (e.member id)
      e.task e.route.priority) = [idWord id, e.route.queueWord, e.member id, e.task,
        fmt.text e.route.priority] :=
    runs_join (by simp) (hintact _ hpayload)
  have hleased : ks.leasedByInv.lookup (idWord id) = some (e.member id) := h.leasedByInv
  unfold Keyspace.expireLease
  simp only [hpayload, hruns, hleased, if_true, number_text_route]

/-- A member without a lease is left alone. -/
theorem expireLease_of_none (h : ks.leasePayload.lookup member = none) :
    ks.expireLease fmt member = ks.endLease member := by
  simp [Keyspace.expireLease, h]

theorem At.endLease_of_none (h : At fmt ks x place) (hlease : ks.leases.lookup member = none)
    (hpayload : ks.leasePayload.lookup member = none) :
    At fmt (ks.endLease member) x place := by
  refine h.congr { Agree.refl ks x with leases := fun m _ => ?_, leasePayload := fun m _ => ?_ }
  · by_cases hm : m = member
    · subst hm
      exact (AList.lookup_erase _ _).trans hlease.symm
    · exact AList.lookup_erase_ne hm
  · by_cases hm : m = member
    · subst hm
      exact (AList.lookup_erase _ _).trans hpayload.symm
    · exact AList.lookup_erase_ne hm

/-- The lease ends and the entry is back in its queue. -/
theorem At.returned (h : At fmt ks id (.leased e expiresAt)) :
    At fmt ({ ks.enqueue (idWord id) e.route.queueWord (e.member id) e.task e.route.priority with
      leasedByInv := ks.leasedByInv.erase (idWord id) }.endLease (e.member id)) id (.queued e) where
  queues q m hm := by
    refine (lookup_update_insert _ _).trans ?_
    exact if_congr Iff.rfl rfl (h.queues q m hm)
  metadata q m hm := by
    refine (lookup_update_insert _ _).trans ?_
    exact if_congr Iff.rfl rfl (h.metadata q m hm)
  queuedByInv := AList.lookup_insert _
  leases m hm := by
    by_cases hne : m = e.member id
    · subst hne
      exact AList.lookup_erase _ _
    · exact (AList.lookup_erase_ne hne).trans ((h.leases m hm).trans (if_neg hne))
  leasePayload m hm := by
    by_cases hne : m = e.member id
    · subst hne
      exact AList.lookup_erase _ _
    · exact (AList.lookup_erase_ne hne).trans ((h.leasePayload m hm).trans (if_neg hne))
  leasedByInv := AList.lookup_erase _ _

theorem agree_returned (hx : x ≠ id) :
    Agree ks ({ ks.enqueue (idWord id) e.route.queueWord (e.member id) e.task e.route.priority with
      leasedByInv := ks.leasedByInv.erase (idWord id) }.endLease (e.member id)) x := by
  have henqueue : Agree ks
      (ks.enqueue (idWord id) e.route.queueWord (e.member id) e.task e.route.priority) x :=
    agree_enqueue hx (memberId_entry e)
  have hunleased : Agree ks
      { ks.enqueue (idWord id) e.route.queueWord (e.member id) e.task e.route.priority with
        leasedByInv := ks.leasedByInv.erase (idWord id) } x :=
    { henqueue with leasedByInv := AList.lookup_erase_ne (idWord_ne hx) }
  exact hunleased.trans (agree_endLease hx (memberId_entry e))

theorem held_returned (h : At fmt ks id (.leased e expiresAt)) :
    ({ ks.enqueue (idWord id) e.route.queueWord (e.member id) e.task e.route.priority with
      leasedByInv := ks.leasedByInv.erase (idWord id) }.endLease (e.member id)).held =
      ks.held := by
  have hleased := length_keys_erase_of_some h.leasedByInv
  have hqueued := length_keys_erase_of_none h.queuedByInv
  simp only [Keyspace.held, Keyspace.endLease, Keyspace.enqueue, AList.keys_insert,
    List.length_cons] at hleased hqueued ⊢
  rw [AList.keys_erase] at hqueued
  omega

/-- Where the owner of a member is when the member has a payload or a lease. -/
theorem leased_or_none (h : Conserved fmt ks) (member : Word) :
    (∃ id e expiresAt, At fmt ks id (.leased e expiresAt) ∧ e.member id = member) ∨
      ks.leases.lookup member = none ∧ ks.leasePayload.lookup member = none := by
  obtain ⟨place, hat⟩ := h.places (ownerOf member)
  have howner : memberId member = idWord (ownerOf member) := (idWord_ownerOf member).symm
  have hlease := hat.leases member howner
  have hpayload := hat.leasePayload member howner
  cases place with
  | absent => exact .inr ⟨hlease, hpayload⟩
  | queued e => exact .inr ⟨hlease, hpayload⟩
  | leased e expiresAt =>
      by_cases hm : member = e.member (ownerOf member)
      · exact .inl ⟨_, e, expiresAt, hat, hm.symm⟩
      · exact .inr ⟨hlease.trans (if_neg hm), hpayload.trans (if_neg hm)⟩

/-- A member that is not the leased one of its id changes no place. -/
theorem afterLease_of_ne (h : ∀ e expiresAt, place = .leased e expiresAt → e.member x ≠ member) :
    place.afterLease x member = place := by
  cases place with
  | absent => rfl
  | queued _ => rfl
  | leased e expiresAt => exact if_neg (h e expiresAt rfl)

/-- The id whose lease is over. -/
theorem At.expireLease_self (hx : At fmt ks x place)
    (hleased : ks.leasedByInv.lookup (idWord x) = some member)
    (hintact : ∀ payload ∈ ks.leasePayload.lookup member, Intact unitSeparator 5 payload) :
    At fmt (ks.expireLease fmt member) x (place.afterLease x member) := by
  rw [hx.leasedByInv] at hleased
  cases place with
  | absent => cases hleased
  | queued _ => cases hleased
  | leased e expiresAt =>
      have hmember : e.member x = member := Option.some.inj hleased
      subst hmember
      rw [expireLease_of_leased hx hintact, Place.afterLease, if_pos rfl]
      exact hx.returned

/-- One member whose lease is over. -/
theorem Conserved.expireLease (h : Conserved fmt ks)
    (hintact : ∀ payload ∈ ks.leasePayload.lookup member, Intact unitSeparator 5 payload) :
    Conserved fmt (ks.expireLease fmt member) ∧
      ∀ x place, At fmt ks x place →
        At fmt (ks.expireLease fmt member) x (place.afterLease x member) := by
  rcases leased_or_none h member with ⟨id, e, expiresAt, hat, rfl⟩ | ⟨hlease, hpayload⟩
  · constructor
    · rw [expireLease_of_leased hat hintact]
      refine h.move _ hat.returned (fun x hx => agree_returned hx) ?_
      rw [held_returned hat, ← h.count]
      rfl
    · intro x place hx
      by_cases hid : x = id
      · subst hid
        exact hx.expireLease_self hat.leasedByInv hintact
      · rw [expireLease_of_leased hat hintact, afterLease_of_ne fun e' _ _ =>
          ne_of_memberId hid (memberId_entry e) (memberId_entry e')]
        exact hx.congr (agree_returned hid)
  · rw [expireLease_of_none hpayload]
    constructor
    · refine ⟨fun x => ?_, h.count⟩
      obtain ⟨place, hx⟩ := h.places x
      exact ⟨place, hx.endLease_of_none hlease hpayload⟩
    · intro x place hx
      have hsame : place.afterLease x member = place := by
        refine afterLease_of_ne ?_
        rintro e expiresAt rfl rfl
        have hsome := hx.leases _ (memberId_entry e)
        rw [hlease] at hsome
        simp [Place.holding] at hsome
      rw [hsame]
      exact hx.endLease_of_none hlease hpayload

/-- Payloads only go away. -/
theorem leasePayload_expireLease {member m payload : Word}
    (h : (ks.expireLease fmt member).leasePayload.lookup m = some payload) :
    ks.leasePayload.lookup m = some payload := by
  have hpayload : (ks.expireLease fmt member).leasePayload = ks.leasePayload.erase member := by
    unfold Keyspace.expireLease
    dsimp only
    split
    · rfl
    · split
      · split <;> rfl
      · rfl
  rw [hpayload] at h
  by_cases hm : m = member
  · subst hm
    rw [AList.lookup_erase] at h
    cases h
  · rwa [AList.lookup_erase_ne hm] at h

/-- All members whose lease is over, one after the other. -/
theorem Conserved.foldl_expireLease (members : List Word) (h : Conserved fmt ks)
    (hintact : ∀ member ∈ members, ∀ payload ∈ ks.leasePayload.lookup member,
      Intact unitSeparator 5 payload) :
    Conserved fmt (members.foldl (Keyspace.expireLease fmt) ks) ∧
      ∀ x place, At fmt ks x place →
        At fmt (members.foldl (Keyspace.expireLease fmt) ks) x
          (members.foldl (fun place member => place.afterLease x member) place) := by
  induction members generalizing ks with
  | nil => exact ⟨h, fun _ _ hx => hx⟩
  | cons member rest ih =>
      obtain ⟨hstep, hmoves⟩ := h.expireLease (hintact member List.mem_cons_self)
      obtain ⟨hrest, hplaces⟩ := ih hstep fun m hm payload hpayload =>
        hintact m (List.mem_cons_of_mem _ hm) payload (leasePayload_expireLease hpayload)
      exact ⟨hrest, fun x place hx => hplaces x _ (hmoves x place hx)⟩

theorem foldl_afterLease_queued (members : List Word) :
    members.foldl (fun place member => Place.afterLease x member place) (.queued e) =
      .queued e := by
  induction members with
  | nil => rfl
  | cons member rest ih => exact ih

/-- An entry whose member is among those ends up queued. -/
theorem foldl_afterLease_leased {members : List Word} (h : e.member x ∈ members) :
    members.foldl (fun place member => Place.afterLease x member place)
      (.leased e expiresAt) = .queued e := by
  induction members with
  | nil => cases h
  | cons member rest ih =>
      rw [List.foldl_cons, Place.afterLease]
      split
      · exact foldl_afterLease_queued rest
      · rename_i hne
        exact ih ((List.mem_cons.mp h).resolve_left hne)

end Expiry

/-! ## Retrieval -/

section Retrieval

variable {fmt : ScoreFormat} {ks : Keyspace} {id x : InvocationId} {e : Entry} {expiresAt : Int}

theorem mem_zrange {S : Type} [DecidableEq S] (le : S → S → Bool) (set : Table Word S)
    (member : Word) : member ∈ zrange le set ↔ (set.lookup member).isSome = true := by
  have hperm := (List.perm_insertionSort (ranksBelow le) set.entries).map Sigma.fst
  rw [AList.lookup_isSome, AList.mem_keys]
  exact hperm.mem_iff

theorem mem_zrangebyscore (leases : Table Word Int) (now : Int) (member : Word) :
    member ∈ zrangebyscore leases now ↔ ∃ score ∈ leases.lookup member, score ≤ now := by
  simp only [zrangebyscore, List.mem_filter, mem_zrange]
  cases leases.lookup member <;> simp

/-- Every lease that is over by then is of an invocation whose id and task are clean. -/
def CleanLeases (fmt : ScoreFormat) (ks : Keyspace) (now : Int) : Prop :=
  ∀ id e expiresAt, At fmt ks id (.leased e expiresAt) → expiresAt ≤ now →
    Clean (idWord id) ∧ Clean e.task

/-- The payload of such a lease is read back as it was written. -/
theorem CleanLeases.intact {now : Int} (hclean : CleanLeases fmt ks now) (h : Conserved fmt ks)
    {member : Word} (hmember : member ∈ zrangebyscore ks.leases now) :
    ∀ payload ∈ ks.leasePayload.lookup member, Intact unitSeparator 5 payload := by
  intro payload hpayload
  obtain ⟨score, hscore, hdue⟩ := (mem_zrangebyscore _ _ _).mp hmember
  rcases leased_or_none h member with ⟨id, e, expiresAt, hat, rfl⟩ | ⟨hnone, -⟩
  · have hlease := hat.leases _ (memberId_entry e)
    have hstored := hat.leasePayload _ (memberId_entry e)
    simp only [Place.holding, if_true] at hlease hstored
    rw [hstored] at hpayload
    rw [hlease] at hscore
    cases hpayload
    cases hscore
    exact (intact_leaseWord fmt id e).mpr (hclean id e _ hat hdue)
  · rw [hnone] at hscore
    cases hscore

/-- After the expired leases are returned, every id is where it should be. -/
theorem Conserved.expireLeases (h : Conserved fmt ks) {now : Int}
    (hclean : CleanLeases fmt ks now) :
    Conserved fmt (ks.expireLeases fmt now) ∧
      ∀ id e expiresAt, At fmt ks id (.leased e expiresAt) → expiresAt ≤ now →
        At fmt (ks.expireLeases fmt now) id (.queued e) := by
  obtain ⟨hconserved, hplaces⟩ := Conserved.foldl_expireLease (zrangebyscore ks.leases now) h
    fun member hmember => hclean.intact h hmember
  refine ⟨hconserved, fun id e expiresAt hat hdue => ?_⟩
  have hlease : ks.leases.lookup (e.member id) = some expiresAt := by
    rw [hat.leases _ (memberId_entry e)]
    simp [Place.holding]
  have hexpired : e.member id ∈ zrangebyscore ks.leases now :=
    (mem_zrangebyscore _ _ _).mpr ⟨expiresAt, hlease, hdue⟩
  have hreturned := hplaces id _ hat
  rwa [foldl_afterLease_leased hexpired] at hreturned

/-- A queued member moves to the leases with all it needs to come back. -/
theorem At.lease (h : At fmt ks id (.queued e)) (expiresAt : Int) :
    At fmt (ks.lease fmt e.route.queueWord (e.member id) expiresAt) id (.leased e expiresAt) := by
  have htask : ((ks.metadata e.route.queueWord).lookup (e.member id)).getD [] = e.task := by
    rw [h.metadata _ _ (memberId_entry e)]
    simp [Place.holding]
  have hpriority : ((ks.queues e.route.queueWord).lookup (e.member id)).getD (.finite 0) =
      e.route.priority := by
    rw [h.queues _ _ (memberId_entry e)]
    simp [Place.holding]
  unfold Keyspace.lease
  simp only [htask, hpriority, memberId_entry]
  exact
    { queues := fun q m hm => by
        refine (lookup_update_erase _).trans ?_
        split
        · rfl
        · rename_i hne
          exact (h.queues q m hm).trans (if_neg hne)
      metadata := fun q m hm => by
        refine (lookup_update_erase _).trans ?_
        split
        · rfl
        · rename_i hne
          exact (h.metadata q m hm).trans (if_neg hne)
      queuedByInv := AList.lookup_erase _ _
      leases := fun m hm => by
        by_cases hne : m = e.member id
        · subst hne
          exact (AList.lookup_insert _).trans (if_pos rfl).symm
        · exact (AList.lookup_insert_ne hne).trans ((h.leases m hm).trans (if_neg hne).symm)
      leasePayload := fun m hm => by
        by_cases hne : m = e.member id
        · subst hne
          exact (AList.lookup_insert _).trans (if_pos rfl).symm
        · exact (AList.lookup_insert_ne hne).trans ((h.leasePayload m hm).trans (if_neg hne).symm)
      leasedByInv := AList.lookup_insert _ }

theorem agree_lease (hx : x ≠ id) (queue : Word) :
    Agree ks (ks.lease fmt queue (e.member id) expiresAt) x := by
  have hdequeue : Agree ks (ks.dequeue queue (e.member id)) x := agree_dequeue hx (memberId_entry e)
  unfold Keyspace.lease
  simp only [memberId_entry]
  exact { hdequeue with
    queuedByInv := AList.lookup_erase_ne (idWord_ne hx)
    leases := fun m hm => AList.lookup_insert_ne (ne_of_memberId hx (memberId_entry e) hm)
    leasePayload := fun m hm => AList.lookup_insert_ne (ne_of_memberId hx (memberId_entry e) hm)
    leasedByInv := AList.lookup_insert_ne (idWord_ne hx) }

theorem held_lease (h : At fmt ks id (.queued e)) (queue : Word) :
    (ks.lease fmt queue (e.member id) expiresAt).held = ks.held := by
  have hqueued := length_keys_erase_of_some h.queuedByInv
  have hleased := length_keys_erase_of_none h.leasedByInv
  rw [AList.keys_erase] at hleased
  simp only [Keyspace.held, Keyspace.lease, memberId_entry, AList.keys_insert, List.length_cons]
  omega

/-- Queue and member of a queued id are determined by the keys. -/
theorem At.queued_unique {e' : Entry} (h : At fmt ks id (.queued e))
    (h' : At fmt ks id (.queued e')) :
    e.route.queueWord = e'.route.queueWord ∧ e.member id = e'.member id := by
  have hscore := h.queues e.route.queueWord (e.member id) (memberId_entry e)
  rw [h'.queues _ _ (memberId_entry e)] at hscore
  by_contra hne
  simp [Place.holding, hne] at hscore

/-- What a retrieval takes is queued there. -/
theorem candidate_queued (h : Conserved fmt ks) {args : PopArgs} {member : Word}
    (hmember : ks.candidate args = some member) :
    ∃ id e, At fmt ks id (.queued e) ∧ e.route.queueWord = args.queue.queueWord ∧
      e.member id = member := by
  have hmem := List.mem_of_find?_eq_some hmember
  rw [zrevrange, List.mem_reverse, mem_zrange] at hmem
  obtain ⟨place, hat⟩ := h.places (ownerOf member)
  rw [hat.queues _ member (idWord_ownerOf member).symm] at hmem
  cases place with
  | absent => cases hmem
  | leased _ _ => cases hmem
  | queued e =>
      simp only [Place.holding] at hmem
      split at hmem
      · rename_i heq
        exact ⟨_, e, hat, heq.1.symm, heq.2.symm⟩
      · cases hmem

/-- **Retrieval** keeps every id in its place, returns what has expired, and leases at most
one entry. -/
theorem Conserved.pop (h : Conserved fmt ks) (args : PopArgs)
    (hclean : CleanLeases fmt ks args.now) :
    Conserved fmt (ks.popScript fmt args).2 ∧
      ∀ id e expiresAt, At fmt ks id (.leased e expiresAt) → expiresAt ≤ args.now →
        At fmt (ks.popScript fmt args).2 id (.queued e) ∨
          (ks.popScript fmt args).1 = some (e.member id) ∧
            At fmt (ks.popScript fmt args).2 id (.leased e (args.now + args.leaseMs)) := by
  obtain ⟨hexpired, hreturned⟩ := h.expireLeases hclean
  unfold popScript
  dsimp only
  split
  · exact ⟨hexpired, fun id e expiresAt hat hdue => .inl (hreturned id e expiresAt hat hdue)⟩
  · rename_i member hcandidate
    obtain ⟨id, e, hat, hqueue, rfl⟩ := candidate_queued hexpired hcandidate
    rw [← hqueue]
    constructor
    · refine hexpired.move _ (hat.lease _) (fun x hx => agree_lease hx _) ?_
      rw [held_lease hat, ← hexpired.count]
      rfl
    · intro x e' expiresAt hx hdue
      have hback := hreturned x e' expiresAt hx hdue
      by_cases hid : x = id
      · subst hid
        obtain ⟨hsameQueue, hsameMember⟩ := hat.queued_unique hback
        rw [hsameQueue, hsameMember]
        exact .inr ⟨rfl, hback.lease _⟩
      · exact .inl (hback.congr (agree_lease hid _))

end Retrieval

/-! ## Runs -/

/-- The three states of an id. -/
inductive DeliveryState where
  | absent
  | queued
  | leased
deriving DecidableEq

/-- An id is in this state, with everything the keys hold about it. -/
def InState (fmt : ScoreFormat) (ks : Keyspace) (id : InvocationId) : DeliveryState → Prop
  | .absent => At fmt ks id .absent
  | .queued => ∃ e, At fmt ks id (.queued e)
  | .leased => ∃ e expiresAt, At fmt ks id (.leased e expiresAt)

/-- Retrievals find only leases of clean ids and tasks expired, and an accepted submission
is of an id the broker does not hold. -/
def returnable (fmt : ScoreFormat) : Guard server Keyspace Request where
  start _ _ := True
  call s _ c := match c with
    | .pop args => CleanLeases fmt s.shared args.now
    | .submit args => submitRefusal args s.shared = none →
        s.shared.has (idWord args.submission.invocation.invocationId) = false
    | _ => True

section Runs

variable {fmt : ScoreFormat} {pool : RedisPool} {ks : Keyspace} {id : InvocationId}
variable {s : System server Keyspace Request}

theorem conserved_empty (fmt : ScoreFormat) : Conserved fmt {} :=
  ⟨fun _ => ⟨.absent, fun _ _ _ => rfl, fun _ _ _ => rfl, rfl, fun _ _ => rfl, fun _ _ => rfl,
    rfl⟩, rfl⟩

theorem conserved_exec {i : Nat} (env : Env) {c : RedisCall} (hallowed : (returnable fmt).call s i c)
    (h : Conserved fmt s.shared) : Conserved fmt (exec fmt env c s.shared).2 := by
  cases c with
  | utcNow => exact h
  | incrSequence =>
      change Conserved fmt s.shared.incrSequence.2
      unfold Keyspace.incrSequence
      split
      · exact h
      · exact h.of_broker rfl
  | getCurrent _ => exact h
  | getHeartbeat _ => exact h
  | route args => exact h.route args
  | pop args => exact (h.pop args hallowed).1
  | submit args => exact h.submit args hallowed
  | change args => exact h.change args

theorem inState_queued_iff (h : Conserved fmt ks) :
    InState fmt ks id .queued ↔ idWord id ∈ ks.queuedByInv.keys := by
  obtain ⟨place, hat⟩ := h.places id
  rw [← AList.mem_keys, ← AList.lookup_isSome]
  constructor
  · rintro ⟨e, hqueued⟩
    rw [hqueued.queuedByInv]
    rfl
  · intro hsome
    rw [hat.queuedByInv] at hsome
    cases place with
    | absent => cases hsome
    | queued e => exact ⟨e, hat⟩
    | leased _ _ => cases hsome

theorem inState_leased_iff (h : Conserved fmt ks) :
    InState fmt ks id .leased ↔ idWord id ∈ ks.leasedByInv.keys := by
  obtain ⟨place, hat⟩ := h.places id
  rw [← AList.mem_keys, ← AList.lookup_isSome]
  constructor
  · rintro ⟨e, expiresAt, hleased⟩
    rw [hleased.leasedByInv]
    rfl
  · intro hsome
    rw [hat.leasedByInv] at hsome
    cases place with
    | absent => cases hsome
    | queued _ => cases hsome
    | leased e expiresAt => exact ⟨e, expiresAt, hat⟩

/-- The index has one key for each id. -/
theorem ncard_idWord_mem {V : Type} (table : Table Word V) :
    {id : InvocationId | idWord id ∈ table.keys}.ncard = table.keys.length := by
  have hinjective : Function.Injective fun word : Word => InvocationId.mk (String.ofList word) := by
    intro a b h
    exact String.ofList_injective (congrArg InvocationId.raw h)
  have himage : {id : InvocationId | idWord id ∈ table.keys} =
      ↑(table.keys.toFinset.image fun word : Word => InvocationId.mk (String.ofList word)) := by
    ext id
    simp only [Set.mem_ofPred_eq, Finset.coe_image, Set.mem_image, Finset.mem_coe,
      List.mem_toFinset]
    constructor
    · intro hmem
      exact ⟨idWord id, hmem, by simp [idWord]⟩
    · rintro ⟨word, hmem, rfl⟩
      simpa [idWord] using hmem
  rw [himage, Set.ncard_coe_finset, Finset.card_image_of_injective _ hinjective,
    List.toFinset_card_of_nodup table.keys_nodup]

/-- The two indexes tell the three states apart. -/
theorem InState.unique {state state' : DeliveryState} (h : InState fmt ks id state)
    (h' : InState fmt ks id state') : state = state' := by
  have hkey : ∀ {state}, InState fmt ks id state →
      ((ks.queuedByInv.lookup (idWord id)).isSome, (ks.leasedByInv.lookup (idWord id)).isSome) =
        match state with
        | .absent => (false, false)
        | .queued => (true, false)
        | .leased => (false, true) := by
    intro state hstate
    cases state with
    | absent => rw [At.queuedByInv hstate, At.leasedByInv hstate]; rfl
    | queued =>
        obtain ⟨e, hat⟩ := hstate
        rw [hat.queuedByInv, hat.leasedByInv]
        rfl
    | leased =>
        obtain ⟨e, expiresAt, hat⟩ := hstate
        rw [hat.queuedByInv, hat.leasedByInv]
        rfl
  have hsame := (hkey h).symm.trans (hkey h')
  cases state <;> cases state' <;> first | rfl | simp at hsame

theorem exactlyOne (h : Conserved fmt ks) (id : InvocationId) :
    ∃! state, InState fmt ks id state := by
  obtain ⟨place, hat⟩ := h.places id
  cases place with
  | absent => exact ⟨.absent, hat, fun state hstate => hstate.unique hat⟩
  | queued e => exact ⟨.queued, ⟨e, hat⟩, fun state hstate => hstate.unique ⟨e, hat⟩⟩
  | leased e expiresAt =>
      exact ⟨.leased, ⟨e, expiresAt, hat⟩, fun state hstate => hstate.unique ⟨e, expiresAt, hat⟩⟩

/-- **Conservation.** -/
theorem conserved_reachable (hreach : Reachable (redisMachine pool fmt) (returnable fmt) redisStart s) :
    (∀ id, ∃! state, InState fmt s.shared id state) ∧
    s.shared.count = {id | InState fmt s.shared id .queued}.ncard +
      {id | InState fmt s.shared id .leased}.ncard ∧
    ∀ args : PopArgs, CleanLeases fmt s.shared args.now →
      ∀ id e expiresAt, At fmt s.shared id (.leased e expiresAt) → expiresAt ≤ args.now →
        At fmt (s.shared.popScript fmt args).2 id (.queued e) ∨
          (s.shared.popScript fmt args).1 = some (e.member id) ∧
            At fmt (s.shared.popScript fmt args).2 id
              (.leased e (args.now + args.leaseMs)) := by
  have h : Conserved fmt s.shared :=
    Reachable.shared_invariant (Conserved fmt) (conserved_empty fmt)
      (fun s i env c hallowed h => conserved_exec env hallowed h) hreach
  refine ⟨exactlyOne h, ?_, fun args hclean => (h.pop args hclean).2⟩
  simp only [inState_queued_iff h, inState_leased_iff h, ncard_idWord_mem]
  exact h.count

end Runs

/-! ## Runs that end a lease -/

/-- An integer as the server writes it. -/
def intText (z : Int) : Word :=
  if z < 0 then '-' :: Nat.toDigits 10 z.natAbs else Nat.toDigits 10 z.natAbs

def intOf : Word → Int
  | '-' :: digits => -(Nat.ofDigitChars 10 digits 0 : Int)
  | digits => Nat.ofDigitChars 10 digits 0

/-- A score format that writes integers as the server does, and other numbers as
fractions. -/
def plainText : F64 → Word
  | .finite q =>
      if q.den = 1 then intText q.num else intText q.num ++ '/' :: Nat.toDigits 10 q.den
  | .negZero => ['-', '0']
  | .negInf => ['-', 'i', 'n', 'f']
  | .posInf => ['i', 'n', 'f']
  | .nan => ['n', 'a', 'n']

def plainNumber (word : Word) : F64 :=
  let denominator := afterFirst '/' word
  if word = ['-', '0'] then .negZero
  else .finite (if denominator = [] then intOf (beforeFirst '/' word)
    else mkRat (intOf (beforeFirst '/' word)) (Nat.ofDigitChars 10 denominator 0))

theorem isDigit_of_mem_toDigits {n : Nat} {c : Char} (h : c ∈ Nat.toDigits 10 n) :
    c.isDigit = true :=
  Nat.isDigit_of_mem_toDigits (by decide) (by decide) h

theorem mem_intText {z : Int} {c : Char} (h : c ∈ intText z) : c = '-' ∨ c.isDigit = true := by
  unfold intText at h
  split at h
  · rcases List.mem_cons.mp h with rfl | hdigit
    · exact .inl rfl
    · exact .inr (isDigit_of_mem_toDigits hdigit)
  · exact .inr (isDigit_of_mem_toDigits h)

theorem intOf_intText (z : Int) : intOf (intText z) = z := by
  unfold intText
  split
  · rename_i hneg
    simp only [intOf, Nat.ofDigitChars_ten_toDigits]
    omega
  · rename_i hpos
    have hdigits : intOf (Nat.toDigits 10 z.natAbs) =
        Nat.ofDigitChars 10 (Nat.toDigits 10 z.natAbs) 0 := by
      unfold intOf
      split
      · rename_i digits hcons
        have hminus := isDigit_of_mem_toDigits (n := z.natAbs) (c := '-') (by simp [hcons])
        exact absurd hminus (by decide)
      · rfl
    rw [hdigits, Nat.ofDigitChars_ten_toDigits]
    omega

theorem slash_notMem_intText (z : Int) : '/' ∉ intText z := by
  intro h
  rcases mem_intText h with hminus | hdigit
  · exact absurd hminus (by decide)
  · exact absurd hdigit (by decide)

/-- No integer is written as the negative zero. -/
theorem intText_ne_negZero (z : Int) : intText z ≠ ['-', '0'] := by
  intro h
  have hz : z = 0 := by
    rw [← intOf_intText z, h]
    rfl
  subst hz
  exact absurd h (by decide)

theorem plainNumber_plainText (p : F64) (h : validPriority p = true) :
    plainNumber (plainText p) = p := by
  cases p with
  | finite q =>
      simp only [plainText]
      split
      · rename_i hden
        have hwhole : mkRat q.num 1 = q := by rw [← hden, Rat.mkRat_self]
        simp only [plainNumber, beforeFirst_of_notMem (slash_notMem_intText _),
          afterFirst_of_notMem (slash_notMem_intText _), if_true, intOf_intText,
          if_neg (intText_ne_negZero _)]
        rw [← Rat.mkRat_one, hwhole]
      · have hslash : intText q.num ++ '/' :: Nat.toDigits 10 q.den ≠ ['-', '0'] := by
          intro heq
          have hmem : '/' ∈ ['-', '0'] := heq ▸ by simp
          exact absurd hmem (by decide)
        simp only [plainNumber, beforeFirst_append (slash_notMem_intText _),
          afterFirst_append (slash_notMem_intText _), Nat.toDigits_ne_nil, if_false, intOf_intText,
          Nat.ofDigitChars_ten_toDigits, Rat.mkRat_self, if_neg hslash]
  | negZero => rfl
  | negInf => cases h
  | posInf => cases h
  | nan => cases h

theorem plainText_ne_nil (p : F64) : plainText p ≠ [] := by
  cases p with
  | finite q =>
      have hint : intText q.num ≠ [] := by
        unfold intText
        split <;> simp [Nat.toDigits_ne_nil]
      simp only [plainText]
      split <;> simp [hint]
  | negZero | negInf | posInf | nan => simp [plainText]

theorem separator_notMem_plainText (p : F64) : unitSeparator ∉ plainText p := by
  have hint : ∀ z, unitSeparator ∉ intText z := by
    intro z h
    rcases mem_intText h with hminus | hdigit
    · exact absurd hminus (by decide)
    · exact absurd hdigit (by decide)
  have hdigits : ∀ n, unitSeparator ∉ Nat.toDigits 10 n :=
    fun n h => absurd (isDigit_of_mem_toDigits h) (by decide)
  cases p with
  | finite q =>
      simp only [plainText]
      split
      · exact hint _
      · intro h
        rcases List.mem_append.mp h with h | h
        · exact hint _ h
        · rcases List.mem_cons.mp h with hslash | h
          · exact absurd hslash (by decide)
          · exact hdigits _ h
  | negZero | negInf | posInf | nan => decide

def plainFormat : ScoreFormat where
  text := plainText
  number := plainNumber
  number_text := plainNumber_plainText
  text_ne_nil := plainText_ne_nil
  separator_notMem_text := separator_notMem_plainText

def plainPool : RedisPool where
  submissionBytes _ := 0
  errorBytes _ := 0

/-- The clock of a call, in milliseconds. -/
def atMs (ms : Int) : Env :=
  { clock := ms * 1000000 }

/-- Any retrieval from the default queue. -/
def retrieveAny : Request :=
  .retrieveInvocationFromQueue defaultQueue none

/-- Route an entry, lease it, and retrieve again after the lease has ended. -/
def leaseTwice (route : Request) : List (Label Env Request) :=
  .start route :: Label.steps 0 2 (atMs 0) ++
    .start retrieveAny :: Label.steps 1 2 (atMs 0) ++
    .start retrieveAny :: Label.steps 2 2 (atMs 6000)

/-- The condition on retrievals, read off the payloads. -/
def IntactLeases (ks : Keyspace) (now : Int) : Prop :=
  ∀ member ∈ zrangebyscore ks.leases now, ∀ payload ∈ ks.leasePayload.lookup member,
    Intact unitSeparator 5 payload

instance (ks : Keyspace) (now : Int) : Decidable (IntactLeases ks now) :=
  inferInstanceAs (Decidable (∀ _ ∈ zrangebyscore _ _, ∀ _ ∈ _, _))

theorem IntactLeases.cleanLeases {fmt : ScoreFormat} {ks : Keyspace} {now : Int}
    (h : IntactLeases ks now) : CleanLeases fmt ks now := by
  intro id e expiresAt hat hdue
  have hlease := hat.leases _ (memberId_entry e)
  have hpayload := hat.leasePayload _ (memberId_entry e)
  simp only [Place.holding, if_true] at hlease hpayload
  exact (intact_leaseWord fmt id e).mp
    (h _ ((mem_zrangebyscore _ _ _).mpr ⟨expiresAt, hlease, hdue⟩) _ hpayload)

/-- `returnable`, with the condition on retrievals read off the payloads. -/
def intactOnly : Guard server Keyspace Request where
  start _ _ := True
  call s _ c := match c with
    | .pop args => IntactLeases s.shared args.now
    | .submit args => submitRefusal args s.shared = none →
        s.shared.has (idWord args.submission.invocation.invocationId) = false
    | _ => True

instance (s : System server Keyspace Request) (request : Request) :
    Decidable (intactOnly.start s request) :=
  inferInstanceAs (Decidable True)

instance (s : System server Keyspace Request) (i : Nat) (c : RedisCall) :
    Decidable (intactOnly.call s i c) :=
  match c with
  | .pop args => inferInstanceAs (Decidable (IntactLeases s.shared args.now))
  | .submit args => inferInstanceAs (Decidable (submitRefusal args s.shared = none →
      s.shared.has (idWord args.submission.invocation.invocationId) = false))
  | .utcNow | .incrSequence | .getCurrent _ | .getHeartbeat _ | .route _ | .change _ =>
      inferInstanceAs (Decidable True)

theorem intactOnly_returnable {fmt : ScoreFormat} {s : System server Keyspace Request} {i : Nat}
    {c : RedisCall} (h : intactOnly.call s i c) : (returnable fmt).call s i c := by
  cases c with
  | pop args => exact IntactLeases.cleanLeases h
  | submit args => exact h
  | _ => trivial

/-- An entry with a task comes back and is leased again. -/
theorem conserved_reachable_returned :
    ∃ s, Reachable (redisMachine plainPool plainFormat) (returnable plainFormat) redisStart s ∧
      ((s.shared.leasedByInv.lookup (idWord ⟨"a"⟩)).isSome = true ∧
        s.shared.leases.entries.map Sigma.snd = [11000]) ∧
      (∀ id, ∃! state, InState plainFormat s.shared id state) ∧
      s.shared.count = {id | InState plainFormat s.shared id .queued}.ncard +
        {id | InState plainFormat s.shared id .leased}.ncard := by
  obtain ⟨s, hreach, hleased⟩ := Reachable.exists_of_run
    (redisMachine plainPool plainFormat) intactOnly redisStart
    (leaseTwice (.routeInvocationForTask ⟨"a"⟩ ⟨.rust, "tasks", "serial"⟩))
    (fun s => (s.shared.leasedByInv.lookup (idWord ⟨"a"⟩)).isSome = true ∧
      s.shared.leases.entries.map Sigma.snd = [11000])
    (by decide +kernel) (by decide +kernel)
  have hreach' : Reachable (redisMachine plainPool plainFormat) (returnable plainFormat)
      redisStart s :=
    hreach.mono (fun _ _ _ => trivial) fun _ _ _ => intactOnly_returnable
  have hconserved := conserved_reachable hreach'
  exact ⟨s, hreach', hleased, hconserved.1, hconserved.2.1⟩

/-- **An entry without a task is lost.**  Its payload has an empty field, so the end of its
lease drops it: the id is in none of the three states, and still counted. -/
theorem taskless_lost :
    ∃ s, Reachable (redisMachine plainPool plainFormat) (Guard.top server Keyspace Request)
        redisStart s ∧
      (¬ ∃ state, InState plainFormat s.shared ⟨"a"⟩ state) ∧ s.shared.count = 1 := by
  obtain ⟨s, hreach, hleased, hleases, hcount⟩ := Reachable.exists_of_run
    (redisMachine plainPool plainFormat) (Guard.top server Keyspace Request) redisStart
    (leaseTwice (.routeInvocation ⟨"a"⟩))
    (fun s => (s.shared.leasedByInv.lookup (idWord ⟨"a"⟩)).isSome = true ∧
      s.shared.leases.keys = [] ∧ s.shared.count = 1)
    (Guard.allowsAll_top _ _ _) (by decide +kernel)
  refine ⟨s, hreach, ?_, hcount⟩
  rintro ⟨state, hstate⟩
  cases state with
  | absent =>
      rw [At.leasedByInv hstate] at hleased
      cases hleased
  | queued =>
      obtain ⟨e, hat⟩ := hstate
      rw [hat.leasedByInv] at hleased
      cases hleased
  | leased =>
      obtain ⟨e, expiresAt, hat⟩ := hstate
      have hlease := hat.leases _ (memberId_entry e)
      have hnone : s.shared.leases.lookup (e.member ⟨"a"⟩) = none := by
        rw [AList.lookup_eq_none, AList.mem_keys, hleases]
        exact List.not_mem_nil
      rw [hnone] at hlease
      simp [Place.holding] at hlease

end Rustvello.Redis
