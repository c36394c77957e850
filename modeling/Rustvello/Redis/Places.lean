import Rustvello.Redis.Operations

/-!
# Where an invocation is on Redis

Seven keys encode one logical queue.  An id is absent, queued or leased, and each of the
three fixes everything the broker keys hold about it (`Holding`).

* `Entry`, `Place` — the queue as it is meant: where an id is, with which route, sequence
  number and task;
* `At` — the broker keys hold about an id exactly what its place says;
* `Agree` — what the scripts do to one id, they do not do to any other;
* `Conserved` — every id has a place, and `broker:count` counts those that are not absent.
-/

namespace Rustvello.Redis

open Concurrency Proto Rustvello.Core Text Keyspace

/-! ## Members and their ids -/

theorem isDigit_of_mem_padded {n : Nat} {c : Char} (h : c ∈ padded n) : c.isDigit = true := by
  rcases List.mem_append.mp h with hzero | hdigit
  · rw [List.eq_of_mem_replicate hzero]
    decide
  · exact Nat.isDigit_of_mem_toDigits (b := 10) (by decide) (by decide) hdigit

theorem colon_notMem_padded (n : Nat) : ':' ∉ padded n :=
  fun h => absurd (isDigit_of_mem_padded h) (by decide)

@[simp] theorem memberId_queueMember (sequence : Nat) (id : InvocationId) :
    memberId (queueMember sequence id) = idWord id :=
  afterFirst_append (colon_notMem_padded _)

theorem idWord_injective : Function.Injective idWord := by
  intro a b h
  cases a
  cases b
  exact congrArg InvocationId.mk (String.toList_injective h)

/-- The invocation that a member belongs to. -/
def ownerOf (member : Word) : InvocationId :=
  ⟨String.ofList (memberId member)⟩

@[simp] theorem idWord_ownerOf (member : Word) : idWord (ownerOf member) = memberId member := by
  simp [idWord, ownerOf]

/-! ## Where an id is -/

/-- What the broker keys hold about one id; members count for the id in them. -/
structure Holding where
  score : Word → Word → Option F64
  task : Word → Word → Option Word
  queued : Option Word
  lease : Word → Option Int
  payload : Word → Option Word
  leased : Option Word

/-- An entry of the logical queue. -/
structure Entry where
  route : ValidRoute
  sequence : Nat
  task : Word

def Entry.member (e : Entry) (id : InvocationId) : Word :=
  queueMember e.sequence id

/-- Where an id is. -/
inductive Place where
  | absent
  | queued (e : Entry)
  | leased (e : Entry) (expiresAt : Int)

/-- What the keys hold about an id in this place. -/
def Place.holding (fmt : ScoreFormat) (id : InvocationId) : Place → Holding
  | absent =>
      { score := fun _ _ => none
        task := fun _ _ => none
        queued := none
        lease := fun _ => none
        payload := fun _ => none
        leased := none }
  | queued e =>
      { score := fun queue member =>
          if queue = e.route.queueWord ∧ member = e.member id then some e.route.priority else none
        task := fun queue member =>
          if queue = e.route.queueWord ∧ member = e.member id then some e.task else none
        queued := some (join unitSeparator [e.route.queueWord, e.member id])
        lease := fun _ => none
        payload := fun _ => none
        leased := none }
  | leased e expiresAt =>
      { score := fun _ _ => none
        task := fun _ _ => none
        queued := none
        lease := fun member => if member = e.member id then some expiresAt else none
        payload := fun member =>
          if member = e.member id then
            some (leaseWord fmt (idWord id) e.route.queueWord (e.member id) e.task
              e.route.priority)
          else none
        leased := some (e.member id) }

/-- The broker keys hold about the id what its place says, and nothing else. -/
structure At (fmt : ScoreFormat) (ks : Keyspace) (id : InvocationId) (place : Place) : Prop where
  queues : ∀ queue member, memberId member = idWord id →
    (ks.queues queue).lookup member = (place.holding fmt id).score queue member
  metadata : ∀ queue member, memberId member = idWord id →
    (ks.metadata queue).lookup member = (place.holding fmt id).task queue member
  queuedByInv : ks.queuedByInv.lookup (idWord id) = (place.holding fmt id).queued
  leases : ∀ member, memberId member = idWord id →
    ks.leases.lookup member = (place.holding fmt id).lease member
  leasePayload : ∀ member, memberId member = idWord id →
    ks.leasePayload.lookup member = (place.holding fmt id).payload member
  leasedByInv : ks.leasedByInv.lookup (idWord id) = (place.holding fmt id).leased

/-- How many ids are queued or leased. -/
def Keyspace.held (ks : Keyspace) : Nat :=
  ks.queuedByInv.keys.length + ks.leasedByInv.keys.length

structure Conserved (fmt : ScoreFormat) (ks : Keyspace) : Prop where
  places : ∀ id, ∃ place, At fmt ks id place
  count : ks.count = ks.held

section Lookups

variable {fmt : ScoreFormat} {ks : Keyspace} {id : InvocationId} {member : Word}

theorem ValidRoute.separator_notMem (route : ValidRoute) : unitSeparator ∉ route.queueWord := by
  have hvalid := ((validateRouting_ok_iff _ _).mp route.valid).1
  intro hmem
  have hall : route.queueWord.all queueNameChar = true := by
    simp only [validQueueName, Bool.and_eq_true] at hvalid
    exact hvalid.2
  have hchar := List.all_eq_true.mp hall _ hmem
  exact absurd hchar (by decide)

theorem ValidRoute.queueWord_ne_nil (route : ValidRoute) : route.queueWord ≠ [] := by
  have hvalid := ((validateRouting_ok_iff _ _).mp route.valid).1
  intro hnil
  simp only [validQueueName, Bool.and_eq_true] at hvalid
  rw [show route.queue.toList = [] from hnil] at hvalid
  exact absurd hvalid.1 (by decide)

/-- Members of the place of their own id. -/
@[simp] theorem memberId_entry (e : Entry) : memberId (e.member id) = idWord id :=
  memberId_queueMember _ _

/-- The broker holds an id exactly when it is not absent. -/
theorem At.has {place : Place} (h : At fmt ks id place) :
    ks.has (idWord id) = match place with
      | .absent => false
      | .queued _ | .leased _ _ => true := by
  unfold Keyspace.has
  rw [h.queuedByInv, h.leasedByInv]
  cases place <;> rfl

end Lookups

/-! ## What the parts of the scripts leave alone -/

/-- The broker keys hold about the id what they held before. -/
structure Agree (ks ks' : Keyspace) (id : InvocationId) : Prop where
  queues : ∀ queue member, memberId member = idWord id →
    (ks'.queues queue).lookup member = (ks.queues queue).lookup member
  metadata : ∀ queue member, memberId member = idWord id →
    (ks'.metadata queue).lookup member = (ks.metadata queue).lookup member
  queuedByInv : ks'.queuedByInv.lookup (idWord id) = ks.queuedByInv.lookup (idWord id)
  leases : ∀ member, memberId member = idWord id →
    ks'.leases.lookup member = ks.leases.lookup member
  leasePayload : ∀ member, memberId member = idWord id →
    ks'.leasePayload.lookup member = ks.leasePayload.lookup member
  leasedByInv : ks'.leasedByInv.lookup (idWord id) = ks.leasedByInv.lookup (idWord id)

section Parts

variable {fmt : ScoreFormat} {ks ks' ks'' : Keyspace} {id x : InvocationId}
variable {queue member task q m : Word} {priority : F64}

theorem Agree.refl (ks : Keyspace) (x : InvocationId) : Agree ks ks x :=
  ⟨fun _ _ _ => rfl, fun _ _ _ => rfl, rfl, fun _ _ => rfl, fun _ _ => rfl, rfl⟩

theorem Agree.trans (h : Agree ks ks' x) (h' : Agree ks' ks'' x) : Agree ks ks'' x where
  queues q m hm := (h'.queues q m hm).trans (h.queues q m hm)
  metadata q m hm := (h'.metadata q m hm).trans (h.metadata q m hm)
  queuedByInv := h'.queuedByInv.trans h.queuedByInv
  leases m hm := (h'.leases m hm).trans (h.leases m hm)
  leasePayload m hm := (h'.leasePayload m hm).trans (h.leasePayload m hm)
  leasedByInv := h'.leasedByInv.trans h.leasedByInv

theorem At.congr {place : Place} (h : At fmt ks x place) (hagree : Agree ks ks' x) :
    At fmt ks' x place where
  queues q m hm := (hagree.queues q m hm).trans (h.queues q m hm)
  metadata q m hm := (hagree.metadata q m hm).trans (h.metadata q m hm)
  queuedByInv := hagree.queuedByInv.trans h.queuedByInv
  leases m hm := (hagree.leases m hm).trans (h.leases m hm)
  leasePayload m hm := (hagree.leasePayload m hm).trans (h.leasePayload m hm)
  leasedByInv := hagree.leasedByInv.trans h.leasedByInv

theorem lookup_update_insert {V : Type} (f : Word → Table Word V) (v : V) :
    (Function.update f queue ((f queue).insert member v) q).lookup m =
      if q = queue ∧ m = member then some v else (f q).lookup m := by
  by_cases hq : q = queue
  · subst hq
    by_cases hm : m = member
    · subst hm
      simp
    · simp [hm, AList.lookup_insert_ne hm]
  · simp [hq]

theorem lookup_update_erase {V : Type} (f : Word → Table Word V) :
    (Function.update f queue ((f queue).erase member) q).lookup m =
      if q = queue ∧ m = member then none else (f q).lookup m := by
  by_cases hq : q = queue
  · subst hq
    by_cases hm : m = member
    · subst hm
      simp
    · simp [hm, AList.lookup_erase_ne hm]
  · simp [hq]

/-- A member of one id is no member of another. -/
theorem ne_of_memberId (hx : x ≠ id) (hmember : memberId member = idWord id)
    (hm : memberId m = idWord x) : m ≠ member := by
  rintro rfl
  exact hx (idWord_injective (hm.symm.trans hmember))

theorem idWord_ne (hx : x ≠ id) : idWord x ≠ idWord id :=
  fun h => hx (idWord_injective h)

/-- Whatever is written under a member and an id concerns that id only. -/
theorem agree_enqueue (hx : x ≠ id) (hmember : memberId member = idWord id) :
    Agree ks (ks.enqueue (idWord id) queue member task priority) x where
  queues _ _ hm := (lookup_update_insert _ _).trans
    (if_neg fun h => ne_of_memberId hx hmember hm h.2)
  metadata _ _ hm := (lookup_update_insert _ _).trans
    (if_neg fun h => ne_of_memberId hx hmember hm h.2)
  queuedByInv := AList.lookup_insert_ne (idWord_ne hx)
  leases _ _ := rfl
  leasePayload _ _ := rfl
  leasedByInv := rfl

theorem agree_dequeue (hx : x ≠ id) (hmember : memberId member = idWord id) :
    Agree ks (ks.dequeue queue member) x where
  queues _ _ hm := (lookup_update_erase _).trans
    (if_neg fun h => ne_of_memberId hx hmember hm h.2)
  metadata _ _ hm := (lookup_update_erase _).trans
    (if_neg fun h => ne_of_memberId hx hmember hm h.2)
  queuedByInv := rfl
  leases _ _ := rfl
  leasePayload _ _ := rfl
  leasedByInv := rfl

theorem agree_endLease (hx : x ≠ id) (hmember : memberId member = idWord id) :
    Agree ks (ks.endLease member) x where
  queues _ _ _ := rfl
  metadata _ _ _ := rfl
  queuedByInv := rfl
  leases _ hm := AList.lookup_erase_ne (ne_of_memberId hx hmember hm)
  leasePayload _ hm := AList.lookup_erase_ne (ne_of_memberId hx hmember hm)
  leasedByInv := rfl

end Parts

/-! ## One id through the scripts -/

section Moves

variable {fmt : ScoreFormat} {ks : Keyspace} {id x : InvocationId}

theorem At.unlist_absent (h : At fmt ks id .absent) : At fmt (ks.unlist (idWord id)) id .absent :=
  { h with queuedByInv := AList.lookup_erase _ _ }

theorem agree_unlist (hx : x ≠ id) : Agree ks (ks.unlist (idWord id)) x :=
  { Agree.refl ks x with queuedByInv := AList.lookup_erase_ne (idWord_ne hx) }

/-- A new entry of an id that has none. -/
theorem At.enqueue (e : Entry) (h : At fmt (ks.unlist (idWord id)) id .absent) :
    At fmt (ks.enqueue (idWord id) e.route.queueWord (e.member id) e.task e.route.priority) id
      (.queued e) where
  queues q m hm := by
    rw [Keyspace.enqueue, lookup_update_insert]
    exact if_congr Iff.rfl rfl (h.queues q m hm)
  metadata q m hm := by
    rw [Keyspace.enqueue, lookup_update_insert]
    exact if_congr Iff.rfl rfl (h.metadata q m hm)
  queuedByInv := AList.lookup_insert _
  leases := h.leases
  leasePayload := h.leasePayload
  leasedByInv := h.leasedByInv

/-- `queued_by_inv` names queue and member. -/
theorem removeQueued_of_queued {e : Entry} (h : At fmt ks id (.queued e)) :
    ks.removeQueued (idWord id) = ks.dequeue e.route.queueWord (e.member id) := by
  have hlookup : ks.queuedByInv.lookup (idWord id) =
      some (e.route.queueWord ++ unitSeparator :: e.member id) := by
    rw [h.queuedByInv]
    simp [Place.holding, join, List.intercalate_cons_cons]
  unfold Keyspace.removeQueued
  rw [hlookup]
  simp only [beforeFirst_append e.route.separator_notMem,
    afterFirst_append e.route.separator_notMem]

theorem removeQueued_of_none (h : ks.queuedByInv.lookup (idWord id) = none) :
    ks.removeQueued (idWord id) = ks := by
  simp [Keyspace.removeQueued, h]

theorem removeLeased_of_none (h : ks.leasedByInv.lookup (idWord id) = none) :
    ks.removeLeased (idWord id) = ks := by
  simp [Keyspace.removeLeased, h]

theorem removeLeased_of_leased {e : Entry} {expiresAt : Int}
    (h : At fmt ks id (.leased e expiresAt)) :
    ks.removeLeased (idWord id) =
      { ks.endLease (e.member id) with leasedByInv := ks.leasedByInv.erase (idWord id) } := by
  have hlookup : ks.leasedByInv.lookup (idWord id) = some (e.member id) := h.leasedByInv
  simp [Keyspace.removeLeased, hlookup]

/-- Both kinds of entry are removed completely. -/
theorem At.remove {place : Place} (h : At fmt ks id place) :
    At fmt (((ks.removeQueued (idWord id)).removeLeased (idWord id)).unlist (idWord id)) id .absent := by
  cases place with
  | absent =>
      rw [removeQueued_of_none h.queuedByInv, removeLeased_of_none h.leasedByInv]
      exact h.unlist_absent
  | queued e =>
      have hleased : (ks.dequeue e.route.queueWord (e.member id)).leasedByInv.lookup (idWord id) =
          none := h.leasedByInv
      rw [removeQueued_of_queued h, removeLeased_of_none hleased]
      exact
        { queues := fun q m hm => by
            refine (lookup_update_erase _).trans ?_
            split
            · rfl
            · rename_i hne
              exact (h.queues q m hm).trans (if_neg hne)
          metadata := fun q m hm => by
            refine (lookup_update_erase _).trans ?_
            split
            · rfl
            · rename_i hne
              exact (h.metadata q m hm).trans (if_neg hne)
          queuedByInv := AList.lookup_erase _ _
          leases := h.leases
          leasePayload := h.leasePayload
          leasedByInv := h.leasedByInv }
  | leased e expiresAt =>
      rw [removeQueued_of_none h.queuedByInv, removeLeased_of_leased h]
      exact
        { queues := h.queues
          metadata := h.metadata
          queuedByInv := AList.lookup_erase _ _
          leases := fun m hm => by
            by_cases hne : m = e.member id
            · subst hne
              exact AList.lookup_erase _ _
            · exact (AList.lookup_erase_ne hne).trans ((h.leases m hm).trans (if_neg hne))
          leasePayload := fun m hm => by
            by_cases hne : m = e.member id
            · subst hne
              exact AList.lookup_erase _ _
            · exact (AList.lookup_erase_ne hne).trans ((h.leasePayload m hm).trans (if_neg hne))
          leasedByInv := AList.lookup_erase _ _ }

/-- Nothing of another id is removed. -/
theorem At.agree_remove {place : Place} (h : At fmt ks id place) (hx : x ≠ id) :
    Agree ks ((ks.removeQueued (idWord id)).removeLeased (idWord id)) x := by
  cases place with
  | absent =>
      rw [removeQueued_of_none h.queuedByInv, removeLeased_of_none h.leasedByInv]
      exact Agree.refl ks x
  | queued e =>
      have hleased : (ks.dequeue e.route.queueWord (e.member id)).leasedByInv.lookup (idWord id) =
          none := h.leasedByInv
      rw [removeQueued_of_queued h, removeLeased_of_none hleased]
      exact agree_dequeue hx (memberId_entry e)
  | leased e expiresAt =>
      rw [removeQueued_of_none h.queuedByInv, removeLeased_of_leased h]
      have hend : Agree ks (ks.endLease (e.member id)) x := agree_endLease hx (memberId_entry e)
      exact { hend with leasedByInv := AList.lookup_erase_ne (idWord_ne hx) }

end Moves

/-! ## Counting -/

section Counting

variable {fmt : ScoreFormat} {ks : Keyspace} {id : InvocationId}
variable {K V : Type} [DecidableEq K] {table : Table K V} {key : K}

/-- What an id adds to `broker:count`. -/
def Place.weight : Place → Nat
  | absent => 0
  | queued _ | leased _ _ => 1

theorem length_keys_erase_of_none (h : table.lookup key = none) :
    (table.erase key).keys.length = table.keys.length := by
  rw [AList.keys_erase, List.erase_of_not_mem (AList.lookup_eq_none.mp h)]

theorem length_keys_erase_of_some {v : V} (h : table.lookup key = some v) :
    (table.erase key).keys.length + 1 = table.keys.length := by
  have hmem : key ∈ table.keys := AList.lookup_isSome.mp (by rw [h]; rfl)
  have hpos := List.length_pos_of_mem hmem
  rw [AList.keys_erase, List.length_erase_of_mem hmem]
  omega

/-- An insertion replaces: the key is counted once. -/
theorem held_enqueue {queue member task : Word} {priority : F64} :
    (ks.enqueue (idWord id) queue member task priority).held = (ks.unlist (idWord id)).held + 1 := by
  have hkeys : (ks.enqueue (idWord id) queue member task priority).queuedByInv.keys.length =
      (ks.unlist (idWord id)).queuedByInv.keys.length + 1 := by
    simp [Keyspace.enqueue, Keyspace.unlist]
  have hleased : (ks.unlist (idWord id)).leasedByInv = ks.leasedByInv := rfl
  unfold Keyspace.held
  rw [hkeys, hleased]
  simp only [Keyspace.enqueue]
  omega

theorem held_remove {place : Place} (h : At fmt ks id place) :
    (((ks.removeQueued (idWord id)).removeLeased (idWord id)).unlist (idWord id)).held + place.weight =
      ks.held := by
  cases place with
  | absent =>
      rw [removeQueued_of_none h.queuedByInv, removeLeased_of_none h.leasedByInv]
      have hqueued := length_keys_erase_of_none h.queuedByInv
      simp only [Keyspace.held, Keyspace.unlist, Place.weight] at hqueued ⊢
      omega
  | queued e =>
      have hleased : (ks.dequeue e.route.queueWord (e.member id)).leasedByInv.lookup (idWord id) =
          none := h.leasedByInv
      rw [removeQueued_of_queued h, removeLeased_of_none hleased]
      have hqueued := length_keys_erase_of_some h.queuedByInv
      simp only [Keyspace.held, Keyspace.unlist, Keyspace.dequeue, Place.weight] at hqueued ⊢
      omega
  | leased e expiresAt =>
      rw [removeQueued_of_none h.queuedByInv, removeLeased_of_leased h]
      have hqueued := length_keys_erase_of_none h.queuedByInv
      have hleased := length_keys_erase_of_some h.leasedByInv
      simp only [Keyspace.held, Keyspace.unlist, Keyspace.endLease, Place.weight] at hqueued hleased ⊢
      omega

@[simp] theorem count_removeQueued (word : Word) : (ks.removeQueued word).count = ks.count := by
  unfold Keyspace.removeQueued
  split <;> rfl

@[simp] theorem count_removeLeased (word : Word) : (ks.removeLeased word).count = ks.count := by
  unfold Keyspace.removeLeased
  split <;> rfl

theorem At.has_iff {place : Place} (h : At fmt ks id place) :
    ks.has (idWord id) = true ↔ place.weight = 1 := by
  rw [h.has]
  cases place <;> simp [Place.weight]

theorem Place.weight_le (place : Place) : place.weight ≤ 1 := by
  cases place <;> simp [Place.weight]

end Counting

end Rustvello.Redis
