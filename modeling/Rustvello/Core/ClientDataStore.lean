import Rustvello.Concurrency.History
import Rustvello.Core.Error
import Rustvello.Proto.ArgumentIdentity

/-!
# Client data

`client_data_store.rs` of `rustvello-core`: large values travel as references, keys made of
the value's digest, and are kept in a store that all managers share; each manager has a
cache of its own.

* `ClientDataStoreConfig`, `externalizes` — which values are stored outside;
* `LruCache` — the cache of one manager, with its capacity;
* `dataCalls` — the locked steps of a call, and evictions, which may come at any time;
* `storeIfLarge`, `resolve` — the calls of a manager;
* `clientData_round_trip` — a value that was stored is what its result resolves to, through
  any managers, however their calls interleave.

Warnings about large values are logged only and left out.
-/

namespace Rustvello.Core.ClientData

open Concurrency Proto

/-! ## References -/

/-- `REFERENCE_PREFIX` -/
def referencePrefix : String :=
  "__rustvello__cds__:"

/-- `is_reference` -/
def isReference (value : String) : Bool :=
  referencePrefix.toList.isPrefixOf value.toList

/-- `generate_reference_key` -/
def generateReferenceKey (sha256 : List Char → List UInt8) (data : String) : String :=
  referencePrefix ++ sha256Text sha256 data.toList

structure ClientDataStoreConfig where
  disabled : Bool := false
  minSizeToCache : Nat := 1024
  /-- Zero for no maximum. -/
  maxSizeToCache : Nat := 0
  localCacheSize : Nat := 1024
deriving DecidableEq

namespace ClientDataStoreConfig

/-- The capacity of the cache: at least one entry. -/
def capacity (config : ClientDataStoreConfig) : Nat :=
  max 1 config.localCacheSize

end ClientDataStoreConfig

/-! ## Caches and the backend -/

/-- The entries of a cache, the most recently used first. -/
structure LruCache where
  entries : List (String × String) := []
deriving DecidableEq

namespace LruCache

def put (cache : LruCache) (capacity : Nat) (key value : String) : LruCache :=
  ⟨((key, value) :: cache.entries.filter fun entry => entry.1 ≠ key).take capacity⟩

/-- `get`: a hit becomes the most recently used entry. -/
def get (cache : LruCache) (key : String) : Option String × LruCache :=
  match cache.entries.find? fun entry => entry.1 = key with
  | some entry =>
      (some entry.2, ⟨entry :: cache.entries.filter fun other => other.1 ≠ key⟩)
  | none => (none, cache)

def evict (cache : LruCache) (key : String) : LruCache :=
  ⟨cache.entries.filter fun entry => entry.1 ≠ key⟩

variable {cache : LruCache} {key : String}

variable {entry : String × String}

theorem mem_put {capacity : Nat} {value : String}
    (h : entry ∈ (cache.put capacity key value).entries) :
    entry = (key, value) ∨ entry ∈ cache.entries := by
  rcases List.mem_cons.mp (List.mem_of_mem_take h) with heq | hmem
  · exact .inl heq
  · exact .inr (List.mem_of_mem_filter hmem)

theorem mem_get (h : entry ∈ (cache.get key).2.entries) :
    entry ∈ cache.entries := by
  unfold get at h
  split at h
  · rename_i found hfound
    rcases List.mem_cons.mp h with rfl | hmem
    · exact List.mem_of_find?_eq_some hfound
    · exact List.mem_of_mem_filter hmem
  · exact h

theorem get_hit {value : String} (h : (cache.get key).1 = some value) :
    (key, value) ∈ cache.entries := by
  unfold get at h
  split at h
  · rename_i found hfound
    obtain ⟨foundKey, foundValue⟩ := found
    have hkey : foundKey = key := by simpa using List.find?_some hfound
    obtain rfl := Option.some.inj h
    subst hkey
    exact List.mem_of_find?_eq_some hfound
  · cases h

theorem mem_evict (h : entry ∈ (cache.evict key).entries) :
    entry ∈ cache.entries :=
  List.mem_of_mem_filter h

end LruCache

/-- The data of the backend, and the caches of the managers by their number. -/
structure DataState where
  backend : AList fun _ : String => String
  caches : Nat → LruCache

/-- What a call of a manager does in one locked step. -/
inductive DataCall where
  | store (key value : String)
  | retrieve (key : String)
  | cachePut (manager : Nat) (key value : String)
  | cacheGet (manager : Nat) (key : String)
  | evict (manager : Nat) (key : String)
deriving DecidableEq

def DataCall.Ret : DataCall → Type
  | store .. => RustvelloResult Unit
  | retrieve _ => RustvelloResult String
  | cachePut .. => Unit
  | cacheGet .. => Option String
  | evict .. => Unit

def dataCalls : Interface :=
  ⟨DataCall, DataCall.Ret⟩

instance : DecidableEq dataCalls.Op :=
  inferInstanceAs (DecidableEq DataCall)

/-- The steps on a backend that answers with what was last stored. -/
def execData (configs : Nat → ClientDataStoreConfig) :
    (c : DataCall) → DataState → c.Ret × DataState
  | .store key value, s => (.ok (), { s with backend := s.backend.insert key value })
  | .retrieve key, s =>
      match s.backend.lookup key with
      | some value => (.ok value, s)
      | none => (.error (.stateBackend ("key not found: " ++ key)), s)
  | .cachePut manager key value, s =>
      ((), { s with
        caches := Function.update s.caches manager
          ((s.caches manager).put (configs manager).capacity key value) })
  | .cacheGet manager key, s =>
      let answer := (s.caches manager).get key
      (answer.1, { s with caches := Function.update s.caches manager answer.2 })
  | .evict manager key, s =>
      ((), { s with caches := Function.update s.caches manager ((s.caches manager).evict key) })

theorem execData_retrieve (configs : Nat → ClientDataStoreConfig) (key : String) (s : DataState) :
    (execData configs (.retrieve key) s).1 =
      match s.backend.lookup key with
      | some value => (Except.ok value : RustvelloResult String)
      | none => .error (.stateBackend ("key not found: " ++ key)) := by
  simp only [execData]
  split <;> rfl

/-! ## Managers -/

abbrev DataProg (α : Type) :=
  ExceptT RustvelloError (Prog dataCalls) α

def store (key value : String) : DataProg Unit :=
  ExceptT.mk (Prog.request (I := dataCalls) (.store key value))

def retrieve (key : String) : DataProg String :=
  ExceptT.mk (Prog.request (I := dataCalls) (.retrieve key))

/-- The part of `store_if_large` after its checks. -/
def externalize (sha256 : List Char → List UInt8) (manager : Nat) (serialized : String) :
    DataProg String := do
  let key := generateReferenceKey sha256 serialized
  store key serialized
  Prog.ask (I := dataCalls) (.cachePut manager key serialized)
  return key

/-- `store_if_large` -/
def storeIfLarge (config : ClientDataStoreConfig) (sha256 : List Char → List UInt8)
    (manager : Nat) (serialized : String) : DataProg String :=
  let size := serialized.utf8ByteSize
  if config.disabled then return serialized
  else if isReference serialized then return serialized
  else if size < config.minSizeToCache then return serialized
  else if 0 < config.maxSizeToCache ∧ config.maxSizeToCache < size then return serialized
  else externalize sha256 manager serialized

/-- `resolve` -/
def resolve (manager : Nat) (data : String) : DataProg String :=
  if isReference data then do
    let hit ← Prog.ask (I := dataCalls) (.cacheGet manager data)
    match hit with
    | some cached => return cached
    | none => do
        let value ← retrieve data
        Prog.ask (I := dataCalls) (.cachePut manager data value)
        return value
  else return data

/-- The calls on managers, and the evictions between them. -/
inductive DataTask where
  | storeIfLarge (manager : Nat) (serialized : String)
  | resolve (manager : Nat) (data : String)
  | evict (manager : Nat) (key : String)
deriving DecidableEq

variable (configs : Nat → ClientDataStoreConfig) (sha256 : List Char → List UInt8)

def DataTask.program : DataTask → Prog dataCalls Unit
  | .storeIfLarge manager serialized =>
      (ClientData.storeIfLarge (configs manager) sha256 manager serialized).run.toUnit
  | .resolve manager data => (ClientData.resolve manager data).run.toUnit
  | .evict manager key => Prog.request (I := dataCalls) (.evict manager key)

def dataMachine : Machine dataCalls DataState Unit DataTask where
  exec _ := execData configs
  program := DataTask.program configs sha256

abbrev DataThread := Thread dataCalls DataTask

abbrev DataSystem := System dataCalls DataState DataTask

/-- Nothing is stored, every cache is empty, and no call was made. -/
def noData : DataSystem :=
  ⟨⟨∅, fun _ => {}⟩, []⟩

/-- The states of any interleaving of any calls. -/
abbrev DataRun (s s' : DataSystem) : Prop :=
  Reachable (dataMachine configs sha256) (Guard.top dataCalls DataState DataTask) s s'

/-! ## What travels -/

/-- The checks of `store_if_large` send the value to the backend. -/
def ClientDataStoreConfig.externalizes (config : ClientDataStoreConfig) (serialized : String) :
    Bool :=
  !config.disabled && !isReference serialized &&
    !decide (serialized.utf8ByteSize < config.minSizeToCache) &&
    !decide (0 < config.maxSizeToCache ∧ config.maxSizeToCache < serialized.utf8ByteSize)

/-- What `store_if_large` returns for a value. -/
def ClientDataStoreConfig.travels (config : ClientDataStoreConfig) (serialized : String) :
    String :=
  if config.externalizes serialized then generateReferenceKey sha256 serialized else serialized

variable {configs sha256}

variable (config : ClientDataStoreConfig)

theorem storeIfLarge_eq (manager : Nat) (serialized : String) :
    storeIfLarge config sha256 manager serialized =
      if config.externalizes serialized then externalize sha256 manager serialized
      else return serialized := by
  unfold storeIfLarge ClientDataStoreConfig.externalizes
  cases config.disabled <;> cases isReference serialized <;>
    by_cases hmin : serialized.utf8ByteSize < config.minSizeToCache <;>
    by_cases hmax : 0 < config.maxSizeToCache ∧ config.maxSizeToCache < serialized.utf8ByteSize <;>
    simp [hmin, hmax]

theorem isReference_key (data : String) : isReference (generateReferenceKey sha256 data) = true := by
  rw [isReference, generateReferenceKey, String.toList_append, List.isPrefixOf_iff_prefix]
  exact List.prefix_append _ _

theorem generateReferenceKey_inj (hinj : Function.Injective sha256) {v w : String}
    (h : generateReferenceKey sha256 v = generateReferenceKey sha256 w) : v = w := by
  have htexts := congrArg String.toList h
  rw [generateReferenceKey, generateReferenceKey, String.toList_append, String.toList_append]
    at htexts
  have hdigests := String.toList_inj.mp (List.append_cancel_left htexts)
  exact String.toList_inj.mp (hinj (lowerHex_inj (String.ofList_injective hdigests)))

/-- A value that is no reference is told by what travels in its place, whoever stored it. -/
theorem travels_inj (hinj : Function.Injective sha256) {config config' : ClientDataStoreConfig}
    {v w : String} (hv : isReference v = false) (hw : isReference w = false)
    (h : config.travels sha256 v = config'.travels sha256 w) : v = w := by
  unfold ClientDataStoreConfig.travels at h
  split at h <;> split at h
  · exact generateReferenceKey_inj hinj h
  · rw [← h, isReference_key] at hw
    cases hw
  · rw [h, isReference_key] at hv
    cases hv
  · exact h

/-- What travels is not stored again. -/
theorem travels_travels (v : String) :
    config.travels sha256 (config.travels sha256 v) = config.travels sha256 v := by
  by_cases hv : config.externalizes v = true
  · have htravels : config.travels sha256 v = generateReferenceKey sha256 v := if_pos hv
    have hkept : config.externalizes (generateReferenceKey sha256 v) = false := by
      simp [ClientDataStoreConfig.externalizes, isReference_key]
    rw [htravels]
    exact if_neg (by simp [hkept])
  · have htravels : config.travels sha256 v = v := if_neg hv
    rw [htravels, htravels]

/-! ## The books -/

/-- What one call has done: its steps, and the keys it has stored. -/
structure DataBook where
  steps : Nat
  stored : List String

/-- Only pairs of a key and its value are stored or cached, and a call has three steps at
most. -/
def dataBooks (sha256 : List Char → List UInt8) : Discipline dataCalls DataTask DataBook where
  start _ := ⟨0, []⟩
  next c _ g :=
    match c with
    | DataCall.store key _ => ⟨g.steps + 1, key :: g.stored⟩
    | _ => ⟨g.steps + 1, g.stored⟩
  pre c g := g.steps < 3 ∧
    match c with
    | DataCall.store key value => key = generateReferenceKey sha256 value
    | DataCall.cachePut _ key value => key = generateReferenceKey sha256 value
    | _ => True
  resp c _ r :=
    match c, r with
    | DataCall.store .., r => r = Except.ok ()
    | DataCall.retrieve key, r => ∀ value, r = Except.ok value → key = generateReferenceKey sha256 value
    | DataCall.cacheGet _ key, r => ∀ value, r = some value → key = generateReferenceKey sha256 value
    | _, _ => True

/-- Every pair that is stored or cached is a key and its value, and what a call has stored
is in the backend. -/
structure Kept (sha256 : List Char → List UInt8) (s : DataState) (books : List DataBook) :
    Prop where
  backend : ∀ key value, s.backend.lookup key = some value → key = generateReferenceKey sha256 value
  caches : ∀ manager, ∀ entry ∈ (s.caches manager).entries,
    entry.1 = generateReferenceKey sha256 entry.2
  stored : ∀ g ∈ books, ∀ key ∈ g.stored, key ∈ s.backend
  steps : ∀ g ∈ books, g.steps ≤ 3

/-- What a call of `store_if_large` ends with. -/
def Stored (config : ClientDataStoreConfig) (sha256 : List Char → List UInt8) (v : String) :
    RustvelloResult String → DataBook → Prop :=
  fun r g => r = .ok (config.travels sha256 v) ∧
    (config.externalizes v = true → generateReferenceKey sha256 v ∈ g.stored)

theorem storeIfLarge_obeys (manager : Nat) (v : String) :
    (dataBooks sha256).Obeys (storeIfLarge config sha256 manager v).run
      (Stored config sha256 v) ⟨0, []⟩ := by
  rw [storeIfLarge_eq]
  by_cases hv : config.externalizes v = true
  · rw [if_pos hv]
    refine ⟨⟨by decide, rfl⟩, ?_⟩
    rintro r rfl
    refine ⟨⟨show 1 < 3 by decide, rfl⟩, fun _ _ => ⟨?_, fun _ => List.mem_singleton.mpr rfl⟩⟩
    exact congrArg Except.ok (if_pos hv).symm
  · rw [if_neg hv]
    exact ⟨congrArg Except.ok (if_neg hv).symm, fun h => absurd h hv⟩

/-- What a call of `resolve` ends with, unless it misses. -/
def Resolved (sha256 : List Char → List UInt8) (data : String) :
    RustvelloResult String → DataBook → Prop :=
  fun r _ => ∀ value, r = .ok value →
    if isReference data then data = generateReferenceKey sha256 value else value = data

theorem resolve_obeys (manager : Nat) (data : String) :
    (dataBooks sha256).Obeys (resolve manager data).run (Resolved sha256 data) ⟨0, []⟩ := by
  unfold resolve
  by_cases hdata : isReference data = true
  · rw [if_pos hdata]
    refine ⟨⟨by decide, trivial⟩, ?_⟩
    rintro (_ | cached) hcached
    · refine ⟨⟨show 1 < 3 by decide, trivial⟩, ?_⟩
      rintro (e | value) hvalue
      · exact fun value h => absurd h nofun
      · refine ⟨⟨show 2 < 3 by decide, hvalue value rfl⟩, fun _ _ other hother => ?_⟩
        cases hother
        rw [if_pos hdata]
        exact hvalue value rfl
    · intro value hvalue
      cases hvalue
      rw [if_pos hdata]
      exact hcached cached rfl
  · rw [if_neg hdata]
    intro value hvalue
    cases hvalue
    rw [if_neg hdata]

theorem program_obeys (task : DataTask) :
    (dataBooks sha256).Obeys (task.program configs sha256) (fun _ _ => True) ⟨0, []⟩ := by
  cases task with
  | storeIfLarge manager v => exact ((storeIfLarge_obeys _ manager v).mono fun _ _ _ => trivial).toUnit
  | resolve manager data => exact ((resolve_obeys manager data).mono fun _ _ _ => trivial).toUnit
  | evict manager key => exact ⟨⟨by decide, trivial⟩, fun _ _ => trivial⟩

/-- A step keeps the pairs, and answers with one. -/
theorem Kept.call {s : DataState} {before after : List DataBook} {g : DataBook}
    (h : Kept sha256 s (before ++ g :: after)) (c : DataCall) (hpre : (dataBooks sha256).pre c g) :
    (dataBooks sha256).resp c g (execData configs c s).1 ∧
      Kept sha256 (execData configs c s).2
        (before ++ (dataBooks sha256).next c (execData configs c s).1 g :: after) := by
  have hg : g ∈ before ++ g :: after := by simp
  have hsteps : ∀ g', g'.steps = g.steps + 1 → ∀ b ∈ before ++ g' :: after, b.steps ≤ 3 :=
    fun g' hg' => forall_replace h.steps (fun _ hb => hb) (by have := hpre.1; omega)
  -- replacing one cache by entries that were there, or by the new pair
  have hcaches : ∀ manager cache,
      (∀ entry ∈ LruCache.entries cache, entry.1 = generateReferenceKey sha256 entry.2) →
      ∀ other, ∀ entry ∈ (Function.update s.caches manager cache other).entries,
        entry.1 = generateReferenceKey sha256 entry.2 := by
    intro manager cache hcache other
    by_cases hother : other = manager
    · subst hother
      rw [Function.update_self]
      exact hcache
    · rw [Function.update_of_ne hother]
      exact h.caches other
  cases c with
  | store key value =>
      refine ⟨rfl, ?_, h.caches, ?_, hsteps _ rfl⟩
      · intro key' value' hlookup
        by_cases hkey : key' = key
        · subst hkey
          obtain rfl : value = value' := by simpa [execData] using hlookup
          exact hpre.2
        · refine h.backend key' value' ?_
          simpa [execData, AList.lookup_insert_ne hkey] using hlookup
      · refine forall_replace h.stored (fun b hb key' hkey' => ?_) ?_
        · exact AList.mem_insert _ |>.mpr (.inr (hb key' hkey'))
        · intro key' hkey'
          rcases List.mem_cons.mp hkey' with rfl | hkey'
          · exact AList.mem_insert _ |>.mpr (.inl rfl)
          · exact AList.mem_insert _ |>.mpr (.inr (h.stored g hg key' hkey'))
  | retrieve key =>
      have hstate : (execData configs (.retrieve key) s).2 = s := by
        simp only [execData]
        split <;> rfl
      rw [hstate]
      refine ⟨?_, h.backend, h.caches, forall_replace h.stored (fun _ hb => hb) (h.stored g hg),
        hsteps _ rfl⟩
      intro value hvalue
      have hanswer := execData_retrieve configs key s
      cases hlookup : s.backend.lookup key with
      | none =>
          rw [hlookup] at hanswer
          cases hanswer.symm.trans hvalue
      | some found =>
          rw [hlookup] at hanswer
          cases hanswer.symm.trans hvalue
          exact h.backend key _ hlookup
  | cachePut manager key value =>
      refine ⟨trivial, h.backend, ?_, forall_replace h.stored (fun _ hb => hb) (h.stored g hg),
        hsteps _ rfl⟩
      refine hcaches _ _ fun entry hentry => ?_
      rcases LruCache.mem_put hentry with rfl | hold
      · exact hpre.2
      · exact h.caches manager entry hold
  | cacheGet manager key =>
      refine ⟨fun value hvalue => ?_, h.backend, ?_,
        forall_replace h.stored (fun _ hb => hb) (h.stored g hg), hsteps _ rfl⟩
      · exact h.caches manager (key, value) (LruCache.get_hit hvalue)
      · exact hcaches _ _ fun entry hentry => h.caches manager entry (LruCache.mem_get hentry)
  | evict manager key =>
      refine ⟨trivial, h.backend, ?_, forall_replace h.stored (fun _ hb => hb) (h.stored g hg),
        hsteps _ rfl⟩
      exact hcaches _ _ fun entry hentry => h.caches manager entry (LruCache.mem_evict hentry)

theorem upheld (configs : Nat → ClientDataStoreConfig) (sha256 : List Char → List UInt8) :
    (dataBooks sha256).Upheld (fun _ => True) (Kept sha256) (dataMachine configs sha256)
      (Guard.top dataCalls DataState DataTask) noData where
  program _ task _ := program_obeys task
  obey := by simp [Discipline.AllObey, noData]
  logs := by simp [noData]
  holds := ⟨by simp [noData], by simp [noData], by simp [noData, System.books],
    by simp [noData, System.books]⟩
  start s task _ h := by
    refine ⟨h.backend, h.caches, ?_, ?_⟩
    · intro g hg
      rcases List.mem_append.mp hg with hg | hg
      · exact h.stored g hg
      · obtain rfl := List.mem_singleton.mp hg
        exact fun _ hkey => absurd hkey List.not_mem_nil
    · intro g hg
      rcases List.mem_append.mp hg with hg | hg
      · exact h.steps g hg
      · obtain rfl := List.mem_singleton.mp hg
        exact Nat.zero_le _
  call s i env t c before after hturn h := h.call c hturn.permitted

/-- The book of a call counts its steps. -/
theorem steps_book (t : DataThread) : ((dataBooks sha256).book t).steps = t.log.length := by
  unfold Monitor.book
  generalize t.log = log
  induction log with
  | nil => rfl
  | cons e log ih =>
      obtain ⟨c, r⟩ := e
      cases c <;> exact congrArg Nat.succ ih

/-! ## Later calls -/

variable {s s₁ s₂ : DataSystem}

/-- Data are never removed from the backend. -/
theorem mem_backend_of_run (h : DataRun configs sha256 s₁ s₂) {key : String}
    (hkey : key ∈ s₁.shared.backend) : key ∈ s₂.shared.backend := by
  refine h.shared_invariant (fun shared => key ∈ shared.backend) hkey ?_
  intro s _ _ c _ hmem
  show key ∈ (execData configs c s.shared).2.backend
  cases c with
  | store => exact AList.mem_insert _ |>.mpr (.inr hmem)
  | retrieve =>
      simp only [execData]
      split <;> exact hmem
  | cachePut => exact hmem
  | cacheGet => exact hmem
  | evict => exact hmem

/-- `resolve` fails only where the backend has missed the key. -/
theorem missed_of_resolve_error {manager : Nat} {data : String} {e : RustvelloError}
    {log : List (Event dataCalls)} (h : (resolve manager data).run.outcome log = some (.error e)) :
    (⟨DataCall.retrieve data, Except.error e⟩ : Event dataCalls) ∈ log := by
  unfold resolve at h
  by_cases hdata : isReference data = true
  · rw [if_pos hdata] at h
    obtain ⟨hit, rest, rfl, hrest⟩ := Prog.outcome_call h
    cases hit with
    | some cached =>
        obtain ⟨-, hok⟩ := Prog.outcome_done hrest
        cases hok
    | none =>
        obtain ⟨answer, rest, rfl, hafter⟩ := Prog.outcome_call hrest
        cases answer with
        | error e' =>
            obtain ⟨-, herror⟩ := Prog.outcome_done hafter
            cases herror
            simp
        | ok value =>
            obtain ⟨_, rest, rfl, hput⟩ := Prog.outcome_call hafter
            obtain ⟨-, hok⟩ := Prog.outcome_done hput
            cases hok
  · rw [if_neg hdata] at h
    obtain ⟨-, hok⟩ := Prog.outcome_done h
    cases hok

/-- A key that was in the backend before the call is found. -/
theorem resolve_finds (h : DataRun configs sha256 s₁ s₂) {data : String}
    (hmem : data ∈ s₁.shared.backend) {i manager : Nat} {t : DataThread}
    (hnew : s₁.threads[i]? = none) (ht : s₂.threads[i]? = some t) (e : RustvelloError) :
    t.returned (resolve manager data).run ≠ some (.error e) := by
  intro herror
  have hevent := List.mem_reverse.mp (missed_of_resolve_error herror)
  obtain ⟨s, env, t', k, hrun, -, -, -, -, hret, -⟩ := h.made_since hnew ht hevent
  have hfound := mem_backend_of_run hrun hmem
  obtain ⟨value, hlookup⟩ := Option.isSome_iff_exists.mp (AList.lookup_isSome.mpr hfound)
  have hanswer := execData_retrieve configs data s.shared
  rw [hlookup] at hanswer
  cases hret.trans hanswer

/-- What a finished call of `store_if_large` has returned. -/
def Returned (configs : Nat → ClientDataStoreConfig) (sha256 : List Char → List UInt8)
    (t : DataThread) (manager : Nat) (v : String) (r : RustvelloResult String) : Prop :=
  t.task = .storeIfLarge manager v ∧
    t.returned (storeIfLarge (configs manager) sha256 manager v).run = some r

instance (t : DataThread) (manager : Nat) (v : String) (r : RustvelloResult String) :
    Decidable (Returned configs sha256 t manager v r) :=
  inferInstanceAs (Decidable (_ ∧ _))

/-- What a finished call of `resolve` has returned. -/
def ResolvedTo (t : DataThread) (manager : Nat) (data : String)
    (r : RustvelloResult String) : Prop :=
  t.task = .resolve manager data ∧ t.returned (resolve manager data).run = some r

theorem stored_result (h : DataRun configs sha256 noData s) {t : DataThread} (ht : t ∈ s.threads)
    {manager : Nat} {v : String} {r : RustvelloResult String}
    (hstored : Returned configs sha256 t manager v r) :
    r = .ok ((configs manager).travels sha256 v) ∧
      ((configs manager).externalizes v = true →
        generateReferenceKey sha256 v ∈ s.shared.backend) := by
  have hupheld := upheld configs sha256
  obtain ⟨hr, hkey⟩ := hupheld.outcome h ht (storeIfLarge_obeys (configs manager) manager v)
    hstored.2
  refine ⟨hr, fun hv => ?_⟩
  exact (hupheld.obeyed h).2.stored _ (List.mem_map_of_mem ht) _ (hkey hv)

/-- What travels resolves to the value, once it was stored. -/
theorem resolved_result (hinj : Function.Injective sha256) (h₁ : DataRun configs sha256 noData s₁)
    (h₂ : DataRun configs sha256 s₁ s₂) {t u : DataThread} (ht : t ∈ s₁.threads)
    {i manager manager' : Nat} {v : String} (hv : isReference v = false)
    {r r' : RustvelloResult String} (hstored : Returned configs sha256 t manager v r)
    (hnew : s₁.threads[i]? = none) (hu : s₂.threads[i]? = some u)
    (hresolved : ResolvedTo u manager' ((configs manager).travels sha256 v) r') : r' = .ok v := by
  have hvalue := (upheld configs sha256).outcome (h₁.trans h₂) (List.mem_of_getElem? hu)
    (resolve_obeys manager' _) hresolved.2
  by_cases hout : (configs manager).externalizes v = true
  · have htravels : (configs manager).travels sha256 v = generateReferenceKey sha256 v :=
      if_pos hout
    rw [htravels] at hresolved hvalue
    have hkey := (stored_result h₁ ht hstored).2 hout
    cases r' with
    | error e => exact absurd hresolved.2 (resolve_finds h₂ hkey hnew hu e)
    | ok value =>
        have hpair := hvalue value rfl
        rw [if_pos (isReference_key v)] at hpair
        rw [generateReferenceKey_inj hinj hpair]
  · have htravels : (configs manager).travels sha256 v = v := if_neg hout
    rw [htravels] at hresolved hvalue
    cases r' with
    | error e =>
        have hreturned := hresolved.2
        have hinline : resolve manager' v = return v := if_neg (by simp [hv])
        rw [Thread.returned, hinline] at hreturned
        obtain ⟨-, hok⟩ := Prog.outcome_done hreturned
        cases hok
    | ok value =>
        have hsame := hvalue value rfl
        rw [if_neg (by simp [hv])] at hsame
        rw [hsame]

/-- **Client data round trip.**  In every run of any calls on any managers, with evictions at
any time: a call has at most three steps; a stored value that is no reference is what its
result resolves to, through any manager and at any later time; a manager returns its own
results as they are; and different values have different results. -/
theorem clientData_round_trip (configs : Nat → ClientDataStoreConfig)
    {sha256 : List Char → List UInt8} (hinj : Function.Injective sha256)
    {s₁ s₂ : DataSystem} (h₁ : DataRun configs sha256 noData s₁)
    (h₂ : DataRun configs sha256 s₁ s₂) :
    (∀ t ∈ s₂.threads, t.log.length ≤ 3) ∧
    (∀ t ∈ s₁.threads, ∀ manager v r, Returned configs sha256 t manager v r →
      ∃ result, r = .ok result ∧
        (isReference v = false → ∀ (i manager' : Nat) (u : DataThread) r', s₁.threads[i]? = none →
          s₂.threads[i]? = some u → ResolvedTo u manager' result r' → r' = .ok v) ∧
        (∀ u ∈ s₂.threads, ∀ r', Returned configs sha256 u manager result r' → r' = .ok result) ∧
        ∀ u ∈ s₂.threads, ∀ manager' w, isReference v = false → isReference w = false →
          Returned configs sha256 u manager' w (.ok result) → v = w) := by
  have hrun := h₁.trans h₂
  constructor
  · intro t ht
    have hsteps := ((upheld configs sha256).obeyed hrun).2.steps _ (List.mem_map_of_mem ht)
    exact (steps_book t).symm ▸ hsteps
  · intro t ht manager v r hstored
    obtain ⟨rfl, -⟩ := stored_result h₁ ht hstored
    refine ⟨_, rfl, ?_, ?_, ?_⟩
    · intro hv i manager' u r' hnew hu hresolved
      exact resolved_result hinj h₁ h₂ ht hv hstored hnew hu hresolved
    · intro u hu r' hstored'
      obtain ⟨rfl, -⟩ := stored_result hrun hu hstored'
      exact congrArg Except.ok (travels_travels _ v)
    · intro u hu manager' w hv hw hstored'
      have hresult := (stored_result hrun hu hstored').1
      exact travels_inj hinj hv hw (Except.ok.inj hresult)

/-- The first manager stores every value, the others only large ones. -/
def sampleConfigs (manager : Nat) : ClientDataStoreConfig :=
  if manager = 0 then { minSizeToCache := 0, localCacheSize := 0 } else {}

def sampleValue : String :=
  "\"x\"=\"1\";"

def sampleKey : String :=
  generateReferenceKey spelledSha256 sampleValue

/-- The first manager has stored the value, and its cache has dropped it. -/
def sampleStored : DataSystem :=
  (noData.run (dataMachine sampleConfigs spelledSha256)
    [.start (.storeIfLarge 0 sampleValue), .step 0 (), .step 0 (), .start (.evict 0 sampleKey),
      .step 1 ()]).get (by decide +kernel)

/-- The second manager has resolved the reference. -/
def sampleResolved : DataSystem :=
  (sampleStored.run (dataMachine sampleConfigs spelledSha256)
    [.start (.resolve 1 sampleKey), .step 2 (), .step 2 (), .step 2 ()]).get (by decide +kernel)

theorem clientData_round_trip_sample : ∃ t u r',
    sampleStored.threads[0]? = some t ∧
      Returned sampleConfigs spelledSha256 t 0 sampleValue (.ok sampleKey) ∧
      sampleResolved.threads[2]? = some u ∧ ResolvedTo u 1 sampleKey r' ∧ r' = .ok sampleValue := by
  have h₁ : DataRun sampleConfigs spelledSha256 noData sampleStored :=
    Reachable.run .refl (Guard.allowsAll_top _ _ _) (Option.some_get _).symm
  have h₂ : DataRun sampleConfigs spelledSha256 sampleStored sampleResolved :=
    Reachable.run .refl (Guard.allowsAll_top _ _ _) (Option.some_get _).symm
  obtain ⟨t, ht⟩ : ∃ t, sampleStored.threads[0]? = some t :=
    Option.isSome_iff_exists.mp (by decide +kernel)
  obtain ⟨u, hu⟩ : ∃ u, sampleResolved.threads[2]? = some u :=
    Option.isSome_iff_exists.mp (by decide +kernel)
  have hstored : Returned sampleConfigs spelledSha256 t 0 sampleValue (.ok sampleKey) := by
    have hall : ∀ t ∈ sampleStored.threads[0]?,
        Returned sampleConfigs spelledSha256 t 0 sampleValue (.ok sampleKey) := by
      decide +kernel
    exact hall t ht
  obtain ⟨r', hresolved⟩ : ∃ r', ResolvedTo u 1 sampleKey r' := by
    have hall : ∀ u ∈ sampleResolved.threads[2]?, u.task = .resolve 1 sampleKey ∧
        (u.returned (resolve 1 sampleKey).run).isSome = true := by
      decide +kernel
    obtain ⟨htask, hreturned⟩ := hall u hu
    obtain ⟨r', hr'⟩ := Option.isSome_iff_exists.mp hreturned
    exact ⟨r', htask, hr'⟩
  obtain ⟨-, hround⟩ := clientData_round_trip sampleConfigs spelledSha256_injective h₁ h₂
  obtain ⟨result, hok, hresolves, -⟩ := hround t (List.mem_of_getElem? ht) 0 sampleValue _ hstored
  cases hok
  exact ⟨t, u, r', ht, hstored, hu, hresolved,
    hresolves (by decide +kernel) 2 1 u r' (by decide +kernel) hu hresolved⟩

end Rustvello.Core.ClientData
