import Mathlib.Data.List.Infix
import Rustvello.Backends.Blocking

/-!
# The waiting graph on two backends

SQLite keeps the relation between waiters and waited-on invocations as rows, the in-memory
orchestrator as two maps: the waiters of each invocation, and for each waiter one invocation
that it waits on.  Both are changed by `set_waiting_for`, `release_waiters` and
`remove_invocation`.

* `Waits`, `WaitCall.on` — the relation, and what a call does to it;
* `Holds` — a backend reports the relation: waiters, what a release would return, and who is
  treated as waiting;
* `Harmless` — a release leaves no waiter that waits on something else; a removal is of an
  invocation that waits on nothing else, and leaves no waiter without another wait;
* `holds_sqlite` — the rows are the relation, whatever is called;
* `waiting_refined_iff` — the maps are, exactly as long as every call is harmless.
-/

namespace Rustvello.Backends

open Proto Rustvello.Core Mem

/-! ## The relation -/

/-- Pairs of a waiter and an invocation that it waits on. -/
abbrev Waits := Set (InvocationId × InvocationId)

inductive WaitCall where
  | setWaitingFor (waiter waitedOn : InvocationId)
  | releaseWaiters (completed : InvocationId)
  | removeInvocation (id : InvocationId)
deriving DecidableEq

namespace WaitCall

/-- What the call is for. -/
def on (w : Waits) : WaitCall → Waits
  | setWaitingFor waiter waitedOn => insert (waiter, waitedOn) w
  | releaseWaiters completed => {pair ∈ w | pair.2 ≠ completed}
  | removeInvocation id => {pair ∈ w | pair.1 ≠ id ∧ pair.2 ≠ id}

def inMemory (s : OrchestratorState) : WaitCall → OrchestratorState
  | setWaitingFor waiter waitedOn => s.setWaitingFor waiter waitedOn
  | releaseWaiters completed => (s.releaseWaiters completed).2
  | removeInvocation id => Backends.removeInvocation s id

def inSqlite (db : Sqlite.Database) : WaitCall → Sqlite.Database
  | setWaitingFor waiter waitedOn => db.setWaitingFor waiter waitedOn
  | releaseWaiters completed => (db.releaseWaiters completed).2
  | removeInvocation id => db.removeInvocation id

/-- A call after which the two maps of the in-memory orchestrator still agree. -/
def Harmless (w : Waits) : WaitCall → Prop
  | setWaitingFor _ _ => True
  | releaseWaiters completed =>
      ∀ waiter other, (waiter, completed) ∈ w → (waiter, other) ∈ w → other = completed
  | removeInvocation id =>
      (∀ other, (id, other) ∈ w → other = id) ∧
        ∀ waiter, waiter ≠ id → (waiter, id) ∈ w → ∃ other, other ≠ id ∧ (waiter, other) ∈ w

end WaitCall

/-- The relation after a sequence of calls. -/
def waitsAfter (calls : List WaitCall) : Waits :=
  calls.foldl WaitCall.on ∅

def memAfter (calls : List WaitCall) : OrchestratorState :=
  calls.foldl WaitCall.inMemory {}

def sqliteAfter (calls : List WaitCall) : Sqlite.Database :=
  calls.foldl WaitCall.inSqlite {}

/-! ## What a backend reports -/

/-- The answers of `get_waiters`, those of `release_waiters`, and whom
`get_blocking_invocations` treats as waiting. -/
structure Reports where
  waiters : InvocationId → List InvocationId
  released : InvocationId → List InvocationId
  treatedAsWaiting : InvocationId → Bool

def memReports (s : OrchestratorState) : Reports where
  waiters := memWaiters s
  released completed := (s.releaseWaiters completed).1
  treatedAsWaiting id := (s.waitingFor.lookup id).isSome

def sqliteReports (db : Sqlite.Database) : Reports where
  waiters := db.getWaiters
  released completed := (db.releaseWaiters completed).1
  treatedAsWaiting id := db.waitingFor.any fun pair => pair.1 = id

/-- The reports are those of the relation. -/
structure Holds (r : Reports) (w : Waits) : Prop where
  waiters : ∀ waitedOn, (r.waiters waitedOn).Nodup ∧
    ∀ waiter, waiter ∈ r.waiters waitedOn ↔ (waiter, waitedOn) ∈ w
  released : ∀ completed, (r.released completed).Nodup ∧
    ∀ waiter, waiter ∈ r.released completed ↔ (waiter, completed) ∈ w
  waiting : ∀ id, r.treatedAsWaiting id = true ↔ ∃ other, (id, other) ∈ w

/-! ## SQLite -/

/-- The rows of the table are the relation. -/
structure Rows (db : Sqlite.Database) (w : Waits) : Prop where
  nodup : db.waitingFor.Nodup
  mem : ∀ pair, pair ∈ db.waitingFor ↔ pair ∈ w

namespace Rows

variable {db : Sqlite.Database} {w : Waits}

theorem apply (h : Rows db w) (call : WaitCall) : Rows (call.inSqlite db) (call.on w) := by
  cases call with
  | setWaitingFor waiter waitedOn =>
      refine ⟨h.nodup.insert, fun pair => ?_⟩
      exact List.mem_insert_iff.trans (or_congr_right (h.mem pair))
  | releaseWaiters completed =>
      refine ⟨h.nodup.filter _, fun pair => ?_⟩
      show pair ∈ db.waitingFor.filter _ ↔ pair ∈ w ∧ pair.2 ≠ completed
      rw [List.mem_filter, h.mem, decide_eq_true_eq]
  | removeInvocation id =>
      have hrows : (db.removeInvocation id).waitingFor =
          db.waitingFor.filter fun pair => !decide (pair.1 = id ∨ pair.2 = id) := by
        unfold Sqlite.Database.removeInvocation
        dsimp only
        split <;> rfl
      constructor
      · show (db.removeInvocation id).waitingFor.Nodup
        rw [hrows]
        exact h.nodup.filter _
      · intro pair
        show pair ∈ (db.removeInvocation id).waitingFor ↔ pair ∈ w ∧ pair.1 ≠ id ∧ pair.2 ≠ id
        rw [hrows, List.mem_filter, h.mem]
        simp

theorem holds (h : Rows db w) : Holds (sqliteReports db) w := by
  have hwaiters : ∀ waitedOn, (db.getWaiters waitedOn).Nodup ∧
      ∀ waiter, waiter ∈ db.getWaiters waitedOn ↔ (waiter, waitedOn) ∈ w := by
    intro waitedOn
    constructor
    · refine List.Nodup.map_on ?_ (h.nodup.filter _)
      intro pair hpair pair' hpair' heq
      have hon := of_decide_eq_true (List.mem_filter.mp hpair).2
      have hon' := of_decide_eq_true (List.mem_filter.mp hpair').2
      exact Prod.ext heq (hon.trans hon'.symm)
    · intro waiter
      rw [← h.mem]
      unfold Sqlite.Database.getWaiters
      rw [List.mem_map]
      constructor
      · rintro ⟨pair, hpair, rfl⟩
        obtain ⟨hrow, hon⟩ := List.mem_filter.mp hpair
        rw [← of_decide_eq_true hon]
        exact hrow
      · intro hrow
        exact ⟨(waiter, waitedOn), List.mem_filter.mpr ⟨hrow, by simp⟩, rfl⟩
  refine ⟨hwaiters, hwaiters, fun id => ?_⟩
  show (db.waitingFor.any fun pair => pair.1 = id) = true ↔ _
  rw [List.any_eq_true]
  constructor
  · rintro ⟨pair, hrow, hid⟩
    refine ⟨pair.2, (h.mem _).mp ?_⟩
    rw [← of_decide_eq_true hid]
    exact hrow
  · rintro ⟨other, hpair⟩
    exact ⟨(id, other), (h.mem _).mpr hpair, by simp⟩

end Rows

variable (calls : List WaitCall)

/-- **The rows hold the relation**, whatever is called. -/
theorem holds_sqlite :
    Holds (sqliteReports (sqliteAfter calls)) (waitsAfter calls) := by
  have hfold : ∀ (calls : List WaitCall) (db : Sqlite.Database) (w : Waits), Rows db w →
      Rows (calls.foldl WaitCall.inSqlite db) (calls.foldl WaitCall.on w) := by
    intro calls
    induction calls with
    | nil => exact fun db w h => h
    | cons call rest ih => exact fun db w h => ih _ _ (h.apply call)
  refine (hfold calls {} ∅ ⟨List.nodup_nil, fun pair => ?_⟩).holds
  simp

/-! ## In memory -/

section Maps

variable {s : OrchestratorState} {w : Waits}

/-- A release returns what `get_waiters` would have returned. -/
theorem holds_memReports_iff :
    Holds (memReports s) w ↔
      (∀ waitedOn, (memWaiters s waitedOn).Nodup ∧
        ∀ waiter, waiter ∈ memWaiters s waitedOn ↔ (waiter, waitedOn) ∈ w) ∧
      ∀ id, (s.waitingFor.lookup id).isSome = true ↔ ∃ other, (id, other) ∈ w :=
  ⟨fun h => ⟨h.waiters, h.waiting⟩, fun h => ⟨h.1, h.1, h.2⟩⟩

/-- A new wait is entered in both maps, whatever was there. -/
theorem Holds.setWaitingFor (h : Holds (memReports s) w) (waiter waitedOn : InvocationId) :
    Holds (memReports (s.setWaitingFor waiter waitedOn)) (insert (waiter, waitedOn) w) := by
  obtain ⟨hwaiters, hwaiting⟩ := holds_memReports_iff.mp h
  refine holds_memReports_iff.mpr ⟨fun x => ?_, fun id => ?_⟩
  · rw [memWaiters_setWaitingFor]
    by_cases hx : x = waitedOn
    · subst hx
      rw [if_pos rfl]
      refine ⟨(hwaiters x).1.insert, fun y => ?_⟩
      rw [List.mem_insert_iff, (hwaiters x).2, Set.mem_insert_iff, Prod.mk.injEq]
      simp
    · rw [if_neg hx]
      refine ⟨(hwaiters x).1, fun y => ?_⟩
      rw [(hwaiters x).2, Set.mem_insert_iff, Prod.mk.injEq]
      simp [hx]
  · by_cases hid : id = waiter
    · subst hid
      have hentered : ((s.setWaitingFor id waitedOn).waitingFor.lookup id).isSome = true := by
        simp [OrchestratorState.setWaitingFor]
      exact ⟨fun _ => ⟨waitedOn, Set.mem_insert _ _⟩, fun _ => hentered⟩
    · have hkept : (s.setWaitingFor waiter waitedOn).waitingFor.lookup id =
          s.waitingFor.lookup id := AList.lookup_insert_ne hid
      rw [hkept, hwaiting id]
      simp [hid]

/-- A release forgets every wait of the waiters, and is to forget one. -/
theorem Holds.releaseWaiters_iff (h : Holds (memReports s) w) (completed : InvocationId) :
    Holds (memReports (s.releaseWaiters completed).2) {pair ∈ w | pair.2 ≠ completed} ↔
      (WaitCall.releaseWaiters completed).Harmless w := by
  obtain ⟨hwaiters, hwaiting⟩ := holds_memReports_iff.mp h
  have hafter : ∀ x, memWaiters (s.releaseWaiters completed).2 x =
      if x = completed then [] else memWaiters s x :=
    fun x => memWaiters_of_erase completed x rfl
  have hlookup : ∀ id, (s.releaseWaiters completed).2.waitingFor.lookup id =
      if id ∈ memWaiters s completed then none else s.waitingFor.lookup id :=
    fun id => lookup_foldl_erase _ _ _
  rw [holds_memReports_iff]
  constructor
  · rintro ⟨-, hwaiting'⟩ waiter other hreleased hother
    by_contra hne
    have htreated := (hwaiting' waiter).mpr ⟨other, hother, hne⟩
    rw [hlookup, if_pos ((hwaiters completed).2 waiter |>.mpr hreleased)] at htreated
    cases htreated
  · intro hharmless
    refine ⟨fun x => ?_, fun id => ?_⟩
    · rw [hafter]
      by_cases hx : x = completed
      · subst hx
        simp
      · rw [if_neg hx]
        refine ⟨(hwaiters x).1, fun y => ?_⟩
        rw [(hwaiters x).2]
        simp [hx]
    · rw [hlookup]
      by_cases hreleased : id ∈ memWaiters s completed
      · rw [if_pos hreleased]
        refine ⟨fun hsome => Bool.noConfusion hsome, ?_⟩
        rintro ⟨other, hother, hne⟩
        exact absurd (hharmless id other (((hwaiters completed).2 id).mp hreleased) hother) hne
      · rw [if_neg hreleased, hwaiting]
        constructor
        · rintro ⟨other, hother⟩
          refine ⟨other, hother, fun heq => hreleased ?_⟩
          have hpair : (id, completed) ∈ w := heq ▸ hother
          exact ((hwaiters completed).2 id).mpr hpair
        · rintro ⟨other, hother, -⟩
          exact ⟨other, hother⟩

/-- A removal leaves the invocation among the waiters of others, and its own waiters with what
they were last entered for. -/
theorem Holds.removeInvocation_iff (h : Holds (memReports s) w) (id : InvocationId) :
    Holds (memReports (removeInvocation s id)) {pair ∈ w | pair.1 ≠ id ∧ pair.2 ≠ id} ↔
      (WaitCall.removeInvocation id).Harmless w := by
  obtain ⟨hwaiters, hwaiting⟩ := holds_memReports_iff.mp h
  obtain ⟨hmap, hfor⟩ := removeInvocation_maps s id
  have hafter : ∀ x, memWaiters (removeInvocation s id) x =
      if x = id then [] else memWaiters s x :=
    fun x => memWaiters_of_erase id x hmap
  rw [holds_memReports_iff]
  constructor
  · rintro ⟨hwaiters', hwaiting'⟩
    constructor
    · intro other hother
      by_contra hne
      have hleft : id ∈ memWaiters (removeInvocation s id) other := by
        rw [hafter, if_neg hne]
        exact ((hwaiters other).2 id).mpr hother
      exact (((hwaiters' other).2 id).mp hleft).2.1 rfl
    · intro waiter hne hwaits
      have htreated : ((removeInvocation s id).waitingFor.lookup waiter).isSome = true := by
        rw [hfor, AList.lookup_erase_ne hne, hwaiting]
        exact ⟨id, hwaits⟩
      obtain ⟨other, hother, -, hotherne⟩ := (hwaiting' waiter).mp htreated
      exact ⟨other, hotherne, hother⟩
  · rintro ⟨halone, hremaining⟩
    refine ⟨fun x => ?_, fun y => ?_⟩
    · rw [hafter]
      by_cases hx : x = id
      · subst hx
        simp
      · rw [if_neg hx]
        refine ⟨(hwaiters x).1, fun y => ?_⟩
        rw [(hwaiters x).2]
        refine ⟨fun hpair => ⟨hpair, ?_, hx⟩, fun hpair => hpair.1⟩
        rintro rfl
        exact hx (halone x hpair)
    · rw [hfor]
      by_cases hy : y = id
      · subst hy
        rw [AList.lookup_erase]
        refine ⟨fun hsome => Bool.noConfusion hsome, ?_⟩
        rintro ⟨other, -, hne, -⟩
        exact absurd rfl hne
      · rw [AList.lookup_erase_ne hy, hwaiting]
        constructor
        · rintro ⟨other, hother⟩
          by_cases heq : other = id
          · obtain ⟨other', hne, hother'⟩ := hremaining y hy (heq ▸ hother)
            exact ⟨other', hother', hy, hne⟩
          · exact ⟨other, hother, hy, heq⟩
        · rintro ⟨other, hother, -⟩
          exact ⟨other, hother⟩

/-- **One call** keeps the maps a copy of the relation exactly when it is harmless. -/
theorem Holds.inMemory_iff (h : Holds (memReports s) w) (call : WaitCall) :
    Holds (memReports (call.inMemory s)) (call.on w) ↔ call.Harmless w := by
  cases call with
  | setWaitingFor waiter waitedOn => exact ⟨fun _ => trivial, fun _ => h.setWaitingFor _ _⟩
  | releaseWaiters completed => exact h.releaseWaiters_iff completed
  | removeInvocation id => exact h.removeInvocation_iff id

end Maps

/-! ## Both backends -/

theorem memAfter_snoc (call : WaitCall) :
    memAfter (calls ++ [call]) = call.inMemory (memAfter calls) := by
  simp [memAfter, List.foldl_append]

theorem waitsAfter_snoc (call : WaitCall) :
    waitsAfter (calls ++ [call]) = call.on (waitsAfter calls) := by
  simp [waitsAfter, List.foldl_append]

/-- **The waiting graph.**  SQLite reports the relation after every sequence of calls.  The
in-memory orchestrator reports it after every part of a sequence if and only if every call of
the sequence is harmless: it forgets all waits of a waiter when one of them is released, and a
removal leaves behind who waited and whom it waited for. -/
theorem waiting_refined_iff (calls : List WaitCall) :
    Holds (sqliteReports (sqliteAfter calls)) (waitsAfter calls) ∧
    ((∀ done, done <+: calls → Holds (memReports (memAfter done)) (waitsAfter done)) ↔
      ∀ done call, done ++ [call] <+: calls → call.Harmless (waitsAfter done)) := by
  refine ⟨holds_sqlite calls, ?_⟩
  constructor
  · intro hheld done call hprefix
    have hbefore := hheld done ((List.prefix_append done [call]).trans hprefix)
    have hafter := hheld (done ++ [call]) hprefix
    rw [memAfter_snoc, waitsAfter_snoc] at hafter
    exact (hbefore.inMemory_iff call).mp hafter
  · intro hharmless done
    induction done using List.reverseRecOn with
    | nil =>
        intro _
        refine holds_memReports_iff.mpr ⟨fun waitedOn => ?_, fun id => ?_⟩
        · simp [memAfter, waitsAfter, memWaiters]
        · simp [memAfter, waitsAfter]
    | append_singleton done call ih =>
        intro hprefix
        have hbefore := ih ((List.prefix_append done [call]).trans hprefix)
        rw [memAfter_snoc, waitsAfter_snoc]
        exact (hbefore.inMemory_iff call).mpr (hharmless done call hprefix)

/-- A parent waits for two children, and the first of them ends. -/
def firstChildEnds : List WaitCall :=
  [.setWaitingFor ⟨"parent"⟩ ⟨"first"⟩, .setWaitingFor ⟨"parent"⟩ ⟨"second"⟩,
    .releaseWaiters ⟨"first"⟩]

/-- The parent still waits for the second one; in memory it is not treated as waiting. -/
theorem parent_forgotten :
    ¬ Holds (memReports (memAfter firstChildEnds)) (waitsAfter firstChildEnds) := by
  intro hholds
  have hwaits : (⟨"parent"⟩, ⟨"second"⟩) ∈ waitsAfter firstChildEnds := by
    simp [waitsAfter, firstChildEnds, WaitCall.on]
  have htreated := (hholds.waiting ⟨"parent"⟩).mpr ⟨_, hwaits⟩
  revert htreated
  decide

end Rustvello.Backends
