import Rustvello.Backends.Thresholds
import Mathlib.Algebra.BigOperators.Group.Finset.Basic
import Mathlib.Algebra.Order.BigOperators.Group.Finset
import Mathlib.Data.List.Sort

/-!
# The occupancy histogram

`build_histogram` cuts a window into buckets and counts, for each bucket and category of statuses,
the invocations that were in such a status.

* `bucketSizeForWindow` — the default size; `Grid` — the buckets of a window;
* `Grid.bucketsOf` — the buckets that one status is drawn in;
* `BucketSets.record`, `buildHistogram` — the sets of a bucket, and the whole;
* `Drawn` — where a status belongs: one that is shorter than a bucket is drawn as a point;
* `histogram_exact` — the buckets tile the window and count what is drawn in them;
* `shortStatus_not_counted` — a short status is counted once, also across a boundary.

`none` is a panic: a bucket size without a whole millisecond, or a bucket past the calendar.
-/

namespace Rustvello.Monitoring

open Proto Rustvello.Core Mem
open Backends.Thresholds (UtcInstant maxInstant)

/-! ## Durations -/

/-- `num_milliseconds`, of a duration in nanoseconds. -/
def numMilliseconds (duration : Int) : Int :=
  duration.tdiv 1000000

/-- `Duration::milliseconds` -/
def milliseconds (ms : Int) : Int :=
  ms * 1000000

def maxBuckets : Int := 240

def targetBuckets : Int := 220

def bucketSizeForWindow (duration : Int) : Int :=
  let ms := max (numMilliseconds duration) 1
  let seconds := (ms + 999) / 1000
  let candidate : Int :=
    if ms ≤ 5000 then 250
    else if ms ≤ 30000 then 500
    else if ms ≤ 60000 then 1000
    else if seconds ≤ 15 * 60 then 5000
    else if seconds ≤ 60 * 60 then 15000
    else if seconds ≤ 3 * 60 * 60 then 60000
    else if seconds ≤ 12 * 60 * 60 then 5 * 60000
    else if seconds ≤ 3 * 24 * 60 * 60 then 30 * 60000
    else 60 * 60000
  let minimumForBucketCap := (ms + maxBuckets - 1) / maxBuckets
  let maximumForDetail := max (ms / targetBuckets) 1
  milliseconds (max (min candidate maximumForDetail) minimumForBucketCap)

/-! ## Categories and entries -/

inductive HistogramCategory where
  | registered
  | pending
  | running
deriving DecidableEq

def categoryForStatus : InvocationStatus → Option HistogramCategory
  | .registered | .rerouted | .concurrencyControlled => some .registered
  | .pending | .pendingRecovery | .retry => some .pending
  | .running | .runningRecovery => some .running
  | _ => none

structure HistogramEntry where
  invocationId : String
  taskId : String
  runnerId : Option String := none
  runnerLanguage : Option String := none
  status : InvocationStatus
  timestamp : Timestamp

/-- What stands before the first `::`. -/
def beforeColons : List Char → Option (List Char)
  | [] => none
  | ':' :: ':' :: _ => some []
  | c :: rest => (beforeColons rest).map (c :: ·)

def languageFromTaskId (taskId : String) : String :=
  ((beforeColons taskId.toList).map String.ofList).getD "unknown"

/-! ## Buckets of a window -/

/-- `as i32`, of an index. -/
def asI32 (index : Nat) : Int :=
  ((index : Int) + 2147483648) % 4294967296 - 2147483648

/-- A window and the size of its buckets, in nanoseconds. -/
structure Grid where
  start : Int
  stop : Int
  bucketSize : Int

namespace Grid

variable (g : Grid)

def sizeMs : Int :=
  numMilliseconds g.bucketSize

/-- A range below a millisecond still has one bucket. -/
def bucketCount : Nat :=
  (max ((numMilliseconds (g.stop - g.start) + g.sizeMs - 1) / g.sizeMs) 1).toNat

def bucketStart (index : Nat) : Int :=
  g.start + g.bucketSize * asI32 index

def bucketEnd (index : Nat) : Int :=
  min (g.bucketStart index + g.bucketSize) g.stop

/-- The instants of all buckets exist. -/
def fits : Bool :=
  (List.range g.bucketCount).all fun index =>
    decide (Sqlite.minInstant ≤ g.bucketStart index ∧
      g.bucketStart index + g.bucketSize ≤ maxInstant)

/-- The buckets in which a status is drawn that lasts from `timestamp` to `next`. -/
def bucketsOf (timestamp next : Int) : List Nat :=
  let intervalStart := max timestamp g.start
  let intervalEnd := min next g.stop
  let isPointStatus :=
    decide (intervalEnd ≤ intervalStart) || decide (intervalEnd - intervalStart < g.bucketSize)
  if isPointStatus && !(decide (g.start ≤ intervalStart) && decide (intervalStart < g.stop)) then []
  else
    let occupiedStart := intervalStart
    let occupiedEnd := if isPointStatus then intervalStart + 1000 else intervalEnd
    let first := max (numMilliseconds (occupiedStart - g.start) / g.sizeMs) 0
    let intervalEndMs := numMilliseconds (occupiedEnd - g.start)
    let last :=
      if isPointStatus then min first (g.bucketCount - 1)
      else min ((intervalEndMs + g.sizeMs - 1) / g.sizeMs - 1) (g.bucketCount - 1)
    (List.range' first.toNat (last + 1 - first).toNat).filter fun index =>
      if isPointStatus then
        decide (g.bucketStart index ≤ intervalStart) && decide (intervalStart < g.bucketEnd index)
      else
        decide (intervalStart < g.bucketEnd index) && decide (g.bucketStart index < intervalEnd)

end Grid

/-- A status that is drawn in a bucket. -/
structure Mark where
  bucket : Nat
  category : HistogramCategory
  invocationId : String
  taskId : String
  runtime : String
  runnerId : Option String

/-- The entries of an invocation, the oldest first. -/
def historyOf (entries : List HistogramEntry) (id : String) : List HistogramEntry :=
  (entries.filter fun entry => entry.invocationId = id).insertionSort
    fun left right => left.timestamp ≤ right.timestamp

/-- Each entry with the instant at which its status ends. -/
def withNext (stop : Timestamp) : List HistogramEntry → List (HistogramEntry × Timestamp)
  | [] => []
  | entry :: rest => (entry, (rest.head?.map HistogramEntry.timestamp).getD stop) :: withNext stop rest

def taskOf (history : List HistogramEntry) : String :=
  ((history.find? fun entry => !entry.taskId.isEmpty).map HistogramEntry.taskId).getD "unknown"

/-- The marks of one status. -/
def entryMarks (g : Grid) (selected : Finset HistogramCategory) (id taskId : String)
    (entry : HistogramEntry) (next : Timestamp) : List Mark :=
  match categoryForStatus entry.status with
  | none => []
  | some category =>
      if category ∉ selected ∨ entry.status.isTerminal = true then []
      else
        let runtime :=
          if category = .running then entry.runnerLanguage.getD (languageFromTaskId taskId)
          else languageFromTaskId taskId
        (g.bucketsOf entry.timestamp next).map fun bucket =>
          ⟨bucket, category, id, taskId, runtime, if category = .running then entry.runnerId else none⟩

/-- The marks of all invocations, which are visited in some order. -/
def allMarks (g : Grid) (selected : Finset HistogramCategory) (order : List String)
    (entries : List HistogramEntry) : List Mark :=
  (arrange order (entries.map HistogramEntry.invocationId).dedup).flatMap fun id =>
    let history := historyOf entries id
    (withNext g.stop history).flatMap fun status =>
      entryMarks g selected id (taskOf history) status.1 status.2

/-! ## The sets of a bucket -/

/-- Put an element into the set of a key. -/
def insertUnder (table : Table String (Finset String)) (key element : String) :
    Table String (Finset String) :=
  table.insert key (insert element ((table.lookup key).getD ∅))

structure BucketSets where
  categoryIds : HistogramCategory → Finset String := fun _ => ∅
  taskIds : Table String (Finset String) := ∅
  runtimeIds : Table String (Finset String) := ∅
  runtimeTaskIds : Table String (Table String (Finset String)) := ∅
  runtimeRunnerIds : Table String (Finset String) := ∅

def BucketSets.record (sets : BucketSets) (m : Mark) : BucketSets where
  categoryIds := Function.update sets.categoryIds m.category
    (insert m.invocationId (sets.categoryIds m.category))
  taskIds := insertUnder sets.taskIds m.taskId m.invocationId
  runtimeIds := insertUnder sets.runtimeIds m.runtime m.invocationId
  runtimeTaskIds := sets.runtimeTaskIds.insert m.runtime
    (insertUnder ((sets.runtimeTaskIds.lookup m.runtime).getD ∅) m.taskId m.invocationId)
  runtimeRunnerIds :=
    match m.runnerId with
    | none => sets.runtimeRunnerIds
    | some runnerId => insertUnder sets.runtimeRunnerIds m.runtime runnerId

/-- The sets of a bucket; a mark touches those of its own bucket. -/
def setsOf (marks : List Mark) (index : Nat) : BucketSets :=
  (marks.filter fun m => m.bucket = index).foldl BucketSets.record {}

structure HistogramBucket where
  start : Timestamp
  stop : Timestamp
  counts : HistogramCategory → Nat
  countsByTask : List (String × Nat)
  countsByRuntime : List (String × Nat)
  countsByRuntimeTask : List (String × List (String × Nat))
  invocationIdsByRuntime : List (String × Finset String)
  runnerIdsByRuntime : List (String × Finset String)
  invocationIdsByCategory : HistogramCategory → Finset String
  invocationIds : Finset String

def HistogramBucket.totalCount (b : HistogramBucket) : Nat :=
  b.invocationIds.card

structure HistogramData where
  start : Timestamp
  stop : Timestamp
  bucketSize : Int
  buckets : List HistogramBucket
  selected : Finset HistogramCategory
  maxCount : Nat
  emptyReason : Option String

def countsOf (table : Table String (Finset String)) : List (String × Nat) :=
  table.entries.map fun entry => (entry.1, entry.2.card)

def bucketOf (g : Grid) (sets : BucketSets) (index : Nat) : HistogramBucket where
  start := g.bucketStart index
  stop := g.bucketEnd index
  counts category := (sets.categoryIds category).card
  countsByTask := countsOf sets.taskIds
  countsByRuntime := countsOf sets.runtimeIds
  countsByRuntimeTask := sets.runtimeTaskIds.entries.map fun entry => (entry.1, countsOf entry.2)
  invocationIdsByRuntime := sets.runtimeIds.entries.map fun entry => (entry.1, entry.2)
  runnerIdsByRuntime := sets.runtimeRunnerIds.entries.map fun entry => (entry.1, entry.2)
  invocationIdsByCategory := sets.categoryIds
  invocationIds := sets.categoryIds .registered ∪ sets.categoryIds .pending ∪
    sets.categoryIds .running

/-- The grid that `build_histogram` uses. -/
def gridOf (start stop : Timestamp) (explicitBucketSize : Option Int) : Grid :=
  ⟨start, stop, explicitBucketSize.getD (bucketSizeForWindow (stop - start))⟩

def drawHistogram (g : Grid) (order : List String) (entries : List HistogramEntry)
    (selected : Finset HistogramCategory) : HistogramData :=
  let marks := allMarks g selected order entries
  let buckets := (List.range g.bucketCount).map fun index => bucketOf g (setsOf marks index) index
  let maxCount := (buckets.map HistogramBucket.totalCount).foldr max 0
  ⟨g.start, g.stop, g.bucketSize, buckets, selected, maxCount,
    if maxCount = 0 then some "No selected statuses occupied this time range." else none⟩

/-- `build_histogram`; the order is that in which a hash map gives its invocations. -/
def buildHistogram (order : List String) (entries : List HistogramEntry) (start stop : Timestamp)
    (selected : Finset HistogramCategory) (explicitBucketSize : Option Int) :
    Option HistogramData :=
  let defaultSize := bucketSizeForWindow (stop - start)
  let empty (reason : String) : HistogramData :=
    ⟨start, stop, defaultSize, [], selected, 0, some reason⟩
  if stop ≤ start then some (empty "Invalid time range.")
  else if selected = ∅ then some (empty "Select at least one status.")
  else if entries.isEmpty then some (empty "No invocation history in this time range.")
  else
    let g := gridOf start stop explicitBucketSize
    if g.sizeMs ≤ 0 then none
    -- the last loop asks for the bounds of every bucket, so that one panic is enough
    else if g.fits = false then none
    else some (drawHistogram g order entries selected)

/-! ## Where a status is drawn -/

theorem numMilliseconds_of_nonneg {duration : Int} (h : 0 ≤ duration) :
    numMilliseconds duration = duration / 1000000 :=
  Int.tdiv_eq_ediv_of_nonneg h

theorem numMilliseconds_milliseconds (ms : Int) : numMilliseconds (milliseconds ms) = ms :=
  Int.mul_tdiv_cancel ms (by decide)

theorem asI32_of_lt {index : Nat} (h : index < 2147483648) : asI32 index = index := by
  unfold asI32
  omega

/-- A grid whose buckets last whole milliseconds, and whose indices fit. -/
structure Grid.Whole (g : Grid) : Prop where
  nonempty : g.start < g.stop
  positive : 0 < g.sizeMs
  whole : g.bucketSize = milliseconds g.sizeMs
  few : g.bucketCount ≤ 2147483648

theorem Grid.one_le_count (g : Grid) : 1 ≤ g.bucketCount := by
  have hmax : (1 : Int) ≤ max ((numMilliseconds (g.stop - g.start) + g.sizeMs - 1) / g.sizeMs) 1 :=
    le_max_right _ _
  unfold Grid.bucketCount
  omega

namespace Grid.Whole

variable {g : Grid} (h : g.Whole)

include h

theorem size_pos : 0 < g.bucketSize := by
  rw [h.whole]
  exact Int.mul_pos h.positive (by decide)

theorem bucketStart_eq {index : Nat} (hindex : index < g.bucketCount) :
    g.bucketStart index = g.start + milliseconds (index * g.sizeMs) := by
  unfold Grid.bucketStart
  rw [asI32_of_lt (hindex.trans_le h.few), h.whole]
  unfold milliseconds
  ring

theorem bucketEnd_eq {index : Nat} (hindex : index < g.bucketCount) :
    g.bucketEnd index = min (g.start + milliseconds ((index + 1 : ℕ) * g.sizeMs)) g.stop := by
  unfold Grid.bucketEnd
  rw [h.bucketStart_eq hindex, h.whole]
  unfold milliseconds
  push_cast
  ring_nf

theorem wholeMs : numMilliseconds (g.stop - g.start) = (g.stop - g.start) / 1000000 :=
  numMilliseconds_of_nonneg (sub_nonneg.mpr h.nonempty.le)

/-- The buckets reach as far as the whole milliseconds of the window. -/
theorem le_count_mul : (g.stop - g.start) / 1000000 ≤ g.bucketCount * g.sizeMs := by
  have hcount : ((numMilliseconds (g.stop - g.start) + g.sizeMs - 1) / g.sizeMs : Int) ≤
      (g.bucketCount : Int) := by
    unfold Grid.bucketCount
    omega
  have hbelow := Int.lt_ediv_add_one_mul_self
    (numMilliseconds (g.stop - g.start) + g.sizeMs - 1) h.positive
  rw [h.wholeMs] at hcount hbelow
  have hmul := Int.mul_le_mul_of_nonneg_right hcount h.positive.le
  rw [Int.add_mul, Int.one_mul] at hbelow
  omega

/-- Every bucket starts inside the window. -/
theorem start_lt_stop {index : Nat} (hindex : index < g.bucketCount) :
    g.start + milliseconds (index * g.sizeMs) < g.stop := by
  have hnonempty := h.nonempty
  unfold milliseconds
  rcases Nat.eq_zero_or_pos index with rfl | hpos
  · rw [Nat.cast_zero, zero_mul, zero_mul]
    omega
  · have hquotient : (index : Int) + 1 ≤
        (numMilliseconds (g.stop - g.start) + g.sizeMs - 1) / g.sizeMs := by
      unfold Grid.bucketCount at hindex
      omega
    rw [Int.le_ediv_iff_mul_le h.positive, h.wholeMs, add_mul, one_mul] at hquotient
    omega

end Grid.Whole

/-- A status that lasts from one instant to another belongs to a bucket: one that is shorter than a
bucket, to that of its first instant in the window. -/
def Drawn (g : Grid) (timestamp next start stop : Int) : Prop :=
  let first := max timestamp g.start
  let last := min next g.stop
  if last - first < g.bucketSize then start ≤ first ∧ first < stop
  else first < stop ∧ start < last

theorem point_iff (g : Grid) (h : g.Whole) (first last : Int) :
    (decide (last ≤ first) || decide (last - first < g.bucketSize)) =
      decide (last - first < g.bucketSize) := by
  have hpos := h.size_pos
  rw [Bool.eq_iff_iff, Bool.or_eq_true, decide_eq_true_eq, decide_eq_true_eq]
  omega

/-- Bucket of an instant. -/
theorem quotient_eq_iff {g : Grid} (h : g.Whole) {t : Int} (ht : g.start ≤ t) (index : Nat) :
    numMilliseconds (t - g.start) / g.sizeMs = index ↔
      g.start + milliseconds (index * g.sizeMs) ≤ t ∧
        t < g.start + milliseconds ((index + 1 : ℕ) * g.sizeMs) := by
  rw [numMilliseconds_of_nonneg (sub_nonneg.mpr ht), Int.ediv_eq_iff_of_pos h.positive]
  unfold milliseconds
  push_cast
  rw [add_mul, one_mul]
  omega

section Buckets

variable {g : Grid} (h : g.Whole)

include h

theorem bucketEnd_le {index : Nat} (hindex : index < g.bucketCount) :
    g.bucketEnd index ≤ g.start + milliseconds ((index + 1 : ℕ) * g.sizeMs) ∧
      g.bucketEnd index ≤ g.stop := by
  rw [h.bucketEnd_eq hindex]
  exact ⟨min_le_left _ _, min_le_right _ _⟩

/-- A short status is drawn in the bucket of its first instant. -/
theorem mem_bucketsOf_point {timestamp next : Int}
    (hshort : min next g.stop - max timestamp g.start < g.bucketSize) (index : Nat) :
    index ∈ g.bucketsOf timestamp next ↔
      index < g.bucketCount ∧ g.bucketStart index ≤ max timestamp g.start ∧
        max timestamp g.start < g.bucketEnd index := by
  have hpoint : (decide (min next g.stop ≤ max timestamp g.start) ||
      decide (min next g.stop - max timestamp g.start < g.bucketSize)) = true := by
    rw [point_iff g h]
    exact decide_eq_true hshort
  have hfirst : g.start ≤ max timestamp g.start := le_max_right _ _
  have hquotient : 0 ≤ numMilliseconds (max timestamp g.start - g.start) / g.sizeMs := by
    rw [numMilliseconds_of_nonneg (sub_nonneg.mpr hfirst)]
    exact Int.ediv_nonneg (Int.ediv_nonneg (sub_nonneg.mpr hfirst) (by decide)) h.positive.le
  unfold Grid.bucketsOf
  simp only [hpoint, if_true, Bool.true_and]
  generalize max timestamp g.start = t at hfirst hquotient ⊢
  rw [max_eq_left hquotient]
  have hone := g.one_le_count
  -- inside a bucket exactly one index is tried
  have hinside : index < g.bucketCount → g.bucketStart index ≤ t → t < g.bucketEnd index →
      numMilliseconds (t - g.start) / g.sizeMs = index := by
    intro hindex hstart hstop
    rw [h.bucketStart_eq hindex] at hstart
    exact (quotient_eq_iff h hfirst index).mpr
      ⟨hstart, hstop.trans_le (bucketEnd_le h hindex).1⟩
  split
  · rename_i hout
    refine iff_of_false List.not_mem_nil ?_
    rintro ⟨hindex, -, hstop⟩
    have hlt := hstop.trans_le (bucketEnd_le h hindex).2
    simp only [Bool.not_eq_true', Bool.and_eq_false_iff, decide_eq_false_iff_not] at hout
    exact hout.elim (fun hbefore => hbefore hfirst) fun hafter => hafter hlt
  · rw [List.mem_filter, List.mem_range'_1, Bool.and_eq_true, decide_eq_true_eq, decide_eq_true_eq]
    constructor
    · rintro ⟨⟨hge, hlt⟩, hstart, hstop⟩
      exact ⟨by omega, hstart, hstop⟩
    · rintro ⟨hindex, hstart, hstop⟩
      have heq := hinside hindex hstart hstop
      exact ⟨⟨by omega, by omega⟩, hstart, hstop⟩

/-- A longer status is drawn in every bucket it overlaps that begins before the last whole
millisecond of the status ends. -/
theorem mem_bucketsOf_span {timestamp next : Int}
    (hlong : ¬ min next g.stop - max timestamp g.start < g.bucketSize) (index : Nat) :
    index ∈ g.bucketsOf timestamp next ↔
      index < g.bucketCount ∧ max timestamp g.start < g.bucketEnd index ∧
        g.bucketStart index < min next g.stop ∧
          index * g.sizeMs < (min next g.stop - g.start) / 1000000 := by
  have hpoint : (decide (min next g.stop ≤ max timestamp g.start) ||
      decide (min next g.stop - max timestamp g.start < g.bucketSize)) = false := by
    rw [point_iff g h]
    exact decide_eq_false hlong
  have hfirst : g.start ≤ max timestamp g.start := le_max_right _ _
  have hsize := h.size_pos
  unfold Grid.bucketsOf
  simp only [hpoint, Bool.false_and, Bool.false_eq_true, if_false]
  generalize max timestamp g.start = t at hfirst hlong ⊢
  generalize min next g.stop = u at hlong ⊢
  have hmillis : numMilliseconds (u - g.start) = (u - g.start) / 1000000 :=
    numMilliseconds_of_nonneg (by omega)
  have hquotient : 0 ≤ numMilliseconds (t - g.start) / g.sizeMs := by
    rw [numMilliseconds_of_nonneg (sub_nonneg.mpr hfirst)]
    exact Int.ediv_nonneg (Int.ediv_nonneg (sub_nonneg.mpr hfirst) (by decide)) h.positive.le
  have hlast : ((index : Int) + 1 ≤ (numMilliseconds (u - g.start) + g.sizeMs - 1) / g.sizeMs) ↔
      index * g.sizeMs < (u - g.start) / 1000000 := by
    rw [Int.le_ediv_iff_mul_le h.positive, hmillis, add_mul, one_mul]
    omega
  have hreached : index < g.bucketCount → t < g.bucketEnd index →
      numMilliseconds (t - g.start) / g.sizeMs < index + 1 := by
    intro hindex hstop
    have hbound := hstop.trans_le (bucketEnd_le h hindex).1
    rw [numMilliseconds_of_nonneg (sub_nonneg.mpr hfirst), Int.ediv_lt_iff_lt_mul h.positive]
    unfold milliseconds at hbound
    push_cast at hbound
    omega
  rw [max_eq_left hquotient, List.mem_filter, List.mem_range'_1, Bool.and_eq_true,
    decide_eq_true_eq, decide_eq_true_eq, ← hlast]
  have hone := g.one_le_count
  constructor
  · rintro ⟨⟨hge, hlt⟩, hstop, hstart⟩
    exact ⟨by omega, hstop, hstart, by omega⟩
  · rintro ⟨hindex, hstop, hstart, hle⟩
    have hreach := hreached hindex hstop
    exact ⟨⟨by omega, by omega⟩, hstop, hstart⟩

end Buckets

/-! ## What the sets hold -/

section Sets

variable {sets : BucketSets} {marks : List Mark} {category : HistogramCategory} {id task : String}
  {table : Table String (Finset String)}

theorem mem_insertUnder {key element : String} :
    id ∈ ((insertUnder table key element).lookup task).getD ∅ ↔
      id ∈ (table.lookup task).getD ∅ ∨ task = key ∧ id = element := by
  unfold insertUnder
  by_cases htask : task = key
  · subst htask
    rw [AList.lookup_insert, Option.getD_some, Finset.mem_insert, or_comm]
    exact or_congr_right (and_iff_right rfl).symm
  · rw [AList.lookup_insert_ne htask]
    exact ⟨.inl, fun h => h.resolve_right fun h => htask h.1⟩

theorem mem_categoryIds_foldl :
    id ∈ (marks.foldl BucketSets.record sets).categoryIds category ↔
      id ∈ sets.categoryIds category ∨
        ∃ m ∈ marks, m.category = category ∧ m.invocationId = id := by
  induction marks generalizing sets with
  | nil => simp
  | cons m rest ih =>
      have hrecord : id ∈ (sets.record m).categoryIds category ↔
          id ∈ sets.categoryIds category ∨ m.category = category ∧ m.invocationId = id := by
        unfold BucketSets.record
        dsimp only
        by_cases hcategory : category = m.category
        · subst hcategory
          rw [Function.update_self, Finset.mem_insert, or_comm, eq_comm (a := id),
            and_iff_right rfl]
        · rw [Function.update_of_ne hcategory]
          exact ⟨.inl, fun h => h.resolve_right fun h => hcategory h.1.symm⟩
      rw [List.foldl_cons, ih, hrecord, List.exists_mem_cons_iff, or_assoc]

theorem mem_taskIds_foldl :
    id ∈ ((marks.foldl BucketSets.record sets).taskIds.lookup task).getD ∅ ↔
      id ∈ (sets.taskIds.lookup task).getD ∅ ∨
        ∃ m ∈ marks, m.taskId = task ∧ m.invocationId = id := by
  induction marks generalizing sets with
  | nil => simp
  | cons m rest ih =>
      have hrecord : id ∈ ((sets.record m).taskIds.lookup task).getD ∅ ↔
          id ∈ (sets.taskIds.lookup task).getD ∅ ∨ m.taskId = task ∧ m.invocationId = id := by
        rw [eq_comm (a := m.taskId), eq_comm (a := m.invocationId)]
        exact mem_insertUnder
      rw [List.foldl_cons, ih, hrecord, List.exists_mem_cons_iff, or_assoc]

theorem mem_categoryIds {index : Nat} :
    id ∈ (setsOf marks index).categoryIds category ↔
      ∃ m ∈ marks, m.bucket = index ∧ m.category = category ∧ m.invocationId = id := by
  unfold setsOf
  rw [mem_categoryIds_foldl]
  simp only [List.mem_filter, decide_eq_true_eq, and_assoc]
  exact or_iff_right (Finset.notMem_empty id)

theorem mem_taskIds {index : Nat} :
    id ∈ ((setsOf marks index).taskIds.lookup task).getD ∅ ↔
      ∃ m ∈ marks, m.bucket = index ∧ m.taskId = task ∧ m.invocationId = id := by
  unfold setsOf
  rw [mem_taskIds_foldl]
  simp only [List.mem_filter, decide_eq_true_eq, and_assoc]
  exact or_iff_right (Finset.notMem_empty id)

/-- An invocation is in the bucket if it has a mark there. -/
theorem mem_invocationIds {g : Grid} {index : Nat} :
    id ∈ (bucketOf g (setsOf marks index) index).invocationIds ↔
      ∃ m ∈ marks, m.bucket = index ∧ m.invocationId = id := by
  show id ∈ _ ∪ _ ∪ _ ↔ _
  rw [Finset.mem_union, Finset.mem_union, mem_categoryIds, mem_categoryIds, mem_categoryIds]
  constructor
  · rintro ((⟨m, hm, hindex, -, hid⟩ | ⟨m, hm, hindex, -, hid⟩) | ⟨m, hm, hindex, -, hid⟩) <;>
      exact ⟨m, hm, hindex, hid⟩
  · rintro ⟨m, hm, hindex, hid⟩
    cases hcategory : m.category with
    | registered => exact .inl (.inl ⟨m, hm, hindex, hcategory, hid⟩)
    | pending => exact .inl (.inr ⟨m, hm, hindex, hcategory, hid⟩)
    | running => exact .inr ⟨m, hm, hindex, hcategory, hid⟩

/-- The counts of a table that splits a set by a function add up to its size. -/
theorem sum_countsOf {ids : Finset String} (taskOf : String → String)
    (hmem : ∀ task id, id ∈ (table.lookup task).getD ∅ ↔ id ∈ ids ∧ taskOf id = task) :
    ((countsOf table).map Prod.snd).sum = ids.card := by
  have hentries : (countsOf table).map Prod.snd =
      table.keys.map fun task => ((table.lookup task).getD ∅).card := by
    show (table.entries.map _).map _ = (table.entries.map Sigma.fst).map _
    rw [List.map_map, List.map_map]
    refine List.map_congr_left fun entry hentry => ?_
    have hlookup : table.lookup entry.1 = some entry.2 := AList.mem_lookup_iff.mpr hentry
    show entry.2.card = ((table.lookup entry.1).getD ∅).card
    rw [hlookup]
    rfl
  have hfiber : ∀ task, (table.lookup task).getD ∅ = ids.filter fun id => taskOf id = task := by
    intro task
    ext id
    rw [hmem, Finset.mem_filter]
  have hkeys : ∀ id ∈ ids, taskOf id ∈ table.keys.toFinset := by
    intro id hid
    have hheld := (hmem (taskOf id) id).mpr ⟨hid, rfl⟩
    rw [List.mem_toFinset, ← AList.mem_keys, ← AList.lookup_isSome]
    cases hlookup : table.lookup (taskOf id) with
    | none =>
        rw [hlookup] at hheld
        exact absurd hheld (Finset.notMem_empty id)
    | some _ => rfl
  rw [hentries, ← List.sum_toFinset _ table.keys_nodup, Finset.card_eq_sum_card_fiberwise hkeys]
  exact Finset.sum_congr rfl fun task _ => by rw [hfiber]

end Sets

section Marks

variable {g : Grid} {selected : Finset HistogramCategory} {order : List String}
  {entries : List HistogramEntry} {category : HistogramCategory}

theorem not_isTerminal_of_category {status : InvocationStatus}
    (h : categoryForStatus status = some category) : status.isTerminal = false := by
  cases status <;> first | rfl | cases h

theorem mem_entryMarks {id taskId : String} {entry : HistogramEntry} {next : Timestamp} {m : Mark} :
    m ∈ entryMarks g selected id taskId entry next →
      m.invocationId = id ∧ m.taskId = taskId ∧ categoryForStatus entry.status = some m.category ∧
        m.category ∈ selected ∧ m.bucket ∈ g.bucketsOf entry.timestamp next := by
  intro hm
  unfold entryMarks at hm
  split at hm
  · cases hm
  · rename_i category hcategory
    split at hm
    · cases hm
    · rename_i hshown
      obtain ⟨bucket, hbucket, rfl⟩ := List.mem_map.mp hm
      exact ⟨rfl, rfl, hcategory, not_not.mp fun hout => hshown (.inl hout), hbucket⟩

theorem exists_entryMark (id taskId : String) {entry : HistogramEntry} {next : Timestamp}
    (hcategory : categoryForStatus entry.status = some category) (hselected : category ∈ selected)
    {index : Nat} (hindex : index ∈ g.bucketsOf entry.timestamp next) :
    ∃ m ∈ entryMarks g selected id taskId entry next,
      m.bucket = index ∧ m.category = category ∧ m.invocationId = id := by
  have hshown : ¬ (category ∉ selected ∨ entry.status.isTerminal = true) := by
    rw [not_isTerminal_of_category hcategory]
    simpa using hselected
  unfold entryMarks
  simp only [hcategory, if_neg hshown]
  exact ⟨_, List.mem_map_of_mem hindex, rfl, rfl, rfl⟩

/-- **What is counted**: the statuses of the invocation that are drawn in the bucket. -/
theorem counted_iff {index : Nat} {id : String} :
    id ∈ (setsOf (allMarks g selected order entries) index).categoryIds category ↔
      ∃ status ∈ withNext g.stop (historyOf entries id),
        categoryForStatus status.1.status = some category ∧ category ∈ selected ∧
          index ∈ g.bucketsOf status.1.timestamp status.2 := by
  rw [mem_categoryIds]
  constructor
  · rintro ⟨m, hm, hbucket, hcategory, hid⟩
    obtain ⟨other, -, hm⟩ := List.mem_flatMap.mp hm
    obtain ⟨status, hstatus, hm⟩ := List.mem_flatMap.mp hm
    obtain ⟨hother, -, hof, hselected, hindex⟩ := mem_entryMarks hm
    obtain rfl : other = id := hother.symm.trans hid
    exact ⟨status, hstatus, hcategory ▸ hof, hcategory ▸ hselected, hbucket ▸ hindex⟩
  · rintro ⟨status, hstatus, hcategory, hselected, hindex⟩
    obtain ⟨m, hm, hmark⟩ := exists_entryMark id (taskOf (historyOf entries id))
      hcategory hselected hindex
    have hlisted : id ∈ arrange order (entries.map HistogramEntry.invocationId).dedup := by
      rw [mem_arrange, List.mem_dedup]
      by_contra hout
      have hempty : entries.filter (fun entry => entry.invocationId = id) = [] := by
        refine List.filter_eq_nil_iff.mpr fun entry hentry hid => hout ?_
        exact List.mem_map.mpr ⟨entry, hentry, of_decide_eq_true hid⟩
      unfold historyOf at hstatus
      rw [hempty] at hstatus
      cases hstatus
    exact ⟨m, List.mem_flatMap.mpr ⟨id, hlisted, List.mem_flatMap.mpr ⟨status, hstatus, hm⟩⟩, hmark⟩

theorem task_of_mark {m : Mark} (hm : m ∈ allMarks g selected order entries) :
    m.taskId = taskOf (historyOf entries m.invocationId) := by
  obtain ⟨id, -, hm⟩ := List.mem_flatMap.mp hm
  obtain ⟨status, -, hm⟩ := List.mem_flatMap.mp hm
  obtain ⟨rfl, htask, -⟩ := mem_entryMarks hm
  exact htask

/-- The counts of the tasks add up. -/
theorem sum_countsByTask (index : Nat) :
    let b := bucketOf g (setsOf (allMarks g selected order entries) index) index
    (b.countsByTask.map Prod.snd).sum = b.totalCount := by
  refine sum_countsOf (fun id => taskOf (historyOf entries id)) fun task id => ?_
  rw [mem_taskIds, mem_invocationIds]
  constructor
  · rintro ⟨m, hm, hindex, rfl, rfl⟩
    exact ⟨⟨m, hm, hindex, rfl⟩, (task_of_mark hm).symm⟩
  · rintro ⟨⟨m, hm, hindex, rfl⟩, rfl⟩
    exact ⟨m, hm, hindex, task_of_mark hm, rfl⟩

end Marks

/-! ## The default size -/

/-- The default size is a positive number of milliseconds, of which at most 240 are needed. -/
theorem bucketSizeForWindow_spec (duration : Int) (h : 0 < duration) :
    ∃ ms, 0 < ms ∧ bucketSizeForWindow duration = milliseconds ms ∧ duration / 1000000 ≤ 240 * ms := by
  unfold bucketSizeForWindow
  rw [numMilliseconds_of_nonneg h.le]
  dsimp only
  generalize min _ (max (max (duration / 1000000) 1 / targetBuckets) 1) = preferred
  refine ⟨_, ?_, rfl, ?_⟩
  · unfold maxBuckets
    omega
  · unfold maxBuckets
    omega

theorem gridOf_size {start stop : Int} {explicitBucketSize : Option Int} (h : start < stop)
    (hsize : ∀ size, explicitBucketSize = some size → ∃ ms, 0 < ms ∧ size = milliseconds ms) :
    0 < (gridOf start stop explicitBucketSize).sizeMs ∧
      (gridOf start stop explicitBucketSize).bucketSize =
        milliseconds (gridOf start stop explicitBucketSize).sizeMs := by
  have hms : ∃ ms, 0 < ms ∧ (gridOf start stop explicitBucketSize).bucketSize = milliseconds ms := by
    cases explicitBucketSize with
    | none =>
        obtain ⟨ms, hpos, heq, -⟩ := bucketSizeForWindow_spec (stop - start) (sub_pos.mpr h)
        exact ⟨ms, hpos, heq⟩
    | some size => exact hsize size rfl
  obtain ⟨ms, hpos, heq⟩ := hms
  unfold Grid.sizeMs
  rw [heq, numMilliseconds_milliseconds]
  exact ⟨hpos, rfl⟩

theorem defaultCount_le {start stop : Int} (h : start < stop) :
    (gridOf start stop none).bucketCount ≤ 240 := by
  obtain ⟨ms, hpos, heq, hmany⟩ := bucketSizeForWindow_spec (stop - start) (sub_pos.mpr h)
  have hms : (gridOf start stop none).sizeMs = ms := by
    show numMilliseconds (bucketSizeForWindow (stop - start)) = ms
    rw [heq, numMilliseconds_milliseconds]
  have hquotient : (numMilliseconds (stop - start) + ms - 1) / ms < 241 := by
    rw [Int.ediv_lt_iff_lt_mul hpos, numMilliseconds_of_nonneg (sub_nonneg.mpr h.le)]
    omega
  unfold Grid.bucketCount
  rw [hms]
  show (max ((numMilliseconds (stop - start) + ms - 1) / ms) 1).toNat ≤ 240
  omega

/-! ## The histogram -/

/-- A bucket is half-open. -/
def HistogramBucket.Contains (b : HistogramBucket) (t : Int) : Prop :=
  b.start ≤ t ∧ t < b.stop

/-- The buckets follow each other from the start of the window, and reach its last whole
millisecond. -/
structure Tiles (data : HistogramData) : Prop where
  bounds : ∀ (i : Nat) b, data.buckets[i]? = some b →
    b.start = data.start + i * data.bucketSize ∧
      b.stop = min (data.start + (i + 1 : ℕ) * data.bucketSize) data.stop ∧ b.start < b.stop
  unique : ∀ t : Int, data.start ≤ t → t < data.stop →
    t < data.start + data.buckets.length * data.bucketSize →
      ∃ (i : Nat) (b : HistogramBucket), data.buckets[i]? = some b ∧ b.Contains t ∧
        ∀ (j : Nat) b', data.buckets[j]? = some b' → b'.Contains t → j = i
  reach : (data.stop - data.start) / 1000000 * 1000000 ≤ data.buckets.length * data.bucketSize

/-- A status that began and ended before the window, or ended with its first instant. -/
def EndedBefore (g : Grid) (timestamp next : Int) : Prop :=
  timestamp < g.start ∧ next ≤ g.start

/-- A status that is shorter than a bucket, or does not end within the first millisecond of the
bucket. -/
def Settled (g : Grid) (timestamp next start : Int) : Prop :=
  min next g.stop - max timestamp g.start < g.bucketSize ∨
    start < g.start + milliseconds ((min next g.stop - g.start) / 1000000)

section Whole

variable {g : Grid} (h : g.Whole)

include h

theorem bounds_of_whole {index : Nat} (hindex : index < g.bucketCount) :
    g.bucketStart index = g.start + index * g.bucketSize ∧
      g.bucketEnd index = min (g.start + (index + 1 : ℕ) * g.bucketSize) g.stop ∧
        g.bucketStart index < g.bucketEnd index := by
  have hstart : g.bucketStart index = g.start + index * g.bucketSize := by
    rw [h.bucketStart_eq hindex, h.whole]
    unfold milliseconds
    ring
  have hstop : g.bucketEnd index = min (g.start + (index + 1 : ℕ) * g.bucketSize) g.stop := by
    rw [h.bucketEnd_eq hindex, h.whole]
    unfold milliseconds
    ring_nf
  refine ⟨hstart, hstop, ?_⟩
  have hinside := h.start_lt_stop hindex
  have hpos := h.size_pos
  rw [← h.bucketStart_eq hindex, hstart] at hinside
  rw [hstart, hstop]
  push_cast
  rw [add_mul, one_mul]
  omega

theorem fits_of_whole (hlower : Sqlite.minInstant ≤ g.start)
    (hcalendar : g.start + g.bucketCount * g.bucketSize ≤ maxInstant) : g.fits = true := by
  refine List.all_eq_true.mpr fun index hindex => decide_eq_true ?_
  have hindex := List.mem_range.mp hindex
  obtain ⟨hstart, -, -⟩ := bounds_of_whole h hindex
  have hpos := h.size_pos
  have hmul : ((index + 1 : ℕ) : Int) * g.bucketSize ≤ g.bucketCount * g.bucketSize :=
    Int.mul_le_mul_of_nonneg_right (by exact_mod_cast hindex) hpos.le
  have hnonneg : 0 ≤ (index : Int) * g.bucketSize := Int.mul_nonneg (Int.natCast_nonneg _) hpos.le
  push_cast at hmul
  rw [add_mul, one_mul] at hmul
  rw [hstart]
  constructor
  · exact hlower.trans (le_add_of_nonneg_right hnonneg)
  · refine le_trans ?_ hcalendar
    omega

/-- A status is drawn where it belongs, up to the last millisecond of a long one. -/
theorem drawn_of_mem {timestamp next : Int} {index : Nat}
    (hindex : index ∈ g.bucketsOf timestamp next) :
    Drawn g timestamp next (g.bucketStart index) (g.bucketEnd index) := by
  unfold Drawn
  by_cases hshort : min next g.stop - max timestamp g.start < g.bucketSize
  · rw [if_pos hshort]
    exact ((mem_bucketsOf_point h hshort index).mp hindex).2
  · rw [if_neg hshort]
    obtain ⟨-, hbefore, hafter, -⟩ := (mem_bucketsOf_span h hshort index).mp hindex
    exact ⟨hbefore, hafter⟩

theorem mem_of_drawn {timestamp next : Int} {index : Nat} (hindex : index < g.bucketCount)
    (hdrawn : Drawn g timestamp next (g.bucketStart index) (g.bucketEnd index))
    (hsettled : Settled g timestamp next (g.bucketStart index)) :
    index ∈ g.bucketsOf timestamp next := by
  unfold Drawn at hdrawn
  by_cases hshort : min next g.stop - max timestamp g.start < g.bucketSize
  · rw [if_pos hshort] at hdrawn
    exact (mem_bucketsOf_point h hshort index).mpr ⟨hindex, hdrawn⟩
  · rw [if_neg hshort] at hdrawn
    have hbegins := hsettled.resolve_left hshort
    rw [h.bucketStart_eq hindex] at hbegins
    refine (mem_bucketsOf_span h hshort index).mpr ⟨hindex, hdrawn.1, hdrawn.2, ?_⟩
    unfold milliseconds at hbegins
    omega

end Whole

section Data

variable {g : Grid} {data : HistogramData} {sets : Nat → BucketSets}

theorem getElem?_buckets {n i : Nat} {b : HistogramBucket} {f : Nat → HistogramBucket} :
    ((List.range n).map f)[i]? = some b ↔ i < n ∧ f i = b := by
  rw [List.getElem?_map, Option.map_eq_some_iff]
  constructor
  · rintro ⟨j, hj, hb⟩
    obtain ⟨hlt, rfl⟩ := List.getElem?_eq_some_iff.mp hj
    rw [List.length_range] at hlt
    rw [List.getElem_range] at hb
    exact ⟨hlt, hb⟩
  · rintro ⟨hlt, hb⟩
    exact ⟨i, by rw [List.getElem?_range hlt], hb⟩

theorem tiles_of_whole (h : g.Whole) (hstart : data.start = g.start) (hstop : data.stop = g.stop)
    (hsize : data.bucketSize = g.bucketSize)
    (hbuckets : data.buckets =
      (List.range g.bucketCount).map fun index => bucketOf g (sets index) index) :
    Tiles data := by
  have hlength : data.buckets.length = g.bucketCount := by
    rw [hbuckets, List.length_map, List.length_range]
  have hget : ∀ (i : Nat) b, data.buckets[i]? = some b ↔
      i < g.bucketCount ∧ bucketOf g (sets i) i = b := by
    intro i b
    rw [hbuckets]
    exact getElem?_buckets
  constructor
  · intro i b hb
    obtain ⟨hi, rfl⟩ := (hget i b).mp hb
    rw [hstart, hstop, hsize]
    exact bounds_of_whole h hi
  · intro t hfrom hto hreached
    rw [hstart] at hfrom hreached
    rw [hstop] at hto
    rw [hlength, hsize, h.whole] at hreached
    have hnonneg : 0 ≤ numMilliseconds (t - g.start) / g.sizeMs := by
      rw [numMilliseconds_of_nonneg (sub_nonneg.mpr hfrom)]
      exact Int.ediv_nonneg (Int.ediv_nonneg (sub_nonneg.mpr hfrom) (by decide)) h.positive.le
    obtain ⟨index, hindex⟩ := Int.eq_ofNat_of_zero_le hnonneg
    obtain ⟨hbelow, habove⟩ := (quotient_eq_iff h hfrom index).mp hindex
    have hlt : index < g.bucketCount := by
      have hmul : (index : Int) * g.bucketSize < g.bucketCount * g.bucketSize := by
        rw [h.whole]
        unfold milliseconds at hbelow hreached ⊢
        rw [mul_assoc] at hbelow
        omega
      exact_mod_cast lt_of_mul_lt_mul_right hmul h.size_pos.le
    refine ⟨index, bucketOf g (sets index) index, (hget _ _).mpr ⟨hlt, rfl⟩, ⟨?_, ?_⟩, ?_⟩
    · show g.bucketStart index ≤ t
      rw [h.bucketStart_eq hlt]
      exact hbelow
    · show t < g.bucketEnd index
      rw [h.bucketEnd_eq hlt]
      exact lt_min habove hto
    · intro j b' hb' hcontains
      obtain ⟨hj, rfl⟩ := (hget j b').mp hb'
      have hstarts : g.start + milliseconds (j * g.sizeMs) ≤ t := by
        rw [← h.bucketStart_eq hj]
        exact hcontains.1
      have hquotient := (quotient_eq_iff h hfrom j).mpr
        ⟨hstarts, hcontains.2.trans_le (bucketEnd_le h hj).1⟩
      exact_mod_cast hquotient.symm.trans hindex
  · have hreach := h.le_count_mul
    rw [hstart, hstop, hlength, hsize, h.whole]
    unfold milliseconds
    rw [← mul_assoc]
    exact Int.mul_le_mul_of_nonneg_right hreach (by decide)

end Data

/-- **The histogram is exact.**  Its buckets tile the window, up to the last millisecond begun; an
invocation is counted in a bucket under a selected category exactly when a status of that category
is drawn there; the counts of the tasks add up to the total. -/
theorem histogram_exact (order : List String) (entries : List HistogramEntry) (start stop : UtcInstant)
    (selected : Finset HistogramCategory) (explicitBucketSize : Option Int)
    (hwindow : start.instant < stop.instant) (hselected : selected ≠ ∅) (hentries : entries ≠ [])
    (hsize : ∀ size, explicitBucketSize = some size → ∃ ms, 0 < ms ∧ size = milliseconds ms)
    (hfew : (gridOf start.instant stop.instant explicitBucketSize).bucketCount ≤ 2147483648)
    (hcalendar : start.instant + (gridOf start.instant stop.instant explicitBucketSize).bucketCount *
      (gridOf start.instant stop.instant explicitBucketSize).bucketSize ≤ maxInstant) :
    ∃ data, buildHistogram order entries start.instant stop.instant selected explicitBucketSize =
        some data ∧
      data.start = start.instant ∧ data.stop = stop.instant ∧ Tiles data ∧
      (∀ size, explicitBucketSize = some size → data.bucketSize = size) ∧
      (explicitBucketSize = none → 1 ≤ data.buckets.length ∧ data.buckets.length ≤ 240) ∧
      (∀ b ∈ data.buckets, (b.countsByTask.map Prod.snd).sum = b.totalCount) ∧
      ∀ b ∈ data.buckets, ∀ category id,
        b.counts category = (b.invocationIdsByCategory category).card ∧
        (id ∈ b.invocationIdsByCategory category → category ∈ selected ∧
          ∃ status ∈ withNext stop.instant (historyOf entries id),
            categoryForStatus status.1.status = some category ∧
              (EndedBefore (gridOf start.instant stop.instant explicitBucketSize)
                  status.1.timestamp status.2 ∨
                Drawn (gridOf start.instant stop.instant explicitBucketSize)
                  status.1.timestamp status.2 b.start b.stop)) ∧
        (category ∈ selected → ∀ status ∈ withNext stop.instant (historyOf entries id),
          categoryForStatus status.1.status = some category →
            ¬ EndedBefore (gridOf start.instant stop.instant explicitBucketSize)
              status.1.timestamp status.2 →
            Settled (gridOf start.instant stop.instant explicitBucketSize)
              status.1.timestamp status.2 b.start →
            Drawn (gridOf start.instant stop.instant explicitBucketSize)
              status.1.timestamp status.2 b.start b.stop →
            id ∈ b.invocationIdsByCategory category) := by
  obtain ⟨hpositive, hwhole⟩ := gridOf_size hwindow hsize
  have hdefault := defaultCount_le hwindow
  have hgiven : ∀ size, explicitBucketSize = some size →
      (gridOf start.instant stop.instant explicitBucketSize).bucketSize = size := by
    rintro size rfl
    rfl
  have hnone : explicitBucketSize = none →
      (gridOf start.instant stop.instant explicitBucketSize).bucketCount ≤ 240 := by
    rintro rfl
    exact hdefault
  unfold buildHistogram
  rw [if_neg (not_le.mpr hwindow), if_neg hselected,
    if_neg (show ¬ entries.isEmpty = true from fun h => hentries (List.isEmpty_iff.mp h))]
  dsimp only
  have hgstart : (gridOf start.instant stop.instant explicitBucketSize).start = start.instant := rfl
  have hgstop : (gridOf start.instant stop.instant explicitBucketSize).stop = stop.instant := rfl
  generalize gridOf start.instant stop.instant explicitBucketSize = g at *
  have h : g.Whole := ⟨by rw [hgstart, hgstop]; exact hwindow, hpositive, hwhole, hfew⟩
  have hfits : g.fits = true :=
    fits_of_whole h (by rw [hgstart]; exact start.lower) (by rw [hgstart]; exact hcalendar)
  rw [if_neg (not_le.mpr hpositive), hfits, if_neg Bool.noConfusion]
  refine ⟨_, rfl, hgstart, hgstop, tiles_of_whole h rfl rfl rfl rfl, hgiven, ?_, ?_, ?_⟩
  · intro hnoSize
    show 1 ≤ (List.map _ _).length ∧ (List.map _ _).length ≤ 240
    rw [List.length_map, List.length_range]
    exact ⟨g.one_le_count, hnone hnoSize⟩
  · intro b hb
    obtain ⟨index, -, rfl⟩ := List.mem_map.mp hb
    exact sum_countsByTask index
  · intro b hb category id
    obtain ⟨index, hindex, rfl⟩ := List.mem_map.mp hb
    have hindex := List.mem_range.mp hindex
    refine ⟨rfl, ?_, ?_⟩
    · intro hid
      obtain ⟨status, hstatus, hcategory, hin, hdrawn⟩ := counted_iff.mp hid
      rw [hgstop] at hstatus
      exact ⟨hin, status, hstatus, hcategory, .inr (drawn_of_mem h hdrawn)⟩
    · intro hin status hstatus hcategory _ hsettled hdrawn
      rw [← hgstop] at hstatus
      exact counted_iff.mpr ⟨status, hstatus, hcategory, hin, mem_of_drawn h hindex hdrawn hsettled⟩

/-- Two seconds of running, across the boundary of two buckets. -/
def shortRun : List HistogramEntry :=
  [{ invocationId := "i1", taskId := "t", status := .running, timestamp := 4000000000 },
    { invocationId := "i1", taskId := "t", status := .success, timestamp := 6000000000 }]

/-- The invocation is counted where its status begins. -/
theorem histogram_exact_shortRun : ∃ data b,
    buildHistogram [] shortRun 0 10000000000 {.running} (some 5000000000) = some data ∧
      Tiles data ∧ data.buckets.head? = some b ∧ 0 < b.counts .running := by
  obtain ⟨data, hdata, -, -, htiles, -, -, -, hcounts⟩ := histogram_exact [] shortRun
    ⟨0, by decide, by decide⟩ ⟨10000000000, by decide, by decide⟩ {.running} (some 5000000000)
    (by decide) (by decide) (by decide) (by rintro size ⟨⟩; exact ⟨5000, by decide, by decide⟩)
    (by decide) (by decide)
  have hbuilt : buildHistogram [] shortRun 0 10000000000 {.running} (some 5000000000) = some _ :=
    rfl
  obtain rfl := Option.some.inj (hbuilt.symm.trans hdata)
  obtain ⟨hcard, -, hin⟩ := hcounts _ List.mem_cons_self .running "i1"
  refine ⟨_, _, hdata, htiles, rfl, ?_⟩
  rw [hcard]
  refine Finset.card_pos.mpr ⟨"i1", hin (by decide) (_, 6000000000) List.mem_cons_self rfl ?_ ?_ ?_⟩
  · unfold EndedBefore
    decide
  · unfold Settled
    decide
  · unfold Drawn
    decide

/-- The status overlaps both buckets and is counted in the first one only. -/
theorem shortStatus_not_counted : ∃ data b b',
    buildHistogram [] shortRun 0 10000000000 {.running} (some 5000000000) = some data ∧
      data.buckets = [b, b'] ∧ b.start = 0 ∧ b.stop = 5000000000 ∧ b'.start = 5000000000 ∧
      b'.stop = 10000000000 ∧
      (withNext 10000000000 (historyOf shortRun "i1")).map (fun status =>
        (categoryForStatus status.1.status, status.1.timestamp, status.2)) =
          [(some .running, 4000000000, 6000000000), (none, 6000000000, 10000000000)] ∧
      (4000000000 < b'.stop ∧ b'.start < 6000000000) ∧
      "i1" ∈ b.invocationIdsByCategory .running ∧
      "i1" ∉ b'.invocationIdsByCategory .running := by
  refine ⟨_, _, _, rfl, rfl, ?_⟩
  decide

end Rustvello.Monitoring
