import Rustvello.Graph.FirstFit
import Rustvello.Mem.Orchestrator
import Mathlib.Data.List.Sort
import Mathlib.Data.List.InsertIdx

/-!
# Lanes of the timeline

`assign_lanes` gives each chain of a runner a lane, the chains in the order of their starts, each
to the first lane where it overlaps nothing.

* `BinarySearch` — what a binary search promises, and `partitionPoint`, one that keeps it;
* `LaneOccupancy.overlaps`, `LaneOccupancy.insert` — the intervals of a lane, sorted by their ends;
* `assignToLane`, `assignLanes` — the assignment;
* `Tidy`, `overlaps_iff` — the early exits of the search miss nothing;
* `Consistent.assignRegular` — the assignment opens a lane only when all others are taken;
* `assignLanes_optimal` — chains of a lane do not overlap, and there are as few lanes as possible.
-/

namespace Rustvello.Monitoring

open Proto Mem

/-! ## The intervals of a lane -/

/-- What `binary_search_by` promises of a sorted list: what stands before the position is not
greater, what stands from there on is not less.  Among equals any position may be found. -/
structure BinarySearch where
  find : List Int → Int → Nat
  le_length : ∀ (xs : List Int) t, xs.Pairwise (· ≤ ·) → find xs t ≤ xs.length
  before : ∀ (xs : List Int) t, xs.Pairwise (· ≤ ·) → ∀ x ∈ xs.take (find xs t), x ≤ t
  after : ∀ (xs : List Int) t, xs.Pairwise (· ≤ ·) → ∀ x ∈ xs.drop (find xs t), t ≤ x

structure ElementChain where
  invocationId : String
  runnerId : String
  start : Int
  stop : Int
  deferred : Bool
  laneIndex : Nat
  entryStart : Nat
  entryEnd : Nat
deriving DecidableEq

/-- Pairs of an end and a start, sorted by their ends. -/
structure LaneOccupancy where
  intervals : List (Int × Int) := []

namespace LaneOccupancy

/-- The search forwards, which stops at an interval that starts too late. -/
def overlapsFrom (start stop : Int) : List (Int × Int) → Bool
  | [] => false
  | (intervalEnd, intervalStart) :: rest =>
      if stop ≤ intervalStart then false
      else if start < intervalEnd ∧ intervalStart < stop then true
      else overlapsFrom start stop rest

/-- The search backwards, which stops at an interval that ends too early. -/
def overlapsBack (start stop : Int) : List (Int × Int) → Bool
  | [] => false
  | (intervalEnd, intervalStart) :: rest =>
      if intervalEnd ≤ start then false
      else if start < intervalEnd ∧ intervalStart < stop then true
      else overlapsBack start stop rest

def overlaps (search : BinarySearch) (lane : LaneOccupancy) (start stop : Int) : Bool :=
  let index := search.find (lane.intervals.map Prod.fst) start
  overlapsFrom start stop (lane.intervals.drop index) ||
    (decide (0 < index) && overlapsBack start stop (lane.intervals.take index).reverse)

def insert (search : BinarySearch) (lane : LaneOccupancy) (start stop : Int) : LaneOccupancy :=
  let position := search.find (lane.intervals.map Prod.fst) stop
  ⟨lane.intervals.insertIdx position (stop, start)⟩

end LaneOccupancy

/-! ## The assignment -/

abbrev Occupancy := HashMap String (List LaneOccupancy)

/-- The first lane without an overlap, or a new one. -/
def firstFreeLane (search : BinarySearch) (start stop : Int) :
    List LaneOccupancy → Nat × List LaneOccupancy
  | [] => (0, [LaneOccupancy.insert search {} start stop])
  | lane :: rest =>
      if lane.overlaps search start stop then
        let later := firstFreeLane search start stop rest
        (later.1 + 1, lane :: later.2)
      else (0, lane.insert search start stop :: rest)

def assignToLane (search : BinarySearch) (occupancy : Occupancy) (chain : ElementChain) :
    Nat × Occupancy :=
  let lanes := (occupancy.lookup chain.runnerId).getD []
  let placed := firstFreeLane search chain.start chain.stop lanes
  (placed.1, occupancy.insert chain.runnerId placed.2)

/-- The lanes of the chains, each with the position of its chain. -/
def assignRegular (search : BinarySearch) :
    Occupancy → List (ElementChain × Nat) → List (Nat × Nat) × Occupancy
  | occupancy, [] => ([], occupancy)
  | occupancy, (chain, position) :: rest =>
      let placed := assignToLane search occupancy chain
      let others := assignRegular search placed.2 rest
      ((position, placed.1) :: others.1, others.2)

/-- Deferred chains overlay lane 0. -/
def assignDeferred (search : BinarySearch) :
    Occupancy → List (ElementChain × Nat) → List (Nat × Nat) × Occupancy
  | occupancy, [] => ([], occupancy)
  | occupancy, (chain, position) :: rest =>
      let lanes := (occupancy.lookup chain.runnerId).getD []
      let lanes := if lanes.isEmpty then [{}] else lanes
      let lanes := lanes.modifyHead fun lane => lane.insert search chain.start chain.stop
      let others := assignDeferred search (occupancy.insert chain.runnerId lanes) rest
      ((position, 0) :: others.1, others.2)

/-- Write the lanes into the chains. -/
def writeLanes (writes : List (Nat × Nat)) (chains : List ElementChain) : List ElementChain :=
  writes.foldl (fun chains write =>
    chains.modify write.1 fun chain => { chain with laneIndex := write.2 }) chains

def sortByStart (chains : List (ElementChain × Nat)) : List (ElementChain × Nat) :=
  chains.insertionSort fun left right => left.1.start ≤ right.1.start

/-- `assign_lanes`; a chain is known by its position. -/
def assignLanes (search : BinarySearch) (chains : List ElementChain) : List ElementChain :=
  let regular := sortByStart (chains.zipIdx.filter fun chain => !chain.1.deferred)
  let deferred := sortByStart (chains.zipIdx.filter fun chain => chain.1.deferred)
  let first := assignRegular search ∅ regular
  let second := assignDeferred search first.2 deferred
  writeLanes (first.1 ++ second.1) chains

/-! ## The search misses nothing -/

/-- Two intervals, ends first, that overlap. -/
def Crossing (a b : Int × Int) : Prop :=
  b.2 < a.1 ∧ a.2 < b.1

/-- A lane as it is filled: sorted by ends, without overlaps. -/
structure Tidy (intervals : List (Int × Int)) : Prop where
  sorted : (intervals.map Prod.fst).Pairwise (· ≤ ·)
  proper : ∀ a ∈ intervals, a.2 ≤ a.1
  apart : intervals.Pairwise fun a b => ¬ Crossing a b

theorem insertIdx_eq_append {α : Type} (x : α) {xs : List α} {position : Nat}
    (h : position ≤ xs.length) :
    xs.insertIdx position x = xs.take position ++ x :: xs.drop position := by
  induction position generalizing xs with
  | zero => rfl
  | succ position ih =>
      cases xs with
      | nil => cases h
      | cons y ys =>
          rw [List.insertIdx_succ_cons, ih (Nat.le_of_succ_le_succ h)]
          rfl

section Search

variable {start stop : Int} {intervals : List (Int × Int)}

/-- An interval that starts where the search ends is the last one to look at: the starts are in
order up to intervals without length. -/
theorem overlapsFrom_iff (hproper : ∀ a ∈ intervals, a.2 ≤ a.1)
    (hapart : intervals.Pairwise fun a b => ¬ Crossing a b) (hstarts : ∀ a ∈ intervals, a.2 ≤ start)
    (hchain : start ≤ stop) :
    LaneOccupancy.overlapsFrom start stop intervals = true ↔
      ∃ a ∈ intervals, Crossing a (stop, start) := by
  induction intervals with
  | nil => simp [LaneOccupancy.overlapsFrom]
  | cons a rest ih =>
      obtain ⟨intervalEnd, intervalStart⟩ := a
      obtain ⟨hhead, htail⟩ := List.pairwise_cons.mp hapart
      have hpropers := List.forall_mem_cons.mp hproper
      have hbegun := List.forall_mem_cons.mp hstarts
      have hrest := ih hpropers.2 htail hbegun.2
      rw [LaneOccupancy.overlapsFrom]
      split
      · rename_i hlate
        refine iff_of_false Bool.false_ne_true ?_
        rintro ⟨b, hb, hcross⟩
        have hbegin : intervalStart ≤ start := hbegun.1
        have hend : intervalStart ≤ intervalEnd := hpropers.1
        rcases List.mem_cons.mp hb with rfl | hb
        · exact absurd hcross.2 (not_lt.mpr hlate)
        · have hafter : start < b.1 := hcross.1
          have hbefore : b.2 < stop := hcross.2
          exact hhead b hb ⟨show b.2 < intervalEnd by omega, show intervalStart < b.1 by omega⟩
      · split
        · rename_i hcross
          exact iff_of_true rfl ⟨_, List.mem_cons_self, hcross⟩
        · rename_i hcross
          rw [hrest, List.exists_mem_cons_iff]
          exact (or_iff_right hcross).symm

/-- Nothing is found among intervals that ended before. -/
theorem overlapsBack_of_ended (h : ∀ a ∈ intervals, a.1 ≤ start) :
    LaneOccupancy.overlapsBack start stop intervals = false := by
  cases intervals with
  | nil => rfl
  | cons a rest =>
      obtain ⟨intervalEnd, intervalStart⟩ := a
      exact if_pos (h _ List.mem_cons_self)

variable {search : BinarySearch}

theorem overlaps_iff (h : Tidy intervals) (hstarts : ∀ a ∈ intervals, a.2 ≤ start)
    (hchain : start ≤ stop) :
    LaneOccupancy.overlaps search ⟨intervals⟩ start stop = true ↔
      ∃ a ∈ intervals, Crossing a (stop, start) := by
  unfold LaneOccupancy.overlaps
  dsimp only
  have hbefore := search.before _ start h.sorted
  generalize search.find (intervals.map Prod.fst) start = index at hbefore
  have hended : ∀ a ∈ intervals.take index, a.1 ≤ start := by
    intro a ha
    refine hbefore a.1 ?_
    rw [← List.map_take]
    exact List.mem_map_of_mem ha
  rw [overlapsBack_of_ended fun a ha => hended a (List.mem_reverse.mp ha), Bool.and_false,
    Bool.or_false, overlapsFrom_iff (fun a ha => h.proper a (List.mem_of_mem_drop ha))
      (h.apart.sublist (List.drop_sublist _ _)) (fun a ha => hstarts a (List.mem_of_mem_drop ha))
      hchain]
  constructor
  · rintro ⟨a, ha, hcross⟩
    exact ⟨a, List.mem_of_mem_drop ha, hcross⟩
  · rintro ⟨a, ha, hcross⟩
    rw [← List.take_append_drop index intervals] at ha
    rcases List.mem_append.mp ha with hearly | hlate
    · exact absurd hcross.1 (not_lt.mpr (hended a hearly))
    · exact ⟨a, hlate, hcross⟩

/-- An interval that overlaps nothing keeps the lane tidy. -/
theorem tidy_insert (search : BinarySearch) (h : Tidy intervals) (hchain : start ≤ stop)
    (hfree : ∀ a ∈ intervals, ¬ Crossing a (stop, start)) :
    Tidy (LaneOccupancy.insert search ⟨intervals⟩ start stop).intervals ∧
      (LaneOccupancy.insert search ⟨intervals⟩ start stop).intervals.Perm
        ((stop, start) :: intervals) := by
  unfold LaneOccupancy.insert
  dsimp only
  have hlength := search.le_length _ stop h.sorted
  have hbefore := search.before _ stop h.sorted
  have hafter := search.after _ stop h.sorted
  generalize search.find (intervals.map Prod.fst) stop = position at hlength hbefore hafter
  rw [List.length_map] at hlength
  have hperm := List.perm_insertIdx (stop, start) intervals hlength
  refine ⟨⟨?_, ?_, ?_⟩, hperm⟩
  · rw [List.map_insertIdx, insertIdx_eq_append _ (by rwa [List.length_map])]
    refine List.pairwise_append.mpr ⟨h.sorted.sublist (List.take_sublist _ _),
      List.pairwise_cons.mpr ⟨hafter, h.sorted.sublist (List.drop_sublist _ _)⟩, ?_⟩
    intro a ha b hb
    rcases List.mem_cons.mp hb with rfl | hb
    · exact hbefore a ha
    · exact (hbefore a ha).trans (hafter b hb)
  · intro a ha
    rcases List.mem_cons.mp (hperm.mem_iff.mp ha) with rfl | ha
    · exact hchain
    · exact h.proper a ha
  · have hsymm : Std.Symm fun a b : Int × Int => ¬ Crossing a b :=
      ⟨fun a b hab hba => hab ⟨hba.2, hba.1⟩⟩
    refine (List.Perm.pairwise_iff (fun {a b} => hsymm.symm a b) hperm).mpr ?_
    exact List.pairwise_cons.mpr ⟨fun a ha hcross => hfree a ha ⟨hcross.2, hcross.1⟩, h.apart⟩

end Search

/-! ## A run of the assignment -/

def ElementChain.interval (chain : ElementChain) : Int × Int :=
  (chain.stop, chain.start)

/-- Not both end after the other one starts. -/
def ElementChain.Overlaps (a b : ElementChain) : Prop :=
  Crossing a.interval b.interval

abbrev Item := ElementChain × Nat

def Conflict (x y : Item) : Prop :=
  x.1.Overlaps y.1

def Earlier (x y : Item) : Prop :=
  x.1.start ≤ y.1.start

theorem Conflict.symm {x y : Item} (h : Conflict x y) : Conflict y x :=
  ⟨h.2, h.1⟩

/-- Two chains that run when a third one starts overlap. -/
theorem conflict_of_earlier {x y z : Item} (hx : Earlier x z) (hy : Earlier y z)
    (hxz : Conflict x z) (hyz : Conflict y z) : Conflict x y :=
  ⟨lt_of_le_of_lt hy hxz.1, lt_of_le_of_lt hx hyz.1⟩

/-- A lane holds the intervals of the chains placed in it. -/
structure LaneHolds (lane : LaneOccupancy) (index : Nat) (placed : List (Item × Nat)) : Prop where
  tidy : Tidy lane.intervals
  mem_iff : ∀ a, a ∈ lane.intervals ↔ ∃ p ∈ placed, p.2 = index ∧ p.1.1.interval = a

def Holds (lanes : List LaneOccupancy) (placed : List (Item × Nat)) : Prop :=
  ∀ (index : Nat) (lane : LaneOccupancy), lanes[index]? = some lane → LaneHolds lane index placed

section FirstFree

variable {search : BinarySearch} {start stop : Int} {lanes : List LaneOccupancy}
  {lane : LaneOccupancy}

/-- All lanes before the chosen one are taken; that one is free, or new. -/
theorem firstFreeLane_spec (search : BinarySearch) (start stop : Int) (lanes : List LaneOccupancy) :
    let placed := firstFreeLane search start stop lanes
    (∀ k < placed.1, ∃ lane, lanes[k]? = some lane ∧ lane.overlaps search start stop = true) ∧
      ((∃ lane, lanes[placed.1]? = some lane ∧ lane.overlaps search start stop = false ∧
          placed.2 = lanes.set placed.1 (lane.insert search start stop)) ∨
        (placed.1 = lanes.length ∧
          placed.2 = lanes ++ [LaneOccupancy.insert search {} start stop])) := by
  induction lanes with
  | nil => exact ⟨fun _ hk => absurd hk (Nat.not_lt_zero _), .inr ⟨rfl, rfl⟩⟩
  | cons lane rest ih =>
      dsimp only
      rw [firstFreeLane]
      split
      · rename_i htaken
        obtain ⟨hbefore, hchosen⟩ := ih
        refine ⟨fun k hk => ?_, ?_⟩
        · cases k with
          | zero => exact ⟨lane, rfl, htaken⟩
          | succ k => exact hbefore k (Nat.lt_of_succ_lt_succ hk)
        · rcases hchosen with ⟨free, hfree, hclear, hset⟩ | ⟨hlast, hnew⟩
          · refine .inl ⟨free, hfree, hclear, ?_⟩
            rw [List.set_cons_succ]
            exact congrArg (lane :: ·) hset
          · exact .inr ⟨congrArg (· + 1) hlast, congrArg (lane :: ·) hnew⟩
      · rename_i hclear
        exact ⟨fun _ hk => absurd hk (Nat.not_lt_zero _),
          .inl ⟨lane, rfl, Bool.eq_false_iff.mpr hclear, rfl⟩⟩

variable {placed : List (Item × Nat)}

theorem LaneHolds.overlaps_iff {index : Nat} (h : LaneHolds lane index placed)
    (search : BinarySearch) {x : Item} (hchain : x.1.start ≤ x.1.stop)
    (hearlier : ∀ p ∈ placed, Earlier p.1 x) :
    lane.overlaps search x.1.start x.1.stop = true ↔
      ∃ p ∈ placed, p.2 = index ∧ Conflict p.1 x := by
  have hstarts : ∀ a ∈ lane.intervals, a.2 ≤ x.1.start := by
    intro a ha
    obtain ⟨p, hp, -, rfl⟩ := (h.mem_iff a).mp ha
    exact hearlier p hp
  refine (Monitoring.overlaps_iff h.tidy hstarts hchain).trans ?_
  constructor
  · rintro ⟨a, ha, hcross⟩
    obtain ⟨p, hp, hindex, rfl⟩ := (h.mem_iff a).mp ha
    exact ⟨p, hp, hindex, hcross⟩
  · rintro ⟨p, hp, hindex, hconflict⟩
    exact ⟨p.1.1.interval, (h.mem_iff _).mpr ⟨p, hp, hindex, rfl⟩, hconflict⟩

theorem LaneHolds.insert {index : Nat} (h : LaneHolds lane index placed) {x : Item}
    (hchain : x.1.start ≤ x.1.stop) (hfree : ∀ p ∈ placed, p.2 = index → ¬ Conflict p.1 x) :
    LaneHolds (lane.insert search x.1.start x.1.stop) index ((x, index) :: placed) := by
  have hnone : ∀ a ∈ lane.intervals, ¬ Crossing a (x.1.stop, x.1.start) := by
    intro a ha hcross
    obtain ⟨p, hp, hindex, rfl⟩ := (h.mem_iff a).mp ha
    exact hfree p hp hindex hcross
  obtain ⟨htidy, hperm⟩ := tidy_insert search h.tidy hchain hnone
  refine ⟨htidy, fun a => ?_⟩
  rw [hperm.mem_iff, List.mem_cons, h.mem_iff, List.exists_mem_cons_iff]
  exact or_congr_left ⟨fun heq => ⟨rfl, heq.symm⟩, fun heq => heq.2.symm⟩

/-- A chain of another lane changes nothing. -/
theorem LaneHolds.other {index other : Nat} (h : LaneHolds lane index placed) (hne : other ≠ index)
    (x : Item) : LaneHolds lane index ((x, other) :: placed) := by
  refine ⟨h.tidy, fun a => ?_⟩
  rw [h.mem_iff, List.exists_mem_cons_iff]
  exact (or_iff_right fun hx => hne hx.1).symm

theorem laneHolds_empty {index : Nat} (h : ∀ p ∈ placed, p.2 ≠ index) :
    LaneHolds {} index placed := by
  refine ⟨⟨List.Pairwise.nil, fun _ ha => absurd ha List.not_mem_nil, List.Pairwise.nil⟩, fun a => ?_⟩
  exact iff_of_false List.not_mem_nil fun ⟨p, hp, hindex, _⟩ => h p hp hindex

/-- **One chain.**  The lanes hold it too, and a lane is opened only when all others are taken. -/
theorem place_chain (h : Holds lanes placed)
    (hgreedy : Graph.Greedy Conflict Earlier placed lanes.length)
    {x : Item} (hchain : x.1.start ≤ x.1.stop) (hearlier : ∀ p ∈ placed, Earlier p.1 x) :
    let chosen := firstFreeLane search x.1.start x.1.stop lanes
    Holds chosen.2 ((x, chosen.1) :: placed) ∧
      Graph.Greedy Conflict Earlier ((x, chosen.1) :: placed) chosen.2.length := by
  obtain ⟨hbefore, hchosen⟩ := firstFreeLane_spec search x.1.start x.1.stop lanes
  dsimp only at hbefore hchosen ⊢
  generalize firstFreeLane search x.1.start x.1.stop lanes = chosen at hbefore hchosen
  obtain ⟨index, after⟩ := chosen
  dsimp only at hbefore hchosen ⊢
  rcases hchosen with ⟨lane, hlane, hclear, rfl⟩ | ⟨rfl, rfl⟩
  · have hindex : index < lanes.length := (List.getElem?_eq_some_iff.mp hlane).1
    have hfree : ∀ p ∈ placed, p.2 = index → ¬ Conflict p.1 x := by
      intro p hp hk hconflict
      have htaken := ((h index lane hlane).overlaps_iff search hchain hearlier).mpr
        ⟨p, hp, hk, hconflict⟩
      rw [hclear] at htaken
      cases htaken
    refine ⟨fun k lane' hlane' => ?_, ?_⟩
    · by_cases hk : index = k
      · subst hk
        rw [List.getElem?_set_self hindex] at hlane'
        obtain rfl := Option.some.inj hlane'
        exact (h index lane hlane).insert hchain hfree
      · rw [List.getElem?_set_ne hk] at hlane'
        exact (h k lane' hlane').other hk x
    · rw [List.length_set]
      exact .reuse hgreedy hearlier hindex hfree
  · have hfull : ∀ k < lanes.length, ∃ p ∈ placed, p.2 = k ∧ Conflict p.1 x := by
      intro k hk
      obtain ⟨lane, hlane, htaken⟩ := hbefore k hk
      exact ((h k lane hlane).overlaps_iff search hchain hearlier).mp htaken
    refine ⟨fun k lane hlane => ?_, ?_⟩
    · rcases lt_or_ge k lanes.length with hk | hk
      · rw [List.getElem?_append_left hk] at hlane
        exact (h k lane hlane).other hk.ne' x
      · rw [List.getElem?_append_right hk] at hlane
        obtain ⟨hzero, rfl⟩ := List.getElem?_eq_some_iff.mp hlane
        obtain rfl : lanes.length = k := by
          simp only [List.length_singleton] at hzero
          omega
        have hunused : ∀ p ∈ placed, p.2 ≠ lanes.length := fun p hp => (hgreedy.colour_lt p hp).ne
        simp only [Nat.sub_self, List.getElem_cons_zero]
        exact (laneHolds_empty hunused).insert hchain fun p hp hk => absurd hk (hunused p hp)
    · rw [List.length_append, List.length_singleton]
      exact .fresh hgreedy hearlier hfull

end FirstFree

def lanesOf (occupancy : Occupancy) (runner : String) : List LaneOccupancy :=
  (occupancy.lookup runner).getD []

def ofRunner (runner : String) (placed : List (Item × Nat)) : List (Item × Nat) :=
  placed.filter fun p => p.1.1.runnerId = runner

/-- The lanes of every runner hold the chains placed so far, and were opened late. -/
def Consistent (occupancy : Occupancy) (placed : List (Item × Nat)) : Prop :=
  ∀ runner, Holds (lanesOf occupancy runner) (ofRunner runner placed) ∧
    Graph.Greedy Conflict Earlier (ofRunner runner placed) (lanesOf occupancy runner).length

theorem consistent_empty : Consistent ∅ [] := by
  intro runner
  refine ⟨fun index lane hlane => ?_, Graph.Greedy.nil⟩
  exact absurd hlane (by simp [lanesOf])

section Run

variable {search : BinarySearch} {occupancy : Occupancy} {placed : List (Item × Nat)}

/-- One chain is placed among those of its runner. -/
theorem Consistent.assignToLane (h : Consistent occupancy placed) (search : BinarySearch) {x : Item}
    (hchain : x.1.start ≤ x.1.stop) (hearlier : ∀ p ∈ placed, Earlier p.1 x) :
    Consistent (assignToLane search occupancy x.1).2
      ((x, (assignToLane search occupancy x.1).1) :: placed) := by
  intro runner
  obtain ⟨hholds, hgreedy⟩ := h runner
  unfold Monitoring.assignToLane lanesOf ofRunner
  dsimp only
  by_cases hrunner : x.1.runnerId = runner
  · rw [List.filter_cons_of_pos (by simpa using hrunner), hrunner, AList.lookup_insert,
      Option.getD_some]
    exact place_chain hholds hgreedy hchain fun p hp => hearlier p (List.mem_of_mem_filter hp)
  · rw [List.filter_cons_of_neg (by simpa using hrunner), AList.lookup_insert_ne (Ne.symm hrunner)]
    exact ⟨hholds, hgreedy⟩

/-- **The whole pass.**  Every chain is placed, in the order of the starts. -/
theorem Consistent.assignRegular {items : List Item} (h : Consistent occupancy placed)
    (search : BinarySearch)
    (hchains : ∀ x ∈ items, x.1.start ≤ x.1.stop) (hsorted : items.Pairwise Earlier)
    (hearlier : ∀ p ∈ placed, ∀ x ∈ items, Earlier p.1 x) :
    ∃ added, Consistent (assignRegular search occupancy items).2 (added ++ placed) ∧
      added.map Prod.fst = items.reverse ∧
      (assignRegular search occupancy items).1 = (added.map fun p => (p.1.2, p.2)).reverse := by
  induction items generalizing occupancy placed with
  | nil => exact ⟨[], h, rfl, rfl⟩
  | cons x rest ih =>
      obtain ⟨hhead, htail⟩ := List.pairwise_cons.mp hsorted
      obtain ⟨hchain, hrest⟩ := List.forall_mem_cons.mp hchains
      have hplaced := h.assignToLane search hchain fun p hp =>
        hearlier p hp x List.mem_cons_self
      obtain ⟨added, hconsistent, hitems, hwrites⟩ := ih hplaced hrest htail
        (List.forall_mem_cons.mpr ⟨hhead, fun p hp y hy => hearlier p hp y (List.mem_cons_of_mem _ hy)⟩)
      refine ⟨added ++ [(x, (Monitoring.assignToLane search occupancy x.1).1)], ?_, ?_, ?_⟩
      · rw [List.append_assoc]
        exact hconsistent
      · rw [List.map_append, hitems, List.reverse_cons]
        rfl
      · rw [Monitoring.assignRegular, hwrites, List.map_append, List.reverse_append]
        rfl

theorem assignDeferred_writes (items : List Item) (occupancy : Occupancy) :
    (assignDeferred search occupancy items).1 = items.map fun x => (x.2, 0) := by
  induction items generalizing occupancy with
  | nil => rfl
  | cons x rest ih =>
      rw [assignDeferred, List.map_cons, ih]

end Run

/-! ## What is written -/

/-- A chain without its lane. -/
def ElementChain.unplaced (chain : ElementChain) : ElementChain :=
  { chain with laneIndex := 0 }

theorem map_unplaced_writeLanes (writes : List (Nat × Nat)) (chains : List ElementChain) :
    (writeLanes writes chains).map ElementChain.unplaced = chains.map ElementChain.unplaced := by
  unfold writeLanes
  induction writes generalizing chains with
  | nil => rfl
  | cons write rest ih =>
      rw [List.foldl_cons, ih]
      refine List.ext_getElem? fun i => ?_
      rw [List.getElem?_map, List.getElem?_map]
      by_cases hposition : write.1 = i
      · rw [hposition, List.getElem?_modify_eq]
        cases chains[i]? <;> rfl
      · rw [List.getElem?_modify_ne _ _ hposition]

/-- A chain that nothing is written for keeps its lane. -/
theorem getElem?_writeLanes_of_notMem {writes : List (Nat × Nat)} {position : Nat}
    (h : position ∉ writes.map Prod.fst) (chains : List ElementChain) :
    (writeLanes writes chains)[position]? = chains[position]? := by
  unfold writeLanes
  induction writes generalizing chains with
  | nil => rfl
  | cons write rest ih =>
      obtain ⟨hhead, htail⟩ := not_or.mp (fun hor => h (List.mem_cons.mpr hor))
      rw [List.foldl_cons, ih htail, List.getElem?_modify_ne _ _ (Ne.symm hhead)]

variable {chains : List ElementChain}

theorem getElem?_writeLanes {writes : List (Nat × Nat)} (hnodup : (writes.map Prod.fst).Nodup)
    {position lane : Nat} (hwrite : (position, lane) ∈ writes) {chain : ElementChain}
    (hchain : chains[position]? = some chain) :
    (writeLanes writes chains)[position]? = some { chain with laneIndex := lane } := by
  induction writes generalizing chains chain with
  | nil => cases hwrite
  | cons write rest ih =>
      obtain ⟨hfresh, hrest⟩ := List.nodup_cons.mp hnodup
      have hfold : writeLanes (write :: rest) chains = writeLanes rest
          (chains.modify write.1 fun chain => { chain with laneIndex := write.2 }) := rfl
      rw [hfold]
      rcases List.mem_cons.mp hwrite with rfl | hwrite
      · rw [getElem?_writeLanes_of_notMem hfresh, List.getElem?_modify_eq, hchain]
        rfl
      · have hne : write.1 ≠ position := by
          rintro rfl
          exact hfresh (List.mem_map.mpr ⟨_, hwrite, rfl⟩)
        refine ih hrest hwrite ?_
        rw [List.getElem?_modify_ne _ _ hne, hchain]

/-! ## The assignment as a whole -/

/-- The chains that were placed, with their lanes. -/
structure Assigned (chains result : List ElementChain) (placed : List (Item × Nat)) : Prop where
  mem_iff : ∀ x : Item, (∃ lane, (x, lane) ∈ placed) ↔ chains[x.2]? = some x.1 ∧ x.1.deferred = false
  written : ∀ p ∈ placed, result[p.1.2]? = some { p.1.1 with laneIndex := p.2 }
  unplaced : result.map ElementChain.unplaced = chains.map ElementChain.unplaced

theorem mem_sortByStart {keep : Item → Bool} {x : Item} :
    x ∈ sortByStart (chains.zipIdx.filter keep) ↔ chains[x.2]? = some x.1 ∧ keep x = true := by
  unfold sortByStart
  rw [List.mem_insertionSort, List.mem_filter, List.mem_zipIdx_iff_getElem?]

theorem nodup_positions (chains : List ElementChain) (keep : Item → Bool) :
    ((sortByStart (chains.zipIdx.filter keep)).map Prod.snd ++
      (sortByStart (chains.zipIdx.filter fun x => !keep x)).map Prod.snd).Nodup := by
  have hperm : ((sortByStart (chains.zipIdx.filter keep)).map Prod.snd ++
      (sortByStart (chains.zipIdx.filter fun x => !keep x)).map Prod.snd).Perm
        (chains.zipIdx.map Prod.snd) := by
    rw [← List.map_append]
    exact (((List.perm_insertionSort _ _).append (List.perm_insertionSort _ _)).trans
      (List.filter_append_perm keep _)).map _
  rw [hperm.nodup_iff, List.zipIdx_map_snd]
  exact List.nodup_range'

theorem assignLanes_assigned (search : BinarySearch) (hchains : ∀ c ∈ chains, c.start ≤ c.stop) :
    ∃ occupancy placed, Consistent occupancy placed ∧
      Assigned chains (assignLanes search chains) placed := by
  have hsorted : (sortByStart (chains.zipIdx.filter fun x => !x.1.deferred)).Pairwise Earlier :=
    List.pairwise_insertionSort (fun left right : Item => left.1.start ≤ right.1.start) _
  have hproper : ∀ x ∈ sortByStart (chains.zipIdx.filter fun x => !x.1.deferred),
      x.1.start ≤ x.1.stop := by
    intro x hx
    exact hchains x.1 (List.mem_of_getElem? (mem_sortByStart.mp hx).1)
  obtain ⟨placed, hconsistent, hitems, hwrites⟩ := consistent_empty.assignRegular search
    hproper hsorted fun p hp => absurd hp List.not_mem_nil
  rw [List.append_nil] at hconsistent
  refine ⟨_, placed, hconsistent, ?_, ?_, map_unplaced_writeLanes _ _⟩
  · intro x
    have hplaced : (∃ lane, (x, lane) ∈ placed) ↔ x ∈ placed.map Prod.fst := by
      rw [List.mem_map]
      exact ⟨fun ⟨lane, h⟩ => ⟨_, h, rfl⟩, fun ⟨p, h, hx⟩ => ⟨p.2, by rw [← hx]; exact h⟩⟩
    rw [hplaced, hitems, List.mem_reverse, mem_sortByStart, Bool.not_eq_true']
  · intro p hp
    have hget : chains[p.1.2]? = some p.1.1 := by
      have hitem : p.1 ∈ placed.map Prod.fst := List.mem_map_of_mem hp
      rw [hitems, List.mem_reverse] at hitem
      exact (mem_sortByStart.mp hitem).1
    unfold assignLanes
    dsimp only
    refine getElem?_writeLanes ?_ ?_ hget
    · rw [hwrites, assignDeferred_writes, List.map_append, List.map_reverse, List.map_map,
        List.map_map]
      have hpositions : (placed.map (Prod.fst ∘ fun p : Item × Nat => (p.1.2, p.2))).reverse =
          (sortByStart (chains.zipIdx.filter fun x => !x.1.deferred)).map Prod.snd := by
        rw [← List.map_reverse]
        have hback := congrArg List.reverse hitems
        rw [List.reverse_reverse, ← List.map_reverse] at hback
        rw [← hback, List.map_map]
        rfl
      rw [hpositions]
      have hnodup := nodup_positions chains fun x => !x.1.deferred
      simp only [Bool.not_not] at hnodup
      exact hnodup
    · rw [hwrites]
      exact List.mem_append_left _ (List.mem_reverse.mpr (List.mem_map.mpr ⟨p, hp, rfl⟩))

namespace Assigned

variable {chains result : List ElementChain} {placed : List (Item × Nat)}

/-- A position is placed once. -/
theorem eq_of_position (h : Assigned chains result placed) {p p' : Item × Nat} (hp : p ∈ placed)
    (hp' : p' ∈ placed) (hposition : p.1.2 = p'.1.2) : p = p' := by
  have hchain := ((h.mem_iff p.1).mp ⟨p.2, hp⟩).1
  have hchain' := ((h.mem_iff p'.1).mp ⟨p'.2, hp'⟩).1
  have hwritten := h.written p hp
  have hwritten' := h.written p' hp'
  rw [hposition] at hchain hwritten
  have hitem : p.1 = p'.1 := Prod.ext (Option.some.inj (hchain.symm.trans hchain')) hposition
  have hlane := congrArg ElementChain.laneIndex (Option.some.inj (hwritten.symm.trans hwritten'))
  exact Prod.ext hitem hlane

/-- A chain of the result that is not deferred was placed in its lane. -/
theorem exists_placed (h : Assigned chains result placed) {position : Nat} {a : ElementChain}
    (ha : result[position]? = some a) (hdeferred : a.deferred = false) :
    ∃ c, ((c, position), a.laneIndex) ∈ placed ∧ a = { c with laneIndex := a.laneIndex } := by
  have hunplaced : (result.map ElementChain.unplaced)[position]? =
      (chains.map ElementChain.unplaced)[position]? := by rw [h.unplaced]
  rw [List.getElem?_map, List.getElem?_map, ha] at hunplaced
  obtain ⟨c, hc, hfields⟩ := Option.map_eq_some_iff.mp hunplaced.symm
  have hcdeferred : c.deferred = false :=
    (congrArg ElementChain.deferred hfields).trans hdeferred
  obtain ⟨lane, hplaced⟩ := (h.mem_iff (c, position)).mpr ⟨hc, hcdeferred⟩
  have hwritten := h.written _ hplaced
  obtain rfl := Option.some.inj (ha.symm.trans hwritten)
  exact ⟨c, hplaced, rfl⟩

end Assigned

/-- The lanes that the chains of a runner use, deferred ones apart. -/
def lanesUsed (chains : List ElementChain) (runner : String) : Finset Nat :=
  ((chains.filter fun c => !c.deferred && decide (c.runnerId = runner)).map
    ElementChain.laneIndex).toFinset

/-- Positions of chains of a runner, not deferred, that overlap pairwise. -/
structure Crowd (chains : List ElementChain) (runner : String) (q : Finset Nat) : Prop where
  listed : ∀ i ∈ q, ∃ c, chains[i]? = some c ∧ c.deferred = false ∧ c.runnerId = runner
  overlapping : ∀ i ∈ q, ∀ j ∈ q, i ≠ j → ∀ a b, chains[i]? = some a → chains[j]? = some b →
    a.Overlaps b

namespace Assigned

variable {chains result : List ElementChain} {placed : List (Item × Nat)} {runner : String}

theorem mem_ofRunner {p : Item × Nat} :
    p ∈ ofRunner runner placed ↔ p ∈ placed ∧ p.1.1.runnerId = runner := by
  rw [ofRunner, List.mem_filter, decide_eq_true_eq]

theorem lanesUsed_eq (h : Assigned chains result placed) {n : Nat}
    (hgreedy : Graph.Greedy Conflict Earlier (ofRunner runner placed) n) :
    lanesUsed result runner = Finset.range n := by
  ext lane
  rw [lanesUsed, List.mem_toFinset, List.mem_map, Finset.mem_range]
  constructor
  · rintro ⟨a, ha, rfl⟩
    obtain ⟨hmem, hkeep⟩ := List.mem_filter.mp ha
    obtain ⟨hdeferred, hrunner⟩ := Bool.and_eq_true_iff.mp hkeep
    obtain ⟨position, hposition⟩ := List.mem_iff_getElem?.mp hmem
    obtain ⟨c, hplaced, heq⟩ := h.exists_placed hposition (by simpa using hdeferred)
    have hof : c.runnerId = runner :=
      (congrArg ElementChain.runnerId heq).symm.trans (of_decide_eq_true hrunner)
    exact hgreedy.colour_lt _ (mem_ofRunner.mpr ⟨hplaced, hof⟩)
  · intro hlane
    obtain ⟨p, hp, rfl⟩ := hgreedy.exists_colour lane hlane
    obtain ⟨hplaced, hrunner⟩ := mem_ofRunner.mp hp
    have hdeferred := ((h.mem_iff p.1).mp ⟨p.2, hplaced⟩).2
    refine ⟨_, List.mem_filter.mpr ⟨List.mem_of_getElem? (h.written p hplaced), ?_⟩, rfl⟩
    exact Bool.and_eq_true_iff.mpr ⟨by rw [hdeferred]; rfl, decide_eq_true hrunner⟩

/-- A clique of placed chains is a crowd of as many positions. -/
theorem crowd_of_clique (h : Assigned chains result placed) {q : Finset (Item × Nat)}
    (hq : Graph.Clique Conflict (ofRunner runner placed) q) :
    ∃ crowd, Crowd chains runner crowd ∧ crowd.card = q.card := by
  have hplaced : ∀ p ∈ q, p ∈ placed ∧ p.1.1.runnerId = runner := fun p hp =>
    mem_ofRunner.mp (hq.placed p hp)
  have hinj : Set.InjOn (fun p : Item × Nat => p.1.2) (q : Set (Item × Nat)) :=
    fun p hp p' hp' heq => h.eq_of_position (hplaced p hp).1 (hplaced p' hp').1 heq
  refine ⟨q.image fun p => p.1.2, ⟨?_, ?_⟩, Finset.card_image_of_injOn hinj⟩
  · intro i hi
    obtain ⟨p, hp, rfl⟩ := Finset.mem_image.mp hi
    obtain ⟨hget, hdeferred⟩ := (h.mem_iff p.1).mp ⟨p.2, (hplaced p hp).1⟩
    exact ⟨p.1.1, hget, hdeferred, (hplaced p hp).2⟩
  · intro i hi j hj hne a b ha hb
    obtain ⟨p, hp, rfl⟩ := Finset.mem_image.mp hi
    obtain ⟨p', hp', rfl⟩ := Finset.mem_image.mp hj
    have hget := ((h.mem_iff p.1).mp ⟨p.2, (hplaced p hp).1⟩).1
    have hget' := ((h.mem_iff p'.1).mp ⟨p'.2, (hplaced p' hp').1⟩).1
    obtain rfl := Option.some.inj (ha.symm.trans hget)
    obtain rfl := Option.some.inj (hb.symm.trans hget')
    exact hq.pairwise p hp p' hp' fun heq => hne (by rw [heq])

theorem clique_of_crowd (h : Assigned chains result placed) {crowd : Finset Nat}
    (hcrowd : Crowd chains runner crowd) :
    ∃ q, Graph.Clique Conflict (ofRunner runner placed) q ∧ q.card = crowd.card := by
  have hexists : ∀ i ∈ crowd, ∃ p, p ∈ ofRunner runner placed ∧ p.1.2 = i := by
    intro i hi
    obtain ⟨c, hc, hdeferred, hrunner⟩ := hcrowd.listed i hi
    obtain ⟨lane, hplaced⟩ := (h.mem_iff (c, i)).mpr ⟨hc, hdeferred⟩
    exact ⟨_, mem_ofRunner.mpr ⟨hplaced, hrunner⟩, rfl⟩
  have hinhabited : Nonempty (Item × Nat) := ⟨((⟨"", "", 0, 0, false, 0, 0, 0⟩, 0), 0)⟩
  choose! pair hpair hposition using hexists
  have hinj : Set.InjOn pair (crowd : Set Nat) := by
    intro i hi j hj heq
    rw [← hposition i hi, ← hposition j hj, heq]
  refine ⟨crowd.image pair, ⟨?_, ?_⟩, Finset.card_image_of_injOn hinj⟩
  · intro p hp
    obtain ⟨i, hi, rfl⟩ := Finset.mem_image.mp hp
    exact hpair i hi
  · intro p hp p' hp' hne
    obtain ⟨i, hi, rfl⟩ := Finset.mem_image.mp hp
    obtain ⟨j, hj, rfl⟩ := Finset.mem_image.mp hp'
    have hget : ∀ k ∈ crowd, chains[k]? = some (pair k).1.1 := by
      intro k hk
      have hlisted := ((h.mem_iff (pair k).1).mp ⟨(pair k).2, (mem_ofRunner.mp (hpair k hk)).1⟩).1
      rwa [hposition k hk] at hlisted
    exact hcrowd.overlapping i hi j hj (fun heq => hne (by rw [heq])) _ _ (hget i hi) (hget j hj)

end Assigned

/-- **Lanes never overlap and are as few as possible.**  Chains of a runner with one lane do not
overlap, the lanes of a runner are as many as the largest number of its chains that overlap
pairwise, and nothing but the lanes is changed. -/
theorem assignLanes_optimal (search : BinarySearch) (chains : List ElementChain)
    (hchains : ∀ c ∈ chains, c.start ≤ c.stop) :
    (∀ (i j : Nat) (a b : ElementChain), i ≠ j → (assignLanes search chains)[i]? = some a →
      (assignLanes search chains)[j]? = some b → a.deferred = false → b.deferred = false →
        a.runnerId = b.runnerId → a.laneIndex = b.laneIndex → ¬ a.Overlaps b) ∧
    (∀ runner, IsGreatest {size | ∃ q, Crowd chains runner q ∧ q.card = size}
      (lanesUsed (assignLanes search chains) runner).card) ∧
    (assignLanes search chains).map ElementChain.unplaced = chains.map ElementChain.unplaced := by
  obtain ⟨occupancy, placed, hconsistent, hassigned⟩ := assignLanes_assigned search hchains
  refine ⟨?_, fun runner => ?_, hassigned.unplaced⟩
  · intro i j a b hne ha hb hadeferred hbdeferred hrunner hlane
    obtain ⟨c, hc, hac⟩ := hassigned.exists_placed ha hadeferred
    obtain ⟨c', hc', hbc⟩ := hassigned.exists_placed hb hbdeferred
    have hcrunner : c.runnerId = a.runnerId := (congrArg ElementChain.runnerId hac).symm
    have hcrunner' : c'.runnerId = a.runnerId :=
      (congrArg ElementChain.runnerId hbc).symm.trans hrunner.symm
    have hapart := (hconsistent a.runnerId).2.apart_of_ne (fun _ _ => Conflict.symm)
      (Assigned.mem_ofRunner.mpr ⟨hc, hcrunner⟩) (Assigned.mem_ofRunner.mpr ⟨hc', hcrunner'⟩)
      (fun heq => hne (congrArg (fun p : Item × Nat => p.1.2) heq)) hlane
    rw [hac, hbc]
    exact hapart
  · have hgreedy := (hconsistent runner).2
    have hcard := congrArg Finset.card (hassigned.lanesUsed_eq hgreedy)
    rw [Finset.card_range] at hcard
    rw [hcard]
    refine ⟨?_, ?_⟩
    · obtain ⟨q, hq, hsize⟩ := hgreedy.exists_clique (fun _ _ => Conflict.symm)
        fun _ _ _ => conflict_of_earlier
      obtain ⟨crowd, hcrowd, hcount⟩ := hassigned.crowd_of_clique hq
      exact ⟨crowd, hcrowd, hcount.trans hsize⟩
    · rintro size ⟨crowd, hcrowd, rfl⟩
      obtain ⟨q, hq, hsize⟩ := hassigned.clique_of_crowd hcrowd
      rw [← hsize]
      exact hgreedy.card_le (fun _ _ => Conflict.symm) hq

/-- The first position whose element is not less. -/
def partitionIndex (t : Int) : List Int → Nat
  | [] => 0
  | x :: rest => if x < t then partitionIndex t rest + 1 else 0

def partitionPoint : BinarySearch where
  find xs t := partitionIndex t xs
  le_length xs t hsorted := by
    induction xs with
    | nil => exact le_rfl
    | cons x rest ih =>
        rw [partitionIndex]
        split
        · exact Nat.succ_le_succ (ih (List.pairwise_cons.mp hsorted).2)
        · exact Nat.zero_le _
  before xs t hsorted y hy := by
    induction xs with
    | nil => cases hy
    | cons x rest ih =>
        rw [partitionIndex] at hy
        split at hy
        · rename_i hless
          rcases List.mem_cons.mp hy with rfl | hy
          · exact hless.le
          · exact ih (List.pairwise_cons.mp hsorted).2 hy
        · cases hy
  after xs t hsorted y hy := by
    induction xs with
    | nil => cases hy
    | cons x rest ih =>
        obtain ⟨hhead, htail⟩ := List.pairwise_cons.mp hsorted
        rw [partitionIndex] at hy
        split at hy
        · exact ih htail hy
        · rename_i hless
          rcases List.mem_cons.mp hy with rfl | hy
          · exact not_lt.mp hless
          · exact (not_lt.mp hless).trans (hhead y hy)

/-- Two chains that overlap, and one that touches the first. -/
theorem assignLanes_optimal_three :
    let chains : List ElementChain := [⟨"a", "r", 0, 10, false, 0, 0, 0⟩,
      ⟨"b", "r", 5, 15, false, 0, 0, 0⟩, ⟨"c", "r", 10, 10, false, 0, 0, 0⟩]
    IsGreatest {size | ∃ q, Crowd chains "r" q ∧ q.card = size}
      (lanesUsed (assignLanes partitionPoint chains) "r").card :=
  (assignLanes_optimal partitionPoint _ (by decide)).2.1 "r"

end Rustvello.Monitoring
