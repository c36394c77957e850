import Mathlib.Data.List.Nodup
import Mathlib.Data.List.Sort

/-!
# Passes over the head of a queue

A consumer works through a queue in passes.  Each pass looks at the oldest entries only, at
most so many of them; it skips some entries and leaves them where they are, takes the
others out, and stops at the first one that is refused.

* `taken`, `pass`, `passes` — what one pass takes, and the queue after some passes;
* `reach` — how far passes get when nothing is refused: entries that are skipped take up
  room in every later pass;
* `notMem_passes_iff` — an entry is taken by some pass exactly when nothing before it is
  refused and the passes reach it;
* `filter_insertionSort` — taking entries out of a sorted queue.
-/

namespace Rustvello.Queue

variable {α : Type} [DecidableEq α] (skip accept : α → Bool)

/-- What a pass takes out of a batch. -/
def taken : List α → List α
  | [] => []
  | x :: xs => if skip x then taken xs else if accept x then x :: taken xs else []

/-- The queue after a pass over its first `n` entries. -/
def pass (n : Nat) (queue : List α) : List α :=
  queue.filter fun x => x ∉ taken skip accept (queue.take n)

def passes (n : Nat) : Nat → List α → List α
  | 0, queue => queue
  | k + 1, queue => pass skip accept n (passes n k queue)

omit [DecidableEq α] in
/-- The number of entries that `k` passes over `n` entries have looked at, if none is
refused. -/
def reach (n : Nat) (queue : List α) : Nat → Nat
  | 0 => 0
  | k + 1 => reach n queue k + (n - (queue.take (reach n queue k)).countP skip)

variable {skip accept}

section Batches

omit [DecidableEq α]
variable {x : α} {xs ys : List α}

theorem of_mem_taken (h : x ∈ taken skip accept xs) :
    x ∈ xs ∧ skip x = false ∧ accept x = true := by
  induction xs with
  | nil => simp [taken] at h
  | cons y ys ih =>
      simp only [taken] at h
      split at h
      · exact ⟨List.mem_cons_of_mem _ (ih h).1, (ih h).2⟩
      · rename_i hskip
        split at h
        · rename_i haccept
          rcases List.mem_cons.mp h with rfl | h
          · exact ⟨List.mem_cons_self, by simpa using hskip, haccept⟩
          · exact ⟨List.mem_cons_of_mem _ (ih h).1, (ih h).2⟩
        · cases h

/-- Nothing is refused in the first part of the batch. -/
theorem taken_append (h : ∀ y ∈ xs, skip y = true ∨ accept y = true) :
    taken skip accept (xs ++ ys) =
      xs.filter (fun y => !skip y) ++ taken skip accept ys := by
  induction xs with
  | nil => rfl
  | cons y xs ih =>
      rw [List.forall_mem_cons] at h
      have hrest := ih h.2
      by_cases hskip : skip y = true
      · simp [taken, hskip, hrest]
      · have haccept : accept y = true := h.1.resolve_left hskip
        simp [taken, hskip, haccept, hrest]

/-- A refused entry ends the pass. -/
theorem taken_refused (hskip : skip x = false) (hrefused : accept x = false) :
    taken skip accept (xs ++ x :: ys) = taken skip accept xs := by
  induction xs with
  | nil => simp [taken, hskip, hrefused]
  | cons y xs ih => simp only [List.cons_append, taken, ih]

end Batches

section Passes

variable {n k : Nat} {queue front back : List α} {x y : α}

theorem passes_sublist : (passes skip accept n k queue).Sublist queue := by
  induction k with
  | zero => exact List.Sublist.refl _
  | succ k ih => exact List.filter_sublist.trans ih

/-- An entry behind a refused one is never taken. -/
theorem passes_of_refused (hnodup : (front ++ y :: back).Nodup) (hskip : skip y = false)
    (hrefused : accept y = false) :
    ∃ front' back', passes skip accept n k (front ++ y :: back) = front' ++ y :: back' ∧
      ∀ x ∈ back, x ∈ back' := by
  induction k with
  | zero => exact ⟨front, back, rfl, fun _ h => h⟩
  | succ k ih =>
      obtain ⟨front', back', heq, hback⟩ := ih
      have hown : (front' ++ y :: back').Nodup := heq ▸ hnodup.sublist passes_sublist
      -- what a pass takes stands before the refused entry
      have hbefore : ∀ z ∈ taken skip accept ((front' ++ y :: back').take n), z ∈ front' := by
        intro z hz
        rw [List.take_append] at hz
        cases hroom : n - front'.length with
        | zero =>
            rw [hroom, List.take_zero, List.append_nil] at hz
            exact List.mem_of_mem_take (of_mem_taken hz).1
        | succ m =>
            rw [hroom, List.take_succ_cons, taken_refused hskip hrefused] at hz
            exact List.mem_of_mem_take (of_mem_taken hz).1
      have hkeep : ∀ z ∈ y :: back', z ∉ taken skip accept ((front' ++ y :: back').take n) := by
        intro z hz htaken
        exact (List.nodup_append.mp hown).2.2 z (hbefore z htaken) z hz rfl
      refine ⟨front'.filter fun x => x ∉ taken skip accept ((front' ++ y :: back').take n), back',
        ?_, hback⟩
      rw [passes, heq, pass, List.filter_append]
      congr 1
      exact List.filter_eq_self.mpr fun z hz => by simpa using hkeep z hz

/-- Where nothing is refused, a pass leaves the skipped entries of its batch. -/
theorem pass_of_clear (hnodup : (front ++ back).Nodup)
    (hclear : ∀ y ∈ front, skip y = true ∨ accept y = true) (hlength : front.length = n) :
    pass skip accept n (front ++ back) = front.filter skip ++ back := by
  have htake : (front ++ back).take n = front := by
    rw [← hlength, List.take_left]
  have htaken : taken skip accept front = front.filter fun y => !skip y := by
    have happend : taken skip accept (front ++ []) =
        front.filter (fun y => !skip y) ++ taken skip accept [] := taken_append hclear
    simpa [taken] using happend
  rw [pass, htake, htaken, List.filter_append]
  congr 1
  · apply List.filter_congr
    intro y hy
    cases hskip : skip y <;> simp [hy, hskip]
  · refine List.filter_eq_self.mpr fun y hy => ?_
    have hne : y ∉ front := fun hmem => (List.nodup_append.mp hnodup).2.2 y hmem y hy rfl
    simp [hne]

/-- As long as they have not reached the first doubtful entry, passes leave the skipped ones
of what they have looked at, and the rest. -/
theorem passes_of_clear (hnodup : (front ++ back).Nodup)
    (hclear : ∀ y ∈ front, skip y = true ∨ accept y = true)
    (hreach : reach skip n (front ++ back) k ≤ front.length) :
    passes skip accept n k (front ++ back) =
      ((front ++ back).take (reach skip n (front ++ back) k)).filter skip ++
        (front ++ back).drop (reach skip n (front ++ back) k) := by
  induction k with
  | zero => simp [passes, reach]
  | succ k ih =>
      have hgrow : reach skip n (front ++ back) k ≤ reach skip n (front ++ back) (k + 1) :=
        Nat.le_add_right _ _
      have hle : reach skip n (front ++ back) k ≤ front.length := by omega
      rw [passes, ih hle]
      have hnext : reach skip n (front ++ back) (k + 1) = reach skip n (front ++ back) k +
        (n - ((front ++ back).take (reach skip n (front ++ back) k)).countP skip) := rfl
      rw [hnext] at hreach ⊢
      generalize reach skip n (front ++ back) k = e at *
      rw [List.take_append_of_le_length hle] at *
      set u := (front.take e).countP skip with hu
      -- the next entries that the pass looks at, and what comes after them
      set segment := (front.drop e).take (n - u) with hsegment
      have hlength : segment.length = n - u := by
        simp only [hsegment, List.length_take, List.length_drop]
        omega
      have hfront : (front.drop e ++ back).take (n - u) = segment := by
        rw [List.take_append_of_le_length (by rw [List.length_drop]; omega)]
      have hdrop : (front ++ back).drop e = segment ++ (front ++ back).drop (e + (n - u)) := by
        rw [← List.drop_drop, List.drop_append_of_le_length hle, ← hfront]
        exact (List.take_append_drop _ _).symm
      have hskipped : ((front.take e).filter skip).length = u := by
        rw [hu, List.countP_eq_length_filter]
      have htake : (front ++ back).take (e + (n - u)) = front.take e ++ segment := by
        rw [List.take_append_of_le_length hreach, List.take_add]
      have hown : ((front.take e).filter skip ++ segment ++
          (front ++ back).drop (e + (n - u))).Nodup := by
        rw [List.append_assoc, ← hdrop]
        refine hnodup.sublist ?_
        conv_rhs => rw [← List.take_append_drop e (front ++ back)]
        rw [List.take_append_of_le_length hle]
        exact (List.filter_sublist).append (List.Sublist.refl _)
      have hsegmentClear : ∀ y ∈ segment, skip y = true ∨ accept y = true := fun y hy =>
        hclear y (List.mem_of_mem_drop (List.mem_of_mem_take hy))
      rw [hdrop, ← List.append_assoc, htake, List.filter_append]
      by_cases hroom : u ≤ n
      · rw [pass_of_clear hown ?_ ?_, List.filter_append, List.filter_filter]
        · simp
        · intro y hy
          rcases List.mem_append.mp hy with hy | hy
          · exact .inl (List.mem_filter.mp hy).2
          · exact hsegmentClear y hy
        · rw [List.length_append, hskipped, hlength]
          omega
      · -- the skipped entries fill the batch
        have hempty : segment = [] := List.length_eq_zero_iff.mp (by omega)
        rw [hempty, List.append_nil, List.filter_nil, List.append_nil, pass,
          List.take_append_of_le_length (by omega)]
        refine List.filter_eq_self.mpr fun y _ => ?_
        simp only [decide_eq_true_eq]
        intro htaken
        obtain ⟨hmem, hskip, -⟩ := of_mem_taken htaken
        rw [(List.mem_filter.mp (List.mem_of_mem_take hmem)).2] at hskip
        cases hskip

theorem passes_succ_sublist : (passes skip accept n (k + 1) queue).Sublist
    (passes skip accept n k queue) :=
  List.filter_sublist

/-- The pass that gets as far as an entry takes it. -/
theorem notMem_pass_of_reach (hnodup : (front ++ x :: back).Nodup) (hskip : skip x = false)
    (haccept : accept x = true) (hclear : ∀ y ∈ front, skip y = true ∨ accept y = true)
    (hle : reach skip n (front ++ x :: back) k ≤ front.length)
    (hlt : front.length < reach skip n (front ++ x :: back) (k + 1)) :
    x ∉ passes skip accept n (k + 1) (front ++ x :: back) := by
  have hqueue := passes_of_clear hnodup hclear hle
  have hnext : reach skip n (front ++ x :: back) (k + 1) = reach skip n (front ++ x :: back) k +
    (n - ((front ++ x :: back).take (reach skip n (front ++ x :: back) k)).countP skip) := rfl
  rw [hnext] at hlt
  rw [passes, hqueue]
  generalize reach skip n (front ++ x :: back) k = e at *
  rw [List.take_append_of_le_length hle, List.drop_append_of_le_length hle] at *
  -- the skipped entries, and those before `x` not looked at yet, fit the batch with `x`
  have hlength : ((front.take e).filter skip ++ front.drop e).length < n := by
    rw [List.length_append, ← List.countP_eq_length_filter, List.length_drop]
    omega
  have hbatch : ∃ rest, ((front.take e).filter skip ++ (front.drop e ++ x :: back)).take n =
      ((front.take e).filter skip ++ front.drop e) ++ x :: rest := by
    obtain ⟨m, rfl⟩ := Nat.exists_eq_add_of_lt hlength
    refine ⟨back.take m, ?_⟩
    rw [← List.append_assoc, Nat.add_assoc, List.take_length_add_append, List.take_succ_cons]
  obtain ⟨rest, hbatch⟩ := hbatch
  have hbefore : ∀ y ∈ (front.take e).filter skip ++ front.drop e,
      skip y = true ∨ accept y = true := by
    intro y hy
    rcases List.mem_append.mp hy with hy | hy
    · exact .inl (List.mem_filter.mp hy).2
    · exact hclear y (List.mem_of_mem_drop hy)
  have htaken : x ∈ taken skip accept
      (((front.take e).filter skip ++ (front.drop e ++ x :: back)).take n) := by
    rw [hbatch, taken_append hbefore]
    simp [taken, hskip, haccept]
  intro hmem
  have hkept := (List.mem_filter.mp hmem).2
  simp only [decide_eq_true_eq] at hkept
  exact hkept htaken

/-- **What passes take.**  An entry that would be taken is taken by one of the first `k` passes
exactly when nothing before it is refused and the passes get as far as its place. -/
theorem notMem_passes_iff (hnodup : (front ++ x :: back).Nodup) (hskip : skip x = false)
    (haccept : accept x = true) :
    x ∉ passes skip accept n k (front ++ x :: back) ↔
      (∀ y ∈ front, skip y = true ∨ accept y = true) ∧
        front.length < reach skip n (front ++ x :: back) k := by
  constructor
  · intro hout
    have hclear : ∀ y ∈ front, skip y = true ∨ accept y = true := by
      intro y hy
      by_contra hrefused
      simp only [not_or, Bool.not_eq_true] at hrefused
      obtain ⟨before, after, rfl⟩ := List.append_of_mem hy
      rw [List.append_assoc, List.cons_append] at hnodup hout
      obtain ⟨front', back', heq, hback⟩ :=
        passes_of_refused (n := n) (k := k) hnodup hrefused.1 hrefused.2
      have hlater := hback x (List.mem_append_right _ List.mem_cons_self)
      exact hout (heq ▸ List.mem_append_right _ (List.mem_cons_of_mem _ hlater))
    refine ⟨hclear, ?_⟩
    by_contra hfar
    have hle : reach skip n (front ++ x :: back) k ≤ front.length := by omega
    rw [passes_of_clear hnodup hclear hle, List.drop_append_of_le_length hle] at hout
    simp at hout
  · rintro ⟨hclear, hlt⟩
    induction k with
    | zero => exact absurd hlt (Nat.not_lt_zero _)
    | succ k ih =>
        by_cases hbefore : front.length < reach skip n (front ++ x :: back) k
        · exact fun hmem => ih hbefore (passes_succ_sublist.mem hmem)
        · exact notMem_pass_of_reach hnodup hskip haccept hclear (by omega) hlt

end Passes

section Sorting

variable {β : Type} {r : β → β → Prop} [DecidableRel r] [IsTrans β r] {p : β → Bool}

theorem filter_orderedInsert (x : β) {xs : List β} (hsorted : xs.Pairwise r) :
    (xs.orderedInsert r x).filter p =
      if p x then (xs.filter p).orderedInsert r x else xs.filter p := by
  induction xs with
  | nil => by_cases hx : p x <;> simp [hx]
  | cons y ys ih =>
      obtain ⟨hy, hys⟩ := List.pairwise_cons.mp hsorted
      have ih := ih hys
      by_cases hxy : r x y
      · have hall : ∀ z ∈ (y :: ys).filter p, r x z := by
          intro z hz
          rcases List.mem_cons.mp (List.mem_filter.mp hz).1 with rfl | hz
          · exact hxy
          · exact IsTrans.trans _ _ _ hxy (hy z hz)
        rw [List.orderedInsert_cons_of_le _ _ hxy]
        by_cases hx : p x
        · rw [if_pos hx, List.filter_cons_of_pos hx]
          cases hrest : (y :: ys).filter p with
          | nil => rfl
          | cons z zs =>
              rw [hrest] at hall
              rw [List.orderedInsert_cons_of_le _ _ (hall z List.mem_cons_self)]
        · rw [if_neg hx, List.filter_cons_of_neg hx]
      · rw [List.orderedInsert_of_not_le _ _ hxy]
        by_cases hp : p y
        · rw [List.filter_cons_of_pos hp, List.filter_cons_of_pos hp, ih]
          by_cases hx : p x
          · rw [if_pos hx, if_pos hx, List.orderedInsert_of_not_le _ _ hxy]
          · rw [if_neg hx, if_neg hx]
        · rw [List.filter_cons_of_neg hp, List.filter_cons_of_neg hp, ih]

/-- Taking entries out of a list and sorting it. -/
theorem filter_insertionSort [Std.Total r] (xs : List β) :
    (xs.insertionSort r).filter p = (xs.filter p).insertionSort r := by
  induction xs with
  | nil => rfl
  | cons x xs ih =>
      rw [List.insertionSort_cons, filter_orderedInsert x (List.pairwise_insertionSort r xs), ih]
      by_cases hx : p x
      · rw [if_pos hx, List.filter_cons_of_pos hx, List.insertionSort_cons]
      · rw [if_neg hx, List.filter_cons_of_neg hx]

end Sorting

end Rustvello.Queue
