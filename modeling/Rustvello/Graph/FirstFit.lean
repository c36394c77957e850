import Mathlib.Data.Finset.Card
import Mathlib.Data.Finset.Image
import Mathlib.Data.List.Pairwise
import Mathlib.Order.Bounds.Basic

/-!
# Colouring by opening a colour late

Items come one after the other and each gets a colour.  A new colour is taken only when every
colour in use has an item in conflict with the new one.

* `Greedy` — such a run: the items with their colours, and the number of colours;
* `Greedy.apart` — items of one colour are not in conflict;
* `Greedy.exists_clique` — as many items as there are colours are pairwise in conflict, provided
  that earlier items in conflict with a later one are in conflict with each other.
-/

namespace Rustvello.Graph

variable {ι : Type} {conflict earlier : ι → ι → Prop}

/-- A run that opens a colour only when no colour in use is free of conflicts. -/
inductive Greedy (conflict earlier : ι → ι → Prop) : List (ι × Nat) → Nat → Prop
  | nil : Greedy conflict earlier [] 0
  | reuse {placed : List (ι × Nat)} {n colour : Nat} {x : ι} :
      Greedy conflict earlier placed n → (∀ p ∈ placed, earlier p.1 x) → colour < n →
        (∀ p ∈ placed, p.2 = colour → ¬ conflict p.1 x) →
          Greedy conflict earlier ((x, colour) :: placed) n
  | fresh {placed : List (ι × Nat)} {n : Nat} {x : ι} :
      Greedy conflict earlier placed n → (∀ p ∈ placed, earlier p.1 x) →
        (∀ colour < n, ∃ p ∈ placed, p.2 = colour ∧ conflict p.1 x) →
          Greedy conflict earlier ((x, n) :: placed) (n + 1)

/-- A set of coloured items, pairwise in conflict. -/
structure Clique (conflict : ι → ι → Prop) (placed : List (ι × Nat)) (q : Finset (ι × Nat)) :
    Prop where
  placed : ∀ p ∈ q, p ∈ placed
  pairwise : ∀ p ∈ q, ∀ p' ∈ q, p ≠ p' → conflict p.1 p'.1

namespace Greedy

variable {placed : List (ι × Nat)} {n : Nat}

theorem colour_lt (h : Greedy conflict earlier placed n) : ∀ p ∈ placed, p.2 < n := by
  induction h with
  | nil => exact fun _ hp => by cases hp
  | reuse _ _ hcolour _ ih => exact List.forall_mem_cons.mpr ⟨hcolour, ih⟩
  | fresh _ _ _ ih =>
      exact List.forall_mem_cons.mpr ⟨Nat.lt_succ_self _, fun p hp => (ih p hp).trans (Nat.lt_succ_self _)⟩

/-- Every colour is in use. -/
theorem exists_colour (h : Greedy conflict earlier placed n) :
    ∀ colour < n, ∃ p ∈ placed, p.2 = colour := by
  induction h with
  | nil => exact fun _ hcolour => absurd hcolour (Nat.not_lt_zero _)
  | reuse _ _ _ _ ih =>
      intro colour hcolour
      obtain ⟨p, hp, hpcolour⟩ := ih colour hcolour
      exact ⟨p, List.mem_cons_of_mem _ hp, hpcolour⟩
  | @fresh placed n x _ _ _ ih =>
      intro colour hcolour
      rcases Nat.lt_succ_iff_lt_or_eq.mp hcolour with hlt | rfl
      · obtain ⟨p, hp, hpcolour⟩ := ih colour hlt
        exact ⟨p, List.mem_cons_of_mem _ hp, hpcolour⟩
      · exact ⟨_, List.mem_cons_self, rfl⟩

/-- Items of one colour are not in conflict. -/
theorem apart (h : Greedy conflict earlier placed n) :
    placed.Pairwise fun p p' => p.2 = p'.2 → ¬ conflict p'.1 p.1 := by
  induction h with
  | nil => exact List.Pairwise.nil
  | reuse _ _ _ hfree ih =>
      exact List.pairwise_cons.mpr ⟨fun p hp hcolour => hfree p hp hcolour.symm, ih⟩
  | fresh hrun _ _ ih =>
      refine List.pairwise_cons.mpr ⟨fun p hp hcolour => ?_, ih⟩
      exact absurd hcolour.symm (hrun.colour_lt p hp).ne

theorem apart_of_ne (h : Greedy conflict earlier placed n) (hsymm : ∀ x y, conflict x y → conflict y x)
    {p p' : ι × Nat} (hp : p ∈ placed) (hp' : p' ∈ placed) (hne : p ≠ p') (hcolour : p.2 = p'.2) :
    ¬ conflict p.1 p'.1 := by
  have hboth : placed.Pairwise fun p p' => p.2 = p'.2 → ¬ conflict p.1 p'.1 :=
    h.apart.imp fun hapart hcolour hconflict => hapart hcolour (hsymm _ _ hconflict)
  have hrel : Std.Symm fun p p' : ι × Nat => p.2 = p'.2 → ¬ conflict p.1 p'.1 :=
    ⟨fun _ _ hapart hcolour hconflict => hapart hcolour.symm (hsymm _ _ hconflict)⟩
  exact hboth.forall hp hp' hne hcolour

/-- A clique has at most one item of each colour. -/
theorem card_le (h : Greedy conflict earlier placed n) (hsymm : ∀ x y, conflict x y → conflict y x)
    {q : Finset (ι × Nat)} (hq : Clique conflict placed q) : q.card ≤ n := by
  have hmaps : ∀ p ∈ q, p.2 ∈ Finset.range n := fun p hp =>
    Finset.mem_range.mpr (h.colour_lt p (hq.placed p hp))
  have hinj : Set.InjOn Prod.snd (q : Set (ι × Nat)) := by
    intro p hp p' hp' hcolour
    by_contra hne
    exact h.apart_of_ne hsymm (hq.placed p hp) (hq.placed p' hp') hne hcolour
      (hq.pairwise p hp p' hp' hne)
  calc q.card ≤ (Finset.range n).card := Finset.card_le_card_of_injOn Prod.snd hmaps hinj
    _ = n := Finset.card_range n

/-- The item that opened the last colour, and one item in conflict with it for every other colour,
are a clique. -/
theorem exists_clique [DecidableEq ι] (h : Greedy conflict earlier placed n)
    (hsymm : ∀ x y, conflict x y → conflict y x)
    (helim : ∀ x y z, earlier x z → earlier y z → conflict x z → conflict y z → conflict x y) :
    ∃ q, Clique conflict placed q ∧ q.card = n := by
  induction h with
  | nil => exact ⟨∅, ⟨fun _ hp => absurd hp (Finset.notMem_empty _),
      fun _ hp => absurd hp (Finset.notMem_empty _)⟩, rfl⟩
  | reuse _ _ _ _ ih =>
      obtain ⟨q, hq, hcard⟩ := ih
      exact ⟨q, ⟨fun p hp => List.mem_cons_of_mem _ (hq.placed p hp), hq.pairwise⟩, hcard⟩
  | @fresh placed n x hrun hearlier hfull _ =>
      have hinhabited : Nonempty (ι × Nat) := ⟨(x, n)⟩
      choose! witness hplaced hcolour hconflict using hfull
      have hinj : Set.InjOn witness (Finset.range n : Set Nat) := by
        intro i hi j hj heq
        rw [← hcolour i (Finset.mem_range.mp hi), ← hcolour j (Finset.mem_range.mp hj), heq]
      have hnew : (x, n) ∉ (Finset.range n).image witness := by
        intro hold
        obtain ⟨i, hi, heq⟩ := Finset.mem_image.mp hold
        have hin := Finset.mem_range.mp hi
        have hlt := hrun.colour_lt _ (hplaced i hin)
        rw [heq] at hlt
        exact lt_irrefl _ hlt
      refine ⟨insert (x, n) ((Finset.range n).image witness), ⟨?_, ?_⟩, ?_⟩
      · intro p hp
        rcases Finset.mem_insert.mp hp with rfl | hp
        · exact List.mem_cons_self
        · obtain ⟨i, hi, rfl⟩ := Finset.mem_image.mp hp
          exact List.mem_cons_of_mem _ (hplaced i (Finset.mem_range.mp hi))
      · intro p hp p' hp' hne
        rcases Finset.mem_insert.mp hp with rfl | hp <;>
          rcases Finset.mem_insert.mp hp' with rfl | hp'
        · exact absurd rfl hne
        · obtain ⟨i, hi, rfl⟩ := Finset.mem_image.mp hp'
          exact hsymm _ _ (hconflict i (Finset.mem_range.mp hi))
        · obtain ⟨i, hi, rfl⟩ := Finset.mem_image.mp hp
          exact hconflict i (Finset.mem_range.mp hi)
        · obtain ⟨i, hi, rfl⟩ := Finset.mem_image.mp hp
          obtain ⟨j, hj, rfl⟩ := Finset.mem_image.mp hp'
          have hi := Finset.mem_range.mp hi
          have hj := Finset.mem_range.mp hj
          exact helim _ _ x (hearlier _ (hplaced i hi)) (hearlier _ (hplaced j hj))
            (hconflict i hi) (hconflict j hj)
      · rw [Finset.card_insert_of_notMem hnew, Finset.card_image_of_injOn hinj, Finset.card_range]

end Greedy

end Rustvello.Graph
