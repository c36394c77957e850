import Mathlib.Data.List.Basic

/-!
# Escaped text

A text may be written with a code for each of its characters.  Two questions about such a
code come up wherever strings are quoted:

* `Readable` — can a quoted text be read back?  It can where no code starts with the mark
  that ends the text and codes are told apart by how they start;
* `Lengthens` — do two ways of writing agree?  Where the second writes every part like the
  first or longer, they agree exactly on the parts it does not lengthen.
-/

namespace Rustvello.Text

variable {α β : Type*}

/-! ## Reading a quoted text back -/

/-- Codes are told apart by how they start, and none starts with the mark. -/
structure Readable (code : α → List β) (mark : β) : Prop where
  apart : ∀ {c d : α} {x y : List β}, code c ++ x = code d ++ y → c = d ∧ x = y
  unmarked : ∀ (c : α) (x y : List β), code c ++ x ≠ mark :: y

/-- The first bare mark ends the text. -/
theorem Readable.flatMap_inj {code : α → List β} {mark : β} (h : Readable code mark)
    {cs ds : List α} {r r' : List β}
    (heq : cs.flatMap code ++ mark :: r = ds.flatMap code ++ mark :: r') : cs = ds ∧ r = r' := by
  induction cs generalizing ds with
  | nil =>
      cases ds with
      | nil => simpa using heq
      | cons d ds =>
          rw [List.flatMap_cons, List.append_assoc] at heq
          exact absurd heq.symm (h.unmarked d _ _)
  | cons c cs ih =>
      rw [List.flatMap_cons, List.append_assoc] at heq
      cases ds with
      | nil => exact absurd heq (h.unmarked c _ _)
      | cons d ds =>
          rw [List.flatMap_cons, List.append_assoc] at heq
          obtain ⟨rfl, hrest⟩ := h.apart heq
          obtain ⟨rfl, rfl⟩ := ih hrest
          exact ⟨rfl, rfl⟩

/-! ## Comparing two ways of writing -/

/-- The second text is the first where `plain` holds, and longer where it does not. -/
structure Lengthens (plain : Bool) (xs ys : List α) : Prop where
  same : plain = true → xs = ys
  longer : plain = false → xs.length < ys.length

namespace Lengthens

variable {p q : Bool} {xs ys xs' ys' : List α}

theorem refl (xs : List α) : Lengthens true xs xs :=
  ⟨fun _ => rfl, fun h => absurd h (by decide)⟩

theorem length_le (h : Lengthens p xs ys) : xs.length ≤ ys.length := by
  cases p with
  | true => exact Nat.le_of_eq (congrArg List.length (h.same rfl))
  | false => exact Nat.le_of_lt (h.longer rfl)

theorem append (h : Lengthens p xs ys) (h' : Lengthens q xs' ys') :
    Lengthens (p && q) (xs ++ xs') (ys ++ ys') := by
  have hle := h.length_le
  have hle' := h'.length_le
  constructor
  · intro hpq
    rw [Bool.and_eq_true] at hpq
    rw [h.same hpq.1, h'.same hpq.2]
  · intro hpq
    rw [List.length_append, List.length_append]
    rcases Bool.and_eq_false_iff.mp hpq with hp | hq
    · have := h.longer hp
      omega
    · have := h'.longer hq
      omega

/-- What both texts start with changes nothing. -/
theorem append_left (xs : List α) (h : Lengthens p xs' ys') :
    Lengthens p (xs ++ xs') (xs ++ ys') := by
  simpa using (refl xs).append h

theorem append_right (h : Lengthens p xs ys) (xs' : List α) :
    Lengthens p (xs ++ xs') (ys ++ xs') := by
  simpa using h.append (refl xs')

/-- Codes of single characters. -/
theorem flatMap {code code' : β → List α} {plain : β → Bool}
    (h : ∀ c, Lengthens (plain c) (code c) (code' c)) (cs : List β) :
    Lengthens (cs.all plain) (cs.flatMap code) (cs.flatMap code') := by
  induction cs with
  | nil => exact refl []
  | cons c cs ih => simpa using (h c).append ih

end Lengthens

/-- The parts of two texts, one by one. -/
inductive PartsLengthen : Bool → List (List α) → List (List α) → Prop
  | nil : PartsLengthen true [] []
  | cons {p q : Bool} {xs ys : List α} {xss yss : List (List α)} (head : Lengthens p xs ys)
      (tail : PartsLengthen q xss yss) : PartsLengthen (p && q) (xs :: xss) (ys :: yss)

/-- Separators change nothing. -/
theorem PartsLengthen.intercalate {p : Bool} {xss yss : List (List α)}
    (h : PartsLengthen p xss yss) (sep : List α) :
    Lengthens p (sep.intercalate xss) (sep.intercalate yss) := by
  induction h with
  | nil => exact Lengthens.refl _
  | cons head tail ih =>
      cases tail with
      | nil => simpa using head
      | cons next rest =>
          rw [List.intercalate_cons_cons, List.intercalate_cons_cons]
          exact (head.append_right sep).append ih

end Rustvello.Text
