import Mathlib.Algebra.GroupWithZero.Nat
import Mathlib.Data.List.Infix

/-!
# Splitting a text at a mark

A reader of a compound name cuts it at the first occurrence of one mark and at the last
occurrence of another.

* `splitFirst` — the two sides of the first occurrence of a word;
* `splitLast` — the two sides of the last occurrence of a letter;
* `bytes`, `takeBytes`, `dropBytes` — the length of a text in UTF-8, and the parts before
  and after a byte offset;
* `splitFirst_append`, `splitLast_append`, `takeBytes_append`, `dropBytes_append` — what a
  text put together from its parts is cut into.
-/

namespace Rustvello.Text

section Marks

variable {α : Type} [DecidableEq α]

/-- What stands before and after the first occurrence of the word. -/
def splitFirst (word : List α) : List α → Option (List α × List α)
  | [] => if word = [] then some ([], []) else none
  | x :: xs =>
      if word <+: x :: xs then some ([], (x :: xs).drop word.length)
      else (splitFirst word xs).map fun parts => (x :: parts.1, parts.2)

/-- What stands before and after the last occurrence of the letter. -/
def splitLast (sep : α) : List α → Option (List α × List α)
  | [] => none
  | x :: xs =>
      match splitLast sep xs with
      | some (before, after) => some (x :: before, after)
      | none => if x = sep then some ([], xs) else none

variable {sep x : α} {word xs ys before after : List α}

/-- A word is found where it starts, if its first letter does not occur earlier. -/
theorem splitFirst_append (h : x ∉ xs) :
    splitFirst (x :: word) (xs ++ x :: word ++ ys) = some (xs, ys) := by
  induction xs with
  | nil =>
      have hhere : x :: word <+: x :: (word ++ ys) := ⟨ys, rfl⟩
      simp [splitFirst, hhere]
  | cons y xs ih =>
      have hother : ¬ x :: word <+: y :: (xs ++ x :: word ++ ys) := by
        rw [List.cons_prefix_cons]
        exact fun hstart => h (hstart.1 ▸ List.mem_cons_self ..)
      have hrest := ih fun hmem => h (List.mem_cons_of_mem _ hmem)
      simp only [List.cons_append] at hother hrest ⊢
      rw [splitFirst, if_neg hother, hrest]
      rfl

theorem splitLast_eq_none_iff : splitLast sep xs = none ↔ sep ∉ xs := by
  induction xs with
  | nil => simp [splitLast]
  | cons y xs ih =>
      cases hrest : splitLast sep xs with
      | some parts =>
          have hmem : sep ∈ xs := by
            by_contra hfree
            rw [ih.mpr hfree] at hrest
            cases hrest
          simp [splitLast, hrest, hmem]
      | none =>
          have hfree := ih.mp hrest
          by_cases heq : y = sep
          · simp [splitLast, hrest, heq]
          · simp [splitLast, hrest, heq, hfree, Ne.symm heq]

/-- The last mark is the one after which there is none. -/
theorem splitLast_append (h : sep ∉ ys) : splitLast sep (xs ++ sep :: ys) = some (xs, ys) := by
  induction xs with
  | nil => simp [splitLast, splitLast_eq_none_iff.mpr h]
  | cons x xs ih => simp [splitLast, ih]

/-- A text that is split is made of its parts, and the second one is free of the mark. -/
theorem of_splitLast (h : splitLast sep xs = some (before, after)) :
    xs = before ++ sep :: after ∧ sep ∉ after := by
  induction xs generalizing before with
  | nil => simp [splitLast] at h
  | cons x xs ih =>
      cases hrest : splitLast sep xs with
      | some parts =>
          obtain ⟨front, back⟩ := parts
          simp only [splitLast, hrest, Option.some.injEq, Prod.mk.injEq] at h
          obtain ⟨rfl, rfl⟩ := h
          obtain ⟨hxs, hfree⟩ := ih hrest
          exact ⟨by rw [hxs, List.cons_append], hfree⟩
      | none =>
          have hfree := splitLast_eq_none_iff.mp hrest
          simp only [splitLast, hrest] at h
          split at h
          · rename_i heq
            cases h
            exact ⟨by rw [heq, List.nil_append], hfree⟩
          · cases h

end Marks

section Bytes

/-- The length of a text in UTF-8. -/
def bytes (text : List Char) : Nat :=
  (text.map Char.utf8Size).sum

/-- The text before a byte offset. -/
def takeBytes : Nat → List Char → List Char
  | _, [] => []
  | n, c :: text => if n = 0 then [] else c :: takeBytes (n - c.utf8Size) text

/-- The text from a byte offset on. -/
def dropBytes : Nat → List Char → List Char
  | _, [] => []
  | n, c :: text => if n = 0 then c :: text else dropBytes (n - c.utf8Size) text

variable {front back : List Char}

@[simp] theorem bytes_nil : bytes [] = 0 :=
  rfl

@[simp] theorem bytes_cons (c : Char) (text : List Char) :
    bytes (c :: text) = c.utf8Size + bytes text := by
  simp [bytes]

@[simp] theorem takeBytes_zero (text : List Char) : takeBytes 0 text = [] := by
  cases text <;> simp [takeBytes]

@[simp] theorem dropBytes_zero (text : List Char) : dropBytes 0 text = text := by
  cases text <;> simp [dropBytes]

theorem takeBytes_append : takeBytes (bytes front) (front ++ back) = front := by
  induction front with
  | nil => simp
  | cons c front ih =>
      have hpos := c.utf8Size_pos
      have hne : c.utf8Size + bytes front ≠ 0 := by omega
      have hrest : c.utf8Size + bytes front - c.utf8Size = bytes front := by omega
      simp only [bytes_cons, List.cons_append, takeBytes, if_neg hne, hrest, ih]

theorem dropBytes_append : dropBytes (bytes front) (front ++ back) = back := by
  induction front with
  | nil => simp
  | cons c front ih =>
      have hpos := c.utf8Size_pos
      have hne : c.utf8Size + bytes front ≠ 0 := by omega
      have hrest : c.utf8Size + bytes front - c.utf8Size = bytes front := by omega
      simp only [bytes_cons, List.cons_append, dropBytes, if_neg hne, hrest, ih]

end Bytes

end Rustvello.Text
