import Rustvello.Text.Search

/-!
# Cutting a text at a byte offset

An offset into a text counts bytes of UTF-8.  A cut succeeds only between two letters; the
offsets that a search returns are such places.

* `cutAt` — both sides of a byte offset, `none` inside of a letter or beyond the end;
* `findBytes`, `rfindBytes` — where a word occurs first, and a letter last;
* `cutAt_findBytes`, `cutAt_rfindBytes` — cuts at and after what was found, compared with
  `splitFirst` and `splitLast`.
-/

namespace Rustvello.Text

/-- `&s[..n]` and `&s[n..]` -/
def cutAt : Nat → List Char → Option (List Char × List Char)
  | 0, text => some ([], text)
  | _ + 1, [] => none
  | n + 1, c :: text =>
      if c.utf8Size ≤ n + 1 then
        (cutAt (n + 1 - c.utf8Size) text).map fun sides => (c :: sides.1, sides.2)
      else none

/-- `find` for a word. -/
def findBytes (word : List Char) : List Char → Option Nat
  | [] => if word = [] then some 0 else none
  | c :: text =>
      if word <+: c :: text then some 0 else (findBytes word text).map (c.utf8Size + ·)

/-- `rfind` for a letter. -/
def rfindBytes (sep : Char) : List Char → Option Nat
  | [] => none
  | c :: text =>
      match rfindBytes sep text with
      | some n => some (c.utf8Size + n)
      | none => if c = sep then some 0 else none

variable {front back text word before after : List Char} {sep : Char}

@[simp] theorem bytes_append (front back : List Char) :
    bytes (front ++ back) = bytes front + bytes back := by
  simp [bytes]

/-- A cut after whole letters. -/
theorem cutAt_append (front back : List Char) :
    cutAt (bytes front) (front ++ back) = some (front, back) := by
  induction front with
  | nil => simp [cutAt]
  | cons c front ih =>
      have hpos := c.utf8Size_pos
      obtain ⟨n, hn⟩ : ∃ n, bytes (c :: front) = n + 1 :=
        ⟨c.utf8Size - 1 + bytes front, by rw [bytes_cons]; omega⟩
      have hfits : c.utf8Size ≤ n + 1 := by
        rw [← hn, bytes_cons]
        omega
      have hrest : n + 1 - c.utf8Size = bytes front := by
        rw [← hn, bytes_cons]
        omega
      rw [hn, List.cons_append, cutAt, if_pos hfits, hrest, ih]
      rfl

/-- A text that is split at a word is made of its parts and the word. -/
theorem of_splitFirst (h : splitFirst word text = some (before, after)) :
    text = before ++ word ++ after := by
  induction text generalizing before with
  | nil =>
      rw [splitFirst] at h
      split at h
      · rename_i hword
        cases h
        rw [hword]
        rfl
      · cases h
  | cons c text ih =>
      rw [splitFirst] at h
      split at h
      · rename_i hprefix
        cases h
        exact (List.prefix_iff_eq_append.mp hprefix).symm
      · obtain ⟨⟨front, back⟩, hinner, hparts⟩ := Option.map_eq_some_iff.mp h
        obtain ⟨rfl, rfl⟩ := Prod.mk.inj hparts
        rw [ih hinner]
        rfl

/-- The offset of the first occurrence is the length of what stands before it. -/
theorem findBytes_eq (word text : List Char) :
    findBytes word text = (splitFirst word text).map fun parts => bytes parts.1 := by
  induction text with
  | nil =>
      rw [findBytes, splitFirst]
      split <;> rfl
  | cons c text ih =>
      rw [findBytes, splitFirst]
      split
      · rfl
      · rw [ih]
        cases splitFirst word text with
        | none => rfl
        | some parts => exact congrArg some (bytes_cons c parts.1).symm

theorem rfindBytes_eq (sep : Char) (text : List Char) :
    rfindBytes sep text = (splitLast sep text).map fun parts => bytes parts.1 := by
  induction text with
  | nil => rfl
  | cons c text ih =>
      rw [rfindBytes, splitLast, ih]
      cases splitLast sep text with
      | some parts => simp
      | none =>
          dsimp only [Option.map_none]
          split <;> rfl

/-- **Cuts at and after a word that was found** succeed, and leave what stands before and
after it. -/
theorem cutAt_findBytes (h : splitFirst word text = some (before, after)) :
    cutAt (bytes before) text = some (before, word ++ after) ∧
      cutAt (bytes before + bytes word) text = some (before ++ word, after) := by
  obtain rfl := of_splitFirst h
  constructor
  · rw [List.append_assoc]
    exact cutAt_append before (word ++ after)
  · rw [← bytes_append]
    exact cutAt_append (before ++ word) after

/-- The same for the last occurrence of a letter. -/
theorem cutAt_rfindBytes (h : splitLast sep text = some (before, after)) :
    cutAt (bytes before) text = some (before, sep :: after) ∧
      cutAt (bytes before + sep.utf8Size) text = some (before ++ [sep], after) := by
  obtain ⟨rfl, -⟩ := of_splitLast h
  constructor
  · exact cutAt_append before (sep :: after)
  · have hcut := cutAt_append (before ++ [sep]) after
    simpa [List.append_assoc] using hcut

end Rustvello.Text
