import Mathlib.Data.List.Basic
import Mathlib.Data.String.Basic
import Mathlib.Tactic.IntervalCases
import Mathlib.Tactic.Ring

/-!
# Columns of digits

Numbers written in columns of a fixed width are ordered as texts as they are as numbers, column
by column.  A fraction whose last groups of digits are left out where they are zero is still
ordered so, when what follows begins with a letter before the digits.

* `fixedWidth` — the last digits of a number; `readDigits` reads them;
* `columns`, `readColumns` — several of them, each followed by its separator;
* `trimmed` — groups of one width, without those of the end that are zero;
* `fixedWidth_lt`, `columns_lt`, `trimmed_lt` — the order of the texts.
-/

namespace Rustvello.Text

/-! ## One column -/

def digit (n : Nat) : Char :=
  Char.ofNat (48 + n % 10)

/-- The last `width` digits of `n`. -/
def fixedWidth : Nat → Nat → List Char
  | 0, _ => []
  | width + 1, n => digit (n / 10 ^ width) :: fixedWidth width n

/-- The number with these digits. -/
def readDigits (cs : List Char) : Nat :=
  cs.foldl (fun n c => 10 * n + (c.toNat - 48)) 0

theorem toNat_digit (n : Nat) : (digit n).toNat = 48 + n % 10 := by
  unfold digit
  have hdigit : n % 10 < 10 := Nat.mod_lt _ (by decide)
  interval_cases n % 10 <;> rfl

theorem digit_lt {a b : Nat} (h : a % 10 < b % 10) : digit a < digit b := by
  show (digit a).toNat < (digit b).toNat
  rw [toNat_digit, toNat_digit]
  exact Nat.add_lt_add_left h 48

theorem digit_congr {a b : Nat} (h : a % 10 = b % 10) : digit a = digit b := by
  unfold digit
  rw [h]

theorem isDigit_digit (n : Nat) : (digit n).isDigit = true := by
  unfold digit
  have hdigit : n % 10 < 10 := Nat.mod_lt _ (by decide)
  interval_cases n % 10 <;> rfl

section Column

variable {width n m : Nat}

theorem isDigit_of_mem_fixedWidth {c : Char} (h : c ∈ fixedWidth width n) : c.isDigit = true := by
  induction width with
  | zero => cases h
  | succ width ih =>
      rcases List.mem_cons.mp h with rfl | hrest
      · exact isDigit_digit _
      · exact ih hrest

@[simp] theorem length_fixedWidth (width n : Nat) : (fixedWidth width n).length = width := by
  induction width with
  | zero => rfl
  | succ width ih => rw [fixedWidth, List.length_cons, ih]

/-- A column shows the number up to its width. -/
theorem fixedWidth_congr (h : n % 10 ^ width = m % 10 ^ width) :
    fixedWidth width n = fixedWidth width m := by
  induction width with
  | zero => rfl
  | succ width ih =>
      have hfirst := congrArg (· / 10 ^ width) h
      have hrest := congrArg (· % 10 ^ width) h
      simp only [pow_succ, Nat.mod_mul_right_div_self] at hfirst
      simp only [Nat.mod_mod_of_dvd _ (Nat.pow_dvd_pow 10 (Nat.le_succ width))] at hrest
      rw [fixedWidth, fixedWidth, digit_congr hfirst, ih hrest]

/-- The first of these digits decide, whatever follows. -/
theorem fixedWidth_lt (h : n % 10 ^ width < m % 10 ^ width) (s t : List Char) :
    fixedWidth width n ++ s < fixedWidth width m ++ t := by
  induction width with
  | zero =>
      rw [pow_zero, Nat.mod_one, Nat.mod_one] at h
      exact absurd h (lt_irrefl 0)
  | succ width ih =>
      rw [Nat.mod_pow_succ, Nat.mod_pow_succ] at h
      rw [fixedWidth, fixedWidth, List.cons_append, List.cons_append, List.cons_lt_cons_iff]
      rcases lt_trichotomy (n / 10 ^ width % 10) (m / 10 ^ width % 10) with hlt | heq | hgt
      · exact .inl (digit_lt hlt)
      · rw [heq] at h
        exact .inr ⟨digit_congr heq, ih (Nat.lt_of_add_lt_add_right h)⟩
      · -- the leading digit outweighs the others
        have hrest : m % 10 ^ width < 10 ^ width := Nat.mod_lt _ (Nat.pow_pos (by decide))
        have hmore : 10 ^ width * (m / 10 ^ width % 10) + 10 ^ width ≤
            10 ^ width * (n / 10 ^ width % 10) := by
          rw [← Nat.mul_succ]
          exact Nat.mul_le_mul_left _ hgt
        omega

/-- A column in two parts. -/
theorem fixedWidth_append (first rest n : Nat) :
    fixedWidth first (n / 10 ^ rest) ++ fixedWidth rest n = fixedWidth (first + rest) n := by
  induction first with
  | zero => rw [Nat.zero_add, fixedWidth, List.nil_append]
  | succ first ih =>
      rw [Nat.succ_add, fixedWidth, fixedWidth, List.cons_append, ih, Nat.div_div_eq_div_mul,
        ← pow_add, Nat.add_comm rest first]

theorem readDigits_fixedWidth (h : n < 10 ^ width) : readDigits (fixedWidth width n) = n := by
  have hfold : ∀ width start, (fixedWidth width n).foldl
      (fun n c => 10 * n + (c.toNat - 48)) start = start * 10 ^ width + n % 10 ^ width := by
    intro width
    induction width with
    | zero =>
        intro start
        rw [pow_zero, Nat.mod_one, Nat.mul_one]
        rfl
    | succ width ih =>
        intro start
        rw [fixedWidth, List.foldl_cons, ih, toNat_digit, Nat.add_sub_cancel_left, Nat.mod_pow_succ,
          pow_succ]
        ring
  unfold readDigits
  rw [hfold, Nat.mod_eq_of_lt h, Nat.zero_mul, Nat.zero_add]

end Column

/-! ## Several columns -/

/-- Each number in its width, followed by its separator. -/
def columns : List (Nat × List Char) → List Nat → List Char
  | (width, separator) :: layout, n :: ns =>
      fixedWidth width n ++ (separator ++ columns layout ns)
  | _, _ => []

/-- The numbers of the columns, and what stands after the last one. -/
def readColumns : List (Nat × List Char) → List Char → List Nat × List Char
  | [], cs => ([], cs)
  | (width, separator) :: layout, cs =>
      let rest := readColumns layout (cs.drop (width + separator.length))
      (readDigits (cs.take width) :: rest.1, rest.2)

/-- Every number has room in its column. -/
def Fits (layout : List (Nat × List Char)) (ns : List Nat) : Prop :=
  List.Forall₂ (fun column n => n < 10 ^ column.1) layout ns

section Columns

variable {layout : List (Nat × List Char)} {ns ms : List Nat}

/-- The first column in which the numbers differ decides. -/
theorem columns_lt (hn : Fits layout ns) (hm : Fits layout ms) (h : ns < ms) (s t : List Char) :
    columns layout ns ++ s < columns layout ms ++ t := by
  induction hn generalizing ms with
  | nil =>
      cases hm
      exact absurd h (lt_irrefl _)
  | @cons column n layout ns hfirst hrest ih =>
      obtain ⟨width, separator⟩ := column
      cases hm with
      | @cons _ m _ ms hfirst' hrest' =>
          simp only [columns, List.append_assoc]
          rcases List.cons_lt_cons_iff.mp h with hlt | ⟨rfl, hlt⟩
          · refine fixedWidth_lt ?_ _ _
            rwa [Nat.mod_eq_of_lt hfirst, Nat.mod_eq_of_lt hfirst']
          · exact List.append_left_lt (List.append_left_lt (ih hrest' hlt))

theorem readColumns_columns (h : Fits layout ns) (tail : List Char) :
    readColumns layout (columns layout ns ++ tail) = (ns, tail) := by
  induction h with
  | nil => rfl
  | @cons column n layout ns hfirst hrest ih =>
      obtain ⟨width, separator⟩ := column
      rw [columns, readColumns, List.append_assoc, List.append_assoc,
        List.take_left' (length_fixedWidth width n), readDigits_fixedWidth hfirst,
        ← List.drop_drop, List.drop_left' (length_fixedWidth width n), List.drop_left' rfl, ih]

end Columns

/-! ## Fractions -/

/-- Groups of digits up to the last one that is not zero. -/
def trimmed (width : Nat) : List Nat → List Char
  | [] => []
  | group :: groups =>
      if ∀ g ∈ group :: groups, g = 0 then []
      else fixedWidth width group ++ trimmed width groups

/-- Nothing comes before zeros. -/
theorem not_lt_of_zero {groups groups' : List Nat} (hlength : groups.length = groups'.length)
    (hzero : ∀ g ∈ groups', g = 0) : ¬ groups < groups' := by
  induction groups generalizing groups' with
  | nil =>
      rw [List.eq_nil_of_length_eq_zero hlength.symm]
      exact lt_irrefl _
  | cons group groups ih =>
      cases groups' with
      | nil => cases hlength
      | cons group' groups' =>
          obtain ⟨rfl, hrest⟩ := List.forall_mem_cons.mp hzero
          intro h
          rcases List.cons_lt_cons_iff.mp h with hlt | ⟨-, hlt⟩
          · exact Nat.not_lt_zero _ hlt
          · exact ih (Nat.succ.inj hlength) hrest hlt

/-- Leaving zeros out does not change the order, where the end comes before every digit. -/
theorem trimmed_lt {width : Nat} (hwidth : 0 < width) {c : Char} (hc : ∀ n, c < digit n)
    (cs : List Char) {groups groups' : List Nat} (hlength : groups.length = groups'.length)
    (hgroups : ∀ g ∈ groups, g < 10 ^ width) (hgroups' : ∀ g ∈ groups', g < 10 ^ width)
    (h : groups < groups') :
    trimmed width groups ++ c :: cs < trimmed width groups' ++ c :: cs := by
  induction groups generalizing groups' with
  | nil =>
      rw [List.eq_nil_of_length_eq_zero hlength.symm] at h
      exact absurd h (lt_irrefl _)
  | cons group groups ih =>
      cases groups' with
      | nil => cases hlength
      | cons group' groups' =>
          have hnonzero : ¬ ∀ g ∈ group' :: groups', g = 0 :=
            fun hzero => not_lt_of_zero hlength hzero h
          rw [trimmed, trimmed, if_neg hnonzero]
          split
          · -- the end against a digit
            obtain ⟨width, rfl⟩ := Nat.exists_eq_succ_of_ne_zero (Nat.pos_iff_ne_zero.mp hwidth)
            exact List.cons_lt_cons_iff.mpr (.inl (hc _))
          · rw [List.forall_mem_cons] at hgroups hgroups'
            rw [List.append_assoc, List.append_assoc]
            rcases List.cons_lt_cons_iff.mp h with hlt | ⟨rfl, hlt⟩
            · refine fixedWidth_lt ?_ _ _
              rwa [Nat.mod_eq_of_lt hgroups.1, Nat.mod_eq_of_lt hgroups'.1]
            · exact List.append_left_lt
                (ih (Nat.succ.inj hlength) hgroups.2 hgroups'.2 hlt)

end Rustvello.Text
