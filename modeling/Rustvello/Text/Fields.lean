import Mathlib.Algebra.GroupWithZero.Nat
import Mathlib.Data.List.TakeWhile

/-!
# Records written as separated fields

A record is stored as one word: its fields, joined with a separator.  Reading it back
works only for fields the separator does not occur in, and a reader that looks for runs
of other letters also loses the empty ones.

* `beforeFirst`, `afterFirst` — the two sides of the first separator;
* `join`, `runs` — fields written as one word, and the non-empty runs of a word;
* `Intact` — a word of exactly so many fields, none empty;
* `intact_join_iff`, `runs_join` — when fields survive being written and read;
* `append_cons_inj_left`, `append_cons_inj_right`, `join_inj` — when a word determines
  the fields it was written from;
* `Marked`, `terminated_inj` — fields that may contain the separator, but not before a mark
  with which a field begins.
-/

namespace Rustvello.Text

variable {α : Type} [DecidableEq α]

/-- What stands before the first separator. -/
def beforeFirst (sep : α) (xs : List α) : List α :=
  xs.takeWhile fun x => x ≠ sep

/-- What stands after the first separator. -/
def afterFirst (sep : α) (xs : List α) : List α :=
  (xs.dropWhile fun x => x ≠ sep).tail

/-- The fields as one word. -/
def join (sep : α) (parts : List (List α)) : List α :=
  [sep].intercalate parts

/-- The longest runs of letters other than the separator. -/
def runs (sep : α) (xs : List α) : List (List α) :=
  (xs.splitOn sep).filter fun run => run ≠ []

/-- The word has `n` fields and none of them is empty. -/
def Intact (sep : α) (n : Nat) (xs : List α) : Prop :=
  (xs.splitOn sep).length = n ∧ [] ∉ xs.splitOn sep

instance (sep : α) (n : Nat) (xs : List α) : Decidable (Intact sep n xs) :=
  inferInstanceAs (Decidable (_ ∧ _))

variable {sep : α} {xs ys : List α} {parts : List (List α)}

theorem takeWhile_ne_append (h : sep ∉ xs) :
    (xs ++ sep :: ys).takeWhile (fun x => x ≠ sep) = xs := by
  have hxs : ∀ x ∈ xs, decide (x ≠ sep) = true := by
    intro x hx
    simpa using fun heq : x = sep => h (heq ▸ hx)
  rw [List.takeWhile_append_of_pos hxs]
  simp

theorem beforeFirst_append (h : sep ∉ xs) : beforeFirst sep (xs ++ sep :: ys) = xs :=
  takeWhile_ne_append h

theorem afterFirst_append (h : sep ∉ xs) : afterFirst sep (xs ++ sep :: ys) = ys := by
  have hxs : ∀ x ∈ xs, decide (x ≠ sep) = true := by
    intro x hx
    simpa using fun heq : x = sep => h (heq ▸ hx)
  unfold afterFirst
  rw [List.dropWhile_append_of_pos hxs]
  simp

theorem beforeFirst_of_notMem (h : sep ∉ xs) : beforeFirst sep xs = xs := by
  refine List.takeWhile_eq_self_iff.mpr fun x hx => ?_
  simpa using fun heq : x = sep => h (heq ▸ hx)

theorem afterFirst_of_notMem (h : sep ∉ xs) : afterFirst sep xs = [] := by
  have hnone : xs.dropWhile (fun x => x ≠ sep) = [] := by
    refine List.dropWhile_eq_nil_iff.mpr fun x hx => ?_
    simpa using fun heq : x = sep => h (heq ▸ hx)
  rw [afterFirst, hnone, List.tail_nil]

omit [DecidableEq α] in
theorem join_cons_cons (part next : List α) (rest : List (List α)) :
    join sep (part :: next :: rest) = part ++ sep :: join sep (next :: rest) := by
  simp [join, List.intercalate_cons_cons]

/-- Every separator starts another field. -/
theorem length_splitOn (sep : α) (xs : List α) :
    (xs.splitOn sep).length = xs.count sep + 1 := by
  induction xs with
  | nil => simp
  | cons x xs ih =>
      rw [List.splitOn_cons_eq_if_modifyHead, List.count_cons]
      split
      · simp [ih]
      · simp [ih]

/-- A joined record has its own fields, and one more for each separator in a field. -/
theorem length_splitOn_join (hne : parts ≠ []) :
    ((join sep parts).splitOn sep).length = (parts.map (List.count sep)).sum + parts.length := by
  induction parts with
  | nil => exact absurd rfl hne
  | cons part rest ih =>
      cases rest with
      | nil => simp [join, length_splitOn]
      | cons next rest =>
          rw [join_cons_cons, List.splitOn_append_cons_self, List.length_append, length_splitOn,
            ih (by simp)]
          simp only [List.map_cons, List.sum_cons, List.length_cons]
          omega

/-- A joined record is read as it was written exactly when its fields are non-empty and
free of the separator. -/
theorem intact_join_iff (hne : parts ≠ []) :
    Intact sep parts.length (join sep parts) ↔ ∀ part ∈ parts, part ≠ [] ∧ sep ∉ part := by
  have hclean : ((join sep parts).splitOn sep).length = parts.length ↔
      ∀ part ∈ parts, sep ∉ part := by
    rw [length_splitOn_join hne, Nat.add_eq_right, List.sum_eq_zero_iff_forall_eq_nat]
    simp [List.count_eq_zero]
  constructor
  · rintro ⟨hlength, hempty⟩ part hpart
    have hsep := hclean.mp hlength
    rw [join, List.splitOn_intercalate sep hsep hne] at hempty
    exact ⟨fun heq => hempty (heq ▸ hpart), hsep part hpart⟩
  · intro h
    refine ⟨hclean.mpr fun part hpart => (h part hpart).2, fun hempty => ?_⟩
    rw [join, List.splitOn_intercalate sep (fun part hpart => (h part hpart).2) hne] at hempty
    exact (h [] hempty).1 rfl

/-- The runs of an intact record are its fields. -/
theorem runs_join (hne : parts ≠ []) (h : Intact sep parts.length (join sep parts)) :
    runs sep (join sep parts) = parts := by
  have hparts := (intact_join_iff hne).mp h
  unfold runs join
  rw [List.splitOn_intercalate sep (fun part hpart => (hparts part hpart).2) hne]
  exact List.filter_eq_self.mpr fun part hpart => by simpa using (hparts part hpart).1

/-! ## What a word determines -/

variable {xs' ys' : List α} {parts' : List (List α)}

/-- The first separator is where both words have it. -/
theorem append_cons_inj_left (h : sep ∉ xs) (h' : sep ∉ xs')
    (heq : xs ++ sep :: ys = xs' ++ sep :: ys') : xs = xs' ∧ ys = ys' := by
  have hxs : xs = xs' := by
    have hbefore := congrArg (beforeFirst sep) heq
    rwa [beforeFirst_append h, beforeFirst_append h'] at hbefore
  subst hxs
  have hrest := List.append_cancel_left heq
  exact ⟨rfl, (List.cons.inj hrest).2⟩

/-- The last separator is where both words have it. -/
theorem append_cons_inj_right (h : sep ∉ ys) (h' : sep ∉ ys')
    (heq : xs ++ sep :: ys = xs' ++ sep :: ys') : xs = xs' ∧ ys = ys' := by
  have hreverse : ys.reverse ++ sep :: xs.reverse = ys'.reverse ++ sep :: xs'.reverse := by
    simpa using congrArg List.reverse heq
  have hparts := append_cons_inj_left (by simpa using h) (by simpa using h') hreverse
  exact ⟨List.reverse_inj.mp hparts.2, List.reverse_inj.mp hparts.1⟩

omit [DecidableEq α] in
/-- The letters of a joined record. -/
theorem mem_join {x : α} (h : x ∈ join sep parts) : x = sep ∨ ∃ part ∈ parts, x ∈ part := by
  induction parts with
  | nil => simp [join] at h
  | cons part rest ih =>
      cases rest with
      | nil =>
          have hpart : x ∈ part := by simpa [join] using h
          exact .inr ⟨part, by simp, hpart⟩
      | cons next rest =>
          rw [join_cons_cons, List.mem_append, List.mem_cons] at h
          rcases h with h | h | h
          · exact .inr ⟨part, by simp, h⟩
          · exact .inl h
          · rcases ih h with h | ⟨p, hp, hx⟩
            · exact .inl h
            · exact .inr ⟨p, List.mem_cons_of_mem _ hp, hx⟩

/-- Fields without separators are determined by the word, unless there is none. -/
theorem join_inj (h : ∀ part ∈ parts, sep ∉ part) (h' : ∀ part ∈ parts', sep ∉ part)
    (hne : parts ≠ []) (hne' : parts' ≠ []) (heq : join sep parts = join sep parts') :
    parts = parts' := by
  have hsplit := congrArg (List.splitOn sep) heq
  rwa [join, join, List.splitOn_intercalate sep h hne, List.splitOn_intercalate sep h' hne']
    at hsplit

/-! ## Terminated words

Words that are written one after the other, each with a separator behind it.  The separator may
occur inside a word, as long as no mark with which a word may begin follows it there. -/

section Terminated

variable {marks : List (List α)}

/-- The word begins with a mark, and no separator inside it stands before a mark. -/
def Marked (sep : α) (marks : List (List α)) (word : List α) : Prop :=
  (∃ mark ∈ marks, mark <+: word) ∧ ∀ mark ∈ marks, ¬ sep :: mark <:+: word

omit [DecidableEq α] in
/-- A separator ends what a mark can be read from. -/
theorem prefix_of_prefix_append_cons {mark : List α} (hmark : sep ∉ mark)
    (h : mark <+: xs ++ sep :: ys) : mark <+: xs := by
  rcases List.prefix_or_prefix_of_prefix h (List.prefix_append xs (sep :: ys)) with hmark' | hlong
  · exact hmark'
  · obtain ⟨rest, rfl⟩ := hlong
    have hrest : rest <+: sep :: ys := (List.prefix_append_right_inj xs).mp h
    cases rest with
    | nil => simp
    | cons x rest =>
        have hx : x = sep := (List.cons_prefix_cons.mp hrest).1
        subst hx
        exact absurd (by simp) hmark

omit [DecidableEq α] in
/-- What follows a separator inside a marked word is not the text of further marked words. -/
theorem Marked.not_longer (hmarks : ∀ mark ∈ marks, sep ∉ mark) {word tail : List α}
    (hword : Marked sep marks (word ++ sep :: tail)) {rest : List (List α)}
    (hrest : ∀ next ∈ rest, Marked sep marks next) :
    rest.flatMap (fun next => next ++ [sep]) ≠ tail ++ sep :: ys := by
  intro h
  cases rest with
  | nil => simp at h
  | cons next rest =>
      obtain ⟨⟨mark, hmem, hbegin⟩, -⟩ := hrest next (by simp)
      -- the mark of the next word stands at the head of the tail, behind the separator
      have hhead : mark <+: tail ++ sep :: ys := by
        rw [← h, List.flatMap_cons, List.append_assoc]
        exact hbegin.trans (List.prefix_append _ _)
      have htail : mark <+: tail := prefix_of_prefix_append_cons (hmarks mark hmem) hhead
      have hinside : sep :: mark <:+: word ++ sep :: tail :=
        (List.cons_prefix_cons.mpr ⟨rfl, htail⟩).isInfix.trans (List.suffix_append _ _).isInfix
      exact hword.2 mark hmem hinside

omit [DecidableEq α] in
/-- Marked words are determined by their terminated text. -/
theorem terminated_inj (hmarks : ∀ mark ∈ marks, sep ∉ mark)
    (h : ∀ part ∈ parts, Marked sep marks part) (h' : ∀ part ∈ parts', Marked sep marks part)
    (heq : parts.flatMap (fun part => part ++ [sep]) =
      parts'.flatMap (fun part => part ++ [sep])) : parts = parts' := by
  induction parts generalizing parts' with
  | nil =>
      cases parts' with
      | nil => rfl
      | cons part' rest' => simp at heq
  | cons part rest ih =>
      cases parts' with
      | nil => simp at heq
      | cons part' rest' =>
          have hrest : ∀ next ∈ rest, Marked sep marks next :=
            fun next hnext => h next (List.mem_cons_of_mem _ hnext)
          have hrest' : ∀ next ∈ rest', Marked sep marks next :=
            fun next hnext => h' next (List.mem_cons_of_mem _ hnext)
          rw [List.flatMap_cons, List.flatMap_cons, List.append_assoc, List.append_assoc] at heq
          rcases List.append_eq_append_iff.mp heq with ⟨more, hpart', htext⟩ | ⟨more, hpart, htext⟩
          · cases more with
            | nil =>
                have htexts : rest.flatMap (fun next => next ++ [sep]) =
                    rest'.flatMap (fun next => next ++ [sep]) := by
                  simpa using htext
                rw [hpart', List.append_nil, ih hrest hrest' htexts]
            | cons x more =>
                obtain ⟨rfl, htexts⟩ := List.cons.inj htext
                have hlong := h' part' (by simp)
                rw [hpart'] at hlong
                exact absurd htexts (hlong.not_longer hmarks hrest)
          · cases more with
            | nil =>
                have htexts : rest'.flatMap (fun next => next ++ [sep]) =
                    rest.flatMap (fun next => next ++ [sep]) := by
                  simpa using htext
                rw [hpart, List.append_nil, ih hrest hrest' htexts.symm]
            | cons x more =>
                obtain ⟨rfl, htexts⟩ := List.cons.inj htext
                have hlong := h part (by simp)
                rw [hpart] at hlong
                exact absurd htexts (hlong.not_longer hmarks hrest')

end Terminated

end Rustvello.Text
