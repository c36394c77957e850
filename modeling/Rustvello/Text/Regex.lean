import Mathlib.Data.List.Infix
import Mathlib.Data.List.TakeWhile
import Mathlib.Tactic.Common

/-!
# Regular expressions that capture

Expressions over letter classes, matched as backtracking engines match them: alternatives in
their order, repetitions as long as possible, and the first match that succeeds.  Repetition is
of classes.

* `Regex`, `run` — expressions, and all matches at the beginning of a text in the order of
  preference; `first` — the preferred one;
* `tokens` — the matches of a text from left to right, and the letters between them;
* `Leads` — the preferred match is followed by such only that leave a letter of a class in
  front;
* `Leads.run_seq`, `first_seq` — how sequences match: without other results where what follows
  cannot begin with such a letter, and by their preferred matches otherwise;
* `Avoids`, `tokens_append` — a letter of no class of the expression cuts the text in two.
-/

namespace Rustvello.Text

variable {α : Type}

/-- Texts by group number. -/
abbrev Captures (α : Type) := List (Nat × List α)

inductive Regex (α : Type) where
  | empty
  | one (p : α → Bool)
  | seq (r s : Regex α)
  | alt (r s : Regex α)
  | star (p : α → Bool)
  | group (n : Nat) (r : Regex α)

namespace Regex

/-! ## Expressions -/

def plus (p : α → Bool) : Regex α :=
  seq (one p) (star p)

def opt (r : Regex α) : Regex α :=
  alt r empty

/-- One after the other. -/
def cat : List (Regex α) → Regex α
  | [] => empty
  | r :: rs => seq r (cat rs)

/-- One of them, the first ones preferred. -/
def oneOf : List (Regex α) → Regex α
  | [] => one fun _ => false
  | [r] => r
  | r :: rs => alt r (oneOf rs)

def times (n : Nat) (r : Regex α) : Regex α :=
  cat (List.replicate n r)

/-- At most `n` times. -/
def upTo : Nat → Regex α → Regex α
  | 0, _ => empty
  | n + 1, r => opt (seq r (upTo n r))

section Letters

variable [DecidableEq α]

def letter (x : α) : Regex α :=
  one fun y => decide (y = x)

def word (xs : List α) : Regex α :=
  cat (xs.map letter)

end Letters

/-! ## Matches -/

/-- What a repetition leaves, the longest one first. -/
def rests (p : α → Bool) : List α → List (List α)
  | [] => [[]]
  | x :: xs => if p x then rests p xs ++ [x :: xs] else [x :: xs]

/-- The matches at the beginning of the text: what they capture and what they leave. -/
def run : Regex α → List α → List (Captures α × List α)
  | empty, xs => [([], xs)]
  | one _, [] => []
  | one p, x :: xs => if p x then [([], xs)] else []
  | seq r s, xs => (r.run xs).flatMap fun m => (s.run m.2).map fun n => (m.1 ++ n.1, n.2)
  | alt r s, xs => r.run xs ++ s.run xs
  | star p, xs => (rests p xs).map fun rest => ([], rest)
  | group n r, xs =>
      (r.run xs).map fun m => ((n, xs.take (xs.length - m.2.length)) :: m.1, m.2)

def first (r : Regex α) (xs : List α) : Option (Captures α × List α) :=
  (r.run xs).head?

/-- Letters that are in no match, and the captures of the matches, with the whole match as
group 0.  After a match so many of its letters are skipped; no match is empty. -/
def tokens (r : Regex α) : Nat → List α → List (α ⊕ Captures α)
  | _, [] => []
  | skip + 1, _ :: xs => tokens r skip xs
  | 0, x :: xs =>
      match (group 0 r).first (x :: xs) with
      | some m => .inr m.1 :: tokens r (xs.length - m.2.length) xs
      | none => .inl x :: tokens r 0 xs

def capturesIter (r : Regex α) (xs : List α) : List (Captures α) :=
  (tokens r 0 xs).filterMap Sum.getRight?

/-- The text without the matches. -/
def removeAll (r : Regex α) (xs : List α) : List α :=
  (tokens r 0 xs).filterMap Sum.getLeft?

/-- The text after the last match. -/
def afterLast (r : Regex α) (xs : List α) : List α :=
  (((tokens r 0 xs).reverse.takeWhile Sum.isLeft).reverse).filterMap Sum.getLeft?

section Preferred

variable {r s : Regex α} {p q : α → Bool} {x y : α} {xs ys rest rest' : List α}
  {c d : Captures α}

theorem run_seq (r s : Regex α) (xs : List α) : (seq r s).run xs =
    (r.run xs).flatMap fun m => (s.run m.2).map fun n => (m.1 ++ n.1, n.2) :=
  rfl

theorem suffix_of_mem_rests (h : rest ∈ rests p xs) : rest <:+ xs := by
  induction xs with
  | nil =>
      obtain rfl := List.mem_singleton.mp h
      exact List.suffix_refl _
  | cons x xs ih =>
      have hwhole : rest ∈ [x :: xs] → rest <:+ x :: xs := by
        intro hrest
        obtain rfl := List.mem_singleton.mp hrest
        exact List.suffix_refl _
      rw [rests] at h
      split at h
      · rcases List.mem_append.mp h with h | h
        · exact (ih h).trans (List.suffix_cons x xs)
        · exact hwhole h
      · exact hwhole h

/-- A match leaves the end of the text. -/
theorem suffix_of_mem_run {m : Captures α × List α} (h : m ∈ r.run xs) : m.2 <:+ xs := by
  induction r generalizing xs m with
  | empty =>
      obtain rfl := List.mem_singleton.mp h
      exact List.suffix_refl xs
  | one p =>
      cases xs with
      | nil => cases h
      | cons x xs =>
          rw [run] at h
          split at h
          · obtain rfl := List.mem_singleton.mp h
            exact List.suffix_cons x xs
          · cases h
  | seq r s ihr ihs =>
      obtain ⟨first, hfirst, h⟩ := List.mem_flatMap.mp h
      obtain ⟨second, hsecond, rfl⟩ := List.mem_map.mp h
      exact (ihs hsecond).trans (ihr hfirst)
  | alt r s ihr ihs =>
      rcases List.mem_append.mp h with h | h
      · exact ihr h
      · exact ihs h
  | star p =>
      obtain ⟨rest, hrest, rfl⟩ := List.mem_map.mp h
      exact suffix_of_mem_rests hrest
  | group n r ih =>
      obtain ⟨inner, hinner, rfl⟩ := List.mem_map.mp h
      exact ih (m := inner) hinner

/-- The preferred match leaves `rest`, and every other one begins its rest in the class. -/
def Leads (r : Regex α) (p : α → Bool) (xs : List α) (c : Captures α) (rest : List α) : Prop :=
  ∃ others, r.run xs = (c, rest) :: others ∧
    ∀ m ∈ others, ∃ x tail, m.2 = x :: tail ∧ p x = true

/-- The expression matches no text that begins in the class. -/
def FailsOn (r : Regex α) (p : α → Bool) : Prop :=
  ∀ x xs, p x = true → r.run (x :: xs) = []

/-- The text does not begin in the class. -/
def Outside (p : α → Bool) (xs : List α) : Prop :=
  ∀ x ∈ xs.head?, p x = false

theorem outside_nil : Outside p ([] : List α) :=
  fun _ hx => by cases hx

theorem Leads.first (h : Leads r p xs c rest) : r.first xs = some (c, rest) := by
  obtain ⟨others, hrun, -⟩ := h
  unfold Regex.first
  rw [hrun]
  rfl

theorem leads_of_run (h : r.run xs = [(c, rest)]) (p : α → Bool) : Leads r p xs c rest :=
  ⟨[], h, nofun⟩

theorem leads_one (hx : p x = true) (q : α → Bool) (xs : List α) :
    Leads (one p) q (x :: xs) [] xs :=
  ⟨[], by rw [run, if_pos hx], nofun⟩

theorem leads_star (hxs : ∀ x ∈ xs, p x = true) (hrest : Outside p rest) :
    Leads (star p) p (xs ++ rest) [] rest := by
  have hrests : ∃ others, rests p (xs ++ rest) = rest :: others ∧
      ∀ other ∈ others, ∃ x tail, other = x :: tail ∧ p x = true := by
    induction xs with
    | nil =>
        cases rest with
        | nil => exact ⟨[], rfl, nofun⟩
        | cons x rest =>
            have hx : p x = false := hrest x rfl
            exact ⟨[], by simp [rests, hx], nofun⟩
    | cons x xs ih =>
        obtain ⟨hx, hxs⟩ := List.forall_mem_cons.mp hxs
        obtain ⟨others, hrests, hothers⟩ := ih hxs
        refine ⟨others ++ [x :: (xs ++ rest)], ?_, ?_⟩
        · rw [List.cons_append, rests, if_pos hx, hrests]
          rfl
        · intro other hother
          rcases List.mem_append.mp hother with hother | hother
          · exact hothers other hother
          · obtain rfl := List.mem_singleton.mp hother
            exact ⟨x, _, rfl, hx⟩
  obtain ⟨others, hrests, hothers⟩ := hrests
  refine ⟨others.map fun other => ([], other), by rw [run, hrests]; rfl, fun m hm => ?_⟩
  obtain ⟨other, hother, rfl⟩ := List.mem_map.mp hm
  exact hothers other hother

/-- No other result comes through where what follows fails on the other rests. -/
theorem Leads.run_seq (h : Leads r p xs c rest) (hs : FailsOn s p) :
    (seq r s).run xs = (s.run rest).map fun n => (c ++ n.1, n.2) := by
  obtain ⟨others, hrun, hothers⟩ := h
  have hnone : others.flatMap (fun m => (s.run m.2).map fun n => (m.1 ++ n.1, n.2)) = [] := by
    refine List.flatMap_eq_nil_iff.mpr fun m hm => ?_
    obtain ⟨x, tail, htail, hx⟩ := hothers m hm
    rw [htail, hs x tail hx, List.map_nil]
  rw [Regex.run_seq, hrun, List.flatMap_cons, hnone, List.append_nil]

theorem Leads.seq (h : Leads r p xs c rest) (hs : FailsOn s p) (h' : Leads s q rest d rest') :
    Leads (seq r s) q xs (c ++ d) rest' := by
  obtain ⟨others, hrun, hothers⟩ := h'
  refine ⟨others.map fun n => (c ++ n.1, n.2), ?_, fun m hm => ?_⟩
  · rw [h.run_seq hs, hrun, List.map_cons]
  · obtain ⟨n, hn, rfl⟩ := List.mem_map.mp hm
    exact hothers n hn

theorem leads_plus (hxs : ∀ x ∈ xs, p x = true) (hne : xs ≠ []) (hrest : Outside p rest) :
    Leads (plus p) p (xs ++ rest) [] rest := by
  obtain ⟨x, xs, rfl⟩ := List.exists_cons_of_ne_nil hne
  obtain ⟨hx, hxs⟩ := List.forall_mem_cons.mp hxs
  exact (leads_one hx (fun _ => false) (xs ++ rest)).seq (fun _ _ h => by cases h)
    (leads_star hxs hrest)

/-- A group captures what the match took. -/
theorem Leads.group (h : Leads r p (xs ++ rest) c rest) (n : Nat) :
    Leads (group n r) p (xs ++ rest) ((n, xs) :: c) rest := by
  obtain ⟨others, hrun, hothers⟩ := h
  refine ⟨others.map fun m =>
    ((n, (xs ++ rest).take ((xs ++ rest).length - m.2.length)) :: m.1, m.2), ?_, fun m hm => ?_⟩
  · rw [run, hrun, List.map_cons, List.length_append, Nat.add_sub_cancel, List.take_left' rfl]
  · obtain ⟨other, hother, rfl⟩ := List.mem_map.mp hm
    exact hothers other hother

/-- The preferred matches of the parts of a sequence, where both exist. -/
theorem first_seq (h : r.first xs = some (c, rest)) (h' : s.first rest = some (d, rest')) :
    (seq r s).first xs = some (c ++ d, rest') := by
  unfold first at h h' ⊢
  obtain ⟨others, hr⟩ := List.head?_eq_some_iff.mp h
  obtain ⟨others', hs⟩ := List.head?_eq_some_iff.mp h'
  rw [run_seq, hr, List.flatMap_cons, hs]
  rfl

theorem first_group (h : r.first (xs ++ rest) = some (c, rest)) (n : Nat) :
    (group n r).first (xs ++ rest) = some ((n, xs) :: c, rest) := by
  unfold first at h ⊢
  obtain ⟨others, hr⟩ := List.head?_eq_some_iff.mp h
  rw [run, hr, List.map_cons, List.length_append, Nat.add_sub_cancel, List.take_left' rfl]
  rfl

theorem first_opt_of_first (h : r.first xs = some (c, rest)) :
    (opt r).first xs = some (c, rest) := by
  unfold first at h ⊢
  obtain ⟨others, hr⟩ := List.head?_eq_some_iff.mp h
  rw [opt, run, hr]
  rfl

theorem first_opt_of_fails (h : r.run xs = []) : (opt r).first xs = some ([], xs) := by
  unfold first
  rw [opt, run, h]
  rfl

theorem failsOn_false (r : Regex α) : FailsOn r fun _ => false :=
  fun _ _ h => by cases h

theorem failsOn_one (h : ∀ x, p x = true → q x = false) : FailsOn (one q) p := by
  intro x xs hx
  rw [run, h x hx]
  rfl

theorem FailsOn.seq (h : FailsOn r p) (s : Regex α) : FailsOn (seq r s) p := by
  intro x xs hx
  rw [run_seq, h x xs hx, List.flatMap_nil]

theorem FailsOn.alt (h : FailsOn r p) (h' : FailsOn s p) : FailsOn (alt r s) p := by
  intro x xs hx
  rw [run, h x xs hx, h' x xs hx]
  rfl

theorem failsOn_oneOf {rs : List (Regex α)} (h : ∀ r ∈ rs, FailsOn r p) : FailsOn (oneOf rs) p := by
  induction rs with
  | nil => exact failsOn_one fun _ _ => rfl
  | cons r rs ih =>
      obtain ⟨hr, hrs⟩ := List.forall_mem_cons.mp h
      cases rs with
      | nil => exact hr
      | cons s rs => exact hr.alt (ih hrs)

theorem FailsOn.group (h : FailsOn r p) (n : Nat) : FailsOn (group n r) p := by
  intro x xs hx
  rw [run, h x xs hx, List.map_nil]

theorem run_seq_of_nil (h : r.run xs = []) (s : Regex α) : (seq r s).run xs = [] := by
  rw [run_seq, h, List.flatMap_nil]

section Words

variable [DecidableEq α]

theorem failsOn_letter (h : p x = false) : FailsOn (letter x) p := by
  refine failsOn_one fun y hy => decide_eq_false ?_
  rintro rfl
  rw [h] at hy
  cases hy

theorem failsOn_word (h : p x = false) (xs : List α) : FailsOn (word (x :: xs)) p :=
  (failsOn_letter h).seq _

theorem leads_letter (x : α) (q : α → Bool) (xs : List α) : Leads (letter x) q (x :: xs) [] xs :=
  leads_one (p := fun y => decide (y = x)) (by simp) q xs

end Words

end Preferred

/-! ## Tokens -/

/-- No class of the expression has the letter. -/
def Avoids : Regex α → α → Prop
  | empty, _ => True
  | one p, x => p x = false
  | seq r s, x => r.Avoids x ∧ s.Avoids x
  | alt r s, x => r.Avoids x ∧ s.Avoids x
  | star p, x => p x = false
  | group _ r, x => r.Avoids x

section Tokens

variable {r : Regex α} {p : α → Bool} {sep : α} {xs ys rest : List α} {c : Captures α}

theorem rests_append (h : p sep = false) (xs ys : List α) :
    rests p (xs ++ sep :: ys) = (rests p xs).map (· ++ sep :: ys) := by
  induction xs with
  | nil => simp [rests, h]
  | cons x xs ih =>
      rw [List.cons_append, rests, rests, ih]
      split <;> simp

/-- Every match ends before a letter of no class. -/
theorem run_append (h : r.Avoids sep) (xs ys : List α) :
    r.run (xs ++ sep :: ys) = (r.run xs).map fun m => (m.1, m.2 ++ sep :: ys) := by
  induction r generalizing xs with
  | empty => rfl
  | one p =>
      cases xs with
      | nil =>
          have hsep : p sep = false := h
          simp [run, hsep]
      | cons x xs =>
          rw [List.cons_append, run, run]
          split <;> simp
  | seq r s ihr ihs =>
      rw [run_seq, run_seq, ihr h.1, List.flatMap_map, List.map_flatMap]
      refine List.flatMap_congr fun m _ => ?_
      rw [ihs h.2, List.map_map, List.map_map]
      rfl
  | alt r s ihr ihs => rw [run, run, ihr h.1, ihs h.2, List.map_append]
  | star p => rw [run, run, rests_append h, List.map_map, List.map_map]; rfl
  | group n r ih =>
      rw [run, run, ih h, List.map_map, List.map_map]
      refine List.map_congr_left fun m _ => ?_
      have hlength : (xs ++ sep :: ys).length - (m.2 ++ sep :: ys).length =
          xs.length - m.2.length := by
        rw [List.length_append, List.length_append, Nat.add_sub_add_right]
      show ((n, (xs ++ sep :: ys).take ((xs ++ sep :: ys).length - (m.2 ++ sep :: ys).length)) ::
        m.1, m.2 ++ sep :: ys) = _
      rw [hlength, List.take_append_of_le_length (Nat.sub_le _ _)]
      rfl

/-- A letter of no class cuts the text in two. -/
theorem tokens_append (h : r.Avoids sep) (hempty : r.run [] = []) (xs ys : List α) :
    tokens r 0 (xs ++ sep :: ys) = tokens r 0 xs ++ .inl sep :: tokens r 0 ys := by
  have hfirst : ∀ xs, (group 0 r).first (xs ++ sep :: ys) =
      ((group 0 r).first xs).map fun m => (m.1, m.2 ++ sep :: ys) := by
    intro xs
    unfold first
    rw [run_append (r := group 0 r) h, List.head?_map]
  have hskip : ∀ (xs : List α) (skip : Nat), skip ≤ xs.length →
      tokens r skip (xs ++ sep :: ys) = tokens r skip xs ++ .inl sep :: tokens r 0 ys := by
    intro xs
    induction xs with
    | nil =>
        intro skip hle
        obtain rfl := Nat.le_zero.mp hle
        have hnone : (group 0 r).first (sep :: ys) = none := by
          rw [← List.nil_append (sep :: ys), hfirst, first, run, hempty]
          rfl
        show tokens r 0 (sep :: ys) = .inl sep :: tokens r 0 ys
        rw [tokens, hnone]
    | cons x xs ih =>
        intro skip hle
        cases skip with
        | succ skip => exact ih skip (Nat.le_of_succ_le_succ hle)
        | zero =>
            have hmatch := hfirst (x :: xs)
            rw [List.cons_append] at hmatch ⊢
            rw [tokens, tokens, hmatch]
            cases (group 0 r).first (x :: xs) with
            | none => exact congrArg _ (ih 0 (Nat.zero_le _))
            | some m =>
                have hlength : (xs ++ sep :: ys).length - (m.2 ++ sep :: ys).length =
                    xs.length - m.2.length := by
                  rw [List.length_append, List.length_append, Nat.add_sub_add_right]
                show Sum.inr m.1 :: tokens r ((xs ++ sep :: ys).length -
                  (m.2 ++ sep :: ys).length) (xs ++ sep :: ys) = _
                rw [hlength]
                exact congrArg _ (ih _ (Nat.sub_le _ _))
  exact hskip xs 0 (Nat.zero_le _)

/-- Where nothing matches, the letters stay as they are. -/
theorem tokens_of_fails (h : ∀ rest, rest <:+ xs → r.run rest = []) :
    tokens r 0 xs = xs.map .inl := by
  induction xs with
  | nil => rfl
  | cons x xs ih =>
      have hnone : (group 0 r).first (x :: xs) = none := by
        rw [first, run, h _ (List.suffix_refl _)]
        rfl
      rw [tokens, hnone, List.map_cons]
      exact congrArg _ (ih fun rest hrest => h rest (hrest.trans (List.suffix_cons x xs)))

theorem tokens_cons_of_fails {x : α} (h : r.run (x :: xs) = []) :
    tokens r 0 (x :: xs) = .inl x :: tokens r 0 xs := by
  have hnone : (group 0 r).first (x :: xs) = none := by
    rw [first, run, h]
    rfl
  rw [tokens, hnone]

/-- A match at the beginning. -/
theorem tokens_of_first (h : r.first (xs ++ rest) = some (c, rest)) (hne : xs ≠ []) :
    tokens r 0 (xs ++ rest) = .inr ((0, xs) :: c) :: tokens r 0 rest := by
  have hskip : ∀ ys : List α, tokens r ys.length (ys ++ rest) = tokens r 0 rest := by
    intro ys
    induction ys with
    | nil => rfl
    | cons y ys ih => exact ih
  obtain ⟨x, xs, rfl⟩ := List.exists_cons_of_ne_nil hne
  have hgroup := first_group h 0
  rw [List.cons_append] at hgroup ⊢
  rw [tokens, hgroup]
  show Sum.inr _ :: tokens r ((xs ++ rest).length - rest.length) (xs ++ rest) = _
  rw [List.length_append, Nat.add_sub_cancel, hskip]

/-- What is left of a text are letters of it. -/
theorem mem_of_mem_removeAll {x : α} (h : x ∈ removeAll r xs) : x ∈ xs := by
  have htokens : ∀ (xs : List α) (skip : Nat), .inl x ∈ tokens r skip xs → x ∈ xs := by
    intro xs
    induction xs with
    | nil => exact fun skip hmem => by cases skip <;> cases hmem
    | cons y xs ih =>
        intro skip hmem
        cases skip with
        | succ skip => exact List.mem_cons_of_mem _ (ih skip hmem)
        | zero =>
            rw [tokens] at hmem
            split at hmem
            · rcases List.mem_cons.mp hmem with heq | hmem
              · cases heq
              · exact List.mem_cons_of_mem _ (ih _ hmem)
            · rcases List.mem_cons.mp hmem with heq | hmem
              · cases heq
                exact List.mem_cons_self
              · exact List.mem_cons_of_mem _ (ih _ hmem)
  obtain ⟨t, hmem, hx⟩ := List.mem_filterMap.mp h
  obtain rfl : t = .inl x := Sum.getLeft?_eq_some_iff.mp hx
  exact htokens xs 0 hmem

theorem afterLast_of_tokens (front : List (α ⊕ Captures α))
    (h : tokens r 0 xs = front ++ .inr c :: rest.map .inl) : afterLast r xs = rest := by
  have hleft : ∀ t ∈ (rest.map (Sum.inl (β := Captures α))).reverse, t.isLeft = true := by
    intro t ht
    obtain ⟨x, -, rfl⟩ := List.mem_map.mp (List.mem_reverse.mp ht)
    rfl
  unfold afterLast
  rw [h, List.reverse_append, List.reverse_cons, List.append_assoc,
    List.takeWhile_append_of_pos hleft, List.singleton_append,
    List.takeWhile_cons_of_neg Bool.false_ne_true, List.append_nil, List.reverse_reverse,
    List.filterMap_map]
  exact List.filterMap_some

theorem removeAll_append (h : r.Avoids sep) (hempty : r.run [] = []) (xs ys : List α) :
    removeAll r (xs ++ sep :: ys) = removeAll r xs ++ sep :: removeAll r ys := by
  unfold removeAll
  rw [tokens_append h hempty, List.filterMap_append]
  rfl

theorem removeAll_of_fails (h : ∀ rest, rest <:+ xs → r.run rest = []) : removeAll r xs = xs := by
  unfold removeAll
  rw [tokens_of_fails h, List.filterMap_map]
  exact List.filterMap_some

end Tokens

end Regex

end Rustvello.Text
