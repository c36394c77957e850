import Rustvello.Concurrency.Sum

/-!
# One operation with failing calls

An operation that runs by itself while some of its calls fail: a failing call answers an
error and is not carried out.

* `Failing` — what an error is among the answers of an interface;
* `Trial`, `Trial.exec` — the state with the calls made so far, and one call, carried out
  or failing;
* `Trial.failures` — how many calls have failed; the count never falls;
* `Prog.EnsuresE` — an end condition that holds however the operation ends, with one rule
  for each way to build an operation;
* `Prog.scripted` — the run under a given list of environments.
-/

namespace Rustvello.Concurrency

/-- The errors among the answers of an interface. -/
structure Failing (I : Interface) (ρ : Type) where
  fail : ρ → (c : I.Op) → I.Ret c
  failed : (c : I.Op) → I.Ret c → Bool

/-- What a call meets: its environment, and an error that may strike in its place. -/
structure Chance (ε ρ : Type) where
  env : ε
  fault : Option ρ

/-- A run of one operation: the state, and the calls made, newest first. -/
structure Trial (I : Interface) (σ : Type) where
  state : σ
  calls : List (Event I)

section Trials

variable {I : Interface} {σ ε ρ : Type} (F : Failing I ρ)

/-- Carry out one call, or let it fail. -/
def Trial.exec (F : Failing I ρ) (exec : ε → (c : I.Op) → σ → I.Ret c × σ) (x : Chance ε ρ)
    (c : I.Op) (t : Trial I σ) : I.Ret c × Trial I σ :=
  match x.fault with
  | some e => (F.fail e c, ⟨t.state, ⟨c, F.fail e c⟩ :: t.calls⟩)
  | none =>
      let answer := exec x.env c t.state
      (answer.1, ⟨answer.2, ⟨c, answer.1⟩ :: t.calls⟩)

/-- How many calls have failed. -/
def Trial.failures (F : Failing I ρ) (t : Trial I σ) : Nat :=
  t.calls.countP fun e => F.failed e.op e.ret

/-- Every call is written down with its answer. -/
theorem Trial.exec_calls (exec : ε → (c : I.Op) → σ → I.Ret c × σ) (x : Chance ε ρ) (c : I.Op)
    (t : Trial I σ) :
    (Trial.exec F exec x c t).2.calls = ⟨c, (Trial.exec F exec x c t).1⟩ :: t.calls := by
  unfold Trial.exec
  split <;> rfl

theorem Trial.exec_failures (exec : ε → (c : I.Op) → σ → I.Ret c × σ) (x : Chance ε ρ) (c : I.Op)
    (t : Trial I σ) :
    (Trial.exec F exec x c t).2.failures F =
      t.failures F + if F.failed c (Trial.exec F exec x c t).1 then 1 else 0 := by
  unfold Trial.failures
  rw [Trial.exec_calls, List.countP_cons]

/-- A call that did not fail was carried out. -/
theorem Trial.exec_cases (exec : ε → (c : I.Op) → σ → I.Ret c × σ) (x : Chance ε ρ) (c : I.Op)
    (t : Trial I σ) :
    (∃ e, (Trial.exec F exec x c t).1 = F.fail e c ∧
      (Trial.exec F exec x c t).2.state = t.state) ∨
    ((Trial.exec F exec x c t).1 = (exec x.env c t.state).1 ∧
      (Trial.exec F exec x c t).2.state = (exec x.env c t.state).2) := by
  unfold Trial.exec
  split
  · rename_i e _
    exact .inl ⟨e, rfl, rfl⟩
  · exact .inr ⟨rfl, rfl⟩

end Trials

/-! ## End conditions -/

namespace Prog

variable {I J : Interface} {α β σ ε ρ : Type}

/-- However `p` ends from `s`, it ends in `Q` with a value and in `E` with an error. -/
def EnsuresE (exec : ε → (c : I.Op) → σ → I.Ret c × σ) (p : ExceptT ρ (Prog I) α) (s : σ)
    (Q : α → σ → Prop) (E : ρ → σ → Prop) : Prop :=
  ∀ r s', EndsE exec p s r s' → Discipline.Outcome Q E r s'

section Rules

variable {exec : ε → (c : I.Op) → σ → I.Ret c × σ} {p : ExceptT ρ (Prog I) α} {s : σ}
  {Q : α → σ → Prop} {E : ρ → σ → Prop}

theorem ensuresE_pure {a : α} (h : Q a s) :
    EnsuresE exec (pure a : ExceptT ρ (Prog I) α) s Q E := by
  rintro r s' hends
  obtain ⟨rfl, rfl⟩ := endsE_pure.mp hends
  exact h

theorem ensuresE_throw {e : ρ} (h : E e s) :
    EnsuresE exec (throw e : ExceptT ρ (Prog I) α) s Q E := by
  rintro r s' hends
  obtain ⟨rfl, rfl⟩ := endsE_throw.mp hends
  exact h

/-- Sequencing: what follows starts where `p` ends, and an error of `p` ends it all. -/
theorem EnsuresE.bind {f : α → ExceptT ρ (Prog I) β} {Q' : β → σ → Prop}
    (hp : EnsuresE exec p s Q E) (hf : ∀ a s', Q a s' → EnsuresE exec (f a) s' Q' E) :
    EnsuresE exec (p >>= f) s Q' E := by
  intro r s' hends
  obtain ⟨a, t, hfirst, hrest⟩ | ⟨e, hfirst, rfl⟩ := endsE_bind.mp hends
  · exact hf a t (hp (.ok a) t hfirst) r s' hrest
  · exact hp (.error e) s' hfirst

/-- A program, with its calls among more. -/
theorem ends_inl {exec : ε → (c : (I.sum J).Op) → σ → (I.sum J).Ret c × σ} {p : Prog I α}
    {s s' : σ} {a : α} :
    (p.inl (J := J)).Ends exec s a s' ↔ p.Ends (fun x c t => exec x (.inl c) t) s a s' := by
  induction p generalizing s with
  | done b => exact Iff.rfl
  | call c k ih => exact exists_congr fun x => ih _

end Rules

/-- Run an operation, each call under the next environment of the list; `none` if the list is
too short or too long. -/
def scripted (exec : ε → (c : I.Op) → σ → I.Ret c × σ) : Prog I α → σ → List ε → Option (α × σ)
  | done a, s, [] => some (a, s)
  | call c k, s, x :: script => scripted exec (k (exec x c s).1) (exec x c s).2 script
  | done _, _, _ :: _ | call _ _, _, [] => none

theorem ends_of_scripted {exec : ε → (c : I.Op) → σ → I.Ret c × σ} {p : Prog I α} {s s' : σ}
    {a : α} {script : List ε} (h : p.scripted exec s script = some (a, s')) :
    p.Ends exec s a s' := by
  induction p generalizing s script with
  | done b =>
      cases script with
      | nil =>
          cases h
          exact ⟨rfl, rfl⟩
      | cons x rest => cases h
  | call c k ih =>
      cases script with
      | nil => cases h
      | cons x rest => exact ⟨x, ih _ h⟩

/-- A scripted run that ends with a (decidable) property exhibits one. -/
theorem exists_ends_of_scripted (exec : ε → (c : I.Op) → σ → I.Ret c × σ) (p : Prog I α) (s : σ)
    (script : List ε) (P : α → σ → Prop) [∀ a s', Decidable (P a s')]
    (h : (p.scripted exec s script).any (fun out => decide (P out.1 out.2)) = true) :
    ∃ a s', p.Ends exec s a s' ∧ P a s' := by
  cases hrun : p.scripted exec s script with
  | none =>
      rw [hrun] at h
      cases h
  | some out =>
      rw [hrun] at h
      exact ⟨out.1, out.2, ends_of_scripted hrun, by simpa using h⟩

end Prog

end Rustvello.Concurrency
