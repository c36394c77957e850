import Rustvello.Concurrency.History

/-!
# Programs over more calls

A program over one interface is a program over every interface with more calls, and what
a discipline of the larger interface asks of it can be checked in the smaller one.

* `Interface.sum`, `Prog.inl` — the calls of both, and the program among them;
* `Discipline.left` — the discipline as the smaller interface sees it;
* `obeys_inl`, `uses_inl` — the two agree.
-/

namespace Rustvello.Concurrency

/-- The calls of two interfaces. -/
abbrev Interface.sum (I J : Interface) : Interface :=
  ⟨I.Op ⊕ J.Op, Sum.elim I.Ret J.Ret⟩

section Sum

variable {I J : Interface} {α β Ω γ : Type}

/-- The program, with its calls among those of both interfaces. -/
def Prog.inl : Prog I α → Prog (I.sum J) α
  | done a => done a
  | call c k => call (.inl c) fun r => (k r).inl

/-- The discipline of the calls on the left. -/
def Discipline.left (D : Discipline (I.sum J) Ω γ) : Discipline I Ω γ where
  start := D.start
  next c r g := D.next (.inl c) r g
  pre c g := D.pre (.inl c) g
  resp c g r := D.resp (.inl c) g r

/-- A program obeys a discipline among more calls if it does among its own. -/
theorem Discipline.obeys_inl {D : Discipline (I.sum J) Ω γ} (p : Prog I α) {Q : α → γ → Prop}
    {g : γ} : D.Obeys p.inl Q g ↔ D.left.Obeys p Q g := by
  induction p generalizing g with
  | done a => exact Iff.rfl
  | call c k ih =>
      refine and_congr_right fun _ => forall_congr' fun r => imp_congr_right fun _ => ?_
      exact ih r

theorem Prog.uses_inl {A : (c : (I.sum J).Op) → (I.sum J).Ret c → Prop} {P : (I.sum J).Op → Prop}
    {p : Prog I α} (h : p.Uses (fun c r => A (.inl c) r) fun c => P (.inl c)) : p.inl.Uses A P := by
  induction p with
  | done a => trivial
  | call c k ih => exact ⟨h.1, fun r hr => ih r (h.2 r hr)⟩

end Sum

end Rustvello.Concurrency
