import Rustvello.Concurrency.Program
import Mathlib.Data.List.Forall2

/-!
# Programs that behave alike

Two programs may make different calls and still be the same to everyone else: their calls
have the same effect in every state and look the same through a `view` of what was asked and
answered.

* `Prog.Alike` — two such programs, compared call by call;
* `System.view` — what a view shows of a pool;
* `run_view` — pools of programs that are alike: the same decisions are possible, and they
  show the same.
-/

namespace Rustvello.Concurrency

variable {I : Interface} {α β ρ σ ε Ω V : Type}

namespace Prog

/-- Call by call the same effect and the same view, and in the end the same value. -/
def Alike (exec : ε → (c : I.Op) → σ → I.Ret c × σ) (view : Event I → V) :
    Prog I α → Prog I α → Prop
  | done a, done b => a = b
  | call c k, call c' k' => ∀ env s,
      view ⟨c, (exec env c s).1⟩ = view ⟨c', (exec env c' s).1⟩ ∧
      (exec env c s).2 = (exec env c' s).2 ∧
      Alike exec view (k (exec env c s).1) (k' (exec env c' s).1)
  | _, _ => False

variable {exec : ε → (c : I.Op) → σ → I.Ret c × σ} {view : Event I → V}

theorem alike_refl (p : Prog I α) : p.Alike exec view p := by
  induction p with
  | done a => rfl
  | call c k ih =>
      intro env s
      exact ⟨rfl, rfl, ih _⟩

theorem alike_bind {p q : Prog I α} {f g : α → Prog I β} (hp : p.Alike exec view q)
    (hf : ∀ a, (f a).Alike exec view (g a)) : (p >>= f).Alike exec view (q >>= g) := by
  induction p generalizing q with
  | done a =>
      cases q with
      | done b =>
          have hvalue : a = b := hp
          rw [hvalue]
          exact hf b
      | call c k => exact hp.elim
  | call c k ih =>
      cases q with
      | done b => exact hp.elim
      | call c' k' =>
          intro env s
          obtain ⟨hview, hstate, hrest⟩ := hp env s
          exact ⟨hview, hstate, ih _ hrest⟩

/-- `Alike` for operations that can fail. -/
def AlikeE (exec : ε → (c : I.Op) → σ → I.Ret c × σ) (view : Event I → V)
    (p q : ExceptT ρ (Prog I) α) : Prop :=
  p.run.Alike exec view q.run

theorem alikeE_refl (p : ExceptT ρ (Prog I) α) : AlikeE exec view p p :=
  alike_refl p.run

variable {p q : ExceptT ρ (Prog I) α}

theorem alikeE_of_eq (h : p = q) : AlikeE exec view p q := by
  rw [h]
  exact alikeE_refl q

variable {f g : α → ExceptT ρ (Prog I) β}

theorem alikeE_bind (hp : AlikeE exec view p q) (hf : ∀ a, AlikeE exec view (f a) (g a)) :
    AlikeE exec view (p >>= f) (q >>= g) := by
  refine alike_bind (p := p.run) (q := q.run) hp ?_
  intro r
  cases r with
  | ok a => exact hf a
  | error e => exact alike_refl _

/-- The same part first, then parts that are alike. -/
theorem alikeE_bind_right (p : ExceptT ρ (Prog I) α)
    (hf : ∀ a, AlikeE exec view (f a) (g a)) : AlikeE exec view (p >>= f) (p >>= g) :=
  alikeE_bind (alikeE_refl p) hf

end Prog

/-! ## Pools -/

/-- What is seen of a pool: the shared state and, for each operation, what was asked for and
its calls. -/
def System.view (view : Event I → V) (s : System I σ Ω) : σ × List (Ω × List V) :=
  (s.shared, s.threads.map fun t => (t.task, t.log.map view))

/-- Two operations that show the same and will go on to. -/
def Thread.Alike (exec : ε → (c : I.Op) → σ → I.Ret c × σ) (view : Event I → V)
    (t t' : Thread I Ω) : Prop :=
  t.task = t'.task ∧ t.log.map view = t'.log.map view ∧ t.prog.Alike exec view t'.prog

/-- Two pools that show the same and will go on to. -/
def System.Alike (exec : ε → (c : I.Op) → σ → I.Ret c × σ) (view : Event I → V)
    (s s' : System I σ Ω) : Prop :=
  s.shared = s'.shared ∧ List.Forall₂ (Thread.Alike exec view) s.threads s'.threads

section Pools

variable {M M' : Machine I σ ε Ω} {view : Event I → V} {s s' : System I σ Ω}

theorem System.Alike.view_eq {exec : ε → (c : I.Op) → σ → I.Ret c × σ}
    (h : s.Alike exec view s') : s.view view = s'.view view := by
  have hthreads : ∀ {ts ts' : List (Thread I Ω)}, List.Forall₂ (Thread.Alike exec view) ts ts' →
      ts.map (fun t => (t.task, t.log.map view)) = ts'.map fun t => (t.task, t.log.map view) := by
    intro ts ts' hall
    induction hall with
    | nil => rfl
    | cons ht _ ih => rw [List.map_cons, List.map_cons, ih, ht.1, ht.2.1]
  unfold System.view
  rw [h.1, hthreads h.2]

/-- Replacing both entries at one position. -/
theorem forall₂_set {A B : Type} {R : A → B → Prop} {l : List A} {l' : List B}
    (h : List.Forall₂ R l l') (i : Nat) {a : A} {b : B} (hab : R a b) :
    List.Forall₂ R (l.set i a) (l'.set i b) := by
  induction h generalizing i with
  | nil => exact .nil
  | cons hhead htail ih =>
      cases i with
      | zero => exact .cons hab htail
      | succ i => exact .cons hhead (ih i)

/-- The operations at one position. -/
theorem System.Alike.thread {exec : ε → (c : I.Op) → σ → I.Ret c × σ} (h : s.Alike exec view s')
    {i : Nat} {t : Thread I Ω} (ht : s.threads[i]? = some t) :
    ∃ t', s'.threads[i]? = some t' ∧ t.Alike exec view t' := by
  have hi := (List.getElem?_eq_some_iff.mp ht).1
  have hi' : i < s'.threads.length := h.2.length_eq ▸ hi
  refine ⟨s'.threads.get ⟨i, hi'⟩, List.getElem?_eq_getElem hi', ?_⟩
  have hat := List.Forall₂.get h.2 hi hi'
  have hget : s.threads.get ⟨i, hi⟩ = t := (List.getElem?_eq_some_iff.mp ht).2
  rw [hget] at hat
  exact hat

/-- A decision that is possible in one pool is possible in the other, and they stay alike. -/
theorem System.Alike.apply (hexec : M'.exec = M.exec)
    (hprogram : ∀ task, (M.program task).Alike M.exec view (M'.program task))
    (h : s.Alike M.exec view s') {l : Label ε Ω} {t : System I σ Ω} (happly : s.apply M l = some t) :
    ∃ t', s'.apply M' l = some t' ∧ t.Alike M.exec view t' := by
  obtain ⟨task, rfl, rfl⟩ | ⟨i, env, th, c, k, rfl, hth, hprog, rfl⟩ := System.apply_cases happly
  · refine ⟨_, rfl, h.1, ?_⟩
    exact List.rel_append h.2 (.cons ⟨rfl, rfl, hprogram task⟩ .nil)
  · obtain ⟨th', hth', htask, hlog, halike⟩ := h.thread hth
    rw [hprog] at halike
    cases hprog' : th'.prog with
    | done u =>
        rw [hprog'] at halike
        exact halike.elim
    | call c' k' =>
        rw [hprog'] at halike
        obtain ⟨hview, hstate, hrest⟩ := halike env s.shared
        refine ⟨s'.afterCall M' i th' env c' k', ?_, ?_⟩
        · simp [System.apply, hth', hprog']
        · unfold System.afterCall
          rw [hexec, ← h.1]
          refine ⟨hstate, ?_⟩
          refine forall₂_set h.2 i ⟨htask, ?_, hrest⟩
          rw [List.map_cons, List.map_cons, hview, hlog]

/-- What is alike shows the other way round, too. -/
theorem Prog.Alike.symm {exec : ε → (c : I.Op) → σ → I.Ret c × σ} {p q : Prog I α}
    (h : p.Alike exec view q) : q.Alike exec view p := by
  induction p generalizing q with
  | done a =>
      cases q with
      | done b =>
          have hvalue : a = b := h
          exact hvalue.symm
      | call c k => exact h.elim
  | call c k ih =>
      cases q with
      | done b => exact h.elim
      | call c' k' =>
          intro env s
          obtain ⟨hview, hstate, hrest⟩ := h env s
          exact ⟨hview.symm, hstate.symm, ih _ hrest⟩

theorem System.Alike.symm {exec : ε → (c : I.Op) → σ → I.Ret c × σ} (h : s.Alike exec view s') :
    s'.Alike exec view s := by
  refine ⟨h.1.symm, List.Forall₂.flip (h.2.imp ?_)⟩
  intro t t' ht
  exact ⟨ht.1.symm, ht.2.1.symm, ht.2.2.symm⟩

/-- **Pools of programs that are alike** show the same after the same decisions. -/
theorem run_view (hexec : M'.exec = M.exec)
    (hprogram : ∀ task, (M.program task).Alike M.exec view (M'.program task))
    (h : s.Alike M.exec view s') (ls : List (Label ε Ω)) :
    (s.run M ls).map (System.view view) = (s'.run M' ls).map (System.view view) := by
  have hprogram' : ∀ task, (M'.program task).Alike M'.exec view (M.program task) := by
    intro task
    rw [hexec]
    exact (hprogram task).symm
  induction ls generalizing s s' with
  | nil =>
      show some _ = some _
      rw [h.view_eq]
  | cons l ls ih =>
      simp only [System.run]
      cases happly : s.apply M l with
      | none =>
          cases happly' : s'.apply M' l with
          | none => rfl
          | some t' =>
              -- the other pool could not move either
              have hback : s'.Alike M'.exec view s := by
                rw [hexec]
                exact h.symm
              obtain ⟨t, ht, -⟩ := hback.apply hexec.symm hprogram' happly'
              rw [happly] at ht
              cases ht
      | some t =>
          obtain ⟨t', ht', hnext⟩ := h.apply hexec hprogram happly
          rw [ht']
          exact ih hnext

end Pools

end Rustvello.Concurrency
