import Mathlib.Data.List.Basic
import Mathlib.Logic.Basic

/-!
# Programs over atomic calls, and pools of them

An operation of a concurrent service is a sequence of calls on shared ports.
Each call is atomic; between two calls of one operation any other operation may
run.  This module fixes that reading once, for an arbitrary signature of calls:

* `Interface` — the calls and the answer type of each;
* `Prog` — an operation: it either is done or waits at a call, with a
  continuation for every answer;
* `System` — the shared state together with a pool of started operations, each
  with the log of the calls it has made;
* `Label` / `System.apply` — one scheduler decision: start an operation, or let
  one operation make its next call;
* `Reachable` — the states of every interleaving, under a `Guard` that says
  which starts and which calls are considered.

The answer to a call may depend on an environment value (`ε`): a clock reading,
an iteration order, the outcome of user code.  The scheduler picks it afresh for
every call, so `Reachable` quantifies over all of them.
-/

namespace Rustvello.Concurrency

/-- A signature of atomic calls: the calls, and what each one answers. -/
structure Interface where
  Op : Type
  Ret : Op → Type

/-- An operation over `I`: finished with a value, or waiting at a call. -/
inductive Prog (I : Interface) (α : Type) : Type where
  | done (a : α)
  | call (c : I.Op) (k : I.Ret c → Prog I α)

namespace Prog

variable {I : Interface} {α β γ : Type} {σ ε ρ : Type} {p : Prog I α}

/-- Run `p`, then continue with its value. -/
def bind : Prog I α → (α → Prog I β) → Prog I β
  | done a, f => f a
  | call c k, f => call c (fun r => bind (k r) f)

instance : Monad (Prog I) where
  pure := done
  bind := bind

/-- Make one call and return its answer. -/
def request (c : I.Op) : Prog I (I.Ret c) :=
  call c done

@[simp] theorem pure_eq (a : α) : (pure a : Prog I α) = done a := rfl

@[simp] theorem done_bind (a : α) (f : α → Prog I β) : (done a >>= f) = f a := rfl

@[simp] theorem call_bind (c : I.Op) (k : I.Ret c → Prog I α) (f : α → Prog I β) :
    (call c k >>= f) = call c (fun r => k r >>= f) := rfl

theorem bind_assoc (p : Prog I α) (f : α → Prog I β) (g : β → Prog I γ) :
    (p >>= f >>= g) = p >>= fun a => f a >>= g := by
  induction p with
  | done a => rfl
  | call c k ih =>
      show Prog.call _ _ = Prog.call _ _
      congr 1
      funext r
      exact ih r

/-- One call inside an operation that can fail; the call itself does not. -/
def ask {ρ : Type} (c : I.Op) : ExceptT ρ (Prog I) (I.Ret c) :=
  ExceptT.lift (request c)

/-- Forget the value of an operation: the pool only schedules its calls. -/
def toUnit (p : Prog I α) : Prog I Unit :=
  p.bind fun _ => done ()

/-- Every call `p` can make satisfies `P`, as long as the answers satisfy `A`. -/
def Uses (A : (c : I.Op) → I.Ret c → Prop) (P : I.Op → Prop) : Prog I α → Prop
  | done _ => True
  | call c k => P c ∧ ∀ r, A c r → Uses A P (k r)

variable {A : (c : I.Op) → I.Ret c → Prop}

/-- Fewer answers to expect, and a weaker property of calls. -/
theorem Uses.mono {A' : (c : I.Op) → I.Ret c → Prop} {P P' : I.Op → Prop} (h : p.Uses A P)
    (hA : ∀ c r, A' c r → A c r) (hP : ∀ c, P c → P' c) : p.Uses A' P' := by
  induction p with
  | done a => trivial
  | call c k ih => exact ⟨hP c h.1, fun r hr => ih r (h.2 r (hA c r hr))⟩

theorem uses_bind {P : I.Op → Prop} {f : α → Prog I β} (hp : p.Uses A P)
    (hf : ∀ a, (f a).Uses A P) : (p >>= f).Uses A P := by
  induction p with
  | done a => exact hf a
  | call c k ih => exact ⟨hp.1, fun r hr => ih r (hp.2 r hr)⟩

/-- `Uses` for an operation that can fail. -/
def UsesE {ρ : Type} (A : (c : I.Op) → I.Ret c → Prop) (P : I.Op → Prop)
    (p : ExceptT ρ (Prog I) α) : Prop :=
  p.run.Uses A P

theorem usesE_bind {ρ : Type} {P : I.Op → Prop} {p : ExceptT ρ (Prog I) α}
    {f : α → ExceptT ρ (Prog I) β} (hp : UsesE A P p) (hf : ∀ a, UsesE A P (f a)) :
    UsesE A P (p >>= f) := by
  refine uses_bind (p := p.run) hp ?_
  rintro (e | a)
  · trivial
  · exact hf a

/-- `p`, run from `s` without interference, can end with `a` in `s'`. -/
def Ends {σ ε : Type} (exec : ε → (c : I.Op) → σ → I.Ret c × σ) : Prog I α → σ → α → σ → Prop
  | done b, s, a, s' => a = b ∧ s' = s
  | call c k, s, a, s' => ∃ env, Ends exec (k (exec env c s).1) (exec env c s).2 a s'

/-- Every operation ends, whatever it is answered. -/
theorem ends_total {σ ε : Type} [Nonempty ε] (exec : ε → (c : I.Op) → σ → I.Ret c × σ)
    (p : Prog I α) (s : σ) : ∃ a s', p.Ends exec s a s' := by
  induction p generalizing s with
  | done a => exact ⟨a, s, rfl, rfl⟩
  | call c k ih =>
      obtain ⟨env⟩ := ‹Nonempty ε›
      obtain ⟨a, s', h⟩ := ih (exec env c s).1 (exec env c s).2
      exact ⟨a, s', env, h⟩

theorem ends_bind {σ ε : Type} {exec : ε → (c : I.Op) → σ → I.Ret c × σ} {f : α → Prog I β}
    {s s' : σ} {b : β} :
    (p >>= f).Ends exec s b s' ↔ ∃ a t, p.Ends exec s a t ∧ (f a).Ends exec t b s' := by
  induction p generalizing s with
  | done a =>
      constructor
      · intro h
        exact ⟨a, s, ⟨rfl, rfl⟩, h⟩
      · rintro ⟨_, _, ⟨rfl, rfl⟩, h⟩
        exact h
  | call c k ih =>
      constructor
      · rintro ⟨env, h⟩
        obtain ⟨a, t, hp, hf⟩ := (ih _).mp h
        exact ⟨a, t, ⟨env, hp⟩, hf⟩
      · rintro ⟨a, t, ⟨env, hp⟩, hf⟩
        exact ⟨env, (ih _).mpr ⟨a, t, hp, hf⟩⟩

/-- Run an operation by itself, every call answered by the same `exec`. -/
def alone {σ : Type} (exec : (c : I.Op) → σ → I.Ret c × σ) : Prog I α → σ → α × σ
  | done a, s => (a, s)
  | call c k, s => alone exec (k (exec c s).1) (exec c s).2

theorem alone_bind {σ : Type} (exec : (c : I.Op) → σ → I.Ret c × σ) (p : Prog I α)
    (f : α → Prog I β) (s : σ) :
    (p >>= f).alone exec s = (f (p.alone exec s).1).alone exec (p.alone exec s).2 := by
  induction p generalizing s with
  | done a => rfl
  | call c k ih => exact ih (exec c s).1 (exec c s).2

/-- `alone` for an operation that can fail. -/
def aloneE {σ ρ : Type} (exec : (c : I.Op) → σ → I.Ret c × σ) (p : ExceptT ρ (Prog I) α)
    (s : σ) : Except ρ α × σ :=
  p.run.alone exec s

theorem aloneE_bind_ok {σ ρ : Type} {exec : (c : I.Op) → σ → I.Ret c × σ}
    {p : ExceptT ρ (Prog I) α} {f : α → ExceptT ρ (Prog I) β} {s t : σ} {a : α}
    (h : aloneE exec p s = (.ok a, t)) : aloneE exec (p >>= f) s = aloneE exec (f a) t := by
  have hrun : aloneE exec (p >>= f) s =
      (ExceptT.bindCont f (aloneE exec p s).1).alone exec (aloneE exec p s).2 :=
    alone_bind exec p.run _ s
  rw [hrun, h]
  rfl

theorem aloneE_bind_error {σ ρ : Type} {exec : (c : I.Op) → σ → I.Ret c × σ}
    {p : ExceptT ρ (Prog I) α} {f : α → ExceptT ρ (Prog I) β} {s t : σ} {e : ρ}
    (h : aloneE exec p s = (.error e, t)) : aloneE exec (p >>= f) s = (.error e, t) := by
  have hrun : aloneE exec (p >>= f) s =
      (ExceptT.bindCont f (aloneE exec p s).1).alone exec (aloneE exec p s).2 :=
    alone_bind exec p.run _ s
  rw [hrun, h]
  rfl

/-- `Ends` for an operation that can fail. -/
def EndsE {σ ε ρ : Type} (exec : ε → (c : I.Op) → σ → I.Ret c × σ)
    (p : ExceptT ρ (Prog I) α) (s : σ) (r : Except ρ α) (s' : σ) : Prop :=
  p.run.Ends exec s r s'

/-- An operation ends where its first failing part ends. -/
theorem endsE_bind {exec : ε → (c : I.Op) → σ → I.Ret c × σ} {p : ExceptT ρ (Prog I) α}
    {f : α → ExceptT ρ (Prog I) β} {s s' : σ} {r : Except ρ β} :
    EndsE exec (p >>= f) s r s' ↔
      (∃ a t, EndsE exec p s (.ok a) t ∧ EndsE exec (f a) t r s') ∨
        ∃ e, EndsE exec p s (.error e) s' ∧ r = .error e := by
  have hrun : EndsE exec (p >>= f) s r s' ↔
      ∃ x t, p.run.Ends exec s x t ∧ (ExceptT.bindCont f x).Ends exec t r s' := ends_bind
  rw [hrun]
  constructor
  · rintro ⟨e | a, t, hp, hf⟩
    · obtain ⟨rfl, rfl⟩ := hf
      exact .inr ⟨e, hp, rfl⟩
    · exact .inl ⟨a, t, hp, hf⟩
  · rintro (⟨a, t, hp, hf⟩ | ⟨e, hp, rfl⟩)
    · exact ⟨.ok a, t, hp, hf⟩
    · exact ⟨.error e, s', hp, rfl, rfl⟩

theorem endsE_pure {exec : ε → (c : I.Op) → σ → I.Ret c × σ} {a : α} {s s' : σ} {r : Except ρ α} :
    EndsE exec (pure a : ExceptT ρ (Prog I) α) s r s' ↔ r = .ok a ∧ s' = s := Iff.rfl

theorem endsE_throw {exec : ε → (c : I.Op) → σ → I.Ret c × σ} {e : ρ} {s s' : σ} {r : Except ρ α} :
    EndsE exec (throw e : ExceptT ρ (Prog I) α) s r s' ↔ r = .error e ∧ s' = s := Iff.rfl

end Prog

/-- One call an operation made, with the answer it got. -/
structure Event (I : Interface) where
  op : I.Op
  ret : I.Ret op

/-- A started operation: what was asked for (`task`), what is left to do, and
the calls made so far, newest first. -/
structure Thread (I : Interface) (Ω : Type) where
  task : Ω
  prog : Prog I Unit
  log : List (Event I)

/-- The next call of a thread, if it has not finished. -/
def Thread.next? {I : Interface} {Ω : Type} (t : Thread I Ω) : Option I.Op :=
  match t.prog with
  | .done _ => none
  | .call c _ => some c

theorem Thread.prog_of_next {I : Interface} {Ω : Type} {t : Thread I Ω} {c : I.Op}
    (h : t.next? = some c) : ∃ k, t.prog = .call c k := by
  unfold Thread.next? at h
  split at h
  · cases h
  · rename_i c' k hprog
    obtain rfl := Option.some.inj h
    exact ⟨k, hprog⟩

/-- What the calls do (`exec`, on an environment value), and the program of each
operation that may be started. -/
structure Machine (I : Interface) (σ ε Ω : Type) where
  exec : ε → (c : I.Op) → σ → I.Ret c × σ
  program : Ω → Prog I Unit

/-- Shared state and the pool of started operations. -/
structure System (I : Interface) (σ Ω : Type) where
  shared : σ
  threads : List (Thread I Ω)

/-- One scheduler decision. -/
inductive Label (ε Ω : Type) where
  | start (task : Ω)
  | step (thread : Nat) (env : ε)

/-- The next `n` calls of one operation, all answered alike. -/
def Label.steps {ε Ω : Type} (thread n : Nat) (env : ε) : List (Label ε Ω) :=
  List.replicate n (.step thread env)

namespace System

variable {I : Interface} {σ ε Ω : Type}

/-- The state after one call of thread `t`, which sits at position `i`. -/
def afterCall (M : Machine I σ ε Ω) (s : System I σ Ω) (i : Nat) (t : Thread I Ω) (env : ε)
    (c : I.Op) (k : I.Ret c → Prog I Unit) : System I σ Ω :=
  let answer := M.exec env c s.shared
  { shared := answer.2
    threads := s.threads.set i
      { t with prog := k answer.1, log := ⟨c, answer.1⟩ :: t.log } }

/-- Carry out one scheduler decision; `none` when there is no such step. -/
def apply (M : Machine I σ ε Ω) (s : System I σ Ω) : Label ε Ω → Option (System I σ Ω)
  | .start task => some { s with threads := s.threads ++ [⟨task, M.program task, []⟩] }
  | .step i env =>
      match s.threads[i]? with
      | none => none
      | some t =>
          match t.prog with
          | .done _ => none
          | .call c k => some (s.afterCall M i t env c k)

/-- A single-step view of `apply` that later proofs take apart by cases. -/
theorem apply_cases {M : Machine I σ ε Ω} {s s' : System I σ Ω} {l : Label ε Ω}
    (h : s.apply M l = some s') :
    (∃ task, l = .start task ∧
      s' = { s with threads := s.threads ++ [⟨task, M.program task, []⟩] }) ∨
    (∃ i env t c k, l = .step i env ∧ s.threads[i]? = some t ∧ t.prog = .call c k ∧
      s' = s.afterCall M i t env c k) := by
  cases l with
  | start task =>
      left
      exact ⟨task, rfl, by simpa [apply] using h.symm⟩
  | step i env =>
      right
      simp only [apply] at h
      split at h
      · cases h
      · rename_i t ht
        split at h
        · cases h
        · rename_i c k hprog
          exact ⟨i, env, t, c, k, rfl, ht, hprog, by simpa using h.symm⟩

end System

/-- Which starts and which calls a set of runs considers.  A call is judged in
the state before it is made. -/
structure Guard (I : Interface) (σ Ω : Type) where
  start : System I σ Ω → Ω → Prop
  call : System I σ Ω → Nat → I.Op → Prop

/-- No restriction at all. -/
def Guard.top (I : Interface) (σ Ω : Type) : Guard I σ Ω :=
  ⟨fun _ _ => True, fun _ _ _ => True⟩

/-- Both restrictions at once. -/
def Guard.and {I : Interface} {σ Ω : Type} (g g' : Guard I σ Ω) : Guard I σ Ω :=
  ⟨fun s task => g.start s task ∧ g'.start s task, fun s i c => g.call s i c ∧ g'.call s i c⟩

/-- The guard allows this scheduler decision in this state. -/
def Guard.Allows {I : Interface} {σ ε Ω : Type} (g : Guard I σ Ω) (s : System I σ Ω) :
    Label ε Ω → Prop
  | .start task => g.start s task
  | .step i _ => ∀ t ∈ s.threads[i]?, ∀ c ∈ t.next?, g.call s i c

instance {I : Interface} {σ ε Ω : Type} (g : Guard I σ Ω) [∀ s task, Decidable (g.start s task)]
    [∀ s i c, Decidable (g.call s i c)] (s : System I σ Ω) (l : Label ε Ω) :
    Decidable (g.Allows s l) :=
  match l with
  | .start task => inferInstanceAs (Decidable (g.start s task))
  | .step i _ => inferInstanceAs (Decidable (∀ t ∈ s.threads[i]?, ∀ c ∈ t.next?, g.call s i c))

instance {I : Interface} {σ Ω : Type} (g g' : Guard I σ Ω) [∀ s task, Decidable (g.start s task)]
    [∀ s task, Decidable (g'.start s task)] (s : System I σ Ω) (task : Ω) :
    Decidable ((g.and g').start s task) :=
  inferInstanceAs (Decidable (_ ∧ _))

instance {I : Interface} {σ Ω : Type} (g g' : Guard I σ Ω) [∀ s i c, Decidable (g.call s i c)]
    [∀ s i c, Decidable (g'.call s i c)] (s : System I σ Ω) (i : Nat) (c : I.Op) :
    Decidable ((g.and g').call s i c) :=
  inferInstanceAs (Decidable (_ ∧ _))

section Reachable

variable {I : Interface} {σ ε Ω : Type} {M : Machine I σ ε Ω}

/-- The states of every interleaving that starts in `init` and whose decisions
the guard allows. -/
inductive Reachable (M : Machine I σ ε Ω) (g : Guard I σ Ω) (init : System I σ Ω) :
    System I σ Ω → Prop where
  | refl : Reachable M g init init
  | next {s s' : System I σ Ω} {l : Label ε Ω} :
      Reachable M g init s → g.Allows s l → s.apply M l = some s' → Reachable M g init s'

variable {init s : System I σ Ω}

/-- Fewer restrictions, more reachable states. -/
theorem Reachable.mono {g g' : Guard I σ Ω} (hs : ∀ s task, g.start s task → g'.start s task)
    (hc : ∀ s i c, g.call s i c → g'.call s i c)
    (h : Reachable M g init s) : Reachable M g' init s := by
  induction h with
  | refl => exact .refl
  | @next s s' l _ hallow happly ih =>
      refine .next ih ?_ happly
      cases l with
      | start task => exact hs _ _ hallow
      | step i env => exact fun t ht c hn => hc _ _ _ (hallow t ht c hn)

variable {g : Guard I σ Ω}

/-- A run, and then another one. -/
theorem Reachable.trans {init s s' : System I σ Ω} (h : Reachable M g init s)
    (h' : Reachable M g s s') : Reachable M g init s' := by
  induction h' with
  | refl => exact h
  | next _ hallow happly ih => exact ih.next hallow happly

/-- A started operation keeps its place, and what it was asked for. -/
theorem Reachable.task_at (h : Reachable M g init s) {i : Nat} {t : Thread I Ω}
    (ht : init.threads[i]? = some t) :
    ∃ t', s.threads[i]? = some t' ∧ t'.task = t.task := by
  induction h with
  | refl => exact ⟨t, ht, rfl⟩
  | @next s s' l _ _ happly ih =>
      obtain ⟨t', ht', htask⟩ := ih
      have hlen : i < s.threads.length := (List.getElem?_eq_some_iff.mp ht').1
      obtain ⟨task, rfl, rfl⟩ | ⟨j, env, u, c, k, rfl, hu, -, rfl⟩ := System.apply_cases happly
      · exact ⟨t', (List.getElem?_append_left hlen).trans ht', htask⟩
      · by_cases hij : j = i
        · subst hij
          obtain rfl : u = t' := Option.some.inj (hu.symm.trans ht')
          exact ⟨_, List.getElem?_set_self hlen, htask⟩
        · exact ⟨t', (List.getElem?_set_ne hij).trans ht', htask⟩

/-- What every allowed call keeps of the shared state holds in every reachable state,
whatever the operations are. -/
theorem Reachable.shared_invariant (Inv : σ → Prop) (hinit : Inv init.shared)
    (hcall : ∀ (s : System I σ Ω) (i : Nat) (env : ε) (c : I.Op), g.call s i c →
      Inv s.shared → Inv (M.exec env c s.shared).2) (h : Reachable M g init s) : Inv s.shared := by
  induction h with
  | refl => exact hinit
  | @next s s' l _ hallow happly ih =>
      obtain ⟨task, rfl, rfl⟩ | ⟨i, env, t, c, k, rfl, ht, hprog, rfl⟩ :=
        System.apply_cases happly
      · exact ih
      · have hnext : t.next? = some c := by simp [Thread.next?, hprog]
        exact hcall s i env c (hallow t ht c hnext) ih

/-- A list of scheduler decisions, executed. -/
def System.run (M : Machine I σ ε Ω) : System I σ Ω → List (Label ε Ω) → Option (System I σ Ω)
  | s, [] => some s
  | s, l :: ls =>
      match s.apply M l with
      | none => none
      | some s' => System.run M s' ls

/-- The guard allows every decision of the list, in the state it is taken in. -/
def Guard.AllowsAll (M : Machine I σ ε Ω) (g : Guard I σ Ω) :
    System I σ Ω → List (Label ε Ω) → Prop
  | _, [] => True
  | s, l :: ls => g.Allows s l ∧
      match s.apply M l with
      | none => True
      | some s' => Guard.AllowsAll M g s' ls

instance decidableAllowsAll (M : Machine I σ ε Ω) (g : Guard I σ Ω)
    [∀ s task, Decidable (g.start s task)] [∀ s i c, Decidable (g.call s i c)] :
    (s : System I σ Ω) → (ls : List (Label ε Ω)) → Decidable (g.AllowsAll M s ls)
  | _, [] => inferInstanceAs (Decidable True)
  | s, l :: ls =>
      have : Decidable (match s.apply M l with
          | none => True
          | some s' => g.AllowsAll M s' ls) :=
        match s.apply M l with
        | none => inferInstanceAs (Decidable True)
        | some s' => decidableAllowsAll M g s' ls
      inferInstanceAs (Decidable (g.Allows s l ∧ _))

/-- Executing an allowed list of decisions ends in a reachable state. -/
theorem Reachable.run {init : System I σ Ω} {ls : List (Label ε Ω)} {s s' : System I σ Ω}
    (hs : Reachable M g init s) (hallow : g.AllowsAll M s ls)
    (hrun : s.run M ls = some s') : Reachable M g init s' := by
  induction ls generalizing s with
  | nil =>
      simp only [System.run, Option.some.injEq] at hrun
      exact hrun ▸ hs
  | cons l ls ih =>
      simp only [System.run] at hrun
      simp only [Guard.AllowsAll] at hallow
      obtain ⟨hl, hrest⟩ := hallow
      cases happly : s.apply M l with
      | none => simp [happly] at hrun
      | some t =>
          simp only [happly] at hrun hrest
          exact ih (.next hs hl happly) hrest hrun

/-- A list of decisions is allowed if its starts are, and calls are not restricted. -/
theorem Guard.allowsAll_of_starts (M : Machine I σ ε Ω) (hcall : ∀ s i c, g.call s i c)
    {ls : List (Label ε Ω)} (hstart : ∀ s task, Label.start task ∈ ls → g.start s task)
    (s : System I σ Ω) :
    g.AllowsAll M s ls := by
  induction ls generalizing s with
  | nil => trivial
  | cons l ls ih =>
      refine ⟨?_, ?_⟩
      · cases l with
        | start task => exact hstart s task List.mem_cons_self
        | step i env => exact fun _ _ c _ => hcall s i c
      · split
        · trivial
        · exact ih (fun s task hmem => hstart s task (List.mem_cons_of_mem _ hmem)) _

/-- Without restrictions every list of decisions is allowed. -/
theorem Guard.allowsAll_top (M : Machine I σ ε Ω) (s : System I σ Ω) (ls : List (Label ε Ω)) :
    (Guard.top I σ Ω).AllowsAll M s ls :=
  Guard.allowsAll_of_starts M (fun _ _ _ => trivial) (fun _ _ _ => trivial) s

/-- A schedule that ends in a state with a (decidable) property exhibits a
reachable state with it. -/
theorem Reachable.exists_of_run (M : Machine I σ ε Ω) (g : Guard I σ Ω) (init : System I σ Ω)
    (ls : List (Label ε Ω)) (P : System I σ Ω → Prop) [DecidablePred P]
    (hallow : g.AllowsAll M init ls)
    (h : (init.run M ls).any (fun s => decide (P s)) = true) :
    ∃ s, Reachable M g init s ∧ P s := by
  cases hrun : init.run M ls with
  | none => simp [hrun] at h
  | some s =>
      rw [hrun] at h
      exact ⟨s, Reachable.run .refl hallow hrun, by simpa using h⟩

end Reachable

end Rustvello.Concurrency
