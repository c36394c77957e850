import Rustvello.Concurrency.Discipline

/-!
# What is written down along a run

A pool keeps the log of every operation, but not the order of calls of different
operations, and it forgets what an operation returned.  This module adds both without
touching programs:

* `Observer`, `Machine.observed` — a machine that carries a note beside the shared state,
  written from each call and its answer, and that may correct the environment by it (a
  clock that does not go back);
* `Machine.recorded` — the note is the list of all calls, newest first;
* `Made`, `Reachable.made` — the moment of the run at which a logged call was made;
* `Prog.outcome`, `Prog.after` — the value an operation ends with after exactly the calls
  of a log, and what is left of it; `Reachable.returned` — a finished operation has a value;
* `Discipline.Upheld` — the hypotheses of the invariant rule, and with them
  `Upheld.outcome`: what a program promises of its value holds of the value it returned;
* `Discipline.Undisturbed` — a second rule, for what must not change under an operation
  while it is unfinished.
-/

namespace Rustvello.Concurrency

variable {I : Interface} {α β γ κ σ ε Ω : Type}

/-- How a note is kept: what it changes of the environment of a call, and what it becomes
after the call. -/
structure Observer (I : Interface) (ε κ : Type) where
  look : κ → ε → ε
  note : κ → ε → (c : I.Op) → I.Ret c → κ

/-- A machine with a note. -/
def Machine.observed (M : Machine I σ ε Ω) (O : Observer I ε κ) : Machine I (σ × κ) ε Ω where
  exec env c s :=
    let env := O.look s.2 env
    let answer := M.exec env c s.1
    (answer.1, (answer.2, O.note s.2 env c answer.1))
  program := M.program

/-- The machine that writes down every call, newest first. -/
def Machine.recorded (M : Machine I σ ε Ω) : Machine I (σ × List (Event I)) ε Ω :=
  M.observed ⟨fun _ env => env, fun history _ c r => ⟨c, r⟩ :: history⟩

variable {M : Machine I σ ε Ω} {G : Guard I σ Ω} {init s : System I σ Ω}

/-- Every call that was written down is in the log of the operation that made it. -/
theorem Reachable.mem_log {G : Guard I (σ × List (Event I)) Ω}
    {init s : System I (σ × List (Event I)) Ω} (hinit : init.shared.2 = [])
    (h : Reachable M.recorded G init s) : ∀ e ∈ s.shared.2, ∃ t ∈ s.threads, e ∈ t.log := by
  induction h with
  | refl => simp [hinit]
  | @next s s' l _ _ happly ih =>
      obtain ⟨task, rfl, rfl⟩ | ⟨i, env, t, c, k, rfl, ht, _, rfl⟩ := System.apply_cases happly
      · intro e he
        obtain ⟨t, ht, hlog⟩ := ih e he
        exact ⟨t, List.mem_append_left _ ht, hlog⟩
      · intro e he
        have hi : i < s.threads.length := (List.getElem?_eq_some_iff.mp ht).1
        rcases List.mem_cons.mp he with rfl | hold
        · exact ⟨_, List.mem_set hi _, List.mem_cons_self⟩
        · obtain ⟨t', ht', hlog⟩ := ih e hold
          obtain ⟨j, hj⟩ := List.mem_iff_getElem?.mp ht'
          by_cases hij : i = j
          · subst hij
            obtain rfl : t = t' := Option.some.inj (ht.symm.trans hj)
            exact ⟨_, List.mem_set hi _, List.mem_cons_of_mem _ hlog⟩
          · refine ⟨t', List.mem_of_getElem? (i := j) ?_, hlog⟩
            show (s.threads.set i _)[j]? = some t'
            rw [List.getElem?_set_ne hij, hj]

/-- At some moment of the run to `s`, the operation at position `i` waited at a call; then it
was answered, and the rest of the run followed. -/
def Made (M : Machine I σ ε Ω) (G : Guard I σ Ω) (init s : System I σ Ω) (i : Nat) (task : Ω)
    (e : Event I) : Prop :=
  ∃ s₁ env t₁ k, Reachable M G init s₁ ∧ s₁.threads[i]? = some t₁ ∧ t₁.task = task ∧
    t₁.prog = .call e.op k ∧ G.Allows s₁ (.step i env : Label ε Ω) ∧
    e.ret = (M.exec env e.op s₁.shared).1 ∧ Reachable M G (s₁.afterCall M i t₁ env e.op k) s

theorem Made.next {init s s' : System I σ Ω} {i : Nat} {task : Ω} {e : Event I}
    (h : Made M G init s i task e) {l : Label ε Ω} (hallow : G.Allows s l)
    (happly : s.apply M l = some s') : Made M G init s' i task e := by
  obtain ⟨s₁, env, t₁, k, hreach, ht, htask, hprog, hallow₁, hret, hrest⟩ := h
  exact ⟨s₁, env, t₁, k, hreach, ht, htask, hprog, hallow₁, hret, hrest.next hallow happly⟩

/-- Every call in the log of an operation that was not started before was made since. -/
theorem Reachable.made_since {i : Nat} (hinit : init.threads[i]? = none) (h : Reachable M G init s)
    {t : Thread I Ω} (ht : s.threads[i]? = some t) {e : Event I} (he : e ∈ t.log) :
    Made M G init s i t.task e := by
  induction h generalizing t with
  | refl => simp [hinit] at ht
  | @next s s' l hreach hallow happly ih =>
      obtain ⟨task, rfl, rfl⟩ | ⟨j, env, t', c, k, rfl, ht', hprog, rfl⟩ :=
        System.apply_cases happly
      · have hold : s.threads[i]? = some t := by
          rw [List.getElem?_append] at ht
          split at ht
          · exact ht
          · have hnew := List.mem_of_getElem? ht
            obtain rfl := List.mem_singleton.mp hnew
            cases he
        exact (ih hold he).next hallow happly
      · have hj : j < s.threads.length := (List.getElem?_eq_some_iff.mp ht').1
        have hset : (s.threads.set j ⟨t'.task, k (M.exec env c s.shared).1,
            ⟨c, (M.exec env c s.shared).1⟩ :: t'.log⟩)[i]? = some t := ht
        by_cases hij : j = i
        · subst hij
          rw [List.getElem?_set_self hj] at hset
          obtain rfl := Option.some.inj hset
          rcases List.mem_cons.mp he with rfl | he
          · exact ⟨s, env, t', k, hreach, ht', rfl, hprog, hallow, rfl, .refl⟩
          · exact (ih ht' he).next hallow happly
        · rw [List.getElem?_set_ne hij] at hset
          exact (ih hset he).next hallow happly

/-- Every call in the log of an operation was made. -/
theorem Reachable.made (hinit : init.threads = []) (h : Reachable M G init s) {i : Nat}
    {t : Thread I Ω} (ht : s.threads[i]? = some t) {e : Event I} (he : e ∈ t.log) :
    Made M G init s i t.task e :=
  h.made_since (by simp [hinit]) ht he

/-- What an operation has at its start, and keeps through every call of its own. -/
theorem Reachable.each_thread {P : Thread I Ω → Prop} (hinit : ∀ t ∈ init.threads, P t)
    (hstart : ∀ s task, G.start s task → P ⟨task, M.program task, []⟩)
    (hcall : ∀ s i env t c k, Reachable M G init s → s.threads[i]? = some t → t.prog = .call c k →
      G.call s i c → P t →
      P ⟨t.task, k (M.exec env c s.shared).1, ⟨c, (M.exec env c s.shared).1⟩ :: t.log⟩)
    (h : Reachable M G init s) : ∀ t ∈ s.threads, P t := by
  induction h with
  | refl => exact hinit
  | @next s s' l hreach hallow happly ih =>
      obtain ⟨task, rfl, rfl⟩ | ⟨i, env, t, c, k, rfl, ht, hprog, rfl⟩ := System.apply_cases happly
      · intro t ht
        rcases List.mem_append.mp ht with ht | ht
        · exact ih t ht
        · obtain rfl := List.mem_singleton.mp ht
          exact hstart s task hallow
      · intro t' ht'
        rcases List.mem_or_eq_of_mem_set ht' with ht' | rfl
        · exact ih t' ht'
        · exact hcall s i env t c k hreach ht hprog (hallow t ht c (by simp [Thread.next?, hprog]))
            (ih t (List.mem_of_getElem? ht))

/-- What a guard asks of every task it starts holds of every operation. -/
theorem Reachable.started {P : Ω → Prop} (hinit : init.threads = [])
    (hstart : ∀ s task, G.start s task → P task)
    (h : Reachable M G init s) : ∀ t ∈ s.threads, P t.task :=
  h.each_thread (by simp [hinit]) hstart fun _ _ _ _ _ _ _ _ _ _ hp => hp

/-! ## Returned values -/

section Outcome

variable [DecidableEq I.Op] {log : List (Event I)}

/-- The value that `p` ends with after exactly these calls, oldest first. -/
def Prog.outcome : Prog I α → List (Event I) → Option α
  | done a, [] => some a
  | done _, _ :: _ => none
  | call _ _, [] => none
  | call c k, e :: log => if h : e.op = c then outcome (k (h ▸ e.ret)) log else none

/-- A program that has ended made no more calls. -/
theorem Prog.outcome_done {a b : α}
    (h : (Prog.done a : Prog I α).outcome log = some b) : log = [] ∧ a = b := by
  cases log with
  | nil => exact ⟨rfl, Option.some.inj h⟩
  | cons e log => cases h

/-- A program that waits at a call made it first. -/
theorem Prog.outcome_call {c : I.Op} {k : I.Ret c → Prog I α} {b : α}
    (h : (Prog.call c k).outcome log = some b) :
    ∃ r rest, log = ⟨c, r⟩ :: rest ∧ (k r).outcome rest = some b := by
  cases log with
  | nil => cases h
  | cons e rest =>
      obtain ⟨op, r⟩ := e
      simp only [outcome] at h
      split at h
      · rename_i hop
        subst hop
        exact ⟨r, rest, rfl, h⟩
      · cases h

/-- What an operation returned, if the calls it has made are all of `p`'s. -/
def Thread.returned (p : Prog I α) (t : Thread I Ω) : Option α :=
  p.outcome t.log.reverse

/-- What is left of `p` after these calls, oldest first. -/
def Prog.after : Prog I α → List (Event I) → Option (Prog I α)
  | p, [] => some p
  | done _, _ :: _ => none
  | call c k, e :: log => if h : e.op = c then after (k (h ▸ e.ret)) log else none

@[simp] theorem Prog.after_nil (p : Prog I α) : p.after [] = some p := by
  cases p <;> rfl

variable {p : Prog I α}

/-- One more call. -/
theorem Prog.after_append {c : I.Op} {k : I.Ret c → Prog I α} (h : p.after log = some (call c k))
    (r : I.Ret c) :
    p.after (log ++ [⟨c, r⟩]) = some (k r) := by
  induction p generalizing log with
  | done a => cases log <;> simp [Prog.after] at h
  | call c' k' ih =>
      cases log with
      | nil =>
          simp only [Prog.after, Option.some.injEq, Prog.call.injEq] at h
          obtain ⟨rfl, hk⟩ := h
          obtain rfl := eq_of_heq hk
          simp [Prog.after]
      | cons e log =>
          obtain ⟨op, ret⟩ := e
          simp only [Prog.after, List.cons_append] at h ⊢
          split at h
          · rename_i hop
            subst hop
            simpa using ih ret h
          · cases h

/-- An operation that waits for nothing has returned. -/
theorem Prog.outcome_of_after {u : Unit}
    (h : p.toUnit.after log = some (done u)) : ∃ a, p.outcome log = some a := by
  induction p generalizing log with
  | done a =>
      cases log with
      | nil => exact ⟨a, rfl⟩
      | cons e log => simp [Prog.toUnit, Prog.bind, Prog.after] at h
  | call c k ih =>
      cases log with
      | nil => simp [Prog.toUnit, Prog.bind] at h
      | cons e log =>
          obtain ⟨op, ret⟩ := e
          simp only [Prog.toUnit, Prog.bind, Prog.after, Prog.outcome] at h ⊢
          split at h
          · rename_i hop
            subst hop
            simpa using ih ret h
          · cases h

/-- Every operation is where its calls have brought its program. -/
theorem Reachable.after_log {M : Machine I σ ε Ω} {G : Guard I σ Ω} {init s : System I σ Ω}
    (hinit : init.threads = []) (h : Reachable M G init s) :
    ∀ t ∈ s.threads, (M.program t.task).after t.log.reverse = some t.prog := by
  refine h.each_thread (by simp [hinit]) (fun _ _ _ => Prog.after_nil _) ?_
  intro s i env t c k _ _ hprog _ hafter
  rw [hprog] at hafter
  simpa using Prog.after_append hafter _

/-- A finished operation has returned. -/
theorem Reachable.returned {M : Machine I σ ε Ω} {G : Guard I σ Ω} {init s : System I σ Ω}
    (hinit : init.threads = []) (h : Reachable M G init s) {t : Thread I Ω} (ht : t ∈ s.threads)
    (hprogram : M.program t.task = p.toUnit) (hdone : t.next? = none) :
    ∃ a, t.returned p = some a := by
  have hafter := h.after_log hinit t ht
  rw [hprogram] at hafter
  cases hprog : t.prog with
  | done u =>
      rw [hprog] at hafter
      exact Prog.outcome_of_after hafter
  | call c k => simp [Thread.next?, hprog] at hdone

end Outcome

namespace Discipline

variable (D : Discipline I Ω γ)

/-- The book after some calls, oldest first. -/
def after (g : γ) (log : List (Event I)) : γ :=
  log.foldl (fun g e => D.next e.op e.ret g) g

/-- Every call of the log, oldest first, was answered as the discipline relies on. -/
def Follows : γ → List (Event I) → Prop
  | _, [] => True
  | g, e :: log => D.resp e.op g e.ret ∧ Follows (D.next e.op e.ret g) log

theorem follows_append (g : γ) (log rest : List (Event I)) :
    D.Follows g (log ++ rest) ↔ D.Follows g log ∧ D.Follows (D.after g log) rest := by
  induction log generalizing g with
  | nil => simp [Follows, after]
  | cons e log ih => simp [Follows, after, ih, and_assoc]

theorem read_eq_after (task : Ω) (log : List (Event I)) :
    D.read task log = D.after (D.start task) log.reverse := by
  induction log with
  | nil => rfl
  | cons e log ih => simp [after, ih]

/-- A program that obeys keeps its promise about the value it ends with. -/
theorem Obeys.outcome [DecidableEq I.Op] {D : Discipline I Ω γ} {p : Prog I α}
    {Q : α → γ → Prop} {g : γ} {log : List (Event I)} {a : α} (h : D.Obeys p Q g)
    (hlog : D.Follows g log) (houtcome : p.outcome log = some a) : Q a (D.after g log) := by
  induction p generalizing g log with
  | done b =>
      cases log with
      | nil =>
          obtain rfl : b = a := by simpa [Prog.outcome] using houtcome
          exact h
      | cons e log => simp [Prog.outcome] at houtcome
  | call c k ih =>
      cases log with
      | nil => simp [Prog.outcome] at houtcome
      | cons e log =>
          obtain ⟨op, ret⟩ := e
          simp only [Prog.outcome] at houtcome
          split at houtcome
          · rename_i hop
            subst hop
            have hrest := ih ret (h.2 ret hlog.1) hlog.2 houtcome
            exact hrest
          · cases houtcome

/-- Where every allowed call is answered as the discipline relies on, so was every operation. -/
theorem follows_of_resp {M : Machine I σ ε Ω} {G : Guard I σ Ω} {init : System I σ Ω}
    (hlogs : ∀ t ∈ init.threads, t.log = [])
    (hresp : ∀ (s : System I σ Ω) (i : Nat) (env : ε) (t : Thread I Ω) (c : I.Op),
      Reachable M G init s → s.threads[i]? = some t → t.next? = some c → G.call s i c →
      D.resp c (D.book t) (M.exec env c s.shared).1)
    {s : System I σ Ω} (hreach : Reachable M G init s) :
    ∀ t ∈ s.threads, D.Follows (D.start t.task) t.log.reverse := by
  refine hreach.each_thread (fun t ht => ?_) (fun _ _ _ => trivial) ?_
  · rw [hlogs t ht]
    trivial
  · intro s i env t c k hreach ht hprog hallow hfollows
    have hanswer := hresp s i env t c hreach ht (by simp [Thread.next?, hprog]) hallow
    simp only [List.reverse_cons]
    refine (D.follows_append _ _ _).mpr ⟨hfollows, ?_, trivial⟩
    rw [← read_eq_after]
    exact hanswer

/-- The hypotheses of the invariant rule. -/
structure Upheld (F : γ → Prop) (Inv : σ → List γ → Prop) (M : Machine I σ ε Ω)
    (G : Guard I σ Ω) (init : System I σ Ω) : Prop where
  program : ∀ s task, G.start s task → D.Obeys (M.program task) (fun _ => F) (D.start task)
  obey : AllObey D F init
  logs : ∀ t ∈ init.threads, t.log = []
  holds : Inv init.shared (init.books D.toMonitor)
  start : ∀ s task, G.start s task → Inv s.shared (s.books D.toMonitor) →
    Inv s.shared (s.books D.toMonitor ++ [D.start task])
  call : ∀ (s : System I σ Ω) (i : Nat) (env : ε) (t : Thread I Ω) (c : I.Op)
    (before after : List γ), D.Turn M G init F s i t c before after →
    Inv s.shared (before ++ D.book t :: after) →
    D.resp c (D.book t) (M.exec env c s.shared).1 ∧
    Inv (M.exec env c s.shared).2
      (before ++ D.next c (M.exec env c s.shared).1 (D.book t) :: after)

namespace Upheld

variable {D} {F : γ → Prop} {Inv : σ → List γ → Prop} {M : Machine I σ ε Ω} {G : Guard I σ Ω}
  {init s : System I σ Ω} (h : D.Upheld F Inv M G init)
include h

theorem obeyed (hreach : Reachable M G init s) :
    AllObey D F s ∧ Inv s.shared (s.books D.toMonitor) :=
  D.invariant F Inv h.program ⟨h.obey, h.holds⟩ h.start h.call hreach

/-- A second invariant on top, whose steps may use the first one. -/
theorem and (Inv' : σ → List γ → Prop) (hholds : Inv' init.shared (init.books D.toMonitor))
    (hstart : ∀ (s : System I σ Ω) task, Inv' s.shared (s.books D.toMonitor) →
      Inv' s.shared (s.books D.toMonitor ++ [D.start task]))
    (hcall : ∀ (s : System I σ Ω) (i : Nat) (env : ε) (t : Thread I Ω) (c : I.Op)
      (before after : List γ), D.Turn M G init F s i t c before after →
      Inv s.shared (before ++ D.book t :: after) → Inv' s.shared (before ++ D.book t :: after) →
      Inv' (M.exec env c s.shared).2
        (before ++ D.next c (M.exec env c s.shared).1 (D.book t) :: after)) :
    D.Upheld F (fun s books => Inv s books ∧ Inv' s books) M G init where
  program := h.program
  obey := h.obey
  logs := h.logs
  holds := ⟨h.holds, hholds⟩
  start s task hallowed hinv := ⟨h.start s task hallowed hinv.1, hstart s task hinv.2⟩
  call s i env t c before after hturn hinv := by
    obtain ⟨hresp, hnext⟩ := h.call s i env t c before after hturn hinv.1
    exact ⟨hresp, hnext, hcall s i env t c before after hturn hinv.1 hinv.2⟩

/-- One call in a reachable state. -/
theorem turn (hreach : Reachable M G init s) {i : Nat} {t : Thread I Ω} {c : I.Op}
    {k : I.Ret c → Prog I Unit} (ht : s.threads[i]? = some t) (hprog : t.prog = .call c k)
    (hallowed : G.call s i c) :
    ∃ before after, D.Turn M G init F s i t c before after ∧
      Inv s.shared (before ++ D.book t :: after) := by
  obtain ⟨hobey, hinv⟩ := h.obeyed hreach
  have hpre : D.pre c (D.book t) := by
    have hob := hobey t (List.mem_of_getElem? ht)
    rw [hprog] at hob
    exact hob.1
  have hnext : t.next? = some c := by simp [Thread.next?, hprog]
  obtain ⟨hsplit, hothers⟩ := books_split (D := D) ht
  rw [hsplit] at hinv
  exact ⟨_, _, ⟨hreach, hobey, ht, hnext, hallowed, hpre, hsplit, hothers⟩, hinv⟩

/-- Every operation was answered as the discipline relies on. -/
theorem follows (hreach : Reachable M G init s) :
    ∀ t ∈ s.threads, D.Follows (D.start t.task) t.log.reverse := by
  refine D.follows_of_resp h.logs ?_ hreach
  intro s i env t c hreach ht hnext hallowed
  obtain ⟨k, hprog⟩ := Thread.prog_of_next hnext
  obtain ⟨before, after, hturn, hinv⟩ := h.turn hreach ht hprog hallowed
  exact (h.call s i env t c before after hturn hinv).1

/-- What the first part of an operation promises of its value holds of the value it
returned. -/
theorem outcome [DecidableEq I.Op] (hreach : Reachable M G init s) {t : Thread I Ω}
    (ht : t ∈ s.threads) {p : Prog I α} {Q : α → γ → Prop} (hp : D.Obeys p Q (D.start t.task))
    {a : α} (hreturned : t.returned p = some a) : Q a (D.book t) := by
  have hpost := hp.outcome (h.follows hreach t ht) hreturned
  rwa [← read_eq_after] at hpost

end Upheld

/-! ## What an unfinished operation can rely on

An invariant over all books also speaks about operations that are over.  Here the claim of
an operation about the shared state and its book has to be kept only until it is finished. -/

/-- The hypotheses of the rule: an operation starts with its claim, its own calls keep it,
and so do the calls of others while it is unfinished. -/
structure Undisturbed (Inv : σ → Prop) (Claim : σ → γ → Prop) (M : Machine I σ ε Ω)
    (G : Guard I σ Ω) (init : System I σ Ω) : Prop where
  program : ∀ s task, G.start s task → D.Obeys (M.program task) (fun _ _ => True) (D.start task)
  idle : init.threads = []
  holds : Inv init.shared
  start : ∀ s task, G.start s task → Inv s.shared → Claim s.shared (D.start task)
  call : ∀ (s : System I σ Ω) (i : Nat) (env : ε) (t : Thread I Ω) (c : I.Op),
    s.threads[i]? = some t → t.next? = some c → G.call s i c → D.pre c (D.book t) →
    Inv s.shared → Claim s.shared (D.book t) →
    D.resp c (D.book t) (M.exec env c s.shared).1 ∧ Inv (M.exec env c s.shared).2 ∧
      Claim (M.exec env c s.shared).2 (D.next c (M.exec env c s.shared).1 (D.book t))
  others : ∀ (s : System I σ Ω) (i : Nat) (env : ε) (t : Thread I Ω) (c : I.Op) (j : Nat)
    (t' : Thread I Ω), s.threads[i]? = some t → t.next? = some c → G.call s i c →
    D.pre c (D.book t) → Inv s.shared → Claim s.shared (D.book t) → i ≠ j →
    s.threads[j]? = some t' → t'.next? ≠ none → Claim s.shared (D.book t') →
    Claim (M.exec env c s.shared).2 (D.book t')

namespace Undisturbed

variable {D} {Inv : σ → Prop} {Claim : σ → γ → Prop} {M : Machine I σ ε Ω} {G : Guard I σ Ω}
  {init s : System I σ Ω} (h : D.Undisturbed Inv Claim M G init) {t : Thread I Ω}
include h

/-- **The rule for unfinished operations.** -/
theorem obeyed (hreach : Reachable M G init s) :
    AllObey D (fun _ => True) s ∧ Inv s.shared ∧
      ∀ t ∈ s.threads, t.next? ≠ none → Claim s.shared (D.book t) := by
  induction hreach with
  | refl =>
      refine ⟨?_, h.holds, ?_⟩
      · intro t ht
        simp [h.idle] at ht
      · intro t ht
        simp [h.idle] at ht
  | @next s s' l _ hallow happly ih =>
      obtain ⟨hobey, hinv, hclaims⟩ := ih
      obtain ⟨task, rfl, rfl⟩ | ⟨i, env, t, c, k, rfl, ht, hprog, rfl⟩ :=
        System.apply_cases happly
      · refine ⟨?_, hinv, ?_⟩
        · intro t ht
          rcases List.mem_append.mp ht with ht | ht
          · exact hobey t ht
          · obtain rfl := List.mem_singleton.mp ht
            exact h.program s task hallow
        · intro t ht hopen
          rcases List.mem_append.mp ht with ht | ht
          · exact hclaims t ht hopen
          · obtain rfl := List.mem_singleton.mp ht
            exact h.start s task hallow hinv
      · have hmem : t ∈ s.threads := List.mem_of_getElem? ht
        have hnext : t.next? = some c := by simp [Thread.next?, hprog]
        have hi : i < s.threads.length := (List.getElem?_eq_some_iff.mp ht).1
        obtain ⟨hpre, hcont⟩ : D.pre c (D.book t) ∧ ∀ r, D.resp c (D.book t) r →
            D.Obeys (k r) (fun _ _ => True) (D.next c r (D.book t)) := by
          have hob := hobey t hmem
          rw [hprog] at hob
          exact hob
        have hclaim : Claim s.shared (D.book t) := hclaims t hmem (by simp [hnext])
        have hallowed : G.call s i c := hallow t ht c hnext
        obtain ⟨hresp, hinv', hown⟩ := h.call s i env t c ht hnext hallowed hpre hinv hclaim
        refine ⟨?_, hinv', ?_⟩
        · intro t' ht'
          rcases List.mem_or_eq_of_mem_set ht' with ht' | rfl
          · exact hobey t' ht'
          · exact hcont _ hresp
        · intro t' ht' hopen
          obtain ⟨j, hj⟩ := List.mem_iff_getElem?.mp ht'
          have hj' : (s.threads.set i ⟨t.task, k (M.exec env c s.shared).1,
              ⟨c, (M.exec env c s.shared).1⟩ :: t.log⟩)[j]? = some t' := hj
          by_cases hij : i = j
          · subst hij
            rw [List.getElem?_set_self hi] at hj'
            obtain rfl := Option.some.inj hj'
            exact hown
          · rw [List.getElem?_set_ne hij] at hj'
            exact h.others s i env t c j t' ht hnext hallowed hpre hinv hclaim hij hj' hopen
              (hclaims t' (List.mem_of_getElem? hj') hopen)

/-- What is known of an operation that is about to make a call. -/
theorem pending (hreach : Reachable M G init s) {c : I.Op} (ht : t ∈ s.threads)
    (hnext : t.next? = some c) :
    D.pre c (D.book t) ∧ Inv s.shared ∧ Claim s.shared (D.book t) := by
  obtain ⟨hobey, hinv, hclaims⟩ := h.obeyed hreach
  refine ⟨?_, hinv, hclaims t ht (by simp [hnext])⟩
  obtain ⟨k, hprog⟩ := Thread.prog_of_next hnext
  have hob := hobey t ht
  rw [hprog] at hob
  exact hob.1

/-- What the first part of an operation promises of its value holds of the value it
returned. -/
theorem outcome [DecidableEq I.Op] (hreach : Reachable M G init s) (ht : t ∈ s.threads)
    {p : Prog I α} {Q : α → γ → Prop} (hp : D.Obeys p Q (D.start t.task)) {a : α}
    (hreturned : t.returned p = some a) : Q a (D.book t) := by
  have hfollows : ∀ t ∈ s.threads, D.Follows (D.start t.task) t.log.reverse := by
    refine D.follows_of_resp (by simp [h.idle]) ?_ hreach
    intro s i env t c hreach ht hnext hallowed
    have hmem : t ∈ s.threads := List.mem_of_getElem? ht
    obtain ⟨hpre, hinv, hclaim⟩ := h.pending hreach hmem hnext
    exact (h.call s i env t c ht hnext hallowed hpre hinv hclaim).1
  have hpost := hp.outcome (hfollows t ht) hreturned
  rwa [← read_eq_after] at hpost

/-- The claim of an operation right after a call of its own, finished or not. -/
theorem after_call (hreach : Reachable M G init s) {i : Nat} {env : ε} {s' : System I σ Ω}
    (hallow : G.Allows s (.step i env : Label ε Ω)) (happly : s.apply M (.step i env) = some s')
    (ht : s'.threads[i]? = some t) : Claim s'.shared (D.book t) := by
  obtain ⟨task, heq, -⟩ | ⟨i', env', t', c, k, heq, ht', hprog, rfl⟩ := System.apply_cases happly
  · cases heq
  · cases heq
    have hmem : t' ∈ s.threads := List.mem_of_getElem? ht'
    have hi : i < s.threads.length := (List.getElem?_eq_some_iff.mp ht').1
    have hnext : t'.next? = some c := by simp [Thread.next?, hprog]
    obtain ⟨hpre, hinv, hclaim⟩ := h.pending hreach hmem hnext
    obtain ⟨-, -, hown⟩ := h.call s i env t' c ht' hnext (hallow t' ht' c hnext) hpre hinv hclaim
    have hset : (s.threads.set i ⟨t'.task, k (M.exec env c s.shared).1,
        ⟨c, (M.exec env c s.shared).1⟩ :: t'.log⟩)[i]? = some t := ht
    rw [List.getElem?_set_self hi] at hset
    obtain rfl := Option.some.inj hset
    exact hown

end Undisturbed

end Discipline

end Rustvello.Concurrency
