import Rustvello.Concurrency.Program

/-!
# Disciplines: what every operation of a pool keeps to

A safety proof about a pool has two halves.  One is about programs: between its
calls an operation keeps book of what it holds, and it makes a call only when
its book allows it.  The other is about calls: each allowed call keeps the
invariant that ties the shared state to all the books.  This module separates
the two.

* `Monitor` — the book: a value of type `γ`, opened from what the operation was
  asked for and updated from each call and its answer.  It is a function of the
  thread (`Monitor.book`), so nothing is added to the program itself.
* `Discipline` — a monitor, the calls it permits (`pre`) and the answers it may
  rely on (`resp`).
* `Discipline.Obeys` — a program keeps the discipline from a given book on;
  `obeys_bind` and its companions take programs apart call by call.
* `Discipline.Returns` — a program that ends with the book it began with.
* `Discipline.invariant` — the rule that joins the halves: programs that obey,
  calls that preserve, hence an invariant of every reachable state.
-/

namespace Rustvello.Concurrency

variable {I : Interface} {α β γ ρ σ ε Ω : Type}

/-- A book kept along the calls of one operation. -/
structure Monitor (I : Interface) (Ω γ : Type) where
  start : Ω → γ
  next : (c : I.Op) → I.Ret c → γ → γ

/-- The book after the calls of a log (newest first). -/
def Monitor.read (m : Monitor I Ω γ) (task : Ω) : List (Event I) → γ
  | [] => m.start task
  | e :: log => m.next e.op e.ret (m.read task log)

@[simp] theorem Monitor.read_nil (m : Monitor I Ω γ) (task : Ω) :
    m.read task [] = m.start task := rfl

@[simp] theorem Monitor.read_cons (m : Monitor I Ω γ) (task : Ω) (e : Event I)
    (log : List (Event I)) :
    m.read task (e :: log) = m.next e.op e.ret (m.read task log) := rfl

/-- The book of one started operation. -/
def Monitor.book (m : Monitor I Ω γ) (t : Thread I Ω) : γ :=
  m.read t.task t.log

/-- What no call changes in the book is as it was at the start. -/
theorem Monitor.book_field (m : Monitor I Ω γ) (field : γ → β)
    (h : ∀ c r g, field (m.next c r g) = field g) (t : Thread I Ω) :
    field (m.book t) = field (m.start t.task) := by
  unfold Monitor.book
  induction t.log with
  | nil => rfl
  | cons e log ih => exact (h e.op e.ret _).trans ih

/-- The books of a pool, in thread order. -/
def System.books (m : Monitor I Ω γ) (s : System I σ Ω) : List γ :=
  s.threads.map m.book

theorem mem_of_others {before after : List γ} {b : γ} (hb : b ∈ before ++ after) (g : γ) :
    b ∈ before ++ g :: after := by
  simp only [List.mem_append, List.mem_cons] at hb ⊢
  tauto

theorem mem_replaced {before after : List γ} {b g : γ} (hb : b ∈ before ++ g :: after) :
    b ∈ before ++ after ∨ b = g := by
  simp only [List.mem_append, List.mem_cons] at hb ⊢
  tauto

/-- One book is replaced, and what is said of the others is carried over. -/
theorem forall_replace_mem {P Q : γ → Prop} {before after : List γ} {g g' : γ}
    (h : ∀ b ∈ before ++ g :: after, P b) (hother : ∀ b ∈ before ++ after, P b → Q b)
    (hown : Q g') : ∀ b ∈ before ++ g' :: after, Q b := by
  intro b hb
  rcases mem_replaced hb with hb | rfl
  · exact hother b hb (h b (mem_of_others hb g))
  · exact hown

theorem forall_replace {P Q : γ → Prop} {before after : List γ} {g g' : γ}
    (h : ∀ b ∈ before ++ g :: after, P b) (hother : ∀ b, P b → Q b) (hown : Q g') :
    ∀ b ∈ before ++ g' :: after, Q b :=
  forall_replace_mem h (fun b _ => hother b) hown

/-- A monitor together with the calls it permits and the answers an operation
may rely on. -/
structure Discipline (I : Interface) (Ω γ : Type) extends Monitor I Ω γ where
  pre : I.Op → γ → Prop
  resp : (c : I.Op) → γ → I.Ret c → Prop

namespace Discipline

variable (D : Discipline I Ω γ) {p : ExceptT ρ (Prog I) α} {E : ρ → γ → Prop}
  {f : α → ExceptT ρ (Prog I) β} {g : γ} {Q : β → γ → Prop} {R : α → γ → Prop} {K : γ → Prop}

/-- From book `g` on, `p` makes only permitted calls, and it ends with a value
and a book related by `Q`. -/
def Obeys : Prog I α → (α → γ → Prop) → γ → Prop
  | .done a, Q, g => Q a g
  | .call c k, Q, g => D.pre c g ∧ ∀ r, D.resp c g r → Obeys (k r) Q (D.next c r g)

@[simp] theorem obeys_done (a : α) (Q : α → γ → Prop) (g : γ) :
    D.Obeys (.done a) Q g ↔ Q a g := Iff.rfl

@[simp] theorem obeys_call (c : I.Op) (k : I.Ret c → Prog I α) (Q : α → γ → Prop) (g : γ) :
    D.Obeys (.call c k) Q g ↔
      D.pre c g ∧ ∀ r, D.resp c g r → D.Obeys (k r) Q (D.next c r g) := Iff.rfl

@[simp] theorem obeys_pure (a : α) (Q : α → γ → Prop) (g : γ) :
    D.Obeys (pure a) Q g ↔ Q a g := Iff.rfl

@[simp] theorem obeys_request (c : I.Op) (Q : I.Ret c → γ → Prop) (g : γ) :
    D.Obeys (Prog.request c) Q g ↔ D.pre c g ∧ ∀ r, D.resp c g r → Q r (D.next c r g) :=
  Iff.rfl

/-- Sequencing: what is left after `p` starts from the book `p` ends with. -/
theorem obeys_bind (p : Prog I α) (f : α → Prog I β) (Q : β → γ → Prop) (g : γ) :
    D.Obeys (p >>= f) Q g ↔ D.Obeys p (fun a g' => D.Obeys (f a) Q g') g := by
  induction p generalizing g with
  | done a => rfl
  | call c k ih =>
      simp only [Prog.call_bind, obeys_call]
      constructor
      · rintro ⟨hpre, hk⟩
        exact ⟨hpre, fun r hr => (ih r _).mp (hk r hr)⟩
      · rintro ⟨hpre, hk⟩
        exact ⟨hpre, fun r hr => (ih r _).mpr (hk r hr)⟩

/-- A weaker end condition is met as well. -/
theorem Obeys.mono {D : Discipline I Ω γ} {p : Prog I α} {Q Q' : α → γ → Prop} (h : D.Obeys p Q g)
    (hQ : ∀ a g', Q a g' → Q' a g') : D.Obeys p Q' g := by
  induction p generalizing g with
  | done a => exact hQ a g h
  | call c k ih => exact ⟨h.1, fun r hr => ih r (h.2 r hr)⟩

/-- Sequencing through an intermediate condition. -/
theorem Obeys.bind {D : Discipline I Ω γ} {p : Prog I α} {f : α → Prog I β} (hp : D.Obeys p R g)
    (hf : ∀ a g', R a g' → D.Obeys (f a) Q g') : D.Obeys (p >>= f) Q g :=
  (D.obeys_bind p f Q g).mpr (hp.mono hf)

/-- Dropping the value of a program drops it from the end condition. -/
theorem Obeys.toUnit {D : Discipline I Ω γ} {p : Prog I α} {Q : γ → Prop}
    (h : D.Obeys p (fun _ => Q) g) : D.Obeys p.toUnit (fun _ => Q) g :=
  (D.obeys_bind p _ _ g).mpr h

/-- The answers that the discipline counts on in some book. -/
def Answers (c : I.Op) (r : I.Ret c) : Prop :=
  ∃ g, D.resp c g r

/-- Calls that the discipline permits always and that leave every book as it is. -/
def Quiet (c : I.Op) : Prop :=
  ∀ g, D.pre c g ∧ ∀ r, D.next c r g = g

/-- Calls that are permitted, and keep `K`, in every book with `K`. -/
def Keeps (K : γ → Prop) (c : I.Op) : Prop :=
  ∀ g, K g → D.pre c g ∧ ∀ r, D.resp c g r → K (D.next c r g)

theorem Quiet.keeps {D : Discipline I Ω γ} {c : I.Op} (h : D.Quiet c) (K : γ → Prop) :
    D.Keeps K c :=
  fun g hg => ⟨(h g).1, fun r _ => by rw [(h g).2 r]; exact hg⟩

/-- A program of such calls keeps `K`. -/
theorem Obeys.of_keeps {D : Discipline I Ω γ} {p : Prog I α} (h : p.Uses D.Answers (D.Keeps K))
    (hg : K g) : D.Obeys p (fun _ => K) g := by
  induction p generalizing g with
  | done a => exact hg
  | call c k ih =>
      obtain ⟨hc, hk⟩ := h
      exact ⟨(hc g hg).1, fun r hr => ih r (hk r ⟨g, hr⟩) ((hc g hg).2 r hr)⟩

/-- A program of quiet calls ends with the book it began with. -/
theorem Obeys.of_uses {D : Discipline I Ω γ} {p : Prog I α} (h : p.Uses D.Answers D.Quiet) (g : γ) :
    D.Obeys p (fun _ g' => g' = g) g := by
  induction p with
  | done a => rfl
  | call c k ih =>
      obtain ⟨hc, hk⟩ := h
      refine ⟨(hc g).1, fun r hr => ?_⟩
      rw [(hc g).2 r]
      exact ih r (hk r ⟨g, hr⟩)

/-- A discipline that permits every call is obeyed by every program. -/
theorem Obeys.of_permitted {D : Discipline I Ω γ} (h : ∀ c g, D.pre c g) (p : Prog I α) (g : γ) :
    D.Obeys p (fun _ _ => True) g := by
  induction p generalizing g with
  | done a => trivial
  | call c k ih => exact ⟨h c g, fun r _ => ih r _⟩

/-- The calls of a program that obeys, without the books. -/
theorem Obeys.uses {D : Discipline I Ω γ} {p : Prog I α} {Q : α → γ → Prop}
    {A : (c : I.Op) → I.Ret c → Prop} {P : I.Op → Prop} (h : D.Obeys p Q g)
    (hpre : ∀ c g, D.pre c g → P c) (hresp : ∀ c g r, A c r → D.resp c g r) : p.Uses A P := by
  induction p generalizing g with
  | done a => trivial
  | call c k ih =>
      obtain ⟨hc, hk⟩ := h
      exact ⟨hpre c g hc, fun r hr => ih r (hk r (hresp c g r hr))⟩

/-! ## Operations that can fail

`ExceptT` is the reading of an early return on error: the book an operation ends
with on an error is the book at the failing call. -/

/-- End conditions of a fallible program, one for each outcome. -/
def Outcome (Q : α → γ → Prop) (E : ρ → γ → Prop) : Except ρ α → γ → Prop
  | .ok a => Q a
  | .error e => E e

@[simp] theorem outcome_ok (Q : α → γ → Prop) (E : ρ → γ → Prop) (a : α) :
    Outcome Q E (.ok a) = Q a := rfl

@[simp] theorem outcome_error (Q : α → γ → Prop) (E : ρ → γ → Prop) (e : ρ) :
    Outcome Q E (.error e) = E e := rfl

/-- A fallible program ends in `Q` with a value and in `E` with an error. -/
def ObeysE (p : ExceptT ρ (Prog I) α) (Q : α → γ → Prop) (E : ρ → γ → Prop) (g : γ) : Prop :=
  D.Obeys p.run (Outcome Q E) g

variable {D}

theorem obeysE_pure {a : α} {Q : α → γ → Prop} :
    D.ObeysE (pure a) Q E g ↔ Q a g := Iff.rfl

theorem obeysE_throw {e : ρ} {Q : α → γ → Prop} :
    D.ObeysE (throw e) Q E g ↔ E e g := Iff.rfl

/-- Sequencing: an error of `p` ends the whole program. -/
theorem obeysE_bind :
    D.ObeysE (p >>= f) Q E g ↔ D.ObeysE p (fun a g' => D.ObeysE (f a) Q E g') E g := by
  have hcond : (fun (r : Except ρ α) (g' : γ) =>
        D.Obeys (ExceptT.bindCont f r) (Outcome Q E) g')
      = Outcome (fun a g' => D.ObeysE (f a) Q E g') E := by
    funext r g'
    cases r <;> rfl
  change D.Obeys (p.run >>= ExceptT.bindCont f) (Outcome Q E) g ↔ _
  rw [obeys_bind, hcond]
  exact Iff.rfl

/-- A call lifted into a fallible program never fails by itself. -/
theorem obeysE_lift {p : Prog I α} {Q : α → γ → Prop} :
    D.ObeysE (ExceptT.lift p) Q E g ↔ D.Obeys p Q g := by
  change D.Obeys (p >>= fun a => pure (.ok a)) (Outcome Q E) g ↔ _
  rw [obeys_bind]
  exact Iff.rfl

/-- One call, then the rest. -/
theorem obeysE_ask_bind {c : I.Op} {f : I.Ret c → ExceptT ρ (Prog I) β} :
    D.ObeysE (Prog.ask c >>= f) Q E g ↔
      D.pre c g ∧ ∀ r, D.resp c g r → D.ObeysE (f r) Q E (D.next c r g) := by
  rw [obeysE_bind, Prog.ask, obeysE_lift, obeys_request]

/-- A call whose answer already is a result. -/
theorem obeysE_mk {p : Prog I (Except ρ α)} {Q : α → γ → Prop} :
    D.ObeysE (ExceptT.mk p) Q E g ↔ D.Obeys p (Outcome Q E) g := Iff.rfl

theorem ObeysE.mono {Q Q' : α → γ → Prop} {E E' : ρ → γ → Prop} (h : D.ObeysE p Q E g)
    (hQ : ∀ a g', Q a g' → Q' a g') (hE : ∀ e g', E e g' → E' e g') : D.ObeysE p Q' E' g := by
  refine Obeys.mono h ?_
  intro r g' hr
  cases r with
  | ok a => exact hQ a g' hr
  | error e => exact hE e g' hr

/-- Sequencing of fallible programs through an intermediate condition. -/
theorem ObeysE.bind (hp : D.ObeysE p R E g)
    (hf : ∀ a g', R a g' → D.ObeysE (f a) Q E g') : D.ObeysE (p >>= f) Q E g :=
  obeysE_bind.mpr (hp.mono hf fun _ _ h => h)

/-- Sequencing after a program that does not fail. -/
theorem ObeysE.bind_of_total (hp : D.ObeysE p R (fun _ _ => False) g)
    (hf : ∀ a g', R a g' → D.ObeysE (f a) Q E g') :
    D.ObeysE (p >>= f) Q E g :=
  obeysE_bind.mpr (hp.mono hf fun _ _ h => h.elim)

/-- A fallible program of quiet calls ends with the book it began with. -/
theorem ObeysE.of_uses (h : Prog.UsesE D.Answers D.Quiet p) (g : γ) :
    D.ObeysE p (fun _ g' => g' = g) (fun _ g' => g' = g) g := by
  refine (Obeys.of_uses h g).mono ?_
  rintro (e | a) g' rfl
  · rfl
  · rfl

/-- A fallible program of calls that keep `K` keeps `K`. -/
theorem ObeysE.of_keeps (h : Prog.UsesE D.Answers (D.Keeps K) p) (hg : K g) :
    D.ObeysE p (fun _ => K) (fun _ => K) g := by
  refine (Obeys.of_keeps h hg).mono ?_
  rintro (e | a) g' hg'
  · exact hg'
  · exact hg'

/-- Sequencing after a program of calls that keep `K`. -/
theorem ObeysE.bind_of_keeps (hp : Prog.UsesE D.Answers (D.Keeps K) p) (hg : K g)
    (hE : ∀ e g', K g' → E e g')
    (hf : ∀ a g', K g' → D.ObeysE (f a) Q E g') : D.ObeysE (p >>= f) Q E g :=
  obeysE_bind.mpr ((ObeysE.of_keeps hp hg).mono hf hE)

/-- Sequencing after a program of quiet calls. -/
theorem ObeysE.bind_of_uses (hp : Prog.UsesE D.Answers D.Quiet p) (hE : ∀ e, E e g)
    (hf : ∀ a, D.ObeysE (f a) Q E g) : D.ObeysE (p >>= f) Q E g := by
  refine obeysE_bind.mpr ((ObeysE.of_uses hp g).mono ?_ ?_)
  · rintro a g' rfl
    exact hf a
  · rintro e g' rfl
    exact hE e

/-! ### Programs that close their book

Between its calls such a program may leave the book open; what it opens it closes again, on
an error as well. -/

/-- `p` ends with the book it began with. -/
def Returns (D : Discipline I Ω γ) (g : γ) (p : ExceptT ρ (Prog I) α) : Prop :=
  D.ObeysE p (fun _ g' => g' = g) (fun _ g' => g' = g) g

theorem returns_pure (g : γ) (a : α) : D.Returns g (pure a : ExceptT ρ (Prog I) α) :=
  obeysE_pure.mpr rfl

theorem returns_throw (g : γ) (e : ρ) : D.Returns g (throw e : ExceptT ρ (Prog I) α) :=
  obeysE_throw.mpr rfl

theorem Returns.bind (hp : D.Returns g p)
    (hf : ∀ a, D.Returns g (f a)) : D.Returns g (p >>= f) := by
  refine ObeysE.bind hp ?_
  intro a g' hg'
  rw [hg']
  exact hf a

theorem Returns.ite {c : Prop} [Decidable c] {p q : ExceptT ρ (Prog I) α} (hp : D.Returns g p)
    (hq : D.Returns g q) : D.Returns g (if c then p else q) := by
  split
  · exact hp
  · exact hq

theorem Returns.of_uses (h : Prog.UsesE D.Answers D.Quiet p) : D.Returns g p :=
  ObeysE.of_uses h g

/-! ## The invariant rule -/

/-- Every thread of the pool keeps the discipline in what is left of it, and
will end with a book that satisfies `F`. -/
def AllObey (D : Discipline I Ω γ) (F : γ → Prop) (s : System I σ Ω) : Prop :=
  ∀ t ∈ s.threads, D.Obeys t.prog (fun _ => F) (D.book t)

/-- What is known when operation `t` at position `i` is about to make the call `c`;
`before` and `after` are the books of the other operations. -/
structure Turn (D : Discipline I Ω γ) (M : Machine I σ ε Ω) (G : Guard I σ Ω)
    (init : System I σ Ω) (F : γ → Prop) (s : System I σ Ω) (i : Nat) (t : Thread I Ω)
    (c : I.Op) (before after : List γ) : Prop where
  reachable : Reachable M G init s
  obey : AllObey D F s
  thread : s.threads[i]? = some t
  next : t.next? = some c
  allowed : G.call s i c
  permitted : D.pre c (D.book t)
  books : s.books D.toMonitor = before ++ D.book t :: after
  others : ∀ g ∈ before ++ after, ∃ j t', j ≠ i ∧ s.threads[j]? = some t' ∧ D.book t' = g

/-- The books around the one at position `i`. -/
theorem books_split {D : Discipline I Ω γ} {s : System I σ Ω} {i : Nat} {t : Thread I Ω}
    (ht : s.threads[i]? = some t) :
    s.books D.toMonitor =
        (s.threads.take i).map D.book ++ D.book t :: (s.threads.drop (i + 1)).map D.book ∧
      ∀ g ∈ (s.threads.take i).map D.book ++ (s.threads.drop (i + 1)).map D.book,
        ∃ j t', j ≠ i ∧ s.threads[j]? = some t' ∧ D.book t' = g := by
  have hi : i < s.threads.length := (List.getElem?_eq_some_iff.mp ht).1
  have hthreads : s.threads = s.threads.take i ++ t :: s.threads.drop (i + 1) := by
    conv_lhs => rw [← List.take_append_drop i s.threads]
    rw [List.drop_eq_getElem_cons hi, (List.getElem?_eq_some_iff.mp ht).2]
  constructor
  · unfold System.books
    conv_lhs => rw [hthreads]
    simp
  · intro g hg
    rcases List.mem_append.mp hg with hg | hg
    · obtain ⟨t', ht', rfl⟩ := List.mem_map.mp hg
      obtain ⟨j, hj⟩ := List.mem_iff_getElem?.mp ht'
      rw [List.getElem?_take] at hj
      split at hj
      · rename_i hlt
        exact ⟨j, t', by omega, hj, rfl⟩
      · cases hj
    · obtain ⟨t', ht', rfl⟩ := List.mem_map.mp hg
      obtain ⟨j, hj⟩ := List.mem_iff_getElem?.mp ht'
      rw [List.getElem?_drop] at hj
      exact ⟨i + 1 + j, t', by omega, hj, rfl⟩

/-- **The invariant rule.**  Programs that may be started obey the discipline;
starting an operation keeps `Inv`; every permitted and allowed call gives an answer
the discipline may rely on and keeps `Inv` with the caller's book updated in its
place.  Then `Inv` holds in every reachable state. -/
theorem invariant (D : Discipline I Ω γ) (F : γ → Prop) (Inv : σ → List γ → Prop)
    {M : Machine I σ ε Ω} {G : Guard I σ Ω} {init : System I σ Ω}
    (hprog : ∀ s task, G.start s task → D.Obeys (M.program task) (fun _ => F) (D.start task))
    (hinit : AllObey D F init ∧ Inv init.shared (init.books D.toMonitor))
    (hstart : ∀ s task, G.start s task → Inv s.shared (s.books D.toMonitor) →
      Inv s.shared (s.books D.toMonitor ++ [D.start task]))
    (hcall : ∀ (s : System I σ Ω) (i : Nat) (env : ε) (t : Thread I Ω) (c : I.Op)
      (before after : List γ), D.Turn M G init F s i t c before after →
      Inv s.shared (before ++ D.book t :: after) →
      D.resp c (D.book t) (M.exec env c s.shared).1 ∧
      Inv (M.exec env c s.shared).2
        (before ++ D.next c (M.exec env c s.shared).1 (D.book t) :: after))
    {s : System I σ Ω} (h : Reachable M G init s) :
    AllObey D F s ∧ Inv s.shared (s.books D.toMonitor) := by
  induction h with
  | refl => exact hinit
  | @next s s' l hreach hallow happly ih =>
      obtain ⟨hobey, hinv⟩ := ih
      obtain ⟨task, rfl, rfl⟩ | ⟨i, env, t, c, k, rfl, ht, hprogt, rfl⟩ :=
        System.apply_cases happly
      · constructor
        · intro t ht
          rcases List.mem_append.mp ht with ht | ht
          · exact hobey t ht
          · simp only [List.mem_singleton] at ht
            subst ht
            exact hprog s task hallow
        · simpa [System.books, Monitor.book] using hstart s task hallow hinv
      · have hob := hobey t (List.mem_of_getElem? ht)
        rw [hprogt] at hob
        obtain ⟨hpre, hcont⟩ := hob
        have hnext : t.next? = some c := by simp [Thread.next?, hprogt]
        have hi : i < s.threads.length := (List.getElem?_eq_some_iff.mp ht).1
        obtain ⟨hsplit, hothers⟩ := books_split (D := D) ht
        rw [hsplit] at hinv
        obtain ⟨hresp, hinv'⟩ := hcall s i env t c _ _
          ⟨hreach, hobey, ht, hnext, hallow t ht c hnext, hpre, hsplit, hothers⟩ hinv
        constructor
        · intro t' ht'
          rcases List.mem_or_eq_of_mem_set ht' with ht' | rfl
          · exact hobey t' ht'
          · exact hcont _ hresp
        · unfold System.books System.afterCall
          dsimp only
          rw [List.set_eq_take_append_cons_drop, if_pos hi]
          simpa [Monitor.book] using hinv'

end Discipline

end Rustvello.Concurrency
