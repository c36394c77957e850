import Rustvello.Concurrency.Faults
import Rustvello.Core.Ports

/-!
# The calls of runners

Batch retrieval, recovery passes and heartbeats make a few port calls that no other
operation makes.

* `RunnerCall` — these calls; `runnerPorts` — they and all others;
* `Runner` — an operation that may make all of them;
* `lift` — an operation of the orchestrator as a part of one.
-/

namespace Rustvello.Core

open Concurrency Proto

inductive RunnerCall where
  -- invocation control
  | checkRunningConcurrency (taskId : TaskId) (config : TaskConfig)
      (ccArgs : Option SerializedArguments)
  | indexForConcurrencyControl (id : InvocationId) (taskId : TaskId)
      (ccArgs : Option SerializedArguments)
  | getExistingInvocations (taskId : TaskId) (ccArgs : Option SerializedArguments)
      (statuses : List InvocationStatus)
  | getInvocationsByStatus (status : InvocationStatus)
  | registerHeartbeat (runnerId : RunnerId)
  | getStalePendingInvocations (maxPendingSeconds : Nat)
  | getStaleRunningInvocations (runnerDeadAfterSeconds : Nat)
  -- broker
  | retrieveInvocationFromQueue (queue : String)
deriving DecidableEq

/-- What a call answers when it succeeds. -/
abbrev RunnerCall.Ans : RunnerCall → Type
  | checkRunningConcurrency _ _ _ => Bool
  | getExistingInvocations _ _ _ => List InvocationId
  | getInvocationsByStatus _ => List InvocationId
  | getStalePendingInvocations _ => List InvocationId
  | getStaleRunningInvocations _ => List InvocationId
  | retrieveInvocationFromQueue _ => Option InvocationId
  | _ => Unit

abbrev runnerPorts : Interface :=
  ports.sum ⟨RunnerCall, fun c => RustvelloResult c.Ans⟩

/-- An operation of a runner. -/
abbrev Runner (α : Type) := ExceptT RustvelloError (Prog runnerPorts) α

/-- One call of a runner; its error is the operation's error. -/
def runnerPort (c : RunnerCall) : Runner c.Ans :=
  ExceptT.mk (Prog.request (I := runnerPorts) (.inr c))

/-- The outcome of a runner's operation, error or not. -/
def outcome {α : Type} (p : Runner α) : Runner (RustvelloResult α) :=
  ExceptT.lift p.run

/-- An operation of the orchestrator. -/
def lift {α : Type} (p : Orch α) : Runner α :=
  ExceptT.mk p.run.inl

section Rules

variable {Ω γ α β : Type} {D : Discipline runnerPorts Ω γ} {E : RustvelloError → γ → Prop}
  {Q : β → γ → Prop} {g : γ}

/-- One call, then the rest: an error ends the operation at once. -/
theorem obeysE_runnerPort_bind {c : RunnerCall} {f : c.Ans → Runner β} :
    D.ObeysE (runnerPort c >>= f) Q E g ↔
      D.pre (.inr c) g ∧
        (∀ a, D.resp (.inr c) g (.ok a) → D.ObeysE (f a) Q E (D.next (.inr c) (.ok a) g)) ∧
        (∀ e, D.resp (.inr c) g (.error e) → E e (D.next (.inr c) (.error e) g)) := by
  rw [Discipline.obeysE_bind]
  have hport : ∀ (Q' : c.Ans → γ → Prop), D.ObeysE (runnerPort c) Q' E g ↔
      D.pre (.inr c) g ∧ ∀ r : RustvelloResult c.Ans, D.resp (.inr c) g r →
        Discipline.Outcome Q' E r (D.next (.inr c) r g) := fun _ => Iff.rfl
  rw [hport]
  refine and_congr_right fun _ => ⟨fun h => ⟨fun a => h (.ok a), fun e => h (.error e)⟩, ?_⟩
  rintro ⟨hok, herror⟩ (e | a) hr
  · exact herror e hr
  · exact hok a hr

/-- A part of the orchestrator is checked among its own calls. -/
theorem obeysE_lift {p : Orch α} {Q : α → γ → Prop} :
    D.ObeysE (lift p) Q E g ↔ D.left.ObeysE p Q E g :=
  Discipline.obeys_inl p.run

/-- One inspected call of the orchestrator, then the rest. -/
theorem obeysE_liftAttempt_bind {c : PortCall} {f : RustvelloResult c.Ans → Runner β} :
    D.ObeysE (lift (attempt (port c)) >>= f) Q E g ↔
      D.pre (.inl c) g ∧
        ∀ r, D.resp (.inl c) g r → D.ObeysE (f r) Q E (D.next (.inl c) r g) := by
  rw [Discipline.obeysE_bind, obeysE_lift]
  rfl

/-- An inspected outcome: nothing ends the operation here. -/
theorem obeysE_outcome_bind {p : Runner α} {f : RustvelloResult α → Runner β} :
    D.ObeysE (outcome p >>= f) Q E g ↔
      D.ObeysE p (fun a g' => D.ObeysE (f (.ok a)) Q E g')
        (fun e g' => D.ObeysE (f (.error e)) Q E g') g := by
  rw [Discipline.obeysE_bind, outcome, Discipline.obeysE_lift]
  have hcond : (fun (r : RustvelloResult α) (g' : γ) => D.ObeysE (f r) Q E g') =
      Discipline.Outcome (fun a g' => D.ObeysE (f (.ok a)) Q E g')
        (fun e g' => D.ObeysE (f (.error e)) Q E g') := by
    funext r g'
    cases r <;> rfl
  rw [hcond]
  rfl

theorem returns_lift {p : Orch α} (h : D.left.Returns g p) : D.Returns g (lift p) :=
  obeysE_lift.mpr h

theorem usesE_lift {A : (c : runnerPorts.Op) → runnerPorts.Ret c → Prop} {P : runnerPorts.Op → Prop}
    {p : Orch α} (h : Prog.UsesE (fun c r => A (.inl c) r) (fun c => P (.inl c)) p) :
    Prog.UsesE A P (lift p) :=
  Prog.uses_inl h

theorem usesE_runnerPort_bind {A : (c : runnerPorts.Op) → runnerPorts.Ret c → Prop}
    {P : runnerPorts.Op → Prop} {c : RunnerCall} {f : c.Ans → Runner β} (hc : P (.inr c))
    (hf : ∀ a, A (.inr c) (.ok a) → Prog.UsesE A P (f a)) : Prog.UsesE A P (runnerPort c >>= f) := by
  refine ⟨hc, ?_⟩
  rintro (e | a) hr
  · trivial
  · exact hf a hr

theorem usesE_outcome {A : (c : runnerPorts.Op) → runnerPorts.Ret c → Prop}
    {P : runnerPorts.Op → Prop} {p : Runner α} (h : Prog.UsesE A P p) :
    Prog.UsesE A P (outcome p) :=
  Prog.uses_bind (p := p.run) h fun _ => trivial

end Rules

/-! ## End conditions -/

section Ends

variable {σ ε α β : Type} {s : σ} {E : RustvelloError → σ → Prop}

/-- One inspected call, then the rest. -/
theorem ensuresE_attempt_bind {exec : ε → (c : PortCall) → σ → RustvelloResult c.Ans × σ}
    {c : PortCall} {f : RustvelloResult c.Ans → Orch β} {Q : β → σ → Prop}
    (h : ∀ x, Prog.EnsuresE exec (f (exec x c s).1) (exec x c s).2 Q E) :
    Prog.EnsuresE exec (attempt (port c) >>= f) s Q E := by
  intro r s' hends
  obtain ⟨answer, t, hport, hrest⟩ := endsE_attempt_bind.mp hends
  obtain ⟨x, hexec⟩ := endsE_port.mp hport
  have hfollows := h x
  rw [hexec] at hfollows
  exact hfollows r s' hrest

variable {exec : ε → (c : runnerPorts.Op) → σ → runnerPorts.Ret c × σ}

/-- A part of the orchestrator, among the calls of a runner. -/
theorem ensuresE_lift {p : Orch α} {Q : α → σ → Prop}
    (h : Prog.EnsuresE (I := ports) (fun x c t => exec x (.inl c) t) p s Q E) :
    Prog.EnsuresE exec (lift p) s Q E := by
  intro r s' hends
  exact h r s' (Prog.ends_inl.mp hends)

theorem ensuresE_liftAttempt_bind {c : PortCall} {f : RustvelloResult c.Ans → Runner β}
    {Q : β → σ → Prop}
    (h : ∀ x, Prog.EnsuresE exec (f (exec x (.inl c) s).1) (exec x (.inl c) s).2 Q E) :
    Prog.EnsuresE exec (lift (attempt (port c)) >>= f) s Q E := by
  apply Prog.EnsuresE.bind (Q := fun r t => Prog.EnsuresE exec (f r) t Q E)
  · apply ensuresE_lift
    intro r s' hends
    obtain ⟨answer, t, ⟨x, hanswer, ht⟩, hr, hs⟩ := Prog.ends_bind.mp hends
    cases hr
    show Prog.EnsuresE exec (f answer) s' Q E
    rw [hs, ht, hanswer]
    exact h x
  · exact fun _ _ hrest => hrest

/-- One call of a runner; its error ends the operation. -/
theorem ensuresE_runnerPort {c : RunnerCall} {Q : c.Ans → σ → Prop}
    (h : ∀ x, Discipline.Outcome Q E (exec x (.inr c) s).1 (exec x (.inr c) s).2) :
    Prog.EnsuresE exec (runnerPort c) s Q E := by
  rintro r s' ⟨x, hr, hs⟩
  rw [hr, hs]
  exact h x

end Ends

end Rustvello.Core
