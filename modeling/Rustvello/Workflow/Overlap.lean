import Rustvello.Workflow.Replay

/-!
# Workflow time while executions overlap

A base time and a timestamp are each stored after a lookup that found nothing, and another
execution may have stored one in between.  Timestamps stay unique as long as none is
overwritten by one that counts from another base time (`workflow_time_unique`); two
executions that both find no base time get different timestamps
(`overlapping_executions_disagree`).
-/

namespace Rustvello.Workflow

open Concurrency Proto Rustvello.Core DeterministicExecutor

/-- A stored timestamp is overwritten only by an execution whose base time it counts from. -/
def agreeing (lib : Library) (workflow : InvocationId) :
    Guard dataCalls WorkflowData Execution where
  start _ _ := True
  call s i c := match c with
    | .setWorkflowData id (.value .time n) _ => id = workflow →
        ∀ t ∈ s.threads[i]?, ∀ b ∈ ((replay lib workflow).book t).base,
          ∀ text ∈ stored s.shared workflow (.value .time n), text = generateTime lib b n
    | _ => True

instance (lib : Library) (workflow : InvocationId) (s : System dataCalls WorkflowData Execution)
    (execution : Execution) : Decidable ((agreeing lib workflow).start s execution) :=
  inferInstanceAs (Decidable True)

instance (lib : Library) (workflow : InvocationId) (s : System dataCalls WorkflowData Execution)
    (i : Nat) (c : DataCall) : Decidable ((agreeing lib workflow).call s i c) :=
  match c with
  | .setWorkflowData id (.value .time n) _ => inferInstanceAs (Decidable (id = workflow →
      ∀ t ∈ s.threads[i]?, ∀ b ∈ ((replay lib workflow).book t).base,
        ∀ text ∈ stored s.shared workflow (.value .time n), text = generateTime lib b n))
  | .setWorkflowData _ (.value .random _) _ => inferInstanceAs (Decidable True)
  | .setWorkflowData _ (.value .uuid _) _ => inferInstanceAs (Decidable True)
  | .setWorkflowData _ (.counter _) _ => inferInstanceAs (Decidable True)
  | .setWorkflowData _ .baseTime _ => inferInstanceAs (Decidable True)
  | .getWorkflowData _ _ => inferInstanceAs (Decidable True)
  | .utcNow => inferInstanceAs (Decidable True)

/-- **Workflow time of overlapping executions.**  As long as no execution overwrites a stored
timestamp by one that counts from another base time, all executions of the workflow got the
stored timestamps. -/
theorem workflow_time_unique (lib : Library) (workflow : InvocationId) {data : WorkflowData}
    (hfresh : Fresh workflow data) {s : System dataCalls WorkflowData Execution}
    (hs : Reachable (workflowMachine lib) (agreeing lib workflow) (idle data) s) :
    Agree lib workflow .time s := by
  refine agree (fun _ => True) hfresh (fun _ => ?_) hs trivial
  intro s i t n text _ ht _ hallowed hpre text' htext'
  obtain ⟨-, -, -, hgenerates⟩ := hpre
  obtain ⟨b, hb, rfl⟩ := hgenerates rfl
  exact hallowed rfl t ht b hb text' htext'

/-- Two executions overlap after the base time is stored. -/
def overlapLate : List (Label Timestamp Execution) :=
  [.start ⟨⟨"wf"⟩, [.time]⟩, .start ⟨⟨"wf"⟩, [.time]⟩] ++ Label.steps 0 4 0 ++ Label.steps 1 2 0 ++
    Label.steps 0 3 0 ++ Label.steps 1 3 0

theorem workflow_time_unique_overlapLate :
    ∃ s, Reachable (workflowMachine sampleLibrary) (agreeing sampleLibrary ⟨"wf"⟩) (idle ∅) s ∧
      outcomes sampleLibrary s = [some [.time 1000000000], some [.time 1000000000]] ∧
      Agree sampleLibrary ⟨"wf"⟩ .time s := by
  obtain ⟨s, hs, houtcomes⟩ := Reachable.exists_of_run (workflowMachine sampleLibrary)
    (agreeing sampleLibrary ⟨"wf"⟩) (idle ∅) overlapLate
    (fun s => outcomes sampleLibrary s = [some [.time 1000000000], some [.time 1000000000]])
    (by decide +kernel) (by decide +kernel)
  exact ⟨s, hs, houtcomes, workflow_time_unique sampleLibrary ⟨"wf"⟩ (fresh_empty ⟨"wf"⟩) hs⟩

/-- Two executions that both find no base time. -/
def overlapEarly : List (Label Timestamp Execution) :=
  [.start ⟨⟨"wf"⟩, [.time]⟩, .start ⟨⟨"wf"⟩, [.time]⟩] ++ Label.steps 0 1 0 ++ Label.steps 1 1 0 ++
    Label.steps 0 3 0 ++ Label.steps 1 3 1000000000 ++ Label.steps 0 3 0 ++ Label.steps 1 3 0

/-- **Two times for one call.**  Both executions establish a base time, and their first
timestamps differ. -/
theorem overlapping_executions_disagree :
    ∃ s t t', Reachable (workflowMachine sampleLibrary) (Guard.top _ _ _) (idle ∅) s ∧
      s.threads[0]? = some t ∧ s.threads[1]? = some t' ∧
      Returned sampleLibrary t .time 1 (.time 1000000000) ∧
      Returned sampleLibrary t' .time 1 (.time 2000000000) := by
  obtain ⟨s, hs, houtcomes⟩ := Reachable.exists_of_run (workflowMachine sampleLibrary)
    (Guard.top _ _ _) (idle ∅) overlapEarly
    (fun s => outcomes sampleLibrary s = [some [.time 1000000000], some [.time 2000000000]])
    (Guard.allowsAll_top _ _ _) (by decide +kernel)
  have hfirst : (outcomes sampleLibrary s)[0]? = some (some [.time 1000000000]) := by
    rw [houtcomes]
    rfl
  have hsecond : (outcomes sampleLibrary s)[1]? = some (some [.time 2000000000]) := by
    rw [houtcomes]
    rfl
  obtain ⟨t, ht, hreturned⟩ : ∃ t, s.threads[0]? = some t ∧
      Returned sampleLibrary t .time 1 (.time 1000000000) :=
    returned_of_outcomes hfirst le_rfl rfl
  obtain ⟨t', ht', hreturned'⟩ : ∃ t, s.threads[1]? = some t ∧
      Returned sampleLibrary t .time 1 (.time 2000000000) :=
    returned_of_outcomes hsecond le_rfl rfl
  exact ⟨s, t, t', hs, ht, ht', hreturned, hreturned'⟩

end Rustvello.Workflow
