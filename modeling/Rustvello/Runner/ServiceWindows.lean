import Rustvello.Backends.Liveness
import Rustvello.Concurrency.Sum
import Rustvello.Orchestration.Triggers
import Mathlib.Algebra.Order.Floor.Ring
import Mathlib.Algebra.Order.Field.Rat
import Mathlib.Data.Rat.Floor
import Mathlib.Tactic.Linarith
import Mathlib.Tactic.NormNum

/-!
# Windows of the atomic services

The runners of a cluster take turns at the atomic services.  The service interval is cut into as
many slots as there are active runners, and a runner may work in its own slot, less a margin at
the end.  A margin that swallows the slot is replaced by half of the slot.

* `canRunAtomicService` — the verdict of `check_atomic_services`;
* `shouldRunAtomicService` — the verdict of the management loop of a runner;
* `checkAtomicServices` — the check, with the trigger loop it guards;
* `Window` — a window that is not empty; `window` — the one of a position;
* `serviceWindows_exclusive` — at most one runner is allowed at a time, each once per interval.

The arithmetic is that of exact rationals.
-/

namespace Rustvello.Runner.ServiceWindows

open Concurrency Proto Rustvello.Core Orchestration
open Backends.Liveness (ActiveRunnerInfo)

/-! ## The verdicts -/

/-- `%`: the remainder of a division that rounds towards zero. -/
def remainder (a b : ℚ) : ℚ :=
  a - b * ((if 0 ≤ a / b then ⌊a / b⌋ else ⌈a / b⌉ : ℤ) : ℚ)

def canRunAtomicService (runnerId : RunnerId) (activeRunners : List ActiveRunnerInfo)
    (currentTime serviceIntervalMinutes spreadMarginMinutes : ℚ) : Bool :=
  if activeRunners.isEmpty then false
  else
    let totalRunners := activeRunners.length
    if totalRunners = 1 then true
    else
      match activeRunners.findIdx? fun r => r.runnerId = runnerId with
      | none => false
      | some runnerPosition =>
          let serviceInterval := serviceIntervalMinutes * 60
          let spreadMargin := spreadMarginMinutes * 60
          let timeSlotSize := serviceInterval / totalRunners
          let startTime := runnerPosition * timeSlotSize
          let endTime := startTime + timeSlotSize - spreadMargin
          let endTime := if endTime ≤ startTime then startTime + timeSlotSize / 2 else endTime
          let timeInCycle := remainder currentTime serviceInterval
          decide (startTime ≤ timeInCycle) && decide (timeInCycle < endTime)

/-- `PersistentTokioRunner::should_run_atomic_service`; a list that cannot be read counts as
empty. -/
def shouldRunAtomicService (runnerId : RunnerId) (answer : RustvelloResult (List ActiveRunnerInfo))
    (nowSecs intervalMinutes marginMinutes : ℚ) : Bool :=
  let runners := match answer with
    | .ok runners => runners
    | .error _ => []
  if runners.isEmpty then false
  else if runners.length = 1 then true
  else
    match runners.findIdx? fun r => r.runnerId = runnerId with
    | none => false
    | some position =>
        let total := runners.length
        let intervalSecs := intervalMinutes * 60
        let marginSecs := marginMinutes * 60
        let slotSize := intervalSecs / total
        let slotStart := position * slotSize
        let slotEnd := slotStart + slotSize - marginSecs
        let slotEnd := if slotEnd ≤ slotStart then slotStart + slotSize / 2 else slotEnd
        let timeInCycle := remainder nowSecs intervalSecs
        decide (slotStart ≤ timeInCycle) && decide (timeInCycle < slotEnd)

/-! ## The check -/

/-- The calls of `check_atomic_services` that no other operation makes. -/
inductive ServiceCall where
  | registerHeartbeat (runnerId : RunnerId) (canRunAtomicService : Bool)
  | getActiveRunners (timeoutSeconds : Nat) (canRunAtomicService : Option Bool)
  | currentTime
  | recordAtomicServiceExecution (runnerId : RunnerId) (start stop : Timestamp)

abbrev ServiceCall.Ans : ServiceCall → Type
  | registerHeartbeat _ _ => Unit
  | getActiveRunners _ _ => List ActiveRunnerInfo
  | currentTime => ℚ
  | recordAtomicServiceExecution _ _ _ => Unit

abbrev servicePorts : Interface :=
  ports.sum ⟨ServiceCall, fun c => RustvelloResult c.Ans⟩

abbrev Service (α : Type) := ExceptT RustvelloError (Prog servicePorts) α

def servicePort (c : ServiceCall) : Service c.Ans :=
  ExceptT.mk (Prog.request (I := servicePorts) (.inr c))

def orchestrated {α : Type} (p : Orch α) : Service α :=
  ExceptT.mk p.run.inl

/-- `check_atomic_services`; the identifiers of the created invocations are left out. -/
def checkAtomicServices (d : Deployment) (runnerId : RunnerId)
    (serviceIntervalMinutes spreadMarginMinutes : ℚ) (runnerTimeoutSeconds : Nat) :
    Service (Option Unit) := do
  servicePort (.registerHeartbeat runnerId true)
  let activeRunners ← servicePort (.getActiveRunners runnerTimeoutSeconds (some true))
  let now ← servicePort .currentTime
  if canRunAtomicService runnerId activeRunners now serviceIntervalMinutes spreadMarginMinutes then do
    let start ← orchestrated (port .utcNow)
    orchestrated (triggerLoopIteration d runnerId)
    let stop ← orchestrated (port .utcNow)
    servicePort (.recordAtomicServiceExecution runnerId start stop)
    pure (some ())
  else pure none

/-! ## Windows -/

/-- A half-open window of time that is not empty. -/
structure Window where
  start : ℚ
  stop : ℚ
  nonempty : start < stop

namespace Window

def Contains (w : Window) (t : ℚ) : Prop :=
  w.start ≤ t ∧ t < w.stop

/-- The window of a position among slots of a size. -/
def ofPosition (slot : {size : ℚ // 0 < size}) (margin : ℚ) (position : Nat) : Window where
  start := position * slot.1
  stop := if position * slot.1 + slot.1 - margin ≤ position * slot.1 then
      position * slot.1 + slot.1 / 2
    else position * slot.1 + slot.1 - margin
  nonempty := by
    have hslot := slot.2
    split
    · linarith
    · rename_i hpast
      exact not_le.mp hpast

variable {slot : {size : ℚ // 0 < size}} {margin margin' t : ℚ} {i j : Nat}

/-- A window ends with its slot, or before. -/
theorem stop_le (hmargin : 0 ≤ margin) : (ofPosition slot margin i).stop ≤ (i + 1 : ℕ) * slot.1 := by
  have hslot := slot.2
  have hhalf : slot.1 / 2 ≤ slot.1 := half_le_self hslot.le
  rw [Nat.cast_succ, add_mul, one_mul]
  unfold ofPosition
  dsimp only
  split <;> linarith

theorem start_nonneg : 0 ≤ (ofPosition slot margin i).start :=
  mul_nonneg (Nat.cast_nonneg i) slot.2.le

/-- A time lies in the window of one position at most. -/
theorem position_le (hmargin : 0 ≤ margin) (hi : (ofPosition slot margin i).Contains t)
    (hj : (ofPosition slot margin j).Contains t) : j ≤ i := by
  have hlt : (j : ℚ) * slot.1 < ((i + 1 : ℕ) : ℚ) * slot.1 :=
    hj.1.trans_lt (hi.2.trans_le (stop_le hmargin))
  exact Nat.lt_succ_iff.mp (Nat.cast_lt.mp (lt_of_mul_lt_mul_right hlt slot.2.le))

theorem position_unique (hmargin : 0 ≤ margin) (hi : (ofPosition slot margin i).Contains t)
    (hj : (ofPosition slot margin j).Contains t) : i = j :=
  le_antisymm (position_le hmargin hj hi) (position_le hmargin hi hj)

/-- A larger margin, still below the slot, shortens the window. -/
theorem contains_of_margin_le (hle : margin ≤ margin') (hbelow : margin' < slot.1)
    (h : (ofPosition slot margin' i).Contains t) : (ofPosition slot margin i).Contains t := by
  refine ⟨h.1, ?_⟩
  have hstop : t < if i * slot.1 + slot.1 - margin' ≤ i * slot.1 then i * slot.1 + slot.1 / 2
    else i * slot.1 + slot.1 - margin' := h.2
  rw [if_neg (by linarith)] at hstop
  show t < if _ then _ else _
  rw [if_neg (by linarith)]
  linarith

end Window

/-! ## Cycles -/

/-- Within a cycle the remainder is the time that has passed since it began. -/
theorem remainder_of_cycle {t period : ℚ} (hperiod : 0 < period) {cycle : Nat}
    (hbegun : cycle * period ≤ t) (hends : t < (cycle + 1 : ℕ) * period) :
    remainder t period = t - cycle * period := by
  have hquotient : ⌊t / period⌋ = (cycle : ℤ) := by
    rw [Int.floor_eq_iff, le_div_iff₀ hperiod, div_lt_iff₀ hperiod]
    rw [Nat.cast_succ] at hends
    exact ⟨by exact_mod_cast hbegun, by exact_mod_cast hends⟩
  have hnonneg : 0 ≤ t / period :=
    div_nonneg (le_trans (mul_nonneg (Nat.cast_nonneg _) hperiod.le) hbegun) hperiod.le
  unfold remainder
  rw [if_pos hnonneg, hquotient, Int.cast_natCast, mul_comm]

/-! ## The verdict of a list of runners -/

/-- At least two runners, and the interval they share. -/
structure Rota where
  activeRunners : List ActiveRunnerInfo
  several : 2 ≤ activeRunners.length
  serviceIntervalMinutes : ℚ
  positive : 0 < serviceIntervalMinutes

namespace Rota

variable (r : Rota)

def interval : ℚ :=
  r.serviceIntervalMinutes * 60

theorem interval_pos : 0 < r.interval :=
  mul_pos r.positive (by norm_num)

/-- The interval, divided among the runners. -/
def slot : {size : ℚ // 0 < size} :=
  ⟨r.interval / r.activeRunners.length,
    div_pos r.interval_pos (Nat.cast_pos.mpr (lt_of_lt_of_le Nat.zero_lt_two r.several))⟩

def position (runnerId : RunnerId) : Option Nat :=
  r.activeRunners.findIdx? fun runner => runner.runnerId = runnerId

def window (marginMinutes : ℚ) (position : Nat) : Window :=
  .ofPosition r.slot (marginMinutes * 60) position

/-- The verdict, for the list and the interval of the rota. -/
def allowed (runnerId : RunnerId) (marginMinutes t : ℚ) : Bool :=
  canRunAtomicService runnerId r.activeRunners t r.serviceIntervalMinutes marginMinutes

variable {r} {runnerId : RunnerId} {marginMinutes t : ℚ}

/-- **A runner is allowed while the time in the cycle is in its window.** -/
theorem allowed_iff : r.allowed runnerId marginMinutes t = true ↔
    ∃ position, r.position runnerId = some position ∧
      (r.window marginMinutes position).Contains (remainder t r.interval) := by
  have hseveral := r.several
  have hnonempty : r.activeRunners.isEmpty = false := by
    cases h : r.activeRunners with
    | nil => rw [h] at hseveral; cases hseveral
    | cons _ _ => rfl
  have hmany : r.activeRunners.length ≠ 1 := by omega
  unfold allowed canRunAtomicService
  rw [hnonempty]
  simp only [Bool.false_eq_true, if_false, if_neg hmany]
  show (match r.position runnerId with | none => _ | some _ => _) = true ↔ _
  cases r.position runnerId with
  | none => simp
  | some position =>
      simp only [Bool.and_eq_true, decide_eq_true_eq, Option.some.injEq, exists_eq_left']
      rfl

theorem position_lt {position : Nat} (h : r.position runnerId = some position) :
    position < r.activeRunners.length :=
  (List.findIdx?_eq_some_iff_getElem.mp h).1

/-- A window is inside the interval. -/
theorem window_stop_le (hmargin : 0 ≤ marginMinutes) {position : Nat}
    (h : position < r.activeRunners.length) :
    (r.window marginMinutes position).stop ≤ r.interval := by
  have hlength : (0 : ℚ) < r.activeRunners.length :=
    Nat.cast_pos.mpr (lt_of_le_of_lt (Nat.zero_le _) h)
  calc (r.window marginMinutes position).stop
      ≤ ((position + 1 : ℕ) : ℚ) * r.slot.1 := Window.stop_le (mul_nonneg hmargin (by norm_num))
    _ ≤ r.activeRunners.length * r.slot.1 :=
        mul_le_mul_of_nonneg_right (Nat.cast_le.mpr h) r.slot.2.le
    _ = r.interval := mul_div_cancel₀ _ hlength.ne'

/-- A listed runner has a position. -/
theorem exists_position (h : ∃ runner ∈ r.activeRunners, runner.runnerId = runnerId) :
    ∃ position, r.position runnerId = some position := by
  obtain ⟨runner, hrunner, hid⟩ := h
  refine Option.isSome_iff_exists.mp ?_
  rw [position, List.findIdx?_isSome]
  exact List.any_eq_true.mpr ⟨runner, hrunner, decide_eq_true hid⟩

theorem runnerId_of_position {position : Nat} (h : r.position runnerId = some position) :
    ∃ runner, r.activeRunners[position]? = some runner ∧ runner.runnerId = runnerId := by
  obtain ⟨hlt, hid, -⟩ := List.findIdx?_eq_some_iff_getElem.mp h
  exact ⟨_, List.getElem?_eq_getElem hlt, of_decide_eq_true hid⟩

/-- Two runners are never allowed at the same time. -/
theorem allowed_unique (hmargin : 0 ≤ marginMinutes) {a b : RunnerId}
    (ha : r.allowed a marginMinutes t = true) (hb : r.allowed b marginMinutes t = true) : a = b := by
  obtain ⟨i, hi, hin⟩ := allowed_iff.mp ha
  obtain ⟨j, hj, hjn⟩ := allowed_iff.mp hb
  have hij : i = j := Window.position_unique (mul_nonneg hmargin (by norm_num)) hin hjn
  subst hij
  obtain ⟨x, hx, hxa⟩ := runnerId_of_position hi
  obtain ⟨y, hy, hyb⟩ := runnerId_of_position hj
  rw [← hxa, ← hyb, Option.some.inj (hx.symm.trans hy)]

/-- In every cycle a runner is allowed in its window, and only there. -/
theorem allowed_in_cycle {position : Nat} (hposition : r.position runnerId = some position)
    {cycle : Nat} (hbegun : cycle * r.interval ≤ t) (hends : t < (cycle + 1 : ℕ) * r.interval) :
    r.allowed runnerId marginMinutes t = true ↔
      (r.window marginMinutes position).Contains (t - cycle * r.interval) := by
  rw [allowed_iff, hposition, remainder_of_cycle r.interval_pos hbegun hends]
  constructor
  · rintro ⟨_, hfound, hcontains⟩
    obtain rfl := Option.some.inj hfound
    exact hcontains
  · exact fun hcontains => ⟨position, rfl, hcontains⟩

/-- A larger margin below the slot size allows no more. -/
theorem allowed_of_margin_le {larger : ℚ} (hle : marginMinutes ≤ larger)
    (hbelow : larger * 60 < r.slot.1) (h : r.allowed runnerId larger t = true) :
    r.allowed runnerId marginMinutes t = true := by
  obtain ⟨position, hposition, hcontains⟩ := allowed_iff.mp h
  exact allowed_iff.mpr ⟨position, hposition,
    Window.contains_of_margin_le (mul_le_mul_of_nonneg_right hle (by norm_num)) hbelow hcontains⟩

end Rota

/-- The two verdicts are one. -/
theorem shouldRunAtomicService_ok (runnerId : RunnerId) (runners : List ActiveRunnerInfo)
    (t interval margin : ℚ) :
    shouldRunAtomicService runnerId (.ok runners) t interval margin =
      canRunAtomicService runnerId runners t interval margin := rfl

/-- **The windows of the atomic services are exclusive.**  At most one runner of the list is
allowed at a time, no other runner ever is, each is allowed in one window of every interval, a
larger margin below the slot size allows no more, and the management loop of a runner agrees. -/
theorem serviceWindows_exclusive (runners : List ActiveRunnerInfo) (hseveral : 2 ≤ runners.length)
    (interval margin : ℚ) (hinterval : 0 < interval) (hmargin : 0 ≤ margin) :
    (∀ t, ∀ a b : RunnerId, canRunAtomicService a runners t interval margin = true →
      canRunAtomicService b runners t interval margin = true → a = b) ∧
    (∀ t, ∀ id : RunnerId, id ∉ runners.map ActiveRunnerInfo.runnerId →
      canRunAtomicService id runners t interval margin = false) ∧
    (∀ id ∈ runners.map ActiveRunnerInfo.runnerId, ∃ w : Window,
      0 ≤ w.start ∧ w.stop ≤ interval * 60 ∧
        ∀ cycle : Nat, ∀ t, cycle * (interval * 60) ≤ t → t < (cycle + 1 : ℕ) * (interval * 60) →
          (canRunAtomicService id runners t interval margin = true ↔
            cycle * (interval * 60) + w.start ≤ t ∧ t < cycle * (interval * 60) + w.stop)) ∧
    (∀ t, ∀ id : RunnerId, ∀ larger, margin ≤ larger →
      larger * 60 < interval * 60 / runners.length →
        canRunAtomicService id runners t interval larger = true →
          canRunAtomicService id runners t interval margin = true) ∧
    ∀ t, ∀ id : RunnerId, shouldRunAtomicService id (.ok runners) t interval margin =
      canRunAtomicService id runners t interval margin := by
  let rota : Rota := ⟨runners, hseveral, interval, hinterval⟩
  refine ⟨?_, ?_, ?_, ?_, fun t id => shouldRunAtomicService_ok id runners t interval margin⟩
  · intro t a b ha hb
    exact Rota.allowed_unique (r := rota) hmargin ha hb
  · intro t id hout
    refine Bool.eq_false_iff.mpr fun hallowed => ?_
    obtain ⟨position, hposition, -⟩ := (Rota.allowed_iff (r := rota)).mp hallowed
    obtain ⟨runner, hrunner, rfl⟩ := Rota.runnerId_of_position hposition
    exact hout (List.mem_map_of_mem (List.mem_of_getElem? hrunner))
  · intro id hid
    obtain ⟨runner, hrunner, hrunnerId⟩ := List.mem_map.mp hid
    obtain ⟨position, hposition⟩ := Rota.exists_position (r := rota) ⟨runner, hrunner, hrunnerId⟩
    refine ⟨rota.window margin position, Window.start_nonneg,
      Rota.window_stop_le hmargin (Rota.position_lt hposition), ?_⟩
    intro cycle t hbegun hends
    refine (Rota.allowed_in_cycle (r := rota) hposition hbegun hends).trans ?_
    exact and_congr le_sub_iff_add_le' sub_lt_iff_lt_add'
  · intro t id larger hle hbelow hallowed
    exact Rota.allowed_of_margin_le (r := rota) hle hbelow hallowed

/-- Two runners with slots of a minute. -/
theorem serviceWindows_exclusive_two :
    canRunAtomicService ⟨"a"⟩ [⟨⟨"a"⟩, 0, 0, true⟩, ⟨⟨"b"⟩, 0, 0, true⟩] 130 2 (1 / 2) = true ∧
      ∀ b, canRunAtomicService b [⟨⟨"a"⟩, 0, 0, true⟩, ⟨⟨"b"⟩, 0, 0, true⟩] 130 2 (1 / 2) = true →
        ⟨"a"⟩ = b := by
  have hfirst : canRunAtomicService ⟨"a"⟩ [⟨⟨"a"⟩, 0, 0, true⟩, ⟨⟨"b"⟩, 0, 0, true⟩] 130 2 (1 / 2) =
      true := by
    have hremainder : remainder 130 (2 * 60) = 10 := by
      norm_num [remainder]
    simp only [canRunAtomicService, hremainder]
    norm_num [List.findIdx?_cons]
  exact ⟨hfirst, fun b => (serviceWindows_exclusive [⟨⟨"a"⟩, 0, 0, true⟩, ⟨⟨"b"⟩, 0, 0, true⟩]
    (by decide) 2 (1 / 2) (by norm_num) (by norm_num)).1 130 ⟨"a"⟩ b hfirst⟩

section Check

variable {σ : Type} {exec : (c : servicePorts.Op) → σ → servicePorts.Ret c × σ} {d : Deployment}
  {interval margin now : ℚ} {timeout : Nat} {runners : List ActiveRunnerInfo} {s s₁ s₂ s₃ : σ}

/-- A check outside its window ends without the trigger loop. -/
theorem checkAtomicServices_refused {runnerId : RunnerId}
    (hbeat : exec (.inr (.registerHeartbeat runnerId true)) s = (.ok (), s₁))
    (hlist : exec (.inr (.getActiveRunners timeout (some true))) s₁ = (.ok runners, s₂))
    (hclock : exec (.inr .currentTime) s₂ = (.ok now, s₃))
    (hrefused : canRunAtomicService runnerId runners now interval margin = false) :
    Prog.aloneE exec (checkAtomicServices d runnerId interval margin timeout) s =
      (.ok none, s₃) := by
  have hcall : ∀ (c : ServiceCall) (t t' : σ) (answer : c.Ans),
      exec (.inr c) t = (.ok answer, t') → Prog.aloneE exec (servicePort c) t = (.ok answer, t') := by
    intro c t t' answer h
    exact h
  unfold checkAtomicServices
  rw [Prog.aloneE_bind_ok (hcall _ _ _ _ hbeat), Prog.aloneE_bind_ok (hcall _ _ _ _ hlist),
    Prog.aloneE_bind_ok (hcall _ _ _ _ hclock), hrefused]
  rfl

/-- While one runner is allowed, the check of any other one ends without the trigger loop. -/
theorem checkAtomicServices_exclusive {allowed other : RunnerId} (hother : allowed ≠ other)
    (hseveral : 2 ≤ runners.length) (hinterval : 0 < interval) (hmargin : 0 ≤ margin)
    (hallowed : canRunAtomicService allowed runners now interval margin = true)
    (hbeat : exec (.inr (.registerHeartbeat other true)) s = (.ok (), s₁))
    (hlist : exec (.inr (.getActiveRunners timeout (some true))) s₁ = (.ok runners, s₂))
    (hclock : exec (.inr .currentTime) s₂ = (.ok now, s₃)) :
    Prog.aloneE exec (checkAtomicServices d other interval margin timeout) s = (.ok none, s₃) := by
  refine checkAtomicServices_refused hbeat hlist hclock (Bool.eq_false_iff.mpr fun hthis => hother ?_)
  exact Rota.allowed_unique (r := ⟨runners, hseveral, interval, hinterval⟩) hmargin hallowed hthis

end Check

end Rustvello.Runner.ServiceWindows
