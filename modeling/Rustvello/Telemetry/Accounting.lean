import Mathlib.Algebra.GroupWithZero.Nat
import Mathlib.Data.List.Perm.Basic
import Rustvello.Telemetry.Books

/-!
# Every event is accounted for

An enqueue counts its event only after it has sent it, a flush waits for a number of events
and not for an event, and a shutdown closes the emitter by a flag that an enqueue reads after
it has entered.  What ties these together is the in-flight counter: while it is zero, what
was sent is what was counted.

* `Counted` — the counters are sums over the enqueues, and the channel holds what they sent;
* `Quieted` — after a shutdown has found no enqueue in flight, nothing is sent;
* `Handed`, `Commanded` — what is in the two control channels;
* `Works` — what the worker has taken, exported and counted;
* `Concluded` — what a shutdown reads of the exporter's counters is final;
* `Accounted.call` — all of it is kept by every step.
-/

namespace Rustvello.Telemetry

open Concurrency

variable {Ev : Type} {config : AsyncExportConfig} {outcome : ExporterOutcome} {x : ExportInner Ev}
  {c : ExportCall Ev}

/-! ## What a step leaves alone -/

namespace ExportInner

theorem joinWorker_cases (x : ExportInner Ev) :
    (x.joinWorker).2 = x ∨ (x.joinWorker).2 = { x with joined := true } := by
  unfold joinWorker
  split
  · exact .inl rfl
  · split
    · exact .inl rfl
    · exact .inr rfl

theorem recvEvent_cases (x : ExportInner Ev) :
    (x.events.sent[x.events.received]? = none ∧
      x.recvEvent = (.error (if x.live then .timeout else .disconnected), x)) ∨
    ∃ event, x.events.sent[x.events.received]? = some event ∧ x.recvEvent =
      (.ok event, { x with events := { x.events with received := x.events.received + 1 } }) := by
  unfold recvEvent
  obtain ⟨hnone, heq⟩ | ⟨event, hsome, heq⟩ := x.events.tryRecv_cases
  · exact .inl ⟨hnone, by rw [heq]⟩
  · exact .inr ⟨event, hsome, by rw [heq]⟩

theorem trySendFlush_cases (capacity target : Nat) (x : ExportInner Ev) :
    x.trySendFlush capacity target = (.ok x.flushes.sent.length, { x with flushes :=
      { x.flushes with sent := x.flushes.sent ++ [⟨target, x.flushes.sent.length⟩] } }) ∨
    ∃ e, x.trySendFlush capacity target = (.error e, x) := by
  unfold trySendFlush
  dsimp only
  obtain heq | ⟨e, heq⟩ := x.flushes.trySend_cases capacity ⟨target, x.flushes.sent.length⟩
  · exact .inl (by rw [heq])
  · exact .inr ⟨e, by rw [heq]⟩

/-- Queued events are only taken by the worker; the rest of what is shared stays. -/
theorem recvEvent_frame (x : ExportInner Ev) :
    ∃ received, (x.recvEvent).2 = { x with events := { x.events with received := received } } := by
  obtain ⟨-, heq⟩ | ⟨event, -, heq⟩ := x.recvEvent_cases
  · exact ⟨x.events.received, by rw [heq]⟩
  · exact ⟨_, by rw [heq]⟩

theorem tryRecv_frame {α : Type} (c : Channel α) :
    ∃ received, c.tryRecv.2 = { c with received := received } := by
  obtain ⟨-, heq⟩ | ⟨a, -, heq⟩ := c.tryRecv_cases
  · exact ⟨c.received, by rw [heq]⟩
  · exact ⟨_, by rw [heq]⟩

theorem trySend_frame {α : Type} (capacity : Nat) (a : α) (c : Channel α) :
    ∃ sent, (c.trySend capacity a).2 = { c with sent := sent } := by
  obtain heq | ⟨e, heq⟩ := c.trySend_cases capacity a
  · exact ⟨_, by rw [heq]⟩
  · exact ⟨c.sent, by rw [heq]⟩

theorem trySendFlush_frame (capacity target : Nat) (x : ExportInner Ev) :
    ∃ sent, (x.trySendFlush capacity target).2 =
      { x with flushes := { x.flushes with sent := sent } } := by
  obtain heq | ⟨e, heq⟩ := x.trySendFlush_cases capacity target
  · exact ⟨_, by rw [heq]⟩
  · exact ⟨x.flushes.sent, by rw [heq]⟩

/-- Every field that is spoken of below is changed by the steps named here only. -/
structure Frame (c : ExportCall Ev) (x x' : ExportInner Ev) : Prop where
  inFlight : c ≠ .enterEnqueue → c ≠ .leaveEnqueue → x'.inFlightEnqueues = x.inFlightEnqueues
  sent : (∀ event, c ≠ .trySendEvent event) → x'.events.sent = x.events.sent
  received : c ≠ .recvEvent → c ≠ .tryRecvEvent → x'.events.received = x.events.received
  counters : ∀ counter, (∀ n, c ≠ .fetchAdd counter n) → (∀ n, c ≠ .fetchMax counter n) →
    x'.counters counter = x.counters counter
  state : c ≠ .closeState → c ≠ .storeClosed → x'.state = x.state
  flushes : (∀ target, c ≠ .trySendFlush target) → x'.flushes.sent = x.flushes.sent
  shutdowns : (∀ target, c ≠ .trySendShutdown target) → x'.shutdowns.sent = x.shutdowns.sent
  connected : c ≠ .dropShutdowns → x'.shutdowns.connected = x.shutdowns.connected
  admitted : c ≠ .admitShutdown → x'.shutdownAdmitted = x.shutdownAdmitted
  responses : (∀ response snapshot, c ≠ .respond response snapshot) → x'.responses = x.responses
  batches : (∀ batch, c ≠ .exportEvents batch) → x'.batches = x.batches
  exporterShutdowns : c ≠ .shutdownExporter → x'.exporterShutdowns = x.exporterShutdowns
  live : c ≠ .dropEmitter → x'.live = x.live

theorem exec_frame (config : AsyncExportConfig) (outcome : ExporterOutcome) (c : ExportCall Ev)
    (x : ExportInner Ev) : Frame c x (x.exec config outcome c).2 := by
  cases c with
  | closeState =>
      simp only [exec]
      split <;> constructor <;> intros <;> first | rfl | contradiction
  | joinWorker =>
      simp only [exec]
      obtain heq | heq := x.joinWorker_cases <;> rw [heq] <;> constructor <;> intros <;> rfl
  | recvEvent =>
      simp only [exec]
      obtain ⟨received, heq⟩ := x.recvEvent_frame
      rw [heq]
      constructor <;> intros <;> first | rfl | contradiction
  | tryRecvEvent =>
      simp only [exec]
      obtain ⟨received, heq⟩ := tryRecv_frame x.events
      rw [heq]
      constructor <;> intros <;> first | rfl | contradiction
  | tryRecvFlush =>
      simp only [exec]
      obtain ⟨received, heq⟩ := tryRecv_frame x.flushes
      rw [heq]
      constructor <;> intros <;> rfl
  | tryRecvShutdown =>
      simp only [exec]
      obtain ⟨received, heq⟩ := tryRecv_frame x.shutdowns
      rw [heq]
      constructor <;> intros <;> rfl
  | trySendEvent event =>
      simp only [exec]
      obtain ⟨sent, heq⟩ := trySend_frame config.queueCapacity event x.events
      rw [heq]
      constructor <;> intros <;> first | rfl | simp_all
  | trySendFlush target =>
      simp only [exec]
      obtain ⟨sent, heq⟩ := x.trySendFlush_frame config.controlCapacity target
      rw [heq]
      constructor <;> intros <;> first | rfl | simp_all
  | trySendShutdown target =>
      simp only [exec]
      obtain ⟨sent, heq⟩ := trySend_frame 1 target x.shutdowns
      rw [heq]
      constructor <;> intros <;> first | rfl | simp_all
  | fetchAdd counter n =>
      constructor <;> intros <;> first | rfl | skip
      rename_i other hadd _
      exact Function.update_of_ne (fun h => hadd n (by rw [h])) _ _
  | fetchMax counter n =>
      constructor <;> intros <;> first | rfl | skip
      rename_i other _ hmax
      exact Function.update_of_ne (fun h => hmax n (by rw [h])) _ _
  | _ => constructor <;> intros <;> first | rfl | simp_all

end ExportInner

/-! ## Counters -/

/-- The counters are sums over the enqueues, and the channel holds what they have sent. -/
structure Counted (x : ExportInner Ev) (gs : List (EnqueueBook Ev)) : Prop where
  inFlight : x.inFlightEnqueues = gs.countP (·.inFlight)
  sent : x.events.sent.Perm (gs.flatMap (·.sent))
  accepted : x.counters .accepted = (gs.map (·.accepted)).sum
  dropped : x.counters .dropped = (gs.map (·.dropped)).sum
  sound : ∀ g ∈ gs, g.Sound

namespace Counted

variable {gs before after : List (EnqueueBook Ev)} {g : EnqueueBook Ev}

/-- Once every enqueue is settled, what was sent is what was counted. -/
theorem accepted_eq (h : Counted x gs) (hsettled : ∀ g ∈ gs, g.Settled) :
    x.counters .accepted = x.events.sent.length := by
  rw [h.accepted, h.sent.length_eq, List.length_flatMap]
  congr 1
  exact List.map_congr_left fun g hg => (hsettled g hg).accepted

/-- Without an enqueue in flight every enqueue is settled. -/
theorem settled (h : Counted x gs) (hidle : x.inFlightEnqueues = 0) : ∀ g ∈ gs, g.Settled := by
  intro g hg
  have hnone := List.countP_eq_zero.mp (h.inFlight.symm.trans hidle) g hg
  exact (h.sound g hg).settled (by simpa using hnone)

theorem start (h : Counted x gs) (event : Option Ev) :
    Counted x (gs ++ [{ event := event }]) where
  inFlight := by simp [h.inFlight]
  sent := by simpa using h.sent
  accepted := by simp [h.accepted]
  dropped := by simp [h.dropped]
  sound := by
    intro g hg
    rcases List.mem_append.mp hg with hg | hg
    · exact h.sound g hg
    · obtain rfl := List.mem_singleton.mp hg
      exact ⟨nofun, fun _ => ⟨rfl, rfl⟩⟩

/-- One enqueue goes on, and what is shared with it. -/
theorem replace {x' : ExportInner Ev} {g' : EnqueueBook Ev} (h : Counted x (before ++ g :: after))
    (hinFlight : x'.inFlightEnqueues + g.inFlight.toNat = x.inFlightEnqueues + g'.inFlight.toNat)
    {new : List Ev} (hsent : x'.events.sent = x.events.sent ++ new) (hnew : g'.sent = new ++ g.sent)
    (haccepted : x'.counters .accepted + g.accepted = x.counters .accepted + g'.accepted)
    (hdropped : x'.counters .dropped + g.dropped = x.counters .dropped + g'.dropped)
    (hsound : g'.Sound) : Counted x' (before ++ g' :: after) where
  inFlight := by
    have hcount : ∀ b : EnqueueBook Ev, (if b.inFlight = true then 1 else 0) = b.inFlight.toNat := by
      intro b
      cases b.inFlight <;> rfl
    have hold := h.inFlight
    simp only [List.countP_append, List.countP_cons, hcount] at hold ⊢
    omega
  sent := by
    have hold := h.sent
    simp only [List.flatMap_append, List.flatMap_cons] at hold ⊢
    rw [hsent, hnew, List.append_assoc]
    have hmiddle : (new ++ (before.flatMap (·.sent) ++ (g.sent ++ after.flatMap (·.sent)))).Perm
        (before.flatMap (·.sent) ++ (new ++ (g.sent ++ after.flatMap (·.sent)))) := by
      rw [← List.append_assoc, ← List.append_assoc (before.flatMap _)]
      exact List.perm_append_comm.append_right _
    exact List.perm_append_comm.trans ((hold.append_left new).trans hmiddle)
  accepted := by
    have hold := h.accepted
    simp only [List.map_append, List.map_cons, List.sum_append, List.sum_cons] at hold ⊢
    omega
  dropped := by
    have hold := h.dropped
    simp only [List.map_append, List.map_cons, List.sum_append, List.sum_cons] at hold ⊢
    omega
  sound := forall_replace h.sound (fun _ hb => hb) hsound

theorem call (h : Counted x (before ++ g :: after)) {c : ExportCall Ev} (hpre : g.Permits c) :
    Counted (x.exec config outcome c).2
      (before ++ g.next c (x.exec config outcome c).1 :: after) := by
  have hown : g.Sound := h.sound g (by simp)
  have hframe := ExportInner.exec_frame config outcome c x
  cases c with
  | enterEnqueue =>
      have houtside : g.inFlight = false := hpre
      refine h.replace ?_ (List.append_nil _).symm rfl rfl rfl ⟨fun _ => rfl, fun hout => by cases hout⟩
      simp [ExportInner.exec, EnqueueBook.next, houtside]
  | leaveEnqueue =>
      obtain ⟨hin, hsettled⟩ := hpre
      refine h.replace ?_ (List.append_nil _).symm rfl rfl rfl
        ⟨fun hadmitted => ?_, fun _ => ⟨hsettled.admitted, hsettled.accepted⟩⟩
      · have hpositive : 0 < x.inFlightEnqueues := by
          rw [h.inFlight]
          exact List.countP_pos_iff.mpr ⟨g, by simp, hin⟩
        simp [ExportInner.exec, EnqueueBook.next, hin]
        omega
      · exact absurd (hsettled.admitted.symm.trans hadmitted) (by simp)
  | loadState =>
      refine h.replace rfl (List.append_nil _).symm rfl rfl rfl ⟨?_, ?_⟩
      · intro hadmitted
        simp only [EnqueueBook.next, Bool.and_eq_true] at hadmitted
        exact hadmitted.1
      · intro houtside
        have houtside : g.inFlight = false := houtside
        exact ⟨by simp [EnqueueBook.next, houtside], (hown.settled houtside).accepted⟩
  | trySendEvent event =>
      have hin : g.inFlight = true := hown.admitted hpre
      have hsound : ∀ {g' : EnqueueBook Ev}, g'.admitted = false → g'.inFlight = g.inFlight →
          g'.Sound := by
        intro g' hadmitted hsame
        refine ⟨fun h => ?_, fun houtside => ?_⟩
        · rw [hadmitted] at h
          cases h
        · rw [hsame, hin] at houtside
          cases houtside
      simp only [ExportInner.exec]
      obtain heq | ⟨e, heq⟩ := x.events.trySend_cases config.queueCapacity event
      · rw [heq]
        exact h.replace rfl (show _ = x.events.sent ++ [event] from rfl) rfl rfl rfl (hsound rfl rfl)
      · rw [heq]
        exact h.replace rfl (List.append_nil _).symm rfl rfl rfl (hsound rfl rfl)
  | fetchAdd counter n =>
      have hsame : ∀ other, other ≠ counter →
          (x.exec config outcome (.fetchAdd counter n)).2.counters other = x.counters other :=
        fun other hne => Function.update_of_ne hne _ _
      have hself : (x.exec config outcome (.fetchAdd counter n)).2.counters counter =
          x.counters counter + n := Function.update_self ..
      cases counter with
      | accepted =>
          obtain ⟨hin, rfl, hone⟩ := hpre
          refine h.replace rfl (List.append_nil _).symm rfl ?_ ?_ ⟨fun _ => hin, fun houtside => ?_⟩
          · rw [hself]
            simp only [EnqueueBook.next]
            omega
          · rw [hsame _ (by decide)]
            rfl
          · exact absurd ((show g.inFlight = false from houtside).symm.trans hin) (by simp)
      | dropped =>
          refine h.replace rfl (List.append_nil _).symm rfl ?_ ?_ ⟨hown.admitted, fun houtside =>
            ⟨(hown.settled houtside).admitted, (hown.settled houtside).accepted⟩⟩
          · rw [hsame _ (by decide)]
            rfl
          · rw [hself]
            simp only [EnqueueBook.next]
            omega
      | _ =>
          refine h.replace rfl (List.append_nil _).symm rfl ?_ ?_ hown
          · rw [hsame _ (by decide)]
            rfl
          · rw [hsame _ (by decide)]
            rfl
  | fetchMax counter n =>
      obtain rfl : counter = .enqueueNanosMax := hpre
      refine h.replace rfl (List.append_nil _).symm rfl ?_ ?_ hown
      · rw [hframe.counters .accepted (by rintro _ ⟨⟩) (by rintro _ ⟨⟩)]
        rfl
      · rw [hframe.counters .dropped (by rintro _ ⟨⟩) (by rintro _ ⟨⟩)]
        rfl
  | _ =>
      have hsent := hframe.sent (by rintro _ ⟨⟩)
      refine h.replace ?_ (hsent.trans (List.append_nil _).symm) rfl ?_ ?_ hown
      · rw [hframe.inFlight (by rintro ⟨⟩) (by rintro ⟨⟩)]
        rfl
      · rw [hframe.counters _ (by rintro _ ⟨⟩) (by rintro _ ⟨⟩)]
        rfl
      · rw [hframe.counters _ (by rintro _ ⟨⟩) (by rintro _ ⟨⟩)]
        rfl

end Counted

/-! ## After a shutdown has found no enqueue in flight -/

/-- A closed emitter is not opened again. -/
theorem exec_state_ne (h : x.state ≠ .exportOpen) :
    (x.exec config outcome c).2.state ≠ .exportOpen := by
  have hframe := ExportInner.exec_frame config outcome c x
  cases c with
  | closeState =>
      simp only [ExportInner.exec]
      split
      · nofun
      · exact h
  | storeClosed => nofun
  | _ => exact fun heq => h ((hframe.state nofun nofun).symm.trans heq)

theorem closeState_state : (x.exec config outcome .closeState).2.state ≠ .exportOpen := by
  simp only [ExportInner.exec]
  split
  · nofun
  · assumption

namespace EnqueueBook

variable {g : EnqueueBook Ev} {c : ExportCall Ev}

/-- A settled enqueue of a closed emitter stays settled. -/
theorem Settled.next (h : g.Settled) (hpre : g.Permits c) (hstate : x.state ≠ .exportOpen) :
    (g.next c (x.exec config outcome c).1).Settled := by
  cases c with
  | loadState =>
      refine ⟨?_, h.accepted⟩
      simp [EnqueueBook.next, ExportInner.exec, hstate]
  | trySendEvent event => exact absurd (h.admitted.symm.trans hpre) (by simp)
  | fetchAdd counter n =>
      cases counter with
      | accepted =>
          obtain ⟨-, -, hone⟩ := hpre
          have haccepted := h.accepted
          omega
      | _ => exact ⟨h.admitted, h.accepted⟩
  | _ => exact ⟨h.admitted, h.accepted⟩

/-- It has nothing left to count. -/
theorem Settled.counter_eq (h : g.Settled) (hpre : g.Permits c) :
    (x.exec config outcome c).2.counters .accepted = x.counters .accepted := by
  have hframe := ExportInner.exec_frame config outcome c x
  cases c with
  | fetchAdd counter n =>
      cases counter with
      | accepted =>
          obtain ⟨-, -, hone⟩ := hpre
          have haccepted := h.accepted
          omega
      | _ => exact hframe.counters .accepted nofun nofun
  | fetchMax counter n =>
      obtain rfl : counter = .enqueueNanosMax := hpre
      exact hframe.counters .accepted nofun nofun
  | _ => exact hframe.counters .accepted nofun nofun

/-- It does not send. -/
theorem Settled.sent_eq (h : g.Settled) (hpre : g.Permits c) :
    (x.exec config outcome c).2.events.sent = x.events.sent := by
  refine (ExportInner.exec_frame config outcome c x).sent ?_
  rintro event rfl
  exact absurd (h.admitted.symm.trans hpre) (by simp)

end EnqueueBook

namespace ControlBook

variable {g : ControlBook} {c : ExportCall Ev}

/-- What a call may have done to the marks of the book, and when. -/
structure Marks (x : ExportInner Ev) (g : ControlBook) (c : ExportCall Ev) (g' : ControlBook) :
    Prop where
  closing : g'.closing = true → g.closing = true ∨ c = .closeState
  idle : g'.idle = true → g.idle = true ∨ c = .loadInFlight ∧ x.inFlightEnqueues = 0
  closed : g'.closed = true → g.closed = true ∨ c = .loadState ∧ x.state = .exportClosed
  loaded : ∀ counter n, g'.loaded counter = some n →
    g.loaded counter = some n ∨ c = .load counter ∧ x.counters counter = n

theorem next_marks : Marks x g c (g.next c (x.exec config outcome c).1) := by
  cases c with
  | closeState => exact ⟨fun _ => .inr rfl, .inl, .inl, fun _ _ => .inl⟩
  | loadInFlight =>
      refine ⟨.inl, fun h => ?_, .inl, fun _ _ => .inl⟩
      simp only [ControlBook.next, Bool.or_eq_true] at h
      exact h.imp_right fun hidle => ⟨rfl, of_decide_eq_true hidle⟩
  | loadState =>
      refine ⟨.inl, .inl, fun h => ?_, fun _ _ => .inl⟩
      simp only [ControlBook.next, Bool.or_eq_true] at h
      exact h.imp_right fun hclosed => ⟨rfl, of_decide_eq_true hclosed⟩
  | load other =>
      refine ⟨.inl, .inl, .inl, fun counter n h => ?_⟩
      by_cases hother : counter = other
      · subst hother
        right
        simpa [ControlBook.next, ExportInner.exec] using h
      · left
        simpa [ControlBook.next, hother] using h
  | trySendFlush target =>
      cases (x.exec config outcome (.trySendFlush target)).1 <;>
        exact ⟨.inl, .inl, .inl, fun _ _ => .inl⟩
  | recvResponse response =>
      cases (x.exec config outcome (.recvResponse response)).1 <;>
        exact ⟨.inl, .inl, .inl, fun _ _ => .inl⟩
  | _ => exact ⟨.inl, .inl, .inl, fun _ _ => .inl⟩

/-- What was found once is not forgotten. -/
theorem next_found (r : c.Ans) :
    (g.idle = true → (g.next c r).idle = true) ∧ (g.closed = true → (g.next c r).closed = true) := by
  cases c with
  | loadInFlight => exact ⟨fun h => by simp [ControlBook.next, h], id⟩
  | loadState => exact ⟨id, fun h => by simp [ControlBook.next, h]⟩
  | trySendFlush target => cases r <;> exact ⟨id, id⟩
  | recvResponse response => cases r <;> exact ⟨id, id⟩
  | _ => exact ⟨id, id⟩

theorem Quiet.next (r : c.Ans) (h : g.Quiet) : (g.next c r).Quiet :=
  ⟨(next_kind c r g).trans h.1, (next_found r).1 h.2⟩

end ControlBook

/-- After a shutdown has found no enqueue in flight, nothing is sent or counted. -/
structure Quieted (x : ExportInner Ev) (books : List (Book Ev)) : Prop where
  closing : ∀ g ∈ books, g.control.closing = true → x.state ≠ .exportOpen
  unread : ∀ g ∈ books, g.control.kind = .shutdown → g.control.idle = false →
    g.control.loaded .accepted = none
  state : ∀ g ∈ books, g.control.Quiet → x.state ≠ .exportOpen
  settled : ∀ g ∈ books, g.control.Quiet → ∀ b ∈ books, b.enqueue.Settled
  read : ∀ g ∈ books, g.control.Quiet → ∀ n, g.control.loaded .accepted = some n →
    n = x.counters .accepted

section Steps

variable {before after : List (Book Ev)} {g : Book Ev} {c : ExportCall Ev}

theorem Quieted.call (h : Quieted x (before ++ g :: after))
    (hcount : Counted x ((before ++ g :: after).map Book.enqueue))
    (hpre : (emitting Ev config).pre c g) :
    Quieted (x.exec config outcome c).2 (before ++
      (emitting Ev config).next c (x.exec config outcome c).1 g :: after) := by
  have hmem : g ∈ before ++ g :: after := by simp
  have henqueue : g.enqueue.Permits c := hpre.1
  have hcontrol : g.control.Permits c := hpre.2.1
  -- a book that was quiet before has settled everything
  have hold : ∀ q ∈ before ++ g :: after, q.control.Quiet →
      (x.exec config outcome c).2.state ≠ .exportOpen ∧
      (∀ b ∈ before ++ (emitting Ev config).next c (x.exec config outcome c).1 g :: after,
        b.enqueue.Settled) ∧
      (x.exec config outcome c).2.counters .accepted = x.counters .accepted := by
    intro q hq hquiet
    have hstate := h.state q hq hquiet
    have hsettled := h.settled q hq hquiet
    exact ⟨exec_state_ne hstate, forall_replace hsettled (fun _ hb => hb)
      ((hsettled g hmem).next henqueue hstate), (hsettled g hmem).counter_eq henqueue⟩
  have hfacts : ∀ b ∈ before ++ (emitting Ev config).next c (x.exec config outcome c).1 g :: after,
      b.control.Quiet → (x.exec config outcome c).2.state ≠ .exportOpen ∧
      (∀ b ∈ before ++ (emitting Ev config).next c (x.exec config outcome c).1 g :: after,
        b.enqueue.Settled) ∧
      ∀ n, b.control.loaded .accepted = some n →
        n = (x.exec config outcome c).2.counters .accepted := by
    intro b hb hquiet
    rcases mem_replaced hb with hb | rfl
    · have hb := mem_of_others hb g
      obtain ⟨hstate, hsettled, hcounter⟩ := hold b hb hquiet
      exact ⟨hstate, hsettled, fun n hn => (h.read b hb hquiet n hn).trans hcounter.symm⟩
    · have hkind : g.control.kind = .shutdown :=
        (ControlBook.next_kind c _ _).symm.trans hquiet.1
      obtain hidle | ⟨rfl, hidle⟩ := ControlBook.next_marks.idle hquiet.2
      · obtain ⟨hstate, hsettled, hcounter⟩ := hold g hmem ⟨hkind, hidle⟩
        refine ⟨hstate, hsettled, fun n hn => ?_⟩
        obtain hn | ⟨rfl, hvalue⟩ := ControlBook.next_marks.loaded _ _ hn
        · exact (h.read g hmem ⟨hkind, hidle⟩ n hn).trans hcounter.symm
        · exact hvalue.symm
      · -- it finds no enqueue in flight now
        have hsettled : ∀ b ∈ before ++ g :: after, b.enqueue.Settled := fun b hb =>
          hcount.settled hidle b.enqueue (List.mem_map_of_mem hb)
        refine ⟨h.closing g hmem (hcontrol hkind), forall_replace hsettled (fun _ hb => hb)
          (hsettled g hmem), fun n hn => ?_⟩
        cases hwas : g.control.idle with
        | true => exact h.read g hmem ⟨hkind, hwas⟩ n hn
        | false =>
            have hn : g.control.loaded .accepted = some n := hn
            rw [h.unread g hmem hkind hwas] at hn
            cases hn
  refine ⟨?_, ?_, ?_, ?_, ?_⟩
  · refine forall_replace h.closing (fun b hb hclosing => exec_state_ne (hb hclosing)) ?_
    intro hclosing
    obtain hold | rfl := ControlBook.next_marks.closing hclosing
    · exact exec_state_ne (h.closing g hmem hold)
    · exact closeState_state
  · refine forall_replace h.unread (fun _ hb => hb) ?_
    intro hkind hidle
    have hkind' : g.control.kind = .shutdown := (ControlBook.next_kind c _ _).symm.trans hkind
    have hidle' : g.control.idle = false := by
      by_contra hne
      have hstill := (ControlBook.next_found (x.exec config outcome c).1).1
        (show g.control.idle = true by simpa using hne)
      exact absurd (hidle.symm.trans hstill) (by simp)
    cases hloaded : (g.control.next c (x.exec config outcome c).1).loaded .accepted with
    | none => exact hloaded
    | some n =>
        obtain hold | ⟨rfl, -⟩ := ControlBook.next_marks.loaded _ _ hloaded
        · rw [h.unread g hmem hkind' hidle'] at hold
          cases hold
        · exact absurd (hidle'.symm.trans (hcontrol.1 hkind')) (by simp)
  · exact fun b hb hquiet => (hfacts b hb hquiet).1
  · exact fun b hb hquiet => (hfacts b hb hquiet).2.1
  · exact fun b hb hquiet => (hfacts b hb hquiet).2.2

/-! ## The control channels -/

/-- One shutdown is admitted, and it tells the worker how many events were accepted. -/
structure Handed (x : ExportInner Ev) (books : List (Book Ev)) : Prop where
  admissions : books.countP (·.control.chosen) + x.shutdowns.sent.length =
    x.shutdownAdmitted.toNat
  chosen : ∀ g ∈ books, g.control.chosen = true → g.control.Quiet
  targets : ∀ target ∈ x.shutdowns.sent, target = x.counters .accepted
  quiet : x.shutdowns.sent ≠ [] → ∃ g ∈ books, g.control.Quiet

theorem ControlBook.next_chosen {g : ControlBook} (r : c.Ans) (hadmission : c ≠ .admitShutdown)
    (hsend : ∀ target, c ≠ .trySendShutdown target) : (g.next c r).chosen = g.chosen := by
  cases c with
  | admitShutdown => exact absurd rfl hadmission
  | trySendShutdown target => exact absurd rfl (hsend target)
  | trySendFlush target => cases r <;> rfl
  | recvResponse response => cases r <;> rfl
  | _ => rfl

/-- Once a shutdown is in the channel, a quiet one exists after every step. -/
theorem quiet_kept {books : List (Book Ev)} (hbooks : books = before ++ g :: after)
    (hquiet : ∃ q ∈ books, q.control.Quiet) (r : c.Ans) :
    ∃ q ∈ before ++ (emitting Ev config).next c r g :: after, q.control.Quiet := by
  obtain ⟨q, hq, hquiet⟩ := hquiet
  rw [hbooks] at hq
  rcases mem_replaced hq with hq | rfl
  · exact ⟨q, mem_of_others hq _, hquiet⟩
  · exact ⟨(emitting Ev config).next c r q, by simp, hquiet.next r⟩

/-- One operation goes on, and the shutdown channel with it. -/
theorem Handed.replace {x' : ExportInner Ev} {g' : Book Ev} (h : Handed x (before ++ g :: after))
    (hadmissions : g'.control.chosen.toNat + x'.shutdowns.sent.length + x.shutdownAdmitted.toNat =
      g.control.chosen.toNat + x.shutdowns.sent.length + x'.shutdownAdmitted.toNat)
    (hchosen : g'.control.chosen = true → g'.control.Quiet)
    (htargets : ∀ target ∈ x'.shutdowns.sent, target = x'.counters .accepted)
    (hquiet : x'.shutdowns.sent ≠ [] → ∃ q ∈ before ++ g' :: after, q.control.Quiet) :
    Handed x' (before ++ g' :: after) where
  admissions := by
    have hcount : ∀ b : Book Ev,
        (if b.control.chosen = true then 1 else 0) = b.control.chosen.toNat := by
      intro b
      cases b.control.chosen <;> rfl
    have hold := h.admissions
    simp only [List.countP_append, List.countP_cons, hcount] at hold ⊢
    omega
  chosen := forall_replace h.chosen (fun _ hb => hb) hchosen
  targets := htargets
  quiet := hquiet

theorem Handed.call (h : Handed x (before ++ g :: after))
    (hquieted : Quieted x (before ++ g :: after)) (hpre : (emitting Ev config).pre c g)
    (hresp : (emitting Ev config).resp c g (x.exec config outcome c).1) :
    Handed (x.exec config outcome c).2 (before ++
      (emitting Ev config).next c (x.exec config outcome c).1 g :: after) := by
  have hmem : g ∈ before ++ g :: after := by simp
  have hcontrol : g.control.Permits c := hpre.2.1
  have hframe := ExportInner.exec_frame config outcome c x
  have hquiet : x.shutdowns.sent ≠ [] → ∃ q ∈ before ++
      (emitting Ev config).next c (x.exec config outcome c).1 g :: after, q.control.Quiet :=
    fun hne => quiet_kept rfl (h.quiet hne) _
  have htargets : ∀ target ∈ x.shutdowns.sent,
      target = (x.exec config outcome c).2.counters .accepted := by
    intro target htarget
    obtain ⟨q, hq, hqq⟩ := h.quiet (List.ne_nil_of_mem htarget)
    exact (h.targets target htarget).trans
      ((hquieted.settled q hq hqq g hmem).counter_eq hpre.1).symm
  by_cases hadmission : c = .admitShutdown
  · subst hadmission
    obtain ⟨hkind, hidle, hchosen⟩ := hcontrol
    refine h.replace ?_ (fun _ => ⟨hkind, hidle⟩) htargets hquiet
    have hnext : ((emitting Ev config).next .admitShutdown
        (x.exec config outcome .admitShutdown).1 g).control.chosen = !x.shutdownAdmitted := rfl
    rw [hnext, hchosen]
    cases hadmitted : x.shutdownAdmitted <;> simp [ExportInner.exec, Nat.add_comm]
  · by_cases hsend : ∃ target, c = .trySendShutdown target
    · obtain ⟨target, rfl⟩ := hsend
      obtain ⟨hchosen, hloaded⟩ := hcontrol
      have hown : g.control.Quiet := h.chosen g hmem hchosen
      simp only [ExportInner.exec] at hresp htargets ⊢
      obtain heq | ⟨e, heq⟩ := x.shutdowns.trySend_cases 1 target
      · rw [heq]
        refine h.replace ?_ nofun ?_ fun _ =>
          ⟨_, List.mem_append_right _ List.mem_cons_self, hown.next _⟩
        · have hnext : ((emitting Ev config).next (.trySendShutdown target) (.ok ())
              g).control.chosen = false := rfl
          rw [hnext, hchosen]
          simp
          omega
        · intro other hother
          rcases List.mem_append.mp hother with hother | hother
          · exact htargets other hother
          · obtain rfl := List.mem_singleton.mp hother
            exact hquieted.read g hmem hown _ hloaded
      · rw [heq] at hresp
        cases hresp
    · have hsend : ∀ target, c ≠ .trySendShutdown target := fun target hc => hsend ⟨target, hc⟩
      have hchosen := ControlBook.next_chosen (g := g.control) (x.exec config outcome c).1 hadmission
        hsend
      have hsent := hframe.shutdowns hsend
      refine h.replace ?_ (fun hnow => ?_) ?_ ?_
      · rw [hsent, hframe.admitted hadmission]
        show (g.control.next c _).chosen.toNat + _ + _ = _
        rw [hchosen]
      · exact (h.chosen g hmem (hchosen.symm.trans hnow)).next _
      · rw [hsent]
        exact htargets
      · rw [hsent]
        exact hquiet

/-- Every command carries its place, and a response is sent once its target is exported. -/
structure Commanded (x : ExportInner Ev) (books : List (Book Ev)) : Prop where
  response : ∀ k (command : FlushCommand), x.flushes.sent[k]? = some command →
    command.response = k
  receiver : ∀ g ∈ books, ∀ k, g.control.receiver = some k →
    ∃ command, x.flushes.sent[k]? = some command ∧
      g.control.loaded .accepted = some command.target
  answered : ∀ g ∈ books, g.control.answered = true →
    ∃ k snapshot, g.control.receiver = some k ∧ x.responses k = some snapshot
  responses : ∀ k snapshot, x.responses k = some snapshot →
    ∃ command, x.flushes.sent[k]? = some command ∧
      command.target ≤ x.batches.flatten.length

/-- More commands, responses and batches. -/
theorem Commanded.grow {x' : ExportInner Ev} {g' : Book Ev}
    (h : Commanded x (before ++ g :: after)) {commands : List FlushCommand}
    (hflushes : x'.flushes.sent = x.flushes.sent ++ commands)
    (hresponse : ∀ k (command : FlushCommand), x'.flushes.sent[k]? = some command →
      command.response = k)
    (hkept : ∀ k snapshot, x.responses k = some snapshot → ∃ now, x'.responses k = some now)
    (hresponses : ∀ k snapshot, x'.responses k = some snapshot →
      x.responses k = some snapshot ∨ ∃ command, x.flushes.sent[k]? = some command ∧
        command.target ≤ x.batches.flatten.length)
    (hbatches : x.batches.flatten.length ≤ x'.batches.flatten.length)
    (hreceiver : ∀ k, g'.control.receiver = some k → ∃ command,
      x'.flushes.sent[k]? = some command ∧ g'.control.loaded .accepted = some command.target)
    (hanswered : g'.control.answered = true →
      ∃ k snapshot, g'.control.receiver = some k ∧ x'.responses k = some snapshot) :
    Commanded x' (before ++ g' :: after) := by
  have hlonger : ∀ {k : Nat} {command : FlushCommand}, x.flushes.sent[k]? = some command →
      x'.flushes.sent[k]? = some command := by
    intro k command hk
    rw [hflushes, List.getElem?_append_left (List.getElem?_eq_some_iff.mp hk).1, hk]
  refine ⟨hresponse, ?_, ?_, ?_⟩
  · refine forall_replace h.receiver (fun b hb k hk => ?_) hreceiver
    obtain ⟨command, hcommand, hloaded⟩ := hb k hk
    exact ⟨command, hlonger hcommand, hloaded⟩
  · refine forall_replace h.answered (fun b hb hnow => ?_) hanswered
    obtain ⟨k, snapshot, hk, hsnapshot⟩ := hb hnow
    obtain ⟨now, hnow⟩ := hkept k snapshot hsnapshot
    exact ⟨k, now, hk, hnow⟩
  · intro k snapshot hk
    have hcommand : ∃ command, x.flushes.sent[k]? = some command ∧
        command.target ≤ x.batches.flatten.length := by
      obtain hold | hnew := hresponses k snapshot hk
      · exact h.responses k snapshot hold
      · exact hnew
    obtain ⟨command, hcommand, htarget⟩ := hcommand
    exact ⟨command, hlonger hcommand, Nat.le_trans htarget hbatches⟩

theorem Commanded.call (h : Commanded x (before ++ g :: after))
    (hpre : (emitting Ev config).pre c g)
    (hworker : ∀ w ∈ g.worker, w.processed ≤ x.batches.flatten.length ∧
      ∀ command : FlushCommand, w.pendingFlush = some command →
        x.flushes.sent[command.response]? = some command) :
    Commanded (x.exec config outcome c).2 (before ++
      (emitting Ev config).next c (x.exec config outcome c).1 g :: after) := by
  have hmem : g ∈ before ++ g :: after := by simp
  have hcontrol : g.control.Permits c := hpre.2.1
  have hframe := ExportInner.exec_frame config outcome c x
  have hreceiver := h.receiver g hmem
  have hanswered := h.answered g hmem
  cases c with
  | trySendFlush target =>
      obtain ⟨hnone, hloaded⟩ := hcontrol
      simp only [ExportInner.exec]
      obtain heq | ⟨e, heq⟩ := x.trySendFlush_cases config.controlCapacity target
      · rw [heq]
        have hlast : (x.flushes.sent ++ [(⟨target, x.flushes.sent.length⟩ : FlushCommand)])[
            x.flushes.sent.length]? = some ⟨target, x.flushes.sent.length⟩ := by simp
        refine h.grow rfl ?_ (fun k snapshot hk => ⟨snapshot, hk⟩) (fun k snapshot hk => .inl hk)
          (Nat.le_refl _) ?_ ?_
        · intro k command hk
          dsimp only at hk
          rw [List.getElem?_append] at hk
          split at hk
          · exact h.response k command hk
          · have hlen := (List.getElem?_eq_some_iff.mp hk).1
            simp only [List.length_singleton] at hlen
            have hzero : k - x.flushes.sent.length = 0 := by omega
            rw [hzero] at hk
            obtain rfl := Option.some.inj hk
            show x.flushes.sent.length = k
            omega
        · rintro k ⟨⟩
          exact ⟨_, hlast, hloaded⟩
        · intro hnow
          obtain ⟨k, -, hk, -⟩ := hanswered hnow
          rw [hnone] at hk
          cases hk
      · rw [heq]
        exact h.grow (List.append_nil _).symm h.response (fun k snapshot hk => ⟨snapshot, hk⟩)
          (fun k snapshot hk => .inl hk) (Nat.le_refl _) hreceiver hanswered
  | recvResponse response =>
      have hsame : ∀ found, (g.control.next (.recvResponse response : ExportCall Ev) found).receiver =
          g.control.receiver ∧ (g.control.next (.recvResponse response : ExportCall Ev) found).loaded =
          g.control.loaded := by
        intro found
        cases found <;> exact ⟨rfl, rfl⟩
      obtain ⟨hsameReceiver, hsameLoaded⟩ := hsame (x.responses response)
      refine h.grow (List.append_nil _).symm h.response (fun k snapshot hk => ⟨snapshot, hk⟩)
        (fun k snapshot hk => .inl hk) (Nat.le_refl _) ?_ ?_
      · intro k hk
        obtain ⟨command, hcommand, hloaded⟩ := hreceiver k (hsameReceiver.symm.trans hk)
        exact ⟨command, hcommand, (congrFun hsameLoaded _).trans hloaded⟩
      · intro hnow
        cases hfound : x.responses response with
        | some snapshot => exact ⟨response, snapshot, hsameReceiver.trans hcontrol, hfound⟩
        | none =>
            have hbefore : (g.control.next (.recvResponse response : ExportCall Ev)
                (x.responses response)).answered = true := hnow
            rw [hfound] at hbefore
            obtain ⟨k, snapshot, hk, hsnapshot⟩ := hanswered hbefore
            exact ⟨k, snapshot, hsameReceiver.trans hk, hsnapshot⟩
  | load counter =>
      refine h.grow (List.append_nil _).symm h.response (fun k snapshot hk => ⟨snapshot, hk⟩)
        (fun k snapshot hk => .inl hk) (Nat.le_refl _) ?_ hanswered
      intro k hk
      obtain ⟨command, hcommand, hloaded⟩ := hreceiver k hk
      refine ⟨command, hcommand, ?_⟩
      cases counter with
      | accepted =>
          obtain ⟨-, -, hnone⟩ := hcontrol
          rw [show g.control.receiver = some k from hk] at hnone
          cases hnone
      | _ => exact hloaded
  | respond response snapshot =>
      obtain ⟨w, hw⟩ := Option.isSome_iff_exists.mp (hpre.2.2.2.1 rfl)
      obtain ⟨command, hpending, hresponse, htarget⟩ := hpre.2.2.1 w hw
      obtain ⟨hprocessed, hsent⟩ := hworker w hw
      refine h.grow (List.append_nil _).symm h.response ?_ ?_ (Nat.le_refl _) hreceiver ?_
      · intro k old hk
        by_cases hsame : k = response
        · subst hsame
          exact ⟨snapshot, Function.update_self ..⟩
        · exact ⟨old, (Function.update_of_ne hsame _ _).trans hk⟩
      · intro k now hk
        by_cases hsame : k = response
        · subst hsame
          refine .inr ⟨command, ?_, Nat.le_trans htarget hprocessed⟩
          rw [← hresponse]
          exact hsent command hpending
        · exact .inl ((Function.update_of_ne hsame _ _).symm.trans hk)
      · intro hnow
        obtain ⟨k, old, hk, hold⟩ := hanswered hnow
        by_cases hsame : k = response
        · subst hsame
          exact ⟨k, snapshot, hk, Function.update_self ..⟩
        · exact ⟨k, old, hk, (Function.update_of_ne hsame _ _).trans hold⟩
  | exportEvents batch =>
      refine h.grow (List.append_nil _).symm h.response (fun k snapshot hk => ⟨snapshot, hk⟩)
        (fun k snapshot hk => .inl hk) ?_ hreceiver hanswered
      simp [ExportInner.exec]
  | _ =>
      have hflushes := (hframe.flushes nofun).trans (List.append_nil _).symm
      have hresponses := hframe.responses nofun
      refine h.grow hflushes ?_ ?_ ?_ ?_ ?_ ?_
      · rw [hframe.flushes nofun]
        exact h.response
      · rw [hresponses]
        exact fun k snapshot hk => ⟨snapshot, hk⟩
      · rw [hresponses]
        exact fun k snapshot hk => .inl hk
      · exact Nat.le_of_eq (by rw [hframe.batches nofun])
      · rw [hframe.flushes nofun]
        exact hreceiver
      · rw [hresponses]
        exact hanswered

end Steps

/-! ## The worker -/

/-- What the worker has taken is what it has exported and what it holds, in channel order. -/
structure Works (config : AsyncExportConfig) (x : ExportInner Ev) (w : WorkerBook Ev) : Prop where
  received : x.events.received ≤ x.events.sent.length
  taken : x.events.sent.take x.events.received = x.batches.flatten ++ w.batch
  counted : x.counters .exported + x.counters .exportFailed = w.processed
  processed : w.processed + w.unsettled = x.batches.flatten.length
  batches : ∀ batch ∈ x.batches, batch ≠ [] ∧ batch.length ≤ config.maxBatchSize
  batch : w.batch.length ≤ config.maxBatchSize
  flush : ∀ command : FlushCommand, w.pendingFlush = some command →
    x.flushes.sent[command.response]? = some command
  shutdown : ∀ target, w.pendingShutdown = some target → target ∈ x.shutdowns.sent
  disconnected : w.disconnected = true →
    x.live = false ∧ x.events.received = x.events.sent.length
  ended : w.stage ≠ .running → w.batch = [] ∧ w.unsettled = 0 ∧
    x.events.received = x.events.sent.length ∧ (x.live = false ∨ x.shutdowns.sent ≠ [])
  exporterShutdowns : x.exporterShutdowns = if w.stage = .running then 0 else 1
  closed : x.state = .exportClosed → w.stage = .closed
  connected : x.shutdowns.connected = false → w.stage = .closed

namespace Works

variable {w : WorkerBook Ev} {c : ExportCall Ev}

/-- Between two batches everything taken is exported. -/
theorem exported_length (h : Works config x w) :
    x.batches.flatten.length + w.batch.length = x.events.received := by
  have hlength := congrArg List.length h.taken
  rw [List.length_take, List.length_append, Nat.min_eq_left h.received] at hlength
  exact hlength.symm

/-- One more event goes into a batch that has room for it. -/
theorem take_next (h : Works config x w) {event : Ev}
    (hnext : x.events.sent[x.events.received]? = some event) (hrunning : w.stage = .running)
    (hroom : w.batch.length < config.maxBatchSize) :
    Works config { x with events := { x.events with received := x.events.received + 1 } }
      { w with batch := w.batch ++ [event] } := by
  have hreceived := (List.getElem?_eq_some_iff.mp hnext).1
  refine { h with
    received := hreceived
    taken := ?_
    batch := ?_
    disconnected := fun hgone => ?_
    ended := fun hne => absurd hrunning hne }
  · show x.events.sent.take (x.events.received + 1) = x.batches.flatten ++ (w.batch ++ [event])
    rw [List.take_add_one, hnext, h.taken, List.append_assoc]
    rfl
  · rw [List.length_append, List.length_singleton]
    omega
  · have hall := (h.disconnected hgone).2
    omega

theorem call (h : Works config x w) (hpre : w.Permits config c)
    (hmax : ∀ counter n, c = .fetchMax counter n → counter = .enqueueNanosMax)
    (hsend : ∀ event, c = .trySendEvent event → x.live = true ∧ x.shutdowns.sent = [])
    (htargets : ∀ target ∈ x.shutdowns.sent, target = x.events.sent.length)
    (hcommands : ∀ k (command : FlushCommand), x.flushes.sent[k]? = some command →
      command.response = k) :
    Works config (x.exec config outcome c).2 (w.next c (x.exec config outcome c).1) := by
  have hframe := ExportInner.exec_frame config outcome c x
  cases c with
  | closeState =>
      simp only [ExportInner.exec]
      split
      · exact { h with closed := nofun }
      · exact { h with }
  | storeClosed =>
      have hshut : w.stage = .shut := hpre
      have hover := h.ended (by simp [hshut])
      have hone := h.exporterShutdowns
      rw [hshut] at hone
      exact { h with
        ended := fun _ => hover
        exporterShutdowns := hone
        closed := fun _ => rfl
        connected := fun _ => rfl }
  | joinWorker =>
      simp only [ExportInner.exec]
      obtain heq | heq := x.joinWorker_cases
      · rw [heq]
        exact { h with }
      · rw [heq]
        exact { h with }
  | fetchMax counter n =>
      obtain rfl := hmax counter n rfl
      exact { h with }
  | fetchAdd counter n =>
      have hcounted := h.counted
      have hprocessed := h.processed
      cases counter with
      | exported | exportFailed =>
          obtain ⟨hrunning, rfl, -⟩ := hpre
          refine { h with counted := ?_, processed := ?_, ended := fun hne => absurd hrunning hne }
          · simp only [ExportInner.exec, WorkerBook.next, Function.update_self]
            rw [Function.update_of_ne (by decide)]
            omega
          · simp only [ExportInner.exec, WorkerBook.next]
            omega
      | _ => exact { h with }
  | trySendEvent event =>
      obtain ⟨hlive, hnone⟩ := hsend event rfl
      simp only [ExportInner.exec]
      obtain heq | ⟨e, heq⟩ := x.events.trySend_cases config.queueCapacity event
      · rw [heq]
        refine { h with received := ?_, taken := ?_, disconnected := ?_, ended := ?_ }
        · exact Nat.le_trans h.received (by simp)
        · exact (List.take_append_of_le_length h.received).trans h.taken
        · intro hgone
          exact absurd (hlive.symm.trans (h.disconnected hgone).1) (by simp)
        · intro hne
          obtain ⟨-, -, -, hgone | hsent⟩ := h.ended hne
          · exact absurd (hlive.symm.trans hgone) (by simp)
          · exact absurd hnone hsent
      · rw [heq]
        exact { h with }
  | trySendFlush target =>
      simp only [ExportInner.exec]
      obtain heq | ⟨e, heq⟩ := x.trySendFlush_cases config.controlCapacity target
      · rw [heq]
        refine { h with flush := fun command hcommand => ?_ }
        have hold := h.flush command hcommand
        exact (List.getElem?_append_left (List.getElem?_eq_some_iff.mp hold).1).trans hold
      · rw [heq]
        exact { h with }
  | trySendShutdown target =>
      simp only [ExportInner.exec]
      obtain heq | ⟨e, heq⟩ := x.shutdowns.trySend_cases 1 target
      · rw [heq]
        refine { h with shutdown := fun t ht => ?_, ended := fun hne => ?_ }
        · exact List.mem_append_left _ (h.shutdown t ht)
        · obtain ⟨hbatch, hunsettled, hreceived, -⟩ := h.ended hne
          exact ⟨hbatch, hunsettled, hreceived, .inr (by simp)⟩
      · rw [heq]
        exact { h with }
  | tryRecvShutdown =>
      simp only [ExportInner.exec]
      obtain ⟨-, heq⟩ | ⟨target, htarget, heq⟩ := x.shutdowns.tryRecv_cases
      · rw [heq]
        exact { h with shutdown := nofun }
      · rw [heq]
        refine { h with shutdown := ?_ }
        rintro _ ⟨⟩
        exact List.mem_of_getElem? htarget
  | tryRecvFlush =>
      simp only [ExportInner.exec]
      obtain ⟨-, heq⟩ | ⟨command, hcommand, heq⟩ := x.flushes.tryRecv_cases
      · rw [heq]
        exact { h with flush := nofun }
      · rw [heq]
        refine { h with flush := ?_ }
        rintro _ ⟨⟩
        show x.flushes.sent[command.response]? = some command
        rw [hcommands _ _ hcommand]
        exact hcommand
  | recvEvent =>
      obtain ⟨hrunning, hbatch, -⟩ := hpre
      simp only [ExportInner.exec]
      obtain ⟨hnone, heq⟩ | ⟨event, hevent, heq⟩ := x.recvEvent_cases
      · rw [heq]
        cases hlive : x.live with
        | true => exact { h with }
        | false =>
            have hall : x.events.received = x.events.sent.length :=
              Nat.le_antisymm h.received (List.getElem?_eq_none_iff.mp hnone)
            exact { h with disconnected := fun _ => ⟨hlive, hall⟩ }
      · rw [heq]
        refine h.take_next hevent hrunning ?_
        rw [hbatch]
        exact config.maxBatchSize_pos
  | tryRecvEvent =>
      obtain ⟨hrunning, -, hroom⟩ := hpre
      simp only [ExportInner.exec]
      obtain ⟨-, heq⟩ | ⟨event, hevent, heq⟩ := x.events.tryRecv_cases
      · rw [heq]
        exact { h with }
      · rw [heq]
        exact h.take_next hevent hrunning hroom
  | exportEvents batch =>
      obtain ⟨hrunning, hunsettled, rfl, hne⟩ := hpre
      have hprocessed := h.processed
      refine { h with
        taken := ?_
        processed := ?_
        batches := ?_
        batch := Nat.zero_le _
        ended := fun hstage => absurd hrunning hstage }
      · simpa [ExportInner.exec, WorkerBook.next] using h.taken
      · simp [ExportInner.exec, WorkerBook.next]
        simp at hprocessed
        omega
      · intro batch hbatch
        rcases List.mem_append.mp hbatch with hbatch | hbatch
        · exact h.batches batch hbatch
        · obtain rfl := List.mem_singleton.mp hbatch
          exact ⟨hne, h.batch⟩
  | respond response snapshot => exact { h with flush := nofun }
  | shutdownExporter =>
      obtain ⟨hrunning, hbatch, hunsettled, hfinish⟩ := hpre
      have hnone := h.exporterShutdowns
      rw [if_pos hrunning] at hnone
      have hlength := h.exported_length
      have hprocessed := h.processed
      have hreceived := h.received
      refine { h with
        ended := fun _ => ⟨hbatch, hunsettled, ?_⟩
        exporterShutdowns := ?_
        closed := fun hclosed => ?_
        connected := fun hconnected => ?_ }
      · obtain ⟨target, hpending, htarget⟩ | hgone := hfinish
        · have hmem := h.shutdown target hpending
          have hall := htargets target hmem
          rw [hbatch, List.length_nil] at hlength
          have hend : x.events.received = x.events.sent.length := by omega
          exact ⟨hend, .inr (List.ne_nil_of_mem hmem)⟩
        · exact ⟨(h.disconnected hgone).2, .inl (h.disconnected hgone).1⟩
      · show x.exporterShutdowns + 1 = 1
        rw [hnone]
      · rw [h.closed hclosed] at hrunning
        cases hrunning
      · rw [h.connected hconnected] at hrunning
        cases hrunning
  | dropShutdowns => exact { h with connected := fun _ => hpre }
  | dropEmitter =>
      refine { h with
        disconnected := fun hgone => ⟨rfl, (h.disconnected hgone).2⟩
        ended := fun hne => ?_ }
      obtain ⟨hbatch, hunsettled, hreceived, -⟩ := h.ended hne
      exact ⟨hbatch, hunsettled, hreceived, .inl rfl⟩
  | _ => exact { h with }

end Works

/-- Every step but the worker's is permitted to it, and leaves its book as it is. -/
theorem WorkerBook.next_of_caller {w : WorkerBook Ev} (hc : c.byWorker = false)
    (r : c.Ans) : w.Permits config c ∧ w.next c r = w := by
  cases c with
  | fetchAdd counter n =>
      cases counter with
      | exported => cases hc
      | exportFailed => cases hc
      | _ => exact ⟨trivial, rfl⟩
  | tryRecvShutdown => cases hc
  | tryRecvFlush => cases hc
  | recvEvent => cases hc
  | tryRecvEvent => cases hc
  | exportEvents batch => cases hc
  | respond response snapshot => cases hc
  | shutdownExporter => cases hc
  | storeClosed => cases hc
  | dropShutdowns => cases hc
  | _ => exact ⟨trivial, rfl⟩

/-- The worker keeps the worker's book, and no other operation has one. -/
theorem book_worker (t : Thread (exportCalls Ev) (EmitterTask Ev)) :
    ((emitting Ev config).book t).worker.isSome = t.task.isWorker := by
  obtain ⟨task, prog, log⟩ := t
  induction log with
  | nil => cases task <;> rfl
  | cons e log ih => exact Option.isSome_map.trans ih

/-! ## After the emitter was found closed -/

theorem exec_state_closed (h : x.state = .exportClosed) :
    (x.exec config outcome c).2.state = .exportClosed := by
  have hframe := ExportInner.exec_frame config outcome c x
  cases c with
  | closeState =>
      simp only [ExportInner.exec]
      split
      · rename_i hopen
        rw [h] at hopen
        cases hopen
      · exact h
  | storeClosed => rfl
  | _ => exact (hframe.state nofun nofun).trans h

/-- The counters of the exporter. -/
def Counter.ofExporter : Counter → Bool
  | .exported | .exportFailed => true
  | _ => false

/-- A shutdown reads the counters of the exporter when they have their last values. -/
structure Concluded (x : ExportInner Ev) (books : List (Book Ev)) : Prop where
  closed : ∀ g ∈ books, g.control.closed = true → x.state = .exportClosed
  read : ∀ g ∈ books, g.control.kind = .shutdown → ∀ counter : Counter,
    counter.ofExporter = true → ∀ n, g.control.loaded counter = some n →
    g.control.closed = true ∧ n = x.counters counter

theorem Concluded.call {before after : List (Book Ev)} {g : Book Ev}
    (h : Concluded x (before ++ g :: after)) (hpre : (emitting Ev config).pre c g)
    (hlast : x.state = .exportClosed → ∀ counter : Counter, counter.ofExporter = true →
      (x.exec config outcome c).2.counters counter = x.counters counter) :
    Concluded (x.exec config outcome c).2 (before ++
      (emitting Ev config).next c (x.exec config outcome c).1 g :: after) := by
  have hmem : g ∈ before ++ g :: after := by simp
  have hcontrol : g.control.Permits c := hpre.2.1
  have hread : ∀ b ∈ before ++ g :: after, b.control.kind = .shutdown → ∀ counter : Counter,
      counter.ofExporter = true → ∀ n, b.control.loaded counter = some n →
      b.control.closed = true ∧ n = (x.exec config outcome c).2.counters counter := by
    intro b hb hkind counter hcounter n hn
    obtain ⟨hclosed, hvalue⟩ := h.read b hb hkind counter hcounter n hn
    exact ⟨hclosed, hvalue.trans (hlast (h.closed b hb hclosed) counter hcounter).symm⟩
  constructor
  · refine forall_replace h.closed (fun b hb hclosed => exec_state_closed (hb hclosed)) ?_
    intro hclosed
    obtain hold | ⟨-, hnow⟩ := ControlBook.next_marks.closed hclosed
    · exact exec_state_closed (h.closed g hmem hold)
    · exact exec_state_closed hnow
  · refine forall_replace hread (fun _ hb => hb) ?_
    intro hkind counter hcounter n hn
    have hkind' : g.control.kind = .shutdown := (ControlBook.next_kind c _ _).symm.trans hkind
    obtain hold | ⟨rfl, hvalue⟩ := ControlBook.next_marks.loaded _ _ hn
    · obtain ⟨hclosed, hvalue⟩ := hread g hmem hkind' counter hcounter n hold
      exact ⟨(ControlBook.next_found _).2 hclosed, hvalue⟩
    · refine ⟨?_, hvalue.symm⟩
      cases counter with
      | exported => exact (hcontrol hkind').2
      | exportFailed => exact (hcontrol hkind').2
      | _ => cases hcounter

/-! ## The emitter -/

/-- Everything that is kept: the counters, the channels and the work. -/
structure Accounted (config : AsyncExportConfig) (x : ExportInner Ev) (books : List (Book Ev)) :
    Prop where
  counted : Counted x (books.map Book.enqueue)
  quieted : Quieted x books
  handed : Handed x books
  commanded : Commanded x books
  concluded : Concluded x books
  single : (books.filterMap Book.worker).length ≤ 1
  works : Works config x ((books.filterMap Book.worker).headD {})

namespace Accounted

variable {books before after : List (Book Ev)} {g : Book Ev} {c : ExportCall Ev}

/-- A shutdown in the channel knows how many events were sent. -/
theorem targets (h : Accounted config x books) :
    ∀ target ∈ x.shutdowns.sent, target = x.events.sent.length := by
  intro target htarget
  obtain ⟨q, hq, hquiet⟩ := h.handed.quiet (List.ne_nil_of_mem htarget)
  refine (h.handed.targets target htarget).trans (h.counted.accepted_eq ?_)
  intro b hb
  obtain ⟨book, hbook, rfl⟩ := List.mem_map.mp hb
  exact h.quieted.settled q hq hquiet book hbook

/-- While an enqueue may still send, no shutdown is in the channel. -/
theorem no_shutdown (h : Accounted config x books) (hg : g ∈ books)
    (hadmitted : g.enqueue.admitted = true) : x.shutdowns.sent = [] := by
  by_contra hne
  obtain ⟨q, hq, hquiet⟩ := h.handed.quiet hne
  have hsettled := h.quieted.settled q hq hquiet g hg
  exact absurd (hsettled.admitted.symm.trans hadmitted) (by simp)

/-- The shutdown channel has room for the one shutdown that is admitted, and the worker is
there to receive it. -/
theorem trySendShutdown (h : Accounted config x books) (hg : g ∈ books)
    (hchosen : g.control.chosen = true) (hlive : x.live = true) (target : Nat) :
    (x.shutdowns.trySend 1 target).1 = .ok () := by
  have hempty : x.shutdowns.sent = [] := by
    have hpositive : 0 < books.countP (·.control.chosen) :=
      List.countP_pos_iff.mpr ⟨g, hg, hchosen⟩
    have hadmissions := h.handed.admissions
    have hone : x.shutdownAdmitted.toNat ≤ 1 := by cases x.shutdownAdmitted <;> simp
    exact List.eq_nil_of_length_eq_zero (by omega)
  have hconnected : x.shutdowns.connected = true := by
    by_contra hne
    have hclosed := h.works.connected (by simpa using hne)
    obtain ⟨-, -, -, hgone | hsent⟩ := h.works.ended (by rw [hclosed]; decide)
    · exact absurd (hlive.symm.trans hgone) (by simp)
    · exact absurd hempty hsent
  simp [Channel.trySend, hempty, hconnected]

/-- The accounts of the worker, when it is about to take a step. -/
theorem works_of_worker (h : Accounted config x (before ++ g :: after))
    (hpre : (emitting Ev config).pre c g) (hby : c.byWorker = true) :
    ∃ w, Works config x w ∧ w.Permits config c := by
  obtain ⟨w, hw⟩ := Option.isSome_iff_exists.mp (hpre.2.2.2.1 hby)
  have hsingle := h.single
  have hworks := h.works
  simp only [List.filterMap_append, List.filterMap_cons, hw, List.length_append,
    List.length_cons] at hsingle hworks
  have hbefore : before.filterMap Book.worker = [] := List.eq_nil_of_length_eq_zero (by omega)
  rw [hbefore] at hworks
  exact ⟨w, hworks, hpre.2.2.1 w hw⟩

/-- The worker has gone on, if the operation is the worker. -/
theorem worker_call (h : Accounted config x (before ++ g :: after))
    (hpre : (emitting Ev config).pre c g) (hlive : g.worker = none → x.live = true) :
    ((before ++ (emitting Ev config).next c (x.exec config outcome c).1 g :: after).filterMap
      Book.worker).length ≤ 1 ∧
    Works config (x.exec config outcome c).2 (((before ++ (emitting Ev config).next c
      (x.exec config outcome c).1 g :: after).filterMap Book.worker).headD {}) := by
  have hmem : g ∈ before ++ g :: after := by simp
  obtain ⟨henqueue, -, hwork, hneeds, hcaller⟩ := hpre
  have hsingle := h.single
  have hworks := h.works
  have hmax : ∀ counter n, c = .fetchMax counter n → counter = .enqueueNanosMax := by
    rintro counter n rfl
    exact henqueue
  have hsend : ∀ event, c = .trySendEvent event → x.live = true ∧ x.shutdowns.sent = [] := by
    rintro event rfl
    exact ⟨hlive (hcaller rfl), h.no_shutdown hmem henqueue⟩
  simp only [List.filterMap_append, List.filterMap_cons] at hsingle hworks ⊢
  cases hworker : g.worker with
  | none =>
      have hnext : ((emitting Ev config).next c (x.exec config outcome c).1 g).worker = none :=
        Option.map_eq_none_iff.mpr hworker
      have hother : c.byWorker = false := by
        cases hc : c.byWorker with
        | false => rfl
        | true =>
            have hsome := hneeds hc
            rw [hworker] at hsome
            cases hsome
      rw [hworker] at hsingle hworks
      rw [hnext]
      refine ⟨hsingle, ?_⟩
      have hstill : ∀ w : WorkerBook Ev, w.Permits config c ∧
          w.next c (x.exec config outcome c).1 = w :=
        fun w => WorkerBook.next_of_caller hother _
      have hkept : ∀ w, Works config x w → Works config (x.exec config outcome c).2 w := by
        intro w hw
        have hcall : Works config (x.exec config outcome c).2
            (w.next c (x.exec config outcome c).1) :=
          hw.call (hstill w).1 hmax hsend h.targets h.commanded.response
        rwa [(hstill w).2] at hcall
      exact hkept _ hworks
  | some w =>
      have hnext : ((emitting Ev config).next c (x.exec config outcome c).1 g).worker =
          some (w.next c (x.exec config outcome c).1) := by
        show g.worker.map _ = _
        rw [hworker]
        rfl
      rw [hworker] at hsingle hworks
      rw [hnext]
      simp only [List.length_append, List.length_cons] at hsingle ⊢
      refine ⟨hsingle, ?_⟩
      have hbefore : before.filterMap Book.worker = [] :=
        List.eq_nil_of_length_eq_zero (by omega)
      rw [hbefore] at hworks ⊢
      exact hworks.call (hwork w hworker) hmax hsend h.targets h.commanded.response

/-- After the emitter was closed the exporter's counters stay. -/
theorem last (h : Accounted config x (before ++ g :: after)) (hpre : (emitting Ev config).pre c g)
    (hclosed : x.state = .exportClosed) (counter : Counter) (hcounter : counter.ofExporter = true) :
    (x.exec config outcome c).2.counters counter = x.counters counter := by
  have hframe := ExportInner.exec_frame config outcome c x
  by_cases hadd : ∃ n, c = .fetchAdd counter n
  · obtain ⟨n, rfl⟩ := hadd
    have hby : (ExportCall.fetchAdd counter n : ExportCall Ev).byWorker = true := by
      cases counter <;> first | rfl | cases hcounter
    obtain ⟨w, hworks, hpermits⟩ := h.works_of_worker hpre hby
    have hrunning : w.stage = .running := by
      cases counter with
      | exported => exact hpermits.1
      | exportFailed => exact hpermits.1
      | _ => cases hcounter
    exact absurd (hrunning.symm.trans (hworks.closed hclosed)) (by decide)
  · refine hframe.counters counter (fun n hc => hadd ⟨n, hc⟩) ?_
    rintro n rfl
    obtain rfl : counter = .enqueueNanosMax := hpre.1
    cases hcounter

/-- **One step of any operation**, with its own answer. -/
theorem call (h : Accounted config x (before ++ g :: after)) (hpre : (emitting Ev config).pre c g)
    (hlive : g.worker = none → x.live = true) :
    (emitting Ev config).resp c g (x.exec config outcome c).1 ∧
      Accounted config (x.exec config outcome c).2 (before ++
        (emitting Ev config).next c (x.exec config outcome c).1 g :: after) := by
  have hmem : g ∈ before ++ g :: after := by simp
  have hresp : (emitting Ev config).resp c g (x.exec config outcome c).1 := by
    cases c with
    | trySendShutdown target =>
        exact h.trySendShutdown hmem hpre.2.1.1 (hlive (hpre.2.2.2.2 rfl)) target
    | _ => trivial
  have hworker : ∀ w ∈ g.worker, w.processed ≤ x.batches.flatten.length ∧
      ∀ command : FlushCommand, w.pendingFlush = some command →
        x.flushes.sent[command.response]? = some command := by
    intro w hw
    have hsingle := h.single
    have hworks := h.works
    have hw : g.worker = some w := hw
    simp only [List.filterMap_append, List.filterMap_cons, hw, List.length_append,
      List.length_cons] at hsingle hworks
    have hbefore : before.filterMap Book.worker = [] := List.eq_nil_of_length_eq_zero (by omega)
    rw [hbefore] at hworks
    have hworks : Works config x w := hworks
    exact ⟨hworks.processed ▸ Nat.le_add_right _ _, hworks.flush⟩
  have hwork : _ ∧ Works config (x.exec config outcome c).2 _ := h.worker_call hpre hlive
  obtain ⟨hsingle, hworks⟩ := hwork
  refine ⟨hresp, ?_, h.quieted.call h.counted hpre, h.handed.call h.quieted hpre hresp,
    h.commanded.call hpre hworker, h.concluded.call hpre fun hclosed => h.last hpre hclosed,
    hsingle, hworks⟩
  have hcounted := h.counted
  rw [List.map_append, List.map_cons] at hcounted ⊢
  exact hcounted.call hpre.1

end Accounted

end Rustvello.Telemetry
