import OcreRuntime.OcreApi.TimerSlots

/-!
# Remaining time and the 32-bit clock

The true uptime grows without bound, and the code sees it modulo `2 ^ 32`. A run records
for each slot the true time at which its timer was last started, or last expired
periodically, and the interval that was asked for. The remaining time is what these give
as long as less than one round of the clock has passed.
-/

namespace OcreRuntime

/-- `core_uptime_get`, at `tv_sec * 1000 + tv_nsec / 1000000` milliseconds. -/
def coreUptimeGet (clock : ℕ) : UInt32 := UInt32.ofNat clock

/-- Less than one round of the clock is measured exactly. -/
theorem toNat_coreUptimeGet_sub {since clock : ℕ} (hle : since ≤ clock)
    (hlt : clock < since + 2 ^ 32) :
    (coreUptimeGet clock - coreUptimeGet since).toNat = clock - since := by
  simp only [coreUptimeGet, UInt32.toNat_sub, UInt32.toNat_ofNat']
  omega

/-- The uptime that a step has read. -/
def TimerAct.At (uptime : UInt32) : TimerAct → Bool
  | .call _ (.timerStart _ _ _ read _) => read = uptime
  | .call _ (.timerGetRemaining _ read) => read = uptime
  | .notify _ read => read = uptime
  | _ => true

/-- The true time of the last start or periodic expiry, and the interval of the start. A timer
expires when the callback handles it, which reads the uptime there. -/
structure TimerStamp where
  since : ℕ
  interval : ℕ

/-- The uptime that a change leaves in the timer. -/
def SlotChange.uptime : SlotChange → Option UInt32
  | .started _ _ _ uptime | .fired uptime => some uptime
  | _ => none

def TimerStamp.after (stamp : TimerStamp) (clock : ℕ) (timer : OcreTimer) :
    SlotChange → TimerStamp
  | .started _ interval _ _ => ⟨clock, interval⟩
  | .fired _ => if timer.periodic then { stamp with since := clock } else stamp
  | _ => stamp

structure ClockedWorld where
  world : ApiWorld
  clock : ℕ
  stamps : ℕ → TimerStamp

inductive ClockedAct
  | pass (ms : ℕ)
  | step (a : TimerAct)

namespace ClockedWorld

def next : ClockedAct → ClockedWorld → Option ClockedWorld
  | .pass ms, s => some { s with clock := s.clock + ms }
  | .step a, s =>
      if ¬ a.At (coreUptimeGet s.clock) then none
      else (s.world.performTimer a).map fun r ↦
        { s with
          world := r.2
          stamps := fun i ↦ (s.stamps i).after s.clock (s.world.timer i)
            (s.world.change i (s.world.timer i) a) }

/-- What the stamp of a slot says about its timer. -/
structure Stamped (clock : ℕ) (stamp : TimerStamp) (timer : OcreTimer) : Prop where
  idle : timer.inUse = false → timer.running = false
  startTime : timer.running = true → timer.startTime = coreUptimeGet stamp.since
  interval : timer.running = true → timer.interval = stamp.interval
  pos : timer.running = true → 0 < stamp.interval
  le : timer.running = true → stamp.interval ≤ 65535
  since_le : timer.running = true → stamp.since ≤ clock

variable {clock : ℕ} {stamp : TimerStamp} {timer : OcreTimer} {change : SlotChange}

theorem Stamped.of_not_running (h : timer.running = false) : Stamped clock stamp timer where
  idle _ := h
  startTime hrun := by simp [h] at hrun
  interval hrun := by simp [h] at hrun
  pos hrun := by simp [h] at hrun
  le hrun := by simp [h] at hrun
  since_le hrun := by simp [h] at hrun

/-- What one change of a slot preserves. -/
theorem Stamped.after (h : Stamped clock stamp timer) (henabled : change.Enabled timer)
    (huptime : ∀ uptime ∈ change.uptime, uptime = coreUptimeGet clock) :
    Stamped clock (stamp.after clock timer change) (timer.after change) := by
  cases change with
  | keep => exact h
  | created | notCreated => exact .of_not_running (h.idle henabled)
  | started module interval isPeriodic uptime =>
      obtain ⟨hused, -, hpos, hle⟩ := henabled
      obtain rfl := huptime uptime rfl
      refine ⟨fun hidle ↦ ?_, fun _ ↦ rfl, fun _ ↦ rfl, fun _ ↦ hpos, fun _ ↦ hle, fun _ ↦ le_rfl⟩
      exact absurd (hidle.symm.trans hused) Bool.false_ne_true
  | notStarted | stopped | released => exact .of_not_running rfl
  | expired => exact ⟨h.idle, h.startTime, h.interval, h.pos, h.le, h.since_le⟩
  | fired uptime =>
      obtain rfl := huptime uptime rfl
      cases hperiodic : timer.periodic with
      | true =>
          simp only [OcreTimer.after, OcreTimer.fired, TimerStamp.after, hperiodic, if_true]
          exact ⟨h.idle, fun _ ↦ rfl, h.interval, h.pos, h.le, fun _ ↦ le_rfl⟩
      | false =>
          simp only [OcreTimer.after, OcreTimer.fired, TimerStamp.after, hperiodic]
          exact .of_not_running rfl

theorem Stamped.pass (h : Stamped clock stamp timer) (ms : ℕ) :
    Stamped (clock + ms) stamp timer :=
  ⟨h.idle, h.startTime, h.interval, h.pos, h.le,
    fun hrun ↦ (h.since_le hrun).trans (Nat.le_add_right ..)⟩

theorem uptime_of_change {w : ApiWorld} {a : TimerAct} {i : ℕ} {read : UInt32}
    (hat : a.At read = true) : ∀ uptime ∈ (w.change i timer a).uptime, uptime = read := by
  intro uptime huptime
  cases a with
  | call module call =>
      cases call with
      | timerStart id interval isPeriodic u coreStart =>
          simp only [ApiWorld.change, ApiWorld.callChange, TimerTable.startChange] at huptime
          simp only [TimerAct.At, decide_eq_true_eq] at hat
          split_ifs at huptime
          · cases huptime
          · cases huptime
            exact hat
          · cases huptime
      | timerCreate | timerDelete | timerStop =>
          simp only [ApiWorld.change, ApiWorld.callChange, TimerTable.createChange,
            TimerTable.deleteChange, TimerTable.stopChange] at huptime
          split_ifs at huptime <;> cases huptime
      | _ => cases huptime
  | cleanup module =>
      simp only [ApiWorld.change, TimerTable.cleanupChange] at huptime
      split_ifs at huptime <;> cases huptime
  | expire slot =>
      simp only [ApiWorld.change] at huptime
      split_ifs at huptime <;> cases huptime
  | notify slot u =>
      simp only [TimerAct.At, decide_eq_true_eq] at hat
      simp only [ApiWorld.change] at huptime
      split_ifs at huptime
      · cases huptime
        exact hat
      · cases huptime

/-- The stamps are those of the timers in all slots. -/
def AllStamped (s : ClockedWorld) : Prop :=
  ∀ i timer, s.world.timers[i]? = some timer → Stamped s.clock (s.stamps i) timer

variable {s s' : ClockedWorld}

theorem next_step {a : TimerAct} (h : next (.step a) s = some s') :
    a.At (coreUptimeGet s.clock) = true ∧
      ∃ r, s.world.performTimer a = some (r, s'.world) ∧ s'.clock = s.clock ∧
        ∀ i, s'.stamps i = (s.stamps i).after s.clock (s.world.timer i)
          (s.world.change i (s.world.timer i) a) := by
  obtain ⟨hat, hrest⟩ := Option.ite_none_left_eq_some.mp h
  obtain ⟨⟨r, w⟩, hperform, rfl⟩ := Option.map_eq_some_iff.mp hrest
  exact ⟨not_not.mp hat, r, hperform, rfl, fun _ ↦ rfl⟩

theorem AllStamped.next (h : s.AllStamped) {a : ClockedAct} (hnext : next a s = some s') :
    s'.AllStamped := by
  intro i timer' htimer'
  cases a with
  | pass ms =>
      obtain rfl := Option.some.inj hnext
      exact (h i timer' htimer').pass ms
  | step a =>
      obtain ⟨hat, r, hperform, hclock, hstamps⟩ := next_step hnext
      obtain ⟨timer, htimer, henabled, rfl⟩ := ApiWorld.exists_of_performTimer hperform htimer'
      rw [hclock, hstamps, ApiWorld.timer_of_getElem? htimer]
      exact (h i timer htimer).after henabled (uptime_of_change hat)

end ClockedWorld

/-- Timers in use over time, from the initialisation of the runtime at some uptime. -/
def clockedSystem (maxTimers maxSubscriptions : ℕ) : StepSystem ClockedWorld ClockedAct where
  init s := s.world = .initial maxTimers maxSubscriptions
  next := ClockedWorld.next

namespace ClockedWorld

variable {s s' : ClockedWorld} {maxTimers maxSubscriptions : ℕ}

theorem allStamped_of_reachable (h : (clockedSystem maxTimers maxSubscriptions).Reachable s) :
    s.AllStamped := by
  refine h.invariant ?_ fun a s s' hs _ hnext ↦ hs.next hnext
  intro s hinit i timer htimer
  rw [show s.world = .initial maxTimers maxSubscriptions from hinit] at htimer
  obtain rfl := List.eq_of_mem_replicate (List.mem_of_getElem? htimer)
  exact .of_not_running rfl

/-- `ocre_timer_get_remaining`, called by a module now. -/
def remaining (s : ClockedWorld) (module : ℕ) (id : Int) : Int :=
  s.world.timers.ocreTimerGetRemaining module id (coreUptimeGet s.clock)

/-- The stamp of the timer with an ID. -/
def stamp (s : ClockedWorld) (id : Int) : TimerStamp := s.stamps (id.toNat - 1)

/-- The step starts the timer of the slot again, or is its expiry. -/
def Restarts (i : ℕ) : ClockedAct → ClockedWorld → Prop
  | .pass _, _ => False
  | .step a, s => (s.world.change i (s.world.timer i) a).uptime.isSome = true

variable {module : ℕ} {id : Int}

theorem AllStamped.stamped (h : s.AllStamped) (howned : s.world.timers.owned module id = true) :
    Stamped s.clock (s.stamp id) (s.world.timers.slot id) :=
  h _ _ (TimerTable.getElem?_of_validId (TimerTable.owned_iff.mp howned).1)

theorem remaining_of_running (h : s.AllStamped)
    (howned : s.world.timers.owned module id = true)
    (hrunning : (s.world.timers.slot id).running = true)
    (hlt : s.clock < (s.stamp id).since + 2 ^ 32) :
    s.remaining module id =
      max 0 (((s.stamp id).interval : Int) - (s.clock - (s.stamp id).since)) := by
  have hstamped := h.stamped howned
  have hle := hstamped.since_le hrunning
  rw [remaining, TimerTable.ocreTimerGetRemaining, if_neg (not_not.mpr howned)]
  dsimp only
  rw [if_neg (not_not.mpr hrunning), hstamped.startTime hrunning, hstamped.interval hrunning,
    toNat_coreUptimeGet_sub hle hlt]
  split <;> omega

theorem remaining_nonneg (howned : s.world.timers.owned module id = true) :
    0 ≤ s.remaining module id := by
  rw [remaining, TimerTable.ocreTimerGetRemaining, if_neg (not_not.mpr howned)]
  dsimp only
  split_ifs <;> omega

theorem remaining_of_not_running (howned : s.world.timers.owned module id = true)
    (hrunning : (s.world.timers.slot id).running = false) : s.remaining module id = 0 := by
  rw [remaining, TimerTable.ocreTimerGetRemaining, if_neg (not_not.mpr howned)]
  simp [hrunning]

theorem next_of_not_restarts {i : ℕ} {a : ClockedAct} (ha : ¬ Restarts i a s)
    (hnext : next a s = some s') : s'.stamps i = s.stamps i ∧ s.clock ≤ s'.clock := by
  cases a with
  | pass ms =>
      obtain rfl := Option.some.inj hnext
      exact ⟨rfl, Nat.le_add_right ..⟩
  | step a =>
      obtain ⟨-, r, -, hclock, hstamps⟩ := next_step hnext
      refine ⟨?_, hclock.ge⟩
      rw [hstamps]
      unfold Restarts at ha
      cases hchange : s.world.change i (s.world.timer i) a <;>
        first | rfl | simp [hchange, SlotChange.uptime] at ha

/-- For every timer that is marked as running, less than one round of the clock after its
last start or periodic expiry, the remaining time is the interval less the time that has
passed, or zero. It lies between zero and the interval and does not grow until the timer
is started again or expires. An expiry is its handling by the callback, which may come late. -/
theorem remaining_of_reachable (h : (clockedSystem maxTimers maxSubscriptions).Reachable s)
    (howned : s.world.timers.owned module id = true)
    (hrunning : (s.world.timers.slot id).running = true)
    (hlt : s.clock < (s.stamp id).since + 2 ^ 32) :
    (s.stamp id).since ≤ s.clock ∧ 0 < (s.stamp id).interval ∧ (s.stamp id).interval ≤ 65535 ∧
      s.remaining module id =
        max 0 (((s.stamp id).interval : Int) - (s.clock - (s.stamp id).since)) ∧
      0 ≤ s.remaining module id ∧ s.remaining module id ≤ (s.stamp id).interval ∧
      ∀ as s', (clockedSystem maxTimers maxSubscriptions).RunMeets
          (fun a s ↦ ¬ Restarts (id.toNat - 1) a s) s as →
        (clockedSystem maxTimers maxSubscriptions).run s as = some s' →
        s'.world.timers.owned module id = true → s'.clock < (s.stamp id).since + 2 ^ 32 →
          s'.remaining module id ≤ s.remaining module id := by
  have hall := allStamped_of_reachable h
  have hstamped := hall.stamped howned
  have hle := hstamped.since_le hrunning
  have hremaining := remaining_of_running hall howned hrunning hlt
  have hnonneg := remaining_nonneg howned (s := s)
  refine ⟨hle, hstamped.pos hrunning, hstamped.le hrunning, hremaining, hnonneg, by omega, ?_⟩
  intro as s' hmeets hrun howned' hlt'
  have hkept : s'.stamps (id.toNat - 1) = s.stamps (id.toNat - 1) ∧ s.clock ≤ s'.clock := by
    refine hmeets.invariant (I := fun t ↦ t.stamps (id.toNat - 1) = s.stamps (id.toNat - 1) ∧
      s.clock ≤ t.clock) ?_ ⟨rfl, le_rfl⟩ hrun
    intro a t t' ⟨hstamp, hclock⟩ ha hnext
    obtain ⟨hstamp', hclock'⟩ := next_of_not_restarts ha hnext
    exact ⟨hstamp'.trans hstamp, hclock.trans hclock'⟩
  obtain ⟨hstamp, hclock⟩ := hkept
  cases hrunning' : (s'.world.timers.slot id).running with
  | false => exact (remaining_of_not_running howned' hrunning').trans_le hnonneg
  | true =>
      have hall' := allStamped_of_reachable (h.run hrun)
      have hsame : s'.stamp id = s.stamp id := hstamp
      rw [remaining_of_running hall' howned' hrunning' (hsame ▸ hlt'), hremaining, hsame]
      omega

/-- A timer of five seconds is started just before the clock wraps round. -/
def startedBeforeWrap : List ClockedAct :=
  [.step (.call 1 (.timerCreate 1 0)),
    .step (.call 1 (.timerStart 1 5000 0 (coreUptimeGet (2 ^ 32 - 1000)) 0)), .pass 3000]

theorem remaining_of_startedBeforeWrap :
    ∃ s, (clockedSystem 5 2).run ⟨.initial 5 2, 2 ^ 32 - 1000, fun _ ↦ ⟨0, 0⟩⟩
      startedBeforeWrap = some s ∧ s.clock = 2 ^ 32 + 2000 ∧ s.remaining 1 1 = 2000 := by
  refine ⟨_, rfl, rfl, ?_⟩
  have hrun : (clockedSystem 5 2).run ⟨.initial 5 2, 2 ^ 32 - 1000, fun _ ↦ ⟨0, 0⟩⟩
      startedBeforeWrap = some _ := rfl
  have hstart : (clockedSystem 5 2).Reachable ⟨.initial 5 2, 2 ^ 32 - 1000, fun _ ↦ ⟨0, 0⟩⟩ :=
    .start rfl
  exact (remaining_of_reachable (hstart.run hrun) (by decide) (by decide) (by decide)).2.2.2.1

end ClockedWorld

end OcreRuntime
