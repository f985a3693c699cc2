import OcreRuntime.OcreApi.TimerSlots

/-!
# Timers and their core timers

With the core timer calls succeeding and each expiry handled at once, a timer in use is
marked as running as long as its core timer is armed, and as periodic when that one is
armed again after an expiry. This is so in every run in which each start passes a value
for `is_periodic` of which the lowest bit says whether it is zero.
-/

namespace OcreRuntime

/-- The core timer is armed again when it expires. -/
def CoreTimer.rearms (timer : CoreTimer) : Bool := timer.expire.armed

/-- The timer says of itself what its core timer does. -/
structure OcreTimer.InStep (timer : OcreTimer) : Prop where
  running : timer.running = true ↔ timer.timer.armed = true
  periodic : timer.timer.armed = true →
    (timer.periodic = true ↔ timer.timer.rearms = true)

/-- A step with the core timer calls succeeding, and an expiry together with its callback. -/
inductive ExpiryAct
  | call (module : ℕ) (call : NativeCall)
  | cleanup (module : ℕ)
  | expiry (slot : ℕ) (uptime : UInt32)

def NativeCall.coreSucceeds : NativeCall → Bool
  | .timerCreate _ coreInit => coreInit = 0
  | .timerStart _ _ _ _ coreStart => coreStart = 0
  | _ => true

namespace ExpiryAct

def next (w : ApiWorld) : ExpiryAct → Option ApiWorld
  | .call module native =>
      if ¬ native.coreSucceeds then none else (w.performTimer (.call module native)).map Prod.snd
  | .cleanup module => (w.performTimer (.cleanup module)).map Prod.snd
  | .expiry slot uptime =>
      (w.performTimer (.expire slot)).bind fun r ↦
        (r.2.performTimer (.notify slot uptime)).map Prod.snd

/-- All timers in use are in step with their core timers, and one that has just been armed
again by an expiry has time remaining. -/
def KeepsStep (a : ExpiryAct) (_w w' : ApiWorld) : Prop :=
  (∀ timer ∈ w'.timers, timer.inUse = true → timer.InStep) ∧
    ∀ slot uptime, a = .expiry slot uptime → ∀ module id, w'.timers.owned module id = true →
      id.toNat - 1 = slot → (w'.timers.slot id).timer.armed = true →
        w'.timers.ocreTimerGetRemaining module id uptime ≠ 0

/-- A start that passes its checks has a value for `is_periodic` that is zero or odd. -/
def StartsPlainly (a : ExpiryAct) (w : ApiWorld) : Prop :=
  match a with
  | .call module (.timerStart id interval isPeriodic _ _) =>
      w.timers.owned module id = true → 0 < interval → interval ≤ 65535 →
        isPeriodic ≠ 0 → isPeriodic % 2 = 1
  | _ => True

instance (a : ExpiryAct) (w : ApiWorld) : Decidable (a.StartsPlainly w) :=
  match a with
  | .call module (.timerStart id interval isPeriodic _ _) =>
      inferInstanceAs (Decidable (w.timers.owned module id = true → 0 < interval →
        interval ≤ 65535 → isPeriodic ≠ 0 → isPeriodic % 2 = 1))
  | .call _ (.timerCreate _ _) | .call _ (.timerDelete _) | .call _ (.timerStop _)
  | .call _ (.timerGetRemaining _ _) | .call _ (.subscribe _) | .call _ (.publish _ _)
  | .call _ (.freeModuleEventData _ _ _) | .call _ (.getEvent _) | .cleanup _ | .expiry _ _ =>
      .isTrue trivial

end ExpiryAct

/-- A change by a call that meets the condition, or by a clean-up. -/
def SlotChange.Plain : SlotChange → Prop
  | .started _ _ isPeriodic _ => isPeriodic ≠ 0 → isPeriodic % 2 = 1
  | .notStarted _ _ _ | .expired | .fired _ => False
  | _ => True

/-- What holds of a slot in every conforming run. -/
structure OcreTimer.Kept (timer : OcreTimer) : Prop extends timer.InStep where
  inUse : timer.timer.armed = true → timer.inUse = true
  owner : timer.inUse = true → timer.owner.isSome = true
  interval : timer.timer.armed = true → 0 < timer.interval

namespace OcreTimer

variable {timer : OcreTimer} {change : SlotChange}

theorem Kept.of_not_armed (hrunning : timer.running = false) (harmed : timer.timer.armed = false)
    (howner : timer.inUse = true → timer.owner.isSome = true) : timer.Kept where
  running := by simp [hrunning, harmed]
  periodic h := by simp [harmed] at h
  inUse h := by simp [harmed] at h
  owner := howner
  interval h := by simp [harmed] at h

theorem Kept.idle (h : timer.Kept) (hused : timer.inUse = false) :
    timer.running = false ∧ timer.timer.armed = false := by
  have harmed : timer.timer.armed = false := by
    by_contra harmed
    simp [h.inUse (by simpa using harmed)] at hused
  refine ⟨?_, harmed⟩
  by_contra hrunning
  have := h.running.mp (by simpa using hrunning)
  simp [harmed] at this

/-- What a call or a clean-up makes of a slot. -/
theorem Kept.after (h : timer.Kept) (henabled : change.Enabled timer) (hplain : change.Plain) :
    (timer.after change).Kept := by
  cases change with
  | keep => exact h
  | created module id => exact .of_not_armed (h.idle henabled).1 rfl fun _ ↦ rfl
  | notCreated module id =>
      obtain ⟨hrunning, harmed⟩ := h.idle henabled
      exact .of_not_armed hrunning harmed fun h ↦ absurd h Bool.false_ne_true
  | started module interval isPeriodic uptime =>
      obtain ⟨hused, howner, hpos, -⟩ := henabled
      refine ⟨⟨iff_of_true rfl rfl, fun _ ↦ ?_⟩, fun _ ↦ hused, fun _ ↦ h.owner hused, fun _ ↦ hpos⟩
      simp only [OcreTimer.after, recorded, CoreTimer.rearms, CoreTimer.expire, decide_eq_true_eq]
      by_cases hzero : isPeriodic = 0
      · simp [hzero]
      · have hne : interval ≠ 0 := Nat.ne_of_gt hpos
        simp [hzero, hplain hzero, hne]
  | notStarted | expired | fired => exact hplain.elim
  | stopped => exact .of_not_armed rfl rfl h.owner
  | released => exact .of_not_armed rfl rfl fun h ↦ absurd h Bool.false_ne_true

/-- An expiry and its callback together keep the timer in step. -/
theorem Kept.expired_fired (h : timer.Kept) (harmed : timer.timer.armed = true)
    (uptime : UInt32) : ((timer.after .expired).after (.fired uptime)).Kept := by
  have hperiodic := h.periodic harmed
  have hused := h.inUse harmed
  unfold CoreTimer.rearms at hperiodic
  cases hbit : timer.periodic with
  | true =>
      have hrearms : timer.timer.expire.armed = true := hperiodic.mp hbit
      simp only [OcreTimer.after, fired, hbit, if_true]
      refine ⟨⟨iff_of_true (h.running.mpr harmed) hrearms, fun _ ↦ ?_⟩, fun _ ↦ hused, h.owner,
        fun _ ↦ h.interval harmed⟩
      exact iff_of_true rfl hrearms
  | false =>
      have hrearms : timer.timer.expire.armed = false := by
        by_contra hrearms
        simp [hperiodic.mpr (by simpa using hrearms)] at hbit
      simp only [OcreTimer.after, fired, hbit]
      exact .of_not_armed rfl hrearms h.owner

end OcreTimer

namespace ExpiryAct

variable {w w' : ApiWorld} {a : ExpiryAct} {module i : ℕ} {timer : OcreTimer}

theorem plain_callChange {native : NativeCall} (hsucceeds : native.coreSucceeds = true)
    (hplain : StartsPlainly (.call module native) w) (i : ℕ) :
    (w.callChange module i native).Plain := by
  cases native with
  | timerCreate | timerDelete | timerStop =>
      simp only [ApiWorld.callChange, TimerTable.createChange, TimerTable.deleteChange,
        TimerTable.stopChange]
      split_ifs <;> trivial
  | timerStart id interval isPeriodic uptime coreStart =>
      simp only [NativeCall.coreSucceeds, decide_eq_true_eq] at hsucceeds
      simp only [ApiWorld.callChange, TimerTable.startChange, hsucceeds, if_true]
      split_ifs with hkeep
      · trivial
      · simp only [not_or, not_not, not_le, gt_iff_lt, not_lt] at hkeep
        exact hplain hkeep.2.1 hkeep.2.2.1 hkeep.2.2.2
  | _ => trivial

theorem plain_cleanupChange (module : ℕ) (timer : OcreTimer) :
    (TimerTable.cleanupChange module timer).Plain := by
  unfold TimerTable.cleanupChange
  split_ifs <;> trivial

/-- The invariant of conforming runs. -/
structure AllKept (w : ApiWorld) : Prop where
  serves : ∃ l, w.events.Serves l
  kept : ∀ (i : ℕ) (timer : OcreTimer), w.timers[i]? = some timer → timer.Kept

/-- An expiry changes the timer of its slot twice, and no other one. -/
theorem exists_of_expiry (h : AllKept w) {slot : ℕ} {uptime : UInt32} {timer' : OcreTimer}
    (hnext : next w (.expiry slot uptime) = some w') (htimer' : w'.timers[i]? = some timer') :
    ∃ timer, w.timers[i]? = some timer ∧
      if i = slot then timer.timer.armed = true ∧
        timer' = (timer.after .expired).after (.fired uptime)
      else timer' = timer := by
  obtain ⟨l, hl⟩ := h.serves
  obtain ⟨⟨r, u⟩, hexpire, hrest⟩ := Option.bind_eq_some_iff.mp hnext
  obtain ⟨⟨r', v⟩, hnotify, rfl⟩ := Option.map_eq_some_iff.mp hrest
  obtain ⟨mid, hmid, -, rfl⟩ := ApiWorld.exists_of_performTimer hnotify htimer'
  obtain ⟨timer, htimer, henabled, rfl⟩ := ApiWorld.exists_of_performTimer hexpire hmid
  have hevents : u.events = w.events := by
    obtain ⟨old, -, rfl⟩ := ApiWorld.perform_expire hexpire
    rfl
  refine ⟨timer, htimer, ?_⟩
  by_cases hi : slot = i
  · subst hi
    have harmed : timer.timer.armed = true := by
      simpa [ApiWorld.change, SlotChange.Enabled] using henabled
    have hkept := h.kept slot timer htimer
    have hused := hkept.inUse harmed
    have hhandles : u.handles (timer.after .expired) = true := by
      simp [ApiWorld.handles, hevents, hl.timerSystemInitialized, hl.commonInitialized,
        hl.ocreEventQueueInitialized, OcreTimer.after, hused, hkept.owner hused]
    rw [if_pos rfl]
    refine ⟨harmed, ?_⟩
    simp only [ApiWorld.change, if_true, hhandles, and_self]
  · have hi' : i ≠ slot := fun heq ↦ hi heq.symm
    simp [ApiWorld.change, hi, hi', OcreTimer.after]

theorem AllKept.next (h : AllKept w) (hplain : a.StartsPlainly w) (hnext : a.next w = some w') :
    AllKept w' := by
  obtain ⟨l, hl⟩ := h.serves
  cases a with
  | call module native =>
      obtain ⟨hsucceeds, hrest⟩ := Option.ite_none_left_eq_some.mp hnext
      obtain ⟨⟨r, u⟩, hperform, rfl⟩ := Option.map_eq_some_iff.mp hrest
      refine ⟨ApiWorld.exists_serves_of_performTimer hl hperform, ?_⟩
      intro i timer' htimer'
      obtain ⟨timer, htimer, henabled, rfl⟩ := ApiWorld.exists_of_performTimer hperform htimer'
      exact (h.kept i timer htimer).after henabled
        (plain_callChange (not_not.mp hsucceeds) hplain i)
  | cleanup module =>
      have hmap : (w.performTimer (.cleanup module)).map Prod.snd = some w' := hnext
      obtain ⟨⟨r, u⟩, hperform, rfl⟩ := Option.map_eq_some_iff.mp hmap
      refine ⟨ApiWorld.exists_serves_of_performTimer hl hperform, ?_⟩
      intro i timer' htimer'
      obtain ⟨timer, htimer, henabled, rfl⟩ := ApiWorld.exists_of_performTimer hperform htimer'
      refine (h.kept i timer htimer).after henabled ?_
      rw [ApiWorld.change]
      split
      · exact plain_cleanupChange module timer
      · trivial
  | expiry slot uptime =>
      refine ⟨?_, ?_⟩
      · obtain ⟨⟨r, u⟩, hexpire, hrest⟩ := Option.bind_eq_some_iff.mp hnext
        obtain ⟨⟨r', v⟩, hnotify, rfl⟩ := Option.map_eq_some_iff.mp hrest
        obtain ⟨l', hl'⟩ := ApiWorld.exists_serves_of_performTimer hl hexpire
        exact ApiWorld.exists_serves_of_performTimer hl' hnotify
      · intro i timer' htimer'
        obtain ⟨timer, htimer, hchange⟩ := exists_of_expiry h hnext htimer'
        have hkept := h.kept i timer htimer
        split at hchange
        · obtain ⟨harmed, rfl⟩ := hchange
          exact hkept.expired_fired harmed uptime
        · exact hchange ▸ hkept

/-- A timer that an expiry arms again has its whole interval left. -/
theorem remaining_of_expiry (h : AllKept w) {slot : ℕ} {uptime : UInt32}
    (hnext : next w (.expiry slot uptime) = some w') (h' : AllKept w') {id : Int}
    (howned : w'.timers.owned module id = true) (hid : id.toNat - 1 = slot)
    (harmed : (w'.timers.slot id).timer.armed = true) :
    w'.timers.ocreTimerGetRemaining module id uptime ≠ 0 := by
  have htimer' := TimerTable.getElem?_of_validId (TimerTable.owned_iff.mp howned).1
  have hkept' := h'.kept _ _ htimer'
  obtain ⟨timer, htimer, hchange⟩ := exists_of_expiry h hnext htimer'
  rw [if_pos hid] at hchange
  obtain ⟨-, hafter⟩ := hchange
  have hrunning := hkept'.running.mpr harmed
  have hstart : (w'.timers.slot id).startTime = uptime := by
    rw [hafter] at hrunning ⊢
    cases hbit : timer.periodic with
    | true => simp [OcreTimer.after, OcreTimer.fired, hbit]
    | false => simp [OcreTimer.after, OcreTimer.fired, hbit] at hrunning
  have hpos := hkept'.interval harmed
  rw [TimerTable.ocreTimerGetRemaining, if_neg (not_not.mpr howned)]
  dsimp only
  rw [if_neg (not_not.mpr hrunning), hstart, UInt32.sub_self, UInt32.toNat_zero]
  split_ifs <;> omega

/-- A start that does not meet the condition leaves a timer whose core timer is armed again
although it is not marked as periodic. -/
theorem startsPlainly_of_keepsStep (hnext : a.next w = some w')
    (hkeeps : KeepsStep a w w') : a.StartsPlainly w := by
  cases a with
  | cleanup | expiry => trivial
  | call module native =>
      cases native with
      | timerStart id interval isPeriodic uptime coreStart =>
          intro howned hpos hle hne
          obtain ⟨hsucceeds, hrest⟩ := Option.ite_none_left_eq_some.mp hnext
          obtain ⟨⟨r, u⟩, hperform, rfl⟩ := Option.map_eq_some_iff.mp hrest
          have hstart : coreStart = 0 := by
            simpa [NativeCall.coreSucceeds] using hsucceeds
          have hvalid := (TimerTable.owned_iff.mp howned).1
          have htimer := TimerTable.getElem?_of_validId hvalid
          have hafter := ApiWorld.getElem?_of_performTimer hperform htimer
          have hslot : w.timers.isSlot id (id.toNat - 1) = true := by
            simp [TimerTable.isSlot, hvalid]
          have hchange : w.change (id.toNat - 1) (w.timers.slot id)
              (.call module (.timerStart id interval isPeriodic uptime coreStart)) =
                .started module interval.toNat isPeriodic uptime := by
            rw [ApiWorld.change, ApiWorld.callChange, TimerTable.startChange, if_neg, if_pos hstart]
            simp only [hslot, howned, not_true_eq_false, false_or, not_or, not_le, not_lt,
              gt_iff_lt]
            exact ⟨hpos, hle⟩
          rw [hchange] at hafter
          have hstep := hkeeps.1 _ (List.mem_of_getElem? hafter)
            (TimerTable.owned_iff.mp howned).2.1
          have hperiodic := hstep.periodic rfl
          have hms : interval.toNat ≠ 0 := by omega
          simpa [OcreTimer.after, OcreTimer.recorded, CoreTimer.rearms, CoreTimer.expire, hne,
            hms] using hperiodic
      | _ => trivial

theorem keepsStep_iff (h : AllKept w) (hnext : a.next w = some w') :
    KeepsStep a w w' ↔ a.StartsPlainly w := by
  refine ⟨startsPlainly_of_keepsStep hnext, fun hplain ↦ ?_⟩
  have h' := h.next hplain hnext
  refine ⟨?_, ?_⟩
  · intro timer hmem _
    obtain ⟨i, hi⟩ := List.mem_iff_getElem?.mp hmem
    exact (h'.kept i timer hi).toInStep
  · rintro slot uptime rfl module id howned hid harmed
    exact remaining_of_expiry h hnext h' howned hid harmed

end ExpiryAct

/-- Timers with every expiry handled at once. -/
def expirySystem (maxTimers maxSubscriptions : ℕ) : StepSystem ApiWorld ExpiryAct where
  init := (· = ApiWorld.initial maxTimers maxSubscriptions)
  next a w := a.next w

variable {maxTimers maxSubscriptions : ℕ}

theorem allKept_of_reachableWhere {w : ApiWorld}
    (h : (expirySystem maxTimers maxSubscriptions).ReachableWhere ExpiryAct.StartsPlainly w) :
    ExpiryAct.AllKept w := by
  refine h.invariant ?_ fun a w w' hw hplain hnext ↦ hw.next hplain hnext
  rintro w rfl
  refine ⟨(ApiWorld.Ready.initial maxTimers maxSubscriptions).serves, ?_⟩
  intro i timer htimer
  obtain rfl := List.eq_of_mem_replicate (List.mem_of_getElem? htimer)
  exact .of_not_armed rfl rfl nofun

/-- In a run timers stay in step with their core timers exactly if each start that passes
its checks has a value for `is_periodic` that is zero or odd. -/
theorem runKeeps_keepsStep_iff {as : List ExpiryAct} {w : ApiWorld}
    (hrun : (expirySystem maxTimers maxSubscriptions).run
      (.initial maxTimers maxSubscriptions) as = some w) :
    (expirySystem maxTimers maxSubscriptions).RunKeeps ExpiryAct.KeepsStep
        (.initial maxTimers maxSubscriptions) as ↔
      (expirySystem maxTimers maxSubscriptions).RunMeets ExpiryAct.StartsPlainly
        (.initial maxTimers maxSubscriptions) as := by
  apply StepSystem.ReachableWhere.runKeeps_iff_runMeets _ (.start rfl) hrun
  intro a w w' hw hnext
  exact ExpiryAct.keepsStep_iff (allKept_of_reachableWhere hw) hnext

/-- A periodic timer that expires, is stopped, and is started once more as a single one. -/
def periodicTimer : List ExpiryAct :=
  [.call 1 (.timerCreate 1 0), .call 1 (.timerStart 1 100 1 0 0), .expiry 0 100,
    .call 1 (.timerStop 1), .call 1 (.timerStart 1 50 0 120 0), .expiry 0 170,
    .call 1 (.timerDelete 1)]

theorem runKeeps_keepsStep_of_periodicTimer :
    (expirySystem 5 2).RunKeeps ExpiryAct.KeepsStep (.initial 5 2) periodicTimer := by
  obtain ⟨w, hrun⟩ : ∃ w, (expirySystem 5 2).run (.initial 5 2) periodicTimer = some w := ⟨_, rfl⟩
  exact (runKeeps_keepsStep_iff hrun).mpr (by decide)

/-- With 2 for `is_periodic` the core timer is armed again after the first expiry, and the
timer is marked as not running. -/
theorem not_runKeeps_keepsStep_of_even :
    ∃ w, (expirySystem 5 2).run (.initial 5 2)
        [.call 1 (.timerCreate 1 0), .call 1 (.timerStart 1 100 2 0 0), .expiry 0 100] = some w ∧
      (w.timers.slot 1).timer.armed = true ∧ (w.timers.slot 1).running = false ∧
      w.timers.ocreTimerGetRemaining 1 1 100 = 0 ∧
      ¬ (expirySystem 5 2).RunKeeps ExpiryAct.KeepsStep (.initial 5 2)
        [.call 1 (.timerCreate 1 0), .call 1 (.timerStart 1 100 2 0 0), .expiry 0 100] := by
  refine ⟨_, rfl, rfl, rfl, rfl, ?_⟩
  intro hkeeps
  have hlast := ((hkeeps _ rfl).2 _ rfl).2 _ rfl
  exact hlast.1.2 0 100 rfl 1 1 (by decide) rfl (by decide) (by decide)

end OcreRuntime
