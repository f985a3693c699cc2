import OcreRuntime.OcreApi.Isolation

/-!
# The timers slot by slot

Every call on the timer table, the clean-up, an expiry and its callback change each slot
by itself. What can happen to a slot is listed once, with what holds before it, and the
steps on the table are reduced to that.
-/

namespace OcreRuntime

/-- What a step does to the timer of a slot. A start carries the interval, the argument
`is_periodic` and the uptime. -/
inductive SlotChange
  | keep
  | created (module id : ℕ)
  | notCreated (module id : ℕ)
  | started (module interval : ℕ) (isPeriodic : Int) (uptime : UInt32)
  | notStarted (interval : ℕ) (isPeriodic : Int) (uptime : UInt32)
  | stopped
  | released
  | expired
  | fired (uptime : UInt32)
  deriving DecidableEq

namespace OcreTimer

/-- What `ocre_timer_start` records before it starts the core timer. -/
def recorded (timer : OcreTimer) (interval : ℕ) (isPeriodic : Int) (uptime : UInt32) :
    OcreTimer :=
  { timer with interval := interval, periodic := isPeriodic % 2 = 1, startTime := uptime }

def after (timer : OcreTimer) : SlotChange → OcreTimer
  | .keep => timer
  | .created module id =>
      { timer with id := id, owner := some module, inUse := true, timer := ⟨true, false, 0⟩ }
  | .notCreated module id => { timer with id := id, owner := some module, inUse := false }
  | .started _ interval isPeriodic uptime =>
      { timer.recorded interval isPeriodic uptime with
        running := true
        timer := { timer.timer with
          armed := true, periodMs := if isPeriodic ≠ 0 then interval else 0 } }
  | .notStarted interval isPeriodic uptime =>
      { timer.recorded interval isPeriodic uptime with running := false }
  | .stopped => { timer with timer := timer.timer.stop, running := false }
  | .released => timer.released
  | .expired => { timer with timer := timer.timer.expire }
  | .fired uptime => timer.fired uptime

end OcreTimer

/-- What holds of the timer before the change. -/
def SlotChange.Enabled (timer : OcreTimer) : SlotChange → Prop
  | .keep => True
  | .created _ _ | .notCreated _ _ => timer.inUse = false
  | .started module interval _ _ =>
      timer.inUse = true ∧ timer.owner = some module ∧ 0 < interval ∧ interval ≤ 65535
  | .notStarted _ _ _ | .stopped | .released => timer.inUse = true
  | .expired => timer.timer.armed = true
  | .fired _ => timer.inUse = true ∧ timer.owner.isSome = true

namespace TimerTable

variable (timers : TimerTable) (module : ℕ) (id : Int) (i : ℕ)

/-- The slot of the ID, after its range check. -/
def isSlot : Bool := timers.validId id ∧ id.toNat - 1 = i

def createChange (coreInit : Int) : SlotChange :=
  if ¬ timers.isSlot id i ∨ (timers.slot id).inUse then .keep
  else if coreInit = 0 then .created module (id.toNat % 256)
  else .notCreated module (id.toNat % 256)

def deleteChange : SlotChange :=
  if timers.isSlot id i ∧ timers.owned module id then .released else .keep

def startChange (interval isPeriodic : Int) (uptime : UInt32) (coreStart : Int) : SlotChange :=
  if ¬ timers.isSlot id i ∨ ¬ timers.owned module id ∨ interval ≤ 0 ∨ interval > 65535 then .keep
  else if coreStart = 0 then .started module interval.toNat isPeriodic uptime
  else .notStarted interval.toNat isPeriodic uptime

def stopChange : SlotChange :=
  if timers.isSlot id i ∧ timers.owned module id then .stopped else .keep

def cleanupChange (timer : OcreTimer) : SlotChange :=
  if timer.inUse ∧ timer.owner = some module then .released else .keep

variable {timers module id i} {timer : OcreTimer}

theorem getElem?_store (hvalid : timers.validId id = true) (new : OcreTimer) :
    (timers.store id new)[i]? =
      timers[i]?.map fun timer ↦ if timers.isSlot id i then new else timer := by
  by_cases hi : id.toNat - 1 = i
  · subst hi
    have hslot := getElem?_of_validId hvalid
    have hlt := (List.getElem?_eq_some_iff.mp hslot).1
    rw [store, List.getElem?_set_self hlt, hslot]
    simp [isSlot, hvalid]
  · rw [store, List.getElem?_set_ne hi]
    simp [isSlot, hi]

theorem slot_of_isSlot (h : timers.isSlot id i = true) (htimer : timers[i]? = some timer) :
    timers.slot id = timer := by
  obtain ⟨hvalid, rfl⟩ : timers.validId id = true ∧ id.toNat - 1 = i := by
    simpa [isSlot] using h
  rw [getElem?_of_validId hvalid] at htimer
  exact Option.some.inj htimer

theorem getElem?_store_of_isSlot (h : timers.isSlot id i = true)
    (htimer : timers[i]? = some timer) (new : OcreTimer) :
    (timers.store id new)[i]? = some new := by
  have hvalid : timers.validId id = true := by
    rw [isSlot, decide_eq_true_eq] at h
    exact h.1
  simp [getElem?_store hvalid, htimer, h]

theorem getElem?_store_of_not (h : ¬ timers.isSlot id i = true) (hvalid : timers.validId id = true)
    (new : OcreTimer) : (timers.store id new)[i]? = timers[i]? := by
  simp [getElem?_store hvalid, h]

theorem getElem?_ocreTimerCreate (htimer : timers[i]? = some timer) (coreInit : Int) :
    (timers.ocreTimerCreate module id coreInit).2[i]? =
      some (timer.after (timers.createChange module id i coreInit)) := by
  unfold TimerTable.ocreTimerCreate createChange
  by_cases hvalid : timers.validId id = true
  swap
  · simp [hvalid, isSlot, htimer, OcreTimer.after]
  by_cases hslot : timers.isSlot id i = true
  · have hsame := slot_of_isSlot hslot htimer
    have hstore := getElem?_store_of_isSlot hslot htimer
    cases hused : timer.inUse with
    | true => simp [hvalid, hslot, hsame, hused, htimer, OcreTimer.after]
    | false =>
        by_cases hinit : coreInit = 0
        · simp [hvalid, hslot, hsame, hused, hinit, hstore, OcreTimer.after]
        · simp [hvalid, hslot, hsame, hused, hinit, hstore, OcreTimer.after]
  · have hstore := getElem?_store_of_not hslot hvalid
    simp only [hvalid, hslot, not_true_eq_false, if_false]
    split
    · exact htimer
    split
    · exact (hstore _).trans htimer
    · exact (hstore _).trans htimer

theorem getElem?_ocreTimerDelete (htimer : timers[i]? = some timer) :
    (timers.ocreTimerDelete module id).2[i]? =
      some (timer.after (timers.deleteChange module id i)) := by
  unfold TimerTable.ocreTimerDelete deleteChange
  by_cases howned : timers.owned module id = true
  swap
  · simp [howned, htimer, OcreTimer.after]
  by_cases hslot : timers.isSlot id i = true
  · simp [howned, hslot, getElem?_store_of_isSlot hslot htimer, slot_of_isSlot hslot htimer,
      OcreTimer.after]
  · simp [howned, hslot, getElem?_store_of_not hslot (owned_iff.mp howned).1, htimer,
      OcreTimer.after]

theorem getElem?_ocreTimerStart (htimer : timers[i]? = some timer) (interval isPeriodic : Int)
    (uptime : UInt32) (coreStart : Int) :
    (timers.ocreTimerStart module id interval isPeriodic uptime coreStart).2[i]? =
      some (timer.after (timers.startChange module id i interval isPeriodic uptime coreStart)) := by
  unfold TimerTable.ocreTimerStart startChange
  by_cases howned : timers.owned module id = true
  swap
  · simp [howned, htimer, OcreTimer.after]
  by_cases hinterval : interval ≤ 0 ∨ interval > 65535
  · simp [howned, hinterval, htimer, OcreTimer.after]
  by_cases hslot : timers.isSlot id i = true
  · have hsame := slot_of_isSlot hslot htimer
    have hstore := getElem?_store_of_isSlot hslot htimer
    have hmod : interval.toNat % 65536 = interval.toNat := Nat.mod_eq_of_lt (by omega)
    by_cases hstart : coreStart = 0
    · simp [howned, hinterval, hslot, hstart, hsame, hstore, hmod, OcreTimer.after,
        OcreTimer.recorded]
    · simp [howned, hinterval, hslot, hstart, hsame, hstore, hmod, OcreTimer.after,
        OcreTimer.recorded]
  · have hstore := getElem?_store_of_not hslot (owned_iff.mp howned).1
    simp only [howned, hinterval, hslot, not_true_eq_false, if_false]
    split
    · exact (hstore _).trans htimer
    · exact (hstore _).trans htimer

theorem getElem?_ocreTimerStop (htimer : timers[i]? = some timer) :
    (timers.ocreTimerStop module id).2[i]? =
      some (timer.after (timers.stopChange module id i)) := by
  unfold TimerTable.ocreTimerStop stopChange
  by_cases howned : timers.owned module id = true
  swap
  · simp [howned, htimer, OcreTimer.after]
  by_cases hslot : timers.isSlot id i = true
  · simp [howned, hslot, getElem?_store_of_isSlot hslot htimer, slot_of_isSlot hslot htimer,
      OcreTimer.after]
  · simp [howned, hslot, getElem?_store_of_not hslot (owned_iff.mp howned).1, htimer,
      OcreTimer.after]

theorem getElem?_ocreTimerCleanupContainer (htimer : timers[i]? = some timer) :
    (timers.ocreTimerCleanupContainer module)[i]? =
      some (timer.after (cleanupChange module timer)) := by
  rw [TimerTable.ocreTimerCleanupContainer, List.getElem?_map, htimer, cleanupChange]
  by_cases hheld : timer.inUse = true ∧ timer.owner = some module
  · simp [hheld, OcreTimer.after]
  · simp only [hheld, Option.map_some, if_false, OcreTimer.after]

section Length

variable (timers module id)

@[simp] theorem length_store (new : OcreTimer) : (timers.store id new).length = timers.length :=
  List.length_set ..

@[simp] theorem length_ocreTimerCreate (coreInit : Int) :
    (timers.ocreTimerCreate module id coreInit).2.length = timers.length := by
  unfold TimerTable.ocreTimerCreate
  dsimp only
  split_ifs <;> simp

@[simp] theorem length_ocreTimerDelete :
    (timers.ocreTimerDelete module id).2.length = timers.length := by
  unfold TimerTable.ocreTimerDelete
  split_ifs <;> simp

@[simp] theorem length_ocreTimerStart (interval isPeriodic : Int) (uptime : UInt32)
    (coreStart : Int) :
    (timers.ocreTimerStart module id interval isPeriodic uptime coreStart).2.length =
      timers.length := by
  unfold TimerTable.ocreTimerStart
  dsimp only
  split_ifs <;> simp

@[simp] theorem length_ocreTimerStop :
    (timers.ocreTimerStop module id).2.length = timers.length := by
  unfold TimerTable.ocreTimerStop
  split_ifs <;> simp

@[simp] theorem length_ocreTimerCleanupContainer :
    (timers.ocreTimerCleanupContainer module).length = timers.length :=
  List.length_map _

end Length

/-- A change is made only where its conditions hold. -/
theorem enabled_createChange (htimer : timers[i]? = some timer) (coreInit : Int) :
    (timers.createChange module id i coreInit).Enabled timer := by
  unfold createChange
  split_ifs with hkeep hinit
  · trivial
  all_goals
    obtain ⟨hslot, hused⟩ := not_or.mp hkeep
    rw [slot_of_isSlot (not_not.mp hslot) htimer] at hused
    simpa [SlotChange.Enabled] using hused

theorem of_owned (hslot : timers.isSlot id i = true) (howned : timers.owned module id = true)
    (htimer : timers[i]? = some timer) : timer.inUse = true ∧ timer.owner = some module := by
  rw [← slot_of_isSlot hslot htimer]
  exact (owned_iff.mp howned).2

theorem enabled_deleteChange (htimer : timers[i]? = some timer) :
    (timers.deleteChange module id i).Enabled timer := by
  unfold deleteChange
  split_ifs with h
  · exact (of_owned h.1 h.2 htimer).1
  · trivial

theorem enabled_startChange (htimer : timers[i]? = some timer) (interval isPeriodic : Int)
    (uptime : UInt32) (coreStart : Int) :
    (timers.startChange module id i interval isPeriodic uptime coreStart).Enabled timer := by
  unfold startChange
  split_ifs with hkeep hstart
  · trivial
  all_goals
    simp only [not_or, not_not, not_le, gt_iff_lt, not_lt] at hkeep
    obtain ⟨hslot, howned, hpos, hle⟩ := hkeep
    obtain ⟨hused, howner⟩ := of_owned hslot howned htimer
  · exact ⟨hused, howner, by omega, by omega⟩
  · exact hused

theorem enabled_stopChange (htimer : timers[i]? = some timer) :
    (timers.stopChange module id i).Enabled timer := by
  unfold stopChange
  split_ifs with h
  · exact (of_owned h.1 h.2 htimer).1
  · trivial

theorem enabled_cleanupChange (timer : OcreTimer) : (cleanupChange module timer).Enabled timer := by
  unfold cleanupChange
  split_ifs with h
  · exact h.1
  · trivial

end TimerTable

/-- The steps that concern timers: a call of a native by a module, the clean-up handler for
timers, an expiry that is dispatched, and the callback that handles it. -/
inductive TimerAct
  | call (module : ℕ) (call : NativeCall)
  | cleanup (module : ℕ)
  | expire (slot : ℕ)
  | notify (slot : ℕ) (uptime : UInt32)

namespace ApiWorld

variable {w w' : ApiWorld} {r : NativeResult}

def performTimer (w : ApiWorld) : TimerAct → Option (NativeResult × ApiWorld)
  | .call module call => w.call module call
  | .cleanup module => some ({ ret := 0 }, w.cleanupHandler module .timer)
  | .expire slot => w.perform (.expire slot)
  | .notify slot uptime => w.perform (.notify slot uptime)

/-- `unified_timer_callback` does not skip the timer. -/
def handles (w : ApiWorld) (timer : OcreTimer) : Bool :=
  w.events.timerSystemInitialized ∧ w.events.commonInitialized ∧
    w.events.ocreEventQueueInitialized ∧ timer.inUse ∧ timer.owner.isSome

def callChange (w : ApiWorld) (module i : ℕ) : NativeCall → SlotChange
  | .timerCreate id coreInit => w.timers.createChange module id i coreInit
  | .timerDelete id => w.timers.deleteChange module id i
  | .timerStart id interval isPeriodic uptime coreStart =>
      w.timers.startChange module id i interval isPeriodic uptime coreStart
  | .timerStop id => w.timers.stopChange module id i
  | _ => .keep

/-- What a step does to the timer of a slot. -/
def change (w : ApiWorld) (i : ℕ) (timer : OcreTimer) : TimerAct → SlotChange
  | .call module call => w.callChange module i call
  | .cleanup module =>
      if w.events.timerSystemInitialized then TimerTable.cleanupChange module timer else .keep
  | .expire slot => if slot = i then .expired else .keep
  | .notify slot uptime => if slot = i ∧ w.handles timer then .fired uptime else .keep

variable {module i : ℕ} {timer : OcreTimer}

theorem timer_of_getElem? (h : w.timers[i]? = some timer) : w.timer i = timer := by
  rw [ApiWorld.timer, h, Option.getD_some]

theorem getElem?_of_call {call : NativeCall} (h : w.call module call = some (r, w'))
    (htimer : w.timers[i]? = some timer) :
    w'.timers[i]? = some (timer.after (w.callChange module i call)) := by
  cases call with
  | timerCreate id coreInit =>
      obtain ⟨-, rfl⟩ := Prod.mk.inj (Option.some.inj h)
      exact TimerTable.getElem?_ocreTimerCreate htimer coreInit
  | timerDelete id =>
      obtain ⟨-, rfl⟩ := Prod.mk.inj (Option.some.inj h)
      exact TimerTable.getElem?_ocreTimerDelete htimer
  | timerStart id interval isPeriodic uptime coreStart =>
      obtain ⟨-, rfl⟩ := Prod.mk.inj (Option.some.inj h)
      exact TimerTable.getElem?_ocreTimerStart htimer interval isPeriodic uptime coreStart
  | timerStop id =>
      obtain ⟨-, rfl⟩ := Prod.mk.inj (Option.some.inj h)
      exact TimerTable.getElem?_ocreTimerStop htimer
  | timerGetRemaining | freeModuleEventData =>
      obtain ⟨-, rfl⟩ := Prod.mk.inj (Option.some.inj h)
      exact htimer
  | subscribe topic =>
      obtain ⟨-, rfl⟩ := Prod.mk.inj (Option.some.inj h)
      have hsame := timers_subscribe w.ocreMessagingInit module (topic.getD [])
      exact (hsame.trans (timers_ocreMessagingInit w)).symm ▸ htimer
  | publish args offsets =>
      obtain ⟨hsame, -⟩ := frame_of_publish h
      exact (hsame.trans (timers_ocreMessagingInit w)).symm ▸ htimer
  | getEvent offsets =>
      obtain ⟨got, -, heq⟩ := Option.map_eq_some_iff.mp h
      obtain ⟨-, rfl⟩ := Prod.mk.inj heq
      exact htimer

theorem timers_of_unifiedTimerCallback {slot : ℕ} {uptime : UInt32} {queued : List OcreEvent}
    (h : w.unifiedTimerCallback slot uptime = some (queued, w')) :
    w'.timers = if w.handles (w.timer slot) then w.timers.set slot ((w.timer slot).fired uptime)
      else w.timers := by
  unfold unifiedTimerCallback at h
  dsimp only at h
  split_ifs at h with hskip
  · cases h
    rw [if_neg]
    simp only [handles, decide_eq_true_eq]
    tauto
  · simp only [not_or, not_not] at hskip
    obtain ⟨htimer, hcommon, hqueue, hused⟩ := hskip
    cases howner : (w.timer slot).owner with
    | none =>
        rw [howner] at h
        cases h
        rw [if_neg (by simp [handles, howner])]
    | some owner =>
        rw [howner] at h
        obtain ⟨put, -, heq⟩ := Option.map_eq_some_iff.mp h
        cases heq
        rw [if_pos (by simp [handles, howner, htimer, hcommon, hqueue, hused])]

/-- A step on the table makes each slot what the slot's own change makes of it. -/
theorem getElem?_of_performTimer {a : TimerAct} (h : w.performTimer a = some (r, w'))
    (htimer : w.timers[i]? = some timer) :
    w'.timers[i]? = some (timer.after (w.change i timer a)) := by
  cases a with
  | call module call => exact getElem?_of_call h htimer
  | cleanup module =>
      obtain ⟨-, rfl⟩ := Prod.mk.inj (Option.some.inj h)
      cases hinit : w.events.timerSystemInitialized with
      | false => simp [cleanupHandler, change, hinit, htimer, OcreTimer.after]
      | true =>
          simpa [cleanupHandler, change, hinit] using
            TimerTable.getElem?_ocreTimerCleanupContainer htimer
  | expire slot =>
      obtain ⟨old, hold, rfl⟩ := perform_expire h
      rw [change]
      split_ifs with hslot
      · subst hslot
        obtain rfl := Option.some.inj (hold.symm.trans htimer)
        exact List.getElem?_set_self (List.getElem?_eq_some_iff.mp htimer).1
      · exact (List.getElem?_set_ne hslot).trans htimer
  | notify slot uptime =>
      obtain ⟨-, hrest⟩ := Option.ite_none_left_eq_some.mp h
      obtain ⟨⟨queued, other⟩, hother, heq⟩ := Option.map_eq_some_iff.mp hrest
      cases heq
      have htimers := timers_of_unifiedTimerCallback hother
      change other.timers = if w.handles (w.timer slot) then
        w.timers.set slot ((w.timer slot).fired uptime) else w.timers at htimers
      rw [htimers, change]
      by_cases hslot : slot = i
      · subst hslot
        rw [timer_of_getElem? htimer]
        split_ifs with hhandles
        · exact List.getElem?_set_self (List.getElem?_eq_some_iff.mp htimer).1
        · tauto
        · tauto
        · exact htimer
      · rw [if_neg (c := slot = i ∧ _) fun hboth ↦ hslot hboth.1]
        split_ifs
        · exact (List.getElem?_set_ne hslot).trans htimer
        · exact htimer

theorem length_of_call {call : NativeCall} (h : w.call module call = some (r, w')) :
    w'.timers.length = w.timers.length := by
  cases call with
  | timerCreate | timerDelete | timerStart | timerStop =>
      obtain ⟨-, rfl⟩ := Prod.mk.inj (Option.some.inj h)
      simp [ocreTimerCreate, ocreTimerDelete]
  | timerGetRemaining | freeModuleEventData =>
      obtain ⟨-, rfl⟩ := Prod.mk.inj (Option.some.inj h)
      rfl
  | subscribe topic =>
      obtain ⟨-, rfl⟩ := Prod.mk.inj (Option.some.inj h)
      have hsame := timers_subscribe w.ocreMessagingInit module (topic.getD [])
      exact congrArg List.length (hsame.trans (timers_ocreMessagingInit w))
  | publish args offsets =>
      obtain ⟨hsame, -⟩ := frame_of_publish h
      exact congrArg List.length (hsame.trans (timers_ocreMessagingInit w))
  | getEvent offsets =>
      obtain ⟨got, -, heq⟩ := Option.map_eq_some_iff.mp h
      obtain ⟨-, rfl⟩ := Prod.mk.inj heq
      rfl

theorem length_of_performTimer {a : TimerAct} (h : w.performTimer a = some (r, w')) :
    w'.timers.length = w.timers.length := by
  cases a with
  | call module call => exact length_of_call h
  | cleanup module =>
      obtain ⟨-, rfl⟩ := Prod.mk.inj (Option.some.inj h)
      rw [cleanupHandler]
      split_ifs <;> simp
  | expire slot =>
      obtain ⟨old, -, rfl⟩ := perform_expire h
      exact List.length_set ..
  | notify slot uptime =>
      obtain ⟨-, hrest⟩ := Option.ite_none_left_eq_some.mp h
      obtain ⟨⟨queued, other⟩, hother, heq⟩ := Option.map_eq_some_iff.mp hrest
      cases heq
      rw [timers_of_unifiedTimerCallback hother]
      split_ifs <;> simp

theorem enabled_change {a : TimerAct} (h : w.performTimer a = some (r, w'))
    (htimer : w.timers[i]? = some timer) : (w.change i timer a).Enabled timer := by
  cases a with
  | call module call =>
      cases call with
      | timerCreate id coreInit => exact TimerTable.enabled_createChange htimer coreInit
      | timerDelete id => exact TimerTable.enabled_deleteChange htimer
      | timerStart id interval isPeriodic uptime coreStart =>
          exact TimerTable.enabled_startChange htimer interval isPeriodic uptime coreStart
      | timerStop id => exact TimerTable.enabled_stopChange htimer
      | _ => trivial
  | cleanup module =>
      rw [change]
      split
      · exact TimerTable.enabled_cleanupChange timer
      · trivial
  | expire slot =>
      rw [change]
      split
      next hslot =>
        subst hslot
        obtain ⟨old, hold, hrest⟩ := Option.bind_eq_some_iff.mp h
        obtain ⟨harmed, -⟩ := Option.ite_none_left_eq_some.mp hrest
        obtain rfl := Option.some.inj (hold.symm.trans htimer)
        exact not_not.mp harmed
      next => trivial
  | notify slot uptime =>
      rw [change]
      split
      next hboth =>
        have hhandles := hboth.2
        simp only [handles, decide_eq_true_eq] at hhandles
        exact hhandles.2.2.2
      next => trivial

/-- The timer that a step has left in a slot comes from the one before it. -/
theorem exists_of_performTimer {a : TimerAct} {timer' : OcreTimer}
    (h : w.performTimer a = some (r, w')) (htimer' : w'.timers[i]? = some timer') :
    ∃ timer, w.timers[i]? = some timer ∧ (w.change i timer a).Enabled timer ∧
      timer' = timer.after (w.change i timer a) := by
  have hlt := (List.getElem?_eq_some_iff.mp htimer').1
  rw [length_of_performTimer h] at hlt
  have htimer := List.getElem?_eq_getElem hlt
  have hafter := getElem?_of_performTimer h htimer
  exact ⟨_, htimer, enabled_change h htimer, Option.some.inj (htimer'.symm.trans hafter)⟩

/-- A timer is created by a call that finds its slot free and the core timer available. -/
theorem exists_of_change_created {a : TimerAct} {id : ℕ}
    (htimer : w.timers[i]? = some timer) (h : w.change i timer a = .created module id) :
    ∃ id' coreInit, a = .call module (.timerCreate id' coreInit) ∧
      w.timers.isSlot id' i = true ∧ timer.inUse = false ∧ coreInit = 0 ∧
      id = id'.toNat % 256 := by
  cases a with
  | call caller native =>
      cases native with
      | timerCreate id' coreInit =>
          simp only [change, callChange, TimerTable.createChange] at h
          split_ifs at h with hkeep hinit
          obtain ⟨hslot, hused⟩ := not_or.mp hkeep
          rw [TimerTable.slot_of_isSlot (not_not.mp hslot) htimer] at hused
          cases h
          exact ⟨id', coreInit, rfl, not_not.mp hslot, by simpa using hused, hinit, rfl⟩
      | timerDelete | timerStart | timerStop =>
          simp only [change, callChange, TimerTable.deleteChange, TimerTable.startChange,
            TimerTable.stopChange] at h
          split_ifs at h
      | timerGetRemaining | subscribe | publish | freeModuleEventData | getEvent => cases h
  | cleanup caller =>
      simp only [change, TimerTable.cleanupChange] at h
      split_ifs at h
  | expire | notify =>
      simp only [change] at h
      split_ifs at h

/-- The queue is there after every step. -/
theorem exists_serves_of_performTimer {l : List OcreEvent} (hl : w.events.Serves l)
    {a : TimerAct} (h : w.performTimer a = some (r, w')) : ∃ l', w'.events.Serves l' := by
  cases a with
  | call module call => exact exists_serves_of_call hl h
  | cleanup module =>
      obtain ⟨-, rfl⟩ := Prod.mk.inj (Option.some.inj h)
      exact ⟨l, (events_cleanupHandler w module .timer).symm ▸ hl⟩
  | expire slot =>
      obtain ⟨old, -, rfl⟩ := perform_expire h
      exact ⟨l, hl⟩
  | notify slot uptime =>
      obtain ⟨events, timers, rfl, -, -, -, hserves⟩ := perform_notify hl h
      exact ⟨_, hserves⟩

end ApiWorld

end OcreRuntime
