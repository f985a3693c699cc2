import OcreRuntime.OcreApi.TimerSlots

/-!
# Late expiries and the owners of timers

An expiry that has been dispatched may be handled after its timer was stopped or deleted,
and the callback finds the timer by its slot only. A run records who created the timer of
a slot and in which creation it was armed, and every notification in flight carries the
arming that it comes from. The event that it queues belongs to that arming as long as no
timer is created in a slot with a notification in flight.
-/

namespace OcreRuntime

/-- What has happened to a slot: the number of creations, who made the last one, and who
armed the timer last and in which creation. -/
structure SlotHistory where
  creations : ℕ := 0
  createdBy : ℕ := 0
  armedBy : ℕ := 0
  armedIn : ℕ := 0

def SlotHistory.after (history : SlotHistory) : SlotChange → SlotHistory
  | .created module _ =>
      { history with creations := history.creations + 1, createdBy := module }
  | .started module _ _ _ =>
      { history with armedBy := module, armedIn := history.creations }
  | _ => history

/-- A dispatched expiry of an arming of the timer in a slot. -/
structure Notification where
  slot : ℕ
  armedBy : ℕ
  armedIn : ℕ
  deriving DecidableEq

structure FlightWorld where
  world : ApiWorld
  histories : ℕ → SlotHistory
  inFlight : List Notification

inductive FlightAct
  | call (module : ℕ) (native : NativeCall)
  | cleanup (module : ℕ)
  | expire (slot : ℕ)
  | handle (notification : Notification) (uptime : UInt32)

def FlightAct.timerAct : FlightAct → TimerAct
  | .call module native => .call module native
  | .cleanup module => .cleanup module
  | .expire slot => .expire slot
  | .handle notification uptime => .notify notification.slot uptime

namespace FlightWorld

/-- An expiry adds a notification, and its callback takes one. -/
def inFlightAfter (s : FlightWorld) : FlightAct → Option (List Notification)
  | .expire slot =>
      some (s.inFlight ++ [⟨slot, (s.histories slot).armedBy, (s.histories slot).armedIn⟩])
  | .handle notification _ =>
      if notification ∈ s.inFlight then some (s.inFlight.erase notification) else none
  | _ => some s.inFlight

def next (a : FlightAct) (s : FlightWorld) : Option FlightWorld :=
  (s.inFlightAfter a).bind fun inFlight ↦
    (s.world.performTimer a.timerAct).map fun r ↦
      { world := r.2
        histories := fun i ↦
          (s.histories i).after (s.world.change i (s.world.timer i) a.timerAct)
        inFlight := inFlight }

/-- The events that the handling of a notification puts into the queue carry the ID of its
timer, and their owner created that timer last and then asked for the arming that has
expired. -/
def EventsOwned (a : FlightAct) (s _s' : FlightWorld) : Prop :=
  ∀ notification uptime, a = .handle notification uptime →
    ∀ r w', s.world.performTimer a.timerAct = some (r, w') → ∀ event ∈ r.queued,
      event.data = .timer ((notification.slot + 1) % 256).toUInt32 ∧
        event.owner = (s.histories notification.slot).createdBy ∧
        event.owner = notification.armedBy ∧
        notification.armedIn = (s.histories notification.slot).creations

/-- No timer is created in a slot with a notification in flight. -/
def CreatesLanded (a : FlightAct) (s : FlightWorld) : Prop :=
  match a with
  | .call _ (.timerCreate id coreInit) =>
      s.world.timers.validId id = true → (s.world.timers.slot id).inUse = false → coreInit = 0 →
        ∀ notification ∈ s.inFlight, notification.slot ≠ id.toNat - 1
  | _ => True

instance (a : FlightAct) (s : FlightWorld) : Decidable (CreatesLanded a s) :=
  match a with
  | .call _ (.timerCreate id coreInit) =>
      inferInstanceAs (Decidable (s.world.timers.validId id = true →
        (s.world.timers.slot id).inUse = false → coreInit = 0 →
          ∀ notification ∈ s.inFlight, notification.slot ≠ id.toNat - 1))
  | .call _ (.timerDelete _) | .call _ (.timerStart _ _ _ _ _) | .call _ (.timerStop _)
  | .call _ (.timerGetRemaining _ _) | .call _ (.subscribe _) | .call _ (.publish _ _)
  | .call _ (.freeModuleEventData _ _ _) | .call _ (.getEvent _) | .cleanup _ | .expire _
  | .handle _ _ => .isTrue trivial

/-- What the history of a slot says about its timer. -/
structure Follows (history : SlotHistory) (i : ℕ) (timer : OcreTimer) : Prop where
  owner : timer.inUse = true → timer.owner = some history.createdBy
  id : timer.inUse = true → timer.id = (i + 1) % 256
  inUse : timer.timer.armed = true → timer.inUse = true
  armedBy : timer.timer.armed = true → history.armedBy = history.createdBy
  armedIn : timer.timer.armed = true → history.armedIn = history.creations

variable {history : SlotHistory} {i : ℕ} {timer : OcreTimer} {change : SlotChange}

theorem Follows.not_armed (h : Follows history i timer) (hused : timer.inUse = false) :
    timer.timer.armed = false := by
  by_contra harmed
  simp [h.inUse (by simpa using harmed)] at hused

theorem Follows.after (h : Follows history i timer) (henabled : change.Enabled timer)
    (hid : ∀ module id, change = .created module id → id = (i + 1) % 256) :
    Follows (history.after change) i (timer.after change) := by
  cases change with
  | keep => exact h
  | created module id => exact ⟨fun _ ↦ rfl, fun _ ↦ hid module id rfl, nofun, nofun, nofun⟩
  | notCreated module id =>
      have harmed : ¬ timer.timer.armed = true := by simp [h.not_armed henabled]
      exact ⟨nofun, nofun, fun h ↦ absurd h harmed, fun h ↦ absurd h harmed,
        fun h ↦ absurd h harmed⟩
  | started module interval isPeriodic uptime =>
      obtain ⟨hused, howner, -⟩ := henabled
      have hmodule : module = history.createdBy :=
        Option.some.inj (howner.symm.trans (h.owner hused))
      exact ⟨h.owner, h.id, fun _ ↦ hused, fun _ ↦ hmodule, fun _ ↦ rfl⟩
  | notStarted interval isPeriodic uptime => exact ⟨h.owner, h.id, h.inUse, h.armedBy, h.armedIn⟩
  | stopped => exact ⟨h.owner, h.id, nofun, nofun, nofun⟩
  | released => exact ⟨nofun, nofun, nofun, nofun, nofun⟩
  | expired =>
      exact ⟨h.owner, h.id, fun _ ↦ h.inUse henabled, fun _ ↦ h.armedBy henabled,
        fun _ ↦ h.armedIn henabled⟩
  | fired uptime =>
      simp only [OcreTimer.after, OcreTimer.fired]
      split <;> exact ⟨h.owner, h.id, h.inUse, h.armedBy, h.armedIn⟩

/-- The invariant of conforming runs. -/
structure Landed (s : FlightWorld) : Prop where
  serves : ∃ l, s.world.events.Serves l
  follows : ∀ (i : ℕ) (timer : OcreTimer), s.world.timers[i]? = some timer →
    Follows (s.histories i) i timer
  slot : ∀ notification ∈ s.inFlight, notification.slot < s.world.timers.length
  armedBy : ∀ notification ∈ s.inFlight,
    notification.armedBy = (s.histories notification.slot).createdBy
  armedIn : ∀ notification ∈ s.inFlight,
    notification.armedIn = (s.histories notification.slot).creations

variable {s s' : FlightWorld} {a : FlightAct}

theorem exists_of_next (h : next a s = some s') :
    ∃ r, s.inFlightAfter a = some s'.inFlight ∧
      s.world.performTimer a.timerAct = some (r, s'.world) ∧
      ∀ i, s'.histories i =
        (s.histories i).after (s.world.change i (s.world.timer i) a.timerAct) := by
  obtain ⟨inFlight, hflight, hrest⟩ := Option.bind_eq_some_iff.mp h
  obtain ⟨⟨r, w⟩, hperform, rfl⟩ := Option.map_eq_some_iff.mp hrest
  exact ⟨r, hflight, hperform, fun _ ↦ rfl⟩

theorem toNat_of_isSlot {timers : TimerTable} {id : Int} (h : timers.isSlot id i = true) :
    id.toNat = i + 1 := by
  simp only [TimerTable.isSlot, TimerTable.validId, decide_eq_true_eq] at h
  omega

/-- A step that meets the condition leaves the creation of a slot with a notification in
flight as it is. -/
theorem histories_of_inFlight (ha : CreatesLanded a s) (hnext : next a s = some s')
    {notification : Notification} (hmem : notification ∈ s.inFlight)
    (hslot : s.world.timers[notification.slot]? = some timer) :
    (s'.histories notification.slot).creations = (s.histories notification.slot).creations ∧
      (s'.histories notification.slot).createdBy = (s.histories notification.slot).createdBy := by
  obtain ⟨r, -, -, hhistories⟩ := exists_of_next hnext
  rw [hhistories, ApiWorld.timer_of_getElem? hslot]
  cases hchange : s.world.change notification.slot timer a.timerAct with
  | created module id =>
      exfalso
      obtain ⟨id', coreInit, hact, hisSlot, hused, hinit, -⟩ :=
        ApiWorld.exists_of_change_created hslot hchange
      cases a with
      | call caller native =>
          cases hact
          have hvalid : s.world.timers.validId id' = true := by
            simp only [TimerTable.isSlot, decide_eq_true_eq] at hisSlot
            exact hisSlot.1
          have hsame := TimerTable.slot_of_isSlot hisSlot hslot
          have hne := ha hvalid (hsame ▸ hused) hinit notification hmem
          rw [toNat_of_isSlot hisSlot] at hne
          omega
      | _ => cases hact
  | _ => exact ⟨rfl, rfl⟩

theorem Landed.next (h : s.Landed) (ha : CreatesLanded a s) (hnext : next a s = some s') :
    s'.Landed := by
  obtain ⟨l, hl⟩ := h.serves
  obtain ⟨r, hflight, hperform, hhistories⟩ := exists_of_next hnext
  have hlength := ApiWorld.length_of_performTimer hperform
  -- what is still in flight was there before, or has just been dispatched
  have hmem : ∀ notification ∈ s'.inFlight, notification ∈ s.inFlight ∨
      ∃ slot, a = .expire slot ∧
        notification = ⟨slot, (s.histories slot).armedBy, (s.histories slot).armedIn⟩ := by
    intro notification hnotification
    cases a with
    | call | cleanup =>
        obtain heq := Option.some.inj hflight
        exact .inl (heq ▸ hnotification)
    | expire slot =>
        rw [← Option.some.inj hflight] at hnotification
        rcases List.mem_append.mp hnotification with hold | hnew
        · exact .inl hold
        · exact .inr ⟨slot, rfl, List.mem_singleton.mp hnew⟩
    | handle handled uptime =>
        obtain ⟨-, heq⟩ := Option.ite_none_right_eq_some.mp hflight
        exact .inl (List.mem_of_mem_erase (Option.some.inj heq ▸ hnotification))
  have hexpired : ∀ slot, a = .expire slot → slot < s.world.timers.length ∧
      (s.histories slot).armedBy = (s'.histories slot).createdBy ∧
      (s.histories slot).armedIn = (s'.histories slot).creations := by
    rintro slot rfl
    obtain ⟨timer, htimer, -⟩ := ApiWorld.perform_expire hperform
    have harmed := ApiWorld.enabled_change hperform htimer
    have hchange : s.world.change slot timer (.expire slot) = .expired := if_pos rfl
    have hfollows := h.follows slot timer htimer
    rw [FlightAct.timerAct, hchange] at harmed
    rw [hhistories, ApiWorld.timer_of_getElem? htimer, FlightAct.timerAct, hchange]
    exact ⟨(List.getElem?_eq_some_iff.mp htimer).1, hfollows.armedBy harmed,
      hfollows.armedIn harmed⟩
  refine ⟨ApiWorld.exists_serves_of_performTimer hl hperform, ?_, ?_, ?_, ?_⟩
  · intro i timer' htimer'
    obtain ⟨timer, htimer, henabled, rfl⟩ := ApiWorld.exists_of_performTimer hperform htimer'
    rw [hhistories, ApiWorld.timer_of_getElem? htimer]
    refine (h.follows i timer htimer).after henabled ?_
    intro module id hchange
    obtain ⟨id', coreInit, -, hslot, -, -, rfl⟩ :=
      ApiWorld.exists_of_change_created htimer hchange
    rw [toNat_of_isSlot hslot]
  · intro notification hnotification
    rw [hlength]
    rcases hmem notification hnotification with hold | ⟨slot, hexpire, rfl⟩
    · exact h.slot notification hold
    · exact (hexpired slot hexpire).1
  · intro notification hnotification
    rcases hmem notification hnotification with hold | ⟨slot, hexpire, rfl⟩
    · have hslot := List.getElem?_eq_getElem (h.slot notification hold)
      exact (h.armedBy notification hold).trans (histories_of_inFlight ha hnext hold hslot).2.symm
    · exact (hexpired slot hexpire).2.1
  · intro notification hnotification
    rcases hmem notification hnotification with hold | ⟨slot, hexpire, rfl⟩
    · have hslot := List.getElem?_eq_getElem (h.slot notification hold)
      exact (h.armedIn notification hold).trans (histories_of_inFlight ha hnext hold hslot).1.symm
    · exact (hexpired slot hexpire).2.2

theorem Landed.eventsOwned (h : s.Landed) (hnext : FlightWorld.next a s = some s') :
    EventsOwned a s s' := by
  rintro notification uptime rfl r w' hperform event hevent
  obtain ⟨l, hl⟩ := h.serves
  obtain ⟨-, hflight, -⟩ := exists_of_next hnext
  obtain ⟨hmem, -⟩ := Option.ite_none_right_eq_some.mp hflight
  obtain ⟨-, -, -, -, -, hqueued, -⟩ := ApiWorld.perform_notify hl hperform
  have hevents : event ∈ (s.world.timer notification.slot).events := by
    rw [hqueued] at hevent
    split at hevent
    · exact hevent
    · cases hevent
  have hslot := List.getElem?_eq_getElem (h.slot notification hmem)
  have hfollows := h.follows _ _ hslot
  rw [ApiWorld.timer_of_getElem? hslot, OcreTimer.events] at hevents
  split at hevents
  next hused =>
    rw [hfollows.owner hused, Option.toList_some, List.map_singleton, List.mem_singleton] at hevents
    subst hevents
    have hby := h.armedBy notification hmem
    exact ⟨by rw [OcreTimer.event, hfollows.id hused], rfl, hby.symm, h.armedIn notification hmem⟩
  next => cases hevents

end FlightWorld

/-- Timers with expiries that are handled late. -/
def flightSystem (maxTimers maxSubscriptions : ℕ) : StepSystem FlightWorld FlightAct where
  init := (· = ⟨.initial maxTimers maxSubscriptions, fun _ ↦ {}, []⟩)
  next := FlightWorld.next

namespace FlightWorld

variable {s : FlightWorld} {maxTimers maxSubscriptions : ℕ}

theorem landed_of_reachableWhere
    (h : (flightSystem maxTimers maxSubscriptions).ReachableWhere CreatesLanded s) : s.Landed := by
  refine h.invariant ?_ fun a s s' hs ha hnext ↦ hs.next ha hnext
  rintro s rfl
  refine ⟨(ApiWorld.Ready.initial maxTimers maxSubscriptions).serves, ?_, nofun, nofun, nofun⟩
  intro i timer htimer
  obtain rfl := List.eq_of_mem_replicate (List.mem_of_getElem? htimer)
  exact ⟨nofun, nofun, nofun, nofun, nofun⟩

/-- In every run that creates no timer in a slot with a notification in flight, an event is
queued for an owner only for an expiry of an arming that this owner asked for after its own
creation of the timer. -/
theorem runKeeps_eventsOwned {as : List FlightAct}
    (hmeets : (flightSystem maxTimers maxSubscriptions).RunMeets CreatesLanded
      ⟨.initial maxTimers maxSubscriptions, fun _ ↦ {}, []⟩ as) :
    (flightSystem maxTimers maxSubscriptions).RunKeeps EventsOwned
      ⟨.initial maxTimers maxSubscriptions, fun _ ↦ {}, []⟩ as := by
  refine StepSystem.ReachableWhere.runKeeps ?_ (.start rfl) hmeets
  intro a s s' hs _ hnext
  exact (landed_of_reachableWhere hs).eventsOwned hnext

/-- Module 1 deletes its timer with an expiry in flight, which finds the slot free, and
module 2 creates the timer after that. -/
def handledBeforeCreation : List FlightAct :=
  [.call 1 (.timerCreate 1 0), .call 1 (.timerStart 1 10 0 0 0), .expire 0,
    .call 1 (.timerDelete 1), .handle ⟨0, 1, 1⟩ 12, .call 2 (.timerCreate 1 0),
    .call 2 (.timerStart 1 10 0 20 0), .expire 0, .handle ⟨0, 2, 2⟩ 30]

theorem runKeeps_eventsOwned_of_handledBeforeCreation :
    (flightSystem 5 2).RunKeeps EventsOwned ⟨.initial 5 2, fun _ ↦ {}, []⟩
      handledBeforeCreation :=
  runKeeps_eventsOwned (by decide)

/-- The expiry of module 1 is handled after module 2 has created the timer. -/
def handledAfterCreation : List FlightAct :=
  [.call 1 (.timerCreate 1 0), .call 1 (.timerStart 1 10 0 0 0), .expire 0,
    .call 1 (.timerDelete 1), .call 2 (.timerCreate 1 0), .handle ⟨0, 1, 1⟩ 12]

/-- It puts an event for module 2 into the queue, which has not started any timer. -/
theorem not_runKeeps_eventsOwned_of_handledAfterCreation :
    ((flightSystem 5 2).run ⟨.initial 5 2, fun _ ↦ {}, []⟩ handledAfterCreation).isSome ∧
      ¬ (flightSystem 5 2).RunKeeps EventsOwned ⟨.initial 5 2, fun _ ↦ {}, []⟩
        handledAfterCreation := by
  refine ⟨by decide, fun hkeeps ↦ ?_⟩
  have hlast := ((((hkeeps _ rfl).2 _ rfl).2 _ rfl).2 _ rfl).2 _ rfl |>.2 _ rfl
  have howner := (hlast.1 ⟨0, 1, 1⟩ 12 rfl _ _ rfl ⟨.timer 1, 2⟩ (by decide)).2.2.1
  exact absurd howner (by decide)

end FlightWorld

end OcreRuntime
