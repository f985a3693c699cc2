import OcreRuntime.OcreApi.EventQueue

/-!
# The event API and its static objects

Producers put events for a module into one queue, and `ocre_get_event` hands the
oldest one to its owner. The queue and the flags around it are static objects: they
keep their values over `ocre_common_shutdown` unless it changes them.
-/

namespace OcreRuntime

/-- What `ocre_get_event` reads of an event, by its type. `other` is a type that it
does not know. -/
inductive OcreEventData
  | timer (timerId : UInt32)
  | gpio (pinId port state : UInt32)
  | sensor
  | messaging (messageId topicOffset contentTypeOffset payloadOffset payloadLen : UInt32)
  | other
  deriving DecidableEq

structure OcreEvent where
  data : OcreEventData
  owner : ℕ
  deriving DecidableEq

/-- The six words that `ocre_get_event` writes to the memory of the module. -/
structure EventWords where
  type : UInt32
  id : UInt32
  port : UInt32 := 0
  state : UInt32 := 0
  extra : UInt32 := 0
  payloadLen : UInt32 := 0
  deriving DecidableEq

/-- The `switch` over the type; a sensor event writes nothing. -/
def OcreEventData.words : OcreEventData → Except Int (Option EventWords)
  | timer timerId => .ok (some { type := 0, id := timerId })
  | gpio pinId port state => .ok (some { type := 1, id := pinId, port := port, state := state })
  | sensor => .ok none
  | messaging messageId topicOffset contentTypeOffset payloadOffset payloadLen =>
      .ok (some ⟨3, messageId, topicOffset, contentTypeOffset, payloadOffset, payloadLen⟩)
  | other => .error (-22)

def sizeOcreEventBuffer : ℕ := 32

/-- The static objects of `ocre_common.c`, `ocre_timer.c` and `ocre_messaging.c` that
decide about events. `initialized` is the static variable of `ocre_common_init`. -/
structure EventApi where
  ocreEventQueue : CoreEventq OcreEvent
  ocreEventQueueLock : LockState
  initialized : Bool
  commonInitialized : Bool
  ocreEventQueueInitialized : Bool
  timerSystemInitialized : Bool
  messagingSystemInitialized : Bool

/-- What a module or a producer does with the events. A timer is one in use, a pin is
one whose level could be read, and a message has been allocated in the memory of its
target. -/
inductive EventAct
  | timer (timerId : UInt32) (owner : ℕ)
  | gpio (pinId port state : UInt32) (owner : ℕ)
  | message (messageId topicOffset contentTypeOffset payloadOffset payloadLen : UInt32)
      (target : ℕ)
  | get (module : Option ℕ) (offsets : Bool)

inductive EventResult
  | queued (accepted : Bool)
  | got (result : Except Int (Option EventWords))

namespace EventApi

/-- At the start of the program. -/
def static : EventApi := ⟨.static, .zeroed, false, false, false, false, false⟩

/-- The purge loop, with one iteration for each event that can be there. -/
def purge : ℕ → CoreEventq OcreEvent → CoreEventq OcreEvent
  | 0, q => q
  | k + 1, q => match coreEventqGet q with
      | some (.ok _, q) => purge k q
      | _ => q

/-- `ocre_common_init`, which ignores what the initialisation of the queue returns. -/
def ocreCommonInit (malloc : Bool) (s : EventApi) : Int × EventApi :=
  if s.initialized then (0, s)
  else
    let q := (coreEventqInit malloc sizeOcreEventBuffer s.ocreEventQueue).2
    (0, { s with
      ocreEventQueue := purge q.count q
      ocreEventQueueLock := .ready
      ocreEventQueueInitialized := true
      initialized := true
      commonInitialized := true })

def ocreCommonShutdown (s : EventApi) : EventApi :=
  { s with
    ocreEventQueue := coreEventqDestroy s.ocreEventQueue
    commonInitialized := false }

def ocreTimerInit (s : EventApi) : EventApi := { s with timerSystemInitialized := true }

def put (event : OcreEvent) (s : EventApi) : Option (Bool × EventApi) :=
  (coreEventqPut event s.ocreEventQueue).map fun r ↦
    (r.1 = 0, { s with ocreEventQueue := r.2 })

/-- `unified_timer_callback` for a timer in use. -/
def unifiedTimerCallback (timerId : UInt32) (owner : ℕ) (s : EventApi) :
    Option (Bool × EventApi) :=
  if ¬ s.timerSystemInitialized ∨ ¬ s.commonInitialized ∨ ¬ s.ocreEventQueueInitialized then
    some (false, s)
  else s.put ⟨.timer timerId, owner⟩

def ocreGetEvent (module : Option ℕ) (offsets : Bool) (s : EventApi) :
    Option (Except Int (Option EventWords) × EventApi) :=
  match module with
  | none => some (.error (-22), s)
  | some module =>
      if ¬ offsets then some (.error (-22), s)
      else match coreEventqPeek s.ocreEventQueue with
        | none => none
        | some (.error _) => some (.error (-42), s)
        | some (.ok event) =>
            if event.owner ≠ module then some (.error (-1), s)
            else match coreEventqGet s.ocreEventQueue with
              | none => none
              | some (.error _, q) => some (.error (-2), { s with ocreEventQueue := q })
              | some (.ok event, q) => some (event.data.words, { s with ocreEventQueue := q })

/-- One act; none if it is undefined. A publish initialises messaging when needed. -/
def perform (a : EventAct) (s : EventApi) : Option (EventResult × EventApi) :=
  match a with
  | .timer timerId owner =>
      (s.unifiedTimerCallback timerId owner).map fun r ↦ (.queued r.1, r.2)
  | .gpio pinId port state owner =>
      (s.put ⟨.gpio pinId port state, owner⟩).map fun r ↦ (.queued r.1, r.2)
  | .message messageId topicOffset contentTypeOffset payloadOffset payloadLen target =>
      let s := { s with messagingSystemInitialized := true }
      (s.put ⟨.messaging messageId topicOffset contentTypeOffset payloadOffset payloadLen,
        target⟩).map fun r ↦ (.queued r.1, r.2)
  | .get module offsets => (s.ocreGetEvent module offsets).map fun r ↦ (.got r.1, r.2)

/-- The results of a list of acts, if all are defined. -/
def observe (s : EventApi) : List EventAct → Option (List EventResult)
  | [] => some []
  | a :: as => (s.perform a).bind fun r ↦ (r.2.observe as).map (r.1 :: ·)

end EventApi

section Fifo

/-- The purpose of the event API: a list of at most `capacity` events, of which the
first is handed to its owner. -/
def fifoPut (capacity : ℕ) (event : OcreEvent) (l : List OcreEvent) :
    Bool × List OcreEvent :=
  if l.length < capacity then (true, l ++ [event]) else (false, l)

def fifoGet (module : ℕ) (l : List OcreEvent) :
    Except Int (Option EventWords) × List OcreEvent :=
  match l with
  | [] => (.error (-42), [])
  | event :: l => if event.owner ≠ module then (.error (-1), event :: l) else (event.data.words, l)

def fifoPerform (capacity : ℕ) (a : EventAct) (l : List OcreEvent) :
    EventResult × List OcreEvent :=
  match a with
  | .timer timerId owner =>
      let r := fifoPut capacity ⟨.timer timerId, owner⟩ l
      (.queued r.1, r.2)
  | .gpio pinId port state owner =>
      let r := fifoPut capacity ⟨.gpio pinId port state, owner⟩ l
      (.queued r.1, r.2)
  | .message messageId topicOffset contentTypeOffset payloadOffset payloadLen target =>
      let r := fifoPut capacity
        ⟨.messaging messageId topicOffset contentTypeOffset payloadOffset payloadLen, target⟩ l
      (.queued r.1, r.2)
  | .get (some module) true => let r := fifoGet module l; (.got r.1, r.2)
  | .get _ _ => (.got (.error (-22)), l)

def fifoObserve (capacity : ℕ) (l : List OcreEvent) : List EventAct → List EventResult
  | [] => []
  | a :: as =>
      let r := fifoPerform capacity a l
      r.1 :: fifoObserve capacity r.2 as

end Fifo

namespace EventApi

variable {s s' : EventApi} {l : List OcreEvent}

/-- What the events keep: the static variable, and whether there is a buffer. -/
def Same (s s' : EventApi) : Prop :=
  s'.initialized = s.initialized ∧
    (s'.ocreEventQueue.buffer = none ↔ s.ocreEventQueue.buffer = none)

theorem same_of_put {event : OcreEvent} {accepted : Bool}
    (h : s.put event = some (accepted, s')) : Same s s' := by
  obtain ⟨⟨rc, q⟩, hput, heq⟩ := Option.map_eq_some_iff.mp h
  cases heq
  exact ⟨rfl, buffer_of_coreEventqPut hput⟩

/-- `ocre_get_event` refuses and leaves the state, or takes the first event from the queue. -/
theorem ocreGetEvent_cases {module : Option ℕ} {offsets : Bool}
    {result : Except Int (Option EventWords)}
    (h : s.ocreGetEvent module offsets = some (result, s')) :
    (∃ code, result = .error code) ∧ s' = s ∨
      ∃ taken q, coreEventqGet s.ocreEventQueue = some (taken, q) ∧
        s' = { s with ocreEventQueue := q } := by
  cases module with
  | none =>
      obtain ⟨rfl, rfl⟩ := Prod.mk.inj (Option.some.inj h)
      exact .inl ⟨⟨_, rfl⟩, rfl⟩
  | some module =>
      unfold ocreGetEvent at h
      dsimp only at h
      split at h
      · obtain ⟨rfl, rfl⟩ := Prod.mk.inj (Option.some.inj h)
        exact .inl ⟨⟨_, rfl⟩, rfl⟩
      split at h
      · cases h
      · obtain ⟨rfl, rfl⟩ := Prod.mk.inj (Option.some.inj h)
        exact .inl ⟨⟨_, rfl⟩, rfl⟩
      split at h
      · obtain ⟨rfl, rfl⟩ := Prod.mk.inj (Option.some.inj h)
        exact .inl ⟨⟨_, rfl⟩, rfl⟩
      split at h
      · cases h
      next q hget =>
        exact .inr ⟨_, q, hget, (Prod.mk.inj (Option.some.inj h)).2.symm⟩
      next q hget =>
        exact .inr ⟨_, q, hget, (Prod.mk.inj (Option.some.inj h)).2.symm⟩

theorem same_of_ocreGetEvent {module : Option ℕ} {offsets : Bool}
    {result : Except Int (Option EventWords)}
    (h : s.ocreGetEvent module offsets = some (result, s')) : Same s s' := by
  rcases ocreGetEvent_cases h with ⟨-, rfl⟩ | ⟨taken, q, hget, rfl⟩
  · exact ⟨rfl, Iff.rfl⟩
  · exact ⟨rfl, by rw [buffer_of_coreEventqGet hget]⟩

theorem same_of_perform {a : EventAct} {r : EventResult} (h : s.perform a = some (r, s')) :
    Same s s' := by
  cases a with
  | timer timerId owner =>
      obtain ⟨⟨accepted, t⟩, htimer, heq⟩ := Option.map_eq_some_iff.mp h
      cases heq
      unfold unifiedTimerCallback at htimer
      split at htimer
      · cases htimer
        exact ⟨rfl, Iff.rfl⟩
      · exact same_of_put htimer
  | gpio pinId port state owner =>
      obtain ⟨⟨accepted, t⟩, hput, heq⟩ := Option.map_eq_some_iff.mp h
      cases heq
      exact same_of_put hput
  | message messageId topicOffset contentTypeOffset payloadOffset payloadLen target =>
      obtain ⟨⟨accepted, t⟩, hput, heq⟩ := Option.map_eq_some_iff.mp h
      cases heq
      exact same_of_put (s := { s with messagingSystemInitialized := true }) hput
  | get module offsets =>
      obtain ⟨⟨result, t⟩, hget, heq⟩ := Option.map_eq_some_iff.mp h
      cases heq
      exact same_of_ocreGetEvent hget

/-- The event API is in use, with the events in `l` pending. -/
structure Serves (s : EventApi) (l : List OcreEvent) : Prop where
  holds : s.ocreEventQueue.Holds l
  maxItems : s.ocreEventQueue.maxItems = sizeOcreEventBuffer
  commonInitialized : s.commonInitialized = true
  ocreEventQueueInitialized : s.ocreEventQueueInitialized = true
  timerSystemInitialized : s.timerSystemInitialized = true

namespace Serves

theorem put (h : s.Serves l) (event : OcreEvent) :
    ∃ s', s.put event = some ((fifoPut sizeOcreEventBuffer event l).1, s') ∧
      s'.Serves (fifoPut sizeOcreEventBuffer event l).2 := by
  by_cases hlt : l.length < sizeOcreEventBuffer
  · obtain ⟨q, hput, hmax, hq⟩ := h.holds.put_of_lt (h.maxItems.symm ▸ hlt) event
    refine ⟨{ s with ocreEventQueue := q }, by simp [EventApi.put, hput, fifoPut, hlt], ?_⟩
    simp only [fifoPut, hlt, if_true]
    exact ⟨hq, hmax.trans h.maxItems, h.commonInitialized, h.ocreEventQueueInitialized,
      h.timerSystemInitialized⟩
  · have hput := h.holds.put_of_full (by rw [h.maxItems]; exact Nat.le_of_not_lt hlt) event
    refine ⟨s, by simp [EventApi.put, hput, fifoPut, hlt], ?_⟩
    simpa only [fifoPut, hlt, if_false] using h

theorem ocreGetEvent_nil (h : s.Serves []) (module : ℕ) :
    s.ocreGetEvent (some module) true = some (.error (-42), s) := by
  simp [EventApi.ocreGetEvent, h.holds.peek_nil]

theorem ocreGetEvent_of_ne {event : OcreEvent} (h : s.Serves (event :: l)) {module : ℕ}
    (howner : event.owner ≠ module) :
    s.ocreGetEvent (some module) true = some (.error (-1), s) := by
  simp [EventApi.ocreGetEvent, h.holds.peek_cons, howner]

theorem ocreGetEvent_of_eq {event : OcreEvent} (h : s.Serves (event :: l)) {module : ℕ}
    (howner : event.owner = module) :
    ∃ s', s.ocreGetEvent (some module) true = some (event.data.words, s') ∧ s'.Serves l := by
  obtain ⟨q, hget, hmax, hq⟩ := h.holds.get_cons
  refine ⟨{ s with ocreEventQueue := q }, ?_, ?_⟩
  · simp [EventApi.ocreGetEvent, h.holds.peek_cons, hget, howner]
  · exact ⟨hq, hmax.trans h.maxItems, h.commonInitialized, h.ocreEventQueueInitialized,
      h.timerSystemInitialized⟩

theorem ocreGetEvent (h : s.Serves l) (module : ℕ) :
    ∃ s', s.ocreGetEvent (some module) true = some ((fifoGet module l).1, s') ∧
      s'.Serves (fifoGet module l).2 := by
  cases l with
  | nil => exact ⟨s, h.ocreGetEvent_nil module, h⟩
  | cons event l =>
      by_cases howner : event.owner = module
      · simpa [fifoGet, howner] using h.ocreGetEvent_of_eq howner
      · exact ⟨s, by simpa [fifoGet, howner] using h.ocreGetEvent_of_ne howner,
          by simpa [fifoGet, howner] using h⟩

/-- An act on an event API in use is the act on the list of pending events. -/
theorem perform (h : s.Serves l) (a : EventAct) :
    ∃ s', s.perform a = some ((fifoPerform sizeOcreEventBuffer a l).1, s') ∧
      s'.Serves (fifoPerform sizeOcreEventBuffer a l).2 := by
  cases a with
  | timer timerId owner =>
      obtain ⟨s', hput, hs'⟩ := h.put ⟨.timer timerId, owner⟩
      refine ⟨s', ?_, hs'⟩
      simp [EventApi.perform, unifiedTimerCallback, h.timerSystemInitialized,
        h.commonInitialized, h.ocreEventQueueInitialized, hput, fifoPerform]
  | gpio pinId port state owner =>
      obtain ⟨s', hput, hs'⟩ := h.put ⟨.gpio pinId port state, owner⟩
      exact ⟨s', by simp [EventApi.perform, hput, fifoPerform], hs'⟩
  | message messageId topicOffset contentTypeOffset payloadOffset payloadLen target =>
      have hs : { s with messagingSystemInitialized := true }.Serves l :=
        ⟨h.holds, h.maxItems, h.commonInitialized, h.ocreEventQueueInitialized,
          h.timerSystemInitialized⟩
      obtain ⟨s', hput, hs'⟩ := hs.put
        ⟨.messaging messageId topicOffset contentTypeOffset payloadOffset payloadLen, target⟩
      exact ⟨s', by simp [EventApi.perform, hput, fifoPerform], hs'⟩
  | get module offsets =>
      cases module with
      | none => exact ⟨s, rfl, h⟩
      | some module =>
          cases offsets with
          | false => exact ⟨s, rfl, h⟩
          | true =>
              obtain ⟨s', hget, hs'⟩ := h.ocreGetEvent module
              exact ⟨s', by simp [EventApi.perform, hget, fifoPerform], hs'⟩

theorem observe (h : s.Serves l) (as : List EventAct) :
    s.observe as = some (fifoObserve sizeOcreEventBuffer l as) := by
  induction as generalizing s l with
  | nil => rfl
  | cons a as ih =>
      obtain ⟨s', hperform, hs'⟩ := h.perform a
      simp [EventApi.observe, hperform, ih hs', fifoObserve]

end Serves

theorem purge_of_holds_nil {q : CoreEventq OcreEvent} (h : q.Holds []) (k : ℕ) :
    purge k q = q := by
  cases k with
  | zero => rfl
  | succ k => simp [purge, h.get_nil]

theorem serves_ocreCommonInit (h : s.initialized = false) :
    (ocreCommonInit true s).2.ocreTimerInit.Serves [] := by
  have hholds := coreEventqInit_holds (by decide : 0 < sizeOcreEventBuffer) s.ocreEventQueue
  refine ⟨?_, ?_, ?_, ?_, rfl⟩ <;>
    simp [ocreCommonInit, h, ocreTimerInit, purge_of_holds_nil hholds, hholds]
  simp [coreEventqInit]

/-- The event API after the first initialisation of the program. -/
def initial : EventApi := (ocreCommonInit true static).2.ocreTimerInit

theorem initial_serves : initial.Serves [] := serves_ocreCommonInit rfl

end EventApi

end OcreRuntime
