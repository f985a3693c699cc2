import OcreRuntime.Lib.StepSystem
import OcreRuntime.OcreApi.Events

/-!
# Delivery of events to their owners

Timers, pins and publishers put events into the queue while modules take them out, in
any order. For each module, the events that the queue has accepted are those that it has
handed over followed by those that are pending. A module gets its oldest event when no
other event stands before it in the queue.
-/

namespace OcreRuntime

/-- The event API in use, from its initialisation on. -/
def eventSystem : StepSystem EventApi EventAct where
  init s := s.Serves []
  next a s := (s.perform a).map Prod.snd

def EventAct.event : EventAct → Option OcreEvent
  | timer timerId owner => some ⟨.timer timerId, owner⟩
  | gpio pinId port state owner => some ⟨.gpio pinId port state, owner⟩
  | message messageId topicOffset contentTypeOffset payloadOffset payloadLen target =>
      some ⟨.messaging messageId topicOffset contentTypeOffset payloadOffset payloadLen, target⟩
  | get .. => none

structure EventStep where
  act : EventAct
  result : Option EventResult

namespace EventStep

def of (a : EventAct) (s : EventApi) : EventStep := ⟨a, (s.perform a).map Prod.fst⟩

/-- The event that `core_eventq_put` has accepted, if it has this owner. -/
def accepted (owner : ℕ) (e : EventStep) : Option OcreEvent :=
  match e.act.event, e.result with
  | some event, some (.queued true) => if event.owner = owner then some event else none
  | _, _ => none

/-- What a call by the module that returns 0 has written. -/
def handed (module : ℕ) (e : EventStep) : Option (Option EventWords) :=
  match e.act, e.result with
  | .get (some caller) _, some (.got (.ok words)) =>
      if caller = module then some words else none
  | _, _ => none

end EventStep

def acceptedFor (owner : ℕ) (history : List EventStep) : List OcreEvent :=
  history.filterMap (EventStep.accepted owner)

def handedTo (module : ℕ) (history : List EventStep) : List (Option EventWords) :=
  history.filterMap (EventStep.handed module)

def pendingFor (owner : ℕ) (l : List OcreEvent) : List OcreEvent :=
  l.filter (·.owner = owner)

/-- All producers make events of a type that `ocre_get_event` knows. -/
def AllKnown (l : List OcreEvent) : Prop :=
  ∀ event ∈ l, ∃ words, event.data.words = .ok words

theorem acceptedFor_cons (owner : ℕ) (e : EventStep) (history : List EventStep) :
    acceptedFor owner (e :: history) = (e.accepted owner).toList ++ acceptedFor owner history := by
  cases h : e.accepted owner <;> simp [acceptedFor, h]

theorem handedTo_cons (module : ℕ) (e : EventStep) (history : List EventStep) :
    handedTo module (e :: history) = (e.handed module).toList ++ handedTo module history := by
  cases h : e.handed module <;> simp [handedTo, h]

section Fifo

variable {capacity : ℕ} {a : EventAct} {l : List OcreEvent}

theorem fifoPerform_of_event {event : OcreEvent} (h : a.event = some event) :
    fifoPerform capacity a l =
      (.queued (fifoPut capacity event l).1, (fifoPut capacity event l).2) := by
  cases a with
  | get module offsets => simp [EventAct.event] at h
  | _ =>
      obtain rfl := Option.some.inj h
      rfl

theorem exists_words_of_event {event : OcreEvent} (h : a.event = some event) :
    ∃ words, event.data.words = .ok words := by
  cases a with
  | get module offsets => simp [EventAct.event] at h
  | _ =>
      obtain rfl := Option.some.inj h
      exact ⟨_, rfl⟩

theorem AllKnown.fifoPut (h : AllKnown l) {event : OcreEvent}
    (hevent : ∃ words, event.data.words = .ok words) :
    AllKnown (fifoPut capacity event l).2 := by
  unfold OcreRuntime.fifoPut
  split
  · intro e he
    rcases List.mem_append.mp he with he | he
    · exact h e he
    · obtain rfl := List.mem_singleton.mp he
      exact hevent
  · exact h

theorem AllKnown.fifoGet (h : AllKnown l) (module : ℕ) : AllKnown (fifoGet module l).2 := by
  cases l with
  | nil => exact h
  | cons event l =>
      simp only [OcreRuntime.fifoGet]
      split
      · exact h
      · exact fun e he ↦ h e (List.mem_cons_of_mem _ he)

theorem AllKnown.fifoPerform (h : AllKnown l) (a : EventAct) :
    AllKnown (fifoPerform capacity a l).2 := by
  cases hevent : a.event with
  | some event =>
      rw [fifoPerform_of_event hevent]
      exact h.fifoPut (exists_words_of_event hevent)
  | none =>
      cases a with
      | get module offsets =>
          cases module with
          | none => exact h
          | some module =>
              cases offsets with
              | false => exact h
              | true => exact h.fifoGet module
      | _ => simp [EventAct.event] at hevent

theorem accepted_of_event {event : OcreEvent} (h : a.event = some event) (b : Bool)
    (owner : ℕ) :
    EventStep.accepted owner ⟨a, some (.queued b)⟩ =
      if b = true ∧ event.owner = owner then some event else none := by
  cases b <;> simp [EventStep.accepted, h]

theorem handed_of_event {event : OcreEvent} (h : a.event = some event) (r : Option EventResult)
    (module : ℕ) : EventStep.handed module ⟨a, r⟩ = none := by
  cases a with
  | get caller offsets => simp [EventAct.event] at h
  | _ => rfl

theorem pendingFor_put {event : OcreEvent} (h : a.event = some event) (owner : ℕ) :
    pendingFor owner (fifoPerform capacity a l).2 = pendingFor owner l ++
      (EventStep.accepted owner ⟨a, some (fifoPerform capacity a l).1⟩).toList := by
  rw [fifoPerform_of_event h, accepted_of_event h]
  unfold fifoPut
  by_cases hlt : l.length < capacity
  · by_cases howner : event.owner = owner
    · simp [hlt, pendingFor, howner]
    · simp [hlt, pendingFor, howner]
  · simp [hlt]

theorem pendingFor_get (h : AllKnown l) (caller module : ℕ) :
    let r := fifoPerform capacity (.get (some caller) true) l
    (pendingFor module l).map (·.data.words) =
      (EventStep.handed module ⟨.get (some caller) true, some r.1⟩).toList.map .ok ++
        (pendingFor module r.2).map (·.data.words) := by
  intro r
  cases l with
  | nil => rfl
  | cons event l =>
      obtain ⟨words, hwords⟩ := h event List.mem_cons_self
      by_cases howner : event.owner = caller
      · have hr : r = (.got (.ok words), l) := by
          simp [r, fifoPerform, fifoGet, howner, hwords]
        rw [hr]
        by_cases hmodule : caller = module
        · simp [EventStep.handed, hmodule, pendingFor, howner, hwords]
        · simp [EventStep.handed, hmodule, pendingFor, howner]
      · have hr : r = (.got (.error (-1)), event :: l) := by
          simp [r, fifoPerform, fifoGet, howner]
        rw [hr]
        rfl

/-- One act: what is pending and accepted is what is handed over and pending after it. -/
theorem pendingFor_append_accepted (capacity : ℕ) (h : AllKnown l) (a : EventAct)
    (module : ℕ) :
    let r := fifoPerform capacity a l
    let e : EventStep := ⟨a, some r.1⟩
    (pendingFor module l ++ (e.accepted module).toList).map (·.data.words) =
      (e.handed module).toList.map .ok ++ (pendingFor module r.2).map (·.data.words) := by
  intro r e
  cases hevent : a.event with
  | some event => rw [handed_of_event hevent, pendingFor_put hevent]; rfl
  | none =>
      cases a with
      | get caller offsets =>
          have haccepted : e.accepted module = none := rfl
          rw [haccepted, Option.toList_none, List.append_nil]
          cases caller with
          | none => rfl
          | some caller =>
              cases offsets with
              | false => rfl
              | true => exact pendingFor_get h caller module
      | _ => simp [EventAct.event] at hevent

end Fifo

namespace EventApi

variable {s s' : EventApi} {l : List OcreEvent}

theorem exists_fifoPerform (h : s.Serves l) {a : EventAct}
    (hnext : eventSystem.next a s = some s') :
    (EventStep.of a s) = ⟨a, some (fifoPerform sizeOcreEventBuffer a l).1⟩ ∧
      s'.Serves (fifoPerform sizeOcreEventBuffer a l).2 := by
  obtain ⟨t, hperform, ht⟩ := h.perform a
  have heq : t = s' := by simpa [eventSystem, hperform] using hnext
  exact ⟨by simp [EventStep.of, hperform], heq ▸ ht⟩

theorem exists_account (h : s.Serves l) (hknown : AllKnown l) {as : List EventAct}
    (hrun : eventSystem.run s as = some s') :
    ∃ l', s'.Serves l' ∧ AllKnown l' ∧ ∀ module,
      (pendingFor module l ++ acceptedFor module (eventSystem.trace EventStep.of s as)).map
          (·.data.words) =
        (handedTo module (eventSystem.trace EventStep.of s as)).map .ok ++
          (pendingFor module l').map (·.data.words) := by
  induction as generalizing s l with
  | nil =>
      obtain rfl : s = s' := Option.some.inj hrun
      refine ⟨l, h, hknown, ?_⟩
      intro module
      simp [StepSystem.trace, acceptedFor, handedTo]
  | cons a as ih =>
      obtain ⟨t, hnext, hrest⟩ := Option.bind_eq_some_iff.mp hrun
      obtain ⟨hof, ht⟩ := exists_fifoPerform h hnext
      obtain ⟨l', hs', hknown', haccount⟩ := ih ht (hknown.fifoPerform a) hrest
      refine ⟨l', hs', hknown', ?_⟩
      intro module
      have hstep := pendingFor_append_accepted sizeOcreEventBuffer hknown a module
      have hrest := haccount module
      simp only [StepSystem.trace, hnext, Option.elim_some, hof, acceptedFor_cons,
        handedTo_cons, List.map_append] at hstep hrest ⊢
      rw [← List.append_assoc, hstep, List.append_assoc, hrest, List.append_assoc]

theorem eq_of_ocreGetEvent_error (h : s.Serves l) (hknown : AllKnown l) {module : Option ℕ}
    {offsets : Bool} {code : Int}
    (hget : s.ocreGetEvent module offsets = some (.error code, s')) : s' = s := by
  cases module with
  | none => exact (Prod.mk.inj (Option.some.inj hget)).2.symm
  | some module =>
      cases offsets with
      | false => exact (Prod.mk.inj (Option.some.inj hget)).2.symm
      | true =>
          cases l with
          | nil =>
              rw [h.ocreGetEvent_nil module] at hget
              exact (Prod.mk.inj (Option.some.inj hget)).2.symm
          | cons event l =>
              by_cases howner : event.owner = module
              · obtain ⟨t, ht, -⟩ := h.ocreGetEvent_of_eq howner
                obtain ⟨words, hwords⟩ := hknown event List.mem_cons_self
                simp [ht, hwords] at hget
              · rw [h.ocreGetEvent_of_ne howner] at hget
                exact (Prod.mk.inj (Option.some.inj hget)).2.symm

theorem exists_serves_of_reachable (h : eventSystem.Reachable s) :
    ∃ l, s.Serves l ∧ AllKnown l := by
  apply StepSystem.ReachableWhere.invariant (I := fun s ↦ ∃ l, s.Serves l ∧ AllKnown l) _ _ h
  · intro s hs
    exact ⟨[], hs, by simp [AllKnown]⟩
  · rintro a s s' ⟨l, hl, hknown⟩ - hnext
    exact ⟨_, (exists_fifoPerform hl hnext).2, hknown.fifoPerform a⟩

/-- Of the events that the queue has accepted for a module, those that it has been handed
are the first, in order and each once, and the others are pending. A call that returns
non-zero leaves the queue as it was. -/
theorem delivered_of_run (h : eventSystem.init s) {as : List EventAct}
    (hrun : eventSystem.run s as = some s') :
    (∃ l, s'.Serves l ∧ ∀ module,
      let handed := (handedTo module (eventSystem.trace EventStep.of s as)).map .ok
      let accepted := (acceptedFor module (eventSystem.trace EventStep.of s as)).map (·.data.words)
      handed <+: accepted ∧ accepted = handed ++ (pendingFor module l).map (·.data.words)) ∧
    eventSystem.RunKeeps (fun a t t' ↦ ∀ module offsets code, a = .get module offsets →
      (EventStep.of a t).result = some (.got (.error code)) → t' = t) s as := by
  constructor
  · obtain ⟨l, hs', -, haccount⟩ := exists_account h (by simp [AllKnown]) hrun
    refine ⟨l, hs', ?_⟩
    intro module handed accepted
    have heq : accepted = handed ++ (pendingFor module l).map (·.data.words) := by
      simpa [pendingFor] using haccount module
    exact ⟨⟨_, heq.symm⟩, heq⟩
  · apply StepSystem.ReachableWhere.runKeeps _ (.start h) (StepSystem.runMeets_true s as)
    rintro a t t' ht - hnext module offsets code rfl hresult
    obtain ⟨l, hl, hknown⟩ := exists_serves_of_reachable ht
    obtain ⟨⟨r, u⟩, hperform, rfl⟩ := Option.map_eq_some_iff.mp hnext
    obtain ⟨⟨result, v⟩, hget, heq⟩ := Option.map_eq_some_iff.mp hperform
    obtain ⟨rfl, rfl⟩ := Prod.mk.inj heq
    obtain rfl : result = .error code := by simpa [EventStep.of, hperform] using hresult
    exact eq_of_ocreGetEvent_error hl hknown hget

/-- Two modules, of which one polls out of turn. -/
def twoModules : List EventAct :=
  [.timer 1 10, .message 7 16 32 48 5 20, .gpio 3 0 1 10, .get (some 20) true,
    .get (some 10) true, .get (some 20) true]

theorem delivered_of_twoModules :
    ∃ s', eventSystem.run initial twoModules = some s' ∧
      handedTo 20 (eventSystem.trace EventStep.of initial twoModules) =
        [some ⟨3, 7, 16, 32, 48, 5⟩] ∧
      ∃ l, s'.Serves l ∧ (pendingFor 10 l).map (·.data.words) =
        [.ok (some { type := 1, id := 3, state := 1 })] := by
  obtain ⟨⟨l, hl, hdelivered⟩, -⟩ := @delivered_of_run initial _ initial_serves twoModules rfl
  refine ⟨_, rfl, rfl, l, hl, ?_⟩
  exact List.append_cancel_left (hdelivered 10).2.symm

/-- A module with pending events gets the oldest of them if it is the oldest of all, and
otherwise an error. -/
theorem ocreGetEvent_of_pending (h : eventSystem.Reachable s) (hl : s.Serves l)
    {module : ℕ} {event : OcreEvent} {rest : List OcreEvent}
    (hpending : pendingFor module l = event :: rest) :
    (l.head? = some event → ∃ words s', event.data.words = .ok words ∧
      s.ocreGetEvent (some module) true = some (.ok words, s') ∧ s'.Serves l.tail) ∧
    (l.head? ≠ some event → s.ocreGetEvent (some module) true = some (.error (-1), s)) := by
  have hknown : AllKnown l := by
    obtain ⟨l', hl', hknown⟩ := exists_serves_of_reachable h
    exact hl.holds.unique hl'.holds ▸ hknown
  cases l with
  | nil => simp [pendingFor] at hpending
  | cons first l =>
      by_cases howner : first.owner = module
      · have hfirst : first = event := by
          rw [pendingFor, List.filter_cons_of_pos (by simpa using howner)] at hpending
          exact (List.cons.inj hpending).1
        obtain ⟨words, hwords⟩ := hknown first List.mem_cons_self
        obtain ⟨s', hget, hs'⟩ := hl.ocreGetEvent_of_eq howner
        refine ⟨fun _ ↦ ⟨words, s', hfirst ▸ hwords, hwords ▸ hget, hs'⟩, ?_⟩
        intro hne
        simp [hfirst] at hne
      · have hevent : event.owner = module := by
          have hmem : event ∈ pendingFor module (first :: l) := hpending ▸ List.mem_cons_self
          simpa using List.of_mem_filter hmem
        have hne : first ≠ event := by
          rintro rfl
          exact howner hevent
        refine ⟨fun hhead ↦ ?_, fun _ ↦ hl.ocreGetEvent_of_ne howner⟩
        exact absurd (Option.some.inj hhead) hne

/-- A state with an event for module 10, then one for module 20. -/
theorem exists_reachable_two_timers :
    ∃ s, eventSystem.Reachable s ∧ s.Serves [⟨.timer 1, 10⟩, ⟨.timer 2, 20⟩] := by
  obtain ⟨t, hperform, ht⟩ := initial_serves.perform (.timer 1 10)
  obtain ⟨s, hperform', hs⟩ := ht.perform (.timer 2 20)
  refine ⟨s, ?_, hs⟩
  have hrun : eventSystem.run initial [.timer 1 10, .timer 2 20] = some s := by
    simp [StepSystem.run, eventSystem, hperform, hperform']
  exact StepSystem.Reachable.run (.start initial_serves) hrun

theorem ocreGetEvent_of_first :
    ∃ s s', eventSystem.Reachable s ∧
      s.ocreGetEvent (some 10) true = some (.ok (some { type := 0, id := 1 }), s') := by
  obtain ⟨s, hs, hl⟩ := exists_reachable_two_timers
  have hpending : pendingFor 10 [⟨.timer 1, 10⟩, ⟨.timer 2, 20⟩] = [⟨.timer 1, 10⟩] := rfl
  obtain ⟨words, s', hwords, hget, -⟩ := (ocreGetEvent_of_pending hs hl hpending).1 rfl
  cases hwords
  exact ⟨s, s', hs, hget⟩

/-- The event for module 20 is not to be had as long as the other is there. -/
theorem not_ocreGetEvent_of_second :
    ¬ ∀ s l module event rest, eventSystem.Reachable s → s.Serves l →
      pendingFor module l = event :: rest →
      ∃ words s', event.data.words = .ok words ∧
        s.ocreGetEvent (some module) true = some (.ok words, s') := by
  intro h
  obtain ⟨s, hs, hl⟩ := exists_reachable_two_timers
  obtain ⟨words, s', -, hget⟩ := h s _ 20 _ _ hs hl rfl
  rw [hl.ocreGetEvent_of_ne (by decide)] at hget
  cases hget

end EventApi

end OcreRuntime
