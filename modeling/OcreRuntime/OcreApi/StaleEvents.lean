import OcreRuntime.OcreApi.Delivery
import OcreRuntime.OcreApi.Orphans

/-!
# Events and the instances they were made for

An event names its owner by the address of a module instance. It is recorded here with the
serial number of the instance that was at the address when the queue took it. Nothing takes
the events of a module out of the queue when the module is gone, so a new instance at the
same address can get them.
-/

namespace OcreRuntime

/-- A pending event, with the serial number of the instance it was queued for. -/
abbrev RecordedEvent := OcreEvent × Option ℕ

/-- The native API with a record of its queue. -/
structure RecordedWorld where
  world : ApiWorld
  pending : List RecordedEvent

namespace ApiWorld

def recorded (w : ApiWorld) (event : OcreEvent) : RecordedEvent :=
  (event, (w.modules event.owner).map ModuleInst.serial)

end ApiWorld

namespace OcreTimer

variable {timer : OcreTimer} {event : OcreEvent}

theorem exists_of_mem_events (h : event ∈ timer.events) :
    ∃ owner, timer.owner = some owner ∧ event = timer.event owner := by
  unfold events at h
  split at h
  · obtain ⟨owner, howner, rfl⟩ := List.mem_map.mp h
    exact ⟨owner, Option.mem_toList.mp howner, rfl⟩
  · simp at h

theorem exists_words_of_mem_events (h : event ∈ timer.events) :
    ∃ words, event.data.words = .ok words := by
  obtain ⟨owner, -, rfl⟩ := exists_of_mem_events h
  exact ⟨_, rfl⟩

theorem refersTo_of_mem_events (h : event ∈ timer.events) (inst : ModuleInst) :
    event.data.RefersTo inst := by
  obtain ⟨owner, -, rfl⟩ := exists_of_mem_events h
  trivial

end OcreTimer

namespace RecordedWorld

variable {s s' : RecordedWorld} {a : ApiAct} {r : NativeResult}

/-- What a step that ends in `w'` makes of the record. -/
def record (r : NativeResult) (w' : ApiWorld) (pending : List RecordedEvent) :
    ApiAct → List RecordedEvent
  | .native _ (.getEvent _) => if r.ret = 0 then pending.tail else pending
  | _ => pending ++ r.queued.map w'.recorded

def next (a : ApiAct) (s : RecordedWorld) : Option RecordedWorld :=
  (s.world.perform a).map fun r ↦ ⟨r.2, record r.1 r.2 s.pending a⟩

/-- An event for an instance that is at its address, with offsets of copies in the memory of
that instance. -/
def Current (w : ApiWorld) (e : RecordedEvent) : Prop :=
  ∃ inst, w.modules e.1.owner = some inst ∧ e.2 = some inst.serial ∧ e.1.data.RefersTo inst

/-- The record is that of the queue, and all events are for instances that are there. -/
structure AllCurrent (s : RecordedWorld) : Prop where
  serves : s.world.events.Serves (s.pending.map Prod.fst)
  current : ∀ e ∈ s.pending, Current s.world e

/-- After a step all events are for instances that are there, and an event that a module has
got was the first in the queue and made for the caller. -/
def EventsCurrent (a : ApiAct) (s s' : RecordedWorld) : Prop :=
  s'.AllCurrent ∧ ∀ module offsets r, a = .native module (.getEvent offsets) →
    s.world.perform a = some (r, s'.world) → r.ret = 0 →
      ∃ e rest, s.pending = e :: rest ∧ e.1.owner = module ∧ e.1.data.words = .ok r.words ∧
        Current s.world e

/-- A module has no pending events when it is deinstantiated, and the queue takes no event of
a timer whose owner is not instantiated. -/
def LeavesNoEvent : ApiAct → RecordedWorld → Prop
  | .deinstantiate module, s => ∀ e ∈ s.pending, e.1.owner ≠ module
  | .notify slot _, s => s.pending.length < sizeOcreEventBuffer →
      ∀ event ∈ (s.world.timer slot).events, (s.world.modules event.owner).isSome = true
  | _, _ => True

instance decidableLeavesNoEvent : ∀ a s, Decidable (LeavesNoEvent a s)
  | .deinstantiate module, s => inferInstanceAs (Decidable (∀ e ∈ s.pending, e.1.owner ≠ module))
  | .notify slot _, s => inferInstanceAs (Decidable (s.pending.length < sizeOcreEventBuffer →
      ∀ event ∈ (s.world.timer slot).events, (s.world.modules event.owner).isSome = true))
  | .instantiate .., _ | .native .., _ | .returnMain .., _ | .cleanup .., _ | .expire .., _ =>
      .isTrue trivial

/-- What holds between the steps of a run in which every step leaves no event. -/
structure Inv (s : RecordedWorld) : Prop extends AllCurrent s where
  known : AllKnown (s.pending.map Prod.fst)

theorem current_recorded {w : ApiWorld} {event : OcreEvent} {inst : ModuleInst}
    (hinst : w.modules event.owner = some inst) (hrefers : event.data.RefersTo inst) :
    Current w (w.recorded event) :=
  ⟨inst, hinst, by simp [ApiWorld.recorded, hinst], hrefers⟩

theorem Current.later {w w' : ApiWorld} {e : RecordedEvent} (h : Current w e)
    (hkept : PartialMap.Kept ModuleInst.Later w.modules w'.modules) : Current w' e := by
  obtain ⟨inst, hinst, hserial, hrefers⟩ := h
  obtain ⟨inst', hinst', hlater⟩ := hkept.some_of_some _ _ hinst
  exact ⟨inst', hinst', by rw [hserial, hlater.serial], hrefers.later hlater⟩

theorem Current.update_of_ne {w w' : ApiWorld} {e : RecordedEvent} (h : Current w e)
    (module : ℕ) (hne : e.1.owner ≠ module)
    (hmodules : ∀ other, other ≠ module → w'.modules other = w.modules other) :
    Current w' e := by
  obtain ⟨inst, hinst, hserial, hrefers⟩ := h
  exact ⟨inst, (hmodules _ hne).trans hinst, hserial, hrefers⟩

theorem fst_recorded (w : ApiWorld) (events : List OcreEvent) :
    (events.map w.recorded).map Prod.fst = events := by
  simp [ApiWorld.recorded, Function.comp_def]

theorem AllCurrent.append {w' : ApiWorld} {pending : List RecordedEvent}
    {queued : List OcreEvent} (h : ∀ e ∈ pending, Current w' e)
    (hserves : w'.events.Serves (pending.map Prod.fst ++ queued))
    (hqueued : ∀ event ∈ queued, ∃ inst,
      w'.modules event.owner = some inst ∧ event.data.RefersTo inst) :
    (⟨w', pending ++ queued.map w'.recorded⟩ : RecordedWorld).AllCurrent := by
  constructor
  · rwa [List.map_append, fst_recorded]
  · intro e he
    rcases List.mem_append.mp he with he | he
    · exact h e he
    · obtain ⟨event, hevent, rfl⟩ := List.mem_map.mp he
      obtain ⟨inst, hinst, hrefers⟩ := hqueued event hevent
      exact current_recorded hinst hrefers

theorem Inv.append (h : s.Inv) {w' : ApiWorld} {queued : List OcreEvent}
    (hcurrent : (⟨w', s.pending ++ queued.map w'.recorded⟩ : RecordedWorld).AllCurrent)
    (hqueued : ∀ event ∈ queued, ∃ words, event.data.words = .ok words) :
    (⟨w', s.pending ++ queued.map w'.recorded⟩ : RecordedWorld).Inv := by
  refine ⟨hcurrent, ?_⟩
  rw [List.map_append, fst_recorded]
  intro event hevent
  rcases List.mem_append.mp hevent with hevent | hevent
  · exact h.known event hevent
  · exact hqueued event hevent

theorem Inv.keep (h : s.Inv) {w' : ApiWorld} (hevents : w'.events = s.world.events)
    (hcurrent : ∀ e ∈ s.pending, Current w' e) :
    (⟨w', s.pending⟩ : RecordedWorld).Inv where
  serves := hevents ▸ h.serves
  current := hcurrent
  known := h.known

/-- A call of `ocre_get_event`, which takes the first event if the caller owns it. -/
theorem Inv.getEvent (h : s.Inv) {w' : ApiWorld} {module : ℕ} {offsets : Bool}
    (hcall : s.world.call module (.getEvent offsets) = some (r, w')) :
    (r.ret = 0 ∧ ∃ e rest, s.pending = e :: rest ∧ e.1.owner = module ∧
        e.1.data.words = .ok r.words ∧ (⟨w', rest⟩ : RecordedWorld).Inv) ∨
      r.ret ≠ 0 ∧ (⟨w', s.pending⟩ : RecordedWorld).Inv := by
  obtain ⟨events, rfl, -, hserves, rfl⟩ := ApiWorld.serves_of_getEvent h.serves hcall
  cases offsets with
  | false =>
      right
      exact ⟨by simp [NativeResult.ofGetEvent], ⟨hserves, h.current⟩, h.known⟩
  | true =>
      cases hpending : s.pending with
      | nil =>
          right
          simp only [hpending, List.map_nil, fifoGet, if_true] at hserves ⊢
          exact ⟨by simp [NativeResult.ofGetEvent], ⟨hserves, by simp⟩, by simp [AllKnown]⟩
      | cons e rest =>
          have hcurrent : ∀ x ∈ rest, Current s.world x :=
            fun x hx ↦ h.current x (hpending ▸ List.mem_cons_of_mem _ hx)
          have hknown := h.known
          rw [hpending] at hknown
          by_cases howner : e.1.owner = module
          · left
            obtain ⟨words, hwords⟩ := hknown e.1 (by simp)
            simp only [hpending, List.map_cons, fifoGet, howner, ne_eq, not_true_eq_false,
              if_false, if_true, hwords] at hserves ⊢
            refine ⟨rfl, e, rest, rfl, howner, hwords, ⟨hserves, hcurrent⟩, ?_⟩
            exact fun event hevent ↦ hknown event (List.mem_cons_of_mem _ hevent)
          · right
            simp only [hpending, List.map_cons, fifoGet, howner, ne_eq, not_false_eq_true,
              if_true] at hserves ⊢
            exact ⟨by simp [NativeResult.ofGetEvent], ⟨hserves, hpending ▸ h.current⟩, hknown⟩

/-- A step that neither calls a native nor handles an expiry leaves the record. -/
theorem pending_of_next (hnative : ∀ module call, a ≠ .native module call)
    (hnotify : ∀ slot uptime, a ≠ .notify slot uptime) (hnext : next a s = some s') :
    ∃ r, s.world.perform a = some (r, s'.world) ∧ s'.world.events = s.world.events ∧
      s' = ⟨s'.world, s.pending⟩ := by
  obtain ⟨⟨r, w'⟩, hperform, rfl⟩ := Option.map_eq_some_iff.mp hnext
  have hqueued := ApiWorld.queued_of_perform hnative hnotify hperform
  refine ⟨r, hperform, ApiWorld.events_of_perform hnative hnotify hperform, ?_⟩
  cases a with
  | native module call => exact absurd rfl (hnative module call)
  | _ => simp [record, hqueued]

theorem eq_of_call {module : ℕ} {call : NativeCall} (hget : ∀ offsets, call ≠ .getEvent offsets)
    (r : NativeResult) (w' : ApiWorld) (pending : List RecordedEvent) :
    record r w' pending (.native module call) = pending ++ r.queued.map w'.recorded := by
  cases call with
  | getEvent offsets => exact absurd rfl (hget offsets)
  | _ => rfl

theorem Inv.next (h : s.Inv) (hleaves : LeavesNoEvent a s) (hnext : next a s = some s') :
    s'.Inv := by
  cases a with
  | instantiate module usesOcreApi malloc =>
      obtain ⟨r, hperform, hevents, heq⟩ := pending_of_next (by simp) (by simp) hnext
      obtain ⟨hnone, hw'⟩ := ApiWorld.perform_instantiate hperform
      rw [heq]
      refine h.keep hevents fun e he ↦ (h.current e he).update_of_ne module ?_ ?_
      · obtain ⟨inst, hinst, -⟩ := h.current e he
        intro howner
        simp [howner, hnone] at hinst
      · intro other hne
        rw [hw', ApiWorld.modules_instantiate_of_ne hne]
  | native module call =>
      obtain ⟨⟨r, w'⟩, hperform, rfl⟩ := Option.map_eq_some_iff.mp hnext
      obtain ⟨inst, -, -, hcall⟩ := ApiWorld.perform_native hperform
      by_cases hget : ∃ offsets, call = .getEvent offsets
      · obtain ⟨offsets, rfl⟩ := hget
        rcases h.getEvent hcall with ⟨hret, e, rest, hpending, -, -, hinv⟩ | ⟨hret, hinv⟩
        · simpa [record, hret, hpending] using hinv
        · simpa [record, hret] using hinv
      · push Not at hget
        obtain ⟨hserves, hqueued⟩ := ApiWorld.serves_of_call h.serves hget hcall
        have hext := ApiWorld.call_extended hcall
        rw [eq_of_call hget]
        refine h.append (.append ?_ hserves fun event hevent ↦ (hqueued event hevent).2)
          fun event hevent ↦ (hqueued event hevent).1
        intro e he
        exact (h.current e he).later (hext.mono fun _ _ hext ↦ hext.toLater)
  | returnMain module | cleanup module | expire slot =>
      obtain ⟨r, hperform, hevents, heq⟩ := pending_of_next (by simp) (by simp) hnext
      rw [heq]
      refine h.keep hevents fun e he ↦ (h.current e he).later ?_
      exact ApiWorld.later_of_perform (by simp) (by simp) hperform
  | deinstantiate module =>
      obtain ⟨r, hperform, hevents, heq⟩ := pending_of_next (by simp) (by simp) hnext
      obtain ⟨inst, -, -, hw'⟩ := ApiWorld.perform_deinstantiate hperform
      rw [heq]
      refine h.keep hevents fun e he ↦ (h.current e he).update_of_ne module (hleaves e he) ?_
      intro other hne
      rw [hw']
      exact Function.update_of_ne hne ..
  | notify slot uptime =>
      obtain ⟨⟨r, w'⟩, hperform, rfl⟩ := Option.map_eq_some_iff.mp hnext
      have hkept := ApiWorld.later_of_perform (by simp) (by simp) hperform
      obtain ⟨events, timers, rfl, -, -, hqueued, hserves⟩ :=
        ApiWorld.perform_notify h.serves hperform
      have hmem : ∀ event ∈ r.queued, event ∈ (s.world.timer slot).events ∧
          (s.world.modules event.owner).isSome = true := by
        intro event hevent
        rw [hqueued] at hevent
        split at hevent
        next hlt => exact ⟨hevent, hleaves (by simpa using hlt) event hevent⟩
        · simp at hevent
      refine h.append (.append ?_ hserves ?_) ?_
      · intro e he
        exact (h.current e he).later hkept
      · intro event hevent
        obtain ⟨hin, hsome⟩ := hmem event hevent
        obtain ⟨inst, hinst⟩ := Option.isSome_iff_exists.mp hsome
        exact ⟨inst, hinst, OcreTimer.refersTo_of_mem_events hin inst⟩
      · intro event hevent
        exact OcreTimer.exists_words_of_mem_events (hmem event hevent).1

/-- Without the condition an event is left for an instance that is not there. -/
theorem AllCurrent.leavesNoEvent (h : s.AllCurrent) (h' : s'.AllCurrent)
    (hnext : next a s = some s') : LeavesNoEvent a s := by
  cases a with
  | deinstantiate module =>
      obtain ⟨r, hperform, -, heq⟩ := pending_of_next (by simp) (by simp) hnext
      obtain ⟨-, -, -, hw'⟩ := ApiWorld.perform_deinstantiate hperform
      intro e he howner
      obtain ⟨inst, hinst, -⟩ := h'.current e (heq ▸ he)
      rw [hw', howner] at hinst
      simp [ApiWorld.deinstantiate] at hinst
  | notify slot uptime =>
      obtain ⟨⟨r, w'⟩, hperform, rfl⟩ := Option.map_eq_some_iff.mp hnext
      obtain ⟨events, timers, rfl, -, -, hqueued, -⟩ := ApiWorld.perform_notify h.serves hperform
      intro hlt event hevent
      rw [if_pos (by simpa using hlt)] at hqueued
      have hmem : event ∈ r.queued := hqueued ▸ hevent
      obtain ⟨inst, hinst, -⟩ := h'.current _
        (List.mem_append_right _ (List.mem_map_of_mem hmem))
      have hsome : s.world.modules event.owner = some inst := hinst
      simp [hsome]
  | _ => trivial

theorem Inv.eventsCurrent_iff (h : s.Inv) (hnext : RecordedWorld.next a s = some s') :
    EventsCurrent a s s' ↔ LeavesNoEvent a s := by
  constructor
  · intro hcurrent
    exact h.leavesNoEvent hcurrent.1 hnext
  · intro hleaves
    refine ⟨(h.next hleaves hnext).toAllCurrent, ?_⟩
    rintro module offsets r rfl hperform hret
    obtain ⟨inst, -, -, hcall⟩ := ApiWorld.perform_native hperform
    rcases h.getEvent hcall with ⟨-, e, rest, hpending, howner, hwords, -⟩ | ⟨hne, -⟩
    · exact ⟨e, rest, hpending, howner, hwords, h.current e (hpending ▸ List.mem_cons_self)⟩
    · exact absurd hret hne

end RecordedWorld

section System

variable {maxTimers maxSubscriptions : ℕ} {s : RecordedWorld}

/-- The native API in use, with a record of its queue. -/
def recordedSystem (maxTimers maxSubscriptions : ℕ) : StepSystem RecordedWorld ApiAct where
  init := (· = ⟨ApiWorld.initial maxTimers maxSubscriptions, []⟩)
  next := RecordedWorld.next

theorem inv_of_reachableWhere
    (h : (recordedSystem maxTimers maxSubscriptions).ReachableWhere
      RecordedWorld.LeavesNoEvent s) : s.Inv := by
  apply h.invariant
  · rintro s rfl
    exact ⟨⟨EventApi.initial_serves, by simp⟩, by simp [AllKnown]⟩
  · intro a s s' hinv hleaves hnext
    exact hinv.next hleaves hnext

/-- In a run of the native API, all events are for instances that are there, and so are the
events that modules get, exactly if no module is deinstantiated while it has pending events
and no timer fires for a module that is not there. -/
theorem runKeeps_eventsCurrent_iff {as : List ApiAct}
    (hrun : (recordedSystem maxTimers maxSubscriptions).run
      ⟨ApiWorld.initial maxTimers maxSubscriptions, []⟩ as = some s) :
    (recordedSystem maxTimers maxSubscriptions).RunKeeps RecordedWorld.EventsCurrent
        ⟨ApiWorld.initial maxTimers maxSubscriptions, []⟩ as ↔
      (recordedSystem maxTimers maxSubscriptions).RunMeets RecordedWorld.LeavesNoEvent
        ⟨ApiWorld.initial maxTimers maxSubscriptions, []⟩ as := by
  apply StepSystem.ReachableWhere.runKeeps_iff_runMeets _ (.start rfl) hrun
  intro a s s' hs hnext
  exact (inv_of_reachableWhere hs).eventsCurrent_iff hnext

/-- A message and a timer event for module 7, which takes both before it leaves. -/
def eventsTaken : List ApiAct :=
  [.instantiate 7 true true, .native 7 (.subscribe (some (cstring "news"))),
    .native 7 (.timerCreate 1 0), .native 7 (.timerStart 1 50 0 0 0),
    .native 7 (.publish ⟨some (cstring "news/now"), some (cstring "text"), some [1], 1⟩
      fun _ ↦ ⟨16, 32, 48⟩),
    .expire 0, .notify 0 50, .native 7 (.getEvent true), .native 7 (.getEvent true),
    .returnMain 7] ++ List.replicate 10 (.cleanup 7) ++ [.deinstantiate 7]

theorem runKeeps_eventsCurrent_of_eventsTaken :
    ∃ s, (recordedSystem 5 10).run ⟨ApiWorld.initial 5 10, []⟩ eventsTaken = some s ∧
      (recordedSystem 5 10).RunKeeps RecordedWorld.EventsCurrent ⟨ApiWorld.initial 5 10, []⟩
        eventsTaken := by
  have hsome : ((recordedSystem 5 10).run ⟨ApiWorld.initial 5 10, []⟩ eventsTaken).isSome := by
    decide +kernel
  obtain ⟨s, hrun⟩ := Option.isSome_iff_exists.mp hsome
  exact ⟨s, hrun, (runKeeps_eventsCurrent_iff hrun).mpr (by decide +kernel)⟩

/-- Module 7 goes through the clean-up handlers with a timer event pending. -/
def eventLeft : List ApiAct :=
  [.instantiate 7 true true, .native 7 (.timerCreate 1 0), .native 7 (.timerStart 1 50 0 0 0),
    .expire 0, .notify 0 50, .returnMain 7] ++ List.replicate 10 (.cleanup 7)

/-- The event is still in the queue when the module is deinstantiated. -/
theorem not_runKeeps_eventsCurrent_of_eventLeft :
    ¬ ∀ as s, (recordedSystem 5 10).run ⟨ApiWorld.initial 5 10, []⟩ as = some s →
      (recordedSystem 5 10).RunKeeps RecordedWorld.EventsCurrent ⟨ApiWorld.initial 5 10, []⟩
        as := by
  intro h
  have hleft : (((recordedSystem 5 10).run ⟨ApiWorld.initial 5 10, []⟩ eventLeft).any fun s ↦
      (RecordedWorld.next (.deinstantiate 7) s).any fun s' ↦
        s'.pending.any fun e ↦ (s'.world.modules e.1.owner).isNone) = true := by
    decide +kernel
  obtain ⟨s, hrun, hs⟩ := (Option.any_eq_true _ _).mp hleft
  obtain ⟨s', hnext, hs'⟩ := (Option.any_eq_true _ _).mp hs
  obtain ⟨e, he, hnone⟩ := List.any_eq_true.mp hs'
  have hfull : (recordedSystem 5 10).run ⟨ApiWorld.initial 5 10, []⟩
      (eventLeft ++ [.deinstantiate 7]) = some s' := StepSystem.run_concat hrun hnext
  obtain ⟨⟨hcurrent, -⟩, -⟩ := (h _ _ hfull).of_append hrun s' hnext
  obtain ⟨inst, hinst, -⟩ := hcurrent.current e he
  simp [hinst] at hnone

end System

end OcreRuntime
