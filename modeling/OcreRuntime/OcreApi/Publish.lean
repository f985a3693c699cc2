import Mathlib.Data.List.Nodup
import OcreRuntime.OcreApi.Calls

/-!
# What a publish delivers

The slots are handled in their order, each on its own: an event with three copies in the
memory of its target, or nothing. What has been copied for an event that does not come into
the queue is freed again.
-/

namespace OcreRuntime

open Function (update)

/-- The offsets in use in the memory of an instance. -/
def ModuleInst.live (inst : ModuleInst) : List UInt32 := inst.copies.map Prod.fst

/-- The allocator of an instance never gives an offset that is in use. -/
def ModuleInst.GivesFresh (inst : ModuleInst) (offsets : DupOffsets) : Prop :=
  offsets.topic ≠ 0 → offsets.topic ∉ inst.live ∧
    (offsets.contentType ≠ 0 → offsets.contentType ∉ inst.live ++ [offsets.topic] ∧
      (offsets.payload ≠ 0 →
        offsets.payload ∉ inst.live ++ [offsets.topic, offsets.contentType]))

instance (inst : ModuleInst) (offsets : DupOffsets) : Decidable (inst.GivesFresh offsets) :=
  inferInstanceAs (Decidable (_ → _ ∧ (_ → _ ∧ (_ → _))))

/-- The allocators do so at each allocation of the loop. -/
def AllocatesFresh (message : Message) (messageId : UInt32) (offsets : ℕ → DupOffsets) :
    ℕ → SubscriptionTable → PublishState → Prop
  | _, [], _ => True
  | i, subscription :: subscriptions, st =>
      if ¬ subscription.isMatch message.topic then
        AllocatesFresh message messageId offsets (i + 1) subscriptions st
      else match subscription.moduleInst with
        | none => AllocatesFresh message messageId offsets (i + 1) subscriptions st
        | some target => match st.modules target with
            | none => True
            | some inst => inst.GivesFresh (offsets i) ∧
                ∀ st' ∈ publishTo message messageId (offsets i) target inst st,
                  AllocatesFresh message messageId offsets (i + 1) subscriptions st'

/-- The copies of a message, with the offsets that an event has for them. -/
def OcreEventData.copies (message : Message) : OcreEventData → List (UInt32 × List UInt8)
  | .messaging _ topicOffset contentTypeOffset payloadOffset _ =>
      [(topicOffset, message.topic ++ [0]), (contentTypeOffset, message.contentType ++ [0]),
        (payloadOffset, message.payload)]
  | _ => []

/-- The copies in the memory of a module for some events. -/
def copiesFor (message : Message) (module : ℕ) (events : List OcreEvent) :
    List (UInt32 × List UInt8) :=
  (events.filter (·.owner = module)).flatMap fun event ↦ event.data.copies message

/-- An instance that has got further copies, at offsets of their own. -/
structure ModuleInst.Gains (inst inst' : ModuleInst) (copies : List (UInt32 × List UInt8)) :
    Prop where
  copies : inst'.copies = inst.copies ++ copies
  context : inst'.context = inst.context
  nodup : inst.live.Nodup → inst'.live.Nodup

namespace ModuleInst

variable {inst inst' inst'' : ModuleInst} {copies copies' : List (UInt32 × List UInt8)}

theorem Gains.refl (inst : ModuleInst) : inst.Gains inst [] := ⟨by simp, rfl, id⟩

theorem Gains.trans (h : inst.Gains inst' copies) (h' : inst'.Gains inst'' copies') :
    inst.Gains inst'' (copies ++ copies') where
  copies := by rw [h'.copies, h.copies, List.append_assoc]
  context := h'.context.trans h.context
  nodup hnodup := h'.nodup (h.nodup hnodup)

@[simp] theorem live_dupData (inst : ModuleInst) (offset : UInt32) (bytes : List UInt8) :
    (inst.dupData offset bytes).live = inst.live ++ [offset] := by
  simp [live, dupData]

theorem Gains.dupData (h : inst.Gains inst' copies) {offset : UInt32}
    (hfresh : offset ∉ inst'.live) (bytes : List UInt8) :
    inst.Gains (inst'.dupData offset bytes) (copies ++ [(offset, bytes)]) := by
  refine ⟨?_, h.context, ?_⟩
  · simp [ModuleInst.dupData, h.copies]
  · intro hnodup
    rw [live_dupData, List.nodup_append_comm]
    exact List.nodup_cons.mpr ⟨hfresh, h.nodup hnodup⟩

/-- Freeing a new copy leaves the older ones. -/
theorem copies_free {offset : UInt32} (h : inst'.copies = inst.copies ++ copies)
    (hfresh : offset ∉ inst.live) :
    (inst'.free offset).copies = inst.copies ++ copies.filter (·.1 ≠ offset) := by
  have hkept : inst.copies.filter (·.1 ≠ offset) = inst.copies := ?_
  · change inst'.copies.filter (·.1 ≠ offset) = _
    rw [h, List.filter_append, hkept]
  rw [List.filter_eq_self]
  intro copy hcopy
  have hne : copy.1 ≠ offset := by
    rintro rfl
    exact hfresh (List.mem_map_of_mem hcopy)
  simpa using hne

/-- Freeing all new copies leaves the older ones. -/
theorem copies_foldl_free (offsets : List UInt32) (h : inst'.copies = inst.copies ++ copies)
    (hfresh : ∀ offset ∈ offsets, offset ∉ inst.live)
    (hall : ∀ copy ∈ copies, copy.1 ∈ offsets) :
    (offsets.foldl free inst').copies = inst.copies := by
  induction offsets generalizing inst' copies with
  | nil =>
      have hnil : copies = [] := by
        rw [List.eq_nil_iff_forall_not_mem]
        intro copy hcopy
        cases hall copy hcopy
      simpa [hnil] using h
  | cons offset offsets ih =>
      rw [List.foldl_cons]
      apply ih (copies_free h (hfresh offset List.mem_cons_self))
      · exact fun other hother ↦ hfresh other (List.mem_cons_of_mem _ hother)
      · intro copy hcopy
        obtain ⟨hmem, hne⟩ := List.mem_filter.mp hcopy
        exact (List.mem_cons.mp (hall copy hmem)).resolve_left (of_decide_eq_true hne)

theorem gains_of_copies (h : inst'.copies = inst.copies) (hcontext : inst'.context = inst.context) :
    inst.Gains inst' [] := by
  refine ⟨by simpa using h, hcontext, ?_⟩
  rw [live, live, h]
  exact id

end ModuleInst

namespace PublishState

/-- What a part of the loop delivers, with the queue that it finds. -/
structure Delivers (message : Message) (st st' : PublishState) (l queued : List OcreEvent) :
    Prop where
  queued_eq : st'.queued = st.queued ++ queued
  serves : st'.events.Serves (l ++ queued)
  some_of_some : ∀ module inst, st.modules module = some inst → ∃ inst',
    st'.modules module = some inst' ∧ inst.Gains inst' (copiesFor message module queued)
  none_of_none : ∀ module, st.modules module = none → st'.modules module = none

namespace Delivers

variable {message : Message} {st st' st'' : PublishState} {l queued queued' : List OcreEvent}

theorem refl (message : Message) (hl : st.events.Serves l) : st.Delivers message st l [] where
  queued_eq := by simp
  serves := by simpa using hl
  some_of_some _ inst hinst := ⟨inst, hinst, .refl inst⟩
  none_of_none _ hnone := hnone

theorem trans (h : st.Delivers message st' l queued)
    (h' : st'.Delivers message st'' (l ++ queued) queued') :
    st.Delivers message st'' l (queued ++ queued') where
  queued_eq := by rw [h'.queued_eq, h.queued_eq, List.append_assoc]
  serves := by
    rw [← List.append_assoc]
    exact h'.serves
  some_of_some module inst hinst := by
    obtain ⟨inst', hinst', hgains⟩ := h.some_of_some module inst hinst
    obtain ⟨inst'', hinst'', hgains'⟩ := h'.some_of_some module inst' hinst'
    refine ⟨inst'', hinst'', ?_⟩
    have hall := hgains.trans hgains'
    rwa [copiesFor, copiesFor, ← List.flatMap_append, ← List.filter_append] at hall
  none_of_none module hnone := h'.none_of_none module (h.none_of_none module hnone)

/-- A change of the memory of one target. -/
theorem of_target {target : ℕ} {inst inst' : ModuleInst} (hinst : st.modules target = some inst)
    (hqueued : st'.queued = st.queued ++ queued) (hserves : st'.events.Serves (l ++ queued))
    (hmodules : st'.modules = update st.modules target (some inst'))
    (howner : ∀ event ∈ queued, event.owner = target)
    (hgains : inst.Gains inst' (queued.flatMap fun event ↦ event.data.copies message)) :
    st.Delivers message st' l queued := by
  refine ⟨hqueued, hserves, ?_, ?_⟩
  · intro module old hold
    by_cases hmodule : module = target
    · subst hmodule
      obtain rfl := Option.some.inj (hinst.symm.trans hold)
      refine ⟨inst', by rw [hmodules, Function.update_self], ?_⟩
      rwa [copiesFor, List.filter_eq_self.mpr]
      intro event hevent
      simpa using howner event hevent
    · refine ⟨old, by rw [hmodules, Function.update_of_ne hmodule, hold], ?_⟩
      have hnone : queued.filter (·.owner = module) = [] := by
        rw [List.filter_eq_nil_iff]
        intro event hevent
        rw [howner event hevent]
        simpa using Ne.symm hmodule
      rw [copiesFor, hnone]
      exact .refl old
  · intro module hnone
    have hmodule : module ≠ target := by
      rintro rfl
      rw [hinst] at hnone
      cases hnone
    rw [hmodules, Function.update_of_ne hmodule, hnone]

end Delivers

end PublishState

section Loop

variable {message : Message} {messageId : UInt32} {target : ℕ} {inst : ModuleInst}
  {st st' : PublishState} {l : List OcreEvent}

theorem publishTo_delivers {offsets : DupOffsets} (hinst : st.modules target = some inst)
    (hl : st.events.Serves l) (hfresh : inst.GivesFresh offsets)
    (h : publishTo message messageId offsets target inst st = some st') :
    st.Delivers message st' l (if offsets.AllSome ∧ l.length < sizeOcreEventBuffer
      then [message.event messageId offsets target] else []) := by
  have hnothing {inst' : ModuleInst} (hcopies : inst'.copies = inst.copies)
      (hcontext : inst'.context = inst.context) {st' : PublishState}
      (hqueued : st'.queued = st.queued) (hserves : st'.events.Serves l)
      (hmodules : st'.modules = update st.modules target (some inst')) :
      st.Delivers message st' l [] := by
    refine .of_target hinst ?_ ?_ hmodules ?_ (ModuleInst.gains_of_copies hcopies hcontext)
    · simpa using hqueued
    · simpa using hserves
    · intro event hevent
      cases hevent
  have hsame : st.modules = update st.modules target (some inst) :=
    (Function.update_eq_self_iff.mpr hinst.symm).symm
  unfold publishTo at h
  dsimp only at h
  by_cases htopic : offsets.topic = 0
  · rw [if_pos htopic] at h
    obtain rfl := Option.some.inj h
    rw [if_neg (by simp [DupOffsets.AllSome, htopic])]
    exact hnothing rfl rfl rfl hl hsame
  rw [if_neg htopic] at h
  obtain ⟨hfreshTopic, hfreshContent⟩ := hfresh htopic
  by_cases hcontent : offsets.contentType = 0
  · rw [if_pos hcontent] at h
    obtain rfl := Option.some.inj h
    rw [if_neg (by simp [DupOffsets.AllSome, hcontent])]
    refine hnothing ?_ ?_ rfl hl rfl
    · have hcopies : (inst.dupData offsets.topic (message.topic ++ [0])).copies =
          inst.copies ++ [(offsets.topic, message.topic ++ [0])] := rfl
      exact ModuleInst.copies_foldl_free [offsets.topic] hcopies
        (by simpa using hfreshTopic) (by simp)
    · rfl
  rw [if_neg hcontent] at h
  obtain ⟨hfreshContent, hfreshPayload⟩ := hfreshContent hcontent
  have hfreshContent' : offsets.contentType ∉ inst.live := by
    intro hmem
    exact hfreshContent (List.mem_append_left _ hmem)
  by_cases hpayload : offsets.payload = 0
  · rw [if_pos hpayload] at h
    obtain rfl := Option.some.inj h
    rw [if_neg (by simp [DupOffsets.AllSome, hpayload])]
    refine hnothing ?_ ?_ rfl hl rfl
    · have hcopies : ((inst.dupData offsets.topic (message.topic ++ [0])).dupData
          offsets.contentType (message.contentType ++ [0])).copies = inst.copies ++
            [(offsets.topic, message.topic ++ [0]),
              (offsets.contentType, message.contentType ++ [0])] := by
        simp [ModuleInst.dupData]
      exact ModuleInst.copies_foldl_free [offsets.topic, offsets.contentType] hcopies
        (by simp [hfreshTopic, hfreshContent']) (by simp)
    · rfl
  rw [if_neg hpayload] at h
  have hfreshPayload := hfreshPayload hpayload
  obtain ⟨⟨accepted, events⟩, hput, heq⟩ := Option.map_eq_some_iff.mp h
  obtain ⟨haccepted, hserves⟩ := EventApi.Serves.of_put hl hput
  have hall : offsets.AllSome = true := by simp [DupOffsets.AllSome, htopic, hcontent, hpayload]
  cases accepted with
  | true =>
      have hlt : l.length < sizeOcreEventBuffer := of_decide_eq_true haccepted.symm
      rw [if_pos ⟨hall, hlt⟩]
      subst heq
      refine .of_target hinst rfl hserves rfl ?_ ?_
      · intro event hevent
        obtain rfl := List.mem_singleton.mp hevent
        rfl
      · have htopicGained := (ModuleInst.Gains.refl inst).dupData hfreshTopic (message.topic ++ [0])
        have hcontentGained := htopicGained.dupData
          (by simpa using hfreshContent) (message.contentType ++ [0])
        exact hcontentGained.dupData (by simpa using hfreshPayload) message.payload
  | false =>
      have hlt : ¬ l.length < sizeOcreEventBuffer := of_decide_eq_false haccepted.symm
      rw [if_neg (not_and.mpr fun _ ↦ hlt)]
      subst heq
      refine hnothing ?_ ?_ rfl (by simpa using hserves) rfl
      · have hfreshPayload' : offsets.payload ∉ inst.live := by
          intro hmem
          exact hfreshPayload (List.mem_append_left _ hmem)
        have hcopies : (((inst.dupData offsets.topic (message.topic ++ [0])).dupData
            offsets.contentType (message.contentType ++ [0])).dupData offsets.payload
              message.payload).copies = inst.copies ++ [(offsets.topic, message.topic ++ [0]),
                (offsets.contentType, message.contentType ++ [0]),
                (offsets.payload, message.payload)] := by
          simp [ModuleInst.dupData]
        exact ModuleInst.copies_foldl_free
          [offsets.topic, offsets.contentType, offsets.payload] hcopies
          (by simp [hfreshTopic, hfreshContent', hfreshPayload']) (by simp)
      · rfl

theorem AllocatesFresh.of_skip {offsets : ℕ → DupOffsets} {i : ℕ} {subscription : Subscription}
    {subscriptions : SubscriptionTable}
    (h : AllocatesFresh message messageId offsets i (subscription :: subscriptions) st)
    (hskip : ¬ (subscription.isMatch message.topic = true ∧
      subscription.moduleInst.isSome = true)) :
    AllocatesFresh message messageId offsets (i + 1) subscriptions st := by
  rw [AllocatesFresh] at h
  by_cases hmatch : subscription.isMatch message.topic = true
  · have hnone : subscription.moduleInst = none := by
      rw [← Option.not_isSome_iff_eq_none]
      exact fun hsome ↦ hskip ⟨hmatch, hsome⟩
    rwa [if_neg (not_not.mpr hmatch), hnone] at h
  · rwa [if_pos hmatch] at h

theorem AllocatesFresh.of_target {offsets : ℕ → DupOffsets} {i : ℕ} {subscription : Subscription}
    {subscriptions : SubscriptionTable}
    (h : AllocatesFresh message messageId offsets i (subscription :: subscriptions) st)
    (hmatch : subscription.isMatch message.topic = true)
    (htarget : subscription.moduleInst = some target) (hinst : st.modules target = some inst) :
    inst.GivesFresh (offsets i) ∧
      ∀ st' ∈ publishTo message messageId (offsets i) target inst st,
        AllocatesFresh message messageId offsets (i + 1) subscriptions st' := by
  rw [AllocatesFresh, if_neg (not_not.mpr hmatch), htarget] at h
  simpa only [hinst] using h

/-- As many events as the queue has room for, with their copies. -/
theorem publishLoop_delivers {offsets : ℕ → DupOffsets} {i : ℕ} {subscriptions : SubscriptionTable}
    (hl : st.events.Serves l)
    (hfresh : AllocatesFresh message messageId offsets i subscriptions st)
    (h : publishLoop message messageId offsets i subscriptions st = some st') :
    st.Delivers message st' l ((messageEvents message messageId offsets i subscriptions).take
      (sizeOcreEventBuffer - l.length)) := by
  refine publishLoop_induction (P := fun i subscriptions st ↦ ∀ {l}, st.events.Serves l →
    AllocatesFresh message messageId offsets i subscriptions st →
      st.Delivers message st' l ((messageEvents message messageId offsets i subscriptions).take
        (sizeOcreEventBuffer - l.length))) ?nil ?skip ?target h hl hfresh
  case nil =>
    intro i l hl _
    simpa [messageEvents] using PublishState.Delivers.refl message hl
  case skip =>
    intro i subscription subscriptions st hskip ih l hl hfresh
    rw [messageEvents_of_skip hskip]
    exact ih hl (hfresh.of_skip hskip)
  case target =>
    intro i subscription subscriptions st target inst t hmatch htarget hinst ht _ ih l hl hfresh
    obtain ⟨hgives, hallocates⟩ := hfresh.of_target hmatch htarget hinst
    have hfirst := publishTo_delivers hinst hl hgives ht
    have hall := hfirst.trans (ih hfirst.serves (hallocates t ht))
    rw [messageEvents_of_target hmatch htarget]
    by_cases hcopied : (offsets i).AllSome = true
    · by_cases hlt : l.length < sizeOcreEventBuffer
      · have hroom : sizeOcreEventBuffer - l.length =
            sizeOcreEventBuffer - (l.length + 1) + 1 := by omega
        rw [if_pos hcopied, List.singleton_append, hroom, List.take_succ_cons]
        simpa [hcopied, hlt] using hall
      · have hfull : sizeOcreEventBuffer - l.length = 0 := by omega
        rw [hfull, List.take_zero]
        simpa [hlt, hfull] using hall
    · simpa [hcopied] using hall

end Loop

namespace ApiWorld

variable {w : ApiWorld} {module : ℕ} {args : PublishArgs} {message : Message}
  {offsets : ℕ → DupOffsets} {l : List OcreEvent}

/-- Every active subscription belongs to an instance. -/
def TargetsLive (w : ApiWorld) : Prop :=
  ∀ subscription ∈ w.subscriptions, subscription.isActive = true →
    ∀ target, subscription.moduleInst = some target → (w.modules target).isSome = true

/-- The events of a publish, as many as the queue has room for. -/
def delivered (w : ApiWorld) (message : Message) (offsets : ℕ → DupOffsets)
    (l : List OcreEvent) : List OcreEvent :=
  (messageEvents message w.messageId offsets 0 w.subscriptions).take
    (sizeOcreEventBuffer - l.length)

/-- The result of a publish that has put given events into the queue. -/
structure Published (w : ApiWorld) (message : Message) (l events : List OcreEvent)
    (r : NativeResult) (w' : ApiWorld) : Prop where
  queued : r.queued = events
  serves : w'.events.Serves (l ++ events)
  some_of_some : ∀ module inst, w.modules module = some inst → ∃ inst',
    w'.modules module = some inst' ∧ inst.Gains inst' (copiesFor message module events)
  none_of_none : ∀ module, w.modules module = none → w'.modules module = none
  sent : events ≠ [] → r.ret = 0 ∧ w'.messageId = w.messageId + 1
  unsent : events = [] → r.ret = -2 ∧ w'.messageId = w.messageId
  timers : w'.timers = w.timers
  subscriptions : w'.subscriptions = w.subscriptions
  subscriptionCount : w'.subscriptionCount = w.subscriptionCount

theorem published_of_publish {r : NativeResult} {w' : ApiWorld} (hl : w.events.Serves l)
    (hfresh : AllocatesFresh message w.messageId offsets 0 w.subscriptions
      ⟨w.modules, w.events, [], [], []⟩)
    (h : w.publish message offsets = some (r, w')) :
    w.Published message l (w.delivered message offsets l) r w' := by
  obtain ⟨st, hloop, heq⟩ := Option.map_eq_some_iff.mp h
  have hdelivers := publishLoop_delivers hl hfresh hloop
  have hqueued : st.queued = w.delivered message offsets l := hdelivers.queued_eq
  by_cases hsent : st.queued = []
  · rw [if_neg (not_not.mpr hsent)] at heq
    obtain ⟨rfl, rfl⟩ := Prod.mk.inj heq
    refine ⟨hqueued, hdelivers.serves, hdelivers.some_of_some, hdelivers.none_of_none, ?_, ?_, rfl,
      rfl, rfl⟩
    · intro hne
      exact absurd (hqueued.symm.trans hsent) hne
    · intro _
      exact ⟨rfl, rfl⟩
  · rw [if_pos hsent] at heq
    obtain ⟨rfl, rfl⟩ := Prod.mk.inj heq
    refine ⟨hqueued, hdelivers.serves, hdelivers.some_of_some, hdelivers.none_of_none, ?_, ?_, rfl,
      rfl, rfl⟩
    · intro _
      exact ⟨rfl, rfl⟩
    · intro hnil
      exact absurd (hqueued.trans hnil) hsent

/-- An event for an active slot whose topic is a beginning of that of the message, with the
offsets of its three copies. -/
structure IsFor (message : Message) (messageId : UInt32) (subscription : Subscription)
    (offsets : DupOffsets) (event : OcreEvent) : Prop where
  active : subscription.isActive = true
  topic : subscription.topic <+: message.topic
  owner : subscription.moduleInst = some event.owner
  allSome : offsets.AllSome = true
  copies : event.data.copies message = [(offsets.topic, message.topic ++ [0]),
    (offsets.contentType, message.contentType ++ [0]), (offsets.payload, message.payload)]
  words : event.data.words = .ok (some ⟨3, messageId, offsets.topic, offsets.contentType,
    offsets.payload, message.payloadLen.toNat.toUInt32⟩)

theorem exists_isFor_of_mem_messageEvents {messageId : UInt32} {i : ℕ}
    {subscriptions : SubscriptionTable} {event : OcreEvent}
    (h : event ∈ messageEvents message messageId offsets i subscriptions) :
    ∃ j subscription, subscriptions[j]? = some subscription ∧
      IsFor message messageId subscription (offsets (i + j)) event := by
  induction subscriptions generalizing i with
  | nil => simp [messageEvents] at h
  | cons subscription subscriptions ih =>
      have hrest (hmem : event ∈ messageEvents message messageId offsets (i + 1) subscriptions) :
          ∃ j other, (subscription :: subscriptions)[j]? = some other ∧
            IsFor message messageId other (offsets (i + j)) event := by
        obtain ⟨j, other, hother, hfor⟩ := ih hmem
        rw [Nat.add_right_comm, Nat.add_assoc] at hfor
        exact ⟨j + 1, other, hother, hfor⟩
      unfold messageEvents at h
      dsimp only at h
      split at h
      · exact hrest h
      · rename_i target htarget
        split at h
        · rename_i hcreates
          rcases List.mem_cons.mp h with rfl | hmem
          · have hmatch : subscription.isActive = true ∧ subscription.topic <+: message.topic := by
              simpa [Subscription.isMatch] using hcreates.1
            exact ⟨0, subscription, rfl, hmatch.1, hmatch.2, htarget, hcreates.2, rfl, rfl⟩
          · exact hrest hmem
        · exact hrest h

/-- A publish handles the matching slots in their order: an event with three fresh copies for
each of them, as long as its copies can be allocated and the queue has room, and nothing is
left of the others. The owner gets the words of the event when its turn comes. -/
theorem publish_delivers (hl : w.events.Serves l) (hmessage : args.message = some message)
    (hlength : message.payloadLen = message.payload.length)
    (hlive : w.ocreMessagingInit.TargetsLive)
    (hfresh : AllocatesFresh message w.ocreMessagingInit.messageId offsets 0
      w.ocreMessagingInit.subscriptions
      ⟨w.ocreMessagingInit.modules, w.ocreMessagingInit.events, [], [], []⟩) :
    ∃ r w', w.call module (.publish args offsets) = some (r, w') ∧
      w.ocreMessagingInit.Published message l
        (w.ocreMessagingInit.delivered message offsets l) r w' ∧
      ∀ event ∈ w.ocreMessagingInit.delivered message offsets l,
        ∃ i subscription, w.ocreMessagingInit.subscriptions[i]? = some subscription ∧
          IsFor message w.ocreMessagingInit.messageId subscription (offsets i) event ∧
          ∀ (s : EventApi) (l' : List OcreEvent), s.Serves (event :: l') → ∃ s',
            s.ocreGetEvent (some event.owner) true = some (.ok (some ⟨3,
              w.ocreMessagingInit.messageId, (offsets i).topic, (offsets i).contentType,
              (offsets i).payload, message.payload.length.toUInt32⟩), s') ∧ s'.Serves l' := by
  have hl' := serves_ocreMessagingInit hl
  obtain ⟨st, hst⟩ := Option.isSome_iff_exists.mp
    (@publishLoop_isSome message w.ocreMessagingInit.messageId
      ⟨w.ocreMessagingInit.modules, w.ocreMessagingInit.events, [], [], []⟩ offsets 0
      w.ocreMessagingInit.subscriptions l hl' hlive)
  obtain ⟨⟨r, w'⟩, hpublish⟩ : ∃ x, w.ocreMessagingInit.publish message offsets = some x := by
    simp only [publish, hst, Option.map_some]
    exact ⟨_, rfl⟩
  have hcall : w.call module (.publish args offsets) = some (r, w') := by
    simp only [call, ocreMessagingPublish, hmessage]
    exact hpublish
  refine ⟨r, w', hcall, published_of_publish hl' hfresh hpublish, ?_⟩
  intro event hevent
  obtain ⟨i, subscription, hsubscription, hfor⟩ :=
    exists_isFor_of_mem_messageEvents (List.mem_of_mem_take hevent)
  rw [Nat.zero_add] at hfor
  refine ⟨i, subscription, hsubscription, hfor, ?_⟩
  intro s l' hs
  obtain ⟨s', hget, hs'⟩ := hs.ocreGetEvent_of_eq (rfl : event.owner = event.owner)
  refine ⟨s', ?_, hs'⟩
  rw [hget, hfor.words, hlength, Int.toNat_natCast]

/-- Module 1 has subscribed to two topics. -/
def subscribedWorld : ApiWorld where
  events := { EventApi.initial with messagingSystemInitialized := true }
  timers := []
  subscriptions := [⟨cstring "b", some 1, true⟩, ⟨cstring "a", some 1, true⟩]
  subscriptionCount := 2
  messageId := 0
  modules module := if module = 1 then some (.new true true 0) else none
  instantiated := 1
  notifications := []

theorem subscribedWorld_serves : subscribedWorld.events.Serves [] :=
  ⟨EventApi.initial_serves.holds, EventApi.initial_serves.maxItems, rfl, rfl, rfl⟩

/-- A message for the second slot is delivered and numbered 0. -/
theorem publish_delivers_of_subscribed :
    ∃ r w', subscribedWorld.call 2 (.publish
        ⟨some (cstring "a/x"), some (cstring "text"), some [1, 2], 2⟩ fun _ ↦ ⟨8, 16, 24⟩) =
          some (r, w') ∧
      r.ret = 0 ∧ w'.messageId = 1 := by
  have hdelivers := @publish_delivers subscribedWorld 2
    ⟨some (cstring "a/x"), some (cstring "text"), some [1, 2], 2⟩
    ⟨cstring "a/x", cstring "text", [1, 2], 2⟩ (fun _ ↦ ⟨8, 16, 24⟩) []
    subscribedWorld_serves rfl rfl ?_ ?_
  · obtain ⟨r, w', hcall, hpublished, -⟩ := hdelivers
    obtain ⟨hret, hid⟩ := hpublished.sent (by decide)
    exact ⟨r, w', hcall, hret, hid⟩
  · intro subscription hmem _ target htarget
    have hall : ∀ subscription ∈ subscribedWorld.subscriptions,
        subscription.moduleInst = some 1 := by decide
    obtain rfl := Option.some.inj ((hall subscription hmem).symm.trans htarget)
    rfl
  · exact And.intro (by decide) fun _ _ ↦ trivial

end ApiWorld

end OcreRuntime
