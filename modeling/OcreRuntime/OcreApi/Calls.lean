import OcreRuntime.OcreApi.Modules

/-!
# What a call does to the module instances and to the queue

A call of a native changes the memory and the resource counts of instances, but not how far
they have come. A publish creates one event for each matching slot whose copies could be
allocated, and puts it into the queue.
-/

namespace OcreRuntime

open Function (update)
open PartialMap (modify)

/-- The same instance later in its life. -/
structure ModuleInst.Later (inst inst' : ModuleInst) : Prop where
  usesOcreApi : inst'.usesOcreApi = inst.usesOcreApi
  serial : inst'.serial = inst.serial
  context : inst'.context.isSome = true → inst.context.isSome = true
  allocated : inst.allocated ⊆ inst'.allocated

/-- The same instance after a call, which does not change how far it has come. -/
structure ModuleInst.Extends (inst inst' : ModuleInst) : Prop extends inst.Later inst' where
  phase : inst'.phase = inst.phase
  hasContext : inst'.context.isSome = inst.context.isSome

namespace ModuleInst

variable {inst inst' inst'' : ModuleInst}

theorem Later.refl (inst : ModuleInst) : inst.Later inst :=
  ⟨rfl, rfl, id, List.Subset.refl _⟩

theorem Later.trans (h : inst.Later inst') (h' : inst'.Later inst'') : inst.Later inst'' where
  usesOcreApi := h'.usesOcreApi.trans h.usesOcreApi
  serial := h'.serial.trans h.serial
  context hsome := h.context (h'.context hsome)
  allocated := List.Subset.trans h.allocated h'.allocated

instance : Std.Refl Later := ⟨Later.refl⟩

instance : IsTrans ModuleInst Later := ⟨fun _ _ _ ↦ Later.trans⟩

namespace Extends

theorem refl (inst : ModuleInst) : inst.Extends inst := ⟨.refl inst, rfl, rfl⟩

theorem trans (h : inst.Extends inst') (h' : inst'.Extends inst'') : inst.Extends inst'' :=
  ⟨h.toLater.trans h'.toLater, h'.phase.trans h.phase, h'.hasContext.trans h.hasContext⟩

instance : Std.Refl Extends := ⟨refl⟩

instance : IsTrans ModuleInst Extends := ⟨fun _ _ _ ↦ trans⟩

theorem dupData (h : inst.Extends inst') (offset : UInt32) (bytes : List UInt8) :
    inst.Extends (inst'.dupData offset bytes) :=
  h.trans ⟨⟨rfl, rfl, id, List.subset_append_left _ _⟩, rfl, rfl⟩

theorem free (h : inst.Extends inst') (offset : UInt32) : inst.Extends (inst'.free offset) :=
  h.trans ⟨⟨rfl, rfl, id, List.Subset.refl _⟩, rfl, rfl⟩

theorem incrementResourceCount (type : OcreResourceType) (inst : ModuleInst) :
    inst.Extends (inst.incrementResourceCount type) :=
  ⟨⟨rfl, rfl, by simp [ModuleInst.incrementResourceCount], List.Subset.refl _⟩, rfl,
    Option.isSome_map⟩

theorem decrementResourceCount (type : OcreResourceType) (k : ℕ) (inst : ModuleInst) :
    inst.Extends (inst.decrementResourceCount type k) :=
  ⟨⟨rfl, rfl, by simp [ModuleInst.decrementResourceCount], List.Subset.refl _⟩, rfl,
    Option.isSome_map⟩

end Extends

end ModuleInst

/-- The same instances at the same addresses. -/
abbrev Extended (modules modules' : ℕ → Option ModuleInst) : Prop :=
  PartialMap.Kept ModuleInst.Extends modules modules'

/-- The offsets of a message event are those of copies made in the memory of its owner. -/
def OcreEventData.RefersTo (inst : ModuleInst) : OcreEventData → Prop
  | .messaging _ topicOffset contentTypeOffset payloadOffset _ =>
      topicOffset ∈ inst.allocated ∧ contentTypeOffset ∈ inst.allocated ∧
        payloadOffset ∈ inst.allocated
  | _ => True

theorem OcreEventData.RefersTo.later {data : OcreEventData} {inst inst' : ModuleInst}
    (h : data.RefersTo inst) (hlater : inst.Later inst') : data.RefersTo inst' := by
  cases data with
  | messaging messageId topicOffset contentTypeOffset payloadOffset payloadLen =>
      exact ⟨hlater.allocated h.1, hlater.allocated h.2.1, hlater.allocated h.2.2⟩
  | _ => trivial

/-- What the callback of a timer puts into the queue. -/
def OcreTimer.events (timer : OcreTimer) : List OcreEvent :=
  if timer.inUse then timer.owner.toList.map timer.event else []

/-- All copies of a slot can be allocated. -/
def DupOffsets.AllSome (offsets : DupOffsets) : Bool :=
  offsets.topic ≠ 0 ∧ offsets.contentType ≠ 0 ∧ offsets.payload ≠ 0

/-- The events of a publish, from a slot on. -/
def messageEvents (message : Message) (messageId : UInt32) (offsets : ℕ → DupOffsets) :
    ℕ → SubscriptionTable → List OcreEvent
  | _, [] => []
  | i, subscription :: subscriptions =>
      let events := messageEvents message messageId offsets (i + 1) subscriptions
      match subscription.moduleInst with
      | none => events
      | some target =>
          if subscription.isMatch message.topic ∧ (offsets i).AllSome then
            message.event messageId (offsets i) target :: events
          else events

theorem exists_eq_of_mem_messageEvents {message : Message} {messageId : UInt32}
    {offsets : ℕ → DupOffsets} {i : ℕ} {subscriptions : SubscriptionTable} {event : OcreEvent}
    (h : event ∈ messageEvents message messageId offsets i subscriptions) :
    ∃ copied target, event = message.event messageId copied target := by
  induction subscriptions generalizing i with
  | nil => simp [messageEvents] at h
  | cons subscription subscriptions ih =>
      unfold messageEvents at h
      dsimp only at h
      split at h
      · exact ih h
      split at h
      · rcases List.mem_cons.mp h with rfl | hmem
        · exact ⟨_, _, rfl⟩
        · exact ih hmem
      · exact ih h

theorem exists_words_of_mem_messageEvents {message : Message} {messageId : UInt32}
    {offsets : ℕ → DupOffsets} {i : ℕ} {subscriptions : SubscriptionTable} {event : OcreEvent}
    (h : event ∈ messageEvents message messageId offsets i subscriptions) :
    ∃ words, event.data.words = .ok words := by
  obtain ⟨copied, target, rfl⟩ := exists_eq_of_mem_messageEvents h
  exact ⟨_, rfl⟩

namespace PublishState

/-- What a part of the loop adds to its state: the events that it creates, and among them
those that the queue takes. -/
structure Adds (st st' : PublishState) (created queued : List OcreEvent) : Prop where
  created_eq : st'.created = st.created ++ created
  queued_eq : st'.queued = st.queued ++ queued
  sublist : queued.Sublist created
  extended : Extended st.modules st'.modules
  serves : ∀ l, st.events.Serves l → st'.events.Serves (l ++ queued)
  messaging : st'.events.messagingSystemInitialized = st.events.messagingSystemInitialized
  refersTo : ∀ event ∈ queued, ∃ inst,
    st'.modules event.owner = some inst ∧ event.data.RefersTo inst

namespace Adds

variable {st st' st'' : PublishState} {created created' queued queued' : List OcreEvent}

theorem refl (st : PublishState) : st.Adds st [] [] :=
  ⟨by simp, by simp, .refl _, .refl _, by simp, rfl, by simp⟩

theorem trans (h : st.Adds st' created queued) (h' : st'.Adds st'' created' queued') :
    st.Adds st'' (created ++ created') (queued ++ queued') where
  created_eq := by rw [h'.created_eq, h.created_eq, List.append_assoc]
  queued_eq := by rw [h'.queued_eq, h.queued_eq, List.append_assoc]
  sublist := h.sublist.append h'.sublist
  extended := h.extended.trans h'.extended
  serves l hl := by
    rw [← List.append_assoc]
    exact h'.serves _ (h.serves l hl)
  messaging := h'.messaging.trans h.messaging
  refersTo event hevent := by
    rcases List.mem_append.mp hevent with hevent | hevent
    · obtain ⟨inst, hinst, hrefers⟩ := h.refersTo event hevent
      obtain ⟨inst', hinst', hext⟩ := h'.extended.some_of_some _ _ hinst
      exact ⟨inst', hinst', hrefers.later hext.toLater⟩
    · exact h'.refersTo event hevent

/-- A slot that creates no event changes at most the memory of its target. -/
theorem of_modules (hcreated : st'.created = st.created) (hqueued : st'.queued = st.queued)
    (hevents : st'.events = st.events) (h : Extended st.modules st'.modules) :
    st.Adds st' [] [] :=
  ⟨by simp [hcreated], by simp [hqueued], .refl _, h, by simp [hevents], by rw [hevents], by simp⟩

end Adds

end PublishState

namespace EventApi

variable {s s' : EventApi} {l : List OcreEvent} {event : OcreEvent} {accepted : Bool}

theorem messagingSystemInitialized_of_put (h : s.put event = some (accepted, s')) :
    s'.messagingSystemInitialized = s.messagingSystemInitialized := by
  obtain ⟨r, -, heq⟩ := Option.map_eq_some_iff.mp h
  cases heq
  rfl

theorem messagingSystemInitialized_of_ocreGetEvent {module : Option ℕ} {offsets : Bool}
    {result : Except Int (Option EventWords)}
    (h : s.ocreGetEvent module offsets = some (result, s')) :
    s'.messagingSystemInitialized = s.messagingSystemInitialized := by
  rcases ocreGetEvent_cases h with ⟨-, rfl⟩ | ⟨taken, q, -, rfl⟩
  · rfl
  · rfl

theorem Serves.of_put (hl : s.Serves l) (h : s.put event = some (accepted, s')) :
    accepted = decide (l.length < sizeOcreEventBuffer) ∧
      s'.Serves (l ++ if accepted then [event] else []) := by
  obtain ⟨t, ht, hserves⟩ := hl.put event
  obtain ⟨hfirst, rfl⟩ := Prod.mk.inj (Option.some.inj (h.symm.trans ht))
  subst hfirst
  by_cases hlt : l.length < sizeOcreEventBuffer
  · simpa [fifoPut, hlt] using hserves
  · simpa [fifoPut, hlt] using hserves

end EventApi

section Publish

variable {message : Message} {messageId : UInt32} {target : ℕ} {inst : ModuleInst}
  {st st' : PublishState}

/-- The rule for a loop that is defined: a slot is passed over, or the loop goes on from what
is done for its target. -/
theorem publishLoop_induction {offsets : ℕ → DupOffsets}
    {P : ℕ → SubscriptionTable → PublishState → Prop} (nil : ∀ i, P i [] st')
    (skip : ∀ i subscription subscriptions st,
      ¬ (subscription.isMatch message.topic = true ∧ subscription.moduleInst.isSome = true) →
        P (i + 1) subscriptions st → P i (subscription :: subscriptions) st)
    (target : ∀ i subscription subscriptions st target inst t,
      subscription.isMatch message.topic = true → subscription.moduleInst = some target →
      st.modules target = some inst →
      publishTo message messageId (offsets i) target inst st = some t →
      publishLoop message messageId offsets (i + 1) subscriptions t = some st' →
        P (i + 1) subscriptions t → P i (subscription :: subscriptions) st)
    {i : ℕ} {subscriptions : SubscriptionTable}
    (h : publishLoop message messageId offsets i subscriptions st = some st') :
    P i subscriptions st := by
  induction subscriptions generalizing i st with
  | nil =>
      obtain rfl : st = st' := Option.some.inj h
      exact nil i
  | cons subscription subscriptions ih =>
      rw [publishLoop] at h
      by_cases hmatch : subscription.isMatch message.topic = true
      swap
      · rw [if_pos hmatch] at h
        exact skip i subscription subscriptions st (fun hboth ↦ hmatch hboth.1) (ih h)
      rw [if_neg (not_not.mpr hmatch)] at h
      cases htarget : subscription.moduleInst with
      | none =>
          rw [htarget] at h
          exact skip i subscription subscriptions st (by simp [htarget]) (ih h)
      | some owner =>
          cases hinst : st.modules owner with
          | none => simp [htarget, hinst] at h
          | some inst =>
              simp only [htarget, hinst] at h
              obtain ⟨t, ht, hrest⟩ := Option.bind_eq_some_iff.mp h
              exact target i subscription subscriptions st owner inst t hmatch htarget hinst ht
                hrest (ih hrest)

theorem messageEvents_of_skip {offsets : ℕ → DupOffsets} {i : ℕ} {subscription : Subscription}
    {subscriptions : SubscriptionTable}
    (h : ¬ (subscription.isMatch message.topic = true ∧ subscription.moduleInst.isSome = true)) :
    messageEvents message messageId offsets i (subscription :: subscriptions) =
      messageEvents message messageId offsets (i + 1) subscriptions := by
  rw [messageEvents]
  cases htarget : subscription.moduleInst with
  | none => rfl
  | some target =>
      have hmatch : ¬ subscription.isMatch message.topic = true :=
        fun hmatch ↦ h ⟨hmatch, by simp [htarget]⟩
      exact if_neg fun hboth ↦ hmatch hboth.1

theorem messageEvents_of_target {offsets : ℕ → DupOffsets} {i : ℕ} {subscription : Subscription}
    {subscriptions : SubscriptionTable} (hmatch : subscription.isMatch message.topic = true)
    (htarget : subscription.moduleInst = some target) :
    messageEvents message messageId offsets i (subscription :: subscriptions) =
      (if (offsets i).AllSome then [message.event messageId (offsets i) target] else []) ++
        messageEvents message messageId offsets (i + 1) subscriptions := by
  rw [messageEvents, htarget]
  by_cases hall : (offsets i).AllSome = true
  · simp [hmatch, hall]
  · simp [hall]

theorem publishTo_adds {offsets : DupOffsets} (hinst : st.modules target = some inst)
    (h : publishTo message messageId offsets target inst st = some st') :
    ∃ queued, st.Adds st'
      (if offsets.AllSome then [message.event messageId offsets target] else []) queued := by
  have hstore : ∀ inst', inst.Extends inst' →
      Extended st.modules (update st.modules target (some inst')) :=
    fun inst' hext ↦ .update hinst hext
  unfold publishTo at h
  by_cases htopic : offsets.topic = 0
  · simp only [htopic, if_true, Option.some.injEq] at h
    subst h
    have hadds : st.Adds (st.read .topic) [] [] := .of_modules rfl rfl rfl (.refl _)
    exact ⟨[], by simpa [DupOffsets.AllSome, htopic] using hadds⟩
  by_cases hcontent : offsets.contentType = 0
  · simp only [htopic, hcontent, if_true, if_false, Option.some.injEq] at h
    have hadds : st.Adds st' [] [] := by
      subst h
      refine .of_modules rfl rfl rfl ?_
      exact hstore _ ((ModuleInst.Extends.refl inst).dupData _ _ |>.free _)
    exact ⟨[], by simpa [DupOffsets.AllSome, hcontent] using hadds⟩
  by_cases hpayload : offsets.payload = 0
  · simp only [htopic, hcontent, hpayload, if_true, if_false, Option.some.injEq] at h
    have hadds : st.Adds st' [] [] := by
      subst h
      refine .of_modules rfl rfl rfl ?_
      exact hstore _
        ((ModuleInst.Extends.refl inst).dupData _ _ |>.dupData _ _ |>.free _ |>.free _)
    exact ⟨[], by simpa [DupOffsets.AllSome, hpayload] using hadds⟩
  have hall : offsets.AllSome = true := by simp [DupOffsets.AllSome, htopic, hcontent, hpayload]
  simp only [htopic, hcontent, hpayload, if_false] at h
  obtain ⟨⟨accepted, events⟩, hput, heq⟩ := Option.map_eq_some_iff.mp h
  have hext := (ModuleInst.Extends.refl inst).dupData offsets.topic (message.topic ++ [0])
    |>.dupData offsets.contentType (message.contentType ++ [0])
    |>.dupData offsets.payload message.payload
  have hmessaging := EventApi.messagingSystemInitialized_of_put hput
  rw [if_pos hall]
  cases accepted with
  | true =>
      refine ⟨[message.event messageId offsets target], ?_⟩
      subst heq
      refine ⟨rfl, rfl, .refl _, hstore _ hext, ?_, hmessaging, ?_⟩
      · intro l hl
        exact (hl.of_put hput).2
      · intro event hevent
        obtain rfl := List.mem_singleton.mp hevent
        refine ⟨_, Function.update_self .., ?_⟩
        simp [Message.event, OcreEventData.RefersTo, ModuleInst.dupData]
  | false =>
      refine ⟨[], ?_⟩
      subst heq
      refine ⟨rfl, by simp [PublishState.storeModule, PublishState.read],
        List.nil_sublist _, hstore _ (hext.free _ |>.free _ |>.free _), ?_, hmessaging, by simp⟩
      intro l hl
      simpa using (hl.of_put hput).2

theorem publishLoop_adds {offsets : ℕ → DupOffsets} {i : ℕ} {subscriptions : SubscriptionTable}
    (h : publishLoop message messageId offsets i subscriptions st = some st') :
    ∃ queued, st.Adds st' (messageEvents message messageId offsets i subscriptions) queued := by
  refine publishLoop_induction (P := fun i subscriptions st ↦ ∃ queued, st.Adds st'
    (messageEvents message messageId offsets i subscriptions) queued) ?nil ?skip ?target h
  case nil => exact fun _ ↦ ⟨[], .refl st'⟩
  case skip =>
    intro i subscription subscriptions st hskip ih
    rwa [messageEvents_of_skip hskip]
  case target =>
    intro i subscription subscriptions st target inst t hmatch htarget hinst ht _ ih
    obtain ⟨queued, hqueued⟩ := publishTo_adds hinst ht
    obtain ⟨queued', hqueued'⟩ := ih
    rw [messageEvents_of_target hmatch htarget]
    exact ⟨queued ++ queued', hqueued.trans hqueued'⟩

theorem publishTo_isSome {offsets : DupOffsets} {l : List OcreEvent} (hl : st.events.Serves l) :
    (publishTo message messageId offsets target inst st).isSome = true := by
  unfold publishTo
  dsimp only
  split
  · rfl
  split
  · rfl
  split
  · rfl
  · obtain ⟨events, hput, -⟩ := hl.put (message.event messageId offsets target)
    simp [PublishState.read, hput]

/-- The loop is defined as long as the owners of active slots are instantiated. -/
theorem publishLoop_isSome {offsets : ℕ → DupOffsets} {i : ℕ} {subscriptions : SubscriptionTable}
    {l : List OcreEvent} (hl : st.events.Serves l)
    (hlive : ∀ subscription ∈ subscriptions, subscription.isActive = true →
      ∀ target, subscription.moduleInst = some target → (st.modules target).isSome = true) :
    (publishLoop message messageId offsets i subscriptions st).isSome = true := by
  induction subscriptions generalizing i st l with
  | nil => rfl
  | cons subscription subscriptions ih =>
      have hrest : ∀ x ∈ subscriptions, x.isActive = true → ∀ target,
          x.moduleInst = some target → (st.modules target).isSome = true :=
        fun x hx ↦ hlive x (List.mem_cons_of_mem _ hx)
      rw [publishLoop]
      by_cases hmatch : subscription.isMatch message.topic = true
      swap
      · rw [if_pos hmatch]
        exact ih hl hrest
      rw [if_neg (not_not.mpr hmatch)]
      cases htarget : subscription.moduleInst with
      | none => exact ih hl hrest
      | some target =>
          have hactive : subscription.isActive = true := by
            simp only [Subscription.isMatch, Bool.decide_and, Bool.and_eq_true,
              decide_eq_true_eq] at hmatch
            exact hmatch.1
          obtain ⟨inst, hinst⟩ := Option.isSome_iff_exists.mp
            (hlive subscription List.mem_cons_self hactive target htarget)
          obtain ⟨st', hst'⟩ := Option.isSome_iff_exists.mp
            (@publishTo_isSome message messageId target inst st (offsets i) l hl)
          obtain ⟨queued, hadds⟩ := publishTo_adds hinst hst'
          simp only [hinst, hst', Option.bind_some]
          refine ih (hadds.serves l hl) ?_
          intro x hx hx' other hother
          obtain ⟨old, hold⟩ := Option.isSome_iff_exists.mp (hrest x hx hx' other hother)
          obtain ⟨new, hnew, -⟩ := hadds.extended.some_of_some other old hold
          simp [hnew]

end Publish

namespace ApiWorld

variable {w w' : ApiWorld} {module : ℕ} {r : NativeResult} {l : List OcreEvent}

theorem modules_ocreMessagingInit (w : ApiWorld) : w.ocreMessagingInit.modules = w.modules := by
  unfold ocreMessagingInit
  split <;> rfl

theorem timers_ocreMessagingInit (w : ApiWorld) : w.ocreMessagingInit.timers = w.timers := by
  unfold ocreMessagingInit
  split <;> rfl

theorem serves_ocreMessagingInit (h : w.events.Serves l) :
    w.ocreMessagingInit.events.Serves l := by
  unfold ocreMessagingInit
  split
  · exact h
  · exact ⟨h.holds, h.maxItems, h.commonInitialized, h.ocreEventQueueInitialized,
      h.timerSystemInitialized⟩

theorem messaging_ocreMessagingInit (w : ApiWorld) :
    w.ocreMessagingInit.events.messagingSystemInitialized = true := by
  unfold ocreMessagingInit
  split
  · assumption
  · rfl

theorem exists_adds_of_publish {message : Message} {offsets : ℕ → DupOffsets}
    (h : w.publish message offsets = some (r, w')) :
    ∃ st, PublishState.Adds ⟨w.modules, w.events, [], [], []⟩ st
        (messageEvents message w.messageId offsets 0 w.subscriptions) r.queued ∧
      r.created = messageEvents message w.messageId offsets 0 w.subscriptions ∧
      w'.modules = st.modules ∧ w'.events = st.events ∧ w'.timers = w.timers ∧
      w'.subscriptions = w.subscriptions := by
  obtain ⟨st, hloop, heq⟩ := Option.map_eq_some_iff.mp h
  obtain ⟨queued, hadds⟩ := publishLoop_adds hloop
  have hqueued : st.queued = queued := hadds.queued_eq
  have hcreated := hadds.created_eq
  rw [List.nil_append] at hcreated
  refine ⟨st, ?_⟩
  by_cases hsent : st.queued = []
  · rw [if_neg (not_not.mpr hsent)] at heq
    cases heq
    exact ⟨hqueued ▸ hadds, hcreated, rfl, rfl, rfl, rfl⟩
  · rw [if_pos hsent] at heq
    cases heq
    exact ⟨hqueued ▸ hadds, hcreated, rfl, rfl, rfl, rfl⟩

/-- A subscription changes nothing, or takes a free slot and is counted. -/
theorem subscribe_cases (w : ApiWorld) (module : ℕ) (topic : CString) :
    (w.subscribe module topic).2 = w ∨
      ∃ subscriptions, topic ≠ [] ∧ w.hasContext module = true ∧
        w.subscriptions.isSubscribed module topic = false ∧
        w.subscriptions.storeFree (SubscriptionTable.newSubscription module topic) =
          some subscriptions ∧
        (w.subscribe module topic).2 = { w with
          subscriptions := subscriptions
          subscriptionCount := w.subscriptionCount + 1
          modules := modify w.modules module (.incrementResourceCount .messaging) } := by
  unfold subscribe
  split
  · exact .inl rfl
  next htopic =>
    split
    · exact .inl rfl
    next hcontext =>
      split
      · exact .inl rfl
      next hnew =>
        split
        · exact .inl rfl
        next subscriptions hstore =>
          exact .inr ⟨subscriptions, htopic, not_not.mp hcontext, Bool.eq_false_iff.mpr hnew,
            hstore, rfl⟩

theorem events_subscribe (w : ApiWorld) (module : ℕ) (topic : CString) :
    (w.subscribe module topic).2.events = w.events := by
  rcases w.subscribe_cases module topic with hsame | ⟨subscriptions, -, -, -, -, hsubscribe⟩
  · rw [hsame]
  · rw [hsubscribe]

theorem ocreMessagingSubscribe_modules (w : ApiWorld) (module : ℕ) (topic : Option CString) :
    Extended w.modules (w.ocreMessagingSubscribe module topic).2.modules := by
  have hinit := modules_ocreMessagingInit w
  unfold ocreMessagingSubscribe
  rcases w.ocreMessagingInit.subscribe_cases module (topic.getD []) with
    hsame | ⟨subscriptions, -, -, -, -, hsubscribe⟩
  · rw [hsame, hinit]
    exact .refl _
  · rw [hsubscribe, ← hinit]
    exact .modify _ module (.incrementResourceCount .messaging)

theorem call_extended {call : NativeCall} (h : w.call module call = some (r, w')) :
    Extended w.modules w'.modules := by
  cases call with
  | timerCreate id coreInit =>
      obtain ⟨-, rfl⟩ := Prod.mk.inj (Option.some.inj h)
      exact .ite (.modify _ module (.incrementResourceCount .timer)) (.refl _)
  | timerDelete id =>
      obtain ⟨-, rfl⟩ := Prod.mk.inj (Option.some.inj h)
      exact .ite (.modify _ module (.decrementResourceCount .timer 1)) (.refl _)
  | timerStart | timerStop | timerGetRemaining =>
      obtain ⟨-, rfl⟩ := Prod.mk.inj (Option.some.inj h)
      exact .refl _
  | subscribe topic =>
      obtain ⟨-, rfl⟩ := Prod.mk.inj (Option.some.inj h)
      exact ocreMessagingSubscribe_modules w module topic
  | publish args offsets =>
      have hinit : Extended w.modules w.ocreMessagingInit.modules :=
        modules_ocreMessagingInit w ▸ .refl _
      simp only [ApiWorld.call, ocreMessagingPublish] at h
      cases hmessage : args.message with
      | none =>
          rw [hmessage] at h
          obtain ⟨-, rfl⟩ := Prod.mk.inj (Option.some.inj h)
          exact hinit
      | some message =>
          rw [hmessage] at h
          obtain ⟨st, hadds, -, hmodules, -⟩ := exists_adds_of_publish h
          exact hinit.trans (hmodules ▸ hadds.extended)
  | freeModuleEventData topic contentType payload =>
      obtain ⟨-, rfl⟩ := Prod.mk.inj (Option.some.inj h)
      apply PartialMap.Kept.modify
      intro inst
      exact (ModuleInst.Extends.refl inst).free _ |>.free _ |>.free _
  | getEvent offsets =>
      obtain ⟨got, -, heq⟩ := Option.map_eq_some_iff.mp h
      obtain ⟨-, rfl⟩ := Prod.mk.inj heq
      exact .refl _

/-- A call other than `ocre_get_event` appends to the queue what it has queued, with the
offsets of copies in the memory of the owner. -/
theorem serves_of_call {call : NativeCall} (hl : w.events.Serves l)
    (hget : ∀ offsets, call ≠ .getEvent offsets) (h : w.call module call = some (r, w')) :
    w'.events.Serves (l ++ r.queued) ∧
      ∀ event ∈ r.queued, (∃ words, event.data.words = .ok words) ∧
        ∃ inst, w'.modules event.owner = some inst ∧ event.data.RefersTo inst := by
  cases call with
  | timerCreate | timerDelete | timerStart | timerStop | timerGetRemaining
  | freeModuleEventData =>
      obtain ⟨rfl, rfl⟩ := Prod.mk.inj (Option.some.inj h)
      have hevents : w.events.Serves (l ++ []) := by simpa using hl
      exact ⟨hevents, by simp⟩
  | subscribe topic =>
      obtain ⟨rfl, rfl⟩ := Prod.mk.inj (Option.some.inj h)
      have hinit := serves_ocreMessagingInit hl
      simpa [ocreMessagingSubscribe, events_subscribe] using hinit
  | publish args offsets =>
      have hinit := serves_ocreMessagingInit hl
      simp only [ApiWorld.call, ocreMessagingPublish] at h
      cases hmessage : args.message with
      | none =>
          rw [hmessage] at h
          obtain ⟨rfl, rfl⟩ := Prod.mk.inj (Option.some.inj h)
          simpa using hinit
      | some message =>
          rw [hmessage] at h
          obtain ⟨st, hadds, -, hmodules, hevents, -⟩ := exists_adds_of_publish h
          rw [hmodules, hevents]
          refine ⟨hadds.serves l hinit, ?_⟩
          intro event hevent
          exact ⟨exists_words_of_mem_messageEvents (hadds.sublist.subset hevent),
            hadds.refersTo event hevent⟩
  | getEvent offsets => exact absurd rfl (hget offsets)

theorem serves_of_getEvent {offsets : Bool} (hl : w.events.Serves l)
    (h : w.call module (.getEvent offsets) = some (r, w')) :
    ∃ events, w' = { w with events := events } ∧
      events.messagingSystemInitialized = w.events.messagingSystemInitialized ∧
      events.Serves (if offsets then (fifoGet module l).2 else l) ∧
      r = .ofGetEvent (if offsets then (fifoGet module l).1 else .error (-22)) := by
  obtain ⟨⟨result, events⟩, hget, heq⟩ := Option.map_eq_some_iff.mp h
  cases heq
  refine ⟨events, rfl, EventApi.messagingSystemInitialized_of_ocreGetEvent hget, ?_⟩
  cases offsets with
  | false =>
      obtain ⟨rfl, rfl⟩ := Prod.mk.inj (Option.some.inj hget)
      exact ⟨hl, rfl⟩
  | true =>
      obtain ⟨s', hget', hs'⟩ := hl.ocreGetEvent module
      obtain ⟨rfl, rfl⟩ := Prod.mk.inj (Option.some.inj (hget.symm.trans hget'))
      exact ⟨hs', rfl⟩

theorem exists_serves_of_call (hl : w.events.Serves l) {call : NativeCall}
    (h : w.call module call = some (r, w')) : ∃ l', w'.events.Serves l' := by
  by_cases hget : ∃ offsets, call = .getEvent offsets
  · obtain ⟨offsets, rfl⟩ := hget
    obtain ⟨events, rfl, -, hserves, -⟩ := serves_of_getEvent hl h
    exact ⟨_, hserves⟩
  · push Not at hget
    exact ⟨_, (serves_of_call hl hget h).1⟩

section Perform

variable {inst : ModuleInst} {slot : ℕ} {uptime : UInt32}

theorem perform_instantiate {usesOcreApi malloc : Bool}
    (h : w.perform (.instantiate module usesOcreApi malloc) = some (r, w')) :
    w.modules module = none ∧ w' = w.instantiate module usesOcreApi malloc := by
  obtain ⟨hnone, heq⟩ := Option.ite_none_left_eq_some.mp h
  exact ⟨by simpa using hnone, (Prod.mk.inj (Option.some.inj heq)).2.symm⟩

theorem modules_instantiate_self (w : ApiWorld) (module : ℕ) (usesOcreApi malloc : Bool) :
    (w.instantiate module usesOcreApi malloc).modules module =
      some (.new usesOcreApi malloc w.instantiated) :=
  Function.update_self ..

theorem modules_instantiate_of_ne {other : ℕ} (h : other ≠ module) (usesOcreApi malloc : Bool) :
    (w.instantiate module usesOcreApi malloc).modules other = w.modules other :=
  Function.update_of_ne h ..

theorem perform_native {call : NativeCall} (h : w.perform (.native module call) = some (r, w')) :
    ∃ inst, w.modules module = some inst ∧ inst.phase = .main ∧
      w.call module call = some (r, w') := by
  obtain ⟨inst, hinst, hrest⟩ := Option.bind_eq_some_iff.mp h
  obtain ⟨hphase, hcall⟩ := Option.ite_none_left_eq_some.mp hrest
  exact ⟨inst, hinst, not_not.mp hphase, hcall⟩

theorem perform_returnMain (h : w.perform (.returnMain module) = some (r, w')) :
    ∃ inst, w.modules module = some inst ∧ inst.phase = .main ∧
      w' = w.setPhase module
        (if inst.usesOcreApi then .cleaning false ocreResourceTypes else .ended) := by
  obtain ⟨inst, hinst, hrest⟩ := Option.bind_eq_some_iff.mp h
  obtain ⟨hphase, heq⟩ := Option.ite_none_left_eq_some.mp hrest
  exact ⟨inst, hinst, not_not.mp hphase, (Prod.mk.inj (Option.some.inj heq)).2.symm⟩

theorem perform_cleanup (h : w.perform (.cleanup module) = some (r, w')) :
    ∃ inst, w.modules module = some inst ∧ w.cleanup module inst.phase = some w' := by
  obtain ⟨inst, hinst, hrest⟩ := Option.bind_eq_some_iff.mp h
  obtain ⟨other, hother, heq⟩ := Option.map_eq_some_iff.mp hrest
  cases heq
  exact ⟨inst, hinst, hother⟩

theorem perform_deinstantiate (h : w.perform (.deinstantiate module) = some (r, w')) :
    ∃ inst, w.modules module = some inst ∧ inst.phase = .ended ∧
      w' = w.deinstantiate module := by
  obtain ⟨inst, hinst, hrest⟩ := Option.bind_eq_some_iff.mp h
  obtain ⟨hphase, heq⟩ := Option.ite_none_left_eq_some.mp hrest
  exact ⟨inst, hinst, not_not.mp hphase, (Prod.mk.inj (Option.some.inj heq)).2.symm⟩

theorem perform_expire (h : w.perform (.expire slot) = some (r, w')) :
    ∃ timer, w.timers[slot]? = some timer ∧
      w' = { w with
        timers := w.timers.set slot { timer with timer := timer.timer.expire }
        notifications := w.notifications ++ [slot] } := by
  obtain ⟨timer, htimer, hrest⟩ := Option.bind_eq_some_iff.mp h
  obtain ⟨-, heq⟩ := Option.ite_none_left_eq_some.mp hrest
  exact ⟨timer, htimer, (Prod.mk.inj (Option.some.inj heq)).2.symm⟩

theorem exists_of_unifiedTimerCallback {queued : List OcreEvent}
    (h : w.unifiedTimerCallback slot uptime = some (queued, w')) :
    ∃ timers events, w' = { w with timers := timers, events := events } := by
  unfold unifiedTimerCallback at h
  dsimp only at h
  split at h
  · cases h
    exact ⟨w.timers, w.events, rfl⟩
  split at h
  · cases h
    exact ⟨w.timers, w.events, rfl⟩
  · obtain ⟨r, -, heq⟩ := Option.map_eq_some_iff.mp h
    cases heq
    exact ⟨_, r.2, rfl⟩

theorem exists_of_notify (h : w.perform (.notify slot uptime) = some (r, w')) :
    ∃ timers events notifications, w' = { w with
      timers := timers, events := events, notifications := notifications } := by
  obtain ⟨-, hrest⟩ := Option.ite_none_left_eq_some.mp h
  obtain ⟨⟨queued, other⟩, hother, heq⟩ := Option.map_eq_some_iff.mp hrest
  cases heq
  obtain ⟨timers, events, rfl⟩ := exists_of_unifiedTimerCallback hother
  exact ⟨timers, events, _, rfl⟩

/-- The callback puts an event for the owner of a timer in use, and changes only the timer
itself. -/
theorem of_unifiedTimerCallback (hl : w.events.Serves l) {queued : List OcreEvent}
    (h : w.unifiedTimerCallback slot uptime = some (queued, w')) :
    ∃ events timers, w' = { w with events := events, timers := timers } ∧
      (timers = w.timers ∨ timers = w.timers.set slot ((w.timer slot).fired uptime)) ∧
      events.messagingSystemInitialized = w.events.messagingSystemInitialized ∧
      queued = (if l.length < sizeOcreEventBuffer then (w.timer slot).events else []) ∧
      events.Serves (l ++ queued) := by
  unfold unifiedTimerCallback at h
  by_cases hinUse : (w.timer slot).inUse = true
  swap
  · rw [if_pos (by simp [hinUse])] at h
    cases h
    refine ⟨w.events, w.timers, rfl, .inl rfl, rfl, ?_, by simpa using hl⟩
    simp [OcreTimer.events, hinUse]
  rw [if_neg (by simp [hinUse, hl.timerSystemInitialized, hl.commonInitialized,
    hl.ocreEventQueueInitialized])] at h
  cases howner : (w.timer slot).owner with
  | none =>
      rw [howner] at h
      cases h
      refine ⟨w.events, w.timers, rfl, .inl rfl, rfl, ?_, by simpa using hl⟩
      simp [OcreTimer.events, howner]
  | some owner =>
      rw [howner] at h
      obtain ⟨⟨accepted, events⟩, hput, heq⟩ := Option.map_eq_some_iff.mp h
      cases heq
      obtain ⟨haccepted, hserves⟩ := hl.of_put hput
      refine ⟨events, _, rfl, .inr rfl, EventApi.messagingSystemInitialized_of_put hput, ?_,
        hserves⟩
      by_cases hlt : l.length < sizeOcreEventBuffer
      · simp [haccepted, hlt, OcreTimer.events, hinUse, howner]
      · simp [haccepted, hlt]

theorem modules_of_notify (h : w.perform (.notify slot uptime) = some (r, w')) :
    w'.modules = w.modules := by
  obtain ⟨timers, events, notifications, rfl⟩ := exists_of_notify h
  rfl

theorem perform_notify (hl : w.events.Serves l)
    (h : w.perform (.notify slot uptime) = some (r, w')) :
    ∃ events timers, w' = { w with
        events := events
        timers := timers
        notifications := w.notifications.erase slot } ∧
      (timers = w.timers ∨ timers = w.timers.set slot ((w.timer slot).fired uptime)) ∧
      events.messagingSystemInitialized = w.events.messagingSystemInitialized ∧
      r.queued = (if l.length < sizeOcreEventBuffer then (w.timer slot).events else []) ∧
      events.Serves (l ++ r.queued) := by
  obtain ⟨-, hrest⟩ := Option.ite_none_left_eq_some.mp h
  obtain ⟨⟨queued, other⟩, hother, heq⟩ := Option.map_eq_some_iff.mp hrest
  cases heq
  have hl' : ApiWorld.events { w with notifications := w.notifications.erase slot } |>.Serves l :=
    hl
  exact of_unifiedTimerCallback hl' hother

theorem cleanupHandler_extended (w : ApiWorld) (module : ℕ) (type : OcreResourceType) :
    Extended w.modules (w.cleanupHandler module type).modules := by
  cases type with
  | timer =>
      simp only [cleanupHandler]
      split
      · exact .refl _
      · exact .modify _ module (.decrementResourceCount .timer _)
  | messaging =>
      simp only [cleanupHandler]
      split
      · exact .refl _
      · exact .modify _ module (.decrementResourceCount .messaging _)
  | gpio | sensor => exact .refl _

theorem events_cleanupHandler (w : ApiWorld) (module : ℕ) (type : OcreResourceType) :
    (w.cleanupHandler module type).events = w.events := by
  cases type with
  | timer | messaging =>
      simp only [cleanupHandler]
      split <;> rfl
  | gpio | sensor => rfl

theorem cleanup_cases {phase : ModulePhase} (h : w.cleanup module phase = some w') :
    (∃ unregistering type types, phase = .cleaning unregistering (type :: types) ∧
      w' = (w.cleanupHandler module type).setPhase module (.cleaning unregistering types)) ∨
    (phase = .cleaning false [] ∧
      w' = w.setPhase module (.cleaning true ocreResourceTypes)) ∨
    (phase = .cleaning true [] ∧ w' = { w with modules := modify w.modules module fun inst ↦
      { inst with context := none, phase := .ended } }) := by
  rcases phase with _ | ⟨unregistering, _ | ⟨type, types⟩⟩ | _
  · simp [cleanup] at h
  · cases unregistering with
    | false => exact .inr (.inl ⟨rfl, (Option.some.inj h).symm⟩)
    | true => exact .inr (.inr ⟨rfl, (Option.some.inj h).symm⟩)
  · left
    refine ⟨unregistering, type, types, rfl, ?_⟩
    cases unregistering <;> exact (Option.some.inj h).symm
  · simp [cleanup] at h

theorem events_of_perform {a : ApiAct} (hnative : ∀ module call, a ≠ .native module call)
    (hnotify : ∀ slot uptime, a ≠ .notify slot uptime) (h : w.perform a = some (r, w')) :
    w'.events = w.events := by
  cases a with
  | instantiate module usesOcreApi malloc => rw [(perform_instantiate h).2]; rfl
  | native module call => exact absurd rfl (hnative module call)
  | returnMain module =>
      obtain ⟨inst, -, -, rfl⟩ := perform_returnMain h
      rfl
  | cleanup module =>
      obtain ⟨inst, -, hcleanup⟩ := perform_cleanup h
      rcases cleanup_cases hcleanup with ⟨-, type, -, -, rfl⟩ | ⟨-, rfl⟩ | ⟨-, rfl⟩
      · exact events_cleanupHandler w module type
      · rfl
      · rfl
  | deinstantiate module =>
      obtain ⟨inst, -, -, rfl⟩ := perform_deinstantiate h
      rfl
  | expire slot =>
      obtain ⟨timer, -, rfl⟩ := perform_expire h
      rfl
  | notify slot uptime => exact absurd rfl (hnotify slot uptime)

theorem queued_of_perform {a : ApiAct} (hnative : ∀ module call, a ≠ .native module call)
    (hnotify : ∀ slot uptime, a ≠ .notify slot uptime) (h : w.perform a = some (r, w')) :
    r.queued = [] := by
  cases a with
  | instantiate module usesOcreApi malloc =>
      obtain ⟨-, heq⟩ := Option.ite_none_left_eq_some.mp h
      cases heq
      rfl
  | native module call => exact absurd rfl (hnative module call)
  | returnMain module | deinstantiate module | expire slot =>
      obtain ⟨x, -, hrest⟩ := Option.bind_eq_some_iff.mp h
      obtain ⟨-, heq⟩ := Option.ite_none_left_eq_some.mp hrest
      cases heq
      rfl
  | cleanup module =>
      obtain ⟨inst, -, hrest⟩ := Option.bind_eq_some_iff.mp h
      obtain ⟨other, -, heq⟩ := Option.map_eq_some_iff.mp hrest
      cases heq
      rfl
  | notify slot uptime => exact absurd rfl (hnotify slot uptime)

/-- Apart from instantiation and deinstantiation, a step leaves every instance at its
address. -/
theorem later_of_perform {a : ApiAct}
    (hinstantiate : ∀ module usesOcreApi malloc, a ≠ .instantiate module usesOcreApi malloc)
    (hdeinstantiate : ∀ module, a ≠ .deinstantiate module) (h : w.perform a = some (r, w')) :
    PartialMap.Kept ModuleInst.Later w.modules w'.modules := by
  have hphase : ∀ (phase : ModulePhase) (inst : ModuleInst),
      inst.Later { inst with phase := phase } :=
    fun _ _ ↦ ⟨rfl, rfl, id, List.Subset.refl _⟩
  cases a with
  | instantiate module usesOcreApi malloc =>
      exact absurd rfl (hinstantiate module usesOcreApi malloc)
  | native module call =>
      obtain ⟨inst, -, -, hcall⟩ := perform_native h
      exact (call_extended hcall).mono fun _ _ hext ↦ hext.toLater
  | returnMain module =>
      obtain ⟨inst, -, -, rfl⟩ := perform_returnMain h
      exact .modify _ module (hphase _)
  | cleanup module =>
      obtain ⟨inst, -, hcleanup⟩ := perform_cleanup h
      rcases cleanup_cases hcleanup with ⟨-, type, -, -, rfl⟩ | ⟨-, rfl⟩ | ⟨-, rfl⟩
      · have hhandler := (cleanupHandler_extended w module type).mono fun _ _ hext ↦ hext.toLater
        exact hhandler.trans (.modify _ module (hphase _))
      · exact .modify _ module (hphase _)
      · apply PartialMap.Kept.modify
        intro inst
        exact ⟨rfl, rfl, by simp, List.Subset.refl _⟩
  | deinstantiate module => exact absurd rfl (hdeinstantiate module)
  | expire slot =>
      obtain ⟨timer, -, rfl⟩ := perform_expire h
      exact .refl _
  | notify slot uptime =>
      exact modules_of_notify h ▸ .refl _

end Perform

end ApiWorld

end OcreRuntime
