import OcreRuntime.Lib.Tickets
import OcreRuntime.OcreApi.Calls

/-!
# The ids of messages

A publish numbers its events under the mutex, from a counter that it advances after the
unlock. In between other modules go on, and their publishes find the counter as it was.
-/

namespace OcreRuntime

def OcreEvent.messageId (event : OcreEvent) : Option UInt32 :=
  match event.data with
  | .messaging messageId _ _ _ _ => some messageId
  | _ => none

namespace ApiWorld

variable (w : ApiWorld)

/-- The part of a publish under the mutex, with the events that it has queued. -/
def publishSection (message : Message) (offsets : ℕ → DupOffsets) :
    Option (List OcreEvent × ApiWorld) :=
  (publishLoop message w.messageId offsets 0 w.subscriptions ⟨w.modules, w.events, [], [], []⟩).map
    fun st ↦ (st.queued, { w with modules := st.modules, events := st.events })

/-- The part after the unlock; the message has been sent if an event has been queued. -/
def publishEnd (queued : List OcreEvent) : Int × ApiWorld :=
  if queued ≠ [] then (0, { w with messageId := w.messageId + 1 }) else (-2, w)

/-- The two parts, one directly after the other, are the publish. -/
theorem publish_eq (message : Message) (offsets : ℕ → DupOffsets) :
    (w.publish message offsets).map (fun x ↦ (x.1.ret, x.1.queued, x.2)) =
      (w.publishSection message offsets).map fun x ↦
        ((x.2.publishEnd x.1).1, x.1, (x.2.publishEnd x.1).2) := by
  rw [publish, publishSection, Option.map_map, Option.map_map]
  congr 1
  funext st
  by_cases hnil : st.queued = []
  · simp [publishEnd, hnil]
  · simp [publishEnd, hnil]

end ApiWorld

/-- A call of `ocre_messaging_publish` that has been under the mutex, with the events that
it has queued; `ret` is what it has returned. -/
structure PublishCall where
  caller : ℕ
  queued : List OcreEvent
  ret : Option Int := none

/-- The native API and the publishes that have passed their checks, in the order of their
sections. -/
structure PublishWorld where
  api : ApiWorld
  calls : List PublishCall

/-- What happens: the section of a publish, its end, or anything else. -/
inductive PublishAct
  | enter (module : ℕ) (args : PublishArgs) (offsets : ℕ → DupOffsets)
  | leave (call : ℕ)
  | other (a : ApiAct)

namespace ApiAct

/-- The module whose thread acts. -/
def thread : ApiAct → Option ℕ
  | .native module _ | .returnMain module | .cleanup module | .deinstantiate module => some module
  | .instantiate .. | .expire _ | .notify .. => none

/-- A publish that passes its checks. -/
def publishes : ApiAct → Bool
  | .native _ (.publish args _) => args.message.isSome
  | _ => false

end ApiAct

namespace PublishWorld

variable (w : PublishWorld)

def isPublishing (module : ℕ) : Bool :=
  w.calls.any fun call ↦ call.caller = module ∧ call.ret = none

/-- One step; the thread of a module that is publishing does nothing else. -/
def perform : PublishAct → Option PublishWorld
  | .enter module args offsets =>
      (w.api.modules module).bind fun inst ↦
        if inst.phase ≠ .main ∨ w.isPublishing module then none
        else args.message.bind fun message ↦
          (w.api.ocreMessagingInit.publishSection message offsets).map fun r ↦
            ⟨r.2, w.calls ++ [⟨module, r.1, none⟩]⟩
  | .leave call =>
      w.calls[call]?.bind fun c ↦
        if c.ret ≠ none then none
        else
          let r := w.api.publishEnd c.queued
          some ⟨r.2, w.calls.set call { c with ret := some r.1 }⟩
  | .other a =>
      if a.publishes ∨ a.thread.any w.isPublishing then none
      else (w.api.perform a).map fun r ↦ { w with api := r.2 }

/-- The number of publishes that have returned 0. -/
def successes : ℕ := w.calls.countP (·.ret = some 0)

/-- Two publishes that have returned 0 have given their events different ids, and the
counter has been advanced by one for each. -/
structure IdsUnique : Prop where
  distinct : w.calls.Pairwise fun c d ↦ c.ret = some 0 → d.ret = some 0 →
    ∀ event ∈ c.queued, ∀ event' ∈ d.queued, event.messageId ≠ event'.messageId
  counter : w.api.messageId.toNat = w.successes

end PublishWorld

/-- The publishes of all modules, side by side. -/
def publishSystem (maxTimers maxSubscriptions : ℕ) : StepSystem PublishWorld PublishAct where
  init := (· = ⟨ApiWorld.initial maxTimers maxSubscriptions, []⟩)
  next a w := w.perform a

def EventApi.hasRoom (s : EventApi) : Bool :=
  s.ocreEventQueue.count < s.ocreEventQueue.maxItems

/-- A slot for which an event of a message is created. -/
def Subscription.receives (subscription : Subscription) (message : Message)
    (offsets : DupOffsets) : Bool :=
  subscription.isMatch message.topic ∧ subscription.moduleInst.isSome ∧ offsets.AllSome

/-- A publish finds room in the queue, and a slot that matches and whose three copies can be
allocated. -/
def ApiWorld.canSend (w : ApiWorld) (message : Message) (offsets : ℕ → DupOffsets) : Bool :=
  w.events.hasRoom ∧ w.subscriptions.zipIdx.any fun p ↦ p.1.receives message (offsets p.2)

/-- A message is sent only when no publish that has sent one is between its unlock and its
increment. -/
def SentAlone (a : PublishAct) (w : PublishWorld) : Prop :=
  match a with
  | .enter _ args offsets =>
      ∀ message ∈ args.message, w.api.ocreMessagingInit.canSend message offsets = true →
        ∀ c ∈ w.calls, c.ret = none → c.queued = []
  | _ => True

instance (a : PublishAct) (w : PublishWorld) : Decidable (SentAlone a w) :=
  match a with
  | .enter _ args offsets =>
      inferInstanceAs (Decidable (∀ message ∈ args.message,
        w.api.ocreMessagingInit.canSend message offsets = true →
          ∀ c ∈ w.calls, c.ret = none → c.queued = []))
  | .leave _ | .other _ => .isTrue trivial

section Section

variable {message : Message} {messageId : UInt32} {target : ℕ} {inst : ModuleInst}
  {st st' : PublishState}

theorem EventApi.of_put {s s' : EventApi} {event : OcreEvent} {accepted : Bool}
    (h : s.put event = some (accepted, s')) :
    accepted = s.hasRoom ∧ (s.hasRoom = false → s' = s) := by
  obtain ⟨⟨rc, q⟩, hput, heq⟩ := Option.map_eq_some_iff.mp h
  obtain ⟨rfl, rfl⟩ := Prod.mk.inj heq
  unfold coreEventqPut at hput
  by_cases hfull : s.ocreEventQueue.count ≥ s.ocreEventQueue.maxItems
  · rw [if_pos hfull] at hput
    obtain ⟨rfl, rfl⟩ := Prod.mk.inj (Option.some.inj hput)
    exact ⟨by simpa [hasRoom] using hfull, fun _ ↦ rfl⟩
  · rw [if_neg hfull] at hput
    obtain ⟨cells, -, heq⟩ := Option.map_eq_some_iff.mp hput
    obtain ⟨rfl, rfl⟩ := Prod.mk.inj heq
    have hroom : s.hasRoom = true := by simpa [hasRoom] using hfull
    exact ⟨by simp [hroom], fun hnot ↦ absurd (hnot.symm.trans hroom) Bool.false_ne_true⟩

/-- One slot queues its event if there is room, and leaves the queue alone else. -/
theorem publishTo_queued {offsets : DupOffsets}
    (h : publishTo message messageId offsets target inst st = some st') :
    if offsets.AllSome = true ∧ st.events.hasRoom = true then
      st'.queued = st.queued ++ [message.event messageId offsets target]
    else st'.queued = st.queued ∧ st'.events = st.events := by
  unfold publishTo at h
  dsimp only at h
  by_cases htopic : offsets.topic = 0
  · rw [if_pos htopic] at h
    obtain rfl := Option.some.inj h
    rw [if_neg (by simp [DupOffsets.AllSome, htopic])]
    exact ⟨rfl, rfl⟩
  rw [if_neg htopic] at h
  by_cases hcontent : offsets.contentType = 0
  · rw [if_pos hcontent] at h
    obtain rfl := Option.some.inj h
    rw [if_neg (by simp [DupOffsets.AllSome, hcontent])]
    exact ⟨rfl, rfl⟩
  rw [if_neg hcontent] at h
  by_cases hpayload : offsets.payload = 0
  · rw [if_pos hpayload] at h
    obtain rfl := Option.some.inj h
    rw [if_neg (by simp [DupOffsets.AllSome, hpayload])]
    exact ⟨rfl, rfl⟩
  rw [if_neg hpayload] at h
  have hall : offsets.AllSome = true := by simp [DupOffsets.AllSome, htopic, hcontent, hpayload]
  obtain ⟨⟨accepted, events⟩, hput, heq⟩ := Option.map_eq_some_iff.mp h
  obtain ⟨rfl, hsame⟩ := EventApi.of_put hput
  subst heq
  by_cases hroom : st.events.hasRoom = true
  · rw [if_pos ⟨hall, hroom⟩]
    simp [PublishState.read, hroom, PublishState.storeModule]
  · rw [if_neg fun hboth ↦ hroom hboth.2]
    have hnot := Bool.eq_false_iff.mpr hroom
    simp [PublishState.read, hnot, PublishState.storeModule, hsame hnot]

/-- A section queues an event exactly if there is room at its start and a slot that gets
one. -/
theorem publishLoop_queued_ne_nil_iff {offsets : ℕ → DupOffsets} {i : ℕ}
    {subscriptions : SubscriptionTable} (hnil : st.queued = [])
    (h : publishLoop message messageId offsets i subscriptions st = some st') :
    st'.queued ≠ [] ↔ st.events.hasRoom = true ∧
      (subscriptions.zipIdx i).any (fun p ↦ p.1.receives message (offsets p.2)) = true := by
  refine publishLoop_induction (P := fun i subscriptions st ↦ st.queued = [] →
    (st'.queued ≠ [] ↔ st.events.hasRoom = true ∧
      (subscriptions.zipIdx i).any (fun p ↦ p.1.receives message (offsets p.2)) = true))
    ?nil ?skip ?target h hnil
  case nil => exact fun _ hnil ↦ by simp [hnil]
  case skip =>
    intro i subscription subscriptions st hskip ih hnil
    have hnot : ¬ subscription.receives message (offsets i) = true := by
      intro hreceives
      obtain ⟨hmatch, hsome, -⟩ := of_decide_eq_true hreceives
      exact hskip ⟨hmatch, hsome⟩
    rw [ih hnil, List.zipIdx_cons, List.any_cons, Bool.or_eq_true, or_iff_right hnot]
  case target =>
    intro i subscription subscriptions st target inst t hmatch htarget hinst ht hrest ih hnil
    have hqueued := publishTo_queued ht
    rw [List.zipIdx_cons, List.any_cons, Bool.or_eq_true]
    by_cases hall : (offsets i).AllSome = true
    swap
    · have hnot : ¬ subscription.receives message (offsets i) = true := by
        simp [Subscription.receives, hall]
      rw [if_neg fun hboth ↦ hall hboth.1] at hqueued
      rw [ih (hqueued.1.trans hnil), hqueued.2, or_iff_right hnot]
    have hreceives : subscription.receives message (offsets i) = true := by
      simp [Subscription.receives, hmatch, htarget, hall]
    by_cases hroom : st.events.hasRoom = true
    · rw [if_pos ⟨hall, hroom⟩] at hqueued
      obtain ⟨queued, hadds⟩ := publishLoop_adds hrest
      have hne : st'.queued ≠ [] := by
        rw [hadds.queued_eq, hqueued]
        simp
      exact ⟨fun _ ↦ ⟨hroom, .inl hreceives⟩, fun _ ↦ hne⟩
    · rw [if_neg fun hboth ↦ hroom hboth.2] at hqueued
      rw [ih (hqueued.1.trans hnil), hqueued.2]
      exact ⟨fun hboth ↦ absurd hboth.1 hroom, fun hboth ↦ absurd hboth.1 hroom⟩

theorem messageId_of_mem_messageEvents {offsets : ℕ → DupOffsets} {i : ℕ}
    {subscriptions : SubscriptionTable} {event : OcreEvent}
    (h : event ∈ messageEvents message messageId offsets i subscriptions) :
    event.messageId = some messageId := by
  obtain ⟨copied, target, rfl⟩ := exists_eq_of_mem_messageEvents h
  rfl

end Section

namespace ApiWorld

variable {w w' : ApiWorld} {message : Message} {offsets : ℕ → DupOffsets}
  {queued : List OcreEvent} {r : NativeResult} {a : ApiAct}

/-- What a section does: all its events have the id that it finds, and it leaves the
counter. -/
theorem of_publishSection (h : w.publishSection message offsets = some (queued, w')) :
    (queued ≠ [] ↔ w.canSend message offsets = true) ∧
      (∀ event ∈ queued, event.messageId = some w.messageId) ∧ w'.messageId = w.messageId := by
  obtain ⟨st, hloop, heq⟩ := Option.map_eq_some_iff.mp h
  obtain ⟨rfl, rfl⟩ := Prod.mk.inj heq
  refine ⟨?_, ?_, rfl⟩
  · rw [publishLoop_queued_ne_nil_iff rfl hloop]
    simp [canSend]
  · obtain ⟨queued, hadds⟩ := publishLoop_adds hloop
    have hqueued : st.queued = queued := hadds.queued_eq
    intro event hevent
    rw [hqueued] at hevent
    exact messageId_of_mem_messageEvents (hadds.sublist.subset hevent)

theorem messageId_ocreMessagingInit (w : ApiWorld) :
    w.ocreMessagingInit.messageId = w.messageId := by
  unfold ocreMessagingInit
  split <;> rfl

theorem messageId_subscribe (w : ApiWorld) (module : ℕ) (topic : CString) :
    (w.subscribe module topic).2.messageId = w.messageId := by
  rcases w.subscribe_cases module topic with hsame | ⟨subscriptions, -, -, -, -, hsubscribe⟩
  · rw [hsame]
  · rw [hsubscribe]

theorem messageId_cleanupHandler (w : ApiWorld) (module : ℕ) (type : OcreResourceType) :
    (w.cleanupHandler module type).messageId = w.messageId := by
  cases type with
  | timer | messaging =>
      unfold cleanupHandler
      dsimp only
      split <;> rfl
  | gpio | sensor => rfl

/-- Only a publish that has passed its checks changes the counter. -/
theorem messageId_of_perform (h : w.perform a = some (r, w')) (ha : a.publishes = false) :
    w'.messageId = w.messageId := by
  cases a with
  | instantiate module usesOcreApi malloc =>
      obtain ⟨-, rfl⟩ := perform_instantiate h
      rfl
  | native module call =>
      obtain ⟨-, -, -, hcall⟩ := perform_native h
      cases call with
      | timerCreate | timerDelete | timerStart | timerStop | timerGetRemaining
      | freeModuleEventData =>
          obtain ⟨-, rfl⟩ := Prod.mk.inj (Option.some.inj hcall)
          rfl
      | subscribe topic =>
          obtain ⟨-, rfl⟩ := Prod.mk.inj (Option.some.inj hcall)
          exact (messageId_subscribe ..).trans w.messageId_ocreMessagingInit
      | publish args offsets =>
          have hmessage : args.message = none := by simpa [ApiAct.publishes] using ha
          simp only [ApiWorld.call, ocreMessagingPublish, hmessage] at hcall
          obtain ⟨-, rfl⟩ := Prod.mk.inj (Option.some.inj hcall)
          exact w.messageId_ocreMessagingInit
      | getEvent offsets =>
          obtain ⟨got, -, heq⟩ := Option.map_eq_some_iff.mp hcall
          obtain ⟨-, rfl⟩ := Prod.mk.inj heq
          rfl
  | returnMain module =>
      obtain ⟨-, -, -, rfl⟩ := perform_returnMain h
      rfl
  | cleanup module =>
      obtain ⟨inst, -, hcleanup⟩ := perform_cleanup h
      rcases cleanup_cases hcleanup with ⟨-, type, -, -, rfl⟩ | ⟨-, rfl⟩ | ⟨-, rfl⟩
      · exact w.messageId_cleanupHandler module type
      · rfl
      · rfl
  | deinstantiate module =>
      obtain ⟨-, -, -, rfl⟩ := perform_deinstantiate h
      rfl
  | expire slot =>
      obtain ⟨-, -, rfl⟩ := perform_expire h
      rfl
  | notify slot uptime =>
      obtain ⟨timers, events, notifications, rfl⟩ := exists_of_notify h
      rfl

end ApiWorld

namespace PublishCall

variable {call : PublishCall}

/-- The id of the events of a call. -/
def id (call : PublishCall) : Option UInt32 := call.queued.head?.bind OcreEvent.messageId

/-- A call that has sent a message and has not returned. -/
def isUnfinished (call : PublishCall) : Bool := call.ret = none ∧ call.queued ≠ []

/-- All events of a call have its id, and it returns 0 exactly if it has some. -/
structure Valid (call : PublishCall) : Prop where
  messageId : ∀ event ∈ call.queued, event.messageId = call.id ∧ call.id.isSome = true
  ret : ∀ r ∈ call.ret, r = if call.queued ≠ [] then 0 else -2

theorem exists_event {id : UInt32} (h : call.id = some id) :
    ∃ event ∈ call.queued, event.messageId = some id := by
  obtain ⟨event, hevent, hmessageId⟩ := Option.bind_eq_some_iff.mp h
  exact ⟨event, List.mem_of_mem_head? hevent, hmessageId⟩

theorem filterMap_id_set {calls : List PublishCall} {i : ℕ} (h : calls[i]? = some call)
    (ret : Option Int) :
    (calls.set i { call with ret := ret }).filterMap id = calls.filterMap id := by
  obtain ⟨hlt, rfl⟩ := List.getElem?_eq_some_iff.mp h
  have hmap : (calls.set i { calls[i] with ret := ret }).map id = calls.map id := by
    have hlength : i < (calls.map id).length := by rwa [List.length_map]
    have hset : (calls.map id).set i (calls.map id)[i] = calls.map id :=
      List.set_getElem_self hlength
    rw [List.getElem_map] at hset
    rwa [List.map_set]
  have hfilter (l : List PublishCall) : l.filterMap id = (l.map id).filterMap fun o ↦ o := by
    rw [List.filterMap_map]
    rfl
  rw [hfilter, hmap, ← hfilter]

theorem Valid.id_eq_none_iff (h : call.Valid) : call.id = none ↔ call.queued = [] := by
  constructor
  · intro hnone
    apply List.eq_nil_iff_forall_not_mem.mpr
    intro event hevent
    have hsome := (h.messageId event hevent).2
    rw [hnone] at hsome
    cases hsome
  · intro hnil
    rw [id, hnil]
    rfl

/-- A call that has sent a message has returned 0 or is unfinished. -/
theorem countP_add_countP {calls : List PublishCall} (h : ∀ call ∈ calls, call.Valid) :
    calls.countP (·.ret = some 0) + calls.countP isUnfinished =
      (calls.filterMap id).length := by
  induction calls with
  | nil => rfl
  | cons call calls ih =>
      obtain ⟨hcall, hcalls⟩ := List.forall_mem_cons.mp h
      have hrest := ih hcalls
      have hid := hcall.id_eq_none_iff
      rw [List.countP_cons, List.countP_cons, List.filterMap_cons]
      cases hcallId : call.id with
      | none =>
          have hnil := hid.mp hcallId
          have hret : call.ret ≠ some 0 := by
            intro hzero
            have hr := hcall.ret 0 hzero
            simp [hnil] at hr
          simpa [isUnfinished, hnil, hret] using hrest
      | some id =>
          have hne : call.queued ≠ [] := by simp [← hid, hcallId]
          cases hret : call.ret with
          | none =>
              simp [isUnfinished, hret, hne]
              omega
          | some r =>
              have hr := hcall.ret r hret
              simp [isUnfinished, hret, hr, hne]
              omega

end PublishCall

namespace PublishWorld

variable {w w' : PublishWorld} {a : PublishAct}

/-- The counter as the successful publishes have left it, and the ids that have been given
out. -/
def tickets (w : PublishWorld) : Tickets where
  counter := w.successes
  drawn := (w.calls.filterMap PublishCall.id).map UInt32.toNat

structure Inv (w : PublishWorld) : Prop where
  valid : ∀ call ∈ w.calls, call.Valid
  counter : w.api.messageId.toNat = w.successes % 2 ^ 32

/-- The number of publishes that have sent a message and have not returned. -/
def unfinished (w : PublishWorld) : ℕ := w.calls.countP PublishCall.isUnfinished

theorem successes_add_unfinished (h : ∀ call ∈ w.calls, call.Valid) :
    w.successes + w.unfinished = w.tickets.drawn.length := by
  rw [tickets, List.length_map]
  exact PublishCall.countP_add_countP h

theorem upToDate_iff (h : ∀ call ∈ w.calls, call.Valid) :
    w.tickets.UpToDate ↔ ∀ call ∈ w.calls, call.ret = none → call.queued = [] := by
  have hsum := successes_add_unfinished h
  have hzero : w.unfinished = 0 ↔ ∀ call ∈ w.calls, call.ret = none → call.queued = [] := by
    simp [unfinished, List.countP_eq_zero, PublishCall.isUnfinished]
  rw [← hzero, Tickets.UpToDate, ← hsum]
  constructor
  · intro heq
    exact Nat.left_eq_add.mp heq
  · intro hunfinished
    rw [hunfinished]
    rfl

theorem inv_initial (maxTimers maxSubscriptions : ℕ) :
    Inv ⟨ApiWorld.initial maxTimers maxSubscriptions, []⟩ := ⟨nofun, rfl⟩

/-- The section of a publish draws an id if it sends the message. -/
theorem Inv.enter (h : w.Inv) (hlt : w.successes < 2 ^ 32) {module : ℕ} {args : PublishArgs}
    {offsets : ℕ → DupOffsets} (hstep : w.perform (.enter module args offsets) = some w') :
    w'.Inv ∧ ((w'.tickets = w.tickets ∧ SentAlone (.enter module args offsets) w) ∨
      (w'.tickets = w.tickets.draw ∧
        (SentAlone (.enter module args offsets) w ↔ w.tickets.UpToDate))) := by
  obtain ⟨inst, -, hstep⟩ := Option.bind_eq_some_iff.mp hstep
  obtain ⟨-, hstep⟩ := Option.ite_none_left_eq_some.mp hstep
  obtain ⟨message, hmessage, hstep⟩ := Option.bind_eq_some_iff.mp hstep
  obtain ⟨⟨queued, api⟩, hsection, rfl⟩ := Option.map_eq_some_iff.mp hstep
  obtain ⟨hsends, hids, hcounter⟩ := ApiWorld.of_publishSection hsection
  rw [ApiWorld.messageId_ocreMessagingInit] at hids hcounter
  have hid : PublishCall.id ⟨module, queued, none⟩ =
      if queued = [] then none else some w.api.messageId := by
    cases queued with
    | nil => rfl
    | cons event queued => exact hids event List.mem_cons_self
  have hvalid : PublishCall.Valid ⟨module, queued, none⟩ := by
    refine ⟨?_, nofun⟩
    intro event hevent
    rw [hid, if_neg (List.ne_nil_of_mem hevent)]
    exact ⟨hids event hevent, rfl⟩
  have hsuccesses : successes ⟨api, w.calls ++ [⟨module, queued, none⟩]⟩ = w.successes := by
    simp [successes]
  have hinv : Inv ⟨api, w.calls ++ [⟨module, queued, none⟩]⟩ := by
    refine ⟨?_, ?_⟩
    · intro call hcall
      rcases List.mem_append.mp hcall with hcall | hcall
      · exact h.valid call hcall
      · obtain rfl := List.mem_singleton.mp hcall
        exact hvalid
    · rw [hsuccesses]
      exact (congrArg UInt32.toNat hcounter).trans h.counter
  refine ⟨hinv, ?_⟩
  by_cases hnil : queued = []
  · left
    refine ⟨?_, ?_⟩
    · rw [tickets, hsuccesses, tickets, List.filterMap_append]
      simp only [List.filterMap_cons, hid, if_pos hnil, List.filterMap_nil, List.append_nil]
    · intro other hother hsend
      obtain rfl := Option.some.inj (hmessage.symm.trans hother)
      exact absurd hnil (hsends.mpr hsend)
  · right
    have hnumber : w.api.messageId.toNat = w.successes := by
      rw [h.counter, Nat.mod_eq_of_lt hlt]
    refine ⟨?_, ?_⟩
    · rw [tickets, hsuccesses, tickets, Tickets.draw]
      simp [hid, hnil, hnumber]
    · rw [upToDate_iff h.valid]
      constructor
      · intro halone
        exact halone message hmessage (hsends.mp hnil)
      · intro hall _ _ _
        exact hall

/-- The end of a publish advances the counter by one if it has sent the message. -/
theorem Inv.leave (h : w.Inv) {i : ℕ} (hstep : w.perform (.leave i) = some w') :
    w'.Inv ∧ (w'.tickets = w.tickets ∨
      (w'.tickets = w.tickets.advance ∧ w.tickets.counter < w.tickets.drawn.length)) := by
  obtain ⟨call, hcall, hstep⟩ := Option.bind_eq_some_iff.mp hstep
  obtain ⟨hret, hstep⟩ := Option.ite_none_left_eq_some.mp hstep
  obtain rfl := Option.some.inj hstep
  obtain ⟨hlt, hget⟩ := List.getElem?_eq_some_iff.mp hcall
  have hmem : call ∈ w.calls := List.mem_of_getElem? hcall
  have hnone : call.ret = none := not_not.mp hret
  obtain ⟨r, hr⟩ : ∃ r, w.api.publishEnd call.queued = r := ⟨_, rfl⟩
  rw [hr]
  have hids := PublishCall.filterMap_id_set hcall (some r.1)
  have hsuccesses : successes ⟨r.2, w.calls.set i { call with ret := some r.1 }⟩ =
      w.successes + if r.1 = 0 then 1 else 0 := by
    rw [successes, List.countP_set hlt, hget]
    simp [hnone, successes]
  have hvalid (hr' : r.1 = if call.queued ≠ [] then 0 else -2) :
      ∀ other ∈ w.calls.set i { call with ret := some r.1 }, other.Valid := by
    intro other hother
    rcases List.mem_or_eq_of_mem_set hother with hother | rfl
    · exact h.valid other hother
    · refine ⟨(h.valid call hmem).messageId, ?_⟩
      intro ret hret
      exact Option.some.inj hret ▸ hr'
  unfold ApiWorld.publishEnd at hr
  by_cases hnil : call.queued = []
  · rw [if_neg (not_not.mpr hnil)] at hr
    subst hr
    refine ⟨⟨hvalid ?_, ?_⟩, .inl ?_⟩
    · rw [if_neg (not_not.mpr hnil)]
    · rw [hsuccesses]
      exact h.counter
    · rw [tickets, hsuccesses, hids]
      rfl
  · rw [if_pos hnil] at hr
    subst hr
    refine ⟨⟨hvalid ?_, ?_⟩, .inr ⟨?_, ?_⟩⟩
    · rw [if_pos hnil]
    · rw [hsuccesses, if_pos rfl]
      have hone : (1 : UInt32).toNat = 1 := rfl
      rw [UInt32.toNat_add, h.counter, hone, Nat.mod_add_mod]
    · rw [tickets, hsuccesses, hids]
      rfl
    · -- the call itself is unfinished
      have hpos : 0 < w.unfinished := by
        apply List.countP_pos_iff.mpr
        exact ⟨call, hmem, by simp [PublishCall.isUnfinished, hnone, hnil]⟩
      have hsum := successes_add_unfinished h.valid
      change w.successes < w.tickets.drawn.length
      omega

/-- A step draws an id, advances the counter, or does neither. -/
theorem Inv.perform (h : w.Inv) (hlt : w.successes < 2 ^ 32) (hstep : w.perform a = some w') :
    w'.Inv ∧ ((w'.tickets = w.tickets ∧ SentAlone a w) ∨
      (w'.tickets = w.tickets.draw ∧ (SentAlone a w ↔ w.tickets.UpToDate)) ∨
      (w'.tickets = w.tickets.advance ∧ w.tickets.counter < w.tickets.drawn.length ∧
        SentAlone a w)) := by
  cases a with
  | enter module args offsets =>
      obtain ⟨hinv, hcases⟩ := h.enter hlt hstep
      exact ⟨hinv, hcases.imp_right .inl⟩
  | leave i =>
      obtain ⟨hinv, hsame | ⟨hadvance, hcounter⟩⟩ := h.leave hstep
      · exact ⟨hinv, .inl ⟨hsame, trivial⟩⟩
      · exact ⟨hinv, .inr (.inr ⟨hadvance, hcounter, trivial⟩)⟩
  | other a =>
      obtain ⟨hnot, hstep⟩ := Option.ite_none_left_eq_some.mp hstep
      obtain ⟨⟨r, api⟩, hperform, rfl⟩ := Option.map_eq_some_iff.mp hstep
      have hcounter := ApiWorld.messageId_of_perform hperform
        (Bool.eq_false_iff.mpr (not_or.mp hnot).1)
      refine ⟨⟨h.valid, ?_⟩, .inl ⟨rfl, trivial⟩⟩
      exact (congrArg UInt32.toNat hcounter).trans h.counter

/-- A publish that nobody comes between is the native call as a whole. -/
theorem perform_native_of_enter_leave {u : PublishWorld} {module : ℕ} {args : PublishArgs}
    {offsets : ℕ → DupOffsets} (henter : w.perform (.enter module args offsets) = some u)
    (hleave : u.perform (.leave w.calls.length) = some w') :
    ∃ r, w.api.perform (.native module (.publish args offsets)) = some (r, w'.api) ∧
      w'.calls = w.calls ++ [⟨module, r.queued, some r.ret⟩] := by
  obtain ⟨inst, hinst, henter⟩ := Option.bind_eq_some_iff.mp henter
  obtain ⟨hphase, henter⟩ := Option.ite_none_left_eq_some.mp henter
  obtain ⟨message, hmessage, henter⟩ := Option.bind_eq_some_iff.mp henter
  obtain ⟨⟨queued, api⟩, hsection, rfl⟩ := Option.map_eq_some_iff.mp henter
  obtain ⟨call, hcall, hleave⟩ := Option.bind_eq_some_iff.mp hleave
  rw [List.getElem?_concat_length] at hcall
  obtain rfl := Option.some.inj hcall
  obtain rfl := Option.some.inj (Option.ite_none_left_eq_some.mp hleave).2
  have hpublish := w.api.ocreMessagingInit.publish_eq message offsets
  rw [hsection, Option.map_some] at hpublish
  obtain ⟨⟨r, api'⟩, hr, heq⟩ := Option.map_eq_some_iff.mp hpublish
  obtain ⟨hret, heq⟩ := Prod.mk.inj heq
  obtain ⟨hqueued, rfl⟩ := Prod.mk.inj heq
  dsimp only at hret hqueued
  refine ⟨r, ?_, ?_⟩
  · simp only [ApiWorld.perform, hinst, Option.bind_some, ApiWorld.call,
      ApiWorld.ocreMessagingPublish, hmessage]
    rw [if_neg (not_or.mp hphase).1]
    exact hr
  · simp [hret, hqueued]

theorem successes_le (hstep : w.perform a = some w') : w.successes ≤ w'.successes := by
  cases a with
  | enter module args offsets =>
      obtain ⟨inst, -, hstep⟩ := Option.bind_eq_some_iff.mp hstep
      obtain ⟨-, hstep⟩ := Option.ite_none_left_eq_some.mp hstep
      obtain ⟨message, -, hstep⟩ := Option.bind_eq_some_iff.mp hstep
      obtain ⟨r, -, rfl⟩ := Option.map_eq_some_iff.mp hstep
      rw [successes, successes, List.countP_append]
      exact Nat.le_add_right _ _
  | leave i =>
      obtain ⟨call, hcall, hstep⟩ := Option.bind_eq_some_iff.mp hstep
      obtain ⟨hret, hstep⟩ := Option.ite_none_left_eq_some.mp hstep
      obtain rfl := Option.some.inj hstep
      obtain ⟨hlt, hget⟩ := List.getElem?_eq_some_iff.mp hcall
      rw [successes, successes, List.countP_set hlt, hget]
      simp [not_not.mp hret]
  | other a =>
      obtain ⟨-, hstep⟩ := Option.ite_none_left_eq_some.mp hstep
      obtain ⟨r, -, rfl⟩ := Option.map_eq_some_iff.mp hstep
      exact Nat.le_refl _

variable {maxTimers maxSubscriptions : ℕ} {as : List PublishAct}

theorem successes_le_of_run (hrun : (publishSystem maxTimers maxSubscriptions).run w as = some w') :
    w.successes ≤ w'.successes := by
  induction as generalizing w with
  | nil =>
      obtain rfl := Option.some.inj hrun
      exact Nat.le_refl _
  | cons a as ih =>
      obtain ⟨u, hnext, hrest⟩ := Option.bind_eq_some_iff.mp hrun
      exact (successes_le hnext).trans (ih hrest)

/-- Over a run, the ids are their places exactly if every message is sent alone. -/
theorem Inv.run (h : w.Inv) (hbounded : w.tickets.Bounded)
    (hrun : (publishSystem maxTimers maxSubscriptions).run w as = some w')
    (hlt : w'.successes < 2 ^ 32) :
    w'.Inv ∧ w'.tickets.Bounded ∧ (w'.tickets.Exact ↔ w.tickets.Exact ∧
      (publishSystem maxTimers maxSubscriptions).RunMeets SentAlone w as) := by
  induction as generalizing w with
  | nil =>
      obtain rfl := Option.some.inj hrun
      exact ⟨h, hbounded, (and_iff_left trivial).symm⟩
  | cons a as ih =>
      obtain ⟨u, hnext, hrest⟩ := Option.bind_eq_some_iff.mp hrun
      have hle := (successes_le hnext).trans (successes_le_of_run hrest)
      obtain ⟨hinv, hcases⟩ := h.perform (Nat.lt_of_le_of_lt hle hlt) hnext
      have hmeets : (publishSystem maxTimers maxSubscriptions).RunMeets SentAlone w (a :: as) ↔
          SentAlone a w ∧ (publishSystem maxTimers maxSubscriptions).RunMeets SentAlone u as := by
        constructor
        · rintro ⟨halone, hrest⟩
          exact ⟨halone, hrest u hnext⟩
        · rintro ⟨halone, hrest⟩
          exact .cons hnext halone hrest
      rcases hcases with ⟨htickets, halone⟩ | ⟨htickets, halone⟩ | ⟨htickets, hcounter, halone⟩
      · obtain ⟨hinv', hbounded', hexact⟩ := ih hinv (htickets ▸ hbounded) hrest
        refine ⟨hinv', hbounded', ?_⟩
        rw [hexact, hmeets, htickets]
        simp [halone]
      · obtain ⟨hinv', hbounded', hexact⟩ := ih hinv (htickets ▸ hbounded.draw) hrest
        refine ⟨hinv', hbounded', ?_⟩
        rw [hexact, hmeets, htickets, Tickets.exact_draw_iff, halone, and_assoc]
      · obtain ⟨hinv', hbounded', hexact⟩ := ih hinv (htickets ▸ hbounded.advance hcounter) hrest
        refine ⟨hinv', hbounded', ?_⟩
        rw [hexact, hmeets, htickets, Tickets.exact_advance_iff]
        simp [halone]

theorem Inv.idsUnique_of_exact (h : w.Inv) (hlt : w.successes < 2 ^ 32)
    (hbounded : w.tickets.Bounded) (hexact : w.tickets.Exact) : w.IdsUnique := by
  refine ⟨?_, h.counter.trans (Nat.mod_eq_of_lt hlt)⟩
  have hnodup : (w.calls.filterMap PublishCall.id).Nodup :=
    (hbounded.nodup_iff_exact.mpr hexact).of_map
  rw [List.Nodup, List.pairwise_filterMap] at hnodup
  refine hnodup.imp_of_mem ?_
  intro c d hc hd hne _ _ event hevent event' hevent'
  obtain ⟨hid, hsome⟩ := (h.valid c hc).messageId event hevent
  obtain ⟨hid', hsome'⟩ := (h.valid d hd).messageId event' hevent'
  obtain ⟨id, hc⟩ := Option.isSome_iff_exists.mp hsome
  obtain ⟨id', hd⟩ := Option.isSome_iff_exists.mp hsome'
  rw [hid, hid', hc, hd]
  intro heq
  exact hne id hc id' hd (Option.some.inj heq)

theorem Inv.exact_of_idsUnique (h : w.Inv) (hbounded : w.tickets.Bounded)
    (hreturned : ∀ call ∈ w.calls, call.ret ≠ none) (hunique : w.IdsUnique) :
    w.tickets.Exact := by
  apply hbounded.nodup_iff_exact.mp
  apply List.Nodup.map fun _ _ ↦ UInt32.toNat_inj.mp
  rw [List.Nodup, List.pairwise_filterMap]
  have hzero {call : PublishCall} (hcall : call ∈ w.calls) {event : OcreEvent}
      (hevent : event ∈ call.queued) : call.ret = some 0 := by
    obtain ⟨r, hr⟩ := Option.ne_none_iff_exists'.mp (hreturned call hcall)
    rw [hr, (h.valid call hcall).ret r hr, if_pos (List.ne_nil_of_mem hevent)]
  refine hunique.distinct.imp_of_mem ?_
  rintro c d hc hd hne id hid id' hid' rfl
  obtain ⟨event, hevent, hmessageId⟩ := PublishCall.exists_event hid
  obtain ⟨event', hevent', hmessageId'⟩ := PublishCall.exists_event hid'
  exact hne (hzero hc hevent) (hzero hd hevent') event hevent event' hevent'
    (hmessageId.trans hmessageId'.symm)

/-- In a run with fewer than 2^32 successful publishes, the ids are unique if every message
is sent alone; and when all publishes have returned, only then. -/
theorem idsUnique_of_run (hlt : w.successes < 2 ^ 32)
    (hrun : (publishSystem maxTimers maxSubscriptions).run
      ⟨ApiWorld.initial maxTimers maxSubscriptions, []⟩ as = some w) :
    ((publishSystem maxTimers maxSubscriptions).RunMeets SentAlone
        ⟨ApiWorld.initial maxTimers maxSubscriptions, []⟩ as → w.IdsUnique) ∧
      ((∀ call ∈ w.calls, call.ret ≠ none) → w.IdsUnique →
        (publishSystem maxTimers maxSubscriptions).RunMeets SentAlone
          ⟨ApiWorld.initial maxTimers maxSubscriptions, []⟩ as) := by
  obtain ⟨hinv, hbounded, hexact⟩ :=
    (inv_initial maxTimers maxSubscriptions).run Tickets.bounded_empty hrun hlt
  refine ⟨fun hmeets ↦ ?_, fun hreturned hunique ↦ ?_⟩
  · exact hinv.idsUnique_of_exact hlt hbounded (hexact.mpr ⟨Tickets.exact_empty, hmeets⟩)
  · exact (hexact.mp (hinv.exact_of_idsUnique hbounded hreturned hunique)).2

/-- Modules 1 and 2 are there, and module 1 has subscribed to a topic. -/
def oneSubscribed : List PublishAct :=
  [.other (.instantiate 1 true true), .other (.instantiate 2 true true),
    .other (.native 1 (.subscribe (some (cstring "a"))))]

/-- A publish to that topic by a module. -/
def publishOf (module : ℕ) (offset : UInt32) : PublishAct :=
  .enter module ⟨some (cstring "a/x"), some (cstring "text"), some [1, 2], 2⟩
    fun _ ↦ ⟨offset, offset + 8, offset + 16⟩

/-- Both publish, one after the other, and in between there is a message for nobody. -/
def oneAfterTheOther : List PublishAct :=
  oneSubscribed ++ [publishOf 1 8, .leave 0,
    .enter 1 ⟨some (cstring "b"), some (cstring "text"), some [1], 1⟩ fun _ ↦ ⟨8, 16, 24⟩,
    publishOf 2 32, .leave 1, .leave 2]

theorem idsUnique_of_oneAfterTheOther :
    ∃ w, (publishSystem 1 1).run ⟨ApiWorld.initial 1 1, []⟩ oneAfterTheOther = some w ∧
      w.successes = 2 ∧ w.IdsUnique := by
  obtain ⟨w, hw, hsuccesses⟩ : ∃ w, (publishSystem 1 1).run ⟨ApiWorld.initial 1 1, []⟩
      oneAfterTheOther = some w ∧ w.successes = 2 := ⟨_, rfl, by decide +kernel⟩
  refine ⟨w, hw, hsuccesses, (idsUnique_of_run ?_ hw).1 (by decide +kernel)⟩
  rw [hsuccesses]
  decide

/-- Both modules are under the mutex before either has advanced the counter. -/
theorem not_idsUnique_of_both :
    ¬ ∀ as w, (publishSystem 1 1).run ⟨ApiWorld.initial 1 1, []⟩ as = some w →
      w.successes < 2 ^ 32 → w.IdsUnique := by
  intro h
  have hunique := h (oneSubscribed ++ [publishOf 1 8, publishOf 2 32, .leave 0, .leave 1]) _ rfl
    (by decide +kernel)
  have hne := (List.pairwise_cons.mp hunique.distinct).1 _ List.mem_cons_self rfl rfl _
    List.mem_cons_self _ List.mem_cons_self
  exact hne rfl

end PublishWorld

end OcreRuntime
