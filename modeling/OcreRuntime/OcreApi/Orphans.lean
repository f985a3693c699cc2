import OcreRuntime.Lib.SlotTable
import OcreRuntime.OcreApi.Calls

/-!
# The owners of timers and subscriptions

Only the clean-up handlers release what a module has left behind, and they run only for
modules with the capability `ocre:api`. A subscription needs a module context, which only
these modules have. A timer does not.
-/

namespace OcreRuntime

open Function (update)

/-- The owners of the timers in use. -/
def TimerTable.owners (timers : TimerTable) : List (Option ℕ) :=
  SlotTable.owners OcreTimer.inUse OcreTimer.owner timers

/-- The owners of the active subscriptions. -/
def SubscriptionTable.owners (subscriptions : SubscriptionTable) : List (Option ℕ) :=
  SlotTable.owners Subscription.isActive Subscription.moduleInst subscriptions

namespace TimerTable

variable {timers : TimerTable} {module : ℕ} {id : Int} {owner : Option ℕ} {timer : OcreTimer}

theorem mem_owners_store (h : owner ∈ (timers.store id timer).owners) :
    owner ∈ timers.owners ∨ timer.inUse = true ∧ timer.owner = owner :=
  SlotTable.mem_owners_set h

theorem owner_of_owned (h : timers.owned module id = true) :
    (timers.slot id).owner = some module := by
  have hall : timers.validId id = true ∧ (timers.slot id).inUse = true ∧
      (timers.slot id).owner = some module := by simpa [owned] using h
  exact hall.2.2

theorem mem_owners_ocreTimerCreate {coreInit : Int}
    (h : owner ∈ (timers.ocreTimerCreate module id coreInit).2.owners) :
    owner ∈ timers.owners ∨ owner = some module := by
  unfold ocreTimerCreate at h
  split at h
  · exact .inl h
  dsimp only at h
  split at h
  · exact .inl h
  split at h
  · exact (mem_owners_store h).imp_right fun hnew ↦ hnew.2.symm
  · exact (mem_owners_store h).imp_right fun hnew ↦ hnew.2.symm

theorem mem_owners_ocreTimerDelete (h : owner ∈ (timers.ocreTimerDelete module id).2.owners) :
    owner ∈ timers.owners := by
  unfold ocreTimerDelete at h
  split at h
  · exact h
  · rcases mem_owners_store h with hold | ⟨hinUse, -⟩
    · exact hold
    · simp [OcreTimer.released] at hinUse

theorem mem_owners_ocreTimerStart {interval isPeriodic : Int} {uptime : UInt32} {coreStart : Int}
    (h : owner ∈
      (timers.ocreTimerStart module id interval isPeriodic uptime coreStart).2.owners) :
    owner ∈ timers.owners ∨ owner = some module := by
  unfold ocreTimerStart at h
  by_cases howned : timers.owned module id = true
  swap
  · rw [if_pos howned] at h
    exact .inl h
  have howner := owner_of_owned howned
  rw [if_neg (not_not.mpr howned)] at h
  split at h
  · exact .inl h
  split at h
  · exact (mem_owners_store h).imp_right fun hnew ↦ hnew.2.symm.trans howner
  · exact (mem_owners_store h).imp_right fun hnew ↦ hnew.2.symm.trans howner

theorem mem_owners_ocreTimerStop (h : owner ∈ (timers.ocreTimerStop module id).2.owners) :
    owner ∈ timers.owners ∨ owner = some module := by
  unfold ocreTimerStop at h
  by_cases howned : timers.owned module id = true
  · rw [if_neg (not_not.mpr howned)] at h
    have howner := owner_of_owned howned
    exact (mem_owners_store h).imp_right fun hnew ↦ hnew.2.symm.trans howner
  · rw [if_pos howned] at h
    exact .inl h

theorem mem_owners_cleanup_iff : owner ∈ (timers.ocreTimerCleanupContainer module).owners ↔
    owner ∈ timers.owners ∧ owner ≠ some module := by
  apply SlotTable.mem_owners_release_iff
  intro timer
  rfl

end TimerTable

namespace SubscriptionTable

variable {subscriptions subscriptions' : SubscriptionTable} {module : ℕ} {owner : Option ℕ}

theorem exists_set_of_storeFree {new : Subscription}
    (h : subscriptions.storeFree new = some subscriptions') :
    ∃ i old, subscriptions[i]? = some old ∧ old.isActive = false ∧
      subscriptions' = subscriptions.set i new := by
  induction subscriptions generalizing subscriptions' with
  | nil => simp [storeFree] at h
  | cons subscription subscriptions ih =>
      unfold storeFree at h
      by_cases hactive : subscription.isActive = true
      · rw [if_neg (not_not.mpr hactive)] at h
        obtain ⟨rest, hrest, rfl⟩ := Option.map_eq_some_iff.mp h
        obtain ⟨i, old, hold, hfree, rfl⟩ := ih hrest
        exact ⟨i + 1, old, hold, hfree, rfl⟩
      · rw [if_pos hactive] at h
        obtain rfl := Option.some.inj h
        exact ⟨0, subscription, rfl, by simpa using hactive, rfl⟩

theorem mem_owners_storeFree {new : Subscription}
    (h : subscriptions.storeFree new = some subscriptions')
    (howner : owner ∈ subscriptions'.owners) :
    owner ∈ subscriptions.owners ∨ owner = new.moduleInst := by
  obtain ⟨i, old, -, -, rfl⟩ := exists_set_of_storeFree h
  exact (SlotTable.mem_owners_set howner).imp_right fun hnew ↦ hnew.2.symm

theorem mem_owners_cleanup_iff : owner ∈ (subscriptions.cleanupContainer module).owners ↔
    owner ∈ subscriptions.owners ∧ owner ≠ some module := by
  apply SlotTable.mem_owners_release_iff
  intro subscription
  rfl

end SubscriptionTable

/-- The instance may still own resources of a type: it has not been through the clean-up
handler of that type, or never goes. -/
def ModuleInst.MayOwn (type : OcreResourceType) (inst : ModuleInst) : Prop :=
  (inst.usesOcreApi = true ∨ type = .timer) ∧
    match inst.phase with
    | .main => True
    | .cleaning unregistering types => unregistering = false ∧ type ∈ types
    | .ended => inst.usesOcreApi = false

theorem ModuleInst.MayOwn.extends {type : OcreResourceType} {inst inst' : ModuleInst}
    (h : inst.MayOwn type) (hext : inst.Extends inst') : inst'.MayOwn type := by
  unfold MayOwn at h ⊢
  rwa [hext.usesOcreApi, hext.phase]

/-- A module instance that may own resources of a type is at the address. -/
def OwnerOf (modules : ℕ → Option ModuleInst) (type : OcreResourceType) (owner : Option ℕ) :
    Prop :=
  ∃ module inst, owner = some module ∧ modules module = some inst ∧ inst.MayOwn type

namespace OwnerOf

variable {modules modules' : ℕ → Option ModuleInst} {type : OcreResourceType}
  {owner : Option ℕ} {module : ℕ}

theorem extended (h : OwnerOf modules type owner) (hext : Extended modules modules') :
    OwnerOf modules' type owner := by
  obtain ⟨module, inst, rfl, hinst, hown⟩ := h
  obtain ⟨inst', hinst', hinst''⟩ := hext.some_of_some module inst hinst
  exact ⟨module, inst', rfl, hinst', hown.extends hinst''⟩

theorem update_of_ne (h : OwnerOf modules type owner) (hne : owner ≠ some module)
    (x : Option ModuleInst) : OwnerOf (update modules module x) type owner := by
  obtain ⟨other, inst, rfl, hinst, hown⟩ := h
  have hother : other ≠ module := by
    rintro rfl
    exact hne rfl
  exact ⟨other, inst, rfl, by rwa [Function.update_of_ne hother], hown⟩

/-- A change of the instance at one address that may own as much as before. -/
theorem update (h : OwnerOf modules type owner) {inst inst' : ModuleInst}
    (hinst : modules module = some inst) (hown : inst.MayOwn type → inst'.MayOwn type) :
    OwnerOf (update modules module (some inst')) type owner := by
  by_cases hne : owner = some module
  · obtain ⟨other, old, rfl, hold, hmay⟩ := h
    obtain rfl := Option.some.inj hne
    obtain rfl := Option.some.inj (hold.symm.trans hinst)
    exact ⟨other, inst', rfl, Function.update_self .., hown hmay⟩
  · exact h.update_of_ne hne _

end OwnerOf

namespace ApiWorld

variable {w w' : ApiWorld} {type : OcreResourceType} {module : ℕ} {r : NativeResult}
  {owner : Option ℕ} {l : List OcreEvent}

/-- The owners of the resources of a type. -/
def owners (w : ApiWorld) : OcreResourceType → List (Option ℕ)
  | .timer => w.timers.owners
  | .messaging => w.subscriptions.owners
  | .gpio | .sensor => []

/-- Every owner of resources of a type may own them. -/
def Held (w : ApiWorld) (type : OcreResourceType) : Prop :=
  ∀ owner ∈ w.owners type, OwnerOf w.modules type owner

/-- What holds between the steps of any run: the queue is there, the handler for
subscriptions is registered once there are any, and a module context means that the module
has the capability. -/
structure Ready (w : ApiWorld) : Prop where
  serves : ∃ l, w.events.Serves l
  messaging : w.events.messagingSystemInitialized = false → w.owners .messaging = []
  context : ∀ module inst, w.modules module = some inst → inst.context.isSome = true →
    inst.usesOcreApi = true

theorem owners_ocreMessagingInit (h : w.Ready) (type : OcreResourceType) :
    w.ocreMessagingInit.owners type = w.owners type := by
  cases type with
  | messaging =>
      unfold ocreMessagingInit
      split
      · rfl
      next hinit =>
        rw [h.messaging (by simpa using hinit)]
        simp [owners, SubscriptionTable.owners, SlotTable.owners]
  | timer => exact congrArg TimerTable.owners (timers_ocreMessagingInit w)
  | gpio | sensor => rfl

theorem mem_owners_subscribe {w : ApiWorld} {topic : CString}
    (howner : owner ∈ (w.subscribe module topic).2.subscriptions.owners) :
    owner ∈ w.subscriptions.owners ∨ owner = some module ∧ w.hasContext module = true := by
  rcases w.subscribe_cases module topic with
    hsame | ⟨subscriptions, -, hcontext, -, hstore, hsubscribe⟩
  · exact .inl (hsame ▸ howner)
  · rw [hsubscribe] at howner
    refine (SubscriptionTable.mem_owners_storeFree hstore howner).imp_right ?_
    intro hnew
    exact ⟨hnew, hcontext⟩

theorem timers_subscribe (w : ApiWorld) (module : ℕ) (topic : CString) :
    (w.subscribe module topic).2.timers = w.timers := by
  rcases w.subscribe_cases module topic with hsame | ⟨subscriptions, -, -, -, -, hsubscribe⟩
  · rw [hsame]
  · rw [hsubscribe]

theorem hasContext_ocreMessagingInit (w : ApiWorld) (module : ℕ) :
    w.ocreMessagingInit.hasContext module = w.hasContext module := by
  rw [hasContext, modules_ocreMessagingInit, hasContext]

theorem owners_congr (htimers : w'.timers = w.timers)
    (hsubscriptions : w'.subscriptions = w.subscriptions) (type : OcreResourceType) :
    w'.owners type = w.owners type := by
  cases type with
  | timer => exact congrArg TimerTable.owners htimers
  | messaging => exact congrArg SubscriptionTable.owners hsubscriptions
  | gpio | sensor => rfl

theorem frame_of_publish {args : PublishArgs} {offsets : ℕ → DupOffsets}
    (h : w.call module (.publish args offsets) = some (r, w')) :
    w'.timers = w.ocreMessagingInit.timers ∧
      w'.subscriptions = w.ocreMessagingInit.subscriptions ∧
      w'.events.messagingSystemInitialized = true := by
  have hinit := messaging_ocreMessagingInit w
  simp only [ApiWorld.call, ocreMessagingPublish] at h
  cases hmessage : args.message with
  | none =>
      rw [hmessage] at h
      obtain ⟨-, rfl⟩ := Prod.mk.inj (Option.some.inj h)
      exact ⟨rfl, rfl, hinit⟩
  | some message =>
      rw [hmessage] at h
      obtain ⟨st, hadds, -, -, hevents, htimers, hsubscriptions⟩ := exists_adds_of_publish h
      exact ⟨htimers, hsubscriptions, hevents ▸ hadds.messaging.trans hinit⟩

/-- A call makes at most its caller an owner, and of a subscription only if it has a module
context. -/
theorem mem_owners_of_call (hready : w.Ready) {call : NativeCall}
    (h : w.call module call = some (r, w')) (howner : owner ∈ w'.owners type) :
    owner ∈ w.owners type ∨ owner = some module ∧
      (type = .timer ∨ w.hasContext module = true) := by
  have hinit := owners_ocreMessagingInit hready type
  cases call with
  | timerCreate id coreInit =>
      obtain ⟨-, rfl⟩ := Prod.mk.inj (Option.some.inj h)
      cases type with
      | timer =>
          exact (TimerTable.mem_owners_ocreTimerCreate howner).imp_right fun h ↦ ⟨h, .inl rfl⟩
      | _ => exact .inl howner
  | timerDelete id =>
      obtain ⟨-, rfl⟩ := Prod.mk.inj (Option.some.inj h)
      cases type with
      | timer => exact .inl (TimerTable.mem_owners_ocreTimerDelete howner)
      | _ => exact .inl howner
  | timerStart id interval isPeriodic uptime coreStart =>
      obtain ⟨-, rfl⟩ := Prod.mk.inj (Option.some.inj h)
      cases type with
      | timer => exact (TimerTable.mem_owners_ocreTimerStart howner).imp_right fun h ↦ ⟨h, .inl rfl⟩
      | _ => exact .inl howner
  | timerStop id =>
      obtain ⟨-, rfl⟩ := Prod.mk.inj (Option.some.inj h)
      cases type with
      | timer => exact (TimerTable.mem_owners_ocreTimerStop howner).imp_right fun h ↦ ⟨h, .inl rfl⟩
      | _ => exact .inl howner
  | timerGetRemaining | freeModuleEventData =>
      obtain ⟨-, rfl⟩ := Prod.mk.inj (Option.some.inj h)
      cases type <;> exact .inl howner
  | subscribe topic =>
      obtain ⟨-, rfl⟩ := Prod.mk.inj (Option.some.inj h)
      rw [← hinit, ← hasContext_ocreMessagingInit]
      cases type with
      | messaging => exact (mem_owners_subscribe howner).imp_right fun h ↦ ⟨h.1, .inr h.2⟩
      | timer =>
          have htimers := timers_subscribe w.ocreMessagingInit module (topic.getD [])
          exact .inl (congrArg (owner ∈ TimerTable.owners ·) htimers ▸ howner)
      | gpio | sensor => exact .inl howner
  | publish args offsets =>
      obtain ⟨htimers, hsubscriptions, -⟩ := frame_of_publish h
      rw [owners_congr htimers hsubscriptions, hinit] at howner
      exact .inl howner
  | getEvent offsets =>
      obtain ⟨got, -, heq⟩ := Option.map_eq_some_iff.mp h
      obtain ⟨-, rfl⟩ := Prod.mk.inj heq
      cases type <;> exact .inl howner

/-- Messaging stays initialised, and a call leaves the subscriptions alone otherwise. -/
theorem messaging_of_call {call : NativeCall} (h : w.call module call = some (r, w')) :
    w'.events.messagingSystemInitialized = true ∨
      w'.events.messagingSystemInitialized = w.events.messagingSystemInitialized ∧
        w'.subscriptions = w.subscriptions := by
  cases call with
  | timerCreate | timerDelete | timerStart | timerStop | timerGetRemaining
  | freeModuleEventData =>
      obtain ⟨-, rfl⟩ := Prod.mk.inj (Option.some.inj h)
      exact .inr ⟨rfl, rfl⟩
  | subscribe topic =>
      obtain ⟨-, rfl⟩ := Prod.mk.inj (Option.some.inj h)
      left
      rw [← messaging_ocreMessagingInit w]
      exact congrArg EventApi.messagingSystemInitialized
        (events_subscribe w.ocreMessagingInit module (topic.getD []))
  | publish args offsets => exact .inl (frame_of_publish h).2.2
  | getEvent offsets =>
      obtain ⟨⟨result, events⟩, hget, heq⟩ := Option.map_eq_some_iff.mp h
      obtain ⟨-, rfl⟩ := Prod.mk.inj heq
      exact .inr ⟨EventApi.messagingSystemInitialized_of_ocreGetEvent hget, rfl⟩

theorem mem_owners_cleanupHandler_iff (hready : w.Ready) {type' : OcreResourceType} :
    owner ∈ (w.cleanupHandler module type').owners type ↔
      owner ∈ w.owners type ∧ (type' = type → owner ≠ some module) := by
  obtain ⟨l, hl⟩ := hready.serves
  cases type' with
  | timer =>
      rw [cleanupHandler, if_neg (by simp [hl.timerSystemInitialized])]
      cases type with
      | timer => simpa [owners] using TimerTable.mem_owners_cleanup_iff
      | _ => simp [owners]
  | messaging =>
      simp only [cleanupHandler]
      split
      next hinit =>
        cases type with
        | messaging => simp [hready.messaging (by simpa using hinit)]
        | _ => simp
      · cases type with
        | messaging => simpa [owners] using SubscriptionTable.mem_owners_cleanup_iff
        | _ => simp [owners]
  | gpio | sensor => cases type <;> simp [cleanupHandler, owners]

theorem mem_owners_fired {slot : ℕ} {uptime : UInt32}
    (h : owner ∈ TimerTable.owners (w.timers.set slot ((w.timer slot).fired uptime))) :
    owner ∈ w.timers.owners := by
  rcases SlotTable.mem_owners_set h with hold | ⟨hinUse, howner⟩
  · exact hold
  have hfired : ((w.timer slot).fired uptime).inUse = (w.timer slot).inUse ∧
      ((w.timer slot).fired uptime).owner = (w.timer slot).owner := by
    unfold OcreTimer.fired
    split <;> exact ⟨rfl, rfl⟩
  rw [hfired.1] at hinUse
  rw [hfired.2] at howner
  cases hslot : w.timers[slot]? with
  | none => simp [timer, hslot] at hinUse
  | some timer =>
      have htimer : w.timer slot = timer := by simp [ApiWorld.timer, hslot]
      rw [htimer] at hinUse howner
      exact SlotTable.mem_owners_iff.mpr ⟨timer, List.mem_of_getElem? hslot, hinUse, howner⟩

theorem held_of_native (hready : w.Ready) (h : w.Held type) {inst : ModuleInst}
    (hinst : w.modules module = some inst) (hphase : inst.phase = .main) {call : NativeCall}
    (hcall : w.call module call = some (r, w')) : w'.Held type := by
  intro owner howner
  have hext := call_extended hcall
  rcases mem_owners_of_call hready hcall howner with hold | ⟨rfl, hnew⟩
  · exact (h owner hold).extended hext
  · have hown : inst.MayOwn type := by
      constructor
      · refine hnew.symm.imp_left ?_
        intro hcontext
        exact hready.context module inst hinst (by simpa [hasContext, hinst] using hcontext)
      · rw [hphase]
        trivial
    exact OwnerOf.extended ⟨module, inst, rfl, hinst, hown⟩ hext

theorem held_of_cleanup (hready : w.Ready) (h : w.Held type) {inst : ModuleInst}
    (hinst : w.modules module = some inst) (hcleanup : w.cleanup module inst.phase = some w') :
    w'.Held type := by
  rcases cleanup_cases hcleanup with
    ⟨unregistering, first, types, hphase, rfl⟩ | ⟨hphase, rfl⟩ | ⟨hphase, rfl⟩
  · intro owner howner
    have hext := cleanupHandler_extended w module first
    obtain ⟨inst', hinst', hinst''⟩ := hext.some_of_some module inst hinst
    have howner' : owner ∈ (w.cleanupHandler module first).owners type := by
      cases type <;> exact howner
    obtain ⟨hold, hother⟩ := (mem_owners_cleanupHandler_iff hready).mp howner'
    rw [setPhase, PartialMap.modify_of_some hinst']
    by_cases hfirst : first = type
    · exact ((h owner hold).extended hext).update_of_ne (hother hfirst) _
    · refine ((h owner hold).extended hext).update hinst' ?_
      rintro ⟨hapi, hmay⟩
      rw [hinst''.phase, hphase] at hmay
      exact ⟨hapi, hmay.1, (List.mem_cons.mp hmay.2).resolve_left fun heq ↦ hfirst heq.symm⟩
  all_goals
    -- At the end of a pass no handler is left that could release anything.
    have hnot : ¬ inst.MayOwn type := by
      rintro ⟨-, hmay⟩
      rw [hphase] at hmay
      simp at hmay
    intro owner howner
    have hold : owner ∈ w.owners type := by cases type <;> exact howner
    dsimp only [setPhase]
    rw [PartialMap.modify_of_some hinst]
    exact (h owner hold).update hinst fun hmay ↦ absurd hmay hnot

/-- A step of a thread keeps the owners among those who may own, as long as an instance
leaves nothing behind. -/
theorem held_of_perform (hready : w.Ready) (h : w.Held type) {a : ApiAct}
    (hleft : ∀ module, a = .deinstantiate module → some module ∉ w.owners type)
    (hperform : w.perform a = some (r, w')) : w'.Held type := by
  cases a with
  | instantiate module usesOcreApi malloc =>
      obtain ⟨hnone, rfl⟩ := perform_instantiate hperform
      intro owner howner
      have hold : owner ∈ w.owners type := by cases type <;> exact howner
      obtain ⟨other, inst, rfl, hinst, hown⟩ := h owner hold
      have hne : some other ≠ some module := by
        rintro ⟨⟩
        simp [hnone] at hinst
      exact OwnerOf.update_of_ne ⟨other, inst, rfl, hinst, hown⟩ hne _
  | native module call =>
      obtain ⟨inst, hinst, hphase, hcall⟩ := perform_native hperform
      exact held_of_native hready h hinst hphase hcall
  | returnMain module =>
      obtain ⟨inst, hinst, hphase, rfl⟩ := perform_returnMain hperform
      intro owner howner
      have hold : owner ∈ w.owners type := by cases type <;> exact howner
      rw [setPhase, PartialMap.modify_of_some hinst]
      refine (h owner hold).update hinst ?_
      rintro ⟨hapi, -⟩
      refine ⟨hapi, ?_⟩
      cases inst.usesOcreApi with
      | true => cases type <;> simp [ocreResourceTypes]
      | false => trivial
  | cleanup module =>
      obtain ⟨inst, hinst, hcleanup⟩ := perform_cleanup hperform
      exact held_of_cleanup hready h hinst hcleanup
  | deinstantiate module =>
      obtain ⟨inst, hinst, -, rfl⟩ := perform_deinstantiate hperform
      intro owner howner
      have hold : owner ∈ w.owners type := by cases type <;> exact howner
      refine (h owner hold).update_of_ne ?_ none
      rintro rfl
      exact hleft module rfl hold
  | expire slot =>
      obtain ⟨timer, htimer, rfl⟩ := perform_expire hperform
      intro owner howner
      apply h
      cases type with
      | timer =>
          rcases SlotTable.mem_owners_set howner with hold | ⟨hinUse, rfl⟩
          · exact hold
          · exact SlotTable.mem_owners_iff.mpr
              ⟨timer, List.mem_of_getElem? htimer, hinUse, rfl⟩
      | _ => exact howner
  | notify slot uptime =>
      obtain ⟨l, hl⟩ := hready.serves
      obtain ⟨events, timers, rfl, htimers, -⟩ := perform_notify hl hperform
      intro owner howner
      apply h
      cases type with
      | timer =>
          rcases htimers with rfl | rfl
          · exact howner
          · exact mem_owners_fired howner
      | _ => exact howner

theorem Ready.initial (maxTimers maxSubscriptions : ℕ) :
    (ApiWorld.initial maxTimers maxSubscriptions).Ready where
  serves := ⟨[], EventApi.initial_serves⟩
  messaging _ := by
    simp [owners, ApiWorld.initial, SubscriptionTable.owners, SlotTable.owners]
  context module inst hinst := by simp [ApiWorld.initial] at hinst

theorem exists_serves_of_perform (hl : w.events.Serves l) {a : ApiAct}
    (hperform : w.perform a = some (r, w')) : ∃ l', w'.events.Serves l' := by
  by_cases hnative : ∃ module call, a = .native module call
  · obtain ⟨module, call, rfl⟩ := hnative
    obtain ⟨inst, -, -, hcall⟩ := perform_native hperform
    exact exists_serves_of_call hl hcall
  by_cases hnotify : ∃ slot uptime, a = .notify slot uptime
  · obtain ⟨slot, uptime, rfl⟩ := hnotify
    obtain ⟨events, timers, rfl, -, -, -, hserves⟩ := perform_notify hl hperform
    exact ⟨_, hserves⟩
  push Not at hnative hnotify
  exact ⟨l, events_of_perform hnative hnotify hperform ▸ hl⟩

theorem context_of_perform (h : w.Ready) {a : ApiAct} {inst' : ModuleInst}
    (hperform : w.perform a = some (r, w')) (hinst : w'.modules module = some inst')
    (hcontext : inst'.context.isSome = true) : inst'.usesOcreApi = true := by
  by_cases hinstantiate : ∃ other usesOcreApi malloc, a = .instantiate other usesOcreApi malloc
  · obtain ⟨other, usesOcreApi, malloc, rfl⟩ := hinstantiate
    obtain ⟨-, rfl⟩ := perform_instantiate hperform
    by_cases hother : module = other
    · subst hother
      rw [modules_instantiate_self] at hinst
      obtain rfl := Option.some.inj hinst
      have hboth : usesOcreApi = true ∧ malloc = true := by
        simpa [ModuleInst.new] using hcontext
      exact hboth.1
    · rw [modules_instantiate_of_ne hother] at hinst
      exact h.context module inst' hinst hcontext
  by_cases hdeinstantiate : ∃ other, a = .deinstantiate other
  · obtain ⟨other, rfl⟩ := hdeinstantiate
    obtain ⟨inst, -, -, rfl⟩ := perform_deinstantiate hperform
    have hother : module ≠ other := by
      rintro rfl
      simp [deinstantiate] at hinst
    have hold : w.modules module = some inst' := by
      simpa [deinstantiate, Function.update_of_ne hother] using hinst
    exact h.context module inst' hold hcontext
  push Not at hinstantiate hdeinstantiate
  obtain ⟨inst, hold, hlater⟩ :=
    (later_of_perform hinstantiate hdeinstantiate hperform).exists_of_some hinst
  rw [hlater.usesOcreApi]
  exact h.context module inst hold (hlater.context hcontext)

theorem messaging_of_perform (h : w.Ready) {a : ApiAct}
    (hperform : w.perform a = some (r, w')) :
    w'.events.messagingSystemInitialized = true ∨
      w'.events.messagingSystemInitialized = w.events.messagingSystemInitialized ∧
        w'.owners .messaging ⊆ w.owners .messaging := by
  obtain ⟨l, hl⟩ := h.serves
  cases a with
  | native module call =>
      obtain ⟨inst, -, -, hcall⟩ := perform_native hperform
      refine (messaging_of_call hcall).imp_right fun ⟨hsame, hsubscriptions⟩ ↦ ⟨hsame, ?_⟩
      have howners : w'.owners .messaging = w.owners .messaging :=
        congrArg SubscriptionTable.owners hsubscriptions
      exact howners ▸ List.Subset.refl _
  | cleanup module =>
      right
      obtain ⟨inst, -, hcleanup⟩ := perform_cleanup hperform
      rcases cleanup_cases hcleanup with ⟨-, type, -, -, rfl⟩ | ⟨-, rfl⟩ | ⟨-, rfl⟩
      · refine ⟨congrArg _ (events_cleanupHandler w module type), ?_⟩
        intro owner howner
        exact ((mem_owners_cleanupHandler_iff h).mp howner).1
      · exact ⟨rfl, List.Subset.refl _⟩
      · exact ⟨rfl, List.Subset.refl _⟩
  | instantiate module usesOcreApi malloc =>
      obtain ⟨-, rfl⟩ := perform_instantiate hperform
      exact .inr ⟨rfl, List.Subset.refl _⟩
  | returnMain module =>
      obtain ⟨inst, -, -, rfl⟩ := perform_returnMain hperform
      exact .inr ⟨rfl, List.Subset.refl _⟩
  | deinstantiate module =>
      obtain ⟨inst, -, -, rfl⟩ := perform_deinstantiate hperform
      exact .inr ⟨rfl, List.Subset.refl _⟩
  | expire slot =>
      obtain ⟨timer, -, rfl⟩ := perform_expire hperform
      exact .inr ⟨rfl, List.Subset.refl _⟩
  | notify slot uptime =>
      obtain ⟨events, timers, rfl, -, hsame, -⟩ := perform_notify hl hperform
      exact .inr ⟨hsame, List.Subset.refl _⟩

theorem Ready.perform (h : w.Ready) {a : ApiAct} (hperform : w.perform a = some (r, w')) :
    w'.Ready := by
  obtain ⟨l, hl⟩ := h.serves
  constructor
  · exact exists_serves_of_perform hl hperform
  · intro hinit
    rcases messaging_of_perform h hperform with htrue | ⟨hsame, hsubset⟩
    · simp [htrue] at hinit
    · rw [hsame] at hinit
      rw [h.messaging hinit] at hsubset
      exact List.subset_nil.mp hsubset
  · intro module inst hinst hcontext
    exact context_of_perform h hperform hinst hcontext

theorem exists_call (hready : w.Ready) (hheld : w.Held .messaging) (module : ℕ)
    (call : NativeCall) : ∃ r w', w.call module call = some (r, w') := by
  obtain ⟨l, hl⟩ := hready.serves
  cases call with
  | timerCreate | timerDelete | timerStart | timerStop | timerGetRemaining | subscribe
  | freeModuleEventData => exact ⟨_, _, rfl⟩
  | publish args offsets =>
      simp only [ApiWorld.call, ocreMessagingPublish]
      cases args.message with
      | none => exact ⟨_, _, rfl⟩
      | some message =>
          have hloop := @publishLoop_isSome message w.ocreMessagingInit.messageId
            ⟨w.ocreMessagingInit.modules, w.ocreMessagingInit.events, [], [], []⟩ offsets 0
            w.ocreMessagingInit.subscriptions l (serves_ocreMessagingInit hl) ?_
          · obtain ⟨st, hst⟩ := Option.isSome_iff_exists.mp hloop
            simp only [publish, hst, Option.map_some]
            exact ⟨_, _, rfl⟩
          · intro subscription hmem hactive target htarget
            have howner : some target ∈ w.owners .messaging := by
              rw [← owners_ocreMessagingInit hready]
              exact SlotTable.mem_owners_iff.mpr ⟨subscription, hmem, hactive, htarget⟩
            obtain ⟨other, inst, heq, hinst, -⟩ := hheld _ howner
            obtain rfl := Option.some.inj heq
            rw [modules_ocreMessagingInit]
            simp [hinst]
  | getEvent offsets =>
      cases offsets with
      | false => exact ⟨_, _, rfl⟩
      | true =>
          obtain ⟨events, hget, -⟩ := hl.ocreGetEvent module
          simp only [ApiWorld.call, ocreGetEvent, hget, Option.map_some]
          exact ⟨_, _, rfl⟩

/-- The owner of a slot is instantiated. -/
def Live (w : ApiWorld) (owner : Option ℕ) : Bool :=
  owner.any fun module ↦ (w.modules module).isSome

/-- After a step, every owner is instantiated, and one that has just been deinstantiated
owns nothing. -/
def NoOrphan (a : ApiAct) (_w w' : ApiWorld) : Prop :=
  (∀ type, ∀ owner ∈ w'.owners type, w'.Live owner = true) ∧
    ∀ module, a = .deinstantiate module → ∀ type, some module ∉ w'.owners type

/-- A module without the capability `ocre:api` has deleted its timers when it is
deinstantiated. -/
def LeavesNoTimer : ApiAct → ApiWorld → Prop
  | .deinstantiate module, w =>
      ∀ inst ∈ w.modules module, inst.usesOcreApi = true ∨ some module ∉ w.owners .timer
  | _, _ => True

instance decidableLeavesNoTimer : ∀ a w, Decidable (LeavesNoTimer a w)
  | .deinstantiate module, w => inferInstanceAs (Decidable (∀ inst ∈ w.modules module, _ ∨ _))
  | .instantiate .., _ | .native .., _ | .returnMain .., _ | .cleanup .., _ | .expire .., _
  | .notify .., _ => .isTrue trivial

theorem live_of_ownerOf (h : OwnerOf w.modules type owner) : w.Live owner = true := by
  obtain ⟨module, inst, rfl, hinst, -⟩ := h
  simp [Live, hinst]

theorem not_mem_owners_deinstantiate (h : w.Held type) {inst : ModuleInst}
    (hinst : w.modules module = some inst) (hphase : inst.phase = .ended)
    (hleft : inst.usesOcreApi = true ∨ type ≠ .timer) : some module ∉ w.owners type := by
  intro howner
  obtain ⟨other, inst', heq, hinst', hapi, hmay⟩ := h _ howner
  obtain rfl := Option.some.inj heq
  obtain rfl := Option.some.inj (hinst.symm.trans hinst')
  rw [hphase] at hmay
  have htype : type = .timer := hapi.resolve_left (by simp [hmay])
  exact hleft.elim (by simp [hmay]) fun hne ↦ hne htype

/-- What holds between the steps of a run in which every step leaves no timer. -/
structure Owned (w : ApiWorld) : Prop where
  ready : w.Ready
  held : ∀ type, w.Held type

/-- Only timers can be left behind. -/
theorem held_of_ne_timer (hready : w.Ready) (h : w.Held type) (htype : type ≠ .timer)
    {a : ApiAct} (hperform : w.perform a = some (r, w')) : w'.Held type := by
  apply held_of_perform hready h _ hperform
  rintro module rfl
  obtain ⟨inst, hinst, hphase, -⟩ := perform_deinstantiate hperform
  exact not_mem_owners_deinstantiate h hinst hphase (.inr htype)

theorem Owned.perform (h : w.Owned) {a : ApiAct} (hleft : LeavesNoTimer a w)
    (hperform : w.perform a = some (r, w')) : w'.Owned := by
  refine ⟨h.ready.perform hperform, ?_⟩
  intro type
  by_cases htype : type = .timer
  swap
  · exact held_of_ne_timer h.ready (h.held type) htype hperform
  subst htype
  apply held_of_perform h.ready (h.held .timer) _ hperform
  rintro module rfl
  obtain ⟨inst, hinst, hphase, -⟩ := perform_deinstantiate hperform
  rcases hleft inst hinst with hapi | hnone
  · exact not_mem_owners_deinstantiate (h.held .timer) hinst hphase (.inl hapi)
  · exact hnone

theorem Owned.noOrphan_iff (h : w.Owned) {a : ApiAct}
    (hperform : w.perform a = some (r, w')) : NoOrphan a w w' ↔ LeavesNoTimer a w := by
  constructor
  · rintro ⟨-, hdeinst⟩
    cases a with
    | deinstantiate module =>
        obtain ⟨-, -, -, rfl⟩ := perform_deinstantiate hperform
        exact fun inst hinst ↦ .inr (hdeinst module rfl .timer)
    | _ => trivial
  · intro hleft
    have h' := h.perform hleft hperform
    refine ⟨fun type owner howner ↦ live_of_ownerOf (h'.held type owner howner), ?_⟩
    rintro module rfl type howner
    obtain ⟨-, -, -, rfl⟩ := perform_deinstantiate hperform
    obtain ⟨other, inst, heq, hinst, -⟩ := h'.held type _ howner
    obtain rfl := Option.some.inj heq
    simp [deinstantiate] at hinst

end ApiWorld

section System

variable {maxTimers maxSubscriptions : ℕ} {w : ApiWorld}

theorem held_initial (type : OcreResourceType) :
    (ApiWorld.initial maxTimers maxSubscriptions).Held type := by
  intro owner howner
  cases type <;>
    simp [ApiWorld.owners, ApiWorld.initial, TimerTable.owners, SubscriptionTable.owners,
      SlotTable.owners] at howner

theorem ready_of_reachable (h : (apiSystem maxTimers maxSubscriptions).Reachable w) :
    w.Ready ∧ w.Held .messaging := by
  apply StepSystem.ReachableWhere.invariant (I := fun w ↦ w.Ready ∧ w.Held .messaging) _ _ h
  · rintro w rfl
    exact ⟨.initial maxTimers maxSubscriptions, held_initial .messaging⟩
  · rintro a w w' ⟨hready, hheld⟩ - hnext
    obtain ⟨⟨r, t⟩, hperform, rfl⟩ := Option.map_eq_some_iff.mp hnext
    exact ⟨hready.perform hperform,
      ApiWorld.held_of_ne_timer hready hheld (by simp) hperform⟩

/-- In any reachable state every native call is defined, in particular a publish, whose
targets are all instantiated. -/
theorem exists_call_of_reachable (h : (apiSystem maxTimers maxSubscriptions).Reachable w)
    (module : ℕ) (call : NativeCall) : ∃ r w', w.call module call = some (r, w') :=
  ApiWorld.exists_call (ready_of_reachable h).1 (ready_of_reachable h).2 module call

theorem owned_of_reachableWhere
    (h : (apiSystem maxTimers maxSubscriptions).ReachableWhere ApiWorld.LeavesNoTimer w) :
    w.Owned := by
  apply h.invariant
  · rintro w rfl
    exact ⟨.initial maxTimers maxSubscriptions, held_initial⟩
  · intro a w w' howned hleft hnext
    obtain ⟨⟨r, t⟩, hperform, rfl⟩ := Option.map_eq_some_iff.mp hnext
    exact howned.perform hleft hperform

/-- In a run of the native API, every timer in use and every active subscription is owned by
an instantiated module exactly if no module without the capability `ocre:api` is
deinstantiated while it has a timer. -/
theorem runKeeps_noOrphan_iff {as : List ApiAct}
    (hrun : (apiSystem maxTimers maxSubscriptions).run
      (ApiWorld.initial maxTimers maxSubscriptions) as = some w) :
    (apiSystem maxTimers maxSubscriptions).RunKeeps ApiWorld.NoOrphan
        (ApiWorld.initial maxTimers maxSubscriptions) as ↔
      (apiSystem maxTimers maxSubscriptions).RunMeets ApiWorld.LeavesNoTimer
        (ApiWorld.initial maxTimers maxSubscriptions) as := by
  apply StepSystem.ReachableWhere.runKeeps_iff_runMeets _ (.start rfl) hrun
  intro a w w' hw hnext
  obtain ⟨⟨r, t⟩, hperform, rfl⟩ := Option.map_eq_some_iff.mp hnext
  exact (owned_of_reachableWhere hw).noOrphan_iff hperform

/-- Module 7 has the capability, module 8 has not. Both leave in the end, 8 without a
timer, and a new instance takes the address of 7. -/
def twoModulesLeave : List ApiAct :=
  [.instantiate 7 true true, .instantiate 8 false true,
    .native 7 (.timerCreate 1 0), .native 7 (.subscribe (some (cstring "news"))),
    .native 8 (.timerCreate 2 0), .native 8 (.timerDelete 2),
    .returnMain 8, .deinstantiate 8, .returnMain 7] ++
  List.replicate 10 (.cleanup 7) ++ [.deinstantiate 7, .instantiate 7 false true]

theorem runKeeps_noOrphan_of_twoModulesLeave :
    ∃ w, (apiSystem 5 10).run (ApiWorld.initial 5 10) twoModulesLeave = some w ∧
      (apiSystem 5 10).RunKeeps ApiWorld.NoOrphan (ApiWorld.initial 5 10) twoModulesLeave := by
  have hsome : ((apiSystem 5 10).run (ApiWorld.initial 5 10) twoModulesLeave).isSome := by
    decide +kernel
  obtain ⟨w, hrun⟩ := Option.isSome_iff_exists.mp hsome
  exact ⟨w, hrun, (runKeeps_noOrphan_iff hrun).mpr (by decide +kernel)⟩

/-- A module without the capability creates a timer and returns. -/
theorem not_runKeeps_noOrphan_of_timer :
    ¬ ∀ as w, (apiSystem 5 10).run (ApiWorld.initial 5 10) as = some w →
      (apiSystem 5 10).RunKeeps ApiWorld.NoOrphan (ApiWorld.initial 5 10) as := by
  intro h
  have hkeeps := h [.instantiate 8 false true, .native 8 (.timerCreate 1 0), .returnMain 8,
    .deinstantiate 8] _ rfl
  have howners := ((((hkeeps _ rfl).2 _ rfl).2 _ rfl).2 _ rfl).1.2 8 rfl .timer
  exact howners (by decide +kernel)

end System

end OcreRuntime
