import OcreRuntime.OcreApi.Orphans

/-!
# What one module leaves to the others

A module holds timers, subscriptions and resource counts. The natives check the owner of a
timer before they change it, store subscriptions in free slots only, and count for their
caller, so no call of a module changes what another one holds.
-/

namespace OcreRuntime

open Function (update)
open PartialMap (modify)

/-- What a module has, slot by slot, with its resource counts. -/
structure Holdings where
  timers : List (Option OcreTimer)
  subscriptions : List (Option Subscription)
  context : Option ModuleContext

/-- A timer that a module holds. -/
abbrev OcreTimer.Of (module : ℕ) (timer : OcreTimer) : Prop :=
  SlotTable.Held OcreTimer.inUse OcreTimer.owner (some module) timer

/-- A subscription that a module holds. -/
abbrev Subscription.Of (module : ℕ) (subscription : Subscription) : Prop :=
  SlotTable.Held Subscription.isActive Subscription.moduleInst (some module) subscription

namespace TimerTable

variable {timers : TimerTable} {module other : ℕ} {id : Int} {timer : OcreTimer}

def holdings (timers : TimerTable) (module : ℕ) : List (Option OcreTimer) :=
  SlotTable.holdings OcreTimer.inUse OcreTimer.owner (some module) timers

theorem owned_iff : timers.owned module id = true ↔
    timers.validId id = true ∧ (timers.slot id).Of module := by
  simp [owned, SlotTable.Held]

theorem not_of_owned (howned : timers.owned module id = true) (hne : other ≠ module) :
    ¬ (timers.slot id).Of other := by
  intro hother
  have howner := (owned_iff.mp howned).2.2
  exact hne (Option.some.inj (hother.2.symm.trans howner))

theorem holdings_store (hold : ¬ (timers.slot id).Of module) (hnew : ¬ timer.Of module) :
    (timers.store id timer).holdings module = timers.holdings module := by
  apply SlotTable.holdings_set
  · intro old hslot
    have heq : timers.slot id = old := by
      rw [slot, Option.mem_def.mp hslot, Option.getD_some]
    exact heq ▸ hold
  · exact hnew

theorem holdings_ocreTimerCreate (hne : other ≠ module) (coreInit : Int) :
    (timers.ocreTimerCreate module id coreInit).2.holdings other = timers.holdings other := by
  unfold ocreTimerCreate
  split
  · rfl
  dsimp only
  split
  · rfl
  next hfree =>
    have hold : ¬ (timers.slot id).Of other := fun h ↦ hfree h.1
    split
    · exact holdings_store hold fun h ↦ Bool.false_ne_true h.1
    · exact holdings_store hold fun h ↦ hne (Option.some.inj h.2).symm

theorem holdings_ocreTimerDelete (hne : other ≠ module) :
    (timers.ocreTimerDelete module id).2.holdings other = timers.holdings other := by
  unfold ocreTimerDelete
  split
  · rfl
  next howned =>
    exact holdings_store (not_of_owned (not_not.mp howned) hne) fun h ↦ Bool.false_ne_true h.1

theorem holdings_ocreTimerStart (hne : other ≠ module) (interval isPeriodic : Int)
    (uptime : UInt32) (coreStart : Int) :
    (timers.ocreTimerStart module id interval isPeriodic uptime coreStart).2.holdings other =
      timers.holdings other := by
  unfold ocreTimerStart
  split
  · rfl
  next howned =>
    have hold := not_of_owned (not_not.mp howned) hne
    split
    · rfl
    dsimp only
    split
    · exact holdings_store hold hold
    · exact holdings_store hold hold

theorem holdings_ocreTimerStop (hne : other ≠ module) :
    (timers.ocreTimerStop module id).2.holdings other = timers.holdings other := by
  unfold ocreTimerStop
  split
  · rfl
  next howned =>
    have hold := not_of_owned (not_not.mp howned) hne
    exact holdings_store hold hold

theorem holdings_ocreTimerCleanupContainer (hne : other ≠ module) :
    (timers.ocreTimerCleanupContainer module).holdings other = timers.holdings other :=
  SlotTable.holdings_release_of_ne (fun h ↦ hne (Option.some.inj h)) fun _ ↦ rfl

end TimerTable

namespace SubscriptionTable

variable {subscriptions subscriptions' : SubscriptionTable} {module other : ℕ}

def holdings (subscriptions : SubscriptionTable) (module : ℕ) : List (Option Subscription) :=
  SlotTable.holdings Subscription.isActive Subscription.moduleInst (some module) subscriptions

theorem holdings_storeFree (hne : other ≠ module) {topic : CString}
    (h : subscriptions.storeFree (newSubscription module topic) = some subscriptions') :
    subscriptions'.holdings other = subscriptions.holdings other := by
  obtain ⟨i, old, hold, hfree, rfl⟩ := exists_set_of_storeFree h
  apply SlotTable.holdings_set
  · intro slot hslot
    obtain rfl := Option.some.inj (hold.symm.trans hslot)
    rintro ⟨hactive, -⟩
    rw [hfree] at hactive
    cases hactive
  · rintro ⟨-, howner⟩
    exact hne (Option.some.inj howner).symm

theorem holdings_cleanupContainer (hne : other ≠ module) :
    (subscriptions.cleanupContainer module).holdings other = subscriptions.holdings other :=
  SlotTable.holdings_release_of_ne (fun h ↦ hne (Option.some.inj h)) fun _ ↦ rfl

end SubscriptionTable

section Publish

variable {message : Message} {messageId : UInt32} {target : ℕ} {inst : ModuleInst}
  {st st' : PublishState}

/-- The module contexts, by address. -/
def contextAt (modules : ℕ → Option ModuleInst) (module : ℕ) : Option ModuleContext :=
  (modules module).bind ModuleInst.context

theorem contextAt_update {modules : ℕ → Option ModuleInst} {inst' : ModuleInst}
    (hinst : modules target = some inst) (hcontext : inst'.context = inst.context) (module : ℕ) :
    contextAt (update modules target (some inst')) module = contextAt modules module := by
  by_cases hmodule : module = target
  · subst hmodule
    rw [contextAt, contextAt, Function.update_self, hinst]
    exact hcontext
  · rw [contextAt, contextAt, Function.update_of_ne hmodule]

theorem contextAt_publishTo {offsets : DupOffsets} (hinst : st.modules target = some inst)
    (h : publishTo message messageId offsets target inst st = some st') (module : ℕ) :
    contextAt st'.modules module = contextAt st.modules module := by
  have hstore (inst' : ModuleInst) (hcontext : inst'.context = inst.context) :
      contextAt (update st.modules target (some inst')) module = contextAt st.modules module :=
    contextAt_update hinst hcontext module
  unfold publishTo at h
  dsimp only at h
  split at h
  · obtain rfl := Option.some.inj h
    rfl
  split at h
  · obtain rfl := Option.some.inj h
    refine hstore _ ?_
    rfl
  split at h
  · obtain rfl := Option.some.inj h
    refine hstore _ ?_
    rfl
  · obtain ⟨⟨accepted, events⟩, -, heq⟩ := Option.map_eq_some_iff.mp h
    cases accepted with
    | true =>
        subst heq
        refine hstore _ ?_
        rfl
    | false =>
        subst heq
        refine hstore _ ?_
        rfl

theorem contextAt_publishLoop {offsets : ℕ → DupOffsets} {i : ℕ}
    {subscriptions : SubscriptionTable}
    (h : publishLoop message messageId offsets i subscriptions st = some st') (module : ℕ) :
    contextAt st'.modules module = contextAt st.modules module := by
  refine publishLoop_induction (P := fun _ _ st ↦
    contextAt st'.modules module = contextAt st.modules module) ?nil ?skip ?target h
  case nil => exact fun _ ↦ rfl
  case skip => exact fun _ _ _ _ _ ih ↦ ih
  case target =>
    intro i subscription subscriptions st target inst t _ _ hinst ht _ ih
    rw [ih, contextAt_publishTo hinst ht]

end Publish

namespace ApiWorld

variable {w w' : ApiWorld} {module other : ℕ} {r : NativeResult}

def holdings (w : ApiWorld) (module : ℕ) : Holdings where
  timers := w.timers.holdings module
  subscriptions := w.subscriptions.holdings module
  context := contextAt w.modules module

theorem holdings_congr (htimers : w'.timers.holdings module = w.timers.holdings module)
    (hsubscriptions : w'.subscriptions.holdings module = w.subscriptions.holdings module)
    (hcontext : contextAt w'.modules module = contextAt w.modules module) :
    w'.holdings module = w.holdings module := by
  rw [holdings, htimers, hsubscriptions, hcontext, ← holdings]

theorem contextAt_modify (hne : other ≠ module) (modules : ℕ → Option ModuleInst)
    (f : ModuleInst → ModuleInst) :
    contextAt (modify modules module f) other = contextAt modules other := by
  rw [contextAt, PartialMap.modify_of_ne hne, contextAt]

theorem holdings_ocreMessagingInit (hready : w.Ready) (module : ℕ) :
    w.ocreMessagingInit.holdings module = w.holdings module := by
  unfold ocreMessagingInit
  split
  · rfl
  next hinit =>
    refine holdings_congr rfl ?_ rfl
    have hnone : ∀ subscription ∈ w.subscriptions, ¬ subscription.Of module := by
      intro subscription hmem hheld
      have howner : some module ∈ w.owners .messaging :=
        SlotTable.mem_owners_iff.mpr ⟨subscription, hmem, hheld⟩
      rw [hready.messaging (by simpa using hinit)] at howner
      cases howner
    rw [SubscriptionTable.holdings, SubscriptionTable.holdings, SlotTable.holdings,
      SlotTable.holdings, List.map_map]
    apply List.map_congr_left
    intro subscription hmem
    rw [if_neg (hnone subscription hmem)]
    rfl

theorem holdings_subscribe (hne : other ≠ module) (w : ApiWorld) (topic : CString) :
    (w.subscribe module topic).2.holdings other = w.holdings other := by
  rcases w.subscribe_cases module topic with hsame | ⟨subscriptions, -, -, -, hstore, hsubscribe⟩
  · rw [hsame]
  · rw [hsubscribe]
    exact holdings_congr rfl (SubscriptionTable.holdings_storeFree hne hstore)
      (contextAt_modify hne _ _)

/-- A publish changes the memory of modules only. -/
theorem holdings_publish {message : Message} {offsets : ℕ → DupOffsets}
    (h : w.publish message offsets = some (r, w')) (other : ℕ) :
    w'.holdings other = w.holdings other := by
  obtain ⟨st, hloop, heq⟩ := Option.map_eq_some_iff.mp h
  have hcontext := contextAt_publishLoop hloop other
  dsimp only at heq
  split at heq
  · obtain ⟨-, rfl⟩ := Prod.mk.inj heq
    exact holdings_congr rfl rfl hcontext
  · obtain ⟨-, rfl⟩ := Prod.mk.inj heq
    exact holdings_congr rfl rfl hcontext

/-- A call of a module leaves what the other ones hold. -/
theorem holdings_of_call (hready : w.Ready) (hne : other ≠ module) {call : NativeCall}
    (h : w.call module call = some (r, w')) : w'.holdings other = w.holdings other := by
  cases call with
  | timerCreate id coreInit =>
      obtain ⟨-, rfl⟩ := Prod.mk.inj (Option.some.inj h)
      refine holdings_congr (TimerTable.holdings_ocreTimerCreate hne coreInit) rfl ?_
      dsimp only [ocreTimerCreate]
      split
      · exact contextAt_modify hne _ _
      · rfl
  | timerDelete id =>
      obtain ⟨-, rfl⟩ := Prod.mk.inj (Option.some.inj h)
      refine holdings_congr (TimerTable.holdings_ocreTimerDelete hne) rfl ?_
      dsimp only [ocreTimerDelete]
      split
      · exact contextAt_modify hne _ _
      · rfl
  | timerStart id interval isPeriodic uptime coreStart =>
      obtain ⟨-, rfl⟩ := Prod.mk.inj (Option.some.inj h)
      exact holdings_congr (TimerTable.holdings_ocreTimerStart hne _ _ _ _) rfl rfl
  | timerStop id =>
      obtain ⟨-, rfl⟩ := Prod.mk.inj (Option.some.inj h)
      exact holdings_congr (TimerTable.holdings_ocreTimerStop hne) rfl rfl
  | timerGetRemaining id uptime =>
      obtain ⟨-, rfl⟩ := Prod.mk.inj (Option.some.inj h)
      rfl
  | subscribe topic =>
      obtain ⟨-, rfl⟩ := Prod.mk.inj (Option.some.inj h)
      rw [← holdings_ocreMessagingInit hready other]
      exact holdings_subscribe hne w.ocreMessagingInit (topic.getD [])
  | publish args offsets =>
      rw [← holdings_ocreMessagingInit hready other]
      simp only [call, ocreMessagingPublish] at h
      cases hmessage : args.message with
      | none =>
          rw [hmessage] at h
          obtain ⟨-, rfl⟩ := Prod.mk.inj (Option.some.inj h)
          rfl
      | some message =>
          rw [hmessage] at h
          exact holdings_publish h other
  | freeModuleEventData topic contentType payload =>
      obtain ⟨-, rfl⟩ := Prod.mk.inj (Option.some.inj h)
      exact holdings_congr rfl rfl (contextAt_modify hne _ _)
  | getEvent offsets =>
      obtain ⟨got, -, heq⟩ := Option.map_eq_some_iff.mp h
      obtain ⟨-, rfl⟩ := Prod.mk.inj heq
      rfl

theorem holdings_cleanupHandler (hne : other ≠ module) (w : ApiWorld) (type : OcreResourceType) :
    (w.cleanupHandler module type).holdings other = w.holdings other := by
  cases type with
  | timer =>
      rw [cleanupHandler]
      split
      · rfl
      · exact holdings_congr (TimerTable.holdings_ocreTimerCleanupContainer hne) rfl
          (contextAt_modify hne _ _)
  | messaging =>
      rw [cleanupHandler]
      split
      · rfl
      · exact holdings_congr rfl (SubscriptionTable.holdings_cleanupContainer hne)
          (contextAt_modify hne _ _)
  | gpio | sensor => rfl

/-- `ocre_cleanup_module_resources`. -/
def ocreCleanupModuleResources (w : ApiWorld) (module : ℕ) : ApiWorld :=
  ocreResourceTypes.foldl (fun w type ↦ w.cleanupHandler module type) w

theorem holdings_ocreCleanupModuleResources (hne : other ≠ module) (w : ApiWorld) :
    (w.ocreCleanupModuleResources module).holdings other = w.holdings other := by
  unfold ocreCleanupModuleResources
  induction ocreResourceTypes generalizing w with
  | nil => rfl
  | cons type types ih => rw [List.foldl_cons, ih, holdings_cleanupHandler hne]

end ApiWorld

namespace TimerTable

variable {timers : TimerTable} {n module : ℕ} {id : Int} {timer : OcreTimer}

/-- A timer in use has an owner, and the ID that its slot stands for, in 8 bits. -/
structure Recorded (n : ℕ) (timers : TimerTable) : Prop where
  length : timers.length = n
  record : ∀ i timer, timers[i]? = some timer → timer.inUse = true →
    timer.id = (i + 1) % 256 ∧ timer.owner.isSome = true

theorem recorded_replicate (n : ℕ) : Recorded n (List.replicate n {}) := by
  refine ⟨List.length_replicate, ?_⟩
  intro i timer htimer hinUse
  obtain rfl := List.eq_of_mem_replicate (List.mem_of_getElem? htimer)
  cases hinUse

theorem Recorded.set (h : timers.Recorded n) {i : ℕ}
    (hnew : timer.inUse = true → timer.id = (i + 1) % 256 ∧ timer.owner.isSome = true) :
    Recorded n (timers.set i timer) := by
  refine ⟨(List.length_set ..).trans h.length, ?_⟩
  intro j other hother
  by_cases hj : i = j
  · subst hj
    have hlt : i < timers.length := by
      have hlt := (List.getElem?_eq_some_iff.mp hother).1
      rwa [List.length_set] at hlt
    rw [List.getElem?_set_self hlt] at hother
    exact Option.some.inj hother ▸ hnew
  · rw [List.getElem?_set_ne hj] at hother
    exact h.record j other hother

theorem getElem?_of_validId (h : timers.validId id = true) :
    timers[id.toNat - 1]? = some (timers.slot id) := by
  have hrange : 0 < id ∧ id ≤ timers.length := by simpa [validId] using h
  have hlt : id.toNat - 1 < timers.length := by omega
  rw [slot, List.getElem?_eq_getElem hlt, Option.getD_some]

/-- A change of an owned timer that keeps its ID and its owner. -/
theorem Recorded.store (h : timers.Recorded n) (howned : timers.owned module id = true)
    (hid : timer.id = (timers.slot id).id) (howner : timer.owner = (timers.slot id).owner) :
    Recorded n (timers.store id timer) := by
  obtain ⟨hvalid, hinUse, -⟩ := owned_iff.mp howned
  apply h.set
  intro _
  rw [hid, howner]
  exact h.record _ _ (getElem?_of_validId hvalid) hinUse

theorem Recorded.ocreTimerCreate (h : timers.Recorded n) (coreInit : Int) :
    Recorded n (timers.ocreTimerCreate module id coreInit).2 := by
  unfold TimerTable.ocreTimerCreate
  split
  · exact h
  next hvalid =>
    dsimp only
    split
    · exact h
    · split
      · exact h.set nofun
      · apply h.set
        intro _
        have hrange : 0 < id ∧ id ≤ timers.length := by simpa [validId] using hvalid
        have hindex : id.toNat - 1 + 1 = id.toNat := by omega
        exact ⟨by rw [hindex], rfl⟩

theorem Recorded.ocreTimerDelete (h : timers.Recorded n) :
    Recorded n (timers.ocreTimerDelete module id).2 := by
  unfold TimerTable.ocreTimerDelete
  split
  · exact h
  · exact h.set nofun

theorem Recorded.ocreTimerStart (h : timers.Recorded n) (interval isPeriodic : Int)
    (uptime : UInt32) (coreStart : Int) :
    Recorded n (timers.ocreTimerStart module id interval isPeriodic uptime coreStart).2 := by
  unfold TimerTable.ocreTimerStart
  split
  · exact h
  next howned =>
    split
    · exact h
    dsimp only
    split
    · exact h.store (not_not.mp howned) rfl rfl
    · exact h.store (not_not.mp howned) rfl rfl

theorem Recorded.ocreTimerStop (h : timers.Recorded n) :
    Recorded n (timers.ocreTimerStop module id).2 := by
  unfold TimerTable.ocreTimerStop
  split
  · exact h
  next howned => exact h.store (not_not.mp howned) rfl rfl

theorem Recorded.ocreTimerCleanupContainer (h : timers.Recorded n) :
    Recorded n (timers.ocreTimerCleanupContainer module) := by
  refine ⟨(List.length_map _).trans h.length, ?_⟩
  intro i timer htimer hinUse
  rw [TimerTable.ocreTimerCleanupContainer, List.getElem?_map] at htimer
  obtain ⟨old, hold, rfl⟩ := Option.map_eq_some_iff.mp htimer
  split at hinUse
  · cases hinUse
  next hheld =>
    rw [if_neg hheld]
    exact h.record i old hold hinUse

end TimerTable

/-- The ID that a call names a timer by. -/
def NativeCall.timerId : NativeCall → Option Int
  | .timerCreate id _ | .timerDelete id | .timerStart id .. | .timerStop id
  | .timerGetRemaining id _ => some id
  | .subscribe _ | .publish .. | .freeModuleEventData .. | .getEvent _ => none

namespace ApiWorld

variable {w w' : ApiWorld} {module other n : ℕ} {r : NativeResult}

/-- A timer of one module is refused to the others. -/
theorem refused_of_owned {id : Int} (howned : w.timers.owned other id = true)
    (hne : other ≠ module) {call : NativeCall} (hid : call.timerId = some id)
    (h : w.call module call = some (r, w')) : r.ret < 0 ∧ w' = w := by
  have hnot : ¬ w.timers.owned module id = true := by
    intro hmodule
    exact TimerTable.not_of_owned hmodule hne (TimerTable.owned_iff.mp howned).2
  obtain ⟨hvalid, hinUse, -⟩ := TimerTable.owned_iff.mp howned
  cases call with
  | timerCreate id' coreInit =>
      obtain rfl := Option.some.inj hid
      have hcreate : w.timers.ocreTimerCreate module id' coreInit = (-16, w.timers) := by
        rw [TimerTable.ocreTimerCreate, if_neg (not_not.mpr hvalid)]
        exact if_pos hinUse
      simp only [ApiWorld.call, ApiWorld.ocreTimerCreate, hcreate] at h
      obtain ⟨rfl, rfl⟩ := Prod.mk.inj (Option.some.inj h)
      exact ⟨by decide, rfl⟩
  | timerDelete id' =>
      obtain rfl := Option.some.inj hid
      have hdelete : w.timers.ocreTimerDelete module id' = (-22, w.timers) := if_pos hnot
      simp only [ApiWorld.call, ApiWorld.ocreTimerDelete, hdelete] at h
      obtain ⟨rfl, rfl⟩ := Prod.mk.inj (Option.some.inj h)
      exact ⟨by decide, rfl⟩
  | timerStart id' interval isPeriodic uptime coreStart =>
      obtain rfl := Option.some.inj hid
      have hstart : w.timers.ocreTimerStart module id' interval isPeriodic uptime coreStart =
          (-22, w.timers) := if_pos hnot
      simp only [ApiWorld.call, hstart] at h
      obtain ⟨rfl, rfl⟩ := Prod.mk.inj (Option.some.inj h)
      exact ⟨by decide, rfl⟩
  | timerStop id' =>
      obtain rfl := Option.some.inj hid
      have hstop : w.timers.ocreTimerStop module id' = (-22, w.timers) := if_pos hnot
      simp only [ApiWorld.call, hstop] at h
      obtain ⟨rfl, rfl⟩ := Prod.mk.inj (Option.some.inj h)
      exact ⟨by decide, rfl⟩
  | timerGetRemaining id' uptime =>
      obtain rfl := Option.some.inj hid
      have hremaining : w.timers.ocreTimerGetRemaining module id' uptime = -22 := if_pos hnot
      simp only [ApiWorld.call, hremaining] at h
      obtain ⟨rfl, rfl⟩ := Prod.mk.inj (Option.some.inj h)
      exact ⟨by decide, rfl⟩
  | subscribe | publish | freeModuleEventData | getEvent => cases hid

theorem recorded_of_call (h : w.timers.Recorded n) {call : NativeCall}
    (hcall : w.call module call = some (r, w')) : w'.timers.Recorded n := by
  have hinit := timers_ocreMessagingInit w
  cases call with
  | timerCreate id coreInit =>
      obtain ⟨-, rfl⟩ := Prod.mk.inj (Option.some.inj hcall)
      exact h.ocreTimerCreate coreInit
  | timerDelete id =>
      obtain ⟨-, rfl⟩ := Prod.mk.inj (Option.some.inj hcall)
      exact h.ocreTimerDelete
  | timerStart id interval isPeriodic uptime coreStart =>
      obtain ⟨-, rfl⟩ := Prod.mk.inj (Option.some.inj hcall)
      exact h.ocreTimerStart interval isPeriodic uptime coreStart
  | timerStop id =>
      obtain ⟨-, rfl⟩ := Prod.mk.inj (Option.some.inj hcall)
      exact h.ocreTimerStop
  | timerGetRemaining | freeModuleEventData =>
      obtain ⟨-, rfl⟩ := Prod.mk.inj (Option.some.inj hcall)
      exact h
  | subscribe topic =>
      obtain ⟨-, rfl⟩ := Prod.mk.inj (Option.some.inj hcall)
      have htimers := timers_subscribe w.ocreMessagingInit module (topic.getD [])
      exact (htimers.trans hinit).symm ▸ h
  | publish args offsets =>
      obtain ⟨htimers, -⟩ := frame_of_publish hcall
      exact (htimers.trans hinit).symm ▸ h
  | getEvent offsets =>
      obtain ⟨got, -, heq⟩ := Option.map_eq_some_iff.mp hcall
      obtain ⟨-, rfl⟩ := Prod.mk.inj heq
      exact h

theorem recorded_cleanupHandler (h : w.timers.Recorded n) (type : OcreResourceType) :
    (w.cleanupHandler module type).timers.Recorded n := by
  cases type with
  | timer =>
      rw [cleanupHandler]
      split
      · exact h
      · exact h.ocreTimerCleanupContainer
  | messaging =>
      rw [cleanupHandler]
      split <;> exact h
  | gpio | sensor => exact h

theorem recorded_of_perform (hready : w.Ready) (h : w.timers.Recorded n) {a : ApiAct}
    (hperform : w.perform a = some (r, w')) : w'.timers.Recorded n := by
  cases a with
  | instantiate module usesOcreApi malloc =>
      obtain ⟨-, rfl⟩ := perform_instantiate hperform
      exact h
  | native module call =>
      obtain ⟨inst, -, -, hcall⟩ := perform_native hperform
      exact recorded_of_call h hcall
  | returnMain module =>
      obtain ⟨inst, -, -, rfl⟩ := perform_returnMain hperform
      exact h
  | cleanup module =>
      obtain ⟨inst, -, hcleanup⟩ := perform_cleanup hperform
      rcases cleanup_cases hcleanup with ⟨-, type, -, -, rfl⟩ | ⟨-, rfl⟩ | ⟨-, rfl⟩
      · exact recorded_cleanupHandler h type
      · exact h
      · exact h
  | deinstantiate module =>
      obtain ⟨inst, -, -, rfl⟩ := perform_deinstantiate hperform
      exact h
  | expire slot =>
      obtain ⟨timer, htimer, rfl⟩ := perform_expire hperform
      apply h.set
      exact h.record slot timer htimer
  | notify slot uptime =>
      obtain ⟨l, hl⟩ := hready.serves
      obtain ⟨events, timers, rfl, htimers, -⟩ := perform_notify hl hperform
      rcases htimers with rfl | rfl
      · exact h
      · apply h.set
        intro hinUse
        have hfired : ((w.timer slot).fired uptime).inUse = (w.timer slot).inUse ∧
            ((w.timer slot).fired uptime).owner = (w.timer slot).owner ∧
            ((w.timer slot).fired uptime).id = (w.timer slot).id := by
          unfold OcreTimer.fired
          split <;> exact ⟨rfl, rfl, rfl⟩
        rw [hfired.1] at hinUse
        rw [hfired.2.1, hfired.2.2]
        cases hslot : w.timers[slot]? with
        | none => simp [timer, hslot] at hinUse
        | some old =>
            have hold : w.timer slot = old := by simp [timer, hslot]
            rw [hold] at hinUse ⊢
            exact h.record slot old hslot hinUse

end ApiWorld

variable {maxTimers maxSubscriptions : ℕ} {w : ApiWorld}

theorem recorded_of_reachable (h : (apiSystem maxTimers maxSubscriptions).Reachable w) :
    w.timers.Recorded maxTimers := by
  refine StepSystem.ReachableWhere.invariant_of (I := fun w ↦ w.timers.Recorded maxTimers)
    (J := ApiWorld.Ready) (fun _ h ↦ (ready_of_reachable h).1) ?_ ?_ h
  · rintro w rfl
    exact TimerTable.recorded_replicate maxTimers
  · rintro a w w' hready h - hnext
    obtain ⟨⟨r, t⟩, hperform, rfl⟩ := Option.map_eq_some_iff.mp hnext
    exact ApiWorld.recorded_of_perform hready h hperform

/-- In every reachable state a call or the clean-up of one module leaves what the others
hold, their timers are refused to it, and no timer has two owners. -/
theorem isolated_of_reachable (h : (apiSystem maxTimers maxSubscriptions).Reachable w) :
    (∀ module other call r w', other ≠ module → w.call module call = some (r, w') →
      w'.holdings other = w.holdings other) ∧
    (∀ module other, other ≠ module →
      (w.ocreCleanupModuleResources module).holdings other = w.holdings other) ∧
    (∀ module other id call r w', other ≠ module → w.timers.owned other id = true →
      NativeCall.timerId call = some id → w.call module call = some (r, w') →
        r.ret < 0 ∧ w' = w) ∧
    (∀ module other id, w.timers.owned module id = true → w.timers.owned other id = true →
      module = other) ∧
    (maxTimers ≤ 256 → ∀ (i j : ℕ) (timer timer' : OcreTimer), w.timers[i]? = some timer →
      w.timers[j]? = some timer' → timer.inUse = true → timer'.inUse = true →
        timer.id = timer'.id → i = j) := by
  have hrecorded := recorded_of_reachable h
  refine ⟨?_, ?_, ?_, ?_, ?_⟩
  · intro module other call r w' hne hcall
    exact ApiWorld.holdings_of_call (ready_of_reachable h).1 hne hcall
  · intro module other hne
    exact ApiWorld.holdings_ocreCleanupModuleResources hne w
  · intro module other id call r w' hne howned hid hcall
    exact ApiWorld.refused_of_owned howned hne hid hcall
  · intro module other id hmodule hother
    by_contra hne
    exact TimerTable.not_of_owned hmodule (Ne.symm hne) (TimerTable.owned_iff.mp hother).2
  · intro hmax i j timer timer' hi hj hinUse hinUse' hid
    have hlti := (List.getElem?_eq_some_iff.mp hi).1
    have hltj := (List.getElem?_eq_some_iff.mp hj).1
    rw [(hrecorded.record i timer hi hinUse).1, (hrecorded.record j timer' hj hinUse').1] at hid
    rw [hrecorded.length] at hlti hltj
    omega

/-- Module 1 creates a timer next to module 2. -/
def timerHeld : List ApiAct :=
  [.instantiate 1 true true, .instantiate 2 true true, .native 1 (.timerCreate 1 0)]

theorem isolated_of_timerHeld :
    ∃ w, (apiSystem 5 2).run (.initial 5 2) timerHeld = some w ∧ w.timers.owned 1 1 = true ∧
      ∀ call r w', NativeCall.timerId call = some 1 → w.call 2 call = some (r, w') →
        r.ret < 0 ∧ w' = w := by
  have hany : ((apiSystem 5 2).run (.initial 5 2) timerHeld).any
      (fun w ↦ w.timers.owned 1 1) = true := by decide
  obtain ⟨w, hrun, howned⟩ := (Option.any_eq_true _ _).mp hany
  have hreachable : (apiSystem 5 2).Reachable w := StepSystem.Reachable.run (.start rfl) hrun
  refine ⟨w, hrun, howned, ?_⟩
  intro call r w' hid hcall
  exact (isolated_of_reachable hreachable).2.2.1 2 1 1 call r w' (by decide) howned hid hcall

end OcreRuntime
