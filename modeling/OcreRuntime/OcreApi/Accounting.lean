import OcreRuntime.OcreApi.Isolation

/-!
# Counting resources

A module context has a counter for each type of resource, and the messaging system has one
for the subscriptions of all modules. The natives count what they store and the clean-up
handlers what they release, so the counters are the numbers of slots in use whatever is
called in whatever order, as long as no instance is taken for an earlier one.
-/

namespace OcreRuntime

open Function (update)
open PartialMap (modify)

namespace TimerTable

variable {timers timers' : TimerTable} {module other : ℕ} {id : Int} {timer : OcreTimer}

theorem heldBy_le_length : timers.heldBy module ≤ timers.length := List.countP_le_length

theorem heldBy_of_holdings (h : timers'.holdings module = timers.holdings module) :
    timers'.heldBy module = timers.heldBy module :=
  SlotTable.count_of_holdings h

/-- A timer that stays in the same hands is counted as before. -/
theorem heldBy_set {i : ℕ}
    (h : ∀ old ∈ timers[i]?, timer.inUse = old.inUse ∧ timer.owner = old.owner) :
    heldBy (timers.set i timer) module = timers.heldBy module := by
  apply SlotTable.count_set_of_iff
  intro old hold
  obtain ⟨hinUse, howner⟩ := h old hold
  rw [SlotTable.Held, SlotTable.Held, hinUse, howner]

theorem heldBy_store (h : timers.validId id = true) :
    (timers.store id timer).heldBy module + (if (timers.slot id).Of module then 1 else 0) =
      timers.heldBy module + if timer.Of module then 1 else 0 :=
  SlotTable.count_set (getElem?_of_validId h)

theorem heldBy_store_of_eq (h : timers.validId id = true)
    (hinUse : timer.inUse = (timers.slot id).inUse)
    (howner : timer.owner = (timers.slot id).owner) :
    (timers.store id timer).heldBy module = timers.heldBy module := by
  apply heldBy_set
  intro old hold
  obtain rfl := Option.some.inj ((getElem?_of_validId h).symm.trans hold)
  exact ⟨hinUse, howner⟩

theorem heldBy_ocreTimerCreate (coreInit : Int) :
    (timers.ocreTimerCreate module id coreInit).2.heldBy other = timers.heldBy other +
      if (timers.ocreTimerCreate module id coreInit).1 = 0 ∧ other = module then 1 else 0 := by
  unfold ocreTimerCreate
  split
  · simp
  next hvalid =>
    dsimp only
    split
    · simp
    next hfree =>
      have hold : ¬ (timers.slot id).Of other := fun h ↦ hfree h.1
      have hstore (timer : OcreTimer) := @heldBy_store timers other id timer (not_not.mp hvalid)
      simp only [hold, if_false, Nat.add_zero] at hstore
      split
      · rw [hstore, if_neg fun h ↦ Bool.false_ne_true h.1, if_neg nofun]
      · rw [hstore]
        congr 1
        simp [SlotTable.Held, eq_comm]

theorem heldBy_ocreTimerDelete :
    (timers.ocreTimerDelete module id).2.heldBy other +
      (if (timers.ocreTimerDelete module id).1 = 0 ∧ other = module then 1 else 0) =
        timers.heldBy other := by
  unfold ocreTimerDelete
  split
  · simp
  next howned =>
    obtain ⟨hvalid, hinUse, howner⟩ := owned_iff.mp (not_not.mp howned)
    have hstore := @heldBy_store timers other id (timers.slot id).released hvalid
    rw [if_neg fun h : (timers.slot id).released.Of other ↦ Bool.false_ne_true h.1] at hstore
    rw [Nat.add_zero] at hstore
    rw [← hstore]
    congr 1
    simp [SlotTable.Held, hinUse, howner, eq_comm]

theorem heldBy_ocreTimerStart (interval isPeriodic : Int) (uptime : UInt32) (coreStart : Int) :
    (timers.ocreTimerStart module id interval isPeriodic uptime coreStart).2.heldBy other =
      timers.heldBy other := by
  unfold ocreTimerStart
  split
  · rfl
  next howned =>
    obtain ⟨hvalid, -⟩ := owned_iff.mp (not_not.mp howned)
    split
    · rfl
    dsimp only
    split
    · exact heldBy_store_of_eq hvalid rfl rfl
    · exact heldBy_store_of_eq hvalid rfl rfl

theorem heldBy_ocreTimerStop :
    (timers.ocreTimerStop module id).2.heldBy other = timers.heldBy other := by
  unfold ocreTimerStop
  split
  · rfl
  next howned =>
    obtain ⟨hvalid, -⟩ := owned_iff.mp (not_not.mp howned)
    exact heldBy_store_of_eq hvalid rfl rfl

theorem heldBy_ocreTimerCleanupContainer :
    (timers.ocreTimerCleanupContainer module).heldBy other +
      (if other = module then timers.heldBy module else 0) = timers.heldBy other := by
  by_cases hother : other = module
  · subst hother
    have hzero : (timers.ocreTimerCleanupContainer other).heldBy other = 0 :=
      SlotTable.count_release_self fun _ ↦ rfl
    rw [hzero, if_pos rfl, Nat.zero_add]
  · rw [if_neg hother, Nat.add_zero]
    exact heldBy_of_holdings (holdings_ocreTimerCleanupContainer hother)

/-- A clean-up of a module that holds no timer changes nothing. -/
theorem cleanup_eq_self (h : timers.heldBy module = 0) :
    timers.ocreTimerCleanupContainer module = timers :=
  SlotTable.release_eq_self h

end TimerTable

namespace SubscriptionTable

variable {subscriptions subscriptions' : SubscriptionTable} {module other : ℕ}

/-- The slots in use. -/
def active (subscriptions : SubscriptionTable) : ℕ := subscriptions.countP Subscription.isActive

theorem heldBy_le_active : subscriptions.heldBy module ≤ subscriptions.active := by
  apply List.countP_mono_left
  intro subscription _ hheld
  simp only [Bool.decide_and, Bool.and_eq_true, decide_eq_true_eq] at hheld
  exact hheld.1

theorem active_le_length : subscriptions.active ≤ subscriptions.length := List.countP_le_length

theorem heldBy_of_holdings (h : subscriptions'.holdings module = subscriptions.holdings module) :
    subscriptions'.heldBy module = subscriptions.heldBy module :=
  SlotTable.count_of_holdings h

theorem heldBy_storeFree {topic : CString}
    (h : subscriptions.storeFree (newSubscription module topic) = some subscriptions') :
    subscriptions'.heldBy other =
      subscriptions.heldBy other + if other = module then 1 else 0 := by
  obtain ⟨i, old, hold, hfree, rfl⟩ := exists_set_of_storeFree h
  have hcount := @SlotTable.count_set _ _ Subscription.isActive Subscription.moduleInst
    subscriptions (some other) _ (newSubscription module topic) old i hold
  have hnot : ¬ old.Of other := fun h ↦ Bool.false_ne_true (hfree.symm.trans h.1)
  have hnew : (newSubscription module topic).Of other ↔ other = module := by
    simp [SlotTable.Held, newSubscription, eq_comm]
  rw [if_neg hnot, Nat.add_zero] at hcount
  simp only [hnew] at hcount
  exact hcount

theorem active_storeFree {topic : CString}
    (h : subscriptions.storeFree (newSubscription module topic) = some subscriptions') :
    subscriptions'.active = subscriptions.active + 1 := by
  obtain ⟨i, old, hold, hfree, rfl⟩ := exists_set_of_storeFree h
  obtain ⟨hlt, hget⟩ := List.getElem?_eq_some_iff.mp hold
  rw [active, List.countP_set hlt, hget, hfree]
  simp [active, newSubscription]

theorem length_storeFree {new : Subscription}
    (h : subscriptions.storeFree new = some subscriptions') :
    subscriptions'.length = subscriptions.length := by
  obtain ⟨i, old, -, -, rfl⟩ := exists_set_of_storeFree h
  exact List.length_set ..

theorem heldBy_cleanupContainer :
    (subscriptions.cleanupContainer module).heldBy other +
      (if other = module then subscriptions.heldBy module else 0) =
        subscriptions.heldBy other := by
  by_cases hother : other = module
  · subst hother
    have hzero : (subscriptions.cleanupContainer other).heldBy other = 0 :=
      SlotTable.count_release_self fun _ ↦ rfl
    rw [hzero, if_pos rfl, Nat.zero_add]
  · rw [if_neg hother, Nat.add_zero]
    exact heldBy_of_holdings (holdings_cleanupContainer hother)

theorem active_cleanupContainer :
    (subscriptions.cleanupContainer module).active + subscriptions.heldBy module =
      subscriptions.active :=
  SlotTable.countP_release_add_count fun _ ↦ rfl

theorem cleanup_eq_self (h : subscriptions.heldBy module = 0) :
    subscriptions.cleanupContainer module = subscriptions :=
  SlotTable.release_eq_self h

end SubscriptionTable

namespace ApiWorld

variable {w w' : ApiWorld} {module : ℕ} {type : OcreResourceType} {r : NativeResult}

/-- The number of resources of a type that a module holds. -/
def heldBy (w : ApiWorld) : OcreResourceType → ℕ → ℕ
  | .timer, module => w.timers.heldBy module
  | .messaging, module => w.subscriptions.heldBy module
  | .gpio, _ | .sensor, _ => 0

/-- What each clean-up handler keeps, the clean-up of all resources keeps. -/
theorem ocreCleanupModuleResources_keeps {P : ApiWorld → Prop}
    (hstep : ∀ w, P w → ∀ type, P (w.cleanupHandler module type)) (h : P w) :
    P (w.ocreCleanupModuleResources module) := by
  unfold ocreCleanupModuleResources
  induction ocreResourceTypes generalizing w with
  | nil => exact h
  | cons type types ih => exact ih (hstep w h type)

/-- The counters of a module context are right, and where there is no instance nothing is
held. -/
structure Counted (w : ApiWorld) : Prop where
  counts : ∀ module ctx type, contextAt w.modules module = some ctx →
    (ctx.resourceCount type).toNat = w.heldBy type module
  vacant : ∀ module type, w.modules module = none → w.heldBy type module = 0

theorem heldBy_of_holdings (h : w'.holdings module = w.holdings module)
    (type : OcreResourceType) : w'.heldBy type module = w.heldBy type module := by
  obtain ⟨htimers, hsubscriptions, -⟩ := Holdings.mk.inj h
  cases type with
  | timer => exact TimerTable.heldBy_of_holdings htimers
  | messaging => exact SubscriptionTable.heldBy_of_holdings hsubscriptions
  | gpio | sensor => rfl

theorem contextAt_of_modify {modules : ℕ → Option ModuleInst} {f : ModuleInst → ModuleInst}
    {g : ModuleContext → ModuleContext} {ctx : ModuleContext}
    (hf : ∀ inst ctx, (f inst).context = some ctx → inst.context.map g = some ctx)
    (h : contextAt (modify modules module f) module = some ctx) :
    (contextAt modules module).map g = some ctx := by
  rw [contextAt, PartialMap.modify_self] at h
  rw [contextAt]
  cases hmodule : modules module with
  | none => simp [hmodule] at h
  | some inst =>
      rw [hmodule] at h
      exact hf inst ctx h

theorem contextAt_modify_of_context {modules : ℕ → Option ModuleInst}
    {f : ModuleInst → ModuleInst} (hf : ∀ inst, (f inst).context = inst.context) (other : ℕ) :
    contextAt (modify modules module f) other = contextAt modules other := by
  by_cases hother : other = module
  · subst hother
    rw [contextAt, PartialMap.modify_self, contextAt]
    cases modules other with
    | none => rfl
    | some inst => exact hf inst
  · exact contextAt_modify hother modules f

namespace Counted

theorem congr (h : w.Counted) (hnone : ∀ other, w'.modules other = none → w.modules other = none)
    (hcontext : ∀ other, contextAt w'.modules other = contextAt w.modules other)
    (hheld : ∀ type other, w'.heldBy type other = w.heldBy type other) : w'.Counted := by
  constructor
  · intro other ctx type hctx
    rw [hheld]
    exact h.counts other ctx type ((hcontext other).symm.trans hctx)
  · intro other type hother
    rw [hheld]
    exact h.vacant other type (hnone other hother)

/-- A change of the counters of one module that what it holds follows. -/
theorem modify (h : w.Counted) {f : ModuleInst → ModuleInst} {g : ModuleContext → ModuleContext}
    (hmodules : w'.modules = modify w.modules module f)
    (hf : ∀ inst ctx, (f inst).context = some ctx → inst.context.map g = some ctx)
    (hself : ∀ ctx type, (ctx.resourceCount type).toNat = w.heldBy type module →
      ((g ctx).resourceCount type).toNat = w'.heldBy type module)
    (hother : ∀ other type, other ≠ module → w'.heldBy type other = w.heldBy type other)
    (hvacant : w.modules module = none → ∀ type, w'.heldBy type module = 0) : w'.Counted := by
  constructor
  · intro other ctx type hctx
    rw [hmodules] at hctx
    by_cases hmodule : other = module
    · subst hmodule
      obtain ⟨old, hold, rfl⟩ := Option.map_eq_some_iff.mp (contextAt_of_modify hf hctx)
      exact hself old type (h.counts other old type hold)
    · rw [contextAt_modify hmodule] at hctx
      rw [hother other type hmodule]
      exact h.counts other ctx type hctx
  · intro other type hnone
    rw [hmodules] at hnone
    rw [PartialMap.modify_eq_none_iff] at hnone
    by_cases hmodule : other = module
    · subst hmodule
      exact hvacant hnone type
    · rw [hother other type hmodule]
      exact h.vacant other type hnone

theorem increment (h : w.Counted) (hinst : (w.modules module).isSome = true)
    (hmodules : w'.modules = PartialMap.modify w.modules module (.incrementResourceCount type))
    (hfits : w.heldBy type module + 1 < 2 ^ 32)
    (hheld : ∀ type' other, w'.heldBy type' other =
      w.heldBy type' other + if type' = type ∧ other = module then 1 else 0) : w'.Counted := by
  refine h.modify hmodules (fun _ _ hctx ↦ hctx) ?_ ?_ ?_
  · intro ctx type' hcount
    by_cases htype : type' = type
    · subst htype
      rw [hheld, if_pos ⟨rfl, rfl⟩, ← hcount]
      rw [← hcount] at hfits
      simp only [Function.update_self, UInt32.toNat_add]
      exact Nat.mod_eq_of_lt hfits
    · rw [hheld, if_neg fun hboth ↦ htype hboth.1]
      simp only [Function.update_of_ne htype]
      exact hcount
  · intro other type' hother
    rw [hheld, if_neg fun hboth ↦ hother hboth.2, Nat.add_zero]
  · intro hnone
    simp [hnone] at hinst

theorem decrement (h : w.Counted) {k : ℕ}
    (hmodules : w'.modules = PartialMap.modify w.modules module (.decrementResourceCount type k))
    (hheld : ∀ type' other, w'.heldBy type' other +
      (if type' = type ∧ other = module then k else 0) = w.heldBy type' other) : w'.Counted := by
  refine h.modify hmodules (fun _ _ hctx ↦ hctx) ?_ ?_ ?_
  · intro ctx type' hcount
    have hsame := hheld type' module
    by_cases htype : type' = type
    · subst htype
      rw [if_pos ⟨rfl, rfl⟩] at hsame
      have hlt := (ctx.resourceCount type').toNat_lt
      have hsub : (ctx.resourceCount type').toNat - k = w'.heldBy type' module := by omega
      simp only [Function.update_self, hsub]
      exact UInt32.toNat_ofNat_of_lt' (Nat.lt_of_le_of_lt (by omega) hlt)
    · rw [if_neg fun hboth ↦ htype hboth.1] at hsame
      simp only [Function.update_of_ne htype]
      exact hcount.trans hsame.symm
  · intro other type' hother
    have hsame := hheld type' other
    rwa [if_neg fun hboth ↦ hother hboth.2, Nat.add_zero] at hsame
  · intro hnone type'
    have hsame := hheld type' module
    rw [h.vacant module type' hnone] at hsame
    omega

end Counted

/-- All counters are right, and there are no more subscriptions than their counter can tell. -/
structure Accounted (w : ApiWorld) : Prop extends w.Counted where
  active : w.subscriptionCount.toNat = w.subscriptions.active
  subscriptions : w.subscriptions.length < 2 ^ 16

namespace Accounted

/-- A change that keeps the subscriptions. -/
theorem of_counted (h : w.Accounted) (hcounted : w'.Counted)
    (hcount : w'.subscriptionCount = w.subscriptionCount)
    (hsubscriptions : w'.subscriptions = w.subscriptions) : w'.Accounted where
  toCounted := hcounted
  active := by rw [hcount, hsubscriptions, h.active]
  subscriptions := hsubscriptions ▸ h.subscriptions

/-- A change of timers that leaves each with its module. -/
theorem setTimers (h : w.Accounted) (hmodules : w'.modules = w.modules)
    (hheld : ∀ other, w'.timers.heldBy other = w.timers.heldBy other)
    (hcount : w'.subscriptionCount = w.subscriptionCount)
    (hsubscriptions : w'.subscriptions = w.subscriptions) : w'.Accounted := by
  refine h.of_counted ?_ hcount hsubscriptions
  apply h.toCounted.congr
  · exact fun other hnone ↦ hmodules ▸ hnone
  · intro other
    rw [hmodules]
  · intro type other
    cases type with
    | timer => exact hheld other
    | messaging => exact congrArg (SubscriptionTable.heldBy · other) hsubscriptions
    | gpio | sensor => rfl

theorem ocreMessagingInit (hready : w.Ready) (h : w.Accounted) :
    w.ocreMessagingInit.Accounted := by
  have hmodules := modules_ocreMessagingInit w
  have hcounted : w.ocreMessagingInit.Counted := by
    apply h.toCounted.congr
    · exact fun other hnone ↦ hmodules ▸ hnone
    · intro other
      rw [hmodules]
    · intro type other
      exact heldBy_of_holdings (holdings_ocreMessagingInit hready other) type
  refine ⟨hcounted, ?_, ?_⟩
  · unfold ApiWorld.ocreMessagingInit
    split
    · exact h.active
    · have hzero : ∀ subscription ∈ w.subscriptions.map fun _ ↦ ({} : Subscription),
          ¬ subscription.isActive = true := by
        intro subscription hmem
        obtain ⟨-, -, rfl⟩ := List.mem_map.mp hmem
        exact Bool.false_ne_true
      exact (List.countP_eq_zero.mpr hzero).symm
  · unfold ApiWorld.ocreMessagingInit
    split
    · exact h.subscriptions
    · simpa using h.subscriptions

theorem subscribe (h : w.Accounted) (hinst : (w.modules module).isSome = true)
    (topic : CString) : (w.subscribe module topic).2.Accounted := by
  rcases w.subscribe_cases module topic with hsame | ⟨subscriptions, -, -, -, hstore, hsubscribe⟩
  · rw [hsame]
    exact h
  · rw [hsubscribe]
    have hlength := SubscriptionTable.length_storeFree hstore
    have hactive := SubscriptionTable.active_storeFree hstore
    have hle := @SubscriptionTable.active_le_length subscriptions
    have hsize := h.subscriptions
    have hheld : w.heldBy .messaging module ≤ w.subscriptions.active :=
      SubscriptionTable.heldBy_le_active
    refine ⟨?_, ?_, hlength ▸ hsize⟩
    · refine h.increment hinst rfl (by omega) ?_
      intro type' other
      cases type' with
      | messaging =>
          simp only [true_and]
          exact SubscriptionTable.heldBy_storeFree hstore
      | _ => rfl
    · have hone : (1 : UInt16).toNat = 1 := rfl
      rw [UInt16.toNat_add, h.active, hactive, hone]
      exact Nat.mod_eq_of_lt (by omega)

theorem ocreTimerCreate (h : w.Accounted) (hinst : (w.modules module).isSome = true)
    (hfits : w.timers.length < 2 ^ 32) (id coreInit : Int) {n : ℕ}
    (hrecorded : w.timers.Recorded n) :
    (w.ocreTimerCreate module id coreInit).2.Accounted := by
  have hheld (other : ℕ) := @TimerTable.heldBy_ocreTimerCreate w.timers module other id coreInit
  have hlength : (w.timers.ocreTimerCreate module id coreInit).2.length = n :=
    (hrecorded.ocreTimerCreate coreInit).length
  have hle := @TimerTable.heldBy_le_length (w.timers.ocreTimerCreate module id coreInit).2 module
  by_cases hret : (w.timers.ocreTimerCreate module id coreInit).1 = 0
  · simp only [hret, true_and] at hheld
    have hself := hheld module
    rw [if_pos rfl] at hself
    refine h.of_counted ?_ rfl rfl
    refine @Counted.increment w _ module .timer h.toCounted hinst ?_ ?_ ?_
    · simp [ApiWorld.ocreTimerCreate, hret]
    · rw [hlength, ← hrecorded.length, hself] at hle
      exact Nat.lt_of_le_of_lt hle hfits
    · intro type' other
      cases type' with
      | timer =>
          simp only [true_and]
          exact hheld other
      | _ => rfl
  · simp only [hret, false_and, if_false, Nat.add_zero] at hheld
    have hmodules : (w.ocreTimerCreate module id coreInit).2.modules = w.modules := by
      simp [ApiWorld.ocreTimerCreate, hret]
    exact h.setTimers hmodules hheld rfl rfl

theorem ocreTimerDelete (h : w.Accounted) (id : Int) :
    (w.ocreTimerDelete module id).2.Accounted := by
  have hheld (other : ℕ) := @TimerTable.heldBy_ocreTimerDelete w.timers module other id
  by_cases hret : (w.timers.ocreTimerDelete module id).1 = 0
  · simp only [hret, true_and] at hheld
    refine h.of_counted ?_ rfl rfl
    refine @Counted.decrement w _ module .timer h.toCounted 1 ?_ ?_
    · simp [ApiWorld.ocreTimerDelete, hret]
    · intro type' other
      cases type' with
      | timer =>
          simp only [true_and]
          exact hheld other
      | _ => rfl
  · simp only [hret, false_and, if_false, Nat.add_zero] at hheld
    have hmodules : (w.ocreTimerDelete module id).2.modules = w.modules := by
      simp [ApiWorld.ocreTimerDelete, hret]
    exact h.setTimers hmodules hheld rfl rfl

theorem publish (h : w.Accounted) {message : Message} {offsets : ℕ → DupOffsets}
    (hpublish : w.publish message offsets = some (r, w')) : w'.Accounted := by
  obtain ⟨st, hadds, -, hmodules, -, htimers, hsubscriptions⟩ := exists_adds_of_publish hpublish
  have hholdings := holdings_publish hpublish
  have hcounted : w'.Counted := by
    apply h.toCounted.congr
    · exact fun other hnone ↦ hadds.extended.eq_none_iff.mp (hmodules ▸ hnone)
    · intro other
      exact (Holdings.mk.inj (hholdings other)).2.2
    · intro type other
      exact heldBy_of_holdings (hholdings other) type
  refine h.of_counted hcounted ?_ hsubscriptions
  obtain ⟨st', -, heq⟩ := Option.map_eq_some_iff.mp hpublish
  dsimp only at heq
  split at heq
  · exact (Prod.mk.inj heq).2 ▸ rfl
  · exact (Prod.mk.inj heq).2 ▸ rfl

theorem call (hready : w.Ready) (hfits : w.timers.length < 2 ^ 32) {n : ℕ}
    (hrecorded : w.timers.Recorded n) (h : w.Accounted)
    (hinst : (w.modules module).isSome = true) {call : NativeCall}
    (hcall : w.call module call = some (r, w')) : w'.Accounted := by
  cases call with
  | timerCreate id coreInit =>
      obtain ⟨-, rfl⟩ := Prod.mk.inj (Option.some.inj hcall)
      exact h.ocreTimerCreate hinst hfits id coreInit hrecorded
  | timerDelete id =>
      obtain ⟨-, rfl⟩ := Prod.mk.inj (Option.some.inj hcall)
      exact h.ocreTimerDelete id
  | timerStart id interval isPeriodic uptime coreStart =>
      obtain ⟨-, rfl⟩ := Prod.mk.inj (Option.some.inj hcall)
      refine h.setTimers rfl ?_ rfl rfl
      intro other
      exact TimerTable.heldBy_ocreTimerStart _ _ _ _
  | timerStop id =>
      obtain ⟨-, rfl⟩ := Prod.mk.inj (Option.some.inj hcall)
      exact h.setTimers rfl (fun _ ↦ TimerTable.heldBy_ocreTimerStop) rfl rfl
  | timerGetRemaining id uptime =>
      obtain ⟨-, rfl⟩ := Prod.mk.inj (Option.some.inj hcall)
      exact h
  | subscribe topic =>
      obtain ⟨-, rfl⟩ := Prod.mk.inj (Option.some.inj hcall)
      apply (h.ocreMessagingInit hready).subscribe
      rwa [modules_ocreMessagingInit]
  | publish args offsets =>
      have hinit := h.ocreMessagingInit hready
      simp only [ApiWorld.call, ocreMessagingPublish] at hcall
      cases hmessage : args.message with
      | none =>
          rw [hmessage] at hcall
          obtain ⟨-, rfl⟩ := Prod.mk.inj (Option.some.inj hcall)
          exact hinit
      | some message =>
          rw [hmessage] at hcall
          exact hinit.publish hcall
  | freeModuleEventData topic contentType payload =>
      obtain ⟨-, rfl⟩ := Prod.mk.inj (Option.some.inj hcall)
      refine h.of_counted ?_ rfl rfl
      refine h.toCounted.congr ?_ (contextAt_modify_of_context fun _ ↦ rfl) fun _ _ ↦ rfl
      exact fun other hnone ↦ (call_extended hcall).eq_none_iff.mp hnone
  | getEvent offsets =>
      obtain ⟨got, -, heq⟩ := Option.map_eq_some_iff.mp hcall
      obtain ⟨-, rfl⟩ := Prod.mk.inj heq
      exact h.setTimers rfl (fun _ ↦ rfl) rfl rfl

theorem cleanupHandler (h : w.Accounted) (module : ℕ) (type : OcreResourceType) :
    (w.cleanupHandler module type).Accounted := by
  cases type with
  | timer =>
      rw [ApiWorld.cleanupHandler]
      split
      · exact h
      refine h.of_counted (h.decrement rfl ?_) rfl rfl
      intro type' other
      cases type' with
      | timer =>
          simp only [true_and]
          exact TimerTable.heldBy_ocreTimerCleanupContainer
      | _ => rfl
  | messaging =>
      rw [ApiWorld.cleanupHandler]
      split
      · exact h
      have hactive := @SubscriptionTable.active_cleanupContainer w.subscriptions module
      have hle := @SubscriptionTable.active_le_length w.subscriptions
      have hsize := h.subscriptions
      refine ⟨h.decrement rfl ?_, ?_, ?_⟩
      · intro type' other
        cases type' with
        | messaging =>
            simp only [true_and]
            exact SubscriptionTable.heldBy_cleanupContainer
        | _ => rfl
      · have hheld : (w.subscriptions.heldBy module).toUInt16.toNat =
            w.subscriptions.heldBy module :=
          UInt16.toNat_ofNat_of_lt' (Nat.lt_of_le_of_lt (by omega) hsize)
        rw [UInt16.toNat_sub_of_le, hheld, h.active, ← hactive, Nat.add_sub_cancel]
        rw [UInt16.le_iff_toNat_le, hheld, h.active]
        omega
      · exact (List.length_map _).trans_lt hsize
  | gpio | sensor => exact h

theorem ocreCleanupModuleResources (h : w.Accounted) (module : ℕ) :
    (w.ocreCleanupModuleResources module).Accounted :=
  ocreCleanupModuleResources_keeps (fun _ h type ↦ h.cleanupHandler module type) h

theorem setPhase (h : w.Accounted) (module : ℕ) (phase : ModulePhase) :
    (w.setPhase module phase).Accounted := by
  refine h.of_counted ?_ rfl rfl
  refine h.toCounted.congr ?_ (contextAt_modify_of_context fun _ ↦ rfl) fun _ _ ↦ rfl
  exact fun other hnone ↦ PartialMap.modify_eq_none_iff.mp hnone

/-- A new instance starts where nothing is held, with counters at 0. -/
theorem instantiate (h : w.Accounted) (hnone : w.modules module = none)
    (usesOcreApi malloc : Bool) : (w.instantiate module usesOcreApi malloc).Accounted := by
  refine h.of_counted ?_ rfl rfl
  constructor
  · intro other ctx type hctx
    rw [contextAt] at hctx
    by_cases hother : other = module
    · subst hother
      rw [modules_instantiate_self, Option.bind_some, ModuleInst.new] at hctx
      obtain ⟨-, heq⟩ := Option.ite_none_right_eq_some.mp hctx
      obtain rfl := Option.some.inj heq
      exact (h.vacant other type hnone).symm
    · rw [modules_instantiate_of_ne hother] at hctx
      exact h.counts other ctx type hctx
  · intro other type hother
    have hne : other ≠ module := by
      rintro rfl
      rw [modules_instantiate_self] at hother
      cases hother
    rw [modules_instantiate_of_ne hne] at hother
    exact h.vacant other type hother

theorem perform (hready : w.Ready) {n : ℕ} (hrecorded : w.timers.Recorded n) (hfits : n < 2 ^ 32)
    (h : w.Accounted) {a : ApiAct} (ha : ∀ module, a ≠ .deinstantiate module)
    (hperform : w.perform a = some (r, w')) : w'.Accounted := by
  cases a with
  | instantiate module usesOcreApi malloc =>
      obtain ⟨hnone, rfl⟩ := perform_instantiate hperform
      exact h.instantiate hnone usesOcreApi malloc
  | native module call =>
      obtain ⟨inst, hinst, -, hcall⟩ := perform_native hperform
      refine h.call hready (hrecorded.length ▸ hfits) hrecorded ?_ hcall
      rw [hinst, Option.isSome_some]
  | returnMain module =>
      obtain ⟨inst, -, -, rfl⟩ := perform_returnMain hperform
      exact h.setPhase module _
  | cleanup module =>
      obtain ⟨inst, -, hcleanup⟩ := perform_cleanup hperform
      rcases cleanup_cases hcleanup with ⟨-, type, -, -, rfl⟩ | ⟨-, rfl⟩ | ⟨-, rfl⟩
      · exact (h.cleanupHandler module type).setPhase module _
      · exact h.setPhase module _
      · refine h.of_counted ?_ rfl rfl
        refine h.modify rfl nofun (fun _ _ hcount ↦ hcount) (fun _ _ _ ↦ rfl) ?_
        exact fun hnone type ↦ h.vacant module type hnone
  | deinstantiate module => exact absurd rfl (ha module)
  | expire slot =>
      obtain ⟨timer, htimer, rfl⟩ := perform_expire hperform
      refine h.setTimers rfl ?_ rfl rfl
      intro other
      apply TimerTable.heldBy_set
      intro old hold
      obtain rfl := Option.some.inj (htimer.symm.trans hold)
      exact ⟨rfl, rfl⟩
  | notify slot uptime =>
      obtain ⟨l, hl⟩ := hready.serves
      obtain ⟨events, timers, rfl, htimers, -⟩ := perform_notify hl hperform
      refine h.setTimers rfl ?_ rfl rfl
      intro other
      rcases htimers with rfl | rfl
      · rfl
      · apply TimerTable.heldBy_set
        intro old hold
        have htimer : w.timer slot = old := by simp [timer, Option.mem_def.mp hold]
        rw [htimer, OcreTimer.fired]
        split <;> exact ⟨rfl, rfl⟩

end Accounted

theorem Accounted.initial (maxTimers : ℕ) {maxSubscriptions : ℕ}
    (h : maxSubscriptions < 2 ^ 16) : (ApiWorld.initial maxTimers maxSubscriptions).Accounted := by
  have htimers (module : ℕ) : (ApiWorld.initial maxTimers maxSubscriptions).timers.heldBy module =
      0 := by
    simp [ApiWorld.initial, TimerTable.heldBy, List.countP_replicate]
  have hsubscriptions (module : ℕ) :
      (ApiWorld.initial maxTimers maxSubscriptions).subscriptions.heldBy module = 0 := by
    simp [ApiWorld.initial, SubscriptionTable.heldBy, List.countP_replicate]
  refine ⟨⟨?_, ?_⟩, ?_, ?_⟩
  · intro module ctx type hctx
    cases hctx
  · intro module type _
    cases type with
    | timer => exact htimers module
    | messaging => exact hsubscriptions module
    | gpio | sensor => rfl
  · simp [ApiWorld.initial, SubscriptionTable.active, List.countP_replicate]
  · simpa [ApiWorld.initial] using h

theorem recorded_ocreCleanupModuleResources {n : ℕ} (h : w.timers.Recorded n) :
    (w.ocreCleanupModuleResources module).timers.Recorded n :=
  ocreCleanupModuleResources_keeps (P := fun w ↦ w.timers.Recorded n)
    (fun _ h type ↦ recorded_cleanupHandler h type) h

theorem Ready.cleanupHandler (h : w.Ready) (module : ℕ) (type : OcreResourceType) :
    (w.cleanupHandler module type).Ready := by
  have hevents := events_cleanupHandler w module type
  constructor
  · exact hevents ▸ h.serves
  · intro hinit
    rw [hevents] at hinit
    apply List.eq_nil_iff_forall_not_mem.mpr
    intro owner howner
    have hmem := ((mem_owners_cleanupHandler_iff h).mp howner).1
    rw [h.messaging hinit] at hmem
    cases hmem
  · intro other inst hinst hcontext
    obtain ⟨old, hold, hext⟩ := (cleanupHandler_extended w module type).exists_of_some hinst
    rw [hext.usesOcreApi]
    exact h.context other old hold (hext.context hcontext)

theorem cleanupHandler_of_heldBy {type : OcreResourceType} (h : w.heldBy type module = 0) :
    w.cleanupHandler module type = w := by
  have hmodify : modify w.modules module (.decrementResourceCount type 0) = w.modules := by
    apply PartialMap.modify_eq_self
    intro inst _
    rw [ModuleInst.decrementResourceCount]
    cases inst with
    | mk usesOcreApi serial context phase copies allocated =>
        cases context with
        | none => rfl
        | some ctx =>
            simp
  cases type with
  | timer =>
      have hheld : w.timers.heldBy module = 0 := h
      rw [cleanupHandler, TimerTable.cleanup_eq_self hheld, hheld, hmodify]
      split <;> rfl
  | messaging =>
      have hheld : w.subscriptions.heldBy module = 0 := h
      have hcount : w.subscriptionCount - Nat.toUInt16 0 = w.subscriptionCount :=
        UInt16.sub_zero _
      simp only [cleanupHandler, SubscriptionTable.cleanup_eq_self hheld, hheld, hmodify, hcount]
      split <;> rfl
  | gpio | sensor => rfl

theorem heldBy_cleanupHandler (hready : w.Ready) (module : ℕ) (type type' : OcreResourceType) :
    (w.cleanupHandler module type).heldBy type' module =
      if type' = type then 0 else w.heldBy type' module := by
  cases type with
  | timer =>
      obtain ⟨l, hl⟩ := hready.serves
      rw [cleanupHandler, if_neg (by simp [hl.timerSystemInitialized])]
      cases type' with
      | timer => exact SlotTable.count_release_self fun _ ↦ rfl
      | _ => rfl
  | messaging =>
      simp only [cleanupHandler]
      split
      next hinit =>
        cases type' with
        | messaging =>
            have howners := hready.messaging (by simpa using hinit)
            apply SlotTable.count_eq_zero_iff.mpr
            intro howner
            have hmem : some module ∈ w.owners .messaging := howner
            rw [howners] at hmem
            cases hmem
        | _ => rfl
      · cases type' with
        | messaging => exact SlotTable.count_release_self fun _ ↦ rfl
        | _ => rfl
  | gpio | sensor => cases type' <;> rfl

theorem Ready.ocreCleanupModuleResources (h : w.Ready) (module : ℕ) :
    (w.ocreCleanupModuleResources module).Ready :=
  ocreCleanupModuleResources_keeps (fun _ h type ↦ h.cleanupHandler module type) h

/-- A pass over the handlers of some types, after which these are not held. -/
theorem heldBy_foldl_cleanupHandler (hready : w.Ready) (module : ℕ)
    (types : List OcreResourceType) (type : OcreResourceType) :
    (types.foldl (fun w type ↦ w.cleanupHandler module type) w).heldBy type module =
      if type ∈ types then 0 else w.heldBy type module := by
  induction types generalizing w with
  | nil => simp
  | cons first types ih =>
      rw [List.foldl_cons, ih (hready.cleanupHandler module first),
        heldBy_cleanupHandler hready]
      by_cases hmem : type ∈ types
      · simp [hmem]
      · simp [hmem]

theorem heldBy_ocreCleanupModuleResources (hready : w.Ready) (module : ℕ)
    (type : OcreResourceType) : (w.ocreCleanupModuleResources module).heldBy type module = 0 := by
  have hmem : type ∈ ocreResourceTypes := by cases type <;> decide
  rw [ApiWorld.ocreCleanupModuleResources, heldBy_foldl_cleanupHandler hready, if_pos hmem]

theorem ocreCleanupModuleResources_of_heldBy (h : ∀ type, w.heldBy type module = 0) :
    w.ocreCleanupModuleResources module = w := by
  unfold ApiWorld.ocreCleanupModuleResources
  induction ocreResourceTypes with
  | nil => rfl
  | cons type types ih => rw [List.foldl_cons, cleanupHandler_of_heldBy (h type), ih]

end ApiWorld

/-- A step of the native API, or a clean-up of all resources of a module. -/
inductive AccountingAct
  | perform (a : ApiAct)
  | cleanupModuleResources (module : ℕ)

/-- The native API with clean-ups at any time. An instance keeps its address when it has
ended, so no other one has it. -/
def accountingSystem (maxTimers maxSubscriptions : ℕ) : StepSystem ApiWorld AccountingAct where
  init := (· = ApiWorld.initial maxTimers maxSubscriptions)
  next
    | .perform (.deinstantiate _), _ => none
    | .perform a, w => (w.perform a).map Prod.snd
    | .cleanupModuleResources module, w =>
        if (w.modules module).isSome then some (w.ocreCleanupModuleResources module) else none

section Accounting

variable {maxTimers maxSubscriptions : ℕ} {w w' : ApiWorld} {module : ℕ}

theorem accountingSystem_cases {a : AccountingAct}
    (h : (accountingSystem maxTimers maxSubscriptions).next a w = some w') :
    (∃ a r, (∀ module, a ≠ .deinstantiate module) ∧ w.perform a = some (r, w')) ∨
      ∃ module, w' = w.ocreCleanupModuleResources module := by
  cases a with
  | perform a =>
      left
      have ha : ∀ module, a ≠ .deinstantiate module := by
        rintro module rfl
        cases h
      have hnext : (w.perform a).map Prod.snd = some w' := by
        cases a with
        | deinstantiate module => cases h
        | _ => exact h
      obtain ⟨⟨r, t⟩, hperform, rfl⟩ := Option.map_eq_some_iff.mp hnext
      exact ⟨a, r, ha, hperform⟩
  | cleanupModuleResources module =>
      right
      obtain ⟨-, heq⟩ := Option.ite_none_right_eq_some.mp h
      exact ⟨module, (Option.some.inj heq).symm⟩

theorem ready_of_accounting
    (h : (accountingSystem maxTimers maxSubscriptions).Reachable w) :
    w.Ready ∧ w.timers.Recorded maxTimers := by
  refine StepSystem.ReachableWhere.invariant
    (I := fun w ↦ w.Ready ∧ w.timers.Recorded maxTimers) ?_ ?_ h
  · rintro w rfl
    exact ⟨.initial maxTimers maxSubscriptions, TimerTable.recorded_replicate maxTimers⟩
  · rintro a w w' ⟨hready, hrecorded⟩ - hnext
    rcases accountingSystem_cases hnext with ⟨a, r, -, hperform⟩ | ⟨module, rfl⟩
    · exact ⟨hready.perform hperform, ApiWorld.recorded_of_perform hready hrecorded hperform⟩
    · exact ⟨hready.ocreCleanupModuleResources module,
        ApiWorld.recorded_ocreCleanupModuleResources hrecorded⟩

theorem accounted_of_reachable (htimers : maxTimers < 2 ^ 32)
    (hsubscriptions : maxSubscriptions < 2 ^ 16)
    (h : (accountingSystem maxTimers maxSubscriptions).Reachable w) : w.Accounted := by
  refine StepSystem.ReachableWhere.invariant_of (I := ApiWorld.Accounted)
    (J := fun w ↦ w.Ready ∧ w.timers.Recorded maxTimers)
    (fun _ h ↦ ready_of_accounting h) ?_ ?_ h
  · rintro w rfl
    exact .initial maxTimers hsubscriptions
  · rintro a w w' ⟨hready, hrecorded⟩ haccounted - hnext
    rcases accountingSystem_cases hnext with ⟨a, r, ha, hperform⟩ | ⟨module, rfl⟩
    · exact haccounted.perform hready hrecorded htimers ha hperform
    · exact haccounted.ocreCleanupModuleResources module

/-- The counters are the numbers of slots in use after any history, a clean-up of a module
leaves it nothing, and a second one has nothing to do. -/
theorem counts_of_reachable (htimers : maxTimers < 2 ^ 32)
    (hsubscriptions : maxSubscriptions < 2 ^ 16)
    (h : (accountingSystem maxTimers maxSubscriptions).Reachable w) :
    (∀ module ctx, contextAt w.modules module = some ctx →
      (ctx.resourceCount .timer).toNat = w.timers.heldBy module ∧
        (ctx.resourceCount .messaging).toNat = w.subscriptions.heldBy module) ∧
    w.subscriptionCount.toNat = w.subscriptions.active ∧
    (∀ module, w.subscriptions.heldBy module ≤ w.subscriptionCount.toNat) ∧
    ∀ module w', w' = w.ocreCleanupModuleResources module →
      (∀ ctx, contextAt w'.modules module = some ctx →
        ctx.resourceCount .timer = 0 ∧ ctx.resourceCount .messaging = 0) ∧
      w'.timers.heldBy module = 0 ∧ w'.subscriptions.heldBy module = 0 ∧
      w'.ocreCleanupModuleResources module = w' := by
  have hready := (ready_of_accounting h).1
  have haccounted := accounted_of_reachable htimers hsubscriptions h
  refine ⟨?_, haccounted.active, ?_, ?_⟩
  · intro module ctx hctx
    exact ⟨haccounted.counts module ctx .timer hctx, haccounted.counts module ctx .messaging hctx⟩
  · intro module
    rw [haccounted.active]
    exact SubscriptionTable.heldBy_le_active
  · rintro module w' rfl
    have hcleaned := haccounted.ocreCleanupModuleResources module
    have hheld := ApiWorld.heldBy_ocreCleanupModuleResources hready module
    have hzero (ctx : ModuleContext) (type : OcreResourceType)
        (hctx : contextAt (w.ocreCleanupModuleResources module).modules module = some ctx) :
        ctx.resourceCount type = 0 := by
      have hcount := hcleaned.counts module ctx type hctx
      rw [hheld type] at hcount
      exact UInt32.toNat_inj.mp hcount
    refine ⟨?_, hheld .timer, hheld .messaging, ?_⟩
    · intro ctx hctx
      exact ⟨hzero ctx .timer hctx, hzero ctx .messaging hctx⟩
    · exact ApiWorld.ocreCleanupModuleResources_of_heldBy hheld

/-- Two modules take resources, one of them twice and one that is taken, and one is cleaned
up while it runs. -/
def resourcesTaken : List AccountingAct :=
  [.perform (.instantiate 1 true true), .perform (.instantiate 2 true true),
    .perform (.native 1 (.timerCreate 1 0)), .perform (.native 2 (.timerCreate 1 0)),
    .perform (.native 1 (.subscribe (some (cstring "a")))),
    .perform (.native 1 (.subscribe (some (cstring "a")))),
    .perform (.native 2 (.subscribe (some (cstring "b")))), .cleanupModuleResources 2]

theorem counts_of_resourcesTaken :
    ∃ w ctx, (accountingSystem 5 32).run (.initial 5 32) resourcesTaken = some w ∧
      contextAt w.modules 1 = some ctx ∧ (ctx.resourceCount .timer).toNat = w.timers.heldBy 1 ∧
        w.timers.heldBy 1 = 1 ∧ w.subscriptionCount.toNat = w.subscriptions.active := by
  have hany : ((accountingSystem 5 32).run (.initial 5 32) resourcesTaken).any
      (fun w ↦ (contextAt w.modules 1).isSome ∧ w.timers.heldBy 1 = 1) = true := by
    decide +kernel
  obtain ⟨w, hrun, hw⟩ := (Option.any_eq_true _ _).mp hany
  simp only [decide_eq_true_eq] at hw
  obtain ⟨hsome, hheld⟩ := hw
  obtain ⟨ctx, hctx⟩ := Option.isSome_iff_exists.mp hsome
  have hreachable : (accountingSystem 5 32).Reachable w :=
    StepSystem.Reachable.run (.start rfl) hrun
  obtain ⟨hcounts, hactive, -⟩ := counts_of_reachable (by decide) (by decide) hreachable
  exact ⟨w, ctx, hrun, hctx, (hcounts 1 ctx hctx).1, hheld, hactive⟩

end Accounting

end OcreRuntime
