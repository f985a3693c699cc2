import Mathlib.Data.Finset.Card
import Mathlib.Data.Finset.Filter
import OcreRuntime.OcreApi.Orphans

/-!
# Subscriptions as a set of pairs

The purpose of the subscription table is a set of pairs of a module and a topic, and a
publish is for the pairs whose topic is a prefix of its own. A slot keeps the first 63
characters of a topic, so the table and the set agree as long as the topics fit.
-/

namespace OcreRuntime

namespace SubscriptionTable

variable {subscriptions subscriptions' : SubscriptionTable} {module : ℕ} {topic : CString}

/-- What a slot stands for. -/
def pair (subscription : Subscription) : Option (ℕ × CString) :=
  if subscription.isActive then subscription.moduleInst.map (·, subscription.topic) else none

/-- The modules and topics in the table. -/
def pairs (subscriptions : SubscriptionTable) : List (ℕ × CString) :=
  subscriptions.filterMap pair

def hasFree (subscriptions : SubscriptionTable) : Bool :=
  subscriptions.any fun subscription ↦ ¬ subscription.isActive

theorem pair_eq_some_iff {subscription : Subscription} : pair subscription = some (module, topic) ↔
    subscription.isActive = true ∧ subscription.moduleInst = some module ∧
      subscription.topic = topic := by
  simp [pair]

theorem isSubscribed_iff : subscriptions.isSubscribed module topic = true ↔
    (module, topic) ∈ subscriptions.pairs := by
  simp [isSubscribed, pairs, pair_eq_some_iff]

theorem owner_mem_owners_of_mem_pairs {p : ℕ × CString} (h : p ∈ subscriptions.pairs) :
    some p.1 ∈ subscriptions.owners := by
  obtain ⟨subscription, hmem, hpair⟩ := List.mem_filterMap.mp h
  obtain ⟨hactive, howner, -⟩ := pair_eq_some_iff.mp hpair
  exact SlotTable.mem_owners_iff.mpr ⟨subscription, hmem, hactive, howner⟩

theorem storeFree_isSome_iff (new : Subscription) :
    (subscriptions.storeFree new).isSome = subscriptions.hasFree := by
  induction subscriptions with
  | nil => rfl
  | cons subscription subscriptions ih =>
      by_cases hactive : subscription.isActive = true
      · simpa [storeFree, hasFree, hactive] using ih
      · simp [storeFree, hasFree, hactive]

theorem pairs_storeFree {new : Subscription} (hnew : pair new = some (module, topic))
    (h : subscriptions.storeFree new = some subscriptions') :
    subscriptions'.pairs.Perm ((module, topic) :: subscriptions.pairs) := by
  induction subscriptions generalizing subscriptions' with
  | nil => simp [storeFree] at h
  | cons subscription subscriptions ih =>
      unfold storeFree at h
      by_cases hactive : subscription.isActive = true
      · rw [if_neg (not_not.mpr hactive)] at h
        obtain ⟨rest, hrest, rfl⟩ := Option.map_eq_some_iff.mp h
        have hperm := ih hrest
        cases hpair : pair subscription with
        | none => simpa [pairs, hpair] using hperm
        | some p =>
            have hswap := (hperm.cons p).trans (.swap (module, topic) p (pairs subscriptions))
            simpa [pairs, hpair] using hswap
      · rw [if_pos hactive] at h
        obtain rfl := Option.some.inj h
        have hpair : pair subscription = none := by simp [pair, hactive]
        simp [pairs, hnew, hpair]

theorem pairs_cleanupContainer :
    (subscriptions.cleanupContainer module).pairs = subscriptions.pairs.filter (·.1 ≠ module) := by
  induction subscriptions with
  | nil => rfl
  | cons subscription subscriptions ih =>
      by_cases hheld : subscription.isActive = true ∧ subscription.moduleInst = some module
      · have hpair : pair subscription = some (module, subscription.topic) :=
          pair_eq_some_iff.mpr ⟨hheld.1, hheld.2, rfl⟩
        have hfree : pair {} = none := rfl
        simpa [pairs, cleanupContainer, hheld, hpair, hfree] using ih
      · cases hpair : pair subscription with
        | none => simpa [pairs, cleanupContainer, hheld, hpair] using ih
        | some p =>
            obtain ⟨hactive, howner, -⟩ := pair_eq_some_iff.mp hpair
            have hne : p.1 ≠ module := by
              rintro rfl
              exact hheld ⟨hactive, howner⟩
            simpa [pairs, cleanupContainer, hheld, hpair, hne] using ih

section Skipped

variable {message : Message} {subscription : Subscription}

/-- A slot that does not match is skipped by the loop, and so is its pair. -/
theorem messageEvents_of_not_match
    (h : ¬ (subscription.isActive = true ∧ subscription.topic <+: message.topic))
    (messageId : UInt32) (offsets : ℕ → DupOffsets) (i : ℕ) (subscriptions : SubscriptionTable) :
    messageEvents message messageId offsets i (subscription :: subscriptions) =
      messageEvents message messageId offsets (i + 1) subscriptions := by
  apply messageEvents_of_skip
  rintro ⟨hmatch, -⟩
  exact h (of_decide_eq_true hmatch)

theorem filter_pairs_of_not_match
    (h : ¬ (subscription.isActive = true ∧ subscription.topic <+: message.topic))
    (subscriptions : SubscriptionTable) :
    (pairs (subscription :: subscriptions)).filter (·.2 <+: message.topic) =
      (pairs subscriptions).filter (·.2 <+: message.topic) := by
  cases hpair : pair subscription with
  | none => simp [pairs, hpair]
  | some p =>
      obtain ⟨hactive, -, htopic⟩ := pair_eq_some_iff.mp hpair
      have hno : ¬ p.2 <+: message.topic := by
        intro hprefix
        exact h ⟨hactive, htopic ▸ hprefix⟩
      simp [pairs, hpair, hno]

end Skipped

/-- The events of a publish go to modules whose topic is a prefix, in the order of the
slots, and to all of them if every copy can be allocated. -/
theorem owners_messageEvents (message : Message) (messageId : UInt32)
    (offsets : ℕ → DupOffsets) (i : ℕ) (subscriptions : SubscriptionTable) :
    ((messageEvents message messageId offsets i subscriptions).map OcreEvent.owner).Sublist
        ((subscriptions.pairs.filter (·.2 <+: message.topic)).map Prod.fst) ∧
      ((∀ j, (offsets j).AllSome = true) →
        (messageEvents message messageId offsets i subscriptions).map OcreEvent.owner =
          (subscriptions.pairs.filter (·.2 <+: message.topic)).map Prod.fst) := by
  induction subscriptions generalizing i with
  | nil => exact ⟨.refl _, fun _ ↦ rfl⟩
  | cons subscription subscriptions ih =>
      obtain ⟨hsublist, heq⟩ := ih (i + 1)
      by_cases hmatch : subscription.isActive = true ∧ subscription.topic <+: message.topic
      swap
      · rw [messageEvents_of_not_match hmatch, filter_pairs_of_not_match hmatch]
        exact ⟨hsublist, heq⟩
      cases htarget : subscription.moduleInst with
      | none => simpa [messageEvents, pairs, pair, htarget] using ⟨hsublist, heq⟩
      | some target =>
          have hpair : pair subscription = some (target, subscription.topic) :=
            pair_eq_some_iff.mpr ⟨hmatch.1, htarget, rfl⟩
          have hpairs : ((pairs (subscription :: subscriptions)).filter
                (·.2 <+: message.topic)).map Prod.fst =
              target :: ((pairs subscriptions).filter (·.2 <+: message.topic)).map Prod.fst := by
            simp [pairs, hpair, hmatch.2]
          rw [hpairs]
          by_cases hall : (offsets i).AllSome = true
          · have hevents : (messageEvents message messageId offsets i
                (subscription :: subscriptions)).map OcreEvent.owner = target ::
                  (messageEvents message messageId offsets (i + 1) subscriptions).map
                    OcreEvent.owner := by
              simp [messageEvents, htarget, Subscription.isMatch, hmatch, hall, Message.event]
            rw [hevents]
            exact ⟨hsublist.cons_cons target, fun hoffsets ↦ by rw [heq hoffsets]⟩
          · have hevents : messageEvents message messageId offsets i
                (subscription :: subscriptions) =
                  messageEvents message messageId offsets (i + 1) subscriptions := by
              simp [messageEvents, htarget, hall]
            rw [hevents]
            exact ⟨hsublist.cons target, fun hoffsets ↦ absurd (hoffsets i) hall⟩

end SubscriptionTable

namespace ApiWorld

variable {w w' : ApiWorld} {module : ℕ} {r : NativeResult}

/-- Before its initialisation messaging has only free slots. -/
theorem subscriptions_ocreMessagingInit (h : w.Ready) :
    w.ocreMessagingInit.subscriptions.pairs = w.subscriptions.pairs ∧
      w.ocreMessagingInit.subscriptions.hasFree = w.subscriptions.hasFree := by
  unfold ocreMessagingInit
  split
  · exact ⟨rfl, rfl⟩
  next hinit =>
    have howners : w.subscriptions.owners = [] := h.messaging (by simpa using hinit)
    have hinactive : ∀ subscription ∈ w.subscriptions, subscription.isActive = false := by
      simpa [SubscriptionTable.owners, SlotTable.owners] using howners
    revert hinactive
    generalize w.subscriptions = subscriptions
    intro hinactive
    induction subscriptions with
    | nil => exact ⟨rfl, rfl⟩
    | cons subscription subscriptions ih =>
        have hfirst := hinactive subscription List.mem_cons_self
        obtain ⟨hpairs, -⟩ := ih fun x hx ↦ hinactive x (List.mem_cons_of_mem _ hx)
        constructor
        · simpa [SubscriptionTable.pairs, SubscriptionTable.pair, hfirst] using hpairs
        · simp [SubscriptionTable.hasFree, hfirst]

/-- A subscription is admitted: the module has a context, the topic is not empty and there
is a free slot. -/
def Admits (w : ApiWorld) (module : ℕ) (topic : CString) : Prop :=
  topic ≠ [] ∧ w.hasContext module = true ∧ w.subscriptions.hasFree = true

instance decidableAdmits (w : ApiWorld) (module : ℕ) (topic : CString) :
    Decidable (w.Admits module topic) :=
  inferInstanceAs (Decidable (_ ∧ _ ∧ _))

theorem admits_ocreMessagingInit (h : w.Ready) (topic : CString) :
    w.ocreMessagingInit.Admits module topic ↔ w.Admits module topic := by
  rw [Admits, hasContext_ocreMessagingInit, (subscriptions_ocreMessagingInit h).2, Admits]

/-- A subscription that is not admitted, or not new, leaves the table. -/
theorem subscriptions_subscribe_of_not {topic : CString}
    (h : ¬ w.Admits module topic ∨ (module, topic) ∈ w.subscriptions.pairs) :
    (w.subscribe module topic).2.subscriptions = w.subscriptions := by
  rcases w.subscribe_cases module topic with
    hsame | ⟨subscriptions, htopic, hcontext, hnew, hstore, -⟩
  · rw [hsame]
  · have hfree : w.subscriptions.hasFree = true := by
      rw [← SubscriptionTable.storeFree_isSome_iff, hstore, Option.isSome_some]
    rcases h with hnot | hmem
    · exact absurd ⟨htopic, hcontext, hfree⟩ hnot
    · exact absurd (SubscriptionTable.isSubscribed_iff.mpr hmem) (Bool.eq_false_iff.mp hnew)

/-- A new subscription that is admitted adds what its slot keeps. -/
theorem pairs_subscribe {topic : CString} (h : w.Admits module topic)
    (hnew : (module, topic) ∉ w.subscriptions.pairs) :
    (w.subscribe module topic).2.subscriptions.pairs.Perm
      ((module, topic.take (ocreMaxTopicLen - 1)) :: w.subscriptions.pairs) := by
  obtain ⟨htopic, hcontext, hfree⟩ := h
  rw [← SubscriptionTable.storeFree_isSome_iff
    (SubscriptionTable.newSubscription module topic)] at hfree
  obtain ⟨subscriptions, hstore⟩ := Option.isSome_iff_exists.mp hfree
  rw [← SubscriptionTable.isSubscribed_iff] at hnew
  have hpair : SubscriptionTable.pair (SubscriptionTable.newSubscription module topic) =
      some (module, topic.take (ocreMaxTopicLen - 1)) := rfl
  simpa [subscribe, htopic, hcontext, hnew, hstore] using
    SubscriptionTable.pairs_storeFree hpair hstore

theorem subscribe_of_mem {topic : CString} (htopic : topic ≠ [])
    (hcontext : w.hasContext module = true) (h : (module, topic) ∈ w.subscriptions.pairs) :
    w.subscribe module topic = (0, w) := by
  rw [← SubscriptionTable.isSubscribed_iff] at h
  simp [subscribe, htopic, hcontext, h]

/-- An instance that runs `main` after a step did so before, with the same context, unless
the step has instantiated it. -/
theorem main_of_perform {a : ApiAct} {inst' : ModuleInst} (h : w.perform a = some (r, w'))
    (hinst : w'.modules module = some inst') (hmain : inst'.phase = .main) :
    w.modules module = none ∨ ∃ inst, w.modules module = some inst ∧ inst.phase = .main ∧
      inst'.context.isSome = inst.context.isSome := by
  have hset : ∀ f : ModuleInst → ModuleInst, (∀ inst, (f inst).phase ≠ .main) →
      ∀ inst, f inst ≠ inst' := by
    rintro f hf inst rfl
    exact hf inst hmain
  cases a with
  | instantiate other usesOcreApi malloc =>
      obtain ⟨hnone, rfl⟩ := perform_instantiate h
      by_cases hother : module = other
      · exact .inl (hother ▸ hnone)
      · rw [modules_instantiate_of_ne hother] at hinst
        exact .inr ⟨inst', hinst, hmain, rfl⟩
  | native other call =>
      obtain ⟨-, -, -, hcall⟩ := perform_native h
      obtain ⟨inst, hold, hext⟩ := (call_extended hcall).exists_of_some hinst
      exact .inr ⟨inst, hold, hext.phase ▸ hmain, hext.hasContext⟩
  | returnMain other =>
      obtain ⟨inst, -, -, rfl⟩ := perform_returnMain h
      refine .inr ⟨inst', PartialMap.eq_some_of_modify (hset _ ?_) hinst, hmain, rfl⟩
      intro inst
      dsimp only
      split <;> simp
  | cleanup other =>
      obtain ⟨inst, -, hcleanup⟩ := perform_cleanup h
      rcases cleanup_cases hcleanup with ⟨_, type, _, -, rfl⟩ | ⟨-, rfl⟩ | ⟨-, rfl⟩
      · have hhandler := PartialMap.eq_some_of_modify (hset _ (by simp)) hinst
        obtain ⟨inst, hold, hext⟩ :=
          (cleanupHandler_extended w other type).exists_of_some hhandler
        exact .inr ⟨inst, hold, hext.phase ▸ hmain, hext.hasContext⟩
      · have hold := PartialMap.eq_some_of_modify (hset _ (by simp)) hinst
        exact .inr ⟨inst', hold, hmain, rfl⟩
      · have hold := PartialMap.eq_some_of_modify (hset _ (by simp)) hinst
        exact .inr ⟨inst', hold, hmain, rfl⟩
  | deinstantiate other =>
      obtain ⟨inst, -, -, rfl⟩ := perform_deinstantiate h
      have hother : module ≠ other := by
        rintro rfl
        simp [deinstantiate] at hinst
      refine .inr ⟨inst', ?_, hmain, rfl⟩
      simpa [deinstantiate, Function.update_of_ne hother] using hinst
  | expire slot =>
      obtain ⟨timer, -, rfl⟩ := perform_expire h
      exact .inr ⟨inst', hinst, hmain, rfl⟩
  | notify slot uptime =>
      rw [modules_of_notify h] at hinst
      exact .inr ⟨inst', hinst, hmain, rfl⟩

theorem pairs_ocreMessagingSubscribe_of_not (hready : w.Ready) {topic : Option CString}
    (h : ¬ w.Admits module (topic.getD []) ∨ (module, topic.getD []) ∈ w.subscriptions.pairs) :
    (w.ocreMessagingSubscribe module topic).2.subscriptions.pairs = w.subscriptions.pairs := by
  have hpairs := (subscriptions_ocreMessagingInit hready).1
  rw [ocreMessagingSubscribe, subscriptions_subscribe_of_not, hpairs]
  rwa [admits_ocreMessagingInit hready, hpairs]

theorem pairs_ocreMessagingSubscribe (hready : w.Ready) {topic : Option CString}
    (h : w.Admits module (topic.getD []))
    (hnew : (module, topic.getD []) ∉ w.subscriptions.pairs) :
    (w.ocreMessagingSubscribe module topic).2.subscriptions.pairs.Perm
      ((module, (topic.getD []).take (ocreMaxTopicLen - 1)) :: w.subscriptions.pairs) := by
  have hpairs := (subscriptions_ocreMessagingInit hready).1
  rw [← hpairs] at hnew ⊢
  exact pairs_subscribe ((admits_ocreMessagingInit hready _).mpr h) hnew

theorem pairs_of_call (hready : w.Ready) {call : NativeCall}
    (hsubscribe : ∀ topic, call ≠ .subscribe topic) (h : w.call module call = some (r, w')) :
    w'.subscriptions.pairs = w.subscriptions.pairs := by
  cases call with
  | timerCreate | timerDelete | timerStart | timerStop | timerGetRemaining
  | freeModuleEventData =>
      obtain ⟨-, rfl⟩ := Prod.mk.inj (Option.some.inj h)
      rfl
  | subscribe topic => exact absurd rfl (hsubscribe topic)
  | publish args offsets =>
      rw [(frame_of_publish h).2.1]
      exact (subscriptions_ocreMessagingInit hready).1
  | getEvent offsets =>
      obtain ⟨got, -, heq⟩ := Option.map_eq_some_iff.mp h
      obtain ⟨-, rfl⟩ := Prod.mk.inj heq
      rfl

theorem pairs_cleanupHandler (hready : w.Ready) (module : ℕ) (type : OcreResourceType) :
    (w.cleanupHandler module type).subscriptions.pairs =
      if type = .messaging then w.subscriptions.pairs.filter (·.1 ≠ module)
      else w.subscriptions.pairs := by
  cases type with
  | messaging =>
      simp only [cleanupHandler, if_true]
      split
      next hinit =>
        have howners : w.subscriptions.owners = [] := hready.messaging (by simpa using hinit)
        have hpairs : w.subscriptions.pairs = [] := by
          apply List.eq_nil_iff_forall_not_mem.mpr
          intro p hp
          simpa [howners] using SubscriptionTable.owner_mem_owners_of_mem_pairs hp
        rw [hpairs]
        rfl
      · exact SubscriptionTable.pairs_cleanupContainer
  | timer =>
      simp only [cleanupHandler]
      split <;> rfl
  | gpio | sensor => rfl

end ApiWorld

/-- The native API with the set of pairs that its subscriptions are for. -/
structure TrackedWorld where
  world : ApiWorld
  exact : Finset (ℕ × CString)

namespace TrackedWorld

variable {s s' : TrackedWorld} {a : ApiAct} {r : NativeResult}

/-- What a step is for the set of pairs. -/
def exactAfter (s : TrackedWorld) : ApiAct → Finset (ℕ × CString)
  | .native module (.subscribe topic) =>
      if s.world.Admits module (topic.getD []) then insert (module, topic.getD []) s.exact
      else s.exact
  | .cleanup module =>
      match (s.world.modules module).map ModuleInst.phase with
      | some (.cleaning _ (.messaging :: _)) => s.exact.filter (·.1 ≠ module)
      | _ => s.exact
  | _ => s.exact

def next (a : ApiAct) (s : TrackedWorld) : Option TrackedWorld :=
  (s.world.perform a).map fun r ↦ ⟨r.2, s.exactAfter a⟩

/-- The table holds each pair of the set once and nothing else. -/
def Represents (s : TrackedWorld) : Prop :=
  s.world.subscriptions.pairs.Nodup ∧ s.world.subscriptions.pairs.toFinset = s.exact

/-- After a step the table represents the set. A subscription to a pair of the set changes
nothing and returns 0, and a publish creates one event for each pair whose topic is a prefix
and whose copies can be allocated, and none for another. -/
def Refines (a : ApiAct) (s s' : TrackedWorld) : Prop :=
  s'.Represents ∧
  (∀ module topic r, a = .native module (.subscribe (some topic)) → (module, topic) ∈ s.exact →
    s.world.perform a = some (r, s'.world) → s'.world = s.world ∧ r.ret = 0) ∧
  ∀ module args offsets message r, a = .native module (.publish args offsets) →
    args.message = some message → s.world.perform a = some (r, s'.world) → ∀ target,
      let matching := s.exact.filter fun p ↦ p.1 = target ∧ p.2 <+: message.topic
      (r.created.filter (·.owner = target)).length ≤ matching.card ∧
        ((∀ i, (offsets i).AllSome = true) →
          (r.created.filter (·.owner = target)).length = matching.card)

/-- A topic that is admitted has less than 64 characters. -/
def TopicFits : ApiAct → TrackedWorld → Prop
  | .native module (.subscribe topic), s =>
      s.world.Admits module (topic.getD []) → (topic.getD []).length < ocreMaxTopicLen
  | _, _ => True

instance decidableTopicFits : ∀ a s, Decidable (TopicFits a s)
  | .native module (.subscribe topic), s => inferInstanceAs (Decidable
      (s.world.Admits module (topic.getD []) → (topic.getD []).length < ocreMaxTopicLen))
  | .native _ (.timerCreate ..), _ | .native _ (.timerDelete ..), _
  | .native _ (.timerStart ..), _ | .native _ (.timerStop ..), _
  | .native _ (.timerGetRemaining ..), _ | .native _ (.publish ..), _
  | .native _ (.freeModuleEventData ..), _ | .native _ (.getEvent ..), _
  | .instantiate .., _ | .returnMain .., _ | .cleanup .., _ | .deinstantiate .., _
  | .expire .., _ | .notify .., _ => .isTrue trivial

/-- What holds between the steps of a run in which the topics fit. -/
structure Inv (s : TrackedWorld) : Prop where
  ready : s.world.Ready
  held : s.world.Held .messaging
  represents : s.Represents
  topics : ∀ p ∈ s.world.subscriptions.pairs, p.2 ≠ [] ∧ p.2.length < ocreMaxTopicLen
  contexts : ∀ p ∈ s.world.subscriptions.pairs, ∀ inst, s.world.modules p.1 = some inst →
    inst.phase = .main → inst.context.isSome = true

theorem pairs_of_perform {w w' : ApiWorld} (hready : w.Ready)
    (hsubscribe : ∀ module topic, a ≠ .native module (.subscribe topic))
    (hcleanup : ∀ module, a ≠ .cleanup module) (h : w.perform a = some (r, w')) :
    w'.subscriptions.pairs = w.subscriptions.pairs := by
  cases a with
  | native module call =>
      obtain ⟨inst, -, -, hcall⟩ := ApiWorld.perform_native h
      apply ApiWorld.pairs_of_call hready _ hcall
      rintro topic rfl
      exact hsubscribe module topic rfl
  | cleanup module => exact absurd rfl (hcleanup module)
  | instantiate module usesOcreApi malloc =>
      obtain ⟨-, rfl⟩ := ApiWorld.perform_instantiate h
      rfl
  | returnMain module =>
      obtain ⟨inst, -, -, rfl⟩ := ApiWorld.perform_returnMain h
      rfl
  | deinstantiate module =>
      obtain ⟨inst, -, -, rfl⟩ := ApiWorld.perform_deinstantiate h
      rfl
  | expire slot =>
      obtain ⟨timer, -, rfl⟩ := ApiWorld.perform_expire h
      rfl
  | notify slot uptime =>
      obtain ⟨l, hl⟩ := hready.serves
      obtain ⟨events, timers, rfl, -⟩ := ApiWorld.perform_notify hl h
      rfl

theorem pairs_of_cleanup {w w' : ApiWorld} (hready : w.Ready) {module : ℕ} {inst : ModuleInst}
    (hcleanup : w.cleanup module inst.phase = some w') :
    (∃ unregistering types, inst.phase = .cleaning unregistering (.messaging :: types) ∧
      w'.subscriptions.pairs = w.subscriptions.pairs.filter (·.1 ≠ module)) ∨
    (∀ unregistering types, inst.phase ≠ .cleaning unregistering (.messaging :: types)) ∧
      w'.subscriptions.pairs = w.subscriptions.pairs := by
  rcases ApiWorld.cleanup_cases hcleanup with
    ⟨unregistering, type, types, hphase, rfl⟩ | ⟨hphase, rfl⟩ | ⟨hphase, rfl⟩
  · have hpairs := ApiWorld.pairs_cleanupHandler hready module type
    by_cases htype : type = .messaging
    · subst htype
      exact .inl ⟨unregistering, types, hphase, hpairs⟩
    · right
      rw [if_neg htype] at hpairs
      exact ⟨by simp [hphase, htype], hpairs⟩
  · exact .inr ⟨by simp [hphase], rfl⟩
  · exact .inr ⟨by simp [hphase], rfl⟩

theorem represents_iff_of_same {w' : ApiWorld} {exact : Finset (ℕ × CString)}
    (hpairs : w'.subscriptions.pairs = s.world.subscriptions.pairs) (hexact : exact = s.exact) :
    (⟨w', exact⟩ : TrackedWorld).Represents ↔ s.Represents := by
  rw [Represents, hpairs, hexact, Represents]

/-- One subscription: the table agrees with the set if the topic fits. -/
theorem Inv.represents_subscribe_iff (h : s.Inv) (module : ℕ) (topic : Option CString) :
    (⟨(s.world.ocreMessagingSubscribe module topic).2,
      s.exactAfter (.native module (.subscribe topic))⟩ : TrackedWorld).Represents ↔
      (s.world.Admits module (topic.getD []) → (topic.getD []).length < ocreMaxTopicLen) := by
  by_cases hadmits : s.world.Admits module (topic.getD [])
  swap
  · rw [represents_iff_of_same
      (ApiWorld.pairs_ocreMessagingSubscribe_of_not h.ready (.inl hadmits))
      (by simp [exactAfter, hadmits])]
    exact iff_of_true h.represents fun hadmits' ↦ absurd hadmits' hadmits
  by_cases hmem : (module, topic.getD []) ∈ s.world.subscriptions.pairs
  · have hexact : (module, topic.getD []) ∈ s.exact := by
      rw [← h.represents.2]
      exact List.mem_toFinset.mpr hmem
    rw [represents_iff_of_same
      (ApiWorld.pairs_ocreMessagingSubscribe_of_not h.ready (.inr hmem))
      (by simp [exactAfter, hadmits, hexact])]
    exact iff_of_true h.represents fun _ ↦ (h.topics _ hmem).2
  have hperm := ApiWorld.pairs_ocreMessagingSubscribe h.ready hadmits hmem
  simp only [Represents, exactAfter, hadmits, if_true, forall_const]
  rw [hperm.nodup_iff, List.toFinset_eq_of_perm _ _ hperm, List.toFinset_cons,
    h.represents.2, List.nodup_cons]
  constructor
  · rintro ⟨-, heq⟩
    have hin : (module, topic.getD []) ∈
        insert (module, (topic.getD []).take (ocreMaxTopicLen - 1)) s.exact := by
      rw [heq]
      exact Finset.mem_insert_self ..
    rcases Finset.mem_insert.mp hin with hsame | hold
    · have hlength := congrArg (fun p : ℕ × CString ↦ p.2.length) hsame
      simp only [List.length_take, ocreMaxTopicLen] at hlength ⊢
      omega
    · rw [← h.represents.2, List.mem_toFinset] at hold
      exact absurd hold hmem
  · intro hfits
    have htake : (topic.getD []).take (ocreMaxTopicLen - 1) = topic.getD [] :=
      List.take_of_length_le (by omega)
    rw [htake]
    exact ⟨⟨hmem, h.represents.1⟩, rfl⟩

/-- A step leaves the table and the set in agreement exactly if its topic fits. -/
theorem Inv.represents_iff (h : s.Inv) (hnext : next a s = some s') :
    s'.Represents ↔ TopicFits a s := by
  obtain ⟨⟨r, w'⟩, hperform, rfl⟩ := Option.map_eq_some_iff.mp hnext
  by_cases hsubscribe : ∃ module topic, a = .native module (.subscribe topic)
  · obtain ⟨module, topic, rfl⟩ := hsubscribe
    obtain ⟨-, -, -, hcall⟩ := ApiWorld.perform_native hperform
    obtain ⟨-, rfl⟩ := Prod.mk.inj (Option.some.inj hcall)
    exact h.represents_subscribe_iff module topic
  push Not at hsubscribe
  have hfits : TopicFits a s := by
    cases a with
    | native module call =>
        cases call with
        | subscribe topic => exact absurd rfl (hsubscribe module topic)
        | _ => trivial
    | _ => trivial
  refine iff_of_true ?_ hfits
  by_cases hcleanup : ∃ module, a = .cleanup module
  · obtain ⟨module, rfl⟩ := hcleanup
    obtain ⟨inst, hinst, hstep⟩ := ApiWorld.perform_cleanup hperform
    rcases pairs_of_cleanup h.ready hstep with
      ⟨unregistering, types, hphase, hpairs⟩ | ⟨hphase, hpairs⟩
    · have hexact : s.exactAfter (.cleanup module) = s.exact.filter (·.1 ≠ module) := by
        simp [exactAfter, hinst, hphase]
      rw [Represents, hpairs, hexact, ← h.represents.2]
      exact ⟨h.represents.1.filter _, by simp [List.toFinset_filter]⟩
    · apply (represents_iff_of_same hpairs _).mpr h.represents
      simp only [exactAfter, hinst, Option.map_some]
      split
      next hsome => exact absurd (Option.some.inj hsome) (hphase _ _)
      · rfl
  push Not at hcleanup
  apply (represents_iff_of_same (pairs_of_perform h.ready hsubscribe hcleanup hperform) _).mpr
    h.represents
  cases a with
  | native module call =>
      cases call with
      | subscribe topic => exact absurd rfl (hsubscribe module topic)
      | _ => rfl
  | cleanup module => exact absurd rfl (hcleanup module)
  | _ => rfl

theorem Inv.mem_pairs_of_next (h : s.Inv) (hnext : next a s = some s') {p : ℕ × CString}
    (hp : p ∈ s'.world.subscriptions.pairs) :
    p ∈ s.world.subscriptions.pairs ∨ ∃ topic, a = .native p.1 (.subscribe (some topic)) ∧
      s.world.Admits p.1 topic ∧ p.2 = topic.take (ocreMaxTopicLen - 1) := by
  obtain ⟨⟨r, w'⟩, hperform, rfl⟩ := Option.map_eq_some_iff.mp hnext
  by_cases hsubscribe : ∃ module topic, a = .native module (.subscribe topic)
  · obtain ⟨module, topic, rfl⟩ := hsubscribe
    obtain ⟨-, -, -, hcall⟩ := ApiWorld.perform_native hperform
    obtain ⟨-, rfl⟩ := Prod.mk.inj (Option.some.inj hcall)
    by_cases hnew : s.world.Admits module (topic.getD []) ∧
        (module, topic.getD []) ∉ s.world.subscriptions.pairs
    swap
    · have hnot := (not_and_or.mp hnew).imp_right not_not.mp
      exact .inl (ApiWorld.pairs_ocreMessagingSubscribe_of_not h.ready hnot ▸ hp)
    · have hperm := ApiWorld.pairs_ocreMessagingSubscribe h.ready hnew.1 hnew.2
      rcases List.mem_cons.mp (hperm.mem_iff.mp hp) with rfl | hold
      · cases topic with
        | none => exact absurd rfl hnew.1.1
        | some topic => exact .inr ⟨topic, rfl, hnew.1, rfl⟩
      · exact .inl hold
  push Not at hsubscribe
  by_cases hcleanup : ∃ module, a = .cleanup module
  · obtain ⟨module, rfl⟩ := hcleanup
    obtain ⟨inst, -, hstep⟩ := ApiWorld.perform_cleanup hperform
    rcases pairs_of_cleanup h.ready hstep with ⟨-, -, -, hpairs⟩ | ⟨-, hpairs⟩
    · exact .inl (List.mem_of_mem_filter (hpairs ▸ hp))
    · exact .inl (hpairs ▸ hp)
  push Not at hcleanup
  exact .inl (pairs_of_perform h.ready hsubscribe hcleanup hperform ▸ hp)

theorem Inv.next (h : s.Inv) (hfits : TopicFits a s) (hnext : next a s = some s') : s'.Inv := by
  have hrepresents := (h.represents_iff hnext).mpr hfits
  have hmem : ∀ p ∈ s'.world.subscriptions.pairs, _ := fun p hp ↦ h.mem_pairs_of_next hnext hp
  obtain ⟨⟨r, w'⟩, hperform, rfl⟩ := Option.map_eq_some_iff.mp hnext
  refine ⟨h.ready.perform hperform,
    ApiWorld.held_of_ne_timer h.ready h.held (by simp) hperform, hrepresents, ?_, ?_⟩
  · intro p hp
    rcases hmem p hp with hold | ⟨topic, -, hadmits, htopic⟩
    · exact h.topics p hold
    · rw [htopic]
      refine ⟨?_, ?_⟩
      · simpa [ocreMaxTopicLen] using hadmits.1
      · rw [List.length_take, ocreMaxTopicLen]
        omega
  · intro p hp inst' hinst' hmain
    rcases ApiWorld.main_of_perform hperform hinst' hmain with hnone | ⟨inst, hinst, hold, hcontext⟩
    · exfalso
      rcases hmem p hp with hold | ⟨topic, -, hadmits, -⟩
      · obtain ⟨module, inst, heq, hinst, -⟩ :=
          h.held _ (SubscriptionTable.owner_mem_owners_of_mem_pairs hold)
        obtain rfl := Option.some.inj heq
        simp [hnone] at hinst
      · simpa [ApiWorld.hasContext, hnone] using hadmits.2.1
    · rw [hcontext]
      rcases hmem p hp with hmem | ⟨topic, -, hadmits, -⟩
      · exact h.contexts p hmem inst hinst hold
      · simpa [ApiWorld.hasContext, hinst] using hadmits.2.1

theorem Inv.subscribe_again (h : s.Inv) {module : ℕ} {topic : CString} {w' : ApiWorld}
    (hmem : (module, topic) ∈ s.exact)
    (hperform : s.world.perform (.native module (.subscribe (some topic))) = some (r, w')) :
    w' = s.world ∧ r.ret = 0 := by
  obtain ⟨inst, hinst, hmain, hcall⟩ := ApiWorld.perform_native hperform
  rw [← h.represents.2, List.mem_toFinset] at hmem
  have hcontext : s.world.hasContext module = true := by
    simpa [ApiWorld.hasContext, hinst] using h.contexts _ hmem inst hinst hmain
  have hinit : s.world.ocreMessagingInit = s.world := by
    apply if_pos
    by_contra hnot
    have howners : s.world.subscriptions.owners = [] := h.ready.messaging (by simpa using hnot)
    simpa [howners] using SubscriptionTable.owner_mem_owners_of_mem_pairs hmem
  have hsubscribe := ApiWorld.subscribe_of_mem (h.topics _ hmem).1 hcontext hmem
  obtain ⟨rfl, rfl⟩ := Prod.mk.inj (Option.some.inj hcall)
  simp [ApiWorld.ocreMessagingSubscribe, hinit, hsubscribe]

theorem Represents.card_eq (h : s.Represents) (target : ℕ) (topic : CString) :
    (s.exact.filter fun p ↦ p.1 = target ∧ p.2 <+: topic).card =
      ((s.world.subscriptions.pairs.filter (·.2 <+: topic)).map Prod.fst).count target := by
  have hfilter : (s.exact.filter fun p ↦ p.1 = target ∧ p.2 <+: topic) =
      (s.world.subscriptions.pairs.filter fun p ↦ p.1 = target ∧ p.2 <+: topic).toFinset := by
    ext p
    simp [← h.2]
  rw [hfilter, List.toFinset_card_of_nodup (h.1.filter _), List.count_eq_countP,
    List.countP_map, List.countP_filter, List.countP_eq_length_filter]
  congr 1
  apply List.filter_congr
  intro p _
  simp [beq_eq_decide]

theorem Inv.publish (h : s.Inv) {module : ℕ} {args : PublishArgs} {offsets : ℕ → DupOffsets}
    {message : Message} {w' : ApiWorld} (hmessage : args.message = some message)
    (hperform : s.world.perform (.native module (.publish args offsets)) = some (r, w'))
    (target : ℕ) :
    let matching := s.exact.filter fun p ↦ p.1 = target ∧ p.2 <+: message.topic
    (r.created.filter (·.owner = target)).length ≤ matching.card ∧
      ((∀ i, (offsets i).AllSome = true) →
        (r.created.filter (·.owner = target)).length = matching.card) := by
  intro matching
  obtain ⟨-, -, -, hcall⟩ := ApiWorld.perform_native hperform
  simp only [ApiWorld.call, ApiWorld.ocreMessagingPublish, hmessage] at hcall
  obtain ⟨st, -, hcreated, -⟩ := ApiWorld.exists_adds_of_publish hcall
  have hlength : (r.created.filter (·.owner = target)).length =
      (r.created.map OcreEvent.owner).count target := by
    rw [List.count_eq_countP, List.countP_map, List.countP_eq_length_filter]
    congr 1
  have hevents := SubscriptionTable.owners_messageEvents message
    s.world.ocreMessagingInit.messageId offsets 0 s.world.ocreMessagingInit.subscriptions
  rw [(ApiWorld.subscriptions_ocreMessagingInit h.ready).1, ← hcreated] at hevents
  rw [hlength, h.represents.card_eq]
  exact ⟨hevents.1.count_le target, fun hall ↦ by rw [hevents.2 hall]⟩

theorem Inv.refines_iff (h : s.Inv) (hnext : TrackedWorld.next a s = some s') :
    Refines a s s' ↔ TopicFits a s := by
  rw [← h.represents_iff hnext]
  constructor
  · exact And.left
  · intro hrepresents
    refine ⟨hrepresents, ?_, ?_⟩
    · rintro module topic r rfl hmem hperform
      exact h.subscribe_again hmem hperform
    · rintro module args offsets message r rfl hmessage hperform
      exact h.publish hmessage hperform

end TrackedWorld

section System

variable {maxTimers maxSubscriptions : ℕ} {s : TrackedWorld}

/-- The native API in use, with the set of pairs. -/
def trackedSystem (maxTimers maxSubscriptions : ℕ) : StepSystem TrackedWorld ApiAct where
  init := (· = ⟨ApiWorld.initial maxTimers maxSubscriptions, ∅⟩)
  next := TrackedWorld.next

theorem tracked_of_reachableWhere
    (h : (trackedSystem maxTimers maxSubscriptions).ReachableWhere TrackedWorld.TopicFits s) :
    s.Inv := by
  apply h.invariant
  · rintro s rfl
    have hpairs :
        (ApiWorld.initial maxTimers maxSubscriptions).subscriptions.pairs = [] := by
      simp [ApiWorld.initial, SubscriptionTable.pairs, SubscriptionTable.pair]
    refine ⟨.initial maxTimers maxSubscriptions, held_initial .messaging, ?_, ?_, ?_⟩
    · simp [TrackedWorld.Represents, hpairs]
    · simp [hpairs]
    · simp [hpairs]
  · intro a s s' hinv hfits hnext
    exact hinv.next hfits hnext

/-- In a run of the native API, the subscriptions are the exact set of pairs, and a publish
is for those whose topic is a prefix, exactly if every topic that is admitted has less than
64 characters. -/
theorem runKeeps_refines_iff {as : List ApiAct}
    (hrun : (trackedSystem maxTimers maxSubscriptions).run
      ⟨ApiWorld.initial maxTimers maxSubscriptions, ∅⟩ as = some s) :
    (trackedSystem maxTimers maxSubscriptions).RunKeeps TrackedWorld.Refines
        ⟨ApiWorld.initial maxTimers maxSubscriptions, ∅⟩ as ↔
      (trackedSystem maxTimers maxSubscriptions).RunMeets TrackedWorld.TopicFits
        ⟨ApiWorld.initial maxTimers maxSubscriptions, ∅⟩ as := by
  apply StepSystem.ReachableWhere.runKeeps_iff_runMeets _ (.start rfl) hrun
  intro a s s' hs hnext
  exact (tracked_of_reachableWhere hs).refines_iff hnext

/-- Two modules subscribe, one of them twice to one topic, and get what is published; then
one of them leaves. -/
def newsAndSport : List ApiAct :=
  [.instantiate 7 true true, .instantiate 8 true true,
    .native 7 (.subscribe (some (cstring "news"))),
    .native 7 (.subscribe (some (cstring "news"))),
    .native 8 (.subscribe (some (cstring "news/sport"))),
    .native 8 (.publish ⟨some (cstring "news/sport"), some (cstring "text"), some [1], 1⟩
      fun _ ↦ ⟨16, 32, 48⟩),
    .returnMain 8] ++ List.replicate 4 (.cleanup 8) ++
  [.native 7 (.publish ⟨some (cstring "news"), some (cstring "text"), some [2], 1⟩
    fun _ ↦ ⟨64, 80, 96⟩)]

theorem runKeeps_refines_of_newsAndSport :
    ∃ s, (trackedSystem 5 10).run ⟨ApiWorld.initial 5 10, ∅⟩ newsAndSport = some s ∧
      (trackedSystem 5 10).RunKeeps TrackedWorld.Refines ⟨ApiWorld.initial 5 10, ∅⟩
        newsAndSport := by
  have hsome : ((trackedSystem 5 10).run ⟨ApiWorld.initial 5 10, ∅⟩ newsAndSport).isSome := by
    decide +kernel
  obtain ⟨s, hrun⟩ := Option.isSome_iff_exists.mp hsome
  exact ⟨s, hrun, (runKeeps_refines_iff hrun).mpr (by decide +kernel)⟩

/-- A topic of 64 characters. -/
def longTopic : CString := List.replicate 64 120

/-- The slot keeps 63 of its characters. -/
theorem not_runKeeps_refines_of_longTopic :
    ¬ ∀ as s, (trackedSystem 5 10).run ⟨ApiWorld.initial 5 10, ∅⟩ as = some s →
      (trackedSystem 5 10).RunKeeps TrackedWorld.Refines ⟨ApiWorld.initial 5 10, ∅⟩ as := by
  intro h
  have hkeeps := h [.instantiate 7 true true, .native 7 (.subscribe (some longTopic))] _ rfl
  have hrepresents := ((hkeeps _ rfl).2 _ rfl).1.1.2
  exact absurd hrepresents (by decide +kernel)

end System

end OcreRuntime
