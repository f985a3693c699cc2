import Mathlib.Data.List.Pairwise
import OcreRuntime.OcreApi.Publish
import OcreRuntime.OcreApi.StaleEvents

/-!
# The copies of messages in the memory of their targets

A publish leaves three copies of a message in the memory of each target, and the target frees
them with `ocre_messaging_free_module_event_data` once it has read them. Beside the native API
runs a record of the post of the modules: the letters that wait in the queue, and those that a
module has taken and not yet freed. The copies in the memory of a module are those of its
letters and no others, whatever the other modules do.
-/

namespace OcreRuntime

open Function (update)

/-- Of blocks under distinct keys, those of one item go without touching the other items. -/
theorem filter_flatMap_of_keys {ι κ β : Type*} [DecidableEq κ] {f : ι → List (κ × β)}
    {l : List ι} (keys : List κ) (hnodup : ((l.flatMap f).map Prod.fst).Nodup)
    (hkeys : (∃ i ∈ l, (f i).map Prod.fst = keys) ∨
      ∀ key ∈ keys, key ∉ (l.flatMap f).map Prod.fst) :
    (l.flatMap f).filter (·.1 ∉ keys) =
      (l.filter fun i ↦ (f i).map Prod.fst ≠ keys).flatMap f := by
  have hitem : ∀ i ∈ l, ∀ block ∈ f i, block.1 ∈ keys ↔ (f i).map Prod.fst = keys := by
    intro i hi block hblock
    have hmem : block.1 ∈ (f i).map Prod.fst := List.mem_map_of_mem hblock
    constructor
    · intro hkey
      rcases hkeys with ⟨j, hj, rfl⟩ | hfree
      · rw [List.map_flatMap, List.nodup_flatMap] at hnodup
        have hsymm : Std.Symm (Function.onFun List.Disjoint fun i ↦ (f i).map Prod.fst) :=
          ⟨fun _ _ h _ hx hy ↦ h hy hx⟩
        by_contra hother
        exact hnodup.2.forall hi hj (fun heq ↦ hother (by rw [heq])) hmem hkey
      · rw [List.map_flatMap] at hfree
        exact absurd (List.mem_flatMap_of_mem hi hmem) (hfree _ hkey)
    · intro heq
      rwa [← heq]
  clear hnodup hkeys
  induction l with
  | nil => rfl
  | cons i l ih =>
      have hrest := ih fun j hj ↦ hitem j (List.mem_cons_of_mem i hj)
      have hfirst := hitem i List.mem_cons_self
      rw [List.flatMap_cons, List.filter_append, hrest]
      by_cases hi : (f i).map Prod.fst = keys
      · have hnone : (f i).filter (·.1 ∉ keys) = [] := by
          rw [List.filter_eq_nil_iff]
          intro block hblock
          simpa using (hfirst block hblock).mpr hi
        rw [hnone, List.filter_cons_of_neg (by simpa using hi), List.nil_append]
      · have hall : (f i).filter (·.1 ∉ keys) = f i := by
          rw [List.filter_eq_self]
          intro block hblock
          simpa using fun hkey ↦ hi ((hfirst block hblock).mp hkey)
        rw [hall, List.filter_cons_of_pos (by simpa using hi), List.flatMap_cons]

theorem allocatesFresh_cons_iff {message : Message} {messageId : UInt32}
    {offsets : ℕ → DupOffsets} {i : ℕ} {subscription : Subscription}
    {subscriptions : SubscriptionTable} {st : PublishState} :
    AllocatesFresh message messageId offsets i (subscription :: subscriptions) st ↔
      if subscription.isMatch message.topic = true ∧ subscription.moduleInst.isSome = true then
        ∀ target ∈ subscription.moduleInst, ∀ inst ∈ st.modules target,
          inst.GivesFresh (offsets i) ∧
            ∀ st' ∈ publishTo message messageId (offsets i) target inst st,
              AllocatesFresh message messageId offsets (i + 1) subscriptions st'
      else AllocatesFresh message messageId offsets (i + 1) subscriptions st := by
  split
  next hboth =>
    obtain ⟨hmatch, hsome⟩ := hboth
    obtain ⟨target, htarget⟩ := Option.isSome_iff_exists.mp hsome
    constructor
    · rintro h other hother inst hinst
      obtain rfl := Option.some.inj (htarget.symm.trans hother)
      exact h.of_target hmatch htarget hinst
    · intro h
      rw [AllocatesFresh, if_neg (not_not.mpr hmatch), htarget]
      dsimp only
      split
      next => trivial
      next inst hinst => exact h target htarget inst hinst
  next hskip =>
    refine ⟨fun h ↦ h.of_skip hskip, fun h ↦ ?_⟩
    rw [AllocatesFresh]
    split
    · exact h
    next hmatch =>
      cases htarget : subscription.moduleInst with
      | none => exact h
      | some target =>
          rw [htarget] at hskip
          exact absurd ⟨not_not.mp hmatch, rfl⟩ hskip

instance decidableAllocatesFresh (message : Message) (messageId : UInt32)
    (offsets : ℕ → DupOffsets) :
    ∀ i subscriptions st, Decidable (AllocatesFresh message messageId offsets i subscriptions st)
  | _, [], _ => .isTrue trivial
  | i, _ :: subscriptions, _ =>
      have := decidableAllocatesFresh message messageId offsets (i + 1) subscriptions
      decidable_of_iff _ allocatesFresh_cons_iff.symm

/-- An event, with the message of which it tells if it is one of a publish. -/
structure Letter where
  event : OcreEvent
  message : Option Message

/-- The copies that belong to a letter, at the offsets in its event. -/
def Letter.copies (letter : Letter) : List (UInt32 × List UInt8) :=
  letter.message.elim [] fun message ↦ letter.event.data.copies message

/-- The native API with a record of its post: the letters that wait in the queue, those that
each module has taken and not freed, and all that were ever accepted and handed over. -/
structure MailWorld where
  world : ApiWorld
  pending : List Letter
  held : ℕ → List Letter
  sent : List Letter
  received : List Letter

/-- The event of a letter with a message is one that a publish of the message creates. -/
def Letter.Tells (letter : Letter) : Prop :=
  ∀ message ∈ letter.message, message.payloadLen = message.payload.length ∧
    ∃ messageId offsets, letter.event = message.event messageId offsets letter.event.owner

namespace MailWorld

variable (s : MailWorld) (module : ℕ)

/-- The letters of a module, pending or held. -/
def lettersFor : List Letter :=
  s.pending.filter (·.event.owner = module) ++ s.held module

def deliver (w' : ApiWorld) (letters : List Letter) : MailWorld :=
  { s with world := w', pending := s.pending ++ letters, sent := s.sent ++ letters }

/-- The module takes the first letter, and holds it if it has copies. -/
def take (w' : ApiWorld) : MailWorld :=
  match s.pending with
  | [] => { s with world := w' }
  | letter :: rest => { s with
      world := w'
      pending := rest
      held := if letter.message.isSome then update s.held module (s.held module ++ [letter])
        else s.held
      received := s.received ++ [letter] }

def release (w' : ApiWorld) (offsets : List UInt32) : MailWorld :=
  { s with
    world := w'
    held := update s.held module
      ((s.held module).filter fun letter ↦ letter.copies.map Prod.fst ≠ offsets) }

/-- What a step that ends in `w'` makes of the post. -/
def record (r : NativeResult) (w' : ApiWorld) : ApiAct → MailWorld
  | .native module (.getEvent _) => if r.ret = 0 then s.take module w' else { s with world := w' }
  | .native _ (.publish args _) => s.deliver w' (r.queued.map (⟨·, args.message⟩))
  | .native module (.freeModuleEventData topic contentType payload) =>
      s.release module w' [topic, contentType, payload]
  | .deinstantiate module => { s with world := w', held := update s.held module [] }
  | _ => s.deliver w' (r.queued.map (⟨·, none⟩))

def next (a : ApiAct) : Option MailWorld :=
  (s.world.perform a).map fun r ↦ s.record r.1 r.2 a

/-- The allocators give fresh offsets and a payload has its length. The module itself frees the
copies of a letter that it holds, or what are no copies of letters, and it does not end with
messages in the queue. The other modules free and end as they like. -/
def Lawful : ApiAct → MailWorld → Prop
  | .native _ (.publish args offsets), s => ∀ message ∈ args.message,
      message.payloadLen = message.payload.length ∧
        AllocatesFresh message s.world.ocreMessagingInit.messageId offsets 0
          s.world.ocreMessagingInit.subscriptions
          ⟨s.world.ocreMessagingInit.modules, s.world.ocreMessagingInit.events, [], [], []⟩
  | .native caller (.freeModuleEventData topic contentType payload), s => caller = module →
      (∃ letter ∈ s.held module,
        letter.copies.map Prod.fst = [topic, contentType, payload]) ∨
      ∀ inst ∈ s.world.modules module, ∀ offset ∈ [topic, contentType, payload],
        offset ∉ inst.live
  | .deinstantiate other, s => other = module →
      ∀ letter ∈ s.pending, letter.message.isSome = true → letter.event.owner ≠ module
  | _, _ => True

instance decidableLawful : ∀ a s, Decidable (Lawful module a s)
  | .native _ (.publish args _), _ => inferInstanceAs (Decidable (∀ message ∈ args.message,
      message.payloadLen = message.payload.length ∧ AllocatesFresh ..))
  | .native caller (.freeModuleEventData ..), _ =>
      inferInstanceAs (Decidable (caller = module → _ ∨ _))
  | .deinstantiate other, _ => inferInstanceAs (Decidable (other = module → _))
  | .native _ (.timerCreate ..), _ | .native _ (.timerDelete ..), _ | .native _ (.timerStart ..), _
  | .native _ (.timerStop ..), _ | .native _ (.timerGetRemaining ..), _
  | .native _ (.subscribe ..), _ | .native _ (.getEvent ..), _ | .instantiate .., _
  | .returnMain .., _ | .cleanup .., _ | .expire .., _ | .notify .., _ => .isTrue trivial

end MailWorld

/-- The memory of an instance has the copies of these letters and no others. -/
structure ModuleInst.Stores (inst : ModuleInst) (letters : List Letter) : Prop where
  perm : inst.copies.Perm (letters.flatMap Letter.copies)
  nodup : inst.live.Nodup

def ModuleInst.SameCopies (inst inst' : ModuleInst) : Prop := inst'.copies = inst.copies

instance : Std.Refl ModuleInst.SameCopies := ⟨fun _ ↦ rfl⟩

instance : IsTrans ModuleInst ModuleInst.SameCopies := ⟨fun _ _ _ h h' ↦ h'.trans h⟩

namespace ModuleInst.Stores

variable {inst inst' : ModuleInst} {letters letters' : List Letter}

theorem of_perm (h : inst.Stores letters)
    (hperm : (letters.flatMap Letter.copies).Perm (letters'.flatMap Letter.copies)) :
    inst.Stores letters' :=
  ⟨h.perm.trans hperm, h.nodup⟩

theorem sameCopies (h : inst.Stores letters) (hsame : inst.SameCopies inst') :
    inst'.Stores letters where
  perm := by
    rw [hsame]
    exact h.perm
  nodup := by
    rw [live, hsame]
    exact h.nodup

theorem gains (h : inst.Stores letters)
    (hgains : inst.Gains inst' (letters'.flatMap Letter.copies)) :
    inst'.Stores (letters ++ letters') where
  perm := by
    rw [hgains.copies, List.flatMap_append]
    exact h.perm.append_right _
  nodup := hgains.nodup h.nodup

theorem mem_copies (h : inst.Stores letters) {letter : Letter} (hletter : letter ∈ letters)
    {copy : UInt32 × List UInt8} (hcopy : copy ∈ letter.copies) : copy ∈ inst.copies :=
  h.perm.mem_iff.mpr (List.mem_flatMap_of_mem hletter hcopy)

/-- The copies that are freed are those of the letters with these offsets. -/
theorem free (h : inst.Stores letters) {topic contentType payload : UInt32}
    (hoffsets : (∃ letter ∈ letters, letter.copies.map Prod.fst = [topic, contentType, payload]) ∨
      ∀ offset ∈ [topic, contentType, payload], offset ∉ inst.live) :
    (((inst.free topic).free contentType).free payload).Stores (letters.filter fun letter ↦
      letter.copies.map Prod.fst ≠ [topic, contentType, payload]) := by
  have hlive : inst.live.Perm ((letters.flatMap Letter.copies).map Prod.fst) := h.perm.map _
  have hfree : (((inst.free topic).free contentType).free payload).copies =
      inst.copies.filter (·.1 ∉ [topic, contentType, payload]) := by
    simp only [ModuleInst.free, List.filter_filter]
    congr 1
    funext copy
    simp [Bool.and_comm, Bool.and_assoc]
  constructor
  · rw [hfree, ← filter_flatMap_of_keys [topic, contentType, payload]]
    · exact h.perm.filter _
    · exact hlive.nodup_iff.mp h.nodup
    · refine hoffsets.imp_right fun hfresh offset hoffset hmem ↦ ?_
      exact hfresh offset hoffset (hlive.mem_iff.mpr hmem)
  · rw [live, hfree]
    exact (List.filter_sublist.map Prod.fst).nodup h.nodup

/-- Of two parts of the letters, the first keeps its copies when a letter of the second is
freed. -/
theorem free_right {pending held : List Letter} (h : inst.Stores (pending ++ held))
    {topic contentType payload : UInt32}
    (hoffsets : (∃ letter ∈ held, letter.copies.map Prod.fst = [topic, contentType, payload]) ∨
      ∀ offset ∈ [topic, contentType, payload], offset ∉ inst.live) :
    (((inst.free topic).free contentType).free payload).Stores (pending ++ held.filter
      fun letter ↦ letter.copies.map Prod.fst ≠ [topic, contentType, payload]) := by
  have hlive : inst.live.Perm (pending.flatMap (fun letter ↦ letter.copies.map Prod.fst) ++
      held.flatMap fun letter ↦ letter.copies.map Prod.fst) := by
    have hmap := h.perm.map Prod.fst
    rwa [List.map_flatMap, List.flatMap_append] at hmap
  have hpending : pending.filter
      (fun letter ↦ letter.copies.map Prod.fst ≠ [topic, contentType, payload]) = pending := by
    rw [List.filter_eq_self]
    intro letter hletter
    rw [decide_eq_true_eq]
    intro hkeys
    have hmem : topic ∈ pending.flatMap fun letter ↦ letter.copies.map Prod.fst :=
      List.mem_flatMap_of_mem hletter (by simp [hkeys])
    rcases hoffsets with ⟨other, hother, hkeys'⟩ | hfresh
    · exact (List.disjoint_of_nodup_append (hlive.nodup_iff.mp h.nodup)) hmem
        (List.mem_flatMap_of_mem hother (by simp [hkeys']))
    · exact hfresh topic List.mem_cons_self (hlive.mem_iff.mpr (List.mem_append_left _ hmem))
  have hboth : (∃ letter ∈ pending ++ held,
      letter.copies.map Prod.fst = [topic, contentType, payload]) ∨
        ∀ offset ∈ [topic, contentType, payload], offset ∉ inst.live := by
    refine hoffsets.imp_left ?_
    rintro ⟨letter, hletter, hkeys⟩
    exact ⟨letter, List.mem_append_right _ hletter, hkeys⟩
  have hfree := h.free hboth
  rwa [List.filter_append, hpending] at hfree

end ModuleInst.Stores

namespace ApiWorld

variable {w w' : ApiWorld} {module : ℕ} {r : NativeResult} {l : List OcreEvent}

/-- Apart from publishing, freeing and taking an event, a call queues nothing and leaves the
copies. -/
theorem sameCopies_of_call {call : NativeCall} (h : w.call module call = some (r, w'))
    (hpublish : ∀ args offsets, call ≠ .publish args offsets)
    (hfree : ∀ topic contentType payload, call ≠ .freeModuleEventData topic contentType payload)
    (hget : ∀ offsets, call ≠ .getEvent offsets) :
    r.queued = [] ∧ PartialMap.Kept ModuleInst.SameCopies w.modules w'.modules := by
  cases call with
  | timerCreate | timerDelete =>
      obtain ⟨rfl, rfl⟩ := Prod.mk.inj (Option.some.inj h)
      exact ⟨rfl, .ite (.modify _ module fun _ ↦ rfl) (.refl _)⟩
  | timerStart | timerStop | timerGetRemaining =>
      obtain ⟨rfl, rfl⟩ := Prod.mk.inj (Option.some.inj h)
      exact ⟨rfl, .refl _⟩
  | subscribe topic =>
      obtain ⟨rfl, rfl⟩ := Prod.mk.inj (Option.some.inj h)
      refine ⟨rfl, ?_⟩
      have hinit := modules_ocreMessagingInit w
      rw [ocreMessagingSubscribe, ← hinit]
      rcases w.ocreMessagingInit.subscribe_cases module (topic.getD []) with
        hsame | ⟨subscriptions, -, -, -, -, hsubscribe⟩
      · rw [hsame]
        exact .refl _
      · rw [hsubscribe]
        exact .modify _ module fun _ ↦ rfl
  | publish args offsets => exact absurd rfl (hpublish args offsets)
  | freeModuleEventData topic contentType payload =>
      exact absurd rfl (hfree topic contentType payload)
  | getEvent offsets => exact absurd rfl (hget offsets)

/-- A step that is neither a call nor begins or ends an instance leaves the copies. -/
theorem sameCopies_of_perform {a : ApiAct} (hnative : ∀ module call, a ≠ .native module call)
    (hinstantiate : ∀ module usesOcreApi malloc, a ≠ .instantiate module usesOcreApi malloc)
    (hdeinstantiate : ∀ module, a ≠ .deinstantiate module) (h : w.perform a = some (r, w')) :
    PartialMap.Kept ModuleInst.SameCopies w.modules w'.modules := by
  cases a with
  | instantiate module usesOcreApi malloc =>
      exact absurd rfl (hinstantiate module usesOcreApi malloc)
  | native module call => exact absurd rfl (hnative module call)
  | returnMain module =>
      obtain ⟨inst, -, -, rfl⟩ := perform_returnMain h
      exact .modify _ module fun _ ↦ rfl
  | cleanup module =>
      obtain ⟨inst, -, hcleanup⟩ := perform_cleanup h
      rcases cleanup_cases hcleanup with ⟨-, type, -, -, rfl⟩ | ⟨-, rfl⟩ | ⟨-, rfl⟩
      · have hhandler : PartialMap.Kept ModuleInst.SameCopies w.modules
            (w.cleanupHandler module type).modules := by
          cases type with
          | timer | messaging =>
              simp only [cleanupHandler]
              split
              · exact .refl _
              · exact .modify _ module fun _ ↦ rfl
          | gpio | sensor => exact .refl _
        exact hhandler.trans (.modify _ module fun _ ↦ rfl)
      · exact .modify _ module fun _ ↦ rfl
      · exact .modify _ module fun _ ↦ rfl
  | deinstantiate module => exact absurd rfl (hdeinstantiate module)
  | expire slot =>
      obtain ⟨timer, -, rfl⟩ := perform_expire h
      exact .refl _
  | notify slot uptime => exact modules_of_notify h ▸ .refl _

/-- A call of `ocre_get_event` takes the first event of the caller or leaves the queue. -/
theorem getEvent_cases {offsets : Bool} (hl : w.events.Serves l) (hknown : AllKnown l)
    (h : w.call module (.getEvent offsets) = some (r, w')) :
    w'.modules = w.modules ∧
      ((r.ret = 0 ∧ ∃ event rest, l = event :: rest ∧ event.owner = module ∧
          event.data.words = .ok r.words ∧ w'.events.Serves rest) ∨
        r.ret ≠ 0 ∧ w'.events.Serves l) := by
  obtain ⟨events, rfl, -, hserves, rfl⟩ := serves_of_getEvent hl h
  refine ⟨rfl, ?_⟩
  cases offsets with
  | false => exact .inr ⟨by simp [NativeResult.ofGetEvent], hserves⟩
  | true =>
      cases l with
      | nil => exact .inr ⟨by simp [NativeResult.ofGetEvent, fifoGet], hserves⟩
      | cons event rest =>
          by_cases howner : event.owner = module
          · obtain ⟨words, hwords⟩ := hknown event List.mem_cons_self
            simp only [fifoGet, howner, ne_eq, not_true_eq_false, if_false, if_true,
              hwords] at hserves ⊢
            exact .inl ⟨rfl, event, rest, rfl, howner, hwords, hserves⟩
          · simp only [fifoGet, howner, ne_eq, not_false_eq_true, if_true] at hserves ⊢
            exact .inr ⟨by simp [NativeResult.ofGetEvent], hserves⟩

end ApiWorld

namespace MailWorld

variable {s s' : MailWorld} {module : ℕ} {a : ApiAct} {r : NativeResult} {w' : ApiWorld}

/-- What holds between the steps of a run that is lawful for a module. -/
structure Inv (module : ℕ) (s : MailWorld) : Prop where
  serves : s.world.events.Serves (s.pending.map Letter.event)
  known : AllKnown (s.pending.map Letter.event)
  tells : ∀ letter ∈ s.pending, letter.Tells
  order : s.sent = s.received ++ s.pending
  stores : ∀ inst, s.world.modules module = some inst → inst.Stores (s.lettersFor module)
  absent : s.world.modules module = none → (s.lettersFor module).flatMap Letter.copies = []

/-- The copies and the letters of the module stay as they are. -/
theorem Inv.stores_of_kept {letters : List Letter} (h : s.Inv module)
    (hkept : PartialMap.Kept ModuleInst.SameCopies s.world.modules w'.modules)
    (hperm : ((s.lettersFor module).flatMap Letter.copies).Perm (letters.flatMap Letter.copies)) :
    (∀ inst, w'.modules module = some inst → inst.Stores letters) ∧
      (w'.modules module = none → letters.flatMap Letter.copies = []) := by
  constructor
  · intro inst' hinst'
    obtain ⟨inst, hinst, hsame⟩ := hkept.exists_of_some hinst'
    exact ((h.stores inst hinst).sameCopies hsame).of_perm hperm
  · intro hnone
    have hnil := h.absent (hkept.eq_none_iff.mp hnone)
    rw [hnil] at hperm
    exact hperm.symm.eq_nil

/-- New letters at the end of the queue, once the memory of the module is accounted for. -/
theorem Inv.append (h : s.Inv module) {letters : List Letter}
    (hserves : w'.events.Serves (s.pending.map Letter.event ++ letters.map Letter.event))
    (hletters : ∀ letter ∈ letters, (∃ words, letter.event.data.words = .ok words) ∧ letter.Tells)
    (hstores : ∀ inst, w'.modules module = some inst →
      inst.Stores (s.lettersFor module ++ letters.filter (·.event.owner = module)))
    (habsent : w'.modules module = none → (s.lettersFor module ++
      letters.filter (·.event.owner = module)).flatMap Letter.copies = []) :
    (s.deliver w' letters).Inv module := by
  have hperm : ((s.lettersFor module ++
      letters.filter (·.event.owner = module)).flatMap Letter.copies).Perm
        (((s.deliver w' letters).lettersFor module).flatMap Letter.copies) := by
    apply List.Perm.flatMap_right
    simp only [lettersFor, deliver, List.filter_append, List.append_assoc]
    exact List.perm_append_comm.append_left _
  refine ⟨?_, ?_, ?_, ?_, fun inst hinst ↦ (hstores inst hinst).of_perm hperm, ?_⟩
  · simpa [deliver] using hserves
  · intro event hevent
    rw [deliver, List.map_append] at hevent
    rcases List.mem_append.mp hevent with hevent | hevent
    · exact h.known event hevent
    · obtain ⟨letter, hletter, rfl⟩ := List.mem_map.mp hevent
      exact (hletters letter hletter).1
  · intro letter hletter
    rcases List.mem_append.mp hletter with hletter | hletter
    · exact h.tells letter hletter
    · exact (hletters letter hletter).2
  · simp [deliver, h.order]
  · intro hnone
    rw [habsent hnone] at hperm
    exact hperm.symm.eq_nil

/-- Events without copies of their own come into the queue. -/
theorem Inv.deliver (h : s.Inv module) {events : List OcreEvent}
    (hserves : w'.events.Serves (s.pending.map Letter.event ++ events))
    (hknown : AllKnown events)
    (hkept : PartialMap.Kept ModuleInst.SameCopies s.world.modules w'.modules) :
    (s.deliver w' (events.map (⟨·, none⟩))).Inv module := by
  have hcopies : (s.lettersFor module).flatMap Letter.copies =
      (s.lettersFor module ++ (events.map fun event ↦ (⟨event, none⟩ : Letter)).filter
        (·.event.owner = module)).flatMap Letter.copies := by
    rw [List.flatMap_append, List.self_eq_append_right, List.flatMap_eq_nil_iff]
    intro letter hletter
    obtain ⟨event, -, rfl⟩ := List.mem_map.mp (List.mem_of_mem_filter hletter)
    rfl
  obtain ⟨hstores, habsent⟩ := h.stores_of_kept hkept (.of_eq hcopies)
  refine h.append (by simpa [Function.comp_def] using hserves) ?_ hstores habsent
  intro letter hletter
  obtain ⟨event, hevent, rfl⟩ := List.mem_map.mp hletter
  refine ⟨hknown event hevent, ?_⟩
  rintro message ⟨⟩

/-- The letters of a publish come into the queue, their copies into the memory. -/
theorem Inv.publish (h : s.Inv module) {caller : ℕ} {args : PublishArgs}
    {offsets : ℕ → DupOffsets} (hlawful : Lawful module (.native caller (.publish args offsets)) s)
    (hcall : s.world.call caller (.publish args offsets) = some (r, w')) :
    (s.deliver w' (r.queued.map (⟨·, args.message⟩))).Inv module := by
  obtain ⟨hserves, hqueued⟩ := ApiWorld.serves_of_call h.serves (by simp) hcall
  have hinit := ApiWorld.serves_ocreMessagingInit h.serves
  simp only [ApiWorld.call, ApiWorld.ocreMessagingPublish] at hcall
  cases hmessage : args.message with
  | none =>
      rw [hmessage] at hcall
      obtain ⟨rfl, rfl⟩ := Prod.mk.inj (Option.some.inj hcall)
      refine h.deliver hserves (by simp [AllKnown]) ?_
      rw [ApiWorld.modules_ocreMessagingInit]
      exact .refl _
  | some message =>
      rw [hmessage] at hcall
      have hpublished := ApiWorld.published_of_publish hinit (hlawful message hmessage).2 hcall
      have hletters : ((r.queued.map fun event ↦ (⟨event, some message⟩ : Letter)).filter
          (·.event.owner = module)).flatMap Letter.copies =
            copiesFor message module r.queued := by
        rw [List.filter_map, List.flatMap_map]
        rfl
      refine h.append (by simpa [Function.comp_def] using hserves) ?_ ?_ ?_
      · intro letter hletter
        obtain ⟨event, hevent, rfl⟩ := List.mem_map.mp hletter
        refine ⟨(hqueued event hevent).1, ?_⟩
        rintro other ⟨⟩
        rw [hpublished.queued] at hevent
        obtain ⟨copied, target, rfl⟩ :=
          exists_eq_of_mem_messageEvents (List.mem_of_mem_take hevent)
        exact ⟨(hlawful message hmessage).1, _, copied, rfl⟩
      · intro inst' hinst'
        cases hinst : s.world.modules module with
        | none =>
            rw [← ApiWorld.modules_ocreMessagingInit] at hinst
            cases (hpublished.none_of_none module hinst).symm.trans hinst'
        | some inst =>
            obtain ⟨new, hnew, hgains⟩ := hpublished.some_of_some module inst
              (by rwa [ApiWorld.modules_ocreMessagingInit])
            obtain rfl := Option.some.inj (hnew.symm.trans hinst')
            rw [← hpublished.queued, ← hletters] at hgains
            exact (h.stores inst hinst).gains hgains
      · intro hnone
        have hold : s.world.modules module = none := by
          rw [← ApiWorld.modules_ocreMessagingInit]
          by_contra hsome
          obtain ⟨inst, hinst⟩ := Option.ne_none_iff_exists'.mp hsome
          obtain ⟨new, hnew, -⟩ := hpublished.some_of_some module inst hinst
          cases hnone.symm.trans hnew
        rw [List.flatMap_append, h.absent hold, hletters, List.nil_append, copiesFor,
          List.flatMap_eq_nil_iff]
        intro event hevent
        obtain ⟨hmem, howner⟩ := List.mem_filter.mp hevent
        obtain ⟨-, inst, hinst, -⟩ := hqueued event hmem
        rw [of_decide_eq_true howner, hnone] at hinst
        cases hinst

/-- The memory of one instance changes, and the letters of its module with it. -/
theorem Inv.release (h : s.Inv module) {caller : ℕ} {topic contentType payload : UInt32}
    (hlawful : Lawful module
      (.native caller (.freeModuleEventData topic contentType payload)) s) :
    (s.release caller (s.world.ocreMessagingFreeModuleEventData caller topic contentType payload)
      [topic, contentType, payload]).Inv module := by
  by_cases hcaller : caller = module
  swap
  · have hletters : (s.release caller
        (s.world.ocreMessagingFreeModuleEventData caller topic contentType payload)
          [topic, contentType, payload]).lettersFor module = s.lettersFor module := by
      simp [lettersFor, MailWorld.release, Function.update_of_ne (Ne.symm hcaller)]
    have hmodules : (s.world.ocreMessagingFreeModuleEventData caller topic contentType
        payload).modules module = s.world.modules module :=
      PartialMap.modify_of_ne (Ne.symm hcaller) ..
    refine ⟨h.serves, h.known, h.tells, h.order, ?_, ?_⟩
    · rw [hletters]
      exact fun inst hinst ↦ h.stores inst (hmodules ▸ hinst)
    · rw [hletters]
      exact fun hnone ↦ h.absent (hmodules ▸ hnone)
  subst hcaller
  refine ⟨h.serves, h.known, h.tells, h.order, ?_, ?_⟩
  · intro inst' hinst'
    obtain ⟨inst, hinst, rfl⟩ :
        ∃ inst, s.world.modules caller = some inst ∧
          ((inst.free topic).free contentType).free payload = inst' := by
      change PartialMap.modify .. = _ at hinst'
      rw [PartialMap.modify_self] at hinst'
      exact Option.map_eq_some_iff.mp hinst'
    have hfree := (h.stores inst hinst).free_right ((hlawful rfl).imp_right fun hfresh ↦
      hfresh inst hinst)
    simpa [lettersFor, MailWorld.release] using hfree
  · intro hnone
    have hnil := h.absent (PartialMap.modify_eq_none_iff.mp hnone)
    rw [List.flatMap_eq_nil_iff] at hnil ⊢
    intro letter hletter
    apply hnil
    rcases List.mem_append.mp hletter with hletter | hletter
    · exact List.mem_append_left _ hletter
    · simp only [MailWorld.release, Function.update_self] at hletter
      exact List.mem_append_right _ (List.mem_of_mem_filter hletter)

theorem copies_take (w' : ApiWorld) (module : ℕ) {letter : Letter} {rest : List Letter}
    (hpending : s.pending = letter :: rest) :
    ((s.lettersFor module).flatMap Letter.copies).Perm
      (((s.take letter.event.owner w').lettersFor module).flatMap Letter.copies) := by
  simp only [lettersFor, MailWorld.take, hpending]
  cases hmessage : letter.message with
  | none =>
      have hcopies : letter.copies = [] := by simp [Letter.copies, hmessage]
      by_cases howner : letter.event.owner = module
      · simp [howner, hcopies]
      · simp [howner]
  | some message =>
      by_cases howner : letter.event.owner = module
      · simp only [howner, decide_true, List.filter_cons_of_pos, Option.isSome_some, if_true,
          Function.update_self, List.flatMap_append, List.flatMap_cons, List.flatMap_nil,
          List.append_nil, List.cons_append]
        exact List.perm_append_comm.trans (.of_eq (List.append_assoc ..))
      · simp [howner, Function.update_of_ne (Ne.symm howner)]

/-- The first letter goes to the module that owns it. -/
theorem Inv.take (h : s.Inv module) {letter : Letter} {rest : List Letter}
    (hpending : s.pending = letter :: rest) (hmodules : w'.modules = s.world.modules)
    (hserves : w'.events.Serves (rest.map Letter.event)) :
    (s.take letter.event.owner w').Inv module := by
  have hkept : PartialMap.Kept ModuleInst.SameCopies s.world.modules w'.modules := by
    rw [hmodules]
    exact .refl _
  obtain ⟨hstores, habsent⟩ := h.stores_of_kept hkept (copies_take w' module hpending)
  have hrest : (s.take letter.event.owner w').pending = rest := by simp [MailWorld.take, hpending]
  have hworld : (s.take letter.event.owner w').world = w' := by simp [MailWorld.take, hpending]
  have hmem : ∀ other ∈ rest, other ∈ s.pending :=
    fun other hother ↦ hpending ▸ List.mem_cons_of_mem _ hother
  refine ⟨?_, ?_, ?_, ?_, ?_, ?_⟩
  · rwa [hrest, hworld]
  · rw [hrest]
    intro event hevent
    obtain ⟨other, hother, rfl⟩ := List.mem_map.mp hevent
    exact h.known _ (List.mem_map_of_mem (hmem other hother))
  · rw [hrest]
    exact fun other hother ↦ h.tells other (hmem other hother)
  · simp [MailWorld.take, hpending, h.order]
  · rwa [hworld]
  · rwa [hworld]

theorem Inv.deinstantiate (h : s.Inv module) {other : ℕ}
    (hlawful : Lawful module (.deinstantiate other) s) :
    MailWorld.Inv module { s with
      world := s.world.deinstantiate other
      held := update s.held other [] } := by
  refine ⟨h.serves, h.known, h.tells, h.order, ?_, ?_⟩
  · intro inst hinst
    have hother : module ≠ other := by
      rintro rfl
      simp [ApiWorld.deinstantiate] at hinst
    simp only [ApiWorld.deinstantiate, Function.update_of_ne hother] at hinst
    simpa [lettersFor, Function.update_of_ne hother] using h.stores inst hinst
  · intro hnone
    by_cases hother : module = other
    · subst hother
      rw [List.flatMap_eq_nil_iff]
      intro letter hletter
      simp only [lettersFor, Function.update_self, List.append_nil] at hletter
      obtain ⟨hmem, howner⟩ := List.mem_filter.mp hletter
      have hmessage : letter.message = none := by
        by_contra hsome
        exact hlawful rfl letter hmem (Option.isSome_iff_ne_none.mpr hsome)
          (of_decide_eq_true howner)
      simp [Letter.copies, hmessage]
    · simp only [ApiWorld.deinstantiate, Function.update_of_ne hother] at hnone
      simpa [lettersFor, Function.update_of_ne hother] using h.absent hnone

theorem Inv.next (h : s.Inv module) (hlawful : Lawful module a s) (hnext : s.next a = some s') :
    s'.Inv module := by
  obtain ⟨⟨r, w'⟩, hperform, rfl⟩ := Option.map_eq_some_iff.mp hnext
  cases a with
  | instantiate other usesOcreApi malloc =>
      have hqueued := ApiWorld.queued_of_perform (by simp) (by simp) hperform
      have hevents := ApiWorld.events_of_perform (by simp) (by simp) hperform
      obtain ⟨hnone, rfl⟩ := ApiWorld.perform_instantiate hperform
      simp only [record, hqueued, List.map_nil]
      refine h.append (by simpa [hevents] using h.serves) (by simp) ?_ ?_
      · intro inst hinst
        rw [List.filter_nil, List.append_nil]
        by_cases hother : module = other
        · subst hother
          rw [ApiWorld.modules_instantiate_self] at hinst
          obtain rfl := Option.some.inj hinst
          exact ⟨by simp [h.absent hnone, ModuleInst.new], List.nodup_nil⟩
        · rw [ApiWorld.modules_instantiate_of_ne hother] at hinst
          exact h.stores inst hinst
      · intro habsent
        rw [List.filter_nil, List.append_nil]
        by_cases hother : module = other
        · subst hother
          exact h.absent hnone
        · rw [ApiWorld.modules_instantiate_of_ne hother] at habsent
          exact h.absent habsent
  | native caller call =>
      obtain ⟨inst, hinst, -, hcall⟩ := ApiWorld.perform_native hperform
      cases call with
      | publish args offsets => exact h.publish hlawful hcall
      | freeModuleEventData topic contentType payload =>
          obtain ⟨-, rfl⟩ := Prod.mk.inj (Option.some.inj hcall)
          exact h.release hlawful
      | getEvent offsets =>
          obtain ⟨hmodules, ⟨hret, event, rest, hpending, rfl, -, hserves⟩ | ⟨hret, hserves⟩⟩ :=
            ApiWorld.getEvent_cases h.serves h.known hcall
          · obtain ⟨letter, letters, hletters, rfl, rfl⟩ := List.map_eq_cons_iff.mp hpending
            simp only [record, hret, if_true]
            exact h.take hletters hmodules hserves
          · simp only [record, hret, if_false]
            refine ⟨hserves, h.known, h.tells, h.order, ?_, ?_⟩
            · exact fun inst hinst ↦ h.stores inst (hmodules ▸ hinst)
            · exact fun hnone ↦ h.absent (hmodules ▸ hnone)
      | _ =>
          obtain ⟨hqueued, hkept⟩ := ApiWorld.sameCopies_of_call hcall (by simp) (by simp) (by simp)
          have hserves := (ApiWorld.serves_of_call h.serves (by simp) hcall).1
          rw [hqueued] at hserves
          simpa [record, hqueued] using h.deliver hserves (by simp [AllKnown]) hkept
  | returnMain other | cleanup other | expire slot =>
      have hqueued := ApiWorld.queued_of_perform (by simp) (by simp) hperform
      have hevents := ApiWorld.events_of_perform (by simp) (by simp) hperform
      have hkept := ApiWorld.sameCopies_of_perform (by simp) (by simp) (by simp) hperform
      refine h.deliver ?_ ?_ hkept
      · simpa [hqueued, hevents] using h.serves
      · simp [hqueued, AllKnown]
  | deinstantiate other =>
      obtain ⟨inst, -, -, rfl⟩ := ApiWorld.perform_deinstantiate hperform
      exact h.deinstantiate hlawful
  | notify slot uptime =>
      have hkept := ApiWorld.sameCopies_of_perform (by simp) (by simp) (by simp) hperform
      obtain ⟨events, timers, rfl, -, -, hqueued, hserves⟩ :=
        ApiWorld.perform_notify h.serves hperform
      refine h.deliver hserves ?_ hkept
      intro event hevent
      rw [hqueued] at hevent
      split at hevent
      · exact OcreTimer.exists_words_of_mem_events hevent
      · cases hevent

end MailWorld

/-- The words of an event lead to a message in the memory of an instance. -/
structure EventWords.LeadTo (words : EventWords) (message : Message) (inst : ModuleInst) :
    Prop where
  type : words.type = 3
  topic : (words.port, message.topic ++ [0]) ∈ inst.copies
  contentType : (words.state, message.contentType ++ [0]) ∈ inst.copies
  payload : (words.extra, message.payload) ∈ inst.copies
  payloadLen : words.payloadLen = message.payload.length.toUInt32

section System

variable {maxTimers maxSubscriptions module : ℕ} {s : MailWorld}

/-- The native API in use, with a record of its post. -/
def mailSystem (maxTimers maxSubscriptions : ℕ) : StepSystem MailWorld ApiAct where
  init := (· = ⟨ApiWorld.initial maxTimers maxSubscriptions, [], fun _ ↦ [], [], []⟩)
  next a s := s.next a

theorem MailWorld.inv_of_reachableWhere
    (h : (mailSystem maxTimers maxSubscriptions).ReachableWhere (MailWorld.Lawful module) s) :
    s.Inv module := by
  apply h.invariant
  · rintro s rfl
    refine ⟨EventApi.initial_serves, by simp [AllKnown], by simp, rfl, ?_, fun _ ↦ rfl⟩
    intro inst hinst
    cases hinst
  · intro a s s' hinv hlawful hnext
    exact hinv.next hlawful hnext

/-- In every run that is lawful for a module, whatever the other modules do: letters are
received in the order in which they were sent, none is lost or comes twice; the memory of the
module has the copies of its letters that wait or are held, and no others; and the words of an
event that it takes lead to the message that was published. -/
theorem messages_intact
    (h : (mailSystem maxTimers maxSubscriptions).ReachableWhere (MailWorld.Lawful module) s) :
    s.sent = s.received ++ s.pending ∧
      (∀ inst, s.world.modules module = some inst → inst.Stores (s.lettersFor module)) ∧
      ∀ offsets r w', s.world.perform (.native module (.getEvent offsets)) = some (r, w') →
        r.ret = 0 → ∃ letter rest, s.pending = letter :: rest ∧ letter.event.owner = module ∧
          letter.event.data.words = .ok r.words ∧
          ∀ message ∈ letter.message, ∃ words inst, r.words = some words ∧
            w'.modules module = some inst ∧ words.LeadTo message inst := by
  have hinv := MailWorld.inv_of_reachableWhere h
  refine ⟨hinv.order, hinv.stores, ?_⟩
  intro offsets r w' hperform hret
  obtain ⟨inst, hinst, -, hcall⟩ := ApiWorld.perform_native hperform
  obtain ⟨hmodules, ⟨-, event, rest, hpending, howner, hwords, -⟩ | ⟨hne, -⟩⟩ :=
    ApiWorld.getEvent_cases hinv.serves hinv.known hcall
  swap
  · exact absurd hret hne
  obtain ⟨letter, letters, hletters, rfl, rfl⟩ := List.map_eq_cons_iff.mp hpending
  refine ⟨letter, letters, hletters, howner, hwords, ?_⟩
  intro message hmessage
  have hmem : letter ∈ s.pending := hletters ▸ List.mem_cons_self
  obtain ⟨hlength, messageId, copied, hevent⟩ := hinv.tells letter hmem message hmessage
  have hfor : letter ∈ s.lettersFor module :=
    List.mem_append_left _ (List.mem_filter.mpr ⟨hmem, decide_eq_true howner⟩)
  have hcopies : letter.copies = [(copied.topic, message.topic ++ [0]),
      (copied.contentType, message.contentType ++ [0]), (copied.payload, message.payload)] := by
    rw [Letter.copies, Option.mem_def.mp hmessage, hevent]
    rfl
  have hcopy {copy : UInt32 × List UInt8} (hin : copy ∈ letter.copies) : copy ∈ inst.copies :=
    (hinv.stores inst hinst).mem_copies hfor hin
  rw [hcopies] at hcopy
  rw [hevent] at hwords
  refine ⟨_, inst, (Except.ok.inj hwords).symm, hmodules ▸ hinst, rfl, ?_, ?_, ?_, ?_⟩
  · exact hcopy (by simp)
  · exact hcopy (by simp)
  · exact hcopy (by simp)
  · rw [hlength, Int.toNat_natCast]

/-- Module 8 publishes a message for module 7, and then frees offsets that are not its own. -/
def messageSent : List ApiAct :=
  [.instantiate 7 true true, .instantiate 8 true true,
    .native 7 (.subscribe (some (cstring "news"))),
    .native 8 (.publish ⟨some (cstring "news/now"), some (cstring "text"), some [1, 2], 2⟩
      fun _ ↦ ⟨16, 32, 48⟩),
    .native 8 (.freeModuleEventData 16 32 48)]

theorem messages_intact_of_messageSent :
    ∃ s r w', (mailSystem 5 10).run ⟨ApiWorld.initial 5 10, [], fun _ ↦ [], [], []⟩ messageSent =
        some s ∧ s.world.perform (.native 7 (.getEvent true)) = some (r, w') ∧
      ∃ message words inst, message.payload = [1, 2] ∧ r.words = some words ∧
        words.LeadTo message inst := by
  have hsome : (((mailSystem 5 10).run ⟨ApiWorld.initial 5 10, [], fun _ ↦ [], [], []⟩
      messageSent).any fun s ↦ (s.pending.head?.bind Letter.message).any (·.payload = [1, 2]) ∧
        (s.world.perform (.native 7 (.getEvent true))).any (·.1.ret = 0)) = true := by
    decide +kernel
  obtain ⟨s, hrun, hs⟩ := (Option.any_eq_true _ _).mp hsome
  obtain ⟨hhead, hany⟩ := of_decide_eq_true hs
  obtain ⟨⟨r, w'⟩, hperform, hret⟩ := (Option.any_eq_true _ _).mp hany
  obtain ⟨message, hmessage, hpayload⟩ := (Option.any_eq_true _ _).mp hhead
  have hreach : (mailSystem 5 10).ReachableWhere (MailWorld.Lawful 7) s :=
    StepSystem.ReachableWhere.run (.start rfl) (by decide +kernel) hrun
  obtain ⟨-, -, hget⟩ := messages_intact hreach
  obtain ⟨letter, rest, hpending, -, -, hlead⟩ := hget _ r w' hperform (of_decide_eq_true hret)
  rw [hpending] at hmessage
  obtain ⟨words, inst, hwords, -, hleads⟩ := hlead message hmessage
  exact ⟨s, r, w', hrun, hperform, message, words, inst, of_decide_eq_true hpayload, hwords, hleads⟩

end System

end OcreRuntime
