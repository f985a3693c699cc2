import OcreRuntime.Lib.StringScan
import OcreRuntime.OcreApi.Subscriptions

/-!
# What publish and subscribe read

The natives `ocre_publish_message` and `ocre_subscribe_message` have the signatures `(***i)i`
and `(*)i`, for which WAMR checks of each pointer that it starts in the linear memory of the
caller. The functions read strings up to their NUL and a payload of any length from there
on. Beyond the linear memory lies other memory of the host.
-/

namespace OcreRuntime

open StringScan (stringAt compared)

/-- The memory from the start of the linear memory of a module on. -/
structure GuestMemory where
  linear : List UInt8
  beyond : List UInt8

def GuestMemory.bytes (memory : GuestMemory) : List UInt8 := memory.linear ++ memory.beyond

/-- A read of consecutive bytes. -/
structure ReadRange where
  start : ℕ
  length : ℕ
  deriving DecidableEq

/-- A call from a module, with offsets in its linear memory. -/
inductive GuestCall
  | publish (topic contentType payload : UInt32) (payloadLen : Int) (offsets : ℕ → DupOffsets)
  | subscribe (topic : UInt32)

namespace GuestCall

/-- The check that WAMR makes for the signature. -/
def admitted (size : ℕ) : GuestCall → Bool
  | publish topic contentType payload _ _ =>
      topic.toNat < size ∧ contentType.toNat < size ∧ payload.toNat < size
  | subscribe topic => topic.toNat < size

/-- The call with what it finds in memory. -/
def native (bytes : List UInt8) : GuestCall → NativeCall
  | publish topic contentType payload payloadLen offsets => .publish
      { topic := some (stringAt 0 bytes topic.toNat)
        contentType := some (stringAt 0 bytes contentType.toNat)
        payload := some ((bytes.drop payload.toNat).take payloadLen.toNat)
        payloadLen := payloadLen } offsets
  | subscribe topic => .subscribe (some (stringAt 0 bytes topic.toNat))

/-- The call, if it passes the check; otherwise the module traps. -/
def run (w : ApiWorld) (module : ℕ) (memory : GuestMemory) (call : GuestCall) :
    Option (NativeResult × ApiWorld) :=
  if call.admitted memory.linear.length then w.call module (call.native memory.bytes) else none

/-- A scan of the string at an offset, up to its NUL. -/
def scan (bytes : List UInt8) (offset : UInt32) : ReadRange :=
  ⟨offset.toNat, (stringAt 0 bytes offset.toNat).length + 1⟩

/-- The bytes of an argument that the loop of a publish reads. -/
def argument (bytes : List UInt8) (topic contentType payload : UInt32) (payloadLen : Int) :
    PublishRead → ReadRange
  | .topic => scan bytes topic
  | .contentType => scan bytes contentType
  | .payload => ⟨payload.toNat, payloadLen.toNat⟩

/-- What `strcmp` reads of a topic in the first loop of `ocre_messaging_subscribe`. -/
def comparedLengths (module : ℕ) (topic : CString) : SubscriptionTable → List ℕ
  | [] => []
  | subscription :: subscriptions =>
      if subscription.isActive ∧ subscription.moduleInst = some module then
        if subscription.topic = topic then [topic.length + 1]
        else compared subscription.topic topic :: comparedLengths module topic subscriptions
      else comparedLengths module topic subscriptions

/-- The reads of the arguments. A publish that has sent nothing names its topic in a warning,
a subscription that returns 0 names it in an information; the prefix comparisons of a
publish read no more than the scan of its topic. -/
def reads (w : ApiWorld) (module : ℕ) (memory : GuestMemory) (call : GuestCall) :
    List ReadRange :=
  if ¬ call.admitted memory.linear.length then []
  else match call with
    | publish topic contentType payload payloadLen _ =>
        ⟨topic.toNat, 1⟩ ::
          if stringAt 0 memory.bytes topic.toNat = [] then []
          else ⟨contentType.toNat, 1⟩ ::
            if stringAt 0 memory.bytes contentType.toNat = [] ∨ payloadLen ≤ 0 then []
            else match call.run w module memory with
              | none => []
              | some r => (r.1.reads ++ if r.1.queued = [] then [PublishRead.topic] else []).map
                  (argument memory.bytes topic contentType payload payloadLen)
    | subscribe topic =>
        ⟨topic.toNat, 1⟩ ::
          if stringAt 0 memory.bytes topic.toNat = [] ∨ ¬ w.hasContext module then []
          else
            (comparedLengths module (stringAt 0 memory.bytes topic.toNat)
              w.ocreMessagingInit.subscriptions).map (⟨topic.toNat, ·⟩) ++
            match call.run w module memory with
            | none => []
            | some r => if r.1.ret = 0 then [scan memory.bytes topic] else []

/-- Every read lies in the linear memory, and the outcome, with the bytes that are copied to
the subscribers, is the same for any other memory beyond it. -/
structure Confined (w : ApiWorld) (module : ℕ) (memory : GuestMemory) (call : GuestCall) :
    Prop where
  reads : ∀ range ∈ call.reads w module memory, range.start + range.length ≤ memory.linear.length
  sameOutcome : ∀ beyond,
    call.run w module ⟨memory.linear, beyond⟩ = call.run w module memory

end GuestCall

/-- How far the body of the loop comes with these offsets. -/
def DupOffsets.reaches (offsets : DupOffsets) : PublishRead → Bool
  | .topic => true
  | .contentType => offsets.topic ≠ 0
  | .payload => offsets.AllSome

/-- The loop reads an argument for some slot, from one on. -/
def someMatch (what : PublishRead) (topic : CString) (offsets : ℕ → DupOffsets) :
    ℕ → SubscriptionTable → Bool
  | _, [] => false
  | i, subscription :: subscriptions =>
      (subscription.isMatch topic ∧ subscription.moduleInst.isSome ∧ (offsets i).reaches what) ∨
        someMatch what topic offsets (i + 1) subscriptions

/-- The condition on the call, its linear memory and the subscriptions. WAMR refuses the
call, or its arguments are refused early, or the strings that are scanned have their NUL in
the linear memory and the payload ends there. -/
def GuestCall.StaysInside (w : ApiWorld) (module : ℕ) (linear : List UInt8)
    (call : GuestCall) : Prop :=
  call.admitted linear.length = true → match call with
    | .publish topic contentType payload payloadLen offsets =>
        let text := stringAt 0 linear topic.toNat
        let subscriptions := w.ocreMessagingInit.subscriptions
        text = [] ∨ stringAt 0 linear contentType.toNat = [] ∨ payloadLen ≤ 0 ∨
          0 ∈ linear.drop topic.toNat ∧
            (someMatch .contentType text offsets 0 subscriptions = true →
              0 ∈ linear.drop contentType.toNat) ∧
            (someMatch .payload text offsets 0 subscriptions = true →
              payload.toNat + payloadLen.toNat ≤ linear.length)
    | .subscribe topic =>
        0 ∈ linear.drop topic.toNat ∨ w.hasContext module = false ∨
          w.ocreMessagingInit.subscriptions.hasFree = false ∧
            ∀ subscription ∈ w.ocreMessagingInit.subscriptions,
              subscription.isActive = true → subscription.moduleInst = some module →
                ¬ linear.drop topic.toNat <+: subscription.topic

instance decidableStaysInside (w : ApiWorld) (module : ℕ) (linear : List UInt8) :
    (call : GuestCall) → Decidable (call.StaysInside w module linear)
  | .publish .. => inferInstanceAs (Decidable (_ → _))
  | .subscribe _ => inferInstanceAs (Decidable (_ → _))

section Loop

variable {message message' : Message} {messageId : UInt32} {target : ℕ} {inst : ModuleInst}
  {st st' : PublishState} {what : PublishRead}

theorem mem_reads_publishTo {offsets : DupOffsets}
    (h : publishTo message messageId offsets target inst st = some st') :
    what ∈ st'.reads ↔ what ∈ st.reads ∨ offsets.reaches what = true := by
  unfold publishTo at h
  by_cases htopic : offsets.topic = 0
  · simp only [htopic, if_true, Option.some.injEq] at h
    subst h
    cases what <;> simp [PublishState.read, DupOffsets.reaches, DupOffsets.AllSome, htopic]
  by_cases hcontent : offsets.contentType = 0
  · simp only [htopic, hcontent, if_true, if_false, Option.some.injEq] at h
    subst h
    cases what <;>
      simp [PublishState.read, PublishState.storeModule, DupOffsets.reaches, DupOffsets.AllSome,
        htopic, hcontent]
  by_cases hpayload : offsets.payload = 0
  · simp only [htopic, hcontent, hpayload, if_true, if_false, Option.some.injEq] at h
    subst h
    cases what <;>
      simp [PublishState.read, PublishState.storeModule, DupOffsets.reaches, DupOffsets.AllSome,
        htopic, hcontent, hpayload]
  have hreads : st'.reads = st.reads ++ [.topic] ++ [.contentType] ++ [.payload] := by
    simp only [htopic, hcontent, hpayload, if_false] at h
    obtain ⟨⟨accepted, events⟩, -, heq⟩ := Option.map_eq_some_iff.mp h
    cases accepted with
    | true =>
        subst heq
        rfl
    | false =>
        subst heq
        rfl
  rw [hreads]
  cases what <;> simp [DupOffsets.reaches, DupOffsets.AllSome, htopic, hcontent, hpayload]

theorem mem_reads_publishLoop {offsets : ℕ → DupOffsets} {i : ℕ}
    {subscriptions : SubscriptionTable}
    (h : publishLoop message messageId offsets i subscriptions st = some st') :
    what ∈ st'.reads ↔
      what ∈ st.reads ∨ someMatch what message.topic offsets i subscriptions = true := by
  refine publishLoop_induction (P := fun i subscriptions st ↦ what ∈ st'.reads ↔
    what ∈ st.reads ∨ someMatch what message.topic offsets i subscriptions = true)
    ?nil ?skip ?target h
  case nil => simp [someMatch]
  case skip =>
    intro i subscription subscriptions st hskip ih
    have hnot : ¬ (subscription.isMatch message.topic = true ∧
        subscription.moduleInst.isSome = true ∧ (offsets i).reaches what = true) :=
      fun hall ↦ hskip ⟨hall.1, hall.2.1⟩
    simpa [someMatch, hnot] using ih
  case target =>
    intro i subscription subscriptions st target inst t hmatch htarget hinst ht _ ih
    rw [ih, mem_reads_publishTo ht]
    simp [someMatch, htarget, hmatch, or_assoc]

theorem publishTo_congr {offsets : DupOffsets} (htopic : message.topic = message'.topic)
    (hlen : message.payloadLen = message'.payloadLen)
    (hcontent : offsets.reaches .contentType = true → message.contentType = message'.contentType)
    (hpayload : offsets.reaches .payload = true → message.payload = message'.payload) :
    publishTo message messageId offsets target inst st =
      publishTo message' messageId offsets target inst st := by
  unfold publishTo
  by_cases hfirst : offsets.topic = 0
  · simp [hfirst]
  have hcontent := hcontent (by simpa [DupOffsets.reaches] using hfirst)
  by_cases hsecond : offsets.contentType = 0
  · simp [hfirst, hsecond, htopic]
  by_cases hthird : offsets.payload = 0
  · simp [hfirst, hsecond, hthird, htopic, hcontent]
  have hpayload := hpayload (by simp [DupOffsets.reaches, DupOffsets.AllSome, hfirst, hsecond,
    hthird])
  have hevent : message.event messageId offsets target =
      message'.event messageId offsets target := by
    simp [Message.event, hlen]
  simp only [htopic, hcontent, hpayload, hevent]

/-- The loop depends on an argument only if it reads it for some slot. -/
theorem publishLoop_congr {offsets : ℕ → DupOffsets} {i : ℕ}
    {subscriptions : SubscriptionTable} (htopic : message.topic = message'.topic)
    (hlen : message.payloadLen = message'.payloadLen)
    (hcontent : someMatch .contentType message.topic offsets i subscriptions = true →
      message.contentType = message'.contentType)
    (hpayload : someMatch .payload message.topic offsets i subscriptions = true →
      message.payload = message'.payload) :
    publishLoop message messageId offsets i subscriptions st =
      publishLoop message' messageId offsets i subscriptions st := by
  induction subscriptions generalizing i st with
  | nil => rfl
  | cons subscription subscriptions ih =>
      have hrest : ∀ t, publishLoop message messageId offsets (i + 1) subscriptions t =
          publishLoop message' messageId offsets (i + 1) subscriptions t := by
        intro t
        apply ih
        · intro hsome
          exact hcontent (by simp [someMatch, hsome])
        · intro hsome
          exact hpayload (by simp [someMatch, hsome])
      rw [publishLoop, publishLoop, ← htopic]
      by_cases hmatch : subscription.isMatch message.topic = true
      swap
      · rw [if_pos hmatch, if_pos hmatch, hrest]
      rw [if_neg (not_not.mpr hmatch), if_neg (not_not.mpr hmatch)]
      cases htarget : subscription.moduleInst with
      | none => exact hrest st
      | some target =>
          dsimp only
          cases st.modules target with
          | none => rfl
          | some inst =>
              have hto : publishTo message messageId (offsets i) target inst st =
                  publishTo message' messageId (offsets i) target inst st := by
                apply publishTo_congr htopic hlen
                · intro hreach
                  exact hcontent (by simp [someMatch, htarget, hmatch, hreach])
                · intro hreach
                  exact hpayload (by simp [someMatch, htarget, hmatch, hreach])
              simp only [hto, funext hrest]

/-- What a publish queues, it has copied the topic for. -/
theorem someMatch_of_messageEvents_ne_nil {topic : CString} {offsets : ℕ → DupOffsets} {i : ℕ}
    {subscriptions : SubscriptionTable} (htopic : message.topic = topic)
    (h : messageEvents message messageId offsets i subscriptions ≠ []) :
    someMatch .topic topic offsets i subscriptions = true := by
  induction subscriptions generalizing i with
  | nil => exact absurd rfl h
  | cons subscription subscriptions ih =>
      by_cases hrest : messageEvents message messageId offsets (i + 1) subscriptions = []
      · cases htarget : subscription.moduleInst with
        | none => simp [messageEvents, htarget, hrest] at h
        | some target =>
            by_cases hmatch : subscription.isMatch message.topic = true
            · simp [someMatch, htarget, ← htopic, hmatch, DupOffsets.reaches]
            · simp [messageEvents, htarget, hmatch, hrest] at h
      · simp [someMatch, ih hrest]

end Loop

namespace ApiWorld

variable {w w' : ApiWorld} {module : ℕ} {r : NativeResult}

theorem mem_reads_of_publish {message : Message} {offsets : ℕ → DupOffsets}
    (h : w.publish message offsets = some (r, w')) (what : PublishRead) :
    what ∈ r.reads ↔ someMatch what message.topic offsets 0 w.subscriptions = true := by
  obtain ⟨st, hloop, heq⟩ := Option.map_eq_some_iff.mp h
  have hreads : r.reads = st.reads := by
    by_cases hsent : st.queued = []
    · rw [if_neg (not_not.mpr hsent)] at heq
      cases heq
      rfl
    · rw [if_pos hsent] at heq
      cases heq
      rfl
  rw [hreads, mem_reads_publishLoop hloop]
  simp

/-- The topic is read to its end, for a copy or for the warning. -/
theorem topic_mem_reads {message : Message} {offsets : ℕ → DupOffsets}
    (h : w.publish message offsets = some (r, w')) :
    .topic ∈ r.reads ++ if r.queued = [] then [PublishRead.topic] else [] := by
  by_cases hqueued : r.queued = []
  · simp [hqueued]
  · obtain ⟨st, hadds, -⟩ := exists_adds_of_publish h
    have hne : messageEvents message w.messageId offsets 0 w.subscriptions ≠ [] := by
      intro hnil
      exact hqueued (List.sublist_nil.mp (hnil ▸ hadds.sublist))
    apply List.mem_append_left
    exact (mem_reads_of_publish h .topic).mpr (someMatch_of_messageEvents_ne_nil rfl hne)

section Subscribe

variable {topic : CString}

theorem subscribe_of_full (htopic : topic ≠ []) (hcontext : w.hasContext module = true)
    (hnew : ¬ w.subscriptions.isSubscribed module topic = true)
    (hfull : w.subscriptions.hasFree = false) : w.subscribe module topic = (-12, w) := by
  have hstore : w.subscriptions.storeFree (SubscriptionTable.newSubscription module topic) =
      none := by
    rw [← Option.not_isSome_iff_eq_none, SubscriptionTable.storeFree_isSome_iff, hfull]
    exact Bool.false_ne_true
  simp [subscribe, htopic, hcontext, hnew, hstore]

theorem subscribe_eq_zero (htopic : topic ≠ []) (hcontext : w.hasContext module = true)
    (h : w.subscriptions.isSubscribed module topic = true ∨ w.subscriptions.hasFree = true) :
    (w.subscribe module topic).1 = 0 := by
  unfold subscribe
  rw [if_neg htopic, if_neg (not_not.mpr hcontext)]
  by_cases hsubscribed : w.subscriptions.isSubscribed module topic = true
  · rw [if_pos hsubscribed]
  rw [if_neg hsubscribed]
  have hfree := h.resolve_left hsubscribed
  rw [← SubscriptionTable.storeFree_isSome_iff
    (SubscriptionTable.newSubscription module topic)] at hfree
  obtain ⟨subscriptions, hstore⟩ := Option.isSome_iff_exists.mp hfree
  rw [hstore]

end Subscribe

end ApiWorld

namespace GuestCall

variable {w : ApiWorld} {module : ℕ} {memory : GuestMemory}
  {topic contentType payload : UInt32} {payloadLen : Int} {offsets : ℕ → DupOffsets}

/-- The message of a publish that passes the checks. -/
def message (bytes : List UInt8) (topic contentType payload : UInt32) (payloadLen : Int) :
    Message where
  topic := stringAt 0 bytes topic.toNat
  contentType := stringAt 0 bytes contentType.toNat
  payload := (bytes.drop payload.toNat).take payloadLen.toNat
  payloadLen := payloadLen

theorem call_publish_of_refused {bytes : List UInt8}
    (h : stringAt 0 bytes topic.toNat = [] ∨ stringAt 0 bytes contentType.toNat = [] ∨
      payloadLen ≤ 0) :
    w.call module ((publish topic contentType payload payloadLen offsets).native bytes) =
      some ({ ret := -22 }, w.ocreMessagingInit) := by
  have hmessage : PublishArgs.message ⟨some (stringAt 0 bytes topic.toNat),
      some (stringAt 0 bytes contentType.toNat),
      some ((bytes.drop payload.toNat).take payloadLen.toNat), payloadLen⟩ = none := by
    unfold PublishArgs.message
    split
    next htopic hcontent hpayload =>
      rw [if_pos]
      rcases h with hnil | hnil | hlen
      · simp [hnil] at htopic
      · simp [hnil] at hcontent
      · exact hlen
    · rfl
  simp only [native, ApiWorld.call, ApiWorld.ocreMessagingPublish, hmessage]

theorem scan_inside_iff {offset : UInt32} (h : offset.toNat < memory.linear.length) :
    (scan memory.bytes offset).start + (scan memory.bytes offset).length ≤ memory.linear.length ↔
      0 ∈ memory.linear.drop offset.toNat :=
  StringScan.scan_le_iff h

theorem run_of_admitted {call : GuestCall} (h : call.admitted memory.linear.length = true)
    (beyond : List UInt8) :
    call.run w module ⟨memory.linear, beyond⟩ =
      w.call module (call.native (memory.linear ++ beyond)) := by
  rw [run, if_pos h]
  rfl

theorem lt_of_admitted_publish
    (h : (publish topic contentType payload payloadLen offsets).admitted memory.linear.length =
      true) :
    topic.toNat < memory.linear.length ∧ contentType.toNat < memory.linear.length ∧
      payload.toNat < memory.linear.length := by
  simpa [admitted] using h

theorem start_of_mem_reads_of_refused {range : ReadRange}
    (h : stringAt 0 memory.bytes topic.toNat = [] ∨
      stringAt 0 memory.bytes contentType.toNat = [] ∨ payloadLen ≤ 0)
    (hrange : range ∈ reads w module memory
      (publish topic contentType payload payloadLen offsets)) :
    range = ⟨topic.toNat, 1⟩ ∨ range = ⟨contentType.toNat, 1⟩ := by
  unfold reads at hrange
  split at hrange
  · simp at hrange
  dsimp only at hrange
  rcases List.mem_cons.mp hrange with rfl | hrange
  · exact .inl rfl
  split at hrange
  · simp at hrange
  next hnil =>
    rw [if_pos (h.resolve_left hnil)] at hrange
    exact .inr (List.mem_singleton.mp hrange)

/-- A publish whose arguments are refused reads one byte of its strings. -/
theorem confined_publish_of_refused
    (hadmitted : (publish topic contentType payload payloadLen offsets).admitted
      memory.linear.length = true)
    (h : stringAt 0 memory.linear topic.toNat = [] ∨
      stringAt 0 memory.linear contentType.toNat = [] ∨ payloadLen ≤ 0) :
    Confined w module memory (publish topic contentType payload payloadLen offsets) := by
  obtain ⟨htopic, hcontent, -⟩ := lt_of_admitted_publish hadmitted
  have hrefused : ∀ beyond, stringAt 0 (memory.linear ++ beyond) topic.toNat = [] ∨
      stringAt 0 (memory.linear ++ beyond) contentType.toNat = [] ∨ payloadLen ≤ 0 := by
    intro beyond
    rwa [StringScan.stringAt_eq_nil_iff htopic, StringScan.stringAt_eq_nil_iff hcontent]
  constructor
  · intro range hrange
    rcases start_of_mem_reads_of_refused (hrefused memory.beyond) hrange with rfl | rfl
    · exact htopic
    · exact hcontent
  · intro beyond
    have hsame : ∀ beyond, run w module ⟨memory.linear, beyond⟩
        (publish topic contentType payload payloadLen offsets) =
          some ({ ret := -22 }, w.ocreMessagingInit) := by
      intro beyond
      rw [run_of_admitted hadmitted beyond]
      exact call_publish_of_refused (hrefused beyond)
    exact (hsame beyond).trans (hsame memory.beyond).symm

/-- The arguments of a publish pass the checks of WAMR and those of `ocre_messaging_publish`. -/
structure Accepted (linear : List UInt8) (topic contentType payload : UInt32) (payloadLen : Int) :
    Prop where
  topicLt : topic.toNat < linear.length
  contentTypeLt : contentType.toNat < linear.length
  payloadLt : payload.toNat < linear.length
  topicNe : stringAt 0 linear topic.toNat ≠ []
  contentTypeNe : stringAt 0 linear contentType.toNat ≠ []
  lenPos : ¬ payloadLen ≤ 0

namespace Accepted

variable {r : NativeResult} {w' : ApiWorld}

theorem admitted (h : Accepted memory.linear topic contentType payload payloadLen)
    (offsets : ℕ → DupOffsets) :
    (publish topic contentType payload payloadLen offsets).admitted memory.linear.length =
      true := by
  simpa [GuestCall.admitted] using ⟨h.topicLt, h.contentTypeLt, h.payloadLt⟩

theorem topic_append (h : Accepted memory.linear topic contentType payload payloadLen)
    (beyond : List UInt8) : stringAt 0 (memory.linear ++ beyond) topic.toNat ≠ [] := by
  rw [Ne, StringScan.stringAt_eq_nil_iff h.topicLt]
  exact h.topicNe

theorem contentType_append (h : Accepted memory.linear topic contentType payload payloadLen)
    (beyond : List UInt8) : stringAt 0 (memory.linear ++ beyond) contentType.toNat ≠ [] := by
  rw [Ne, StringScan.stringAt_eq_nil_iff h.contentTypeLt]
  exact h.contentTypeNe

theorem call (h : Accepted memory.linear topic contentType payload payloadLen)
    (beyond : List UInt8) :
    w.call module ((publish topic contentType payload payloadLen offsets).native
        (memory.linear ++ beyond)) =
      w.ocreMessagingInit.publish
        (message (memory.linear ++ beyond) topic contentType payload payloadLen) offsets := by
  have hmessage : PublishArgs.message ⟨some (stringAt 0 (memory.linear ++ beyond) topic.toNat),
      some (stringAt 0 (memory.linear ++ beyond) contentType.toNat),
      some (((memory.linear ++ beyond).drop payload.toNat).take payloadLen.toNat), payloadLen⟩ =
        some (message (memory.linear ++ beyond) topic contentType payload payloadLen) := by
    obtain ⟨c, text, htext⟩ := List.exists_cons_of_ne_nil (h.topic_append beyond)
    obtain ⟨d, content, hcontent⟩ := List.exists_cons_of_ne_nil (h.contentType_append beyond)
    simp [PublishArgs.message, message, htext, hcontent, h.lenPos]
  simp only [native, ApiWorld.call, ApiWorld.ocreMessagingPublish, hmessage]

theorem run (h : Accepted memory.linear topic contentType payload payloadLen)
    (beyond : List UInt8) :
    (publish topic contentType payload payloadLen offsets).run w module ⟨memory.linear, beyond⟩ =
      w.ocreMessagingInit.publish
        (message (memory.linear ++ beyond) topic contentType payload payloadLen) offsets := by
  rw [run_of_admitted (h.admitted offsets) beyond]
  exact h.call beyond

theorem reads (h : Accepted memory.linear topic contentType payload payloadLen)
    (hcall : w.ocreMessagingInit.publish
      (message memory.bytes topic contentType payload payloadLen) offsets = some (r, w')) :
    (publish topic contentType payload payloadLen offsets).reads w module memory =
      ⟨topic.toNat, 1⟩ :: ⟨contentType.toNat, 1⟩ ::
        (r.reads ++ if r.queued = [] then [PublishRead.topic] else []).map
          (argument memory.bytes topic contentType payload payloadLen) := by
  have hrun : (publish topic contentType payload payloadLen offsets).run w module memory =
      some (r, w') := (h.run memory.beyond).trans hcall
  have htopic : stringAt 0 memory.bytes topic.toNat ≠ [] := h.topic_append memory.beyond
  have hcontent : stringAt 0 memory.bytes contentType.toNat ≠ [] :=
    h.contentType_append memory.beyond
  unfold GuestCall.reads
  rw [if_neg (not_not.mpr (h.admitted offsets))]
  dsimp only
  rw [if_neg htopic, if_neg (not_or.mpr ⟨hcontent, h.lenPos⟩), hrun]

/-- The bytes beyond the linear memory are not missed. -/
theorem sameOutcome (h : Accepted memory.linear topic contentType payload payloadLen)
    (hzero : 0 ∈ memory.linear.drop topic.toNat)
    (hcontent : someMatch .contentType (stringAt 0 memory.linear topic.toNat) offsets 0
      w.ocreMessagingInit.subscriptions = true → 0 ∈ memory.linear.drop contentType.toNat)
    (hpayload : someMatch .payload (stringAt 0 memory.linear topic.toNat) offsets 0
      w.ocreMessagingInit.subscriptions = true →
        payload.toNat + payloadLen.toNat ≤ memory.linear.length)
    (beyond : List UInt8) :
    (publish topic contentType payload payloadLen offsets).run w module ⟨memory.linear, beyond⟩ =
      w.ocreMessagingInit.publish
        (message memory.linear topic contentType payload payloadLen) offsets := by
  have htopic : stringAt 0 (memory.linear ++ beyond) topic.toNat =
      stringAt 0 memory.linear topic.toNat := StringScan.stringAt_append_of_mem hzero
  rw [h.run beyond]
  unfold ApiWorld.publish
  congr 1
  apply publishLoop_congr
  · exact htopic
  · rfl
  · intro hmatch
    simp only [message, htopic] at hmatch
    exact StringScan.stringAt_append_of_mem (hcontent hmatch)
  · intro hmatch
    simp only [message, htopic] at hmatch
    exact StringScan.take_drop_append (hpayload hmatch)

theorem confined_publish_iff {maxTimers maxSubscriptions : ℕ}
    (h : Accepted memory.linear topic contentType payload payloadLen)
    (hw : (apiSystem maxTimers maxSubscriptions).Reachable w) :
    Confined w module memory (publish topic contentType payload payloadLen offsets) ↔
      0 ∈ memory.linear.drop topic.toNat ∧
        (someMatch .contentType (stringAt 0 memory.linear topic.toNat) offsets 0
            w.ocreMessagingInit.subscriptions = true → 0 ∈ memory.linear.drop contentType.toNat) ∧
        (someMatch .payload (stringAt 0 memory.linear topic.toNat) offsets 0
            w.ocreMessagingInit.subscriptions = true →
          payload.toNat + payloadLen.toNat ≤ memory.linear.length) := by
  obtain ⟨r, w', hcall⟩ := exists_call_of_reachable hw module
    ((publish topic contentType payload payloadLen offsets).native
      (memory.linear ++ memory.beyond))
  rw [h.call] at hcall
  have htopicRead := ApiWorld.topic_mem_reads hcall
  have hread := ApiWorld.mem_reads_of_publish hcall
  have htopic : 0 ∈ memory.linear.drop topic.toNat →
      (message (memory.linear ++ memory.beyond) topic contentType payload payloadLen).topic =
        stringAt 0 memory.linear topic.toNat := StringScan.stringAt_append_of_mem
  constructor
  · intro hconfined
    have hinside : ∀ what, what ∈ r.reads ++ (if r.queued = [] then [PublishRead.topic] else []) →
        let range := argument memory.bytes topic contentType payload payloadLen what
        range.start + range.length ≤ memory.linear.length := by
      intro what hwhat
      apply hconfined.reads
      rw [h.reads hcall]
      exact List.mem_cons_of_mem _ (List.mem_cons_of_mem _ (List.mem_map_of_mem hwhat))
    have hzero : 0 ∈ memory.linear.drop topic.toNat :=
      (scan_inside_iff h.topicLt).mp (hinside .topic htopicRead)
    rw [htopic hzero] at hread
    refine ⟨hzero, ?_, ?_⟩
    · intro hmatch
      apply (scan_inside_iff h.contentTypeLt).mp
      exact hinside .contentType (List.mem_append_left _ ((hread _).mpr hmatch))
    · intro hmatch
      exact hinside .payload (List.mem_append_left _ ((hread _).mpr hmatch))
  · rintro ⟨hzero, hcontent, hpayload⟩
    rw [htopic hzero] at hread
    constructor
    · intro range hrange
      rw [h.reads hcall] at hrange
      rcases List.mem_cons.mp hrange with rfl | hrange
      · exact h.topicLt
      rcases List.mem_cons.mp hrange with rfl | hrange
      · exact h.contentTypeLt
      obtain ⟨what, hwhat, rfl⟩ := List.mem_map.mp hrange
      have hmatch : what ≠ .topic → someMatch what (stringAt 0 memory.linear topic.toNat) offsets 0
          w.ocreMessagingInit.subscriptions = true := by
        intro hne
        apply (hread what).mp
        rcases List.mem_append.mp hwhat with hwhat | hwhat
        · exact hwhat
        · split at hwhat
          · exact absurd (List.mem_singleton.mp hwhat) hne
          · simp at hwhat
      cases what with
      | topic => exact (scan_inside_iff h.topicLt).mpr hzero
      | contentType => exact (scan_inside_iff h.contentTypeLt).mpr (hcontent (hmatch (by simp)))
      | payload => exact hpayload (hmatch (by simp))
    · intro beyond
      exact (h.sameOutcome hzero hcontent hpayload beyond).trans
        (h.sameOutcome hzero hcontent hpayload memory.beyond).symm

end Accepted

section Subscribe

variable {subscriptions : SubscriptionTable} {text : CString}

theorem le_of_mem_comparedLengths {n : ℕ} (h : n ∈ comparedLengths module text subscriptions) :
    n ≤ text.length + 1 := by
  induction subscriptions with
  | nil => simp [comparedLengths] at h
  | cons subscription subscriptions ih =>
      unfold comparedLengths at h
      split at h
      · split at h
        · exact (List.mem_singleton.mp h).le
        · rcases List.mem_cons.mp h with rfl | h
          · exact StringScan.compared_le _ _
          · exact ih h
      · exact ih h

/-- A topic that is not found is compared with every own one. -/
theorem mem_comparedLengths_iff {n : ℕ} (h : ¬ subscriptions.isSubscribed module text = true) :
    n ∈ comparedLengths module text subscriptions ↔
      ∃ subscription ∈ subscriptions, subscription.isActive = true ∧
        subscription.moduleInst = some module ∧ compared subscription.topic text = n := by
  induction subscriptions with
  | nil => simp [comparedLengths]
  | cons subscription subscriptions ih =>
      have hrest : ¬ SubscriptionTable.isSubscribed subscriptions module text = true := by
        intro hsubscribed
        obtain ⟨other, hmem, hother⟩ := List.any_eq_true.mp hsubscribed
        exact h (List.any_eq_true.mpr ⟨other, List.mem_cons_of_mem _ hmem, hother⟩)
      rw [comparedLengths, List.exists_mem_cons_iff]
      by_cases hown : subscription.isActive = true ∧ subscription.moduleInst = some module
      · have hne : subscription.topic ≠ text := by
          intro heq
          exact h (by simp [SubscriptionTable.isSubscribed, hown, heq])
        rw [if_pos hown, if_neg hne, List.mem_cons, ih hrest, eq_comm]
        simp only [hown, true_and]
      · rw [if_neg hown, ih hrest]
        have hnot : ¬ (subscription.isActive = true ∧ subscription.moduleInst = some module ∧
            compared subscription.topic text = n) := by
          rintro ⟨hactive, hmodule, -⟩
          exact hown ⟨hactive, hmodule⟩
        simp [hnot]

theorem run_subscribe (hadmitted : (subscribe topic).admitted memory.linear.length = true)
    (beyond : List UInt8) :
    run w module ⟨memory.linear, beyond⟩ (subscribe topic) =
      some ({ ret := (w.ocreMessagingInit.subscribe module
          (stringAt 0 (memory.linear ++ beyond) topic.toNat)).1 },
        (w.ocreMessagingInit.subscribe module
          (stringAt 0 (memory.linear ++ beyond) topic.toNat)).2) := by
  rw [run_of_admitted hadmitted beyond]
  rfl

theorem start_of_mem_reads_subscribe {range : ReadRange}
    (h : stringAt 0 memory.bytes topic.toNat = [] ∨ w.hasContext module = false)
    (hrange : range ∈ reads w module memory (subscribe topic)) : range = ⟨topic.toNat, 1⟩ := by
  unfold reads at hrange
  split at hrange
  · simp at hrange
  dsimp only at hrange
  rw [if_pos (by simpa using h)] at hrange
  exact List.mem_singleton.mp hrange

theorem mem_reads_subscribe_iff {range : ReadRange}
    (hadmitted : (subscribe topic).admitted memory.linear.length = true)
    (htext : stringAt 0 memory.bytes topic.toNat ≠ []) (hcontext : w.hasContext module = true) :
    range ∈ reads w module memory (subscribe topic) ↔
      range = ⟨topic.toNat, 1⟩ ∨
        (∃ n ∈ comparedLengths module (stringAt 0 memory.bytes topic.toNat)
          w.ocreMessagingInit.subscriptions, ⟨topic.toNat, n⟩ = range) ∨
        (w.ocreMessagingInit.subscribe module (stringAt 0 memory.bytes topic.toNat)).1 = 0 ∧
          range = scan memory.bytes topic := by
  unfold reads
  rw [if_neg (not_not.mpr hadmitted)]
  dsimp only
  rw [if_neg (by simp [htext, hcontext]), run_subscribe hadmitted memory.beyond]
  dsimp only [GuestMemory.bytes]
  by_cases hret : (w.ocreMessagingInit.subscribe module
      (stringAt 0 (memory.linear ++ memory.beyond) topic.toNat)).1 = 0
  · rw [if_pos hret]
    simp [hret]
  · rw [if_neg hret]
    simp [hret]

theorem confined_subscribe_of_mem
    (hadmitted : (subscribe topic).admitted memory.linear.length = true)
    (h : 0 ∈ memory.linear.drop topic.toNat) : Confined w module memory (subscribe topic) := by
  have htopic : topic.toNat < memory.linear.length := by simpa [admitted] using hadmitted
  have hscan := (scan_inside_iff htopic).mpr h
  constructor
  · intro range hrange
    by_cases hearly : stringAt 0 memory.bytes topic.toNat = [] ∨ w.hasContext module = false
    · obtain rfl := start_of_mem_reads_subscribe hearly hrange
      exact htopic
    obtain ⟨htext, hcontext⟩ := not_or.mp hearly
    rw [mem_reads_subscribe_iff hadmitted htext (by simpa using hcontext)] at hrange
    rcases hrange with rfl | ⟨n, hn, rfl⟩ | ⟨-, rfl⟩
    · exact htopic
    · have hle := le_of_mem_comparedLengths hn
      simp only [scan] at hscan
      dsimp only
      omega
    · exact hscan
  · intro beyond
    have hsame : ∀ beyond, run w module ⟨memory.linear, beyond⟩ (subscribe topic) =
        some ({ ret := (w.ocreMessagingInit.subscribe module
            (stringAt 0 memory.linear topic.toNat)).1 },
          (w.ocreMessagingInit.subscribe module (stringAt 0 memory.linear topic.toNat)).2) := by
      intro beyond
      rw [run_subscribe hadmitted beyond, StringScan.stringAt_append_of_mem h]
    exact (hsame beyond).trans (hsame memory.beyond).symm

theorem confined_subscribe_of_no_context
    (hadmitted : (subscribe topic).admitted memory.linear.length = true)
    (h : w.hasContext module = false) : Confined w module memory (subscribe topic) := by
  have htopic : topic.toNat < memory.linear.length := by simpa [admitted] using hadmitted
  constructor
  · intro range hrange
    obtain rfl := start_of_mem_reads_subscribe (.inr h) hrange
    exact htopic
  · intro beyond
    have hsame : ∀ beyond, run w module ⟨memory.linear, beyond⟩ (subscribe topic) =
        some ({ ret := -22 }, w.ocreMessagingInit) := by
      intro beyond
      rw [run_subscribe hadmitted beyond]
      simp [ApiWorld.subscribe, ApiWorld.hasContext_ocreMessagingInit, h]
    exact (hsame beyond).trans (hsame memory.beyond).symm

/-- A topic that goes on beyond the linear memory. -/
structure RunsOn (linear : List UInt8) (topic : UInt32) : Prop where
  topicLt : topic.toNat < linear.length
  noNul : 0 ∉ linear.drop topic.toNat

namespace RunsOn

theorem stringAt_append (h : RunsOn memory.linear topic) (beyond : List UInt8) :
    stringAt 0 (memory.linear ++ beyond) topic.toNat =
      memory.linear.drop topic.toNat ++ stringAt 0 beyond 0 :=
  StringScan.stringAt_append_of_not_mem h.topicLt.le h.noNul

theorem stringAt_ne_nil (h : RunsOn memory.linear topic) (beyond : List UInt8) :
    stringAt 0 (memory.linear ++ beyond) topic.toNat ≠ [] := by
  intro hnil
  rw [h.stringAt_append, List.append_eq_nil_iff, List.drop_eq_nil_iff] at hnil
  exact absurd h.topicLt (Nat.not_lt.mpr hnil.1)

/-- Only a topic that begins with the rest of the linear memory can be the one asked for. -/
theorem not_isSubscribed (h : RunsOn memory.linear topic)
    (hdiffer : ∀ subscription ∈ subscriptions, subscription.isActive = true →
      subscription.moduleInst = some module →
        ¬ memory.linear.drop topic.toNat <+: subscription.topic) (beyond : List UInt8) :
    ¬ subscriptions.isSubscribed module
      (stringAt 0 (memory.linear ++ beyond) topic.toNat) = true := by
  intro hsubscribed
  obtain ⟨subscription, hmem, hcond⟩ := List.any_eq_true.mp hsubscribed
  obtain ⟨hactive, hmodule, heq⟩ := of_decide_eq_true hcond
  apply hdiffer subscription hmem hactive hmodule
  rw [heq, h.stringAt_append]
  exact List.prefix_append _ _

theorem compared_inside_iff (h : RunsOn memory.linear topic) (subscription : Subscription) :
    topic.toNat + compared subscription.topic (stringAt 0 memory.bytes topic.toNat) ≤
        memory.linear.length ↔
      ¬ memory.linear.drop topic.toNat <+: subscription.topic := by
  have hbytes : stringAt 0 memory.bytes topic.toNat =
      memory.linear.drop topic.toNat ++ stringAt 0 memory.beyond 0 := h.stringAt_append _
  rw [← StringScan.compared_append_le_iff _ _ (stringAt 0 memory.beyond 0), hbytes,
    List.length_drop]
  have hlt := h.topicLt
  omega

theorem mem_reads_subscribe_iff (h : RunsOn memory.linear topic)
    (hcontext : w.hasContext module = true) {range : ReadRange} :
    range ∈ (subscribe topic).reads w module memory ↔
      range = ⟨topic.toNat, 1⟩ ∨
        (∃ n ∈ comparedLengths module (stringAt 0 memory.bytes topic.toNat)
          w.ocreMessagingInit.subscriptions, ⟨topic.toNat, n⟩ = range) ∨
        (w.ocreMessagingInit.subscribe module (stringAt 0 memory.bytes topic.toNat)).1 = 0 ∧
          range = scan memory.bytes topic :=
  GuestCall.mem_reads_subscribe_iff (by simpa [admitted] using h.topicLt)
    (h.stringAt_ne_nil memory.beyond) hcontext

/-- It stays unread beyond the linear memory if each own topic differs from it before that,
and no slot is left to store it in. -/
theorem confined_subscribe_iff (h : RunsOn memory.linear topic)
    (hcontext : w.hasContext module = true) :
    Confined w module memory (subscribe topic) ↔
      w.ocreMessagingInit.subscriptions.hasFree = false ∧
        ∀ subscription ∈ w.ocreMessagingInit.subscriptions,
          subscription.isActive = true → subscription.moduleInst = some module →
            ¬ memory.linear.drop topic.toNat <+: subscription.topic := by
  have hcontext' : w.ocreMessagingInit.hasContext module = true := by
    rwa [ApiWorld.hasContext_ocreMessagingInit]
  have hne : stringAt 0 memory.bytes topic.toNat ≠ [] := h.stringAt_ne_nil memory.beyond
  constructor
  · intro hconfined
    have hret : ¬ (w.ocreMessagingInit.subscribe module
        (stringAt 0 memory.bytes topic.toNat)).1 = 0 := by
      intro hzero
      apply h.noNul
      apply (scan_inside_iff h.topicLt).mp
      apply hconfined.reads
      exact (h.mem_reads_subscribe_iff hcontext).mpr (.inr (.inr ⟨hzero, rfl⟩))
    have hsubscribed : ¬ w.ocreMessagingInit.subscriptions.isSubscribed module
        (stringAt 0 memory.bytes topic.toNat) = true := by
      intro hsubscribed
      exact hret (ApiWorld.subscribe_eq_zero hne hcontext' (.inl hsubscribed))
    constructor
    · by_contra hfree
      apply hret
      exact ApiWorld.subscribe_eq_zero hne hcontext' (.inr (by simpa using hfree))
    · intro subscription hmem hactive hmodule
      apply (h.compared_inside_iff subscription).mp
      apply hconfined.reads ⟨topic.toNat, _⟩
      apply (h.mem_reads_subscribe_iff hcontext).mpr
      refine .inr (.inl ⟨_, ?_, rfl⟩)
      exact (mem_comparedLengths_iff hsubscribed).mpr
        ⟨subscription, hmem, hactive, hmodule, rfl⟩
  · rintro ⟨hfull, hdiffer⟩
    have hcall : ∀ beyond, w.ocreMessagingInit.subscribe module
        (stringAt 0 (memory.linear ++ beyond) topic.toNat) = (-12, w.ocreMessagingInit) := by
      intro beyond
      exact ApiWorld.subscribe_of_full (h.stringAt_ne_nil beyond) hcontext'
        (h.not_isSubscribed hdiffer beyond) hfull
    constructor
    · intro range hrange
      rcases (h.mem_reads_subscribe_iff hcontext).mp hrange with rfl | ⟨n, hn, rfl⟩ | ⟨hzero, -⟩
      · exact h.topicLt
      · obtain ⟨subscription, hmem, hactive, hmodule, rfl⟩ :=
          (mem_comparedLengths_iff (h.not_isSubscribed hdiffer memory.beyond)).mp hn
        exact (h.compared_inside_iff subscription).mpr (hdiffer subscription hmem hactive hmodule)
      · have hret : (w.ocreMessagingInit.subscribe module
            (stringAt 0 memory.bytes topic.toNat)).1 = -12 :=
          congrArg Prod.fst (hcall memory.beyond)
        omega
    · intro beyond
      have hsame : ∀ beyond, run w module ⟨memory.linear, beyond⟩ (subscribe topic) =
          some ({ ret := -12 }, w.ocreMessagingInit) := by
        intro beyond
        rw [run_subscribe (by simpa [admitted] using h.topicLt) beyond, hcall]
      exact (hsame beyond).trans (hsame memory.beyond).symm

end RunsOn

end Subscribe

/-- A call reads the linear memory only, and what it does is decided by it, exactly if it
stays inside. -/
theorem confined_iff {maxTimers maxSubscriptions : ℕ}
    (hw : (apiSystem maxTimers maxSubscriptions).Reachable w) (module : ℕ) (memory : GuestMemory)
    (call : GuestCall) :
    Confined w module memory call ↔ call.StaysInside w module memory.linear := by
  by_cases hadmitted : call.admitted memory.linear.length = true
  swap
  · refine iff_of_true ⟨?_, ?_⟩ fun h ↦ absurd h hadmitted
    · intro range hrange
      unfold reads at hrange
      rw [if_pos hadmitted] at hrange
      exact absurd hrange List.not_mem_nil
    · intro beyond
      rw [run, if_neg hadmitted, run, if_neg hadmitted]
  unfold StaysInside
  rw [imp_iff_right hadmitted]
  cases call with
  | publish topic contentType payload payloadLen offsets =>
      by_cases hrefused : stringAt 0 memory.linear topic.toNat = [] ∨
          stringAt 0 memory.linear contentType.toNat = [] ∨ payloadLen ≤ 0
      · apply iff_of_true (confined_publish_of_refused hadmitted hrefused)
        rcases hrefused with htext | hkind | hlen
        · exact .inl htext
        · exact .inr (.inl hkind)
        · exact .inr (.inr (.inl hlen))
      · obtain ⟨htext, hrefused⟩ := not_or.mp hrefused
        obtain ⟨hkind, hlen⟩ := not_or.mp hrefused
        obtain ⟨htopic, hcontent, hpayload⟩ := lt_of_admitted_publish hadmitted
        rw [Accepted.confined_publish_iff ⟨htopic, hcontent, hpayload, htext, hkind, hlen⟩ hw]
        simp only [htext, hkind, hlen, false_or]
  | subscribe topic =>
      by_cases hzero : 0 ∈ memory.linear.drop topic.toNat
      · exact iff_of_true (confined_subscribe_of_mem hadmitted hzero) (.inl hzero)
      by_cases hcontext : w.hasContext module = false
      · exact iff_of_true (confined_subscribe_of_no_context hadmitted hcontext)
          (.inr (.inl hcontext))
      · have htopic : topic.toNat < memory.linear.length := by simpa [admitted] using hadmitted
        rw [RunsOn.confined_subscribe_iff ⟨htopic, hzero⟩ (by simpa using hcontext)]
        dsimp only
        rw [or_iff_right hzero, or_iff_right hcontext]

/-- A module listens to the topic `A`; another one is there. -/
def listenToA : List ApiAct :=
  [.instantiate 7 true true, .instantiate 8 true true, .native 7 (.subscribe (some [65]))]

/-- A publish on `A` of the last two bytes of the linear memory. -/
theorem confined_of_listenToA :
    ∃ w, (apiSystem 5 10).run (ApiWorld.initial 5 10) listenToA = some w ∧
      Confined w 8 ⟨[65, 0, 116, 0, 1, 2], [42]⟩ (publish 0 2 4 2 fun _ ↦ ⟨16, 32, 48⟩) := by
  have hsome : ((apiSystem 5 10).run (ApiWorld.initial 5 10) listenToA).isSome := by
    decide +kernel
  have hrun := (Option.some_get hsome).symm
  refine ⟨_, hrun, ?_⟩
  apply (confined_iff (StepSystem.Reachable.run (.start rfl) hrun) 8 _ _).mpr
  clear hrun
  decide +kernel +revert

/-- The payload goes on beyond the linear memory, and the listener gets what is there. -/
theorem not_confined_of_payload :
    ¬ ∀ w, (apiSystem 5 10).Reachable w → ∀ module memory call, Confined w module memory call := by
  intro h
  have hsome : ((apiSystem 5 10).run (ApiWorld.initial 5 10) listenToA).isSome := by
    decide +kernel
  have hrun := (Option.some_get hsome).symm
  have hconfined := h _ (StepSystem.Reachable.run (.start rfl) hrun) 8
    ⟨[65, 0, 116, 0, 1, 2], [42]⟩ (publish 0 2 5 2 fun _ ↦ ⟨16, 32, 48⟩)
  have hcopies := congrArg
    (Option.bind · fun r ↦ (r.2.modules 7).map ModuleInst.copies) (hconfined.sameOutcome [43])
  revert hcopies
  clear h hrun hconfined
  decide +kernel +revert

end GuestCall

end OcreRuntime
