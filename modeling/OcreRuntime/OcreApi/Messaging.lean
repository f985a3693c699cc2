import OcreRuntime.Container.Model
import OcreRuntime.OcreApi.Events

/-!
# Subscriptions and messages

The subscription table of `ocre_messaging.c`, whose length is
`CONFIG_OCRE_MESSAGING_MAX_SUBSCRIPTIONS`, and the loop of `ocre_messaging_publish`. A copy
in the memory of a module instance is an offset with its bytes; the allocator gives an
offset that is not 0 and not in use, or fails with 0.
-/

namespace OcreRuntime

open Function (update)

inductive OcreResourceType
  | timer
  | gpio
  | sensor
  | messaging
  deriving DecidableEq

/-- `ocre_messaging_subscription_t`; the topic is the string in the array. -/
structure Subscription where
  topic : CString := []
  moduleInst : Option ℕ := none
  isActive : Bool := false
  deriving DecidableEq

def ocreMaxTopicLen : ℕ := 64

abbrev SubscriptionTable := List Subscription

namespace SubscriptionTable

/-- The first loop of `ocre_messaging_subscribe`. -/
def isSubscribed (subscriptions : SubscriptionTable) (module : ℕ) (topic : CString) : Bool :=
  subscriptions.any fun subscription ↦
    subscription.isActive ∧ subscription.moduleInst = some module ∧ subscription.topic = topic

/-- The second loop, which stores in the first free slot; none if there is no such slot. -/
def storeFree (new : Subscription) : SubscriptionTable → Option SubscriptionTable
  | [] => none
  | subscription :: subscriptions =>
      if ¬ subscription.isActive then some (new :: subscriptions)
      else (storeFree new subscriptions).map (subscription :: ·)

/-- What a subscription stores; `strncpy` keeps the first 63 characters. -/
def newSubscription (module : ℕ) (topic : CString) : Subscription :=
  ⟨topic.take (ocreMaxTopicLen - 1), some module, true⟩

/-- The loop of `ocre_messaging_cleanup_container`. -/
def cleanupContainer (subscriptions : SubscriptionTable) (module : ℕ) : SubscriptionTable :=
  subscriptions.map fun subscription ↦
    if subscription.isActive ∧ subscription.moduleInst = some module then {} else subscription

/-- The slots that a clean-up releases. -/
def heldBy (subscriptions : SubscriptionTable) (module : ℕ) : ℕ :=
  subscriptions.countP fun subscription ↦
    subscription.isActive ∧ subscription.moduleInst = some module

end SubscriptionTable

/-- `ocre_module_context_t`, as far as the resources go. -/
structure ModuleContext where
  resourceCount : OcreResourceType → UInt32

/-- How far the thread of an instance has come: it runs `main`; it goes through the clean-up
handlers, a second time when it unregisters; or only its deinstantiation is left. -/
inductive ModulePhase
  | main
  | cleaning (unregistering : Bool) (todo : List OcreResourceType)
  | ended
  deriving DecidableEq

/-- A module instance: whether it has the capability `ocre:api`, its custom data, and the
copies in its memory. The code reads neither its serial number nor the record of all
offsets that were allocated for copies. -/
structure ModuleInst where
  usesOcreApi : Bool
  serial : ℕ
  context : Option ModuleContext
  phase : ModulePhase
  copies : List (UInt32 × List UInt8)
  allocated : List UInt32

namespace ModuleInst

/-- `wasm_runtime_module_dup_data`, when it succeeds. -/
def dupData (inst : ModuleInst) (offset : UInt32) (bytes : List UInt8) : ModuleInst :=
  { inst with
    copies := inst.copies ++ [(offset, bytes)]
    allocated := inst.allocated ++ [offset] }

/-- `wasm_runtime_module_free`. -/
def free (inst : ModuleInst) (offset : UInt32) : ModuleInst :=
  { inst with copies := inst.copies.filter (·.1 ≠ offset) }

end ModuleInst

/-- The arguments of a publish that have passed their checks. -/
structure Message where
  topic : CString
  contentType : CString
  payload : List UInt8
  payloadLen : Int

/-- What the three allocations of one slot return. -/
structure DupOffsets where
  topic : UInt32
  contentType : UInt32
  payload : UInt32

/-- The arguments that the loop reads to their end: a string when its length is taken, the
payload when it is copied. -/
inductive PublishRead
  | topic
  | contentType
  | payload
  deriving DecidableEq

/-- The state of the loop, with the events that it has created and those that the queue
has taken. -/
structure PublishState where
  modules : ℕ → Option ModuleInst
  events : EventApi
  created : List OcreEvent
  queued : List OcreEvent
  reads : List PublishRead

namespace PublishState

def storeModule (st : PublishState) (target : ℕ) (inst : ModuleInst) : PublishState :=
  { st with modules := update st.modules target (some inst) }

def read (st : PublishState) (what : PublishRead) : PublishState :=
  { st with reads := st.reads ++ [what] }

end PublishState

def Message.event (message : Message) (messageId : UInt32) (offsets : DupOffsets) (target : ℕ) :
    OcreEvent :=
  ⟨.messaging messageId offsets.topic offsets.contentType offsets.payload
    message.payloadLen.toNat.toUInt32, target⟩

/-- The body of the loop for a matching slot with a target. -/
def publishTo (message : Message) (messageId : UInt32) (offsets : DupOffsets) (target : ℕ)
    (inst : ModuleInst) (st : PublishState) : Option PublishState :=
  let st := st.read .topic
  if offsets.topic = 0 then some st
  else
    let inst := inst.dupData offsets.topic (message.topic ++ [0])
    let st := st.read .contentType
    if offsets.contentType = 0 then some (st.storeModule target (inst.free offsets.topic))
    else
      let inst := inst.dupData offsets.contentType (message.contentType ++ [0])
      if offsets.payload = 0 then
        some (st.storeModule target ((inst.free offsets.topic).free offsets.contentType))
      else
        let st := st.read .payload
        let inst := inst.dupData offsets.payload message.payload
        let event := message.event messageId offsets target
        (st.events.put event).map fun (accepted, events) ↦
          if accepted then
            { st.storeModule target inst with
              events := events, created := st.created ++ [event], queued := st.queued ++ [event] }
          else
            let inst := ((inst.free offsets.topic).free offsets.contentType).free offsets.payload
            { st.storeModule target inst with
              events := events, created := st.created ++ [event] }

/-- Whether a slot is one that a publish creates an event for. -/
def Subscription.isMatch (subscription : Subscription) (topic : CString) : Bool :=
  subscription.isActive ∧ subscription.topic <+: topic

/-- The loop of `ocre_messaging_publish`, from a slot on; a target that is not instantiated
any more makes it undefined. -/
def publishLoop (message : Message) (messageId : UInt32) (offsets : ℕ → DupOffsets) :
    ℕ → SubscriptionTable → PublishState → Option PublishState
  | _, [], st => some st
  | i, subscription :: subscriptions, st =>
      if ¬ subscription.isMatch message.topic then
        publishLoop message messageId offsets (i + 1) subscriptions st
      else match subscription.moduleInst with
        | none => publishLoop message messageId offsets (i + 1) subscriptions st
        | some target => match st.modules target with
            | none => none
            | some inst => (publishTo message messageId (offsets i) target inst st).bind
                (publishLoop message messageId offsets (i + 1) subscriptions)

end OcreRuntime
