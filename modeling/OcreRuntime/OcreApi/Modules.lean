import OcreRuntime.Lib.PartialMap
import OcreRuntime.Lib.StepSystem
import OcreRuntime.OcreApi.Messaging
import OcreRuntime.OcreApi.Timer

/-!
# The native API and the life of module instances

A module instance is created by its thread, calls natives while `main` runs, goes through
the clean-up handlers if it has the capability `ocre:api`, and is deinstantiated. Its
address is free again then. Timers expire at any time; an expiry is first dispatched and
then handled. The natives are there for every module.
-/

namespace OcreRuntime

open Function (update)
open PartialMap (modify)

def ocreResourceTypes : List OcreResourceType := [.timer, .gpio, .sensor, .messaging]

namespace ModuleInst

def new (usesOcreApi malloc : Bool) (serial : ℕ) : ModuleInst where
  usesOcreApi := usesOcreApi
  serial := serial
  context := if usesOcreApi ∧ malloc then some ⟨fun _ ↦ 0⟩ else none
  phase := .main
  copies := []
  allocated := []

/-- `ocre_increment_resource_count`. -/
def incrementResourceCount (type : OcreResourceType) (inst : ModuleInst) : ModuleInst :=
  { inst with context := inst.context.map fun ctx ↦
      ⟨update ctx.resourceCount type (ctx.resourceCount type + 1)⟩ }

/-- `ocre_decrement_resource_count`, a number of times. -/
def decrementResourceCount (type : OcreResourceType) (k : ℕ) (inst : ModuleInst) : ModuleInst :=
  { inst with context := inst.context.map fun ctx ↦
      ⟨update ctx.resourceCount type ((ctx.resourceCount type).toNat - k).toUInt32⟩ }

end ModuleInst

/-- The static objects behind the natives and the module instances by their addresses.
`notifications` has a slot for each dispatched expiry of its timer, and `instantiated`
counts the instances there have been. -/
structure ApiWorld where
  events : EventApi
  timers : TimerTable
  subscriptions : SubscriptionTable
  subscriptionCount : UInt16
  messageId : UInt32
  modules : ℕ → Option ModuleInst
  instantiated : ℕ
  notifications : List ℕ

structure PublishArgs where
  topic : Option CString
  contentType : Option CString
  payload : Option (List UInt8)
  payloadLen : Int

/-- The checks of `ocre_messaging_publish`, on NULL and empty strings and on the length. -/
def PublishArgs.message (args : PublishArgs) : Option Message :=
  match args.topic, args.contentType, args.payload with
  | some (c :: topic), some (d :: contentType), some payload =>
      if args.payloadLen ≤ 0 then none
      else some ⟨c :: topic, d :: contentType, payload, args.payloadLen⟩
  | _, _, _ => none

/-- A call by a module, with what the platform and the allocator answer; `none` is NULL. -/
inductive NativeCall
  | timerCreate (id coreInit : Int)
  | timerDelete (id : Int)
  | timerStart (id interval isPeriodic : Int) (uptime : UInt32) (coreStart : Int)
  | timerStop (id : Int)
  | timerGetRemaining (id : Int) (uptime : UInt32)
  | subscribe (topic : Option CString)
  | publish (args : PublishArgs) (offsets : ℕ → DupOffsets)
  | freeModuleEventData (topic contentType payload : UInt32)
  | getEvent (offsets : Bool)

structure NativeResult where
  ret : Int
  words : Option EventWords := none
  created : List OcreEvent := []
  queued : List OcreEvent := []
  reads : List PublishRead := []

/-- What a module sees of `ocre_get_event`. -/
def NativeResult.ofGetEvent : Except Int (Option EventWords) → NativeResult
  | .ok words => { ret := 0, words := words }
  | .error code => { ret := code }

inductive ApiAct
  | instantiate (module : ℕ) (usesOcreApi malloc : Bool)
  | native (module : ℕ) (call : NativeCall)
  | returnMain (module : ℕ)
  | cleanup (module : ℕ)
  | deinstantiate (module : ℕ)
  | expire (slot : ℕ)
  | notify (slot : ℕ) (uptime : UInt32)

def OcreTimer.event (timer : OcreTimer) (owner : ℕ) : OcreEvent :=
  ⟨.timer timer.id.toUInt32, owner⟩

namespace ApiWorld

variable (w : ApiWorld)

/-- `ocre_get_module_context` finds a context. -/
def hasContext (module : ℕ) : Bool := ((w.modules module).bind ModuleInst.context).isSome

/-- `ocre_timer_create` with its resource count. -/
def ocreTimerCreate (module : ℕ) (id coreInit : Int) : Int × ApiWorld :=
  let r := w.timers.ocreTimerCreate module id coreInit
  (r.1, { w with
    timers := r.2
    modules := if r.1 = 0 then modify w.modules module (.incrementResourceCount .timer)
      else w.modules })

/-- `ocre_timer_delete` with its resource count. -/
def ocreTimerDelete (module : ℕ) (id : Int) : Int × ApiWorld :=
  let r := w.timers.ocreTimerDelete module id
  (r.1, { w with
    timers := r.2
    modules := if r.1 = 0 then modify w.modules module (.decrementResourceCount .timer 1)
      else w.modules })

def ocreMessagingInit : ApiWorld :=
  if w.events.messagingSystemInitialized then w
  else { w with
    subscriptions := w.subscriptions.map fun _ ↦ {}
    subscriptionCount := 0
    events := { w.events with messagingSystemInitialized := true } }

/-- `ocre_messaging_subscribe`, from its checks on. -/
def subscribe (module : ℕ) (topic : CString) : Int × ApiWorld :=
  if topic = [] then (-22, w)
  else if ¬ w.hasContext module then (-22, w)
  else if w.subscriptions.isSubscribed module topic then (0, w)
  else match w.subscriptions.storeFree (SubscriptionTable.newSubscription module topic) with
    | none => (-12, w)
    | some subscriptions =>
        (0, { w with
          subscriptions := subscriptions
          subscriptionCount := w.subscriptionCount + 1
          modules := modify w.modules module (.incrementResourceCount .messaging) })

def ocreMessagingSubscribe (module : ℕ) (topic : Option CString) : Int × ApiWorld :=
  w.ocreMessagingInit.subscribe module (topic.getD [])

/-- `ocre_messaging_publish`, after its checks. -/
def publish (message : Message) (offsets : ℕ → DupOffsets) : Option (NativeResult × ApiWorld) :=
  (publishLoop message w.messageId offsets 0 w.subscriptions ⟨w.modules, w.events, [], [], []⟩).map
    fun st ↦
      let w := { w with modules := st.modules, events := st.events }
      if st.queued ≠ [] then
        (⟨0, none, st.created, st.queued, st.reads⟩, { w with messageId := w.messageId + 1 })
      else (⟨-2, none, st.created, st.queued, st.reads⟩, w)

def ocreMessagingPublish (args : PublishArgs) (offsets : ℕ → DupOffsets) :
    Option (NativeResult × ApiWorld) :=
  match args.message with
  | none => some ({ ret := -22 }, w.ocreMessagingInit)
  | some message => w.ocreMessagingInit.publish message offsets

def ocreMessagingFreeModuleEventData (module : ℕ) (topic contentType payload : UInt32) :
    ApiWorld :=
  { w with modules := modify w.modules module fun inst ↦
      ((inst.free topic).free contentType).free payload }

def ocreGetEvent (module : ℕ) (offsets : Bool) : Option (NativeResult × ApiWorld) :=
  (w.events.ocreGetEvent (some module) offsets).map fun r ↦
    (.ofGetEvent r.1, { w with events := r.2 })

/-- A call of a native by a module; none if it is undefined. -/
def call (module : ℕ) : NativeCall → Option (NativeResult × ApiWorld)
  | .timerCreate id coreInit =>
      let r := w.ocreTimerCreate module id coreInit
      some ({ ret := r.1 }, r.2)
  | .timerDelete id =>
      let r := w.ocreTimerDelete module id
      some ({ ret := r.1 }, r.2)
  | .timerStart id interval isPeriodic uptime coreStart =>
      let r := w.timers.ocreTimerStart module id interval isPeriodic uptime coreStart
      some ({ ret := r.1 }, { w with timers := r.2 })
  | .timerStop id =>
      let r := w.timers.ocreTimerStop module id
      some ({ ret := r.1 }, { w with timers := r.2 })
  | .timerGetRemaining id uptime =>
      some ({ ret := w.timers.ocreTimerGetRemaining module id uptime }, w)
  | .subscribe topic =>
      let r := w.ocreMessagingSubscribe module topic
      some ({ ret := r.1 }, r.2)
  | .publish args offsets => w.ocreMessagingPublish args offsets
  | .freeModuleEventData topic contentType payload =>
      some ({ ret := 0 }, w.ocreMessagingFreeModuleEventData module topic contentType payload)
  | .getEvent offsets => w.ocreGetEvent module offsets

/-- The clean-up handler of a type, if it is registered. -/
def cleanupHandler (module : ℕ) : OcreResourceType → ApiWorld
  | .timer =>
      if ¬ w.events.timerSystemInitialized then w
      else { w with
        timers := w.timers.ocreTimerCleanupContainer module
        modules := modify w.modules module
          (.decrementResourceCount .timer (w.timers.heldBy module)) }
  | .messaging =>
      if ¬ w.events.messagingSystemInitialized then w
      else
        let held := w.subscriptions.heldBy module
        { w with
          subscriptions := w.subscriptions.cleanupContainer module
          subscriptionCount := w.subscriptionCount - held.toUInt16
          modules := modify w.modules module (.decrementResourceCount .messaging held) }
  | .gpio | .sensor => w

def setPhase (module : ℕ) (phase : ModulePhase) : ApiWorld :=
  { w with modules := modify w.modules module fun inst ↦ { inst with phase := phase } }

def timer (slot : ℕ) : OcreTimer := w.timers[slot]?.getD {}

/-- `unified_timer_callback` for the timer of a slot, with the event that it queues. -/
def unifiedTimerCallback (slot : ℕ) (uptime : UInt32) : Option (List OcreEvent × ApiWorld) :=
  let timer := w.timer slot
  if ¬ w.events.timerSystemInitialized ∨ ¬ w.events.commonInitialized ∨
      ¬ w.events.ocreEventQueueInitialized ∨ ¬ timer.inUse then some ([], w)
  else match timer.owner with
    | none => some ([], w)
    | some owner =>
        (w.events.put (timer.event owner)).map fun r ↦
          (if r.1 then [timer.event owner] else [],
            { w with timers := w.timers.set slot (timer.fired uptime), events := r.2 })

/-- The next step of the thread of a module, once its main function has returned: one
handler, the end of a pass over them, or the end of the second pass. -/
def cleanup (module : ℕ) : ModulePhase → Option ApiWorld
  | .cleaning unregistering (type :: types) =>
      some ((w.cleanupHandler module type).setPhase module (.cleaning unregistering types))
  | .cleaning false [] => some (w.setPhase module (.cleaning true ocreResourceTypes))
  | .cleaning true [] =>
      some { w with modules := modify w.modules module fun inst ↦
        { inst with context := none, phase := .ended } }
  | _ => none

/-- The start of `instance_execute`; `malloc` decides whether there is a module context. -/
def instantiate (module : ℕ) (usesOcreApi malloc : Bool) : ApiWorld :=
  { w with
    modules := update w.modules module (some (.new usesOcreApi malloc w.instantiated))
    instantiated := w.instantiated + 1 }

/-- `wasm_runtime_deinstantiate`. -/
def deinstantiate (module : ℕ) : ApiWorld :=
  { w with modules := update w.modules module none }

def perform : ApiAct → Option (NativeResult × ApiWorld)
  | .instantiate module usesOcreApi malloc =>
      if (w.modules module).isSome then none
      else some ({ ret := 0 }, w.instantiate module usesOcreApi malloc)
  | .native module call =>
      (w.modules module).bind fun inst ↦
        if inst.phase ≠ .main then none else w.call module call
  | .returnMain module =>
      (w.modules module).bind fun inst ↦
        if inst.phase ≠ .main then none
        else some ({ ret := 0 }, w.setPhase module
          (if inst.usesOcreApi then .cleaning false ocreResourceTypes else .ended))
  | .cleanup module =>
      (w.modules module).bind fun inst ↦ (w.cleanup module inst.phase).map ({ ret := 0 }, ·)
  | .deinstantiate module =>
      (w.modules module).bind fun inst ↦
        if inst.phase ≠ .ended then none
        else some ({ ret := 0 }, w.deinstantiate module)
  | .expire slot =>
      w.timers[slot]?.bind fun timer ↦
        if ¬ timer.timer.armed then none
        else some ({ ret := 0 }, { w with
          timers := w.timers.set slot { timer with timer := timer.timer.expire }
          notifications := w.notifications ++ [slot] })
  | .notify slot uptime =>
      if slot ∉ w.notifications then none
      else
        let w := { w with notifications := w.notifications.erase slot }
        (w.unifiedTimerCallback slot uptime).map fun r ↦ ({ ret := 0, queued := r.1 }, r.2)

/-- After the initialisation of the runtime. -/
def initial (maxTimers maxSubscriptions : ℕ) : ApiWorld where
  events := EventApi.initial
  timers := List.replicate maxTimers {}
  subscriptions := List.replicate maxSubscriptions {}
  subscriptionCount := 0
  messageId := 0
  modules _ := none
  instantiated := 0
  notifications := []

end ApiWorld

/-- The native API in use, for the numbers of timers and subscriptions in the
configuration. -/
def apiSystem (maxTimers maxSubscriptions : ℕ) : StepSystem ApiWorld ApiAct where
  init := (· = ApiWorld.initial maxTimers maxSubscriptions)
  next a w := (w.perform a).map Prod.snd

end OcreRuntime
