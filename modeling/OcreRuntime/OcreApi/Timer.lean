import Mathlib.Data.List.Basic

/-!
# The timer table

The functions of `ocre_timer.c` on the table `timers`, whose length is
`CONFIG_OCRE_MAX_TIMERS`, and the core timer of a slot. A module instance is known by its
address. What the functions do to the resource counts and to the event queue is left to
their callers.
-/

namespace OcreRuntime

/-- `core_timer_t` as `timer_create` and `timer_settime` see it: the timer exists, it is
armed, and after an expiry it is armed again with a period that is not 0. -/
structure CoreTimer where
  created : Bool := false
  armed : Bool := false
  periodMs : ℕ := 0
  deriving DecidableEq

/-- `ocre_timer_internal`; the bit-fields keep 8, 16 and 1 bits. -/
structure OcreTimer where
  inUse : Bool := false
  id : ℕ := 0
  interval : ℕ := 0
  periodic : Bool := false
  running : Bool := false
  startTime : UInt32 := 0
  timer : CoreTimer := {}
  owner : Option ℕ := none
  deriving DecidableEq

/-- An expiry of an armed core timer. -/
def CoreTimer.expire (timer : CoreTimer) : CoreTimer :=
  { timer with armed := timer.periodMs ≠ 0 }

/-- `core_timer_stop` and `core_timer_delete`. -/
def CoreTimer.stop (timer : CoreTimer) : CoreTimer := { timer with armed := false, periodMs := 0 }

def CoreTimer.delete (timer : CoreTimer) : CoreTimer :=
  { timer with created := false, armed := false, periodMs := 0 }

/-- What deletion and clean-up make of a slot. -/
def OcreTimer.released (timer : OcreTimer) : OcreTimer :=
  { timer with inUse := false, running := false, owner := none, timer := timer.timer.stop.delete }

/-- What `unified_timer_callback` does to its slot, at an uptime, when it does not skip. -/
def OcreTimer.fired (timer : OcreTimer) (uptime : UInt32) : OcreTimer :=
  if timer.periodic then { timer with startTime := uptime } else { timer with running := false }

abbrev TimerTable := List OcreTimer

namespace TimerTable

/-- The slot of an ID that has passed its range check. -/
def slot (timers : TimerTable) (id : Int) : OcreTimer := timers[id.toNat - 1]?.getD {}

def store (timers : TimerTable) (id : Int) (timer : OcreTimer) : TimerTable :=
  timers.set (id.toNat - 1) timer

def validId (timers : TimerTable) (id : Int) : Bool := 0 < id ∧ id ≤ timers.length

/-- `ocre_timer_create`, where `coreInit` is what `core_timer_init` returns. -/
def ocreTimerCreate (timers : TimerTable) (module : ℕ) (id coreInit : Int) : Int × TimerTable :=
  if ¬ timers.validId id then (-22, timers)
  else
    let timer := timers.slot id
    if timer.inUse then (-16, timers)
    else
      let timer := { timer with id := id.toNat % 256, owner := some module, inUse := true }
      if coreInit ≠ 0 then (-22, timers.store id { timer with inUse := false })
      else (0, timers.store id { timer with timer := ⟨true, false, 0⟩ })

/-- The checks of the functions on an existing timer: it is in use and owned by the module. -/
def owned (timers : TimerTable) (module : ℕ) (id : Int) : Bool :=
  timers.validId id ∧ (timers.slot id).inUse ∧ (timers.slot id).owner = some module

def ocreTimerDelete (timers : TimerTable) (module : ℕ) (id : Int) : Int × TimerTable :=
  if ¬ timers.owned module id then (-22, timers)
  else (0, timers.store id (timers.slot id).released)

/-- `ocre_timer_start`, at an uptime, where `coreStart` is what `core_timer_start` returns. -/
def ocreTimerStart (timers : TimerTable) (module : ℕ) (id interval isPeriodic : Int)
    (uptime : UInt32) (coreStart : Int) : Int × TimerTable :=
  if ¬ timers.owned module id then (-22, timers)
  else if interval ≤ 0 ∨ interval > 65535 then (-22, timers)
  else
    let timer := { timers.slot id with
      interval := interval.toNat % 65536
      periodic := isPeriodic % 2 = 1
      startTime := uptime
      running := true }
    if coreStart ≠ 0 then (-22, timers.store id { timer with running := false })
    else (0, timers.store id { timer with
      timer := { timer.timer with
        armed := true, periodMs := if isPeriodic ≠ 0 then interval.toNat else 0 } })

def ocreTimerStop (timers : TimerTable) (module : ℕ) (id : Int) : Int × TimerTable :=
  if ¬ timers.owned module id then (-22, timers)
  else
    let timer := timers.slot id
    (0, timers.store id { timer with timer := timer.timer.stop, running := false })

/-- `ocre_timer_get_remaining`, at an uptime. -/
def ocreTimerGetRemaining (timers : TimerTable) (module : ℕ) (id : Int) (uptime : UInt32) : Int :=
  if ¬ timers.owned module id then -22
  else
    let timer := timers.slot id
    if ¬ timer.running then 0
    else
      let elapsed := (uptime - timer.startTime).toNat
      if elapsed ≥ timer.interval then 0 else timer.interval - elapsed

def ocreTimerCleanupContainer (timers : TimerTable) (module : ℕ) : TimerTable :=
  timers.map fun timer ↦
    if timer.inUse ∧ timer.owner = some module then timer.released else timer

/-- The slots that a clean-up releases. -/
def heldBy (timers : TimerTable) (module : ℕ) : ℕ :=
  timers.countP fun timer ↦ timer.inUse ∧ timer.owner = some module

end TimerTable

end OcreRuntime
