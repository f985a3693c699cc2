import Mathlib.Data.List.Basic

/-!
# The container and its mutex-protected sections

One definition for each `ocre_container_*` operation, giving what it does between
`pthread_mutex_lock` and `pthread_mutex_unlock`. Both calls succeed: the mutex is
an initialised default mutex and is unlocked by its owner. What the other library
calls and the runtime engine return comes in as arguments.
-/

namespace OcreRuntime

/-- A C string, without its terminating NUL. -/
abbrev CString := List UInt8

/-- A string literal of the source; all of them are ASCII. -/
def cstring (s : String) : CString := s.toList.map fun c ↦ c.toNat.toUInt8

inductive OcreContainerStatus
  | unknown
  | created
  | running
  | paused
  | exited
  | stopped
  | error
  deriving DecidableEq, Repr

/-- The enumerators in the order of `ocre_container_status_t`. -/
def OcreContainerStatus.code : OcreContainerStatus → Int
  | unknown => 0
  | created => 1
  | running => 2
  | paused => 3
  | exited => 4
  | stopped => 5
  | error => 6

/-- The functions of `struct ocre_runtime_vtable` that a created container uses.
Those the container checks against NULL are options. `Ctx` is what
`runtime_context` points to, and `Ext` what a runtime call finds outside it. The
function `thread_execute` is given by its program points: an entry, one step,
which may post to the semaphore it was given, and the points where it returns. -/
structure OcreRuntimeVtable (Point Ctx Ext : Type) where
  threadEntry : Point
  threadExecute : Ext → Point → Ctx → Point × Ctx × Bool
  threadResult : Point → Option Int
  stop : Option (Ext → Ctx → Ctx × Int)
  kill : Ext → Ctx → Ctx × Int
  pause : Option (Ext → Ctx → Ctx × Int)
  unpause : Option (Ext → Ctx → Ctx × Int)

/-- `struct ocre_container`, without the mutex and the condition variable. The
value of `sem_start` is the length of `semStart`; each pending post is recorded
as the thread that made it. `attr` tells whether the attribute object is
initialised, and `thread` is the handle that `pthread_create` stored last. -/
structure OcreContainer (Ctx : Type) where
  id : CString
  image : CString
  detached : Bool
  status : OcreContainerStatus
  semStart : List ℕ
  runtimeContext : Ctx
  thread : ℕ
  attr : Bool
  argv : Option (List CString)
  envp : Option (List CString)
  exitCode : Int

section Sections

variable {Point Ctx Ext : Type} (V : OcreRuntimeVtable Point Ctx Ext)

/-- `ocre_container_status_locked`, where `joinRc` is what `pthread_join` returns
if it is called. -/
def ocreContainerStatusLocked (joinRc : Int) (c : OcreContainer Ctx) :
    OcreContainerStatus × OcreContainer Ctx :=
  if c.status = .exited then
    if joinRc ≠ 0 then (.unknown, c)
    else (.stopped, { c with attr := false, status := .stopped })
  else (c.status, c)

/-- What the calls made by `ocre_container_start` under the mutex return:
`pthread_attr_init`, `malloc` (true for a block) and `pthread_create`. -/
structure StartCalls where
  attrInit : Int := 0
  malloc : Bool := true
  pthreadCreate : Int := 0

/-- How the section of a start call ends: at `error_mutex` because the status is
not one to start from, at one of the error labels after that, or with a thread. -/
inductive StartOutcome
  | refused
  | failed
  | threadCreated
  deriving DecidableEq, Repr

/-- `ocre_container_start` up to its unlock; `tid` is the handle that a successful
`pthread_create` stores. The store of ERROR at `error_status` comes later. -/
def ocreContainerStart (joinRc : Int) (calls : StartCalls) (tid : ℕ)
    (c : OcreContainer Ctx) : StartOutcome × OcreContainer Ctx :=
  let (status, c) := ocreContainerStatusLocked joinRc c
  if status ≠ .created ∧ status ≠ .stopped then (.refused, c)
  else if calls.attrInit ≠ 0 then (.failed, c)
  else if calls.malloc = false then (.failed, { c with attr := false })
  else if calls.pthreadCreate ≠ 0 then
    -- error_params: RUNNING has been stored already and stays until error_status
    (.failed, { c with attr := false, status := .running })
  else (.threadCreated, { c with attr := true, status := .running, thread := tid })

/-- The common body of stop, kill, pause and unpause: refuse unless the status is
`allowed` and the runtime has the function, and store `next` when it returns 0. -/
def signalLocked (allowed : OcreContainerStatus) (f : Option (Ext → Ctx → Ctx × Int))
    (next : OcreContainerStatus) (ext : Ext) (c : OcreContainer Ctx) :
    Int × OcreContainer Ctx :=
  if c.status ≠ allowed then (-1, c)
  else match f with
    | none => (-1, c)
    | some f =>
        let (ctx, ret) := f ext c.runtimeContext
        if ret ≠ 0 then (ret, { c with runtimeContext := ctx })
        else (ret, { c with runtimeContext := ctx, status := next })

def ocreContainerStop (ext : Ext) (c : OcreContainer Ctx) : Int × OcreContainer Ctx :=
  signalLocked .running V.stop .running ext c

def ocreContainerKill (ext : Ext) (c : OcreContainer Ctx) : Int × OcreContainer Ctx :=
  signalLocked .running (some V.kill) .running ext c

def ocreContainerPause (ext : Ext) (c : OcreContainer Ctx) : Int × OcreContainer Ctx :=
  signalLocked .running V.pause .paused ext c

def ocreContainerUnpause (ext : Ext) (c : OcreContainer Ctx) : Int × OcreContainer Ctx :=
  signalLocked .paused V.unpause .running ext c

/-- The value a wait call returns and what it stored through its status pointer. -/
structure WaitResult where
  ret : Int
  written : Option Int
  deriving DecidableEq, Repr

/-- `ocre_container_wait` from the test for EXITED on; `dst` tells whether the
caller passed a status pointer. -/
def ocreContainerWaitTail (joinRc : Int) (dst : Bool) (c : OcreContainer Ctx) :
    WaitResult × OcreContainer Ctx :=
  let collected :=
    if c.status = .exited then
      let (status, c) := ocreContainerStatusLocked joinRc c
      if status ≠ .stopped then none else some c
    else some c
  match collected with
  | none => (⟨-1, none⟩, c)
  | some c =>
      if c.status = .stopped then
        (⟨0, if dst then some c.exitCode else none⟩, c)
      else (⟨0, none⟩, c)

/-- `ocre_container_wait` up to its unlock or to `pthread_cond_wait`, whose return
value is `condRc`. No result means that the caller blocks on the condition. -/
def ocreContainerWait (joinRc condRc : Int) (dst : Bool) (c : OcreContainer Ctx) :
    Option WaitResult × OcreContainer Ctx :=
  if c.status = .unknown ∨ c.status = .created then (some ⟨-1, none⟩, c)
  else if c.status = .running then
    if condRc ≠ 0 then (some ⟨-1, none⟩, c) else (none, c)
  else
    let (result, c) := ocreContainerWaitTail joinRc dst c
    (some result, c)

def ocreContainerGetStatus (joinRc : Int) (c : OcreContainer Ctx) :
    OcreContainerStatus × OcreContainer Ctx :=
  ocreContainerStatusLocked joinRc c

/-- The section in which `container_thread` records the end of its run. -/
def containerThreadExit (result : Int) (c : OcreContainer Ctx) : OcreContainer Ctx :=
  { c with status := .exited, exitCode := result }

end Sections

end OcreRuntime
