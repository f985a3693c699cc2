import Mathlib.Logic.Function.Basic
import OcreRuntime.Lib.StepSystem
import OcreRuntime.Container.Model

/-!
# API calls on one container interleaved with its threads

Each mutex-protected section is one step, and each access made without the mutex
is a step of its own. Any number of calls may be in flight; a call is named by a
number that is used once. Every thread that `pthread_create` made is kept, with
the number of its posts and of the `pthread_join` calls on it.

A removal holds the context mutex, or is made by the destruction of the context, so at
most one `ocre_container_destroy` of the container is in progress. When it has freed the
container there are no more steps.
-/

namespace OcreRuntime

/-- A thread executes the runtime function, then runs its exit section. -/
inductive ThreadPhase (Point : Type)
  | absent
  | live (point : Point)
  | exited (result : Int)

structure Thread (Point : Type) where
  phase : ThreadPhase Point := .absent
  posts : ℕ := 0
  joins : ℕ := 0

def Thread.isExited {Point : Type} (t : Thread Point) : Bool :=
  match t.phase with
  | .exited _ => true
  | _ => false

/-- Who called `ocre_container_wait`: a user, with or without a status pointer, or
the start of a container that is not detached. -/
inductive WaitCaller
  | user (dst : Bool)
  | start
  deriving DecidableEq, Repr

/-- Where a call stands between two steps. `errorStatus` is a start call that has
released the mutex and will store ERROR, with whether it had been admitted.
`condWait` and `woken` record how many threads had been created at the call. -/
inductive CallState
  | idle
  | semWait (tid : ℕ)
  | errorStatus (admitted : Bool)
  | waitCall
  | condWait (caller : WaitCaller) (run : ℕ)
  | woken (caller : WaitCaller) (run : ℕ)
  | destroyJoin
  | destroyStore
  | destroyCheck
  | destroyFree
  | returned (ret : Int) (written : Option Int)
  deriving DecidableEq, Repr

/-- The states of a removal, of which there is one at a time. -/
def CallState.isRemoving : CallState → Bool
  | destroyJoin | destroyStore | destroyCheck | destroyFree => true
  | _ => false

def WaitCaller.dst : WaitCaller → Bool
  | user dst => dst
  | start => false

/-- What the caller of `ocre_container_wait` makes of its result. -/
def WaitCaller.finish : WaitCaller → WaitResult → CallState
  | user _, r => .returned r.ret r.written
  | start, r => .returned (if r.ret ≠ 0 then -1 else 0) none

/-- A call that has no result yet blocks on the condition. -/
def WaitCaller.proceed (caller : WaitCaller) (run : ℕ) : Option WaitResult → CallState
  | none => .condWait caller run
  | some r => caller.finish r

structure ContainerWorld (Point Ctx : Type) where
  container : OcreContainer Ctx
  threads : ℕ → Thread Point
  created : ℕ
  calls : ℕ → CallState
  contextMutex : Option ℕ
  destroyed : Bool

inductive Signal
  | stop
  | kill
  | pause
  | unpause
  deriving DecidableEq, Repr

def ocreContainerSignal {Point Ctx Ext : Type} (V : OcreRuntimeVtable Point Ctx Ext) :
    Signal → Ext → OcreContainer Ctx → Int × OcreContainer Ctx
  | .stop => ocreContainerStop V
  | .kill => ocreContainerKill V
  | .pause => ocreContainerPause V
  | .unpause => ocreContainerUnpause V

/-- The steps, with what each finds outside the container. -/
inductive Act (Ext : Type)
  | start (k : ℕ) (calls : StartCalls)
  | semWait (k : ℕ) (rc : Int)
  | storeError (k : ℕ)
  | signal (k : ℕ) (sig : Signal) (ext : Ext)
  | getStatus (k : ℕ)
  | wait (k : ℕ) (dst : Bool) (condRc : Int)
  | nestedWait (k : ℕ) (condRc : Int)
  | spurious (k : ℕ)
  | resume (k : ℕ)
  | destroyRead (k : ℕ)
  | destroyJoin (k : ℕ)
  | destroyStore (k : ℕ)
  | destroyCheck (k : ℕ)
  | destroyFree (k : ℕ)
  | thread (n : ℕ) (ext : Ext)
  | exit (n : ℕ)

namespace ContainerWorld

open Function (update)

variable {Point Ctx Ext : Type} (V : OcreRuntimeVtable Point Ctx Ext)

/-- Joining a joinable thread succeeds; a handle joined before is not found. -/
def joinRc (w : ContainerWorld Point Ctx) : Int :=
  if (w.threads w.container.thread).joins = 0 then 0 else 3

def joinThread (w : ContainerWorld Point Ctx) (n : ℕ) : ℕ → Thread Point :=
  update w.threads n { w.threads n with joins := (w.threads n).joins + 1 }

/-- `ocre_container_status_locked` under the mutex, with its call of `pthread_join`. -/
def collect (w : ContainerWorld Point Ctx) : ContainerWorld Point Ctx :=
  if w.container.status = .exited then
    { w with
      container := (ocreContainerStatusLocked w.joinRc w.container).2
      threads := w.joinThread w.container.thread }
  else w

/-- `pthread_join` returns once the thread has exited. -/
def canCollect (w : ContainerWorld Point Ctx) : Bool :=
  w.container.status ≠ .exited || (w.threads w.container.thread).isExited

/-- A section ends: the container is `c` and call `k` goes to `st`. -/
def finish (w : ContainerWorld Point Ctx) (k : ℕ) (c : OcreContainer Ctx)
    (st : CallState) : ContainerWorld Point Ctx :=
  { w with container := c, calls := update w.calls k st }

/-- The broadcast on `cond_stop` releases every call blocked on it. -/
def broadcast (calls : ℕ → CallState) (k : ℕ) : CallState :=
  match calls k with
  | .condWait caller run => .woken caller run
  | st => st

def startStep (k : ℕ) (calls : StartCalls) (w : ContainerWorld Point Ctx) :
    ContainerWorld Point Ctx :=
  let r := ocreContainerStart w.joinRc calls w.created w.container
  match r.1 with
  | .refused => w.collect.finish k r.2 (.errorStatus false)
  | .failed => w.collect.finish k r.2 (.errorStatus true)
  | .threadCreated =>
      { w.collect.finish k r.2 (.semWait w.created) with
        threads := update w.collect.threads w.created { phase := .live V.threadEntry }
        created := w.created + 1 }

def semWaitStep (k : ℕ) (rc : Int) (w : ContainerWorld Point Ctx) :
    Option (ContainerWorld Point Ctx) :=
  if rc ≠ 0 then some (w.finish k w.container (.errorStatus true))
  else match w.container.semStart with
    | [] => none
    | _ :: posts => some (w.finish k { w.container with semStart := posts }
        (if w.container.detached then .returned 0 none else .waitCall))

def waitStep (k : ℕ) (caller : WaitCaller) (condRc : Int) (w : ContainerWorld Point Ctx) :
    ContainerWorld Point Ctx :=
  let r := ocreContainerWait w.joinRc condRc caller.dst w.container
  w.collect.finish k r.2 (caller.proceed w.created r.1)

def resumeStep (k : ℕ) (caller : WaitCaller) (w : ContainerWorld Point Ctx) :
    ContainerWorld Point Ctx :=
  let r := ocreContainerWaitTail w.joinRc caller.dst w.container
  w.collect.finish k r.2 (caller.finish r.1)

/-- One step of `thread_execute` in thread `n`. -/
def threadStep (n : ℕ) (ext : Ext) (p : Point) (w : ContainerWorld Point Ctx) :
    ContainerWorld Point Ctx :=
  let (p', ctx, post) := V.threadExecute ext p w.container.runtimeContext
  { w with
    container := { w.container with
      runtimeContext := ctx
      semStart := w.container.semStart ++ if post then [n] else [] }
    threads := update w.threads n { w.threads n with
      phase := .live p'
      posts := (w.threads n).posts + if post then 1 else 0 } }

def exitStep (n : ℕ) (result : Int) (w : ContainerWorld Point Ctx) :
    ContainerWorld Point Ctx :=
  { w with
    container := containerThreadExit result w.container
    threads := update w.threads n { w.threads n with phase := .exited result }
    calls := broadcast w.calls }

/-- The partial step function. The removal reads the status without the mutex,
joins and stores STOPPED if it read EXITED, and reads again for the test. -/
def next (a : Act Ext) (w : ContainerWorld Point Ctx) :
    Option (ContainerWorld Point Ctx) :=
  if w.destroyed then none
  else match a with
    | .start k calls =>
        if w.calls k = .idle ∧ w.canCollect then some (w.startStep V k calls) else none
    | .semWait k rc => match w.calls k with
        | .semWait _ => w.semWaitStep k rc
        | _ => none
    | .storeError k => match w.calls k with
        | .errorStatus _ =>
            some (w.finish k { w.container with status := .error } (.returned (-1) none))
        | _ => none
    | .signal k sig ext =>
        if w.calls k = .idle then
          let r := ocreContainerSignal V sig ext w.container
          some (w.finish k r.2 (.returned r.1 none))
        else none
    | .getStatus k =>
        if w.calls k = .idle ∧ w.canCollect then
          let r := ocreContainerGetStatus w.joinRc w.container
          some (w.collect.finish k r.2 (.returned r.1.code none))
        else none
    | .wait k dst condRc =>
        if w.calls k = .idle ∧ w.canCollect then some (w.waitStep k (.user dst) condRc)
        else none
    | .nestedWait k condRc =>
        if w.calls k = .waitCall ∧ w.canCollect then some (w.waitStep k .start condRc)
        else none
    | .spurious k => match w.calls k with
        | .condWait caller run => some (w.finish k w.container (.woken caller run))
        | _ => none
    | .resume k => match w.calls k with
        | .woken caller _ => if w.canCollect then some (w.resumeStep k caller) else none
        | _ => none
    | .destroyRead k =>
        if w.calls k = .idle ∧ w.contextMutex = none then
          some { w.finish k w.container
                  (if w.container.status = .exited then .destroyJoin else .destroyCheck) with
            contextMutex := some k }
        else none
    | .destroyJoin k =>
        if w.calls k = .destroyJoin ∧ (w.threads w.container.thread).isExited then
          let w' := { w with threads := w.joinThread w.container.thread }
          -- a failed join is status UNKNOWN, which the destroy refuses
          some (if w.joinRc ≠ 0 then
              { w'.finish k w.container (.returned (-1) none) with contextMutex := none }
            else w'.finish k w.container .destroyStore)
        else none
    | .destroyStore k =>
        if w.calls k = .destroyStore then
          some (w.finish k { w.container with attr := false, status := .stopped } .destroyCheck)
        else none
    | .destroyCheck k =>
        if w.calls k = .destroyCheck then
          some (if w.container.status ≠ .stopped ∧ w.container.status ≠ .created ∧
              w.container.status ≠ .error then
              { w.finish k w.container (.returned (-1) none) with contextMutex := none }
            else w.finish k w.container .destroyFree)
        else none
    | .destroyFree k =>
        if w.calls k = .destroyFree then
          some { w.finish k w.container (.returned 0 none) with
            contextMutex := none
            destroyed := true }
        else none
    | .thread n ext => match (w.threads n).phase with
        | .live p => if V.threadResult p = none then some (w.threadStep V n ext p) else none
        | _ => none
    | .exit n => match (w.threads n).phase with
        | .live p => (V.threadResult p).map fun result ↦ w.exitStep n result
        | _ => none

/-- A container to which nothing has happened yet. -/
def ofContainer (c : OcreContainer Ctx) : ContainerWorld Point Ctx where
  container := c
  threads _ := {}
  created := 0
  calls _ := .idle
  contextMutex := none
  destroyed := false

/-- A container that `ocre_container_create` has just returned. -/
structure Fresh (w : ContainerWorld Point Ctx) : Prop where
  status : w.container.status = .created
  semStart : w.container.semStart = []
  threads : ∀ n, w.threads n = {}
  created : w.created = 0
  calls : ∀ k, w.calls k = .idle
  contextMutex : w.contextMutex = none
  destroyed : w.destroyed = false

theorem ofContainer_fresh {c : OcreContainer Ctx} (hstatus : c.status = .created)
    (hsem : c.semStart = []) : (ofContainer c : ContainerWorld Point Ctx).Fresh where
  status := hstatus
  semStart := hsem
  threads _ := rfl
  created := rfl
  calls _ := rfl
  contextMutex := rfl
  destroyed := rfl

end ContainerWorld

/-- A runtime that posts, returns 0 at once and supports every signal. -/
def promptRuntime : OcreRuntimeVtable Bool Unit Unit where
  threadEntry := false
  threadExecute _ _ _ := (true, (), true)
  threadResult returned := if returned then some 0 else none
  stop := some fun _ _ ↦ ((), 0)
  kill _ _ := ((), 0)
  pause := some fun _ _ ↦ ((), 0)
  unpause := some fun _ _ ↦ ((), 0)

/-- A container that has just been created on some runtime. -/
def createdWorld {Point Ctx : Type} (detached : Bool) (ctx : Ctx) : ContainerWorld Point Ctx :=
  .ofContainer {
    id := cstring "hello"
    image := cstring "hello-world.wasm"
    detached := detached
    status := .created
    semStart := []
    runtimeContext := ctx
    thread := 0
    attr := false
    argv := none
    envp := none
    exitCode := 0 }

theorem createdWorld_fresh {Point Ctx : Type} (detached : Bool) (ctx : Ctx) :
    (createdWorld detached ctx : ContainerWorld Point Ctx).Fresh :=
  ContainerWorld.ofContainer_fresh rfl rfl

/-- A detached container on the prompt runtime. -/
def promptWorld : ContainerWorld Bool Unit := createdWorld true ()

theorem promptWorld_fresh : promptWorld.Fresh := createdWorld_fresh true ()

/-- One that is not detached: its start call goes on to wait. -/
def attachedWorld : ContainerWorld Bool Unit := createdWorld false ()

theorem attachedWorld_fresh : attachedWorld.Fresh := createdWorld_fresh false ()

/-- The container as a step system, for any runtime vtable. -/
def containerSystem {Point Ctx Ext : Type} (V : OcreRuntimeVtable Point Ctx Ext) :
    StepSystem (ContainerWorld Point Ctx) (Act Ext) where
  init := ContainerWorld.Fresh
  next := ContainerWorld.next V

end OcreRuntime
