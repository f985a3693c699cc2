import OcreRuntime.Lib.StepSystem
import OcreRuntime.Library.Initialize
import OcreRuntime.OcreApi.Events

/-!
# The event API over the cycles of the library

The runtime engine of WAMR initialises the event API when the library is initialised,
and shuts it down when the library is deinitialised. The static variable of
`ocre_common_init` is not set back, so the event queue is only ever built once.
-/

namespace OcreRuntime

/-- What the calls of `runtime_init` do; those that the configuration leaves out
succeed. The last one is the allocation of the buffer of the event queue. -/
structure RuntimeInitCalls where
  userMalloc : Bool
  fullInit : Bool
  createSharedHeap : Bool
  registerNatives : Bool
  coreMalloc : Bool

def runtimeInit (calls : RuntimeInitCalls) (s : EventApi) : Int × EventApi :=
  if ¬ calls.userMalloc then (-1, s)
  else if ¬ calls.fullInit then (-1, s)
  else if ¬ calls.createSharedHeap then (-1, s)
  else if ¬ calls.registerNatives then (-1, s)
  else (0, (EventApi.ocreCommonInit calls.coreMalloc s).2.ocreTimerInit)

def runtimeDeinit (s : EventApi) : Int × EventApi := (0, s.ocreCommonShutdown)

/-- The runtime of WAMR, for an `ocre_initialize` in which the calls are as given. -/
def wamrRuntime (calls : RuntimeInitCalls) : RuntimeVtable EventApi where
  runtimeName := cstring "wamr/wasip1"
  init := some (runtimeInit calls)
  deinit := some runtimeDeinit

/-- A runtime of the application, with what its functions return. They cannot reach
the static objects of the event API. -/
structure ExtraRuntime where
  runtimeName : CString
  init : Option Int
  deinit : Option Int

def ExtraRuntime.vtable (extra : ExtraRuntime) : RuntimeVtable EventApi where
  runtimeName := extra.runtimeName
  init := extra.init.map fun rc x ↦ (rc, x)
  deinit := extra.deinit.map fun rc x ↦ (rc, x)

/-- One call of `ocre_initialize`. -/
structure Initialization where
  extras : Option (List ExtraRuntime)
  calls : InitializeCalls
  runtimeCalls : RuntimeInitCalls

namespace Initialization

variable (i : Initialization)

/-- The runtimes that a call registers. -/
def runtimes : List (RuntimeVtable EventApi) :=
  wamrRuntime i.runtimeCalls :: (i.extras.getD []).map ExtraRuntime.vtable

def perform (s : Library EventApi) : Int × Library EventApi :=
  ocreInitialize (wamrRuntime i.runtimeCalls) (i.extras.map (·.map ExtraRuntime.vtable)) i.calls s

/-- The call comes to `ocre_common_init`: all runtimes can be registered, and what
`runtime_init` does before succeeds. -/
def ReachesCommonInit : Prop :=
  i.calls.mutexInit = 0 ∧ i.calls.malloc 0 = true ∧
    (addRuntimes i.calls.malloc [wamrRuntime i.runtimeCalls]
      ((i.extras.getD []).map ExtraRuntime.vtable)).isOk = true ∧
    i.runtimeCalls.userMalloc = true ∧ i.runtimeCalls.fullInit = true ∧
    i.runtimeCalls.createSharedHeap = true ∧ i.runtimeCalls.registerNatives = true

end Initialization

/-- The steps of the program. What containers do to the event API is possible at any
time, also while a context is destroyed or after it. -/
inductive LibraryAct
  | ocreInitialize (i : Initialization)
  | ocreCreateContext (destroyRc : Int)
  | event (a : EventAct)
  | ocreDeInitialize

def LibraryAct.ReachesCommonInit : LibraryAct → Prop
  | ocreInitialize i => i.ReachesCommonInit
  | _ => False

namespace Library

/-- At the start of the program. -/
def static : Library EventApi := ⟨[], [], .static⟩

/-- The library is initialised when no runtime is registered: at first, after
`ocre_deinitialize`, and after an initialisation that failed. -/
def next (a : LibraryAct) (s : Library EventApi) : Option (Library EventApi) :=
  match a with
  | .ocreInitialize i => if s.runtimes.isEmpty then some (i.perform s).2 else none
  | .ocreCreateContext destroyRc =>
      some { s with contexts := s.contexts ++ [fun x ↦ (destroyRc, x)] }
  | .event a => (s.statics.perform a).map fun r ↦ { s with statics := r.2 }
  | .ocreDeInitialize => some (ocreDeInitialize s)

end Library

def librarySystem : StepSystem (Library EventApi) LibraryAct where
  init := (· = Library.static)
  next := Library.next

namespace EventApi

variable {s s' : EventApi}

/-- The event API as the first initialisation leaves it: a queue with a buffer and
initialised locks, which is empty and serves every use as the purpose says. -/
structure Fresh (s : EventApi) : Prop where
  buffer : s.ocreEventQueue.buffer.isSome = true
  lock : s.ocreEventQueue.lock = .ready
  ocreEventQueueLock : s.ocreEventQueueLock = .ready
  count : s.ocreEventQueue.count = 0
  commonInitialized : s.commonInitialized = true
  observe : ∀ as, s.observe as = some (fifoObserve sizeOcreEventBuffer [] as)

theorem ocreCommonInit_of_initialized (h : s.initialized = true) (malloc : Bool) :
    (ocreCommonInit malloc s).2 = s := by
  simp [ocreCommonInit, h]

theorem initialized_ocreCommonInit (malloc : Bool) :
    (ocreCommonInit malloc s).2.initialized = true := by
  unfold ocreCommonInit
  split
  · assumption
  · rfl

theorem buffer_purge {q : CoreEventq OcreEvent} (h : q.buffer = none) (k : ℕ) :
    (purge k q).buffer = none := by
  induction k generalizing q with
  | zero => exact h
  | succ k ih =>
      unfold purge
      split
      next hget => exact ih ((buffer_of_coreEventqGet hget).trans h)
      · exact h

/-- The first initialisation builds the queue exactly if its buffer can be allocated. -/
theorem fresh_ocreCommonInit_iff (h : s.initialized = false) (malloc : Bool) :
    (ocreCommonInit malloc s).2.ocreTimerInit.Fresh ↔ malloc = true := by
  refine ⟨fun hfresh ↦ ?_, fun hmalloc ↦ ?_⟩
  · by_contra hmalloc
    have hbuffer := hfresh.buffer
    simp [ocreCommonInit, h, ocreTimerInit, coreEventqInit, hmalloc, buffer_purge] at hbuffer
  · subst hmalloc
    have hholds := coreEventqInit_holds (by decide : 0 < sizeOcreEventBuffer) s.ocreEventQueue
    have hserves := serves_ocreCommonInit h
    have hqueue : (ocreCommonInit true s).2.ocreTimerInit.ocreEventQueue =
        (coreEventqInit true sizeOcreEventBuffer s.ocreEventQueue).2 := by
      simp [ocreCommonInit, h, ocreTimerInit, purge_of_holds_nil hholds]
    refine ⟨?_, ?_, ?_, hserves.holds.count_eq, hserves.commonInitialized, hserves.observe⟩
    · rw [hqueue]
      rfl
    · rw [hqueue]
      rfl
    · simp [ocreCommonInit, h, ocreTimerInit]

end EventApi

namespace Initialization

variable {i : Initialization} {s : Library EventApi}

theorem inert_extras : ∀ v ∈ (i.extras.getD []).map ExtraRuntime.vtable, v.Inert := by
  intro v hv
  obtain ⟨extra, -, rfl⟩ := List.mem_map.mp hv
  refine ⟨fun f hf x ↦ ?_, fun f hf x ↦ ?_⟩
  · obtain ⟨rc, -, rfl⟩ := Option.map_eq_some_iff.mp hf
    rfl
  · obtain ⟨rc, -, rfl⟩ := Option.map_eq_some_iff.mp hf
    rfl

theorem deinitRuntimes_runtimes (x : EventApi) :
    (deinitRuntimes i.runtimes x).2 = x.ocreCommonShutdown :=
  deinitRuntimes_of_inert i.inert_extras _

theorem ocreDeInitialize_eq (x : EventApi) :
    ocreDeInitialize ⟨i.runtimes, [], x⟩ = ⟨[], [], x.ocreCommonShutdown⟩ := by
  simp [ocreDeInitialize, destroyContexts, deinitRuntimes_runtimes]

theorem getD_extras : (i.extras.map (·.map ExtraRuntime.vtable)).getD [] =
    (i.extras.getD []).map ExtraRuntime.vtable := by
  cases i.extras <;> rfl

/-- A call that comes to `ocre_common_init` succeeds, or shuts down again. -/
theorem perform_of_reachesCommonInit (h : i.ReachesCommonInit) (s : Library EventApi) :
    let x := (s.statics.ocreCommonInit i.runtimeCalls.coreMalloc).2.ocreTimerInit
    i.perform s = (0, ⟨i.runtimes, [], x⟩) ∨
      i.perform s = (-1, ⟨[], [], x.ocreCommonShutdown⟩) := by
  intro x
  obtain ⟨hmutex, hmalloc, hadd, hheap, hfull, hshared, hnatives⟩ := h
  obtain ⟨runtimes, hadd⟩ := exists_of_addRuntimes hadd
  obtain rfl : runtimes = i.runtimes := eq_of_addRuntimes hadd
  have hinit : (initRuntimes i.runtimes s.statics).2 = x := by
    have hextras := initRuntimes_of_inert i.inert_extras x
    simpa [Initialization.runtimes, initRuntimes, wamrRuntime, runtimeInit, hheap, hfull, hshared,
      hnatives] using hextras
  cases hok : (initRuntimes i.runtimes s.statics).1 with
  | true =>
      left
      simp [perform, ocreInitialize, hmutex, hmalloc, getD_extras, hadd, hinit, hok]
  | false =>
      right
      simp [perform, ocreInitialize, hmutex, hmalloc, getD_extras, hadd, hinit, hok,
        ocreDeInitialize_eq]

/-- Any other call fails, and shuts down at most. -/
theorem perform_of_not_reachesCommonInit (h : ¬ i.ReachesCommonInit) (s : Library EventApi) :
    i.perform s = (-1, ⟨[], [], s.statics⟩) ∨
      i.perform s = (-1, ⟨[], [], s.statics.ocreCommonShutdown⟩) := by
  by_cases hmutex : i.calls.mutexInit = 0
  swap
  · exact .inl (by simp [perform, ocreInitialize, hmutex])
  cases hmalloc : i.calls.malloc 0 with
  | false => exact .inl (by simp [perform, ocreInitialize, hmutex, hmalloc])
  | true =>
      cases hadd : addRuntimes i.calls.malloc [wamrRuntime i.runtimeCalls]
          ((i.extras.getD []).map ExtraRuntime.vtable) with
      | error built =>
          exact .inl (by simp [perform, ocreInitialize, hmutex, hmalloc, getD_extras, hadd])
      | ok runtimes =>
          obtain rfl : runtimes = i.runtimes := eq_of_addRuntimes hadd
          have hfails : runtimeInit i.runtimeCalls s.statics = (-1, s.statics) := by
            simp only [ReachesCommonInit, hmutex, hmalloc, hadd, Except.isOk, Except.toBool,
              true_and] at h
            grind [runtimeInit]
          have hinit : initRuntimes i.runtimes s.statics = (false, s.statics) := by
            simp [Initialization.runtimes, initRuntimes, wamrRuntime, hfails]
          right
          simp [perform, ocreInitialize, hmutex, hmalloc, getD_extras, hadd, hinit,
            ocreDeInitialize_eq]

end Initialization

namespace Library

variable {s s' : Library EventApi} {reached : Prop} {a : LibraryAct}

/-- What is known between the steps, according to whether an initialisation has already
come to `ocre_common_init`. -/
structure Inv (reached : Prop) (s : Library EventApi) : Prop where
  initialized : s.statics.initialized = true ↔ reached
  buffer : reached → s.runtimes = [] → s.statics.ocreEventQueue.buffer = none
  runtimes : s.runtimes = [] ∨ ∃ i : Initialization, s.runtimes = i.runtimes
  contexts : ∀ context ∈ s.contexts, ∀ x, (context x).2 = x

namespace Inv

theorem static : Inv False Library.static where
  initialized := by simp [Library.static, EventApi.static]
  buffer := False.elim
  runtimes := .inl rfl
  contexts := by simp [Library.static]

theorem perform (h : s.Inv reached) (hidle : s.runtimes = []) (i : Initialization) :
    (i.perform s).2.Inv (reached ∨ i.ReachesCommonInit) := by
  by_cases hreach : i.ReachesCommonInit
  · have hinit := EventApi.initialized_ocreCommonInit (s := s.statics) i.runtimeCalls.coreMalloc
    rcases Initialization.perform_of_reachesCommonInit hreach s with hperform | hperform <;>
      rw [hperform]
    · exact ⟨by simp [EventApi.ocreTimerInit, hinit, hreach],
        by simp [Initialization.runtimes], .inr ⟨i, rfl⟩, by simp⟩
    · exact ⟨by simp [EventApi.ocreCommonShutdown, EventApi.ocreTimerInit, hinit, hreach],
        fun _ _ ↦ rfl, .inl rfl, by simp⟩
  · simp only [hreach, or_false]
    rcases Initialization.perform_of_not_reachesCommonInit hreach s with hperform | hperform <;>
      rw [hperform]
    · exact ⟨h.initialized, fun hreached _ ↦ h.buffer hreached hidle, .inl rfl, by simp⟩
    · exact ⟨h.initialized, fun _ _ ↦ rfl, .inl rfl, by simp⟩

theorem event (h : s.Inv reached) {x : EventApi} (hsame : EventApi.Same s.statics x) :
    Inv reached { s with statics := x } where
  initialized := by rw [hsame.1, h.initialized]
  buffer hreached hidle := hsame.2.mpr (h.buffer hreached hidle)
  runtimes := h.runtimes
  contexts := h.contexts

theorem ocreDeInitialize (h : s.Inv reached) : (ocreDeInitialize s).Inv reached := by
  obtain ⟨hstatics, hmem⟩ := destroyContexts_of_inert h.contexts s.statics
  rcases h.runtimes with hidle | ⟨i, hruntimes⟩
  · have hrt : (deinitRuntimes s.runtimes s.statics).2 = s.statics := by rw [hidle]; rfl
    refine ⟨?_, fun hreached _ ↦ ?_, .inl (ocreDeInitialize_runtimes s),
      fun c hc ↦ h.contexts c (hmem c hc)⟩
    · simpa [OcreRuntime.ocreDeInitialize, hstatics, hrt] using h.initialized
    · simpa [OcreRuntime.ocreDeInitialize, hstatics, hrt] using h.buffer hreached hidle
  · have hrt : (deinitRuntimes s.runtimes s.statics).2 = s.statics.ocreCommonShutdown := by
      rw [hruntimes, Initialization.deinitRuntimes_runtimes]
    refine ⟨?_, fun _ _ ↦ ?_, .inl (ocreDeInitialize_runtimes s),
      fun c hc ↦ h.contexts c (hmem c hc)⟩
    · simpa [OcreRuntime.ocreDeInitialize, hstatics, hrt, EventApi.ocreCommonShutdown]
        using h.initialized
    · simp [OcreRuntime.ocreDeInitialize, hstatics, hrt, EventApi.ocreCommonShutdown,
        coreEventqDestroy]

theorem next (h : s.Inv reached) (hnext : s.next a = some s') :
    s'.Inv (reached ∨ a.ReachesCommonInit) := by
  cases a with
  | ocreInitialize i =>
      obtain ⟨hidle, heq⟩ := Option.ite_none_right_eq_some.mp hnext
      cases heq
      exact h.perform (List.isEmpty_iff.mp hidle) i
  | ocreCreateContext destroyRc =>
      cases hnext
      simp only [LibraryAct.ReachesCommonInit, or_false]
      refine ⟨h.initialized, h.buffer, h.runtimes, fun context hcontext ↦ ?_⟩
      rcases List.mem_append.mp hcontext with hmem | hmem
      · exact h.contexts context hmem
      · obtain rfl := List.mem_singleton.mp hmem
        exact fun _ ↦ rfl
  | event a =>
      obtain ⟨⟨r, x⟩, hperform, heq⟩ := Option.map_eq_some_iff.mp hnext
      cases heq
      simp only [LibraryAct.ReachesCommonInit, or_false]
      exact h.event (EventApi.same_of_perform hperform)
  | ocreDeInitialize =>
      cases hnext
      simp only [LibraryAct.ReachesCommonInit, or_false]
      exact h.ocreDeInitialize

theorem run (h : s.Inv reached) {as : List LibraryAct}
    (hrun : librarySystem.run s as = some s') :
    s'.Inv (reached ∨ ∃ a ∈ as, a.ReachesCommonInit) := by
  induction as generalizing s reached with
  | nil =>
      obtain rfl : s = s' := Option.some.inj hrun
      simpa using h
  | cons a as ih =>
      obtain ⟨t, hnext, hrest⟩ := Option.bind_eq_some_iff.mp hrun
      simpa [or_assoc] using ih (h.next hnext) hrest

end Inv

/-- After any history of the program, an initialisation that returns 0 leaves the event
API fresh exactly if it is the first that comes to `ocre_common_init` and the buffer of
the queue can be allocated. -/
theorem fresh_perform_iff {as : List LibraryAct} {i : Initialization}
    (hrun : librarySystem.run Library.static as = some s) (hidle : s.runtimes = [])
    (hreturn : (i.perform s).1 = 0) :
    (i.perform s).2.statics.Fresh ↔
      (∀ a ∈ as, ¬ a.ReachesCommonInit) ∧ i.runtimeCalls.coreMalloc = true := by
  have hinv : s.Inv (∃ a ∈ as, a.ReachesCommonInit) := by simpa using Inv.static.run hrun
  have hstatics : (i.perform s).2.statics =
      (s.statics.ocreCommonInit i.runtimeCalls.coreMalloc).2.ocreTimerInit := by
    by_cases hreach : i.ReachesCommonInit
    · rcases Initialization.perform_of_reachesCommonInit hreach s with hperform | hperform
      · rw [hperform]
      · simp [hperform] at hreturn
    · rcases Initialization.perform_of_not_reachesCommonInit hreach s with hperform | hperform <;>
        simp [hperform] at hreturn
  rw [hstatics]
  by_cases hreached : ∃ a ∈ as, a.ReachesCommonInit
  · -- the static variable is set, so the queue stays as the last shutdown left it
    have hinit := hinv.initialized.mpr hreached
    refine ⟨fun hfresh ↦ ?_, fun hfirst ↦ ?_⟩
    · have hbuffer := hfresh.buffer
      simp [EventApi.ocreTimerInit, EventApi.ocreCommonInit_of_initialized hinit,
        hinv.buffer hreached hidle] at hbuffer
    · obtain ⟨a, ha, hreach⟩ := hreached
      exact absurd hreach (hfirst.1 a ha)
  · have hinit : s.statics.initialized = false := by
      simpa [hreached] using hinv.initialized
    rw [EventApi.fresh_ocreCommonInit_iff hinit]
    push Not at hreached
    exact ⟨fun hmalloc ↦ ⟨hreached, hmalloc⟩, And.right⟩

/-- A call without extra runtimes, in which the initialisation of WAMR succeeds or not and
everything else does. -/
def plainInitialization (fullInit : Bool) : Initialization where
  extras := none
  calls := ⟨0, fun _ ↦ true⟩
  runtimeCalls := ⟨true, fullInit, true, true, true⟩

/-- The second attempt, after one that failed in WAMR. -/
theorem fresh_perform_after_failure :
    ((plainInitialization true).perform
      ⟨[], [], EventApi.static.ocreCommonShutdown⟩).2.statics.Fresh :=
  (@fresh_perform_iff ⟨[], [], EventApi.static.ocreCommonShutdown⟩
    [.ocreInitialize (plainInitialization false)] (plainInitialization true) rfl rfl rfl).mpr
    ⟨by simp [LibraryAct.ReachesCommonInit, Initialization.ReachesCommonInit,
      plainInitialization], rfl⟩

/-- After one complete cycle the next initialisation returns 0 and the event API is down. -/
theorem not_fresh_after_cycle :
    ((plainInitialization true).perform Library.static).1 = 0 ∧
      ∃ s, librarySystem.run Library.static
          [.ocreInitialize (plainInitialization true), .ocreDeInitialize] = some s ∧
        ((plainInitialization true).perform s).1 = 0 ∧
        ¬ ((plainInitialization true).perform s).2.statics.Fresh := by
  refine ⟨rfl, _, rfl, rfl, fun hfresh ↦ ?_⟩
  exact absurd hfresh.commonInitialized (by decide)

end Library

end OcreRuntime
