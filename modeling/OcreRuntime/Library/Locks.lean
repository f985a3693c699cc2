import OcreRuntime.Context.Operations
import OcreRuntime.Library.Contexts

/-!
# Locks are released

Sequences of calls on contexts, each call one step with its locks. What containers do
between two calls locks and unlocks on its own. Every way out of an operation unlocks
what has been locked, but for `ocre_destroy_context` with a context that is not in the
list, which leaves `contexts_mutex` locked.
-/

namespace OcreRuntime

open LockProgram
open Function (update)

/-- The calls with what they find outside. -/
inductive ContextCall (Ctx Ext : Type)
  | createContext (workdir : Option CString) (calls : CreateContextCalls)
  | destroyContext (context : Option ℕ) (calls : DestroyContextCalls Ctx Ext)
  | createContainer (context : Option ℕ) (args : CreateArgs) (calls : CreateCalls Ctx)
  | removeContainer (context container : Option ℕ) (calls : RemoveCalls)
  | getContainerById (context : Option ℕ) (id : Option CString)
  | getContainerCount (context : Option ℕ)
  | getContainers (context : Option ℕ) (given : Bool) (maxSize : Int)
  | evolve (container : ℕ) (c : OcreContainer Ctx)

namespace ContextTable

variable {Point Ctx Ext : Type}

section Balance

variable (V : OcreRuntimeVtable Point Ctx Ext)

theorem balanced_onContext {α : Type} (p : ℕ) (f : ContextState Ctx → α × ContextState Ctx) :
    Balanced (onContext p f) := .access _

theorem balanced_onContainer {α : Type} (p : ℕ)
    (f : OcreContainer Ctx → Option (α × OcreContainer Ctx)) : Balanced (onContainer p f) :=
  .access _

theorem releases_createContextFinish (context : Option ℕ) :
    Releases .contexts (createContextFinish context : ContextProgram Ctx _) :=
  .unlock (.pure context)

theorem releases_createContextError :
    Releases .contexts (createContextError : ContextProgram Ctx _) :=
  releases_createContextFinish none

/-- Each `goto error` and the way to `finish` come to the unlock. -/
theorem balanced_ocreCreateContext (defaultWorkdir : CString) (workdir : Option CString)
    (calls : CreateContextCalls) :
    Balanced (ocreCreateContext defaultWorkdir workdir calls : ContextProgram Ctx _) := by
  apply Balanced.lock
  apply Releases.bind (.access _)
  intro found
  apply Releases.ite releases_createContextError
  apply Releases.ite releases_createContextError
  apply Releases.ite releases_createContextError
  apply Releases.bind (.access _)
  intro rc
  apply Releases.ite releases_createContextError
  apply Releases.bind (.access _)
  intro deleted
  cases ocreContextCreate calls (workdir.getD defaultWorkdir) with
  | none => exact releases_createContextError
  | some context =>
      apply Releases.bind (.renew _)
      intro _
      apply Releases.bind (.access _)
      intro _
      exact releases_createContextFinish _

theorem balanced_ocreContainerKill (ext : Ext) (p : ℕ) :
    Balanced (ocreContainerKill V ext p) := by
  apply Balanced.lock
  apply Releases.bind (balanced_onContainer _ _)
  intro ret
  exact .unlock (.pure ret)

/-- The mutex is unlocked and locked again around `pthread_cond_wait`. -/
theorem balanced_ocreContainerWait (calls : DestroyContextCalls Ctx Ext) (p : ℕ) :
    Balanced (ocreContainerWait calls p) := by
  apply Balanced.lock
  apply Releases.bind (balanced_onContainer _ _)
  intro result
  cases result with
  | some result => exact .unlock (.pure result.ret)
  | none =>
      apply Releases.unlock
      apply Balanced.bind (balanced_onContainer _ _)
      intro _
      apply Balanced.lock
      apply Releases.bind (balanced_onContainer _ _)
      intro result
      exact .unlock (.pure result.ret)

theorem balanced_killContainers (calls : DestroyContextCalls Ctx Ext)
    (nodes : List ContainerNode) : Balanced (killContainers V calls nodes) := by
  induction nodes with
  | nil => exact .pure ()
  | cons node nodes ih =>
      apply Balanced.bind (balanced_ocreContainerKill V _ _)
      intro _
      exact ih

theorem balanced_waitContainers (calls : DestroyContextCalls Ctx Ext)
    (nodes : List ContainerNode) : Balanced (waitContainers calls nodes) := by
  induction nodes with
  | nil => exact .pure ()
  | cons node nodes ih =>
      apply Balanced.bind (balanced_ocreContainerWait calls _)
      intro _
      exact ih

theorem balanced_ocreContextDestroy (context : ℕ) (calls : DestroyContextCalls Ctx Ext) :
    Balanced (ocreContextDestroy V context calls) := by
  apply Balanced.bind (balanced_onContext _ _)
  intro nodes
  apply Balanced.bind (balanced_killContainers V calls nodes)
  intro _
  apply Balanced.bind (balanced_waitContainers calls nodes)
  intro _
  apply Balanced.bind (balanced_onContext _ _)
  intro _
  apply Balanced.bind (.renew _)
  intro _
  apply Balanced.ite (.pure _)
  apply Balanced.bind (.access _)
  intro _
  exact .pure _

theorem balanced_ocreDestroyContextLocked (context : ℕ) (calls : DestroyContextCalls Ctx Ext) :
    Balanced (ocreDestroyContextLocked V context calls) := by
  apply Balanced.bind (.access _)
  intro found
  refine .ite ?_ (.pure _)
  apply Balanced.bind (balanced_ocreContextDestroy V context calls)
  intro rc
  apply Balanced.ite (.pure _)
  apply Balanced.bind (.access _)
  intro _
  exact .pure _

theorem releases_createContainerError (context : ℕ) (workdir : Option CString)
    (calls : CreateCalls Ctx) :
    Releases (.context context) (createContainerError context workdir calls) := by
  apply Releases.bind (balanced_onContext _ _)
  intro container
  exact .unlock (.pure container)

theorem releases_createContainerIn (context : ℕ) (args : CreateArgs) (calls : CreateCalls Ctx)
    (target : CreateTarget) :
    Releases (.context context) (createContainerIn context args calls target) := by
  apply Releases.bind (balanced_onContext _ _)
  intro imagePath
  split
  · exact releases_createContainerError _ _ _
  · apply Releases.bind (balanced_onContext _ _)
    intro _
    exact .unlock (.pure _)

/-- The checks before the lock return with nothing locked; each `goto error` and the way to
`success` come to the unlock. -/
theorem balanced_ocreContextCreateContainer (context : Option ℕ) (args : CreateArgs)
    (calls : CreateCalls Ctx) : Balanced (ocreContextCreateContainer context args calls) := by
  unfold ocreContextCreateContainer
  cases context with
  | none => exact .pure _
  | some context =>
      apply Balanced.ite (.pure _)
      cases args.image with
      | none => exact .pure _
      | some image =>
          apply Balanced.ite (.pure _)
          apply Balanced.lock
          apply Releases.bind (balanced_onContext _ _)
          intro id
          cases id with
          | none => exact releases_createContainerError _ _ _
          | some id =>
              apply Releases.ite (releases_createContainerError _ _ _)
              apply Releases.ite (releases_createContainerError _ _ _)
              refine .ite (.ite (releases_createContainerError _ _ _) ?_)
                (releases_createContainerIn _ _ _ _)
              apply Releases.bind (balanced_onContext _ _)
              intro workdir
              apply Releases.bind (balanced_onContext _ _)
              intro made
              exact .ite (releases_createContainerIn _ _ _ _) (releases_createContainerError _ _ _)

theorem balanced_section {α : Type} (context : ℕ) (f : ContextState Ctx → α × ContextState Ctx) :
    Balanced (do
      lock (.context context)
      let result ← onContext context f
      unlock (.context context)
      return result : ContextProgram Ctx α) := by
  apply Balanced.lock
  apply Releases.bind (balanced_onContext _ _)
  intro result
  exact .unlock (.pure result)

theorem balanced_ocreContextRemoveContainer (context container : Option ℕ)
    (calls : RemoveCalls) :
    Balanced (ocreContextRemoveContainer context container calls : ContextProgram Ctx _) := by
  unfold ocreContextRemoveContainer
  split
  · exact balanced_section _ _
  · exact .pure _

theorem balanced_ocreContextGetContainerCount (context : Option ℕ) :
    Balanced (ocreContextGetContainerCount context : ContextProgram Ctx _) := by
  cases context with
  | none => exact .pure _
  | some context => exact balanced_section _ _

theorem balanced_ocreContextGetContainers (context : Option ℕ) (given : Bool) (maxSize : Int) :
    Balanced (ocreContextGetContainers context given maxSize : ContextProgram Ctx _) := by
  cases context with
  | none => exact .pure _
  | some context => exact .ite (.pure _) (balanced_section _ _)

theorem balanced_ocreContextGetContainerById (context : Option ℕ) (id : Option CString) :
    Balanced (ocreContextGetContainerById context id : ContextProgram Ctx _) := by
  unfold ocreContextGetContainerById
  split
  · exact balanced_section _ _
  · exact .pure _

end Balance

theorem returns_ocreContextDestroy {V : OcreRuntimeVtable Point Ctx Ext} {context : ℕ}
    {calls : DestroyContextCalls Ctx Ext} (hdestroy : calls.mutexDestroy = 0) :
    Returns (· = 0) (ocreContextDestroy V context calls) := by
  unfold ocreContextDestroy
  rw [if_neg (not_not.mpr hdestroy)]
  exact .bind fun _ ↦ .bind fun _ ↦ .bind fun _ ↦ .bind fun _ ↦ .bind fun _ ↦ .bind fun _ ↦
    .pure rfl

/-- With a working `pthread_mutex_destroy` the destruction fails for a context that is not
in the list, and only then. -/
theorem ocreDestroyContextLocked_eq_zero_iff {V : OcreRuntimeVtable Point Ctx Ext} {context : ℕ}
    {calls : DestroyContextCalls Ctx Ext} {s s' : Locked Mutex (ContextTable Ctx)} {rc : Int}
    (hdestroy : calls.mutexDestroy = 0)
    (h : ocreDestroyContextLocked V context calls s = some (rc, s')) :
    rc = 0 ↔ s.state.contexts.any (·.context = context) = true := by
  obtain ⟨found, t, ht, h⟩ := of_bind h
  obtain ⟨rfl, rfl⟩ := Prod.mk.inj (Option.some.inj ht)
  dsimp only at h
  split at h
  · rename_i hfound
    obtain ⟨rc', u, hrc', h⟩ := of_bind h
    obtain rfl : rc' = 0 := returns_ocreContextDestroy hdestroy _ _ _ hrc'
    rw [if_neg (not_not.mpr rfl)] at h
    obtain ⟨_, v, -, h⟩ := of_bind h
    obtain ⟨rfl, -⟩ := Prod.mk.inj (Option.some.inj h)
    exact iff_of_true rfl hfound
  · rename_i hfound
    obtain ⟨rfl, -⟩ := Prod.mk.inj (Option.some.inj h)
    exact iff_of_false (by decide) hfound

/-- A call with its result dropped. -/
def perform (V : OcreRuntimeVtable Point Ctx Ext) (defaultWorkdir : CString)
    (a : ContextCall Ctx Ext) : ContextProgram Ctx Unit :=
  match a with
  | .createContext workdir calls => dropResult (ocreCreateContext defaultWorkdir workdir calls)
  | .destroyContext context calls => dropResult (ocreDestroyContext V context calls)
  | .createContainer context args calls =>
      dropResult (ocreContextCreateContainer context args calls)
  | .removeContainer context container calls =>
      dropResult (ocreContextRemoveContainer context container calls)
  | .getContainerById context id => dropResult (ocreContextGetContainerById context id)
  | .getContainerCount context => dropResult (ocreContextGetContainerCount context)
  | .getContainers context given maxSize =>
      dropResult (ocreContextGetContainers context given maxSize)
  | .evolve container c => onContainer container fun old ↦
      if c.id = old.id then some ((), c) else none

/-- New objects do not take the address of a live one, and no mutex function fails. -/
def fits (s : ContextTable Ctx) : ContextCall Ctx Ext → Bool
  | .createContext _ calls => (s.memory calls.pointer).isNone && calls.mutexInit = 0
  | .createContainer _ _ calls => (s.heap calls.pointer).isNone && !calls.fails .mutexInit
  | .destroyContext _ calls => calls.mutexDestroy = 0
  | _ => true

def next (V : OcreRuntimeVtable Point Ctx Ext) (defaultWorkdir : CString)
    (a : ContextCall Ctx Ext) (s : Locked Mutex (ContextTable Ctx)) :
    Option (Locked Mutex (ContextTable Ctx)) :=
  if fits s.state a then (perform V defaultWorkdir a s).map Prod.snd else none

/-- Nothing has been created, and no mutex is held. -/
structure Empty (s : Locked Mutex (ContextTable Ctx)) : Prop where
  contexts : s.state.contexts = []
  memory : ∀ p, s.state.memory p = none
  heap : ∀ p, s.state.heap p = none
  free : ∀ m, s.held m = false

/-- After a call every mutex it has locked is unlocked, and each one can be locked. -/
structure Released (s s' : Locked Mutex (ContextTable Ctx)) : Prop where
  unlocked : s'.held = s.held
  acquirable : ∀ m, (lock m s').isSome = true

/-- A context to be destroyed is NULL or in the list. -/
def DestroysListed (a : ContextCall Ctx Ext) (s : Locked Mutex (ContextTable Ctx)) : Prop :=
  match a with
  | .destroyContext (some context) _ => s.state.contexts.any (·.context = context) = true
  | _ => True

instance (a : ContextCall Ctx Ext) (s : Locked Mutex (ContextTable Ctx)) :
    Decidable (DestroysListed a s) :=
  match a with
  | .destroyContext (some _) _ => inferInstanceAs (Decidable (_ = true))
  | .destroyContext none _ | .createContext .. | .createContainer .. | .removeContainer ..
  | .getContainerById .. | .getContainerCount _ | .getContainers .. | .evolve .. => .isTrue trivial

end ContextTable

/-- Sequences of calls, with containers that run in between. -/
def contextTableSystem {Point Ctx Ext : Type} (V : OcreRuntimeVtable Point Ctx Ext)
    (defaultWorkdir : CString) :
    StepSystem (Locked Mutex (ContextTable Ctx)) (ContextCall Ctx Ext) where
  init := ContextTable.Empty
  next := ContextTable.next V defaultWorkdir

namespace ContextTable

variable {Point Ctx Ext : Type} {V : OcreRuntimeVtable Point Ctx Ext} {defaultWorkdir : CString}
  {s s' : Locked Mutex (ContextTable Ctx)} {a : ContextCall Ctx Ext}

theorem perform_of_next (h : (contextTableSystem V defaultWorkdir).next a s = some s') :
    fits s.state a = true ∧ perform V defaultWorkdir a s = some ((), s') := by
  obtain ⟨hfits, h⟩ := Option.ite_none_right_eq_some.mp h
  obtain ⟨⟨_, t⟩, ht, rfl⟩ := Option.map_eq_some_iff.mp h
  exact ⟨hfits, ht⟩

/-- All calls but one are balanced whatever their arguments are. -/
theorem balanced_perform (ha : ∀ context calls, a ≠ .destroyContext (some context) calls) :
    Balanced (perform V defaultWorkdir a) := by
  cases a with
  | createContext workdir calls => exact .dropResult (balanced_ocreCreateContext _ workdir calls)
  | destroyContext context calls =>
      cases context with
      | none => exact .dropResult (.pure _)
      | some context => exact absurd rfl (ha context calls)
  | createContainer context args calls =>
      exact .dropResult (balanced_ocreContextCreateContainer context args calls)
  | removeContainer context container calls =>
      exact .dropResult (balanced_ocreContextRemoveContainer context container calls)
  | getContainerById context id =>
      exact .dropResult (balanced_ocreContextGetContainerById context id)
  | getContainerCount context => exact .dropResult (balanced_ocreContextGetContainerCount context)
  | getContainers context given maxSize =>
      exact .dropResult (balanced_ocreContextGetContainers context given maxSize)
  | evolve container c => exact balanced_onContainer _ _

/-- A destruction unlocks `contexts_mutex` exactly if the context was found. -/
theorem held_of_ocreDestroyContext {context : ℕ} {calls : DestroyContextCalls Ctx Ext} {rc : Int}
    (hdestroy : calls.mutexDestroy = 0) (hfree : ∀ m, s.held m = false)
    (h : ocreDestroyContext V (some context) calls s = some (rc, s')) :
    s'.held = if s.state.contexts.any (·.context = context) then s.held
      else update s.held .contexts true := by
  obtain ⟨_, t, ht, h⟩ := of_bind h
  obtain ⟨-, ht⟩ := Option.ite_none_left_eq_some.mp ht
  obtain ⟨-, rfl⟩ := Prod.mk.inj (Option.some.inj ht)
  obtain ⟨rc', u, hu, h⟩ := of_bind h
  have hheld : u.held = update s.held .contexts true :=
    balanced_ocreDestroyContextLocked V context calls _ _ _ hu
  have hrc := ocreDestroyContextLocked_eq_zero_iff hdestroy hu
  dsimp only at hrc
  by_cases hzero : rc' = 0
  · rw [if_neg (not_not.mpr hzero)] at h
    have hunlock : Releases .contexts (do
        unlock .contexts
        return rc' : ContextProgram Ctx Int) := .unlock (.pure rc')
    rw [hunlock u rc s' (by rw [hheld, Function.update_self]) h, hheld, if_pos (hrc.mp hzero),
      Function.update_idem, ← hfree .contexts, Function.update_eq_self]
  · rw [if_pos hzero] at h
    obtain ⟨-, rfl⟩ := Prod.mk.inj (Option.some.inj h)
    rw [hheld, if_neg (mt hrc.mpr hzero)]

theorem released_of_held (hfree : ∀ m, s.held m = false) (h : s'.held = s.held) :
    Released s s' where
  unlocked := h
  acquirable m := lock_isSome_iff.mpr (h ▸ hfree m)

theorem released_iff (hfree : ∀ m, s.held m = false)
    (h : (contextTableSystem V defaultWorkdir).next a s = some s') :
    Released s s' ↔ DestroysListed a s := by
  obtain ⟨hfits, hperform⟩ := perform_of_next h
  by_cases ha : ∃ context calls, a = .destroyContext (some context) calls
  · obtain ⟨context, calls, rfl⟩ := ha
    obtain ⟨rc, t, ht, hreturn⟩ := of_bind hperform
    obtain ⟨-, rfl⟩ := Prod.mk.inj (Option.some.inj hreturn)
    have hheld := held_of_ocreDestroyContext (of_decide_eq_true hfits) hfree ht
    constructor
    · intro hreleased
      show s.state.contexts.any (·.context = context) = true
      by_contra hlisted
      have hlocked := hreleased.acquirable .contexts
      rw [lock_isSome_iff, hheld, if_neg hlisted, Function.update_self] at hlocked
      cases hlocked
    · intro hlisted
      exact released_of_held hfree (hheld.trans (if_pos hlisted))
  · have hne : ∀ context calls, a ≠ .destroyContext (some context) calls :=
      fun context calls h ↦ ha ⟨context, calls, h⟩
    have hlisted : DestroysListed a s := by
      unfold DestroysListed
      split
      · exact absurd rfl (hne _ _)
      · trivial
    exact iff_of_true (released_of_held hfree (balanced_perform hne _ _ _ hperform)) hlisted

theorem free_of_reachableWhere
    (hs : (contextTableSystem V defaultWorkdir).ReachableWhere DestroysListed s) (m : Mutex) :
    s.held m = false := by
  induction hs generalizing m with
  | start hinit => exact hinit.free m
  | step a _ ha hnext ih => rw [((released_iff ih hnext).mpr ha).unlocked, ih m]

/-- A run from the start leaves all mutexes unlocked and ready after each call if and only
if every context that it destroys is NULL or in the list. -/
theorem runKeeps_released_iff {s₀ : Locked Mutex (ContextTable Ctx)} (h₀ : Empty s₀)
    {as : List (ContextCall Ctx Ext)}
    (hrun : (contextTableSystem V defaultWorkdir).run s₀ as = some s) :
    (contextTableSystem V defaultWorkdir).RunKeeps (fun _ ↦ Released) s₀ as ↔
      (contextTableSystem V defaultWorkdir).RunMeets DestroysListed s₀ as := by
  refine StepSystem.ReachableWhere.runKeeps_iff_runMeets ?_ (.start h₀) hrun
  intro a t t' ht hnext
  exact released_iff (free_of_reachableWhere ht) hnext

/-- A runtime whose containers do nothing. -/
def quietVtable : OcreRuntimeVtable Unit Unit Unit where
  threadEntry := ()
  threadExecute _ _ _ := ((), (), false)
  threadResult _ := none
  stop := none
  kill _ _ := ((), 0)
  pause := none
  unpause := none

/-- At the start, with a working directory. -/
def emptyTable : Locked Mutex (ContextTable Unit) where
  state := ⟨[], fun _ ↦ none, fun _ ↦ none, workTree, 40⟩
  held _ := false

theorem emptyTable_empty : Empty emptyTable := ⟨rfl, fun _ ↦ rfl, fun _ ↦ rfl, fun _ ↦ rfl⟩

/-- A destruction in which nothing fails. -/
def quietCalls : DestroyContextCalls Unit Unit where
  kill _ := ()
  woken _ := some

/-- A context with a container is created and destroyed, and another one takes its place. -/
theorem runKeeps_released_of_recreated :
    ∃ s, (contextTableSystem quietVtable (cstring "/ocre")).run emptyTable
        [.createContext none { pointer := 1 },
          .createContainer (some 1) (filesystemArgs none) (promptCalls 2),
          .destroyContext (some 1) quietCalls, .createContext none { pointer := 1 }] = some s ∧
      (contextTableSystem quietVtable (cstring "/ocre")).RunKeeps (fun _ ↦ Released) emptyTable
        [.createContext none { pointer := 1 },
          .createContainer (some 1) (filesystemArgs none) (promptCalls 2),
          .destroyContext (some 1) quietCalls, .createContext none { pointer := 1 }] := by
  have hsome : ((contextTableSystem quietVtable (cstring "/ocre")).run emptyTable
      [.createContext none { pointer := 1 },
        .createContainer (some 1) (filesystemArgs none) (promptCalls 2),
        .destroyContext (some 1) quietCalls, .createContext none { pointer := 1 }]).isSome := by
    decide +kernel
  obtain ⟨s, hrun⟩ := Option.isSome_iff_exists.mp hsome
  exact ⟨s, hrun, (runKeeps_released_iff emptyTable_empty hrun).mpr (by decide +kernel)⟩

/-- A context that is destroyed twice leaves `contexts_mutex` locked. -/
theorem not_runKeeps_released_of_destroyed_twice :
    ¬ ∀ s₀ s, Empty s₀ → ∀ as,
        (contextTableSystem quietVtable (cstring "/ocre")).run s₀ as = some s →
        (contextTableSystem quietVtable (cstring "/ocre")).RunKeeps (fun _ ↦ Released) s₀ as := by
  intro h
  have hkeeps := h emptyTable _ emptyTable_empty
    [.createContext none { pointer := 1 }, .destroyContext (some 1) quietCalls,
      .destroyContext (some 1) quietCalls] rfl
  have hreleased := (((hkeeps _ rfl).2 _ rfl).2 _ rfl).1
  cases hreleased.acquirable .contexts

end ContextTable

end OcreRuntime
