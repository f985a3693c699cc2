import OcreRuntime.Lib.LockProgram
import OcreRuntime.Context.Model

/-!
# The list of contexts and the mutexes

The functions of `ocre.c` and `context.c` on contexts, with each lock, each unlock and
each way out between them. Every call of a mutex function succeeds, apart from the
initialisation and the destruction of the mutex of a context, which may fail. What a
container does between two calls is a choice from outside.
-/

namespace OcreRuntime

open LockProgram
open Function (update)

inductive Mutex
  | contexts
  | context (p : ℕ)
  | container (p : ℕ)
  deriving DecidableEq

/-- `struct context_node`. -/
structure ContextListNode where
  context : ℕ
  workingDirectory : CString
  deriving DecidableEq

/-- The list of `ocre.c`, the live contexts and containers by address, and the file
system, in which a path may lead through so many links. -/
structure ContextTable (Ctx : Type) where
  contexts : List ContextListNode
  memory : ℕ → Option OcreContext
  heap : ℕ → Option (OcreContainer Ctx)
  tree : FileSystem
  maxLinks : ℕ

abbrev ContextProgram (Ctx α : Type) := LockProgram Mutex (ContextTable Ctx) α

/-- The calls of one `create_dir_if_not_exists`: whether `stat` fails with an error other than
`ENOENT`, and whether `mkdir` fails. -/
structure DirCalls where
  stat : Bool := false
  mkdir : Bool := false

/-- What the creation of a context finds outside. The loop over the old directories
numbers its iterations. -/
structure CreateContextCalls where
  malloc : Bool := true
  strdup : Bool := true
  workdir : DirCalls := {}
  containersPath : Bool := true
  containers : DirCalls := {}
  imagesPath : Bool := true
  images : DirCalls := {}
  deletePath : Bool := true
  opendir : Bool := true
  readdir : ℕ → Bool := fun _ ↦ true
  workdirPath : ℕ → Bool := fun _ ↦ true
  rmRf : ℕ → ℕ → RmRfFaults := fun _ ↦ noRmRfFaults
  mallocContext : Bool := true
  mutexInit : Int := 0
  strdupContext : Bool := true
  pointer : ℕ

/-- What the destruction of a context finds outside. `woken` is the container as it is
when `pthread_cond_wait` returns; none if it never does. -/
structure DestroyContextCalls (Ctx Ext : Type) where
  kill : ℕ → Ext
  condWait : ℕ → Int := fun _ ↦ 0
  woken : ℕ → OcreContainer Ctx → Option (OcreContainer Ctx)
  waitJoin : ℕ → Int := fun _ ↦ 0
  remove : ℕ → RemoveCalls := fun _ ↦ {}
  mutexDestroy : Int := 0

def containersPath (workdir : CString) : CString := workdir ++ cstring "/containers"

def imagesPath (workdir : CString) : CString := workdir ++ cstring "/images"

section Directories

variable (maxLinks : ℕ)

/-- `create_dir_if_not_exists`. An error of `stat` other than `ENOENT` passes. -/
def createDirIfNotExists (calls : DirCalls) (path : CString) (tree : FileSystem) :
    Int × FileSystem :=
  match if calls.stat then none else some (tree.stat maxLinks path) with
  | some (.error .noEntry) =>
      match if calls.mkdir then none else tree.mkdirPath maxLinks path with
      | none => (-1, tree)
      | some tree => (0, tree)
  | some (.ok (.other _)) => (-1, tree)
  | none | some (.error .notDirectory) | some (.error .tooManyLinks) | some (.ok .dir) => (0, tree)

/-- `populate_context_workdir` from the path of the images on. -/
def populateImages (calls : CreateContextCalls) (workingDirectory : CString)
    (tree : FileSystem) : Int × FileSystem :=
  if ¬ calls.imagesPath then (0, tree)
  else createDirIfNotExists maxLinks calls.images (imagesPath workingDirectory) tree

/-- `populate_context_workdir` from the path of the containers on. -/
def populateContainers (calls : CreateContextCalls) (workingDirectory : CString)
    (tree : FileSystem) : Int × FileSystem :=
  if ¬ calls.containersPath then (0, tree)
  else
    let r := createDirIfNotExists maxLinks calls.containers (containersPath workingDirectory) tree
    if r.1 ≠ 0 then r else populateImages maxLinks calls workingDirectory r.2

/-- `populate_context_workdir`. A failing `malloc` leaves the result of the directory before
it, which is 0. -/
def populateContextWorkdir (calls : CreateContextCalls) (workingDirectory : CString)
    (tree : FileSystem) : Int × FileSystem :=
  let r := createDirIfNotExists maxLinks calls.workdir workingDirectory tree
  if r.1 ≠ 0 then (-1, r.2) else populateContainers maxLinks calls workingDirectory r.2

/-- The loop of `delete_container_workdirs` over what `readdir` still returns. -/
def deleteContainerWorkdirsLoop (calls : CreateContextCalls) (path : CString) :
    ℕ → List CString → FileSystem → Int × FileSystem
  | _, [], tree => (0, tree)
  | i, name :: stream, tree =>
      if ¬ calls.readdir i then (0, tree)
      else if name = cstring "." ∨ name = cstring ".." then
        deleteContainerWorkdirsLoop calls path (i + 1) stream tree
      else if ¬ calls.workdirPath i then (-1, tree)
      else
        let r := rmRfPath maxLinks (calls.rmRf i) (some (buildPath path name)) tree
        if r.1 ≠ 0 then (-1, r.2)
        else deleteContainerWorkdirsLoop calls path (i + 1) stream r.2

def deleteContainerWorkdirs (calls : CreateContextCalls) (workingDirectory : CString)
    (tree : FileSystem) : Int × FileSystem :=
  if ¬ calls.deletePath then (-1, tree)
  else match
      if calls.opendir then tree.opendir maxLinks (containersPath workingDirectory) else none with
    | none => (-1, tree)
    | some p =>
        deleteContainerWorkdirsLoop maxLinks calls (containersPath workingDirectory) 0
          (cstring "." :: cstring ".." :: tree.children p) tree

end Directories

def ocreContextCreate (calls : CreateContextCalls) (workdir : CString) : Option OcreContext :=
  if ¬ calls.mallocContext then none
  else if calls.mutexInit ≠ 0 then none
  else if ¬ calls.strdupContext then none
  else some ⟨workdir, []⟩

namespace ContextTable

variable {Point Ctx Ext : Type}

/-- Work on the context at an address, which is undefined if there is none. -/
def onContext {α : Type} (p : ℕ) (f : ContextState Ctx → α × ContextState Ctx) :
    ContextProgram Ctx α :=
  access fun s ↦ (s.memory p).map fun context ↦
    let r := f ⟨context, s.heap, s.tree, s.maxLinks, false⟩
    (r.1, { s with
      memory := update s.memory p (some r.2.context), heap := r.2.heap, tree := r.2.tree })

def readContext {α : Type} (p : ℕ) (f : ContextState Ctx → α) : ContextProgram Ctx α :=
  onContext p fun s ↦ (f s, s)

def onContainer {α : Type} (p : ℕ) (f : OcreContainer Ctx → Option (α × OcreContainer Ctx)) :
    ContextProgram Ctx α :=
  access fun s ↦ (s.heap p).bind fun c ↦ (f c).map fun r ↦
    (r.1, { s with heap := update s.heap p (some r.2) })

def onTree {α : Type} (f : ℕ → FileSystem → α × FileSystem) : ContextProgram Ctx α :=
  access fun s ↦ some ((f s.maxLinks s.tree).1, { s with tree := (f s.maxLinks s.tree).2 })

/-- The label `finish` of `ocre_create_context`. -/
def createContextFinish (context : Option ℕ) : ContextProgram Ctx (Option ℕ) := do
  unlock .contexts
  return context

/-- The label `error` of `ocre_create_context`; what it frees is not in any list. -/
def createContextError : ContextProgram Ctx (Option ℕ) := createContextFinish none

/-- `ocre_create_context`, with the default working directory of the configuration. -/
def ocreCreateContext (defaultWorkdir : CString) (workdir : Option CString)
    (calls : CreateContextCalls) : ContextProgram Ctx (Option ℕ) := do
  let workdir := workdir.getD defaultWorkdir
  lock .contexts
  let exists_ ← access fun s ↦ some (s.contexts.any (·.workingDirectory = workdir), s)
  if exists_ then createContextError
  else if ¬ calls.malloc then createContextError
  else if ¬ calls.strdup then createContextError
  else
    let rc ← onTree (populateContextWorkdir · calls workdir)
    if rc ≠ 0 then createContextError
    else
      let _ ← onTree (deleteContainerWorkdirs · calls workdir)
      match ocreContextCreate calls workdir with
      | none => createContextError
      | some context =>
          renew (.context calls.pointer)
          access fun s ↦ some ((), { s with
            memory := update s.memory calls.pointer (some context)
            contexts := s.contexts ++ [⟨calls.pointer, workdir⟩] })
          createContextFinish (some calls.pointer)

def ocreContainerKill (V : OcreRuntimeVtable Point Ctx Ext) (ext : Ext) (p : ℕ) :
    ContextProgram Ctx Int := do
  lock (.container p)
  let ret ← onContainer p fun c ↦ some (OcreRuntime.ocreContainerKill V ext c)
  unlock (.container p)
  return ret

/-- `ocre_container_wait` without a status pointer. In `pthread_cond_wait` the mutex is
free. -/
def ocreContainerWait (calls : DestroyContextCalls Ctx Ext) (p : ℕ) :
    ContextProgram Ctx Int := do
  lock (.container p)
  let result ← onContainer p fun c ↦
    some (OcreRuntime.ocreContainerWait (calls.waitJoin p) (calls.condWait p) false c)
  match result with
  | some result =>
      unlock (.container p)
      return result.ret
  | none =>
      unlock (.container p)
      onContainer p fun c ↦ (calls.woken p c).map fun c ↦ ((), c)
      lock (.container p)
      let result ← onContainer p fun c ↦
        some (ocreContainerWaitTail (calls.waitJoin p) false c)
      unlock (.container p)
      return result.ret

def killContainers (V : OcreRuntimeVtable Point Ctx Ext) (calls : DestroyContextCalls Ctx Ext) :
    List ContainerNode → ContextProgram Ctx Unit
  | [] => pure ()
  | node :: nodes => do
      let _ ← ocreContainerKill V (calls.kill node.container) node.container
      killContainers V calls nodes

def waitContainers (calls : DestroyContextCalls Ctx Ext) :
    List ContainerNode → ContextProgram Ctx Unit
  | [] => pure ()
  | node :: nodes => do
      let _ ← ocreContainerWait calls node.container
      waitContainers calls nodes

/-- `ocre_context_destroy`, with its three passes over the containers. -/
def ocreContextDestroy (V : OcreRuntimeVtable Point Ctx Ext) (context : ℕ)
    (calls : DestroyContextCalls Ctx Ext) : ContextProgram Ctx Int := do
  let nodes ← readContext context (·.context.containers)
  killContainers V calls nodes
  waitContainers calls nodes
  onContext context fun s ↦ ((), s.removeAll calls.remove nodes)
  renew (.context context)
  if calls.mutexDestroy ≠ 0 then return -1
  else
    access fun s ↦ some ((), { s with memory := update s.memory context none })
    return 0

def ocreDestroyContextLocked (V : OcreRuntimeVtable Point Ctx Ext) (context : ℕ)
    (calls : DestroyContextCalls Ctx Ext) : ContextProgram Ctx Int := do
  let found ← access fun s ↦ some (s.contexts.any (·.context = context), s)
  if found then
    let rc ← ocreContextDestroy V context calls
    if rc ≠ 0 then return rc
    else
      access fun s ↦ some ((), { s with contexts := s.contexts.eraseP (·.context = context) })
      return 0
  else return -1

def ocreDestroyContext (V : OcreRuntimeVtable Point Ctx Ext) (context : Option ℕ)
    (calls : DestroyContextCalls Ctx Ext) : ContextProgram Ctx Int :=
  match context with
  | none => return -1
  | some context => do
      lock .contexts
      let rc ← ocreDestroyContextLocked V context calls
      if rc ≠ 0 then return -1
      else
        unlock .contexts
        return rc

/-- The label `success` of `ocre_context_create_container`. -/
def createContainerSuccess (context : ℕ) (container : Option ℕ) :
    ContextProgram Ctx (Option ℕ) := do
  unlock (.context context)
  return container

/-- The label `error` of `ocre_context_create_container`, which falls through. -/
def createContainerError (context : ℕ) (workdir : Option CString) (calls : CreateCalls Ctx) :
    ContextProgram Ctx (Option ℕ) := do
  let container ← onContext context (·.createError workdir calls)
  createContainerSuccess context container

/-- `ocre_context_create_container` from the creation of the container on. -/
def createContainerIn (context : ℕ) (args : CreateArgs) (calls : CreateCalls Ctx)
    (target : CreateTarget) : ContextProgram Ctx (Option ℕ) := do
  let imagePath ← readContext context (·.imagePath target.image)
  match ocreContainerCreate imagePath target.workdir args.runtime target.id args.detached
      args.arguments args.fds calls with
  | none => createContainerError context target.workdir calls
  | some c =>
      onContext context fun s ↦ ((), { s with
        heap := update s.heap calls.pointer (some c)
        context := { s.context with
          containers := s.context.containers ++ [⟨calls.pointer, target.workdir⟩] } })
      createContainerSuccess context (some calls.pointer)

def ocreContextCreateContainer (context : Option ℕ) (args : CreateArgs)
    (calls : CreateCalls Ctx) : ContextProgram Ctx (Option ℕ) :=
  match context with
  | none => return none
  | some context =>
      if args.containerId.isSome ∧ ¬ ocreIsValidName args.containerId then return none
      else match args.image with
        | none => return none
        | some image =>
            if ¬ ocreIsValidName (some image) then return none
            else do
              lock (.context context)
              let id ← readContext context (·.computedContainerId args calls)
              match id with
              | none => createContainerError context none calls
              | some id =>
                  if calls.fails .node then createContainerError context none calls
                  else if calls.fails .imagePath then createContainerError context none calls
                  else if args.filesystem then
                    if calls.fails .workdir then createContainerError context none calls
                    else
                      let workdir ← readContext context (·.containerWorkdir id)
                      let made ← onContext context fun s ↦
                        match s.makeWorkdir (some workdir) calls with
                        | none => (false, s)
                        | some tree => (true, { s with tree := tree })
                      if made then createContainerIn context args calls ⟨image, id, some workdir⟩
                      else createContainerError context (some workdir) calls
                  else createContainerIn context args calls ⟨image, id, none⟩

def ocreContextRemoveContainer (context container : Option ℕ) (calls : RemoveCalls) :
    ContextProgram Ctx Int :=
  match context, container with
  | some context, some container => do
      lock (.context context)
      let rc ← onContext context (·.removeContainerLocked container calls)
      unlock (.context context)
      return rc
  | _, _ => return -1

def ocreContextGetContainerCount (context : Option ℕ) : ContextProgram Ctx Int :=
  match context with
  | none => return -1
  | some context => do
      lock (.context context)
      let count ← readContext context (·.ocreContextGetContainerCount)
      unlock (.context context)
      return count

/-- `ocre_context_get_containers`; the result and what has been stored. -/
def ocreContextGetContainers (context : Option ℕ) (given : Bool) (maxSize : Int) :
    ContextProgram Ctx (Int × List ℕ) :=
  match context with
  | none => return (-1, [])
  | some context =>
      if ¬ given then return (-1, [])
      else do
        lock (.context context)
        let stored ← readContext context (·.ocreContextGetContainers given maxSize)
        unlock (.context context)
        return stored

def ocreContextGetContainerById (context : Option ℕ) (id : Option CString) :
    ContextProgram Ctx (Option ℕ) :=
  match context, id with
  | some context, some id => do
      lock (.context context)
      let container ← readContext context (·.getContainerByIdLocked id)
      unlock (.context context)
      return container
  | _, _ => return none

section Sections

variable {t : ContextTable Ctx} {held : Mutex → Bool} {p : ℕ} {context : OcreContext}

/-- A context with the objects that all contexts share. -/
def view (s : ContextTable Ctx) (context : OcreContext) : ContextState Ctx :=
  ⟨context, s.heap, s.tree, s.maxLinks, false⟩

def store (s : ContextTable Ctx) (p : ℕ) (t : ContextState Ctx) : ContextTable Ctx :=
  { s with memory := update s.memory p (some t.context), heap := t.heap, tree := t.tree }

@[simp] theorem memory_store (p : ℕ) (u : ContextState Ctx) :
    (t.store p u).memory p = some u.context :=
  Function.update_self ..

@[simp] theorem view_store (p : ℕ) (u : ContextState Ctx) :
    (t.store p u).view u.context = { u with maxLinks := t.maxLinks, freed := false } := rfl

@[simp] theorem store_store (p : ℕ) (u v : ContextState Ctx) :
    (t.store p u).store p v = t.store p v := by
  simp [store]

theorem store_view (hlive : t.memory p = some context) : t.store p (t.view context) = t := by
  simp [store, view, ← hlive]

theorem onContext_eq {α : Type} (hlive : t.memory p = some context)
    (f : ContextState Ctx → α × ContextState Ctx) :
    onContext p f ⟨t, held⟩ =
      some ((f (t.view context)).1, ⟨t.store p (f (t.view context)).2, held⟩) := by
  simp [onContext, access, hlive, view, store]

theorem bind_onContext {α β : Type} (hlive : t.memory p = some context)
    (f : ContextState Ctx → α × ContextState Ctx) (k : α → ContextProgram Ctx β) :
    (onContext p f >>= k) ⟨t, held⟩ =
      k (f (t.view context)).1 ⟨t.store p (f (t.view context)).2, held⟩ := by
  simp [bind, StateT.bind, onContext_eq hlive]

theorem bind_readContext {α β : Type} (hlive : t.memory p = some context)
    (f : ContextState Ctx → α) (k : α → ContextProgram Ctx β) :
    (readContext p f >>= k) ⟨t, held⟩ = k (f (t.view context)) ⟨t, held⟩ := by
  rw [readContext, bind_onContext hlive, store_view hlive]

theorem bind_lock {α : Type} {m : Mutex} (hfree : held m = false)
    (k : Unit → ContextProgram Ctx α) :
    (lock m >>= k) ⟨t, held⟩ = k () ⟨t, update held m true⟩ := by
  simp [bind, StateT.bind, lock, hfree]

theorem unlock_return {α : Type} {m : Mutex} (hfree : held m = false) (a : α) :
    (do unlock m; return a : ContextProgram Ctx α) ⟨t, update held m true⟩ =
      some (a, ⟨t, held⟩) := by
  have hunlock : (unlock m : ContextProgram Ctx Unit) ⟨t, update held m true⟩ =
      some ((), ⟨t, held⟩) := by
    simp [unlock, ← hfree]
  change ((unlock m : ContextProgram Ctx Unit) _).bind (fun r ↦ some (a, r.2)) = _
  rw [hunlock, Option.bind_some]

theorem createContainerError_eq (hfree : held (.context p) = false)
    (hlive : t.memory p = some context) (workdir : Option CString) (calls : CreateCalls Ctx) :
    createContainerError p workdir calls ⟨t, update held (.context p) true⟩ =
      some (((t.view context).createError workdir calls).1,
        ⟨t.store p ((t.view context).createError workdir calls).2, held⟩) := by
  rw [createContainerError, bind_onContext hlive, createContainerSuccess, unlock_return hfree]

/-- The working directory has been made, and `u` is the context after that. -/
theorem createContainerIn_eq (hfree : held (.context p) = false) {args : CreateArgs}
    {calls : CreateCalls Ctx} {target : CreateTarget} {u v : ContextState Ctx}
    (htarget : v.createTarget args calls = some target)
    (hmake : v.makeWorkdir target.workdir calls = some u.tree)
    (hu : u = { v with tree := u.tree }) (hlinks : v.maxLinks = t.maxLinks)
    (hfreed : v.freed = false) :
    createContainerIn p args calls target ⟨t.store p u, update held (.context p) true⟩ =
      some ((v.ocreContextCreateContainer args calls).1,
        ⟨t.store p (v.ocreContextCreateContainer args calls).2, held⟩) := by
  have hview : (t.store p u).view u.context = u := by
    rw [view_store, ← hfreed, ← hlinks, hu]
  have hpath : u.imagePath target.image = v.imagePath target.image := by rw [hu]; rfl
  unfold ContextState.ocreContextCreateContainer
  rw [createContainerIn, bind_readContext (memory_store p u), hview, hpath, htarget]
  dsimp only
  rw [hmake]
  dsimp only
  cases hcreate : ocreContainerCreate (v.imagePath target.image) target.workdir args.runtime
      target.id args.detached args.arguments args.fds calls with
  | none =>
      dsimp only
      rw [createContainerError_eq hfree (memory_store p u), hview, store_store, ← hu]
  | some c =>
      dsimp only
      rw [bind_onContext (memory_store p u), hview, createContainerSuccess, unlock_return hfree,
        store_store]
      rw [hu]

theorem ocreContextCreateContainer_eq (hfree : held (.context p) = false)
    (hlive : t.memory p = some context) (args : CreateArgs) (calls : CreateCalls Ctx) :
    ocreContextCreateContainer (some p) args calls ⟨t, held⟩ =
      onContext p (·.ocreContextCreateContainer args calls) ⟨t, held⟩ := by
  have hearly (h : (t.view context).createTarget args calls = none) :
      some ((none : Option ℕ), (⟨t, held⟩ : Locked Mutex (ContextTable Ctx))) =
        onContext p (·.ocreContextCreateContainer args calls) ⟨t, held⟩ := by
    rw [onContext_eq hlive, ContextState.ocreContextCreateContainer, h, store_view hlive]
  have herror (h : (t.view context).createTarget args calls = none) :
      createContainerError p none calls ⟨t, update held (.context p) true⟩ =
        onContext p (·.ocreContextCreateContainer args calls) ⟨t, held⟩ := by
    rw [createContainerError_eq hfree hlive, ContextState.createError, store_view hlive, hearly h]
  unfold ocreContextCreateContainer
  dsimp only
  by_cases hid : args.containerId.isSome ∧ ¬ ocreIsValidName args.containerId
  · rw [if_pos hid]
    exact hearly (by rw [ContextState.createTarget, if_pos hid])
  rw [if_neg hid]
  cases himage : args.image with
  | none => exact hearly (by rw [ContextState.createTarget, if_neg hid, himage])
  | some image =>
      dsimp only
      by_cases hvalid : ¬ ocreIsValidName (some image) = true
      · rw [if_pos hvalid]
        exact hearly (by simp [ContextState.createTarget, himage, hvalid])
      rw [if_neg hvalid, bind_lock hfree, bind_readContext hlive]
      cases hcomputed : (t.view context).computedContainerId args calls with
      | none => exact herror (by simp [ContextState.createTarget, himage, hcomputed])
      | some id =>
          dsimp only
          have htarget : (t.view context).createTarget args calls =
              if calls.fails .node ∨ calls.fails .imagePath then none
              else if args.filesystem then
                if calls.fails .workdir then none
                else some ⟨image, id, some ((t.view context).containerWorkdir id)⟩
              else some ⟨image, id, none⟩ := by
            rw [ContextState.createTarget, if_neg hid, himage]
            dsimp only
            rw [if_neg hvalid, hcomputed]
          by_cases hnode : calls.fails .node = true
          · rw [if_pos hnode]
            exact herror (by rw [htarget, if_pos (.inl hnode)])
          by_cases hpath : calls.fails .imagePath = true
          · rw [if_neg hnode, if_pos hpath]
            exact herror (by rw [htarget, if_pos (.inr hpath)])
          rw [if_neg (not_or.mpr ⟨hnode, hpath⟩)] at htarget
          rw [if_neg hnode, if_neg hpath]
          by_cases hfs : args.filesystem = true
          · rw [if_pos hfs]
            rw [if_pos hfs] at htarget
            by_cases hworkdir : calls.fails .workdir = true
            · rw [if_pos hworkdir]
              exact herror (by rw [htarget, if_pos hworkdir])
            rw [if_neg hworkdir] at htarget
            rw [if_neg hworkdir, bind_readContext hlive, bind_onContext hlive]
            cases hmake : (t.view context).makeWorkdir
                (some ((t.view context).containerWorkdir id)) calls with
            | none =>
                dsimp only
                rw [if_neg Bool.false_ne_true, store_view hlive,
                  createContainerError_eq hfree hlive, onContext_eq hlive,
                  ContextState.ocreContextCreateContainer, htarget]
                dsimp only
                rw [hmake]
            | some tree =>
                dsimp only
                rw [if_pos rfl, createContainerIn_eq hfree htarget hmake rfl rfl rfl,
                  onContext_eq hlive]
          · rw [if_neg hfs]
            rw [if_neg hfs] at htarget
            have hin :=
              createContainerIn_eq (t := t) hfree htarget (u := t.view context) rfl rfl rfl rfl
            rw [store_view hlive] at hin
            rw [hin, onContext_eq hlive]

theorem section_eq {α : Type} (hfree : held (.context p) = false)
    (f : ContextState Ctx → α × ContextState Ctx) :
    (do
      lock (.context p)
      let result ← onContext p f
      unlock (.context p)
      return result : ContextProgram Ctx α) ⟨t, held⟩ = onContext p f ⟨t, held⟩ :=
  lock_access_unlock (s := ⟨t, held⟩) hfree _

theorem ocreContextRemoveContainer_eq (hfree : held (.context p) = false) (container : ℕ)
    (calls : RemoveCalls) :
    ocreContextRemoveContainer (some p) (some container) calls ⟨t, held⟩ =
      onContext p (·.ocreContextRemoveContainer (some container) calls) ⟨t, held⟩ :=
  section_eq hfree _

theorem ocreContextGetContainerCount_eq (hfree : held (.context p) = false) :
    ocreContextGetContainerCount (some p) ⟨t, held⟩ =
      readContext p (·.ocreContextGetContainerCount) ⟨t, held⟩ :=
  section_eq hfree fun s ↦ (s.ocreContextGetContainerCount, s)

theorem ocreContextGetContainers_eq (hfree : held (.context p) = false) (maxSize : Int) :
    ocreContextGetContainers (some p) true maxSize ⟨t, held⟩ =
      readContext p (·.ocreContextGetContainers true maxSize) ⟨t, held⟩ :=
  section_eq hfree fun s ↦ (s.ocreContextGetContainers true maxSize, s)

theorem ocreContextGetContainerById_eq (hfree : held (.context p) = false) (id : CString) :
    ocreContextGetContainerById (some p) (some id) ⟨t, held⟩ =
      readContext p (·.ocreContextGetContainerById (some id)) ⟨t, held⟩ :=
  section_eq hfree fun s ↦ (s.getContainerByIdLocked id, s)

end Sections

end ContextTable

end OcreRuntime
