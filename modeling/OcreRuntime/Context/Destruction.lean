import OcreRuntime.Container.Ending
import OcreRuntime.Context.Operations

/-!
# The destruction of a context, interleaved with its containers

`ocre_context_destroy` takes no lock. Its passes call the operations of the listed
containers one after the other, each of which is a call of the container system,
and the threads and other callers go on between the steps. Before that, containers are
created and removed under the context mutex, and a removal is a call on the container as
well. A context whose destruction has begun is used for nothing else.
-/

namespace OcreRuntime

/-- The pass of the destruction, the nodes it still has to come to, and the number of the call
that is in progress on the container of the first one. Before the destruction there may be a
call of `ocre_context_remove_container` in progress, on the container of a node. -/
inductive TeardownPass
  | idle
  | removal (call : ℕ) (node : ContainerNode)
  | kill (todo : List ContainerNode)
  | wait (call : Option ℕ) (todo : List ContainerNode)
  | remove (call : Option ℕ) (todo : List ContainerNode)
  | returned (ret : Int)
  deriving DecidableEq

/-- The destruction has begun. -/
def TeardownPass.isDestroying : TeardownPass → Bool
  | .idle | .removal .. => false
  | _ => true

/-- A context, the last container at each address, and the file system. Where there is no
container the world is that of a destroyed one. -/
structure TeardownWorld (Point Ctx : Type) where
  context : OcreContext
  worlds : ℕ → ContainerWorld Point Ctx
  tree : FileSystem
  maxLinks : ℕ
  pass : TeardownPass

/-- The steps: of a container by its address, of the world outside on the file
system, of the callers that create and remove containers, and of the destruction. -/
inductive TeardownAct (Ctx Ext : Type)
  | container (p : ℕ) (a : Act Ext)
  | files (tree : FileSystem)
  | createContainer (args : CreateArgs) (calls : CreateCalls Ctx)
  | removeContainer (k : ℕ) (p : ℕ)
  | containerRemoved (faults : ℕ → RmRfFaults)
  | destroy
  | kill (k : ℕ) (ext : Ext)
  | killed
  | wait (k : ℕ) (condRc : Int)
  | waited
  | allWaited
  | remove (k : ℕ)
  | removed (faults : ℕ → RmRfFaults)
  | mutexDestroy (rc : Int)

def CallState.result : CallState → Option Int
  | .returned ret _ => some ret
  | _ => none

namespace TeardownWorld

open Function (update)

variable {Point Ctx Ext : Type} (V : OcreRuntimeVtable Point Ctx Ext)

/-- A step of the container at `p`, after which the destruction is at `pass`. -/
def act (s : TeardownWorld Point Ctx) (p : ℕ) (a : Act Ext) (pass : TeardownPass) :
    Option (TeardownWorld Point Ctx) :=
  ((s.worlds p).next V a).map fun w ↦ { s with worlds := update s.worlds p w, pass := pass }

/-- What the call in progress has returned. -/
def result (s : TeardownWorld Point Ctx) (k : ℕ) (node : ContainerNode) : Option Int :=
  ((s.worlds node.container).calls k).result

/-- The context as its creations see it. -/
def view (s : TeardownWorld Point Ctx) : ContextState Ctx where
  context := s.context
  heap p := if (s.worlds p).destroyed then none else some (s.worlds p).container
  tree := s.tree
  maxLinks := s.maxLinks
  freed := false

/-- `ocre_context_create_container`. -/
def create (s : TeardownWorld Point Ctx) (args : CreateArgs) (calls : CreateCalls Ctx) :
    TeardownWorld Point Ctx :=
  let r := (s.view.ocreContextCreateContainer args calls).2
  { s with
    context := r.context
    worlds := match r.heap calls.pointer with
      | none => s.worlds
      | some c => update s.worlds calls.pointer (.ofContainer c)
    tree := r.tree }

/-- `ocre_context_remove_container_locked` once the container of its node has been destroyed
or not. In the destruction the list is searched for the container of the first node, and what
is found is this node. -/
def removeNode (s : TeardownWorld Point Ctx) (node : ContainerNode) (pass : TeardownPass)
    (ret : Int) (faults : ℕ → RmRfFaults) : TeardownWorld Point Ctx :=
  if ret ≠ 0 then { s with pass := pass }
  else
    let r := node.removeWorkdir s.maxLinks faults s.tree
    if r.1 ≠ 0 then { s with tree := r.2, pass := pass }
    else { s with
      tree := r.2
      context := { s.context with
        containers := s.context.containers.eraseP (·.container = node.container) }
      pass := pass }

@[simp] theorem removeNode_pass (s : TeardownWorld Point Ctx) (node : ContainerNode)
    (pass : TeardownPass) (ret : Int) (faults : ℕ → RmRfFaults) :
    (s.removeNode node pass ret faults).pass = pass := by
  unfold removeNode
  dsimp only
  split_ifs <;> rfl

def next (a : TeardownAct Ctx Ext) (s : TeardownWorld Point Ctx) :
    Option (TeardownWorld Point Ctx) :=
  match a with
  | .container p a => if a.isRemoval then none else s.act V p a s.pass
  | .files tree => if WellNamed tree then some { s with tree := tree } else none
  | .createContainer args calls => match s.pass with
      | .idle => if (s.worlds calls.pointer).destroyed then some (s.create args calls) else none
      | _ => none
  | .removeContainer k p => match s.pass with
      | .idle => match s.context.containers.find? (·.container = p) with
          | none => some s
          | some node => s.act V p (.destroyRead k) (.removal k node)
      | _ => none
  | .containerRemoved faults => match s.pass with
      | .removal k node => (s.result k node).map fun ret ↦ s.removeNode node .idle ret faults
      | _ => none
  | .destroy => match s.pass with
      | .idle => some { s with pass := .kill s.context.containers }
      | _ => none
  | .kill k ext => match s.pass with
      | .kill (node :: todo) => s.act V node.container (.signal k .kill ext) (.kill todo)
      | _ => none
  | .killed => match s.pass with
      | .kill [] => some { s with pass := .wait none s.context.containers }
      | _ => none
  | .wait k condRc => match s.pass with
      | .wait none (node :: todo) =>
          s.act V node.container (.wait k false condRc) (.wait (some k) (node :: todo))
      | _ => none
  | .waited => match s.pass with
      | .wait (some k) (node :: todo) =>
          (s.result k node).map fun _ ↦ { s with pass := .wait none todo }
      | _ => none
  | .allWaited => match s.pass with
      | .wait none [] => some { s with pass := .remove none s.context.containers }
      | _ => none
  | .remove k => match s.pass with
      | .remove none (node :: todo) =>
          s.act V node.container (.destroyRead k) (.remove (some k) (node :: todo))
      | _ => none
  | .removed faults => match s.pass with
      | .remove (some k) (node :: todo) =>
          (s.result k node).map fun ret ↦ s.removeNode node (.remove none todo) ret faults
      | _ => none
  | .mutexDestroy rc => match s.pass with
      | .remove none [] => some { s with pass := .returned (if rc ≠ 0 then -1 else 0) }
      | _ => none

/-- The steps by their guards and effects. -/
inductive Step (V : OcreRuntimeVtable Point Ctx Ext) (s : TeardownWorld Point Ctx) :
    TeardownAct Ctx Ext → TeardownWorld Point Ctx → Prop
  | container (p : ℕ) (a : Act Ext) (s' : TeardownWorld Point Ctx) :
      a.isRemoval = false → s.act V p a s.pass = some s' → Step V s (.container p a) s'
  | files (tree : FileSystem) : WellNamed tree → Step V s (.files tree) { s with tree := tree }
  | createContainer (args : CreateArgs) (calls : CreateCalls Ctx) :
      s.pass = .idle → (s.worlds calls.pointer).destroyed = true →
      Step V s (.createContainer args calls) (s.create args calls)
  | unlisted (k p : ℕ) : s.pass = .idle → Step V s (.removeContainer k p) s
  | removeContainer (k p : ℕ) (node : ContainerNode) (s' : TeardownWorld Point Ctx) :
      s.pass = .idle → s.context.containers.find? (·.container = p) = some node →
      s.act V p (.destroyRead k) (.removal k node) = some s' →
      Step V s (.removeContainer k p) s'
  | containerRemoved (faults : ℕ → RmRfFaults) (k : ℕ) (node : ContainerNode) (ret : Int) :
      s.pass = .removal k node → s.result k node = some ret →
      Step V s (.containerRemoved faults) (s.removeNode node .idle ret faults)
  | destroy : s.pass = .idle → Step V s .destroy { s with pass := .kill s.context.containers }
  | kill (k : ℕ) (ext : Ext) (node : ContainerNode) (todo : List ContainerNode)
      (s' : TeardownWorld Point Ctx) :
      s.pass = .kill (node :: todo) →
      s.act V node.container (.signal k .kill ext) (.kill todo) = some s' →
      Step V s (.kill k ext) s'
  | killed :
      s.pass = .kill [] → Step V s .killed { s with pass := .wait none s.context.containers }
  | wait (k : ℕ) (condRc : Int) (node : ContainerNode) (todo : List ContainerNode)
      (s' : TeardownWorld Point Ctx) :
      s.pass = .wait none (node :: todo) →
      s.act V node.container (.wait k false condRc) (.wait (some k) (node :: todo)) = some s' →
      Step V s (.wait k condRc) s'
  | waited (k : ℕ) (node : ContainerNode) (todo : List ContainerNode) (ret : Int) :
      s.pass = .wait (some k) (node :: todo) → s.result k node = some ret →
      Step V s .waited { s with pass := .wait none todo }
  | allWaited : s.pass = .wait none [] →
      Step V s .allWaited { s with pass := .remove none s.context.containers }
  | remove (k : ℕ) (node : ContainerNode) (todo : List ContainerNode)
      (s' : TeardownWorld Point Ctx) :
      s.pass = .remove none (node :: todo) →
      s.act V node.container (.destroyRead k) (.remove (some k) (node :: todo)) = some s' →
      Step V s (.remove k) s'
  | removed (faults : ℕ → RmRfFaults) (k : ℕ) (node : ContainerNode)
      (todo : List ContainerNode) (ret : Int) :
      s.pass = .remove (some k) (node :: todo) → s.result k node = some ret →
      Step V s (.removed faults) (s.removeNode node (.remove none todo) ret faults)
  | mutexDestroy (rc : Int) : s.pass = .remove none [] →
      Step V s (.mutexDestroy rc) { s with pass := .returned (if rc ≠ 0 then -1 else 0) }

theorem step_of_next {s s' : TeardownWorld Point Ctx} {a : TeardownAct Ctx Ext}
    (h : s.next V a = some s') : Step V s a s' := by
  cases a with
  | container p a =>
      obtain ⟨ha, hact⟩ := Option.ite_none_left_eq_some.mp h
      exact .container p a s' (by simpa using ha) hact
  | files tree =>
      obtain ⟨hnamed, h⟩ := Option.ite_none_right_eq_some.mp h
      exact Option.some.inj h ▸ .files tree hnamed
  | createContainer args calls =>
      simp only [next] at h
      split at h
      · rename_i hpass
        obtain ⟨hfree, h⟩ := Option.ite_none_right_eq_some.mp h
        exact Option.some.inj h ▸ .createContainer args calls hpass hfree
      · cases h
  | removeContainer k p =>
      simp only [next] at h
      split at h
      · rename_i hpass
        split at h
        · exact Option.some.inj h ▸ .unlisted k p hpass
        · rename_i node hnode
          exact .removeContainer k p node s' hpass hnode h
      · cases h
  | containerRemoved faults =>
      simp only [next] at h
      split at h
      · rename_i k node hpass
        obtain ⟨ret, hret, rfl⟩ := Option.map_eq_some_iff.mp h
        exact .containerRemoved faults k node ret hpass hret
      · cases h
  | destroy =>
      simp only [next] at h
      split at h
      · rename_i hpass
        exact Option.some.inj h ▸ .destroy hpass
      · cases h
  | kill k ext =>
      simp only [next] at h
      split at h
      · rename_i node todo hpass
        exact .kill k ext node todo s' hpass h
      · cases h
  | killed =>
      simp only [next] at h
      split at h
      · rename_i hpass
        exact Option.some.inj h ▸ .killed hpass
      · cases h
  | wait k condRc =>
      simp only [next] at h
      split at h
      · rename_i node todo hpass
        exact .wait k condRc node todo s' hpass h
      · cases h
  | waited =>
      simp only [next] at h
      split at h
      · rename_i k node todo hpass
        obtain ⟨ret, hret, rfl⟩ := Option.map_eq_some_iff.mp h
        exact .waited k node todo ret hpass hret
      · cases h
  | allWaited =>
      simp only [next] at h
      split at h
      · rename_i hpass
        exact Option.some.inj h ▸ .allWaited hpass
      · cases h
  | remove k =>
      simp only [next] at h
      split at h
      · rename_i node todo hpass
        exact .remove k node todo s' hpass h
      · cases h
  | removed faults =>
      simp only [next] at h
      split at h
      · rename_i k node todo hpass
        obtain ⟨ret, hret, rfl⟩ := Option.map_eq_some_iff.mp h
        exact .removed faults k node todo ret hpass hret
      · cases h
  | mutexDestroy rc =>
      simp only [next] at h
      split at h
      · rename_i hpass
        exact Option.some.inj h ▸ .mutexDestroy rc hpass
      · cases h

/-- A context that `ocre_context_create` has just returned. -/
structure Fresh (s : TeardownWorld Point Ctx) : Prop where
  containers : s.context.containers = []
  destroyed : ∀ p, (s.worlds p).destroyed = true
  wellNamed : WellNamed s.tree
  pass : s.pass = .idle

/-- A container is gone with all that belonged to it: its threads have been joined, it
has been destroyed, and its working directory has been removed. -/
structure Complete (s : TeardownWorld Point Ctx) (node : ContainerNode) : Prop where
  joined : ∀ n < (s.worlds node.container).created,
    ((s.worlds node.container).threads n).joins = 1
  destroyed : (s.worlds node.container).destroyed = true
  workdir : ∀ workdir ∈ node.workingDirectory, s.tree.lstat s.maxLinks workdir = none

/-- The destruction waits for call `k` on the container at `p`. -/
def waitsOn (s : TeardownWorld Point Ctx) (k p : ℕ) : Bool :=
  match s.pass with
  | .wait (some j) (node :: _) => j = k && node.container = p
  | _ => false

/-- The steps that bring a container back to life or to a pause, and the spurious
wake-ups of the destruction itself. -/
def disturbs (s : TeardownWorld Point Ctx) (p : ℕ) (a : Act Ext) : Bool :=
  a.revives || match a with
    | .spurious k => s.waitsOn k p
    | _ => false

/-- If the container of the removal in progress has been destroyed, `rm_rf` on its working
directory returns 0. -/
def RemovesWorkdir (s : TeardownWorld Point Ctx) (faults : ℕ → RmRfFaults) : Prop :=
  match s.pass with
  | .removal k node | .remove (some k) (node :: _) =>
      s.result k node = some 0 → (node.removeWorkdir s.maxLinks faults s.tree).1 = 0
  | _ => True

/-- Threads are collected as they should be, and `rm_rf` returns 0 for a container that has
been destroyed; when the destruction begins no container is paused, and then no start and no
pause is called and no wake-up is spurious; `pthread_cond_wait` does not fail; the file system
is not changed from outside once the removals have begun. -/
def TeardownOk (a : TeardownAct Ctx Ext) (s : TeardownWorld Point Ctx) : Prop :=
  match a with
  | .container p a => ContainerWorld.CollectOk a (s.worlds p) ∧
      (s.pass.isDestroying = true → s.disturbs p a = false)
  | .files _ => match s.pass with
      | .remove .. | .returned _ => False
      | _ => True
  | .destroy => ∀ node ∈ s.context.containers,
      (s.worlds node.container).container.status ≠ .paused
  | .wait _ condRc => condRc = 0
  | .containerRemoved faults | .removed faults => s.RemovesWorkdir faults
  | _ => True

instance (s : TeardownWorld Point Ctx) (faults : ℕ → RmRfFaults) :
    Decidable (s.RemovesWorkdir faults) := by
  unfold RemovesWorkdir
  split <;> infer_instance

instance (a : TeardownAct Ctx Ext) (s : TeardownWorld Point Ctx) :
    Decidable (TeardownOk a s) := by
  unfold TeardownOk
  split <;> try split
  all_goals infer_instance

end TeardownWorld

def teardownSystem {Point Ctx Ext : Type} (V : OcreRuntimeVtable Point Ctx Ext) :
    StepSystem (TeardownWorld Point Ctx) (TeardownAct Ctx Ext) where
  init := TeardownWorld.Fresh
  next := TeardownWorld.next V

/-- A new context in a working directory. -/
def workTeardown : TeardownWorld Bool Unit where
  context := workContext.context
  worlds _ := { promptWorld with destroyed := true }
  tree := workTree
  maxLinks := 40
  pass := .idle

theorem workTeardown_fresh : workTeardown.Fresh where
  containers := rfl
  destroyed _ := rfl
  wellNamed := wellNamed_workTree
  pass := rfl

end OcreRuntime
