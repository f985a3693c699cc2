import OcreRuntime.Context.Dangling
import OcreRuntime.Lib.LinkedList

/-!
# The list of containers by its links

The operations on a context once more, with the nodes of its list at their addresses: a node is
allocated and freed, and the loops follow the links. Touching a node that is not allocated, or
the container of a node when it has been destroyed, is undefined. As long as no removal is
stopped by its working directory nothing undefined is done, the operations return what they
return on the list of the entries, and the nodes that are allocated are those of the list.
-/

namespace OcreRuntime

/-- `struct ocre_context`, with the nodes of its list, the live containers and the files. -/
structure LinkedContext (Ctx : Type) where
  workingDirectory : CString
  containers : ℕ
  nodes : LinkedList.Memory ContainerNode
  heap : ℕ → Option (OcreContainer Ctx)
  tree : FileSystem
  maxLinks : ℕ
  freed : Bool

/-- What an operation returns, and what it stores. -/
inductive ContextAnswer
  | container (container : Option ℕ)
  | status (rc : Int)
  | stored (count : Int) (containers : List ℕ)
  | none
  deriving DecidableEq

namespace LinkedContext

open Function (update)
open LinkedList (forEach forEachSafe)

variable {Ctx : Type} (fuel : ℕ)

def compareId (id : CString) (_ : ℕ) (node : ContainerNode) (t : LinkedContext Ctx) :
    Option (Except (Option ℕ) (LinkedContext Ctx)) := do
  let c ← t.heap node.container
  if c.id = id then some (.error (some node.container)) else some (.ok t)

/-- `ocre_context_get_container_by_id_locked`. -/
def getContainerByIdLocked (t : LinkedContext Ctx) (id : CString) : Option (Option ℕ) := do
  match ← forEach nodes (compareId id) fuel t.containers t with
  | .error found => some found
  | .ok _ => some none

def computedContainerId (t : LinkedContext Ctx) (args : CreateArgs) (calls : CreateCalls Ctx) :
    Option (Option CString) :=
  match args.containerId with
  | none =>
      if calls.fails .randomId then some none
      else ((List.range 100).map (ContextState.generateRandomId calls.rand)).findM? fun id ↦
        (t.getContainerByIdLocked fuel id).map Option.isNone
  | some id => (t.getContainerByIdLocked fuel id).map fun found ↦
      if found.isSome then none else some id

/-- The label `error` of a creation that has a node. -/
def createError (t : LinkedContext Ctx) (node : ℕ) (workdir : Option CString)
    (calls : CreateCalls Ctx) : Option (Option ℕ × LinkedContext Ctx) :=
  (LinkedList.free t.nodes node).map fun nodes ↦ (none, { t with
    nodes := nodes
    tree := match workdir with
      | none => t.tree
      | some workdir => (rmRfPath t.maxLinks calls.rmRf (some workdir) t.tree).2 })

/-- `ocre_context_create_container` from the call of `ocre_container_create` on. -/
def createContainer (t : LinkedContext Ctx) (node : ℕ) (target : CreateTarget)
    (args : CreateArgs) (calls : CreateCalls Ctx) : Option (Option ℕ × LinkedContext Ctx) :=
  match ocreContainerCreate (t.workingDirectory ++ cstring "/images/" ++ target.image)
      target.workdir args.runtime target.id args.detached args.arguments args.fds calls with
  | none => t.createError node target.workdir calls
  | some c => do
      let nodes ← LinkedList.setValue t.nodes node ⟨calls.pointer, target.workdir⟩
      let (containers, nodes) ← LinkedList.append fuel nodes t.containers node
      some (some calls.pointer, { t with
        containers := containers
        nodes := nodes
        heap := update t.heap calls.pointer (some c) })

/-- The same from the node on, which is there. -/
def createOnNode (t : LinkedContext Ctx) (node : ℕ) (image id : CString) (args : CreateArgs)
    (calls : CreateCalls Ctx) : Option (Option ℕ × LinkedContext Ctx) :=
  if calls.fails .imagePath then t.createError node none calls
  else if args.filesystem then
    if calls.fails .workdir then t.createError node none calls
    else
      let workdir := t.workingDirectory ++ cstring "/containers/" ++ id
      match if calls.fails .mkdir then none else t.tree.mkdirPath t.maxLinks workdir with
      | none => t.createError node (some workdir) calls
      | some tree =>
          { t with tree := tree }.createContainer fuel node ⟨image, id, some workdir⟩ args calls
  else t.createContainer fuel node ⟨image, id, none⟩ args calls

/-- `ocre_context_create_container`, to which `malloc` gives a node at an address. -/
def ocreContextCreateContainer (t : LinkedContext Ctx) (node : ℕ) (args : CreateArgs)
    (calls : CreateCalls Ctx) : Option (Option ℕ × LinkedContext Ctx) :=
  if args.containerId.isSome ∧ ¬ ocreIsValidName args.containerId then some (none, t)
  else match args.image with
    | none => some (none, t)
    | some image =>
        if ¬ ocreIsValidName (some image) then some (none, t)
        else do
          match ← t.computedContainerId fuel args calls with
          | none => some (none, t)
          | some id =>
              if calls.fails .node then some (none, t)
              else
                let nodes := update t.nodes node (some ⟨⟨0, none⟩, 0⟩)
                { t with nodes := nodes }.createOnNode fuel node image id args calls

/-- A round of `ocre_context_remove_container_locked` on the node of the container. -/
def removeNode (t : LinkedContext Ctx) (p : ℕ) (node : ContainerNode) (calls : RemoveCalls) :
    Option (Int × LinkedContext Ctx) := do
  let c ← t.heap node.container
  match ocreContainerDestroy calls.joinRc c with
  | some c => some (-1, { t with heap := update t.heap node.container (some c) })
  | none =>
      let r := node.removeWorkdir t.maxLinks calls.rmRf t.tree
      let t := { t with heap := update t.heap node.container none, tree := r.2 }
      if r.1 ≠ 0 then some (-1, t)
      else do
        let (containers, nodes) ← LinkedList.delete fuel t.nodes t.containers p
        let nodes ← LinkedList.free nodes p
        some (0, { t with containers := containers, nodes := nodes })

def removeIf (container : ℕ) (calls : RemoveCalls) (p : ℕ) (node : ContainerNode)
    (t : LinkedContext Ctx) : Option (Except (Int × LinkedContext Ctx) (LinkedContext Ctx)) :=
  if node.container = container then (t.removeNode fuel p node calls).map .error
  else some (.ok t)

/-- `ocre_context_remove_container_locked`. -/
def removeContainerLocked (t : LinkedContext Ctx) (container : ℕ) (calls : RemoveCalls) :
    Option (Int × LinkedContext Ctx) := do
  match ← forEachSafe nodes (removeIf fuel container calls) fuel t.containers t with
  | .error r => some r
  | .ok t => some (-1, t)

def ocreContextRemoveContainer (t : LinkedContext Ctx) (container : Option ℕ)
    (calls : RemoveCalls) : Option (Int × LinkedContext Ctx) :=
  match container with
  | none => some (-1, t)
  | some container => t.removeContainerLocked fuel container calls

def ocreContextGetContainerById (t : LinkedContext Ctx) (id : Option CString) :
    Option (Option ℕ) :=
  match id with
  | none => some none
  | some id => t.getContainerByIdLocked fuel id

def count (_ : ℕ) (_ : ContainerNode) (s : Int × LinkedContext Ctx) :
    Option (Except Unit (Int × LinkedContext Ctx)) :=
  some (.ok (s.1 + 1, s.2))

def ocreContextGetContainerCount (t : LinkedContext Ctx) : Option Int := do
  let r ← forEach (fun s ↦ s.2.nodes) count fuel t.containers (0, t)
  r.toOption.map Prod.fst

def store (maxSize : Int) (_ : ℕ) (node : ContainerNode) (s : List ℕ × LinkedContext Ctx) :
    Option (Except (List ℕ) (List ℕ × LinkedContext Ctx)) :=
  if (s.1.length : Int) ≥ maxSize then some (.error s.1)
  else some (.ok (s.1 ++ [node.container], s.2))

/-- `ocre_context_get_containers`, with what has been stored. -/
def ocreContextGetContainers (t : LinkedContext Ctx) (given : Bool) (maxSize : Int) :
    Option (Int × List ℕ) :=
  if ¬ given then some (-1, [])
  else do
    match ← forEach (fun s ↦ s.2.nodes) (store maxSize) fuel t.containers ([], t) with
    | .error stored => some (stored.length, stored)
    | .ok s => some (s.1.length, s.1)

/-- A round that kills the container, or waits for it: it must be alive, and the list is not
changed. -/
def touch (_ : ℕ) (node : ContainerNode) (t : LinkedContext Ctx) :
    Option (Except Unit (LinkedContext Ctx)) :=
  (t.heap node.container).map fun _ ↦ .ok t

def remove (calls : ℕ → RemoveCalls) (_ : ℕ) (node : ContainerNode) (t : LinkedContext Ctx) :
    Option (Except Unit (LinkedContext Ctx)) :=
  (t.removeContainerLocked fuel node.container (calls node.container)).map fun r ↦ .ok r.2

def ocreContextDestroy (t : LinkedContext Ctx) (calls : ℕ → RemoveCalls) :
    Option (LinkedContext Ctx) := do
  let t ← (← forEach nodes touch fuel t.containers t).toOption
  let t ← (← forEach nodes touch fuel t.containers t).toOption
  let t ← (← forEachSafe nodes (remove fuel calls) fuel t.containers t).toOption
  some { t with freed := true }

/-- An operation, with the address that `malloc` has for a node. -/
def perform (a : ContextAct Ctx) (node : ℕ) (t : LinkedContext Ctx) :
    Option (ContextAnswer × LinkedContext Ctx) :=
  match a with
  | .create args calls =>
      (t.ocreContextCreateContainer fuel node args calls).map fun r ↦ (.container r.1, r.2)
  | .remove container calls =>
      (t.ocreContextRemoveContainer fuel container calls).map fun r ↦ (.status r.1, r.2)
  | .getById id => (t.ocreContextGetContainerById fuel id).map fun r ↦ (.container r, t)
  | .getCount => (t.ocreContextGetContainerCount fuel).map fun count ↦ (.status count, t)
  | .getContainers given maxSize =>
      (t.ocreContextGetContainers fuel given maxSize).map fun r ↦ (.stored r.1 r.2, t)
  | .destroy calls => (t.ocreContextDestroy fuel calls).map fun t ↦ (.none, t)
  | .evolve container c => some (.none, { t with heap := update t.heap container (some c) })

/-- What the callers and the allocators take care of: a context that has been freed is not used,
and what is allocated is not in use. -/
def enabled (a : ContextAct Ctx) (node : ℕ) (t : LinkedContext Ctx) : Bool :=
  !t.freed && match a with
    | .create _ calls => (t.heap calls.pointer).isNone && node ≠ 0 && (t.nodes node).isNone
    | .evolve container c => (t.heap container).any fun old ↦ c.id = old.id
    | _ => true

/-- What `ocre_context_create` returns. -/
structure Fresh (t : LinkedContext Ctx) : Prop where
  containers : t.containers = 0
  nodes : ∀ p, t.nodes p = none
  freed : t.freed = false

/-- The context without containers. -/
def empty (t : LinkedContext Ctx) : ContextState Ctx where
  context := ⟨t.workingDirectory, []⟩
  heap := t.heap
  tree := t.tree
  maxLinks := t.maxLinks
  freed := t.freed

variable {fuel} {t t' : LinkedContext Ctx} {s s' : ContextState Ctx}
  {entries : List (ℕ × ContainerNode)} {node : ℕ}

/-- The links lead through the nodes of the listed containers, and no other node is allocated. -/
structure Represents (t : LinkedContext Ctx) (s : ContextState Ctx)
    (entries : List (ℕ × ContainerNode)) : Prop where
  lists : LinkedList.Lists t.nodes t.containers entries
  allocated : ∀ p, t.nodes p ≠ none → p ∈ entries.map Prod.fst
  containers : s.context.containers = entries.map Prod.snd
  workingDirectory : t.workingDirectory = s.context.workingDirectory
  heap : t.heap = s.heap
  tree : t.tree = s.tree
  maxLinks : t.maxLinks = s.maxLinks
  freed : t.freed = s.freed

/-- The operation is defined, returns what the one on the list of the entries does, and leaves a
context that represents the one left there. -/
def Refines {α : Type} (size : ℕ) (r : α × ContextState Ctx)
    (linked : Option (α × LinkedContext Ctx)) : Prop :=
  ∃ t entries, linked = some (r.1, t) ∧ Represents t r.2 entries ∧ entries.length ≤ size

namespace Represents

theorem unlisted (h : Represents t s entries) (hnode : t.nodes node = none) :
    node ∉ entries.map Prod.fst := by
  intro hmem
  obtain ⟨e, he, rfl⟩ := List.mem_map.mp hmem
  obtain ⟨-, next, hsome⟩ := h.lists.node he
  simp [hsome] at hnode

theorem live (h : Represents t s entries) (hinv : s.Inv) {e : ℕ × ContainerNode}
    (he : e ∈ entries) : ∃ c, s.heap e.2.container = some c := by
  refine Option.ne_none_iff_exists'.mp fun hdead ↦ hinv.live _ ⟨⟨e.2, ?_, rfl⟩, hdead⟩
  rw [h.containers]
  exact List.mem_map_of_mem he

theorem withTree (h : Represents t s entries) (tree : FileSystem) :
    Represents { t with tree := tree } { s with tree := tree } entries where
  __ := h
  tree := rfl

theorem getContainerByIdLocked (h : Represents t s entries) (hinv : s.Inv)
    (hfuel : entries.length ≤ fuel) (id : CString) :
    t.getContainerByIdLocked fuel id = some (s.getContainerByIdLocked id) := by
  -- what is found in the rest of the list is what is found in the whole of it
  let I (l : List (ℕ × ContainerNode)) (t' : LinkedContext Ctx) : Prop :=
    t' = t ∧ (∀ e ∈ l, e ∈ entries) ∧
      ContextState.findById s.heap id (l.map Prod.snd) = s.getContainerByIdLocked id
  have hstart : I entries t := by
    refine ⟨rfl, fun _ he ↦ he, ?_⟩
    rw [← h.containers]
    rfl
  have hround (e : ℕ × ContainerNode) (l : List (ℕ × ContainerNode)) (t' : LinkedContext Ctx)
      (hI : I (e :: l) t') :
      (∃ found, compareId id e.1 e.2 t' = some (.error found) ∧
        found = s.getContainerByIdLocked id) ∨
      ∃ t'', compareId id e.1 e.2 t' = some (.ok t'') ∧ I l t'' ∧ t''.nodes = t'.nodes := by
    obtain ⟨rfl, hmem, hfind⟩ := hI
    obtain ⟨he, hl⟩ := List.forall_mem_cons.mp hmem
    obtain ⟨c, hc⟩ := h.live hinv he
    simp only [compareId, h.heap, hc, Option.bind_eq_bind, Option.bind_some]
    simp only [List.map_cons, ContextState.findById, hc] at hfind
    by_cases hid : c.id = id
    · rw [if_pos hid] at hfind ⊢
      exact .inl ⟨_, rfl, hfind⟩
    · rw [if_neg hid] at hfind ⊢
      exact .inr ⟨_, rfl, ⟨rfl, hl, hfind⟩, rfl⟩
  rw [LinkedContext.getContainerByIdLocked]
  rcases LinkedList.forEach_spec hround h.lists hstart hfuel with
    ⟨found, hleft, hfound⟩ | ⟨t', hend, -, -, hfound⟩
  · rw [hleft, ← hfound]
    rfl
  · rw [hend, ← hfound]
    rfl

theorem computedContainerId (h : Represents t s entries) (hinv : s.Inv)
    (hfuel : entries.length ≤ fuel) (args : CreateArgs) (calls : CreateCalls Ctx) :
    t.computedContainerId fuel args calls = some (s.computedContainerId args calls) := by
  have hfind := h.getContainerByIdLocked hinv hfuel
  unfold LinkedContext.computedContainerId ContextState.computedContainerId
  cases hid : args.containerId with
  | none =>
      simp only [ContextState.makeUniqueRandomContainerId]
      split_ifs with hfails
      · rfl
      · simp only [hfind, Option.map_some]
        exact List.findM?_pure _ _
  | some id =>
      simp only [hfind]
      rfl

/-- The node of a creation that fails is freed. -/
theorem createError (h : Represents t s entries) (hnode : t.nodes node = none)
    (blank : LinkedList.Node ContainerNode) (workdir : Option CString)
    (calls : CreateCalls Ctx) :
    Refines entries.length (s.createError workdir calls)
      ({ t with nodes := update t.nodes node (some blank) }.createError node workdir calls) := by
  have hfreed : update (update t.nodes node (some blank)) node none = t.nodes := by
    rw [Function.update_idem, ← hnode, Function.update_eq_self]
  rw [LinkedContext.createError.eq_def, LinkedList.free_eq (Function.update_self ..), hfreed]
  cases workdir with
  | none => exact ⟨_, _, rfl, h, le_rfl⟩
  | some workdir =>
      refine ⟨_, _, rfl, ?_, le_rfl⟩
      have hremove : rmRfPath t.maxLinks calls.rmRf (some workdir) t.tree =
          rmRfPath s.maxLinks calls.rmRf (some workdir) s.tree := by rw [h.tree, h.maxLinks]
      dsimp only
      rw [hremove]
      exact h.withTree _

/-- The node of a creation that succeeds goes to the end of the list. -/
theorem createContainer (h : Represents t s entries) (hnode : t.nodes node = none)
    (hzero : node ≠ 0) (hfuel : entries.length ≤ fuel) (blank : LinkedList.Node ContainerNode)
    {target : CreateTarget} {args : CreateArgs} {calls : CreateCalls Ctx} {c : OcreContainer Ctx}
    (hc : ocreContainerCreate (s.imagePath target.image) target.workdir args.runtime target.id
      args.detached args.arguments args.fds calls = some c) :
    Refines (entries.length + 1) (some calls.pointer, { s with
        heap := update s.heap calls.pointer (some c)
        context := { s.context with
          containers := s.context.containers ++ [⟨calls.pointer, target.workdir⟩] } })
      ({ t with nodes := update t.nodes node (some blank) }.createContainer fuel node target args
        calls) := by
  have hset : LinkedList.setValue (update t.nodes node (some blank)) node
      ⟨calls.pointer, target.workdir⟩ =
        some (update t.nodes node (some ⟨⟨calls.pointer, target.workdir⟩, blank.next⟩)) := by
    rw [LinkedList.setValue, Function.update_self]
    exact congrArg some (Function.update_idem ..)
  have hlists : LinkedList.Lists
      (update t.nodes node (some ⟨⟨calls.pointer, target.workdir⟩, blank.next⟩)) t.containers
      entries :=
    h.lists.congr fun a ha ↦
      Function.update_of_ne (by rintro rfl; exact h.unlisted hnode ha) ..
  obtain ⟨head, nodes, happend, hlists', hframe⟩ := LinkedList.append_spec hlists hfuel
    (Function.update_self ..) hzero (h.unlisted hnode)
  refine ⟨{ t with
      containers := head, nodes := nodes, heap := update t.heap calls.pointer (some c) }, _,
    ?_, ⟨hlists', ?_, ?_, h.workingDirectory, ?_, h.tree, h.maxLinks, h.freed⟩, ?_⟩
  · rw [LinkedContext.createContainer]
    dsimp only
    rw [h.workingDirectory, ← ContextState.imagePath, hc]
    simp [hset, happend]
  · intro a ha
    by_contra hmem
    refine ha ((hframe a hmem).trans ?_)
    rw [List.map_append, List.mem_append, not_or] at hmem
    rw [Function.update_of_ne (by simpa using hmem.2)]
    by_contra hne
    exact hmem.1 (h.allocated a hne)
  · simp [h.containers]
  · dsimp only
    rw [h.heap]
  · simp

theorem createError_succ (h : Represents t s entries) (hnode : t.nodes node = none)
    (blank : LinkedList.Node ContainerNode) (workdir : Option CString)
    (calls : CreateCalls Ctx) :
    Refines (entries.length + 1) (s.createError workdir calls)
      ({ t with nodes := update t.nodes node (some blank) }.createError node workdir calls) := by
  obtain ⟨t', entries', heq, hrep, hsize⟩ := h.createError hnode blank workdir calls
  exact ⟨t', entries', heq, hrep, Nat.le_succ_of_le hsize⟩

theorem createOnTarget (h : Represents t s entries) (hnode : t.nodes node = none)
    (hzero : node ≠ 0) (hfuel : entries.length ≤ fuel) (blank : LinkedList.Node ContainerNode)
    {target : CreateTarget} {tree : FileSystem} {args : CreateArgs} {calls : CreateCalls Ctx}
    (htarget : s.createTarget args calls = some target)
    (hmake : s.makeWorkdir target.workdir calls = some tree) :
    Refines (entries.length + 1) (s.ocreContextCreateContainer args calls)
      ({ t with nodes := update t.nodes node (some blank), tree := tree }.createContainer fuel node
        target args calls) := by
  unfold ContextState.ocreContextCreateContainer
  rw [htarget]
  dsimp only
  rw [hmake]
  dsimp only
  cases hc : ocreContainerCreate (s.imagePath target.image) target.workdir args.runtime target.id
      args.detached args.arguments args.fds calls with
  | none =>
      have hpath : t.workingDirectory ++ cstring "/images/" ++ target.image =
          s.imagePath target.image := by
        rw [h.workingDirectory, ContextState.imagePath]
      unfold LinkedContext.createContainer
      dsimp only
      rw [hpath, hc]
      exact (h.withTree tree).createError_succ hnode blank target.workdir calls
  | some c => exact (h.withTree tree).createContainer hnode hzero hfuel blank hc

theorem createOnNode (h : Represents t s entries) (hnode : t.nodes node = none)
    (hzero : node ≠ 0) (hfuel : entries.length ≤ fuel) (blank : LinkedList.Node ContainerNode)
    {image id : CString} {args : CreateArgs} {calls : CreateCalls Ctx}
    (htarget : s.createTarget args calls =
      if calls.fails .imagePath then none
      else if args.filesystem then
        if calls.fails .workdir then none else some ⟨image, id, some (s.containerWorkdir id)⟩
      else some ⟨image, id, none⟩) :
    Refines (entries.length + 1) (s.ocreContextCreateContainer args calls)
      ({ t with nodes := update t.nodes node (some blank) }.createOnNode fuel node image id args
        calls) := by
  have hearly (hnone : s.createTarget args calls = none) :
      s.ocreContextCreateContainer args calls = s.createError none calls := by
    rw [ContextState.ocreContextCreateContainer, hnone]
    rfl
  have hworkdir : t.workingDirectory ++ cstring "/containers/" ++ id = s.containerWorkdir id := by
    rw [h.workingDirectory, ContextState.containerWorkdir]
  unfold LinkedContext.createOnNode
  dsimp only
  rw [hworkdir]
  by_cases himage : calls.fails .imagePath
  · rw [if_pos himage] at htarget ⊢
    rw [hearly htarget]
    exact h.createError_succ hnode blank none calls
  rw [if_neg himage] at htarget ⊢
  by_cases hfilesystem : args.filesystem
  · rw [if_pos hfilesystem] at htarget ⊢
    by_cases hfails : calls.fails .workdir
    · rw [if_pos hfails] at htarget ⊢
      rw [hearly htarget]
      exact h.createError_succ hnode blank none calls
    rw [if_neg hfails] at htarget ⊢
    cases hmake : s.makeWorkdir (some (s.containerWorkdir id)) calls with
    | none =>
        have hcreate : s.ocreContextCreateContainer args calls =
            s.createError (some (s.containerWorkdir id)) calls := by
          rw [ContextState.ocreContextCreateContainer, htarget]
          dsimp only
          rw [hmake]
        rw [ContextState.makeWorkdir, ← h.tree, ← h.maxLinks] at hmake
        rw [hmake, hcreate]
        exact h.createError_succ hnode blank (some (s.containerWorkdir id)) calls
    | some tree =>
        have hcreate := h.createOnTarget hnode hzero hfuel blank htarget hmake
        rw [ContextState.makeWorkdir, ← h.tree, ← h.maxLinks] at hmake
        rw [hmake]
        exact hcreate
  · rw [if_neg hfilesystem] at htarget ⊢
    have hcreate := h.createOnTarget hnode hzero hfuel blank htarget rfl
    rwa [← h.tree] at hcreate

theorem create (h : Represents t s entries) (hinv : s.Inv) (hnode : t.nodes node = none)
    (hzero : node ≠ 0) (hfuel : entries.length ≤ fuel) (args : CreateArgs)
    (calls : CreateCalls Ctx) :
    Refines (entries.length + 1) (s.ocreContextCreateContainer args calls)
      (t.ocreContextCreateContainer fuel node args calls) := by
  have hearly (hnone : s.createTarget args calls = none) : Refines (entries.length + 1)
      (s.ocreContextCreateContainer args calls) (some (none, t)) := by
    rw [ContextState.ocreContextCreateContainer, hnone]
    exact ⟨t, entries, rfl, h, Nat.le_succ _⟩
  unfold LinkedContext.ocreContextCreateContainer
  have htarget : s.createTarget args calls = _ := ContextState.createTarget.eq_def s args calls
  by_cases hname : args.containerId.isSome ∧ ¬ ocreIsValidName args.containerId
  · rw [if_pos hname] at htarget ⊢
    exact hearly htarget
  rw [if_neg hname] at htarget ⊢
  cases himage : args.image with
  | none =>
      rw [himage] at htarget
      exact hearly htarget
  | some image =>
      rw [himage] at htarget
      dsimp only at htarget ⊢
      by_cases hvalid : ¬ ocreIsValidName (some image)
      · rw [if_pos hvalid] at htarget ⊢
        exact hearly htarget
      rw [if_neg hvalid] at htarget ⊢
      rw [h.computedContainerId hinv hfuel]
      cases hid : s.computedContainerId args calls with
      | none =>
          rw [hid] at htarget
          exact hearly htarget
      | some id =>
          rw [hid] at htarget
          dsimp only [Option.bind_eq_bind, Option.bind_some] at htarget ⊢
          by_cases hcall : calls.fails .node
          · rw [if_pos (.inl hcall)] at htarget
            rw [if_pos hcall]
            exact hearly htarget
          · rw [if_neg hcall]
            refine h.createOnNode hnode hzero hfuel _ ?_
            simpa [hcall] using htarget

theorem eraseP_eq {e : ℕ × ContainerNode} {l₁ l₂ : List (ℕ × ContainerNode)}
    (hbefore : ∀ e' ∈ l₁, e'.2.container ≠ e.2.container) :
    (l₁ ++ e :: l₂).eraseP (fun e' ↦ e'.2.container = e.2.container) = l₁ ++ l₂ := by
  rw [List.eraseP_append_right _ (by simpa using hbefore)]
  simp

theorem find?_eq {e : ℕ × ContainerNode} {l₁ l₂ : List (ℕ × ContainerNode)}
    (h : Represents t s (l₁ ++ e :: l₂))
    (hbefore : ∀ e' ∈ l₁, e'.2.container ≠ e.2.container) :
    s.context.containers.find? (·.container = e.2.container) = some e.2 ∧
      s.context.containers.eraseP (·.container = e.2.container) = (l₁ ++ l₂).map Prod.snd := by
  have hnone : ∀ node ∈ l₁.map Prod.snd, ¬ decide (node.container = e.2.container) := by
    intro node hmem
    obtain ⟨e', he', rfl⟩ := List.mem_map.mp hmem
    simpa using hbefore e' he'
  rw [h.containers, List.map_append, List.map_cons, List.find?_append,
    List.find?_eq_none.mpr hnone, List.eraseP_append_right _ hnone]
  simp

/-- A node is freed once it is off the list, and only when its container is gone. -/
theorem removeNode {e : ℕ × ContainerNode} {l₁ l₂ : List (ℕ × ContainerNode)}
    (h : Represents t s (l₁ ++ e :: l₂)) (hinv : s.Inv) (hfuel : (l₁ ++ e :: l₂).length ≤ fuel)
    (hbefore : ∀ e' ∈ l₁, e'.2.container ≠ e.2.container) (calls : RemoveCalls) :
    ∃ t' entries', t.removeNode fuel e.1 e.2 calls =
        some ((s.removeContainerLocked e.2.container calls).1, t') ∧
      Represents t' (s.removeContainerLocked e.2.container calls).2 entries' ∧
      (entries' = l₁ ++ e :: l₂ ∨ entries' = l₁ ++ l₂) := by
  obtain ⟨hfind, herase⟩ := h.find?_eq hbefore
  obtain ⟨c, hc⟩ := h.live hinv (List.mem_append_right _ List.mem_cons_self)
  rw [LinkedContext.removeNode, ContextState.removeContainerLocked, hfind, h.heap, hc]
  simp only [Option.bind_eq_bind, Option.bind_some]
  cases ocreContainerDestroy calls.joinRc c with
  | some c =>
      exact ⟨_, _, rfl, ⟨h.lists, h.allocated, h.containers, h.workingDirectory, rfl, h.tree,
        h.maxLinks, h.freed⟩, .inl rfl⟩
  | none =>
      have hremove : e.2.removeWorkdir t.maxLinks calls.rmRf t.tree =
          e.2.removeWorkdir s.maxLinks calls.rmRf s.tree := by rw [h.tree, h.maxLinks]
      dsimp only
      rw [hremove]
      by_cases hrm : (e.2.removeWorkdir s.maxLinks calls.rmRf s.tree).1 ≠ 0
      · rw [if_pos hrm, if_pos hrm]
        exact ⟨_, _, rfl, ⟨h.lists, h.allocated, h.containers, h.workingDirectory, rfl, rfl,
          h.maxLinks, h.freed⟩, .inl rfl⟩
      rw [if_neg hrm, if_neg hrm]
      have hlength : l₁.length ≤ fuel := by
        rw [List.length_append] at hfuel
        omega
      obtain ⟨head, nodes, hdelete, hlists, hsame, hframe⟩ :=
        LinkedList.delete_spec h.lists hlength
      obtain ⟨-, next, hnode⟩ := h.lists.node (List.mem_append_right _ List.mem_cons_self)
      have hgone : e.1 ∉ (l₁ ++ l₂).map Prod.fst := by
        have hnodup := h.lists.nodup
        rw [List.map_append, List.map_cons, List.nodup_middle] at hnodup
        rw [List.map_append]
        exact (List.nodup_cons.mp hnodup).1
      refine ⟨{ t with
          containers := head
          nodes := update nodes e.1 none
          heap := update s.heap e.2.container none
          tree := (e.2.removeWorkdir s.maxLinks calls.rmRf s.tree).2 },
        l₁ ++ l₂, ?_, ⟨hlists.congr fun a ha ↦ Function.update_of_ne ?_ .., ?_, herase,
        h.workingDirectory, rfl, rfl, h.maxLinks, h.freed⟩, .inr rfl⟩
      · rw [hdelete, Option.bind_some, LinkedList.free_eq (hsame.trans hnode)]
        rfl
      · rintro rfl
        exact hgone ha
      · intro a ha
        by_contra hmem
        have hne : a ≠ e.1 := by
          rintro rfl
          exact ha (Function.update_self ..)
        have hkept : nodes a = t.nodes a := hframe a hmem
        dsimp only at ha
        rw [Function.update_of_ne hne, hkept] at ha
        have hlisted := h.allocated a ha
        simp only [List.map_append, List.map_cons, List.mem_append, List.mem_cons] at hlisted hmem
        tauto

theorem removeContainerLocked (h : Represents t s entries) (hinv : s.Inv)
    (hfuel : entries.length ≤ fuel) (container : ℕ) (calls : RemoveCalls) :
    ∃ t' entries', t.removeContainerLocked fuel container calls =
        some ((s.removeContainerLocked container calls).1, t') ∧
      Represents t' (s.removeContainerLocked container calls).2 entries' ∧
      (entries' = entries ∨ entries' = entries.eraseP (·.2.container = container)) := by
  -- the nodes that have been passed are not the container's
  let I (l : List (ℕ × ContainerNode)) (t' : LinkedContext Ctx) : Prop :=
    t' = t ∧ ∃ passed, entries = passed ++ l ∧ ∀ e ∈ passed, e.2.container ≠ container
  let E (r : Int × LinkedContext Ctx) : Prop :=
    r.1 = (s.removeContainerLocked container calls).1 ∧ ∃ entries',
      Represents r.2 (s.removeContainerLocked container calls).2 entries' ∧
      (entries' = entries ∨ entries' = entries.eraseP (·.2.container = container))
  have hround (e : ℕ × ContainerNode) (l : List (ℕ × ContainerNode)) (next : ℕ)
      (t' : LinkedContext Ctx) (hI : I (e :: l) t')
      (hnext : LinkedList.Lists t'.nodes next l) :
      (∃ r, removeIf fuel container calls e.1 e.2 t' = some (.error r) ∧ E r) ∨
        ∃ t'', removeIf fuel container calls e.1 e.2 t' = some (.ok t'') ∧ I l t'' ∧
          LinkedList.Lists t''.nodes next l := by
    obtain ⟨rfl, passed, hentries, hpassed⟩ := hI
    rw [removeIf]
    by_cases hcontainer : e.2.container = container
    · obtain rfl := hcontainer
      obtain rfl := hentries
      obtain ⟨t'', entries', heq, hrep, hcases⟩ := h.removeNode hinv hfuel hpassed calls
      rw [if_pos rfl, heq]
      exact .inl ⟨_, rfl, rfl, entries', hrep, by rwa [eraseP_eq hpassed]⟩
    · rw [if_neg hcontainer]
      refine .inr ⟨_, rfl, ⟨rfl, passed ++ [e], by simp [hentries], fun e' he' ↦ ?_⟩, hnext⟩
      rcases List.mem_append.mp he' with hmem | hmem
      · exact hpassed e' hmem
      · rwa [List.mem_singleton.mp hmem]
  rw [LinkedContext.removeContainerLocked]
  rcases LinkedList.forEachSafe_spec hround h.lists ⟨rfl, [], rfl, by simp⟩ hfuel with
    ⟨r, hleft, hrc, entries', hrep, hcases⟩ | ⟨t', hend, rfl, passed, hentries, hpassed⟩
  · refine ⟨r.2, entries', ?_, hrep, hcases⟩
    rw [hleft, ← hrc]
    rfl
  · rw [List.append_nil] at hentries
    obtain rfl := hentries
    have hnone : s.context.containers.find? (·.container = container) = none := by
      rw [h.containers, List.find?_eq_none]
      intro node hmem
      obtain ⟨e, he, rfl⟩ := List.mem_map.mp hmem
      simpa using hpassed e he
    rw [hend, ContextState.removeContainerLocked, hnone]
    exact ⟨t', entries, rfl, h, .inl rfl⟩

theorem getContainerCount (h : Represents t s entries) (hfuel : entries.length ≤ fuel) :
    t.ocreContextGetContainerCount fuel = some s.ocreContextGetContainerCount := by
  let I (l : List (ℕ × ContainerNode)) (s' : Int × LinkedContext Ctx) : Prop :=
    s'.2 = t ∧ s'.1 + l.length = entries.length
  have hround (e : ℕ × ContainerNode) (l : List (ℕ × ContainerNode))
      (s' : Int × LinkedContext Ctx) (hI : I (e :: l) s') :
      (∃ x : Unit, count e.1 e.2 s' = some (.error x) ∧ False) ∨
        ∃ s'', count e.1 e.2 s' = some (.ok s'') ∧ I l s'' ∧ s''.2.nodes = s'.2.nodes := by
    obtain ⟨ht, hcount⟩ := hI
    refine .inr ⟨_, rfl, ⟨ht, ?_⟩, rfl⟩
    rw [List.length_cons] at hcount
    push_cast at hcount
    dsimp only
    omega
  rw [LinkedContext.ocreContextGetContainerCount]
  have hlists : LinkedList.Lists ((0, t) : Int × LinkedContext Ctx).2.nodes t.containers entries :=
    h.lists
  have hstart : I entries (0, t) := ⟨rfl, Int.zero_add _⟩
  rcases LinkedList.forEach_spec hround hlists hstart hfuel with
    ⟨_, _, hfalse⟩ | ⟨s', hend, -, hcount⟩
  · exact hfalse.elim
  · rw [hend, ContextState.ocreContextGetContainerCount, h.containers, List.length_map, ← hcount]
    simp [Except.toOption]

theorem getContainers (h : Represents t s entries) (hfuel : entries.length ≤ fuel) (given : Bool)
    (maxSize : Int) :
    t.ocreContextGetContainers fuel given maxSize =
      some (s.ocreContextGetContainers given maxSize) := by
  let target := ContextState.collectContainers maxSize 0 s.context.containers
  let I (l : List (ℕ × ContainerNode)) (s' : List ℕ × LinkedContext Ctx) : Prop :=
    s'.2 = t ∧ s'.1 ++ ContextState.collectContainers maxSize s'.1.length (l.map Prod.snd) = target
  have hround (e : ℕ × ContainerNode) (l : List (ℕ × ContainerNode))
      (s' : List ℕ × LinkedContext Ctx) (hI : I (e :: l) s') :
      (∃ stored, store maxSize e.1 e.2 s' = some (.error stored) ∧ stored = target) ∨
        ∃ s'', store maxSize e.1 e.2 s' = some (.ok s'') ∧ I l s'' ∧
          s''.2.nodes = s'.2.nodes := by
    obtain ⟨ht, hstored⟩ := hI
    rw [List.map_cons, ContextState.collectContainers] at hstored
    rw [store]
    by_cases hfull : (s'.1.length : Int) ≥ maxSize
    · rw [if_pos hfull] at hstored ⊢
      exact .inl ⟨_, rfl, by rw [← hstored, List.append_nil]⟩
    · rw [if_neg hfull] at hstored ⊢
      exact .inr ⟨_, rfl, ⟨ht, by simpa using hstored⟩, rfl⟩
  have hlists : LinkedList.Lists (([], t) : List ℕ × LinkedContext Ctx).2.nodes t.containers
      entries := h.lists
  have hstart : I entries ([], t) := by
    refine ⟨rfl, ?_⟩
    rw [← h.containers]
    rfl
  rw [LinkedContext.ocreContextGetContainers, ContextState.ocreContextGetContainers]
  by_cases hgiven : ¬ given
  · rw [if_pos hgiven, if_pos hgiven]
  rw [if_neg hgiven, if_neg hgiven]
  rcases LinkedList.forEach_spec hround hlists hstart hfuel with
    ⟨stored, hleft, rfl⟩ | ⟨s', hend, -, hstored⟩
  · rw [hleft]
    rfl
  · rw [List.map_nil, ContextState.collectContainers, List.append_nil] at hstored
    rw [hend]
    simp only [Option.bind_eq_bind, Option.bind_some, hstored]
    rfl

theorem touchAll (h : Represents t s entries) (hinv : s.Inv) (hfuel : entries.length ≤ fuel) :
    forEach nodes touch fuel t.containers t = some (.ok t) := by
  let I (l : List (ℕ × ContainerNode)) (t' : LinkedContext Ctx) : Prop :=
    t' = t ∧ ∀ e ∈ l, e ∈ entries
  have hround (e : ℕ × ContainerNode) (l : List (ℕ × ContainerNode)) (t' : LinkedContext Ctx)
      (hI : I (e :: l) t') :
      (∃ x : Unit, touch e.1 e.2 t' = some (.error x) ∧ False) ∨
        ∃ t'', touch e.1 e.2 t' = some (.ok t'') ∧ I l t'' ∧ t''.nodes = t'.nodes := by
    obtain ⟨rfl, hmem⟩ := hI
    obtain ⟨he, hl⟩ := List.forall_mem_cons.mp hmem
    obtain ⟨c, hc⟩ := h.live hinv he
    refine .inr ⟨t', ?_, ⟨rfl, hl⟩, rfl⟩
    rw [touch, h.heap, hc]
    rfl
  rcases LinkedList.forEach_spec hround h.lists ⟨rfl, fun _ he ↦ he⟩ hfuel with
    ⟨_, _, hfalse⟩ | ⟨t', hend, rfl, -⟩
  · exact hfalse.elim
  · exact hend

/-- The last pass of a destruction reads the link of a node before its container is removed. -/
theorem destroy (h : Represents t s entries) (hinv : s.Inv) (hfuel : entries.length ≤ fuel)
    {calls : ℕ → RemoveCalls} (hok : s.WorkdirsRemoved calls s.context.containers) :
    ∃ t' entries', t.ocreContextDestroy fuel calls = some t' ∧
      Represents t' (s.ocreContextDestroy calls) entries' ∧ entries'.length ≤ entries.length := by
  let I (l : List (ℕ × ContainerNode)) (t' : LinkedContext Ctx) : Prop :=
    ∃ s' kept, Represents t' s' (kept ++ l) ∧ s'.Inv ∧ (kept ++ l).length ≤ entries.length ∧
      s'.WorkdirsRemoved calls (l.map Prod.snd) ∧
      s'.removeAll calls (l.map Prod.snd) = s.removeAll calls s.context.containers
  have hround (e : ℕ × ContainerNode) (l : List (ℕ × ContainerNode)) (next : ℕ)
      (t' : LinkedContext Ctx) (hI : I (e :: l) t')
      (hnext : LinkedList.Lists t'.nodes next l) :
      (∃ x : Unit, remove fuel calls e.1 e.2 t' = some (.error x) ∧ False) ∨
        ∃ t'', remove fuel calls e.1 e.2 t' = some (.ok t'') ∧ I l t'' ∧
          LinkedList.Lists t''.nodes next l := by
    obtain ⟨s', kept, hrep, hinv', hlength, ⟨hremoved, hrest⟩, hall⟩ := hI
    obtain ⟨t'', entries', heq, hrep', hcases⟩ := hrep.removeContainerLocked hinv'
      (hlength.trans hfuel) e.2.container (calls e.2.container)
    have hbefore : ∀ e' ∈ kept, e'.2.container ≠ e.2.container := by
      have hnodup := hinv'.nodup
      rw [hrep.containers, List.map_map, List.map_append, List.map_cons, List.nodup_middle,
        List.nodup_cons, ← List.map_append] at hnodup
      intro e' he' heq'
      exact hnodup.1 (List.mem_map.mpr ⟨e', List.mem_append_left _ he', heq'⟩)
    have hkept : ∃ kept', entries' = kept' ++ l ∧ (kept' ++ l).length ≤ entries.length := by
      rw [eraseP_eq hbefore] at hcases
      rcases hcases with rfl | rfl
      · exact ⟨kept ++ [e], by simp, by simpa using hlength⟩
      · refine ⟨kept, rfl, le_trans ?_ hlength⟩
        simp
    obtain ⟨kept', rfl, hlength'⟩ := hkept
    obtain ⟨q, hq⟩ := hrep'.lists.of_append
    refine .inr ⟨t'', ?_, ⟨_, kept', hrep', (hinv'.remove hremoved).1, hlength', hrest, hall⟩, ?_⟩
    · rw [remove, heq]
      rfl
    · rwa [hnext.address_eq hq]
  have htouch := h.touchAll hinv hfuel
  have hstart : I entries t := by
    refine ⟨s, [], h, hinv, le_rfl, ?_, ?_⟩
    · rwa [← h.containers]
    · rw [← h.containers]
  rw [LinkedContext.ocreContextDestroy]
  rcases LinkedList.forEachSafe_spec hround h.lists hstart hfuel with
    ⟨_, _, hfalse⟩ | ⟨t', hend, s', kept, hrep, -, hlength, -, hall⟩
  · exact hfalse.elim
  · rw [List.append_nil] at hrep hlength
    obtain rfl : s' = s.removeAll calls s.context.containers := hall
    refine ⟨{ t' with freed := true }, kept, ?_, ⟨hrep.lists, hrep.allocated, hrep.containers,
      hrep.workingDirectory, hrep.heap, hrep.tree, hrep.maxLinks, rfl⟩, hlength⟩
    simp [htouch, hend, Except.toOption]

end Represents

end LinkedContext

/-- The system whose steps are the operations that follow the links; the labels carry the
addresses for the nodes. -/
def linkedSystem (Ctx : Type) (fuel : ℕ) :
    StepSystem (LinkedContext Ctx) (ContextAct Ctx × ℕ) where
  init := LinkedContext.Fresh
  next a t := if t.enabled a.1 a.2 then (t.perform fuel a.1 a.2).map Prod.snd else none

/-- What the operation on the list of the entries returns and stores. -/
def ContextState.answer {Ctx : Type} (s : ContextState Ctx) : ContextAct Ctx → ContextAnswer
  | .create args calls => .container (s.ocreContextCreateContainer args calls).1
  | .remove container calls => .status (s.ocreContextRemoveContainer container calls).1
  | .getById id => .container (s.ocreContextGetContainerById id)
  | .getCount => .status s.ocreContextGetContainerCount
  | .getContainers given maxSize =>
      .stored (s.ocreContextGetContainers given maxSize).1
        (s.ocreContextGetContainers given maxSize).2
  | .destroy _ | .evolve .. => .none

namespace LinkedContext

variable {Ctx : Type} {fuel : ℕ} {t t' : LinkedContext Ctx} {s s' : ContextState Ctx}
  {entries : List (ℕ × ContainerNode)} {node : ℕ}

/-- An enabled operation of the pointers is defined and is that of the entries. -/
theorem Represents.perform (h : Represents t s entries) (hinv : s.Inv)
    (hfuel : entries.length ≤ fuel) {a : ContextAct Ctx} (henabled : t.enabled a node)
    (hok : ContextState.RemovesWorkdirs a s) :
    ∃ s' t' entries', s.next a = some s' ∧ t.perform fuel a node = some (s.answer a, t') ∧
      Represents t' s' entries' ∧ entries'.length ≤ entries.length + 1 := by
  obtain ⟨hfreed, hact⟩ := Bool.and_eq_true_iff.mp henabled
  have hunfreed : ¬ s.freed := by simpa [h.freed] using hfreed
  rw [ContextState.next.eq_def, if_neg hunfreed]
  cases a with
  | create args calls =>
      simp only [Bool.and_eq_true, Option.isNone_iff_eq_none, decide_eq_true_eq] at hact
      obtain ⟨⟨hpointer, hzero⟩, hnode⟩ := hact
      obtain ⟨t', entries', heq, hrep, hlength⟩ := h.create hinv hnode hzero hfuel args calls
      refine ⟨_, t', entries', if_pos ?_, ?_, hrep, hlength⟩
      · rw [← h.heap, hpointer]
        rfl
      · rw [LinkedContext.perform, heq]
        rfl
  | remove container calls =>
      cases container with
      | none => exact ⟨_, t, entries, rfl, rfl, h, Nat.le_succ _⟩
      | some container =>
          obtain ⟨t', entries', heq, hrep, hcases⟩ :=
            h.removeContainerLocked hinv hfuel container calls
          refine ⟨_, t', entries', rfl, ?_, hrep, Nat.le_succ_of_le ?_⟩
          · rw [LinkedContext.perform, LinkedContext.ocreContextRemoveContainer, heq]
            rfl
          · rcases hcases with rfl | rfl
            · exact le_rfl
            · exact List.eraseP_sublist.length_le
  | getById id =>
      refine ⟨s, t, entries, rfl, ?_, h, Nat.le_succ _⟩
      cases id with
      | none => rfl
      | some id =>
          rw [LinkedContext.perform, LinkedContext.ocreContextGetContainerById,
            h.getContainerByIdLocked hinv hfuel]
          rfl
  | getCount =>
      refine ⟨s, t, entries, rfl, ?_, h, Nat.le_succ _⟩
      rw [LinkedContext.perform, h.getContainerCount hfuel]
      rfl
  | getContainers given maxSize =>
      refine ⟨s, t, entries, rfl, ?_, h, Nat.le_succ _⟩
      rw [LinkedContext.perform, h.getContainers hfuel]
      rfl
  | destroy calls =>
      obtain ⟨t', entries', heq, hrep, hlength⟩ := h.destroy hinv hfuel hok
      refine ⟨_, t', entries', rfl, ?_, hrep, Nat.le_succ_of_le hlength⟩
      rw [LinkedContext.perform, heq]
      rfl
  | evolve container c =>
      dsimp only at hact ⊢
      obtain ⟨old, hold, hid⟩ := (Option.any_eq_true _ _).mp hact
      rw [h.heap] at hold
      rw [hold]
      refine ⟨_, _, entries, if_pos (of_decide_eq_true hid), rfl,
        ⟨h.lists, h.allocated, h.containers, h.workingDirectory, ?_, h.tree, h.maxLinks, h.freed⟩,
        Nat.le_succ _⟩
      dsimp only
      rw [h.heap]

theorem Represents.of_fresh (h : Fresh t) : Represents t t.empty [] where
  lists := h.containers
  allocated p hp := absurd (h.nodes p) hp
  containers := rfl
  workingDirectory := rfl
  heap := rfl
  tree := rfl
  maxLinks := rfl
  freed := rfl

theorem Represents.run (h : Represents t s entries)
    (hs : (contextSystem Ctx).ReachableWhere ContextState.RemovesWorkdirs s)
    {as : List (ContextAct Ctx × ℕ)} (hfuel : entries.length + as.length ≤ fuel)
    (hmeets : (contextSystem Ctx).RunMeets ContextState.RemovesWorkdirs s (as.map Prod.fst))
    (hrun : (linkedSystem Ctx fuel).run t as = some t') :
    ∃ s' entries', (contextSystem Ctx).run s (as.map Prod.fst) = some s' ∧
      Represents t' s' entries' ∧ entries'.length ≤ entries.length + as.length := by
  induction as generalizing t s entries with
  | nil => exact ⟨s, entries, rfl, Option.some.inj hrun ▸ h, le_rfl⟩
  | cons a as ih =>
      obtain ⟨u, hnext, hrest⟩ := Option.bind_eq_some_iff.mp hrun
      obtain ⟨henabled, hperform⟩ := Option.ite_none_right_eq_some.mp hnext
      rw [List.length_cons] at hfuel ⊢
      have hrounds : entries.length ≤ fuel := by omega
      obtain ⟨v, u', entries', hv, hu', hrep, hlength⟩ :=
        h.perform (ContextState.Inv.of_reachable hs) hrounds henabled hmeets.1
      rw [hu'] at hperform
      obtain rfl : u' = u := Option.some.inj hperform
      obtain ⟨s', entries'', hrun', hrep', hlength'⟩ :=
        ih hrep (.step a.1 hs hmeets.1 hv) (by omega) (hmeets.2 v hv) hrest
      refine ⟨s', entries'', ?_, hrep', by omega⟩
      exact Option.bind_eq_some_iff.mpr ⟨v, hv, hrun'⟩

/-- As long as no removal is stopped by its working directory, whatever the operations do, each
is defined, with rounds enough for the nodes: it touches no node and no container that is gone. It
returns what it does on the list of the entries, and exactly the nodes of the list are allocated. -/
theorem linkedSystem_refines (h₀ : Fresh t) {as : List (ContextAct Ctx × ℕ)}
    (hfuel : as.length ≤ fuel) (hrun : (linkedSystem Ctx fuel).run t as = some t')
    (hmeets : (contextSystem Ctx).RunMeets ContextState.RemovesWorkdirs t.empty
      (as.map Prod.fst)) :
    ∃ s entries, (contextSystem Ctx).run t.empty (as.map Prod.fst) = some s ∧
      Represents t' s entries ∧
      ∀ a node, t'.enabled a node → ContextState.RemovesWorkdirs a s →
        (t'.perform fuel a node).map Prod.fst = some (s.answer a) := by
  have hstart : (contextSystem Ctx).init t.empty := ⟨rfl, h₀.freed⟩
  obtain ⟨s, entries, hs, hrep, hlength⟩ := (Represents.of_fresh h₀).run (.start hstart)
    (by simpa using hfuel) hmeets hrun
  refine ⟨s, entries, hs, hrep, fun a node henabled hok ↦ ?_⟩
  have hreach := (StepSystem.ReachableWhere.start hstart).run hmeets hs
  obtain ⟨-, u, -, -, hperform, -, -⟩ := hrep.perform (ContextState.Inv.of_reachable hreach)
    (by simpa using hlength.trans (by simpa using hfuel)) henabled hok
  rw [hperform]
  rfl

/-- A new context, as `workContext`. -/
def linkedWork : LinkedContext Unit where
  workingDirectory := cstring "/ocre"
  containers := 0
  nodes _ := none
  heap _ := none
  tree := workTree
  maxLinks := 40
  freed := false

/-- Three containers, of which the one in the middle is removed, and a failed creation; then the
context is destroyed. -/
def linkedActs : List (ContextAct Unit × ℕ) :=
  [(.create (filesystemArgs (some (cstring "a"))) (promptCalls 1), 64),
    (.create (filesystemArgs (some (cstring "b"))) (promptCalls 2), 128),
    (.create (filesystemArgs (some (cstring "c"))) (promptCalls 3), 32),
    (.remove (some 2) {}, 0),
    (.create (filesystemArgs (some (cstring "a"))) (promptCalls 4), 128),
    (.destroy fun _ ↦ {}, 0)]

theorem linkedSystem_refines_of_three_containers :
    ∃ t, (linkedSystem Unit 6).run linkedWork linkedActs = some t ∧
      ∃ s entries, (contextSystem Unit).run linkedWork.empty (linkedActs.map Prod.fst) = some s ∧
        Represents t s entries ∧ ∀ a node, t.enabled a node →
          ContextState.RemovesWorkdirs a s →
            (t.perform 6 a node).map Prod.fst = some (s.answer a) :=
  ⟨_, rfl, linkedSystem_refines ⟨rfl, fun _ ↦ rfl, rfl⟩ (by decide) rfl (by decide)⟩

end LinkedContext

end OcreRuntime
