import OcreRuntime.Context.Operations
import OcreRuntime.Wamr.Leaks

/-!
# What a creation holds

The creation of a container from `ocre_context_create_container` down to WAMR, and its
removal, as far as they acquire and release. Loading a file and loading a module are one
acquisition each. Locking and unlocking the mutex of the context succeed.
-/

namespace OcreRuntime

open Resources (release releaseIf releaseAll Releases Keeps)

/-- What a copy of an array of strings holds, by their number; `none` is NULL. -/
def arrayParts (array : Resource) (string : ℕ → Resource) : Option ℕ → List Resource
  | none => []
  | some n => (List.range n).map string ++ [array]

def stringArrayFree (array : Resource) (string : ℕ → Resource) (strings : Option ℕ)
    (live : List Resource) : Option (List Resource) :=
  releaseAll (arrayParts array string strings) live

/-- The fields of `struct ocre_container` that are released with it. -/
structure ContainerParts where
  image : Bool := false
  id : Bool := false
  argv : Option ℕ := none
  envp : Option ℕ := none

namespace ContainerParts

def heap (c : ContainerParts) : List Resource :=
  arrayParts .argv .argvString c.argv ++ arrayParts .envp .envpString c.envp ++
    (if c.image then [.image] else []) ++ (if c.id then [.id] else []) ++ [.container]

/-- The labels of `ocre_container_create`, each of which falls through to the next. -/
def errorFree (c : ContainerParts) (live : List Resource) : Option (List Resource) := do
  let live ← stringArrayFree .argv .argvString c.argv live
  let live ← stringArrayFree .envp .envpString c.envp live
  let live ← releaseIf c.image .image live
  let live ← releaseIf c.id .id live
  release .container live

def errorMutex (c : ContainerParts) (live : List Resource) : Option (List Resource) :=
  (release .mutex live).bind c.errorFree

def errorCond (c : ContainerParts) (live : List Resource) : Option (List Resource) := do
  let live ← release .semStart live
  let live ← release .condStop live
  c.errorMutex live

end ContainerParts

structure CreatedContainer extends ContainerParts where
  runtimeContext : InstanceContext

namespace CreatedContainer

/-- `ocre_container_destroy` behind its check of the status. -/
def free (c : CreatedContainer) (live : List Resource) : Option (List Resource) := do
  let live ← instanceDestroy c.runtimeContext live
  let live ← release .mutex live
  let live ← release .semStart live
  let live ← release .condStop live
  let live ← stringArrayFree .argv .argvString c.argv live
  let live ← stringArrayFree .envp .envpString c.envp live
  let live ← releaseIf c.id .id live
  let live ← releaseIf c.image .image live
  release .container live

/-- `ocre_container_destroy` of a container whose status has been read. -/
def ocreContainerDestroy (c : CreatedContainer) (status : OcreContainerStatus)
    (live : List Resource) : Option (Int × List Resource) :=
  if status ≠ .stopped ∧ status ≠ .created ∧ status ≠ .error then some (-1, live)
  else (c.free live).map fun live ↦ (0, live)

end CreatedContainer

/-- A node of the list, with or without a working directory. -/
structure CreatedNode where
  container : CreatedContainer
  workingDirectory : Bool

/-- `ocre_context_remove_container_locked` at the node of the container, with the result of
`rm_rf`. -/
def CreatedNode.ocreContextRemoveContainerLocked (node : CreatedNode)
    (status : OcreContainerStatus) (rmRf : Int) (live : List Resource) :
    Option (Int × List Resource) :=
  (node.container.ocreContainerDestroy status live).bind fun r ↦
    if r.1 ≠ 0 then some (-1, r.2)
    else if node.workingDirectory ∧ rmRf ≠ 0 then some (-1, r.2)
    else ((releaseIf node.workingDirectory .containerWorkdir r.2).bind (release .node)).map
      fun live ↦ (0, live)

namespace CreationCalls

/-- The loop of `string_array_deep_dup`, with the number of copies. -/
def dupStrings (calls : CreationCalls) (string : ℕ → Resource) :
    ℕ → List CString → List Resource → Bool × ℕ × List Resource
  | i, [], live => (true, i, live)
  | i, _ :: src, live =>
      if calls.fails (string i) then (false, i, live)
      else calls.dupStrings string (i + 1) src (string i :: live)

def stringArrayDeepDup (calls : CreationCalls) (array : Resource) (string : ℕ → Resource)
    (src : Option (List CString)) (live : List Resource) : Option (Option ℕ × List Resource) :=
  match src with
  | none => some (none, live)
  | some src =>
      if calls.fails array then some (none, live)
      else
        let r := calls.dupStrings string 0 src (array :: live)
        if r.1 then some (some r.2.1, r.2.2)
        else returnNull (stringArrayFree array string (some r.2.1) r.2.2)

/-- `ocre_container_create` from `sem_init` on. -/
def createRuntimeContext (calls : CreationCalls) (args : RuntimeCreateArgs) (c : ContainerParts)
    (live : List Resource) : Option (Option CreatedContainer × List Resource) :=
  if calls.fails .semStart then returnNull (c.errorMutex live)
  else (instanceCreate calls args (.semStart :: live)).bind fun r ↦ match r.1 with
    | none => returnNull (c.errorCond r.2)
    | some context => some (some { c with runtimeContext := context }, r.2)

/-- `ocre_container_create` from `pthread_mutex_init` on. -/
def initContainer (calls : CreationCalls) (args : RuntimeCreateArgs) (c : ContainerParts)
    (live : List Resource) : Option (Option CreatedContainer × List Resource) :=
  if calls.fails .mutex then returnNull (c.errorFree live)
  else
    let live := .mutex :: live
    if calls.fails .condStop then returnNull (c.errorMutex live)
    else calls.createRuntimeContext args c (.condStop :: live)

/-- `ocre_container_create` with the arguments that it passes on, when it finds the runtime
by its name or not. -/
def ocreContainerCreate (calls : CreationCalls) (found : Bool) (args : RuntimeCreateArgs)
    (live : List Resource) : Option (Option CreatedContainer × List Resource) :=
  match ocreContainerCreateMounts (args.mounts.getD []) with
  | .error _ => some (none, live)
  | .ok () =>
      if calls.fails .container then some (none, live)
      else
        let c : ContainerParts := {}
        let live := .container :: live
        if calls.fails .image then returnNull (c.errorFree live)
        else
          let c := { c with image := true }
          let live := .image :: live
          if calls.fails .id then returnNull (c.errorFree live)
          else
            let c := { c with id := true }
            let live := .id :: live
            (calls.stringArrayDeepDup .argv .argvString args.argv live).bind fun argv ↦
              (calls.stringArrayDeepDup .envp .envpString args.envp argv.2).bind fun envp ↦
                let c := { c with argv := argv.1, envp := envp.1 }
                if argv.1.isNone ∧ args.argv.isSome ∨ envp.1.isNone ∧ args.envp.isSome then
                  returnNull (c.errorFree envp.2)
                else if ¬ found then returnNull (c.errorFree envp.2)
                else calls.initContainer args c envp.2

end CreationCalls

/-- The label `error` of `ocre_context_create_container` and what follows it, after `rm_rf`. -/
def freeTarget (workdir node imagePath : Bool) (live : List Resource) :
    Option (List Resource) := do
  let live ← releaseIf workdir .containerWorkdir live
  let live ← releaseIf node .node live
  releaseIf imagePath .imagePath live

def createContainerError (workdir node imagePath : Bool) (live : List Resource) :
    Option (Option CreatedNode × List Resource) :=
  returnNull (freeTarget workdir node imagePath live)

section Context

variable {Ctx : Type}

/-- The checks of the names and the choice of an ID. -/
def ContextState.acceptedId (s : ContextState Ctx) (args : CreateArgs) (found : CreateCalls Ctx) :
    Option CString :=
  if args.containerId.isSome ∧ ¬ ocreIsValidName args.containerId then none
  else if ¬ ocreIsValidName args.image then none
  else s.computedContainerId args found

/-- The arguments that come to the runtime. -/
def ContextState.runtimeCreateArgs (s : ContextState Ctx) (args : CreateArgs) (id : CString) :
    RuntimeCreateArgs where
  containerId := id
  imgPath := s.imagePath (args.image.getD [])
  workdir := if args.filesystem then some (s.containerWorkdir id) else none
  capabilities := args.arguments.bind ContainerArgs.capabilities
  argv := args.arguments.bind ContainerArgs.argv
  envp := args.arguments.bind ContainerArgs.envp
  mounts := args.arguments.bind ContainerArgs.mounts
  fds := args.fds.defaults

def runtimeFound (args : CreateArgs) (found : CreateCalls Ctx) : Bool :=
  (found.runtimes (args.runtime.getD (cstring "wamr/wasip1"))).isSome

namespace CreationCalls

/-- `ocre_context_create_container` from the call of `ocre_container_create` on. -/
def createListed (calls : CreationCalls) (found : Bool) (args : RuntimeCreateArgs)
    (live : List Resource) : Option (Option CreatedNode × List Resource) :=
  (calls.ocreContainerCreate found args live).bind fun r ↦ match r.1 with
    | none => createContainerError args.workdir.isSome true true r.2
    | some c => (release .imagePath r.2).map fun live ↦ (some ⟨c, args.workdir.isSome⟩, live)

/-- `ocre_context_create_container`. What the caller gives besides decides about the ID, the
call of `mkdir` and the runtime. -/
def ocreContextCreateContainer (calls : CreationCalls) (s : ContextState Ctx) (args : CreateArgs)
    (found : CreateCalls Ctx) (live : List Resource) :
    Option (Option CreatedNode × List Resource) :=
  match s.acceptedId args found with
  | none => some (none, live)
  | some id =>
      if calls.fails .node then createContainerError false false false live
      else
        let live := .node :: live
        if calls.fails .imagePath then createContainerError false true false live
        else
          let live := .imagePath :: live
          let runtimeArgs := s.runtimeCreateArgs args id
          if args.filesystem then
            if calls.fails .containerWorkdir then createContainerError false true true live
            else
              let live := .containerWorkdir :: live
              if (s.makeWorkdir runtimeArgs.workdir found).isNone then
                createContainerError true true true live
              else calls.createListed (runtimeFound args found) runtimeArgs live
          else calls.createListed (runtimeFound args found) runtimeArgs live

end CreationCalls

end Context

variable {calls : CreationCalls} {c : ContainerParts} {live base : List Resource}

/-- NULL is returned, and what was held before the call is held again. -/
def ReturnsNull {α : Type} (r : Option (Option α × List Resource)) (base : List Resource) : Prop :=
  ∃ live, r = some (none, live) ∧ live.Perm base

theorem returnsNull_of_releases {α : Type} {f : List Resource → Option (List Resource)}
    {heap : List Resource} (hf : Releases f heap) (h : live.Perm (heap ++ base)) :
    ReturnsNull (returnNull (f live) : Option (Option α × List Resource)) base := by
  obtain ⟨live', heq, hperm⟩ := hf live base h
  exact ⟨live', by rw [heq]; rfl, hperm⟩

namespace ContainerParts

theorem releases_errorFree (c : ContainerParts) : Releases c.errorFree c.heap := by
  have hreleases := (Resources.releases_releaseAll (arrayParts .argv .argvString c.argv)).comp
    ((Resources.releases_releaseAll (arrayParts .envp .envpString c.envp)).comp
      ((Resources.releases_releaseIf c.image .image).comp
        ((Resources.releases_releaseIf c.id .id).comp (Resources.releases_release .container))))
  simp only [heap, List.append_assoc]
  exact hreleases

theorem releases_errorMutex (c : ContainerParts) : Releases c.errorMutex (.mutex :: c.heap) :=
  (Resources.releases_release Resource.mutex).comp c.releases_errorFree

theorem releases_errorCond (c : ContainerParts) :
    Releases c.errorCond (.semStart :: .condStop :: .mutex :: c.heap) :=
  (Resources.releases_release Resource.semStart).comp
    ((Resources.releases_release Resource.condStop).comp c.releases_errorMutex)

end ContainerParts

namespace CreationCalls

/-- The loop stops at the first copy that fails. -/
theorem dupStrings_spec (calls : CreationCalls) (string : ℕ → Resource) (i : ℕ)
    (src : List CString) (live : List Resource) : ∃ n ≤ src.length,
      calls.dupStrings string i src live =
        (decide (n = src.length), i + n, ((List.range' i n).map string).reverse ++ live) ∧
      (∀ j < n, calls.fails (string (i + j)) = false) ∧
      (n ≠ src.length → calls.fails (string (i + n)) = true) := by
  induction src generalizing i live with
  | nil => exact ⟨0, le_rfl, rfl, fun j hj ↦ absurd hj (Nat.not_lt_zero j), fun h ↦ absurd rfl h⟩
  | cons s src ih =>
      rw [dupStrings]
      split
      next hfails =>
        exact ⟨0, Nat.zero_le _, rfl, fun j hj ↦ absurd hj (Nat.not_lt_zero j), fun _ ↦ hfails⟩
      next hcopied =>
        obtain ⟨n, hle, heq, hcopies, hfails⟩ := ih (i + 1) (string i :: live)
        refine ⟨n + 1, Nat.succ_le_succ hle, ?_, fun j hj ↦ ?_, fun hne ↦ ?_⟩
        · rw [heq, List.range'_succ]
          simp [Nat.add_right_comm, Nat.add_assoc]
        · cases j with
          | zero => exact eq_false_of_ne_true hcopied
          | succ j =>
              have hcopy := hcopies j (Nat.lt_of_succ_lt_succ hj)
              rwa [Nat.add_assoc, Nat.add_comm 1 j] at hcopy
        · have hsrc := hfails fun h ↦ hne (by rw [h, List.length_cons])
          rwa [Nat.add_assoc, Nat.add_comm 1 n] at hsrc

/-- The copy of an array is NULL with nothing held, or holds its parts. It is NULL without need
exactly if one of them cannot be allocated. -/
theorem stringArrayDeepDup_spec (calls : CreationCalls) (array : Resource) (string : ℕ → Resource)
    (src : Option (List CString)) (live : List Resource) : ∃ strings live',
      calls.stringArrayDeepDup array string src live = some (strings, live') ∧
      live'.Perm (arrayParts array string strings ++ live) ∧
      (strings.isNone ∧ src.isSome ↔
        ∃ r ∈ arrayParts array string (src.map List.length), calls.fails r = true) := by
  cases src with
  | none => exact ⟨none, live, rfl, .rfl, by simp [arrayParts]⟩
  | some src =>
      rw [stringArrayDeepDup]
      split
      next hfails =>
        refine ⟨none, live, rfl, .rfl, iff_of_true ⟨rfl, rfl⟩ ⟨array, ?_, hfails⟩⟩
        exact List.mem_append_right _ List.mem_cons_self
      next harray =>
        obtain ⟨n, hle, heq, hcopies, hfails⟩ := calls.dupStrings_spec string 0 src (array :: live)
        rw [Nat.zero_add, ← List.range_eq_range'] at heq
        have hperm : (((List.range n).map string).reverse ++ array :: live).Perm
            (arrayParts array string (some n) ++ live) := by
          rw [arrayParts, List.append_assoc]
          exact (List.reverse_perm _).append_right _
        simp only [Nat.zero_add] at hcopies hfails
        dsimp only
        rw [heq]
        dsimp only
        by_cases hn : n = src.length
        · rw [if_pos (decide_eq_true hn)]
          refine ⟨some n, _, rfl, hperm, iff_of_false (fun h ↦ nomatch h.1) ?_⟩
          rintro ⟨r, hr, hr'⟩
          rw [Option.map_some, arrayParts, ← hn, List.mem_append, List.mem_singleton] at hr
          rcases hr with hr | rfl
          · obtain ⟨j, hj, rfl⟩ := List.mem_map.mp hr
            rw [hcopies j (List.mem_range.mp hj)] at hr'
            cases hr'
          · exact harray hr'
        · rw [if_neg (by simpa using hn)]
          obtain ⟨live', hnull, hbase⟩ : ReturnsNull
              (returnNull (stringArrayFree array string (some n) _) : Option (Option ℕ × _)) live :=
            returnsNull_of_releases (Resources.releases_releaseAll _) hperm
          refine ⟨none, live', hnull, hbase, iff_of_true ⟨rfl, rfl⟩ ⟨string n, ?_, hfails hn⟩⟩
          refine List.mem_append_left _ (List.mem_map_of_mem (List.mem_range.mpr ?_))
          exact Nat.lt_of_le_of_ne hle hn

/-- What is acquired before the semaphore. -/
def containerStages (args : RuntimeCreateArgs) : List Resource :=
  [.container, .image, .id] ++ arrayParts .argv .argvString (args.argv.map List.length) ++
    arrayParts .envp .envpString (args.envp.map List.length) ++ [.mutex, .condStop]

/-- The creation of the container comes to the semaphore. -/
structure ContainerReady (calls : CreationCalls) (found : Bool) (args : RuntimeCreateArgs) :
    Prop where
  mounts : ocreContainerCreateMounts (args.mounts.getD []) = .ok ()
  found : found = true
  stages : ∀ r ∈ containerStages args, calls.fails r = false

theorem initContainer_cases (calls : CreationCalls) (args : RuntimeCreateArgs)
    (h : live.Perm (c.heap ++ base)) :
    (∃ r ∈ [Resource.mutex, .condStop], calls.fails r = true) ∧
        ReturnsNull (calls.initContainer args c live) base ∨
      (∀ r ∈ [Resource.mutex, .condStop], calls.fails r = false) ∧
        ∃ live₁, live₁.Perm (.condStop :: .mutex :: (c.heap ++ base)) ∧
          calls.initContainer args c live = calls.createRuntimeContext args c live₁ := by
  rw [initContainer]
  split
  next hfails =>
    exact .inl ⟨⟨_, by simp, hfails⟩, returnsNull_of_releases c.releases_errorFree h⟩
  next hmutex =>
    dsimp only
    split
    next hfails =>
      exact .inl ⟨⟨_, by simp, hfails⟩, returnsNull_of_releases c.releases_errorMutex (h.cons _)⟩
    next hcond =>
      exact .inr ⟨by simp [hmutex, hcond], _, (h.cons _).cons _, rfl⟩

/-- The creation of the container returns NULL with nothing held, or comes to the semaphore. -/
theorem ocreContainerCreate_cases (calls : CreationCalls) (found : Bool)
    (args : RuntimeCreateArgs) (live : List Resource) :
    ¬ calls.ContainerReady found args ∧
        ReturnsNull (calls.ocreContainerCreate found args live) live ∨
      calls.ContainerReady found args ∧ ∃ c live₁,
        live₁.Perm (.condStop :: .mutex :: (ContainerParts.heap c ++ live)) ∧
          calls.ocreContainerCreate found args live = calls.createRuntimeContext args c live₁ := by
  have hnot {r : Resource} (hr : r ∈ containerStages args) (hfails : calls.fails r = true) :
      ¬ calls.ContainerReady found args :=
    fun hready ↦ Bool.false_ne_true ((hready.stages r hr).symm.trans hfails)
  unfold ocreContainerCreate
  split
  next error herror =>
    refine .inl ⟨fun hready ↦ ?_, _, rfl, .rfl⟩
    cases herror.symm.trans hready.mounts
  next hmounts =>
    split
    next hfails => exact .inl ⟨hnot (by simp [containerStages]) hfails, _, rfl, .rfl⟩
    next hcontainer =>
      dsimp only
      split
      next hfails =>
        exact .inl ⟨hnot (by simp [containerStages]) hfails,
          returnsNull_of_releases (ContainerParts.releases_errorFree _) .rfl⟩
      next himage =>
        split
        next hfails =>
          exact .inl ⟨hnot (by simp [containerStages]) hfails,
            returnsNull_of_releases (ContainerParts.releases_errorFree _) .rfl⟩
        next hid =>
          obtain ⟨argv, live₁, hargv, hperm₁, hargvNull⟩ := calls.stringArrayDeepDup_spec .argv
            .argvString args.argv (.id :: .image :: .container :: live)
          obtain ⟨envp, live₂, henvp, hperm₂, henvpNull⟩ := calls.stringArrayDeepDup_spec .envp
            .envpString args.envp live₁
          rw [hargv, Option.bind_some, henvp, Option.bind_some]
          have hheap : live₂.Perm (ContainerParts.heap ⟨true, true, argv, envp⟩ ++ live) :=
            calc live₂.Perm (arrayParts .envp .envpString envp ++ live₁) := hperm₂
              _ |>.Perm (arrayParts .envp .envpString envp ++ (arrayParts .argv .argvString argv ++
                  (.id :: .image :: .container :: live))) := hperm₁.append_left _
              _ |>.Perm (arrayParts .argv .argvString argv ++ (arrayParts .envp .envpString envp ++
                  (.id :: .image :: .container :: live))) := List.perm_append_comm_assoc _ _ _
              _ |>.Perm (arrayParts .argv .argvString argv ++ (arrayParts .envp .envpString envp ++
                  (.image :: .id :: .container :: live))) :=
                ((List.Perm.swap _ _ _).append_left _).append_left _
              _ = _ := by simp [ContainerParts.heap]
          dsimp only
          split
          next hnull =>
            refine .inl ⟨?_, returnsNull_of_releases (ContainerParts.releases_errorFree _) hheap⟩
            rcases hnull with hnull | hnull
            · obtain ⟨r, hr, hfails⟩ := hargvNull.mp hnull
              exact hnot (by simp [containerStages, hr]) hfails
            · obtain ⟨r, hr, hfails⟩ := henvpNull.mp hnull
              exact hnot (by simp [containerStages, hr]) hfails
          next hcopied =>
            rw [not_or, hargvNull, henvpNull] at hcopied
            split
            next hfound =>
              exact .inl ⟨fun hready ↦ hfound hready.found,
                returnsNull_of_releases (ContainerParts.releases_errorFree _) hheap⟩
            next hfound =>
              rcases calls.initContainer_cases args hheap with
                ⟨⟨r, hr, hfails⟩, hnull⟩ | ⟨hstages, hcreated⟩
              · exact .inl ⟨hnot (List.mem_append_right _ hr) hfails, hnull⟩
              · refine .inr ⟨⟨hmounts, not_not.mp hfound, fun r hr ↦ ?_⟩, _, hcreated⟩
                simp only [containerStages, List.append_assoc, List.mem_append] at hr
                rcases hr with hr | hr | hr | hr
                · simp only [List.mem_cons, List.not_mem_nil, or_false] at hr
                  rcases hr with rfl | rfl | rfl
                  · exact eq_false_of_ne_true hcontainer
                  · exact eq_false_of_ne_true himage
                  · exact eq_false_of_ne_true hid
                · exact eq_false_of_ne_true fun hfails ↦ hcopied.1 ⟨r, hr, hfails⟩
                · exact eq_false_of_ne_true fun hfails ↦ hcopied.2 ⟨r, hr, hfails⟩
                · exact hstages r hr

/-- When the semaphore cannot be initialised, the condition variable stays. -/
theorem createRuntimeContext_of_semStart (args : RuntimeCreateArgs)
    (hsem : calls.fails .semStart = true)
    (h : live.Perm (.condStop :: .mutex :: (c.heap ++ base))) :
    ReturnsNull (calls.createRuntimeContext args c live) (.condStop :: base) := by
  rw [createRuntimeContext, if_pos hsem]
  refine returnsNull_of_releases c.releases_errorMutex (h.trans ?_)
  exact (List.perm_middle : (Resource.mutex :: c.heap ++ .condStop :: base).Perm _).symm

theorem releases_free {context : InstanceContext} {heap : List Resource}
    (h : Releases (instanceDestroy context) heap) :
    Releases (CreatedContainer.free { c with runtimeContext := context })
      (heap ++ .semStart :: .condStop :: .mutex :: c.heap) := by
  have hreleases := h.comp ((Resources.releases_release .mutex).comp
    ((Resources.releases_release .semStart).comp ((Resources.releases_release .condStop).comp
      ((Resources.releases_releaseAll (arrayParts .argv .argvString c.argv)).comp
        ((Resources.releases_releaseAll (arrayParts .envp .envpString c.envp)).comp
          ((Resources.releases_releaseIf c.id .id).comp
            ((Resources.releases_releaseIf c.image .image).comp
              (Resources.releases_release .container))))))))
  have hheap : (arrayParts .argv .argvString c.argv ++ (arrayParts .envp .envpString c.envp ++
      ((if c.id then [Resource.id] else []) ++ ((if c.image then [Resource.image] else []) ++
        [Resource.container])))).Perm c.heap := by
    simp only [ContainerParts.heap, List.append_assoc]
    exact ((List.perm_append_comm_assoc _ _ _).append_left _).append_left _
  refine Releases.perm hreleases (List.Perm.append_left _ ?_)
  exact (List.Perm.swap Resource.semStart Resource.mutex _).trans
    (((List.Perm.swap Resource.condStop Resource.mutex _).cons _).trans
      (((hheap.cons _).cons _).cons _))

/-- With an array that is built once, NULL is returned with nothing held, or a container that
holds what its destruction releases. -/
theorem createRuntimeContext_of_buildsOnce {args : RuntimeCreateArgs}
    (hsem : calls.fails .semStart = false)
    (honce : (∀ r ∈ instanceStages, calls.fails r = false) →
      DirMap.BuildsOnce calls args.workdir (args.capabilities.getD []))
    (hmounts : ∀ mount ∈ args.mounts.getD [], IsCString mount ∧ mountError mount = none)
    (h : live.Perm (.condStop :: .mutex :: (c.heap ++ base))) :
    ReturnsNull (calls.createRuntimeContext args c live) base ∨
    ∃ container live' heap, calls.createRuntimeContext args c live = some (some container, live') ∧
      Releases container.free heap ∧ live'.Perm (heap ++ base) := by
  rw [createRuntimeContext, if_neg (by simp [hsem])]
  rcases instanceCreate_of_buildsOnce (.semStart :: live) honce hmounts with
    ⟨live', heq, hperm⟩ | ⟨context, live', heap, heq, hreleases, hperm⟩
  · rw [heq, Option.bind_some]
    exact .inl (returnsNull_of_releases c.releases_errorCond (hperm.trans (h.cons _)))
  · rw [heq, Option.bind_some]
    refine .inr ⟨_, live', _, rfl, releases_free hreleases, ?_⟩
    rw [List.append_assoc]
    exact hperm.trans ((h.cons _).append_left heap)

section Leaks

variable {args : RuntimeCreateArgs}

theorem not_mem_arrayParts {array r : Resource} {string : ℕ → Resource} (strings : Option ℕ)
    (harray : r ≠ array) (hstring : ∀ i, r ≠ string i) : r ∉ arrayParts array string strings := by
  intro hmem
  cases strings with
  | none => cases hmem
  | some n =>
      rcases List.mem_append.mp hmem with hmem | hmem
      · obtain ⟨i, -, heq⟩ := List.mem_map.mp hmem
        exact hstring i heq.symm
      · exact harray (List.mem_singleton.mp hmem)

theorem keeps_stringArrayFree {array r : Resource} {string : ℕ → Resource} {strings : Option ℕ}
    (harray : r ≠ array) (hstring : ∀ i, r ≠ string i) :
    Keeps r (stringArrayFree array string strings) :=
  Resources.keeps_releaseAll (not_mem_arrayParts strings harray hstring)

theorem keeps_errorCond (c : ContainerParts) : Keeps (.filesystemList 0) c.errorCond := by
  have hargv : Keeps (.filesystemList 0) (stringArrayFree .argv .argvString c.argv) :=
    keeps_stringArrayFree (by decide) fun _ ↦ nofun
  have henvp : Keeps (.filesystemList 0) (stringArrayFree .envp .envpString c.envp) :=
    keeps_stringArrayFree (by decide) fun _ ↦ nofun
  exact (keeps_lost .semStart (by decide)).comp ((keeps_lost .condStop (by decide)).comp
    ((keeps_lost .mutex (by decide)).comp (hargv.comp (henvp.comp
      ((Resources.keeps_releaseIf c.image (by decide)).comp
        ((Resources.keeps_releaseIf c.id (by decide)).comp (keeps_lost .container (by decide))))))))

theorem keeps_free {container : CreatedContainer}
    (h : Keeps (.filesystemList 0) (instanceDestroy container.runtimeContext)) :
    Keeps (.filesystemList 0) container.free := by
  have hargv : Keeps (.filesystemList 0) (stringArrayFree .argv .argvString container.argv) :=
    keeps_stringArrayFree (by decide) fun _ ↦ nofun
  have henvp : Keeps (.filesystemList 0) (stringArrayFree .envp .envpString container.envp) :=
    keeps_stringArrayFree (by decide) fun _ ↦ nofun
  exact h.comp ((keeps_lost .mutex (by decide)).comp ((keeps_lost .semStart (by decide)).comp
    ((keeps_lost .condStop (by decide)).comp (hargv.comp (henvp.comp
      ((Resources.keeps_releaseIf container.id (by decide)).comp
        ((Resources.keeps_releaseIf container.image (by decide)).comp
          (keeps_lost .container (by decide)))))))))

/-- The first array stays when NULL is returned, and after the destruction of the container. -/
theorem createRuntimeContext_leaks {path : CString} {r : Option CreatedContainer}
    {live' : List Resource} (hsem : calls.fails .semStart = false)
    (hstages : ∀ r ∈ instanceStages, calls.fails r = false) (hworkdir : args.workdir = some path)
    (hlist : calls.fails (.filesystemList 0) = false)
    (hentry : calls.fails (.filesystemEntry 0) = false)
    (htwice : 2 ≤ (args.capabilities.getD []).count (cstring "filesystem"))
    (hmounts : ∀ mount ∈ args.mounts.getD [], IsCString mount ∧ mountError mount = none)
    (h : calls.createRuntimeContext args c live = some (r, live')) :
    .filesystemList 0 ∈ live' ∧ ∀ container ∈ r, Keeps (.filesystemList 0) container.free := by
  rw [createRuntimeContext, if_neg (by simp [hsem])] at h
  obtain ⟨⟨context, live₁⟩, hcreate, h⟩ := Option.bind_eq_some_iff.mp h
  obtain ⟨hmem, hkeeps⟩ :=
    instanceCreate_leaks hstages hworkdir hlist hentry htwice hmounts hcreate
  cases context with
  | none =>
      obtain ⟨live₂, hfree, heq⟩ := Option.map_eq_some_iff.mp h
      obtain ⟨rfl, rfl⟩ := Prod.mk.inj heq
      exact ⟨keeps_errorCond c _ _ hmem hfree, fun _ hnone ↦ absurd hnone (Option.not_mem_none _)⟩
  | some context =>
      obtain ⟨rfl, rfl⟩ := Prod.mk.inj (Option.some.inj h)
      refine ⟨hmem, fun container hcontainer ↦ ?_⟩
      obtain rfl := Option.some.inj hcontainer
      exact keeps_free (hkeeps context rfl)

/-- A freed array is read when its string could not be allocated. -/
theorem createRuntimeContext_of_entryFails {path : CString} (hsem : calls.fails .semStart = false)
    (hstages : ∀ r ∈ instanceStages, calls.fails r = false) (hworkdir : args.workdir = some path)
    (hlist : calls.fails (.filesystemList 0) = false)
    (hentry : calls.fails (.filesystemEntry 0) = true)
    (hmem : cstring "filesystem" ∈ args.capabilities.getD []) (hlive : .filesystemList 0 ∉ live) :
    calls.createRuntimeContext args c live = none := by
  rw [createRuntimeContext, if_neg (by simp [hsem]), instanceCreate_of_entryFails hstages hworkdir
    hlist hentry hmem (by simp [hlive]), Option.bind_none]

end Leaks

end CreationCalls

end OcreRuntime
