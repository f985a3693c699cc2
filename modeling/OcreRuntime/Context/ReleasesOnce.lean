import OcreRuntime.Context.Releases

/-!
# Creations that release everything once

A creation of a container that returns NULL holds nothing any more, and a container that
has been created and removed leaves nothing behind, except when the semaphore cannot be
initialised, or the directory map loses its first array.
-/

namespace OcreRuntime

open Resources (release releaseIf Releases Keeps)

variable {Ctx : Type} {calls : CreationCalls} {s : ContextState Ctx} {args : CreateArgs}
  {found : CreateCalls Ctx} {live base : List Resource} {id : CString}

theorem releases_freeTarget (workdir node imagePath : Bool) :
    Releases (freeTarget workdir node imagePath)
      ((if workdir then [Resource.containerWorkdir] else []) ++
        ((if node then [Resource.node] else []) ++
          if imagePath then [Resource.imagePath] else [])) :=
  (Resources.releases_releaseIf workdir Resource.containerWorkdir).comp
    ((Resources.releases_releaseIf node Resource.node).comp
      (Resources.releases_releaseIf imagePath Resource.imagePath))

namespace CreationCalls

/-- What is acquired before the container. -/
def contextStages (args : CreateArgs) : List Resource :=
  [.node, .imagePath] ++ if args.filesystem then [.containerWorkdir] else []

/-- The creation comes to the container. -/
structure ContextReady (calls : CreationCalls) (s : ContextState Ctx) (args : CreateArgs)
    (found : CreateCalls Ctx) (id : CString) : Prop where
  accepted : s.acceptedId args found = some id
  stages : ∀ r ∈ contextStages args, calls.fails r = false
  workdir : (s.makeWorkdir (s.runtimeCreateArgs args id).workdir found).isSome

/-- What is held when the creation comes to the container. -/
def targetHeap (workdir : Bool) : List Resource :=
  (if workdir then [.containerWorkdir] else []) ++ [.node, .imagePath]

theorem ocreContextCreateContainer_cases (calls : CreationCalls) (s : ContextState Ctx)
    (args : CreateArgs) (found : CreateCalls Ctx) (live : List Resource) :
    (∀ id, ¬ calls.ContextReady s args found id) ∧
        ReturnsNull (calls.ocreContextCreateContainer s args found live) live ∨
      ∃ id, calls.ContextReady s args found id ∧ ∃ live₁,
        live₁.Perm (targetHeap args.filesystem ++ live) ∧
          calls.ocreContextCreateContainer s args found live =
            calls.createListed (runtimeFound args found) (s.runtimeCreateArgs args id) live₁ := by
  have hnot {r : Resource} (hr : r ∈ contextStages args) (hfails : calls.fails r = true)
      (id : CString) : ¬ calls.ContextReady s args found id :=
    fun hready ↦ Bool.false_ne_true ((hready.stages r hr).symm.trans hfails)
  unfold ocreContextCreateContainer
  split
  next hnone =>
    refine .inl ⟨fun id hready ↦ ?_, live, rfl, .rfl⟩
    cases hnone.symm.trans hready.accepted
  next id hid =>
    split
    next hfails =>
      exact .inl ⟨hnot (by simp [contextStages]) hfails,
        returnsNull_of_releases (releases_freeTarget false false false) .rfl⟩
    next hnode =>
      dsimp only
      split
      next hfails =>
        exact .inl ⟨hnot (by simp [contextStages]) hfails,
          returnsNull_of_releases (releases_freeTarget false true false) .rfl⟩
      next himagePath =>
        split
        next hfilesystem =>
          split
          next hfails =>
            exact .inl ⟨hnot (by simp [contextStages, hfilesystem]) hfails,
              returnsNull_of_releases (releases_freeTarget false true true) (.swap _ _ _)⟩
          next hworkdir =>
            split
            next hmkdir =>
              refine .inl ⟨fun id' hready ↦ ?_,
                returnsNull_of_releases (releases_freeTarget true true true)
                  ((List.Perm.swap _ _ _).cons _)⟩
              obtain rfl := Option.some.inj (hid.symm.trans hready.accepted)
              rw [Option.isNone_iff_eq_none] at hmkdir
              simpa [hmkdir] using hready.workdir
            next hmkdir =>
              rw [Option.isNone_iff_eq_none] at hmkdir
              refine .inr ⟨id, ⟨hid, ?_, Option.isSome_iff_ne_none.mpr hmkdir⟩, _, ?_, rfl⟩
              · simp [contextStages, hfilesystem, hnode, himagePath, hworkdir]
              · rw [hfilesystem]
                exact (List.Perm.swap _ _ _).cons _
        next hfilesystem =>
          refine .inr ⟨id, ⟨hid, ?_, ?_⟩, _, ?_, rfl⟩
          · simp [contextStages, hfilesystem, hnode, himagePath]
          · simp [ContextState.runtimeCreateArgs, hfilesystem, ContextState.makeWorkdir]
          · rw [eq_false_of_ne_true hfilesystem]
            exact .swap _ _ _

/-- The creation comes to the semaphore. -/
def SemaphoreReached (calls : CreationCalls) (s : ContextState Ctx) (args : CreateArgs)
    (found : CreateCalls Ctx) : Prop :=
  ∃ id, calls.ContextReady s args found id ∧
    calls.ContainerReady (runtimeFound args found) (s.runtimeCreateArgs args id)

def capabilities (args : CreateArgs) : List CString :=
  (args.arguments.bind ContainerArgs.capabilities).getD []

/-- If the creation comes to the semaphore, it can be initialised; and if it comes to the
capabilities and finds `filesystem`, then the array cannot be allocated, or its string can
and the capability does not come again. -/
def LosesNothing (calls : CreationCalls) (s : ContextState Ctx) (args : CreateArgs)
    (found : CreateCalls Ctx) : Prop :=
  calls.SemaphoreReached s args found → calls.fails .semStart = false ∧
    ((∀ r ∈ instanceStages, calls.fails r = false) →
      cstring "filesystem" ∈ capabilities args → calls.fails (.filesystemList 0) = true ∨
        calls.fails (.filesystemEntry 0) = false ∧
          (capabilities args).count (cstring "filesystem") ≤ 1)

/-- No call is undefined, nothing is held when NULL has been returned, and nothing is held
after a removal that succeeds. -/
def ReleasesOnce (calls : CreationCalls) (s : ContextState Ctx) (args : CreateArgs)
    (found : CreateCalls Ctx) : Prop :=
  ∃ r live, calls.ocreContextCreateContainer s args found [] = some (r, live) ∧
    (r = none → live = []) ∧
    ∀ node ∈ r, ∀ status rmRf, ∃ rc live',
      node.ocreContextRemoveContainerLocked status rmRf live = some (rc, live') ∧
        (rc = 0 → live' = [])

theorem releasesOnce_of_returnsNull
    (h : ReturnsNull (calls.ocreContextCreateContainer s args found []) []) :
    calls.ReleasesOnce s args found := by
  obtain ⟨live, heq, hperm⟩ := h
  exact ⟨none, live, heq, fun _ ↦ hperm.eq_nil, fun _ hnone ↦ absurd hnone (Option.not_mem_none _)⟩

/-- The creation of the container and its node, when the container is created or not. -/
theorem createListed_of_returnsNull {runtimeArgs : RuntimeCreateArgs} {fd : Bool}
    (h : ReturnsNull (calls.ocreContainerCreate fd runtimeArgs live)
      (targetHeap runtimeArgs.workdir.isSome ++ base)) :
    ReturnsNull (calls.createListed fd runtimeArgs live) base := by
  obtain ⟨live', heq, hperm⟩ := h
  rw [createListed, heq, Option.bind_some]
  exact returnsNull_of_releases (releases_freeTarget _ true true) hperm

/-- A node that holds what its removal releases. -/
theorem remove_of_releases {container : CreatedContainer} {heap : List Resource} {workdir : Bool}
    (hfree : Releases container.free heap)
    (h : live.Perm (heap ++ ((if workdir then [Resource.containerWorkdir] else []) ++ [.node])))
    (status : OcreContainerStatus) (rmRf : Int) : ∃ rc live',
      (CreatedNode.mk container workdir).ocreContextRemoveContainerLocked status rmRf live =
          some (rc, live') ∧
        (rc = 0 → live' = []) := by
  rw [CreatedNode.ocreContextRemoveContainerLocked, CreatedContainer.ocreContainerDestroy]
  split
  · exact ⟨-1, live, rfl, fun h ↦ absurd h (by decide)⟩
  · obtain ⟨live₁, hlive₁, hperm₁⟩ := hfree live _ h
    rw [hlive₁, Option.map_some, Option.bind_some, if_neg (by simp)]
    split
    · exact ⟨-1, live₁, rfl, fun h ↦ absurd h (by decide)⟩
    · obtain ⟨live₂, hlive₂, hperm₂⟩ :=
        ((Resources.releases_releaseIf workdir .containerWorkdir).comp
          (Resources.releases_release .node)) live₁ [] (by rwa [List.append_nil])
      refine ⟨0, live₂, ?_, fun _ ↦ hperm₂.eq_nil⟩
      rw [Option.map_eq_some_iff]
      exact ⟨live₂, hlive₂, rfl⟩

theorem isSome_workdir (s : ContextState Ctx) (args : CreateArgs) (id : CString) :
    (s.runtimeCreateArgs args id).workdir.isSome = args.filesystem := by
  rw [ContextState.runtimeCreateArgs]
  rcases args.filesystem with _ | _ <;> rfl

/-- The creation returns NULL with nothing held, or comes to the semaphore. -/
theorem semaphoreReached_cases (calls : CreationCalls) (s : ContextState Ctx) (args : CreateArgs)
    (found : CreateCalls Ctx) :
    ¬ calls.SemaphoreReached s args found ∧
        ReturnsNull (calls.ocreContextCreateContainer s args found []) [] ∨
      calls.SemaphoreReached s args found ∧ ∃ id c live₁ live₂,
        live₁.Perm (targetHeap args.filesystem ++ []) ∧
        live₂.Perm (.condStop :: .mutex :: (ContainerParts.heap c ++ live₁)) ∧
        calls.ocreContextCreateContainer s args found [] =
          calls.createListed (runtimeFound args found) (s.runtimeCreateArgs args id) live₁ ∧
        calls.ocreContainerCreate (runtimeFound args found) (s.runtimeCreateArgs args id) live₁ =
          calls.createRuntimeContext (s.runtimeCreateArgs args id) c live₂ := by
  rcases calls.ocreContextCreateContainer_cases s args found [] with
    ⟨hnot, hnull⟩ | ⟨id, hready, live₁, hperm₁, heq⟩
  · exact .inl ⟨fun ⟨id, hready, _⟩ ↦ hnot id hready, hnull⟩
  · rcases calls.ocreContainerCreate_cases (runtimeFound args found) (s.runtimeCreateArgs args id)
      live₁ with ⟨hnot, live', hnull, hperm⟩ | ⟨hcontainer, c, live₂, hperm₂, heq'⟩
    · refine .inl ⟨?_, ?_⟩
      · rintro ⟨id', hready', hcontainer⟩
        obtain rfl := Option.some.inj (hready.accepted.symm.trans hready'.accepted)
        exact hnot hcontainer
      · rw [heq]
        refine createListed_of_returnsNull ⟨live', hnull, hperm.trans ?_⟩
        rwa [isSome_workdir]
    · exact .inr ⟨⟨id, hready, hcontainer⟩, id, c, live₁, live₂, hperm₁, hperm₂, heq, heq'⟩

theorem accepted_of_semaphoreReached
    (hmounts : ∀ mount ∈ (args.arguments.bind ContainerArgs.mounts).getD [], IsCString mount)
    (h : calls.SemaphoreReached s args found) :
    ∀ mount ∈ (args.arguments.bind ContainerArgs.mounts).getD [],
      IsCString mount ∧ mountError mount = none := by
  obtain ⟨id, -, hready⟩ := h
  exact fun mount hmem ↦ ⟨hmounts mount hmem, accepted_iff.mp hready.mounts mount hmem⟩

theorem buildsOnce_of_capabilities (id : CString)
    (h : cstring "filesystem" ∈ capabilities args → calls.fails (.filesystemList 0) = true ∨
      calls.fails (.filesystemEntry 0) = false ∧
        (capabilities args).count (cstring "filesystem") ≤ 1) :
    DirMap.BuildsOnce calls (s.runtimeCreateArgs args id).workdir
      ((s.runtimeCreateArgs args id).capabilities.getD []) := by
  by_cases hmem : cstring "filesystem" ∈ capabilities args
  · exact .inr (.inr (h hmem))
  · exact .inr (.inl hmem)

theorem releasesOnce_of_losesNothing
    (hmounts : ∀ mount ∈ (args.arguments.bind ContainerArgs.mounts).getD [], IsCString mount)
    (h : calls.LosesNothing s args found) : calls.ReleasesOnce s args found := by
  rcases calls.semaphoreReached_cases s args found with
    ⟨-, hnull⟩ | ⟨hreached, id, c, live₁, live₂, hperm₁, hperm₂, heq, heq'⟩
  · exact releasesOnce_of_returnsNull hnull
  obtain ⟨hsem, hfilesystem⟩ := h hreached
  rcases createRuntimeContext_of_buildsOnce hsem
      (fun hstages ↦ buildsOnce_of_capabilities (s := s) id (hfilesystem hstages))
      (accepted_of_semaphoreReached hmounts hreached) hperm₂ with
    ⟨live', hnull, hperm⟩ | ⟨container, live', heap, hcreated, hfree, hperm⟩
  · apply releasesOnce_of_returnsNull
    rw [heq]
    refine createListed_of_returnsNull ⟨live', heq'.trans hnull, hperm.trans ?_⟩
    rwa [isSome_workdir]
  · have htarget : live'.Perm ([.imagePath] ++ (heap ++
        ((if args.filesystem then [Resource.containerWorkdir] else []) ++ [.node]))) := by
      have hlast : heap ++ (targetHeap args.filesystem ++ []) = heap ++
          ((if args.filesystem then [Resource.containerWorkdir] else []) ++ [.node]) ++
            [.imagePath] := by
        simp [targetHeap]
      exact (hperm.trans (hperm₁.append_left heap)).trans (hlast ▸ List.perm_append_comm)
    obtain ⟨live₃, hrelease, hperm₃⟩ :=
      Resources.releases_release .imagePath live' _ htarget
    refine ⟨some ⟨container, args.filesystem⟩, live₃, ?_, nofun, ?_⟩
    · rw [heq, createListed, heq', hcreated, Option.bind_some, hrelease, isSome_workdir]
      rfl
    · rintro node hnode status rmRf
      obtain rfl := Option.some.inj hnode
      exact remove_of_releases hfree hperm₃ status rmRf

theorem not_mem_heap (c : ContainerParts) : .filesystemList 0 ∉ c.heap := by
  have hargv : .filesystemList 0 ∉ arrayParts .argv .argvString c.argv :=
    not_mem_arrayParts c.argv (by decide) fun _ ↦ nofun
  have henvp : .filesystemList 0 ∉ arrayParts .envp .envpString c.envp :=
    not_mem_arrayParts c.envp (by decide) fun _ ↦ nofun
  rcases c with ⟨_ | _, _ | _, _, _⟩ <;> simp [ContainerParts.heap, hargv, henvp]

/-- A semaphore that cannot be initialised leaves the condition variable. -/
theorem not_releasesOnce_of_semStart (hreached : calls.SemaphoreReached s args found)
    (hsem : calls.fails .semStart = true) : ¬ calls.ReleasesOnce s args found := by
  rintro ⟨r, live, heq, hnull, -⟩
  rcases calls.semaphoreReached_cases s args found with
    ⟨hnot, -⟩ | ⟨-, id, c, live₁, live₂, hperm₁, hperm₂, hcreate, hcontainer⟩
  · exact hnot hreached
  have hcond : ReturnsNull (calls.ocreContainerCreate (runtimeFound args found)
      (s.runtimeCreateArgs args id) live₁)
      (targetHeap (s.runtimeCreateArgs args id).workdir.isSome ++ [.condStop]) := by
    rw [hcontainer, isSome_workdir]
    obtain ⟨live', hnull', hperm⟩ := createRuntimeContext_of_semStart _ hsem hperm₂
    refine ⟨live', hnull', hperm.trans ((hperm₁.cons _).trans ?_)⟩
    rw [List.append_nil]
    exact (List.perm_append_singleton _ _).symm
  obtain ⟨live', hnull', hperm⟩ := createListed_of_returnsNull hcond
  obtain ⟨rfl, rfl⟩ := Prod.mk.inj (Option.some.inj ((hnull'.symm.trans hcreate.symm).trans heq))
  rw [hnull rfl] at hperm
  exact absurd hperm.symm.eq_nil (List.cons_ne_nil _ _)

theorem exists_workdir_of_mem (s : ContextState Ctx) (id : CString)
    (hmem : cstring "filesystem" ∈ capabilities args) :
    ∃ path, (s.runtimeCreateArgs args id).workdir = some path := by
  have hfilesystem : args.filesystem = true := List.contains_iff_mem.mpr hmem
  exact ⟨s.containerWorkdir id, by rw [ContextState.runtimeCreateArgs, if_pos hfilesystem]⟩

/-- The freed array makes the creation undefined. -/
theorem not_releasesOnce_of_entryFails (hreached : calls.SemaphoreReached s args found)
    (hsem : calls.fails .semStart = false) (hstages : ∀ r ∈ instanceStages, calls.fails r = false)
    (hmem : cstring "filesystem" ∈ capabilities args)
    (hlist : calls.fails (.filesystemList 0) = false)
    (hentry : calls.fails (.filesystemEntry 0) = true) : ¬ calls.ReleasesOnce s args found := by
  rintro ⟨r, live, heq, -⟩
  rcases calls.semaphoreReached_cases s args found with
    ⟨hnot, -⟩ | ⟨-, id, c, live₁, live₂, hperm₁, hperm₂, hcreate, hcontainer⟩
  · exact hnot hreached
  obtain ⟨path, hworkdir⟩ := exists_workdir_of_mem s id hmem
  have hlive : .filesystemList 0 ∉ live₂ := by
    rw [hperm₂.mem_iff, List.mem_cons, List.mem_cons, List.mem_append, hperm₁.mem_iff]
    rcases args.filesystem with _ | _ <;> simp [not_mem_heap c, targetHeap]
  rw [hcreate, createListed, hcontainer,
    createRuntimeContext_of_entryFails hsem hstages hworkdir hlist hentry hmem hlive] at heq
  cases heq

theorem keeps_freeTarget (workdir node imagePath : Bool) :
    Keeps (.filesystemList 0) (freeTarget workdir node imagePath) :=
  (Resources.keeps_releaseIf workdir (by decide)).comp
    ((Resources.keeps_releaseIf node (by decide)).comp
      (Resources.keeps_releaseIf imagePath (by decide)))

/-- The removal of a container that has just been created. -/
theorem mem_of_remove {container : CreatedContainer} {workdir : Bool} {rc : Int}
    {live' : List Resource} (hkeeps : Keeps (.filesystemList 0) container.free)
    (hmem : .filesystemList 0 ∈ live)
    (h : (CreatedNode.mk container workdir).ocreContextRemoveContainerLocked .created 0 live =
      some (rc, live')) : rc = 0 ∧ .filesystemList 0 ∈ live' := by
  rw [CreatedNode.ocreContextRemoveContainerLocked, CreatedContainer.ocreContainerDestroy,
    if_neg (by simp)] at h
  obtain ⟨r, hdestroy, h⟩ := Option.bind_eq_some_iff.mp h
  obtain ⟨live₁, hfree, rfl⟩ := Option.map_eq_some_iff.mp hdestroy
  rw [if_neg (by simp), if_neg (by simp)] at h
  obtain ⟨live₂, hnode, hpair⟩ := Option.map_eq_some_iff.mp h
  obtain ⟨rfl, rfl⟩ := Prod.mk.inj hpair
  refine ⟨rfl, ?_⟩
  exact ((Resources.keeps_releaseIf workdir (by decide)).comp (keeps_lost .node (by decide))) _ _
    (hkeeps _ _ hmem hfree) hnode

/-- The array that is replaced stays held for good. -/
theorem not_releasesOnce_of_twice
    (hmounts : ∀ mount ∈ (args.arguments.bind ContainerArgs.mounts).getD [], IsCString mount)
    (hreached : calls.SemaphoreReached s args found)
    (hsem : calls.fails .semStart = false) (hstages : ∀ r ∈ instanceStages, calls.fails r = false)
    (hlist : calls.fails (.filesystemList 0) = false)
    (hentry : calls.fails (.filesystemEntry 0) = false)
    (htwice : 2 ≤ (capabilities args).count (cstring "filesystem")) :
    ¬ calls.ReleasesOnce s args found := by
  rintro ⟨r, live, heq, hnull, hremove⟩
  rcases calls.semaphoreReached_cases s args found with
    ⟨hnot, -⟩ | ⟨-, id, c, live₁, live₂, -, -, hcreate, hcontainer⟩
  · exact hnot hreached
  obtain ⟨path, hworkdir⟩ := exists_workdir_of_mem s id
    (List.count_pos_iff.mp (Nat.zero_lt_of_lt htwice))
  rw [hcreate, createListed, hcontainer] at heq
  obtain ⟨⟨container, live₃⟩, hcreated, hlisted⟩ := Option.bind_eq_some_iff.mp heq
  obtain ⟨hheld, hkeeps⟩ := createRuntimeContext_leaks hsem hstages hworkdir hlist hentry htwice
    (accepted_of_semaphoreReached hmounts hreached) hcreated
  cases container with
  | none =>
      obtain ⟨live₄, hfree, hpair⟩ := Option.map_eq_some_iff.mp hlisted
      obtain ⟨rfl, rfl⟩ := Prod.mk.inj hpair
      have hmem := keeps_freeTarget _ true true _ _ hheld hfree
      rw [hnull rfl] at hmem
      cases hmem
  | some container =>
      obtain ⟨live₄, hrelease, hpair⟩ := Option.map_eq_some_iff.mp hlisted
      obtain ⟨rfl, rfl⟩ := Prod.mk.inj hpair
      have hmem : .filesystemList 0 ∈ live₄ := keeps_lost .imagePath (by decide) _ _ hheld hrelease
      obtain ⟨rc, live₅, hremoved, hempty⟩ := hremove _ rfl .created 0
      obtain ⟨rfl, hmem₅⟩ := mem_of_remove (hkeeps container rfl) hmem hremoved
      rw [hempty rfl] at hmem₅
      cases hmem₅

theorem losesNothing_of_releasesOnce
    (hmounts : ∀ mount ∈ (args.arguments.bind ContainerArgs.mounts).getD [], IsCString mount)
    (h : calls.ReleasesOnce s args found) : calls.LosesNothing s args found := by
  intro hreached
  have hsem : calls.fails .semStart = false :=
    eq_false_of_ne_true fun hfails ↦ not_releasesOnce_of_semStart hreached hfails h
  refine ⟨hsem, fun hstages hmem ↦ ?_⟩
  rcases hlist : calls.fails (.filesystemList 0) with _ | _
  · rcases hentry : calls.fails (.filesystemEntry 0) with _ | _
    · refine .inr ⟨rfl, ?_⟩
      by_contra hcount
      exact not_releasesOnce_of_twice hmounts hreached hsem hstages hlist hentry
        (Nat.lt_of_not_le hcount) h
    · exact absurd h (not_releasesOnce_of_entryFails hreached hsem hstages hmem hlist hentry)
  · exact .inl rfl

/-- Whatever fails, a creation and its removal release everything once, exactly if the
semaphore can be initialised and the first array of the directory map is not lost. -/
theorem releasesOnce_iff (calls : CreationCalls) (s : ContextState Ctx) (args : CreateArgs)
    (found : CreateCalls Ctx)
    (hmounts : ∀ mount ∈ (args.arguments.bind ContainerArgs.mounts).getD [], IsCString mount) :
    calls.ReleasesOnce s args found ↔ calls.LosesNothing s args found :=
  ⟨losesNothing_of_releasesOnce hmounts, releasesOnce_of_losesNothing hmounts⟩

/-- A container with a working directory and two mounts, when these capabilities are asked
for. -/
def mountsCreateArgs (caps : List CString) : CreateArgs where
  image := some (cstring "a")
  containerId := some (cstring "b")
  arguments := some {
    argv := some [cstring "x", cstring "y"]
    envp := some []
    capabilities := some caps
    mounts := some [cstring "/tmp:/data", cstring "/srv:/a:b"] }

/-- The block for the second mount cannot be allocated. -/
theorem releasesOnce_of_mountEntry :
    ReleasesOnce { fails := fun r ↦ decide (r = .mountEntry 1) } workContext
      (mountsCreateArgs [cstring "ocre:api", cstring "filesystem"]) (promptCalls 1) :=
  (releasesOnce_iff _ workContext
    (mountsCreateArgs [cstring "ocre:api", cstring "filesystem"]) (promptCalls 1)
    (by decide)).mpr fun _ ↦ ⟨rfl, fun _ _ ↦ .inr ⟨rfl, by decide⟩⟩

/-- A semaphore that cannot be initialised, the string of the array that cannot be allocated,
and a capability that comes twice. -/
theorem not_releasesOnce_of_failures :
    ¬ ReleasesOnce { fails := fun r ↦ decide (r = .semStart) } workContext
        (mountsCreateArgs []) (promptCalls 1) ∧
      ¬ ReleasesOnce { fails := fun r ↦ decide (r = .filesystemEntry 0) } workContext
        (mountsCreateArgs [cstring "filesystem"]) (promptCalls 1) ∧
      ¬ ReleasesOnce {} workContext
        (mountsCreateArgs [cstring "filesystem", cstring "filesystem"])
        (promptCalls 1) := by
  have hsem : SemaphoreReached { fails := fun r ↦ decide (r = .semStart) } workContext
      (mountsCreateArgs []) (promptCalls 1) :=
    ⟨cstring "b", ⟨rfl, by decide, by decide⟩, rfl, rfl, by decide⟩
  have hentry : SemaphoreReached { fails := fun r ↦ decide (r = .filesystemEntry 0) } workContext
      (mountsCreateArgs [cstring "filesystem"]) (promptCalls 1) :=
    ⟨cstring "b", ⟨rfl, by decide, by decide⟩, rfl, rfl, by decide⟩
  have htwice : SemaphoreReached {} workContext
      (mountsCreateArgs [cstring "filesystem", cstring "filesystem"]) (promptCalls 1) :=
    ⟨cstring "b", ⟨rfl, by decide, by decide⟩, rfl, rfl, by decide⟩
  refine ⟨not_releasesOnce_of_semStart hsem rfl, ?_, ?_⟩
  · exact not_releasesOnce_of_entryFails hentry rfl (by decide) (by decide) rfl rfl
  · exact not_releasesOnce_of_twice (by decide) htwice rfl (by decide) rfl rfl (by decide)

end CreationCalls

end OcreRuntime
