import OcreRuntime.Shell.Image

/-!
# Names stay in their directory

Every name that becomes part of a path has passed `ocre_is_valid_name`, or has been made
up from hexadecimal digits. So it is one component of the path, and the path is that of an
entry of `images` or of `containers`.
-/

namespace OcreRuntime

/-- The characters of a valid name. -/
def nameCharacters : List UInt8 := cstring "abcdefghijklmnopqrstuvwxyz0123456789._-"

theorem ocreIsValidName_iff (id : Option CString) :
    ocreIsValidName id = true ↔ ∃ name, id = some name ∧ name ≠ [] ∧ name.head? ≠ some 46 ∧
      ∀ c ∈ name, c ∈ nameCharacters := by
  have hcharacters (c : UInt8) :
      (97 ≤ c ∧ c ≤ 122) ∨ (48 ≤ c ∧ c ≤ 57) ∨ c = 46 ∨ c = 95 ∨ c = 45 ↔
        c ∈ nameCharacters := by
    have hall : ∀ n < 256, ((97 ≤ UInt8.ofNat n ∧ UInt8.ofNat n ≤ 122) ∨
        (48 ≤ UInt8.ofNat n ∧ UInt8.ofNat n ≤ 57) ∨ UInt8.ofNat n = 46 ∨ UInt8.ofNat n = 95 ∨
          UInt8.ofNat n = 45) ↔ UInt8.ofNat n ∈ nameCharacters := by
      decide +kernel
    have hc := hall c.toNat c.toNat_lt
    rwa [UInt8.ofNat_toNat] at hc
  constructor
  · intro h
    cases id with
    | none => cases h
    | some name =>
        cases name with
        | nil => cases h
        | cons c name =>
            obtain ⟨hdot, hall⟩ := ocreIsValidName_cons.mp h
            refine ⟨c :: name, rfl, List.cons_ne_nil c name, ?_, ?_⟩
            · simpa using hdot
            · intro x hx
              exact (hcharacters x).mp (hall x hx)
  · rintro ⟨name, rfl, hne, hdot, hall⟩
    cases name with
    | nil => exact absurd rfl hne
    | cons c name =>
        refine ocreIsValidName_cons.mpr ⟨by simpa using hdot, ?_⟩
        intro x hx
        exact (hcharacters x).mpr (hall x hx)

/-- The path of the entry of a directory with a given name. -/
structure ChildPath (dir name path : CString) : Prop where
  eq : path = dir ++ cstring "/" ++ name
  component : IsComponent name
  resolved : pathOf path = name :: pathOf dir

theorem ChildPath.eq_append {dir name path : CString} (h : ChildPath dir name path) :
    path = dir ++ 47 :: name := by
  rw [h.eq, List.append_assoc]
  rfl

theorem childPath_of_valid {dir name path : CString} (h : ocreIsValidName (some name) = true)
    (hpath : path = dir ++ cstring "/" ++ name) : ChildPath dir name path where
  eq := hpath
  component := isComponent_of_valid h
  resolved := by
    have heq : path = dir ++ 47 :: name := by
      rw [hpath, List.append_assoc]
      rfl
    rw [heq, pathOf_append_of_component (isComponent_of_valid h)]

section Commands

variable {workingDirectory argv0 : CString} {argv : List CString} {calls : ImageCalls}

theorem childPath_imagePathIn (workingDirectory : CString) {name : CString}
    (h : ocreIsValidName (some name) = true) :
    ChildPath (workingDirectory ++ cstring "/images") name
      (imagePathIn workingDirectory name) := by
  apply childPath_of_valid h
  simp [imagePathIn, cstring]

/-- The name of the image among the arguments of a pull. -/
def pullName : List CString → Option CString
  | [_, url] => if url.contains 47 then some (baseName url) else none
  | _ :: _ :: localName :: _ => some localName
  | _ => none

theorem path_of_pullImage {url localName : CString} {call : FileCall}
    (h : call ∈ (pullImage workingDirectory url localName calls).files) :
    ocreIsValidName (some localName) = true ∧
      call.path = imagePathIn workingDirectory localName := by
  by_cases hvalid : ocreIsValidName (some localName) = true
  · refine ⟨hvalid, ?_⟩
    unfold pullImage at h
    rw [if_neg (not_not.mpr hvalid)] at h
    split at h
    · cases h
    · dsimp only at h
      split at h
      · obtain rfl := List.mem_singleton.mp h
        rfl
      · split at h <;> simp only [List.mem_cons, List.not_mem_nil, or_false] at h
        · rcases h with rfl | rfl <;> rfl
        · rcases h with rfl | rfl | rfl <;> rfl
  · rw [pullImage, if_pos hvalid] at h
    cases h

theorem childPath_of_pull {call : FileCall}
    (h : call ∈ (cmdImagePull workingDirectory argv0 argv calls).files) :
    ∃ name, pullName argv = some name ∧
      ChildPath (workingDirectory ++ cstring "/images") name call.path := by
  have hchild {url localName : CString}
      (hcall : call ∈ (pullImage workingDirectory url localName calls).files) :
      ChildPath (workingDirectory ++ cstring "/images") localName call.path := by
    obtain ⟨hvalid, hpath⟩ := path_of_pullImage hcall
    rw [hpath]
    exact childPath_imagePathIn workingDirectory hvalid
  unfold cmdImagePull at h
  split at h
  · cases h
  · cases h
  · rename_i url
    dsimp only at h
    split at h
    · cases h
    · rename_i hslash
      split at h
      · cases h
      · exact ⟨baseName url, if_pos (not_not.mp hslash), hchild h⟩
  · exact ⟨_, rfl, hchild h⟩

theorem path_of_listImage {name path : CString} {call : FileCall}
    (h : call ∈ (listImage name path calls).files) : call.path = path := by
  unfold listImage at h
  split at h
  · obtain rfl := List.mem_singleton.mp h
    rfl
  · split at h <;> simp only [List.mem_cons, List.not_mem_nil, or_false] at h
    · rcases h with rfl | rfl <;> rfl
    · rw [h]

theorem childPath_of_ls {command name : CString} {call : FileCall}
    (h : call ∈ (cmdImageLs workingDirectory argv0 [command, name] calls).files) :
    ChildPath (workingDirectory ++ cstring "/images") name call.path := by
  unfold cmdImageLs at h
  dsimp only at h
  split at h
  · cases h
  · rename_i hvalid
    split at h
    · cases h
    · rw [path_of_listImage h]
      exact childPath_imagePathIn workingDirectory (not_not.mp hvalid)

theorem childPath_of_rm {call : FileCall}
    (h : call ∈ (cmdImageRm workingDirectory argv0 argv calls).files) :
    ∃ command name, argv = [command, name] ∧
      ChildPath (workingDirectory ++ cstring "/images") name call.path := by
  unfold cmdImageRm at h
  split at h
  · rename_i command name
    split at h
    · cases h
    · rename_i hvalid
      split at h
      · cases h
      · obtain rfl := List.mem_singleton.mp h
        exact ⟨command, name, rfl, childPath_imagePathIn workingDirectory (not_not.mp hvalid)⟩
  · cases h

end Commands

namespace ContextState

open Function (update)

variable {Ctx : Type} {s s' : ContextState Ctx} {args : CreateArgs} {calls : CreateCalls Ctx}

def imagesDir (s : ContextState Ctx) : CString := s.context.workingDirectory ++ cstring "/images"

theorem childPath_containerWorkdir {id : CString} (h : ocreIsValidName (some id) = true) :
    ChildPath s.containersDir id (s.containerWorkdir id) := by
  apply childPath_of_valid h
  simp [containersDir, containerWorkdir, cstring]

/-- What a creation has settled: the names are those supplied, or made up, and the paths are
those of entries. -/
structure TargetConfined (s : ContextState Ctx) (args : CreateArgs) (target : CreateTarget) :
    Prop where
  image : args.image = some target.image
  id : ∀ id ∈ args.containerId, id = target.id
  imagePath : ChildPath s.imagesDir target.image (s.imagePath target.image)
  workdir : ∀ workdir ∈ target.workdir, ChildPath s.containersDir target.id workdir

theorem targetConfined_of_createTarget {target : CreateTarget}
    (h : s.createTarget args calls = some target) : s.TargetConfined args target := by
  obtain ⟨hvalid, hid, hworkdir⟩ := createTarget_spec h
  unfold createTarget at h
  obtain ⟨-, h⟩ := Option.ite_none_left_eq_some.mp h
  split at h
  · cases h
  · rename_i image himage
    obtain ⟨hname, h⟩ := Option.ite_none_left_eq_some.mp h
    rw [hid] at h
    obtain ⟨-, h⟩ := Option.ite_none_left_eq_some.mp h
    have heq : target.image = image := by
      split_ifs at h
      · rw [← Option.some.inj h]
      · rw [← Option.some.inj h]
    constructor
    · rw [himage, heq]
    · intro id hmem
      rw [Option.mem_def] at hmem
      rw [computedContainerId, hmem] at hid
      exact Option.some.inj (Option.ite_none_left_eq_some.mp hid).2
    · rw [heq]
      exact childPath_imagePathIn s.context.workingDirectory (not_not.mp hname)
    · intro workdir hmem
      rw [Option.mem_def, hworkdir] at hmem
      obtain ⟨-, hsome⟩ := Option.ite_none_right_eq_some.mp hmem
      obtain rfl := Option.some.inj hsome
      exact childPath_containerWorkdir hvalid

/-- The paths that a runtime is given to open lie in the directories of the context. -/
structure ArgsConfined (s : ContextState Ctx) (args : RuntimeCreateArgs) : Prop where
  imgPath : ∃ name, ChildPath s.imagesDir name args.imgPath
  workdir : ∀ workdir ∈ args.workdir, ChildPath s.containersDir args.containerId workdir

/-- A creation calls a runtime on such paths only: another table of runtimes that does the
same on them makes no difference. -/
theorem creation_congr {runtimes : CString → Option (RuntimeCreateArgs → Option Ctx)}
    (h : ∀ runtime rargs, s.ArgsConfined rargs →
      (runtimes runtime).map (· rargs) = (calls.runtimes runtime).map (· rargs)) :
    s.ocreContextCreateContainer args { calls with runtimes := runtimes } =
      s.ocreContextCreateContainer args calls := by
  have htarget : s.createTarget args { calls with runtimes := runtimes } =
      s.createTarget args calls := rfl
  rw [ocreContextCreateContainer, ocreContextCreateContainer, htarget]
  cases hcase : s.createTarget args calls with
  | none => rfl
  | some target =>
      have hconfined := targetConfined_of_createTarget hcase
      have hcreate : ocreContainerCreate (s.imagePath target.image) target.workdir args.runtime
            target.id args.detached args.arguments args.fds { calls with runtimes := runtimes } =
          ocreContainerCreate (s.imagePath target.image) target.workdir args.runtime
            target.id args.detached args.arguments args.fds calls := by
        have hruntime := h (args.runtime.getD (cstring "wamr/wasip1")) {
            containerId := target.id
            imgPath := s.imagePath target.image
            workdir := target.workdir
            capabilities := args.arguments.bind ContainerArgs.capabilities
            argv := stringArrayDeepDup (calls.fails .argv) (args.arguments.bind ContainerArgs.argv)
            envp := stringArrayDeepDup (calls.fails .envp) (args.arguments.bind ContainerArgs.envp)
            mounts := args.arguments.bind ContainerArgs.mounts
            fds := args.fds.defaults } ⟨⟨_, hconfined.imagePath⟩, hconfined.workdir⟩
        unfold ocreContainerCreate
        dsimp only
        cases hr : runtimes (args.runtime.getD (cstring "wamr/wasip1")) with
        | none =>
            rw [hr, Option.map_none, eq_comm, Option.map_eq_none_iff] at hruntime
            rw [hruntime]
        | some create =>
            cases hr' : calls.runtimes (args.runtime.getD (cstring "wamr/wasip1")) with
            | none => simp [hr, hr'] at hruntime
            | some create' =>
                rw [hr, hr', Option.map_some, Option.map_some] at hruntime
                dsimp only
                rw [Option.some.inj hruntime]
      dsimp only
      rw [hcreate]
      rfl

/-- The working directories of the listed containers are entries of `containers`. -/
def NodesConfined (s : ContextState Ctx) : Prop :=
  ∀ node ∈ s.context.containers, ∀ workdir ∈ node.workingDirectory,
    ∃ id, ChildPath s.containersDir id workdir

/-- A file at or below an entry of the directory to which the path of `containers` leads. -/
def InContainers (s : ContextState Ctx) (p : List CString) : Prop :=
  ∃ id dir, IsComponent id ∧ s.tree.resolvePath s.maxLinks true s.containersDir = .ok dir ∧
    id :: dir <:+ p

/-- What an operation leaves: the files that are not in `containers` are as before, and the
listed working directories are entries of it. -/
structure ConfinedStep (s s' : ContextState Ctx) : Prop where
  workingDirectory : s'.context.workingDirectory = s.context.workingDirectory
  nodes : s'.NodesConfined
  tree : ∀ p, s'.tree.lookup p ≠ s.tree.lookup p → s.InContainers p

theorem containersDir_congr (h : s'.context.workingDirectory = s.context.workingDirectory) :
    s'.containersDir = s.containersDir :=
  congrArg (· ++ cstring "/containers") h

theorem ConfinedStep.refl (h : s.NodesConfined) : s.ConfinedStep s :=
  ⟨rfl, h, fun _ hp ↦ absurd rfl hp⟩

/-- When something has been removed the paths lead where they led before, if anywhere. -/
theorem ConfinedStep.trans {t : ContextState Ctx} (h : s.ConfinedStep s')
    (hlinks : s'.maxLinks = s.maxLinks) (hpart : FileTree.PartOf s'.tree s.tree)
    (h' : s'.ConfinedStep t) : s.ConfinedStep t := by
  refine ⟨h'.workingDirectory.trans h.workingDirectory, h'.nodes, ?_⟩
  intro p hp
  by_cases hsame : s'.tree.lookup p = s.tree.lookup p
  · obtain ⟨id, dir, hid, hdir, hbelow⟩ := h'.tree p (hsame ▸ hp)
    rw [containersDir_congr h.workingDirectory, hlinks] at hdir
    exact ⟨id, dir, hid, FileSystem.resolvePath_of_partOf hpart hdir, hbelow⟩
  · exact h.tree p hsame

/-- What `rm_rf` changes at the path of an entry. -/
theorem inContainers_of_rmRfPath (hnamed : WellNamed s.tree) {id workdir : CString}
    (h : ChildPath s.containersDir id workdir) {faults : ℕ → RmRfFaults} {p : List CString}
    (hp : (rmRfPath s.maxLinks faults (some workdir) s.tree).2.lookup p ≠ s.tree.lookup p) :
    s.InContainers p := by
  rcases rmRfPath_cases s.maxLinks faults hnamed workdir with ⟨-, heq⟩ | ⟨q, hq, hresult⟩
  · rw [heq] at hp
    exact absurd rfl hp
  · rw [h.eq_append] at hq
    obtain ⟨dir, hdir, -, rfl⟩ :=
      (FileSystem.resolvePath_append_iff h.component s.containersDir_ne_nil).mp hq
    refine ⟨id, dir, h.component, hdir, ?_⟩
    by_contra hnot
    exact hp (hresult.within.lookup_of_not_suffix hnot)

/-- What `mkdir` changes there, and `rm_rf` of what has been made. -/
theorem inContainers_of_mkdirPath (hnamed : WellNamed s.tree) {id workdir : CString}
    (h : ChildPath s.containersDir id workdir) {tree : FileSystem}
    (hmade : s.tree.mkdirPath s.maxLinks workdir = some tree) {p : List CString} :
    (tree.lookup p ≠ s.tree.lookup p → s.InContainers p) ∧
      ∀ faults, (rmRfPath s.maxLinks faults (some workdir) tree).2.lookup p ≠ s.tree.lookup p →
        s.InContainers p := by
  obtain ⟨q, hlocate, hmkdir, -, hq⟩ := FileSystem.exists_of_mkdirPath hmade
  rw [h.eq_append] at hlocate
  obtain ⟨dir, hdir, rfl⟩ :=
    (FileSystem.locate_append_iff h.component s.containersDir_ne_nil).mp hlocate
  have hmkdir_eq (hnot : ¬ id :: dir <:+ p) : tree.lookup p = s.tree.lookup p := by
    refine FileTree.lookup_of_mkdir hmkdir ?_
    rintro rfl
    exact hnot List.suffix_rfl
  refine ⟨fun hp ↦ ⟨id, dir, h.component, hdir, ?_⟩,
    fun faults hp ↦ ⟨id, dir, h.component, hdir, ?_⟩⟩
  · by_contra hnot
    exact hp (hmkdir_eq hnot)
  · by_contra hnot
    have hresult := rmRfPath_result s.maxLinks faults
      (FileSystem.wellNamed_of_mkdirPath hnamed hmade) hq
    exact hp ((hresult.within.lookup_of_not_suffix hnot).trans (hmkdir_eq hnot))

theorem confinedStep_creation (hnamed : WellNamed s.tree) (h : s.NodesConfined)
    (args : CreateArgs) (calls : CreateCalls Ctx) :
    s.ConfinedStep (s.ocreContextCreateContainer args calls).2 := by
  have hcreation := s.creation args calls
  generalize s.ocreContextCreateContainer args calls = r at hcreation ⊢
  cases hcreation with
  | early | containerFailed => exact .refl h
  | mkdirFailed target workdir htarget hworkdir hmake =>
      have hchild := (targetConfined_of_createTarget htarget).workdir workdir hworkdir
      exact ⟨rfl, h, fun p ↦ inContainers_of_rmRfPath hnamed hchild⟩
  | containerFailedIn target workdir tree htarget hworkdir hmake =>
      have hchild := (targetConfined_of_createTarget htarget).workdir workdir hworkdir
      exact ⟨rfl, h, fun p ↦
        (inContainers_of_mkdirPath hnamed hchild (mkdirPath_of_makeWorkdir hmake)).2 calls.rmRf⟩
  | created target tree c htarget hmake hid =>
      have hconfined := (targetConfined_of_createTarget htarget).workdir
      refine ⟨rfl, ?_, ?_⟩
      · intro node hnode workdir hworkdir
        rcases List.mem_append.mp hnode with hnode | hnode
        · exact h node hnode workdir hworkdir
        · obtain rfl := List.mem_singleton.mp hnode
          exact ⟨target.id, hconfined workdir hworkdir⟩
      · intro p hp
        cases hworkdir : target.workdir with
        | none =>
            rw [hworkdir] at hmake
            obtain rfl : s.tree = tree := Option.some.inj hmake
            exact absurd rfl hp
        | some workdir =>
            rw [hworkdir] at hmake
            exact (inContainers_of_mkdirPath hnamed (hconfined workdir hworkdir)
              (mkdirPath_of_makeWorkdir hmake)).1 hp

theorem inContainers_of_removeWorkdir (hnamed : WellNamed s.tree) {node : ContainerNode}
    {faults : ℕ → RmRfFaults}
    (hnode : ∀ workdir ∈ node.workingDirectory, ∃ id, ChildPath s.containersDir id workdir)
    {p : List CString}
    (hp : (node.removeWorkdir s.maxLinks faults s.tree).2.lookup p ≠ s.tree.lookup p) :
    s.InContainers p := by
  unfold ContainerNode.removeWorkdir at hp
  split at hp
  · exact absurd rfl hp
  · rename_i workdir hworkdir
    obtain ⟨id, hchild⟩ := hnode workdir hworkdir
    exact inContainers_of_rmRfPath hnamed hchild hp

theorem confinedStep_removal (hnamed : WellNamed s.tree) (h : s.NodesConfined) (container : ℕ)
    (calls : RemoveCalls) : s.ConfinedStep (s.removeContainerLocked container calls).2 := by
  have hremoval := s.removal container calls
  generalize s.removeContainerLocked container calls = r at hremoval ⊢
  cases hremoval with
  | missing | refused => exact .refl h
  | workdirLeft node c hnode hc hdestroy hrm =>
      refine ⟨rfl, h, fun p ↦ inContainers_of_removeWorkdir hnamed ?_⟩
      exact h node (List.mem_of_find?_eq_some hnode)
  | removed node c hnode hc hdestroy hrm =>
      refine ⟨rfl, ?_, fun p ↦ inContainers_of_removeWorkdir hnamed ?_⟩
      · intro node' hnode'
        exact h node' (List.mem_of_mem_eraseP hnode')
      · exact h node (List.mem_of_find?_eq_some hnode)

theorem confinedStep_removeAll (calls : ℕ → RemoveCalls) (nodes : List ContainerNode)
    (hnamed : WellNamed s.tree) (h : s.NodesConfined) :
    s.ConfinedStep (s.removeAll calls nodes) := by
  induction nodes generalizing s with
  | nil => exact .refl h
  | cons node nodes ih =>
      have hstep := confinedStep_removal hnamed h node.container (calls node.container)
      obtain ⟨hlinks, hpart⟩ := partOf_removal hnamed node.container (calls node.container)
      exact hstep.trans hlinks hpart
        (ih (addsOnlyDirectories_removal hnamed node.container (calls node.container)).named
          hstep.nodes)

theorem confinedStep_of_next {a : ContextAct Ctx} (hnamed : WellNamed s.tree)
    (h : s.NodesConfined) (hnext : (contextSystem Ctx).next a s = some s') :
    s.ConfinedStep s' := by
  obtain ⟨-, hnext⟩ := Option.ite_none_left_eq_some.mp hnext
  cases a with
  | create args calls =>
      obtain ⟨-, heq⟩ := Option.ite_none_right_eq_some.mp hnext
      rw [← Option.some.inj heq]
      exact confinedStep_creation hnamed h args calls
  | remove container calls =>
      rw [← Option.some.inj hnext]
      cases container with
      | none => exact .refl h
      | some container => exact confinedStep_removal hnamed h container calls
  | getById id | getCount | getContainers given maxSize =>
      rw [← Option.some.inj hnext]
      exact .refl h
  | destroy calls =>
      rw [← Option.some.inj hnext]
      have hall := confinedStep_removeAll calls s.context.containers hnamed h
      exact ⟨hall.workingDirectory, hall.nodes, hall.tree⟩
  | evolve container c =>
      dsimp only at hnext
      split at hnext
      · obtain ⟨-, heq⟩ := Option.ite_none_right_eq_some.mp hnext
        rw [← Option.some.inj heq]
        exact ⟨rfl, h, fun _ hp ↦ absurd rfl hp⟩
      · cases hnext

/-- Contexts over a file system in which all names are components. -/
def namedSystem (Ctx : Type) : StepSystem (ContextState Ctx) (ContextAct Ctx) :=
  (contextSystem Ctx).restrict fun s ↦ WellNamed s.tree

theorem confined_of_reachable (h : (namedSystem Ctx).Reachable s) :
    s.NodesConfined ∧ WellNamed s.tree := by
  apply StepSystem.ReachableWhere.invariant ?_ ?_ h
  · rintro s ⟨hinit, hnamed⟩
    refine ⟨fun node hnode ↦ ?_, hnamed⟩
    rw [hinit.containers] at hnode
    cases hnode
  · rintro a s s' ⟨hs, hnamed⟩ _ hnext
    exact ⟨(confinedStep_of_next hnamed hs hnext).nodes, wellNamed_of_next hnamed hnext⟩

end ContextState

/-- The commands and the operations on a context build their paths from names that are one
component each, and work on the files at these paths. -/
theorem names_confined {Ctx : Type} :
    (∀ id, ocreIsValidName id = true ↔ ∃ name, id = some name ∧ name ≠ [] ∧
      name.head? ≠ some 46 ∧ ∀ c ∈ name, c ∈ nameCharacters) ∧
    (∀ workingDirectory argv0 argv calls,
      ∀ call ∈ (cmdImagePull workingDirectory argv0 argv calls).files,
        ∃ name, pullName argv = some name ∧
          ChildPath (workingDirectory ++ cstring "/images") name call.path) ∧
    (∀ workingDirectory argv0 command name calls,
      ∀ call ∈ (cmdImageLs workingDirectory argv0 [command, name] calls).files,
        ChildPath (workingDirectory ++ cstring "/images") name call.path) ∧
    (∀ workingDirectory argv0 argv calls,
      ∀ call ∈ (cmdImageRm workingDirectory argv0 argv calls).files,
        ∃ command name, argv = [command, name] ∧
          ChildPath (workingDirectory ++ cstring "/images") name call.path) ∧
    (∀ (s : ContextState Ctx) (args : CreateArgs) (calls : CreateCalls Ctx),
      (∀ target ∈ s.createTarget args calls, s.TargetConfined args target) ∧
      ∀ runtimes : CString → Option (RuntimeCreateArgs → Option Ctx),
        (∀ runtime rargs, s.ArgsConfined rargs →
          (runtimes runtime).map (· rargs) = (calls.runtimes runtime).map (· rargs)) →
        s.ocreContextCreateContainer args { calls with runtimes := runtimes } =
          s.ocreContextCreateContainer args calls) ∧
    (∀ (s s' : ContextState Ctx) (a : ContextAct Ctx), (ContextState.namedSystem Ctx).Reachable s →
      (ContextState.namedSystem Ctx).next a s = some s' → s.ConfinedStep s') :=
  ⟨ocreIsValidName_iff, fun _ _ _ _ _ h ↦ childPath_of_pull h,
    fun _ _ _ _ _ _ h ↦ childPath_of_ls h, fun _ _ _ _ _ h ↦ childPath_of_rm h,
    fun _ _ _ ↦ ⟨fun _ h ↦ ContextState.targetConfined_of_createTarget h,
      fun _ h ↦ ContextState.creation_congr h⟩,
    fun _ _ _ hs hnext ↦
      have ⟨hnodes, hnamed⟩ := ContextState.confined_of_reachable hs
      ContextState.confinedStep_of_next hnamed hnodes hnext⟩

/-- The directory of a first container is made, and nothing else. -/
theorem names_confined_of_created :
    ∃ s, (contextSystem Unit).next
        (.create (filesystemArgs (some (cstring "a"))) (promptCalls 1)) workContext = some s ∧
      workContext.ConfinedStep s :=
  ⟨_, rfl, names_confined.2.2.2.2.2 _ _
    (.create (filesystemArgs (some (cstring "a"))) (promptCalls 1))
    (.start ⟨workContext_fresh, wellNamed_workTree⟩) rfl⟩

end OcreRuntime
