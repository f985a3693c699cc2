import OcreRuntime.Util.Path
import OcreRuntime.Context.Operations

/-!
# Creations that fail

From the call of `mkdir` on, an error removes the working directory with all its
contents. That undoes the creation as long as the directory is its own, but `mkdir`
fails on a directory that was there before, and the label does not know.
-/

namespace OcreRuntime

theorem ocreIsValidName_cons {c : UInt8} {id : CString} :
    ocreIsValidName (some (c :: id)) = true ↔ c ≠ 46 ∧ ∀ x ∈ c :: id,
      (97 ≤ x ∧ x ≤ 122) ∨ (48 ≤ x ∧ x ≤ 57) ∨ x = 46 ∨ x = 95 ∨ x = 45 := by
  simp [ocreIsValidName]

theorem ocreIsValidName_generateRandomId (rand : ℕ → ℕ) (i : ℕ) :
    ocreIsValidName (some (ContextState.generateRandomId rand i)) = true := by
  have hnibble : ∀ n < 16, ContextState.nibbleToHex n ≠ 46 ∧
      ((97 ≤ ContextState.nibbleToHex n ∧ ContextState.nibbleToHex n ≤ 122) ∨
        (48 ≤ ContextState.nibbleToHex n ∧ ContextState.nibbleToHex n ≤ 57)) := by
    decide
  have hmask (n : ℕ) : 15 &&& n < 16 := Nat.lt_succ_of_le Nat.and_le_left
  refine ocreIsValidName_cons.mpr ⟨(hnibble _ (hmask _)).1, fun x hx ↦ ?_⟩
  obtain ⟨j, -, rfl⟩ := List.mem_map.mp (show x ∈ ContextState.generateRandomId rand i from hx)
  rcases (hnibble _ (hmask _)).2 with h | h
  · exact .inl h
  · exact .inr (.inl h)

/-- A valid name is a path component of its own. -/
theorem isComponent_of_valid {name : CString} (h : ocreIsValidName (some name) = true) :
    IsComponent name := by
  cases name with
  | nil => simp [ocreIsValidName] at h
  | cons c name =>
      obtain ⟨hc, hall⟩ := ocreIsValidName_cons.mp h
      refine ⟨List.cons_ne_nil c name, ?_, ?_, ?_⟩
      · intro heq
        exact hc (List.cons.inj heq).1
      · intro heq
        exact hc (List.cons.inj heq).1
      · intro hmem
        have hslash := hall 47 hmem
        revert hslash
        decide

namespace ContextState

variable {Ctx : Type} {s : ContextState Ctx} {args : CreateArgs} {calls : CreateCalls Ctx}

theorem valid_of_computedContainerId {id : CString}
    (hvalid : args.containerId.isSome → ocreIsValidName args.containerId = true)
    (h : s.computedContainerId args calls = some id) : ocreIsValidName (some id) = true := by
  unfold computedContainerId at h
  split at h
  · unfold makeUniqueRandomContainerId at h
    obtain ⟨-, h⟩ := Option.ite_none_left_eq_some.mp h
    obtain ⟨i, -, rfl⟩ := List.mem_map.mp (List.mem_of_find?_eq_some h)
    exact ocreIsValidName_generateRandomId calls.rand i
  · rename_i id' hid
    obtain ⟨-, h⟩ := Option.ite_none_left_eq_some.mp h
    obtain rfl := Option.some.inj h
    rw [← hid]
    exact hvalid (by simp [hid])

/-- The ID of a container is a valid name, and the working directory is named by it. -/
theorem createTarget_spec {target : CreateTarget} (h : s.createTarget args calls = some target) :
    ocreIsValidName (some target.id) = true ∧
      s.computedContainerId args calls = some target.id ∧
      target.workdir = if args.filesystem then some (s.containerWorkdir target.id) else none := by
  unfold createTarget at h
  obtain ⟨hvalid, h⟩ := Option.ite_none_left_eq_some.mp h
  split at h
  · cases h
  · obtain ⟨-, h⟩ := Option.ite_none_left_eq_some.mp h
    split at h
    · cases h
    · rename_i id hid
      have hid' := valid_of_computedContainerId (fun hsome ↦ ?_) hid
      · obtain ⟨-, h⟩ := Option.ite_none_left_eq_some.mp h
        split_ifs at h with hfs
        · obtain rfl := Option.some.inj h
          exact ⟨hid', hid, by simp [hfs]⟩
        · obtain rfl := Option.some.inj h
          exact ⟨hid', hid, by simp [hfs]⟩
      · simpa [hsome] using hvalid

def containersDir (s : ContextState Ctx) : CString :=
  s.context.workingDirectory ++ cstring "/containers"

theorem containersDir_ne_nil (s : ContextState Ctx) : s.containersDir ≠ [] :=
  List.append_ne_nil_of_right_ne_nil _ (by decide)

theorem containerWorkdir_eq (s : ContextState Ctx) (id : CString) :
    s.containerWorkdir id = s.containersDir ++ 47 :: id := by
  have hslash : cstring "/containers/" = cstring "/containers" ++ [47] := by decide
  rw [containerWorkdir, containersDir, hslash]
  simp

/-- The path that the creation passes to `mkdir`, if it comes to that call. -/
def mkdirPath (s : ContextState Ctx) (args : CreateArgs) (calls : CreateCalls Ctx) :
    Option CString :=
  (s.createTarget args calls).bind CreateTarget.workdir

theorem mkdirPath_eq_some_iff {path : CString} :
    s.mkdirPath args calls = some path ↔ ∃ target, s.createTarget args calls = some target ∧
      target.workdir = some path :=
  Option.bind_eq_some_iff

theorem exists_of_createTarget {target : CreateTarget} {path : CString}
    (h : s.createTarget args calls = some target) (hworkdir : target.workdir = some path) :
    IsComponent target.id ∧ path = s.containersDir ++ 47 :: target.id := by
  obtain ⟨hvalid, -, heq⟩ := createTarget_spec h
  obtain ⟨-, hpath⟩ := Option.ite_none_right_eq_some.mp (heq.symm.trans hworkdir)
  refine ⟨isComponent_of_valid hvalid, ?_⟩
  rw [← containerWorkdir_eq]
  exact (Option.some.inj hpath).symm

/-- The creation returned NULL and cannot be seen: the list of containers and the file
system are as before. -/
def Invisible (s : ContextState Ctx) (r : Option ℕ × ContextState Ctx) : Prop :=
  r.1 = none → r.2.context.containers = s.context.containers ∧ r.2.tree = s.tree

/-- The path leads to nothing yet when the creation comes to `mkdir`. -/
def WorkdirIsNew (s : ContextState Ctx) (args : CreateArgs) (calls : CreateCalls Ctx) : Prop :=
  ∀ path ∈ s.mkdirPath args calls, s.tree.lstat s.maxLinks path = none

/-- The removal of the directory that has just been made returns 0. -/
def CleansUp (s : ContextState Ctx) (args : CreateArgs) (calls : CreateCalls Ctx) : Prop :=
  ∀ path ∈ s.mkdirPath args calls, ∀ tree ∈ s.tree.mkdirPath s.maxLinks path,
    (rmRfPath s.maxLinks calls.rmRf (some path) tree).1 = 0

instance : Decidable (s.WorkdirIsNew args calls) := inferInstanceAs (Decidable (∀ _ ∈ _, _))

instance : Decidable (s.CleansUp args calls) :=
  inferInstanceAs (Decidable (∀ _ ∈ _, ∀ _ ∈ _, _))

theorem invisible_of_workdirIsNew (hnamed : WellNamed s.tree) (hnew : s.WorkdirIsNew args calls)
    (hclean : s.CleansUp args calls) :
    s.Invisible (s.ocreContextCreateContainer args calls) := by
  have hcreation := s.creation args calls
  generalize s.ocreContextCreateContainer args calls = r at hcreation ⊢
  cases hcreation with
  | early | containerFailed => exact fun _ ↦ ⟨rfl, rfl⟩
  | mkdirFailed target workdir htarget hworkdir hmkdir =>
      have hnone := hnew _ (mkdirPath_eq_some_iff.mpr ⟨target, htarget, hworkdir⟩)
      exact fun _ ↦ ⟨rfl, by simp [rmRfPath, hnone]⟩
  | containerFailedIn target workdir tree htarget hworkdir hmkdir =>
      have hpath := mkdirPath_eq_some_iff.mpr ⟨target, htarget, hworkdir⟩
      have hmade := mkdirPath_of_makeWorkdir hmkdir
      obtain ⟨p, -, hmkdir', -, hp⟩ := FileSystem.exists_of_mkdirPath hmade
      have hnamed' : WellNamed tree := FileSystem.wellNamed_of_mkdirPath hnamed hmade
      refine fun _ ↦ ⟨rfl, ?_⟩
      calc (rmRfPath s.maxLinks calls.rmRf (some workdir) tree).2
          = tree.removeTree p := rmRfPath_eq_removeTree hnamed' hp (hclean _ hpath tree hmade)
        _ = s.tree := FileTree.removeTree_of_mkdir hmkdir'
  | created =>
      intro h
      cases h

/-- A directory that has just been made is found again by its path, and it is empty. -/
theorem cleansUp_of_no_faults (hnamed : WellNamed s.tree) (h : calls.rmRf = noRmRfFaults) :
    s.CleansUp args calls := by
  intro path hpath tree hmade
  obtain ⟨p, hlocate, hmkdir, hdir, hp⟩ := FileSystem.exists_of_mkdirPath hmade
  obtain ⟨hnone, hentries⟩ := FileTree.entries_of_mkdir hmkdir
  have hpart : FileTree.PartOf s.tree (tree.emptied p) := by
    intro q e hq
    refine FileTree.lookup_emptied_of_lookup (FileSystem.partOf_of_mkdirPath hmade q e hq) ?_
    intro hsuffix
    rw [s.tree.lookup_eq_none_of_suffix hnone hsuffix] at hq
    cases hq
  rw [h]
  exact rmRfPath_noRmRfFaults (FileSystem.wellNamed_of_mkdirPath hnamed hmade) hp
    fun _ ↦ FileSystem.locate_of_partOf hpart hlocate

/-- What the path leads to is not the same after the creation. -/
theorem workdirIsNew_of_invisible (hnamed : WellNamed s.tree) (h : calls.rmRf = noRmRfFaults)
    (hinv : s.Invisible (s.ocreContextCreateContainer args calls)) :
    s.WorkdirIsNew args calls := by
  intro path hpath
  by_contra hlstat
  obtain ⟨e, he⟩ := Option.ne_none_iff_exists'.mp hlstat
  obtain ⟨target, htarget, hworkdir⟩ := mkdirPath_eq_some_iff.mp hpath
  obtain ⟨hid, rfl⟩ := exists_of_createTarget htarget hworkdir
  have hmkdir : s.makeWorkdir (some (s.containersDir ++ 47 :: target.id)) calls = none := by
    rw [makeWorkdir, FileSystem.mkdirPath_of_lstat hid s.containersDir_ne_nil he, ite_self]
  have hfailed : s.ocreContextCreateContainer args calls = (none, { s with
      tree := (rmRfPath s.maxLinks calls.rmRf (some (s.containersDir ++ 47 :: target.id))
        s.tree).2 }) := by
    simp [ocreContextCreateContainer, htarget, hworkdir, hmkdir, createError]
  obtain ⟨p, hp, -⟩ := FileSystem.exists_of_lstat he
  have hlocate : s.tree.locate s.maxLinks (s.containersDir ++ 47 :: target.id) = some p := by
    obtain ⟨q, hq, -, rfl⟩ :=
      (FileSystem.resolvePath_append_iff hid s.containersDir_ne_nil).mp hp
    exact FileSystem.locate_append hid hq
  rw [hfailed, h] at hinv
  exact rmRfPath_noRmRfFaults_ne hnamed hp (fun _ ↦ hlocate) (hinv rfl).2

/-- A failed creation is invisible if it comes to no `mkdir`, or to one of a directory
that is new and can be removed again. When nothing fails in the clean-up, it is
invisible only then. -/
theorem creation_invisible_iff (s : ContextState Ctx) (args : CreateArgs)
    (calls : CreateCalls Ctx) (hnamed : WellNamed s.tree) :
    (s.WorkdirIsNew args calls → s.CleansUp args calls →
      s.Invisible (s.ocreContextCreateContainer args calls)) ∧
    (calls.rmRf = noRmRfFaults →
      (s.Invisible (s.ocreContextCreateContainer args calls) ↔ s.WorkdirIsNew args calls)) :=
  ⟨invisible_of_workdirIsNew hnamed, fun h ↦ ⟨workdirIsNew_of_invisible hnamed h,
    fun hnew ↦ invisible_of_workdirIsNew hnamed hnew (cleansUp_of_no_faults hnamed h)⟩⟩

/-- A creation that fails after its `mkdir`, on a runtime that is not registered. -/
theorem invisible_of_unknown_runtime :
    (workContext.ocreContextCreateContainer (filesystemArgs (some (cstring "a")))
        { promptCalls 1 with runtimes := fun _ ↦ none }).1 = none ∧
      workContext.Invisible (workContext.ocreContextCreateContainer
        (filesystemArgs (some (cstring "a"))) { promptCalls 1 with runtimes := fun _ ↦ none }) ∧
      workContext.WorkdirIsNew (filesystemArgs (some (cstring "a")))
        { promptCalls 1 with runtimes := fun _ ↦ none } := by
  have hiff := creation_invisible_iff workContext (filesystemArgs (some (cstring "a")))
    { promptCalls 1 with runtimes := fun _ ↦ none } wellNamed_workTree
  have hinv := hiff.1 (by decide) (by decide)
  exact ⟨rfl, hinv, (hiff.2 rfl).mp hinv⟩

/-- A second context in the same working directory fails to create a container with
the ID of a live one, and removes its directory. -/
theorem not_invisible_of_shared_directory :
    ¬ ∀ (s : ContextState Unit) (args : CreateArgs) (calls : CreateCalls Unit),
      s.Invisible (s.ocreContextCreateContainer args calls) := by
  intro h
  have hinv := h { workContext with
      tree := (workContext.ocreContextCreateContainer (filesystemArgs (some (cstring "a")))
        (promptCalls 1)).2.tree }
    (filesystemArgs (some (cstring "a"))) (promptCalls 2) rfl
  have hlookup := congrArg (FileTree.lookup · [cstring "a", cstring "containers", cstring "ocre"])
    hinv.2
  revert hlookup
  decide

end ContextState

end OcreRuntime
