import OcreRuntime.Library.Contexts
import OcreRuntime.Util.RmRfLinks

/-!
# The directories of a new context

`ocre_create_context` as one call with the mutex held, on a file system with links. An error
of `stat` other than `ENOENT` passes for a directory, a failing `malloc` leaves the return
code of the directory before it, and nobody looks at what the clean-up of old container
directories returns.
-/

namespace OcreRuntime

open FileSystem (IsDirectory)

/-- The list of contexts of `ocre.c`, and the file system. -/
structure ContextList where
  contexts : List ContextListNode
  tree : FileSystem

namespace Workdir

variable (maxLinks : ℕ)

/-- The part of `ocre_create_context` after the node has been made. Without the feature
`CONFIG_OCRE_FILESYSTEM` there is no clean-up. -/
def createContextIn (filesystem : Bool) (calls : CreateContextCalls) (workdir : CString)
    (s : ContextList) : Option ℕ × ContextList :=
  let populated := populateContextWorkdir maxLinks calls workdir s.tree
  if populated.1 ≠ 0 then (none, { s with tree := populated.2 })
  else
    let tree :=
      if filesystem then (deleteContainerWorkdirs maxLinks calls workdir populated.2).2
      else populated.2
    match ocreContextCreate calls workdir with
    | none => (none, { s with tree := tree })
    | some _ => (some calls.pointer, ⟨s.contexts ++ [⟨calls.pointer, workdir⟩], tree⟩)

/-- `ocre_create_context`; `mutexLock` is what the lock of the list returns. -/
def ocreCreateContext (filesystem : Bool) (defaultWorkdir : CString) (mutexLock : Int)
    (calls : CreateContextCalls) (workdir : Option CString) (s : ContextList) :
    Option ℕ × ContextList :=
  let workdir := workdir.getD defaultWorkdir
  if mutexLock ≠ 0 then (none, s)
  else if s.contexts.any (·.workingDirectory = workdir) then (none, s)
  else if ¬ calls.malloc ∨ ¬ calls.strdup then (none, s)
  else createContextIn maxLinks filesystem calls workdir s

end Workdir

section Condition

variable (maxLinks : ℕ)

/-- There is nothing in the directory to which a path leads. -/
def HasNoEntries (path : CString) (tree : FileSystem) : Prop :=
  ∃ p, tree.resolvePath maxLinks true path = .ok p ∧ tree.children p = []

/-- The working directory is there with its two subdirectories. -/
structure HasDirectories (workdir : CString) (tree : FileSystem) : Prop where
  root : IsDirectory maxLinks workdir tree
  containers : IsDirectory maxLinks (containersPath workdir) tree
  images : IsDirectory maxLinks (imagesPath workdir) tree

/-- A context comes with its directories, without it the list of contexts stays as it is. -/
def ComesReady (filesystem : Bool) (workdir : CString) (s : ContextList)
    (r : Option ℕ × ContextList) : Prop :=
  match r.1 with
  | none => r.2.contexts = s.contexts
  | some _ =>
      HasDirectories maxLinks workdir r.2.tree ∧
        (filesystem = true → HasNoEntries maxLinks (containersPath workdir) r.2.tree)

/-- The file system after the `mkdir` of a path that has been allocated, unless `stat` has
failed for it. -/
def withDirectory (asked : Bool) (calls : DirCalls) (path : CString) (tree : FileSystem) :
    FileSystem :=
  if asked ∧ ¬ calls.stat then (tree.mkdirPath maxLinks path).getD tree else tree

def withRoot (calls : CreateContextCalls) (workdir : CString) (tree : FileSystem) : FileSystem :=
  withDirectory maxLinks true calls.workdir workdir tree

def withContainers (calls : CreateContextCalls) (workdir : CString) (tree : FileSystem) :
    FileSystem :=
  withDirectory maxLinks calls.containersPath calls.containers (containersPath workdir)
    (withRoot maxLinks calls workdir tree)

def withImages (calls : CreateContextCalls) (workdir : CString) (tree : FileSystem) : FileSystem :=
  withDirectory maxLinks (calls.containersPath && calls.imagesPath) calls.images
    (imagesPath workdir) (withContainers maxLinks calls workdir tree)

/-- `stat` finds a file at the path, or nothing, and then `mkdir` fails. -/
def Refuses (calls : DirCalls) (path : CString) (tree : FileSystem) : Prop :=
  calls.stat = false ∧
    match tree.stat maxLinks path with
    | .ok (.other _) => True
    | .error .noEntry => calls.mkdir = true ∨ tree.mkdirPath maxLinks path = none
    | _ => False

/-- None of the directories that are looked at is refused. -/
structure Populates (calls : CreateContextCalls) (workdir : CString) (tree : FileSystem) :
    Prop where
  root : ¬ Refuses maxLinks calls.workdir workdir tree
  containers : calls.containersPath = true →
    ¬ Refuses maxLinks calls.containers (containersPath workdir)
      (withRoot maxLinks calls workdir tree)
  images : (calls.containersPath && calls.imagesPath) = true →
    ¬ Refuses maxLinks calls.images (imagesPath workdir)
      (withContainers maxLinks calls workdir tree)

/-- No check makes `ocre_create_context` return `NULL`. -/
structure Admitted (mutexLock : Int) (calls : CreateContextCalls) (workdir : CString)
    (s : ContextList) : Prop where
  mutex : mutexLock = 0
  new : s.contexts.any (·.workingDirectory = workdir) = false
  malloc : calls.malloc = true
  strdup : calls.strdup = true
  populated : Populates maxLinks calls workdir s.tree
  mallocContext : calls.mallocContext = true
  mutexInit : calls.mutexInit = 0
  strdupContext : calls.strdupContext = true

/-- The directory is looked at with a `stat` that finds it or reports `ENOENT`, or it is
there before. -/
def IsSettled (asked : Bool) (calls : DirCalls) (path : CString) (tree : FileSystem) : Prop :=
  asked = true ∧ calls.stat = false ∧ tree.stat maxLinks path ≠ .error .notDirectory ∧
      tree.stat maxLinks path ≠ .error .tooManyLinks ∨
    IsDirectory maxLinks path tree

/-- The path of the containers is a link to the directory of the images, which is made
later. -/
def LeadsToImages (calls : CreateContextCalls) (workdir : CString) (tree : FileSystem) : Prop :=
  (calls.containersPath && calls.imagesPath) = true ∧ calls.images.stat = false ∧
    ∃ made, (withContainers maxLinks calls workdir tree).mkdirPath maxLinks (imagesPath workdir) =
        some made ∧
      IsDirectory maxLinks (containersPath workdir) made

/-- No call fails in the iterations over the entries that `readdir` has still to return. -/
def EntriesRemoved (calls : CreateContextCalls) (path : CString) :
    ℕ → List CString → FileSystem → Prop
  | _, [], _ => True
  | i, name :: stream, tree =>
      let r := rmRfPath maxLinks (calls.rmRf i) (some (buildPath path name)) tree
      calls.readdir i = true ∧ calls.workdirPath i = true ∧ r.1 = 0 ∧
        EntriesRemoved calls path (i + 1) stream r.2

instance decidableEntriesRemoved (calls : CreateContextCalls) (path : CString) :
    ∀ (i : ℕ) (stream : List CString) (tree : FileSystem),
      Decidable (EntriesRemoved maxLinks calls path i stream tree)
  | _, [], _ => .isTrue trivial
  | i, name :: stream, tree =>
      have := decidableEntriesRemoved calls path (i + 1) stream
        (rmRfPath maxLinks (calls.rmRf i) (some (buildPath path name)) tree).2
      inferInstanceAs (Decidable (calls.readdir i = true ∧ calls.workdirPath i = true ∧
        (rmRfPath maxLinks (calls.rmRf i) (some (buildPath path name)) tree).1 = 0 ∧
        EntriesRemoved maxLinks calls path (i + 1) stream
          (rmRfPath maxLinks (calls.rmRf i) (some (buildPath path name)) tree).2))

/-- The clean-up of the directory `p` finds nothing, or none of its calls fails, and nothing
in `p` is on the way to one of the three directories. -/
structure CleansUp (calls : CreateContextCalls) (workdir : CString) (p : List CString)
    (tree : FileSystem) : Prop where
  removed : tree.children p = [] ∨ calls.deletePath = true ∧ calls.opendir = true ∧
    calls.readdir 0 = true ∧ calls.readdir 1 = true ∧
    EntriesRemoved maxLinks calls (containersPath workdir) 2 (tree.children p) tree
  root : ∀ x ∈ tree.wayOf maxLinks workdir, p <:+ x → x = p
  containers : ∀ x ∈ tree.wayOf maxLinks (containersPath workdir), p <:+ x → x = p
  images : ∀ x ∈ tree.wayOf maxLinks (imagesPath workdir), p <:+ x → x = p

/-- The condition on a call that no check ends: none of the branches is taken that pass
over a failure. -/
structure PassesNoFailure (filesystem : Bool) (calls : CreateContextCalls) (workdir : CString)
    (tree : FileSystem) : Prop where
  root : IsSettled maxLinks true calls.workdir workdir tree
  containers : IsSettled maxLinks calls.containersPath calls.containers (containersPath workdir)
      (withRoot maxLinks calls workdir tree) ∨
    LeadsToImages maxLinks calls workdir tree
  images : IsSettled maxLinks (calls.containersPath && calls.imagesPath) calls.images
    (imagesPath workdir) (withContainers maxLinks calls workdir tree)
  cleanup : filesystem = true →
    ∃ p, (withImages maxLinks calls workdir tree).resolvePath maxLinks true
        (containersPath workdir) = .ok p ∧
      CleansUp maxLinks calls workdir p (withImages maxLinks calls workdir tree)

end Condition

theorem HasDirectories.of_partOf {maxLinks : ℕ} {workdir : CString} {tree after : FileSystem}
    (h : HasDirectories maxLinks workdir tree) (hpart : FileTree.PartOf tree after) :
    HasDirectories maxLinks workdir after :=
  ⟨h.root.of_partOf hpart, h.containers.of_partOf hpart, h.images.of_partOf hpart⟩

namespace Workdir

open FileTree (PartOf Within)

variable {maxLinks : ℕ} {tree before after : FileSystem} {calls : CreateContextCalls}
  {path workdir : CString}

section Program

open LockProgram

variable {Ctx : Type} {defaultWorkdir : CString} {dir : Option CString}

/-- The list of contexts with the outcome of a creation. -/
def withOutcome (s : ContextTable Ctx) (workdir : CString) (r : Option ℕ × ContextList) :
    ContextTable Ctx :=
  { s with
    contexts := r.2.contexts
    tree := r.2.tree
    memory := r.1.elim s.memory fun p ↦ Function.update s.memory p (some ⟨workdir, []⟩) }

theorem state_of_createContextFinish {context r : Option ℕ}
    {s s' : Locked Mutex (ContextTable Ctx)}
    (h : ContextTable.createContextFinish context s = some (r, s')) :
    r = context ∧ s'.state = s.state := by
  obtain ⟨_, t, hunlock, h⟩ := of_bind h
  obtain ⟨-, hunlock⟩ := Option.ite_none_right_eq_some.mp hunlock
  obtain ⟨-, rfl⟩ := Prod.mk.inj (Option.some.inj hunlock)
  obtain ⟨rfl, rfl⟩ := Prod.mk.inj (Option.some.inj h)
  exact ⟨rfl, rfl⟩

/-- With the mutex held the function on the list of contexts does what this one does. -/
theorem outcome_of_ocreCreateContext {s s' : Locked Mutex (ContextTable Ctx)} {r : Option ℕ}
    (h : ContextTable.ocreCreateContext defaultWorkdir dir calls s = some (r, s')) :
    r = (ocreCreateContext s.state.maxLinks true defaultWorkdir 0 calls dir
          ⟨s.state.contexts, s.state.tree⟩).1 ∧
      s'.state = withOutcome s.state (dir.getD defaultWorkdir)
        (ocreCreateContext s.state.maxLinks true defaultWorkdir 0 calls dir
          ⟨s.state.contexts, s.state.tree⟩) := by
  obtain ⟨_, t, hlock, h⟩ := of_bind h
  obtain ⟨-, hlock⟩ := Option.ite_none_left_eq_some.mp hlock
  obtain ⟨-, rfl⟩ := Prod.mk.inj (Option.some.inj hlock)
  obtain ⟨found, u, hfound, h⟩ := of_bind h
  obtain ⟨rfl, rfl⟩ := Prod.mk.inj (Option.some.inj hfound)
  unfold ocreCreateContext
  rw [if_neg (not_not.mpr rfl)]
  dsimp only at h ⊢
  split at h
  next hlisted =>
    rw [if_pos hlisted]
    obtain ⟨rfl, heq⟩ := state_of_createContextFinish h
    exact ⟨rfl, heq⟩
  next hlisted =>
  rw [if_neg hlisted]
  split at h
  next hmalloc =>
    rw [if_pos (.inl hmalloc)]
    obtain ⟨rfl, heq⟩ := state_of_createContextFinish h
    exact ⟨rfl, heq⟩
  next hmalloc =>
  split at h
  next hstrdup =>
    rw [if_pos (.inr hstrdup)]
    obtain ⟨rfl, heq⟩ := state_of_createContextFinish h
    exact ⟨rfl, heq⟩
  next hstrdup =>
  rw [if_neg (not_or.mpr ⟨hmalloc, hstrdup⟩)]
  unfold createContextIn
  obtain ⟨rc, v, hpopulate, h⟩ := of_bind h
  obtain ⟨rfl, rfl⟩ := Prod.mk.inj (Option.some.inj hpopulate)
  dsimp only at h ⊢
  split at h
  next hrc =>
    rw [if_pos hrc]
    obtain ⟨rfl, heq⟩ := state_of_createContextFinish h
    exact ⟨rfl, heq⟩
  next hrc =>
  rw [if_neg hrc, if_pos rfl]
  obtain ⟨_, w, hdelete, h⟩ := of_bind h
  obtain ⟨-, rfl⟩ := Prod.mk.inj (Option.some.inj hdelete)
  cases hcontext : ocreContextCreate calls (dir.getD defaultWorkdir) with
  | none =>
      rw [hcontext] at h
      obtain ⟨rfl, heq⟩ := state_of_createContextFinish h
      exact ⟨rfl, heq⟩
  | some context =>
      rw [hcontext] at h
      obtain rfl : context = ⟨dir.getD defaultWorkdir, []⟩ := by
        unfold ocreContextCreate at hcontext
        split_ifs at hcontext
        exact (Option.some.inj hcontext).symm
      obtain ⟨_, x, hrenew, h⟩ := of_bind h
      obtain ⟨-, hrenew⟩ := Option.ite_none_left_eq_some.mp hrenew
      obtain ⟨-, rfl⟩ := Prod.mk.inj (Option.some.inj hrenew)
      obtain ⟨_, y, hadd, h⟩ := of_bind h
      obtain ⟨-, rfl⟩ := Prod.mk.inj (Option.some.inj hadd)
      obtain ⟨rfl, heq⟩ := state_of_createContextFinish h
      exact ⟨rfl, heq⟩

end Program

section Populate

theorem createDirIfNotExists_cases (maxLinks : ℕ) (calls : DirCalls) (path : CString)
    (tree : FileSystem) :
    (createDirIfNotExists maxLinks calls path tree).2 = tree ∨
      tree.mkdirPath maxLinks path = some (createDirIfNotExists maxLinks calls path tree).2 := by
  unfold createDirIfNotExists
  split
  next =>
    cases hmkdir : if calls.mkdir then none else tree.mkdirPath maxLinks path with
    | none => exact .inl rfl
    | some tree' => exact .inr (Option.ite_none_left_eq_some.mp hmkdir).2
  all_goals exact .inl rfl

/-- Nothing is removed when directories are made. -/
structure Grows (tree tree' : FileSystem) : Prop where
  partOf : PartOf tree tree'
  added : AddsOnlyDirectories tree tree'

theorem Grows.refl (hnamed : WellNamed tree) : Grows tree tree := ⟨.refl tree, .refl hnamed⟩

theorem Grows.trans {tree' tree'' : FileSystem} (h : Grows tree tree') (h' : Grows tree' tree'') :
    Grows tree tree'' :=
  ⟨h.partOf.trans h'.partOf, h.added.trans h'.added⟩

theorem grows_createDirIfNotExists (maxLinks : ℕ) (calls : DirCalls) (path : CString)
    (hnamed : WellNamed tree) : Grows tree (createDirIfNotExists maxLinks calls path tree).2 := by
  rcases createDirIfNotExists_cases maxLinks calls path tree with hsame | hmkdir
  · rw [hsame]
    exact .refl hnamed
  · exact ⟨FileSystem.partOf_of_mkdirPath hmkdir, .of_mkdirPath hnamed hmkdir⟩

theorem grows_populateContextWorkdir (maxLinks : ℕ) (calls : CreateContextCalls)
    (workdir : CString) (hnamed : WellNamed tree) :
    Grows tree (populateContextWorkdir maxLinks calls workdir tree).2 := by
  have hroot := grows_createDirIfNotExists maxLinks calls.workdir workdir hnamed
  have hcontainers := grows_createDirIfNotExists maxLinks calls.containers (containersPath workdir)
    hroot.added.named
  have himages := grows_createDirIfNotExists maxLinks calls.images (imagesPath workdir)
    hcontainers.added.named
  unfold populateContextWorkdir populateContainers populateImages
  dsimp only
  split
  · exact hroot
  · split
    · exact hroot
    · split
      · exact hroot.trans hcontainers
      · split
        · exact hroot.trans hcontainers
        · exact (hroot.trans hcontainers).trans himages

theorem createDirIfNotExists_of_refuses {calls : DirCalls}
    (h : Refuses maxLinks calls path tree) :
    createDirIfNotExists maxLinks calls path tree = (-1, tree) := by
  obtain ⟨hstat, hfound⟩ := h
  unfold createDirIfNotExists
  rw [hstat, if_neg Bool.false_ne_true]
  split at hfound
  next data hdata => rw [hdata]
  next hnone =>
    rw [hnone]
    rcases hfound with hmkdir | hmkdir <;> simp [hmkdir]
  next => exact hfound.elim

theorem createDirIfNotExists_of_not_refuses {calls : DirCalls}
    (h : ¬ Refuses maxLinks calls path tree) :
    createDirIfNotExists maxLinks calls path tree =
      (0, withDirectory maxLinks true calls path tree) := by
  unfold createDirIfNotExists withDirectory
  cases hstat : calls.stat with
  | true => rfl
  | false =>
  have hrefused : ¬ match tree.stat maxLinks path with
      | .ok (.other _) => True
      | .error .noEntry => calls.mkdir = true ∨ tree.mkdirPath maxLinks path = none
      | _ => False := fun hfound ↦ h ⟨hstat, hfound⟩
  -- where `stat` finds something else than `ENOENT`, `mkdir` does not change the tree
  have hsame (hne : tree.stat maxLinks path ≠ .error .noEntry) :
      tree.mkdirPath maxLinks path = none := by
    by_contra hmade
    obtain ⟨tree', hmkdir⟩ := Option.ne_none_iff_exists'.mp hmade
    exact hne (FileSystem.stat_of_mkdirPath hmkdir)
  cases hfound : tree.stat maxLinks path with
  | ok e =>
      cases e with
      | dir => simp [hsame (by simp [hfound])]
      | other data => exact absurd trivial (by simp [hfound] at hrefused)
  | error error =>
      cases error with
      | notDirectory | tooManyLinks => simp [hsame (by simp [hfound])]
      | noEntry =>
          rw [hfound] at hrefused
          obtain ⟨hcall, hmade⟩ := not_or.mp hrefused
          obtain ⟨tree', hmkdir⟩ := Option.ne_none_iff_exists'.mp hmade
          simp [hcall, hmkdir]

theorem partOf_withDirectory (maxLinks : ℕ) (asked : Bool) (calls : DirCalls) (path : CString)
    (tree : FileSystem) : PartOf tree (withDirectory maxLinks asked calls path tree) := by
  unfold withDirectory
  split
  next =>
    cases hmkdir : tree.mkdirPath maxLinks path with
    | none => exact .refl tree
    | some tree' => exact FileSystem.partOf_of_mkdirPath hmkdir
  next => exact .refl tree

theorem isSettled_iff {asked : Bool} {calls : DirCalls}
    (h : asked = true → ¬ Refuses maxLinks calls path tree) :
    IsSettled maxLinks asked calls path tree ↔
      IsDirectory maxLinks path (withDirectory maxLinks asked calls path tree) := by
  have hpart := partOf_withDirectory maxLinks asked calls path tree
  rw [IsSettled]
  rw [withDirectory] at hpart ⊢
  by_cases hlook : asked ∧ ¬ calls.stat
  swap
  · rw [if_neg hlook]
    refine or_iff_right ?_
    rintro ⟨hasked, hstat, -⟩
    exact hlook ⟨hasked, by simp [hstat]⟩
  rw [if_pos hlook] at hpart ⊢
  have hstat : calls.stat = false := by simpa using hlook.2
  constructor
  · rintro (⟨-, -, hdir, hlinks⟩ | hdir)
    · cases hfound : tree.stat maxLinks path with
      | ok e =>
          cases e with
          | dir => exact FileSystem.IsDirectory.of_partOf hpart hfound
          | other data => exact absurd ⟨hstat, by simp [hfound]⟩ (h hlook.1)
      | error error =>
          cases error with
          | notDirectory => exact absurd hfound hdir
          | tooManyLinks => exact absurd hfound hlinks
          | noEntry =>
              cases hmkdir : tree.mkdirPath maxLinks path with
              | none => exact absurd ⟨hstat, by simp [hfound, hmkdir]⟩ (h hlook.1)
              | some tree' => exact FileSystem.isDirectory_of_mkdirPath hmkdir
    · exact hdir.of_partOf hpart
  · intro hdir
    cases hmkdir : tree.mkdirPath maxLinks path with
    | none =>
        rw [hmkdir] at hdir
        exact .inr hdir
    | some tree' =>
        have hnone := FileSystem.stat_of_mkdirPath hmkdir
        exact .inl ⟨hlook.1, hstat, by simp [hnone], by simp [hnone]⟩

theorem populateContextWorkdir_of_populates (h : Populates maxLinks calls workdir tree) :
    populateContextWorkdir maxLinks calls workdir tree =
      (0, withImages maxLinks calls workdir tree) := by
  rw [populateContextWorkdir, createDirIfNotExists_of_not_refuses h.root]
  simp only [ne_eq, not_true_eq_false, if_false]
  rw [populateContainers, withImages, withContainers, ← withRoot]
  cases hcontainers : calls.containersPath with
  | false => simp [withDirectory]
  | true =>
  rw [createDirIfNotExists_of_not_refuses (h.containers hcontainers)]
  simp only [not_true_eq_false, if_false, ne_eq, Bool.true_and]
  rw [populateImages]
  cases himages : calls.imagesPath with
  | false => simp [withDirectory]
  | true =>
      have hrefused := h.images (by rw [hcontainers, himages]; rfl)
      rw [withContainers, hcontainers] at hrefused
      rw [createDirIfNotExists_of_not_refuses hrefused]
      rfl

theorem populateContextWorkdir_of_not_populates (h : ¬ Populates maxLinks calls workdir tree) :
    (populateContextWorkdir maxLinks calls workdir tree).1 ≠ 0 := by
  rw [populateContextWorkdir]
  by_cases hroot : Refuses maxLinks calls.workdir workdir tree
  · rw [createDirIfNotExists_of_refuses hroot]
    simp
  rw [createDirIfNotExists_of_not_refuses hroot]
  simp only [ne_eq, not_true_eq_false, if_false]
  rw [← withRoot, populateContainers]
  cases hcontainers : calls.containersPath with
  | false => exact absurd ⟨hroot, by simp [hcontainers], by simp [hcontainers]⟩ h
  | true =>
  simp only [not_true_eq_false, if_false]
  by_cases hrefused : Refuses maxLinks calls.containers (containersPath workdir)
      (withRoot maxLinks calls workdir tree)
  · rw [createDirIfNotExists_of_refuses hrefused]
    simp
  rw [createDirIfNotExists_of_not_refuses hrefused]
  simp only [ne_eq, not_true_eq_false, if_false]
  rw [populateImages]
  cases himages : calls.imagesPath with
  | false => exact absurd ⟨hroot, fun _ ↦ hrefused, by simp [himages]⟩ h
  | true =>
  simp only [not_true_eq_false, if_false]
  by_cases hlast : Refuses maxLinks calls.images (imagesPath workdir)
      (withContainers maxLinks calls workdir tree)
  · rw [withContainers, hcontainers] at hlast
    rw [createDirIfNotExists_of_refuses hlast]
    simp
  · exact absurd ⟨hroot, fun _ ↦ hrefused, fun _ ↦ hlast⟩ h

/-- What is made in a directory does not make the directory. -/
theorem isDirectory_withDirectory_iff {asked : Bool} {calls : DirCalls} {name : CString}
    (hname : IsComponent name) :
    IsDirectory maxLinks workdir
        (withDirectory maxLinks asked calls (workdir ++ 47 :: name) tree) ↔
      IsDirectory maxLinks workdir tree := by
  refine ⟨fun h ↦ ?_, fun h ↦ h.of_partOf (partOf_withDirectory _ _ _ _ _)⟩
  obtain ⟨p, hp, -⟩ := FileSystem.isDirectory_iff.mp h
  rw [withDirectory] at h
  split at h
  next =>
    cases hmkdir : tree.mkdirPath maxLinks (workdir ++ 47 :: name) with
    | none =>
        rw [hmkdir] at h
        exact h
    | some tree' =>
        exact FileSystem.isDirectory_of_mkdirPath_append hname
          (FileSystem.resolvePath_eq_ok_iff.mp hp).1 hmkdir
  next => exact h

theorem isDirectory_withImages_root_iff :
    IsDirectory maxLinks workdir (withImages maxLinks calls workdir tree) ↔
      IsDirectory maxLinks workdir (withRoot maxLinks calls workdir tree) := by
  have hcontainers : IsComponent (cstring "containers") := by decide
  have himages : IsComponent (cstring "images") := by decide
  exact (isDirectory_withDirectory_iff himages).trans (isDirectory_withDirectory_iff hcontainers)

theorem isDirectory_withImages_containers_iff (h : Populates maxLinks calls workdir tree) :
    IsDirectory maxLinks (containersPath workdir) (withImages maxLinks calls workdir tree) ↔
      IsSettled maxLinks calls.containersPath calls.containers (containersPath workdir)
          (withRoot maxLinks calls workdir tree) ∨
        LeadsToImages maxLinks calls workdir tree := by
  rw [isSettled_iff h.containers, ← withContainers]
  constructor
  · intro hdir
    rw [withImages, withDirectory] at hdir
    split at hdir
    next hlook =>
      cases hmkdir : (withContainers maxLinks calls workdir tree).mkdirPath maxLinks
          (imagesPath workdir) with
      | none =>
          rw [hmkdir] at hdir
          exact .inl hdir
      | some made =>
          rw [hmkdir] at hdir
          exact .inr ⟨hlook.1, by simpa using hlook.2, made, hmkdir, hdir⟩
    next => exact .inl hdir
  · rintro (hdir | ⟨hasked, hstat, made, hmkdir, hdir⟩)
    · exact hdir.of_partOf (partOf_withDirectory _ _ _ _ _)
    · rw [withImages, withDirectory, if_pos ⟨hasked, by simp [hstat]⟩, hmkdir]
      exact hdir

/-- The directories are ready exactly if each of them is settled when it is looked at. -/
theorem hasDirectories_withImages_iff (h : Populates maxLinks calls workdir tree) :
    HasDirectories maxLinks workdir (withImages maxLinks calls workdir tree) ↔
      IsSettled maxLinks true calls.workdir workdir tree ∧
        (IsSettled maxLinks calls.containersPath calls.containers (containersPath workdir)
            (withRoot maxLinks calls workdir tree) ∨
          LeadsToImages maxLinks calls workdir tree) ∧
        IsSettled maxLinks (calls.containersPath && calls.imagesPath) calls.images
          (imagesPath workdir) (withContainers maxLinks calls workdir tree) := by
  rw [← isDirectory_withImages_containers_iff h, isSettled_iff h.images, ← withImages,
    isSettled_iff fun _ ↦ h.root, ← withRoot, ← isDirectory_withImages_root_iff]
  exact ⟨fun ⟨hroot, hcontainers, himages⟩ ↦ ⟨hroot, hcontainers, himages⟩,
    fun ⟨hroot, hcontainers, himages⟩ ↦ ⟨hroot, hcontainers, himages⟩⟩

end Populate

section Cleanup

variable {start : FileSystem} {p : List CString} {name : CString}

/-- The removal of one entry of the directory to which the path of the containers leads. -/
theorem rmRfPath_entry (faults : ℕ → RmRfFaults) (hnamed : WellNamed start)
    (hpath : start.resolvePath maxLinks true path = .ok p) (hwithin : Within p start tree)
    (hname : IsComponent name) (hentry : tree.lookup (name :: p) ≠ none) :
    Within (name :: p) tree (rmRfPath maxLinks faults (some (buildPath path name)) tree).2 ∧
      ((rmRfPath maxLinks faults (some (buildPath path name)) tree).1 = 0 ↔
        (rmRfPath maxLinks faults (some (buildPath path name)) tree).2.lookup (name :: p) =
          none) := by
  cases hresolve : tree.resolvePath maxLinks false (buildPath path name) with
  | error error =>
      have hfailed : rmRfPath maxLinks faults (some (buildPath path name)) tree = (-1, tree) := by
        simp [rmRfPath, FileSystem.lstat, hresolve, Except.toOption]
      rw [hfailed]
      exact ⟨.refl _ _, iff_of_false (by simp) hentry⟩
  | ok q =>
      obtain rfl : q = name :: p :=
        FileSystem.eq_of_resolvePath_append hpath hwithin.partOf hname hresolve
      rw [rmRfPath_eq faults (hnamed.of_within hwithin) hresolve]
      have hresult := rmRf_result (failedCalls maxLinks faults (buildPath path name) tree)
        (name :: p) tree
      exact ⟨hresult.within, hresult.gone hentry⟩

/-- What is left of the directory after the loop: nothing exactly if each entry has been
removed. -/
structure Cleaned (p : List CString) (tree after : FileSystem) (removed : Prop) : Prop where
  within : Within p tree after
  dir : after.lookup p = some .dir
  empty : after.children p = [] ↔ removed

theorem cleaned_loop (calls : CreateContextCalls) (hnamed : WellNamed start)
    (hpath : start.resolvePath maxLinks true path = .ok p) {stream : List CString} (i : ℕ)
    (hwithin : Within p start tree) (hdir : tree.lookup p = some .dir) (hnodup : stream.Nodup)
    (hentries : ∀ n, tree.lookup (n :: p) ≠ none ↔ n ∈ stream)
    (hstream : ∀ n ∈ stream, IsComponent n) :
    Cleaned p tree (deleteContainerWorkdirsLoop maxLinks calls path i stream tree).2
      (EntriesRemoved maxLinks calls path i stream tree) := by
  induction stream generalizing i tree with
  | nil =>
      refine ⟨.refl _ _, hdir, iff_of_true ?_ trivial⟩
      apply List.eq_nil_iff_forall_not_mem.mpr
      intro n hn
      cases (hentries n).mp (tree.mem_children.mp hn)
  | cons name stream ih =>
      obtain ⟨hnot, hnodup⟩ := List.nodup_cons.mp hnodup
      have hname : IsComponent name := hstream name List.mem_cons_self
      have hrest : ∀ n ∈ stream, IsComponent n := fun n hn ↦
        hstream n (List.mem_cons_of_mem _ hn)
      have hdot : ¬ (name = cstring "." ∨ name = cstring "..") :=
        not_or.mpr ⟨hname.ne_dot, hname.ne_dots⟩
      have hentry : tree.lookup (name :: p) ≠ none := (hentries name).mpr List.mem_cons_self
      have hsome : tree.children p ≠ [] := children_ne_nil hentry
      simp only [deleteContainerWorkdirsLoop, EntriesRemoved, hdot, if_false]
      cases hread : calls.readdir i with
      | false => exact ⟨.refl _ _, hdir, by simp [hsome]⟩
      | true =>
      cases hwork : calls.workdirPath i with
      | false => exact ⟨.refl _ _, hdir, by simp [hsome]⟩
      | true =>
      simp only [not_true_eq_false, if_false, true_and]
      obtain ⟨hremoved, hgone⟩ :=
        rmRfPath_entry (calls.rmRf i) hnamed hpath hwithin hname hentry
      generalize rmRfPath maxLinks (calls.rmRf i) (some (buildPath path name)) tree = r at *
      have hup : Within p tree r.2 := hremoved.mono (List.suffix_cons name p)
      have hdir' : r.2.lookup p = some .dir := hremoved.lookup_above.trans hdir
      by_cases hzero : r.1 = 0
      · simp only [hzero, not_true_eq_false, if_false, ne_eq, true_and]
        have hsame : ∀ n, r.2.lookup (n :: p) ≠ none ↔ n ∈ stream := by
          intro n
          by_cases hn : n = name
          · subst hn
            exact iff_of_false (not_not.mpr (hgone.mp hzero)) hnot
          · rw [hremoved.lookup_sibling hn, hentries, List.mem_cons, or_iff_right hn]
        obtain ⟨hloop, hkept, hempty⟩ := ih (i + 1) (hwithin.trans hup) hdir' hnodup hsame hrest
        exact ⟨hup.trans hloop, hkept, hempty⟩
      · simp only [hzero, not_false_eq_true, if_true, ne_eq, false_and]
        exact ⟨hup, hdir', iff_false_intro (children_ne_nil (mt hgone.mpr hzero))⟩

theorem cleaned_deleteContainerWorkdirs (calls : CreateContextCalls) (hnamed : WellNamed tree)
    (hpath : tree.resolvePath maxLinks true (containersPath workdir) = .ok p)
    (hdir : tree.lookup p = some .dir) :
    Cleaned p tree (deleteContainerWorkdirs maxLinks calls workdir tree).2
      (tree.children p = [] ∨ calls.deletePath = true ∧ calls.opendir = true ∧
        calls.readdir 0 = true ∧ calls.readdir 1 = true ∧
        EntriesRemoved maxLinks calls (containersPath workdir) 2 (tree.children p) tree) := by
  unfold deleteContainerWorkdirs
  cases hdelete : calls.deletePath with
  | false => exact ⟨.refl _ _, hdir, by simp⟩
  | true =>
  cases hopen : calls.opendir with
  | false => exact ⟨.refl _ _, hdir, by simp⟩
  | true =>
  have hopened : tree.opendir maxLinks (containersPath workdir) = some p :=
    FileSystem.opendir_eq_some_iff.mpr ⟨hpath, tree.isDir_iff.mpr hdir⟩
  simp only [hopened, if_true, not_true_eq_false, if_false, true_and]
  -- the entries for the directory itself and its parent come first
  rw [deleteContainerWorkdirsLoop]
  cases hself : calls.readdir 0 with
  | false => exact ⟨.refl _ _, hdir, by simp⟩
  | true =>
  rw [if_neg (by simp), if_pos (.inl rfl), deleteContainerWorkdirsLoop]
  cases hparent : calls.readdir (0 + 1) with
  | false => exact ⟨.refl _ _, hdir, by simp⟩
  | true =>
  rw [if_neg (by simp), if_pos (.inr rfl)]
  obtain ⟨hloop, hkept, hempty⟩ := cleaned_loop calls hnamed hpath (0 + 1 + 1) (.refl p tree) hdir
    (tree.nodup_children p) (fun n ↦ (tree.mem_children).symm)
    (fun n hn ↦ isComponent_of_mem_children hnamed (.refl tree) hn)
  refine ⟨hloop, hkept, hempty.trans ⟨fun h ↦ .inr ⟨rfl, rfl, h⟩, ?_⟩⟩
  rintro (hnil | ⟨-, -, hremoved⟩)
  · exact hempty.mp (hloop.partOf.children_eq_nil hnil)
  · exact hremoved

/-- The clean-up removes things in the directory of the containers, if anything. -/
theorem deleteContainerWorkdirs_cases (maxLinks : ℕ) (calls : CreateContextCalls)
    (workdir : CString) (hnamed : WellNamed tree) :
    (deleteContainerWorkdirs maxLinks calls workdir tree).2 = tree ∨
      ∃ p, tree.resolvePath maxLinks true (containersPath workdir) = .ok p ∧
        tree.lookup p = some .dir ∧
        Within p tree (deleteContainerWorkdirs maxLinks calls workdir tree).2 ∧
        (deleteContainerWorkdirs maxLinks calls workdir tree).2.lookup p = some .dir := by
  cases hopen : tree.opendir maxLinks (containersPath workdir) with
  | none =>
      left
      unfold deleteContainerWorkdirs
      cases calls.deletePath <;> cases calls.opendir <;> simp [hopen]
  | some p =>
      obtain ⟨hpath, hdir⟩ := FileSystem.opendir_eq_some_iff.mp hopen
      have hlookup := tree.isDir_iff.mp hdir
      obtain ⟨hwithin, hkept, -⟩ := cleaned_deleteContainerWorkdirs calls hnamed hpath hlookup
      exact .inr ⟨p, hpath, hlookup, hwithin, hkept⟩

theorem partOf_deleteContainerWorkdirs (maxLinks : ℕ) (calls : CreateContextCalls)
    (workdir : CString) (hnamed : WellNamed tree) :
    PartOf (deleteContainerWorkdirs maxLinks calls workdir tree).2 tree := by
  rcases deleteContainerWorkdirs_cases maxLinks calls workdir hnamed with
    hsame | ⟨_, -, -, hwithin, -⟩
  · rw [hsame]
    exact .refl tree
  · exact hwithin.partOf

theorem wellNamed_deleteContainerWorkdirs (maxLinks : ℕ) (calls : CreateContextCalls)
    (workdir : CString) (hnamed : WellNamed tree) :
    WellNamed (deleteContainerWorkdirs maxLinks calls workdir tree).2 := by
  rcases deleteContainerWorkdirs_cases maxLinks calls workdir hnamed with
    hsame | ⟨_, -, -, hwithin, -⟩
  · rw [hsame]
    exact hnamed
  · exact hnamed.of_within hwithin

theorem hasDirectories_emptied_iff :
    HasDirectories maxLinks workdir (tree.emptied p) ↔ HasDirectories maxLinks workdir tree ∧
      (∀ x ∈ tree.wayOf maxLinks workdir, p <:+ x → x = p) ∧
      (∀ x ∈ tree.wayOf maxLinks (containersPath workdir), p <:+ x → x = p) ∧
      ∀ x ∈ tree.wayOf maxLinks (imagesPath workdir), p <:+ x → x = p := by
  constructor
  · rintro ⟨hroot, hcontainers, himages⟩
    obtain ⟨hroot, hrootWay⟩ := FileSystem.isDirectory_emptied_iff.mp hroot
    obtain ⟨hcontainers, hcontainersWay⟩ := FileSystem.isDirectory_emptied_iff.mp hcontainers
    obtain ⟨himages, himagesWay⟩ := FileSystem.isDirectory_emptied_iff.mp himages
    exact ⟨⟨hroot, hcontainers, himages⟩, hrootWay, hcontainersWay, himagesWay⟩
  · rintro ⟨⟨hroot, hcontainers, himages⟩, hrootWay, hcontainersWay, himagesWay⟩
    exact ⟨FileSystem.isDirectory_emptied_iff.mpr ⟨hroot, hrootWay⟩,
      FileSystem.isDirectory_emptied_iff.mpr ⟨hcontainers, hcontainersWay⟩,
      FileSystem.isDirectory_emptied_iff.mpr ⟨himages, himagesWay⟩⟩

/-- The directories are there and nothing is left of the containers, exactly if the
directories were there and the clean-up was right. -/
theorem hasDirectories_iff_cleansUp (hnamed : WellNamed tree)
    (hpath : tree.resolvePath maxLinks true (containersPath workdir) = .ok p)
    (hdir : tree.lookup p = some .dir) :
    HasDirectories maxLinks workdir (deleteContainerWorkdirs maxLinks calls workdir tree).2 ∧
        HasNoEntries maxLinks (containersPath workdir)
          (deleteContainerWorkdirs maxLinks calls workdir tree).2 ↔
      HasDirectories maxLinks workdir tree ∧ CleansUp maxLinks calls workdir p tree := by
  obtain ⟨hwithin, hkept, hempty⟩ :=
    cleaned_deleteContainerWorkdirs calls hnamed hpath hdir
  generalize (deleteContainerWorkdirs maxLinks calls workdir tree).2 = after at *
  constructor
  · rintro ⟨hready, q, hq, hnil⟩
    obtain rfl : q = p :=
      Except.ok.inj ((FileSystem.resolvePath_of_partOf hwithin.partOf hq).symm.trans hpath)
    obtain ⟨hbefore, hroot, hcontainers, himages⟩ :=
      hasDirectories_emptied_iff.mp (hready.of_partOf (hwithin.partOf_emptied hnil))
    exact ⟨hbefore, hempty.mp hnil, hroot, hcontainers, himages⟩
  · rintro ⟨hbefore, hremoved, hroot, hcontainers, himages⟩
    have hready := hasDirectories_emptied_iff.mpr ⟨hbefore, hroot, hcontainers, himages⟩
    have hafter := hready.of_partOf (hwithin.emptied_partOf (by simp [hkept]))
    obtain ⟨q, hq, -⟩ := FileSystem.isDirectory_iff.mp hafter.containers
    obtain rfl : q = p :=
      Except.ok.inj ((FileSystem.resolvePath_of_partOf hwithin.partOf hq).symm.trans hpath)
    exact ⟨hafter, q, hq, hempty.mpr hremoved⟩

end Cleanup

section Creation

variable {filesystem : Bool} {defaultWorkdir : CString} {mutexLock : Int} {dir : Option CString}
  {s : ContextList}

/-- The file system when the context is made. -/
def settledTree (maxLinks : ℕ) (filesystem : Bool) (calls : CreateContextCalls) (workdir : CString)
    (tree : FileSystem) : FileSystem :=
  if filesystem then
    (deleteContainerWorkdirs maxLinks calls workdir (withImages maxLinks calls workdir tree)).2
  else withImages maxLinks calls workdir tree

theorem ocreContextCreate_eq_none_iff :
    ocreContextCreate calls workdir = none ↔
      ¬ (calls.mallocContext = true ∧ calls.mutexInit = 0 ∧ calls.strdupContext = true) := by
  unfold ocreContextCreate
  split_ifs <;> simp_all

theorem ocreCreateContext_of_admitted
    (h : Admitted maxLinks mutexLock calls (dir.getD defaultWorkdir) s) :
    ocreCreateContext maxLinks filesystem defaultWorkdir mutexLock calls dir s =
      (some calls.pointer, ⟨s.contexts ++ [⟨calls.pointer, dir.getD defaultWorkdir⟩],
        settledTree maxLinks filesystem calls (dir.getD defaultWorkdir) s.tree⟩) := by
  obtain ⟨context, hcontext⟩ :
      ∃ context, ocreContextCreate calls (dir.getD defaultWorkdir) = some context := by
    rw [← Option.ne_none_iff_exists', ne_eq, ocreContextCreate_eq_none_iff, not_not]
    exact ⟨h.mallocContext, h.mutexInit, h.strdupContext⟩
  simp only [ocreCreateContext, createContextIn, settledTree, h.mutex, h.new, h.malloc, h.strdup,
    populateContextWorkdir_of_populates h.populated, hcontext, ne_eq, not_true_eq_false, if_false,
    or_self, Bool.false_eq_true]

/-- A check that fails leaves the list of contexts. -/
theorem ocreCreateContext_of_not_admitted (filesystem : Bool)
    (h : ¬ Admitted maxLinks mutexLock calls (dir.getD defaultWorkdir) s) :
    (ocreCreateContext maxLinks filesystem defaultWorkdir mutexLock calls dir s).1 = none ∧
      (ocreCreateContext maxLinks filesystem defaultWorkdir mutexLock calls dir s).2.contexts =
        s.contexts := by
  rw [ocreCreateContext]
  by_cases hmutex : mutexLock = 0
  swap
  · rw [if_pos hmutex]
    exact ⟨rfl, rfl⟩
  rw [if_neg (not_not.mpr hmutex)]
  cases hnew : s.contexts.any (·.workingDirectory = dir.getD defaultWorkdir) with
  | true => exact ⟨rfl, rfl⟩
  | false =>
  rw [if_neg Bool.false_ne_true]
  by_cases halloc : calls.malloc = true ∧ calls.strdup = true
  swap
  · rw [if_pos (not_and_or.mp halloc)]
    exact ⟨rfl, rfl⟩
  rw [if_neg (by simp [halloc.1, halloc.2]), createContextIn]
  dsimp only
  by_cases hpopulated : Populates maxLinks calls (dir.getD defaultWorkdir) s.tree
  swap
  · rw [if_pos (populateContextWorkdir_of_not_populates hpopulated)]
    exact ⟨rfl, rfl⟩
  rw [populateContextWorkdir_of_populates hpopulated]
  cases hcontext : ocreContextCreate calls (dir.getD defaultWorkdir) with
  | none => exact ⟨rfl, rfl⟩
  | some context =>
      have hmade : ocreContextCreate calls (dir.getD defaultWorkdir) ≠ none := by simp [hcontext]
      obtain ⟨hcalloc, hinit, hcopy⟩ := not_not.mp (mt ocreContextCreate_eq_none_iff.mpr hmade)
      exact absurd ⟨hmutex, hnew, halloc.1, halloc.2, hpopulated, hcalloc, hinit, hcopy⟩ h

/-- When no directory is refused, they are ready exactly if no failure is passed over. -/
theorem ready_iff_passesNoFailure {workdir : CString} (hnamed : WellNamed tree)
    (hpopulated : Populates maxLinks calls workdir tree) :
    (HasDirectories maxLinks workdir (settledTree maxLinks filesystem calls workdir tree) ∧
        (filesystem = true → HasNoEntries maxLinks (containersPath workdir)
          (settledTree maxLinks filesystem calls workdir tree))) ↔
      PassesNoFailure maxLinks filesystem calls workdir tree := by
  have hready := hasDirectories_withImages_iff hpopulated
  have hnamed' : WellNamed (withImages maxLinks calls workdir tree) := by
    have hgrows := grows_populateContextWorkdir maxLinks calls workdir hnamed
    rw [populateContextWorkdir_of_populates hpopulated] at hgrows
    exact hgrows.added.named
  rw [settledTree]
  cases filesystem with
  | false =>
      constructor
      · rintro ⟨h, -⟩
        obtain ⟨hroot, hcontainers, himages⟩ := hready.mp h
        exact ⟨hroot, hcontainers, himages, nofun⟩
      · intro h
        exact ⟨hready.mpr ⟨h.root, h.containers, h.images⟩, nofun⟩
  | true =>
      rw [if_pos rfl]
      constructor
      · rintro ⟨hafter, hempty⟩
        have hbefore := hafter.of_partOf (partOf_deleteContainerWorkdirs _ _ _ hnamed')
        obtain ⟨p, hp, hdir⟩ := FileSystem.isDirectory_iff.mp hbefore.containers
        obtain ⟨-, hcleansUp⟩ :=
          (hasDirectories_iff_cleansUp hnamed' hp hdir).mp ⟨hafter, hempty rfl⟩
        obtain ⟨hroot, hcontainers, himages⟩ := hready.mp hbefore
        exact ⟨hroot, hcontainers, himages, fun _ ↦ ⟨p, hp, hcleansUp⟩⟩
      · intro h
        have hbefore := hready.mpr ⟨h.root, h.containers, h.images⟩
        obtain ⟨p, hp, hcleansUp⟩ := h.cleanup rfl
        obtain ⟨q, hq, hdir⟩ := FileSystem.isDirectory_iff.mp hbefore.containers
        obtain rfl : q = p := Except.ok.inj (hq.symm.trans hp)
        obtain ⟨hafter, hempty⟩ :=
          (hasDirectories_iff_cleansUp hnamed' hp hdir).mpr ⟨hbefore, hcleansUp⟩
        exact ⟨hafter, fun _ ↦ hempty⟩

/-- A context comes with its directories exactly if a check ends the call or no failure is
passed over. -/
theorem comesReady_iff (maxLinks : ℕ) (filesystem : Bool) (defaultWorkdir : CString)
    (mutexLock : Int) (calls : CreateContextCalls) (dir : Option CString) {s : ContextList}
    (hnamed : WellNamed s.tree) :
    ComesReady maxLinks filesystem (dir.getD defaultWorkdir) s
        (ocreCreateContext maxLinks filesystem defaultWorkdir mutexLock calls dir s) ↔
      (Admitted maxLinks mutexLock calls (dir.getD defaultWorkdir) s →
        PassesNoFailure maxLinks filesystem calls (dir.getD defaultWorkdir) s.tree) := by
  by_cases hadmitted : Admitted maxLinks mutexLock calls (dir.getD defaultWorkdir) s
  · rw [ocreCreateContext_of_admitted hadmitted]
    exact (ready_iff_passesNoFailure hnamed hadmitted.populated).trans
      ⟨fun h _ ↦ h, fun h ↦ h hadmitted⟩
  · obtain ⟨hnone, hsame⟩ := ocreCreateContext_of_not_admitted filesystem hadmitted
    refine iff_of_true ?_ fun h ↦ absurd h hadmitted
    rw [ComesReady, hnone]
    exact hsame

/-- A working directory with what an old container has left, and a file beside it. -/
def oldEntries : List (List CString × FileEntry FileData) :=
  [([cstring "ocre"], .dir), ([cstring "containers", cstring "ocre"], .dir),
    ([cstring "old", cstring "containers", cstring "ocre"], .dir),
    ([cstring "data", cstring "old", cstring "containers", cstring "ocre"], .other (.regular [])),
    ([cstring "file"], .other (.regular []))]

def oldTree : FileSystem where
  entries := oldEntries
  nodup := by decide
  named := by decide
  parent n p e h := by
    have hparents : ∀ x ∈ oldEntries, x.1.tail = [] ∨ (x.1.tail, .dir) ∈ oldEntries := by decide
    exact hparents (n :: p, e) h

theorem wellNamed_oldTree : WellNamed oldTree := by decide

theorem comesReady_oldTree :
    ComesReady 40 true (cstring "/ocre") ⟨[], oldTree⟩
      (ocreCreateContext 40 true (cstring "/ocre") 0 { pointer := 1 } none ⟨[], oldTree⟩) := by
  refine (comesReady_iff 40 true (cstring "/ocre") 0 { pointer := 1 } none wellNamed_oldTree).mpr
    fun _ ↦ ⟨.inr (by decide), .inl (.inr (by decide)), ?_, fun _ ↦
      ⟨[cstring "containers", cstring "ocre"], by decide, .inr ⟨rfl, rfl, rfl, rfl, by decide⟩,
        by decide, by decide, by decide⟩⟩
  exact .inl ⟨rfl, rfl, by decide, by decide⟩

/-- A file is in the way of the working directory, for which `stat` reports `ENOTDIR`. -/
theorem not_comesReady_of_file :
    ¬ ComesReady 40 true (cstring "/file/ocre") ⟨[], oldTree⟩
      (ocreCreateContext 40 true (cstring "/ocre") 0 { pointer := 1 } (some (cstring "/file/ocre"))
        ⟨[], oldTree⟩) := by
  intro h
  obtain ⟨hready, -⟩ : HasDirectories 40 (cstring "/file/ocre") oldTree ∧ _ := h
  exact absurd hready.root (by decide)

end Creation

end Workdir

end OcreRuntime
