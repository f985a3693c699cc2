import OcreRuntime.Lib.StepSystem
import OcreRuntime.Container.Steps
import OcreRuntime.Context.Model

/-!
# Operations on a context, one after the other

Each operation is a step under the context mutex. Between two of them a container
may be changed by its own operations and by its thread, which keep its ID. The
creations and removals are described once, by their outcomes.
-/

namespace OcreRuntime

inductive ContextAct (Ctx : Type)
  | create (args : CreateArgs) (calls : CreateCalls Ctx)
  | remove (container : Option ℕ) (calls : RemoveCalls)
  | getById (id : Option CString)
  | getCount
  | getContainers (given : Bool) (maxSize : Int)
  | destroy (calls : ℕ → RemoveCalls)
  | evolve (container : ℕ) (c : OcreContainer Ctx)

namespace ContextState

open Function (update)

variable {Ctx : Type}

/-- The partial step function. There are no operations on a freed context, and the
address of a new container is not that of a live one. -/
def next (a : ContextAct Ctx) (s : ContextState Ctx) : Option (ContextState Ctx) :=
  if s.freed then none
  else match a with
    | .create args calls =>
        if (s.heap calls.pointer).isNone then some (s.ocreContextCreateContainer args calls).2
        else none
    | .remove container calls => some (s.ocreContextRemoveContainer container calls).2
    | .getById _ | .getCount | .getContainers .. => some s
    | .destroy calls => some (s.ocreContextDestroy calls)
    | .evolve container c => match s.heap container with
        | some old =>
            if c.id = old.id then some { s with heap := update s.heap container (some c) }
            else none
        | none => none

/-- A context that `ocre_context_create` has just returned. -/
structure Fresh (s : ContextState Ctx) : Prop where
  containers : s.context.containers = []
  freed : s.freed = false

end ContextState

def contextSystem (Ctx : Type) : StepSystem (ContextState Ctx) (ContextAct Ctx) where
  init := ContextState.Fresh
  next := ContextState.next

/-- A working directory with its `containers`. -/
def workTree : FileSystem where
  entries := [([cstring "ocre"], .dir), ([cstring "containers", cstring "ocre"], .dir)]
  nodup := by decide
  named := by decide
  parent n p e h := by
    simp only [List.mem_cons, Prod.mk.injEq, List.cons.injEq, List.not_mem_nil, or_false] at h
    rcases h with ⟨⟨-, rfl⟩, -⟩ | ⟨⟨-, rfl⟩, -⟩
    · exact .inl rfl
    · exact .inr (by decide)

theorem wellNamed_workTree : WellNamed workTree := by decide

/-- A new context in a working directory. -/
def workContext : ContextState Unit where
  context := ⟨cstring "/ocre", []⟩
  heap _ := none
  tree := workTree
  maxLinks := 40
  freed := false

theorem workContext_fresh : workContext.Fresh := ⟨rfl, rfl⟩

/-- Creations in which nothing fails, at an address. -/
def promptCalls (pointer : ℕ) : CreateCalls Unit where
  rand _ := 0
  pointer := pointer
  runtimes _ := some fun _ ↦ some ()

/-- A container that has the capability `filesystem`. -/
def filesystemArgs (id : Option CString) : CreateArgs where
  image := some (cstring "hello.wasm")
  containerId := id
  arguments := some { capabilities := some [cstring "filesystem"] }

theorem ContainerNode.partOf_removeWorkdir (node : ContainerNode) (maxLinks : ℕ)
    (faults : ℕ → RmRfFaults) {tree : FileSystem} (hnamed : WellNamed tree) :
    FileTree.PartOf (node.removeWorkdir maxLinks faults tree).2 tree := by
  unfold removeWorkdir
  split
  · exact .refl tree
  · exact partOf_rmRfPath maxLinks faults hnamed _

theorem ContainerNode.addsOnlyDirectories_removeWorkdir (node : ContainerNode) (maxLinks : ℕ)
    (faults : ℕ → RmRfFaults) {tree : FileSystem} (hnamed : WellNamed tree) :
    AddsOnlyDirectories tree (node.removeWorkdir maxLinks faults tree).2 := by
  unfold removeWorkdir
  split
  · exact .refl hnamed
  · exact .rmRfPath maxLinks faults hnamed _

theorem ContainerNode.lstat_removeWorkdir {node : ContainerNode} {maxLinks : ℕ}
    {faults : ℕ → RmRfFaults} {tree : FileSystem} (hnamed : WellNamed tree)
    (h : (node.removeWorkdir maxLinks faults tree).1 = 0) :
    ∀ workdir ∈ node.workingDirectory,
      (node.removeWorkdir maxLinks faults tree).2.lstat maxLinks workdir = none := by
  intro workdir hworkdir
  rw [Option.mem_def] at hworkdir
  rw [removeWorkdir, hworkdir] at h ⊢
  exact lstat_rmRfPath hnamed h

theorem ocreContainerDestroy_refused {Ctx : Type} {joinRc : Int} {c c' : OcreContainer Ctx}
    (h : ocreContainerDestroy joinRc c = some c') : c' = c := by
  by_cases hexited : c.status = .exited
  · by_cases hrc : joinRc = 0
    · simp [ocreContainerDestroy, hrc, ocreContainerStatusLocked_of_join hexited] at h
    · rw [ocreContainerDestroy, ocreContainerStatusLocked_of_join_fails hexited hrc] at h
      simpa using h.symm
  · rw [ocreContainerDestroy, ocreContainerStatusLocked_of_ne_exited hexited] at h
    exact (Option.some.inj (Option.ite_none_right_eq_some.mp h).2).symm

namespace ContextState

open Function (update)

variable {Ctx : Type} {s s' : ContextState Ctx}

/-- The outcomes of a creation. -/
inductive Creation (s : ContextState Ctx) (args : CreateArgs) (calls : CreateCalls Ctx) :
    Option ℕ × ContextState Ctx → Prop
  | early : s.createTarget args calls = none → Creation s args calls (none, s)
  | mkdirFailed (target : CreateTarget) (workdir : CString) :
      s.createTarget args calls = some target → target.workdir = some workdir →
      s.makeWorkdir (some workdir) calls = none →
      Creation s args calls
        (none, { s with tree := (rmRfPath s.maxLinks calls.rmRf (some workdir) s.tree).2 })
  | containerFailed (target : CreateTarget) :
      s.createTarget args calls = some target → target.workdir = none →
      Creation s args calls (none, s)
  | containerFailedIn (target : CreateTarget) (workdir : CString) (tree : FileSystem) :
      s.createTarget args calls = some target → target.workdir = some workdir →
      s.makeWorkdir (some workdir) calls = some tree →
      Creation s args calls
        (none, { s with tree := (rmRfPath s.maxLinks calls.rmRf (some workdir) tree).2 })
  | created (target : CreateTarget) (tree : FileSystem) (c : OcreContainer Ctx) :
      s.createTarget args calls = some target → s.makeWorkdir target.workdir calls = some tree →
      c.id = target.id → c.status = .created → c.semStart = [] →
      Creation s args calls (some calls.pointer, { s with
        tree := tree
        heap := update s.heap calls.pointer (some c)
        context := { s.context with
          containers := s.context.containers ++ [⟨calls.pointer, target.workdir⟩] } })

theorem ocreContainerCreate_spec {imgPath : CString} {workdir runtime : Option CString}
    {containerId : CString} {detached : Bool} {arguments : Option ContainerArgs}
    {fds : ContainerFds} {calls : CreateCalls Ctx} {c : OcreContainer Ctx}
    (h : ocreContainerCreate imgPath workdir runtime containerId detached arguments fds calls =
      some c) : c.id = containerId ∧ c.status = .created ∧ c.semStart = [] := by
  simp only [ocreContainerCreate] at h
  split_ifs at h
  · split at h <;> cases h
  · split at h
    · cases h
    · obtain ⟨ctx, -, rfl⟩ := Option.map_eq_some_iff.mp h
      exact ⟨rfl, rfl, rfl⟩

theorem creation (s : ContextState Ctx) (args : CreateArgs) (calls : CreateCalls Ctx) :
    Creation s args calls (s.ocreContextCreateContainer args calls) := by
  unfold ocreContextCreateContainer
  cases htarget : s.createTarget args calls with
  | none => exact .early htarget
  | some target =>
      dsimp only
      cases hmake : s.makeWorkdir target.workdir calls with
      | none =>
          cases hworkdir : target.workdir with
          | none => simp [hworkdir, makeWorkdir] at hmake
          | some workdir => exact .mkdirFailed target workdir htarget hworkdir (hworkdir ▸ hmake)
      | some tree =>
          dsimp only
          split
          · cases hworkdir : target.workdir with
            | none =>
                obtain rfl : s.tree = tree := by simpa [hworkdir, makeWorkdir] using hmake
                exact .containerFailed target htarget hworkdir
            | some workdir =>
                exact .containerFailedIn target workdir tree htarget hworkdir (hworkdir ▸ hmake)
          · rename_i c hc
            obtain ⟨hid, hstatus, hsem⟩ := ocreContainerCreate_spec hc
            exact .created target tree c htarget hmake hid hstatus hsem

/-- The outcomes of a removal. -/
inductive Removal (s : ContextState Ctx) (container : ℕ) (calls : RemoveCalls) :
    Int × ContextState Ctx → Prop
  | missing :
      s.context.containers.find? (·.container = container) = none ∨ s.heap container = none →
      Removal s container calls (-1, s)
  | refused (node : ContainerNode) (c : OcreContainer Ctx) :
      s.context.containers.find? (·.container = container) = some node →
      s.heap container = some c → ocreContainerDestroy calls.joinRc c = some c →
      Removal s container calls (-1, s)
  | workdirLeft (node : ContainerNode) (c : OcreContainer Ctx) :
      s.context.containers.find? (·.container = container) = some node →
      s.heap container = some c → ocreContainerDestroy calls.joinRc c = none →
      (node.removeWorkdir s.maxLinks calls.rmRf s.tree).1 ≠ 0 →
      Removal s container calls (-1, { s with
        heap := update s.heap container none
        tree := (node.removeWorkdir s.maxLinks calls.rmRf s.tree).2 })
  | removed (node : ContainerNode) (c : OcreContainer Ctx) :
      s.context.containers.find? (·.container = container) = some node →
      s.heap container = some c → ocreContainerDestroy calls.joinRc c = none →
      (node.removeWorkdir s.maxLinks calls.rmRf s.tree).1 = 0 →
      Removal s container calls (0, { s with
        heap := update s.heap container none
        tree := (node.removeWorkdir s.maxLinks calls.rmRf s.tree).2
        context := { s.context with
          containers := s.context.containers.eraseP (·.container = container) } })

theorem removal (s : ContextState Ctx) (container : ℕ) (calls : RemoveCalls) :
    Removal s container calls (s.removeContainerLocked container calls) := by
  unfold removeContainerLocked
  cases hnode : s.context.containers.find? (·.container = container) with
  | none => exact .missing (.inl hnode)
  | some node =>
      cases hc : s.heap container with
      | none => exact .missing (.inr hc)
      | some c =>
          dsimp only
          cases hdestroy : ocreContainerDestroy calls.joinRc c with
          | some c' =>
              obtain rfl := ocreContainerDestroy_refused hdestroy
              have hheap : update s.heap container (some c') = s.heap := by
                rw [← hc, Function.update_eq_self]
              dsimp only
              rw [hheap]
              exact .refused node c' hnode hc hdestroy
          | none =>
              dsimp only
              by_cases hrm : (node.removeWorkdir s.maxLinks calls.rmRf s.tree).1 = 0
              · rw [if_neg (not_not.mpr hrm)]
                exact .removed node c hnode hc hdestroy hrm
              · rw [if_pos hrm]
                exact .workdirLeft node c hnode hc hdestroy hrm

theorem mkdirPath_of_makeWorkdir {calls : CreateCalls Ctx} {workdir : CString}
    {tree : FileSystem} (h : s.makeWorkdir (some workdir) calls = some tree) :
    s.tree.mkdirPath s.maxLinks workdir = some tree :=
  (Option.ite_none_left_eq_some.mp h).2

theorem addsOnlyDirectories_makeWorkdir (h : WellNamed s.tree) {calls : CreateCalls Ctx}
    {workdir : Option CString} {tree : FileSystem}
    (hmake : s.makeWorkdir workdir calls = some tree) : AddsOnlyDirectories s.tree tree := by
  cases workdir with
  | none =>
      rw [← Option.some.inj hmake]
      exact .refl h
  | some workdir => exact .of_mkdirPath h (mkdirPath_of_makeWorkdir hmake)

theorem addsOnlyDirectories_creation (h : WellNamed s.tree) (args : CreateArgs)
    (calls : CreateCalls Ctx) :
    AddsOnlyDirectories s.tree (s.ocreContextCreateContainer args calls).2.tree := by
  have hcreation := s.creation args calls
  generalize s.ocreContextCreateContainer args calls = r at hcreation ⊢
  cases hcreation with
  | early | containerFailed => exact .refl h
  | mkdirFailed => exact .rmRfPath _ _ h _
  | containerFailedIn target workdir tree htarget hworkdir hmake =>
      have hmade := addsOnlyDirectories_makeWorkdir h hmake
      exact hmade.trans (.rmRfPath _ _ hmade.named _)
  | created target tree c htarget hmake => exact addsOnlyDirectories_makeWorkdir h hmake

theorem addsOnlyDirectories_removal (h : WellNamed s.tree) (container : ℕ)
    (calls : RemoveCalls) :
    AddsOnlyDirectories s.tree (s.removeContainerLocked container calls).2.tree := by
  have hremoval := s.removal container calls
  generalize s.removeContainerLocked container calls = r at hremoval ⊢
  cases hremoval with
  | missing | refused => exact .refl h
  | workdirLeft node | removed node => exact node.addsOnlyDirectories_removeWorkdir _ _ h

theorem addsOnlyDirectories_removeAll (h : WellNamed s.tree) (calls : ℕ → RemoveCalls)
    (nodes : List ContainerNode) : AddsOnlyDirectories s.tree (s.removeAll calls nodes).tree := by
  induction nodes generalizing s with
  | nil => exact .refl h
  | cons node nodes ih =>
      have hremoval := addsOnlyDirectories_removal h node.container (calls node.container)
      exact hremoval.trans (ih hremoval.named)

theorem wellNamed_of_next {a : ContextAct Ctx} (h : WellNamed s.tree)
    (hnext : s.next a = some s') : WellNamed s'.tree := by
  obtain ⟨-, hnext⟩ := Option.ite_none_left_eq_some.mp hnext
  cases a with
  | create args calls =>
      obtain ⟨-, heq⟩ := Option.ite_none_right_eq_some.mp hnext
      rw [← Option.some.inj heq]
      exact (addsOnlyDirectories_creation h args calls).named
  | remove container calls =>
      rw [← Option.some.inj hnext]
      cases container with
      | none => exact h
      | some container => exact (addsOnlyDirectories_removal h container calls).named
  | getById | getCount | getContainers =>
      rw [← Option.some.inj hnext]
      exact h
  | destroy calls =>
      rw [← Option.some.inj hnext]
      exact (addsOnlyDirectories_removeAll h calls s.context.containers).named
  | evolve container c =>
      dsimp only at hnext
      split at hnext
      · obtain ⟨-, heq⟩ := Option.ite_none_right_eq_some.mp hnext
        rw [← Option.some.inj heq]
        exact h
      · cases hnext

/-- A removal adds nothing to the file system. -/
theorem partOf_removal (h : WellNamed s.tree) (container : ℕ) (calls : RemoveCalls) :
    (s.removeContainerLocked container calls).2.maxLinks = s.maxLinks ∧
      FileTree.PartOf (s.removeContainerLocked container calls).2.tree s.tree := by
  have hremoval := s.removal container calls
  generalize s.removeContainerLocked container calls = r at hremoval ⊢
  cases hremoval with
  | missing | refused => exact ⟨rfl, .refl s.tree⟩
  | workdirLeft node | removed node => exact ⟨rfl, node.partOf_removeWorkdir _ _ h⟩

end ContextState

end OcreRuntime
