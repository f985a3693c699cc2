import OcreRuntime.Lib.OrderedMap
import OcreRuntime.Library.Locks
import OcreRuntime.Library.Workdir
import OcreRuntime.Shell.Confinement

/-!
# The directories of contexts

A context is refused when its working directory is spelled like that of a live one. Two
spellings may stand for one directory, one directory may lie in the containers of another,
and a symbolic link may lead from one to the other; apart from that the live contexts keep
to directories of their own.
-/

namespace OcreRuntime

open LockProgram
open Function (update)

namespace ContextTable

variable {Point Ctx Ext : Type} {V : OcreRuntimeVtable Point Ctx Ext} {defaultWorkdir : CString}

/-- The components of the directory `containers` of a working directory. -/
def containersOf (workdir : CString) : List CString := cstring "containers" :: pathOf workdir

/-- The live contexts have different working directories, also where symbolic links are
followed. -/
def Separate (s : ContextTable Ctx) : Prop :=
  s.contexts.Pairwise fun a b ↦
    pathOf a.workingDirectory ≠ pathOf b.workingDirectory ∧
      ∀ p, s.tree.resolvePath s.maxLinks true a.workingDirectory = .ok p →
        s.tree.resolvePath s.maxLinks true b.workingDirectory ≠ .ok p

/-- A container whose working directory is the entry at a path. -/
def HasWorkdir (s : ContextTable Ctx) (node : ContextListNode) (p : List CString) : Prop :=
  ∃ context, s.memory node.context = some context ∧ ∃ container ∈ context.containers,
    ∃ workdir ∈ container.workingDirectory, s.tree.resolvePath s.maxLinks false workdir = .ok p

/-- Containers of different contexts have different working directories. -/
def WorkdirsSeparate (s : ContextTable Ctx) : Prop :=
  s.contexts.Pairwise fun a b ↦ ∀ p q, s.HasWorkdir a p → s.HasWorkdir b q → p ≠ q

/-- What is in the directory `containers` of a live context is still there. -/
def EntriesKept (s s' : ContextTable Ctx) : Prop :=
  ∀ node ∈ s.contexts, ∀ p,
    s.tree.resolvePath s.maxLinks true (containersPath node.workingDirectory) = .ok p →
      ∀ name e, s.tree.lookup (name :: p) = some e → s'.tree.lookup (name :: p) = some e

/-- What holds after every call, and what the creation of a context leaves alone. -/
structure DirectoriesSeparate (a : ContextCall Ctx Ext) (s s' : Locked Mutex (ContextTable Ctx)) :
    Prop where
  contexts : s'.state.Separate
  workdirs : s'.state.WorkdirsSeparate
  entries : ∀ workdir calls, a = .createContext workdir calls → EntriesKept s.state s'.state

/-- A context is created in a directory that is not that of a live one, there is no live one
in its `containers`, and no symbolic link leads to them, unless a live one has the same
string. -/
def CreatesApart (defaultWorkdir : CString) (a : ContextCall Ctx Ext)
    (s : Locked Mutex (ContextTable Ctx)) : Prop :=
  match a with
  | .createContext workdir _ =>
      s.state.contexts.any (·.workingDirectory = workdir.getD defaultWorkdir) = true ∨
        s.state.tree.noLinks (containersPath (workdir.getD defaultWorkdir)) = true ∧
          ∀ node ∈ s.state.contexts,
            pathOf (workdir.getD defaultWorkdir) ≠ pathOf node.workingDirectory ∧
              ¬ containersOf (workdir.getD defaultWorkdir) <:+ pathOf node.workingDirectory
  | _ => True

instance (a : ContextCall Ctx Ext) (s : Locked Mutex (ContextTable Ctx)) :
    Decidable (CreatesApart defaultWorkdir a s) :=
  match a with
  | .createContext .. => inferInstanceAs (Decidable (_ ∨ _))
  | .destroyContext .. | .createContainer .. | .removeContainer .. | .getContainerById ..
  | .getContainerCount _ | .getContainers .. | .evolve .. => .isTrue trivial

/-- The list and the contexts agree, containers have their working directories in that of
their context, to which no link leads, and the names in the file system are components. -/
structure Rooted (s : ContextTable Ctx) : Prop where
  nodup : (s.contexts.map (·.context)).Nodup
  live : ∀ node ∈ s.contexts, ∃ context, s.memory node.context = some context ∧
    context.workingDirectory = node.workingDirectory
  nodes : ∀ p context, s.memory p = some context → (s.view context).NodesConfined
  named : WellNamed s.tree
  links : ∀ node ∈ s.contexts, s.tree.noLinks (containersPath node.workingDirectory) = true
  apart : s.contexts.Pairwise fun a b ↦ pathOf a.workingDirectory ≠ pathOf b.workingDirectory

section Invariant

theorem isComponent_containers : IsComponent (cstring "containers") := by decide

theorem pathOf_containers (workdir : CString) :
    pathOf (containersPath workdir) = containersOf workdir :=
  pathOf_append_of_component isComponent_containers workdir

theorem noLinks_of_containers {tree : FileSystem} {workdir : CString}
    (h : tree.noLinks (containersPath workdir) = true) : tree.noLinks workdir = true := by
  have happend : stepsOf (containersPath workdir) =
      stepsOf workdir ++ [.down (cstring "containers")] :=
    stepsOf_append_of_component isComponent_containers workdir
  rw [FileSystem.noLinks, happend] at h
  exact FileTree.linkFree_append h

theorem Rooted.separate {s : ContextTable Ctx} (hs : s.Rooted) : s.Separate := by
  refine hs.apart.imp_of_mem fun {a b} ha hb hne ↦ ⟨hne, fun p hp hq ↦ hne ?_⟩
  rw [← FileSystem.eq_pathOf_of_noLinks (noLinks_of_containers (hs.links a ha)) hp,
    ← FileSystem.eq_pathOf_of_noLinks (noLinks_of_containers (hs.links b hb)) hq]

theorem ne_of_hasWorkdir {s : ContextTable Ctx} (hs : s.Rooted) {a b : ContextListNode}
    (ha : a ∈ s.contexts) (hb : b ∈ s.contexts)
    (hne : pathOf a.workingDirectory ≠ pathOf b.workingDirectory) {p q : List CString}
    (hp : s.HasWorkdir a p) (hq : s.HasWorkdir b q) : p ≠ q := by
  have hroot {node : ContextListNode} (hnode : node ∈ s.contexts) {p : List CString}
      (hp : s.HasWorkdir node p) : ∃ id, p = id :: containersOf node.workingDirectory := by
    obtain ⟨context, hcontext, container, hcontainer, workdir, hworkdir, hp⟩ := hp
    obtain ⟨context', hcontext', heq⟩ := hs.live node hnode
    obtain rfl := Option.some.inj (hcontext.symm.trans hcontext')
    obtain ⟨id, hchild⟩ := hs.nodes _ _ hcontext container hcontainer workdir hworkdir
    rw [hchild.eq_append] at hp
    obtain ⟨dir, hdir, -, rfl⟩ := (FileSystem.resolvePath_append_iff hchild.component
      (ContextState.containersDir_ne_nil _)).mp hp
    have hcontainers : (s.view context).containersDir = containersPath node.workingDirectory :=
      congrArg containersPath heq
    rw [hcontainers] at hdir
    exact ⟨id, by rw [FileSystem.eq_pathOf_of_noLinks (hs.links node hnode) hdir,
      pathOf_containers]⟩
  obtain ⟨ida, rfl⟩ := hroot ha hp
  obtain ⟨idb, rfl⟩ := hroot hb hq
  intro heq
  exact hne (List.cons.inj (List.cons.inj heq).2).2

theorem Rooted.workdirsSeparate {s : ContextTable Ctx} (hs : s.Rooted) : s.WorkdirsSeparate :=
  hs.apart.imp_of_mem fun ha hb hne _ _ hp hq ↦ ne_of_hasWorkdir hs ha hb hne hp hq

theorem keeps_onContainer {α : Type} (p : ℕ)
    (f : OcreContainer Ctx → Option (α × OcreContainer Ctx)) :
    Keeps Rooted (onContainer p f : ContextProgram Ctx α) := by
  apply Keeps.access
  intro s r hs h
  obtain ⟨c, -, h⟩ := Option.bind_eq_some_iff.mp h
  obtain ⟨r', -, rfl⟩ := Option.map_eq_some_iff.mp h
  exact ⟨hs.nodup, hs.live, hs.nodes, hs.named, hs.links, hs.apart⟩

theorem Rooted.store {s : ContextTable Ctx} (hs : s.Rooted) {p : ℕ} {context : OcreContext}
    (hlive : s.memory p = some context) {u : ContextState Ctx}
    (hdir : u.context.workingDirectory = context.workingDirectory) (hnodes : u.NodesConfined)
    (htree : AddsOnlyDirectories s.tree u.tree) : (s.store p u).Rooted := by
  refine ⟨hs.nodup, ?_, ?_, htree.named, fun node hnode ↦ htree.noLinks (hs.links node hnode),
    hs.apart⟩
  · intro node hnode
    obtain ⟨context', hcontext', heq⟩ := hs.live node hnode
    by_cases hp : node.context = p
    · rw [hp] at hcontext' ⊢
      obtain rfl := Option.some.inj (hlive.symm.trans hcontext')
      exact ⟨u.context, memory_store p u, hdir.trans heq⟩
    · refine ⟨context', ?_, heq⟩
      rw [← hcontext']
      exact Function.update_of_ne hp _ _
  · intro q context' hcontext'
    by_cases hq : q = p
    · subst hq
      obtain rfl := Option.some.inj ((memory_store q u).symm.trans hcontext')
      exact hnodes
    · have hold : s.memory q = some context' := by
        rw [← hcontext']
        exact (Function.update_of_ne hq _ _).symm
      exact hs.nodes q context' hold

/-- Work on a context that keeps its working directory and works in it. -/
theorem keeps_onContext {α : Type} (p : ℕ) {f : ContextState Ctx → α × ContextState Ctx}
    (hf : ∀ u : ContextState Ctx, u.NodesConfined → WellNamed u.tree →
      u.ConfinedStep (f u).2 ∧ AddsOnlyDirectories u.tree (f u).2.tree) :
    Keeps Rooted (onContext p f) := by
  apply Keeps.access
  intro s r hs h
  obtain ⟨context, hlive, rfl⟩ := Option.map_eq_some_iff.mp h
  obtain ⟨hstep, htree⟩ := hf (s.view context) (hs.nodes p context hlive) hs.named
  exact hs.store hlive hstep.workingDirectory hstep.nodes htree

theorem keeps_readContext {α : Type} (p : ℕ) (f : ContextState Ctx → α) :
    Keeps Rooted (readContext p f) := by
  apply keeps_onContext
  intro u hnodes hnamed
  exact ⟨.refl hnodes, .refl hnamed⟩

theorem keeps_section {α : Type} (p : ℕ) {f : ContextState Ctx → α × ContextState Ctx}
    (hf : ∀ u : ContextState Ctx, u.NodesConfined → WellNamed u.tree →
      u.ConfinedStep (f u).2 ∧ AddsOnlyDirectories u.tree (f u).2.tree) :
    Keeps Rooted (do
      lock (.context p)
      let result ← onContext p f
      unlock (.context p)
      return result : ContextProgram Ctx α) := by
  refine .bind (.lock _) ?_
  intro _
  apply Keeps.bind (keeps_onContext p hf)
  intro result
  refine .bind (.unlock _) ?_
  intro _
  exact .pure result

theorem keeps_readSection {α : Type} (p : ℕ) (f : ContextState Ctx → α) :
    Keeps Rooted (do
      lock (.context p)
      let result ← readContext p f
      unlock (.context p)
      return result : ContextProgram Ctx α) := by
  apply keeps_section
  intro u hnodes hnamed
  exact ⟨.refl hnodes, .refl hnamed⟩

theorem keeps_ocreContextRemoveContainer (context container : Option ℕ) (calls : RemoveCalls) :
    Keeps Rooted (ocreContextRemoveContainer context container calls : ContextProgram Ctx _) := by
  unfold ocreContextRemoveContainer
  split
  · apply keeps_section
    intro u hnodes hnamed
    exact ⟨ContextState.confinedStep_removal hnamed hnodes _ _,
      ContextState.addsOnlyDirectories_removal hnamed _ _⟩
  · exact .pure _

/-- A creation of a container leaves the table alone or is one step on its context. -/
theorem exists_store_of_createContainer {context : Option ℕ} {args : CreateArgs}
    {calls : CreateCalls Ctx} {s s' : Locked Mutex (ContextTable Ctx)} {r : Option ℕ}
    (h : ocreContextCreateContainer context args calls s = some (r, s')) :
    s'.state = s.state ∨ ∃ p c, s.state.memory p = some c ∧
      s'.state = s.state.store p ((s.state.view c).ocreContextCreateContainer args calls).2 := by
  have hreturn {r r' : Option ℕ} {s s' : Locked Mutex (ContextTable Ctx)}
      (h : (pure r' : ContextProgram Ctx (Option ℕ)) s = some (r, s')) : s' = s :=
    (Prod.mk.inj (Option.some.inj h)).2.symm
  cases context with
  | none => exact .inl (congrArg _ (hreturn h))
  | some p =>
      have hprogram := h
      unfold ocreContextCreateContainer at h
      dsimp only at h
      by_cases hid : args.containerId.isSome ∧ ¬ ocreIsValidName args.containerId
      · rw [if_pos hid] at h
        exact .inl (congrArg _ (hreturn h))
      rw [if_neg hid] at h
      cases himage : args.image with
      | none =>
          rw [himage] at h
          exact .inl (congrArg _ (hreturn h))
      | some image =>
          rw [himage] at h
          dsimp only at h
          by_cases hvalid : ¬ ocreIsValidName (some image) = true
          · rw [if_pos hvalid] at h
            exact .inl (congrArg _ (hreturn h))
          · rw [if_neg hvalid] at h
            obtain ⟨_, t, hlock, h⟩ := of_bind h
            obtain ⟨hfree, hlock⟩ := Option.ite_none_left_eq_some.mp hlock
            obtain ⟨-, rfl⟩ := Prod.mk.inj (Option.some.inj hlock)
            obtain ⟨_, u, hread, -⟩ := of_bind h
            obtain ⟨_, hread, -⟩ := Option.map_eq_some_iff.mp hread
            obtain ⟨c, hlive, -⟩ := Option.map_eq_some_iff.mp hread
            have heq := ocreContextCreateContainer_eq (t := s.state)
              (Bool.eq_false_iff.mpr hfree) hlive args calls
            rw [show (⟨s.state, s.held⟩ : Locked Mutex (ContextTable Ctx)) = s from rfl, hprogram,
              onContext_eq hlive] at heq
            obtain ⟨-, rfl⟩ := Prod.mk.inj (Option.some.inj heq)
            exact .inr ⟨p, c, hlive, rfl⟩

theorem keeps_ocreContextCreateContainer (context : Option ℕ) (args : CreateArgs)
    (calls : CreateCalls Ctx) :
    Keeps Rooted (ocreContextCreateContainer context args calls) := by
  intro s r s' hs h
  rcases exists_store_of_createContainer h with heq | ⟨p, c, hlive, heq⟩
  · rw [heq]
    exact hs
  · rw [heq]
    have hstep := ContextState.confinedStep_creation hs.named (hs.nodes p c hlive) args calls
    exact hs.store hlive hstep.workingDirectory hstep.nodes
      (ContextState.addsOnlyDirectories_creation (s := s.state.view c) hs.named args calls)

/-- All calls but the creation and the destruction of a context keep the invariant whatever
their arguments are. -/
theorem keeps_perform {a : ContextCall Ctx Ext}
    (hcreate : ∀ workdir calls, a ≠ .createContext workdir calls)
    (hdestroy : ∀ context calls, a ≠ .destroyContext context calls) :
    Keeps Rooted (perform V defaultWorkdir a) := by
  cases a with
  | createContext workdir calls => exact absurd rfl (hcreate workdir calls)
  | destroyContext context calls => exact absurd rfl (hdestroy context calls)
  | createContainer context args calls =>
      exact .dropResult (keeps_ocreContextCreateContainer context args calls)
  | removeContainer context container calls =>
      exact .dropResult (keeps_ocreContextRemoveContainer context container calls)
  | getContainerById context id =>
      apply Keeps.dropResult
      unfold ocreContextGetContainerById
      split
      · exact keeps_readSection _ _
      · exact .pure _
  | getContainerCount context =>
      apply Keeps.dropResult
      unfold ocreContextGetContainerCount
      split
      · exact .pure _
      · exact keeps_readSection _ _
  | getContainers context given maxSize =>
      apply Keeps.dropResult
      unfold ocreContextGetContainers
      split
      · exact .pure _
      · split
        · exact .pure _
        · exact keeps_readSection _ _
  | evolve container c => exact keeps_onContainer _ _

end Invariant

section Destruction

theorem keeps_ocreContainerKill (ext : Ext) (p : ℕ) :
    Keeps Rooted (ocreContainerKill V ext p) := by
  refine .bind (.lock _) ?_
  intro _
  apply Keeps.bind (keeps_onContainer _ _)
  intro ret
  refine .bind (.unlock _) ?_
  intro _
  exact .pure ret

theorem keeps_ocreContainerWait (calls : DestroyContextCalls Ctx Ext) (p : ℕ) :
    Keeps Rooted (ocreContainerWait calls p) := by
  have hunlock (ret : Int) : Keeps Rooted (do
      unlock (.container p)
      return ret : ContextProgram Ctx Int) := by
    refine .bind (.unlock _) ?_
    intro _
    exact .pure ret
  refine .bind (.lock _) ?_
  intro _
  apply Keeps.bind (keeps_onContainer _ _)
  intro result
  cases result with
  | some result => exact hunlock result.ret
  | none =>
      refine .bind (.unlock _) ?_
      intro _
      apply Keeps.bind (keeps_onContainer _ _)
      intro _
      refine .bind (.lock _) ?_
      intro _
      apply Keeps.bind (keeps_onContainer _ _)
      intro result
      exact hunlock result.ret

theorem keeps_killContainers (calls : DestroyContextCalls Ctx Ext) (nodes : List ContainerNode) :
    Keeps Rooted (killContainers V calls nodes) := by
  induction nodes with
  | nil => exact .pure ()
  | cons node nodes ih =>
      apply Keeps.bind (keeps_ocreContainerKill _ _)
      intro _
      exact ih

theorem keeps_waitContainers (calls : DestroyContextCalls Ctx Ext) (nodes : List ContainerNode) :
    Keeps Rooted (waitContainers calls nodes) := by
  induction nodes with
  | nil => exact .pure ()
  | cons node nodes ih =>
      apply Keeps.bind (keeps_ocreContainerWait calls _)
      intro _
      exact ih

theorem exists_rooted_of_ocreContextDestroy {p : ℕ} {calls : DestroyContextCalls Ctx Ext}
    {s s' : Locked Mutex (ContextTable Ctx)} {rc : Int} (hdestroy : calls.mutexDestroy = 0)
    (hs : s.state.Rooted) (h : ocreContextDestroy V p calls s = some (rc, s')) :
    ∃ t : ContextTable Ctx, t.Rooted ∧ s'.state = { t with memory := update t.memory p none } := by
  obtain ⟨nodes, t, hread, h⟩ := of_bind h
  have ht := keeps_readContext p _ _ _ _ hs hread
  obtain ⟨_, u, hkill, h⟩ := of_bind h
  have hu := keeps_killContainers calls nodes _ _ _ ht hkill
  obtain ⟨_, v, hwait, h⟩ := of_bind h
  have hv := keeps_waitContainers calls nodes _ _ _ hu hwait
  obtain ⟨_, w, hremove, h⟩ := of_bind h
  have hw : w.state.Rooted := by
    refine keeps_onContext p ?_ _ _ _ hv hremove
    intro x hnodes hnamed
    exact ⟨ContextState.confinedStep_removeAll calls.remove nodes hnamed hnodes,
      ContextState.addsOnlyDirectories_removeAll hnamed calls.remove nodes⟩
  obtain ⟨_, x, hrenew, h⟩ := of_bind h
  have hx := Keeps.renew (I := Rooted) (.context p) _ _ _ hw hrenew
  rw [if_neg (not_not.mpr hdestroy)] at h
  obtain ⟨_, y, hfree, h⟩ := of_bind h
  obtain ⟨-, rfl⟩ := Prod.mk.inj (Option.some.inj hfree)
  obtain ⟨-, rfl⟩ := Prod.mk.inj (Option.some.inj h)
  exact ⟨x.state, hx, rfl⟩

theorem Rooted.erase {t : ContextTable Ctx} (ht : t.Rooted) (p : ℕ) :
    Rooted { t with
      memory := update t.memory p none
      contexts := t.contexts.eraseP (·.context = p) } := by
  have hfilter := List.eraseP_eq_filter_of_nodup_map ht.nodup p
  have hmem {node : ContextListNode} (hnode : node ∈ t.contexts.eraseP (·.context = p)) :
      node ∈ t.contexts ∧ node.context ≠ p := by
    rw [hfilter, List.mem_filter] at hnode
    simpa using hnode
  constructor
  · exact ht.nodup.sublist (List.eraseP_sublist.map _)
  · intro node hnode
    obtain ⟨hlisted, hne⟩ := hmem hnode
    obtain ⟨context, hcontext, heq⟩ := ht.live node hlisted
    refine ⟨context, ?_, heq⟩
    rw [← hcontext]
    exact Function.update_of_ne hne _ _
  · intro q context hcontext
    by_cases hq : q = p
    · subst hq
      simp at hcontext
    · refine ht.nodes q context ?_
      rw [← hcontext]
      exact (Function.update_of_ne hq _ _).symm
  · exact ht.named
  · exact fun node hnode ↦ ht.links node (hmem hnode).1
  · exact ht.apart.sublist List.eraseP_sublist

theorem rooted_of_ocreDestroyContext {context : Option ℕ} {calls : DestroyContextCalls Ctx Ext}
    {s s' : Locked Mutex (ContextTable Ctx)} {rc : Int} (hdestroy : calls.mutexDestroy = 0)
    (hs : s.state.Rooted) (h : ocreDestroyContext V context calls s = some (rc, s')) :
    s'.state.Rooted := by
  cases context with
  | none => exact Keeps.pure (I := Rooted) _ _ _ _ hs h
  | some p =>
      obtain ⟨_, t, hlock, h⟩ := of_bind h
      have ht := Keeps.lock (I := Rooted) _ _ _ _ hs hlock
      obtain ⟨rc', u, hlocked, h⟩ := of_bind h
      have hu : u.state.Rooted := by
        obtain ⟨found, v, hfound, hlocked⟩ := of_bind hlocked
        obtain ⟨-, rfl⟩ := Prod.mk.inj (Option.some.inj hfound)
        dsimp only at hlocked
        split at hlocked
        · obtain ⟨rc'', w, hdestroyed, hlocked⟩ := of_bind hlocked
          obtain rfl : rc'' = 0 := returns_ocreContextDestroy hdestroy _ _ _ hdestroyed
          rw [if_neg (not_not.mpr rfl)] at hlocked
          obtain ⟨x, hx, heq⟩ := exists_rooted_of_ocreContextDestroy hdestroy ht hdestroyed
          obtain ⟨_, y, herase, hlocked⟩ := of_bind hlocked
          obtain ⟨-, rfl⟩ := Prod.mk.inj (Option.some.inj herase)
          obtain ⟨-, rfl⟩ := Prod.mk.inj (Option.some.inj hlocked)
          have herased := hx.erase p
          dsimp only
          rw [heq]
          exact herased
        · exact Keeps.pure (I := Rooted) _ _ _ _ ht hlocked
      split at h
      · exact Keeps.pure (I := Rooted) _ _ _ _ hu h
      · obtain ⟨_, v, hunlock, h⟩ := of_bind h
        have hv := Keeps.unlock (I := Rooted) _ _ _ _ hu hunlock
        exact Keeps.pure (I := Rooted) _ _ _ _ hv h

end Destruction

section Creation

variable {tree : FileSystem} {workdir : CString} {calls : CreateContextCalls}

/-- What is not in the directory `containers` is not changed by the clean-up. -/
theorem lookup_deleteContainerWorkdirs (maxLinks : ℕ) (hnamed : WellNamed tree)
    (hlinks : tree.noLinks (containersPath workdir) = true) {q : List CString}
    (hq : containersOf workdir <:+ q → q = containersOf workdir) :
    (deleteContainerWorkdirs maxLinks calls workdir tree).2.lookup q = tree.lookup q := by
  rcases Workdir.deleteContainerWorkdirs_cases maxLinks calls workdir hnamed with
    hsame | ⟨p, hp, hdir, hwithin, hkept⟩
  · rw [hsame]
  · obtain rfl : p = containersOf workdir := by
      rw [← pathOf_containers]
      exact FileSystem.eq_pathOf_of_noLinks hlinks hp
    by_cases hbelow : containersOf workdir <:+ q
    · rw [hq hbelow, hdir, hkept]
    · exact hwithin.lookup_of_not_suffix hbelow

/-- An entry in the containers of a context that lies apart is not below the containers of
the new one. -/
theorem eq_of_suffix_of_apart {live : CString} (hne : pathOf workdir ≠ pathOf live)
    (hbelow : ¬ containersOf workdir <:+ pathOf live) {entry : CString}
    (h : containersOf workdir <:+ entry :: containersOf live) :
    entry :: containersOf live = containersOf workdir := by
  rcases List.suffix_cons_iff.mp h with h | h
  · exact h.symm
  · rcases List.suffix_cons_iff.mp h with h | h
    · exact absurd (List.cons.inj h).2 hne
    · exact absurd h hbelow

theorem Rooted.withTree {s : ContextTable Ctx} (hs : s.Rooted) {tree : FileSystem}
    (h : AddsOnlyDirectories s.tree tree) : Rooted { s with tree := tree } :=
  ⟨hs.nodup, hs.live, hs.nodes, h.named, fun node hnode ↦ h.noLinks (hs.links node hnode),
    hs.apart⟩

theorem Rooted.add {s : ContextTable Ctx} (hs : s.Rooted) {p : ℕ} (hp : s.memory p = none)
    (hlinks : s.tree.noLinks (containersPath workdir) = true)
    (hapart : ∀ node ∈ s.contexts, pathOf workdir ≠ pathOf node.workingDirectory) :
    Rooted { s with
      memory := update s.memory p (some ⟨workdir, []⟩)
      contexts := s.contexts ++ [⟨p, workdir⟩] } := by
  have hlive {node : ContextListNode} (hnode : node ∈ s.contexts) : node.context ≠ p := by
    rintro rfl
    obtain ⟨context, hcontext, -⟩ := hs.live node hnode
    rw [hp] at hcontext
    cases hcontext
  constructor
  · rw [List.map_append, List.nodup_append_comm]
    refine List.nodup_cons.mpr ⟨?_, hs.nodup⟩
    intro hmem
    obtain ⟨node, hnode, heq⟩ := List.mem_map.mp hmem
    exact hlive hnode heq
  · intro node hnode
    rcases List.mem_append.mp hnode with hnode | hnode
    · obtain ⟨context, hcontext, heq⟩ := hs.live node hnode
      refine ⟨context, ?_, heq⟩
      rw [← hcontext]
      exact Function.update_of_ne (hlive hnode) _ _
    · obtain rfl := List.mem_singleton.mp hnode
      exact ⟨⟨workdir, []⟩, Function.update_self .., rfl⟩
  · intro q context hcontext
    by_cases hq : q = p
    · subst hq
      dsimp only at hcontext
      rw [Function.update_self] at hcontext
      obtain rfl := Option.some.inj hcontext
      intro container hcontainer
      cases hcontainer
    · refine hs.nodes q context ?_
      rw [← hcontext]
      exact (Function.update_of_ne hq _ _).symm
  · exact hs.named
  · intro node hnode
    rcases List.mem_append.mp hnode with hnode | hnode
    · exact hs.links node hnode
    · obtain rfl := List.mem_singleton.mp hnode
      exact hlinks
  · refine List.pairwise_append.mpr ⟨hs.apart, List.pairwise_singleton _ _, ?_⟩
    intro node hnode new hnew
    obtain rfl := List.mem_singleton.mp hnew
    exact (hapart node hnode).symm

/-- What the creation of a context does to the file system. -/
theorem settled_of_apart (calls : CreateContextCalls) {s : ContextTable Ctx} (hs : s.Rooted)
    (hlinks : s.tree.noLinks (containersPath workdir) = true)
    (hapart : ∀ node ∈ s.contexts, pathOf workdir ≠ pathOf node.workingDirectory ∧
      ¬ containersOf workdir <:+ pathOf node.workingDirectory)
    {populated deleted : FileSystem}
    (hpopulated : populated = (populateContextWorkdir s.maxLinks calls workdir s.tree).2)
    (hdeleted : deleted = (deleteContainerWorkdirs s.maxLinks calls workdir populated).2) :
    AddsOnlyDirectories s.tree deleted ∧ EntriesKept s { s with tree := deleted } := by
  have hgrows := Workdir.grows_populateContextWorkdir s.maxLinks calls workdir hs.named
  rw [← hpopulated] at hgrows
  have hpart :=
    Workdir.partOf_deleteContainerWorkdirs s.maxLinks calls workdir hgrows.added.named
  have hnamed :=
    Workdir.wellNamed_deleteContainerWorkdirs s.maxLinks calls workdir hgrows.added.named
  rw [← hdeleted] at hpart hnamed
  refine ⟨hgrows.added.trans ⟨hnamed, hpart.othersOf⟩, ?_⟩
  intro node hnode p hp name e he
  obtain ⟨hne, hbelow⟩ := hapart node hnode
  obtain rfl : p = containersOf node.workingDirectory := by
    rw [← pathOf_containers]
    exact FileSystem.eq_pathOf_of_noLinks (hs.links node hnode) hp
  dsimp only
  rw [hdeleted, lookup_deleteContainerWorkdirs s.maxLinks hgrows.added.named
    (hgrows.added.noLinks hlinks) (eq_of_suffix_of_apart hne hbelow)]
  exact hgrows.partOf _ e he

theorem rooted_of_creation {s : ContextTable Ctx} {dir : Option CString} (hs : s.Rooted)
    (hpointer : s.memory calls.pointer = none) (hworkdir : workdir = dir.getD defaultWorkdir)
    (hapart : s.contexts.any (·.workingDirectory = workdir) = true ∨
      s.tree.noLinks (containersPath workdir) = true ∧
        ∀ node ∈ s.contexts, pathOf workdir ≠ pathOf node.workingDirectory ∧
          ¬ containersOf workdir <:+ pathOf node.workingDirectory)
    {s' : ContextTable Ctx}
    (h : s' = Workdir.withOutcome s workdir
      (Workdir.ocreCreateContext s.maxLinks true defaultWorkdir 0 calls dir
        ⟨s.contexts, s.tree⟩)) :
    s'.Rooted ∧ EntriesKept s s' := by
  have hsame : Rooted (Workdir.withOutcome s workdir (none, ⟨s.contexts, s.tree⟩)) ∧
      EntriesKept s (Workdir.withOutcome s workdir (none, ⟨s.contexts, s.tree⟩)) :=
    ⟨hs, fun _ _ _ _ _ _ he ↦ he⟩
  unfold Workdir.ocreCreateContext at h
  rw [if_neg (not_not.mpr rfl), ← hworkdir] at h
  dsimp only at h
  split at h
  next => exact h ▸ hsame
  next hlisted =>
  obtain ⟨hlinks, hapart⟩ := hapart.resolve_left hlisted
  split at h
  next => exact h ▸ hsame
  next =>
  unfold Workdir.createContextIn at h
  dsimp only at h
  split at h
  next =>
    have hgrows := Workdir.grows_populateContextWorkdir s.maxLinks calls workdir hs.named
    rw [h]
    exact ⟨hs.withTree hgrows.added, fun _ _ _ _ _ e he ↦ hgrows.partOf _ e he⟩
  next =>
  rw [if_pos rfl] at h
  obtain ⟨htree, hentries⟩ := settled_of_apart calls hs hlinks hapart rfl rfl
  cases hcontext : ocreContextCreate calls workdir with
  | none =>
      rw [hcontext] at h
      rw [h]
      exact ⟨hs.withTree htree, hentries⟩
  | some context =>
      rw [hcontext] at h
      rw [h]
      exact ⟨(hs.withTree htree).add hpointer (htree.noLinks hlinks)
        fun node hnode ↦ (hapart node hnode).1, hentries⟩

end Creation

section Runs

variable {a : ContextCall Ctx Ext} {s s' : Locked Mutex (ContextTable Ctx)}

theorem rooted_of_next (hs : s.state.Rooted) (ha : CreatesApart defaultWorkdir a s)
    (h : (contextTableSystem V defaultWorkdir).next a s = some s') :
    s'.state.Rooted ∧
      ∀ workdir calls, a = .createContext workdir calls → EntriesKept s.state s'.state := by
  obtain ⟨hfits, hperform⟩ := perform_of_next h
  cases a with
  | createContext workdir calls =>
      obtain ⟨r, t, ht, hreturn⟩ := of_bind hperform
      obtain ⟨-, rfl⟩ := Prod.mk.inj (Option.some.inj hreturn)
      have hpointer : s.state.memory calls.pointer = none := by
        simpa [fits] using (Bool.and_eq_true_iff.mp hfits).1
      obtain ⟨-, hstate⟩ := Workdir.outcome_of_ocreCreateContext ht
      obtain ⟨hrooted, hentries⟩ := rooted_of_creation hs hpointer rfl ha hstate
      exact ⟨hrooted, fun _ _ _ ↦ hentries⟩
  | destroyContext context calls =>
      obtain ⟨r, t, ht, hreturn⟩ := of_bind hperform
      obtain ⟨-, rfl⟩ := Prod.mk.inj (Option.some.inj hreturn)
      refine ⟨rooted_of_ocreDestroyContext (of_decide_eq_true hfits) hs ht, ?_⟩
      intro _ _ h
      cases h
  | createContainer | removeContainer | getContainerById | getContainerCount | getContainers
  | evolve =>
      refine ⟨keeps_perform ?_ ?_ _ _ _ hs hperform, ?_⟩ <;> intro _ _ h <;> cases h

theorem rooted_of_empty (hs : Empty s) (hnamed : WellNamed s.state.tree) : s.state.Rooted := by
  constructor
  · simp [hs.contexts]
  · intro node hnode
    rw [hs.contexts] at hnode
    cases hnode
  · intro p context hcontext
    rw [hs.memory p] at hcontext
    cases hcontext
  · exact hnamed
  · intro node hnode
    rw [hs.contexts] at hnode
    cases hnode
  · rw [hs.contexts]
    exact List.Pairwise.nil

end Runs

end ContextTable

/-- The list of contexts over a file system in which all names are components. -/
def contextDirectorySystem {Point Ctx Ext : Type} (V : OcreRuntimeVtable Point Ctx Ext)
    (defaultWorkdir : CString) :
    StepSystem (Locked Mutex (ContextTable Ctx)) (ContextCall Ctx Ext) :=
  (contextTableSystem V defaultWorkdir).restrict fun s ↦ WellNamed s.state.tree

namespace ContextTable

variable {Point Ctx Ext : Type} {V : OcreRuntimeVtable Point Ctx Ext} {defaultWorkdir : CString}
  {s : Locked Mutex (ContextTable Ctx)}

theorem rooted_of_reachableWhere
    (hs : (contextDirectorySystem V defaultWorkdir).ReachableWhere
      (CreatesApart defaultWorkdir) s) : s.state.Rooted := by
  apply StepSystem.ReachableWhere.invariant ?_ ?_ hs
  · rintro s ⟨hempty, hnamed⟩
    exact rooted_of_empty hempty hnamed
  · intro a s s' hs ha hnext
    exact (rooted_of_next hs ha hnext).1

/-- As long as contexts are created apart from the live ones, the live ones and their
containers have directories of their own, and creations empty none of them. -/
theorem runKeeps_directoriesSeparate {s₀ : Locked Mutex (ContextTable Ctx)} (h₀ : Empty s₀)
    (hnamed : WellNamed s₀.state.tree) {as : List (ContextCall Ctx Ext)}
    (hmeets : (contextDirectorySystem V defaultWorkdir).RunMeets
      (CreatesApart defaultWorkdir) s₀ as) :
    (contextDirectorySystem V defaultWorkdir).RunKeeps DirectoriesSeparate s₀ as := by
  refine StepSystem.ReachableWhere.runKeeps ?_ (.start (And.intro h₀ hnamed)) hmeets
  intro a s s' hs ha hnext
  obtain ⟨hrooted, hentries⟩ := rooted_of_next (rooted_of_reachableWhere hs) ha hnext
  exact ⟨hrooted.separate, hrooted.workdirsSeparate, hentries⟩

/-- Two contexts in directories of their own, each with a container of one ID. -/
theorem runKeeps_directoriesSeparate_of_two :
    ((contextDirectorySystem quietVtable (cstring "/ocre")).run emptyTable
        [.createContext none { pointer := 1 },
          .createContext (some (cstring "/other")) { pointer := 2 },
          .createContainer (some 1) (filesystemArgs (some (cstring "a"))) (promptCalls 3),
          .createContainer (some 2) (filesystemArgs (some (cstring "a"))) (promptCalls 4)]).isSome ∧
      (contextDirectorySystem quietVtable (cstring "/ocre")).RunKeeps DirectoriesSeparate emptyTable
        [.createContext none { pointer := 1 },
          .createContext (some (cstring "/other")) { pointer := 2 },
          .createContainer (some 1) (filesystemArgs (some (cstring "a"))) (promptCalls 3),
          .createContainer (some 2) (filesystemArgs (some (cstring "a"))) (promptCalls 4)] :=
  ⟨by decide +kernel, runKeeps_directoriesSeparate emptyTable_empty wellNamed_workTree
    (by decide +kernel)⟩

/-- A trailing slash makes a second context in the directory of the first. -/
theorem not_runKeeps_directoriesSeparate :
    ¬ ∀ s₀, Empty s₀ → WellNamed s₀.state.tree → ∀ as,
        (contextDirectorySystem quietVtable (cstring "/ocre")).RunKeeps DirectoriesSeparate s₀
          as := by
  intro h
  have hkeeps := h emptyTable emptyTable_empty wellNamed_workTree
    [.createContext none { pointer := 1 },
      .createContext (some (cstring "/ocre/")) { pointer := 2 }]
  have hseparate : ([⟨1, cstring "/ocre"⟩, ⟨2, cstring "/ocre/"⟩] : List ContextListNode).Pairwise
      fun a b ↦ pathOf a.workingDirectory ≠ pathOf b.workingDirectory :=
    ((hkeeps _ rfl).2 _ rfl).1.contexts.imp And.left
  revert hseparate
  decide +kernel

end ContextTable

end OcreRuntime
