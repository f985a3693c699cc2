import OcreRuntime.Util.FileCalls

/-!
# Removing a directory tree by its paths

The loop of `rm_rf` with the paths that it keeps, which every call follows anew through the
tree as it is by then. An iteration also says which of its calls have failed. With these
failures the loop over places in the tree does the same, so what is known of that one holds
of this one: whatever a path leads through, nothing outside the tree at its end is removed.
-/

namespace OcreRuntime

/-- `struct dir_stack_node`, with the path as the program keeps it. -/
structure DirStackPath where
  path : CString
  dir : Option (List CString)
  isRemovalPhase : Bool

structure RmRfPathState where
  tree : FileSystem
  stack : List DirStackPath
  result : Int

def buildPath (dir name : CString) : CString := dir ++ 47 :: name

section Calls

variable (maxLinks : ℕ) (f : RmRfFaults)

/-- An iteration from `readdir` on, with the calls that have failed. -/
def rmRfPathRead (tree : FileSystem) (result : Int) (node : DirStackPath)
    (rest : List DirStackPath) (stream : List CString) : RmRfPathState × RmRfFaults :=
  match if f.readdir then [] else stream with
  | [] =>
      (⟨tree, { node with dir := some stream, isRemovalPhase := true } :: rest, result⟩,
        { readdir := f.readdir })
  | name :: stream =>
      let stack := { node with dir := some stream } :: rest
      if name = cstring "." ∨ name = cstring ".." then (⟨tree, stack, result⟩, {})
      else if f.buildPath then (⟨tree, [], -1⟩, { buildPath := true })
      else
        let path := buildPath node.path name
        match if f.lstat then none else tree.lstat maxLinks path with
        | none => (⟨tree, stack, -1⟩, { lstat := true })
        | some .dir =>
            if f.pushDir then (⟨tree, [], -1⟩, { pushDir := true })
            else (⟨tree, ⟨path, none, false⟩ :: stack, result⟩, {})
        | some (.other _) =>
            match if f.unlink then none else tree.unlinkPath maxLinks path with
            | none => (⟨tree, stack, -1⟩, { unlink := true })
            | some tree => (⟨tree, stack, result⟩, {})

/-- One iteration of `while (stack)`, with the calls that have failed. -/
def rmRfPathStep (s : RmRfPathState) : RmRfPathState × RmRfFaults :=
  match s.stack with
  | [] => (s, {})
  | node :: rest =>
      if node.isRemovalPhase then
        match if f.rmdir then none else s.tree.rmdirPath maxLinks node.path with
        | none => (⟨s.tree, rest, -1⟩, { rmdir := true })
        | some tree => (⟨tree, rest, s.result⟩, {})
      else match node.dir with
        | none =>
            match if f.opendir then none else s.tree.opendir maxLinks node.path with
            | none => (⟨s.tree, rest, -1⟩, { opendir := true })
            | some p =>
                rmRfPathRead maxLinks f s.tree s.result node rest
                  (cstring "." :: cstring ".." :: s.tree.children p)
        | some stream => rmRfPathRead maxLinks f s.tree s.result node rest stream

end Calls

section Program

variable (maxLinks : ℕ) (faults : ℕ → RmRfFaults)

/-- The state before iteration `i`, of which the first has number 1. -/
def rmRfPathLoop (s : RmRfPathState) : ℕ → RmRfPathState
  | 0 => s
  | i + 1 => (rmRfPathStep maxLinks (faults (i + 1)) (rmRfPathLoop s i)).1

/-- The stack with the first directory. -/
def rmRfPathStart (path : CString) (tree : FileSystem) : RmRfPathState :=
  ⟨tree, [⟨path, none, false⟩], 0⟩

/-- `rm_rf`, with more iterations than entries can take. -/
def rmRfPath (path : Option CString) (tree : FileSystem) : Int × FileSystem :=
  match path with
  | none => (-1, tree)
  | some path =>
      match if (faults 0).lstat then none else tree.lstat maxLinks path with
      | none => (-1, tree)
      | some (.other _) =>
          match if (faults 0).unlink then none else tree.unlinkPath maxLinks path with
          | none => (-1, tree)
          | some tree => (0, tree)
      | some .dir =>
          if (faults 0).pushDir then (-1, tree)
          else
            let s := rmRfPathLoop maxLinks faults (rmRfPathStart path tree)
              (5 * tree.entries.length + 4)
            (s.result, s.tree)

/-- The calls that fail in a run of `rm_rf`, those before the loop first. -/
def failedCalls (path : CString) (tree : FileSystem) : ℕ → RmRfFaults
  | 0 =>
      match if (faults 0).lstat then none else tree.lstat maxLinks path with
      | none => { lstat := true }
      | some (.other _) =>
          { unlink := (if (faults 0).unlink then none
              else tree.unlinkPath maxLinks path).isNone }
      | some .dir => { pushDir := (faults 0).pushDir }
  | i + 1 =>
      (rmRfPathStep maxLinks (faults (i + 1))
        (rmRfPathLoop maxLinks faults (rmRfPathStart path tree) i)).2

end Program

section Simulation

open FileTree (PartOf Within)

variable {maxLinks : ℕ} {t tree tree' : FileSystem} {f : RmRfFaults} {path name : CString}
  {p q : List CString} {e : FileEntry FileData}

/-- What `readdir` may return. -/
def IsDirent (name : CString) : Prop := name = cstring "." ∨ name = cstring ".." ∨ IsComponent name

theorem IsDirent.isComponent (h : IsDirent name)
    (hdot : ¬ (name = cstring "." ∨ name = cstring "..")) : IsComponent name := by
  rcases h with h | h | h
  · exact absurd (.inl h) hdot
  · exact absurd (.inr h) hdot
  · exact h

/-- At the start the path leads to a directory. -/
structure LeadsTo (maxLinks : ℕ) (t : FileSystem) (path : CString) (p : List CString) : Prop where
  path : t.resolvePath maxLinks false path = .ok p
  dir : t.lookup p = some .dir

namespace LeadsTo

theorem follow (h : LeadsTo maxLinks t path p) : t.resolvePath maxLinks true path = .ok p :=
  FileSystem.resolvePath_true_of_isDir h.path (t.isDir_iff.mpr h.dir)

/-- A path that is put together from it leads to an entry of the directory, if anywhere. -/
theorem eq_of_buildPath (h : LeadsTo maxLinks t path p) (htree : PartOf tree t)
    (hname : IsComponent name)
    (hq : tree.resolvePath maxLinks false (buildPath path name) = .ok q) : q = name :: p :=
  FileSystem.eq_of_resolvePath_append h.follow htree hname hq

theorem lookup_of_lstat (h : LeadsTo maxLinks t path p) (htree : PartOf tree t)
    (hname : IsComponent name) (he : tree.lstat maxLinks (buildPath path name) = some e) :
    tree.lookup (name :: p) = some e := by
  obtain ⟨q, hq, hlookup⟩ := FileSystem.exists_of_lstat he
  rwa [← h.eq_of_buildPath htree hname hq]

theorem child (h : LeadsTo maxLinks t path p) (htree : PartOf tree t) (hname : IsComponent name)
    (he : tree.lstat maxLinks (buildPath path name) = some .dir) :
    LeadsTo maxLinks t (buildPath path name) (name :: p) := by
  obtain ⟨q, hq, hlookup⟩ := FileSystem.exists_of_lstat he
  obtain rfl := h.eq_of_buildPath htree hname hq
  exact ⟨FileSystem.resolvePath_of_partOf htree hq, htree _ _ hlookup⟩

theorem unlink_of_unlinkPath (h : LeadsTo maxLinks t path p) (htree : PartOf tree t)
    (hname : IsComponent name)
    (hunlink : tree.unlinkPath maxLinks (buildPath path name) = some tree') :
    tree.unlink (name :: p) = some tree' := by
  obtain ⟨q, hq, hunlink⟩ := FileSystem.exists_of_unlinkPath hunlink
  rwa [← h.eq_of_buildPath htree hname hq]

theorem rmdir_of_rmdirPath (h : LeadsTo maxLinks t path p) (htree : PartOf tree t)
    (hrmdir : tree.rmdirPath maxLinks path = some tree') : tree.rmdir p = some tree' := by
  obtain ⟨q, hq, hrmdir⟩ := FileSystem.exists_of_rmdirPath hrmdir
  rwa [← Except.ok.inj ((FileSystem.resolvePath_of_partOf htree hq).symm.trans h.path)]

theorem eq_of_opendir (h : LeadsTo maxLinks t path p) (htree : PartOf tree t)
    (hopen : tree.opendir maxLinks path = some q) : q = p ∧ tree.isDir p = true := by
  obtain ⟨hq, hdir⟩ := FileSystem.opendir_eq_some_iff.mp hopen
  obtain rfl := Except.ok.inj ((FileSystem.resolvePath_of_partOf htree hq).symm.trans h.follow)
  exact ⟨rfl, hdir⟩

end LeadsTo

/-- The node of a place, for the node of a path. -/
structure SameNode (maxLinks : ℕ) (t : FileSystem) (node : DirStackPath) (node' : DirStackNode) :
    Prop where
  leads : LeadsTo maxLinks t node.path node'.path
  dir : node'.dir = node.dir
  phase : node'.isRemovalPhase = node.isRemovalPhase
  stream : ∀ stream, node.dir = some stream → ∀ name ∈ stream, IsDirent name

structure SameState (maxLinks : ℕ) (t : FileSystem) (s : RmRfPathState) (s' : RmRfState) :
    Prop where
  tree : s'.tree = s.tree
  result : s'.result = s.result
  stack : List.Forall₂ (SameNode maxLinks t) s.stack s'.stack
  part : PartOf s.tree t

variable {node : DirStackPath} {node' : DirStackNode} {rest : List DirStackPath}
  {rest' : List DirStackNode} {result : Int} {stream : List CString}

/-- From `readdir` on, the iteration over places does the same with the calls that have
failed. -/
theorem sameState_read (hnode : SameNode maxLinks t node node')
    (hrest : List.Forall₂ (SameNode maxLinks t) rest rest') (htree : PartOf tree t)
    (hstream : ∀ name ∈ stream, IsDirent name) :
    SameState maxLinks t (rmRfPathRead maxLinks f tree result node rest stream).1
      (rmRfRead (rmRfPathRead maxLinks f tree result node rest stream).2 tree result node' rest'
        stream) := by
  have hend : SameState maxLinks t
      ⟨tree, { node with dir := some stream, isRemovalPhase := true } :: rest, result⟩
      ⟨tree, { node' with dir := some stream, isRemovalPhase := true } :: rest', result⟩ :=
    ⟨rfl, rfl, .cons ⟨hnode.leads, rfl, rfl, fun _ heq ↦ Option.some.inj heq ▸ hstream⟩ hrest,
      htree⟩
  cases hread : f.readdir with
  | true => simpa [rmRfPathRead, rmRfRead, hread] using hend
  | false =>
  cases stream with
  | nil => simpa [rmRfPathRead, rmRfRead, hread] using hend
  | cons name names =>
      have hstack (tree : FileSystem) (result : Int) (htree : PartOf tree t) :
          SameState maxLinks t ⟨tree, { node with dir := some names } :: rest, result⟩
            ⟨tree, { node' with dir := some names } :: rest', result⟩ :=
        ⟨rfl, rfl, .cons ⟨hnode.leads, rfl, hnode.phase, fun _ heq ↦ Option.some.inj heq ▸
          fun n hn ↦ hstream n (List.mem_cons_of_mem _ hn)⟩ hrest, htree⟩
      have hbreak : SameState maxLinks t ⟨tree, [], -1⟩ ⟨tree, [], -1⟩ :=
        ⟨rfl, rfl, .nil, htree⟩
      by_cases hdot : name = cstring "." ∨ name = cstring ".."
      · simpa [rmRfPathRead, rmRfRead, hread, hdot] using hstack tree result htree
      have hname : IsComponent name := (hstream name List.mem_cons_self).isComponent hdot
      cases hbuild : f.buildPath with
      | true => simpa [rmRfPathRead, rmRfRead, hread, hdot, hbuild] using hbreak
      | false =>
      cases hlstat : if f.lstat then none else tree.lstat maxLinks (buildPath node.path name) with
      | none =>
          simpa [rmRfPathRead, rmRfRead, hread, hdot, hbuild, hlstat] using hstack tree (-1) htree
      | some e =>
      obtain ⟨-, he⟩ := Option.ite_none_left_eq_some.mp hlstat
      have hlookup := hnode.leads.lookup_of_lstat htree hname he
      cases e with
      | dir =>
          cases hpush : f.pushDir with
          | true =>
              simpa [rmRfPathRead, rmRfRead, hread, hdot, hbuild, hlstat, hlookup, hpush] using
                hbreak
          | false =>
              have hchild : SameNode maxLinks t ⟨buildPath node.path name, none, false⟩
                  ⟨name :: node'.path, none, false⟩ :=
                ⟨hnode.leads.child htree hname he, rfl, rfl, nofun⟩
              have hpushed := hstack tree result htree
              simpa [rmRfPathRead, rmRfRead, hread, hdot, hbuild, hlstat, hlookup, hpush] using
                (⟨rfl, rfl, .cons hchild hpushed.stack, htree⟩ : SameState maxLinks t
                  ⟨tree, ⟨buildPath node.path name, none, false⟩ ::
                    { node with dir := some names } :: rest, result⟩
                  ⟨tree, ⟨name :: node'.path, none, false⟩ ::
                    { node' with dir := some names } :: rest', result⟩)
      | other data =>
          cases hunlink : if f.unlink then none
              else tree.unlinkPath maxLinks (buildPath node.path name) with
          | none =>
              simpa [rmRfPathRead, rmRfRead, hread, hdot, hbuild, hlstat, hlookup, hunlink] using
                hstack tree (-1) htree
          | some tree' =>
              obtain ⟨-, htree'⟩ := Option.ite_none_left_eq_some.mp hunlink
              have hplace := hnode.leads.unlink_of_unlinkPath htree hname htree'
              obtain ⟨-, hentries⟩ := FileTree.entries_of_unlink hplace
              have hpart : PartOf tree' t := (Within.of_filter hentries).partOf.trans htree
              simpa [rmRfPathRead, rmRfRead, hread, hdot, hbuild, hlstat, hlookup, hunlink, hplace]
                using hstack tree' result hpart

theorem isComponent_of_mem_children {t : FileSystem} (hnamed : WellNamed t) (htree : PartOf tree t)
    (h : name ∈ tree.children p) : IsComponent name := by
  obtain ⟨e, he⟩ := Option.ne_none_iff_exists'.mp (tree.mem_children.mp h)
  exact hnamed.isComponent (htree _ _ he ▸ Option.some_ne_none e)

theorem isDirent_of_mem_stream {t : FileSystem} (hnamed : WellNamed t) (htree : PartOf tree t) :
    ∀ name ∈ cstring "." :: cstring ".." :: tree.children p, IsDirent name := by
  intro name hname
  rcases List.mem_cons.mp hname with rfl | hname
  · exact .inl rfl
  rcases List.mem_cons.mp hname with rfl | hname
  · exact .inr (.inl rfl)
  · exact .inr (.inr (isComponent_of_mem_children hnamed htree hname))

theorem opendir_rmRfPathRead :
    (rmRfPathRead maxLinks f tree result node rest stream).2.opendir = false := by
  unfold rmRfPathRead
  dsimp only
  repeat' (first | rfl | split)

variable {s : RmRfPathState} {s' : RmRfState}

theorem sameState_step (h : SameState maxLinks t s s') (hnamed : WellNamed t) (f : RmRfFaults) :
    SameState maxLinks t (rmRfPathStep maxLinks f s).1
      (rmRfStep (rmRfPathStep maxLinks f s).2 s') := by
  obtain ⟨tree, stack, result⟩ := s
  obtain ⟨tree', stack', result'⟩ := s'
  obtain ⟨htree, hresult, hstack, hpart⟩ := h
  dsimp only at htree hresult hstack hpart
  subst tree' result'
  cases hstack with
  | nil => exact ⟨rfl, rfl, .nil, hpart⟩
  | @cons node node' rest rest' hnode hrest =>
      have hpop : SameState maxLinks t ⟨tree, rest, -1⟩ ⟨tree, rest', -1⟩ :=
        ⟨rfl, rfl, hrest, hpart⟩
      cases hphase : node.isRemovalPhase with
      | true =>
          have hphase' := hnode.phase.trans hphase
          cases hrmdir : if f.rmdir then none else tree.rmdirPath maxLinks node.path with
          | none => simpa [rmRfPathStep, rmRfStep, hphase, hphase', hrmdir] using hpop
          | some tree' =>
              obtain ⟨-, htree'⟩ := Option.ite_none_left_eq_some.mp hrmdir
              have hplace := hnode.leads.rmdir_of_rmdirPath hpart htree'
              obtain ⟨-, hentries⟩ := FileTree.entries_of_rmdir hplace
              have hpart' : PartOf tree' t := (Within.of_filter hentries).partOf.trans hpart
              simpa [rmRfPathStep, rmRfStep, hphase, hphase', hrmdir, hplace] using
                (⟨rfl, rfl, hrest, hpart'⟩ :
                  SameState maxLinks t ⟨tree', rest, result⟩ ⟨tree', rest', result⟩)
      | false =>
          have hphase' := hnode.phase.trans hphase
          cases hdir : node.dir with
          | some stream =>
              have hdir' := hnode.dir.trans hdir
              simpa [rmRfPathStep, rmRfStep, hphase, hphase', hdir, hdir'] using
                sameState_read hnode hrest hpart (hnode.stream stream hdir)
          | none =>
              have hdir' := hnode.dir.trans hdir
              cases hopen : if f.opendir then none else tree.opendir maxLinks node.path with
              | none =>
                  simpa [rmRfPathStep, rmRfStep, hphase, hphase', hdir, hdir', hopen] using hpop
              | some q =>
                  obtain ⟨-, hq⟩ := Option.ite_none_left_eq_some.mp hopen
                  obtain ⟨rfl, hisDir⟩ := hnode.leads.eq_of_opendir hpart hq
                  simpa [rmRfPathStep, rmRfStep, hphase, hphase', hdir, hdir', hopen, hisDir,
                    opendir_rmRfPathRead] using sameState_read hnode hrest hpart
                      (isDirent_of_mem_stream hnamed hpart)

/-- A run over paths is a run over places in which the same calls fail. -/
theorem sameState_loop (faults : ℕ → RmRfFaults) (hnamed : WellNamed t)
    (h : LeadsTo maxLinks t path p) (k : ℕ) :
    SameState maxLinks t (rmRfPathLoop maxLinks faults (rmRfPathStart path t) k)
      (rmRfLoop (failedCalls maxLinks faults path t) 1 k ⟨t, [⟨p, none, false⟩], 0⟩) := by
  induction k with
  | zero =>
      exact ⟨rfl, rfl, .cons ⟨h, rfl, rfl, nofun⟩ .nil, fun _ _ h ↦ h⟩
  | succ k ih =>
      rw [rmRfLoop_add, Nat.add_comm 1 k]
      exact sameState_step ih hnamed _

end Simulation

section Undisturbed

open FileTree (PartOf Within)

variable {maxLinks : ℕ} {t tree : FileSystem} {path name : CString} {first p : List CString}
  {node : DirStackPath} {node' : DirStackNode} {rest : List DirStackPath}
  {rest' : List DirStackNode} {result : Int} {stream : List CString}

/-- A path to a place in the directory `first` that leads there as long as it is there, however
much of that directory has been removed. -/
structure Steady (maxLinks : ℕ) (t : FileSystem) (first : List CString) (path : CString)
    (p : List CString) : Prop where
  below : first <:+ p
  locate : ∀ tree : FileSystem, PartOf (t.emptied first) tree → tree.lookup p = some .dir →
    tree.locate maxLinks path = some p

namespace Steady

theorem follow (h : Steady maxLinks t first path p) (hpart : PartOf (t.emptied first) tree)
    (hdir : tree.lookup p = some .dir) : tree.resolvePath maxLinks true path = .ok p :=
  FileSystem.resolvePath_true_of_isDir
    (FileSystem.resolvePath_of_locate (h.locate tree hpart hdir) hdir (.inl rfl))
    (tree.isDir_iff.mpr hdir)

theorem child (h : Steady maxLinks t first path p) (hname : IsComponent name) :
    Steady maxLinks t first (buildPath path name) (name :: p) := by
  refine ⟨h.below.trans (List.suffix_cons name p), fun tree hpart hdir ↦ ?_⟩
  have hparent : tree.lookup p = some .dir :=
    tree.lookup_parent (hdir ▸ Option.some_ne_none _ : tree.lookup (name :: p) ≠ none)
  exact FileSystem.locate_append hname (h.follow hpart hparent)

/-- What has been emptied is still there as long as the place is. -/
theorem partOf (h : Steady maxLinks t first path p) (hwithin : Within first t tree)
    (hdir : tree.lookup p = some .dir) : PartOf (t.emptied first) tree := by
  apply hwithin.emptied_partOf
  by_cases hp : p = first
  · simp [← hp, hdir]
  · have hentry : tree.lookup p ≠ none := by simp [hdir]
    simp [tree.lookup_of_below hentry h.below hp]

end Steady

/-- A run over paths with a run over places so far, and no call over paths has failed. -/
structure Undisturbed (maxLinks : ℕ) (t : FileSystem) (first : List CString) (s : RmRfPathState)
    (s' : RmRfState) : Prop where
  within : Within first t s.tree
  steady : List.Forall₂ (fun node node' ↦ Steady maxLinks t first node.path node'.path) s.stack
    s'.stack

/-- From `readdir` on no call fails when none does over places. -/
theorem undisturbed_read (hsteady : Steady maxLinks t first node.path node'.path)
    (hrest : List.Forall₂ (fun node node' ↦ Steady maxLinks t first node.path node'.path) rest
      rest')
    (hwithin : Within first t tree) (hstream : ∀ name ∈ stream, IsDirent name)
    (hok : (rmRfRead {} tree result node' rest' stream).result ≠ -1) :
    (rmRfPathRead maxLinks {} tree result node rest stream).2 = {} ∧
      Undisturbed maxLinks t first (rmRfPathRead maxLinks {} tree result node rest stream).1
        (rmRfRead {} tree result node' rest' stream) := by
  cases stream with
  | nil => exact ⟨rfl, hwithin, .cons hsteady hrest⟩
  | cons name names =>
      by_cases hdot : name = cstring "." ∨ name = cstring ".."
      · simpa [rmRfPathRead, rmRfRead, hdot] using
          (⟨hwithin, .cons hsteady hrest⟩ : Undisturbed maxLinks t first
            ⟨tree, { node with dir := some names } :: rest, result⟩
            ⟨tree, { node' with dir := some names } :: rest', result⟩)
      have hname : IsComponent name := (hstream name List.mem_cons_self).isComponent hdot
      cases hlookup : tree.lookup (name :: node'.path) with
      | none => simp [rmRfRead, hdot, hlookup] at hok
      | some e =>
      have hentry : tree.lookup (name :: node'.path) ≠ none := by simp [hlookup]
      have hdir := tree.lookup_parent hentry
      have hpath := hsteady.follow (hsteady.partOf hwithin hdir) hdir
      have hlstat : tree.lstat maxLinks (buildPath node.path name) =
          tree.lookup (name :: node'.path) := FileSystem.lstat_append hname hpath
      have hunlink : tree.unlinkPath maxLinks (buildPath node.path name) =
          tree.unlink (name :: node'.path) := FileSystem.unlinkPath_append hname hpath
      cases e with
      | dir =>
          simpa [rmRfPathRead, rmRfRead, hdot, hlstat, hlookup] using
            (⟨hwithin, .cons (hsteady.child hname) (.cons hsteady hrest)⟩ :
              Undisturbed maxLinks t first
                ⟨tree, ⟨buildPath node.path name, none, false⟩ ::
                  { node with dir := some names } :: rest, result⟩
                ⟨tree, ⟨name :: node'.path, none, false⟩ ::
                  { node' with dir := some names } :: rest', result⟩)
      | other data =>
          cases hplace : tree.unlink (name :: node'.path) with
          | none => simp [rmRfRead, hdot, hlookup, hplace] at hok
          | some tree' =>
              obtain ⟨-, hentries⟩ := FileTree.entries_of_unlink hplace
              have hwithin' : Within first t tree' := hwithin.trans
                ((Within.of_filter hentries).mono (hsteady.child hname).below)
              simpa [rmRfPathRead, rmRfRead, hdot, hlstat, hlookup, hunlink, hplace] using
                (⟨hwithin', .cons hsteady hrest⟩ : Undisturbed maxLinks t first
                  ⟨tree', { node with dir := some names } :: rest, result⟩
                  ⟨tree', { node' with dir := some names } :: rest', result⟩)

variable {s : RmRfPathState} {s' : RmRfState}

theorem undisturbed_step (h : Undisturbed maxLinks t first s s') (hsame : SameState maxLinks t s s')
    (hnamed : WellNamed t) (hok : (rmRfStep {} s').result ≠ -1) :
    (rmRfPathStep maxLinks {} s).2 = {} ∧
      Undisturbed maxLinks t first (rmRfPathStep maxLinks {} s).1 (rmRfStep {} s') := by
  obtain ⟨tree, stack, result⟩ := s
  obtain ⟨tree', stack', result'⟩ := s'
  obtain ⟨htree, hresult, hstack, hpart⟩ := hsame
  obtain ⟨hwithin, hsteady⟩ := h
  dsimp only at htree hresult hstack hpart hwithin hsteady
  subst tree' result'
  cases hstack with
  | nil => exact ⟨rfl, hwithin, .nil⟩
  | @cons node node' rest rest' hnode hrest =>
      obtain ⟨hfirst, hrest⟩ := List.forall₂_cons.mp hsteady
      cases hphase : node.isRemovalPhase with
      | true =>
          have hphase' := hnode.phase.trans hphase
          cases hplace : tree.rmdir node'.path with
          | none => simp [rmRfStep, hphase', hplace] at hok
          | some tree' =>
              obtain ⟨⟨hdir, -⟩, hentries⟩ := FileTree.entries_of_rmdir hplace
              have hrmdir : tree.rmdirPath maxLinks node.path = some tree' := by
                rw [FileSystem.rmdirPath, hfirst.locate tree (hfirst.partOf hwithin hdir) hdir,
                  Option.bind_some, hplace]
              have hwithin' : Within first t tree' :=
                hwithin.trans ((Within.of_filter hentries).mono hfirst.below)
              simpa [rmRfPathStep, rmRfStep, hphase, hphase', hrmdir, hplace] using
                (⟨hwithin', hrest⟩ :
                  Undisturbed maxLinks t first ⟨tree', rest, result⟩ ⟨tree', rest', result⟩)
      | false =>
          have hphase' := hnode.phase.trans hphase
          cases hstream : node.dir with
          | some stream =>
              have hstream' := hnode.dir.trans hstream
              have hread : rmRfStep {} ⟨tree, node' :: rest', result⟩ =
                  rmRfRead {} tree result node' rest' stream := by
                simp [rmRfStep, hphase', hstream']
              rw [hread] at hok ⊢
              simpa [rmRfPathStep, hphase, hstream] using
                undisturbed_read hfirst hrest hwithin (hnode.stream stream hstream) hok
          | none =>
              have hstream' := hnode.dir.trans hstream
              cases hdir : tree.isDir node'.path with
              | false => simp [rmRfStep, hphase', hstream', hdir] at hok
              | true =>
                  have hlookup := tree.isDir_iff.mp hdir
                  have hopen : tree.opendir maxLinks node.path = some node'.path :=
                    FileSystem.opendir_eq_some_iff.mpr
                      ⟨hfirst.follow (hfirst.partOf hwithin hlookup) hlookup, hdir⟩
                  have hread : rmRfStep {} ⟨tree, node' :: rest', result⟩ =
                      rmRfRead {} tree result node' rest'
                        (cstring "." :: cstring ".." :: tree.children node'.path) := by
                    simp [rmRfStep, hphase', hstream', hdir]
                  rw [hread] at hok ⊢
                  simpa [rmRfPathStep, hphase, hstream, hopen] using
                    undisturbed_read hfirst hrest hwithin
                      (isDirent_of_mem_stream hnamed hpart) hok

theorem rmRfRead_of_result {f : RmRfFaults} :
    (rmRfRead f tree (-1) node' rest' stream).result = -1 := by
  unfold rmRfRead
  dsimp only
  repeat' (first | rfl | split)

/-- A failed run stays failed. -/
theorem rmRfStep_of_result {f : RmRfFaults} (h : s'.result = -1) :
    (rmRfStep f s').result = -1 := by
  obtain ⟨tree, stack, result⟩ := s'
  obtain rfl : result = -1 := h
  unfold rmRfStep
  repeat' (first | rfl | exact rmRfRead_of_result | split)

theorem rmRfLoop_of_result (faults : ℕ → RmRfFaults) (k i : ℕ) (h : s'.result = -1) :
    (rmRfLoop faults i k s').result = -1 := by
  induction k generalizing i s' with
  | zero => exact h
  | succ k ih => exact ih (i + 1) (rmRfStep_of_result h)

/-- Without failures the directory is removed, so the run has failed nowhere. -/
theorem result_rmRfLoop_ne (hnamed : WellNamed t) (hdir : t.lookup p = some .dir) (hp : p ≠ [])
    (k : ℕ) : (rmRfLoop noRmRfFaults 1 k ⟨t, [⟨p, none, false⟩], 0⟩).result ≠ -1 := by
  obtain ⟨failed, hvisited, hclean⟩ := rmRfLoop_stack noRmRfFaults hdir
  obtain rfl := hclean rfl hp (hnamed.noDots p)
  have hnil := hvisited.stack.elim id And.left
  intro hfailed
  have hend := rmRfLoop_of_result noRmRfFaults (5 * t.entries.length + 4) (1 + k) hfailed
  rw [← rmRfLoop_add, Nat.add_comm k, rmRfLoop_add, rmRfLoop_nil _ _ _ hnil,
    hvisited.result] at hend
  cases hend

theorem undisturbed_loop (hnamed : WellNamed t) (h : LeadsTo maxLinks t path p) (hp : p ≠ [])
    (hlocate : FileSystem.locate maxLinks (t.emptied p) path = some p) (k : ℕ) :
    SameState maxLinks t (rmRfPathLoop maxLinks noRmRfFaults (rmRfPathStart path t) k)
        (rmRfLoop noRmRfFaults 1 k ⟨t, [⟨p, none, false⟩], 0⟩) ∧
      Undisturbed maxLinks t p (rmRfPathLoop maxLinks noRmRfFaults (rmRfPathStart path t) k)
        (rmRfLoop noRmRfFaults 1 k ⟨t, [⟨p, none, false⟩], 0⟩) ∧
      failedCalls maxLinks noRmRfFaults path t (k + 1) = {} := by
  have hnext (k : ℕ) : rmRfLoop noRmRfFaults 1 (k + 1) ⟨t, [⟨p, none, false⟩], 0⟩ =
      rmRfStep {} (rmRfLoop noRmRfFaults 1 k ⟨t, [⟨p, none, false⟩], 0⟩) := by
    rw [rmRfLoop_add]
    rfl
  have hok (k : ℕ) := hnext k ▸ result_rmRfLoop_ne hnamed h.dir hp (k + 1)
  induction k with
  | zero =>
      have hsame : SameState maxLinks t (rmRfPathStart path t) ⟨t, [⟨p, none, false⟩], 0⟩ :=
        ⟨rfl, rfl, .cons ⟨h, rfl, rfl, nofun⟩ .nil, .refl t⟩
      have hsteady : Steady maxLinks t p path p :=
        ⟨List.suffix_rfl, fun tree hpart _ ↦ FileSystem.locate_of_partOf hpart hlocate⟩
      have hundisturbed : Undisturbed maxLinks t p (rmRfPathStart path t)
          ⟨t, [⟨p, none, false⟩], 0⟩ := ⟨.refl p t, .cons hsteady .nil⟩
      exact ⟨hsame, hundisturbed, (undisturbed_step hundisturbed hsame hnamed (hok 0)).1⟩
  | succ k ih =>
      obtain ⟨hsame, hundisturbed, -⟩ := ih
      obtain ⟨hnone, hundisturbed'⟩ := undisturbed_step hundisturbed hsame hnamed (hok k)
      have hsame' := sameState_step hsame hnamed {}
      rw [hnone, ← hnext] at hsame'
      rw [← hnext] at hundisturbed'
      exact ⟨hsame', hundisturbed', (undisturbed_step hundisturbed' hsame' hnamed (hok (k + 1))).1⟩

/-- When no failure comes from outside, no call fails, as each finds what it is to remove. The
path must not lead through the directory itself, of which little is left by the last call. -/
theorem failedCalls_noRmRfFaults (hnamed : WellNamed t) (h : LeadsTo maxLinks t path p)
    (hlocate : FileSystem.locate maxLinks (t.emptied p) path = some p) :
    failedCalls maxLinks noRmRfFaults path t = noRmRfFaults := by
  obtain ⟨-, name, q, -, -, -, rfl⟩ := FileSystem.exists_of_locate hlocate
  funext i
  cases i with
  | zero =>
      have hlstat := (FileSystem.lstat_of_resolvePath h.path).trans h.dir
      simp [failedCalls, noRmRfFaults, hlstat]
  | succ i => exact (undisturbed_loop hnamed h (List.cons_ne_nil name q) hlocate i).2.2

end Undisturbed

section Result

open FileTree (PartOf Within)

variable {maxLinks : ℕ} {faults : ℕ → RmRfFaults} {t tree : FileSystem} {f : RmRfFaults}
  {path : CString} {p : List CString} {node : DirStackPath} {rest : List DirStackPath}
  {result : Int} {stream : List CString}

/-- `rm_rf` of a path is `rm_rf` of the place to which it leads, with the calls that fail. -/
theorem rmRfPath_eq (faults : ℕ → RmRfFaults) (hnamed : WellNamed t)
    (h : t.resolvePath maxLinks false path = .ok p) :
    rmRfPath maxLinks faults (some path) t = rmRf (failedCalls maxLinks faults path t) p t := by
  have hlookup := FileSystem.lstat_of_resolvePath h
  rw [rmRfPath, rmRf, failedCalls]
  dsimp only
  cases hlstat : if (faults 0).lstat then none else t.lstat maxLinks path with
  | none => simp
  | some e =>
      obtain ⟨-, he⟩ := Option.ite_none_left_eq_some.mp hlstat
      rw [hlookup] at he
      cases e with
      | dir =>
          cases hpush : (faults 0).pushDir with
          | true => simp [he]
          | false =>
              obtain ⟨htree, hresult, -, -⟩ := sameState_loop faults hnamed ⟨h, he⟩
                (5 * t.entries.length + 4)
              simp [he, htree, hresult]
      | other data =>
          cases hunlink : if (faults 0).unlink then none else t.unlinkPath maxLinks path with
          | none => simp [he]
          | some t' =>
              obtain ⟨-, ht'⟩ := Option.ite_none_left_eq_some.mp hunlink
              obtain ⟨q, hq, hplace⟩ := FileSystem.exists_of_unlinkPath ht'
              obtain rfl : q = p := Except.ok.inj (hq.symm.trans h)
              simp [he, hplace]

/-- Whatever fails, nothing outside the tree to which the path leads is removed, and 0 is
returned exactly when nothing is left of it. -/
theorem rmRfPath_result (maxLinks : ℕ) (faults : ℕ → RmRfFaults) (hnamed : WellNamed t)
    (h : t.resolvePath maxLinks false path = .ok p) :
    RmRfResult (failedCalls maxLinks faults path t) p t
      (rmRfPath maxLinks faults (some path) t).1 (rmRfPath maxLinks faults (some path) t).2 := by
  rw [rmRfPath_eq faults hnamed h]
  exact rmRf_result _ p t

theorem rmRfPath_eq_removeTree (hnamed : WellNamed t)
    (h : t.resolvePath maxLinks false path = .ok p)
    (hzero : (rmRfPath maxLinks faults (some path) t).1 = 0) :
    (rmRfPath maxLinks faults (some path) t).2 = t.removeTree p := by
  rw [rmRfPath_eq faults hnamed h] at hzero ⊢
  exact rmRf_eq_removeTree hzero

/-- The loop ends within the iterations that it is given. -/
theorem stack_rmRfPathLoop (faults : ℕ → RmRfFaults) (hnamed : WellNamed t)
    (h : LeadsTo maxLinks t path p) :
    (rmRfPathLoop maxLinks faults (rmRfPathStart path t)
      (5 * t.entries.length + 4)).stack = [] := by
  have hsame := sameState_loop faults hnamed h (5 * t.entries.length + 4)
  obtain ⟨failed, hvisited, -⟩ := rmRfLoop_stack (failedCalls maxLinks faults path t) h.dir
  have hnil := hvisited.stack.elim id And.left
  have hstack := hsame.stack
  rw [hnil] at hstack
  exact List.forall₂_nil_right_iff.mp hstack

theorem result_rmRfPathRead
    (h : (rmRfPathRead maxLinks f tree result node rest stream).2 = {}) :
    (rmRfPathRead maxLinks f tree result node rest stream).1.result = result := by
  revert h
  unfold rmRfPathRead
  dsimp only
  repeat' (first | exact fun _ ↦ rfl | (intro h; cases h) | split)

theorem result_rmRfPathStep {s : RmRfPathState} (h : (rmRfPathStep maxLinks f s).2 = {}) :
    (rmRfPathStep maxLinks f s).1.result = s.result := by
  revert h
  unfold rmRfPathStep
  repeat' (first | exact fun _ ↦ rfl | exact result_rmRfPathRead | (intro h; cases h) | split)

theorem result_rmRfPathLoop (h : failedCalls maxLinks faults path t = noRmRfFaults) (k : ℕ) :
    (rmRfPathLoop maxLinks faults (rmRfPathStart path t) k).result = 0 := by
  induction k with
  | zero => rfl
  | succ k ih =>
      have hstep : failedCalls maxLinks faults path t (k + 1) = {} := by rw [h, noRmRfFaults]
      exact (result_rmRfPathStep hstep).trans ih

/-- When no call fails, `rm_rf` returns 0. -/
theorem rmRfPath_of_failedCalls (h : failedCalls maxLinks faults path t = noRmRfFaults) :
    (rmRfPath maxLinks faults (some path) t).1 = 0 := by
  have hfirst : failedCalls maxLinks faults path t 0 = {} := by rw [h, noRmRfFaults]
  have hloop := result_rmRfPathLoop h (5 * t.entries.length + 4)
  rw [failedCalls] at hfirst
  rw [rmRfPath]
  dsimp only
  cases hlstat : if (faults 0).lstat then none else t.lstat maxLinks path with
  | none => simp [hlstat] at hfirst
  | some e =>
      cases e with
      | dir =>
          have hpush : (faults 0).pushDir = false := by simpa [hlstat] using hfirst
          simp [hpush, hloop]
      | other data =>
          cases hunlink : if (faults 0).unlink then none else t.unlinkPath maxLinks path with
          | none => simp [hlstat, hunlink] at hfirst
          | some t' => rfl

/-- When no failure comes from outside, none comes from within. -/
theorem rmRfPath_noRmRfFaults (hnamed : WellNamed t)
    (h : t.resolvePath maxLinks false path = .ok p)
    (hlocate : t.lookup p = some .dir →
      FileSystem.locate maxLinks (t.emptied p) path = some p) :
    (rmRfPath maxLinks noRmRfFaults (some path) t).1 = 0 := by
  have hlstat := FileSystem.lstat_of_resolvePath h
  obtain ⟨e, he⟩ := FileSystem.exists_of_lookup h
  cases e with
  | dir =>
      exact rmRfPath_of_failedCalls (failedCalls_noRmRfFaults hnamed ⟨h, he⟩ (hlocate he))
  | other data =>
      have hnotDir : t.isDir p = false := by
        rw [Bool.eq_false_iff, Ne, t.isDir_iff, he]
        exact nofun
      have hunlink := FileSystem.unlinkPath_of_isDir_eq_false h hnotDir
      have hplace : (t.unlink p).isSome = true := by
        simp [FileTree.unlink, t.isOther_iff.mpr ⟨data, he⟩]
      obtain ⟨t', ht'⟩ := Option.isSome_iff_exists.mp hplace
      simp [rmRfPath, noRmRfFaults, hlstat, he, hunlink, ht']

/-- `rm_rf` of a path that leads to `p`. Whatever fails, the loop ends, and nothing outside
the tree at `p` is removed; the return value is 0 exactly when nothing is left of that tree,
and when no call fails it is 0. -/
structure RemovesExactly (maxLinks : ℕ) (faults : ℕ → RmRfFaults) (path : CString)
    (t : FileSystem) (p : List CString) (rc : Int) (t' : FileSystem) : Prop where
  ends : t.lookup p = some .dir →
    (rmRfPathLoop maxLinks faults (rmRfPathStart path t) (5 * t.entries.length + 4)).stack = []
  within : Within p t t'
  ret : rc = 0 ∨ rc = -1
  gone : rc = 0 ↔ t'.lookup p = none
  removed : rc = 0 → t' = t.removeTree p ∧ ∀ q, t'.resolvePath maxLinks false path ≠ .ok q
  /-- A path that does not lead through the tree at its end still leads there. -/
  stays : rc = -1 → FileSystem.resolvePath maxLinks (t.emptied p) false path = .ok p →
    t'.resolvePath maxLinks false path = .ok p
  succeeds : failedCalls maxLinks faults path t = noRmRfFaults → rc = 0
  /-- No call fails by itself, unless the path goes through the directory that it removes. -/
  unhindered : faults = noRmRfFaults → (t.lookup p = some .dir →
    FileSystem.locate maxLinks (t.emptied p) path = some p) → rc = 0

theorem removesExactly_rmRfPath (maxLinks : ℕ) (faults : ℕ → RmRfFaults) (hnamed : WellNamed t)
    (h : t.resolvePath maxLinks false path = .ok p) :
    RemovesExactly maxLinks faults path t p (rmRfPath maxLinks faults (some path) t).1
      (rmRfPath maxLinks faults (some path) t).2 := by
  obtain ⟨hwithin, hret, hgone, -, -⟩ := rmRfPath_result maxLinks faults hnamed h
  obtain ⟨e, he⟩ := FileSystem.exists_of_lookup h
  have hiff := hgone (by simp [he])
  refine ⟨fun hdir ↦ stack_rmRfPathLoop faults hnamed ⟨h, hdir⟩, hwithin, hret, hiff,
    fun hrc ↦ ⟨rmRfPath_eq_removeTree hnamed h hrc, ?_⟩, ?_, rmRfPath_of_failedCalls, ?_⟩
  · intro q hq
    obtain ⟨e, he⟩ := FileSystem.exists_of_lookup hq
    have hsame := (FileSystem.resolvePath_of_partOf hwithin.partOf hq).symm.trans h
    rw [Except.ok.inj hsame, hiff.mp hrc] at he
    cases he
  · intro hrc hsteady
    have hleft : (rmRfPath maxLinks faults (some path) t).2.lookup p ≠ none := by
      rw [Ne, ← hiff, hrc]
      decide
    exact FileSystem.resolvePath_of_partOf (hwithin.emptied_partOf hleft) hsteady
  · rintro rfl
    exact rmRfPath_noRmRfFaults hnamed h

/-- A directory with a file and two links, one to the root above it and one to a directory
beside it that has a file of its own. -/
def linkedEntries : List (List CString × FileEntry FileData) :=
  [([cstring "d"], .dir),
    ([cstring "file", cstring "d"], .other (.regular [])),
    ([cstring "up", cstring "d"], .other (.symlink (cstring ".."))),
    ([cstring "out", cstring "d"], .other (.symlink (cstring "/e"))),
    ([cstring "e"], .dir),
    ([cstring "file", cstring "e"], .other (.regular []))]

def linkedTree : FileSystem where
  entries := linkedEntries
  nodup := by decide
  named := by decide
  parent n p e h := by
    have hparents : ∀ x ∈ linkedEntries, x.1.tail = [] ∨ (x.1.tail, .dir) ∈ linkedEntries := by
      decide
    exact hparents (n :: p, e) h

theorem wellNamed_linkedTree : WellNamed linkedTree := by decide

theorem removesExactly_linkedTree :
    RemovesExactly 40 noRmRfFaults (cstring "e/../d") linkedTree [cstring "d"]
      (rmRfPath 40 noRmRfFaults (some (cstring "e/../d")) linkedTree).1
      (rmRfPath 40 noRmRfFaults (some (cstring "e/../d")) linkedTree).2 :=
  removesExactly_rmRfPath 40 noRmRfFaults wellNamed_linkedTree (by decide)

end Result

section Untouched

open FileTree (PartOf Within)

variable {maxLinks : ℕ} {t tree tree' : FileSystem} {f : RmRfFaults} {path : CString}
  {p : List CString} {node : DirStackPath} {rest : List DirStackPath} {result : Int}
  {stream : List CString} {s : RmRfPathState}

theorem length_of_unlinkPath (h : tree.unlinkPath maxLinks path = some tree') :
    tree'.entries.length < tree.entries.length := by
  obtain ⟨p, hp, hunlink⟩ := FileSystem.exists_of_unlinkPath h
  obtain ⟨⟨data, hdata⟩, hentries⟩ := FileTree.entries_of_unlink hunlink
  have hne : p ≠ [] := by
    rintro rfl
    simp at hdata
  rw [hentries]
  exact List.length_filter_lt_length_iff_exists.mpr ⟨_, tree.mem_of_lookup hne hdata, by simp⟩

theorem length_of_rmdirPath (h : tree.rmdirPath maxLinks path = some tree') :
    tree'.entries.length < tree.entries.length := by
  obtain ⟨p, hp, hrmdir⟩ := FileSystem.exists_of_rmdirPath h
  obtain ⟨⟨hdir, -⟩, hentries⟩ := FileTree.entries_of_rmdir hrmdir
  have hne : p ≠ [] := by
    rintro rfl
    simp [FileTree.rmdir] at hrmdir
  rw [hentries]
  exact List.length_filter_lt_length_iff_exists.mpr ⟨_, tree.mem_of_lookup hne hdir, by simp⟩

theorem length_rmRfPathRead :
    (rmRfPathRead maxLinks f tree result node rest stream).1.tree.entries.length ≤
      tree.entries.length := by
  have hunlink {path : CString} {tree' : FileSystem}
      (h : (if f.unlink then none else tree.unlinkPath maxLinks path) = some tree') :
      tree'.entries.length ≤ tree.entries.length :=
    (length_of_unlinkPath (Option.ite_none_left_eq_some.mp h).2).le
  unfold rmRfPathRead
  dsimp only
  repeat' (first | exact le_rfl | exact hunlink ‹_› | split)

/-- An iteration adds no entries. -/
theorem length_rmRfPathStep (maxLinks : ℕ) (f : RmRfFaults) (s : RmRfPathState) :
    (rmRfPathStep maxLinks f s).1.tree.entries.length ≤ s.tree.entries.length := by
  have hrmdir {path : CString} {tree' : FileSystem}
      (h : (if f.rmdir then none else s.tree.rmdirPath maxLinks path) = some tree') :
      tree'.entries.length ≤ s.tree.entries.length :=
    (length_of_rmdirPath (Option.ite_none_left_eq_some.mp h).2).le
  unfold rmRfPathStep
  repeat' (first | exact le_rfl | exact hrmdir ‹_› | exact length_rmRfPathRead | split)

/-- Nothing has been removed yet, and of the directory on top of the stack no entry has been
read. -/
structure Untouched (maxLinks : ℕ) (t : FileSystem) (s : RmRfPathState) (node : DirStackPath)
    (p : List CString) : Prop where
  tree : s.tree = t
  stack : s.stack.head? = some node
  leads : LeadsTo maxLinks t node.path p
  located : t.locate maxLinks node.path = some p
  empty : node.isRemovalPhase = true → t.children p = []
  unread : ∀ stream, node.dir = some stream → (∀ name ∈ t.children p, name ∈ stream) ∧
    ∀ name ∈ stream, name = cstring "." ∨ name = cstring ".." ∨ name ∈ t.children p

/-- From `readdir` on, something is removed or a directory is entered, unless there is nothing
to read. -/
theorem untouched_read (result : Int) (rest : List DirStackPath) (hnamed : WellNamed t) (hphase : node.isRemovalPhase = false)
    (hleads : LeadsTo maxLinks t node.path p) (hlocated : t.locate maxLinks node.path = some p)
    (hall : ∀ name ∈ t.children p, name ∈ stream)
    (honly : ∀ name ∈ stream, name = cstring "." ∨ name = cstring ".." ∨ name ∈ t.children p) :
    (∃ node' p', Untouched maxLinks t (rmRfPathRead maxLinks {} t result node rest stream).1
        node' p') ∨
      (rmRfPathRead maxLinks {} t result node rest stream).1.tree.entries.length <
        t.entries.length := by
  cases stream with
  | nil =>
      have hnil : t.children p = [] := List.eq_nil_iff_forall_not_mem.mpr fun name hname ↦
        List.not_mem_nil (hall name hname)
      exact .inl ⟨_, p, rfl, rfl, hleads, hlocated, fun _ ↦ hnil, fun _ heq ↦
        Option.some.inj heq ▸ ⟨hall, honly⟩⟩
  | cons name names =>
      have hcomponent {n : CString} (hn : n ∈ t.children p) : IsComponent n :=
        isComponent_of_mem_children hnamed (.refl t) hn
      by_cases hdot : name = cstring "." ∨ name = cstring ".."
      · have hrest : ∀ n ∈ t.children p, n ∈ names := fun n hn ↦ by
          refine (List.mem_cons.mp (hall n hn)).resolve_left ?_
          rintro rfl
          exact hdot.elim (hcomponent hn).ne_dot (hcomponent hn).ne_dots
        have hread : (rmRfPathRead maxLinks {} t result node rest (name :: names)).1 =
            ⟨t, { node with dir := some names } :: rest, result⟩ := by
          simp [rmRfPathRead, hdot]
        rw [hread]
        refine .inl ⟨_, p, rfl, rfl, hleads, hlocated, fun h ↦ ?_, fun _ heq ↦
          Option.some.inj heq ▸ ⟨hrest, fun n hn ↦ honly n (List.mem_cons_of_mem _ hn)⟩⟩
        exact absurd (hphase.symm.trans h) Bool.false_ne_true
      · have hchild : name ∈ t.children p := by
          rcases honly name List.mem_cons_self with h | h | h
          · exact absurd (.inl h) hdot
          · exact absurd (.inr h) hdot
          · exact h
        have hname := hcomponent hchild
        have hlstat : t.lstat maxLinks (buildPath node.path name) = t.lookup (name :: p) :=
          FileSystem.lstat_append hname hleads.follow
        obtain ⟨e, he⟩ := Option.ne_none_iff_exists'.mp (t.mem_children.mp hchild)
        rw [he] at hlstat
        cases e with
        | dir =>
            have hread : (rmRfPathRead maxLinks {} t result node rest (name :: names)).1 =
                ⟨t, ⟨buildPath node.path name, none, false⟩ ::
                  { node with dir := some names } :: rest, result⟩ := by
              simp [rmRfPathRead, hdot, hlstat]
            rw [hread]
            exact .inl ⟨_, name :: p, rfl, rfl, hleads.child (.refl t) hname hlstat,
              FileSystem.locate_append hname hleads.follow, nofun, nofun⟩
        | other data =>
            have hunlink : t.unlinkPath maxLinks (buildPath node.path name) =
                t.unlink (name :: p) := FileSystem.unlinkPath_append hname hleads.follow
            obtain ⟨tree', htree'⟩ : ∃ tree', t.unlink (name :: p) = some tree' :=
              Option.isSome_iff_exists.mp
                (by simp [FileTree.unlink, t.isOther_iff.mpr ⟨data, he⟩])
            rw [htree'] at hunlink
            have hread : (rmRfPathRead maxLinks {} t result node rest (name :: names)).1 =
                ⟨tree', { node with dir := some names } :: rest, result⟩ := by
              simp [rmRfPathRead, hdot, hlstat, hunlink]
            rw [hread]
            exact .inr (length_of_unlinkPath hunlink)

theorem untouched_step (hnamed : WellNamed t) (h : Untouched maxLinks t s node p) :
    (∃ node' p', Untouched maxLinks t (rmRfPathStep maxLinks {} s).1 node' p') ∨
      (rmRfPathStep maxLinks {} s).1.tree.entries.length < t.entries.length := by
  obtain ⟨tree, stack, result⟩ := s
  obtain ⟨htree, hstack, hleads, hlocated, hempty, hunread⟩ := h
  dsimp only at htree hstack
  subst tree
  obtain ⟨rest, rfl⟩ : ∃ rest, stack = node :: rest := List.head?_eq_some_iff.mp hstack
  cases hphase : node.isRemovalPhase with
  | true =>
      -- the directory is empty, so it is removed
      have hne : p ≠ [] := by
        obtain ⟨-, name, q, -, -, -, rfl⟩ := FileSystem.exists_of_locate hlocated
        exact List.cons_ne_nil name q
      obtain ⟨tree', htree'⟩ : ∃ tree', t.rmdir p = some tree' := Option.isSome_iff_exists.mp
        (by simp [FileTree.rmdir, hne, t.isDir_iff.mpr hleads.dir, hempty hphase])
      have hrmdir : t.rmdirPath maxLinks node.path = some tree' := by
        rw [FileSystem.rmdirPath, hlocated, Option.bind_some, htree']
      have hstep : (rmRfPathStep maxLinks {} ⟨t, node :: rest, result⟩).1 =
          ⟨tree', rest, result⟩ := by
        simp [rmRfPathStep, hphase, hrmdir]
      rw [hstep]
      exact .inr (length_of_rmdirPath hrmdir)
  | false =>
      cases hdir : node.dir with
      | some stream =>
          obtain ⟨hall, honly⟩ := hunread stream hdir
          simpa [rmRfPathStep, hphase, hdir] using
            untouched_read result rest hnamed hphase hleads hlocated hall honly
      | none =>
          have hopen : t.opendir maxLinks node.path = some p :=
            FileSystem.opendir_eq_some_iff.mpr ⟨hleads.follow, t.isDir_iff.mpr hleads.dir⟩
          have hall : ∀ name ∈ t.children p,
              name ∈ cstring "." :: cstring ".." :: t.children p :=
            fun name hname ↦ List.mem_cons_of_mem _ (List.mem_cons_of_mem _ hname)
          simpa [rmRfPathStep, hphase, hdir, hopen] using
            untouched_read result rest hnamed hphase hleads hlocated hall (by simp)

/-- When no failure comes from outside, `rm_rf` of what is there does not leave the file system
as it was. The path may lead through what is removed. -/
theorem rmRfPath_noRmRfFaults_ne (hnamed : WellNamed t)
    (h : t.resolvePath maxLinks false path = .ok p)
    (hlocated : t.lookup p = some .dir → t.locate maxLinks path = some p) :
    (rmRfPath maxLinks noRmRfFaults (some path) t).2 ≠ t := by
  have hlstat := FileSystem.lstat_of_resolvePath h
  obtain ⟨e, he⟩ := FileSystem.exists_of_lookup h
  rw [he] at hlstat
  have hshorter : (rmRfPath maxLinks noRmRfFaults (some path) t).2.entries.length <
      t.entries.length := by
    cases e with
    | other data =>
        have hnotDir : t.isDir p = false := by
          rw [Bool.eq_false_iff, Ne, t.isDir_iff, he]
          simp
        obtain ⟨t', ht'⟩ : ∃ t', t.unlink p = some t' := Option.isSome_iff_exists.mp
          (by simp [FileTree.unlink, t.isOther_iff.mpr ⟨data, he⟩])
        have hunlink := (FileSystem.unlinkPath_of_isDir_eq_false h hnotDir).trans ht'
        have hresult : (rmRfPath maxLinks noRmRfFaults (some path) t).2 = t' := by
          simp [rmRfPath, noRmRfFaults, hlstat, hunlink]
        rw [hresult]
        exact length_of_unlinkPath hunlink
    | dir =>
        have hloop (k : ℕ) :
            (∃ node p', Untouched maxLinks t
              (rmRfPathLoop maxLinks noRmRfFaults (rmRfPathStart path t) k) node p') ∨
            (rmRfPathLoop maxLinks noRmRfFaults (rmRfPathStart path t) k).tree.entries.length <
              t.entries.length := by
          induction k with
          | zero =>
              exact .inl ⟨_, p, rfl, rfl, ⟨h, he⟩, hlocated he,
                fun hphase ↦ absurd hphase Bool.false_ne_true,
                fun _ hdir ↦ absurd hdir.symm (Option.some_ne_none _)⟩
          | succ k ih =>
              rcases ih with ⟨node, p', huntouched⟩ | hless
              · exact untouched_step hnamed huntouched
              · exact .inr ((length_rmRfPathStep maxLinks {} _).trans_lt hless)
        have hends := stack_rmRfPathLoop noRmRfFaults hnamed ⟨h, he⟩
        have hresult : (rmRfPath maxLinks noRmRfFaults (some path) t).2 =
            (rmRfPathLoop maxLinks noRmRfFaults (rmRfPathStart path t)
              (5 * t.entries.length + 4)).tree := by
          simp [rmRfPath, noRmRfFaults, hlstat]
        rw [hresult]
        refine (hloop _).resolve_left ?_
        rintro ⟨node, p', huntouched⟩
        have hstack := huntouched.stack
        rw [hends] at hstack
        cases hstack
  intro heq
  rw [heq] at hshorter
  exact lt_irrefl _ hshorter

/-- A path leads nowhere, and nothing is done, or `rm_rf` removes what it leads to. -/
theorem rmRfPath_cases (maxLinks : ℕ) (faults : ℕ → RmRfFaults) (hnamed : WellNamed t)
    (path : CString) :
    ((∀ p, t.resolvePath maxLinks false path ≠ .ok p) ∧
        rmRfPath maxLinks faults (some path) t = (-1, t)) ∨
      ∃ p, t.resolvePath maxLinks false path = .ok p ∧
        RmRfResult (failedCalls maxLinks faults path t) p t
          (rmRfPath maxLinks faults (some path) t).1
          (rmRfPath maxLinks faults (some path) t).2 := by
  cases hpath : t.resolvePath maxLinks false path with
  | error error =>
      refine .inl ⟨nofun, ?_⟩
      have hlstat : t.lstat maxLinks path = none := by
        simp [FileSystem.lstat, hpath, Except.toOption]
      simp [rmRfPath, hlstat]
  | ok p => exact .inr ⟨p, rfl, rmRfPath_result maxLinks faults hnamed hpath⟩

theorem partOf_rmRfPath (maxLinks : ℕ) (faults : ℕ → RmRfFaults) (hnamed : WellNamed t)
    (path : CString) : PartOf (rmRfPath maxLinks faults (some path) t).2 t := by
  rcases rmRfPath_cases maxLinks faults hnamed path with ⟨-, heq⟩ | ⟨p, -, hresult⟩
  · rw [heq]
    exact .refl t
  · exact hresult.within.partOf

theorem wellNamed_rmRfPath (maxLinks : ℕ) (faults : ℕ → RmRfFaults) (hnamed : WellNamed t)
    (path : CString) : WellNamed (rmRfPath maxLinks faults (some path) t).2 := by
  rcases rmRfPath_cases maxLinks faults hnamed path with ⟨-, heq⟩ | ⟨p, -, hresult⟩
  · rw [heq]
    exact hnamed
  · exact hnamed.of_within hresult.within

/-- The path leads to nothing when `rm_rf` has returned 0. -/
theorem lstat_rmRfPath {faults : ℕ → RmRfFaults} (hnamed : WellNamed t)
    (hrc : (rmRfPath maxLinks faults (some path) t).1 = 0) :
    (rmRfPath maxLinks faults (some path) t).2.lstat maxLinks path = none := by
  rcases rmRfPath_cases maxLinks faults hnamed path with ⟨-, heq⟩ | ⟨p, hp, hresult⟩
  · rw [heq] at hrc
    cases hrc
  · by_contra hlstat
    obtain ⟨e, he⟩ := Option.ne_none_iff_exists'.mp hlstat
    obtain ⟨q, hq, hlookup⟩ := FileSystem.exists_of_lstat he
    obtain rfl : q = p := Except.ok.inj
      ((FileSystem.resolvePath_of_partOf hresult.within.partOf hq).symm.trans hp)
    obtain ⟨e', he'⟩ := FileSystem.exists_of_lookup hp
    rw [(hresult.gone (by simp [he'])).mp hrc] at hlookup
    cases hlookup

theorem lstat_of_partOf (h : PartOf tree' tree) (hlstat : tree.lstat maxLinks path = none) :
    tree'.lstat maxLinks path = none := by
  by_contra hne
  obtain ⟨e, he⟩ := Option.ne_none_iff_exists'.mp hne
  obtain ⟨p, hp, hlookup⟩ := FileSystem.exists_of_lstat he
  rw [FileSystem.lstat_of_resolvePath (FileSystem.resolvePath_of_partOf h hp),
    h _ _ hlookup] at hlstat
  cases hlstat

end Untouched

/-- Whatever is new is a directory, and the names in the file system are components. -/
structure AddsOnlyDirectories (t t' : FileSystem) : Prop where
  named : WellNamed t'
  others : FileTree.OthersOf t' t

namespace AddsOnlyDirectories

variable {maxLinks : ℕ} {t t' t'' : FileSystem} {path : CString}

theorem refl (h : WellNamed t) : AddsOnlyDirectories t t := ⟨h, .refl t⟩

theorem trans (h : AddsOnlyDirectories t t') (h' : AddsOnlyDirectories t' t'') :
    AddsOnlyDirectories t t'' :=
  ⟨h'.named, h'.others.trans h.others⟩

theorem of_mkdirPath (hnamed : WellNamed t) (h : t.mkdirPath maxLinks path = some t') :
    AddsOnlyDirectories t t' := by
  obtain ⟨p, -, hmkdir⟩ := Option.bind_eq_some_iff.mp h
  exact ⟨FileSystem.wellNamed_of_mkdirPath hnamed h, FileTree.othersOf_of_mkdir hmkdir⟩

theorem rmRfPath (maxLinks : ℕ) (faults : ℕ → RmRfFaults) (hnamed : WellNamed t)
    (path : CString) :
    AddsOnlyDirectories t (rmRfPath maxLinks faults (some path) t).2 :=
  ⟨wellNamed_rmRfPath maxLinks faults hnamed path,
    (partOf_rmRfPath maxLinks faults hnamed path).othersOf⟩

/-- No link comes into the way of a path. -/
theorem noLinks (h : AddsOnlyDirectories t t') (hlinks : t.noLinks path = true) :
    t'.noLinks path = true :=
  h.others.linkFree hlinks

end AddsOnlyDirectories

end OcreRuntime
