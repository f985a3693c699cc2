import OcreRuntime.Lib.FileTree
import OcreRuntime.Container.Model

/-!
# Removing a directory tree

The loop of `rm_rf` over its explicit stack, one definition for an iteration and
one for the loop. Any call may fail at any iteration. Links are entries like any
other, as `ocre_lstat` does not follow them.
-/

namespace OcreRuntime

/-- What an entry that is not a directory holds. -/
inductive FileData
  | regular (contents : List UInt8)
  | symlink (target : CString)
  deriving DecidableEq, Repr

abbrev FileSystem := FileTree CString FileData

/-- The components of a path from the last one up. Repeated slashes and `.` are
dropped, `..` goes up, and a relative path starts at the root. If no link is on the way the
path leads there, if anywhere. -/
def pathOf (s : CString) : List CString :=
  (s.splitOn 47).foldl (fun p c ↦
    if c = [] ∨ c = cstring "." then p else if c = cstring ".." then p.tail else c :: p) []

/-- Which of the calls made in one iteration fail. -/
structure RmRfFaults where
  lstat : Bool := false
  unlink : Bool := false
  rmdir : Bool := false
  opendir : Bool := false
  readdir : Bool := false
  buildPath : Bool := false
  pushDir : Bool := false
  deriving DecidableEq, Repr

/-- `struct dir_stack_node`; `dir` is what an open directory stream still returns. -/
structure DirStackNode where
  path : List CString
  dir : Option (List CString)
  isRemovalPhase : Bool

structure RmRfState where
  tree : FileSystem
  stack : List DirStackNode
  result : Int

/-- An iteration from `readdir` on. A `break` leaves the loop and pops the stack. -/
def rmRfRead (f : RmRfFaults) (tree : FileSystem) (result : Int) (node : DirStackNode)
    (rest : List DirStackNode) (stream : List CString) : RmRfState :=
  match if f.readdir then [] else stream with
  | [] => ⟨tree, { node with dir := some stream, isRemovalPhase := true } :: rest, result⟩
  | name :: stream =>
      let stack := { node with dir := some stream } :: rest
      if name = cstring "." ∨ name = cstring ".." then ⟨tree, stack, result⟩
      else if f.buildPath then ⟨tree, [], -1⟩
      else match if f.lstat then none else tree.lookup (name :: node.path) with
        | none => ⟨tree, stack, -1⟩
        | some .dir =>
            if f.pushDir then ⟨tree, [], -1⟩
            else ⟨tree, ⟨name :: node.path, none, false⟩ :: stack, result⟩
        | some (.other _) =>
            match if f.unlink then none else tree.unlink (name :: node.path) with
            | none => ⟨tree, stack, -1⟩
            | some tree => ⟨tree, stack, result⟩

/-- One iteration of `while (stack)`. -/
def rmRfStep (f : RmRfFaults) (s : RmRfState) : RmRfState :=
  match s.stack with
  | [] => s
  | node :: rest =>
      if node.isRemovalPhase then
        match if f.rmdir then none else s.tree.rmdir node.path with
        | none => ⟨s.tree, rest, -1⟩
        | some tree => ⟨tree, rest, s.result⟩
      else match node.dir with
        | none =>
            if f.opendir ∨ ¬ s.tree.isDir node.path then ⟨s.tree, rest, -1⟩
            else rmRfRead f s.tree s.result node rest
              (cstring "." :: cstring ".." :: s.tree.children node.path)
        | some stream => rmRfRead f s.tree s.result node rest stream

/-- `k` iterations, of which the first is number `i`. -/
def rmRfLoop (faults : ℕ → RmRfFaults) : ℕ → ℕ → RmRfState → RmRfState
  | _, 0, s => s
  | i, k + 1, s => rmRfLoop faults (i + 1) k (rmRfStep (faults i) s)

/-- `rm_rf`, with the number of iterations after which the stack is empty. -/
def rmRf (faults : ℕ → RmRfFaults) (p : List CString) (tree : FileSystem) : Int × FileSystem :=
  match if (faults 0).lstat then none else tree.lookup p with
  | none => (-1, tree)
  | some (.other _) =>
      match if (faults 0).unlink then none else tree.unlink p with
      | none => (-1, tree)
      | some tree => (0, tree)
  | some .dir =>
      if (faults 0).pushDir then (-1, tree)
      else
        let s := rmRfLoop faults 1 (5 * tree.entries.length + 4) ⟨tree, [⟨p, none, false⟩], 0⟩
        (s.result, s.tree)

/-- All calls succeed. -/
def noRmRfFaults : ℕ → RmRfFaults := fun _ ↦ {}

section Loop

open FileTree (Within)

variable (faults : ℕ → RmRfFaults)

theorem rmRfLoop_add (k l i : ℕ) (s : RmRfState) :
    rmRfLoop faults i (k + l) s = rmRfLoop faults (i + k) l (rmRfLoop faults i k s) := by
  induction k generalizing i s with
  | zero => simp [rmRfLoop]
  | succ k ih =>
      rw [Nat.succ_add, rmRfLoop, rmRfLoop, ih]
      congr 1
      omega

theorem rmRfLoop_nil (k i : ℕ) {s : RmRfState} (h : s.stack = []) : rmRfLoop faults i k s = s := by
  induction k generalizing i with
  | zero => rfl
  | succ k ih =>
      have hstep : rmRfStep (faults i) s = s := by simp [rmRfStep, h]
      rw [rmRfLoop, hstep, ih]

/-- No file below `p` is called `.` or `..`. -/
def NoDots (p : List CString) (t : FileSystem) : Prop :=
  ∀ n q, p <:+ q → t.lookup (n :: q) ≠ none → n ≠ cstring "." ∧ n ≠ cstring ".."

/-- The directory `p` has been dealt with and taken off the stack, or the loop has
been left. The visit has failed exactly when the directory is still there. -/
structure Visited (p : List CString) (t : FileSystem) (r : Int) (rest : List DirStackNode)
    (failed : Bool) (s : RmRfState) : Prop where
  within : Within p t s.tree
  stack : s.stack = rest ∨ (s.stack = [] ∧ failed = true)
  result : s.result = if failed then -1 else r
  gone : failed = false ↔ s.tree.lookup p = none

/-- The end of a visit. A failure before it has left something in the directory. -/
theorem visited_of_removal (p : List CString) (t : FileSystem) (r : Int)
    (rest : List DirStackNode) (dir : Option (List CString)) (bad : Bool) (i : ℕ)
    (hp : t.lookup p = some .dir) (hbad : bad = true → t.children p ≠ []) :
    ∃ failed, Visited p t r rest failed
        (rmRfStep (faults i) ⟨t, ⟨p, dir, true⟩ :: rest, if bad then -1 else r⟩) ∧
      (faults = noRmRfFaults → p ≠ [] → t.children p = [] → failed = false) := by
  unfold rmRfStep
  dsimp only
  cases hrmdir : if (faults i).rmdir then none else t.rmdir p with
  | none =>
      refine ⟨true, ⟨.refl p t, .inl rfl, rfl, by simp [hp]⟩, fun hfaults hne hchildren ↦ ?_⟩
      simp [hfaults, noRmRfFaults, FileTree.rmdir, hne, t.isDir_iff.mpr hp, hchildren] at hrmdir
  | some t' =>
      obtain ⟨-, hrmdir⟩ := Option.ite_none_left_eq_some.mp hrmdir
      obtain ⟨⟨-, hchildren⟩, hentries⟩ := FileTree.entries_of_rmdir hrmdir
      have hne : p ≠ [] := by
        rintro rfl
        simp [FileTree.rmdir] at hrmdir
      have hgood : bad = false := by
        by_contra hb
        exact hbad (Bool.not_eq_false _ ▸ hb) hchildren
      refine ⟨false, ⟨.of_filter hentries, .inl rfl, by simp [hgood], ?_⟩, fun _ _ _ ↦ rfl⟩
      simp [FileTree.lookup_of_entries_filter hentries hne]

/-- The visits of all directories with fewer than `N` entries below them end. -/
def VisitsEnd (N : ℕ) : Prop :=
  ∀ t q r rest i, t.lookup q = some .dir → t.below q < N →
    ∃ k ≤ 5 * t.below q + 4, ∃ failed,
      Visited q t r rest failed (rmRfLoop faults i k ⟨t, ⟨q, none, false⟩ :: rest, r⟩) ∧
      (faults = noRmRfFaults → q ≠ [] → NoDots q t → failed = false)

/-- The rest of a visit as an outcome of `k` iterations. -/
def Ends (p : List CString) (t : FileSystem) (r : Int) (rest : List DirStackNode) (clean : Prop)
    (bound i : ℕ) (s : RmRfState) : Prop :=
  ∃ k ≤ bound, ∃ failed, Visited p t r rest failed (rmRfLoop faults i k s) ∧
    (faults = noRmRfFaults → p ≠ [] → clean → failed = false)

variable {faults}

theorem Ends.of_step {p : List CString} {t : FileSystem} {r : Int} {rest : List DirStackNode}
    {clean : Prop} {bound i : ℕ} {s : RmRfState}
    (h : Ends faults p t r rest clean bound (i + 1) (rmRfStep (faults i) s)) :
    Ends faults p t r rest clean (bound + 1) i s := by
  obtain ⟨k, hk, failed, hvisited, hclean⟩ := h
  exact ⟨k + 1, by omega, failed, hvisited, hclean⟩

theorem Ends.of_loop {p : List CString} {t : FileSystem} {r : Int} {rest : List DirStackNode}
    {clean : Prop} {b i : ℕ} {s : RmRfState} (k : ℕ)
    (h : Ends faults p t r rest clean b (i + k) (rmRfLoop faults i k s)) :
    Ends faults p t r rest clean (k + b) i s := by
  obtain ⟨l, hl, failed, hvisited, hclean⟩ := h
  refine ⟨k + l, by omega, failed, ?_, hclean⟩
  rwa [rmRfLoop_add]

theorem Ends.mono {p : List CString} {t : FileSystem} {r : Int} {rest : List DirStackNode}
    {clean clean' : Prop} {bound bound' i : ℕ} {s : RmRfState} (hbound : bound ≤ bound')
    (hclean : faults = noRmRfFaults → clean' → clean)
    (h : Ends faults p t r rest clean bound i s) :
    Ends faults p t r rest clean' bound' i s := by
  obtain ⟨k, hk, failed, hvisited, himp⟩ := h
  exact ⟨k, by omega, failed, hvisited, fun hf hne hc ↦ himp hf hne (hclean hf hc)⟩

/-- What has been done within `p` before may be added to the outcome. -/
theorem Ends.within {p : List CString} {t t' : FileSystem} {r : Int} {rest : List DirStackNode}
    {clean : Prop} {bound i : ℕ} {s : RmRfState} (hw : Within p t t')
    (h : Ends faults p t' r rest clean bound i s) : Ends faults p t r rest clean bound i s := by
  obtain ⟨k, hk, failed, hvisited, hclean⟩ := h
  exact ⟨k, hk, failed, ⟨hw.trans hvisited.within, hvisited.stack, hvisited.result,
    hvisited.gone⟩, hclean⟩

/-- A `break` leaves the directory behind. -/
theorem ends_of_break (p : List CString) (t : FileSystem) (r : Int) (rest : List DirStackNode)
    {clean : Prop} (bound i : ℕ) (hp : t.lookup p = some .dir)
    (hclean : faults = noRmRfFaults → ¬ clean) :
    Ends faults p t r rest clean bound i ⟨t, [], -1⟩ :=
  ⟨0, Nat.zero_le _, true, ⟨.refl p t, .inr ⟨rfl, rfl⟩, rfl, by simp [rmRfLoop, hp]⟩,
    fun hf _ hc ↦ absurd hc (hclean hf)⟩

theorem ends_of_removal (p : List CString) (t : FileSystem) (r : Int)
    (rest : List DirStackNode) (dir : Option (List CString)) (bad : Bool) (i : ℕ)
    (hp : t.lookup p = some .dir) (hbad : bad = true → t.children p ≠ []) :
    Ends faults p t r rest (t.children p = []) 1 i
      ⟨t, ⟨p, dir, true⟩ :: rest, if bad then -1 else r⟩ := by
  obtain ⟨failed, hvisited, hclean⟩ := visited_of_removal faults p t r rest dir bad i hp hbad
  exact ⟨1, Nat.le_refl 1, failed, hvisited, hclean⟩

theorem children_ne_nil {p : List CString} {t : FileSystem} {n : CString}
    (h : t.lookup (n :: p) ≠ none) : t.children p ≠ [] :=
  List.ne_nil_of_mem (t.mem_children.mpr h)

/-- A directory that is being read. The names still to come are in it, and after a failure
so is another one. -/
structure Reading (p : List CString) (names : List CString) (t : FileSystem) (bad : Bool) :
    Prop where
  dir : t.lookup p = some .dir
  entries : ∀ n ∈ names, t.lookup (n :: p) ≠ none
  left : bad = true → ∃ n, n ∉ names ∧ t.lookup (n :: p) ≠ none

/-- A visit that has come to these names ends, whatever it finds. -/
def ReadsEnd (faults : ℕ → RmRfFaults) (N : ℕ) (p : List CString) (r : Int)
    (rest : List DirStackNode) (names : List CString) : Prop :=
  ∀ t bad i d, Reading p names t bad → t.among p names ≤ N →
    Ends faults p t r rest (NoDots p t ∧ ∀ n, t.lookup (n :: p) ≠ none → n ∈ names)
      (5 * t.among p names + 1) (i + 1)
      (rmRfRead (faults i) t (if bad then -1 else r) ⟨p, d, false⟩ rest names)

section Read

variable {p : List CString} {r : Int} {rest : List DirStackNode} {n : CString}
  {names : List CString} {t t' : FileSystem} {bad bad' : Bool} {N i : ℕ}

theorem Reading.next (h : Reading p (n :: names) t bad) (hn : n ∉ names)
    (hwithin : Within (n :: p) t t')
    (hbad : bad' = true → bad = true ∨ t'.lookup (n :: p) ≠ none) : Reading p names t' bad' := by
  constructor
  · rw [hwithin.lookup_above, h.dir]
  · intro m hm
    have hmn : m ≠ n := by
      rintro rfl
      exact hn hm
    rw [hwithin.lookup_sibling hmn]
    exact h.entries m (List.mem_cons_of_mem n hm)
  · intro hb
    rcases hbad hb with hb | hleft
    · obtain ⟨m, hm, hlookup⟩ := h.left hb
      rw [List.mem_cons, not_or] at hm
      exact ⟨m, hm.2, (hwithin.lookup_sibling hm.1).symm ▸ hlookup⟩
    · exact ⟨n, hn, hleft⟩

theorem ends_of_read_nil (h : Reading p [] t bad) (d : Option (List CString)) :
    Ends faults p t r rest (NoDots p t ∧ ∀ n, t.lookup (n :: p) ≠ none → n ∈ ([] : List CString))
      1 (i + 1) (rmRfRead (faults i) t (if bad then -1 else r) ⟨p, d, false⟩ rest []) := by
  have hread : rmRfRead (faults i) t (if bad then -1 else r) ⟨p, d, false⟩ rest [] =
      ⟨t, ⟨p, some [], true⟩ :: rest, if bad then -1 else r⟩ := by
    unfold rmRfRead
    split <;> simp_all
  rw [hread]
  refine (ends_of_removal p t r rest _ bad (i + 1) h.dir ?_).mono (by omega) ?_
  · intro hb
    obtain ⟨n, -, hn⟩ := h.left hb
    exact children_ne_nil hn
  · rintro - ⟨-, hall⟩
    apply List.eq_nil_iff_forall_not_mem.mpr
    intro n hn
    exact absurd (hall n (t.mem_children.mp hn)) List.not_mem_nil

/-- The next iteration, in a tree that has lost nothing but entries at or below this name. -/
theorem ends_of_next (hrest : ReadsEnd faults N p r rest names) (hn : n ∉ names)
    (h : Reading p (n :: names) t bad) (hsize : t.among p names ≤ N)
    (hwithin : Within (n :: p) t t')
    (hbad : bad' = true → bad = true ∨ t'.lookup (n :: p) ≠ none)
    (hgone : faults = noRmRfFaults → NoDots p t → t'.lookup (n :: p) = none) :
    Ends faults p t r rest (NoDots p t ∧ ∀ m, t.lookup (m :: p) ≠ none → m ∈ n :: names)
      (5 * t.among p names + 2) i
      ⟨t', ⟨p, some names, false⟩ :: rest, if bad' then -1 else r⟩ := by
  have hle := hwithin.among_le p names
  have hends := hrest t' bad' i (some names) (h.next hn hwithin hbad) (by omega)
  refine ((Ends.of_step hends).within (hwithin.mono (List.suffix_cons n p))).mono (by omega) ?_
  rintro hfaults ⟨hdots, hall⟩
  constructor
  · intro m q hpq hm
    apply hdots m q hpq
    rwa [← hwithin.lookup_of_ne_none hm]
  · intro m hm
    have hmn : m ≠ n := by
      rintro rfl
      exact hm (hgone hfaults hdots)
    rw [hwithin.lookup_sibling hmn] at hm
    exact (List.mem_cons.mp (hall m hm)).resolve_left hmn

theorem ends_of_subdirectory (hN : VisitsEnd faults N) (hrest : ReadsEnd faults N p r rest names)
    (hn : n ∉ names) (h : Reading p (n :: names) t bad) (hsize : t.among p names ≤ N)
    (hlookup : t.lookup (n :: p) = some .dir) (hbelow : t.below (n :: p) < N) :
    Ends faults p t r rest (NoDots p t ∧ ∀ m, t.lookup (m :: p) ≠ none → m ∈ n :: names)
      (5 * t.below (n :: p) + 4 + (5 * t.among p names + 2)) i
      ⟨t, ⟨n :: p, none, false⟩ :: ⟨p, some names, false⟩ :: rest, if bad then -1 else r⟩ := by
  obtain ⟨k, hk, failed, hvisited, hclean⟩ := hN t (n :: p) (if bad then -1 else r)
    (⟨p, some names, false⟩ :: rest) i hlookup hbelow
  refine (Ends.of_loop k (b := 5 * t.among p names + 2) ?_).mono (by omega) fun _ hc ↦ hc
  generalize rmRfLoop faults i k _ = s at hvisited
  obtain ⟨tree, stack, result⟩ := s
  obtain ⟨hwithin, hstack, hresult, hgone⟩ := hvisited
  dsimp only at hwithin hstack hresult hgone
  have hdots : NoDots p t → NoDots (n :: p) t := fun h m q hq ↦
    h m q ((List.suffix_cons n p).trans hq)
  rcases hstack with rfl | ⟨rfl, rfl⟩
  · have hboth : result = if bad || failed then -1 else r := by
      cases bad <;> cases failed <;> simp_all
    rw [hboth]
    apply ends_of_next hrest hn h hsize hwithin
    · intro hb
      rcases Bool.or_eq_true_iff.mp hb with hb | hb
      · exact .inl hb
      · exact .inr (mt hgone.mpr (by simp [hb]))
    · intro hf hd
      exact hgone.mp (hclean hf (List.cons_ne_nil n p) (hdots hd))
  · have hp' : tree.lookup p ≠ none := by
      rw [hwithin.lookup_above, h.dir]
      exact Option.some_ne_none _
    refine ⟨0, Nat.zero_le _, true, ⟨hwithin.mono (List.suffix_cons n p),
      .inr ⟨rfl, rfl⟩, hresult, by simp [rmRfLoop, hp']⟩, fun hf _ hc ↦ ?_⟩
    exact absurd (hclean hf (List.cons_ne_nil n p) (hdots hc.1)) (by simp)

end Read

/-- The reading of the names, by induction. -/
theorem ends_of_read {N : ℕ} (hN : VisitsEnd faults N) (p : List CString) (r : Int)
    (rest : List DirStackNode) {names : List CString} (hnodup : names.Nodup) :
    ReadsEnd faults N p r rest names := by
  induction names with
  | nil =>
      intro t bad i d h _
      exact (ends_of_read_nil h d).mono (by omega) fun _ hc ↦ hc
  | cons n names ih =>
      intro t bad i d h hsize
      obtain ⟨hn, hnodup⟩ := List.nodup_cons.mp hnodup
      have hrest := ih hnodup
      have hentry := h.entries n List.mem_cons_self
      have hcount := t.below_add_among_le hn hentry
      have hstay : ∀ bad' : Bool, (faults = noRmRfFaults → ¬ NoDots p t) →
          Ends faults p t r rest
            (NoDots p t ∧ ∀ m, t.lookup (m :: p) ≠ none → m ∈ n :: names)
            (5 * t.among p (n :: names) + 1) (i + 1)
            ⟨t, ⟨p, some names, false⟩ :: rest, if bad' then -1 else r⟩ := by
        intro bad' hfaults
        refine (ends_of_next hrest hn h (by omega) (.refl _ t) (fun _ ↦ .inr hentry) ?_).mono
          (by omega) fun _ hc ↦ hc
        exact fun hf hdots ↦ absurd hdots (hfaults hf)
      unfold rmRfRead
      by_cases hread : (faults i).readdir = true
      · simp only [hread, if_true]
        refine (ends_of_removal p t r rest _ bad (i + 1) h.dir fun _ ↦
          children_ne_nil hentry).mono (by omega) fun hfaults ↦ ?_
        simp [hfaults, noRmRfFaults] at hread
      simp only [hread, if_false, Bool.false_eq_true]
      by_cases hdot : n = cstring "." ∨ n = cstring ".."
      · rw [if_pos hdot]
        refine hstay bad fun _ hdots ↦ ?_
        have := hdots n p List.suffix_rfl hentry
        tauto
      rw [if_neg hdot]
      by_cases hbuild : (faults i).buildPath = true
      · rw [if_pos hbuild]
        exact ends_of_break p t r rest _ _ h.dir fun hf ↦ by simp [hf, noRmRfFaults] at hbuild
      rw [if_neg hbuild]
      by_cases hlstat : (faults i).lstat = true
      · simp only [hlstat, if_true]
        exact hstay true fun hf ↦ by simp [hf, noRmRfFaults] at hlstat
      simp only [hlstat, if_false, Bool.false_eq_true]
      cases hlookup : t.lookup (n :: p) with
      | none => exact absurd hlookup hentry
      | some e =>
          cases e with
          | dir =>
              dsimp only
              by_cases hpush : (faults i).pushDir = true
              · rw [if_pos hpush]
                exact ends_of_break p t r rest _ _ h.dir fun hf ↦ by
                  simp [hf, noRmRfFaults] at hpush
              rw [if_neg hpush]
              exact (ends_of_subdirectory hN hrest hn h (by omega) hlookup (by omega)).mono
                (by omega) fun _ hc ↦ hc
          | other data =>
              dsimp only
              cases hunlink : if (faults i).unlink then none else t.unlink (n :: p) with
              | none =>
                  refine hstay true fun hf ↦ ?_
                  simp [hf, noRmRfFaults, FileTree.unlink, t.isOther_iff.mpr ⟨data, hlookup⟩]
                    at hunlink
              | some t' =>
                  obtain ⟨-, hunlink⟩ := Option.ite_none_left_eq_some.mp hunlink
                  obtain ⟨-, hentries⟩ := FileTree.entries_of_unlink hunlink
                  refine (ends_of_next hrest hn h (by omega) (.of_filter hentries) .inl ?_).mono
                    (by omega) fun _ hc ↦ hc
                  exact fun _ _ ↦ FileTree.lookup_of_entries_filter hentries (List.cons_ne_nil n p)

theorem ends_of_dot (p : List CString) (t : FileSystem) (r : Int) (rest : List DirStackNode)
    (d : Option (List CString)) {name : CString} (hname : name = cstring "." ∨ name = cstring "..")
    (stream : List CString) {clean : Prop} {b i : ℕ} (hb : 1 ≤ b) (hp : t.lookup p = some .dir)
    (h : Ends faults p t r rest clean b (i + 1) ⟨t, ⟨p, some stream, false⟩ :: rest, r⟩) :
    Ends faults p t r rest clean b (i + 1)
      (rmRfRead (faults i) t r ⟨p, d, false⟩ rest (name :: stream)) := by
  unfold rmRfRead
  by_cases hread : (faults i).readdir = true
  · simp only [hread, if_true]
    refine (ends_of_removal p t r rest _ false (i + 1) hp nofun).mono hb fun hfaults ↦ ?_
    simp [hfaults, noRmRfFaults] at hread
  · simp only [hread, if_false, Bool.false_eq_true]
    rwa [if_pos hname]

/-- A visit reads the two dot entries and then the names in the directory. -/
theorem visitsEnd (faults : ℕ → RmRfFaults) (N : ℕ) : VisitsEnd faults N := by
  induction N with
  | zero => exact fun t q r rest i _ h ↦ absurd h (Nat.not_lt_zero _)
  | succ N ih =>
      intro t p r rest i hp hbelow
      have hamong := t.among_le_below p (t.children p)
      have hnames (j : ℕ) : Ends faults p t r rest
          (NoDots p t ∧ ∀ n, t.lookup (n :: p) ≠ none → n ∈ t.children p)
          (5 * t.among p (t.children p) + 2) j
          ⟨t, ⟨p, some (t.children p), false⟩ :: rest, r⟩ :=
        .of_step (ends_of_read ih p r rest (t.nodup_children p) t false j _
          ⟨hp, fun n hn ↦ t.mem_children.mp hn, nofun⟩ (by omega))
      have hdotdot (j : ℕ) := ends_of_dot p t r rest (some (cstring ".." :: t.children p))
        (.inr rfl) (t.children p) (by omega) hp (hnames (j + 1))
      have hdot (j : ℕ) := ends_of_dot p t r rest none (.inl rfl) (cstring ".." :: t.children p)
        (by omega) hp (.of_step (hdotdot (j + 1)))
      suffices hstep : Ends faults p t r rest (NoDots p t) (5 * t.below p + 3) (i + 1)
          (rmRfStep (faults i) ⟨t, ⟨p, none, false⟩ :: rest, r⟩) from hstep.of_step
      by_cases hopen : (faults i).opendir = true
      · have hfail : rmRfStep (faults i) ⟨t, ⟨p, none, false⟩ :: rest, r⟩ = ⟨t, rest, -1⟩ := by
          simp [rmRfStep, hopen]
        rw [hfail]
        refine ⟨0, Nat.zero_le _, true, ⟨.refl p t, .inl rfl, rfl, by simp [rmRfLoop, hp]⟩,
          fun hf ↦ ?_⟩
        simp [hf, noRmRfFaults] at hopen
      · have hread : rmRfStep (faults i) ⟨t, ⟨p, none, false⟩ :: rest, r⟩ =
            rmRfRead (faults i) t r ⟨p, none, false⟩ rest
              (cstring "." :: cstring ".." :: t.children p) := by
          simp [rmRfStep, hopen, t.isDir_iff.mpr hp]
        rw [hread]
        refine (hdot i).mono (by omega) fun _ hdots ↦ ⟨hdots, fun n hn ↦ t.mem_children.mpr hn⟩

end Loop

section Result

open FileTree (Within)

variable {faults : ℕ → RmRfFaults} {p : List CString} {t t' : FileSystem} {rc : Int}

/-- The loop ends within the iterations that it is given. -/
theorem rmRfLoop_stack (faults : ℕ → RmRfFaults) (hp : t.lookup p = some .dir) :
    ∃ failed, Visited p t 0 [] failed
      (rmRfLoop faults 1 (5 * t.entries.length + 4) ⟨t, [⟨p, none, false⟩], 0⟩) ∧
      (faults = noRmRfFaults → p ≠ [] → NoDots p t → failed = false) := by
  obtain ⟨k, hk, failed, hvisited, hclean⟩ :=
    visitsEnd faults (t.below p + 1) t p 0 [] 1 hp (Nat.lt_succ_self _)
  refine ⟨failed, ?_, hclean⟩
  have hle : t.below p ≤ t.entries.length := List.countP_le_length
  have hstack := hvisited.stack
  obtain ⟨l, hl⟩ := Nat.exists_eq_add_of_le
    (show k ≤ 5 * t.entries.length + 4 by omega)
  rw [hl, rmRfLoop_add, rmRfLoop_nil]
  · exact hvisited
  · tauto

/-- Whatever fails, `rm_rf` removes nothing outside the tree at `p`, and it returns 0
exactly when nothing is left of it. -/
structure RmRfResult (faults : ℕ → RmRfFaults) (p : List CString) (t : FileSystem) (rc : Int)
    (t' : FileSystem) : Prop where
  within : Within p t t'
  ret : rc = 0 ∨ rc = -1
  gone : t.lookup p ≠ none → (rc = 0 ↔ t'.lookup p = none)
  absent : t.lookup p = none → rc = -1
  clean : faults = noRmRfFaults → p ≠ [] → t.lookup p ≠ none → NoDots p t → rc = 0

theorem rmRf_result (faults : ℕ → RmRfFaults) (p : List CString) (t : FileSystem) :
    RmRfResult faults p t (rmRf faults p t).1 (rmRf faults p t).2 := by
  unfold rmRf
  by_cases hlstat : (faults 0).lstat = true
  · simp only [hlstat, if_true]
    refine ⟨.refl p t, .inr rfl, fun h ↦ by simp [h], fun _ ↦ rfl, fun hf ↦ ?_⟩
    simp [hf, noRmRfFaults] at hlstat
  simp only [hlstat, if_false, Bool.false_eq_true]
  cases hlookup : t.lookup p with
  | none =>
      exact ⟨.refl p t, .inr rfl, fun h ↦ absurd hlookup h, fun _ ↦ rfl,
        fun _ _ h ↦ absurd hlookup h⟩
  | some e =>
      cases e with
      | dir =>
          dsimp only
          by_cases hpush : (faults 0).pushDir = true
          · rw [if_pos hpush]
            refine ⟨.refl p t, .inr rfl, fun _ ↦ by simp [hlookup], fun _ ↦ rfl, fun hf ↦ ?_⟩
            simp [hf, noRmRfFaults] at hpush
          rw [if_neg hpush]
          obtain ⟨failed, ⟨hwithin, -, hrc, hgone⟩, hclean⟩ := rmRfLoop_stack faults hlookup
          refine ⟨hwithin, ?_, fun _ ↦ ?_, fun h ↦ by simp [hlookup] at h, fun hf hp _ hd ↦ ?_⟩
          · rw [hrc]
            cases failed <;> simp
          · rw [hrc, ← hgone]
            cases failed <;> simp
          · rw [hrc, hclean hf hp hd]
            rfl
      | other data =>
          dsimp only
          cases hunlink : if (faults 0).unlink then none else t.unlink p with
          | none =>
              refine ⟨.refl p t, .inr rfl, fun _ ↦ by simp [hlookup], fun _ ↦ rfl, fun hf ↦ ?_⟩
              simp [hf, noRmRfFaults, FileTree.unlink, t.isOther_iff.mpr ⟨data, hlookup⟩]
                at hunlink
          | some t' =>
              obtain ⟨-, hunlink⟩ := Option.ite_none_left_eq_some.mp hunlink
              obtain ⟨-, hentries⟩ := FileTree.entries_of_unlink hunlink
              have hp : p ≠ [] := by
                rintro rfl
                simp at hlookup
              have hgone := FileTree.lookup_of_entries_filter hentries hp
              exact ⟨.of_filter hentries, .inl rfl, fun _ ↦ by simp [hgone],
                fun h ↦ by simp [hlookup] at h, fun _ _ _ _ ↦ rfl⟩

/-- When it returns 0 the tree at `p` is gone, and all else is as before. -/
theorem rmRf_eq_removeTree (h : (rmRf faults p t).1 = 0) :
    (rmRf faults p t).2 = t.removeTree p := by
  have hresult := rmRf_result faults p t
  have hlookup : t.lookup p ≠ none := by
    intro hnone
    simp [hresult.absent hnone] at h
  exact hresult.within.eq_removeTree ((hresult.gone hlookup).mp h)

end Result

end OcreRuntime
