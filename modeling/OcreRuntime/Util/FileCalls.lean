import Mathlib.Data.List.DropRight
import OcreRuntime.Lib.FileLinks
import OcreRuntime.Util.Path

/-!
# System calls on paths

Calls with a path as a string, which may lead through symbolic links. `stat` and `opendir`
follow a link at the end of the path, and the other calls do not. A call that makes or
removes an entry follows the path to its directory. The current directory is the root.
-/

namespace OcreRuntime

/-- What one component of a path does; repeated slashes stay where they are. -/
def stepOf (c : CString) : PathStep CString :=
  if c = [] ∨ c = cstring "." then .stay
  else if c = cstring ".." then .up
  else .down c

def stepsOf (s : CString) : List (PathStep CString) := (s.splitOn 47).map stepOf

def linkTarget : FileData → Option (LinkPath CString)
  | .regular _ => none
  | .symlink target => some ⟨target.head? = some 47, stepsOf target⟩

/-- The components without trailing slashes. -/
def componentsOf (s : CString) : List CString := (s.splitOn 47).rdropWhile (· = [])

namespace FileSystem

variable (maxLinks : ℕ) (t : FileSystem)

/-- Where a path leads. -/
def resolvePath (follow : Bool) (path : CString) : Except PathError (List CString) :=
  if path = [] then .error .noEntry
  else t.resolve linkTarget follow maxLinks [] (stepsOf path)

/-- The entry that a call may make or remove, in the directory to which the path leads. -/
def locate (path : CString) : Option (List CString) :=
  match (componentsOf path).getLast? with
  | none => none
  | some name =>
      if isName name then
        ((t.resolve linkTarget true maxLinks [] ((componentsOf path).dropLast.map stepOf)).map
          (name :: ·)).toOption
      else none

def stat (path : CString) : Except PathError (FileEntry FileData) :=
  (t.resolvePath maxLinks true path).bind fun p ↦ (t.lookup p).elim (.error .noEntry) .ok

def lstat (path : CString) : Option (FileEntry FileData) :=
  (t.resolvePath maxLinks false path).toOption.bind t.lookup

/-- The directory that is opened. -/
def opendir (path : CString) : Option (List CString) :=
  (t.resolvePath maxLinks true path).toOption.filter t.isDir

/-- `unlink`, which fails for a path that ends in a slash. -/
def unlinkPath (path : CString) : Option FileSystem :=
  if (path.splitOn 47).getLast? = some [] then none else (t.locate maxLinks path).bind t.unlink

def rmdirPath (path : CString) : Option FileSystem := (t.locate maxLinks path).bind t.rmdir

def mkdirPath (path : CString) : Option FileSystem := (t.locate maxLinks path).bind t.mkdir

/-- The entries through which a path leads, and the one to which it leads. -/
def wayOf (path : CString) : List (List CString) := t.way linkTarget true maxLinks [] (stepsOf path)

/-- No symbolic link is on the way of a path, nor at its end. -/
def noLinks (path : CString) : Bool := t.linkFree linkTarget [] (stepsOf path)

end FileSystem

theorem toOption_eq_some_iff {ε α : Type} {x : Except ε α} {a : α} :
    x.toOption = some a ↔ x = .ok a := by
  cases x <;> simp [Except.toOption]

section Steps

theorem stepOf_of_isName {name : CString} (h : isName name = true) : stepOf name = .down name := by
  obtain ⟨hne, hdot, hdots⟩ : name ≠ [] ∧ name ≠ cstring "." ∧ name ≠ cstring ".." := by
    simpa [isName] using h
  simp [stepOf, hne, hdot, hdots]

theorem stepOf_ne_down {c : CString} (h : ¬ isName c = true) (name : CString) :
    stepOf c ≠ .down name := by
  have hdots : c = [] ∨ c = cstring "." ∨ c = cstring ".." := by
    simpa [isName, imp_iff_not_or] using h
  rw [stepOf]
  split
  next => simp
  next hstay =>
    have hup : c = cstring ".." := by tauto
    simp [hup]

theorem isName_of_isComponent {name : CString} (h : IsComponent name) : isName name = true := by
  simp [isName, h.ne_nil, h.ne_dot, h.ne_dots]

theorem stepsOf_append_of_component {name : CString} (h : IsComponent name) (dir : CString) :
    stepsOf (dir ++ 47 :: name) = stepsOf dir ++ [.down name] := by
  rw [stepsOf, List.splitOn_append_cons_self, List.splitOn_eq_singleton h.no_slash, List.map_append,
    List.map_singleton, stepOf_of_isName (isName_of_isComponent h), stepsOf]

theorem place_stepsOf (path : CString) : FileTree.place [] (stepsOf path) = pathOf path := by
  have hplace (cs : List CString) (p : List CString) :
      FileTree.place p (cs.map stepOf) = cs.foldl walkComponent p := by
    induction cs generalizing p with
    | nil => rfl
    | cons c cs ih =>
        rw [List.map_cons, List.foldl_cons, ← ih]
        by_cases hstay : c = [] ∨ c = cstring "."
        · simp [stepOf, walkComponent, hstay, FileTree.place]
        · rw [stepOf, walkComponent, if_neg hstay, if_neg hstay]
          by_cases hup : c = cstring ".."
          · simp [hup, FileTree.place]
          · simp [hup, FileTree.place]
  exact hplace (path.splitOn 47) []

/-- Trailing slashes stay where the components lead. -/
theorem exists_stepsOf_eq (path : CString) :
    ∃ k, stepsOf path = (componentsOf path).map stepOf ++ List.replicate k .stay ∧
      ((path.splitOn 47).getLast? ≠ some [] → k = 0) := by
  have hsplit : (path.splitOn 47).rdropWhile (· = []) ++ (path.splitOn 47).rtakeWhile (· = []) =
      path.splitOn 47 := List.rdropWhile_append_rtakeWhile
  refine ⟨((path.splitOn 47).rtakeWhile (· = [])).length, ?_, fun hlast ↦ ?_⟩
  · rw [stepsOf]
    nth_rewrite 1 [← hsplit]
    rw [List.map_append, componentsOf]
    congr 1
    refine List.eq_replicate_iff.mpr ⟨List.length_map _, ?_⟩
    intro step hstep
    obtain ⟨c, hc, rfl⟩ := List.mem_map.mp hstep
    have hnil : c = [] := by simpa using List.mem_rtakeWhile_imp hc
    simp [stepOf, hnil]
  · rw [List.length_eq_zero_iff, List.rtakeWhile_eq_nil_iff]
    intro hne
    simpa [List.getLast?_eq_some_getLast hne] using hlast

end Steps

namespace FileSystem

open FileTree (PartOf)

variable {maxLinks : ℕ} {t t' : FileSystem} {path dir name : CString} {p q : List CString}
  {e : FileEntry FileData} {follow : Bool}

theorem resolvePath_eq_ok_iff :
    t.resolvePath maxLinks follow path = .ok p ↔
      path ≠ [] ∧ t.resolve linkTarget follow maxLinks [] (stepsOf path) = .ok p := by
  rw [resolvePath]
  split
  next hnil => simp [hnil]
  next hne => simp [hne]

theorem exists_of_lookup (h : t.resolvePath maxLinks follow path = .ok p) :
    ∃ e, t.lookup p = some e :=
  Option.ne_none_iff_exists'.mp
    (FileTree.lookup_ne_none_of_resolve (by simp) (resolvePath_eq_ok_iff.mp h).2)

theorem resolvePath_of_partOf (h : PartOf t t') (hp : t.resolvePath maxLinks follow path = .ok p) :
    t'.resolvePath maxLinks follow path = .ok p := by
  obtain ⟨hne, hresolve⟩ := resolvePath_eq_ok_iff.mp hp
  exact resolvePath_eq_ok_iff.mpr ⟨hne, h.resolve hresolve⟩

theorem resolvePath_true_of_isDir (h : t.resolvePath maxLinks false path = .ok p)
    (hdir : t.isDir p = true) : t.resolvePath maxLinks true path = .ok p := by
  obtain ⟨hne, hresolve⟩ := resolvePath_eq_ok_iff.mp h
  exact resolvePath_eq_ok_iff.mpr ⟨hne, FileTree.resolve_true_of_isDir hresolve hdir⟩

/-- The paths that are put together from the path of a directory and a name. -/
theorem resolvePath_append_iff (hname : IsComponent name) (hdir : dir ≠ []) :
    t.resolvePath maxLinks false (dir ++ 47 :: name) = .ok q ↔
      ∃ q', t.resolvePath maxLinks true dir = .ok q' ∧ t.lookup (name :: q') ≠ none ∧
        q = name :: q' := by
  simp [resolvePath_eq_ok_iff, stepsOf_append_of_component hname,
    FileTree.resolve_concat_down_iff, hdir]

/-- A path that is put together from the path of a directory leads to an entry of it, if
anywhere, as long as entries have only been removed. -/
theorem eq_of_resolvePath_append (hdir : t'.resolvePath maxLinks true dir = .ok p)
    (h : PartOf t t') (hname : IsComponent name)
    (hq : t.resolvePath maxLinks false (dir ++ 47 :: name) = .ok q) : q = name :: p := by
  have hne : dir ≠ [] := (resolvePath_eq_ok_iff.mp hdir).1
  obtain ⟨p', hp', -, rfl⟩ :=
    (resolvePath_append_iff hname hne).mp (resolvePath_of_partOf h hq)
  rw [Except.ok.inj (hp'.symm.trans hdir)]

theorem exists_of_locate (h : t.locate maxLinks path = some p) :
    ∃ init name q, componentsOf path = init ++ [name] ∧ isName name = true ∧
      t.resolve linkTarget true maxLinks [] (init.map stepOf) = .ok q ∧ p = name :: q := by
  rw [locate] at h
  split at h
  next => cases h
  next name hlast =>
    obtain ⟨hname, hp⟩ := Option.ite_none_right_eq_some.mp h
    obtain ⟨init, hinit⟩ := List.getLast?_eq_some_iff.mp hlast
    rw [hinit, List.dropLast_concat] at hp
    cases hq : t.resolve linkTarget true maxLinks [] (init.map stepOf) with
    | error error => simp [hq, Except.map, Except.toOption] at hp
    | ok q =>
        refine ⟨init, name, q, hinit, hname, hq, ?_⟩
        simpa [hq, Except.map, Except.toOption, eq_comm] using hp

theorem locate_of_components {init : List CString} (h : componentsOf path = init ++ [name])
    (hname : isName name = true)
    (hq : t.resolve linkTarget true maxLinks [] (init.map stepOf) = .ok q) :
    t.locate maxLinks path = some (name :: q) := by
  simp [locate, h, hname, hq, Except.map, Except.toOption]

theorem componentsOf_append (hname : IsComponent name) (dir : CString) :
    componentsOf (dir ++ 47 :: name) = dir.splitOn 47 ++ [name] := by
  rw [componentsOf, List.splitOn_append_cons_self, List.splitOn_eq_singleton hname.no_slash]
  exact List.rdropWhile_concat_neg _ _ _ (by simpa using hname.ne_nil)

theorem locate_append (hname : IsComponent name)
    (hdir : t.resolvePath maxLinks true dir = .ok p) :
    t.locate maxLinks (dir ++ 47 :: name) = some (name :: p) :=
  locate_of_components (componentsOf_append hname dir) (isName_of_isComponent hname)
    (resolvePath_eq_ok_iff.mp hdir).2

theorem locate_append_iff (hname : IsComponent name) (hdir : dir ≠ []) :
    t.locate maxLinks (dir ++ 47 :: name) = some q ↔
      ∃ p, t.resolvePath maxLinks true dir = .ok p ∧ q = name :: p := by
  constructor
  · intro h
    obtain ⟨init, name', p, hinit, -, hp, rfl⟩ := exists_of_locate h
    rw [componentsOf_append hname] at hinit
    obtain ⟨rfl, heq⟩ := List.append_inj' hinit rfl
    obtain rfl := List.singleton_inj.mp heq
    exact ⟨p, resolvePath_eq_ok_iff.mpr ⟨hdir, hp⟩, rfl⟩
  · rintro ⟨p, hp, rfl⟩
    exact locate_append hname hp

theorem unlinkPath_append (hname : IsComponent name)
    (hdir : t.resolvePath maxLinks true dir = .ok p) :
    t.unlinkPath maxLinks (dir ++ 47 :: name) = t.unlink (name :: p) := by
  have hlast : ((dir ++ 47 :: name).splitOn 47).getLast? ≠ some [] := by
    rw [List.splitOn_append_cons_self, List.splitOn_eq_singleton hname.no_slash,
      List.getLast?_concat]
    exact fun h ↦ hname.ne_nil (Option.some.inj h)
  rw [unlinkPath, if_neg hlast, locate_append hname hdir, Option.bind_some]

/-- A path to something that is not a directory ends in its name. -/
theorem unlinkPath_of_isDir_eq_false (h : t.resolvePath maxLinks false path = .ok p)
    (hp : t.isDir p = false) : t.unlinkPath maxLinks path = t.unlink p := by
  obtain ⟨hne, hresolve⟩ := resolvePath_eq_ok_iff.mp h
  obtain ⟨init, c, hsplit⟩ :=
    (List.eq_nil_or_concat' _).resolve_left (List.splitOn_ne_nil 47 path)
  rw [stepsOf, hsplit, List.map_append, List.map_singleton] at hresolve
  have hname : isName c = true := by
    by_contra hc
    rw [FileTree.isDir_of_resolve_concat (stepOf_ne_down hc) hresolve] at hp
    cases hp
  have hc : c ≠ [] := by
    rintro rfl
    cases hname
  rw [stepOf_of_isName hname] at hresolve
  obtain ⟨q, hq, -, rfl⟩ := FileTree.resolve_concat_down_iff.mp hresolve
  have hcomponents : componentsOf path = init ++ [c] := by
    rw [componentsOf, hsplit]
    exact List.rdropWhile_concat_neg _ _ _ (by simpa using hc)
  rw [unlinkPath, hsplit, List.getLast?_concat, if_neg (by simpa using hc),
    locate_of_components hcomponents hname hq, Option.bind_some]

theorem locate_of_partOf (h : PartOf t t') (hp : t.locate maxLinks path = some p) :
    t'.locate maxLinks path = some p := by
  obtain ⟨init, name, q, hinit, hname, hq, rfl⟩ := exists_of_locate hp
  exact locate_of_components hinit hname (h.resolve hq)

/-- A path leads to the entry that it locates, if that is there. -/
theorem resolvePath_of_locate (h : t.locate maxLinks path = some p) (hp : t.lookup p = some e)
    (hslash : e = .dir ∨ (path.splitOn 47).getLast? ≠ some []) :
    t.resolvePath maxLinks false path = .ok p := by
  obtain ⟨init, name, q, hinit, hname, hq, rfl⟩ := exists_of_locate h
  obtain ⟨k, hsteps, hk⟩ := exists_stepsOf_eq path
  have hreached : t.resolve linkTarget false maxLinks []
      (init.map stepOf ++ [.down name]) = .ok (name :: q) :=
    FileTree.resolve_concat_down_iff.mpr ⟨q, hq, by simp [hp], rfl⟩
  have hcomponents : (componentsOf path).map stepOf = init.map stepOf ++ [.down name] := by
    rw [hinit, List.map_append, List.map_singleton, stepOf_of_isName hname]
  refine resolvePath_eq_ok_iff.mpr ⟨?_, ?_⟩
  · rintro rfl
    simp [componentsOf, List.rdropWhile_singleton] at hinit
  · rw [hsteps, hcomponents]
    rcases hslash with rfl | hslash
    · exact FileTree.resolve_append_stay hreached (t.isDir_iff.mpr hp) k
    · rw [hk hslash]
      simpa using hreached

theorem exists_of_lstat (h : t.lstat maxLinks path = some e) :
    ∃ p, t.resolvePath maxLinks false path = .ok p ∧ t.lookup p = some e := by
  obtain ⟨p, hp, hlookup⟩ := Option.bind_eq_some_iff.mp h
  exact ⟨p, toOption_eq_some_iff.mp hp, hlookup⟩

theorem lstat_of_resolvePath (h : t.resolvePath maxLinks false path = .ok p) :
    t.lstat maxLinks path = t.lookup p := by
  simp [lstat, h, Except.toOption]

theorem lstat_append (hname : IsComponent name)
    (hdir : t.resolvePath maxLinks true dir = .ok p) :
    t.lstat maxLinks (dir ++ 47 :: name) = t.lookup (name :: p) := by
  cases hlookup : t.lookup (name :: p) with
  | none =>
      rw [Option.eq_none_iff_forall_not_mem]
      rintro e he
      obtain ⟨q, hq, hentry⟩ := exists_of_lstat he
      obtain rfl := eq_of_resolvePath_append hdir (.refl t) hname hq
      rw [hlookup] at hentry
      cases hentry
  | some e =>
      have hne : dir ≠ [] := (resolvePath_eq_ok_iff.mp hdir).1
      have hresolve : t.resolvePath maxLinks false (dir ++ 47 :: name) = .ok (name :: p) :=
        (resolvePath_append_iff hname hne).mpr ⟨p, hdir, by simp [hlookup], rfl⟩
      rw [lstat_of_resolvePath hresolve, hlookup]

theorem opendir_eq_some_iff :
    t.opendir maxLinks path = some p ↔
      t.resolvePath maxLinks true path = .ok p ∧ t.isDir p = true := by
  rw [opendir, Option.filter_eq_some_iff, toOption_eq_some_iff]

/-- The path leads to a directory, as `stat` sees it. -/
def IsDirectory (maxLinks : ℕ) (path : CString) (t : FileSystem) : Prop :=
  t.stat maxLinks path = .ok .dir

instance : Decidable (IsDirectory maxLinks path t) := inferInstanceAs (Decidable (_ = _))

theorem isDirectory_iff :
    IsDirectory maxLinks path t ↔
      ∃ p, t.resolvePath maxLinks true path = .ok p ∧ t.lookup p = some .dir := by
  rw [IsDirectory, stat]
  cases t.resolvePath maxLinks true path with
  | error error => simp [Except.bind]
  | ok p => cases hp : t.lookup p <;> simp [Except.bind, hp]

theorem IsDirectory.of_partOf (h : PartOf t t') (hdir : IsDirectory maxLinks path t) :
    IsDirectory maxLinks path t' := by
  obtain ⟨p, hp, hlookup⟩ := isDirectory_iff.mp hdir
  exact isDirectory_iff.mpr ⟨p, resolvePath_of_partOf h hp, h p .dir hlookup⟩

/-- The path leads to the same directory when `d` is emptied, unless it leads through what was
in it. -/
theorem isDirectory_emptied_iff {d : List CString} :
    IsDirectory maxLinks path (t.emptied d) ↔
      IsDirectory maxLinks path t ∧ ∀ x ∈ t.wayOf maxLinks path, d <:+ x → x = d := by
  have hroot : (t.emptied d).lookup [] ≠ none := by simp
  simp only [isDirectory_iff, resolvePath_eq_ok_iff]
  constructor
  · rintro ⟨p, ⟨hne, hp⟩, hlookup⟩
    obtain ⟨hresolve, hway⟩ := (FileTree.resolve_emptied_iff hroot).mp hp
    exact ⟨⟨p, ⟨hne, hresolve⟩, (FileTree.lookup_emptied hlookup).1⟩, hway⟩
  · rintro ⟨⟨p, ⟨hne, hp⟩, hlookup⟩, hway⟩
    have hresolve := (FileTree.resolve_emptied_iff hroot).mpr ⟨hp, hway⟩
    have hentry := FileTree.lookup_ne_none_of_resolve hroot hresolve
    refine ⟨p, ⟨hne, hresolve⟩, FileTree.lookup_emptied_of_lookup hlookup ?_⟩
    exact FileTree.not_below_of_lookup_emptied hentry

/-- Without links a path leads where its components say. -/
theorem eq_pathOf_of_noLinks (hlinks : t.noLinks path = true)
    (hp : t.resolvePath maxLinks follow path = .ok p) : p = pathOf path := by
  rw [← place_stepsOf]
  exact FileTree.resolve_of_linkFree hlinks (resolvePath_eq_ok_iff.mp hp).2

theorem partOf_of_mkdirPath (h : t.mkdirPath maxLinks path = some t') : PartOf t t' := by
  obtain ⟨p, -, hmkdir⟩ := Option.bind_eq_some_iff.mp h
  obtain ⟨hnone, -⟩ := FileTree.entries_of_mkdir hmkdir
  intro q e hq
  have hne : q ≠ p := by
    rintro rfl
    rw [hnone] at hq
    cases hq
  rw [FileTree.lookup_of_mkdir hmkdir hne, hq]

/-- A path leads to the directory that has been made at it. -/
theorem exists_of_mkdirPath (h : t.mkdirPath maxLinks path = some t') :
    ∃ p, t.locate maxLinks path = some p ∧ t.mkdir p = some t' ∧ t'.lookup p = some .dir ∧
      t'.resolvePath maxLinks false path = .ok p := by
  have hpart := partOf_of_mkdirPath h
  obtain ⟨p, hp, hmkdir⟩ := Option.bind_eq_some_iff.mp h
  obtain ⟨-, hentries⟩ := FileTree.entries_of_mkdir hmkdir
  have hdir : t'.lookup p = some .dir := t'.lookup_of_mem (by simp [hentries])
  exact ⟨p, hp, hmkdir, hdir,
    resolvePath_of_locate (locate_of_partOf hpart hp) hdir (.inl rfl)⟩

theorem isDirectory_of_mkdirPath (h : t.mkdirPath maxLinks path = some t') :
    IsDirectory maxLinks path t' := by
  obtain ⟨p, -, -, hdir, hlast⟩ := exists_of_mkdirPath h
  exact isDirectory_iff.mpr ⟨p, resolvePath_true_of_isDir hlast (t'.isDir_iff.mpr hdir), hdir⟩

theorem isDirectory_of_mkdirPath_append (hname : IsComponent name) (hdir : dir ≠ [])
    (h : t.mkdirPath maxLinks (dir ++ 47 :: name) = some t') : IsDirectory maxLinks dir t := by
  obtain ⟨p, hp, hmkdir⟩ := Option.bind_eq_some_iff.mp h
  obtain ⟨q, hq, rfl⟩ := (locate_append_iff hname hdir).mp hp
  exact isDirectory_iff.mpr ⟨q, hq, t.isDir_iff.mp (FileTree.isDir_of_mkdir hmkdir)⟩

/-- A directory is made only where `stat` reports `ENOENT`. -/
theorem stat_of_mkdirPath (h : t.mkdirPath maxLinks path = some t') :
    t.stat maxLinks path = .error .noEntry := by
  obtain ⟨p, hp, hmkdir⟩ := Option.bind_eq_some_iff.mp h
  obtain ⟨hnone, -⟩ := FileTree.entries_of_mkdir hmkdir
  obtain ⟨init, name, q, hinit, hname, hq, rfl⟩ := exists_of_locate hp
  obtain ⟨k, hsteps, -⟩ := exists_stepsOf_eq path
  have hwalk (rest : List (PathStep CString)) :
      t.walk linkTarget true q (.down name :: rest) = .failed .noEntry := by
    simp [FileTree.walk, hnone, FileTree.isDir_of_mkdir hmkdir]
  have hresolve : t.resolve linkTarget true maxLinks [] (stepsOf path) = .error .noEntry := by
    rw [hsteps, hinit, List.map_append, List.map_singleton, stepOf_of_isName hname,
      List.append_assoc, List.singleton_append]
    exact FileTree.resolve_append (List.cons_ne_nil _ _) hq
      (FileTree.resolve_of_failed (hwalk _))
  have hpath : path ≠ [] := by
    rintro rfl
    simp [componentsOf, List.rdropWhile_singleton] at hinit
  rw [stat, resolvePath, if_neg hpath, hresolve]
  rfl

/-- Nothing is made where something is. -/
theorem mkdirPath_of_lstat (hname : IsComponent name) (hdir : dir ≠ [])
    (h : t.lstat maxLinks (dir ++ 47 :: name) = some e) :
    t.mkdirPath maxLinks (dir ++ 47 :: name) = none := by
  obtain ⟨p, hp, hlookup⟩ := exists_of_lstat h
  obtain ⟨q, hq, -, rfl⟩ := (resolvePath_append_iff hname hdir).mp hp
  rw [mkdirPath, locate_append hname hq, Option.bind_some]
  by_contra hmade
  obtain ⟨t', hmkdir⟩ := Option.ne_none_iff_exists'.mp hmade
  rw [(FileTree.entries_of_mkdir hmkdir).1] at hlookup
  cases hlookup

theorem wellNamed_of_mkdirPath (hnamed : WellNamed t)
    (h : t.mkdirPath maxLinks path = some t') : WellNamed t' := by
  obtain ⟨p, hp, hmkdir⟩ := Option.bind_eq_some_iff.mp h
  obtain ⟨-, hentries⟩ := FileTree.entries_of_mkdir hmkdir
  obtain ⟨init, name, q, hinit, hname, -, rfl⟩ := exists_of_locate hp
  have hdir : t'.lookup (name :: q) = some .dir := t'.lookup_of_mem (by simp [hentries])
  intro x hx n hn
  rw [hentries] at hx
  rcases List.mem_append.mp hx with hx | hx
  · exact hnamed x hx n hn
  obtain rfl := List.mem_singleton.mp hx
  rcases List.mem_cons.mp hn with rfl | hn
  · obtain ⟨hne, hdot, hdots⟩ : n ≠ [] ∧ n ≠ cstring "." ∧ n ≠ cstring ".." := by
      simpa [isName] using hname
    have hmem : n ∈ path.splitOn 47 :=
      (List.rdropWhile_prefix _ _).subset (show n ∈ componentsOf path by simp [hinit])
    exact ⟨hne, hdot, hdots, not_mem_of_mem_splitOn hmem⟩
  · have hq : q ≠ [] := List.ne_nil_of_mem hn
    have hparent := FileTree.lookup_of_mkdir hmkdir (List.cons_ne_self name q).symm
    rw [t'.lookup_parent (hdir ▸ Option.some_ne_none _)] at hparent
    exact hnamed (q, .dir) (t.mem_of_lookup hq hparent.symm) n hn

theorem exists_of_unlinkPath (h : t.unlinkPath maxLinks path = some t') :
    ∃ p, t.resolvePath maxLinks false path = .ok p ∧ t.unlink p = some t' := by
  obtain ⟨hslash, hrest⟩ := Option.ite_none_left_eq_some.mp h
  obtain ⟨p, hp, hunlink⟩ := Option.bind_eq_some_iff.mp hrest
  obtain ⟨⟨data, hdata⟩, -⟩ := FileTree.entries_of_unlink hunlink
  exact ⟨p, resolvePath_of_locate hp hdata (.inr hslash), hunlink⟩

theorem exists_of_rmdirPath (h : t.rmdirPath maxLinks path = some t') :
    ∃ p, t.resolvePath maxLinks false path = .ok p ∧ t.rmdir p = some t' := by
  obtain ⟨p, hp, hrmdir⟩ := Option.bind_eq_some_iff.mp h
  obtain ⟨⟨hdir, -⟩, -⟩ := FileTree.entries_of_rmdir hrmdir
  exact ⟨p, resolvePath_of_locate hp hdir (.inl rfl), hrmdir⟩

end FileSystem

end OcreRuntime
