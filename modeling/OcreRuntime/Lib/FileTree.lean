import Mathlib.Data.List.Basic
import Mathlib.Data.List.Nodup
import Mathlib.Data.List.Infix
import Mathlib.Tactic.Common

/-!
# File trees

A tree is a list of entries, in the order in which a directory shows them. A path
is listed from its last component up, so that the directory of `n :: p` is `p` and
the entries at or below `p` are those whose path has the suffix `p`. The root `[]`
is a directory that has no entry of its own.
-/

inductive FileEntry (Data : Type*)
  | dir
  | other (data : Data)
  deriving DecidableEq, Repr

def FileEntry.isDir {Data : Type*} : FileEntry Data → Bool
  | dir => true
  | other _ => false

/-- Every path is listed once, and what contains an entry is a directory. -/
@[ext] structure FileTree (Name Data : Type*) where
  entries : List (List Name × FileEntry Data)
  nodup : (entries.map Prod.fst).Nodup
  named : ∀ x ∈ entries, x.1 ≠ []
  parent : ∀ n p e, (n :: p, e) ∈ entries → p = [] ∨ (p, .dir) ∈ entries

namespace FileTree

variable {Name Data : Type*} (t : FileTree Name Data)

/-- Keep some entries, with the directories that contain them. -/
def filter (keep : List Name → Bool)
    (h : ∀ n p e, (n :: p, e) ∈ t.entries → keep (n :: p) = true → p ≠ [] → keep p = true) :
    FileTree Name Data where
  entries := t.entries.filter fun x ↦ keep x.1
  nodup := t.nodup.sublist (List.filter_sublist.map _)
  named x hx := t.named x (List.mem_of_mem_filter hx)
  parent n p e hx := by
    obtain ⟨hmem, hkeep⟩ := List.mem_filter.mp hx
    by_cases hp : p = []
    · exact .inl hp
    · refine .inr (List.mem_filter.mpr ⟨?_, h n p e hmem hkeep hp⟩)
      exact (t.parent n p e hmem).resolve_left hp

/-- From `t` to `t'` nothing but entries at or below `p` has been removed. -/
def Within (p : List Name) (t t' : FileTree Name Data) : Prop :=
  ∃ keep : List Name → Bool, (∀ q, ¬ p <:+ q → keep q = true) ∧
    t'.entries = t.entries.filter fun x ↦ keep x.1

namespace Within

variable {t} {t' t'' : FileTree Name Data} {p q : List Name}

theorem refl (p : List Name) (t : FileTree Name Data) : Within p t t :=
  ⟨fun _ ↦ true, fun _ _ ↦ rfl, by simp⟩

theorem trans (h : Within p t t') (h' : Within p t' t'') : Within p t t'' := by
  obtain ⟨keep, hkeep, heq⟩ := h
  obtain ⟨keep', hkeep', heq'⟩ := h'
  refine ⟨fun q ↦ keep q && keep' q, fun q hq ↦ by simp [hkeep q hq, hkeep' q hq], ?_⟩
  rw [heq', heq, List.filter_filter]
  simp only [Bool.and_comm]

theorem mono (h : Within q t t') (hpq : p <:+ q) : Within p t t' := by
  obtain ⟨keep, hkeep, heq⟩ := h
  exact ⟨keep, fun r hr ↦ hkeep r fun hqr ↦ hr (hpq.trans hqr), heq⟩

theorem sublist (h : Within p t t') : t'.entries.Sublist t.entries := by
  obtain ⟨keep, -, heq⟩ := h
  exact heq ▸ List.filter_sublist

end Within

variable [DecidableEq Name]

def lookup (p : List Name) : Option (FileEntry Data) :=
  if p = [] then some .dir else (t.entries.find? (·.1 = p)).map Prod.snd

/-- The name under which `q` lies in the directory `p`. -/
def nameIn (p q : List Name) : Option Name :=
  match q with
  | n :: q => if q = p then some n else none
  | [] => none

def children (p : List Name) : List Name :=
  t.entries.filterMap fun x ↦ nameIn p x.1

theorem mem_of_lookup {p : List Name} {e : FileEntry Data} (hp : p ≠ [])
    (h : t.lookup p = some e) : (p, e) ∈ t.entries := by
  rw [lookup, if_neg hp, Option.map_eq_some_iff] at h
  obtain ⟨⟨q, e'⟩, hfind, rfl⟩ := h
  have hq : q = p := by simpa using List.find?_some hfind
  exact hq ▸ List.mem_of_find?_eq_some hfind

theorem lookup_of_mem {p : List Name} {e : FileEntry Data} (h : (p, e) ∈ t.entries) :
    t.lookup p = some e := by
  rw [lookup, if_neg (t.named _ h), Option.map_eq_some_iff]
  refine ⟨(p, e), ?_, rfl⟩
  cases hfind : t.entries.find? (·.1 = p) with
  | none => simpa using List.find?_eq_none.mp hfind _ h
  | some x =>
      have hx : x.1 = p := by simpa using List.find?_some hfind
      exact congrArg some
        (List.inj_on_of_nodup_map t.nodup (List.mem_of_find?_eq_some hfind) h hx)

theorem lookup_eq_some_iff {p : List Name} {e : FileEntry Data} (hp : p ≠ []) :
    t.lookup p = some e ↔ (p, e) ∈ t.entries :=
  ⟨t.mem_of_lookup hp, t.lookup_of_mem⟩

@[simp] theorem lookup_nil : t.lookup [] = some .dir := by
  simp [lookup]

theorem lookup_parent {n : Name} {p : List Name} (h : t.lookup (n :: p) ≠ none) :
    t.lookup p = some .dir := by
  obtain ⟨e, he⟩ := Option.ne_none_iff_exists'.mp h
  rcases t.parent n p e (t.mem_of_lookup (List.cons_ne_nil n p) he) with rfl | hp
  · exact t.lookup_nil
  · exact t.lookup_of_mem hp

theorem lookup_of_below {p q : List Name} (hq : t.lookup q ≠ none) (hpq : p <:+ q)
    (hne : q ≠ p) : t.lookup p = some .dir := by
  induction q with
  | nil => exact absurd (List.suffix_nil.mp hpq).symm hne
  | cons n q ih =>
      have hdir := t.lookup_parent hq
      rcases List.suffix_cons_iff.mp hpq with h | h
      · exact absurd h.symm hne
      · by_cases hqp : q = p
        · exact hqp ▸ hdir
        · exact ih (by simp [hdir]) h hqp

theorem mem_children {p : List Name} {n : Name} :
    n ∈ t.children p ↔ t.lookup (n :: p) ≠ none := by
  rw [children, List.mem_filterMap, Option.ne_none_iff_exists']
  constructor
  · rintro ⟨⟨q, e⟩, hx, hname⟩
    cases q with
    | nil => simp [nameIn] at hname
    | cons m q =>
        obtain ⟨rfl, rfl⟩ : q = p ∧ m = n := by
          simpa [nameIn] using hname
        exact ⟨e, t.lookup_of_mem hx⟩
  · rintro ⟨e, he⟩
    exact ⟨(n :: p, e), t.mem_of_lookup (List.cons_ne_nil n p) he, by simp [nameIn]⟩

theorem nodup_children (p : List Name) : (t.children p).Nodup := by
  have hmap : t.children p = (t.entries.map Prod.fst).filterMap (nameIn p) := by
    rw [children, List.filterMap_map]
    rfl
  rw [hmap]
  refine t.nodup.filterMap fun q q' n hn hn' ↦ ?_
  cases q with
  | nil => simp [nameIn] at hn
  | cons m q =>
      cases q' with
      | nil => simp [nameIn] at hn'
      | cons m' q' =>
          simp only [nameIn, Option.mem_def, Option.ite_none_right_eq_some,
            Option.some.injEq] at hn hn'
          rw [hn.1, hn.2, hn'.1, hn'.2]

/-- Without a directory there is nothing below either. -/
theorem lookup_eq_none_of_suffix {p q : List Name} (hp : t.lookup p = none) (hpq : p <:+ q) :
    t.lookup q = none := by
  by_contra hq
  by_cases hne : q = p
  · exact hq (hne ▸ hp)
  · simp [t.lookup_of_below hq hpq hne] at hp

def isDir (p : List Name) : Bool := (t.lookup p).any FileEntry.isDir

def isOther (p : List Name) : Bool := (t.lookup p).any (!·.isDir)

theorem isDir_iff {p : List Name} : t.isDir p = true ↔ t.lookup p = some .dir := by
  unfold isDir
  cases t.lookup p with
  | none => simp
  | some e => cases e <;> simp [FileEntry.isDir]

theorem isOther_iff {p : List Name} :
    t.isOther p = true ↔ ∃ data, t.lookup p = some (.other data) := by
  unfold isOther
  cases t.lookup p with
  | none => simp
  | some e => cases e <;> simp [FileEntry.isDir]

/-- Create an empty directory in one that exists. -/
def mkdir (p : List Name) : Option (FileTree Name Data) :=
  match p with
  | [] => none
  | n :: q =>
      if h : (t.lookup (n :: q)).isNone ∧ t.isDir q then
        some {
          entries := t.entries ++ [(n :: q, .dir)]
          nodup := by
            rw [List.map_append, List.nodup_append_comm]
            refine List.nodup_cons.mpr ⟨fun hmem ↦ ?_, t.nodup⟩
            obtain ⟨⟨_, e⟩, hx, rfl⟩ := List.mem_map.mp hmem
            simp [t.lookup_of_mem hx] at h
          named := by
            intro x hx
            rcases List.mem_append.mp hx with hx | hx
            · exact t.named x hx
            · simp [List.mem_singleton.mp hx]
          parent := by
            intro m r e hx
            rcases List.mem_append.mp hx with hx | hx
            · exact (t.parent m r e hx).imp_right (List.mem_append_left _)
            · obtain ⟨⟨rfl, rfl⟩, -⟩ : (m = n ∧ r = q) ∧ e = .dir := by simpa using hx
              by_cases hr : r = []
              · exact .inl hr
              · exact .inr (List.mem_append_left _ (t.mem_of_lookup hr (t.isDir_iff.mp h.2))) }
      else none

/-- Remove an entry that is not a directory. -/
def unlink (p : List Name) : Option (FileTree Name Data) :=
  if h : t.isOther p then
    some (t.filter (· ≠ p) fun n q e hx _ _ ↦ by
      have hdir := t.lookup_parent (n := n) (p := q) (by simp [t.lookup_of_mem hx])
      have hne : q ≠ p := by
        rintro rfl
        obtain ⟨data, hdata⟩ := t.isOther_iff.mp h
        simp [hdir] at hdata
      simpa using hne)
  else none

/-- Remove an empty directory. -/
def rmdir (p : List Name) : Option (FileTree Name Data) :=
  if h : p ≠ [] ∧ t.isDir p ∧ t.children p = [] then
    some (t.filter (· ≠ p) fun n q e hx _ _ ↦ by
      have hne : q ≠ p := by
        rintro rfl
        have : n ∈ t.children q := t.mem_children.mpr (by simp [t.lookup_of_mem hx])
        simp [h.2.2] at this
      simpa using hne)
  else none

/-- Remove an entry with all that is below it. -/
def removeTree (p : List Name) : FileTree Name Data :=
  t.filter (fun q ↦ ¬ p <:+ q) fun n q e _ hkeep _ ↦ by
    simp only [decide_eq_true_eq] at hkeep ⊢
    exact fun hpq ↦ hkeep (hpq.trans (List.suffix_cons n q))

section Changes

variable {t} {t' t'' : FileTree Name Data} {p q : List Name}

theorem entries_of_mkdir (h : t.mkdir p = some t') :
    t.lookup p = none ∧ t'.entries = t.entries ++ [(p, .dir)] := by
  cases p with
  | nil => cases h
  | cons n p =>
      unfold mkdir at h
      dsimp only at h
      split at h
      · rename_i hnew
        cases h
        exact ⟨by simpa using hnew.1, rfl⟩
      · cases h

theorem isDir_of_mkdir {n : Name} (h : t.mkdir (n :: p) = some t') : t.isDir p = true := by
  unfold mkdir at h
  dsimp only at h
  split at h
  · rename_i hnew
    exact hnew.2
  · cases h

theorem lookup_of_mkdir (h : t.mkdir p = some t') (hq : q ≠ p) : t'.lookup q = t.lookup q := by
  obtain ⟨-, hentries⟩ := entries_of_mkdir h
  by_cases hnil : q = []
  · subst hnil
    simp
  · apply Option.ext
    intro e
    rw [lookup_eq_some_iff _ hnil, lookup_eq_some_iff _ hnil, hentries, List.mem_append]
    simp [hq]

theorem entries_of_unlink (h : t.unlink p = some t') :
    (∃ data, t.lookup p = some (.other data)) ∧
      t'.entries = t.entries.filter fun x ↦ decide (x.1 ≠ p) := by
  unfold unlink at h
  split at h
  · rename_i hother
    cases h
    exact ⟨t.isOther_iff.mp hother, rfl⟩
  · cases h

theorem entries_of_rmdir (h : t.rmdir p = some t') :
    (t.lookup p = some .dir ∧ t.children p = []) ∧
      t'.entries = t.entries.filter fun x ↦ decide (x.1 ≠ p) := by
  unfold rmdir at h
  split at h
  · rename_i hdir
    cases h
    exact ⟨⟨t.isDir_iff.mp hdir.2.1, hdir.2.2⟩, rfl⟩
  · cases h

namespace Within

theorem of_filter (h : t'.entries = t.entries.filter fun x ↦ decide (x.1 ≠ p)) :
    Within p t t' := by
  refine ⟨fun q ↦ decide (q ≠ p), fun q hq ↦ ?_, h⟩
  have hne : q ≠ p := by
    rintro rfl
    exact hq List.suffix_rfl
  simpa using hne

theorem lookup_of_ne_none (h : Within p t t') (hq : t'.lookup q ≠ none) :
    t'.lookup q = t.lookup q := by
  by_cases hnil : q = []
  · subst hnil
    simp
  · obtain ⟨e, he⟩ := Option.ne_none_iff_exists'.mp hq
    rw [he, t.lookup_of_mem (h.sublist.subset (t'.mem_of_lookup hnil he))]

theorem lookup_of_not_suffix (h : Within p t t') (hq : ¬ p <:+ q) :
    t'.lookup q = t.lookup q := by
  by_cases hnil : q = []
  · subst hnil
    simp
  · obtain ⟨keep, hkeep, heq⟩ := h
    apply Option.ext
    intro e
    rw [lookup_eq_some_iff _ hnil, lookup_eq_some_iff _ hnil, heq, List.mem_filter]
    simp [hkeep q hq]

theorem lookup_above {n : Name} (h : Within (n :: p) t t') : t'.lookup p = t.lookup p := by
  apply h.lookup_of_not_suffix
  intro hsuffix
  have hlength := hsuffix.length_le
  simp only [List.length_cons] at hlength
  omega

theorem lookup_sibling {m n : Name} (h : Within (n :: p) t t') (hm : m ≠ n) :
    t'.lookup (m :: p) = t.lookup (m :: p) := by
  apply h.lookup_of_not_suffix
  intro hsuffix
  apply hm
  exact (List.cons.inj (hsuffix.eq_of_length (by simp))).1.symm

/-- When nothing is left at or below `p`, the whole tree there has been removed. -/
theorem eq_removeTree (h : Within p t t') (hgone : t'.lookup p = none) :
    t' = t.removeTree p := by
  obtain ⟨keep, hkeep, heq⟩ := h
  apply FileTree.ext
  rw [heq]
  refine List.filter_congr fun x hx ↦ ?_
  by_cases hpx : p <:+ x.1
  · have hnone : t'.lookup x.1 = none := t'.lookup_eq_none_of_suffix hgone hpx
    have hnot : keep x.1 ≠ true := by
      intro htrue
      have hmem : x ∈ t'.entries := heq ▸ List.mem_filter.mpr ⟨hx, htrue⟩
      simp [t'.lookup_of_mem (p := x.1) (e := x.2) hmem] at hnone
    simpa [hpx] using hnot
  · simpa [hpx] using hkeep x.1 hpx

end Within

theorem lookup_of_entries_filter (h : t'.entries = t.entries.filter fun x ↦ decide (x.1 ≠ p))
    (hp : p ≠ []) : t'.lookup p = none := by
  by_contra hne
  obtain ⟨e, he⟩ := Option.ne_none_iff_exists'.mp hne
  have hmem := t'.mem_of_lookup hp he
  simp [h] at hmem

/-- Removing the directory that has just been made gives the tree back. -/
theorem removeTree_of_mkdir (h : t.mkdir p = some t') : t'.removeTree p = t := by
  obtain ⟨hnone, hentries⟩ := entries_of_mkdir h
  apply FileTree.ext
  have houtside : ∀ x ∈ t.entries, ¬ p <:+ x.1 := by
    intro x hx hpx
    have := t.lookup_eq_none_of_suffix hnone hpx
    simp [t.lookup_of_mem (p := x.1) (e := x.2) hx] at this
  have hfilter : t.entries.filter (fun x ↦ decide (¬ p <:+ x.1)) = t.entries := by
    rw [List.filter_eq_self]
    intro x hx
    simpa using houtside x hx
  change t'.entries.filter (fun x ↦ decide (¬ p <:+ x.1)) = t.entries
  rw [hentries, List.filter_append, hfilter]
  simp

end Changes

section Size

/-- The number of entries below `p`. -/
def below (p : List Name) : ℕ := t.entries.countP fun x ↦ p <:+ x.1 ∧ x.1 ≠ p

/-- The number of entries at or below `n :: p` for one of the names. -/
def among (p : List Name) (names : List Name) : ℕ :=
  t.entries.countP fun x ↦ ∃ n ∈ names, n :: p <:+ x.1

theorem countP_add_countP_le {α : Type*} {P Q R : α → Bool} (l : List α)
    (hP : ∀ x, P x = true → R x = true) (hQ : ∀ x, Q x = true → R x = true)
    (hPQ : ∀ x, P x = true → Q x = false) : l.countP P + l.countP Q ≤ l.countP R := by
  induction l with
  | nil => simp
  | cons x l ih =>
      have := hP x
      have := hQ x
      have := hPQ x
      simp only [List.countP_cons]
      cases hx : P x <;> cases hx' : Q x <;> cases hx'' : R x <;> simp_all <;> omega

theorem among_le_below (p : List Name) (names : List Name) : t.among p names ≤ t.below p := by
  refine List.countP_mono_left fun x _ hx ↦ ?_
  obtain ⟨n, -, hn⟩ : ∃ n ∈ names, n :: p <:+ x.1 := by simpa using hx
  have hne : x.1 ≠ p := by
    intro heq
    have := hn.length_le
    simp only [heq, List.length_cons] at this
    omega
  simpa using ⟨(List.suffix_cons n p).trans hn, hne⟩

/-- Names in one directory have disjoint trees. -/
theorem below_add_among_le {p : List Name} {n : Name} {names : List Name} (hn : n ∉ names)
    (hlookup : t.lookup (n :: p) ≠ none) :
    t.below (n :: p) + 1 + t.among p names ≤ t.among p (n :: names) := by
  have hself : 1 ≤ t.entries.countP fun x ↦ decide (x.1 = n :: p) := by
    obtain ⟨e, he⟩ := Option.ne_none_iff_exists'.mp hlookup
    exact List.countP_pos_iff.mpr ⟨_, t.mem_of_lookup (List.cons_ne_nil n p) he, by simp⟩
  have htree : t.below (n :: p) + t.entries.countP (fun x ↦ decide (x.1 = n :: p)) ≤
      t.entries.countP fun x ↦ n :: p <:+ x.1 := by
    refine countP_add_countP_le _ ?_ ?_ ?_ <;> simp +contextual
  have hdisjoint : t.entries.countP (fun x ↦ n :: p <:+ x.1) + t.among p names ≤
      t.among p (n :: names) := by
    refine countP_add_countP_le _ ?_ ?_ ?_
    · simp +contextual
    · simp +contextual
    · intro x hx
      simp only [decide_eq_true_eq] at hx
      simp only [decide_eq_false_iff_not, not_exists, not_and]
      intro m hm hmx
      have hsuffix := List.suffix_of_suffix_length_le hx hmx (by simp)
      have heq := hsuffix.eq_of_length (by simp)
      simp only [List.cons.injEq, and_true] at heq
      exact hn (heq ▸ hm)
  omega

theorem Within.among_le {t t' : FileTree Name Data} {p : List Name} (h : Within p t t')
    (q : List Name) (names : List Name) : t'.among q names ≤ t.among q names :=
  h.sublist.countP_le

end Size

end FileTree
