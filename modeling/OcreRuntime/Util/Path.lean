import OcreRuntime.Util.RmRf

/-!
# Components of paths

What `pathOf` makes of a path that is put together from a directory and a name.
-/

namespace OcreRuntime

/-- A component of a path that is the name of an entry. -/
structure IsComponent (name : CString) : Prop where
  ne_nil : name ≠ []
  ne_dot : name ≠ cstring "."
  ne_dots : name ≠ cstring ".."
  no_slash : 47 ∉ name

instance (name : CString) : Decidable (IsComponent name) :=
  decidable_of_iff
    (name ≠ [] ∧ name ≠ cstring "." ∧ name ≠ cstring ".." ∧ 47 ∉ name)
    ⟨fun ⟨hne, hdot, hdots, hslash⟩ ↦ ⟨hne, hdot, hdots, hslash⟩,
      fun h ↦ ⟨h.ne_nil, h.ne_dot, h.ne_dots, h.no_slash⟩⟩

theorem pathOf_append_of_component {name : CString} (h : IsComponent name) (dir : CString) :
    pathOf (dir ++ 47 :: name) = name :: pathOf dir := by
  rw [pathOf, List.splitOn_append_cons_self, List.splitOn_eq_singleton h.no_slash,
    List.foldl_append]
  simp [h.ne_nil, h.ne_dot, h.ne_dots, pathOf]

theorem not_mem_of_mem_splitOn {α : Type*} [BEq α] [LawfulBEq α] {sep : α} {s c : List α}
    (h : c ∈ s.splitOn sep) : sep ∉ c := by
  by_cases hsep : sep ∈ s
  · obtain ⟨as, bs, rfl, has⟩ := List.eq_append_cons_of_mem hsep
    rw [List.splitOn_append_cons_self, List.splitOn_eq_singleton has] at h
    rcases List.mem_append.mp h with h | h
    · obtain rfl := List.mem_singleton.mp h
      exact has
    · exact not_mem_of_mem_splitOn h
  · rw [List.splitOn_eq_singleton hsep] at h
    obtain rfl := List.mem_singleton.mp h
    exact hsep
termination_by s.length
decreasing_by
  subst_vars
  simp only [List.length_append, List.length_cons]
  omega

/-- A component that goes down into a directory. -/
def isName (c : CString) : Bool := c ≠ [] ∧ c ≠ cstring "." ∧ c ≠ cstring ".."

/-- What one component does to the directory reached so far. -/
def walkComponent (p : List CString) (c : CString) : List CString :=
  if c = [] ∨ c = cstring "." then p else if c = cstring ".." then p.tail else c :: p

theorem walkComponent_of_isName {c : CString} (h : isName c = true) (p : List CString) :
    walkComponent p c = c :: p := by
  obtain ⟨hne, hdot, hdots⟩ : c ≠ [] ∧ c ≠ cstring "." ∧ c ≠ cstring ".." := by
    simpa [isName] using h
  simp [walkComponent, hne, hdot, hdots]

theorem walkComponent_dots (p : List CString) : walkComponent p (cstring "..") = p.tail := by
  rw [walkComponent, if_neg (by decide), if_pos rfl]

theorem walkComponent_of_skip {c : CString} (hname : isName c = false) (hdots : c ≠ cstring "..")
    (p : List CString) : walkComponent p c = p := by
  have hskip : c = [] ∨ c = cstring "." := by
    by_contra h
    rw [not_or] at h
    simp [isName, h.1, h.2, hdots] at hname
  rw [walkComponent, if_pos hskip]

/-- The depth that a path reaches is the largest surplus of names over `..` in one of its
final parts. -/
theorem le_length_foldl_walkComponent (cs : List CString) (k : ℕ) :
    k ≤ (cs.foldl walkComponent []).length ↔
      ∃ r, r <:+ cs ∧ r.count (cstring "..") + k ≤ r.countP isName := by
  induction cs using List.reverseRecOn generalizing k with
  | nil => simp [List.suffix_nil]
  | append_singleton cs c ih =>
      have hsuffix : (∃ r, r <:+ cs ++ [c] ∧ r.count (cstring "..") + k ≤ r.countP isName) ↔
          k = 0 ∨ ∃ r, r <:+ cs ∧ (r ++ [c]).count (cstring "..") + k ≤
            (r ++ [c]).countP isName := by
        constructor
        · rintro ⟨r, hr, hle⟩
          rcases List.suffix_concat_iff.mp hr with rfl | ⟨t, rfl, ht⟩
          · exact .inl (by simpa using hle)
          · exact .inr ⟨t, ht, hle⟩
        · rintro (rfl | ⟨t, ht, hle⟩)
          · exact ⟨[], List.nil_suffix, by simp⟩
          · exact ⟨t ++ [c], List.suffix_concat_iff.mpr (.inr ⟨t, rfl, ht⟩), hle⟩
      rw [hsuffix, List.foldl_append, List.foldl_cons, List.foldl_nil]
      simp only [List.count_append, List.countP_append, List.count_singleton,
        List.countP_singleton]
      cases hname : isName c with
      | true =>
          have hdots : ¬ (c == cstring "..") = true := by
            rintro h
            rw [beq_iff_eq.mp h] at hname
            exact absurd hname (by decide)
          rw [walkComponent_of_isName hname, List.length_cons, if_neg hdots]
          cases k with
          | zero => simp
          | succ k => simpa [← Nat.add_assoc] using ih k
      | false =>
          by_cases hdots : c = cstring ".."
          · subst hdots
            rw [walkComponent_dots, List.length_tail, beq_self_eq_true]
            cases k with
            | zero => simp
            | succ k =>
                have hdeeper := ih (k + 2)
                simp only [if_true, Nat.succ_ne_zero, false_or, Bool.false_eq_true, if_false,
                  Nat.add_zero, Nat.add_assoc, Nat.add_comm 1]
                rw [← hdeeper]
                omega
          · rw [walkComponent_of_skip hname hdots, ih k]
            have hne : ¬ (c == cstring "..") = true := fun h ↦ hdots (beq_iff_eq.mp h)
            cases k with
            | zero =>
                simp only [true_or, iff_true, Nat.add_zero]
                exact ⟨[], List.nil_suffix, by simp⟩
            | succ k => simp [hne]

/-- Some final part of the path has more names than `..`. -/
def KeepsName (path : CString) : Prop :=
  ∃ r ∈ (path.splitOn 47).tails, r.count (cstring "..") < r.countP isName

instance (path : CString) : Decidable (KeepsName path) :=
  decidable_of_iff ((path.splitOn 47).tails.any fun r ↦ r.count (cstring "..") < r.countP isName)
    (by simp [KeepsName])

/-- A path denotes the root exactly if all its names are taken back. -/
theorem pathOf_ne_nil_iff (path : CString) : pathOf path ≠ [] ↔ KeepsName path := by
  have hdepth := le_length_foldl_walkComponent (path.splitOn 47) 1
  rw [← List.length_pos_iff]
  refine hdepth.trans ?_
  simp only [KeepsName, List.mem_tails, Nat.lt_iff_add_one_le]

/-- The names of all files are components. -/
def WellNamed (tree : FileSystem) : Prop :=
  ∀ x ∈ tree.entries, ∀ name ∈ x.1, IsComponent name

instance (tree : FileSystem) : Decidable (WellNamed tree) :=
  inferInstanceAs (Decidable (∀ _ ∈ _, ∀ _ ∈ _, _))

theorem WellNamed.isComponent {n : CString} {p : List CString} {tree : FileSystem}
    (h : WellNamed tree) (hn : tree.lookup (n :: p) ≠ none) : IsComponent n := by
  obtain ⟨e, he⟩ := Option.ne_none_iff_exists'.mp hn
  exact h _ (tree.mem_of_lookup (List.cons_ne_nil n p) he) n List.mem_cons_self

theorem WellNamed.noDots {tree : FileSystem} (h : WellNamed tree) (p : List CString) :
    NoDots p tree := fun _ _ _ hn ↦ ⟨(h.isComponent hn).ne_dot, (h.isComponent hn).ne_dots⟩

theorem WellNamed.of_within {p : List CString} {tree tree' : FileSystem} (h : WellNamed tree)
    (hwithin : FileTree.Within p tree tree') : WellNamed tree' :=
  fun x hx ↦ h x (hwithin.sublist.subset hx)

end OcreRuntime
