import OcreRuntime.Lib.FileTree

/-!
# Paths through links

A path is a list of steps from a directory. Some entries are links, and a path that leads
through a link goes on from where the target of the link leads. Whether a link at the end of
the path is followed as well is up to the caller, and there is a bound on the links that one
path may follow.

In a tree with fewer entries a path leads to the same place, or it fails.
-/

/-- A component of a path. -/
inductive PathStep (Name : Type*)
  | stay
  | up
  | down (n : Name)
  deriving DecidableEq

/-- A path from the root, or from the directory in which it is used. -/
structure LinkPath (Name : Type*) where
  absolute : Bool
  steps : List (PathStep Name)

inductive PathError
  | noEntry
  | notDirectory
  | tooManyLinks
  deriving DecidableEq

/-- How a path ends before its first link; a link leaves a path of its own. -/
inductive Walk (Name : Type*)
  | failed (error : PathError)
  | reached (p : List Name)
  | link (p : List Name) (steps : List (PathStep Name))

/-- The place to which a walk has come satisfies a condition. -/
def Walk.Keeps {Name : Type*} (P : List Name → Prop) : Walk Name → Prop
  | failed _ => True
  | reached q => P q
  | link p _ => P p

namespace FileTree

variable {Name Data : Type*} [DecidableEq Name]

section Resolution

variable (target : Data → Option (LinkPath Name)) (t : FileTree Name Data) (follow : Bool)

def walk : List Name → List (PathStep Name) → Walk Name
  | p, [] => .reached p
  | p, step :: steps =>
      if ¬ t.isDir p then .failed .notDirectory
      else match step with
        | .stay => walk p steps
        | .up => walk p.tail steps
        | .down n =>
            match t.lookup (n :: p) with
            | none => .failed .noEntry
            | some .dir => walk (n :: p) steps
            | some (.other data) =>
                match target data with
                | none => walk (n :: p) steps
                | some l =>
                    if steps.isEmpty ∧ ¬ follow then .reached (n :: p)
                    else .link (if l.absolute then [] else p) (l.steps ++ steps)

/-- Where a path leads that follows at most so many links. -/
def resolve : ℕ → List Name → List (PathStep Name) → Except PathError (List Name)
  | 0, p, steps =>
      match t.walk target follow p steps with
      | .failed error => .error error
      | .reached q => .ok q
      | .link _ _ => .error .tooManyLinks
  | links + 1, p, steps =>
      match t.walk target follow p steps with
      | .failed error => .error error
      | .reached q => .ok q
      | .link p' steps' => resolve links p' steps'

end Resolution

section Walks

variable {target : Data → Option (LinkPath Name)} {t t' : FileTree Name Data} {follow : Bool}
  {p q : List Name} {n : Name} {steps rest : List (PathStep Name)} {links : ℕ}

theorem resolve_of_reached (h : t.walk target follow p steps = .reached q) (links : ℕ) :
    t.resolve target follow links p steps = .ok q := by
  cases links <;> simp [resolve, h]

theorem resolve_of_failed {error : PathError} (h : t.walk target follow p steps = .failed error)
    (links : ℕ) : t.resolve target follow links p steps = .error error := by
  cases links <;> simp [resolve, h]

/-- A path that leads somewhere reaches it at once, or from behind its first link. -/
theorem resolve_eq_ok_iff :
    t.resolve target follow links p steps = .ok q ↔
      t.walk target follow p steps = .reached q ∨
        ∃ links' p' steps', links = links' + 1 ∧
          t.walk target follow p steps = .link p' steps' ∧
          t.resolve target follow links' p' steps' = .ok q := by
  cases links with
  | zero => cases hwalk : t.walk target follow p steps <;> simp [resolve, hwalk]
  | succ links => cases hwalk : t.walk target follow p steps <;> simp [resolve, hwalk]

/-- What is behind a beginning of a path is walked from where that leads. -/
theorem walk_append (hrest : rest ≠ []) :
    t.walk target follow p (steps ++ rest) =
      match t.walk target true p steps with
      | .failed error => .failed error
      | .reached q => t.walk target follow q rest
      | .link p' steps' => .link p' (steps' ++ rest) := by
  induction steps generalizing p with
  | nil => simp [walk]
  | cons step steps ih =>
      simp only [List.cons_append, walk]
      split
      next => rfl
      next =>
        cases step with
        | stay => exact ih
        | up => exact ih
        | down n =>
            dsimp only
            split
            next => rfl
            next => exact ih
            next data hdata =>
              cases target data with
              | none => exact ih
              | some l => simp [hrest]

/-- A link at the end is all that following makes a difference for. -/
theorem walk_true_or (target : Data → Option (LinkPath Name)) (t : FileTree Name Data)
    (p : List Name) (steps : List (PathStep Name)) :
    t.walk target true p steps = t.walk target false p steps ∨
      ∃ q data, t.walk target false p steps = .reached q ∧ t.lookup q = some (.other data) := by
  induction steps generalizing p with
  | nil => exact .inl rfl
  | cons step steps ih =>
      simp only [walk]
      split
      next => exact .inl rfl
      next =>
        cases step with
        | stay => exact ih p
        | up => exact ih p.tail
        | down n =>
            dsimp only
            cases hlookup : t.lookup (n :: p) with
            | none => exact .inl rfl
            | some e =>
                cases e with
                | dir => exact ih (n :: p)
                | other data =>
                    dsimp only
                    cases target data with
                    | none => exact ih (n :: p)
                    | some l =>
                        cases steps with
                        | nil => exact .inr ⟨n :: p, data, by simp, hlookup⟩
                        | cons => exact .inl (by simp)

/-- The induction rule for paths that lead to `q`, over the links on the way. -/
theorem resolve_induction {P : ℕ → List Name → List (PathStep Name) → Prop}
    (hreached : ∀ links p steps, t.walk target follow p steps = .reached q → P links p steps)
    (hlink : ∀ links p steps p' steps', t.walk target follow p steps = .link p' steps' →
      t.resolve target follow links p' steps' = .ok q → P links p' steps' →
      P (links + 1) p steps)
    (h : t.resolve target follow links p steps = .ok q) : P links p steps := by
  induction links generalizing p steps with
  | zero =>
      rcases resolve_eq_ok_iff.mp h with hwalk | ⟨_, _, _, hzero, -⟩
      · exact hreached 0 p steps hwalk
      · cases hzero
  | succ links ih =>
      rcases resolve_eq_ok_iff.mp h with hwalk | ⟨_, p', steps', hsucc, hwalk, hrest⟩
      · exact hreached _ p steps hwalk
      · obtain rfl := Nat.succ.inj hsucc
        exact hlink links p steps p' steps' hwalk hrest (ih hrest)

theorem resolve_of_link {p' : List Name} {steps' : List (PathStep Name)}
    (hwalk : t.walk target follow p steps = .link p' steps') :
    t.resolve target follow (links + 1) p steps = t.resolve target follow links p' steps' := by
  rw [resolve, hwalk]

/-- A path to a directory leads there whether or not a link at its end is followed. -/
theorem resolve_true_of_isDir (h : t.resolve target false links p steps = .ok q)
    (hdir : t.isDir q = true) : t.resolve target true links p steps = .ok q := by
  refine resolve_induction (P := fun links p steps ↦ t.resolve target true links p steps = .ok q)
    ?_ ?_ h
  · intro links p steps hwalk
    rcases walk_true_or target t p steps with
      hsame | ⟨q', data, hreached, hother⟩
    · exact resolve_of_reached (hsame.trans hwalk) links
    · obtain rfl : q' = q := by simpa [hreached] using hwalk
      simp [t.isDir_iff.mp hdir] at hother
  · intro links p steps p' steps' hwalk _ ih
    rcases walk_true_or target t p steps with
      hsame | ⟨q', data, hreached, -⟩
    · rw [resolve_of_link (hsame.trans hwalk), ih]
    · rw [hreached] at hwalk
      cases hwalk

/-- A longer path leads where the rest of it leads from the end of its beginning. -/
theorem exists_of_resolve_append (hrest : rest ≠ [])
    (h : t.resolve target follow links p (steps ++ rest) = .ok q) :
    ∃ q' links', t.resolve target true links p steps = .ok q' ∧
      t.resolve target follow links' q' rest = .ok q := by
  refine resolve_induction (P := fun links p all ↦ ∀ steps, all = steps ++ rest →
    ∃ q' links', t.resolve target true links p steps = .ok q' ∧
      t.resolve target follow links' q' rest = .ok q) ?_ ?_ h steps rfl
  · rintro links p _ hwalk steps rfl
    rw [walk_append hrest] at hwalk
    split at hwalk
    next => cases hwalk
    next q' hsteps => exact ⟨q', links, resolve_of_reached hsteps _, resolve_of_reached hwalk _⟩
    next => cases hwalk
  · rintro links p _ p' steps' hwalk hresolve ih steps rfl
    rw [walk_append hrest] at hwalk
    split at hwalk
    next => cases hwalk
    next q' hsteps =>
      exact ⟨q', links + 1, resolve_of_reached hsteps _, (resolve_of_link hwalk).trans hresolve⟩
    next p'' steps'' hsteps =>
      obtain ⟨rfl, rfl⟩ := Walk.link.inj hwalk
      obtain ⟨q', links', hq', hq⟩ := ih steps'' rfl
      exact ⟨q', links', (resolve_of_link hsteps).trans hq', hq⟩

theorem resolve_congr {p' : List Name} {steps' : List (PathStep Name)}
    (h : t.walk target follow p steps = t.walk target follow p' steps') (links : ℕ) :
    t.resolve target follow links p steps = t.resolve target follow links p' steps' := by
  cases links <;> simp only [resolve, h]

/-- The rest of a path that leads to the same from the end of its beginning, however many
links may still be followed. -/
theorem resolve_append {q' : List Name} {r : Except PathError (List Name)} (hrest : rest ≠ [])
    (h : t.resolve target true links p steps = .ok q')
    (hr : ∀ links, t.resolve target follow links q' rest = r) :
    t.resolve target follow links p (steps ++ rest) = r := by
  refine resolve_induction
    (P := fun links p steps ↦ t.resolve target follow links p (steps ++ rest) = r) ?_ ?_ h
  · intro links p steps hsteps
    rw [← hr links]
    apply resolve_congr
    rw [walk_append hrest, hsteps]
  · intro links p steps p' steps' hsteps _ ih
    have hwalk' : t.walk target follow p (steps ++ rest) = .link p' (steps' ++ rest) := by
      rw [walk_append hrest, hsteps]
    rw [resolve_of_link hwalk', ih]

/-- One name down from a directory. -/
theorem resolve_down_iff :
    t.resolve target false links p [.down n] = .ok q ↔ t.lookup (n :: p) ≠ none ∧ q = n :: p := by
  have hwalk : t.lookup (n :: p) ≠ none →
      t.walk target false p [.down n] = .reached (n :: p) := by
    intro hentry
    have hdir : t.isDir p = true := t.isDir_iff.mpr (t.lookup_parent hentry)
    cases hlookup : t.lookup (n :: p) with
    | none => exact absurd hlookup hentry
    | some e =>
        cases e with
        | dir => simp [walk, hdir, hlookup]
        | other data => cases htarget : target data <;> simp [walk, hdir, hlookup, htarget]
  constructor
  · intro h
    cases hlookup : t.lookup (n :: p) with
    | none =>
        have hfailed : ∃ error, t.walk target false p [.down n] = .failed error := by
          cases hdir : t.isDir p <;> simp [walk, hdir, hlookup]
        obtain ⟨error, hfailed⟩ := hfailed
        rw [resolve_of_failed hfailed] at h
        cases h
    | some e =>
        have hentry : t.lookup (n :: p) ≠ none := by simp [hlookup]
        rw [resolve_of_reached (hwalk hentry)] at h
        exact ⟨Option.some_ne_none e, (Except.ok.inj h).symm⟩
  · rintro ⟨hentry, rfl⟩
    exact resolve_of_reached (hwalk hentry) links

/-- The entries of a directory that a path leads to. -/
theorem resolve_concat_down_iff :
    t.resolve target false links p (steps ++ [.down n]) = .ok q ↔
      ∃ q', t.resolve target true links p steps = .ok q' ∧ t.lookup (n :: q') ≠ none ∧
        q = n :: q' := by
  constructor
  · intro h
    obtain ⟨q', links', hq', hdown⟩ := exists_of_resolve_append (List.cons_ne_nil _ _) h
    exact ⟨q', hq', resolve_down_iff.mp hdown⟩
  · rintro ⟨q', hq', hdown⟩
    have hlast : t.resolve target false 0 q' [.down n] = .ok q := resolve_down_iff.mpr hdown
    rcases resolve_eq_ok_iff.mp hlast with hwalk | ⟨_, _, _, hzero, -⟩
    · exact resolve_append (List.cons_ne_nil _ _) hq' (resolve_of_reached hwalk)
    · cases hzero

/-- A path that does not end in a name ends in a directory. -/
theorem isDir_of_resolve_concat {step : PathStep Name} (hstep : ∀ n, step ≠ .down n)
    (h : t.resolve target follow links p (steps ++ [step]) = .ok q) : t.isDir q = true := by
  obtain ⟨q', links', -, hlast⟩ := exists_of_resolve_append (List.cons_ne_nil _ _) h
  cases hdir : t.isDir q' with
  | false =>
      have hfailed : t.walk target follow q' [step] = .failed .notDirectory := by
        simp [walk, hdir]
      rw [resolve_of_failed hfailed] at hlast
      cases hlast
  | true =>
      cases step with
      | down n => exact absurd rfl (hstep n)
      | stay =>
          have hwalk : t.walk target follow q' [.stay] = .reached q' := by simp [walk, hdir]
          rw [resolve_of_reached hwalk] at hlast
          rwa [← Except.ok.inj hlast]
      | up =>
          have hwalk : t.walk target follow q' [.up] = .reached q'.tail := by simp [walk, hdir]
          rw [resolve_of_reached hwalk] at hlast
          rw [← Except.ok.inj hlast]
          cases q' with
          | nil => exact hdir
          | cons n q' =>
              have hentry : t.lookup (n :: q') ≠ none := by simp [t.isDir_iff.mp hdir]
              exact t.isDir_iff.mpr (t.lookup_parent hentry)

theorem walk_replicate_stay (hdir : t.isDir p = true) (k : ℕ) :
    t.walk target follow p (List.replicate k .stay) = .reached p := by
  induction k with
  | zero => rfl
  | succ k ih => simpa [List.replicate_succ, walk, hdir] using ih

/-- A path to a directory may be followed by steps that stay there. -/
theorem resolve_append_stay (h : t.resolve target false links p steps = .ok q)
    (hdir : t.isDir q = true) (k : ℕ) :
    t.resolve target false links p (steps ++ List.replicate k .stay) = .ok q := by
  cases k with
  | zero => simpa using h
  | succ k =>
      exact resolve_append (by simp [List.replicate_succ]) (resolve_true_of_isDir h hdir)
        (resolve_of_reached (walk_replicate_stay hdir _))

/-- A walk stays where there is something. -/
theorem exists_of_walk (target : Data → Option (LinkPath Name)) (t : FileTree Name Data)
    (follow : Bool) {p : List Name} (steps : List (PathStep Name)) (hp : t.lookup p ≠ none) :
    (t.walk target follow p steps).Keeps fun q ↦ t.lookup q ≠ none := by
  induction steps generalizing p with
  | nil => exact hp
  | cons step steps ih =>
      simp only [walk]
      split
      next => trivial
      next hdir =>
        cases step with
        | stay => exact ih hp
        | up =>
            cases p with
            | nil => exact ih hp
            | cons n p => exact ih (by simp [t.lookup_parent hp])
        | down n =>
            dsimp only
            cases hlookup : t.lookup (n :: p) with
            | none => trivial
            | some e =>
                have hentry : t.lookup (n :: p) ≠ none := by simp [hlookup]
                cases e with
                | dir => exact ih hentry
                | other data =>
                    dsimp only
                    cases target data with
                    | none => exact ih hentry
                    | some l =>
                        dsimp only
                        split
                        next => exact hentry
                        next =>
                          cases l.absolute with
                          | true => simp [Walk.Keeps]
                          | false => exact hp

/-- A path leads to something that is there. -/
theorem lookup_ne_none_of_resolve (hp : t.lookup p ≠ none)
    (h : t.resolve target follow links p steps = .ok q) : t.lookup q ≠ none := by
  refine resolve_induction (P := fun _ p _ ↦ t.lookup p ≠ none → t.lookup q ≠ none) ?_ ?_ h hp
  · intro links p steps hwalk hp
    have hq := exists_of_walk target t follow steps hp
    rwa [hwalk] at hq
  · intro links p steps p' steps' hwalk _ ih hp
    have hp' := exists_of_walk target t follow steps hp
    rw [hwalk] at hp'
    exact ih hp'

end Walks

section Parts

/-- All entries of one tree are in the other. -/
def PartOf (t t' : FileTree Name Data) : Prop := ∀ q e, t.lookup q = some e → t'.lookup q = some e

variable {target : Data → Option (LinkPath Name)} {t t' t'' : FileTree Name Data} {follow : Bool}
  {p q : List Name} {steps : List (PathStep Name)} {links : ℕ}

theorem PartOf.refl (t : FileTree Name Data) : PartOf t t := fun _ _ h ↦ h

theorem PartOf.trans (h : PartOf t t') (h' : PartOf t' t'') : PartOf t t'' :=
  fun q e hq ↦ h' q e (h q e hq)

theorem Within.partOf (h : Within p t t') : PartOf t' t := by
  intro q e hq
  rw [← h.lookup_of_ne_none (by simp [hq]), hq]

theorem PartOf.isDir (h : PartOf t t') (hdir : t.isDir p = true) : t'.isDir p = true :=
  t'.isDir_iff.mpr (h p .dir (t.isDir_iff.mp hdir))

theorem PartOf.walk (h : PartOf t t') (target : Data → Option (LinkPath Name)) (follow : Bool)
    (p : List Name) (steps : List (PathStep Name)) :
    (∃ error, t.walk target follow p steps = .failed error) ∨
      t'.walk target follow p steps = t.walk target follow p steps := by
  induction steps generalizing p with
  | nil => exact .inr rfl
  | cons step steps ih =>
      cases hdir : t.isDir p with
      | false => exact .inl ⟨.notDirectory, by simp [FileTree.walk, hdir]⟩
      | true =>
          simp only [FileTree.walk, hdir, h.isDir hdir, not_true_eq_false, if_false]
          cases step with
          | stay => exact ih p
          | up => exact ih p.tail
          | down n =>
              dsimp only
              cases hlookup : t.lookup (n :: p) with
              | none => exact .inl ⟨.noEntry, rfl⟩
              | some e =>
                  rw [h (n :: p) e hlookup]
                  cases e with
                  | dir => exact ih (n :: p)
                  | other data =>
                      dsimp only
                      cases target data with
                      | none => exact ih (n :: p)
                      | some l => exact .inr rfl

/-- With more entries a path still leads to the same place. -/
theorem PartOf.resolve (h : PartOf t t') (hq : t.resolve target follow links p steps = .ok q) :
    t'.resolve target follow links p steps = .ok q := by
  have hwalk : ∀ p steps, (∀ error, t.walk target follow p steps ≠ .failed error) →
      t'.walk target follow p steps = t.walk target follow p steps := fun p steps hne ↦
    (h.walk target follow p steps).resolve_left fun ⟨error, herror⟩ ↦ hne error herror
  refine resolve_induction
    (P := fun links p steps ↦ t'.resolve target follow links p steps = .ok q) ?_ ?_ hq
  · intro links p steps hreached
    exact resolve_of_reached ((hwalk p steps (by simp [hreached])).trans hreached) links
  · intro links p steps p' steps' hlink _ ih
    rw [resolve_of_link ((hwalk p steps (by simp [hlink])).trans hlink), ih]

/-- The tree with nothing left below `p`. -/
def emptied (t : FileTree Name Data) (p : List Name) : FileTree Name Data :=
  t.filter (fun q ↦ ¬ (p <:+ q ∧ q ≠ p)) fun n q e _ hkeep _ ↦ by
    simp only [decide_eq_true_eq, not_and, not_not] at hkeep ⊢
    intro hpq
    have heq := hkeep (hpq.trans (List.suffix_cons n q))
    have hlength := hpq.length_le
    rw [← heq, List.length_cons] at hlength
    omega

theorem lookup_emptied {e : FileEntry Data} (h : (t.emptied p).lookup q = some e) :
    t.lookup q = some e ∧ (p <:+ q → q = p) := by
  by_cases hq : q = []
  · subst hq
    refine ⟨by simpa using h, fun hp ↦ (List.suffix_nil.mp hp).symm⟩
  · obtain ⟨hmem, hkeep⟩ := List.mem_filter.mp (mem_of_lookup _ hq h)
    refine ⟨t.lookup_of_mem hmem, fun hp ↦ ?_⟩
    by_contra hne
    simp [hp, hne] at hkeep

theorem lookup_emptied_of_lookup {e : FileEntry Data} (h : t.lookup q = some e)
    (hbelow : p <:+ q → q = p) : (t.emptied p).lookup q = some e := by
  by_cases hq : q = []
  · subst hq
    simpa using h
  · refine lookup_of_mem _ (List.mem_filter.mpr ⟨t.mem_of_lookup hq h, ?_⟩)
    simpa [imp_iff_not_or] using hbelow

theorem children_ne_nil_of_below (hq : t.lookup q ≠ none) (hpq : p <:+ q) (hne : q ≠ p) :
    t.children p ≠ [] := by
  obtain ⟨front, rfl⟩ := hpq
  induction front using List.reverseRecOn with
  | nil => exact absurd rfl hne
  | append_singleton front n _ =>
      rw [List.append_assoc, List.singleton_append] at hq
      have hchild : t.lookup (n :: p) ≠ none := by
        cases front with
        | nil => exact hq
        | cons m front =>
            have hlonger : m :: front ++ n :: p ≠ n :: p := by
              intro heq
              have hlength := congrArg List.length heq
              simp only [List.length_append, List.length_cons] at hlength
              omega
            rw [t.lookup_of_below hq (List.suffix_append _ _) hlonger]
            exact Option.some_ne_none _
      exact List.ne_nil_of_mem (t.mem_children.mpr hchild)

/-- What is left is part of what has been emptied, when nothing is left in `p`. -/
theorem Within.partOf_emptied (h : Within p t t') (hnil : t'.children p = []) :
    PartOf t' (t.emptied p) := by
  intro q e hq
  refine lookup_emptied_of_lookup (h.partOf q e hq) fun hpq ↦ ?_
  by_contra hne
  exact children_ne_nil_of_below (by simp [hq]) hpq hne hnil

theorem PartOf.children_eq_nil (h : PartOf t t') (hnil : t'.children p = []) :
    t.children p = [] := by
  apply List.eq_nil_iff_forall_not_mem.mpr
  intro n hn
  obtain ⟨e, he⟩ := Option.ne_none_iff_exists'.mp (t.mem_children.mp hn)
  have hmem : n ∈ t'.children p := t'.mem_children.mpr (by simp [h _ e he])
  rw [hnil] at hmem
  cases hmem

/-- As long as `p` is there, what has been emptied is part of what is left. -/
theorem Within.emptied_partOf (h : Within p t t') (hp : t'.lookup p ≠ none) :
    PartOf (t.emptied p) t' := by
  intro q e hq
  obtain ⟨hlookup, hbelow⟩ := lookup_emptied hq
  by_cases hpq : p <:+ q
  · obtain rfl := hbelow hpq
    rw [h.lookup_of_ne_none hp, hlookup]
  · rw [h.lookup_of_not_suffix hpq, hlookup]

end Parts

section Places

variable (target : Data → Option (LinkPath Name)) (t : FileTree Name Data)

/-- Where steps lead that meet no link. -/
def place : List Name → List (PathStep Name) → List Name
  | p, [] => p
  | p, .stay :: steps => place p steps
  | p, .up :: steps => place p.tail steps
  | p, .down n :: steps => place (n :: p) steps

/-- No link is on the way, nor at its end. -/
def linkFree : List Name → List (PathStep Name) → Bool
  | _, [] => true
  | p, .stay :: steps => linkFree p steps
  | p, .up :: steps => linkFree p.tail steps
  | p, .down n :: steps =>
      (match t.lookup (n :: p) with
        | some (.other data) => (target data).isNone
        | _ => true) && linkFree (n :: p) steps

variable {target t} {t' : FileTree Name Data} {follow : Bool} {p q : List Name}
  {steps rest : List (PathStep Name)} {links : ℕ}

theorem linkFree_append (h : t.linkFree target p (steps ++ rest) = true) :
    t.linkFree target p steps = true := by
  induction p, steps using place.induct with
  | case1 p => rfl
  | case2 p steps ih | case3 p steps ih =>
      simp only [List.cons_append, linkFree] at h ⊢
      exact ih h
  | case4 p n steps ih =>
      simp only [List.cons_append, linkFree, Bool.and_eq_true] at h ⊢
      exact ⟨h.1, ih h.2⟩

/-- A walk that meets no link fails, or it leads where the steps say. -/
theorem walk_of_linkFree (follow : Bool) (h : t.linkFree target p steps = true) :
    (∃ error, t.walk target follow p steps = .failed error) ∨
      t.walk target follow p steps = .reached (place p steps) := by
  induction p, steps using place.induct with
  | case1 p => exact .inr rfl
  | case2 p steps ih | case3 p steps ih =>
      rw [linkFree] at h
      simp only [walk, place]
      split
      · exact .inl ⟨_, rfl⟩
      · exact ih h
  | case4 p n steps ih =>
      simp only [linkFree, Bool.and_eq_true] at h
      simp only [walk, place]
      split
      · exact .inl ⟨_, rfl⟩
      · cases hlookup : t.lookup (n :: p) with
        | none => exact .inl ⟨_, rfl⟩
        | some e =>
            cases e with
            | dir => exact ih h.2
            | other data =>
                have hnone : target data = none := by simpa [hlookup] using h.1
                dsimp only
                rw [hnone]
                exact ih h.2

theorem resolve_of_linkFree (h : t.linkFree target p steps = true)
    (hq : t.resolve target follow links p steps = .ok q) : q = place p steps := by
  rcases resolve_eq_ok_iff.mp hq with hwalk | ⟨_, _, _, -, hwalk, -⟩
  · rcases walk_of_linkFree follow h with ⟨error, herror⟩ | hplace
    · rw [hwalk] at herror
      cases herror
    · rw [hwalk] at hplace
      exact Walk.reached.inj hplace
  · rcases walk_of_linkFree follow h with ⟨error, herror⟩ | hplace
    · rw [hwalk] at herror
      cases herror
    · rw [hwalk] at hplace
      cases hplace

/-- All entries that are not directories are those of the other tree. -/
def OthersOf (t t' : FileTree Name Data) : Prop :=
  ∀ q data, t.lookup q = some (.other data) → t'.lookup q = some (.other data)

theorem OthersOf.refl (t : FileTree Name Data) : OthersOf t t := fun _ _ h ↦ h

theorem OthersOf.trans {t'' : FileTree Name Data} (h : OthersOf t t') (h' : OthersOf t' t'') :
    OthersOf t t'' :=
  fun q data hq ↦ h' q data (h q data hq)

theorem PartOf.othersOf (h : PartOf t t') : OthersOf t t' := fun q _ hq ↦ h q _ hq

theorem othersOf_of_mkdir (h : t.mkdir p = some t') : OthersOf t' t := by
  intro q data hq
  by_cases hqp : q = p
  · subst hqp
    have hdir : t'.lookup q = some .dir := t'.lookup_of_mem (by simp [(entries_of_mkdir h).2])
    rw [hdir] at hq
    cases hq
  · rwa [lookup_of_mkdir h hqp] at hq

theorem OthersOf.linkFree (h : OthersOf t' t) (hfree : t.linkFree target p steps = true) :
    t'.linkFree target p steps = true := by
  induction p, steps using place.induct with
  | case1 p => rfl
  | case2 p steps ih | case3 p steps ih =>
      rw [FileTree.linkFree] at hfree ⊢
      exact ih hfree
  | case4 p n steps ih =>
      simp only [FileTree.linkFree, Bool.and_eq_true] at hfree ⊢
      refine ⟨?_, ih hfree.2⟩
      cases hlookup : t'.lookup (n :: p) with
      | none => rfl
      | some e =>
          cases e with
          | dir => rfl
          | other data => simpa [h (n :: p) data hlookup] using hfree.1

end Places

section Ways

variable (target : Data → Option (LinkPath Name)) (t : FileTree Name Data) (follow : Bool)

/-- The entries that a walk asks for. -/
def walkWay : List Name → List (PathStep Name) → List (List Name)
  | _, [] => []
  | p, .stay :: steps => walkWay p steps
  | p, .up :: steps => walkWay p.tail steps
  | p, .down n :: steps => (n :: p) :: match t.lookup (n :: p) with
      | none => []
      | some .dir => walkWay (n :: p) steps
      | some (.other data) => match target data with
          | none => walkWay (n :: p) steps
          | some _ => []

/-- The entries through which a path leads, and the one to which it leads. -/
def way : ℕ → List Name → List (PathStep Name) → List (List Name)
  | 0, p, steps => t.walkWay target p steps
  | links + 1, p, steps => t.walkWay target p steps ++ match t.walk target follow p steps with
      | .link p' steps' => way links p' steps'
      | _ => []

variable {target t follow} {d p q : List Name} {steps : List (PathStep Name)} {links : ℕ}

theorem not_below_of_lookup_emptied (h : (t.emptied d).lookup p ≠ none) : d <:+ p → p = d := by
  obtain ⟨e, he⟩ := Option.ne_none_iff_exists'.mp h
  exact (lookup_emptied he).2

theorem lookup_emptied_of_not_below (h : d <:+ p → p = d) :
    (t.emptied d).lookup p = t.lookup p := by
  cases hlookup : t.lookup p with
  | some e => exact lookup_emptied_of_lookup hlookup h
  | none =>
      by_contra hne
      obtain ⟨e, he⟩ := Option.ne_none_iff_exists'.mp hne
      rw [(lookup_emptied he).1] at hlookup
      cases hlookup

/-- A walk that asks for nothing below `d` does not notice that `d` is emptied. -/
theorem walk_emptied (follow : Bool) (hp : (t.emptied d).lookup p ≠ none)
    (hway : ∀ x ∈ t.walkWay target p steps, d <:+ x → x = d) :
    (t.emptied d).walk target follow p steps = t.walk target follow p steps := by
  have hdir {p : List Name} (hp : (t.emptied d).lookup p ≠ none) :
      (t.emptied d).isDir p = t.isDir p := by
    rw [Bool.eq_iff_iff, isDir_iff, isDir_iff,
      lookup_emptied_of_not_below (not_below_of_lookup_emptied hp)]
  induction p, steps using place.induct with
  | case1 p => rfl
  | case2 p steps ih =>
      simp only [walk, hdir hp]
      rw [ih hp hway]
  | case3 p steps ih =>
      have htail : (t.emptied d).lookup p.tail ≠ none := by
        cases p with
        | nil => exact hp
        | cons n p => simp [lookup_parent _ hp]
      simp only [walk, hdir hp]
      rw [ih htail hway]
  | case4 p n steps ih =>
      have hsame : (t.emptied d).lookup (n :: p) = t.lookup (n :: p) :=
        lookup_emptied_of_not_below (hway _ (by simp [walkWay]))
      simp only [walk, hdir hp, hsame]
      cases hlookup : t.lookup (n :: p) with
      | none => rfl
      | some e =>
          have hn : (t.emptied d).lookup (n :: p) ≠ none := by simp [hsame, hlookup]
          cases e with
          | dir =>
              dsimp only
              rw [ih hn fun x hx ↦ hway x (by simp [walkWay, hlookup, hx])]
          | other data =>
              dsimp only
              cases htarget : target data with
              | none =>
                  dsimp only
                  rw [ih hn fun x hx ↦ hway x (by simp [walkWay, hlookup, htarget, hx])]
              | some l => rfl

/-- A walk that leads somewhere when `d` is emptied asks for nothing below `d`. -/
theorem walkWay_of_emptied (follow : Bool)
    (h : ∀ error, (t.emptied d).walk target follow p steps ≠ .failed error) :
    ∀ x ∈ t.walkWay target p steps, d <:+ x → x = d := by
  induction p, steps using place.induct with
  | case1 p => simp [walkWay]
  | case2 p steps ih | case3 p steps ih =>
      rw [walkWay]
      refine ih fun error herror ↦ ?_
      cases hdir : (t.emptied d).isDir p with
      | false => exact h .notDirectory (by simp [walk, hdir])
      | true => exact h error (by simp [walk, hdir, herror])
  | case4 p n steps ih =>
      cases hdir : (t.emptied d).isDir p with
      | false => exact absurd (by simp [walk, hdir]) (h .notDirectory)
      | true =>
      cases hlookup : (t.emptied d).lookup (n :: p) with
      | none => exact absurd (by simp [walk, hdir, hlookup]) (h .noEntry)
      | some e =>
          obtain ⟨hsame, hbelow⟩ := lookup_emptied hlookup
          rw [walkWay, hsame]
          refine List.forall_mem_cons.mpr ⟨hbelow, ?_⟩
          cases e with
          | dir => exact ih fun error herror ↦ h error (by simp [walk, hdir, hlookup, herror])
          | other data =>
              cases htarget : target data with
              | none =>
                  simpa [htarget] using ih fun error herror ↦
                    h error (by simp [walk, hdir, hlookup, htarget, herror])
              | some l => simp [htarget]

/-- A path leads to the same place when `d` is emptied, unless its way is below `d`. -/
theorem resolve_emptied_iff (hp : (t.emptied d).lookup p ≠ none) :
    (t.emptied d).resolve target follow links p steps = .ok q ↔
      t.resolve target follow links p steps = .ok q ∧
        ∀ x ∈ t.way target follow links p steps, d <:+ x → x = d := by
  have hsame {p : List Name} {steps : List (PathStep Name)}
      (hp : (t.emptied d).lookup p ≠ none)
      (hne : ∀ error, (t.emptied d).walk target follow p steps ≠ .failed error) :
      t.walk target follow p steps = (t.emptied d).walk target follow p steps :=
    (walk_emptied follow hp (walkWay_of_emptied follow hne)).symm
  induction links generalizing p steps with
  | zero =>
      rw [way]
      constructor
      · intro h
        have hwalk : (t.emptied d).walk target follow p steps = .reached q := by
          simpa using resolve_eq_ok_iff.mp h
        exact ⟨resolve_of_reached ((hsame hp (by simp [hwalk])).trans hwalk) 0,
          walkWay_of_emptied follow (by simp [hwalk])⟩
      · rintro ⟨h, hway⟩
        have hwalk : t.walk target follow p steps = .reached q := by
          simpa using resolve_eq_ok_iff.mp h
        exact resolve_of_reached ((walk_emptied follow hp hway).trans hwalk) 0
  | succ links ih =>
      have hlink {p' : List Name} {steps' : List (PathStep Name)}
          (hwalk : (t.emptied d).walk target follow p steps = .link p' steps') :
          (t.emptied d).lookup p' ≠ none := by
        have hkeeps := exists_of_walk target (t.emptied d) follow steps hp
        rwa [hwalk] at hkeeps
      constructor
      · intro h
        rcases resolve_eq_ok_iff.mp h with hwalk | ⟨_, p', steps', hsucc, hwalk, hrest⟩
        · have hwalk' := (hsame hp (by simp [hwalk])).trans hwalk
          refine ⟨resolve_of_reached hwalk' _, ?_⟩
          rw [way, hwalk', List.append_nil]
          exact walkWay_of_emptied follow (by simp [hwalk])
        · obtain rfl := Nat.succ.inj hsucc
          have hwalk' := (hsame hp (by simp [hwalk])).trans hwalk
          obtain ⟨hresolve, hway⟩ := (ih (hlink hwalk)).mp hrest
          refine ⟨(resolve_of_link hwalk').trans hresolve, ?_⟩
          rw [way, hwalk']
          exact List.forall_mem_append.mpr ⟨walkWay_of_emptied follow (by simp [hwalk]), hway⟩
      · rintro ⟨h, hway⟩
        rw [way] at hway
        obtain ⟨hfirst, hrest⟩ := List.forall_mem_append.mp hway
        have hwalk := walk_emptied follow hp hfirst
        rcases resolve_eq_ok_iff.mp h with hreached | ⟨_, p', steps', hsucc, hwalk', hresolve⟩
        · exact resolve_of_reached (hwalk.trans hreached) _
        · obtain rfl := Nat.succ.inj hsucc
          rw [hwalk'] at hrest
          have hwalk'' := hwalk.trans hwalk'
          rw [resolve_of_link hwalk'']
          exact (ih (hlink hwalk'')).mpr ⟨hresolve, hrest⟩

end Ways

end FileTree
