import Mathlib.Data.List.Basic

/-!
# Step systems and runs under a condition

A step system has a set of initial states and a partial step function whose
labels carry every choice made outside the system. Reachability is taken along
runs whose steps all meet a condition on the state before the step and its
label; the trivial condition gives ordinary reachability. The rules for a loop
whose body may fail are at the end.
-/

structure StepSystem (σ α : Type*) where
  init : σ → Prop
  next : α → σ → Option σ

namespace StepSystem

variable {σ α : Type*} (M : StepSystem σ α)

/-- States reached by runs whose every step meets `ok`. -/
inductive ReachableWhere (ok : α → σ → Prop) : σ → Prop
  | start {s : σ} : M.init s → ReachableWhere ok s
  | step {s s' : σ} (a : α) :
      ReachableWhere ok s → ok a s → M.next a s = some s' → ReachableWhere ok s'

abbrev Reachable : σ → Prop := M.ReachableWhere fun _ _ ↦ True

/-- Follow a list of labels; `none` as soon as one of them is not enabled. -/
def run (s : σ) : List α → Option σ
  | [] => some s
  | a :: as => (M.next a s).bind fun s' ↦ run s' as

/-- Every step of the run along the labels meets `ok`. -/
def RunMeets (ok : α → σ → Prop) (s : σ) : List α → Prop
  | [] => True
  | a :: as => ok a s ∧ ∀ s', M.next a s = some s' → RunMeets ok s' as

/-- Every step of the run along the labels satisfies `P`. -/
def RunKeeps (P : α → σ → σ → Prop) (s : σ) : List α → Prop
  | [] => True
  | a :: as => ∀ s', M.next a s = some s' → P a s s' ∧ RunKeeps P s' as

/-- What is seen of the run along the labels, step by step. -/
def trace {β : Type*} (see : α → σ → β) (s : σ) : List α → List β
  | [] => []
  | a :: as => see a s :: (M.next a s).elim [] fun s' ↦ trace see s' as

instance decidableRunMeets (ok : α → σ → Prop) [∀ a s, Decidable (ok a s)] :
    ∀ (s : σ) (as : List α), Decidable (M.RunMeets ok s as)
  | _, [] => .isTrue trivial
  | s, a :: as =>
      have : Decidable (∀ s', M.next a s = some s' → M.RunMeets ok s' as) :=
        match M.next a s with
        | none => .isTrue nofun
        | some t => match decidableRunMeets ok t as with
          | .isTrue ht => .isTrue fun _ h ↦ Option.some.inj h ▸ ht
          | .isFalse ht => .isFalse fun hall ↦ ht (hall t rfl)
      inferInstanceAs (Decidable (ok a s ∧ _))

variable {M} {ok ok' : α → σ → Prop} {P : α → σ → σ → Prop} {s s' : σ}

theorem ReachableWhere.mono (hok : ∀ a s, ok a s → ok' a s)
    (h : M.ReachableWhere ok s) : M.ReachableWhere ok' s := by
  induction h with
  | start h => exact .start h
  | step a _ ha hnext ih => exact .step a ih (hok _ _ ha) hnext

/-- A step of a system that performs what its state enables, and of which `none` is a state
that it cannot leave. -/
theorem eq_some_of_enabled {τ ρ : Type*} {enabled : τ → Prop} [DecidablePred enabled]
    {perform : τ → ρ} {s : Option τ} {s' : ρ}
    (h : (s.bind fun t ↦ if enabled t then some (perform t) else none) = some s') :
    ∃ t, s = some t ∧ enabled t ∧ perform t = s' := by
  obtain ⟨t, rfl, h⟩ := Option.bind_eq_some_iff.mp h
  obtain ⟨henabled, h⟩ := Option.ite_none_right_eq_some.mp h
  exact ⟨t, rfl, henabled, Option.some.inj h⟩

/-- The system started from those initial states that satisfy `p`. -/
def restrict (M : StepSystem σ α) (p : σ → Prop) : StepSystem σ α where
  init s := M.init s ∧ p s
  next := M.next

theorem ReachableWhere.of_restrict {p : σ → Prop} (h : (M.restrict p).ReachableWhere ok s) :
    M.ReachableWhere ok s := by
  induction h with
  | start h => exact .start h.1
  | step a _ ha hnext ih => exact .step a ih ha hnext

/-- The induction rule for invariants: true at the start and kept by every
step of the run that meets the condition. -/
theorem ReachableWhere.invariant {I : σ → Prop} (hinit : ∀ s, M.init s → I s)
    (hstep : ∀ a s s', I s → ok a s → M.next a s = some s' → I s')
    (h : M.ReachableWhere ok s) : I s := by
  induction h with
  | start h => exact hinit _ h
  | step a _ ha hnext ih => exact hstep _ _ _ ih ha hnext

/-- An invariant may be proved on top of one that is already known. -/
theorem ReachableWhere.invariant_of {I J : σ → Prop}
    (hJ : ∀ s, M.ReachableWhere ok s → J s) (hinit : ∀ s, M.init s → I s)
    (hstep : ∀ a s s', J s → I s → ok a s → M.next a s = some s' → I s')
    (h : M.ReachableWhere ok s) : I s := by
  induction h with
  | start h => exact hinit _ h
  | step a hs ha hnext ih => exact hstep _ _ _ (hJ _ hs) ih ha hnext

theorem ReachableWhere.run (hs : M.ReachableWhere ok s) {as : List α}
    (hmeets : M.RunMeets ok s as) (hrun : M.run s as = some s') :
    M.ReachableWhere ok s' := by
  induction as generalizing s with
  | nil => simpa [StepSystem.run] using Option.some.inj hrun ▸ hs
  | cons a as ih =>
      obtain ⟨t, hnext, hrest⟩ := Option.bind_eq_some_iff.mp hrun
      exact ih (.step a hs hmeets.1 hnext) (hmeets.2 t hnext) hrest

theorem RunMeets.cons {a : α} {as : List α} (hnext : M.next a s = some s') (ha : ok a s)
    (h : M.RunMeets ok s' as) : M.RunMeets ok s (a :: as) :=
  ⟨ha, fun _ ht ↦ Option.some.inj (hnext.symm.trans ht) ▸ h⟩

/-- What every conforming step preserves, a conforming run preserves. -/
theorem RunMeets.invariant {I : σ → Prop}
    (hstep : ∀ a s s', I s → ok a s → M.next a s = some s' → I s') (hs : I s) {as : List α}
    (hmeets : M.RunMeets ok s as) (hrun : M.run s as = some s') : I s' := by
  induction as generalizing s with
  | nil => exact Option.some.inj hrun ▸ hs
  | cons a as ih =>
      obtain ⟨t, hnext, hrest⟩ := Option.bind_eq_some_iff.mp hrun
      exact ih (hstep a s t hs hmeets.1 hnext) (hmeets.2 t hnext) hrest

theorem runMeets_true (s : σ) (as : List α) : M.RunMeets (fun _ _ ↦ True) s as := by
  induction as generalizing s with
  | nil => trivial
  | cons a as ih => exact ⟨trivial, fun t _ ↦ ih t⟩

theorem Reachable.run (hs : M.Reachable s) {as : List α}
    (hrun : M.run s as = some s') : M.Reachable s' :=
  ReachableWhere.run hs (runMeets_true s as) hrun

/-- What each step of a conforming run satisfies, the whole run satisfies. -/
theorem ReachableWhere.runKeeps
    (hstep : ∀ a s s', M.ReachableWhere ok s → ok a s → M.next a s = some s' → P a s s')
    (hs : M.ReachableWhere ok s) {as : List α} (hmeets : M.RunMeets ok s as) :
    M.RunKeeps P s as := by
  induction as generalizing s with
  | nil => trivial
  | cons a as ih =>
      intro s' hnext
      exact ⟨hstep a s s' hs hmeets.1 hnext,
        ih (.step a hs hmeets.1 hnext) (hmeets.2 s' hnext)⟩

/-- What a run keeps, the rest of it keeps from where its beginning ends. -/
theorem RunKeeps.of_append {as bs : List α} (h : M.RunKeeps P s (as ++ bs))
    (hrun : M.run s as = some s') : M.RunKeeps P s' bs := by
  induction as generalizing s with
  | nil => exact Option.some.inj hrun ▸ h
  | cons a as ih =>
      obtain ⟨t, hnext, hrest⟩ := Option.bind_eq_some_iff.mp hrun
      exact ih (h t hnext).2 hrest

/-- A conforming run conforms at its beginning and on from there. -/
theorem RunMeets.of_append {as bs : List α} (h : M.RunMeets ok s (as ++ bs))
    (hrun : M.run s as = some s') : M.RunMeets ok s as ∧ M.RunMeets ok s' bs := by
  induction as generalizing s with
  | nil => exact ⟨trivial, Option.some.inj hrun ▸ h⟩
  | cons a as ih =>
      obtain ⟨t, hnext, hrest⟩ := Option.bind_eq_some_iff.mp hrun
      obtain ⟨has, hbs⟩ := ih (h.2 t hnext) hrest
      exact ⟨.cons hnext h.1 has, hbs⟩

theorem run_concat {as : List α} {a : α} {t : σ} (hrun : M.run s as = some t)
    (hnext : M.next a t = some s') : M.run s (as ++ [a]) = some s' := by
  induction as generalizing s with
  | nil =>
      obtain rfl : s = t := Option.some.inj hrun
      simp [run, hnext]
  | cons b as ih =>
      obtain ⟨u, hu, hrest⟩ := Option.bind_eq_some_iff.mp hrun
      simp [run, hu, ih hrest]

/-- When a step taken in a conforming run satisfies `P` exactly if it meets `ok`,
a whole run does. -/
theorem ReachableWhere.runKeeps_iff_runMeets
    (hstep : ∀ a s s', M.ReachableWhere ok s → M.next a s = some s' → (P a s s' ↔ ok a s))
    (hs : M.ReachableWhere ok s) {as : List α} (hrun : M.run s as = some s') :
    M.RunKeeps P s as ↔ M.RunMeets ok s as := by
  refine ⟨fun hkeeps ↦ ?_,
    hs.runKeeps fun a s s' hs ha hnext ↦ (hstep a s s' hs hnext).mpr ha⟩
  induction as generalizing s with
  | nil => trivial
  | cons a as ih =>
      obtain ⟨t, hnext, hrest⟩ := Option.bind_eq_some_iff.mp hrun
      obtain ⟨hP, htail⟩ := hkeeps t hnext
      have ha : ok a s := (hstep a s t hs hnext).mp hP
      refine ⟨ha, fun u hu ↦ ?_⟩
      obtain rfl : t = u := Option.some.inj (hnext.symm.trans hu)
      exact ih (.step a hs ha hnext) hrest htail

/-- Forward simulation: when each step of a conforming run is matched by a step of `N`
whose label is what is seen of it, a whole run is. -/
theorem ReachableWhere.simulation {τ β : Type*} {N : StepSystem τ β} {R : σ → τ → Prop}
    {see : α → σ → β}
    (hstep : ∀ a s s' t, M.ReachableWhere ok s → R s t → ok a s → M.next a s = some s' →
      ∃ t', N.next (see a s) t = some t' ∧ R s' t')
    (hs : M.ReachableWhere ok s) {t : τ} (hst : R s t) {as : List α}
    (hmeets : M.RunMeets ok s as) (hrun : M.run s as = some s') :
    ∃ t', N.run t (M.trace see s as) = some t' ∧ R s' t' := by
  induction as generalizing s t with
  | nil => exact ⟨t, rfl, Option.some.inj hrun ▸ hst⟩
  | cons a as ih =>
      obtain ⟨u, hnext, hrest⟩ := Option.bind_eq_some_iff.mp hrun
      obtain ⟨v, hv, huv⟩ := hstep a s u t hs hst hmeets.1 hnext
      obtain ⟨t', ht', hend⟩ := ih (.step a hs hmeets.1 hnext) huv (hmeets.2 u hnext) hrest
      refine ⟨t', ?_, hend⟩
      simpa [trace, hnext, StepSystem.run, hv] using ht'

section CanReach

variable {A : α → Prop} {t : σ}

/-- Some run with labels from `A` leads from a state to another. -/
def CanReach (M : StepSystem σ α) (A : α → Prop) (s t : σ) : Prop :=
  ∃ as : List α, (∀ a ∈ as, A a) ∧ M.run s as = some t

theorem CanReach.refl (s : σ) : M.CanReach A s s := ⟨[], by simp, rfl⟩

theorem CanReach.cons {a : α} (ha : A a) (hnext : M.next a s = some s')
    (h : M.CanReach A s' t) : M.CanReach A s t := by
  obtain ⟨as, has, hrun⟩ := h
  refine ⟨a :: as, List.forall_mem_cons.mpr ⟨ha, has⟩, ?_⟩
  rw [run, hnext]
  exact hrun

theorem CanReach.trans (h : M.CanReach A s s') (h' : M.CanReach A s' t) : M.CanReach A s t := by
  obtain ⟨as, has, hrun⟩ := h
  induction as generalizing s with
  | nil => exact Option.some.inj hrun ▸ h'
  | cons a as ih =>
      obtain ⟨u, hnext, hrest⟩ := Option.bind_eq_some_iff.mp hrun
      obtain ⟨ha, has⟩ := List.forall_mem_cons.mp has
      exact .cons ha hnext (ih has hrest)

/-- As long as a goal is not reached some step lowers a measure: the goal can be reached. -/
theorem exists_canReach {I Q : σ → Prop} (measure : σ → ℕ)
    (hstep : ∀ s, I s → ¬ Q s →
      ∃ a s', A a ∧ M.next a s = some s' ∧ I s' ∧ measure s' < measure s)
    (hs : I s) : ∃ t, M.CanReach A s t ∧ I t ∧ Q t := by
  induction hn : measure s using Nat.strongRecOn generalizing s with
  | ind n ih =>
      by_cases hQ : Q s
      · exact ⟨s, .refl s, hs, hQ⟩
      · obtain ⟨a, s', ha, hnext, hs', hlt⟩ := hstep s hs hQ
        obtain ⟨t, hreach, ht⟩ := ih _ (hn ▸ hlt) hs' rfl
        exact ⟨t, .cons ha hnext hreach, ht⟩

end CanReach

end StepSystem

namespace OptionLoop

variable {σ τ β : Type*} {f : σ → β → Option σ} {P : σ → Prop} {s s' : σ} {bs : List β}

/-- What each step of a loop keeps, the loop keeps. -/
theorem invariant (hf : ∀ s b s', P s → f s b = some s' → P s') (hs : P s)
    (h : bs.foldlM f s = some s') : P s' := by
  induction bs generalizing s with
  | nil => exact Option.some.inj h ▸ hs
  | cons b bs ih =>
      rw [List.foldlM_cons] at h
      obtain ⟨u, hu, hrest⟩ := Option.bind_eq_some_iff.mp h
      exact ih (hf s b u hs hu) hrest

/-- What is seen of a loop is the loop of what is seen of its steps. -/
theorem map_see {g : τ → β → Option τ} {see : σ → τ}
    (hf : ∀ s b, (f s b).map see = g (see s) b) (bs : List β) (s : σ) :
    (bs.foldlM f s).map see = bs.foldlM g (see s) := by
  induction bs generalizing s with
  | nil => rfl
  | cons b bs ih =>
      rw [List.foldlM_cons, List.foldlM_cons, ← hf]
      cases f s b with
      | none => rfl
      | some s' => exact ih s'

/-- A loop whose steps are all defined, as long as what they keep holds. -/
theorem exists_of_steps (hf : ∀ s, ∀ b ∈ bs, P s → ∃ s', f s b = some s' ∧ P s') (hs : P s) :
    ∃ s', bs.foldlM f s = some s' ∧ P s' := by
  induction bs generalizing s with
  | nil => exact ⟨s, rfl, hs⟩
  | cons b bs ih =>
      obtain ⟨u, hu, hP⟩ := hf s b List.mem_cons_self hs
      obtain ⟨s', hs', hP'⟩ := ih (fun s c hc ↦ hf s c (List.mem_cons_of_mem _ hc)) hP
      refine ⟨s', ?_, hP'⟩
      rw [List.foldlM_cons, hu]
      exact hs'

theorem mapM_eq_some_iff {g : β → Option τ} {ts : List τ} :
    bs.mapM g = some ts ↔ bs.map g = ts.map some := by
  induction bs generalizing ts with
  | nil => cases ts <;> simp
  | cons b bs ih =>
      rw [List.mapM_cons, List.map_cons]
      cases ts with
      | nil => cases g b <;> cases bs.mapM g <;> simp
      | cons t ts =>
          rw [List.map_cons, List.cons.injEq, ← ih]
          cases g b <;> cases bs.mapM g <;> simp

end OptionLoop
