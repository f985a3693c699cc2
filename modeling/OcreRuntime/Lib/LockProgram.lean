import Mathlib.Logic.Function.Basic

/-!
# Programs that lock and unlock

A program over a state and a family of mutexes, each free or held. It has no result when
it does something undefined or waits for ever, as for a mutex that is held: in a sequence
of calls nobody else unlocks it. Unlocking, initialising and destroying a mutex are
undefined in the states in which a default mutex does not allow them.
-/

structure Locked (μ σ : Type) where
  state : σ
  held : μ → Bool

abbrev LockProgram (μ σ : Type) := StateT (Locked μ σ) Option

namespace LockProgram

open Function (update)

variable {μ σ α β : Type}

theorem of_bind {p : LockProgram μ σ α} {k : α → LockProgram μ σ β} {s : Locked μ σ}
    {r : β × Locked μ σ} (h : (p >>= k) s = some r) :
    ∃ a t, p s = some (a, t) ∧ k a t = some r := by
  obtain ⟨⟨a, t⟩, ht, h⟩ := Option.bind_eq_some_iff.mp h
  exact ⟨a, t, ht, h⟩

/-- Work on the state, which may be undefined. -/
def access (f : σ → Option (α × σ)) : LockProgram μ σ α := fun s ↦
  (f s.state).map fun r ↦ (r.1, { s with state := r.2 })

/-- The initialisation or the destruction of a mutex. -/
def renew (m : μ) : LockProgram μ σ Unit := fun s ↦
  if s.held m then none else some ((), s)

/-- A call whose result is not used. -/
def dropResult (p : LockProgram μ σ α) : LockProgram μ σ Unit := do
  let _ ← p
  return ()

section Mutexes

variable [DecidableEq μ]

def lock (m : μ) : LockProgram μ σ Unit := fun s ↦
  if s.held m then none else some ((), { s with held := update s.held m true })

def unlock (m : μ) : LockProgram μ σ Unit := fun s ↦
  if s.held m then some ((), { s with held := update s.held m false }) else none

end Mutexes

/-- Whenever the program ends, its result satisfies `Q`. -/
def Returns (Q : α → Prop) (p : LockProgram μ σ α) : Prop :=
  ∀ s a s', p s = some (a, s') → Q a

theorem Returns.pure {Q : α → Prop} {a : α} (ha : Q a) :
    Returns Q (Pure.pure a : LockProgram μ σ α) := by
  intro s b s' h
  obtain ⟨rfl, -⟩ := Prod.mk.inj (Option.some.inj h)
  exact ha

theorem Returns.bind {Q : β → Prop} {p : LockProgram μ σ α} {k : α → LockProgram μ σ β}
    (hk : ∀ a, Returns Q (k a)) : Returns Q (p >>= k) := by
  intro s b s' h
  obtain ⟨a, t, -, h⟩ := of_bind h
  exact hk a _ _ _ h

/-- Whenever the program ends, the mutexes are held that were held before. -/
def Balanced (p : LockProgram μ σ α) : Prop :=
  ∀ s a s', p s = some (a, s') → s'.held = s.held

theorem Balanced.pure (a : α) : Balanced (Pure.pure a : LockProgram μ σ α) := by
  intro s b s' h
  obtain ⟨-, rfl⟩ := Prod.mk.inj (Option.some.inj h)
  rfl

theorem Balanced.bind {p : LockProgram μ σ α} {k : α → LockProgram μ σ β} (hp : Balanced p)
    (hk : ∀ a, Balanced (k a)) : Balanced (p >>= k) := by
  intro s b s' h
  obtain ⟨a, t, ht, h⟩ := of_bind h
  exact (hk a _ _ _ h).trans (hp _ _ _ ht)

theorem Balanced.dropResult {p : LockProgram μ σ α} (hp : Balanced p) :
    Balanced (LockProgram.dropResult p) := by
  apply Balanced.bind hp
  intro _
  exact .pure ()

theorem Balanced.ite {c : Prop} [Decidable c] {p q : LockProgram μ σ α} (hp : Balanced p)
    (hq : Balanced q) : Balanced (if c then p else q) := by
  split
  · exact hp
  · exact hq

theorem Balanced.access (f : σ → Option (α × σ)) :
    Balanced (LockProgram.access f : LockProgram μ σ α) := by
  intro s a s' h
  obtain ⟨r, -, h⟩ := Option.map_eq_some_iff.mp h
  obtain ⟨-, rfl⟩ := Prod.mk.inj h
  rfl

theorem Balanced.renew (m : μ) : Balanced (LockProgram.renew m : LockProgram μ σ Unit) := by
  intro s a s' h
  obtain ⟨-, h⟩ := Option.ite_none_left_eq_some.mp h
  obtain ⟨-, rfl⟩ := Prod.mk.inj (Option.some.inj h)
  rfl

/-- Whenever the program ends after a start in which the state satisfies `I`, it does so
again. -/
def Keeps (I : σ → Prop) (p : LockProgram μ σ α) : Prop :=
  ∀ s a s', I s.state → p s = some (a, s') → I s'.state

section Keeps

variable {I : σ → Prop} {p : LockProgram μ σ α}

theorem Keeps.pure (a : α) : Keeps I (Pure.pure a : LockProgram μ σ α) := by
  intro s b s' hs h
  obtain ⟨-, rfl⟩ := Prod.mk.inj (Option.some.inj h)
  exact hs

theorem Keeps.bind {k : α → LockProgram μ σ β} (hp : Keeps I p) (hk : ∀ a, Keeps I (k a)) :
    Keeps I (p >>= k) := by
  intro s b s' hs h
  obtain ⟨a, t, ht, h⟩ := of_bind h
  exact hk a _ _ _ (hp _ _ _ hs ht) h

theorem Keeps.ite {c : Prop} [Decidable c] {q : LockProgram μ σ α} (hp : Keeps I p)
    (hq : Keeps I q) : Keeps I (if c then p else q) := by
  split
  · exact hp
  · exact hq

theorem Keeps.access {f : σ → Option (α × σ)}
    (hf : ∀ s r, I s → f s = some r → I r.2) :
    Keeps I (LockProgram.access f : LockProgram μ σ α) := by
  intro s a s' hs h
  obtain ⟨r, hr, h⟩ := Option.map_eq_some_iff.mp h
  obtain ⟨-, rfl⟩ := Prod.mk.inj h
  exact hf _ _ hs hr

theorem Keeps.renew (m : μ) : Keeps I (LockProgram.renew m : LockProgram μ σ Unit) := by
  intro s a s' hs h
  obtain ⟨-, h⟩ := Option.ite_none_left_eq_some.mp h
  obtain ⟨-, rfl⟩ := Prod.mk.inj (Option.some.inj h)
  exact hs

theorem Keeps.dropResult (hp : Keeps I p) : Keeps I (LockProgram.dropResult p) := by
  apply Keeps.bind hp
  intro _
  exact .pure ()

theorem Keeps.lock [DecidableEq μ] (m : μ) :
    Keeps I (LockProgram.lock m : LockProgram μ σ Unit) := by
  intro s a s' hs h
  obtain ⟨-, h⟩ := Option.ite_none_left_eq_some.mp h
  obtain ⟨-, rfl⟩ := Prod.mk.inj (Option.some.inj h)
  exact hs

theorem Keeps.unlock [DecidableEq μ] (m : μ) :
    Keeps I (LockProgram.unlock m : LockProgram μ σ Unit) := by
  intro s a s' hs h
  obtain ⟨-, h⟩ := Option.ite_none_right_eq_some.mp h
  obtain ⟨-, rfl⟩ := Prod.mk.inj (Option.some.inj h)
  exact hs

end Keeps

variable [DecidableEq μ] {m : μ}

/-- Whenever the program ends after a start with `m` held, it has unlocked `m` and no
other mutex that was held. -/
def Releases (m : μ) (p : LockProgram μ σ α) : Prop :=
  ∀ s a s', s.held m = true → p s = some (a, s') → s'.held = update s.held m false

theorem Releases.unlock {k : Unit → LockProgram μ σ β} (hk : Balanced (k ())) :
    Releases m (LockProgram.unlock m >>= k) := by
  intro s b s' hm h
  obtain ⟨a, t, ht, h⟩ := of_bind h
  have ht : some ((), { s with held := update s.held m false }) = some (a, t) := by
    simpa [LockProgram.unlock, hm] using ht
  obtain ⟨rfl, rfl⟩ := Prod.mk.inj (Option.some.inj ht)
  exact hk _ _ _ h

theorem Releases.bind {p : LockProgram μ σ α} {k : α → LockProgram μ σ β} (hp : Balanced p)
    (hk : ∀ a, Releases m (k a)) : Releases m (p >>= k) := by
  intro s b s' hm h
  obtain ⟨a, t, ht, h⟩ := of_bind h
  have hheld : t.held = s.held := hp _ _ _ ht
  exact hheld ▸ hk a _ _ _ (hheld ▸ hm) h

theorem Releases.ite {c : Prop} [Decidable c] {p q : LockProgram μ σ α} (hp : Releases m p)
    (hq : Releases m q) : Releases m (if c then p else q) := by
  split
  · exact hp
  · exact hq

/-- A program that begins by locking `m` is balanced if what follows unlocks it on every
path. -/
theorem Balanced.lock {k : Unit → LockProgram μ σ β} (hk : Releases m (k ())) :
    Balanced (LockProgram.lock m >>= k) := by
  intro s b s' h
  obtain ⟨a, t, ht, h⟩ := of_bind h
  obtain ⟨hfree, ht⟩ := Option.ite_none_left_eq_some.mp ht
  obtain ⟨rfl, rfl⟩ := Prod.mk.inj (Option.some.inj ht)
  have hheld := hk _ _ _ (Function.update_self ..) h
  rw [hheld, Function.update_idem, ← Bool.eq_false_iff.mpr hfree, Function.update_eq_self]

theorem lock_isSome_iff {s : Locked μ σ} :
    (lock m s).isSome = true ↔ s.held m = false := by
  by_cases h : s.held m = true <;> simp [lock, h]

/-- A critical section is one step on the state when the mutex is free. -/
theorem lock_access_unlock {s : Locked μ σ} (hfree : s.held m = false)
    (f : σ → Option (α × σ)) :
    (do lock m; let a ← access f; unlock m; return a : LockProgram μ σ α) s = access f s := by
  have hback : update (update s.held m true) m false = s.held := by
    rw [Function.update_idem, ← hfree, Function.update_eq_self]
  have hlock : (lock m : LockProgram μ σ Unit) s =
      some ((), { s with held := update s.held m true }) := by
    simp [lock, hfree]
  have hunlock : ∀ state, (unlock m : LockProgram μ σ Unit) ⟨state, update s.held m true⟩ =
      some ((), ⟨state, s.held⟩) := by
    intro state
    simp [unlock, hback]
  change ((lock m : LockProgram μ σ Unit) s).bind (fun r ↦ ((access f) r.2).bind fun r ↦
    ((unlock m : LockProgram μ σ Unit) r.2).bind fun u ↦ some (r.1, u.2)) = access f s
  rw [hlock, Option.bind_some]
  cases hf : f s.state with
  | none => simp [access, hf]
  | some r => simp [access, hf, hunlock]

end LockProgram
