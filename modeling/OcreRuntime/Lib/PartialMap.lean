import Mathlib.Logic.Function.Basic
import Mathlib.Order.Defs.Unbundled
import Mathlib.Tactic.Common

/-!
# Partial maps that keep their keys

A partial map is kept by a change when the same keys have values and the values are related.
-/

namespace PartialMap

open Function (update)

variable {ι α : Type*} {R S : α → α → Prop} {f f' f'' : ι → Option α} {i : ι} {a a' : α}

/-- Both maps have values at the same keys, and these are related. -/
structure Kept (R : α → α → Prop) (f f' : ι → Option α) : Prop where
  some_of_some : ∀ i a, f i = some a → ∃ a', f' i = some a' ∧ R a a'
  none_of_none : ∀ i, f i = none → f' i = none

/-- A change of the value at one key, if there is one. -/
def modify [DecidableEq ι] (f : ι → Option α) (i : ι) (g : α → α) : ι → Option α :=
  update f i ((f i).map g)

theorem modify_of_some [DecidableEq ι] (h : f i = some a) (g : α → α) :
    modify f i g = update f i (some (g a)) := by
  rw [modify, h, Option.map_some]

theorem modify_self [DecidableEq ι] (f : ι → Option α) (i : ι) (g : α → α) :
    modify f i g i = (f i).map g :=
  Function.update_self ..

theorem modify_of_ne [DecidableEq ι] {j : ι} (h : j ≠ i) (f : ι → Option α) (g : α → α) :
    modify f i g j = f j :=
  Function.update_of_ne h ..

theorem modify_eq_none_iff [DecidableEq ι] {g : α → α} {j : ι} :
    modify f i g j = none ↔ f j = none := by
  by_cases hj : j = i
  · subst hj
    rw [modify_self, Option.map_eq_none_iff]
  · rw [modify_of_ne hj]

theorem modify_eq_self [DecidableEq ι] {g : α → α} (h : ∀ a, f i = some a → g a = a) :
    modify f i g = f := by
  cases hi : f i with
  | none =>
      rw [modify, hi, Option.map_none, Function.update_eq_self_iff.mpr hi.symm]
  | some a =>
      rw [modify_of_some hi, h a hi, Function.update_eq_self_iff.mpr hi.symm]

/-- A value that the change cannot give was there before. -/
theorem eq_some_of_modify [DecidableEq ι] {g : α → α} {j : ι} (hg : ∀ a, g a ≠ a')
    (h : modify f i g j = some a') : f j = some a' := by
  by_cases hj : j = i
  · subst hj
    rw [modify_self] at h
    obtain ⟨a, -, heq⟩ := Option.map_eq_some_iff.mp h
    exact absurd heq (hg a)
  · rwa [modify_of_ne hj] at h

namespace Kept

theorem refl [Std.Refl R] (f : ι → Option α) : Kept R f f where
  some_of_some _ a ha := ⟨a, ha, Std.Refl.refl a⟩
  none_of_none _ hnone := hnone

theorem trans [IsTrans α R] (h : Kept R f f') (h' : Kept R f' f'') : Kept R f f'' where
  some_of_some i a ha := by
    obtain ⟨a', ha', hR⟩ := h.some_of_some i a ha
    obtain ⟨a'', ha'', hR'⟩ := h'.some_of_some i a' ha'
    exact ⟨a'', ha'', IsTrans.trans _ _ _ hR hR'⟩
  none_of_none i hnone := h'.none_of_none i (h.none_of_none i hnone)

theorem mono (h : Kept R f f') (hRS : ∀ a a', R a a' → S a a') : Kept S f f' where
  some_of_some i a ha := by
    obtain ⟨a', ha', hR⟩ := h.some_of_some i a ha
    exact ⟨a', ha', hRS a a' hR⟩
  none_of_none := h.none_of_none

theorem exists_of_some (h : Kept R f f') (ha : f' i = some a') : ∃ a, f i = some a ∧ R a a' := by
  cases hi : f i with
  | none => simp [h.none_of_none i hi] at ha
  | some a =>
      obtain ⟨b, hb, hR⟩ := h.some_of_some i a hi
      obtain rfl := Option.some.inj (hb.symm.trans ha)
      exact ⟨a, rfl, hR⟩

theorem eq_none_iff (h : Kept R f f') : f' i = none ↔ f i = none := by
  constructor
  · intro hnone
    cases hi : f i with
    | none => rfl
    | some a =>
        obtain ⟨b, hb, -⟩ := h.some_of_some i a hi
        cases hb.symm.trans hnone
  · exact h.none_of_none i

theorem ite {c : Prop} [Decidable c] (h : Kept R f f') (h' : Kept R f f'') :
    Kept R f (if c then f' else f'') := by
  split
  · exact h
  · exact h'

theorem update [DecidableEq ι] [Std.Refl R] (ha : f i = some a) (h : R a a') :
    Kept R f (update f i (some a')) := by
  constructor
  · intro j b hb
    by_cases hj : j = i
    · subst hj
      obtain rfl := Option.some.inj (hb.symm.trans ha)
      exact ⟨a', Function.update_self .., h⟩
    · exact ⟨b, by rwa [Function.update_of_ne hj], Std.Refl.refl b⟩
  · intro j hnone
    have hj : j ≠ i := by
      rintro rfl
      simp [hnone] at ha
    rwa [Function.update_of_ne hj]

theorem modify [DecidableEq ι] [Std.Refl R] (f : ι → Option α) (i : ι) {g : α → α}
    (hg : ∀ a, R a (g a)) : Kept R f (modify f i g) := by
  cases hi : f i with
  | none =>
      rw [PartialMap.modify, hi, Option.map_none, Function.update_eq_self_iff.mpr hi.symm]
      exact refl f
  | some a =>
      rw [modify_of_some hi]
      exact update hi (hg a)

end Kept

end PartialMap
