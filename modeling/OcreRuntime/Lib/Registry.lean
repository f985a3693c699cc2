import Mathlib.Data.Finset.Basic
import Mathlib.Logic.Function.Basic

/-!
# Entries that are kept in three places

The slots of a table may each hold an entry, which is a structure and the place where it is
listed. Beside the table there are the lists of all places and the structures that are alive.
-/

open Function (update)

/-- What is listed and what is alive is what the slots hold, and no two slots hold the same
structure. -/
structure Registry {ι κ α : Type*} (entry : ι → Option (κ × α)) (listed : Finset (κ × α))
    (alive : Finset α) : Prop where
  listed : ∀ p, p ∈ listed ↔ ∃ i, entry i = some p
  alive : ∀ a, a ∈ alive ↔ ∃ i k, entry i = some (k, a)
  unique : ∀ i j k l a, entry i = some (k, a) → entry j = some (l, a) → i = j

namespace Registry

variable {ι κ α : Type*} {entry : ι → Option (κ × α)} {listed : Finset (κ × α)}
  {alive : Finset α} {i : ι} {k : κ} {a : α}

theorem empty : Registry (fun _ : ι ↦ none) (∅ : Finset (κ × α)) ∅ where
  listed p := by simp
  alive a := by simp
  unique i j k l a hi := by cases hi

theorem mem_listed (h : Registry entry listed alive) (hi : entry i = some (k, a)) :
    (k, a) ∈ listed :=
  (h.listed _).mpr ⟨i, hi⟩

theorem mem_alive (h : Registry entry listed alive) (hi : entry i = some (k, a)) : a ∈ alive :=
  (h.alive a).mpr ⟨i, k, hi⟩

variable [DecidableEq ι] [DecidableEq κ] [DecidableEq α]

/-- A structure that is not alive goes to a slot without an entry. -/
theorem insert (h : Registry entry listed alive) (hi : entry i = none) (ha : a ∉ alive) :
    Registry (update entry i (some (k, a))) (insert (k, a) listed) (insert a alive) := by
  have hother {j : ι} {p : κ × α} (hj : entry j = some p) :
      update entry i (some (k, a)) j = some p := by
    have hne : j ≠ i := by
      rintro rfl
      cases hi.symm.trans hj
    rwa [Function.update_of_ne hne]
  have hcases {j : ι} {p : κ × α} (hj : update entry i (some (k, a)) j = some p) :
      (j = i ∧ p = (k, a)) ∨ entry j = some p := by
    by_cases hne : j = i
    · subst hne
      rw [Function.update_self] at hj
      exact .inl ⟨rfl, (Option.some.inj hj).symm⟩
    · rw [Function.update_of_ne hne] at hj
      exact .inr hj
  constructor
  · intro p
    rw [Finset.mem_insert, h.listed]
    constructor
    · rintro (rfl | ⟨j, hj⟩)
      · exact ⟨i, Function.update_self ..⟩
      · exact ⟨j, hother hj⟩
    · rintro ⟨j, hj⟩
      rcases hcases hj with ⟨-, rfl⟩ | hj
      · exact .inl rfl
      · exact .inr ⟨j, hj⟩
  · intro b
    rw [Finset.mem_insert, h.alive]
    constructor
    · rintro (rfl | ⟨j, l, hj⟩)
      · exact ⟨i, k, Function.update_self ..⟩
      · exact ⟨j, l, hother hj⟩
    · rintro ⟨j, l, hj⟩
      rcases hcases hj with ⟨-, heq⟩ | hj
      · exact .inl (Prod.mk.inj heq).2
      · exact .inr ⟨j, l, hj⟩
  · intro j j' l l' b hj hj'
    rcases hcases hj with ⟨rfl, heq⟩ | hold
    · rcases hcases hj' with ⟨rfl, -⟩ | hold'
      · rfl
      · exact absurd ((Prod.mk.inj heq).2 ▸ h.mem_alive hold') ha
    · rcases hcases hj' with ⟨rfl, heq⟩ | hold'
      · exact absurd ((Prod.mk.inj heq).2 ▸ h.mem_alive hold) ha
      · exact h.unique j j' l l' b hold hold'

/-- The entry of a slot is taken out of all three places. -/
theorem erase (h : Registry entry listed alive) (hi : entry i = some (k, a)) :
    Registry (update entry i none) (listed.erase (k, a)) (alive.erase a) := by
  have hiff {j : ι} {l : κ} {b : α} :
      update entry i none j = some (l, b) ↔ b ≠ a ∧ entry j = some (l, b) := by
    by_cases hne : j = i
    · subst hne
      rw [Function.update_self, hi]
      constructor
      · rintro ⟨⟩
      · rintro ⟨hb, heq⟩
        exact absurd (Prod.mk.inj (Option.some.inj heq)).2.symm hb
    · rw [Function.update_of_ne hne]
      constructor
      · intro hj
        refine ⟨?_, hj⟩
        rintro rfl
        exact hne (h.unique j i l k b hj hi)
      · exact And.right
  constructor
  · rintro ⟨l, b⟩
    rw [Finset.mem_erase, h.listed]
    constructor
    · rintro ⟨hne, j, hj⟩
      refine ⟨j, hiff.mpr ⟨?_, hj⟩⟩
      rintro rfl
      -- the slot with this structure is the one slot of the pair
      obtain rfl := h.unique j i l k b hj hi
      exact hne (Option.some.inj (hj.symm.trans hi))
    · rintro ⟨j, hj⟩
      obtain ⟨hb, hj⟩ := hiff.mp hj
      refine ⟨?_, j, hj⟩
      intro heq
      exact hb (Prod.mk.inj heq).2
  · intro b
    rw [Finset.mem_erase, h.alive]
    constructor
    · rintro ⟨hb, j, l, hj⟩
      exact ⟨j, l, hiff.mpr ⟨hb, hj⟩⟩
    · rintro ⟨j, l, hj⟩
      obtain ⟨hb, hj⟩ := hiff.mp hj
      exact ⟨hb, j, l, hj⟩
  · intro j j' l l' b hj hj'
    exact h.unique j j' l l' b (hiff.mp hj).2 (hiff.mp hj').2

end Registry
