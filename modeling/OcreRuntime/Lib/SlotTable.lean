import Mathlib.Data.List.Basic
import Mathlib.Tactic.Common

/-!
# Tables of slots with owners

A table is a list of slots of which some are in use, each with an owner. Storing a slot
adds at most one owner, and releasing all slots of an owner removes that owner only. A
change of slots that one owner does not hold leaves what it holds.
-/

namespace SlotTable

variable {α ι : Type*} {inUse : α → Bool} {owner : α → ι}

/-- The owners of the slots in use. -/
def owners (inUse : α → Bool) (owner : α → ι) (slots : List α) : List ι :=
  (slots.filter inUse).map owner

variable {slots : List α} {slot : α} {o : ι}

theorem mem_owners_iff :
    o ∈ owners inUse owner slots ↔ ∃ slot ∈ slots, inUse slot = true ∧ owner slot = o := by
  simp [owners, and_assoc]

theorem mem_owners_set {i : ℕ} (h : o ∈ owners inUse owner (slots.set i slot)) :
    o ∈ owners inUse owner slots ∨ inUse slot = true ∧ owner slot = o := by
  obtain ⟨other, hother, hused, rfl⟩ := mem_owners_iff.mp h
  rcases List.mem_or_eq_of_mem_set hother with hmem | rfl
  · exact .inl (mem_owners_iff.mpr ⟨other, hmem, hused, rfl⟩)
  · exact .inr ⟨hused, rfl⟩

/-- Releasing the slots of one owner. -/
def release [DecidableEq ι] (inUse : α → Bool) (owner : α → ι) (free : α → α) (o : ι)
    (slots : List α) : List α :=
  slots.map fun slot ↦ if inUse slot ∧ owner slot = o then free slot else slot

theorem mem_owners_release_iff [DecidableEq ι] {free : α → α} {o' : ι}
    (hfree : ∀ slot, inUse (free slot) = false) :
    o ∈ owners inUse owner (release inUse owner free o' slots) ↔
      o ∈ owners inUse owner slots ∧ o ≠ o' := by
  rw [mem_owners_iff, mem_owners_iff]
  constructor
  · rintro ⟨slot, hmem, hused, rfl⟩
    obtain ⟨old, hold, rfl⟩ := List.mem_map.mp hmem
    by_cases hheld : inUse old = true ∧ owner old = o'
    · rw [if_pos hheld, hfree] at hused
      cases hused
    · rw [if_neg hheld] at hused ⊢
      exact ⟨⟨old, hold, hused, rfl⟩, fun howner ↦ hheld ⟨hused, howner⟩⟩
  · rintro ⟨⟨slot, hmem, hused, rfl⟩, hne⟩
    refine ⟨slot, List.mem_map.mpr ⟨slot, hmem, ?_⟩, hused, rfl⟩
    exact if_neg fun hheld ↦ hne hheld.2

section Holdings

variable [DecidableEq ι]

/-- A slot in use by an owner. -/
def Held (inUse : α → Bool) (owner : α → ι) (o : ι) (slot : α) : Prop :=
  inUse slot = true ∧ owner slot = o

instance (slot : α) : Decidable (Held inUse owner o slot) :=
  inferInstanceAs (Decidable (_ ∧ _))

/-- What an owner holds, slot by slot. -/
def holdings (inUse : α → Bool) (owner : α → ι) (o : ι) (slots : List α) : List (Option α) :=
  slots.map fun slot ↦ if Held inUse owner o slot then some slot else none

/-- The number of slots that an owner holds. -/
def count (inUse : α → Bool) (owner : α → ι) (o : ι) (slots : List α) : ℕ :=
  slots.countP fun slot ↦ Held inUse owner o slot

variable {new old : α} {i : ℕ}

theorem count_eq_countP_holdings :
    count inUse owner o slots = (holdings inUse owner o slots).countP Option.isSome := by
  rw [count, holdings, List.countP_map]
  congr 1
  funext slot
  by_cases h : Held inUse owner o slot <;> simp [h]

theorem count_of_holdings {slots' : List α}
    (h : holdings inUse owner o slots' = holdings inUse owner o slots) :
    count inUse owner o slots' = count inUse owner o slots := by
  rw [count_eq_countP_holdings, count_eq_countP_holdings, h]

theorem count_eq_zero_iff :
    count inUse owner o slots = 0 ↔ o ∉ owners inUse owner slots := by
  simp only [count, List.countP_eq_zero, decide_eq_true_eq, mem_owners_iff]
  constructor
  · rintro h ⟨slot, hmem, hheld⟩
    exact h slot hmem hheld
  · intro h slot hmem hheld
    exact h ⟨slot, hmem, hheld⟩

/-- A slot that the owner holds neither before nor after. -/
theorem holdings_set (hold : ∀ old ∈ slots[i]?, ¬ Held inUse owner o old)
    (hnew : ¬ Held inUse owner o new) :
    holdings inUse owner o (slots.set i new) = holdings inUse owner o slots := by
  rw [holdings, List.map_set, if_neg hnew, ← holdings]
  by_cases hlt : i < slots.length
  · have hlt' : i < (holdings inUse owner o slots).length := by simpa [holdings] using hlt
    have hsame : (holdings inUse owner o slots)[i] = none := by
      simpa [holdings] using hold _ (List.getElem?_eq_getElem hlt)
    calc (holdings inUse owner o slots).set i none
        = (holdings inUse owner o slots).set i (holdings inUse owner o slots)[i] := by rw [hsame]
      _ = holdings inUse owner o slots := List.set_getElem_self hlt'
  · apply List.set_eq_of_length_le
    simpa [holdings] using hlt

theorem holdings_release_of_ne {free : α → α} {o' : ι} (hne : o ≠ o')
    (hfree : ∀ slot, inUse (free slot) = false) :
    holdings inUse owner o (release inUse owner free o' slots) =
      holdings inUse owner o slots := by
  rw [holdings, release, List.map_map, holdings]
  apply List.map_congr_left
  intro slot _
  by_cases hheld : inUse slot = true ∧ owner slot = o'
  · have hother : ¬ Held inUse owner o slot := fun h ↦ hne (h.2.symm.trans hheld.2)
    have hnone : ¬ Held inUse owner o (free slot) := by simp [Held, hfree]
    rw [Function.comp_apply, if_pos hheld, if_neg hnone, if_neg hother]
  · rw [Function.comp_apply, if_neg hheld]

theorem count_release_self {free : α → α} (hfree : ∀ slot, inUse (free slot) = false) :
    count inUse owner o (release inUse owner free o slots) = 0 := by
  rw [count, List.countP_eq_zero]
  intro slot hslot
  obtain ⟨old, -, rfl⟩ := List.mem_map.mp hslot
  by_cases hheld : inUse old = true ∧ owner old = o
  · rw [if_pos hheld]
    simp [Held, hfree]
  · rw [if_neg hheld, decide_eq_true_eq]
    exact hheld

theorem release_eq_self {free : α → α} (h : count inUse owner o slots = 0) :
    release inUse owner free o slots = slots := by
  rw [count, List.countP_eq_zero] at h
  calc release inUse owner free o slots
      = slots.map id := by
        apply List.map_congr_left
        intro slot hslot
        have hnot := h slot hslot
        rw [decide_eq_true_eq] at hnot
        exact if_neg hnot
    _ = slots := List.map_id slots

/-- Storing in a slot that the owner did not hold counts what it holds then. -/
theorem count_set (hold : slots[i]? = some old) :
    count inUse owner o (slots.set i new) + (if Held inUse owner o old then 1 else 0) =
      count inUse owner o slots + if Held inUse owner o new then 1 else 0 := by
  obtain ⟨hlt, hget⟩ := List.getElem?_eq_some_iff.mp hold
  rw [count, count, List.countP_set hlt, hget]
  simp only [decide_eq_true_eq]
  by_cases hheld : Held inUse owner o old
  · have hpos : 0 < slots.countP fun slot ↦ Held inUse owner o slot := by
      rw [List.countP_pos_iff]
      exact ⟨old, List.mem_of_getElem? hold, by simpa using hheld⟩
    simp only [hheld, if_true]
    omega
  · simp [hheld]

/-- A change that neither takes the slot from the owner nor gives it to the owner. -/
theorem count_set_of_iff (h : ∀ old ∈ slots[i]?, Held inUse owner o new ↔ Held inUse owner o old) :
    count inUse owner o (slots.set i new) = count inUse owner o slots := by
  cases hold : slots[i]? with
  | none =>
      rw [List.set_eq_of_length_le (List.getElem?_eq_none_iff.mp hold)]
  | some old =>
      have hiff := h old hold
      have hcount := @count_set _ _ inUse owner slots o _ new old i hold
      simp only [hiff] at hcount
      exact Nat.add_right_cancel hcount

/-- A release takes from the slots in use those of the owner. -/
theorem countP_release_add_count {free : α → α} (hfree : ∀ slot, inUse (free slot) = false) :
    (release inUse owner free o slots).countP inUse + count inUse owner o slots =
      slots.countP inUse := by
  induction slots with
  | nil => rfl
  | cons slot slots ih =>
      rw [release, count] at ih ⊢
      rw [List.map_cons, List.countP_cons, List.countP_cons, List.countP_cons]
      by_cases hheld : inUse slot = true ∧ owner slot = o
      · simp only [Held, hheld, hfree, and_self, if_true, decide_true]
        simp only [Held] at ih
        rw [if_neg Bool.false_ne_true]
        omega
      · simp only [Held, hheld, if_false, decide_false]
        simp only [Held] at ih
        rw [if_neg Bool.false_ne_true]
        omega

end Holdings

end SlotTable
