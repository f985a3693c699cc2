import Mathlib.Data.List.TakeWhile
import Mathlib.Tactic.Common

/-!
# Scanning strings in a memory that goes on

A string starts at a position and ends before the next terminator. A scan reads the
terminator as well. The memory is split into a part that may be read and what lies beyond,
and a scan stays in the first part exactly if there is a terminator in it from the position
on.
-/

namespace StringScan

/-- A read of a given length that stays inside. -/
theorem take_drop_append {α : Type*} {inside beyond : List α} {p n : ℕ}
    (h : p + n ≤ inside.length) :
    ((inside ++ beyond).drop p).take n = (inside.drop p).take n := by
  have hdrop : n ≤ (inside.drop p).length := by
    rw [List.length_drop]
    omega
  rw [List.drop_append_of_le_length (by omega), List.take_append_of_le_length hdrop]

variable {α : Type*} [DecidableEq α]

section Compare

/-- How many elements of the second string a comparison reads. It stops after the first
difference, and the terminator at the end of either string is compared too. -/
def compared : List α → List α → ℕ
  | a :: s, b :: t => if a = b then compared s t + 1 else 1
  | _, _ => 1

theorem compared_pos (s t : List α) : 0 < compared s t := by
  unfold compared
  split
  · split <;> omega
  · exact Nat.one_pos

theorem compared_le (s t : List α) : compared s t ≤ t.length + 1 := by
  induction s generalizing t with
  | nil => simp [compared]
  | cons a s ih =>
      cases t with
      | nil => simp [compared]
      | cons b t =>
          have hle := ih t
          unfold compared
          split
          · simpa using hle
          · simp

/-- A comparison goes beyond a beginning of the second string only if the first string
starts with it. -/
theorem compared_append_le_iff (s t u : List α) : compared s (t ++ u) ≤ t.length ↔ ¬ t <+: s := by
  induction t generalizing s with
  | nil =>
      have hpos := compared_pos s u
      simp only [List.nil_append, List.length_nil, List.nil_prefix, not_true_eq_false, iff_false]
      omega
  | cons b t ih =>
      cases s with
      | nil => simp [compared]
      | cons a s =>
          have hrest := ih s
          by_cases hab : a = b
          · subst hab
            simpa [compared, List.cons_prefix_cons] using hrest
          · simp [compared, List.cons_prefix_cons, hab, Ne.symm hab]

/-- Whether the string at the start of a memory is the given one; there is no result if the
comparison leaves the memory. -/
def equals (nul : α) : List α → List α → Option Bool
  | [], _ => none
  | a :: _, [] => some (a = nul)
  | a :: memory, b :: s => if a = b then equals nul memory s else some false

/-- A comparison with a string that is terminated in the memory has a result. -/
theorem equals_eq {nul : α} {memory s : List α} (hmemory : nul ∈ memory) (hs : nul ∉ s) :
    equals nul memory s = some (decide (memory.takeWhile (· ≠ nul) = s)) := by
  induction memory generalizing s with
  | nil => cases hmemory
  | cons a memory ih =>
      cases s with
      | nil => simp [equals, List.takeWhile_cons]
      | cons b s =>
          obtain ⟨hb, hrest⟩ := not_or.mp (mt List.mem_cons.mpr hs)
          by_cases hab : a = b
          · subst hab
            have hmem : nul ∈ memory := (List.mem_cons.mp hmemory).resolve_left hb
            simpa [equals, List.takeWhile_cons, Ne.symm hb] using ih hmem hrest
          · by_cases ha : a = nul
            · simp [equals, ha, hb]
            · simp [equals, hab, ha]

end Compare

section Scan

/-- The string at a position. -/
def stringAt (nul : α) (memory : List α) (p : ℕ) : List α := (memory.drop p).takeWhile (· ≠ nul)

variable {nul : α} {inside beyond : List α} {p : ℕ}

theorem takeWhile_append_of_mem (h : nul ∈ inside) (beyond : List α) :
    (inside ++ beyond).takeWhile (· ≠ nul) = inside.takeWhile (· ≠ nul) := by
  induction inside with
  | nil => simp at h
  | cons a inside ih =>
      by_cases ha : a = nul
      · simp [ha]
      · have hrest : nul ∈ inside := (List.mem_cons.mp h).resolve_left (Ne.symm ha)
        simpa [ha] using ih hrest

theorem length_takeWhile_lt (h : nul ∈ inside) :
    (inside.takeWhile (· ≠ nul)).length < inside.length := by
  induction inside with
  | nil => simp at h
  | cons a inside ih =>
      by_cases ha : a = nul
      · simp [ha]
      · have hrest : nul ∈ inside := (List.mem_cons.mp h).resolve_left (Ne.symm ha)
        simpa [ha] using ih hrest

theorem stringAt_append_of_mem (h : nul ∈ inside.drop p) :
    stringAt nul (inside ++ beyond) p = stringAt nul inside p := by
  have hp : p ≤ inside.length := by
    by_contra hp
    simp [List.drop_eq_nil_of_le (Nat.le_of_not_le hp)] at h
  rw [stringAt, List.drop_append_of_le_length hp, takeWhile_append_of_mem h, stringAt]

theorem stringAt_append_of_not_mem (hp : p ≤ inside.length) (h : nul ∉ inside.drop p) :
    stringAt nul (inside ++ beyond) p = inside.drop p ++ stringAt nul beyond 0 := by
  rw [stringAt, List.drop_append_of_le_length hp, List.takeWhile_append_of_pos, stringAt,
    List.drop_zero]
  intro a ha
  have hne : a ≠ nul := by
    rintro rfl
    exact h ha
  simpa using hne

theorem takeWhile_cons_eq_nil_iff (a : α) (s : List α) :
    (a :: s).takeWhile (· ≠ nul) = [] ↔ a = nul := by
  rw [List.takeWhile_cons]
  by_cases ha : a = nul
  · rw [if_neg (by simpa using ha)]
    exact iff_of_true rfl ha
  · rw [if_pos (by simpa using ha)]
    exact iff_of_false (List.cons_ne_nil _ _) ha

theorem stringAt_eq_nil_iff (hp : p < inside.length) (beyond : List α) :
    stringAt nul (inside ++ beyond) p = [] ↔ stringAt nul inside p = [] := by
  rw [stringAt, List.drop_append_of_le_length hp.le, stringAt, List.drop_eq_getElem_cons hp,
    List.cons_append, takeWhile_cons_eq_nil_iff, takeWhile_cons_eq_nil_iff]

/-- A scan to the end of a string stays inside exactly if its terminator is inside. -/
theorem scan_le_iff (hp : p < inside.length) :
    p + ((stringAt nul (inside ++ beyond) p).length + 1) ≤ inside.length ↔
      nul ∈ inside.drop p := by
  constructor
  · intro hle
    by_contra hnot
    rw [stringAt_append_of_not_mem hp.le hnot, List.length_append, List.length_drop] at hle
    omega
  · intro hmem
    have hlt := length_takeWhile_lt hmem
    rw [stringAt_append_of_mem hmem, stringAt]
    rw [List.length_drop] at hlt
    omega

end Scan

end StringScan
