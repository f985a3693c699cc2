import Mathlib.Data.List.TakeWhile
import Mathlib.Tactic.Common

/-!
# Scans with a limit

A scan takes the elements of a list in turn and stops as soon as it has found as many as it
may. What it has found is a view of its state. An element may also change the state without
adding to the view, such as the next place of an array, which is written before it is known
whether the element is of use.
-/

namespace LimitedScan

variable {α β S : Type*}

def scan (step : α → S → S) (count : S → ℕ) (limit : ℕ) : List α → S → S
  | [], s => s
  | a :: as, s => if count s < limit then scan step count limit as (step a s) else s

/-- The first elements that are of use. -/
def found (offer : α → Option β) (limit : ℕ) (as : List α) : List β :=
  (as.filterMap offer).take limit

section Scan

variable {step : α → S → S} {count : S → ℕ} {limit : ℕ} {offer : α → Option β} {view : S → List β}
  {Inv : S → Prop}

/-- The state counts what is in view, and a step adds to it the element that is of use. -/
structure Adds (step : α → S → S) (count : S → ℕ) (limit : ℕ) (offer : α → Option β)
    (view : S → List β) (Inv : S → Prop) : Prop where
  counts : ∀ s, Inv s → count s = (view s).length
  keeps : ∀ a s, Inv s → count s < limit → Inv (step a s)
  adds : ∀ a s, Inv s → count s < limit → view (step a s) = view s ++ (offer a).toList

theorem Adds.scan (h : Adds step count limit offer view Inv) (as : List α) (s : S) (hs : Inv s)
    (hle : (view s).length ≤ limit) :
    Inv (scan step count limit as s) ∧
      view (scan step count limit as s) = view s ++ found offer (limit - (view s).length) as := by
  induction as generalizing s with
  | nil => simpa [LimitedScan.scan, found] using hs
  | cons a as ih =>
      rw [LimitedScan.scan]
      split
      next hlt =>
        have hview := h.adds a s hs hlt
        have hcount := h.counts s hs
        rw [hcount] at hlt
        have hle' : (view (step a s)).length ≤ limit := by
          rw [hview, List.length_append]
          cases offer a <;> simp <;> omega
        obtain ⟨hinv, heq⟩ := ih (step a s) (h.keeps a s hs (hcount ▸ hlt)) hle'
        refine ⟨hinv, ?_⟩
        rw [heq, hview]
        cases hoffer : offer a with
        | none => simp [found, hoffer]
        | some b =>
            obtain ⟨k, hk⟩ : ∃ k, limit - (view s).length = k + 1 :=
              Nat.exists_eq_succ_of_ne_zero (by omega)
            have hk' : limit - ((view s).length + 1) = k := by omega
            simp [found, hoffer, hk, hk']
      next hge =>
        have hfull : limit - (view s).length = 0 := by
          rw [h.counts s hs] at hge
          omega
        exact ⟨hs, by simp [found, hfull]⟩

end Scan

section Found

variable {offer : α → Option β} {limit : ℕ} {as : List α} {b : β}

theorem length_found_le (offer : α → Option β) (limit : ℕ) (as : List α) :
    (found offer limit as).length ≤ limit := List.length_take_le _ _

theorem exists_of_mem_found (h : b ∈ found offer limit as) : ∃ a ∈ as, offer a = some b :=
  List.mem_filterMap.mp (List.mem_of_mem_take h)

theorem pairwise_found {R : α → α → Prop} {R' : β → β → Prop} (h : as.Pairwise R)
    (hoffer : ∀ a b a' b', offer a = some b → offer a' = some b' → R a a' → R' b b') :
    (found offer limit as).Pairwise R' := by
  have hall : (as.filterMap offer).Pairwise R' :=
    List.pairwise_filterMap.mpr (h.imp fun hR b hb b' hb' ↦ hoffer _ b _ b' hb hb' hR)
  exact hall.sublist (List.take_sublist _ _)

end Found

section Array

variable {l : List α} {n : ℕ} {a : α}

theorem take_succ_set (h : n < l.length) : (l.set n a).take (n + 1) = l.take n ++ [a] := by
  rw [List.take_add_one, List.take_set_of_le le_rfl, List.getElem?_set_self h]
  rfl

end Array

end LimitedScan
