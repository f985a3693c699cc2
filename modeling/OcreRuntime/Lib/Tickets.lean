import Mathlib.Data.List.Nodup
import Mathlib.Data.List.Range

/-!
# Numbers from a counter that is advanced later

Each number is drawn from a counter, and the counter is advanced for it at some later time.
The numbers are different exactly if the counter was always up to date when one was drawn.
-/

structure Tickets where
  counter : ℕ
  drawn : List ℕ

namespace Tickets

variable {t : Tickets}

def draw (t : Tickets) : Tickets := { t with drawn := t.drawn ++ [t.counter] }

def advance (t : Tickets) : Tickets := { t with counter := t.counter + 1 }

/-- The counter has been advanced for every number that was drawn. -/
def UpToDate (t : Tickets) : Prop := t.counter = t.drawn.length

/-- The counter is advanced once for each number at most, so no number exceeds its place. -/
structure Bounded (t : Tickets) : Prop where
  counter_le : t.counter ≤ t.drawn.length
  drawn_le : ∀ i n : ℕ, t.drawn[i]? = some n → n ≤ i

/-- Each number is its place. -/
def Exact (t : Tickets) : Prop := t.drawn = List.range t.drawn.length

theorem bounded_empty : Bounded ⟨0, []⟩ := ⟨Nat.le_refl 0, by simp⟩

theorem exact_empty : Exact ⟨0, []⟩ := rfl

theorem Bounded.draw (h : t.Bounded) : t.draw.Bounded where
  counter_le := by
    rw [Tickets.draw, List.length_append]
    exact Nat.le_add_right_of_le h.counter_le
  drawn_le i n hn := by
    rw [Tickets.draw] at hn
    rcases Nat.lt_trichotomy i t.drawn.length with hlt | rfl | hgt
    · rw [List.getElem?_append_left hlt] at hn
      exact h.drawn_le i n hn
    · rw [List.getElem?_concat_length] at hn
      obtain rfl := Option.some.inj hn
      exact h.counter_le
    · have hnone : (t.drawn ++ [t.counter])[i]? = none := by
        rw [List.getElem?_eq_none_iff, List.length_append]
        exact hgt
      cases hnone.symm.trans hn

theorem Bounded.advance (h : t.Bounded) (hlt : t.counter < t.drawn.length) : t.advance.Bounded :=
  ⟨hlt, h.drawn_le⟩

theorem exact_draw_iff : t.draw.Exact ↔ t.Exact ∧ t.UpToDate := by
  rw [Exact, draw, List.length_append, List.length_singleton, List.range_succ]
  constructor
  · intro h
    obtain ⟨hdrawn, hlast⟩ := List.append_inj' h rfl
    exact ⟨hdrawn, (List.cons.inj hlast).1⟩
  · rintro ⟨hdrawn, hcounter⟩
    rw [hcounter, ← hdrawn]

theorem exact_advance_iff : t.advance.Exact ↔ t.Exact := Iff.rfl

theorem eq_range_of_nodup {l : List ℕ} (hle : ∀ i n : ℕ, l[i]? = some n → n ≤ i)
    (h : l.Nodup) : l = List.range l.length := by
  induction l using List.reverseRecOn with
  | nil => rfl
  | append_singleton l n ih =>
      rw [List.nodup_append_comm, List.singleton_append, List.nodup_cons] at h
      have hinit : l = List.range l.length := by
        apply ih ?_ h.2
        intro i m hm
        apply hle i m
        rw [List.getElem?_append_left (List.getElem?_eq_some_iff.mp hm).1, hm]
      -- every smaller number is taken
      have hn : n = l.length := by
        have hnot : ¬ n < l.length := by
          rw [hinit] at h
          simpa using h.1
        have hlast : (l ++ [n])[l.length]? = some n := List.getElem?_concat_length
        exact Nat.le_antisymm (hle _ _ hlast) (Nat.le_of_not_lt hnot)
      rw [List.length_append, List.length_singleton, List.range_succ, ← hinit, ← hn]

/-- Numbers that do not exceed their places are different only if they are their places. -/
theorem Bounded.nodup_iff_exact (h : t.Bounded) : t.drawn.Nodup ↔ t.Exact := by
  constructor
  · exact eq_range_of_nodup h.drawn_le
  · intro hexact
    rw [Exact] at hexact
    rw [hexact]
    exact List.nodup_range

end Tickets
