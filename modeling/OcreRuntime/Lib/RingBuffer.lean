import Mathlib.Data.Nat.ModEq
import Mathlib.Logic.Function.Basic
import Mathlib.Tactic.Common

/-!
# Ring buffers

Cells that are read at a head and written at a tail, both going round. The cells
from the head on hold a first-in first-out list, and the two operations are those of
the list as long as it fits.
-/

structure RingBuffer (α : Type*) where
  cells : ℕ → Option α
  capacity : ℕ
  count : ℕ
  head : ℕ
  tail : ℕ

namespace RingBuffer

open Function (update)

variable {α : Type*} {r : RingBuffer α} {l : List α} {a : α}

def push (r : RingBuffer α) (a : α) : RingBuffer α where
  cells := update r.cells r.tail (some a)
  capacity := r.capacity
  count := r.count + 1
  head := r.head
  tail := (r.tail + 1) % r.capacity

def pop (r : RingBuffer α) : RingBuffer α where
  cells := r.cells
  capacity := r.capacity
  count := r.count - 1
  head := (r.head + 1) % r.capacity
  tail := r.tail

/-- The list that the ring buffer holds. -/
structure Holds (r : RingBuffer α) (l : List α) : Prop where
  head_lt : r.head < r.capacity
  tail_eq : r.tail = (r.head + r.count) % r.capacity
  count_eq : r.count = l.length
  count_le : r.count ≤ r.capacity
  cells_eq : ∀ i (h : i < l.length), r.cells ((r.head + i) % r.capacity) = some l[i]

namespace Holds

theorem nil (h : 0 < r.capacity) (hcount : r.count = 0) (hhead : r.head = 0)
    (htail : r.tail = 0) : r.Holds [] where
  head_lt := hhead ▸ h
  tail_eq := by simp [hcount, hhead, htail]
  count_eq := hcount
  count_le := hcount ▸ Nat.zero_le _
  cells_eq i hi := absurd hi (Nat.not_lt_zero i)

theorem unique {l' : List α} (h : r.Holds l) (h' : r.Holds l') : l = l' := by
  apply List.ext_getElem
  · rw [← h.count_eq, ← h'.count_eq]
  · intro i hi hi'
    exact Option.some.inj ((h.cells_eq i hi).symm.trans (h'.cells_eq i hi'))

theorem front (h : r.Holds (a :: l)) : r.cells r.head = some a := by
  have hcell := h.cells_eq 0 (Nat.zero_lt_succ _)
  rwa [Nat.add_zero, Nat.mod_eq_of_lt h.head_lt] at hcell

theorem pop (h : r.Holds (a :: l)) : r.pop.Holds l := by
  have hcount := h.count_eq
  have hhead := h.head_lt
  rw [List.length_cons] at hcount
  refine ⟨Nat.mod_lt _ (Nat.zero_lt_of_lt hhead), ?_, ?_, ?_, fun i hi ↦ ?_⟩
  · change r.tail = ((r.head + 1) % r.capacity + (r.count - 1)) % r.capacity
    rw [Nat.mod_add_mod, h.tail_eq]
    congr 1
    omega
  · change r.count - 1 = l.length
    omega
  · change r.count - 1 ≤ r.capacity
    have := h.count_le
    omega
  · have hcell := h.cells_eq (i + 1) (by simpa using hi)
    change r.cells (((r.head + 1) % r.capacity + i) % r.capacity) = _
    rw [Nat.mod_add_mod, Nat.add_assoc, Nat.add_comm 1 i]
    simpa using hcell

/-- Two places less than one round apart are different cells. -/
theorem mod_ne_mod (head : ℕ) {capacity i n : ℕ} (hi : i < n) (hlt : n < capacity) :
    (head + i) % capacity ≠ (head + n) % capacity := by
  intro heq
  have hmod : i ≡ n [MOD capacity] := Nat.ModEq.add_left_cancel' head heq
  rw [Nat.ModEq, Nat.mod_eq_of_lt (by omega), Nat.mod_eq_of_lt hlt] at hmod
  omega

theorem push (h : r.Holds l) (hlt : l.length < r.capacity) (a : α) :
    (r.push a).Holds (l ++ [a]) := by
  have hcount := h.count_eq
  refine ⟨h.head_lt, ?_, ?_, ?_, fun i hi ↦ ?_⟩
  · change (r.tail + 1) % r.capacity = (r.head + (r.count + 1)) % r.capacity
    rw [h.tail_eq, Nat.mod_add_mod, Nat.add_assoc]
  · simp [RingBuffer.push, hcount]
  · change r.count + 1 ≤ r.capacity
    omega
  · have htail : r.tail = (r.head + l.length) % r.capacity := by rw [h.tail_eq, hcount]
    change update r.cells r.tail (some a) ((r.head + i) % r.capacity) = _
    rw [List.length_append, List.length_singleton] at hi
    by_cases hlast : i = l.length
    · subst hlast
      rw [← htail, Function.update_self]
      simp
    · have hi : i < l.length := by omega
      rw [Function.update_of_ne (htail ▸ mod_ne_mod r.head hi hlt), h.cells_eq i hi,
        List.getElem_append_left hi]

end Holds

end RingBuffer
