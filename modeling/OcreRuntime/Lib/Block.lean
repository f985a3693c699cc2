import Mathlib.Data.Vector.Basic
import Mathlib.Tactic.Common

/-!
# Blocks of memory

An allocated block is the list of what it holds. Reading or writing a given number
of elements at an offset is undefined as soon as it would pass the end of the block.
-/

namespace Block

variable {α : Type*} {b b' : List α} {offset offset' n n' : ℕ}

def read (b : List α) (offset n : ℕ) : Option (List.Vector α n) :=
  if h : offset + n ≤ b.length then
    some ⟨(b.drop offset).take n, by rw [List.length_take, List.length_drop]; omega⟩
  else none

def write (b : List α) (offset : ℕ) (v : List.Vector α n) : Option (List α) :=
  if offset + n ≤ b.length then some (b.take offset ++ v.toList ++ b.drop (offset + n)) else none

theorem isSome_read : (read b offset n).isSome ↔ offset + n ≤ b.length := by
  unfold read
  split
  case isTrue h => exact iff_of_true rfl h
  case isFalse h => exact iff_of_false Bool.false_ne_true h

/-- A read inside the block. -/
theorem exists_read (h : offset + n ≤ b.length) :
    ∃ v, read b offset n = some v ∧ v.toList = (b.drop offset).take n :=
  ⟨_, dif_pos h, rfl⟩

theorem write_eq_some {v : List.Vector α n} :
    write b offset v = some b' ↔
      offset + n ≤ b.length ∧ b' = b.take offset ++ v.toList ++ b.drop (offset + n) := by
  unfold write
  split
  · simp [*, eq_comm]
  · simp [*]

theorem length_of_write {v : List.Vector α n} (h : write b offset v = some b') :
    b'.length = b.length := by
  obtain ⟨hle, rfl⟩ := write_eq_some.mp h
  simp only [List.length_append, List.length_take, List.length_drop, List.Vector.toList_length]
  omega

/-- What a write leaves at each place. -/
theorem getElem?_of_write {v : List.Vector α n} (h : write b offset v = some b') (i : ℕ) :
    b'[i]? = if offset ≤ i ∧ i < offset + n then v.toList[i - offset]? else b[i]? := by
  obtain ⟨hle, rfl⟩ := write_eq_some.mp h
  have hv : v.toList.length = n := v.toList_length
  have htake : (b.take offset).length = offset := by rw [List.length_take]; omega
  split
  case isTrue hin =>
    rw [List.append_assoc, List.getElem?_append_right (by omega), htake,
      List.getElem?_append_left (by omega)]
  case isFalse hout =>
    rcases Nat.lt_or_ge i offset with hlt | hge
    · rw [List.append_assoc, List.getElem?_append_left (by omega), List.getElem?_take_of_lt hlt]
    · have hpast : offset + n ≤ i := by omega
      rw [List.getElem?_append_right (by rw [List.length_append]; omega), List.getElem?_drop,
        List.length_append, htake, hv]
      congr 1
      omega

theorem getElem?_of_read {v : List.Vector α n} (h : read b offset n = some v) {i : ℕ}
    (hi : i < n) : v.toList[i]? = b[offset + i]? := by
  unfold read at h
  split at h
  · obtain rfl := Option.some.inj h
    change ((b.drop offset).take n)[i]? = _
    rw [List.getElem?_take_of_lt hi, List.getElem?_drop]
  · cases h

/-- A read is determined by what the block holds at its places. -/
theorem read_eq_some {v : List.Vector α n} (hle : offset + n ≤ b.length)
    (h : ∀ i < n, v.toList[i]? = b[offset + i]?) : read b offset n = some v := by
  obtain ⟨u, hu⟩ := Option.isSome_iff_exists.mp (isSome_read.mpr hle)
  rw [hu]
  congr 1
  apply List.Vector.toList_injective
  apply List.ext_getElem?
  intro i
  rcases Nat.lt_or_ge i n with hi | hi
  · rw [h i hi, getElem?_of_read hu hi]
  · rw [List.getElem?_eq_none (by simpa using hi), List.getElem?_eq_none (by simpa using hi)]

theorem read_of_write_self {v : List.Vector α n} (h : write b offset v = some b') :
    read b' offset n = some v := by
  have hle := (write_eq_some.mp h).1
  refine read_eq_some (length_of_write h ▸ hle) fun i hi ↦ ?_
  rw [getElem?_of_write h, if_pos ⟨Nat.le_add_right _ _, by omega⟩, Nat.add_sub_cancel_left]

/-- A write away from what is read is not seen. -/
theorem read_of_write_ne {v : List.Vector α n} (h : write b offset v = some b')
    (hne : offset' + n' ≤ offset ∨ offset + n ≤ offset') :
    read b' offset' n' = read b offset' n' := by
  have hlen := length_of_write h
  rcases hread : read b offset' n' with _ | u
  · rw [Option.eq_none_iff_forall_not_mem]
    rintro u hu
    have hsome := isSome_read.mp (Option.isSome_of_mem hu)
    rw [hlen, ← isSome_read, hread] at hsome
    cases hsome
  · have hle := isSome_read.mp (Option.isSome_of_mem hread)
    refine read_eq_some (hlen ▸ hle) fun i hi ↦ ?_
    rw [getElem?_of_write h, if_neg (by omega), getElem?_of_read hread hi]

/-- A write into a block whose length is known. -/
def store {l : ℕ} (b : List.Vector α l) (offset : ℕ) (v : List.Vector α n) :
    Option (List.Vector α l) :=
  if h : offset + n ≤ l then
    some ⟨b.toList.take offset ++ v.toList ++ b.toList.drop (offset + n), by
      simp only [List.length_append, List.length_take, List.length_drop, List.Vector.toList_length]
      omega⟩
  else none

/-- A write inside the block gives what is in front, what is written and what is behind. -/
theorem exists_store {l : ℕ} {b : List.Vector α l} {v : List.Vector α n} (h : offset + n ≤ l) :
    ∃ b', store b offset v = some b' ∧
      b'.toList = b.toList.take offset ++ v.toList ++ b.toList.drop (offset + n) :=
  ⟨_, dif_pos h, rfl⟩

end Block
