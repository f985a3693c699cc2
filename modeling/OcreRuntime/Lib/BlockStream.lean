import Mathlib.Data.List.Basic
import Mathlib.Tactic.Common

/-!
# Streams that are taken block by block

A state takes in a stream by blocks of a fixed length. What is left behind the last full block
waits for more. However the stream is cut into pieces, the state and what is left are those of
the whole stream.
-/

namespace BlockStream

variable {α σ : Type*} (f : σ → List α → σ) (n : ℕ)

/-- The state after the first blocks, so many of them. -/
def blocks : ℕ → σ → List α → σ
  | 0, s, _ => s
  | k + 1, s, xs => blocks k (f s (xs.take n)) (xs.drop n)

/-- The state after all full blocks, with what is left. -/
def consume (s : σ) (xs : List α) : σ × List α :=
  (blocks f n (xs.length / n) s xs, xs.drop (n * (xs.length / n)))

variable {f n} {s : σ} {xs ys : List α}

theorem consume_of_lt (h : xs.length < n) : consume f n s xs = (s, xs) := by
  rw [consume, Nat.div_eq_of_lt h, Nat.mul_zero, List.drop_zero]
  rfl

theorem consume_of_le (hn : 0 < n) (h : n ≤ xs.length) :
    consume f n s xs = consume f n (f s (xs.take n)) (xs.drop n) := by
  have hdiv : xs.length / n = (xs.drop n).length / n + 1 := by
    rw [List.length_drop, ← Nat.add_div_right _ hn, Nat.sub_add_cancel h]
  rw [consume, consume, hdiv, blocks, List.drop_drop, Nat.mul_succ, Nat.add_comm n]

/-- A full block in front is taken at once. -/
theorem consume_append_block {block : List α} (hn : 0 < n) (hblock : block.length = n) :
    consume f n s (block ++ xs) = consume f n (f s block) xs := by
  rw [consume_of_le hn (by rw [List.length_append]; omega), ← hblock, List.take_left,
    List.drop_left]

/-- One full block leaves nothing. -/
theorem consume_block {block : List α} (hn : 0 < n) (hblock : block.length = n) :
    consume f n s block = (f s block, []) := by
  have htake : consume f n s (block ++ []) = consume f n (f s block) [] :=
    consume_append_block hn hblock
  have hnil : consume f n (f s block) [] = (f s block, []) := consume_of_lt hn
  rw [← hnil, ← htake, List.append_nil]

theorem length_consume : (consume f n s xs).2.length = xs.length % n := by
  have hdiv := Nat.div_add_mod xs.length n
  rw [consume, List.length_drop]
  omega

/-- What comes later is taken together with what is left. -/
theorem consume_append (hn : 0 < n) :
    consume f n s (xs ++ ys) = consume f n (consume f n s xs).1 ((consume f n s xs).2 ++ ys) := by
  induction hk : xs.length / n generalizing s xs with
  | zero =>
      have hlt : xs.length < n := (Nat.div_eq_zero_iff_lt hn).mp hk
      rw [consume_of_lt hlt]
  | succ k ih =>
      have hle : n ≤ xs.length := (Nat.div_pos_iff.mp (by omega)).2
      have hdrop : (xs.drop n).length / n = k := by
        have hdiv := Nat.add_div_right (xs.length - n) hn
        rw [Nat.sub_add_cancel hle, hk] at hdiv
        rw [List.length_drop]
        omega
      rw [consume_of_le hn (by rw [List.length_append]; omega), List.take_append_of_le_length hle,
        List.drop_append_of_le_length hle, ih hdrop, ← consume_of_le hn hle]

end BlockStream
