import Mathlib.Data.List.TakeWhile
import Mathlib.Tactic.Common

/-!
# Contents that come in portions

A source delivers its contents in portions. Each request is answered with some elements, at
least one as long as there are any, but it may be with fewer than were asked for. A loop that
asks again until it has as many as it wants gets them, however they are split.
-/

/-- How many elements each request gets, by the number of the request and the position. -/
structure Portions {α : Type*} (contents : List α) where
  deliver : ℕ → ℕ → ℕ → ℕ
  le_request : ∀ i position n, deliver i position n ≤ n
  le_rest : ∀ i position n, deliver i position n ≤ contents.length - position
  pos : ∀ i position n, 0 < n → position < contents.length → 0 < deliver i position n

namespace Portions

variable {α : Type*} {contents : List α} (p : Portions contents) (request : ℕ → ℕ → ℕ)

/-- The loop, with what it asks for when so many are still wanted. What has been delivered
beyond that is left. -/
def collect : ℕ → ℕ → ℕ → ℕ → List α
  | 0, _, _, _ => []
  | fuel + 1, i, position, wanted =>
      let n := p.deliver i position (request i wanted)
      if wanted = 0 ∨ n = 0 then []
      else if wanted ≤ n then (contents.drop position).take wanted
      else (contents.drop position).take n ++ collect fuel (i + 1) (position + n) (wanted - n)

/-- The contents are collected, in no more rounds than there are elements wanted. -/
theorem collect_eq (hrequest : ∀ i wanted, 0 < wanted → 0 < request i wanted) {fuel : ℕ} (i : ℕ)
    (position : ℕ) {wanted : ℕ} (h : wanted ≤ fuel) :
    p.collect request fuel i position wanted = (contents.drop position).take wanted := by
  induction fuel generalizing i position wanted with
  | zero =>
      obtain rfl := Nat.le_zero.mp h
      simp [collect]
  | succ fuel ih =>
      rw [collect]
      split
      next hstop =>
        by_cases hzero : wanted = 0
        · simp [hzero]
        · have hempty : contents.length ≤ position := by
            by_contra hlt
            have hpos := p.pos i position _ (hrequest i wanted (Nat.pos_of_ne_zero hzero))
              (Nat.lt_of_not_le hlt)
            exact hpos.ne' (hstop.resolve_left hzero)
          rw [List.drop_eq_nil_of_le hempty, List.take_nil]
      next hgo =>
        split
        next => rfl
        next hmore =>
          rw [ih (i + 1) _ (by omega), ← List.drop_drop, ← List.take_add]
          congr 1
          omega

/-- The portions that come from a position on, when each request asks for the same. -/
def pieces (n : ℕ) : ℕ → ℕ → ℕ → List (List α)
  | 0, _, _ => []
  | fuel + 1, i, position =>
      if contents.length ≤ position then []
      else (contents.drop position).take (p.deliver i position n) ::
        pieces n fuel (i + 1) (position + p.deliver i position n)

/-- A source that always delivers as much as it can. -/
def whole (contents : List α) : Portions contents where
  deliver _ position n := min n (contents.length - position)
  le_request _ _ _ := Nat.min_le_left _ _
  le_rest _ _ _ := Nat.min_le_right _ _
  pos _ _ _ hn hposition := by omega

/-- A source that delivers one element at a time. -/
def single (contents : List α) : Portions contents where
  deliver _ position n := min 1 (min n (contents.length - position))
  le_request _ _ _ := by omega
  le_rest _ _ _ := by omega
  pos _ _ _ hn hposition := by omega

end Portions
