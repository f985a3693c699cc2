import Mathlib.Data.List.Basic
import Mathlib.Tactic.Common

/-!
# Tables of remembered answers

A table keeps answers of a function and is searched with a test, which has no result where
it follows a reference that has become invalid. When every entry holds the answer for the
key that it was made for, a search answers a key rightly exactly if it ends and the entry
that it finds was made for a key with the same answer.
-/

namespace MemoTable

variable {κ ι β ε : Type*}

/-- The first entry that the test accepts, if the tests up to there have results. -/
def find (test : ι → Option Bool) : List ι → Option (Option ι)
  | [] => some none
  | entry :: entries =>
      (test entry).bind fun hit ↦ if hit then some (some entry) else find test entries

variable {test : ι → Option Bool} {entries : List ι} {entry : ι}

theorem mem_of_find (h : find test entries = some (some entry)) :
    entry ∈ entries ∧ test entry = some true := by
  induction entries with
  | nil => cases h
  | cons first entries ih =>
      obtain ⟨hit, htest, hrest⟩ := Option.bind_eq_some_iff.mp h
      cases hit with
      | true =>
          obtain rfl : first = entry := by simpa using hrest
          exact ⟨List.mem_cons_self, htest⟩
      | false =>
          obtain ⟨hmem, hhit⟩ := ih (by simpa using hrest)
          exact ⟨List.mem_cons_of_mem _ hmem, hhit⟩

/-- A search whose tests all have results ends. -/
theorem find_isSome (h : ∀ entry ∈ entries, (test entry).isSome) : (find test entries).isSome := by
  induction entries with
  | nil => rfl
  | cons first entries ih =>
      obtain ⟨hit, htest⟩ := Option.isSome_iff_exists.mp (h first List.mem_cons_self)
      have hrest := ih fun entry hentry ↦ h entry (List.mem_cons_of_mem _ hentry)
      cases hit with
      | true => simp [find, htest]
      | false => simpa [find, htest] using hrest

theorem find_map {α : Type*} (f : α → ι) (l : List α) :
    find test (l.map f) = (find (test ∘ f) l).map (Option.map f) := by
  induction l with
  | nil => rfl
  | cons a l ih =>
      rw [List.map_cons, find, find, Function.comp_apply]
      rcases htest : test (f a) with _ | _ | _
      · rfl
      · exact ih
      · rfl

section Answers

variable (compute : κ → Except ε β) (value : ι → β)

/-- Each entry, with the key that it was made for, holds the answer for that key. -/
def Remembers (made : List (κ × ι)) : Prop :=
  ∀ entry ∈ made, compute entry.1 = .ok (value entry.2)

/-- What a search gives: the answer of the entry that it finds, else the answer computed. -/
def answer (test : ι → Option Bool) (entries : List ι) (computed : Except ε β) :
    Option (Except ε β) :=
  (find test entries).map fun hit ↦ hit.elim computed fun entry ↦ .ok (value entry)

variable {compute value} {made : List (κ × ι)}

theorem Remembers.concat (h : Remembers compute value made) {key : κ}
    (hentry : compute key = .ok (value entry)) :
    Remembers compute value (made ++ [(key, entry)]) := by
  intro other hother
  rcases List.mem_append.mp hother with hold | hnew
  · exact h other hold
  · obtain rfl := List.mem_singleton.mp hnew
    exact hentry

theorem answer_eq_iff (h : Remembers compute value made) (key : κ) :
    answer value test (made.map Prod.snd) (compute key) = some (compute key) ↔
      ∃ hit, find (test ∘ Prod.snd) made = some hit ∧
        ∀ entry, hit = some entry → compute key = compute entry.1 := by
  rw [answer, find_map]
  rcases hfind : find (test ∘ Prod.snd) made with _ | _ | entry
  · simp
  · simp
  · have hentry : compute entry.1 = .ok (value entry.2) := h entry (mem_of_find hfind).1
    constructor
    · intro hanswer
      refine ⟨some entry, rfl, fun other hother ↦ ?_⟩
      obtain rfl := Option.some.inj hother
      exact (Option.some.inj hanswer).symm.trans hentry.symm
    · rintro ⟨hit, hhit, hsame⟩
      obtain rfl := Option.some.inj hhit
      rw [hsame entry rfl, hentry]
      rfl

end Answers

end MemoTable
