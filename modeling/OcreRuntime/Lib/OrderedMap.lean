import Mathlib.Data.List.Basic
import Mathlib.Data.List.Nodup
import Mathlib.Logic.Function.Basic
import Mathlib.Tactic.Common

/-!
# Maps in insertion order

A map is the list of its entries in the order in which they were added, with
distinct keys. Entries are added at the end and removed by their value.
-/

@[ext] structure OrderedMap (K V : Type*) where
  entries : List (K × V)
  nodup : (entries.map Prod.fst).Nodup

namespace OrderedMap

variable {K V : Type*} [DecidableEq K]

def empty : OrderedMap K V := ⟨[], List.nodup_nil⟩

variable (m : OrderedMap K V)

def find (k : K) : Option V := (m.entries.find? (·.1 = k)).map Prod.snd

def values : List V := m.entries.map Prod.snd

theorem find_eq_none_iff {k : K} : m.find k = none ↔ k ∉ m.entries.map Prod.fst := by
  simp only [find, Option.map_eq_none_iff, List.find?_eq_none, decide_eq_true_eq, List.mem_map]
  exact ⟨fun h ⟨x, hx, hk⟩ ↦ h x hx hk, fun h x hx hk ↦ h ⟨x, hx, hk⟩⟩

/-- Add an entry at the end. -/
def append (k : K) (v : V) (h : m.find k = none) : OrderedMap K V where
  entries := m.entries ++ [(k, v)]
  nodup := by
    rw [List.map_append, List.nodup_append_comm]
    exact List.nodup_cons.mpr ⟨m.find_eq_none_iff.mp h, m.nodup⟩

/-- Remove what has the value `v`. -/
def eraseValue [DecidableEq V] (v : V) : OrderedMap K V where
  entries := m.entries.filter (·.2 ≠ v)
  nodup := m.nodup.sublist (List.filter_sublist.map _)

/-- The key of a new entry: the one that is asked for, or else the first of some
draws, provided that it is not there yet. -/
def freeKey (given : Option K) (draws : List K) : Option K :=
  match given with
  | some k => if (m.find k).isSome then none else some k
  | none => draws.find? fun k ↦ (m.find k).isNone

variable {m}

theorem find_eq_none_of_freeKey {given : Option K} {draws : List K} {k : K}
    (h : m.freeKey given draws = some k) : m.find k = none := by
  unfold freeKey at h
  split at h
  · obtain ⟨hfree, heq⟩ := Option.ite_none_left_eq_some.mp h
    obtain rfl := Option.some.inj heq
    simpa using hfree
  · simpa using List.find?_some h

theorem find_eq_some_iff {k : K} {v : V} : m.find k = some v ↔ (k, v) ∈ m.entries := by
  constructor
  · intro h
    obtain ⟨x, hx, rfl⟩ := Option.map_eq_some_iff.mp h
    have hk : x.1 = k := by simpa using List.find?_some hx
    rw [← hk]
    exact List.mem_of_find?_eq_some hx
  · intro h
    cases hfind : m.find k with
    | none => exact absurd (List.mem_map_of_mem h) (m.find_eq_none_iff.mp hfind)
    | some u =>
        obtain ⟨x, hx, rfl⟩ := Option.map_eq_some_iff.mp hfind
        have hk : x.1 = k := by simpa using List.find?_some hx
        have hmem := List.mem_of_find?_eq_some hx
        rw [List.inj_on_of_nodup_map m.nodup hmem h hk]

/-- Remove what has the key `k`. -/
def eraseKey (m : OrderedMap K V) (k : K) : OrderedMap K V where
  entries := m.entries.filter (·.1 ≠ k)
  nodup := m.nodup.sublist (List.filter_sublist.map _)

theorem find_eraseKey (k : K) : (m.eraseKey k).find = Function.update m.find k none := by
  funext j
  apply Option.ext
  intro v
  rw [find_eq_some_iff]
  by_cases hj : j = k
  · subst hj
    rw [Function.update_self]
    simp [eraseKey]
  · rw [Function.update_of_ne hj, find_eq_some_iff]
    simp [eraseKey, hj]

/-- The entry for `k` becomes the last one. -/
def put (m : OrderedMap K V) (k : K) (v : V) : OrderedMap K V :=
  (m.eraseKey k).append k v (by rw [find_eraseKey, Function.update_self])

theorem find_put (k : K) (v : V) : (m.put k v).find = Function.update m.find k (some v) := by
  funext j
  apply Option.ext
  intro u
  rw [find_eq_some_iff, put, append, List.mem_append, ← find_eq_some_iff, find_eraseKey,
    List.mem_singleton, Prod.mk.injEq]
  by_cases hj : j = k
  · subst hj
    rw [Function.update_self, Function.update_self, Option.some_inj]
    simp [eq_comm]
  · simp [hj]

end OrderedMap

/-- Where `f` is one to one, removing the first element with the image `b` removes
all of them. -/
theorem List.eraseP_eq_filter_of_nodup_map {α β : Type*} [DecidableEq β] {f : α → β}
    {l : List α} (h : (l.map f).Nodup) (b : β) :
    l.eraseP (f · = b) = l.filter (f · ≠ b) := by
  induction l with
  | nil => rfl
  | cons a l ih =>
      obtain ⟨ha, hl⟩ := List.nodup_cons.mp h
      by_cases hab : f a = b
      · have hkeep : l.filter (f · ≠ b) = l := by
          rw [List.filter_eq_self]
          intro x hx
          have hne : f x ≠ b := fun heq ↦ ha (hab.trans heq.symm ▸ List.mem_map_of_mem hx)
          simpa using hne
        rw [List.eraseP_cons_of_pos (by simpa using hab),
          List.filter_cons_of_neg (by simpa using hab), hkeep]
      · rw [List.eraseP_cons_of_neg (by simpa using hab),
          List.filter_cons_of_pos (by simpa using hab), ih hl]
