import Mathlib.Logic.Function.Basic
import Mathlib.Tactic.Common
import OcreRuntime.Lib.StepSystem

/-!
# A heap that several parties share

Allocated blocks by their address, each with the party it belongs to. A program may store into
a block or free it only while it is allocated, and a new block is put where there is none. What
a party holds is left alone by the others as long as each of them keeps to its own blocks.
-/

structure Heap (ω α : Type*) where
  block : ℕ → Option (ω × α)
  /-- The number of allocations that have been tried. -/
  calls : ℕ := 0

namespace Heap

open Function (update)

variable {ω α : Type*}

/-- Where a block of some size is put, if there is room for it. -/
structure Allocator (ω α : Type*) where
  place : Heap ω α → ℕ → Option ℕ
  block_of_place : ∀ {h : Heap ω α} {n a : ℕ}, place h n = some a → h.block a = none

def get (h : Heap ω α) (a : ℕ) : Option α := (h.block a).map Prod.snd

def malloc (A : Allocator ω α) (o : ω) (n : ℕ) (x : α) (h : Heap ω α) : Option ℕ × Heap ω α :=
  match A.place h n with
  | none => (none, { h with calls := h.calls + 1 })
  | some a => (some a, ⟨update h.block a (some (o, x)), h.calls + 1⟩)

def store (a : ℕ) (x : α) (h : Heap ω α) : Option (Heap ω α) :=
  (h.block a).map fun b ↦ { h with block := update h.block a (some (b.1, x)) }

def free (a : ℕ) (h : Heap ω α) : Option (Heap ω α) :=
  (h.block a).map fun _ ↦ { h with block := update h.block a none }

/-- What a party does with blocks of its own. -/
inductive Act (α : Type*)
  | malloc (n : ℕ) (x : α)
  | store (a : ℕ) (x : α)
  | free (a : ℕ)

/-- A step of a party, which is undefined at a block of somebody else. -/
def act [DecidableEq ω] (A : Allocator ω α) (o : ω) : Act α → Heap ω α → Option (Heap ω α)
  | .malloc n x, h => some (h.malloc A o n x).2
  | .store a x, h => if (h.block a).map Prod.fst = some o then h.store a x else none
  | .free a, h => if (h.block a).map Prod.fst = some o then h.free a else none

/-- Steps of everybody but one party. -/
def others [DecidableEq ω] (A : Allocator ω α) (me : ω) (acts : List (ω × Act α))
    (h : Heap ω α) : Option (Heap ω α) :=
  acts.foldlM (fun h e ↦ if e.1 = me then none else h.act A e.1 e.2) h

def Extends (h h' : Heap ω α) : Prop := ∀ a b, h.block a = some b → h'.block a = some b

/-- Blocks with these contents belong to the party. -/
def Owns (o : ω) (h : Heap ω α) (F : List (ℕ × α)) : Prop :=
  ∀ e ∈ F, h.block e.1 = some (o, e.2)

variable {A : Allocator ω α} {o me : ω} {h h' h'' : Heap ω α} {F G : List (ℕ × α)} {a n : ℕ}
  {x y : α}

theorem Extends.refl (h : Heap ω α) : h.Extends h := fun _ _ hb ↦ hb

theorem Extends.trans (hh : h.Extends h') (hh' : h'.Extends h'') : h.Extends h'' :=
  fun a b hb ↦ hh' a b (hh a b hb)

theorem Extends.get (hh : h.Extends h') (hx : h.get a = some x) : h'.get a = some x := by
  obtain ⟨b, hb, rfl⟩ := Option.map_eq_some_iff.mp hx
  exact Option.map_eq_some_iff.mpr ⟨b, hh a b hb, rfl⟩

theorem block_of_malloc (hm : h.malloc A o n x = (some a, h')) :
    h.block a = none ∧ h'.block = update h.block a (some (o, x)) := by
  unfold malloc at hm
  split at hm
  · cases hm
  · next ha =>
    cases hm
    exact ⟨A.block_of_place ha, rfl⟩

theorem extends_malloc (A : Allocator ω α) (o : ω) (n : ℕ) (x : α) (h : Heap ω α) :
    h.Extends (h.malloc A o n x).2 := by
  intro a b hb
  unfold malloc
  split
  · exact hb
  · next c hc =>
    have hne : a ≠ c := by
      rintro rfl
      rw [A.block_of_place hc] at hb
      cases hb
    exact (Function.update_of_ne hne _ _).trans hb

theorem block_of_store (hs : h.store a x = some h') :
    ∃ b, h.block a = some b ∧ h'.block = update h.block a (some (b.1, x)) := by
  obtain ⟨b, hb, rfl⟩ := Option.map_eq_some_iff.mp hs
  exact ⟨b, hb, rfl⟩

theorem Extends.store (hh : h.Extends h') (ha : h.block a = none)
    (hs : h'.store a x = some h'') : h.Extends h'' := by
  obtain ⟨c, -, hblock⟩ := block_of_store hs
  intro i b hb
  have hne : i ≠ a := by
    rintro rfl
    rw [ha] at hb
    cases hb
  rw [hblock, Function.update_of_ne hne]
  exact hh i b hb

namespace Owns

theorem nil : Owns o h [] := fun _ he ↦ absurd he List.not_mem_nil

theorem append_iff : Owns o h (F ++ G) ↔ Owns o h F ∧ Owns o h G := List.forall_mem_append

theorem cons_iff : Owns o h ((a, x) :: F) ↔ h.block a = some (o, x) ∧ Owns o h F :=
  List.forall_mem_cons

theorem mono (hF : Owns o h F) (hh : h.Extends h') : Owns o h' F :=
  fun e he ↦ hh _ _ (hF e he)

theorem get (hF : Owns o h F) (he : (a, x) ∈ F) : h.get a = some x := by
  rw [Heap.get, hF _ he, Option.map_some]

theorem of_update (hF : Owns o h F) (ha : ∀ e ∈ F, e.1 ≠ a) {b : Option (ω × α)}
    (hblock : h'.block = update h.block a b) : Owns o h' F := by
  intro e he
  rw [hblock, Function.update_of_ne (ha e he)]
  exact hF e he

theorem store (hF : Owns o h F) (ha : ∀ e ∈ F, e.1 ≠ a) (hs : h.store a x = some h') :
    Owns o h' F := by
  obtain ⟨b, -, hblock⟩ := block_of_store hs
  exact hF.of_update ha hblock

theorem ne_of_owner (hF : Owns me h F) (hne : o ≠ me) (ha : (h.block a).map Prod.fst = some o) :
    ∀ e ∈ F, e.1 ≠ a := by
  rintro e he rfl
  rw [hF e he, Option.map_some] at ha
  exact hne (Option.some.inj ha).symm

variable [DecidableEq ω]

/-- What the party holds is left alone by a step of somebody else. -/
theorem act (hF : Owns me h F) (hne : o ≠ me) {act : Act α} (hact : h.act A o act = some h') :
    Owns me h' F := by
  cases act with
  | malloc n x => exact Option.some.inj hact ▸ hF.mono (extends_malloc A o n x h)
  | store a x =>
      rw [Heap.act, Option.ite_none_right_eq_some] at hact
      exact hF.store (hF.ne_of_owner hne hact.1) hact.2
  | free a =>
      rw [Heap.act, Option.ite_none_right_eq_some] at hact
      obtain ⟨b, -, rfl⟩ := Option.map_eq_some_iff.mp hact.2
      exact hF.of_update (hF.ne_of_owner hne hact.1) rfl

/-- The frame rule: a run of everybody else leaves alone what the party holds. -/
theorem others (hF : Owns me h F) {acts : List (ω × Act α)}
    (hothers : h.others A me acts = some h') : Owns me h' F := by
  refine OptionLoop.invariant (P := fun h ↦ Owns me h F) (fun h e h' hF he ↦ ?_) hF hothers
  rw [Option.ite_none_left_eq_some] at he
  exact hF.act he.1 he.2

end Owns

end Heap
