import Mathlib.Data.List.Perm.Basic
import Mathlib.Data.List.Perm.Subperm

/-!
# Resources that are acquired and released

A program works on the list of the resources that it holds. To release or to use one that
is not among them is undefined, so that a program that is defined releases nothing twice
and uses nothing after its release.
-/

namespace Resources

variable {ρ : Type*} {r s : ρ} {rs heap heap' : List ρ} {f g : List ρ → Option (List ρ)}

/-- A program releases just these resources, whatever is held besides. -/
def Releases (f : List ρ → Option (List ρ)) (heap : List ρ) : Prop :=
  ∀ live base, live.Perm (heap ++ base) → ∃ live', f live = some live' ∧ live'.Perm base

/-- A program leaves a resource held, where it is defined. -/
def Keeps (r : ρ) (f : List ρ → Option (List ρ)) : Prop :=
  ∀ live live', r ∈ live → f live = some live' → r ∈ live'

namespace Releases

theorem skip : Releases (some : List ρ → Option (List ρ)) [] := fun live _ h ↦ ⟨live, rfl, h⟩

theorem comp (hf : Releases f heap) (hg : Releases g heap') :
    Releases (fun live ↦ (f live).bind g) (heap ++ heap') := by
  intro live base h
  rw [List.append_assoc] at h
  obtain ⟨live₁, hlive₁, hperm⟩ := hf live _ h
  obtain ⟨live', hlive', hbase⟩ := hg live₁ base hperm
  exact ⟨live', Option.bind_eq_some_iff.mpr ⟨live₁, hlive₁, hlive'⟩, hbase⟩

theorem perm (hf : Releases f heap) (h : heap.Perm heap') : Releases f heap' :=
  fun live base hlive ↦ hf live base (hlive.trans (h.symm.append_right base))

end Releases

namespace Keeps

theorem skip : Keeps r some := fun _ _ hr h ↦ Option.some.inj h ▸ hr

theorem comp (hf : Keeps r f) (hg : Keeps r g) : Keeps r fun live ↦ (f live).bind g := by
  intro live live' hr h
  obtain ⟨live₁, hlive₁, hlive'⟩ := Option.bind_eq_some_iff.mp h
  exact hg live₁ live' (hf live live₁ hr hlive₁) hlive'

end Keeps

variable [DecidableEq ρ]

def release (r : ρ) (live : List ρ) : Option (List ρ) :=
  if r ∈ live then some (live.erase r) else none

/-- The release of what may be absent. -/
def releaseIf (held : Bool) (r : ρ) (live : List ρ) : Option (List ρ) :=
  if held then release r live else some live

def releaseAll : List ρ → List ρ → Option (List ρ)
  | [], live => some live
  | r :: rs, live => (release r live).bind (releaseAll rs)

theorem releases_release (r : ρ) : Releases (release r) [r] := by
  intro live base h
  refine ⟨live.erase r, if_pos (h.mem_iff.mpr List.mem_cons_self), ?_⟩
  have herase := h.erase r
  rwa [List.singleton_append, List.erase_cons_head] at herase

theorem releases_releaseIf (held : Bool) (r : ρ) :
    Releases (releaseIf held r) (if held then [r] else []) := by
  cases held with
  | false => exact Releases.skip
  | true => exact releases_release r

theorem releases_releaseAll (rs : List ρ) : Releases (releaseAll rs) rs := by
  induction rs with
  | nil => exact Releases.skip
  | cons r rs ih => exact (releases_release r).comp ih

theorem keeps_release (h : r ≠ s) : Keeps r (release s) := by
  intro live live' hr hlive
  obtain ⟨-, heq⟩ := Option.ite_none_right_eq_some.mp hlive
  exact Option.some.inj heq ▸ (List.mem_erase_of_ne h).mpr hr

theorem keeps_releaseIf (held : Bool) (h : r ≠ s) : Keeps r (releaseIf held s) := by
  cases held with
  | false => exact Keeps.skip
  | true => exact keeps_release h

theorem keeps_releaseAll (h : r ∉ rs) : Keeps r (releaseAll rs) := by
  induction rs with
  | nil => exact Keeps.skip
  | cons s rs ih =>
      rw [List.mem_cons, not_or] at h
      exact (keeps_release h.1).comp (ih h.2)

end Resources
