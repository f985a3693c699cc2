import Mathlib.Data.List.Nodup
import Mathlib.Logic.Function.Basic
import Mathlib.Tactic.Common

/-!
# Singly linked lists in memory

Nodes by their addresses, of which 0 is none; a node that is not allocated cannot be read or
written. The operations walk along the links. What they do to the nodes is what the operations on
lists do to the entries, as long as the loops have rounds enough; a loop that may free the node it
is at reads the link first.
-/

namespace LinkedList

open Function (update)

structure Node (β : Type) where
  value : β
  next : ℕ

abbrev Memory (β : Type) := ℕ → Option (Node β)

variable {β σ ρ : Type}

def setNext (m : Memory β) (a next : ℕ) : Option (Memory β) :=
  (m a).map fun node ↦ update m a (some ⟨node.value, next⟩)

def setValue (m : Memory β) (a : ℕ) (value : β) : Option (Memory β) :=
  (m a).map fun node ↦ update m a (some ⟨value, node.next⟩)

def free (m : Memory β) (a : ℕ) : Option (Memory β) := (m a).map fun _ ↦ update m a none

/-- The last node, from one on. -/
def last (m : Memory β) : ℕ → ℕ → Option ℕ
  | 0, _ => none
  | fuel + 1, p => do
      let node ← m p
      if node.next = 0 then some p else last m fuel node.next

/-- The new head and the memory, with a node at the end. -/
def append (fuel : ℕ) (m : Memory β) (head add : ℕ) : Option (ℕ × Memory β) := do
  let m ← setNext m add 0
  if head ≠ 0 then do
    let p ← last m fuel head
    let m ← setNext m p add
    some (head, m)
  else some (add, m)

/-- The node in front of `del`, or the last one. -/
def before (m : Memory β) (del : ℕ) : ℕ → ℕ → Option ℕ
  | 0, _ => none
  | fuel + 1, p => do
      let node ← m p
      if node.next ≠ 0 ∧ node.next ≠ del then before m del fuel node.next else some p

/-- The new head and the memory, without a node, which is still allocated. -/
def delete (fuel : ℕ) (m : Memory β) (head del : ℕ) : Option (ℕ × Memory β) :=
  if head = del then do
    let node ← m head
    some (node.next, m)
  else do
    let p ← before m del fuel head
    let node ← m p
    if node.next ≠ 0 then do
      let deleted ← m del
      let m ← setNext m p deleted.next
      some (head, m)
    else some (head, m)

/-- A loop over the nodes; `memory` is the part of the state that holds them. It may be left
early. The link is read after the body. -/
def forEach (memory : σ → Memory β) (body : ℕ → β → σ → Option (Except ρ σ)) :
    ℕ → ℕ → σ → Option (Except ρ σ)
  | 0, p, s => if p = 0 then some (.ok s) else none
  | fuel + 1, p, s =>
      if p = 0 then some (.ok s)
      else do
        let node ← memory s p
        match ← body p node.value s with
        | .error r => some (.error r)
        | .ok s => do
            let node ← memory s p
            forEach memory body fuel node.next s

/-- The loop whose body may free the node: the link is read before the body. -/
def forEachSafe (memory : σ → Memory β) (body : ℕ → β → σ → Option (Except ρ σ)) :
    ℕ → ℕ → σ → Option (Except ρ σ)
  | 0, p, s => if p = 0 then some (.ok s) else none
  | fuel + 1, p, s =>
      if p = 0 then some (.ok s)
      else do
        let node ← memory s p
        match ← body p node.value s with
        | .error r => some (.error r)
        | .ok s => forEachSafe memory body fuel node.next s

/-- The entries from an address on: the nodes that the links lead to, with what they hold. -/
def Lists (m : Memory β) : ℕ → List (ℕ × β) → Prop
  | p, [] => p = 0
  | p, e :: l => p = e.1 ∧ p ≠ 0 ∧ ∃ next, m p = some ⟨e.2, next⟩ ∧ Lists m next l

variable {m m' : Memory β} {p head : ℕ} {e : ℕ × β} {l l' : List (ℕ × β)}

namespace Lists

theorem nil : Lists m 0 [] := rfl

theorem unique (h : Lists m p l) (h' : Lists m p l') : l = l' := by
  induction l generalizing p l' with
  | nil =>
      cases l' with
      | nil => rfl
      | cons e' l' => exact absurd h h'.2.1
  | cons e l ih =>
      obtain ⟨he, hne, next, hnode, hrest⟩ := h
      cases l' with
      | nil => exact absurd h' hne
      | cons e' l' =>
          obtain ⟨he', -, next', hnode', hrest'⟩ := h'
          obtain ⟨hvalue, hnext⟩ := Node.mk.inj (Option.some.inj (hnode.symm.trans hnode'))
          rw [ih hrest (hnext ▸ hrest'), Prod.ext (he.symm.trans he') hvalue]

/-- The links lead from each entry to the rest. -/
theorem of_append (h : Lists m p (l ++ l')) : ∃ q, Lists m q l' := by
  induction l generalizing p with
  | nil => exact ⟨p, h⟩
  | cons e l ih =>
      obtain ⟨-, -, next, -, hrest⟩ := h
      exact ih hrest

/-- A list says where it starts. -/
theorem address_eq {q : ℕ} (h : Lists m p l) (h' : Lists m' q l) : p = q := by
  cases l with
  | nil => exact Eq.trans h h'.symm
  | cons e l => exact h.1.trans h'.1.symm

theorem nodup (h : Lists m p l) : (l.map Prod.fst).Nodup := by
  induction l generalizing p with
  | nil => exact List.nodup_nil
  | cons e l ih =>
      obtain ⟨rfl, hne, next, hnode, hrest⟩ := id h
      refine List.nodup_cons.mpr ⟨fun hmem ↦ ?_, ih hrest⟩
      -- the list from the second occurrence on would be the whole list
      obtain ⟨e', he', heq⟩ := List.mem_map.mp hmem
      obtain ⟨l₁, l₂, rfl⟩ := List.append_of_mem he'
      obtain ⟨q, hq⟩ := hrest.of_append
      have hsame : q = e.1 := hq.1.trans heq
      have hlength := congrArg List.length (h.unique (hsame ▸ hq))
      simp only [List.length_cons, List.length_append] at hlength
      omega

/-- Only the nodes of the entries matter. -/
theorem congr (h : Lists m p l) (hm : ∀ a ∈ l.map Prod.fst, m' a = m a) : Lists m' p l := by
  induction l generalizing p with
  | nil => exact h
  | cons e l ih =>
      obtain ⟨rfl, hne, next, hnode, hrest⟩ := h
      obtain ⟨hhead, htail⟩ := List.forall_mem_cons.mp hm
      exact ⟨rfl, hne, next, hhead.trans hnode, ih hrest htail⟩

theorem node (h : Lists m p l) (he : e ∈ l) : e.1 ≠ 0 ∧ ∃ next, m e.1 = some ⟨e.2, next⟩ := by
  induction l generalizing p with
  | nil => cases he
  | cons e' l ih =>
      obtain ⟨rfl, hne, next, hnode, hrest⟩ := h
      rcases List.mem_cons.mp he with rfl | hmem
      · exact ⟨hne, next, hnode⟩
      · exact ih hrest hmem

end Lists

theorem setNext_eq {a next : ℕ} {v : β} {old : ℕ} (h : m a = some ⟨v, old⟩) :
    setNext m a next = some (update m a (some ⟨v, next⟩)) := by
  rw [setNext, h]
  rfl

/-- The last node of a list is found and can be given a successor. -/
theorem last_spec {fuel add : ℕ} {v : β} (h : Lists m p l) (hne : l ≠ [])
    (hfuel : l.length ≤ fuel) (hadd : m add = some ⟨v, 0⟩) (hzero : add ≠ 0)
    (hnew : add ∉ l.map Prod.fst) :
    ∃ q ∈ l.map Prod.fst, last m fuel p = some q ∧ ∃ m', setNext m q add = some m' ∧
      Lists m' p (l ++ [(add, v)]) ∧ ∀ a, a ≠ q → m' a = m a := by
  induction l generalizing p fuel with
  | nil => exact absurd rfl hne
  | cons e l ih =>
      obtain ⟨fuel, rfl⟩ := Nat.exists_eq_add_one.mpr (Nat.zero_lt_of_lt hfuel)
      have hnodup := h.nodup
      obtain ⟨rfl, hp, next, hnode, hrest⟩ := h
      rw [List.map_cons, List.mem_cons, not_or] at hnew
      cases l with
      | nil =>
          obtain rfl : next = 0 := hrest
          refine ⟨e.1, List.mem_cons_self, ?_, _, setNext_eq hnode, ?_, ?_⟩
          · simp [last, hnode]
          · refine ⟨rfl, hp, add, Function.update_self .., rfl, hzero, 0, ?_, rfl⟩
            rw [Function.update_of_ne hnew.1, hadd]
          · exact fun a ha ↦ Function.update_of_ne ha ..
      | cons e' l =>
          obtain ⟨q, hq, hlast, m', hset, hlists, hframe⟩ := ih hrest (List.cons_ne_nil _ _)
            (Nat.le_of_succ_le_succ hfuel) hnew.2
          have hqe : e.1 ≠ q := by
            rintro rfl
            exact (List.nodup_cons.mp hnodup).1 hq
          refine ⟨q, List.mem_cons_of_mem _ hq, ?_, m', hset, ?_, hframe⟩
          · rw [last, hnode]
            exact (if_neg (hrest.1 ▸ hrest.2.1)).trans hlast
          · exact ⟨rfl, hp, next, (hframe _ hqe).trans hnode, hlists⟩

/-- An allocated node that is not listed goes to the end. -/
theorem append_spec {fuel add old : ℕ} {v : β} (h : Lists m head l) (hfuel : l.length ≤ fuel)
    (hadd : m add = some ⟨v, old⟩) (hzero : add ≠ 0) (hnew : add ∉ l.map Prod.fst) :
    ∃ head' m', append fuel m head add = some (head', m') ∧
      Lists m' head' (l ++ [(add, v)]) ∧
      ∀ a, a ∉ (l ++ [(add, v)]).map Prod.fst → m' a = m a := by
  have hself : update m add (some ⟨v, 0⟩) add = some ⟨v, 0⟩ := Function.update_self ..
  have hlists : Lists (update m add (some ⟨v, 0⟩)) head l :=
    h.congr fun a ha ↦ Function.update_of_ne (by rintro rfl; exact hnew ha) ..
  have hframe {a : ℕ} (ha : a ∉ (l ++ [(add, v)]).map Prod.fst) :
      update m add (some ⟨v, 0⟩) a = m a := by
    refine Function.update_of_ne ?_ ..
    rintro rfl
    exact ha (by simp)
  simp only [append, setNext_eq hadd, Option.bind_eq_bind, Option.bind_some]
  cases l with
  | nil =>
      obtain rfl : head = 0 := h
      exact ⟨add, _, if_neg (not_not.mpr rfl), ⟨rfl, hzero, 0, hself, rfl⟩, fun a ↦ hframe⟩
  | cons e l =>
      obtain ⟨q, hq, hlast, m', hset, hlists', hkept⟩ :=
        last_spec hlists (List.cons_ne_nil _ _) hfuel hself hzero hnew
      refine ⟨head, m', ?_, hlists', fun a ha ↦ ?_⟩
      · rw [if_pos h.2.1, hlast]
        simp [hset]
      · rw [hkept a, hframe ha]
        rintro rfl
        exact ha (by rw [List.map_append]; exact List.mem_append_left _ hq)

/-- The node in front of a listed one that is not the first is found and can be led past it. -/
theorem before_spec {fuel : ℕ} {l₁ l₂ : List (ℕ × β)} (h : Lists m p (l₁ ++ e :: l₂))
    (hne : l₁ ≠ []) (hfuel : l₁.length ≤ fuel) :
    ∃ q ∈ l₁.map Prod.fst, before m e.1 fuel p = some q ∧
      (∃ v, m q = some ⟨v, e.1⟩) ∧ ∃ next, m e.1 = some ⟨e.2, next⟩ ∧
      ∃ m', setNext m q next = some m' ∧ Lists m' p (l₁ ++ l₂) ∧ ∀ a, a ≠ q → m' a = m a := by
  induction l₁ generalizing p fuel with
  | nil => exact absurd rfl hne
  | cons e' l₁ ih =>
      obtain ⟨fuel, rfl⟩ := Nat.exists_eq_add_one.mpr (Nat.zero_lt_of_lt hfuel)
      have hnodup := h.nodup
      obtain ⟨rfl, hp, next, hnode, hrest⟩ := h
      cases l₁ with
      | nil =>
          obtain ⟨rfl, -, next, hdel, hrest⟩ := id hrest
          refine ⟨e'.1, List.mem_cons_self, ?_, ⟨_, hnode⟩, next, hdel, _, setNext_eq hnode,
            ?_, fun a ha ↦ Function.update_of_ne ha ..⟩
          · rw [before, hnode]
            exact if_neg fun hcond ↦ hcond.2 rfl
          · refine ⟨rfl, hp, next, Function.update_self .., hrest.congr fun a ha ↦ ?_⟩
            refine Function.update_of_ne ?_ ..
            rintro rfl
            exact (List.nodup_cons.mp hnodup).1 (List.mem_cons_of_mem _ ha)
      | cons e'' l₁ =>
          obtain ⟨q, hq, hbefore, hlink, next', hdel, m', hset, hlists, hframe⟩ :=
            ih hrest (List.cons_ne_nil _ _) (Nat.le_of_succ_le_succ hfuel)
          have hnext : next ≠ e.1 := by
            rw [hrest.1]
            intro heq
            have hmem : e''.1 ∈ (l₁ ++ e :: l₂).map Prod.fst := by simp [heq]
            exact (List.nodup_cons.mp (List.nodup_cons.mp hnodup).2).1 hmem
          have hqe : e'.1 ≠ q := by
            rintro rfl
            have hmem : e'.1 ∈ (e'' :: l₁ ++ e :: l₂).map Prod.fst := by
              rw [List.map_append]
              exact List.mem_append_left _ hq
            exact (List.nodup_cons.mp hnodup).1 hmem
          refine ⟨q, List.mem_cons_of_mem _ hq, ?_, hlink, next', hdel, m', hset, ?_, hframe⟩
          · rw [before, hnode]
            exact (if_pos ⟨hrest.1 ▸ hrest.2.1, hnext⟩).trans hbefore
          · exact ⟨rfl, hp, next, (hframe _ hqe).trans hnode, hlists⟩

/-- A listed node is taken out, and is still allocated. -/
theorem delete_spec {fuel : ℕ} {l₁ l₂ : List (ℕ × β)} (h : Lists m head (l₁ ++ e :: l₂))
    (hfuel : l₁.length ≤ fuel) :
    ∃ head' m', delete fuel m head e.1 = some (head', m') ∧ Lists m' head' (l₁ ++ l₂) ∧
      m' e.1 = m e.1 ∧ ∀ a, a ∉ (l₁ ++ l₂).map Prod.fst → m' a = m a := by
  have hnodup := h.nodup
  cases l₁ with
  | nil =>
      obtain ⟨rfl, -, next, hnode, hrest⟩ := h
      refine ⟨next, m, ?_, hrest, rfl, fun a _ ↦ rfl⟩
      rw [delete, if_pos rfl, hnode]
      rfl
  | cons e' l₁ =>
      obtain ⟨q, hq, hbefore, ⟨v, hlink⟩, next, hdel, m', hset, hlists, hframe⟩ :=
        before_spec h (List.cons_ne_nil _ _) hfuel
      have hne : head ≠ e.1 := by
        rw [h.1]
        intro heq
        have hmem : e'.1 ∈ (l₁ ++ e :: l₂).map Prod.fst := by simp [heq]
        exact (List.nodup_cons.mp hnodup).1 hmem
      have hzero : e.1 ≠ 0 := (h.node (List.mem_append_right _ List.mem_cons_self)).1
      have hqe : e.1 ≠ q := by
        rintro rfl
        rw [List.map_append, List.map_cons] at hnodup
        exact List.disjoint_of_nodup_append hnodup hq List.mem_cons_self
      refine ⟨head, m', ?_, hlists, hframe _ hqe, fun a ha ↦ hframe a ?_⟩
      · simp [delete, hne, hbefore, hlink, hzero, hdel, hset]
      · rintro rfl
        exact ha (by rw [List.map_append]; exact List.mem_append_left _ hq)

theorem free_eq {a : ℕ} {node : Node β} (h : m a = some node) :
    free m a = some (update m a none) := by
  rw [free, h]
  rfl

section Loops

variable {memory : σ → Memory β} {body : ℕ → β → σ → Option (Except ρ σ)}
  {I : List (ℕ × β) → σ → Prop} {E : ρ → Prop} {fuel : ℕ} {s : σ}

/-- A loop that frees no node it is at: what holds of the rest of the list and of the state is
kept by a round that leaves the nodes as they are, or the loop is left. -/
theorem forEach_spec
    (hbody : ∀ e l s, I (e :: l) s → (∃ x, body e.1 e.2 s = some (.error x) ∧ E x) ∨
      ∃ s', body e.1 e.2 s = some (.ok s') ∧ I l s' ∧ memory s' = memory s)
    (h : Lists (memory s) p l) (hI : I l s) (hfuel : l.length ≤ fuel) :
    (∃ x, forEach memory body fuel p s = some (.error x) ∧ E x) ∨
      ∃ s', forEach memory body fuel p s = some (.ok s') ∧ I [] s' := by
  induction l generalizing p fuel s with
  | nil =>
      obtain rfl : p = 0 := h
      cases fuel <;> exact .inr ⟨s, if_pos rfl, hI⟩
  | cons e l ih =>
      obtain ⟨fuel, rfl⟩ := Nat.exists_eq_add_one.mpr (Nat.zero_lt_of_lt hfuel)
      obtain ⟨rfl, hp, next, hnode, hrest⟩ := h
      rw [forEach, if_neg hp, hnode]
      rcases hbody e l s hI with ⟨x, hx, hE⟩ | ⟨s', hs', hI', hmemory⟩
      · exact .inl ⟨x, by simp [hx], hE⟩
      · simp only [Option.bind_eq_bind, Option.bind_some, hs', hmemory, hnode]
        exact ih (hmemory ▸ hrest) hI' (Nat.le_of_succ_le_succ hfuel)

/-- A loop that reads the link first: its rounds may free the node, as long as the rest of the
list is still linked. -/
theorem forEachSafe_spec
    (hbody : ∀ e l next s, I (e :: l) s → Lists (memory s) next l →
      (∃ x, body e.1 e.2 s = some (.error x) ∧ E x) ∨
        ∃ s', body e.1 e.2 s = some (.ok s') ∧ I l s' ∧ Lists (memory s') next l)
    (h : Lists (memory s) p l) (hI : I l s) (hfuel : l.length ≤ fuel) :
    (∃ x, forEachSafe memory body fuel p s = some (.error x) ∧ E x) ∨
      ∃ s', forEachSafe memory body fuel p s = some (.ok s') ∧ I [] s' := by
  induction l generalizing p fuel s with
  | nil =>
      obtain rfl : p = 0 := h
      cases fuel <;> exact .inr ⟨s, if_pos rfl, hI⟩
  | cons e l ih =>
      obtain ⟨fuel, rfl⟩ := Nat.exists_eq_add_one.mpr (Nat.zero_lt_of_lt hfuel)
      obtain ⟨rfl, hp, next, hnode, hrest⟩ := h
      rw [forEachSafe, if_neg hp, hnode]
      rcases hbody e l next s hI hrest with ⟨x, hx, hE⟩ | ⟨s', hs', hI', hlists⟩
      · exact .inl ⟨x, by simp [hx], hE⟩
      · simp only [Option.bind_eq_bind, Option.bind_some, hs']
        exact ih hlists hI' (Nat.le_of_succ_le_succ hfuel)

end Loops

end LinkedList
