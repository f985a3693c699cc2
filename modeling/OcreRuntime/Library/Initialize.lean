import OcreRuntime.Container.Model

/-!
# Registration and initialisation of the runtimes

`ocre_initialize` and `ocre_deinitialize`, over static objects of any type that the
`init` and `deinit` functions of the runtimes work on. Freeing a node is not
recorded, as no freed node is used again.
-/

namespace OcreRuntime

/-- The part of `struct ocre_runtime_vtable` that the list of runtimes is for. -/
structure RuntimeVtable (σ : Type) where
  runtimeName : CString
  init : Option (σ → Int × σ)
  deinit : Option (σ → Int × σ)

/-- The lists of `ocre.c` with the objects behind them. A context is what
`ocre_context_destroy` returns for it and does. -/
structure Library (σ : Type) where
  runtimes : List (RuntimeVtable σ)
  contexts : List (σ → Int × σ)
  statics : σ

/-- What the calls of `ocre_initialize` do. Node 0 is the one of WAMR, and node `i + 1`
the one of `vtable[i]`. -/
structure InitializeCalls where
  mutexInit : Int
  malloc : ℕ → Bool

section Runtimes

variable {σ : Type}

/-- The loop over the extra runtimes, with the list that it has built; an error if it goes to
`error`. -/
def addRuntimes (malloc : ℕ → Bool) (runtimes : List (RuntimeVtable σ)) :
    List (RuntimeVtable σ) → Except (List (RuntimeVtable σ)) (List (RuntimeVtable σ))
  | [] => .ok runtimes
  | add :: vtable =>
      if runtimes.any (·.runtimeName = add.runtimeName) then .error runtimes
      else if ¬ malloc runtimes.length then .error runtimes
      else addRuntimes malloc (runtimes ++ [add]) vtable

/-- The loop behind `error`. Each round deletes the node that it is at, the first of the list. -/
def unwindRuntimes : List (RuntimeVtable σ) → List (RuntimeVtable σ)
  | [] => []
  | _ :: runtimes => unwindRuntimes runtimes

/-- The initialisation of the runtimes, which ends with the first that fails. -/
def initRuntimes : List (RuntimeVtable σ) → σ → Bool × σ
  | [], x => (true, x)
  | elt :: runtimes, x => match elt.init with
      | none => initRuntimes runtimes x
      | some init =>
          if (init x).1 ≠ 0 then (false, (init x).2) else initRuntimes runtimes (init x).2

/-- The loop over the runtimes in `ocre_deinitialize`, with the list that it leaves. Each round
deletes the first node. -/
def deinitRuntimes : List (RuntimeVtable σ) → σ → List (RuntimeVtable σ) × σ
  | [], x => ([], x)
  | elt :: runtimes, x =>
      deinitRuntimes runtimes ((elt.deinit.map fun deinit ↦ (deinit x).2).getD x)

/-- The destruction of all contexts; one for which it fails stays in the list. -/
def destroyContexts : List (σ → Int × σ) → σ → List (σ → Int × σ) × σ
  | [], x => ([], x)
  | context :: contexts, x =>
      let r := destroyContexts contexts (context x).2
      (if (context x).1 ≠ 0 then context :: r.1 else r.1, r.2)

def ocreDeInitialize (s : Library σ) : Library σ :=
  let r := destroyContexts s.contexts s.statics
  let d := deinitRuntimes s.runtimes r.2
  { runtimes := d.1, contexts := r.1, statics := d.2 }

/-- `ocre_initialize`; no array stands for NULL. -/
def ocreInitialize (wamr : RuntimeVtable σ) (vtable : Option (List (RuntimeVtable σ)))
    (calls : InitializeCalls) (s : Library σ) : Int × Library σ :=
  let s := { s with runtimes := [], contexts := [] }
  if calls.mutexInit ≠ 0 then (-1, s)
  else if ¬ calls.malloc 0 then (-1, s)
  else match addRuntimes calls.malloc [wamr] (vtable.getD []) with
    | .error runtimes => (-1, { s with runtimes := unwindRuntimes runtimes })
    | .ok runtimes =>
        let r := initRuntimes runtimes s.statics
        let s := { s with runtimes := runtimes, statics := r.2 }
        if r.1 then (0, s) else (-1, ocreDeInitialize s)

/-- `ocre_get_runtime`; none is NULL. -/
def ocreGetRuntime (s : Library σ) (name : Option CString) : Option (RuntimeVtable σ) :=
  name.bind fun name ↦ s.runtimes.find? (·.runtimeName = name)

variable {malloc : ℕ → Bool} {runtimes vtable : List (RuntimeVtable σ)}

theorem exists_of_addRuntimes (h : (addRuntimes malloc runtimes vtable).isOk = true) :
    ∃ result, addRuntimes malloc runtimes vtable = .ok result := by
  cases hadd : addRuntimes malloc runtimes vtable with
  | error built => simp [hadd, Except.isOk, Except.toBool] at h
  | ok result => exact ⟨result, rfl⟩

theorem eq_of_addRuntimes {result : List (RuntimeVtable σ)}
    (h : addRuntimes malloc runtimes vtable = .ok result) : result = runtimes ++ vtable := by
  induction vtable generalizing runtimes with
  | nil => simpa [addRuntimes] using h.symm
  | cons add vtable ih =>
      unfold addRuntimes at h
      split at h
      · simp at h
      · split at h
        · simp at h
        · simpa using ih h

@[simp] theorem unwindRuntimes_eq (runtimes : List (RuntimeVtable σ)) :
    unwindRuntimes runtimes = [] := by
  induction runtimes with
  | nil => rfl
  | cons elt runtimes ih => exact ih

@[simp] theorem deinitRuntimes_fst (runtimes : List (RuntimeVtable σ)) (x : σ) :
    (deinitRuntimes runtimes x).1 = [] := by
  induction runtimes generalizing x with
  | nil => rfl
  | cons elt runtimes ih => exact ih _

@[simp] theorem ocreDeInitialize_runtimes (s : Library σ) : (ocreDeInitialize s).runtimes = [] :=
  deinitRuntimes_fst ..

/-- A runtime whose functions leave the static objects alone. -/
structure RuntimeVtable.Inert (v : RuntimeVtable σ) : Prop where
  init : ∀ f ∈ v.init, ∀ x, (f x).2 = x
  deinit : ∀ f ∈ v.deinit, ∀ x, (f x).2 = x

theorem initRuntimes_of_inert (h : ∀ v ∈ runtimes, v.Inert) (x : σ) :
    (initRuntimes runtimes x).2 = x := by
  induction runtimes with
  | nil => rfl
  | cons elt runtimes ih =>
      obtain ⟨helt, hrest⟩ := List.forall_mem_cons.mp h
      cases hinit : elt.init with
      | none => simpa [initRuntimes, hinit] using ih hrest
      | some init =>
          have hx : (init x).2 = x := helt.init init (by simp [hinit]) x
          by_cases hrc : (init x).1 = 0
          · simpa [initRuntimes, hinit, hrc, hx] using ih hrest
          · simp [initRuntimes, hinit, hrc, hx]

theorem deinitRuntimes_of_inert (h : ∀ v ∈ runtimes, v.Inert) (x : σ) :
    (deinitRuntimes runtimes x).2 = x := by
  induction runtimes with
  | nil => rfl
  | cons elt runtimes ih =>
      obtain ⟨helt, hrest⟩ := List.forall_mem_cons.mp h
      cases hdeinit : elt.deinit with
      | none => simpa [deinitRuntimes, hdeinit] using ih hrest
      | some deinit =>
          have hx : (deinit x).2 = x := helt.deinit deinit (by simp [hdeinit]) x
          simpa [deinitRuntimes, hdeinit, hx] using ih hrest

theorem destroyContexts_of_inert {contexts : List (σ → Int × σ)}
    (h : ∀ context ∈ contexts, ∀ x, (context x).2 = x) (x : σ) :
    (destroyContexts contexts x).2 = x ∧
      ∀ context ∈ (destroyContexts contexts x).1, context ∈ contexts := by
  induction contexts with
  | nil => simp [destroyContexts]
  | cons context contexts ih =>
      obtain ⟨hcontext, hrest⟩ := List.forall_mem_cons.mp h
      obtain ⟨hstatics, hmem⟩ := ih hrest
      rw [destroyContexts, hcontext x]
      refine ⟨hstatics, fun c hc ↦ ?_⟩
      dsimp only at hc
      split at hc
      · rcases List.mem_cons.mp hc with rfl | hc
        · exact List.mem_cons_self
        · exact List.mem_cons_of_mem _ (hmem c hc)
      · exact List.mem_cons_of_mem _ (hmem c hc)

end Runtimes

end OcreRuntime
