import OcreRuntime.Library.Initialize

/-!
# Registration of the runtimes

The duplicate check runs against the list that is being built, and both ways to fail
take the whole list down again. So the list always has distinct names, and it is
either complete or empty.
-/

namespace OcreRuntime

variable {σ : Type} {malloc : ℕ → Bool} {runtimes vtable : List (RuntimeVtable σ)}

def runtimeNames (runtimes : List (RuntimeVtable σ)) : List CString :=
  runtimes.map RuntimeVtable.runtimeName

/-- What the initialisation of a runtime leaves, whatever it returns. -/
def RuntimeVtable.afterInit (v : RuntimeVtable σ) (x : σ) : σ :=
  (v.init.map fun init ↦ (init x).2).getD x

/-- Each `init` that there is returns 0 when those before it have been called. -/
def InitsSucceed (runtimes : List (RuntimeVtable σ)) (x : σ) : Prop :=
  ∀ before v after, runtimes = before ++ v :: after →
    ∀ init ∈ v.init, (init (before.foldl (fun x v ↦ v.afterInit x) x)).1 = 0

theorem initsSucceed_nil (x : σ) : InitsSucceed [] x := by
  intro before v after h
  simp at h

theorem initsSucceed_cons {v : RuntimeVtable σ} {x : σ} :
    InitsSucceed (v :: runtimes) x ↔
      (∀ init ∈ v.init, (init x).1 = 0) ∧ InitsSucceed runtimes (v.afterInit x) := by
  constructor
  · intro h
    refine ⟨h [] v runtimes rfl, ?_⟩
    intro before u after heq
    exact h (v :: before) u after (by rw [heq]; rfl)
  · rintro ⟨hv, hrest⟩ before u after heq
    cases before with
    | nil =>
        obtain ⟨rfl, -⟩ := List.cons.inj heq
        exact hv
    | cons w before =>
        obtain ⟨rfl, htail⟩ := List.cons.inj heq
        exact hrest before u after htail

theorem initRuntimes_iff (x : σ) :
    (initRuntimes runtimes x).1 = true ↔ InitsSucceed runtimes x := by
  induction runtimes generalizing x with
  | nil => simp [initRuntimes, initsSucceed_nil]
  | cons v runtimes ih =>
      rw [initsSucceed_cons]
      cases hinit : v.init with
      | none => simpa [initRuntimes, hinit, RuntimeVtable.afterInit] using ih x
      | some init =>
          by_cases hrc : (init x).1 = 0
          · simpa [initRuntimes, hinit, hrc, RuntimeVtable.afterInit] using ih (init x).2
          · simp [initRuntimes, hinit, hrc]

theorem runtimeNames_append_singleton {add : RuntimeVtable σ} :
    (runtimeNames (runtimes ++ [add])).Nodup ↔
      (runtimeNames runtimes).Nodup ∧ add.runtimeName ∉ runtimeNames runtimes := by
  rw [runtimeNames, List.map_append, List.map_singleton, List.nodup_append]
  constructor
  · rintro ⟨h, -, hdisjoint⟩
    exact ⟨h, fun hmem ↦ hdisjoint _ hmem _ List.mem_cons_self rfl⟩
  · rintro ⟨h, hmem⟩
    refine ⟨h, by simp, ?_⟩
    intro name hname other hother
    rw [List.mem_singleton] at hother
    rintro rfl
    exact hmem (hother ▸ hname)

theorem nodup_of_addRuntimes (h : (runtimeNames runtimes).Nodup)
    (hadd : (addRuntimes malloc runtimes vtable).isOk = true) :
    (runtimeNames (runtimes ++ vtable)).Nodup := by
  induction vtable generalizing runtimes with
  | nil => simpa using h
  | cons add vtable ih =>
      unfold addRuntimes at hadd
      split at hadd
      · cases hadd
      rename_i hany
      split at hadd
      · cases hadd
      have hmem : add.runtimeName ∉ runtimeNames runtimes := by simpa [runtimeNames] using hany
      simpa using ih (runtimeNames_append_singleton.mpr ⟨h, hmem⟩) hadd

/-- When no allocation fails, registration fails only for a name that is there already. -/
theorem isOk_addRuntimes_iff (hmalloc : ∀ k, malloc k = true)
    (h : (runtimeNames runtimes).Nodup) :
    (addRuntimes malloc runtimes vtable).isOk = true ↔
      (runtimeNames (runtimes ++ vtable)).Nodup := by
  refine ⟨nodup_of_addRuntimes h, ?_⟩
  intro hnodup
  induction vtable generalizing runtimes with
  | nil => rfl
  | cons add vtable ih =>
      have hsplit : runtimes ++ add :: vtable = (runtimes ++ [add]) ++ vtable := by simp
      rw [hsplit] at hnodup
      have hadd : (runtimeNames (runtimes ++ [add])).Nodup := by
        rw [runtimeNames, List.map_append] at hnodup
        exact (List.nodup_append.mp hnodup).1
      have hany : ¬ runtimes.any (·.runtimeName = add.runtimeName) = true := by
        simpa [runtimeNames] using (runtimeNames_append_singleton.mp hadd).2
      rw [addRuntimes, if_neg hany, if_neg (by simp [hmalloc])]
      exact ih hadd hnodup

theorem ocreGetRuntime_of_mem {s : Library σ} {v : RuntimeVtable σ}
    (h : (runtimeNames s.runtimes).Nodup) (hv : v ∈ s.runtimes) :
    ocreGetRuntime s (some v.runtimeName) = some v := by
  obtain ⟨before, after, heq⟩ := List.append_of_mem hv
  have hfirst : ∀ u ∈ before, u.runtimeName ≠ v.runtimeName := by
    rw [heq, runtimeNames, List.map_append, List.nodup_append] at h
    intro u hu
    exact h.2.2 _ (List.mem_map_of_mem hu) _ (by simp)
  rw [ocreGetRuntime, Option.bind_some, List.find?_eq_some_iff_append]
  refine ⟨by simp, before, after, heq, ?_⟩
  intro u hu
  simpa using hfirst u hu

theorem ocreGetRuntime_of_not_mem {s : Library σ} {name : CString}
    (h : name ∉ runtimeNames s.runtimes) : ocreGetRuntime s (some name) = none := by
  rw [ocreGetRuntime, Option.bind_some, List.find?_eq_none]
  intro v hv hname
  exact h (List.mem_map.mpr ⟨v, hv, by simpa using hname⟩)

theorem ocreGetRuntime_of_nil {s : Library σ} (h : s.runtimes = []) (name : Option CString) :
    ocreGetRuntime s name = none := by
  cases name <;> simp [ocreGetRuntime, h]

variable {calls : InitializeCalls}

theorem ocreInitialize_cases (wamr : RuntimeVtable σ) (hmutex : calls.mutexInit = 0)
    (hmalloc : ∀ k, calls.malloc k = true) (vtable : Option (List (RuntimeVtable σ)))
    (s : Library σ) :
    let runtimes := wamr :: vtable.getD []
    let r := ocreInitialize wamr vtable calls s
    ((runtimeNames runtimes).Nodup ∧ InitsSucceed runtimes s.statics ∧ r.1 = 0 ∧
        r.2.runtimes = runtimes) ∨
      (¬ ((runtimeNames runtimes).Nodup ∧ InitsSucceed runtimes s.statics) ∧ r.1 = -1 ∧
        r.2.runtimes = []) := by
  intro runtimes r
  have hone : (runtimeNames [wamr]).Nodup := by simp [runtimeNames]
  have hiff : (addRuntimes calls.malloc [wamr] (vtable.getD [])).isOk = true ↔
      (runtimeNames runtimes).Nodup := isOk_addRuntimes_iff hmalloc hone
  cases hadd : addRuntimes calls.malloc [wamr] (vtable.getD []) with
  | error built =>
      right
      have hnodup : ¬ (runtimeNames runtimes).Nodup := by
        simpa [hadd, Except.isOk, Except.toBool] using hiff
      refine ⟨fun h ↦ hnodup h.1, ?_, ?_⟩ <;>
        simp [r, ocreInitialize, hmutex, hmalloc, hadd]
  | ok registered =>
      obtain rfl : registered = runtimes := eq_of_addRuntimes hadd
      have hnodup : (runtimeNames runtimes).Nodup := by
        simpa [hadd, Except.isOk, Except.toBool] using hiff
      by_cases hinits : InitsSucceed runtimes s.statics
      · have hok := (initRuntimes_iff s.statics).mpr hinits
        left
        refine ⟨hnodup, hinits, ?_, ?_⟩ <;>
          simp [r, ocreInitialize, hmutex, hmalloc, hadd, hok]
      · have hok : ¬ (initRuntimes runtimes s.statics).1 = true :=
          fun h ↦ hinits ((initRuntimes_iff s.statics).mp h)
        right
        refine ⟨fun h ↦ hinits h.2, ?_, ?_⟩ <;>
          simp [r, ocreInitialize, hmutex, hmalloc, hadd, hok]

/-- An initialisation succeeds exactly if all names are distinct and all runtimes can be
initialised, and the registry is complete then and empty otherwise; a deinitialisation
empties it. -/
theorem ocreInitialize_registers (init deinit : Option (σ → Int × σ))
    (vtable : Option (List (RuntimeVtable σ))) (hmutex : calls.mutexInit = 0)
    (hmalloc : ∀ k, calls.malloc k = true) (s : Library σ) :
    let wamr : RuntimeVtable σ := ⟨cstring "wamr/wasip1", init, deinit⟩
    let runtimes := wamr :: vtable.getD []
    let r := ocreInitialize wamr vtable calls s
    (r.1 = 0 ↔ (runtimeNames runtimes).Nodup ∧ InitsSucceed runtimes s.statics) ∧
    (r.1 = 0 → (∀ v ∈ runtimes, ocreGetRuntime r.2 (some v.runtimeName) = some v) ∧
      ∀ name ∉ runtimeNames runtimes, ocreGetRuntime r.2 (some name) = none) ∧
    (r.1 ≠ 0 → r.2.runtimes = [] ∧ ∀ name, ocreGetRuntime r.2 name = none) ∧
    ∀ t : Library σ, (ocreDeInitialize t).runtimes = [] ∧
      ∀ name, ocreGetRuntime (ocreDeInitialize t) name = none := by
  intro wamr runtimes r
  have hdeinit (t : Library σ) : (ocreDeInitialize t).runtimes = [] := ocreDeInitialize_runtimes t
  rcases ocreInitialize_cases wamr hmutex hmalloc vtable s with
    ⟨hnodup, hinits, hret, hlist⟩ | ⟨hfails, hret, hlist⟩
  · refine ⟨by simp [r, hret, runtimes, hnodup, hinits], fun _ ↦ ⟨?_, ?_⟩, ?_, ?_⟩
    · intro v hv
      exact ocreGetRuntime_of_mem (hlist ▸ hnodup) (hlist ▸ hv)
    · intro name hname
      exact ocreGetRuntime_of_not_mem (hlist ▸ hname)
    · intro hne
      exact absurd hret hne
    · exact fun t ↦ ⟨hdeinit t, ocreGetRuntime_of_nil (hdeinit t)⟩
  · refine ⟨by simp [r, hret, hfails, runtimes], ?_, fun _ ↦ ⟨hlist, ocreGetRuntime_of_nil hlist⟩,
      ?_⟩
    · intro hzero
      simp [r, hret] at hzero
    · exact fun t ↦ ⟨hdeinit t, ocreGetRuntime_of_nil (hdeinit t)⟩

/-- A second runtime with an initialisation that returns 0, and one without any. -/
theorem ocreInitialize_registers_three :
    let wamr : RuntimeVtable Unit := ⟨cstring "wamr/wasip1", none, none⟩
    let native : RuntimeVtable Unit := ⟨cstring "native", some fun x ↦ (0, x), none⟩
    let other : RuntimeVtable Unit := ⟨cstring "other", none, none⟩
    let r := ocreInitialize wamr (some [native, other]) ⟨0, fun _ ↦ true⟩ ⟨[], [], ()⟩
    r.1 = 0 ∧ ocreGetRuntime r.2 (some (cstring "native")) = some native := by
  intro wamr native other r
  have h := (@ocreInitialize_registers Unit ⟨0, fun _ ↦ true⟩ none none
    (some [native, other]) rfl (fun _ ↦ rfl) ⟨[], [], ()⟩).2.1 rfl
  exact ⟨rfl, h.1 native (by simp)⟩

end OcreRuntime
