import Mathlib.Data.List.Nodup
import OcreRuntime.Library.EventApi
import OcreRuntime.Library.Registration

/-!
# Pairing of initialisations and deinitialisations

The runtimes record the calls of their functions. When the initialisation of one fails,
the general teardown walks over the whole list, so that runtimes are deinitialised whose
initialisation has failed or has never been called.
-/

namespace OcreRuntime

/-- A call of a function of a runtime, by the name of the runtime. -/
inductive VtableCall
  | init (name : CString) (rc : Int)
  | deinit (name : CString)
  | other (name : CString)
  deriving DecidableEq

namespace ExtraRuntime

/-- The runtime with functions that return what is given and are recorded. -/
def recorded (r : ExtraRuntime) : RuntimeVtable (List VtableCall) where
  runtimeName := r.runtimeName
  init := r.init.map fun rc calls ↦ (rc, calls ++ [.init r.runtimeName rc])
  deinit := r.deinit.map fun rc calls ↦ (rc, calls ++ [.deinit r.runtimeName])

/-- The initialisation returns 0 or is absent. -/
def Succeeds (r : ExtraRuntime) : Prop := ∀ rc ∈ r.init, rc = 0

instance (r : ExtraRuntime) : Decidable r.Succeeds :=
  inferInstanceAs (Decidable (∀ rc ∈ r.init, rc = 0))

/-- The calls that an initialisation of the runtimes makes, up to the first failure. -/
def initCalls : List ExtraRuntime → List VtableCall
  | [] => []
  | r :: rs => (r.init.map (VtableCall.init r.runtimeName)).toList ++
      if r.Succeeds then initCalls rs else []

def deinitCalls (rs : List ExtraRuntime) : List VtableCall :=
  rs.filterMap fun r ↦ r.deinit.map fun _ ↦ .deinit r.runtimeName

theorem initRuntimes_recorded (rs : List ExtraRuntime) (calls : List VtableCall) :
    initRuntimes (rs.map recorded) calls =
      (decide (∀ r ∈ rs, r.Succeeds), calls ++ initCalls rs) := by
  induction rs generalizing calls with
  | nil => simp [initRuntimes, initCalls]
  | cons r rs ih =>
      cases hinit : r.init with
      | none =>
          have hok : r.Succeeds := by simp [Succeeds, hinit]
          simp [initRuntimes, recorded, hinit, initCalls, hok, ih]
      | some rc =>
          by_cases hrc : rc = 0
          · have hok : r.Succeeds := by simp [Succeeds, hinit, hrc]
            simp [initRuntimes, recorded, hinit, hrc, initCalls, hok, ih]
          · have hok : ¬ r.Succeeds := by simp [Succeeds, hinit, hrc]
            simp [initRuntimes, recorded, hinit, hrc, initCalls, hok]

theorem deinitRuntimes_recorded (rs : List ExtraRuntime) (calls : List VtableCall) :
    deinitRuntimes (rs.map recorded) calls = ([], calls ++ deinitCalls rs) := by
  induction rs generalizing calls with
  | nil => simp [deinitRuntimes, deinitCalls]
  | cons r rs ih =>
      cases hdeinit : r.deinit <;> simp [deinitRuntimes, recorded, hdeinit, deinitCalls, ih]

/-- The initialisation is absent, or has been called and has returned 0. -/
def Started (r : ExtraRuntime) (calls : List VtableCall) : Prop :=
  r.init = none ∨ .init r.runtimeName 0 ∈ calls

instance (r : ExtraRuntime) (calls : List VtableCall) : Decidable (r.Started calls) :=
  inferInstanceAs (Decidable (_ ∨ _))

/-- What the calls of a session have to do with a runtime. `down` tells whether the library
has been taken down. -/
structure Paired (r : ExtraRuntime) (down : Prop) (calls : List VtableCall) : Prop where
  once : r.deinit.isSome = true → down → r.Started calls →
    calls.count (.deinit r.runtimeName) = 1
  never : ¬ (down ∧ r.Started calls) → .deinit r.runtimeName ∉ calls
  other : ∀ before after, calls = before ++ .other r.runtimeName :: after → r.Started before

variable {r : ExtraRuntime} {rs : List ExtraRuntime}

theorem exists_of_mem_initCalls {call : VtableCall} (h : call ∈ initCalls rs) :
    ∃ r ∈ rs, ∃ rc, call = .init r.runtimeName rc := by
  induction rs with
  | nil => simp [initCalls] at h
  | cons r rs ih =>
      rcases List.mem_append.mp h with h | h
      · obtain ⟨rc, -, rfl⟩ := Option.map_eq_some_iff.mp (Option.mem_toList.mp h)
        exact ⟨r, List.mem_cons_self, rc, rfl⟩
      · split at h
        · obtain ⟨u, hu, rc, rfl⟩ := ih h
          exact ⟨u, List.mem_cons_of_mem _ hu, rc, rfl⟩
        · simp at h

theorem exists_of_mem_deinitCalls {call : VtableCall} (h : call ∈ deinitCalls rs) :
    ∃ r ∈ rs, r.deinit.isSome = true ∧ call = .deinit r.runtimeName := by
  obtain ⟨r, hr, hcall⟩ := List.mem_filterMap.mp h
  obtain ⟨rc, hdeinit, rfl⟩ := Option.map_eq_some_iff.mp hcall
  exact ⟨r, hr, by simp [hdeinit], rfl⟩

theorem count_deinitCalls (hnodup : (rs.map runtimeName).Nodup) (hr : r ∈ rs)
    (hdeinit : r.deinit.isSome = true) :
    (deinitCalls rs).count (.deinit r.runtimeName) = 1 := by
  obtain ⟨before, after, rfl⟩ := List.append_of_mem hr
  rw [List.map_append, List.map_cons, List.nodup_append, List.nodup_cons] at hnodup
  obtain ⟨-, ⟨hafter, -⟩, hbefore⟩ := hnodup
  have hnone {us : List ExtraRuntime} (hus : ∀ u ∈ us, u.runtimeName ≠ r.runtimeName) :
      (deinitCalls us).count (.deinit r.runtimeName) = 0 := by
    rw [List.count_eq_zero]
    intro hmem
    obtain ⟨u, hu, -, heq⟩ := exists_of_mem_deinitCalls hmem
    exact hus u hu (VtableCall.deinit.inj heq).symm
  have hsplit : deinitCalls (before ++ r :: after) =
      deinitCalls before ++ .deinit r.runtimeName :: deinitCalls after := by
    obtain ⟨rc, hrc⟩ := Option.isSome_iff_exists.mp hdeinit
    simp [deinitCalls, hrc]
  rw [hsplit, List.count_append, List.count_cons_self, hnone, hnone]
  · intro u hu heq
    exact hafter (heq ▸ List.mem_map_of_mem hu)
  · intro u hu heq
    exact hbefore _ (List.mem_map_of_mem hu) _ List.mem_cons_self heq

theorem initCalls_cons_of_succeeds (h : r.Succeeds) :
    initCalls (r :: rs) = (r.init.map (VtableCall.init r.runtimeName)).toList ++ initCalls rs := by
  simp [initCalls, h]

theorem started_cons (h : r.Succeeds) : r.Started (initCalls (r :: rs)) := by
  cases hinit : r.init with
  | none => exact .inl hinit
  | some rc =>
      obtain rfl : rc = 0 := h rc hinit
      exact .inr (by simp [initCalls, hinit])

/-- The runtimes with a deinitialisation have been started, except from the first on whose
initialisation fails. -/
theorem forall_started_iff (hnodup : (rs.map runtimeName).Nodup) :
    (∀ r ∈ rs, r.deinit.isSome = true → r.Started (initCalls rs)) ↔
      ∀ r ∈ rs.dropWhile (·.Succeeds), r.init = none ∨ r.deinit = none := by
  induction rs with
  | nil => simp
  | cons r rs ih =>
      rw [List.map_cons, List.nodup_cons] at hnodup
      by_cases hok : r.Succeeds
      · have hrest (u : ExtraRuntime) (hu : u ∈ rs) :
            u.Started (initCalls (r :: rs)) ↔ u.Started (initCalls rs) := by
          have hne : u.runtimeName ≠ r.runtimeName :=
            fun heq ↦ hnodup.1 (heq ▸ List.mem_map_of_mem hu)
          cases hinit : r.init <;> simp [Started, initCalls_cons_of_succeeds hok, hinit, hne]
        rw [List.dropWhile_cons_of_pos (by simpa using hok), ← ih hnodup.2]
        constructor
        · intro h u hu hdeinit
          exact (hrest u hu).mp (h u (List.mem_cons_of_mem _ hu) hdeinit)
        · intro h u hu hdeinit
          rcases List.mem_cons.mp hu with rfl | hu
          · exact started_cons hok
          · exact (hrest u hu).mpr (h u hu hdeinit)
      · obtain ⟨rc, hinit, hrc⟩ : ∃ rc, r.init = some rc ∧ rc ≠ 0 := by
          simpa [Succeeds] using hok
        have hstarted (u : ExtraRuntime) : u.Started (initCalls (r :: rs)) ↔ u.init = none := by
          simp [Started, initCalls, hok, hinit, Ne.symm hrc]
        rw [List.dropWhile_cons_of_neg (by simpa using hok)]
        simp only [hstarted, Option.isSome_iff_ne_none]
        exact forall₂_congr fun u _ ↦ by tauto

theorem started_of_succeeds (h : ∀ r ∈ rs, r.Succeeds) (hr : r ∈ rs) :
    r.Started (initCalls rs) := by
  induction rs with
  | nil => simp at hr
  | cons u rs ih =>
      obtain ⟨hu, hrest⟩ := List.forall_mem_cons.mp h
      rcases List.mem_cons.mp hr with rfl | hr
      · exact started_cons hu
      · rw [initCalls_cons_of_succeeds hu]
        exact (ih hrest hr).imp_right (List.mem_append_right _)

/-- The calls of a session: up to the first failure, then the use of the runtimes, then
the teardown. -/
def sessionCalls (rs : List ExtraRuntime) (others : List VtableCall) (down : Bool) :
    List VtableCall :=
  initCalls rs ++ others ++ if down then deinitCalls rs else []

section Session

variable {others : List VtableCall} {down : Bool}

theorem started_sessionCalls (hothers : ∀ call ∈ others, ∃ name, call = .other name) :
    r.Started (sessionCalls rs others down) ↔ r.Started (initCalls rs) := by
  refine or_congr_right ⟨fun hmem ↦ ?_, fun hmem ↦ by simp [sessionCalls, hmem]⟩
  rcases List.mem_append.mp hmem with hmem | hmem
  · rcases List.mem_append.mp hmem with hmem | hmem
    · exact hmem
    · obtain ⟨name, heq⟩ := hothers _ hmem
      cases heq
  · split at hmem
    · obtain ⟨u, -, -, heq⟩ := exists_of_mem_deinitCalls hmem
      cases heq
    · simp at hmem

theorem count_deinit_sessionCalls (hothers : ∀ call ∈ others, ∃ name, call = .other name)
    (name : CString) : (sessionCalls rs others down).count (.deinit name) =
      if down then (deinitCalls rs).count (.deinit name) else 0 := by
  have hinit : (initCalls rs).count (.deinit name) = 0 := by
    rw [List.count_eq_zero]
    intro hmem
    obtain ⟨u, -, rc, heq⟩ := exists_of_mem_initCalls hmem
    cases heq
  have hother : others.count (.deinit name) = 0 := by
    rw [List.count_eq_zero]
    intro hmem
    obtain ⟨name, heq⟩ := hothers _ hmem
    cases heq
  rw [sessionCalls, List.count_append, List.count_append, hinit, hother]
  cases down <;> simp

theorem mem_before_of_sessionCalls {before after : List VtableCall} {name : CString}
    (h : sessionCalls rs others down = before ++ .other name :: after) :
    ∃ middle, before = initCalls rs ++ middle ∧ .other name ∈ others := by
  have hinit : ¬ ∃ l, initCalls rs = before ++ .other name :: l := by
    rintro ⟨l, heq⟩
    have hmem : .other name ∈ initCalls rs := by simp [heq]
    obtain ⟨u, -, rc, hcall⟩ := exists_of_mem_initCalls hmem
    cases hcall
  have hmem : .other name ∈ others := by
    have hmem : .other name ∈ sessionCalls rs others down := by simp [h]
    rcases List.mem_append.mp hmem with hmem | hmem
    · refine (List.mem_append.mp hmem).resolve_left fun hmem ↦ ?_
      obtain ⟨u, -, rc, hcall⟩ := exists_of_mem_initCalls hmem
      cases hcall
    · split at hmem
      · obtain ⟨u, -, -, hcall⟩ := exists_of_mem_deinitCalls hmem
        cases hcall
      · simp at hmem
  rw [sessionCalls, List.append_assoc] at h
  rcases List.append_eq_append_iff.mp h with ⟨middle, hbefore, -⟩ | ⟨rest, heq, hrest⟩
  · exact ⟨middle, hbefore, hmem⟩
  · cases rest with
    | nil => exact ⟨[], by simpa using heq.symm, hmem⟩
    | cons call rest =>
        obtain ⟨rfl, -⟩ := List.cons.inj hrest
        exact absurd ⟨rest, heq⟩ hinit

/-- The session is paired exactly if the runtimes with both functions are initialised
successfully, with all that stand before them. -/
theorem paired_iff (hnodup : (rs.map runtimeName).Nodup)
    (hdown : ¬ (∀ r ∈ rs, r.Succeeds) → down = true)
    (hothers : ∀ call ∈ others, ∃ name, call = .other name)
    (hfails : ¬ (∀ r ∈ rs, r.Succeeds) → others = []) :
    (∀ r ∈ rs, r.Paired (down = true) (sessionCalls rs others down)) ↔
      ∀ r ∈ rs.dropWhile (·.Succeeds), r.init = none ∨ r.deinit = none := by
  rw [← forall_started_iff hnodup]
  constructor
  · intro h r hr hdeinit
    by_cases hok : ∀ r ∈ rs, r.Succeeds
    · exact started_of_succeeds hok hr
    · by_contra hstarted
      have hcount : (sessionCalls rs others down).count (.deinit r.runtimeName) = 1 := by
        rw [count_deinit_sessionCalls hothers, if_pos (hdown hok),
          count_deinitCalls hnodup hr hdeinit]
      refine (h r hr).never ?_ (List.count_pos_iff.mp (by omega))
      rintro ⟨-, hmem⟩
      exact hstarted ((started_sessionCalls hothers).mp hmem)
  · intro h r hr
    refine ⟨fun hdeinit hisdown _ ↦ ?_, fun hnot hmem ↦ ?_, fun before after heq ↦ ?_⟩
    · rw [count_deinit_sessionCalls hothers, if_pos hisdown, count_deinitCalls hnodup hr hdeinit]
    · have hpos := List.count_pos_iff.mpr hmem
      rw [count_deinit_sessionCalls hothers] at hpos
      split at hpos
      · rename_i hisdown
        obtain ⟨u, hu, hdeinit, hname⟩ :=
          exists_of_mem_deinitCalls (List.count_pos_iff.mp hpos)
        obtain rfl : r = u :=
          List.inj_on_of_nodup_map hnodup hr hu (VtableCall.deinit.inj hname)
        exact hnot ⟨hisdown, (started_sessionCalls hothers).mpr (h r hr hdeinit)⟩
      · omega
    · obtain ⟨middle, rfl, hmem⟩ := mem_before_of_sessionCalls heq
      have hok : ∀ r ∈ rs, r.Succeeds := by
        by_contra hok
        simp [hfails hok] at hmem
      exact (started_of_succeeds hok hr).imp_right (List.mem_append_left _)

end Session

end ExtraRuntime

/-- What the application does with an initialised library: a call that uses the runtime
with a name, or a context for containers with these runtimes. -/
inductive LibraryUse
  | call (name : CString)
  | createContext (destroyRc : Int) (names : List CString)

/-- The call of a function of the runtime with the name, if it is registered. -/
def foundCall (s : Library (List VtableCall)) (name : CString) : Option VtableCall :=
  (ocreGetRuntime s (some name)).map fun v ↦ .other v.runtimeName

def LibraryUse.perform (s : Library (List VtableCall)) : LibraryUse → Library (List VtableCall)
  | call name => { s with statics := s.statics ++ (foundCall s name).toList }
  | createContext destroyRc names =>
      { s with contexts := s.contexts ++
        [fun calls ↦ (destroyRc, calls ++ names.filterMap (foundCall s))] }

/-- The calls from an initialisation on, with the uses after it, whatever it has returned,
and with a deinitialisation in the end or not. -/
def session (wamr : ExtraRuntime) (extras : Option (List ExtraRuntime))
    (calls : InitializeCalls) (uses : List LibraryUse) (deinitialized : Bool) :
    Int × List VtableCall :=
  let r := ocreInitialize wamr.recorded (extras.map (·.map ExtraRuntime.recorded)) calls
    ⟨[], [], []⟩
  let s := uses.foldl LibraryUse.perform r.2
  (r.1, if deinitialized then (ocreDeInitialize s).statics else s.statics)

/-- The calls of runtimes of the library that are neither to `init` nor to `deinit`. -/
def OnlyOthers (runtimes : List (RuntimeVtable (List VtableCall))) (calls : List VtableCall) :
    Prop :=
  ∀ call ∈ calls, ∃ v ∈ runtimes, call = .other v.runtimeName

theorem OnlyOthers.exists_name {runtimes : List (RuntimeVtable (List VtableCall))}
    {calls : List VtableCall} (h : OnlyOthers runtimes calls) :
    ∀ call ∈ calls, ∃ name, call = .other name := by
  intro call hcall
  obtain ⟨v, -, heq⟩ := h call hcall
  exact ⟨_, heq⟩

theorem OnlyOthers.eq_nil {runtimes : List (RuntimeVtable (List VtableCall))}
    {calls : List VtableCall} (h : OnlyOthers runtimes calls) (hnil : runtimes = []) :
    calls = [] := by
  apply List.eq_nil_iff_forall_not_mem.mpr
  intro call hcall
  obtain ⟨v, hv, -⟩ := h call hcall
  simp [hnil] at hv

/-- A library in use since the calls in `base`. -/
structure InUseSince (base : List VtableCall) (s : Library (List VtableCall)) : Prop where
  statics : ∃ others, s.statics = base ++ others ∧ OnlyOthers s.runtimes others
  contexts : ∀ context ∈ s.contexts, ∀ calls, ∃ others,
    (context calls).2 = calls ++ others ∧ OnlyOthers s.runtimes others

namespace InUseSince

variable {base : List VtableCall} {s : Library (List VtableCall)}

theorem foundCall_eq {name : CString} {call : VtableCall} (h : foundCall s name = some call) :
    ∃ v ∈ s.runtimes, call = .other v.runtimeName := by
  obtain ⟨v, hv, rfl⟩ := Option.map_eq_some_iff.mp h
  exact ⟨v, List.mem_of_find?_eq_some hv, rfl⟩

theorem perform (h : InUseSince base s) (u : LibraryUse) : InUseSince base (u.perform s) := by
  obtain ⟨others, hstatics, hothers⟩ := h.statics
  cases u with
  | call name =>
      refine ⟨⟨others ++ (foundCall s name).toList, ?_, ?_⟩, h.contexts⟩
      · simp [LibraryUse.perform, hstatics]
      · intro call hcall
        rcases List.mem_append.mp hcall with hcall | hcall
        · exact hothers call hcall
        · exact foundCall_eq (Option.mem_toList.mp hcall)
  | createContext destroyRc names =>
      refine ⟨⟨others, hstatics, hothers⟩, ?_⟩
      intro context hcontext
      rcases List.mem_append.mp hcontext with hcontext | hcontext
      · exact h.contexts context hcontext
      · obtain rfl := List.mem_singleton.mp hcontext
        intro calls
        refine ⟨_, rfl, ?_⟩
        intro call hcall
        obtain ⟨name, -, hfound⟩ := List.mem_filterMap.mp hcall
        exact foundCall_eq hfound

theorem runtimes_perform (u : LibraryUse) : (u.perform s).runtimes = s.runtimes := by
  cases u <;> rfl

theorem foldl (h : InUseSince base s) (uses : List LibraryUse) :
    InUseSince base (uses.foldl LibraryUse.perform s) ∧
      (uses.foldl LibraryUse.perform s).runtimes = s.runtimes := by
  induction uses generalizing s with
  | nil => exact ⟨h, rfl⟩
  | cons u uses ih =>
      obtain ⟨hfold, hruntimes⟩ := ih (h.perform u)
      exact ⟨hfold, hruntimes.trans (runtimes_perform u)⟩

theorem destroyContexts {runtimes : List (RuntimeVtable (List VtableCall))}
    {contexts : List (List VtableCall → Int × List VtableCall)}
    (h : ∀ context ∈ contexts, ∀ calls, ∃ others,
      (context calls).2 = calls ++ others ∧ OnlyOthers runtimes others)
    (calls : List VtableCall) :
    ∃ others, (destroyContexts contexts calls).2 = calls ++ others ∧
      OnlyOthers runtimes others := by
  induction contexts generalizing calls with
  | nil => exact ⟨[], by simp [OcreRuntime.destroyContexts], by simp [OnlyOthers]⟩
  | cons context contexts ih =>
      obtain ⟨hcontext, hrest⟩ := List.forall_mem_cons.mp h
      obtain ⟨others, hothers, honly⟩ := hcontext calls
      obtain ⟨others', hothers', honly'⟩ := ih hrest (context calls).2
      refine ⟨others ++ others', ?_, ?_⟩
      · rw [OcreRuntime.destroyContexts, hothers', hothers, List.append_assoc]
      · intro call hcall
        rcases List.mem_append.mp hcall with hcall | hcall
        · exact honly call hcall
        · exact honly' call hcall

theorem ocreDeInitialize (h : InUseSince base s) :
    ∃ others, (ocreDeInitialize s).statics = (deinitRuntimes s.runtimes (base ++ others)).2 ∧
      OnlyOthers s.runtimes others := by
  obtain ⟨others, hstatics, hothers⟩ := h.statics
  obtain ⟨others', hothers', honly'⟩ := destroyContexts h.contexts s.statics
  refine ⟨others ++ others', ?_, ?_⟩
  · rw [OcreRuntime.ocreDeInitialize, hothers', hstatics, List.append_assoc]
  · intro call hcall
    rcases List.mem_append.mp hcall with hcall | hcall
    · exact hothers call hcall
    · exact honly' call hcall

end InUseSince

section Session

open ExtraRuntime

variable {wamr : ExtraRuntime} {extras : Option (List ExtraRuntime)} {calls : InitializeCalls}

/-- The library is down when it has been deinitialised or its initialisation has failed. -/
def isDown (ret : Int) (deinitialized : Bool) : Bool := deinitialized || ret != 0

theorem exists_session (hmutex : calls.mutexInit = 0) (hmalloc : calls.malloc 0 = true)
    (hregistered : (addRuntimes calls.malloc [wamr.recorded]
      ((extras.getD []).map recorded)).isOk = true)
    (uses : List LibraryUse) (deinitialized : Bool) :
    let rs := wamr :: extras.getD []
    let r := session wamr extras calls uses deinitialized
    ∃ others, r.2 = sessionCalls rs others (isDown r.1 deinitialized) ∧
      (∀ call ∈ others, ∃ name, call = .other name) ∧
      ((∀ r ∈ rs, r.Succeeds) ∨ others = [] ∧ isDown r.1 deinitialized = true) := by
  intro rs r
  obtain ⟨registered, hadd⟩ := exists_of_addRuntimes hregistered
  obtain rfl : registered = rs.map recorded := eq_of_addRuntimes hadd
  have hvtable : (extras.map (·.map recorded)).getD [] = (extras.getD []).map recorded := by
    cases extras <;> rfl
  have hinit := initRuntimes_recorded rs []
  rw [List.nil_append] at hinit
  by_cases hok : ∀ r ∈ rs, r.Succeeds
  · rw [decide_eq_true hok] at hinit
    have hreturn : ocreInitialize wamr.recorded (extras.map (·.map recorded)) calls ⟨[], [], []⟩ =
        (0, ⟨rs.map recorded, [], initCalls rs⟩) := by
      simp [ocreInitialize, hmutex, hmalloc, hvtable, hadd, hinit]
    have hstart : InUseSince (initCalls rs) ⟨rs.map recorded, [], initCalls rs⟩ :=
      ⟨⟨[], by simp, by simp [OnlyOthers]⟩, by simp⟩
    obtain ⟨huse, hruntimes⟩ := hstart.foldl uses
    cases deinitialized with
    | false =>
        obtain ⟨others, hstatics, honly⟩ := huse.statics
        refine ⟨others, ?_, honly.exists_name, .inl hok⟩
        simp [r, session, hreturn, hstatics, sessionCalls, isDown]
    | true =>
        obtain ⟨others, hstatics, honly⟩ := huse.ocreDeInitialize
        refine ⟨others, ?_, honly.exists_name, .inl hok⟩
        simp [r, session, hreturn, hstatics, hruntimes, sessionCalls, isDown,
          deinitRuntimes_recorded]
  · rw [decide_eq_false hok] at hinit
    have hreturn : ocreInitialize wamr.recorded (extras.map (·.map recorded)) calls ⟨[], [], []⟩ =
        (-1, ⟨[], [], initCalls rs ++ deinitCalls rs⟩) := by
      simp [ocreInitialize, hmutex, hmalloc, hvtable, hadd, hinit, OcreRuntime.ocreDeInitialize,
        OcreRuntime.destroyContexts, deinitRuntimes_recorded]
    have hstart : InUseSince (initCalls rs ++ deinitCalls rs)
        ⟨[], [], initCalls rs ++ deinitCalls rs⟩ :=
      ⟨⟨[], by simp, by simp [OnlyOthers]⟩, by simp⟩
    obtain ⟨huse, hruntimes⟩ := hstart.foldl uses
    refine ⟨[], ?_, by simp, .inr ⟨rfl, ?_⟩⟩
    · cases deinitialized with
      | false =>
          obtain ⟨others, hstatics, honly⟩ := huse.statics
          obtain rfl := honly.eq_nil hruntimes
          simp [r, session, hreturn, hstatics, sessionCalls, isDown]
      | true =>
          obtain ⟨others, hstatics, honly⟩ := huse.ocreDeInitialize
          obtain rfl := honly.eq_nil hruntimes
          simp [r, session, hreturn, hstatics, hruntimes, sessionCalls, isDown, deinitRuntimes]
    · simp [r, session, hreturn, isDown]

/-- In a session with registered runtimes, calls are paired exactly if no runtime that has
both functions stands in the list at or after the first whose initialisation fails. -/
theorem session_paired_iff (hmutex : calls.mutexInit = 0) (hmalloc : calls.malloc 0 = true)
    (hregistered : (addRuntimes calls.malloc [wamr.recorded]
      ((extras.getD []).map recorded)).isOk = true)
    (uses : List LibraryUse) (deinitialized : Bool) :
    let rs := wamr :: extras.getD []
    let r := session wamr extras calls uses deinitialized
    (∀ runtime ∈ rs, runtime.Paired (isDown r.1 deinitialized = true) r.2) ↔
      ∀ runtime ∈ rs.dropWhile (·.Succeeds), runtime.init = none ∨ runtime.deinit = none := by
  intro rs r
  obtain ⟨others, hcalls, hothers, hfails⟩ :=
    exists_session hmutex hmalloc hregistered uses deinitialized
  have hnodup : (rs.map runtimeName).Nodup := by
    have h := nodup_of_addRuntimes (by simp [runtimeNames]) hregistered
    simpa [runtimeNames, recorded, rs, Function.comp_def] using h
  have hcalls : r.2 = sessionCalls rs others (isDown r.1 deinitialized) := hcalls
  rw [hcalls]
  exact paired_iff hnodup (fun hok ↦ (hfails.resolve_left hok).2) hothers
    fun hok ↦ (hfails.resolve_left hok).1

/-- WAMR with its functions, and two more runtimes, the last of which cannot be initialised
and has nothing to take down. -/
theorem session_paired_of_last_fails :
    let wamr : ExtraRuntime := ⟨cstring "wamr/wasip1", some 0, some 0⟩
    let native : ExtraRuntime := ⟨cstring "native", none, some 0⟩
    let broken : ExtraRuntime := ⟨cstring "broken", some 1, none⟩
    let r := session wamr (some [native, broken]) ⟨0, fun _ ↦ true⟩
      [.call (cstring "native")] true
    ∀ runtime ∈ [wamr, native, broken], runtime.Paired (isDown r.1 true = true) r.2 := by
  intro wamr native broken r
  have hiff := @session_paired_iff wamr (some [native, broken]) ⟨0, fun _ ↦ true⟩ rfl rfl
    (by decide) [.call (cstring "native")] true
  exact hiff.mpr (by decide)

/-- An initialisation that fails is followed by the deinitialisation of the same runtime. -/
theorem not_session_paired_of_wamr_fails :
    ¬ ∀ wamr extras calls uses deinitialized, calls.mutexInit = 0 → calls.malloc 0 = true →
      (addRuntimes calls.malloc [wamr.recorded] ((Option.getD extras []).map recorded)).isOk =
        true →
      ∀ runtime ∈ wamr :: extras.getD [], runtime.Paired
        (isDown (session wamr extras calls uses deinitialized).1 deinitialized = true)
        (session wamr extras calls uses deinitialized).2 := by
  intro h
  have hpaired := h ⟨cstring "wamr/wasip1", some (-1), some 0⟩ none ⟨0, fun _ ↦ true⟩ [] false
    rfl rfl rfl _ List.mem_cons_self
  exact hpaired.never (by decide) (by decide)

end Session

end OcreRuntime
