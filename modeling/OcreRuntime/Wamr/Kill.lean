import OcreRuntime.Wamr.Instance

/-!
# Which instance a kill reaches

RUNNING is stored before the thread exists and stays until after the instance is
gone, so a kill let through by the status can come before the instance is ready
for it or after it has been taken down.
-/

namespace OcreRuntime

/-- Between clearing the exception and deinstantiating. -/
def WamrPoint.ready : WamrPoint → Bool
  | semPost | executeMain | getWasiExitCode | deinstantiate _ => true
  | _ => false

namespace WamrContext

/-- There is an instance to terminate, and it will not clear its exception again. -/
def Killable (ctx : WamrContext) : Prop :=
  ∃ m, ctx.current = some m ∧ m.live = true ∧ m.cleared = true

/-- What the point of the thread says about `context->module_inst`. -/
def Fits (ctx : WamrContext) : Option WamrPoint → Prop
  | none | some .instantiate | some (.returned _) => ctx.moduleInst = none
  | some .clearException => ∃ m, ctx.current = some m ∧ m.live = true ∧ m.cleared = false
  | some (.clearModuleInst _) => ∃ m, ctx.current = some m ∧ m.live = false
  | some _ => ctx.Killable

/-- Every terminate request made so far is still in force. -/
def RequestsKept (ctx : WamrContext) : Prop :=
  ∀ m ∈ ctx.instances, m.terminated = true → m.exception = true

structure KillInv (ctx : WamrContext) (p : Option WamrPoint) : Prop where
  fits : ctx.Fits p
  kept : ∀ m ∈ ctx.instances, m.terminated = true → m.cleared = true ∧ m.exception = true

theorem mem_of_current {ctx : WamrContext} {m : ModuleInstance} (h : ctx.current = some m) :
    m ∈ ctx.instances := by
  obtain ⟨i, -, hi⟩ := Option.bind_eq_some_iff.mp h
  exact List.mem_of_getElem? hi

theorem current_onInstance_of {ctx : WamrContext} {m : ModuleInstance}
    (h : ctx.current = some m) (f : ModuleInstance → ModuleInstance) :
    (ctx.onInstance f).current = some (f m) := by
  rw [current_onInstance, h, Option.map_some]

theorem current_eq_none {ctx : WamrContext} (h : ctx.moduleInst = none) : ctx.current = none := by
  simp [current, h]

theorem killable_iff_ready {ctx : WamrContext} {p : Option WamrPoint} (h : ctx.Fits p) :
    ctx.Killable ↔ p.any WamrPoint.ready = true := by
  have hnull : ctx.moduleInst = none → ¬ ctx.Killable := by
    rintro hnull ⟨m, hm, -⟩
    simp [current_eq_none hnull] at hm
  cases p with
  | none => simpa [Option.any] using hnull h
  | some p =>
      cases p with
      | instantiate => simpa [Option.any, WamrPoint.ready] using hnull h
      | returned result => simpa [Option.any, WamrPoint.ready] using hnull h
      | clearException =>
          obtain ⟨m, hm, -, hcleared⟩ := h
          simp [Killable, hm, hcleared, WamrPoint.ready]
      | clearModuleInst exitCode =>
          obtain ⟨m, hm, hlive⟩ := h
          simp [Killable, hm, hlive, WamrPoint.ready]
      | _ => exact iff_of_true h rfl

theorem Fits.kill {ctx : WamrContext} {p : Option WamrPoint} (h : ctx.Fits p) :
    (instanceKill ctx).1.Fits p := by
  have hcurrent : ∀ P : ModuleInstance → Prop,
      (∀ m, P m → P { m with exception := true, terminated := true }) →
      (∃ m, ctx.current = some m ∧ P m) →
      ∃ m, (instanceKill ctx).1.current = some m ∧ P m := by
    rintro P hP ⟨m, hm, hPm⟩
    exact ⟨_, current_onInstance_of hm _, hP m hPm⟩
  have hnull : ctx.moduleInst = none → (instanceKill ctx).1.moduleInst = none := by
    simp [instanceKill]
  unfold Fits at h ⊢
  split
  · exact hnull h
  · exact hnull h
  · exact hnull h
  · exact hcurrent (fun m ↦ m.live = true ∧ m.cleared = false) (fun _ hm ↦ hm) h
  · exact hcurrent (fun m ↦ m.live = false) (fun _ hm ↦ hm) h
  · have hready : ctx.Killable := by simpa using h
    exact hcurrent (fun m ↦ m.live = true ∧ m.cleared = true) (fun _ hm ↦ hm) hready

namespace KillInv

/-- A kill is kept by an instance that does not clear its exception again. -/
theorem kill {ctx : WamrContext} {p : Option WamrPoint} (h : ctx.KillInv p)
    (hready : p.any WamrPoint.ready = true) : (instanceKill ctx).1.KillInv p := by
  refine ⟨h.fits.kill, forall_onInstance h.kept fun m hm _ ↦ ?_⟩
  obtain ⟨m', hm', -, hcleared⟩ := (killable_iff_ready h.fits).mpr hready
  obtain rfl : m' = m := Option.some.inj (hm'.symm.trans hm)
  exact ⟨hcleared, rfl⟩

theorem execute {ctx : WamrContext} {p : WamrPoint} (h : ctx.KillInv (some p)) (ext : WamrExt) :
    (instanceExecute ext p ctx).2.1.KillInv (some (instanceExecute ext p ctx).1) := by
  obtain ⟨hfits, hkept⟩ := h
  cases p with
  | instantiate =>
      unfold instanceExecute
      dsimp only
      split
      · refine ⟨⟨{}, by simp [current], rfl, rfl⟩, fun m hm ↦ ?_⟩
        rcases List.mem_append.mp hm with hm | hm
        · exact hkept m hm
        · simp [List.mem_singleton.mp hm]
      · exact ⟨rfl, hkept⟩
  | clearException =>
      obtain ⟨m, hm, hlive, hcleared⟩ := hfits
      refine ⟨⟨_, current_onInstance_of hm _, hlive, rfl⟩,
        forall_onInstance hkept fun m' hm' hterminated ↦ ?_⟩
      -- nothing can have terminated an instance that is not ready for it
      obtain rfl : m = m' := Option.some.inj (hm.symm.trans hm')
      simp [(hkept m (mem_of_current hm) hterminated).1] at hcleared
  | semPost => exact ⟨hfits, hkept⟩
  | executeMain =>
      obtain ⟨m, hm, hlive, hcleared⟩ := hfits
      refine ⟨⟨_, current_onInstance_of hm _, hlive, hcleared⟩,
        forall_onInstance hkept fun m' hm' hterminated ↦ ?_⟩
      obtain ⟨hc, he⟩ := hkept m' (mem_of_current hm') hterminated
      exact ⟨hc, by simp [he]⟩
  | getWasiExitCode => exact ⟨hfits, hkept⟩
  | deinstantiate exitCode =>
      obtain ⟨m, hm, -⟩ := hfits
      refine ⟨⟨_, current_onInstance_of hm _, rfl⟩,
        forall_onInstance hkept fun m' hm' hterminated ↦ ?_⟩
      exact hkept m' (mem_of_current hm') hterminated
  | clearModuleInst exitCode => exact ⟨rfl, hkept⟩
  | returned result => exact ⟨hfits, hkept⟩

end KillInv

end WamrContext

namespace ContainerWorld

variable {w w' : ContainerWorld WamrPoint WamrContext}

/-- The step is a call of `ocre_container_kill` that calls the kill of the runtime. -/
def callsKill (a : Act WamrExt) (w : ContainerWorld WamrPoint WamrContext) : Bool :=
  match a with
  | .signal _ .kill _ => w.container.status = .running
  | _ => false

/-- A kill reaches an instance that is ready for it, and no request is erased. -/
def KillContract (a : Act WamrExt) (w w' : ContainerWorld WamrPoint WamrContext) : Prop :=
  (callsKill a w = true → w.container.runtimeContext.Killable) ∧
    w'.container.runtimeContext.RequestsKept

/-- A kill in RUNNING comes while the thread is between the two calls. -/
def KillOk (a : Act WamrExt) (w : ContainerWorld WamrPoint WamrContext) : Prop :=
  callsKill a w = true → w.point.any WamrPoint.ready = true

instance (a : Act WamrExt) (w : ContainerWorld WamrPoint WamrContext) :
    Decidable (KillOk a w) :=
  inferInstanceAs (Decidable (_ → _))

/-- WAMR knows no stop, pause and unpause, and its kill is called in RUNNING only. -/
theorem wamr_signal_runtimeContext (k : ℕ) (sig : Signal) (ext : WamrExt)
    (w : ContainerWorld WamrPoint WamrContext) :
    (ocreContainerSignal wamrVtable sig ext w.container).2.runtimeContext =
      if callsKill (.signal k sig ext) w then (instanceKill w.container.runtimeContext).1
      else w.container.runtimeContext := by
  cases sig with
  | stop =>
      simp only [ocreContainerSignal, ocreContainerStop, signalLocked, wamrVtable, callsKill]
      split <;> rfl
  | kill =>
      simp only [ocreContainerSignal, ocreContainerKill, signalLocked, wamrVtable, callsKill]
      by_cases hs : w.container.status = .running <;> simp [hs, instanceKill]
  | pause =>
      simp only [ocreContainerSignal, ocreContainerPause, signalLocked, wamrVtable, callsKill]
      split <;> rfl
  | unpause =>
      simp only [ocreContainerSignal, ocreContainerUnpause, signalLocked, wamrVtable, callsKill]
      split <;> rfl

theorem killInv_of_next (hw : w.Inv) {a : Act WamrExt}
    (h : w.container.runtimeContext.KillInv w.point) (hok : KillOk a w)
    (hnext : w.next wamrVtable a = some w') : w'.container.runtimeContext.KillInv w'.point := by
  have hexec := execution_of_next hw hnext
  revert hexec
  generalize w'.point = p', w'.container.runtimeContext = ctx'
  rintro (_ | ⟨_, hnone⟩ | ⟨n, ext, p, hp⟩ | ⟨n, p, result, hp, hresult⟩ | ⟨k, sig, ext⟩)
  · exact h
  · rw [hnone] at h
    exact ⟨h.fits, h.kept⟩
  · rw [hp] at h
    exact h.execute ext
  · rw [hp] at h
    cases p <;> simp [wamrVtable] at hresult
    exact ⟨h.fits, h.kept⟩
  · rw [wamr_signal_runtimeContext k]
    split
    · rename_i hkill
      exact h.kill (hok hkill)
    · exact h

theorem killInv_of_reachableWhere (h : wamrSystem.ReachableWhere KillOk w) :
    w.container.runtimeContext.KillInv w.point := by
  refine h.invariant_of (J := Inv)
    (I := fun w ↦ w.container.runtimeContext.KillInv w.point)
    (fun _ hv ↦ Inv.of_reachable (StepSystem.ReachableWhere.of_restrict hv)) ?_
    fun a v v' hv hkill hok hnext ↦ killInv_of_next hv hkill hok hnext
  intro v hv
  have hpoint : v.point = none := by
    rw [point_eq_none_iff]
    simp [hv.1.threads]
  rw [hpoint, hv.2]
  exact ⟨rfl, by simp⟩

/-- A run keeps the kill contract exactly when every kill comes in time. -/
theorem runKeeps_killContract_iff {w₀ : ContainerWorld WamrPoint WamrContext}
    (h₀ : wamrSystem.init w₀) {as : List (Act WamrExt)}
    (hrun : wamrSystem.run w₀ as = some w) :
    wamrSystem.RunKeeps KillContract w₀ as ↔ wamrSystem.RunMeets KillOk w₀ as := by
  refine StepSystem.ReachableWhere.runKeeps_iff_runMeets ?_ (.start h₀) hrun
  intro a v v' hv hnext
  have hfits := (killInv_of_reachableWhere hv).fits
  constructor
  · intro hcontract hkill
    exact (WamrContext.killable_iff_ready hfits).mp (hcontract.1 hkill)
  · intro hok
    have hkept := (killInv_of_reachableWhere (.step a hv hok hnext)).kept
    exact ⟨fun hkill ↦ (WamrContext.killable_iff_ready hfits).mpr (hok hkill),
      fun m hm hterminated ↦ (hkept m hm hterminated).2⟩

/-- A kill during main, and another one in the next run as soon as it is ready. -/
theorem runKeeps_killContract_of_two_kills :
    ∃ w, wamrSystem.run wamrWorld
        [.start 0 {}, .thread 0 {}, .thread 0 {}, .thread 0 {}, .semWait 0 0,
          .signal 1 .kill {}, .thread 0 {}, .thread 0 {}, .thread 0 {}, .thread 0 {}, .exit 0,
          .start 2 {}, .thread 1 {}, .thread 1 {}, .signal 3 .kill {}] = some w ∧
      w.calls 1 = .returned 0 none ∧ w.calls 3 = .returned 0 none ∧
      wamrSystem.RunKeeps KillContract wamrWorld
        [.start 0 {}, .thread 0 {}, .thread 0 {}, .thread 0 {}, .semWait 0 0,
          .signal 1 .kill {}, .thread 0 {}, .thread 0 {}, .thread 0 {}, .thread 0 {}, .exit 0,
          .start 2 {}, .thread 1 {}, .thread 1 {}, .signal 3 .kill {}] :=
  ⟨_, rfl, rfl, rfl, (runKeeps_killContract_iff wamrWorld_init rfl).mpr (by decide)⟩

/-- A kill right after the unlock of the start finds `module_inst` NULL. -/
theorem not_runKeeps_killContract_of_early_kill :
    ¬ ∀ w₀ w, wamrSystem.init w₀ → ∀ as, wamrSystem.run w₀ as = some w →
      wamrSystem.RunKeeps KillContract w₀ as := by
  intro h
  have hkeeps := h wamrWorld _ wamrWorld_init [.start 0 {}, .signal 1 .kill {}] rfl
  have hkill := (hkeeps _ rfl).2
  obtain ⟨m, hm, -⟩ := (hkill _ rfl).1.1 rfl
  cases hm

end ContainerWorld

end OcreRuntime
