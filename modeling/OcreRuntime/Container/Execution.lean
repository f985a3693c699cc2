import OcreRuntime.Container.Invariants

/-!
# The runtime as the container drives it

At most one thread executes the runtime function at a time. What a step of the
container does to the runtime is seen on two things only: the program point of
that thread and the runtime context.
-/

namespace OcreRuntime

namespace ContainerWorld

variable {Point Ctx Ext : Type} {V : OcreRuntimeVtable Point Ctx Ext}
  {w w' : ContainerWorld Point Ctx}

/-- The program point of the thread on the handle, if it executes. -/
def point (w : ContainerWorld Point Ctx) : Option Point :=
  match (w.threads w.container.thread).phase with
  | .live p => some p
  | _ => none

theorem point_eq_some_iff {p : Point} :
    w.point = some p ↔ (w.threads w.container.thread).phase = .live p := by
  unfold point
  split <;> simp_all

theorem point_eq_none_iff :
    w.point = none ↔ ∀ p, (w.threads w.container.thread).phase ≠ .live p := by
  unfold point
  split <;> simp_all

theorem point_of_live (h : w.ThreadInv) {n : ℕ} {p : Point}
    (hp : (w.threads n).phase = .live p) : w.point = some p := by
  rw [point_eq_some_iff, h.thread_eq_of_live hp, hp]

theorem point_congr (hthread : w'.container.thread = w.container.thread)
    (hphase : ∀ n, (w'.threads n).phase = (w.threads n).phase) : w'.point = w.point := by
  unfold point
  rw [hthread, hphase]

theorem point_collect (w : ContainerWorld Point Ctx) : w.collect.point = w.point := by
  refine point_congr ?_ w.collect_phase
  rw [collect_container]
  unfold ocreContainerStatusLocked
  split_ifs <;> rfl

theorem collect_runtimeContext (w : ContainerWorld Point Ctx) :
    w.collect.container.runtimeContext = w.container.runtimeContext := by
  rw [collect_container]
  unfold ocreContainerStatusLocked
  split_ifs <;> rfl

/-- What a step does to the point and the context. -/
inductive Execution (V : OcreRuntimeVtable Point Ctx Ext) (w : ContainerWorld Point Ctx) :
    Act Ext → Option Point → Ctx → Prop
  | stay (a : Act Ext) : Execution V w a w.point w.container.runtimeContext
  | enter (a : Act Ext) : w.point = none →
      Execution V w a (some V.threadEntry) w.container.runtimeContext
  | step (n : ℕ) (ext : Ext) (p : Point) : w.point = some p →
      Execution V w (.thread n ext) (some (V.threadExecute ext p w.container.runtimeContext).1)
        (V.threadExecute ext p w.container.runtimeContext).2.1
  | leave (n : ℕ) (p : Point) (result : Int) : w.point = some p →
      V.threadResult p = some result →
      Execution V w (.exit n) none w.container.runtimeContext
  | signal (k : ℕ) (sig : Signal) (ext : Ext) :
      Execution V w (.signal k sig ext) w.point
        (ocreContainerSignal V sig ext w.container).2.runtimeContext

theorem execution_of_stay {a : Act Ext} (hpoint : w'.point = w.point)
    (hctx : w'.container.runtimeContext = w.container.runtimeContext) :
    Execution V w a w'.point w'.container.runtimeContext := by
  rw [hpoint, hctx]
  exact .stay a

theorem execution_of_step (hw : w.Inv) {a : Act Ext} (hstep : Step V w a w') :
    Execution V w a w'.point w'.container.runtimeContext := by
  cases hstep with
  | threadCreated k calls hk hcalls hs =>
      have hnone : w.point = none := by
        rw [point_eq_none_iff]
        intro p hp
        exact hw.not_outstanding_of_ready hs _ (hw.outstanding_of_live hp)
      have hentry : ∀ v : ContainerWorld Point Ctx,
          (v.threads v.container.thread).phase = .live V.threadEntry →
          v.point = some V.threadEntry := fun v hv ↦ point_eq_some_iff.mpr hv
      rw [hentry _ (by simp [finish])]
      exact .enter _ hnone
  | signal k sig ext hk =>
      obtain ⟨ctx, status, heq, -⟩ := ocreContainerSignal_spec V sig ext w.container
      have hpoint : (w.finish k (ocreContainerSignal V sig ext w.container).2
          (.returned (ocreContainerSignal V sig ext w.container).1 none)).point = w.point :=
        point_congr (by rw [heq]; rfl) fun _ ↦ rfl
      rw [hpoint]
      exact .signal k sig ext
  | thread n ext p hp hresult =>
      have hthread := hw.thread_eq_of_live hp
      have hpoint : (w.threadStep V n ext p).point =
          some (V.threadExecute ext p w.container.runtimeContext).1 := by
        rw [point_eq_some_iff]
        simp [threadStep, hthread]
      rw [hpoint]
      exact .step n ext p (point_of_live hw.toThreadInv hp)
  | exit n p result hp hresult =>
      have hthread := hw.thread_eq_of_live hp
      have hpoint : (w.exitStep n result).point = none := by
        rw [point_eq_none_iff]
        simp [exitStep, containerThreadExit, hthread]
      rw [hpoint]
      exact .leave n p result (point_of_live hw.toThreadInv hp) hresult
  | destroyJoinFailed k hk hexited hjoins =>
      exact execution_of_stay (point_congr rfl (w.joinThread_phase _)) rfl
  | destroyJoined k hk hexited hjoins =>
      exact execution_of_stay (point_congr rfl (w.joinThread_phase _)) rfl
  | _ => exact execution_of_stay rfl rfl

theorem Execution.of_collect {a : Act Ext} {p : Option Point} {ctx : Ctx}
    (hcollects : collects a = true) (h : Execution V w.collect a p ctx) :
    Execution V w a p ctx := by
  cases h with
  | stay =>
      rw [point_collect, collect_runtimeContext]
      exact .stay a
  | enter _ hnone =>
      rw [collect_runtimeContext]
      exact .enter a (w.point_collect ▸ hnone)
  | step n ext p hp => simp [collects] at hcollects
  | leave n p result hp hresult => simp [collects] at hcollects
  | signal k sig ext => simp [collects] at hcollects

theorem execution_of_next (hw : w.Inv) {a : Act Ext} (hnext : w.next V a = some w') :
    Execution V w a w'.point w'.container.runtimeContext := by
  obtain ⟨-, -, hstep⟩ := next_cases hnext
  split at hstep
  · rename_i hcollects
    exact (execution_of_step hw.collect hstep).of_collect hcollects
  · exact execution_of_step hw hstep

end ContainerWorld

end OcreRuntime
