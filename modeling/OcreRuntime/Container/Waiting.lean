import OcreRuntime.Container.Invariants

/-!
# What a wait call promises its caller

A wait blocks on the condition at most once, so what it returns is decided by the
status it finds at the call, or on waking up. The contract is the one of the
header: wait for the run that is in progress, report its exit code, fail otherwise.
-/

namespace OcreRuntime

theorem WaitCaller.finish_refused (caller : WaitCaller) {ret : Int} {written : Option Int}
    (h : caller.finish ⟨-1, none⟩ = .returned ret written) : ret ≠ 0 := by
  cases caller <;> simp [WaitCaller.finish] at h <;> omega

theorem WaitCaller.run_of_proceed {caller caller' : WaitCaller} {run run' : ℕ}
    {r : Option WaitResult}
    (h : caller.proceed run r = .condWait caller' run' ∨
      caller.proceed run r = .woken caller' run') : run = run' := by
  cases r with
  | none =>
      simp only [proceed, CallState.condWait.injEq, reduceCtorEq, or_false] at h
      exact h.2
  | some r => cases caller <;> simp [proceed, finish] at h

namespace ContainerWorld

open Function (update)

variable {Point Ctx Ext : Type} {V : OcreRuntimeVtable Point Ctx Ext}
  {w w' : ContainerWorld Point Ctx}

/-- A section of `ocre_container_wait` in which the call can return: the call, the
status it was made in, the number of threads created by then, and whether it has
a status pointer. -/
structure WaitSection where
  call : ℕ
  entry : OcreContainerStatus
  run : ℕ
  dst : Bool

def waitSection (a : Act Ext) (w : ContainerWorld Point Ctx) : Option WaitSection :=
  match a with
  | .wait k dst _ => some ⟨k, w.container.status, w.created, dst⟩
  | .nestedWait k _ => some ⟨k, w.container.status, w.created, false⟩
  | .resume k => match w.calls k with
      | .woken caller run => some ⟨k, .running, run, caller.dst⟩
      | _ => none
  | _ => none

/-- The call returns `ret` and `written` in the state `w`. -/
structure WaitSection.Kept (s : WaitSection) (ret : Int) (written : Option Int)
    (w : ContainerWorld Point Ctx) : Prop where
  afterExit : s.entry = .running ∨ s.entry = .paused →
    ∀ n, n + 1 = s.run → (w.threads n).isExited = true
  stopped : ret = 0 → w.container.status = .stopped
  code : ret = 0 → s.dst = true →
    ∃ n code, written = some code ∧ (w.threads n).phase = .exited code
  refused : s.entry = .unknown ∨ s.entry = .created ∨ s.entry = .error → ret ≠ 0

def WaitContract (a : Act Ext) (w w' : ContainerWorld Point Ctx) : Prop :=
  ∀ s, waitSection a w = some s →
    ∀ ret written, w'.calls s.call = .returned ret written → s.Kept ret written w'

def resumesWait : Act Ext → Bool
  | .resume _ => true
  | _ => false

/-- A wait does not find PAUSED or ERROR, the condition wait fails only when no
thread is live, and on waking up the status is EXITED or STOPPED. -/
def WaitOk (a : Act Ext) (w : ContainerWorld Point Ctx) : Prop :=
  (∀ condRc ∈ beginsWait a, w.container.status ≠ .paused ∧ w.container.status ≠ .error ∧
    (w.container.status = .running → condRc ≠ 0 →
      ∀ n < w.created, (w.threads n).isExited = true)) ∧
  (resumesWait a = true → w.container.status = .exited ∨ w.container.status = .stopped)

instance (a : Act Ext) (w : ContainerWorld Point Ctx) : Decidable (WaitOk a w) :=
  inferInstanceAs (Decidable ((∀ condRc ∈ beginsWait a, _) ∧ (_ → _)))

/-- A blocked call has seen no thread that does not exist yet, and the recorded
exit code is that of a thread that has exited. -/
structure WaitInv (w : ContainerWorld Point Ctx) : Prop where
  runs : ∀ k caller run, w.calls k = .condWait caller run ∨ w.calls k = .woken caller run →
    run ≤ w.created
  codes : ∀ n, (w.threads n).isExited = true →
    ∃ m, (w.threads m).phase = .exited w.container.exitCode

namespace WaitInv

theorem of_fresh (h : w.Fresh) : w.WaitInv where
  runs k caller run hk := by simp [h.calls] at hk
  codes n hn := by simp [h.threads, Thread.isExited] at hn

theorem finish (h : w.WaitInv) {k : ℕ} {st : CallState}
    (hphase : ∀ n, (w'.threads n).phase = (w.threads n).phase)
    (hcreated : w'.created = w.created)
    (hcode : w'.container.exitCode = w.container.exitCode)
    (hcalls : w'.calls = update w.calls k st)
    (hst : ∀ caller run, st = .condWait caller run ∨ st = .woken caller run →
      run ≤ w.created) : w'.WaitInv := by
  have hexited : ∀ n, (w'.threads n).isExited = (w.threads n).isExited := by
    simp [Thread.isExited, hphase]
  refine ⟨fun j caller run hj ↦ ?_, fun n hn ↦ ?_⟩
  · rw [hcreated]
    by_cases hjk : j = k
    · subst hjk
      exact hst caller run (by simpa [hcalls] using hj)
    · exact h.runs j caller run (by simpa [hcalls, hjk] using hj)
  · simpa only [hphase, hcode] using h.codes n (hexited n ▸ hn)

theorem collect (h : w.WaitInv) : w.collect.WaitInv where
  runs k caller run hk := by simpa using h.runs k caller run (by simpa using hk)
  codes n hn := by
    simp only [Thread.isExited, collect_phase, collect_exitCode] at hn ⊢
    exact h.codes n hn

theorem step (h : w.WaitInv) (hw : w.Inv) {a : Act Ext} (hstep : Step V w a w') :
    w'.WaitInv := by
  cases hstep with
  | startRefused k calls hk => exact h.finish (fun _ ↦ rfl) rfl rfl rfl (by simp)
  | startFailed k calls attr hk hs => exact h.finish (fun _ ↦ rfl) rfl rfl rfl (by simp)
  | createFailed k calls hk hs => exact h.finish (fun _ ↦ rfl) rfl rfl rfl (by simp)
  | threadCreated k calls hk hcalls hs =>
      refine ⟨fun j caller run hj ↦ ?_, fun n hn ↦ ?_⟩
      · have hjk : j ≠ k := by
          rintro rfl
          simp [ContainerWorld.finish] at hj
        have hrun := h.runs j caller run (by simpa [ContainerWorld.finish, hjk] using hj)
        exact Nat.le_succ_of_le hrun
      · have hne : n ≠ w.created := by
          rintro rfl
          simp [Thread.isExited] at hn
        obtain ⟨m, hm⟩ := h.codes n (by simpa [hne] using hn)
        have hmne : m ≠ w.created := by
          rintro rfl
          simp [hw.absent _ (Nat.le_refl _)] at hm
        exact ⟨m, by simpa [ContainerWorld.finish, hmne] using hm⟩
  | semWaitFailed k rc tid hk hrc => exact h.finish (fun _ ↦ rfl) rfl rfl rfl (by simp)
  | semWaitPast k rc tid post posts hk hrc hsem =>
      refine h.finish (fun _ ↦ rfl) rfl rfl rfl ?_
      split <;> simp
  | storeError k admitted hk => exact h.finish (fun _ ↦ rfl) rfl rfl rfl (by simp)
  | signal k sig ext hk =>
      obtain ⟨ctx, status, heq, -⟩ := ocreContainerSignal_spec V sig ext w.container
      rw [heq]
      exact h.finish (fun _ ↦ rfl) rfl rfl rfl (by simp)
  | getStatus k ret hk => exact h.finish (fun _ ↦ rfl) rfl rfl rfl (by simp)
  | wait k dst condRc hk =>
      exact h.finish (fun _ ↦ rfl) rfl rfl rfl fun _ _ hst ↦
        Nat.le_of_eq (WaitCaller.run_of_proceed hst).symm
  | nestedWait k condRc hk =>
      exact h.finish (fun _ ↦ rfl) rfl rfl rfl fun _ _ hst ↦
        Nat.le_of_eq (WaitCaller.run_of_proceed hst).symm
  | spurious k caller run hk =>
      refine h.finish (fun _ ↦ rfl) rfl rfl rfl fun caller' run' hst ↦ ?_
      have := h.runs k caller run (.inl hk)
      simp at hst
      omega
  | resume k caller run hk =>
      refine h.finish (fun _ ↦ rfl) rfl rfl rfl ?_
      cases caller <;> simp [WaitCaller.finish]
  | destroyRead k hk hmutex =>
      refine h.finish (fun _ ↦ rfl) rfl rfl rfl ?_
      split <;> simp
  | destroyJoinFailed k hk hexited hjoins =>
      exact h.finish (w.joinThread_phase _) rfl rfl rfl (by simp)
  | destroyJoined k hk hexited hjoins =>
      exact h.finish (w.joinThread_phase _) rfl rfl rfl (by simp)
  | destroyStore k hk => exact h.finish (fun _ ↦ rfl) rfl rfl rfl (by simp)
  | destroyRefused k hk => exact h.finish (fun _ ↦ rfl) rfl rfl rfl (by simp)
  | destroyChecked k hk hs => exact h.finish (fun _ ↦ rfl) rfl rfl rfl (by simp)
  | destroyFree k hk => exact h.finish (fun _ ↦ rfl) rfl rfl rfl (by simp)
  | thread n ext p hp hresult =>
      refine ⟨h.runs, fun m hm ↦ ?_⟩
      have hmn : m ≠ n := by
        rintro rfl
        simp [threadStep, Thread.isExited] at hm
      obtain ⟨j, hj⟩ := h.codes m (by simpa [threadStep, hmn] using hm)
      have hjn : j ≠ n := by
        rintro rfl
        simp [hp] at hj
      exact ⟨j, by simpa [threadStep, hjn] using hj⟩
  | exit n p result hp hresult =>
      refine ⟨fun k caller run hk ↦ ?_, fun m hm ↦ ⟨n, by simp [exitStep, containerThreadExit]⟩⟩
      have hblocked : w.calls k = .condWait caller run ∨ w.calls k = .woken caller run := by
        simp only [exitStep, broadcast] at hk
        split at hk <;> simp_all
      exact h.runs k caller run hblocked

end WaitInv

theorem WaitInv.of_reachable {ok : Act Ext → ContainerWorld Point Ctx → Prop}
    (h : (containerSystem V).ReachableWhere ok w) : w.WaitInv := by
  refine h.invariant_of (fun _ ↦ Inv.of_reachable) (fun _ ↦ WaitInv.of_fresh) ?_
  intro a w w' hw hwait _ hnext
  obtain ⟨-, -, hstep⟩ := next_cases hnext
  split at hstep
  · exact hwait.collect.step hw.collect hstep
  · exact hwait.step hw hstep

/-- Every thread that has been created has run to its end. -/
theorem Inv.isExited_of_status (h : w.Inv)
    (hs : w.container.status = .exited ∨ w.container.status = .stopped) {n : ℕ}
    (hn : n < w.created) : (w.threads n).isExited = true := by
  by_cases hj : (w.threads n).joins = 0
  · rcases h.fits n ⟨hn, hj⟩ with hf | ⟨hf, -⟩ | ⟨-, hf⟩
    · simp [hf] at hs
    · exact hf
    · rcases hs with hs | hs <;> simp [hs] at hf
  · exact h.joined n hj

theorem Inv.isExited_of_succ_lt (h : w.Inv) {n : ℕ} (hn : n + 1 < w.created) :
    (w.threads n).isExited = true := by
  refine h.joined n fun hj ↦ ?_
  have := h.earlier n ⟨by omega, hj⟩
  omega

/-- A collection does not leave the two statuses of a run that is over. -/
theorem collect_ended (w : ContainerWorld Point Ctx) :
    (w.collect.container.status = .exited ∨ w.collect.container.status = .stopped) ↔
      (w.container.status = .exited ∨ w.container.status = .stopped) := by
  rw [collect_container]
  unfold ocreContainerStatusLocked
  split_ifs with h <;> simp [h]

theorem WaitInv.exists_code (h : w.WaitInv) (hw : w.Inv) (hs : w.container.status = .stopped) :
    ∃ n, (w.threads n).phase = .exited w.container.exitCode :=
  h.codes 0 (hw.isExited_of_status (.inr hs) (hw.stopped hs))

/-- The part of `ocre_container_wait` after the condition wait, on a container that
has been collected. -/
theorem kept_iff_of_tail (hw : w.Inv) (hwait : w.WaitInv) {s : WaitSection}
    {caller : WaitCaller} (hrun : s.run ≤ w.created) (hdst : s.dst = caller.dst)
    (hentry : s.entry ≠ .unknown ∧ s.entry ≠ .created) {ret : Int} {written : Option Int}
    (hret : caller.finish (waitTailResult caller.dst w.container) = .returned ret written) :
    s.Kept ret written w ↔ w.container.status = .exited ∨
      (w.container.status = .stopped ∧ s.entry ≠ .error) := by
  have hexited : (w.container.status = .exited ∨ w.container.status = .stopped) →
      ∀ n, n + 1 = s.run → (w.threads n).isExited = true :=
    fun hs n hn ↦ hw.isExited_of_status hs (by omega)
  by_cases he : w.container.status = .exited
  · have hne : ret ≠ 0 := by
      rw [waitTailResult, if_pos he] at hret
      exact caller.finish_refused hret
    simp only [he, true_or, iff_true]
    exact ⟨fun _ ↦ hexited (.inl he), fun h ↦ absurd h hne, fun h ↦ absurd h hne, fun _ ↦ hne⟩
  · rw [waitTailResult, if_neg he] at hret
    have hzero : ret = 0 := by
      cases caller <;> simp [WaitCaller.finish] at hret <;> omega
    by_cases hs : w.container.status = .stopped
    · simp only [hs, false_or, true_and, reduceCtorEq]
      refine ⟨fun h herror ↦ h.refused (by simp [herror]) hzero, fun herror ↦ ?_⟩
      refine ⟨fun _ ↦ hexited (.inr hs), fun _ ↦ hs, fun _ hd ↦ ?_, ?_⟩
      · obtain ⟨n, hn⟩ := hwait.exists_code hw hs
        refine ⟨n, w.container.exitCode, ?_, hn⟩
        cases caller with
        | user dst =>
            simp only [WaitCaller.finish, hs, true_and, CallState.returned.injEq] at hret
            rw [← hret.2, if_pos (hdst ▸ hd)]
        | start => simp [hdst, WaitCaller.dst] at hd
      · tauto
    · simp only [he, hs, false_or, false_and, iff_false]
      exact fun h ↦ hs (h.stopped hzero)

/-- The section in which a call of `ocre_container_wait` begins. -/
theorem kept_iff_of_begin (hw : w.Inv) (hwait : w.WaitInv) (k : ℕ) (caller : WaitCaller)
    (condRc : Int) :
    (∀ ret written, caller.proceed w.created
        (waitResult condRc caller.dst w.collect.container) = .returned ret written →
      WaitSection.Kept ⟨k, w.container.status, w.created, caller.dst⟩ ret written w.collect) ↔
    w.container.status ≠ .paused ∧ w.container.status ≠ .error ∧
      (w.container.status = .running → condRc ≠ 0 →
        ∀ n < w.created, (w.threads n).isExited = true) := by
  set s : WaitSection := ⟨k, w.container.status, w.created, caller.dst⟩ with hsdef
  have htail : w.container.status ≠ .unknown → w.container.status ≠ .created →
      waitResult condRc caller.dst w.collect.container =
        some (waitTailResult caller.dst w.collect.container) →
      ((∀ ret written, caller.proceed w.created
          (waitResult condRc caller.dst w.collect.container) = .returned ret written →
        s.Kept ret written w.collect) ↔
      w.collect.container.status = .exited ∨
        (w.collect.container.status = .stopped ∧ w.container.status ≠ .error)) := by
    intro hunknown hcreated hresult
    obtain ⟨ret, written, hret⟩ : ∃ ret written,
        caller.finish (waitTailResult caller.dst w.collect.container) =
          .returned ret written := by
      cases caller <;> exact ⟨_, _, rfl⟩
    simp only [hresult, WaitCaller.proceed, hret, CallState.returned.injEq]
    rw [← kept_iff_of_tail (s := s) hw.collect hwait.collect
      (Nat.le_of_eq w.collect_created.symm) rfl ⟨hunknown, hcreated⟩ hret]
    exact ⟨fun h ↦ h ret written ⟨rfl, rfl⟩, by rintro h _ _ ⟨rfl, rfl⟩; exact h⟩
  by_cases he : w.container.status = .exited
  · have hcollected := (collect_ended w).mpr (.inl he)
    have hresult : waitResult condRc caller.dst w.collect.container =
        some (waitTailResult caller.dst w.collect.container) := by
      rcases hcollected with hs | hs <;> simp [waitResult, hs]
    rw [htail (by simp [he]) (by simp [he]) hresult]
    simpa [he] using hcollected
  · rw [collect_of_ne_exited he] at htail ⊢
    by_cases hearly : w.container.status = .unknown ∨ w.container.status = .created
    · have hresult : waitResult condRc caller.dst w.container = some ⟨-1, none⟩ := by
        simp [waitResult, hearly]
      have hkept : ∀ ret written, caller.finish ⟨-1, none⟩ = .returned ret written →
          s.Kept ret written w := by
        intro ret written hret
        have hne := caller.finish_refused hret
        exact ⟨fun h ↦ by rcases hearly with hs | hs <;> simp [s, hs] at h,
          fun h ↦ absurd h hne, fun h ↦ absurd h hne, fun _ ↦ hne⟩
      rw [hresult]
      refine iff_of_true hkept ?_
      rcases hearly with hs | hs <;> simp [hs]
    · have hresult : w.container.status ≠ .running →
          waitResult condRc caller.dst w.container =
            some (waitTailResult caller.dst w.container) := by
        intro hrunning
        simp [waitResult, hearly, hrunning]
      rw [not_or] at hearly
      by_cases hrunning : w.container.status = .running
      · by_cases hrc : condRc = 0
        · simp [waitResult, hrunning, hrc, WaitCaller.proceed]
        · have hfail : waitResult condRc caller.dst w.container = some ⟨-1, none⟩ := by
            simp [waitResult, hrunning, hrc]
          obtain ⟨ret, written, hret⟩ : ∃ ret written,
              caller.finish ⟨-1, none⟩ = .returned ret written := by
            cases caller <;> exact ⟨_, _, rfl⟩
          have hne := caller.finish_refused hret
          simp only [hfail, WaitCaller.proceed, hret, CallState.returned.injEq, hrunning]
          constructor
          · refine fun h ↦ ⟨by rintro ⟨⟩, by rintro ⟨⟩, fun _ _ n hn ↦ ?_⟩
            rcases Nat.lt_or_eq_of_le hn with hlt | hlast
            · exact hw.isExited_of_succ_lt hlt
            · exact (h ret written ⟨rfl, rfl⟩).afterExit (.inl hrunning) n hlast
          · rintro ⟨-, -, h⟩ _ _ ⟨rfl, rfl⟩
            exact ⟨fun _ n hn ↦ h trivial hrc n (Nat.le_of_eq hn), fun h ↦ absurd h hne,
              fun h ↦ absurd h hne, fun _ ↦ hne⟩
      · rw [htail hearly.1 hearly.2 (hresult hrunning)]
        have := hw.known
        cases hs : w.container.status <;> simp_all

theorem WaitSection.kept_finish {s : WaitSection} {ret : Int} {written : Option Int} (k : ℕ)
    (st : CallState) :
    s.Kept ret written (w.finish k w.container st) ↔ s.Kept ret written w :=
  ⟨fun h ↦ ⟨h.afterExit, h.stopped, h.code, h.refused⟩,
    fun h ↦ ⟨h.afterExit, h.stopped, h.code, h.refused⟩⟩

/-- A step keeps the contract exactly when it meets the condition. -/
theorem waitContract_iff_waitOk (hw : w.Inv) (hwait : w.WaitInv) {a : Act Ext}
    (hnext : w.next V a = some w') : WaitContract a w w' ↔ WaitOk a w := by
  obtain ⟨-, -, hstep⟩ := next_cases hnext
  cases a with
  | wait k dst condRc =>
      have hbegin := kept_iff_of_begin hw hwait k (.user dst) condRc
      cases (show Step V w.collect (.wait k dst condRc) w' from hstep) with
      | wait _ _ _ hk =>
          simp only [WaitContract, waitSection, WaitOk, beginsWait, resumesWait,
            WaitSection.kept_finish, Option.mem_def, Option.some.injEq, forall_eq', finish_calls,
            collect_created, reduceCtorEq, false_implies, and_true]
          exact hbegin
  | nestedWait k condRc =>
      have hbegin := kept_iff_of_begin hw hwait k .start condRc
      cases (show Step V w.collect (.nestedWait k condRc) w' from hstep) with
      | nestedWait _ _ hk =>
          simp only [WaitContract, waitSection, WaitOk, beginsWait, resumesWait,
            WaitSection.kept_finish, Option.mem_def, Option.some.injEq, forall_eq', finish_calls,
            collect_created, reduceCtorEq, false_implies, and_true]
          exact hbegin
  | resume k =>
      cases (show Step V w.collect (.resume k) w' from hstep) with
      | resume _ caller run hk =>
          have hk' : w.calls k = .woken caller run := by simpa using hk
          obtain ⟨ret, written, hret⟩ : ∃ ret written,
              caller.finish (waitTailResult caller.dst w.collect.container) =
                .returned ret written := by
            cases caller <;> exact ⟨_, _, rfl⟩
          have hrun : run ≤ w.collect.created := by
            rw [collect_created]
            exact hwait.runs k caller run (.inr hk')
          have htail := kept_iff_of_tail (s := ⟨k, .running, run, caller.dst⟩) hw.collect
            hwait.collect hrun rfl (by simp) hret
          simp only [WaitContract, waitSection, hk', WaitOk, beginsWait, resumesWait, hret,
            WaitSection.kept_finish, Option.some.injEq, forall_eq', finish_calls,
            CallState.returned.injEq]
          constructor
          · intro h
            have := htail.mp (h ret written ⟨rfl, rfl⟩)
            exact ⟨by rintro _ ⟨⟩, fun _ ↦ (collect_ended w).mp (this.imp_right And.left)⟩
          · rintro ⟨-, h⟩ _ _ ⟨rfl, rfl⟩
            exact htail.mpr (((collect_ended w).mpr (h trivial)).imp_right (⟨·, by simp⟩))
  | _ => simp [WaitContract, waitSection, WaitOk, beginsWait, resumesWait]

/-- A run keeps the contract at each of its steps exactly when each meets the
condition. -/
theorem runKeeps_waitContract_iff {w₀ : ContainerWorld Point Ctx} (h₀ : w₀.Fresh)
    {as : List (Act Ext)} (hrun : (containerSystem V).run w₀ as = some w) :
    (containerSystem V).RunKeeps WaitContract w₀ as ↔
      (containerSystem V).RunMeets WaitOk w₀ as := by
  refine StepSystem.ReachableWhere.runKeeps_iff_runMeets ?_ (.start h₀) hrun
  intro a v v' hv hnext
  exact waitContract_iff_waitOk (.of_reachable hv) (.of_reachable hv) hnext

/-- A non-detached start, a wait with a status pointer that is woken by the exit,
and a late wait. -/
theorem runKeeps_waitContract_of_two_waiters :
    ∃ w, (containerSystem promptRuntime).run attachedWorld
        [.start 0 {}, .thread 0 (), .semWait 0 0, .nestedWait 0 0, .wait 1 true 0, .exit 0,
          .resume 1, .resume 0, .wait 2 true 0] = some w ∧
      w.calls 0 = .returned 0 none ∧ w.calls 1 = .returned 0 (some 0) ∧
      (containerSystem promptRuntime).RunKeeps WaitContract attachedWorld
        [.start 0 {}, .thread 0 (), .semWait 0 0, .nestedWait 0 0, .wait 1 true 0, .exit 0,
          .resume 1, .resume 0, .wait 2 true 0] :=
  ⟨_, rfl, rfl, rfl, (runKeeps_waitContract_iff attachedWorld_fresh rfl).mpr (by decide)⟩

/-- A wait for a paused container returns 0 at once. -/
theorem not_runKeeps_waitContract_of_paused :
    ¬ ∀ w₀ w, ContainerWorld.Fresh w₀ → ∀ as,
      (containerSystem promptRuntime).run w₀ as = some w →
        (containerSystem promptRuntime).RunKeeps WaitContract w₀ as := by
  intro h
  have hkeeps := h promptWorld _ promptWorld_fresh
    [.start 0 {}, .thread 0 (), .semWait 0 0, .signal 1 .pause (), .wait 2 true 0] rfl
  have hpaused := ((((hkeeps _ rfl).2 _ rfl).2 _ rfl).2 _ rfl).2
  have hcontract := (hpaused _ rfl).1
  cases (hcontract _ rfl 0 none rfl).stopped rfl

end ContainerWorld

end OcreRuntime
