import OcreRuntime.Container.Invariants

/-!
# The status diagram of a container

The header gives each operation the statuses it may be called in and describes how
the status moves. A step is lawful when it moves the status along the diagram, and
an operation that is not allowed fails without touching the container.
-/

namespace OcreRuntime

namespace ContainerWorld

open Function (update)

variable {Point Ctx Ext : Type} {V : OcreRuntimeVtable Point Ctx Ext}
  {w w' : ContainerWorld Point Ctx}

/-- The edges of the diagram other than the collection. RUNNING counts as the
status of a failing start as long as no thread has been created for it. -/
def StatusMove (a : Act Ext) (w : ContainerWorld Point Ctx) (s' : OcreContainerStatus) : Prop :=
  match a with
  | .start .. => (w.container.status = .created ∨ w.container.status = .stopped) ∧ s' = .running
  | .signal _ .pause _ => w.container.status = .running ∧ s' = .paused
  | .signal _ .unpause _ => w.container.status = .paused ∧ s' = .running
  | .exit _ => (w.container.status = .running ∨ w.container.status = .paused) ∧ s' = .exited
  | .destroyStore _ => w.container.status = .exited ∧ s' = .stopped
  | .storeError k => w.calls k = .errorStatus true ∧ s' = .error ∧
      (w.container.status = .created ∨ w.container.status = .stopped ∨
        (w.container.status = .running ∧ ∀ n < w.created, (w.threads n).joins ≠ 0))
  | _ => False

/-- Whether the header allows the operation in the status it finds. The last step
of a refused start belongs to an operation that is not allowed. -/
def HeaderAllows (a : Act Ext) (w : ContainerWorld Point Ctx) : Prop :=
  match a with
  | .start .. => w.container.status = .created ∨ w.container.status = .stopped
  | .storeError k => w.calls k ≠ .errorStatus false
  | .signal _ sig _ => w.container.status = sig.allowed
  | .wait .. | .nestedWait .. => w.container.status = .stopped ∨
      w.container.status = .running ∨ w.container.status = .paused
  | _ => True

/-- The call an operation step belongs to. -/
def operationCall : Act Ext → Option ℕ
  | .start k _ | .storeError k | .signal k _ _ | .wait k _ _ | .nestedWait k _ => some k
  | _ => none

/-- The call has returned non-zero, or is a refused start that is about to. -/
def CallFails : CallState → Prop
  | .returned ret _ => ret ≠ 0
  | .errorStatus admitted => admitted = false
  | _ => False

/-- Lawfulness seen from the state after the collection. -/
structure LawfulAfter (a : Act Ext) (w w' : ContainerWorld Point Ctx) : Prop where
  moved : w'.container.status = w.container.status ∨ StatusMove a w w'.container.status
  refused : ¬ HeaderAllows a w → w'.container = w.container ∧
    ∀ k ∈ operationCall a, CallFails (w'.calls k)

structure Lawful (a : Act Ext) (w w' : ContainerWorld Point Ctx) : Prop where
  collected : (entered a w).container.status = w.container.status ∨
    (w.container.status = .exited ∧ (entered a w).container.status = .stopped)
  after : LawfulAfter a (entered a w) w'

/-- A refused start stores ERROR over ERROR only, an admitted one while its status
is still its own, and no wait is called in ERROR. -/
def LifecycleOk (a : Act Ext) (w : ContainerWorld Point Ctx) : Prop :=
  (∀ k ∈ storesError a, w.container.status = .error ∨ (w.calls k = .errorStatus true ∧
    (w.container.status = .created ∨ w.container.status = .stopped ∨
      (w.container.status = .running ∧ ∀ n < w.created, (w.threads n).joins ≠ 0)))) ∧
  (beginsWait a ≠ none → w.container.status ≠ .error)

instance (a : Act Ext) (w : ContainerWorld Point Ctx) : Decidable (LifecycleOk a w) :=
  inferInstanceAs (Decidable ((∀ k ∈ storesError a, _) ∧ (_ → _)))

/-- What conforming runs add: ERROR hides no thread, and a removal that has joined
the thread still finds EXITED. -/
structure LifecycleInv (w : ContainerWorld Point Ctx) : Prop where
  error : w.container.status = .error → ∀ n, ¬ w.Outstanding n
  storing : ∀ k, w.calls k = .destroyStore → w.container.status = .exited

namespace LifecycleInv

theorem of_fresh (h : w.Fresh) : w.LifecycleInv where
  error hs := by simp [h.status] at hs
  storing k hk := by simp [h.calls] at hk

theorem of_finish {k : ℕ} {st : CallState} (hthreads : w'.threads = w.threads)
    (hcreated : w'.created = w.created) (hcalls : w'.calls = update w.calls k st)
    (hst : st ≠ .destroyStore)
    (herror : w'.container.status = .error → ∀ n, ¬ w.Outstanding n)
    (hexited : ∀ j, j ≠ k → w.calls j = .destroyStore → w'.container.status = .exited) :
    w'.LifecycleInv where
  error hs n hn := herror hs n (by simpa [Outstanding, hthreads, hcreated] using hn)
  storing j hj := by
    by_cases hjk : j = k
    · subst hjk
      rw [hcalls, Function.update_self] at hj
      exact absurd hj hst
    · exact hexited j hjk (by simpa [hcalls, hjk] using hj)

theorem finish (h : w.LifecycleInv) {k : ℕ} {st : CallState}
    (hthreads : w'.threads = w.threads) (hcreated : w'.created = w.created)
    (hcalls : w'.calls = update w.calls k st)
    (hstatus : w'.container.status = w.container.status) (hst : st ≠ .destroyStore) :
    w'.LifecycleInv :=
  of_finish hthreads hcreated hcalls hst (hstatus ▸ h.error) fun j _ hj ↦
    hstatus ▸ h.storing j hj

theorem collect (h : w.LifecycleInv) (hw : w.Inv) : w.collect.LifecycleInv where
  error herror n hn := by
    have hs : w.container.status = .error := by
      rw [collect_container] at herror
      unfold ocreContainerStatusLocked at herror
      split_ifs at herror <;> exact herror
    exact h.error hs n (ThreadInv.outstanding_of_collect hn)
  storing k hk := by
    rw [collect_calls] at hk
    rw [hw.collect_container_of_storing hk]
    exact h.storing k hk

theorem step (h : w.LifecycleInv) (hw : w.Inv) {a : Act Ext} (hok : LifecycleOk a w)
    (hstep : Step V w a w') : w'.LifecycleInv := by
  cases hstep with
  | startRefused k calls hk => exact h.finish rfl rfl rfl rfl (by rintro ⟨⟩)
  | startFailed k calls attr hk hs => exact h.finish rfl rfl rfl rfl (by rintro ⟨⟩)
  | createFailed k calls hk hs =>
      refine of_finish (w := w) rfl rfl rfl (by rintro ⟨⟩) (by rintro ⟨⟩) fun j _ hj ↦ ?_
      simp [h.storing j hj] at hs
  | threadCreated k calls hk hcalls hs =>
      refine ⟨by rintro ⟨⟩, fun j hj ↦ ?_⟩
      have hjk : j ≠ k := by
        rintro rfl
        simp [ContainerWorld.finish] at hj
      have hexited := h.storing j (by simpa [ContainerWorld.finish, hjk] using hj)
      simp [hexited] at hs
  | semWaitFailed k rc tid hk hrc => exact h.finish rfl rfl rfl rfl (by rintro ⟨⟩)
  | semWaitPast k rc tid post posts hk hrc hsem =>
      refine h.finish rfl rfl rfl rfl ?_
      split <;> rintro ⟨⟩
  | storeError k admitted hk =>
      refine of_finish (w := w) rfl rfl rfl (by rintro ⟨⟩) (fun _ n hn ↦ ?_) fun j _ hj ↦ ?_
      · rcases hok.1 k rfl with hs | ⟨-, hs | hs | ⟨-, hjoins⟩⟩
        · exact h.error hs n hn
        · exact hw.not_outstanding_of_ready (.inl hs) n hn
        · exact hw.not_outstanding_of_ready (.inr hs) n hn
        · exact hjoins n hn.1 hn.2
      · simpa [h.storing j hj] using hok.1 k rfl
  | signal k sig ext hk =>
      obtain ⟨ctx, status, heq, hs⟩ := ocreContainerSignal_spec V sig ext w.container
      rw [heq]
      rcases hs with hs | ⟨-, hw, hs⟩ | ⟨-, hw, hs⟩
      · exact h.finish rfl rfl rfl hs (by rintro ⟨⟩)
      · refine of_finish (w := w) rfl rfl rfl (by rintro ⟨⟩) (by simp [ContainerWorld.finish, hs])
          fun j _ hj ↦ ?_
        simp [h.storing j hj] at hw
      · refine of_finish (w := w) rfl rfl rfl (by rintro ⟨⟩) (by simp [ContainerWorld.finish, hs])
          fun j _ hj ↦ ?_
        simp [h.storing j hj] at hw
  | getStatus k ret hk => exact h.finish rfl rfl rfl rfl (by rintro ⟨⟩)
  | wait k dst condRc hk =>
      exact h.finish rfl rfl rfl rfl
        (CallState.ne_destroyStore (WaitCaller.proceed_isRemoving ..))
  | nestedWait k condRc hk =>
      exact h.finish rfl rfl rfl rfl
        (CallState.ne_destroyStore (WaitCaller.proceed_isRemoving ..))
  | spurious k caller run hk => exact h.finish rfl rfl rfl rfl (by rintro ⟨⟩)
  | resume k caller run hk =>
      exact h.finish rfl rfl rfl rfl (CallState.ne_destroyStore (caller.finish_isRemoving _))
  | destroyRead k hk hmutex =>
      refine h.finish rfl rfl rfl rfl ?_
      split <;> rintro ⟨⟩
  | destroyJoinFailed k hk hexited hjoins =>
      refine ⟨fun hs n hn ↦ ?_, fun j hj ↦ ?_⟩
      · exact h.error hs n ⟨hn.1, (ThreadInv.joinThread_joins_eq_zero hn.2).2⟩
      · have hjk : j ≠ k := by
          rintro rfl
          simp [ContainerWorld.finish] at hj
        exact h.storing j (by simpa [ContainerWorld.finish, hjk] using hj)
  | destroyJoined k hk hexited hjoins =>
      have hn : w.Outstanding w.container.thread := ⟨hw.lt_created_of_isExited hexited, hjoins⟩
      have hs : w.container.status = .exited := by
        rcases hw.fits _ hn with hs | ⟨-, hs⟩ | ⟨hlive, -⟩
        · exact (h.error hs _ hn).elim
        · exact hs
        · simp [hexited] at hlive
      exact ⟨fun herror ↦ by simp [ContainerWorld.finish, hs] at herror, fun _ _ ↦ hs⟩
  | destroyStore k hk =>
      refine of_finish (w := w) rfl rfl rfl (by rintro ⟨⟩) (by rintro ⟨⟩)
        fun j hjk hj ↦ (hjk ?_).elim
      exact hw.eq_of_removing (by simp [hj, CallState.isRemoving])
        (by simp [hk, CallState.isRemoving])
  | destroyRefused k hk => exact h.finish rfl rfl rfl rfl (by rintro ⟨⟩)
  | destroyChecked k hk hs => exact h.finish rfl rfl rfl rfl (by rintro ⟨⟩)
  | destroyFree k hk => exact h.finish rfl rfl rfl rfl (by rintro ⟨⟩)
  | thread n ext p hp hresult =>
      refine ⟨fun hs m hm ↦ h.error hs m ?_, h.storing⟩
      exact (threadStep_outstanding n ext p m).mp hm
  | exit n p result hp hresult =>
      refine ⟨by rintro ⟨⟩, fun k hk ↦ rfl⟩

end LifecycleInv

theorem collect_status_eq_error_iff (w : ContainerWorld Point Ctx) :
    w.collect.container.status = .error ↔ w.container.status = .error := by
  rcases w.collect_status with hs | ⟨hexited, hstopped⟩
  · rw [hs]
  · simp [hexited, hstopped]

theorem lifecycleOk_collect_iff {a : Act Ext} (hcollects : collects a = true) :
    LifecycleOk a w.collect ↔ LifecycleOk a w := by
  have hstore : storesError a = none := by
    cases a <;> simp [storesError, collects] at hcollects ⊢
  simp [LifecycleOk, hstore, collect_status_eq_error_iff]

theorem LifecycleInv.of_reachable (h : (containerSystem V).ReachableWhere LifecycleOk w) :
    w.LifecycleInv := by
  refine h.invariant_of (fun _ ↦ Inv.of_reachable) (fun _ ↦ LifecycleInv.of_fresh) ?_
  intro a w w' hw hl hok hnext
  obtain ⟨-, -, hstep⟩ := next_cases hnext
  split at hstep
  · rename_i hcollects
    exact (hl.collect hw).step hw.collect ((lifecycleOk_collect_iff hcollects).mpr hok) hstep
  · exact hl.step hw hok hstep

/-- Among the statuses in which a wait is not allowed, only ERROR lets it return 0. -/
theorem wait_refused_iff (caller : WaitCaller) (run : ℕ) (condRc : Int)
    (c : OcreContainer Ctx) :
    (¬ (c.status = .stopped ∨ c.status = .running ∨ c.status = .paused) →
      CallFails (caller.proceed run (waitResult condRc caller.dst c))) ↔
    c.status ≠ .error := by
  cases hs : c.status <;> cases caller <;>
    simp [waitResult, waitTailResult, hs, WaitCaller.proceed, WaitCaller.finish, CallFails]

theorem LifecycleOk.of_neither {a : Act Ext} (hstore : storesError a = none)
    (hwait : beginsWait a = none) : LifecycleOk a w := by
  simp [LifecycleOk, hstore, hwait]

theorem LawfulAfter.quiet {a : Act Ext} (hstatus : w'.container.status = w.container.status)
    (hallows : HeaderAllows a w) : LawfulAfter a w w' :=
  ⟨.inl hstatus, fun hnot ↦ absurd hallows hnot⟩

theorem lawfulAfter_storeError_iff {k : ℕ} {admitted : Bool}
    (hk : w.calls k = .errorStatus admitted) :
    LawfulAfter (.storeError k : Act Ext) w
        (w.finish k { w.container with status := .error } (.returned (-1) none)) ↔
      LifecycleOk (.storeError k : Act Ext) w := by
  have hstore : { w.container with status := .error } = w.container ↔
      w.container.status = .error :=
    ⟨fun heq ↦ (congrArg OcreContainer.status heq).symm, fun hs ↦ by rw [← hs]⟩
  have hiff : LawfulAfter (.storeError k : Act Ext) w
        (w.finish k { w.container with status := .error } (.returned (-1) none)) ↔
      (.error = w.container.status ∨ StatusMove (.storeError k : Act Ext) w .error) ∧
        (w.calls k = .errorStatus false → w.container.status = .error) := by
    constructor
    · intro hlawful
      exact ⟨hlawful.moved, fun hfalse ↦ hstore.mp (hlawful.refused (not_not.mpr hfalse)).1⟩
    · rintro ⟨hmoved, hrefused⟩
      refine ⟨hmoved, fun hnot ↦ ⟨hstore.mpr (hrefused (not_not.mp hnot)), ?_⟩⟩
      simp [operationCall, CallFails]
  rw [hiff]
  cases admitted <;> simp [StatusMove, LifecycleOk, storesError, beginsWait, hk, eq_comm]

theorem lawfulAfter_wait_iff {a : Act Ext} {k : ℕ} (caller : WaitCaller) (condRc : Int)
    (hcall : operationCall a = some k)
    (hallows : HeaderAllows a w ↔ w.container.status = .stopped ∨
      w.container.status = .running ∨ w.container.status = .paused)
    (hstore : storesError a = none) (hbegins : beginsWait a ≠ none) :
    LawfulAfter a w (w.finish k w.container
        (caller.proceed w.created (waitResult condRc caller.dst w.container))) ↔
      LifecycleOk a w := by
  have hok : LifecycleOk a w ↔ w.container.status ≠ .error := by
    simp [LifecycleOk, hstore, hbegins]
  rw [hok, ← wait_refused_iff caller w.created condRc w.container, ← hallows]
  constructor
  · intro hlawful hnot
    simpa using (hlawful.refused hnot).2 k hcall
  · refine fun hfails ↦ ⟨.inl rfl, fun hnot ↦ ⟨rfl, ?_⟩⟩
    simpa [hcall] using hfails hnot

theorem lawfulAfter_iff_of_step (hw : w.Inv) (h : w.LifecycleInv) {a : Act Ext}
    (hstep : Step V w a w') : LawfulAfter a w w' ↔ LifecycleOk a w := by
  cases hstep with
  | startRefused k calls hk h₁ h₂ =>
      refine iff_of_true ⟨.inl rfl, fun _ ↦ ⟨rfl, ?_⟩⟩ (.of_neither rfl rfl)
      simp [operationCall, CallFails]
  | startFailed k calls attr hk hs => exact iff_of_true (.quiet rfl hs) (.of_neither rfl rfl)
  | createFailed k calls hk hs =>
      exact iff_of_true ⟨.inr ⟨hs, rfl⟩, fun hnot ↦ absurd hs hnot⟩ (.of_neither rfl rfl)
  | threadCreated k calls hk hcalls hs =>
      exact iff_of_true ⟨.inr ⟨hs, rfl⟩, fun hnot ↦ absurd hs hnot⟩ (.of_neither rfl rfl)
  | semWaitFailed k rc tid hk hrc =>
      exact iff_of_true (.quiet rfl trivial) (.of_neither rfl rfl)
  | semWaitPast k rc tid post posts hk hrc hsem =>
      exact iff_of_true (.quiet rfl trivial) (.of_neither rfl rfl)
  | storeError k admitted hk => exact lawfulAfter_storeError_iff hk
  | signal k sig ext hk =>
      refine iff_of_true ⟨?_, fun hnot ↦ ?_⟩ (.of_neither rfl rfl)
      · obtain ⟨ctx, status, heq, hs⟩ := ocreContainerSignal_spec V sig ext w.container
        rw [heq]
        rcases hs with hs | ⟨rfl, hs⟩ | ⟨rfl, hs⟩
        · exact .inl hs
        · exact .inr hs
        · exact .inr hs
      · rw [ocreContainerSignal_refused V hnot]
        simp [ContainerWorld.finish, operationCall, CallFails]
  | getStatus k ret hk => exact iff_of_true (.quiet rfl trivial) (.of_neither rfl rfl)
  | wait k dst condRc hk =>
      exact lawfulAfter_wait_iff (.user dst) condRc rfl .rfl rfl (by rintro ⟨⟩)
  | nestedWait k condRc hk => exact lawfulAfter_wait_iff .start condRc rfl .rfl rfl (by rintro ⟨⟩)
  | spurious k caller run hk => exact iff_of_true (.quiet rfl trivial) (.of_neither rfl rfl)
  | resume k caller run hk => exact iff_of_true (.quiet rfl trivial) (.of_neither rfl rfl)
  | destroyRead k hk hmutex => exact iff_of_true (.quiet rfl trivial) (.of_neither rfl rfl)
  | destroyJoinFailed k hk hexited hjoins =>
      exact iff_of_true (.quiet rfl trivial) (.of_neither rfl rfl)
  | destroyJoined k hk hexited hjoins =>
      exact iff_of_true (.quiet rfl trivial) (.of_neither rfl rfl)
  | destroyStore k hk =>
      exact iff_of_true ⟨.inr ⟨h.storing k hk, rfl⟩, fun hnot ↦ absurd trivial hnot⟩
        (.of_neither rfl rfl)
  | destroyRefused k hk => exact iff_of_true (.quiet rfl trivial) (.of_neither rfl rfl)
  | destroyChecked k hk hs => exact iff_of_true (.quiet rfl trivial) (.of_neither rfl rfl)
  | destroyFree k hk => exact iff_of_true (.quiet rfl trivial) (.of_neither rfl rfl)
  | thread n ext p hp hresult => exact iff_of_true (.quiet rfl trivial) (.of_neither rfl rfl)
  | exit n p result hp hresult =>
      refine iff_of_true ⟨.inr ⟨?_, rfl⟩, fun hnot ↦ absurd trivial hnot⟩ (.of_neither rfl rfl)
      have hn := hw.outstanding_of_live hp
      rcases hw.fits n hn with hs | ⟨hexited, -⟩ | ⟨-, hs⟩
      · exact (h.error hs n hn).elim
      · simp [Thread.isExited, hp] at hexited
      · exact hs

theorem lawful_iff_lifecycleOk (hw : w.Inv) (h : w.LifecycleInv) {a : Act Ext}
    (hnext : w.next V a = some w') : Lawful a w w' ↔ LifecycleOk a w := by
  obtain ⟨-, -, hstep⟩ := next_cases hnext
  by_cases hcollects : collects a = true
  · have hentered : entered a w = w.collect := by simp [entered, hcollects]
    rw [if_pos hcollects] at hstep
    rw [← lifecycleOk_collect_iff hcollects,
      ← lawfulAfter_iff_of_step hw.collect (h.collect hw) hstep]
    refine ⟨fun hlawful ↦ hentered ▸ hlawful.after, fun hafter ↦ ⟨?_, hentered ▸ hafter⟩⟩
    rw [hentered]
    exact w.collect_status
  · have hentered : entered a w = w := by simp [entered, hcollects]
    rw [if_neg hcollects] at hstep
    rw [← lawfulAfter_iff_of_step hw h hstep]
    exact ⟨fun hlawful ↦ hentered ▸ hlawful.after, fun hafter ↦
      ⟨.inl (by rw [hentered]), hentered.symm ▸ hafter⟩⟩

/-- A run is lawful at each of its steps exactly when each meets the condition. -/
theorem runKeeps_lawful_iff {w₀ : ContainerWorld Point Ctx} (h₀ : w₀.Fresh)
    {as : List (Act Ext)} (hrun : (containerSystem V).run w₀ as = some w) :
    (containerSystem V).RunKeeps Lawful w₀ as ↔
      (containerSystem V).RunMeets LifecycleOk w₀ as := by
  refine StepSystem.ReachableWhere.runKeeps_iff_runMeets ?_ (.start h₀) hrun
  intro a v v' hv hnext
  exact lawful_iff_lifecycleOk (.of_reachable hv) (.of_reachable hv) hnext

/-- A pause made twice, a run to its end, a start whose thread creation fails, and
a start refused in ERROR. -/
theorem runKeeps_lawful_of_failing_start :
    ∃ w, (containerSystem promptRuntime).run promptWorld
        [.start 0 {}, .thread 0 (), .semWait 0 0, .signal 1 .pause (), .signal 2 .pause (),
          .signal 3 .unpause (), .wait 4 true 0, .exit 0, .resume 4,
          .start 5 { pthreadCreate := 11 }, .storeError 5, .start 6 {}, .storeError 6] = some w ∧
      w.container.status = .error ∧
      (containerSystem promptRuntime).RunKeeps Lawful promptWorld
        [.start 0 {}, .thread 0 (), .semWait 0 0, .signal 1 .pause (), .signal 2 .pause (),
          .signal 3 .unpause (), .wait 4 true 0, .exit 0, .resume 4,
          .start 5 { pthreadCreate := 11 }, .storeError 5, .start 6 {}, .storeError 6] :=
  ⟨_, rfl, rfl, (runKeeps_lawful_iff promptWorld_fresh rfl).mpr (by decide)⟩

/-- The start of a running container is refused, and stores ERROR over RUNNING. -/
theorem not_runKeeps_lawful_of_refused_start :
    ¬ ∀ w₀ w, ContainerWorld.Fresh w₀ → ∀ as,
      (containerSystem promptRuntime).run w₀ as = some w →
        (containerSystem promptRuntime).RunKeeps Lawful w₀ as := by
  intro h
  have hkeeps := h promptWorld _ promptWorld_fresh
    [.start 0 {}, .thread 0 (), .semWait 0 0, .start 1 {}, .storeError 1] rfl
  have hrefused := ((((hkeeps _ rfl).2 _ rfl).2 _ rfl).2 _ rfl).2
  have hlawful := (hrefused _ rfl).1.after
  have hsame := (hlawful.refused fun hallowed ↦ hallowed rfl).1
  cases congrArg OcreContainer.status hsame

end ContainerWorld

end OcreRuntime
