import OcreRuntime.Container.Interleaving

/-!
# What one step of the container system can do

Every section that queries the status first collects an exited thread. After that
the container changes in few ways, listed by `Step`; the invariants are proved
from this list and never unfold the sections again.
-/

namespace OcreRuntime

section Sections

variable {Point Ctx Ext : Type} (V : OcreRuntimeVtable Point Ctx Ext)

theorem ocreContainerStatusLocked_of_ne_exited {c : OcreContainer Ctx}
    (h : c.status ≠ .exited) (joinRc : Int) :
    ocreContainerStatusLocked joinRc c = (c.status, c) := by
  simp [ocreContainerStatusLocked, h]

theorem ocreContainerStatusLocked_of_join {c : OcreContainer Ctx} (h : c.status = .exited) :
    ocreContainerStatusLocked 0 c = (.stopped, { c with attr := false, status := .stopped }) := by
  simp [ocreContainerStatusLocked, h]

theorem ocreContainerStatusLocked_of_join_fails {c : OcreContainer Ctx} {joinRc : Int}
    (h : c.status = .exited) (hrc : joinRc ≠ 0) :
    ocreContainerStatusLocked joinRc c = (.unknown, c) := by
  simp [ocreContainerStatusLocked, h, hrc]

/-- A start call tests the status of the collected container, and either leaves
the status alone, stores RUNNING without a thread, or creates the thread. -/
theorem ocreContainerStart_cases (joinRc : Int) (calls : StartCalls) (tid : ℕ)
    (c c' : OcreContainer Ctx) (hc : (ocreContainerStatusLocked joinRc c).2 = c') :
    (ocreContainerStart joinRc calls tid c = (.refused, c') ∧
      c'.status ≠ .created ∧ c'.status ≠ .stopped) ∨
    ((c'.status = .created ∨ c'.status = .stopped) ∧
      ((∃ attr, ocreContainerStart joinRc calls tid c =
          (.failed, { c' with attr := attr })) ∨
        ocreContainerStart joinRc calls tid c =
          (.failed, { c' with attr := false, status := .running }) ∨
        (calls = {} ∧ ocreContainerStart joinRc calls tid c =
          (.threadCreated, { c' with attr := true, status := .running, thread := tid })))) := by
  have hstatus : (ocreContainerStatusLocked joinRc c).1 = c'.status ∨
      ((ocreContainerStatusLocked joinRc c).1 = .unknown ∧ c'.status = .exited) := by
    subst hc
    by_cases h : c.status = .exited
    · by_cases hrc : joinRc = 0
      · exact .inl (by simp [hrc, ocreContainerStatusLocked_of_join h])
      · exact .inr (by simp [ocreContainerStatusLocked_of_join_fails h hrc, h])
    · exact .inl (by simp [ocreContainerStatusLocked_of_ne_exited h])
  simp only [ocreContainerStart, hc]
  by_cases hready : (ocreContainerStatusLocked joinRc c).1 ≠ .created ∧
      (ocreContainerStatusLocked joinRc c).1 ≠ .stopped
  · left
    rw [if_pos hready]
    rcases hstatus with hs | ⟨_, hs⟩
    · exact ⟨rfl, hs ▸ hready⟩
    · simp [hs]
  · right
    rw [if_neg hready]
    refine ⟨?_, ?_⟩
    · rcases hstatus with hs | ⟨hs, _⟩
      · rw [hs] at hready
        tauto
      · simp [hs] at hready
    · by_cases hattr : calls.attrInit = 0
      · by_cases hmalloc : calls.malloc = false
        · exact .inl ⟨false, by simp [hattr, hmalloc]⟩
        · by_cases hcreate : calls.pthreadCreate = 0
          · have hcalls : calls = {} := by
              cases calls
              simp_all
            exact .inr (.inr ⟨hcalls, by simp [hattr, hmalloc, hcreate]⟩)
          · exact .inr (.inl (by simp [hattr, hmalloc, hcreate]))
      · exact .inl ⟨c'.attr, by simp [hattr]⟩

/-- What `ocre_container_wait` returns on a container that has been collected. -/
def waitTailResult (dst : Bool) (c : OcreContainer Ctx) : WaitResult :=
  if c.status = .exited then ⟨-1, none⟩
  else ⟨0, if c.status = .stopped ∧ dst then some c.exitCode else none⟩

theorem ocreContainerWaitTail_eq (joinRc : Int) (dst : Bool) (c : OcreContainer Ctx) :
    ocreContainerWaitTail joinRc dst c =
      (waitTailResult dst (ocreContainerStatusLocked joinRc c).2,
        (ocreContainerStatusLocked joinRc c).2) := by
  by_cases h : c.status = .exited
  · by_cases hrc : joinRc = 0
    · subst hrc
      simp [ocreContainerWaitTail, waitTailResult, ocreContainerStatusLocked_of_join h, h]
    · simp [ocreContainerWaitTail, waitTailResult, h,
        ocreContainerStatusLocked_of_join_fails h hrc]
  · by_cases hs : c.status = .stopped <;>
      simp [ocreContainerWaitTail, waitTailResult, h, hs,
        ocreContainerStatusLocked_of_ne_exited h]

/-- What a wait call does on a collected container before it has blocked. -/
def waitResult (condRc : Int) (dst : Bool) (c : OcreContainer Ctx) : Option WaitResult :=
  if c.status = .unknown ∨ c.status = .created then some ⟨-1, none⟩
  else if c.status = .running then
    if condRc ≠ 0 then some ⟨-1, none⟩ else none
  else some (waitTailResult dst c)

theorem ocreContainerWait_eq (joinRc condRc : Int) (dst : Bool) (c : OcreContainer Ctx) :
    ocreContainerWait joinRc condRc dst c =
      (waitResult condRc dst (ocreContainerStatusLocked joinRc c).2,
        (ocreContainerStatusLocked joinRc c).2) := by
  by_cases h : c.status = .exited
  · have hstatus : (ocreContainerStatusLocked joinRc c).2.status = .stopped ∨
        (ocreContainerStatusLocked joinRc c).2.status = .exited := by
      by_cases hrc : joinRc = 0
      · simp [hrc, ocreContainerStatusLocked_of_join h]
      · simp [ocreContainerStatusLocked_of_join_fails h hrc, h]
    rcases hstatus with hs | hs <;>
      simp [ocreContainerWait, waitResult, h, hs, ocreContainerWaitTail_eq]
  · rw [ocreContainerStatusLocked_of_ne_exited h]
    by_cases h₁ : c.status = .unknown ∨ c.status = .created
    · simp [ocreContainerWait, waitResult, h₁]
    · by_cases h₂ : c.status = .running
      · by_cases h₃ : condRc = 0 <;> simp [ocreContainerWait, waitResult, h₂, h₃]
      · simp [ocreContainerWait, waitResult, h₁, h₂, ocreContainerWaitTail_eq,
          ocreContainerStatusLocked_of_ne_exited h]

theorem CallState.ne_destroyStore {st : CallState} (h : st.isRemoving = false) :
    st ≠ .destroyStore := by
  rintro rfl
  simp [isRemoving] at h

@[simp] theorem WaitCaller.finish_isRemoving (caller : WaitCaller) (r : WaitResult) :
    (caller.finish r).isRemoving = false := by
  cases caller <;> rfl

@[simp] theorem WaitCaller.proceed_isRemoving (caller : WaitCaller) (run : ℕ)
    (r : Option WaitResult) : (caller.proceed run r).isRemoving = false := by
  cases r with
  | none => rfl
  | some r => exact caller.finish_isRemoving r

theorem WaitCaller.proceed_ne_semWait (caller : WaitCaller) (run : ℕ) (r : Option WaitResult)
    (tid : ℕ) : caller.proceed run r ≠ .semWait tid := by
  cases r <;> cases caller <;> nofun

/-- A signal changes the runtime context, and the status only from RUNNING to
PAUSED or back. -/
theorem ocreContainerSignal_spec (sig : Signal) (ext : Ext) (c : OcreContainer Ctx) :
    ∃ ctx status, (ocreContainerSignal V sig ext c).2 =
        { c with runtimeContext := ctx, status := status } ∧
      (status = c.status ∨ (sig = .pause ∧ c.status = .running ∧ status = .paused) ∨
        (sig = .unpause ∧ c.status = .paused ∧ status = .running)) := by
  have hbody : ∀ allowed next f, ∃ ctx status,
      (signalLocked allowed f next ext c).2 =
          { c with runtimeContext := ctx, status := status } ∧
        (status = c.status ∨ (c.status = allowed ∧ status = next)) := by
    intro allowed next f
    unfold signalLocked
    split
    · exact ⟨_, _, rfl, .inl rfl⟩
    · rename_i hallowed
      cases f with
      | none => exact ⟨_, _, rfl, .inl rfl⟩
      | some f =>
          dsimp only
          split
          · exact ⟨_, _, rfl, .inl rfl⟩
          · exact ⟨_, _, rfl, .inr ⟨not_not.mp hallowed, rfl⟩⟩
  cases sig with
  | stop =>
      obtain ⟨ctx, status, heq, h | ⟨hallowed, h⟩⟩ := hbody .running .running V.stop
      · exact ⟨ctx, status, heq, .inl h⟩
      · exact ⟨ctx, status, heq, .inl (h.trans hallowed.symm)⟩
  | kill =>
      obtain ⟨ctx, status, heq, h | ⟨hallowed, h⟩⟩ := hbody .running .running (some V.kill)
      · exact ⟨ctx, status, heq, .inl h⟩
      · exact ⟨ctx, status, heq, .inl (h.trans hallowed.symm)⟩
  | pause =>
      obtain ⟨ctx, status, heq, h | h⟩ := hbody .running .paused V.pause
      · exact ⟨ctx, status, heq, .inl h⟩
      · exact ⟨ctx, status, heq, .inr (.inl ⟨rfl, h⟩)⟩
  | unpause =>
      obtain ⟨ctx, status, heq, h | h⟩ := hbody .paused .running V.unpause
      · exact ⟨ctx, status, heq, .inl h⟩
      · exact ⟨ctx, status, heq, .inr (.inr ⟨rfl, h⟩)⟩

/-- The status in which an operation of this family is let through. -/
def Signal.allowed : Signal → OcreContainerStatus
  | stop | kill | pause => .running
  | unpause => .paused

theorem ocreContainerSignal_refused {sig : Signal} {c : OcreContainer Ctx}
    (h : c.status ≠ sig.allowed) (ext : Ext) :
    ocreContainerSignal V sig ext c = (-1, c) := by
  cases sig <;>
    simp_all [ocreContainerSignal, ocreContainerStop, ocreContainerKill, ocreContainerPause,
      ocreContainerUnpause, signalLocked, Signal.allowed]

end Sections

namespace ContainerWorld

open Function (update)

variable {Point Ctx Ext : Type} {V : OcreRuntimeVtable Point Ctx Ext}

@[simp] theorem finish_calls (w : ContainerWorld Point Ctx) (k : ℕ) (c : OcreContainer Ctx)
    (st : CallState) : (w.finish k c st).calls k = st :=
  Function.update_self ..

theorem collect_of_ne_exited {w : ContainerWorld Point Ctx} (h : w.container.status ≠ .exited) :
    w.collect = w := by
  simp [collect, h]

theorem collect_container (w : ContainerWorld Point Ctx) :
    w.collect.container = (ocreContainerStatusLocked w.joinRc w.container).2 := by
  by_cases h : w.container.status = .exited
  · simp [collect, h]
  · simp [collect, h, ocreContainerStatusLocked_of_ne_exited h]

@[simp] theorem collect_created (w : ContainerWorld Point Ctx) :
    w.collect.created = w.created := by
  unfold collect; split <;> rfl

@[simp] theorem collect_calls (w : ContainerWorld Point Ctx) : w.collect.calls = w.calls := by
  unfold collect; split <;> rfl

@[simp] theorem collect_contextMutex (w : ContainerWorld Point Ctx) :
    w.collect.contextMutex = w.contextMutex := by
  unfold collect; split <;> rfl

@[simp] theorem collect_destroyed (w : ContainerWorld Point Ctx) :
    w.collect.destroyed = w.destroyed := by
  unfold collect; split <;> rfl

theorem joinThread_phase (w : ContainerWorld Point Ctx) (m n : ℕ) :
    (w.joinThread m n).phase = (w.threads n).phase := by
  by_cases hnm : n = m
  · subst hnm
    simp [joinThread]
  · simp [joinThread, hnm]

theorem collect_phase (w : ContainerWorld Point Ctx) (n : ℕ) :
    (w.collect.threads n).phase = (w.threads n).phase := by
  unfold collect
  split
  · exact w.joinThread_phase _ n
  · rfl

theorem joinThread_posts (w : ContainerWorld Point Ctx) (m n : ℕ) :
    (w.joinThread m n).posts = (w.threads n).posts := by
  by_cases hnm : n = m
  · subst hnm
    simp [joinThread]
  · simp [joinThread, hnm]

theorem collect_posts (w : ContainerWorld Point Ctx) (n : ℕ) :
    (w.collect.threads n).posts = (w.threads n).posts := by
  unfold collect
  split
  · exact w.joinThread_posts _ n
  · rfl

theorem collect_semStart (w : ContainerWorld Point Ctx) :
    w.collect.container.semStart = w.container.semStart := by
  rw [collect_container]
  unfold ocreContainerStatusLocked
  split_ifs <;> rfl

theorem collect_exitCode (w : ContainerWorld Point Ctx) :
    w.collect.container.exitCode = w.container.exitCode := by
  rw [collect_container]
  unfold ocreContainerStatusLocked
  split_ifs <;> rfl

theorem collect_status (w : ContainerWorld Point Ctx) :
    w.collect.container.status = w.container.status ∨
      (w.container.status = .exited ∧ w.collect.container.status = .stopped) := by
  rw [collect_container]
  unfold ocreContainerStatusLocked
  split_ifs with h <;> simp [h]

/-- The steps that query the status under the mutex, and so collect first. -/
def collects : Act Ext → Bool
  | .start .. | .getStatus _ | .wait .. | .nestedWait .. | .resume _ => true
  | _ => false

/-- The state in which a step finds the container, an exited thread collected. -/
def entered (a : Act Ext) (w : ContainerWorld Point Ctx) : ContainerWorld Point Ctx :=
  if collects a then w.collect else w

/-- The call whose last step this is, if it stores ERROR. -/
def storesError : Act Ext → Option ℕ
  | .storeError k => some k
  | _ => none

/-- The step begins a wait, with what `pthread_cond_wait` returns if it is called. -/
def beginsWait : Act Ext → Option Int
  | .wait _ _ condRc | .nestedWait _ condRc => some condRc
  | _ => none

/-- The steps by their effect, with their guards. For a step that collects, `w` is
the state after the collection. -/
inductive Step (V : OcreRuntimeVtable Point Ctx Ext) (w : ContainerWorld Point Ctx) :
    Act Ext → ContainerWorld Point Ctx → Prop
  | startRefused (k : ℕ) (calls : StartCalls) :
      w.calls k = .idle → w.container.status ≠ .created → w.container.status ≠ .stopped →
      Step V w (.start k calls) (w.finish k w.container (.errorStatus false))
  | startFailed (k : ℕ) (calls : StartCalls) (attr : Bool) :
      w.calls k = .idle → w.container.status = .created ∨ w.container.status = .stopped →
      Step V w (.start k calls) (w.finish k { w.container with attr := attr } (.errorStatus true))
  | createFailed (k : ℕ) (calls : StartCalls) :
      w.calls k = .idle → w.container.status = .created ∨ w.container.status = .stopped →
      Step V w (.start k calls)
        (w.finish k { w.container with attr := false, status := .running } (.errorStatus true))
  | threadCreated (k : ℕ) (calls : StartCalls) :
      w.calls k = .idle → calls = {} →
      w.container.status = .created ∨ w.container.status = .stopped →
      Step V w (.start k calls)
        { w.finish k { w.container with attr := true, status := .running, thread := w.created }
            (.semWait w.created) with
          threads := update w.threads w.created { phase := .live V.threadEntry }
          created := w.created + 1 }
  | semWaitFailed (k : ℕ) (rc : Int) (tid : ℕ) :
      w.calls k = .semWait tid → rc ≠ 0 →
      Step V w (.semWait k rc) (w.finish k w.container (.errorStatus true))
  | semWaitPast (k : ℕ) (rc : Int) (tid post : ℕ) (posts : List ℕ) :
      w.calls k = .semWait tid → rc = 0 → w.container.semStart = post :: posts →
      Step V w (.semWait k rc) (w.finish k { w.container with semStart := posts }
        (if w.container.detached then .returned 0 none else .waitCall))
  | storeError (k : ℕ) (admitted : Bool) :
      w.calls k = .errorStatus admitted →
      Step V w (.storeError k)
        (w.finish k { w.container with status := .error } (.returned (-1) none))
  | signal (k : ℕ) (sig : Signal) (ext : Ext) :
      w.calls k = .idle →
      Step V w (.signal k sig ext) (w.finish k (ocreContainerSignal V sig ext w.container).2
        (.returned (ocreContainerSignal V sig ext w.container).1 none))
  | getStatus (k : ℕ) (ret : Int) :
      w.calls k = .idle →
      Step V w (.getStatus k) (w.finish k w.container (.returned ret none))
  | wait (k : ℕ) (dst : Bool) (condRc : Int) :
      w.calls k = .idle →
      Step V w (.wait k dst condRc) (w.finish k w.container
        ((WaitCaller.user dst).proceed w.created (waitResult condRc dst w.container)))
  | nestedWait (k : ℕ) (condRc : Int) :
      w.calls k = .waitCall →
      Step V w (.nestedWait k condRc) (w.finish k w.container
        (WaitCaller.start.proceed w.created (waitResult condRc false w.container)))
  | spurious (k : ℕ) (caller : WaitCaller) (run : ℕ) :
      w.calls k = .condWait caller run →
      Step V w (.spurious k) (w.finish k w.container (.woken caller run))
  | resume (k : ℕ) (caller : WaitCaller) (run : ℕ) :
      w.calls k = .woken caller run →
      Step V w (.resume k) (w.finish k w.container
        (caller.finish (waitTailResult caller.dst w.container)))
  | destroyRead (k : ℕ) :
      w.calls k = .idle → w.contextMutex = none →
      Step V w (.destroyRead k) { w.finish k w.container
          (if w.container.status = .exited then .destroyJoin else .destroyCheck) with
        contextMutex := some k }
  | destroyJoinFailed (k : ℕ) :
      w.calls k = .destroyJoin → (w.threads w.container.thread).isExited →
      (w.threads w.container.thread).joins ≠ 0 →
      Step V w (.destroyJoin k) { w.finish k w.container (.returned (-1) none) with
        threads := w.joinThread w.container.thread
        contextMutex := none }
  | destroyJoined (k : ℕ) :
      w.calls k = .destroyJoin → (w.threads w.container.thread).isExited →
      (w.threads w.container.thread).joins = 0 →
      Step V w (.destroyJoin k) { w.finish k w.container .destroyStore with
        threads := w.joinThread w.container.thread }
  | destroyStore (k : ℕ) :
      w.calls k = .destroyStore →
      Step V w (.destroyStore k)
        (w.finish k { w.container with attr := false, status := .stopped } .destroyCheck)
  | destroyRefused (k : ℕ) :
      w.calls k = .destroyCheck → w.container.status ≠ .stopped →
      w.container.status ≠ .created → w.container.status ≠ .error →
      Step V w (.destroyCheck k) { w.finish k w.container (.returned (-1) none) with
        contextMutex := none }
  | destroyChecked (k : ℕ) :
      w.calls k = .destroyCheck → w.container.status = .stopped ∨
        w.container.status = .created ∨ w.container.status = .error →
      Step V w (.destroyCheck k) (w.finish k w.container .destroyFree)
  | destroyFree (k : ℕ) :
      w.calls k = .destroyFree →
      Step V w (.destroyFree k) { w.finish k w.container (.returned 0 none) with
        contextMutex := none
        destroyed := true }
  | thread (n : ℕ) (ext : Ext) (p : Point) :
      (w.threads n).phase = .live p → V.threadResult p = none →
      Step V w (.thread n ext) (w.threadStep V n ext p)
  | exit (n : ℕ) (p : Point) (result : Int) :
      (w.threads n).phase = .live p → V.threadResult p = some result →
      Step V w (.exit n) (w.exitStep n result)

theorem step_of_startStep {k : ℕ} {calls : StartCalls} {w : ContainerWorld Point Ctx}
    (hk : w.calls k = .idle) : Step V w.collect (.start k calls) (w.startStep V k calls) := by
  have hk' : w.collect.calls k = .idle := by simpa using hk
  rcases ocreContainerStart_cases w.joinRc calls w.created w.container w.collect.container
    w.collect_container.symm with ⟨hr, h₁, h₂⟩ | ⟨hs, ⟨attr, hr⟩ | hr | ⟨hcalls, hr⟩⟩
  · simpa [startStep, hr] using Step.startRefused k calls hk' h₁ h₂
  · simpa [startStep, hr] using Step.startFailed k calls attr hk' hs
  · simpa [startStep, hr] using Step.createFailed k calls hk' hs
  · simpa [startStep, hr] using Step.threadCreated k calls hk' hcalls hs

theorem step_of_semWaitStep {k tid : ℕ} {rc : Int} {w w' : ContainerWorld Point Ctx}
    (hk : w.calls k = .semWait tid) (h : w.semWaitStep k rc = some w') :
    Step V w (.semWait k rc) w' := by
  unfold semWaitStep at h
  by_cases hrc : rc = 0
  · rw [if_neg (not_not.mpr hrc)] at h
    cases hposts : w.container.semStart with
    | nil => simp [hposts] at h
    | cons post posts =>
        rw [hposts] at h
        obtain rfl := Option.some.inj h
        exact .semWaitPast k rc tid post posts hk hrc hposts
  · rw [if_pos hrc] at h
    obtain rfl := Option.some.inj h
    exact .semWaitFailed k rc tid hk hrc

theorem next_cases {a : Act Ext} {w w' : ContainerWorld Point Ctx}
    (h : w.next V a = some w') :
    w.destroyed = false ∧ (collects a = true → w.canCollect = true) ∧
      Step V (if collects a then w.collect else w) a w' := by
  unfold next at h
  split at h
  · cases h
  · rename_i hdestroyed
    refine ⟨Bool.not_eq_true _ ▸ hdestroyed, ?_⟩
    cases a with
    | start k calls =>
        obtain ⟨⟨hk, hcan⟩, heq⟩ := Option.ite_none_right_eq_some.mp h
        cases heq
        exact ⟨fun _ ↦ hcan, step_of_startStep hk⟩
    | getStatus k =>
        obtain ⟨⟨hk, hcan⟩, heq⟩ := Option.ite_none_right_eq_some.mp h
        refine ⟨fun _ ↦ hcan, ?_⟩
        rw [← Option.some.inj heq, ocreContainerGetStatus, ← collect_container]
        exact .getStatus k _ ((congrFun w.collect_calls k).trans hk)
    | wait k dst condRc =>
        obtain ⟨⟨hk, hcan⟩, heq⟩ := Option.ite_none_right_eq_some.mp h
        refine ⟨fun _ ↦ hcan, ?_⟩
        rw [← Option.some.inj heq, waitStep, ocreContainerWait_eq, ← collect_container]
        rw [← w.collect_created]
        exact .wait k dst condRc ((congrFun w.collect_calls k).trans hk)
    | nestedWait k condRc =>
        obtain ⟨⟨hk, hcan⟩, heq⟩ := Option.ite_none_right_eq_some.mp h
        refine ⟨fun _ ↦ hcan, ?_⟩
        rw [← Option.some.inj heq, waitStep, ocreContainerWait_eq, ← collect_container]
        rw [← w.collect_created]
        exact .nestedWait k condRc ((congrFun w.collect_calls k).trans hk)
    | resume k =>
        dsimp only at h
        split at h
        · rename_i caller run hk
          obtain ⟨hcan, heq⟩ := Option.ite_none_right_eq_some.mp h
          refine ⟨fun _ ↦ hcan, ?_⟩
          rw [← Option.some.inj heq, resumeStep, ocreContainerWaitTail_eq, ← collect_container]
          exact .resume k caller run ((congrFun w.collect_calls k).trans hk)
        · cases h
    | semWait k rc =>
        refine ⟨nofun, ?_⟩
        dsimp only at h
        split at h
        · rename_i tid hk
          exact step_of_semWaitStep hk h
        · cases h
    | storeError k =>
        refine ⟨nofun, ?_⟩
        dsimp only at h
        split at h
        · rename_i admitted hk
          cases h
          exact .storeError k admitted hk
        · cases h
    | signal k sig ext =>
        obtain ⟨hk, heq⟩ := Option.ite_none_right_eq_some.mp h
        cases heq
        exact ⟨nofun, .signal k sig ext hk⟩
    | spurious k =>
        refine ⟨nofun, ?_⟩
        dsimp only at h
        split at h
        · rename_i caller run hk
          cases h
          exact .spurious k caller run hk
        · cases h
    | destroyRead k =>
        obtain ⟨⟨hk, hmutex⟩, heq⟩ := Option.ite_none_right_eq_some.mp h
        cases heq
        exact ⟨nofun, .destroyRead k hk hmutex⟩
    | destroyJoin k =>
        obtain ⟨⟨hk, hexited⟩, heq⟩ := Option.ite_none_right_eq_some.mp h
        refine ⟨nofun, ?_⟩
        rw [← Option.some.inj heq]
        change Step V w _ _
        by_cases hjoins : (w.threads w.container.thread).joins = 0
        · rw [joinRc, if_pos hjoins, if_neg (not_not.mpr rfl)]
          exact .destroyJoined k hk hexited hjoins
        · rw [joinRc, if_neg hjoins, if_pos (by decide)]
          exact .destroyJoinFailed k hk hexited hjoins
    | destroyStore k =>
        obtain ⟨hk, heq⟩ := Option.ite_none_right_eq_some.mp h
        cases heq
        exact ⟨nofun, .destroyStore k hk⟩
    | destroyCheck k =>
        obtain ⟨hk, heq⟩ := Option.ite_none_right_eq_some.mp h
        refine ⟨nofun, ?_⟩
        rw [← Option.some.inj heq]
        by_cases hs : w.container.status ≠ .stopped ∧ w.container.status ≠ .created ∧
            w.container.status ≠ .error
        · rw [if_pos hs]
          exact .destroyRefused k hk hs.1 hs.2.1 hs.2.2
        · rw [if_neg hs]
          exact .destroyChecked k hk (by tauto)
    | destroyFree k =>
        obtain ⟨hk, heq⟩ := Option.ite_none_right_eq_some.mp h
        cases heq
        exact ⟨nofun, .destroyFree k hk⟩
    | thread n ext =>
        refine ⟨nofun, ?_⟩
        dsimp only at h
        split at h
        · rename_i p hp
          obtain ⟨hresult, heq⟩ := Option.ite_none_right_eq_some.mp h
          cases heq
          exact .thread n ext p hp hresult
        · cases h
    | exit n =>
        refine ⟨nofun, ?_⟩
        dsimp only at h
        split at h
        · rename_i p hp
          obtain ⟨result, hresult, heq⟩ := Option.map_eq_some_iff.mp h
          cases heq
          exact .exit n p result hp hresult
        · cases h

end ContainerWorld

end OcreRuntime
