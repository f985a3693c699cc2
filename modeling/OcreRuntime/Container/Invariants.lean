import Mathlib.Tactic.Common
import OcreRuntime.Container.Steps

/-!
# Invariants of every run

At most the last created thread is still to be joined, and the status tells how
far that thread has come, except that ERROR tells nothing. These hold in every
run, whatever the callers do.
-/

namespace OcreRuntime

namespace ContainerWorld

open Function (update)

variable {Point Ctx Ext : Type} {V : OcreRuntimeVtable Point Ctx Ext}
  {w w' : ContainerWorld Point Ctx}

/-- Thread `n` has been created and no `pthread_join` has been called on it. -/
def Outstanding (w : ContainerWorld Point Ctx) (n : ℕ) : Prop :=
  n < w.created ∧ (w.threads n).joins = 0

theorem threadStep_joins (n : ℕ) (ext : Ext) (p : Point) (m : ℕ) :
    ((w.threadStep V n ext p).threads m).joins = (w.threads m).joins := by
  by_cases hm : m = n <;> simp [threadStep, hm]

theorem exitStep_joins (n : ℕ) (result : Int) (m : ℕ) :
    ((w.exitStep n result).threads m).joins = (w.threads m).joins := by
  by_cases hm : m = n <;> simp [exitStep, hm]

theorem threadStep_outstanding (n : ℕ) (ext : Ext) (p : Point) (m : ℕ) :
    (w.threadStep V n ext p).Outstanding m ↔ w.Outstanding m :=
  and_congr_right fun _ ↦ by rw [threadStep_joins]

theorem exitStep_outstanding (n : ℕ) (result : Int) (m : ℕ) :
    (w.exitStep n result).Outstanding m ↔ w.Outstanding m :=
  and_congr_right fun _ ↦ by rw [exitStep_joins]

/-- What the status says about a thread that is still to be joined. -/
def StatusFits (status : OcreContainerStatus) (exited : Bool) : Prop :=
  status = .error ∨ (exited = true ∧ status = .exited) ∨
    (exited = false ∧ (status = .running ∨ status = .paused))

structure ThreadInv (w : ContainerWorld Point Ctx) : Prop where
  absent : ∀ n, w.created ≤ n → w.threads n = {}
  handle : 0 < w.created → w.container.thread + 1 = w.created
  earlier : ∀ n, w.Outstanding n → n + 1 = w.created
  joined : ∀ n, (w.threads n).joins ≠ 0 → (w.threads n).isExited = true
  fits : ∀ n, w.Outstanding n → StatusFits w.container.status (w.threads n).isExited
  exited : w.container.status = .exited →
    0 < w.created ∧ (w.threads w.container.thread).isExited = true
  stopped : w.container.status = .stopped → 0 < w.created
  known : w.container.status ≠ .unknown
  fresh : w.container.status = .created → w.created = 0

namespace ThreadInv

theorem canCollect (h : w.ThreadInv) : w.canCollect = true := by
  by_cases hs : w.container.status = .exited
  · simp [ContainerWorld.canCollect, (h.exited hs).2]
  · simp [ContainerWorld.canCollect, hs]

theorem lt_created_of_live (h : w.ThreadInv) {n : ℕ} {p : Point}
    (hp : (w.threads n).phase = .live p) : n < w.created := by
  by_contra hn
  simp [h.absent n (Nat.le_of_not_lt hn)] at hp

theorem lt_created_of_isExited (h : w.ThreadInv) {n : ℕ}
    (hn : (w.threads n).isExited = true) : n < w.created := by
  by_contra hlt
  simp [h.absent n (Nat.le_of_not_lt hlt), Thread.isExited] at hn

theorem outstanding_of_live (h : w.ThreadInv) {n : ℕ} {p : Point}
    (hp : (w.threads n).phase = .live p) : w.Outstanding n := by
  refine ⟨h.lt_created_of_live hp, ?_⟩
  by_contra hjoins
  simpa [Thread.isExited, hp] using h.joined n hjoins

/-- Only the thread on the handle can be live. -/
theorem thread_eq_of_live (h : w.ThreadInv) {n : ℕ} {p : Point}
    (hp : (w.threads n).phase = .live p) : w.container.thread = n := by
  have := h.earlier n (h.outstanding_of_live hp)
  have := h.handle (by omega)
  omega

theorem not_outstanding_of_ready (h : w.ThreadInv)
    (hs : w.container.status = .created ∨ w.container.status = .stopped) (n : ℕ) :
    ¬ w.Outstanding n := by
  intro hn
  rcases h.fits n hn with hf | ⟨_, hf⟩ | ⟨_, hf⟩ <;> rcases hs with hs | hs <;> simp_all

/-- The invariant looks at the status, the handle and the threads only, and the
status may become any that fits the threads. -/
theorem of_status (h : w.ThreadInv) (hthreads : w'.threads = w.threads)
    (hcreated : w'.created = w.created) (hthread : w'.container.thread = w.container.thread)
    (hfits : ∀ n, w.Outstanding n →
      StatusFits w'.container.status (w.threads n).isExited)
    (hexited : w'.container.status = .exited → w.container.status = .exited)
    (hstopped : w'.container.status = .stopped → 0 < w.created)
    (hknown : w'.container.status ≠ .unknown)
    (hfresh : w'.container.status = .created → w.container.status = .created) :
    w'.ThreadInv := by
  have hout : ∀ n, w'.Outstanding n ↔ w.Outstanding n := by
    simp [Outstanding, hthreads, hcreated]
  refine ⟨?_, ?_, ?_, ?_, ?_, ?_, hcreated ▸ hstopped, hknown, ?_⟩
  · simpa only [hthreads, hcreated] using h.absent
  · simpa only [hcreated, hthread] using h.handle
  · simpa only [hout, hcreated] using h.earlier
  · simpa only [hthreads] using h.joined
  · simpa only [hout, hthreads] using hfits
  · intro hs
    simpa only [hthreads, hcreated, hthread] using h.exited (hexited hs)
  · intro hs
    simpa only [hcreated] using h.fresh (hfresh hs)

theorem congr (h : w.ThreadInv) (hthreads : w'.threads = w.threads)
    (hcreated : w'.created = w.created) (hstatus : w'.container.status = w.container.status)
    (hthread : w'.container.thread = w.container.thread) : w'.ThreadInv :=
  h.of_status hthreads hcreated hthread (hstatus ▸ h.fits) (hstatus ▸ id)
    (hstatus ▸ h.stopped) (hstatus ▸ h.known) (hstatus ▸ id)

theorem joinThread_joins_eq_zero {n m : ℕ} (hn : (w.joinThread m n).joins = 0) :
    n ≠ m ∧ (w.threads n).joins = 0 := by
  by_cases hnm : n = m
  · subst hnm
    simp [joinThread] at hn
  · exact ⟨hnm, by simpa [joinThread, hnm] using hn⟩

theorem joinThread_isExited (m n : ℕ) :
    (w.joinThread m n).isExited = (w.threads n).isExited := by
  by_cases hnm : n = m
  · subst hnm
    simp [joinThread, Thread.isExited]
  · simp [joinThread, hnm]

/-- A call of `pthread_join` on the handle, by a section or by a removal, once
the thread has exited. -/
theorem join (h : w.ThreadInv) (hexited : (w.threads w.container.thread).isExited = true)
    (hthreads : w'.threads = w.joinThread w.container.thread)
    (hcreated : w'.created = w.created) (hthread : w'.container.thread = w.container.thread)
    (hstatus : w'.container.status = w.container.status ∨ w'.container.status = .stopped) :
    w'.ThreadInv := by
  have hlt := h.lt_created_of_isExited hexited
  have hnone : ∀ n, ¬ w'.Outstanding n := by
    rintro n ⟨hn, hjoins⟩
    rw [hthreads] at hjoins
    rw [hcreated] at hn
    obtain ⟨hne, hj⟩ := joinThread_joins_eq_zero hjoins
    have := h.earlier n ⟨hn, hj⟩
    have := h.handle (by omega)
    omega
  refine ⟨?_, ?_, fun n hn ↦ absurd hn (hnone n), ?_, fun n hn ↦ absurd hn (hnone n), ?_,
    fun _ ↦ by omega, ?_, ?_⟩
  · intro n hn
    rw [hcreated] at hn
    have hne : n ≠ w.container.thread := by omega
    simpa [hthreads, joinThread, hne] using h.absent n hn
  · rw [hcreated, hthread]
    exact h.handle
  · intro n hn
    rw [hthreads, joinThread_isExited]
    by_cases hnm : n = w.container.thread
    · exact hnm ▸ hexited
    · exact h.joined n (by simpa [hthreads, joinThread, hnm] using hn)
  · intro hs
    rw [hcreated, hthreads, hthread, joinThread_isExited]
    exact ⟨by omega, hexited⟩
  · rcases hstatus with hs | hs
    · exact hs ▸ h.known
    · simp [hs]
  · intro hs
    rcases hstatus with hs' | hs'
    · exact hcreated ▸ h.fresh (hs' ▸ hs)
    · simp [hs'] at hs

theorem collect (h : w.ThreadInv) : w.collect.ThreadInv := by
  by_cases hs : w.container.status = .exited
  · refine h.join (h.exited hs).2 (by simp [ContainerWorld.collect, hs])
      w.collect_created ?_ ?_
    · rw [collect_container]
      unfold ocreContainerStatusLocked
      split_ifs <;> rfl
    · rw [collect_container]
      unfold ocreContainerStatusLocked
      split_ifs <;> simp
  · rwa [collect_of_ne_exited hs]

theorem outstanding_of_collect {n : ℕ} (hn : w.collect.Outstanding n) : w.Outstanding n := by
  refine ⟨by simpa using hn.1, ?_⟩
  have hjoins := hn.2
  unfold ContainerWorld.collect at hjoins
  split at hjoins
  · exact (joinThread_joins_eq_zero hjoins).2
  · exact hjoins

theorem threadCreated (h : w.ThreadInv)
    (hs : w.container.status = .created ∨ w.container.status = .stopped)
    (hthreads : w'.threads = update w.threads w.created { phase := .live V.threadEntry })
    (hcreated : w'.created = w.created + 1) (hthread : w'.container.thread = w.created)
    (hstatus : w'.container.status = .running) : w'.ThreadInv := by
  have hlast : ∀ n, w'.Outstanding n → n = w.created := by
    rintro n ⟨hn, hjoins⟩
    by_contra hne
    refine h.not_outstanding_of_ready hs n ⟨by omega, ?_⟩
    simpa [hthreads, hne] using hjoins
  refine ⟨?_, ?_, ?_, ?_, ?_, by simp [hstatus], by simp [hstatus], by simp [hstatus],
    by simp [hstatus]⟩
  · intro n hn
    have hne : n ≠ w.created := by omega
    simpa [hthreads, hne] using h.absent n (by omega)
  · omega
  · intro n hn
    rw [hlast n hn, hcreated]
  · intro n hn
    by_cases hne : n = w.created
    · subst hne
      simp [hthreads] at hn
    · simpa [hthreads, hne] using h.joined n (by simpa [hthreads, hne] using hn)
  · intro n hn
    rw [hlast n hn]
    simp [StatusFits, hstatus, hthreads, Thread.isExited]

theorem threadStep (h : w.ThreadInv) {n : ℕ} {ext : Ext} {p : Point}
    (hp : (w.threads n).phase = .live p) : (w.threadStep V n ext p).ThreadInv := by
  have hexited : ∀ m, ((w.threadStep V n ext p).threads m).isExited =
      (w.threads m).isExited := by
    intro m
    by_cases hm : m = n
    · subst hm
      simp [ContainerWorld.threadStep, Thread.isExited, hp]
    · simp [ContainerWorld.threadStep, hm]
  have hout := fun m ↦ (threadStep_outstanding (V := V) (w := w) n ext p m).mp
  have hlt := h.lt_created_of_live hp
  refine ⟨?_, h.handle, fun m hm ↦ h.earlier m (hout m hm), ?_, ?_, ?_, h.stopped, h.known,
    h.fresh⟩
  · intro m hm
    change w.created ≤ m at hm
    have hne : m ≠ n := by omega
    simpa [ContainerWorld.threadStep, hne] using h.absent m hm
  · intro m hm
    rw [hexited]
    exact h.joined m (threadStep_joins n ext p m ▸ hm)
  · intro m hm
    rw [hexited]
    exact h.fits m (hout m hm)
  · intro hs
    rw [hexited]
    exact h.exited hs

theorem exitStep (h : w.ThreadInv) {n : ℕ} {p : Point} (result : Int)
    (hp : (w.threads n).phase = .live p) : (w.exitStep n result).ThreadInv := by
  have hn := h.outstanding_of_live hp
  have hthread := h.thread_eq_of_live hp
  have hout := fun m ↦ (exitStep_outstanding (w := w) n result m).mp
  refine ⟨?_, h.handle, fun m hm ↦ h.earlier m (hout m hm), ?_, ?_, ?_, by rintro ⟨⟩, ?_, ?_⟩
  · intro m hm
    change w.created ≤ m at hm
    have hne : m ≠ n := by have := hn.1; omega
    simpa [ContainerWorld.exitStep, hne] using h.absent m hm
  · intro m hm
    by_cases hne : m = n
    · subst hne
      simp [ContainerWorld.exitStep, Thread.isExited]
    · simpa [ContainerWorld.exitStep, hne] using
        h.joined m (exitStep_joins n result m ▸ hm)
  · intro m hm
    have hmn : m = n := by
      have := h.earlier m (hout m hm)
      have := h.earlier n hn
      omega
    subst hmn
    simp [StatusFits, ContainerWorld.exitStep, containerThreadExit, Thread.isExited]
  · intro _
    refine ⟨Nat.zero_lt_of_lt hn.1, ?_⟩
    simp [ContainerWorld.exitStep, containerThreadExit, hthread, Thread.isExited]
  · simp [ContainerWorld.exitStep, containerThreadExit]
  · simp [ContainerWorld.exitStep, containerThreadExit]

end ThreadInv

theorem isRemoving_broadcast (calls : ℕ → CallState) (k : ℕ) :
    (broadcast calls k).isRemoving = (calls k).isRemoving := by
  unfold broadcast
  split
  · rename_i hk
    simp [hk, CallState.isRemoving]
  · rfl

theorem broadcast_eq_iff {calls : ℕ → CallState} {k : ℕ} {st : CallState}
    (hst : st.isRemoving = true) : broadcast calls k = st ↔ calls k = st := by
  unfold broadcast
  split
  · rename_i hk
    rw [hk]
    constructor <;> rintro rfl <;> simp [CallState.isRemoving] at hst
  · rfl

/-- The last thread has been joined and its exit is still what the status shows,
unless ERROR has been stored over it. -/
def Settled (w : ContainerWorld Point Ctx) : Prop :=
  0 < w.created ∧ (∀ n, ¬ w.Outstanding n) ∧
    (w.container.status = .exited ∨ w.container.status = .error)

structure Inv (w : ContainerWorld Point Ctx) : Prop extends ThreadInv w where
  removing : ∀ k, (w.calls k).isRemoving = true → w.contextMutex = some k
  storing : ∀ k, w.calls k = .destroyStore → w.Settled

namespace Inv

theorem of_fresh (h : w.Fresh) : w.Inv where
  absent n _ := h.threads n
  handle hpos := by simp [h.created] at hpos
  earlier n hn := by simp [Outstanding, h.created] at hn
  joined n hn := by simp [h.threads] at hn
  fits n hn := by simp [Outstanding, h.created] at hn
  exited hs := by simp [h.status] at hs
  stopped hs := by simp [h.status] at hs
  known := by simp [h.status]
  fresh _ := h.created
  removing k hk := by simp [h.calls, CallState.isRemoving] at hk
  storing k hk := by simp [h.calls] at hk

/-- Only the holder of the context mutex is inside a removal. -/
theorem eq_of_removing (h : w.Inv) {j k : ℕ} (hj : (w.calls j).isRemoving = true)
    (hk : (w.calls k).isRemoving = true) : j = k :=
  Option.some.inj ((h.removing j hj).symm.trans (h.removing k hk))

theorem isRemoving_eq_false (h : w.Inv) (hmutex : w.contextMutex = none) (k : ℕ) :
    (w.calls k).isRemoving = false := by
  by_contra hk
  simpa [hmutex] using h.removing k (Bool.not_eq_false _ ▸ hk)

theorem finish (h : w.Inv) {k : ℕ} {st : CallState} (hthread : w'.ThreadInv)
    (hcalls : w'.calls = update w.calls k st) (hmutex : w'.contextMutex = w.contextMutex)
    (hst : st.isRemoving = false) (hsettled : w.Settled → w'.Settled) : w'.Inv where
  toThreadInv := hthread
  removing j hj := by
    by_cases hjk : j = k
    · subst hjk
      simp [hcalls, hst] at hj
    · rw [hmutex]
      exact h.removing j (by simpa [hcalls, hjk] using hj)
  storing j hj := by
    by_cases hjk : j = k
    · subst hjk
      rw [hcalls, Function.update_self] at hj
      simp [hj, CallState.isRemoving] at hst
    · exact hsettled (h.storing j (by simpa [hcalls, hjk] using hj))

theorem finishRemoval (h : w.Inv) {k : ℕ} {st : CallState} (hthread : w'.ThreadInv)
    (hcalls : w'.calls = update w.calls k st)
    (hk : (w.calls k).isRemoving = true ∨ w.contextMutex = none)
    (hst : st.isRemoving = true → w'.contextMutex = some k)
    (hstore : st = .destroyStore → w'.Settled) : w'.Inv := by
  have hother : ∀ j, j ≠ k → (w.calls j).isRemoving = true → False := by
    intro j hjk hj
    rcases hk with hk | hk
    · exact hjk (h.eq_of_removing hj hk)
    · simpa [hk] using h.removing j hj
  refine ⟨hthread, ?_, ?_⟩
  · intro j hj
    by_cases hjk : j = k
    · subst hjk
      exact hst (by simpa [hcalls] using hj)
    · exact (hother j hjk (by simpa [hcalls, hjk] using hj)).elim
  · intro j hj
    by_cases hjk : j = k
    · subst hjk
      exact hstore (by simpa [hcalls] using hj)
    · refine (hother j hjk ?_).elim
      rw [hcalls, Function.update_of_ne hjk] at hj
      simp [hj, CallState.isRemoving]

/-- Once a removal has joined the thread, the join of a section fails. -/
theorem collect_container_of_storing (h : w.Inv) {k : ℕ} (hk : w.calls k = .destroyStore) :
    w.collect.container = w.container := by
  obtain ⟨hpos, hjoined, -⟩ := h.storing k hk
  rw [collect_container]
  by_cases hexited : w.container.status = .exited
  · have hhandle := h.handle hpos
    have hrc : w.joinRc ≠ 0 := by
      rw [joinRc, if_neg fun hj ↦ hjoined _ ⟨by omega, hj⟩]
      decide
    rw [ocreContainerStatusLocked_of_join_fails hexited hrc]
  · rw [ocreContainerStatusLocked_of_ne_exited hexited]

theorem collect (h : w.Inv) : w.collect.Inv where
  toThreadInv := h.toThreadInv.collect
  removing k hk := by simpa using h.removing k (by simpa using hk)
  storing k hk := by
    have hk' : w.calls k = .destroyStore := by simpa using hk
    obtain ⟨hpos, hjoined, hs⟩ := h.storing k hk'
    refine ⟨by simpa using hpos, fun n hn ↦ hjoined n (ThreadInv.outstanding_of_collect hn), ?_⟩
    rwa [h.collect_container_of_storing hk']

theorem step (h : w.Inv) {a : Act Ext} (hstep : Step V w a w') : w'.Inv := by
  cases hstep with
  | startRefused k calls hk =>
      exact h.finish (h.congr rfl rfl rfl rfl) rfl rfl rfl id
  | startFailed k calls attr hk hs =>
      exact h.finish (h.congr rfl rfl rfl rfl) rfl rfl rfl id
  | createFailed k calls hk hs =>
      have hnone := h.not_outstanding_of_ready hs
      refine h.finish (h.of_status rfl rfl rfl (fun n hn ↦ (hnone n hn).elim) ?_ ?_ ?_ ?_)
        rfl rfl rfl ?_
      · simp [ContainerWorld.finish]
      · simp [ContainerWorld.finish]
      · simp [ContainerWorld.finish]
      · simp [ContainerWorld.finish]
      · rintro ⟨-, -, hw | hw⟩ <;> simp [hw] at hs
  | threadCreated k calls hk hcalls hs =>
      refine h.finish (h.toThreadInv.threadCreated hs rfl rfl rfl rfl) rfl rfl rfl ?_
      rintro ⟨-, -, hw | hw⟩ <;> simp [hw] at hs
  | semWaitFailed k rc tid hk hrc =>
      exact h.finish (h.congr rfl rfl rfl rfl) rfl rfl rfl id
  | semWaitPast k rc tid post posts hk hrc hsem =>
      refine h.finish (h.congr rfl rfl rfl rfl) rfl rfl ?_ id
      split <;> rfl
  | storeError k admitted hk =>
      refine h.finish (h.of_status rfl rfl rfl (fun n _ ↦ .inl rfl) ?_ ?_ ?_ ?_) rfl rfl rfl
        fun hw ↦ ⟨hw.1, hw.2.1, .inr rfl⟩
      · simp [ContainerWorld.finish]
      · simp [ContainerWorld.finish]
      · simp [ContainerWorld.finish]
      · simp [ContainerWorld.finish]
  | signal k sig ext hk =>
      obtain ⟨ctx, status, heq, hs⟩ := ocreContainerSignal_spec V sig ext w.container
      have hrunning : status = w.container.status ∨
          (w.container.status = .running ∧ status = .paused) ∨
          (w.container.status = .paused ∧ status = .running) := by tauto
      rw [heq]
      refine h.finish (h.of_status rfl rfl rfl ?_ ?_ ?_ ?_ ?_) rfl rfl rfl ?_
      · intro n hn
        have hfits := h.fits n hn
        rcases hrunning with hs | ⟨hw, hs⟩ | ⟨hw, hs⟩
        · exact hs ▸ hfits
        · simpa [ContainerWorld.finish, StatusFits, hw, hs] using hfits
        · simpa [ContainerWorld.finish, StatusFits, hw, hs] using hfits
      · rcases hrunning with hs | ⟨hw, hs⟩ | ⟨hw, hs⟩ <;> simp [ContainerWorld.finish, hs]
      · intro hstopped
        refine h.stopped ?_
        rcases hrunning with hs | ⟨hw, hs⟩ | ⟨hw, hs⟩ <;>
          simp_all [ContainerWorld.finish]
      · rcases hrunning with hs | ⟨hw, hs⟩ | ⟨hw, hs⟩ <;>
          simp [ContainerWorld.finish, hs, h.known]
      · rcases hrunning with hs | ⟨hw, hs⟩ | ⟨hw, hs⟩ <;> simp [ContainerWorld.finish, hs]
      · rintro ⟨hpos, hnone, hw⟩
        have hs : status = w.container.status := by
          rcases hrunning with hs | ⟨hw', -⟩ | ⟨hw', -⟩
          · exact hs
          · simp [hw'] at hw
          · simp [hw'] at hw
        exact ⟨hpos, hnone, by simpa [ContainerWorld.finish, hs] using hw⟩
  | getStatus k ret hk => exact h.finish (h.congr rfl rfl rfl rfl) rfl rfl rfl id
  | wait k dst condRc hk =>
      exact h.finish (h.congr rfl rfl rfl rfl) rfl rfl (WaitCaller.proceed_isRemoving ..) id
  | nestedWait k condRc hk =>
      exact h.finish (h.congr rfl rfl rfl rfl) rfl rfl (WaitCaller.proceed_isRemoving ..) id
  | spurious k caller run hk => exact h.finish (h.congr rfl rfl rfl rfl) rfl rfl rfl id
  | resume k caller run hk =>
      exact h.finish (h.congr rfl rfl rfl rfl) rfl rfl (caller.finish_isRemoving _) id
  | destroyRead k hk hmutex =>
      refine h.finishRemoval (h.congr rfl rfl rfl rfl) rfl (.inr hmutex) (fun _ ↦ rfl) ?_
      split <;> simp
  | destroyJoinFailed k hk hexited hjoins =>
      exact h.finishRemoval (h.join hexited rfl rfl rfl (.inl rfl)) rfl
        (.inl (by simp [hk, CallState.isRemoving])) (by rintro ⟨⟩) (by rintro ⟨⟩)
  | destroyJoined k hk hexited hjoins =>
      have hn : w.Outstanding w.container.thread := ⟨h.lt_created_of_isExited hexited, hjoins⟩
      refine h.finishRemoval (h.join hexited rfl rfl rfl (.inl rfl)) rfl
        (.inl (by simp [hk, CallState.isRemoving]))
        (fun _ ↦ h.removing k (by simp [hk, CallState.isRemoving]))
        fun _ ↦ ⟨Nat.zero_lt_of_lt hn.1, ?_, ?_⟩
      · rintro n ⟨hlt, hj⟩
        obtain ⟨hne, hj⟩ := ThreadInv.joinThread_joins_eq_zero hj
        have := h.earlier n ⟨hlt, hj⟩
        have := h.earlier _ hn
        omega
      · have hfits := h.fits _ hn
        simp only [StatusFits, hexited] at hfits
        simp only [ContainerWorld.finish]
        tauto
  | destroyStore k hk =>
      have hnone := (h.storing k hk).2.1
      refine h.finishRemoval (h.of_status rfl rfl rfl (fun n hn ↦ (hnone n hn).elim) ?_
        (fun _ ↦ (h.storing k hk).1) ?_ ?_) rfl (.inl (by simp [hk, CallState.isRemoving]))
        (fun _ ↦ h.removing k (by simp [hk, CallState.isRemoving])) (by rintro ⟨⟩)
      · simp [ContainerWorld.finish]
      · simp [ContainerWorld.finish]
      · simp [ContainerWorld.finish]
  | destroyRefused k hk =>
      exact h.finishRemoval (h.congr rfl rfl rfl rfl) rfl
        (.inl (by simp [hk, CallState.isRemoving])) (by rintro ⟨⟩) (by rintro ⟨⟩)
  | destroyChecked k hk hs =>
      exact h.finishRemoval (h.congr rfl rfl rfl rfl) rfl
        (.inl (by simp [hk, CallState.isRemoving]))
        (fun _ ↦ h.removing k (by simp [hk, CallState.isRemoving])) (by rintro ⟨⟩)
  | destroyFree k hk =>
      exact h.finishRemoval (h.congr rfl rfl rfl rfl) rfl
        (.inl (by simp [hk, CallState.isRemoving])) (by rintro ⟨⟩) (by rintro ⟨⟩)
  | thread n ext p hp hresult =>
      refine ⟨h.toThreadInv.threadStep hp, h.removing, fun k hk ↦ ?_⟩
      exact ((h.storing k hk).2.1 n (h.outstanding_of_live hp)).elim
  | exit n p result hp hresult =>
      refine ⟨h.toThreadInv.exitStep result hp, fun k hk ↦ h.removing k ?_, fun k hk ↦ ?_⟩
      · exact (isRemoving_broadcast w.calls k).symm.trans hk
      · refine ((h.storing k ?_).2.1 n (h.outstanding_of_live hp)).elim
        exact (broadcast_eq_iff rfl).mp hk

theorem next (h : w.Inv) {a : Act Ext} (hnext : w.next V a = some w') : w'.Inv := by
  obtain ⟨-, -, hstep⟩ := next_cases hnext
  split at hstep
  · exact h.collect.step hstep
  · exact h.step hstep

end Inv

theorem Inv.of_reachable {ok : Act Ext → ContainerWorld Point Ctx → Prop}
    (h : (containerSystem V).ReachableWhere ok w) : w.Inv :=
  h.invariant (fun _ ↦ Inv.of_fresh) fun _ _ _ hw _ hnext ↦ hw.next hnext

end ContainerWorld

end OcreRuntime
