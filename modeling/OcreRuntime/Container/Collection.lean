import OcreRuntime.Container.Invariants

/-!
# Every thread is joined once, and before its container goes away

Collection is hidden in the status query. It goes wrong in two ways: a start call
that fails stores ERROR after releasing the mutex, which hides a thread that is
still to be joined, and a removal queries the status without the mutex.
-/

namespace OcreRuntime

namespace ContainerWorld

open Function (update)

variable {Point Ctx Ext : Type} {V : OcreRuntimeVtable Point Ctx Ext}
  {w w' : ContainerWorld Point Ctx}

/-- Every thread is passed to `pthread_join` at most once, and has been joined by
the time the next thread exists and by the time the container is freed. -/
structure Collected (w : ContainerWorld Point Ctx) : Prop where
  once : ∀ n, (w.threads n).joins ≤ 1
  beforeNext : ∀ n, n + 1 < w.created → (w.threads n).joins = 1
  beforeFree : w.destroyed = true → ∀ n < w.created, (w.threads n).joins = 1

/-- ERROR is stored only when every thread created so far has been joined, and no
start, wait or status query runs a section while a removal is in progress. -/
def CollectOk (a : Act Ext) (w : ContainerWorld Point Ctx) : Prop :=
  (storesError a ≠ none → ∀ n < w.created, (w.threads n).joins ≠ 0) ∧
    (w.contextMutex ≠ none → collects a = false)

instance (a : Act Ext) (w : ContainerWorld Point Ctx) : Decidable (CollectOk a w) :=
  inferInstanceAs (Decidable ((_ → _) ∧ (_ → _)))

/-- What carries `Collected` along a run. -/
structure CollectInv (w : ContainerWorld Point Ctx) : Prop where
  once : ∀ n, (w.threads n).joins ≤ 1
  error : w.container.status = .error → ∀ n, ¬ w.Outstanding n
  exited : w.container.status = .exited →
    w.Outstanding w.container.thread ∨ ∃ k, w.calls k = .destroyStore
  joining : ∀ k, w.calls k = .destroyJoin → w.Outstanding w.container.thread
  freeing : ∀ k, w.calls k = .destroyFree → ∀ n, ¬ w.Outstanding n
  freed : w.destroyed = true → ∀ n, ¬ w.Outstanding n

namespace CollectInv

theorem of_fresh (h : w.Fresh) : w.CollectInv := by
  refine ⟨?_, ?_, ?_, ?_, ?_, ?_⟩
  · simp [h.threads]
  · simp [h.status]
  · simp [h.status]
  · simp [h.calls]
  · simp [h.calls]
  · simp [h.destroyed]

theorem collected (h : w.CollectInv) (hw : w.Inv) : w.Collected := by
  have hjoined : ∀ n, n < w.created → ¬ w.Outstanding n → (w.threads n).joins = 1 := by
    intro n hn hout
    have := h.once n
    have : (w.threads n).joins ≠ 0 := fun hj ↦ hout ⟨hn, hj⟩
    omega
  refine ⟨h.once, fun n hn ↦ hjoined n (by omega) fun hout ↦ ?_,
    fun hd n hn ↦ hjoined n hn (h.freed hd n)⟩
  have := hw.earlier n hout
  omega

theorem finish (h : w.CollectInv) {k : ℕ} {st : CallState} (hthreads : w'.threads = w.threads)
    (hcreated : w'.created = w.created) (hthread : w'.container.thread = w.container.thread)
    (hcalls : w'.calls = update w.calls k st)
    (herror : w'.container.status = .error → ∀ n, ¬ w.Outstanding n)
    (hexited : w'.container.status = .exited →
      w.container.status = .exited ∧ w.calls k ≠ .destroyStore)
    (hjoin : st = .destroyJoin → w.Outstanding w.container.thread)
    (hfree : st = .destroyFree → ∀ n, ¬ w.Outstanding n)
    (hfreed : w'.destroyed = true → ∀ n, ¬ w.Outstanding n) : w'.CollectInv := by
  have hout : ∀ n, w'.Outstanding n ↔ w.Outstanding n := by
    simp [Outstanding, hthreads, hcreated]
  refine ⟨hthreads ▸ h.once, ?_, ?_, ?_, ?_, ?_⟩ <;> simp only [hout, hthread]
  · exact herror
  · intro hs
    obtain ⟨hs, hstore⟩ := hexited hs
    refine (h.exited hs).imp_right (Exists.imp fun j hj ↦ ?_)
    have hjk : j ≠ k := fun hjk ↦ hstore (hjk ▸ hj)
    rwa [hcalls, Function.update_of_ne hjk]
  · intro j hj
    by_cases hjk : j = k
    · subst hjk
      exact hjoin (by simpa [hcalls] using hj)
    · exact h.joining j (by simpa [hcalls, hjk] using hj)
  · intro j hj
    by_cases hjk : j = k
    · subst hjk
      exact hfree (by simpa [hcalls] using hj)
    · exact h.freeing j (by simpa [hcalls, hjk] using hj)
  · exact hfreed

theorem finishOutside (h : w.CollectInv) {k : ℕ} {st : CallState}
    (hthreads : w'.threads = w.threads) (hcreated : w'.created = w.created)
    (hthread : w'.container.thread = w.container.thread)
    (hcalls : w'.calls = update w.calls k st)
    (herror : w'.container.status = .error → ∀ n, ¬ w.Outstanding n)
    (hexited : w'.container.status = .exited →
      w.container.status = .exited ∧ w.calls k ≠ .destroyStore)
    (hst : st.isRemoving = false) (hfreed : w'.destroyed = true → ∀ n, ¬ w.Outstanding n) :
    w'.CollectInv := by
  refine h.finish hthreads hcreated hthread hcalls herror hexited ?_ ?_ hfreed <;>
    rintro rfl <;> simp [CallState.isRemoving] at hst

theorem outstanding_of_exited (h : w.CollectInv) (hw : w.Inv)
    (hmutex : w.contextMutex = none) (hs : w.container.status = .exited) :
    w.Outstanding w.container.thread := by
  refine (h.exited hs).resolve_right ?_
  rintro ⟨k, hk⟩
  simpa [hk, CallState.isRemoving] using hw.isRemoving_eq_false hmutex k

/-- A section collects a thread that no removal is about to join. -/
theorem collect (h : w.CollectInv) (hw : w.Inv) (hmutex : w.contextMutex = none) :
    w.collect.CollectInv := by
  by_cases hs : w.container.status = .exited
  · have hnone := hw.isRemoving_eq_false hmutex
    have hout := h.outstanding_of_exited hw hmutex hs
    have hcontainer : w.collect.container.status = .stopped := by
      rw [collect_container, joinRc, if_pos hout.2, ocreContainerStatusLocked_of_join hs]
    have hthreads : w.collect.threads = w.joinThread w.container.thread := by
      simp [ContainerWorld.collect, hs]
    refine ⟨?_, by simp [hcontainer], by simp [hcontainer], ?_, ?_, ?_⟩
    · intro n
      rw [hthreads]
      by_cases hn : n = w.container.thread
      · simp [joinThread, hn, hout.2]
      · simpa [joinThread, hn] using h.once n
    · intro k hk
      simpa [(by simpa using hk : w.calls k = .destroyJoin), CallState.isRemoving] using hnone k
    · intro k hk
      simpa [(by simpa using hk : w.calls k = .destroyFree), CallState.isRemoving] using hnone k
    · intro hd n hn
      exact h.freed (by simpa using hd) n (ThreadInv.outstanding_of_collect hn)
  · rwa [collect_of_ne_exited hs]

theorem step (h : w.CollectInv) (hw : w.Inv) {a : Act Ext} (hok : CollectOk a w)
    (hdestroyed : w.destroyed = false) (hstep : Step V w a w') : w'.CollectInv := by
  have hfreed : w.destroyed = true → ∀ n, ¬ w.Outstanding n := by simp [hdestroyed]
  cases hstep with
  | startRefused k calls hk =>
      exact h.finishOutside rfl rfl rfl rfl h.error (⟨·, by simp [hk]⟩) rfl hfreed
  | startFailed k calls attr hk hs =>
      exact h.finishOutside rfl rfl rfl rfl h.error (⟨·, by simp [hk]⟩) rfl hfreed
  | createFailed k calls hk hs =>
      exact h.finishOutside rfl rfl rfl rfl (by rintro ⟨⟩) (by rintro ⟨⟩) rfl hfreed
  | threadCreated k calls hk hcalls hs =>
      have hnone := hw.not_outstanding_of_ready hs
      have hmutex : w.contextMutex = none := by
        by_contra hm
        simpa [collects] using hok.2 hm
      have hcalls : ∀ j, (update w.calls k (.semWait w.created) j).isRemoving = false := by
        intro j
        by_cases hjk : j = k
        · simp [hjk, CallState.isRemoving]
        · rw [Function.update_of_ne hjk]
          exact hw.isRemoving_eq_false hmutex j
      refine ⟨fun n ↦ ?_, by rintro ⟨⟩, (by rintro ⟨⟩), fun j hj ↦ ?_, fun j hj ↦ ?_, fun hd ↦ ?_⟩
      · by_cases hn : n = w.created
        · simp [hn]
        · simpa [hn] using h.once n
      · simpa [(show update w.calls k _ j = _ from hj), CallState.isRemoving] using hcalls j
      · simpa [(show update w.calls k _ j = _ from hj), CallState.isRemoving] using hcalls j
      · simp [ContainerWorld.finish, hdestroyed] at hd
  | semWaitFailed k rc tid hk hrc =>
      exact h.finishOutside rfl rfl rfl rfl h.error (⟨·, by simp [hk]⟩) rfl hfreed
  | semWaitPast k rc tid post posts hk hrc hsem =>
      refine h.finishOutside rfl rfl rfl rfl h.error (⟨·, by simp [hk]⟩) ?_ hfreed
      split <;> rfl
  | storeError k admitted hk =>
      have hnone : ∀ n, ¬ w.Outstanding n := fun n hn ↦ hok.1 (by rintro ⟨⟩) n hn.1 hn.2
      exact h.finishOutside rfl rfl rfl rfl (fun _ ↦ hnone) (by rintro ⟨⟩) rfl hfreed
  | signal k sig ext hk =>
      obtain ⟨ctx, status, heq, hs⟩ := ocreContainerSignal_spec V sig ext w.container
      rw [heq]
      refine h.finishOutside rfl rfl rfl rfl ?_ ?_ rfl hfreed
      · rcases hs with hs | ⟨-, -, hs⟩ | ⟨-, -, hs⟩ <;> simp [ContainerWorld.finish, hs]
        exact h.error
      · rcases hs with hs | ⟨-, -, hs⟩ | ⟨-, -, hs⟩ <;> simp [ContainerWorld.finish, hs, hk]
  | getStatus k ret hk =>
      exact h.finishOutside rfl rfl rfl rfl h.error (⟨·, by simp [hk]⟩) rfl hfreed
  | wait k dst condRc hk =>
      exact h.finishOutside rfl rfl rfl rfl h.error (⟨·, by simp [hk]⟩)
        (WaitCaller.proceed_isRemoving ..) hfreed
  | nestedWait k condRc hk =>
      exact h.finishOutside rfl rfl rfl rfl h.error (⟨·, by simp [hk]⟩)
        (WaitCaller.proceed_isRemoving ..) hfreed
  | spurious k caller run hk =>
      exact h.finishOutside rfl rfl rfl rfl h.error (⟨·, by simp [hk]⟩) rfl hfreed
  | resume k caller run hk =>
      exact h.finishOutside rfl rfl rfl rfl h.error (⟨·, by simp [hk]⟩)
        (caller.finish_isRemoving _) hfreed
  | destroyRead k hk hmutex =>
      refine h.finish rfl rfl rfl rfl h.error (⟨·, by simp [hk]⟩) ?_ ?_ hfreed
      · intro hst
        have hs : w.container.status = .exited := by
          by_contra hs
          simp [hs] at hst
        exact h.outstanding_of_exited hw hmutex hs
      · split <;> rintro ⟨⟩
  | destroyJoinFailed k hk hexited hjoins => exact absurd (h.joining k hk).2 hjoins
  | destroyJoined k hk hexited hjoins =>
      have hout := h.joining k hk
      have hother : ∀ j, (update w.calls k .destroyStore j).isRemoving = true → j = k := by
        intro j hj
        by_contra hjk
        rw [Function.update_of_ne hjk] at hj
        exact hjk (hw.eq_of_removing hj (by simp [hk, CallState.isRemoving]))
      refine ⟨fun n ↦ ?_, fun hs ↦ (h.error hs _ hout).elim, fun _ ↦ .inr ⟨k, ?_⟩,
        fun j hj ↦ ?_, fun j hj ↦ ?_, fun hd ↦ ?_⟩
      · by_cases hn : n = w.container.thread
        · simp [joinThread, hn, hjoins]
        · simpa [joinThread, hn] using h.once n
      · simp [ContainerWorld.finish]
      · have hjk := hother j (by rw [show update w.calls k _ j = _ from hj]; rfl)
        simp [ContainerWorld.finish, hjk] at hj
      · have hjk := hother j (by rw [show update w.calls k _ j = _ from hj]; rfl)
        simp [ContainerWorld.finish, hjk] at hj
      · simp [ContainerWorld.finish, hdestroyed] at hd
  | destroyStore k hk =>
      exact h.finish rfl rfl rfl rfl (by rintro ⟨⟩) (by rintro ⟨⟩) (by rintro ⟨⟩) (by rintro ⟨⟩)
        hfreed
  | destroyRefused k hk =>
      exact h.finishOutside rfl rfl rfl rfl h.error (⟨·, by simp [hk]⟩) rfl hfreed
  | destroyChecked k hk hs =>
      refine h.finish rfl rfl rfl rfl h.error (⟨·, by simp [hk]⟩) (by rintro ⟨⟩) (fun _ ↦ ?_) hfreed
      rcases hs with hs | hs | hs
      · exact hw.not_outstanding_of_ready (.inr hs)
      · exact hw.not_outstanding_of_ready (.inl hs)
      · exact h.error hs
  | destroyFree k hk =>
      exact h.finish rfl rfl rfl rfl h.error (⟨·, by simp [hk]⟩) (by rintro ⟨⟩) (by rintro ⟨⟩)
        fun _ ↦ h.freeing k hk
  | thread n ext p hp hresult =>
      have hout := threadStep_outstanding (V := V) (w := w) n ext p
      refine ⟨fun m ↦ ?_, fun hs m ↦ ?_, fun hs ↦ ?_, fun k hk ↦ ?_, fun k hk m ↦ ?_,
        fun hd m ↦ ?_⟩
      · rw [threadStep_joins]; exact h.once m
      · rw [hout]; exact h.error hs m
      · rw [hout]; exact h.exited hs
      · rw [hout]; exact h.joining k hk
      · rw [hout]; exact h.freeing k hk m
      · rw [hout]; exact h.freed hd m
  | exit n p result hp hresult =>
      have hn := hw.outstanding_of_live hp
      have hlast : (w.exitStep n result).Outstanding
          (w.exitStep n result).container.thread := by
        rw [exitStep_outstanding]
        exact hw.thread_eq_of_live hp ▸ hn
      refine ⟨fun m ↦ ?_, by rintro ⟨⟩, fun _ ↦ .inl hlast, fun _ _ ↦ hlast, fun k hk ↦ ?_,
        fun hd ↦ ?_⟩
      · rw [exitStep_joins]; exact h.once m
      · exact (h.freeing k ((broadcast_eq_iff rfl).mp hk) n hn).elim
      · simp [ContainerWorld.exitStep, hdestroyed] at hd

end CollectInv

theorem CollectInv.of_reachable (h : (containerSystem V).ReachableWhere CollectOk w) :
    w.CollectInv := by
  refine h.invariant_of (fun _ ↦ Inv.of_reachable) (fun _ ↦ CollectInv.of_fresh) ?_
  intro a w w' hw hc hok hnext
  obtain ⟨hdestroyed, -, hstep⟩ := next_cases hnext
  split at hstep
  · rename_i hcollects
    have hmutex : w.contextMutex = none := by
      by_contra hm
      simpa [hcollects] using hok.2 hm
    have hok' : CollectOk a w.collect := by
      refine ⟨fun ha ↦ ?_, fun hm ↦ ?_⟩
      · cases a <;> simp [storesError, collects] at ha hcollects
      · simp [hmutex] at hm
    exact (hc.collect hw hmutex).step hw.collect hok' (by simpa using hdestroyed) hstep
  · exact hc.step hw hok hdestroyed hstep

/-- In every run whose steps all meet the condition, threads are collected. -/
theorem collected_of_reachableWhere (h : (containerSystem V).ReachableWhere CollectOk w) :
    w.Collected :=
  (CollectInv.of_reachable h).collected (Inv.of_reachable h)

/-- Two runs, collected by a status query and by a wait, and a removal. -/
theorem collected_of_restart :
    ∃ w, (containerSystem promptRuntime).run promptWorld
        [.start 0 {}, .thread 0 (), .semWait 0 0, .exit 0, .getStatus 1, .start 2 {},
          .thread 1 (), .semWait 2 0, .exit 1, .wait 3 true 0, .destroyRead 4,
          .destroyCheck 4, .destroyFree 4] = some w ∧ w.destroyed = true ∧ w.Collected := by
  have hmeets : (containerSystem promptRuntime).RunMeets CollectOk promptWorld
      [.start 0 {}, .thread 0 (), .semWait 0 0, .exit 0, .getStatus 1, .start 2 {},
        .thread 1 (), .semWait 2 0, .exit 1, .wait 3 true 0, .destroyRead 4,
        .destroyCheck 4, .destroyFree 4] := by decide
  exact ⟨_, rfl, rfl, collected_of_reachableWhere (.run (.start promptWorld_fresh) hmeets rfl)⟩

/-- A second start of a running container is refused, but stores ERROR, and then
the removal frees the container under its live thread. -/
theorem not_collected_of_refused_start :
    ¬ ∀ w, (containerSystem promptRuntime).Reachable w → w.Collected := by
  intro h
  have hrun : ∃ w, (containerSystem promptRuntime).run promptWorld
      [.start 0 {}, .thread 0 (), .semWait 0 0, .start 1 {}, .storeError 1, .destroyRead 2,
        .destroyCheck 2, .destroyFree 2] = some w ∧ w.destroyed = true ∧ w.created = 1 ∧
        (w.threads 0).joins = 0 := ⟨_, rfl, rfl, rfl, rfl⟩
  obtain ⟨w, hw, hdestroyed, hcreated, hjoins⟩ := hrun
  have := (h w (.run (.start promptWorld_fresh) hw)).beforeFree hdestroyed 0 (by omega)
  omega

end ContainerWorld

end OcreRuntime
