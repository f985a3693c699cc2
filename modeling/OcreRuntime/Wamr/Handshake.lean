import OcreRuntime.Wamr.Instance

/-!
# The start handshake

A start call waits until the thread it created has posted. The posts are counted
by the semaphore only, so a post is for the right call as long as no two start
calls wait at once and every thread posts.
-/

namespace OcreRuntime

/-- The post of this run has been made. -/
def WamrPoint.posted : WamrPoint → Bool
  | instantiate | clearException | semPost => false
  | _ => true

/-- A point is past the post exactly when the point before is, or posts. -/
theorem instanceExecute_posted {ext : WamrExt} (p : WamrPoint) (ctx : WamrContext)
    (hinst : p = .instantiate → ext.instantiates = true) :
    (instanceExecute ext p ctx).1.posted = (p.posted || (instanceExecute ext p ctx).2.2) ∧
      ((instanceExecute ext p ctx).2.2 = true → p.posted = false) := by
  cases p <;> simp_all [instanceExecute, WamrPoint.posted]

namespace ContainerWorld

open Function (update)

variable {w w' : ContainerWorld WamrPoint WamrContext}

/-- `thread_execute` has come to a return statement in thread `n`. -/
def HasReturned (w : ContainerWorld WamrPoint WamrContext) (n : ℕ) : Prop :=
  ∃ result, (w.threads n).phase = .live (.returned result) ∨
    (w.threads n).phase = .exited result

/-- No start call is between its `pthread_create` and the end of its `sem_wait`. -/
def NoneWaiting (w : ContainerWorld WamrPoint WamrContext) : Prop :=
  ∀ k tid, w.calls k ≠ .semWait tid

structure Handshake (w : ContainerWorld WamrPoint WamrContext) : Prop where
  onePost : ∀ n, w.HasReturned n → (w.threads n).posts = 1
  idle : w.NoneWaiting → w.container.semStart = []
  waiting : ∀ k tid, w.calls k = .semWait tid → w.container.semStart ≠ [] ∨
    ∃ p, (w.threads tid).phase = .live p ∧ (w.threads tid).posts = 0
  ownPost : ∀ k tid post posts, w.calls k = .semWait tid →
    w.container.semStart = post :: posts → post = tid

/-- Modules instantiate, `sem_wait` is not interrupted, and a thread is created only
while no other start call waits for its own. -/
def HandshakeOk (a : Act WamrExt) (w : ContainerWorld WamrPoint WamrContext) : Prop :=
  match a with
  | .start _ calls => calls = {} → (entered a w).container.status = .created ∨
      (entered a w).container.status = .stopped → w.NoneWaiting
  | .semWait _ rc => rc = 0
  | .thread n ext => (w.threads n).phase = .live .instantiate → ext.instantiates = true
  | _ => True

structure HandshakeInv (w : ContainerWorld WamrPoint WamrContext) : Prop where
  posts : ∀ n p, (w.threads n).phase = .live p →
    (w.threads n).posts = if p.posted then 1 else 0
  exited : ∀ n result, (w.threads n).phase = .exited result → (w.threads n).posts = 1
  unique : ∀ j k tid tid', w.calls j = .semWait tid → w.calls k = .semWait tid' → j = k
  waiting : ∀ k tid, w.calls k = .semWait tid → (w.threads tid).phase ≠ .absent ∧
    w.container.semStart = if (w.threads tid).posts = 0 then [] else [tid]
  idle : w.NoneWaiting → w.container.semStart = []
  unposted : ∀ n p, (w.threads n).phase = .live p → p.posted = false →
    ∃ k, w.calls k = .semWait n

namespace HandshakeInv

theorem of_fresh (h : w.Fresh) : w.HandshakeInv where
  posts n p hp := by simp [h.threads] at hp
  exited n result hp := by simp [h.threads] at hp
  unique j k tid tid' hj := by simp [h.calls] at hj
  waiting k tid hk := by simp [h.calls] at hk
  idle _ := h.semStart
  unposted n p hp := by simp [h.threads] at hp

theorem handshake (h : w.HandshakeInv) : w.Handshake where
  onePost n := by
    rintro ⟨result, hn | hn⟩
    · simpa [WamrPoint.posted] using h.posts n _ hn
    · exact h.exited n result hn
  idle := h.idle
  waiting k tid hk := by
    obtain ⟨hphase, hsem⟩ := h.waiting k tid hk
    by_cases hposts : (w.threads tid).posts = 0
    · right
      cases hp : (w.threads tid).phase with
      | absent => exact absurd hp hphase
      | live p => exact ⟨p, rfl, hposts⟩
      | exited result => simp [h.exited tid result hp] at hposts
    · left
      simp [hsem, hposts]
  ownPost k tid post posts hk hpost := by
    obtain ⟨-, hsem⟩ := h.waiting k tid hk
    rw [hsem] at hpost
    split at hpost <;> simp_all

/-- The invariant looks at the threads, the semaphore and the waiting calls only. -/
theorem congr (h : w.HandshakeInv)
    (hphase : ∀ n, (w'.threads n).phase = (w.threads n).phase)
    (hposts : ∀ n, (w'.threads n).posts = (w.threads n).posts)
    (hsem : w'.container.semStart = w.container.semStart)
    (hcalls : ∀ k tid, w'.calls k = .semWait tid ↔ w.calls k = .semWait tid) :
    w'.HandshakeInv := by
  refine ⟨?_, ?_, ?_, ?_, ?_, ?_⟩
  · simpa only [hphase, hposts] using h.posts
  · simpa only [hphase, hposts] using h.exited
  · simpa only [hcalls] using h.unique
  · simpa only [hphase, hposts, hsem, hcalls] using h.waiting
  · simpa only [NoneWaiting, ne_eq, hsem, hcalls] using h.idle
  · simpa only [hphase, hcalls] using h.unposted

theorem finish (h : w.HandshakeInv) {k : ℕ} {st : CallState}
    (hphase : ∀ n, (w'.threads n).phase = (w.threads n).phase)
    (hposts : ∀ n, (w'.threads n).posts = (w.threads n).posts)
    (hsem : w'.container.semStart = w.container.semStart)
    (hcalls : w'.calls = update w.calls k st) (hk : ∀ tid, w.calls k ≠ .semWait tid)
    (hst : ∀ tid, st ≠ .semWait tid) : w'.HandshakeInv := by
  refine h.congr hphase hposts hsem fun j tid ↦ ?_
  by_cases hjk : j = k
  · subst hjk
    simp [hcalls, hk tid, hst tid]
  · simp [hcalls, hjk]

theorem collect (h : w.HandshakeInv) : w.collect.HandshakeInv :=
  h.congr w.collect_phase w.collect_posts w.collect_semStart (by simp)

theorem threadCreated (h : w.HandshakeInv) (hw : w.Inv) {k : ℕ}
    (hs : w.container.status = .created ∨ w.container.status = .stopped)
    (hnone : w.NoneWaiting)
    (hthreads : w'.threads = update w.threads w.created { phase := .live .instantiate })
    (hsem : w'.container.semStart = w.container.semStart)
    (hcalls : w'.calls = update w.calls k (.semWait w.created)) : w'.HandshakeInv := by
  have hwaiting : ∀ j tid, w'.calls j = .semWait tid → j = k ∧ tid = w.created := by
    intro j tid hj
    by_cases hjk : j = k
    · subst hjk
      simpa [hcalls, eq_comm] using hj
    · exact (hnone j tid (by simpa [hcalls, hjk] using hj)).elim
  have hk : w'.calls k = .semWait w.created := by simp [hcalls]
  refine ⟨fun n p hp ↦ ?_, fun n result hp ↦ ?_, fun i j tid tid' hi hj ↦ ?_,
    fun j tid hj ↦ ?_, fun hidle ↦ (hidle k _ hk).elim, fun n p hp hposted ↦ ?_⟩
  · by_cases hn : n = w.created
    · subst hn
      obtain rfl : WamrPoint.instantiate = p := by simpa [hthreads] using hp
      simp [hthreads, WamrPoint.posted]
    · simpa [hthreads, hn] using h.posts n p (by simpa [hthreads, hn] using hp)
  · by_cases hn : n = w.created
    · subst hn
      simp [hthreads] at hp
    · simpa [hthreads, hn] using h.exited n result (by simpa [hthreads, hn] using hp)
  · exact (hwaiting i tid hi).1.trans (hwaiting j tid' hj).1.symm
  · obtain ⟨-, rfl⟩ := hwaiting j tid hj
    simp [hthreads, hsem, h.idle hnone]
  · by_cases hn : n = w.created
    · exact ⟨k, hn ▸ hk⟩
    · have hlive : (w.threads n).phase = .live p := by simpa [hthreads, hn] using hp
      exact (hw.not_outstanding_of_ready hs n (hw.outstanding_of_live hlive)).elim

/-- A waiting call goes on. Its own post was the only one. -/
theorem semWaitPast (h : w.HandshakeInv) {k tid post : ℕ} {posts : List ℕ} {st : CallState}
    (hk : w.calls k = .semWait tid) (hpost : w.container.semStart = post :: posts)
    (hthreads : w'.threads = w.threads) (hsem : w'.container.semStart = posts)
    (hcalls : w'.calls = update w.calls k st) (hst : ∀ tid, st ≠ .semWait tid) :
    w'.HandshakeInv := by
  obtain ⟨-, hwaiting⟩ := h.waiting k tid hk
  have hposts : (w.threads tid).posts ≠ 0 := by
    intro hzero
    simp [hzero, hpost] at hwaiting
  have hnil : posts = [] := by
    rw [if_neg hposts, hpost] at hwaiting
    exact (List.cons.inj hwaiting).2
  have hnone : w'.NoneWaiting := by
    intro j tid' hj
    by_cases hjk : j = k
    · subst hjk
      exact hst tid' (by simpa [hcalls] using hj)
    · exact hjk (h.unique j k tid' tid (by simpa [hcalls, hjk] using hj) hk)
  refine ⟨by simpa only [hthreads] using h.posts, by simpa only [hthreads] using h.exited,
    fun i j t t' hi ↦ (hnone i t hi).elim, fun j t hj ↦ (hnone j t hj).elim,
    fun _ ↦ hsem.trans hnil, fun n p hp hunposted ↦ ?_⟩
  rw [hthreads] at hp
  obtain ⟨j, hj⟩ := h.unposted n p hp hunposted
  obtain rfl := h.unique j k n tid hj hk
  obtain rfl : n = tid := by simpa [hk] using hj.symm
  simp [h.posts n p hp, hunposted] at hposts

theorem threadStep (h : w.HandshakeInv) {n : ℕ} {ext : WamrExt} {p : WamrPoint}
    (hp : (w.threads n).phase = .live p) (hinst : p = .instantiate → ext.instantiates = true) :
    (w.threadStep wamrVtable n ext p).HandshakeInv := by
  obtain ⟨hposted, hpost⟩ := instanceExecute_posted p w.container.runtimeContext hinst
  obtain ⟨p', ctx, post, hexec⟩ : ∃ p' ctx post,
      instanceExecute ext p w.container.runtimeContext = (p', ctx, post) := ⟨_, _, _, rfl⟩
  simp only [hexec] at hposted hpost
  set v := w.threadStep wamrVtable n ext p with hv
  have hthreads : v.threads = update w.threads n { w.threads n with
      phase := .live p', posts := (w.threads n).posts + if post then 1 else 0 } := by
    simp [hv, ContainerWorld.threadStep, wamrVtable, hexec]
  have hsem : v.container.semStart = w.container.semStart ++ if post then [n] else [] := by
    simp [hv, ContainerWorld.threadStep, wamrVtable, hexec]
  have hcalls : v.calls = w.calls := rfl
  -- a thread posts only while the call that created it waits, which is the only one
  have hwaiting : post = true → ∃ k, w.calls k = .semWait n ∧ w.container.semStart = [] := by
    intro hpost'
    have hunposted : p.posted = false := hpost hpost'
    obtain ⟨k, hk⟩ := h.unposted n p hp hunposted
    have hzero : (w.threads n).posts = 0 := by simp [h.posts n p hp, hunposted]
    exact ⟨k, hk, by simp [(h.waiting k n hk).2, hzero]⟩
  have hother : ∀ m, m ≠ n → v.threads m = w.threads m := by
    intro m hm
    simp [hthreads, hm]
  have hself : v.threads n = { w.threads n with
      phase := .live p', posts := (w.threads n).posts + if post then 1 else 0 } := by
    simp [hthreads]
  refine ⟨fun m q hq ↦ ?_, fun m result hq ↦ ?_, hcalls ▸ h.unique, fun k tid hk ↦ ?_,
    fun hidle ↦ ?_, fun m q hq hunposted ↦ ?_⟩
  · by_cases hm : m = n
    · subst hm
      obtain rfl : p' = q := by simpa [hself] using hq
      have := hpost
      cases hpost' : post <;> simp_all [h.posts m p hp]
    · rw [hother m hm] at hq ⊢
      exact h.posts m q hq
  · by_cases hm : m = n
    · subst hm
      simp [hself] at hq
    · rw [hother m hm] at hq ⊢
      exact h.exited m result hq
  · rw [hcalls] at hk
    obtain ⟨habsent, hpending⟩ := h.waiting k tid hk
    cases hpost' : post with
    | true =>
        obtain ⟨j, hj, hnil⟩ := hwaiting hpost'
        obtain rfl := h.unique j k n tid hj hk
        obtain rfl : n = tid := by simpa [hk] using hj.symm
        simp [hself, hsem, hpost', hnil]
    | false =>
        by_cases htid : tid = n
        · subst htid
          simpa [hself, hsem, hpost'] using hpending
        · rw [hother tid htid]
          exact ⟨habsent, by simpa [hsem, hpost'] using hpending⟩
  · cases hpost' : post with
    | true =>
        obtain ⟨k, hk, -⟩ := hwaiting hpost'
        exact (hidle k n (hcalls ▸ hk)).elim
    | false => simpa [hsem, hpost'] using h.idle hidle
  · rw [hcalls]
    by_cases hm : m = n
    · subst hm
      obtain rfl : p' = q := by simpa [hself] using hq
      rw [hposted, Bool.or_eq_false_iff] at hunposted
      exact h.unposted m p hp hunposted.1
    · rw [hother m hm] at hq
      exact h.unposted m q hq hunposted

theorem exitStep (h : w.HandshakeInv) {n : ℕ} {p : WamrPoint} {result : Int}
    (hp : (w.threads n).phase = .live p) (hreturned : wamrVtable.threadResult p = some result) :
    (w.exitStep n result).HandshakeInv := by
  have hposted : p.posted = true := by
    cases p <;> simp [wamrVtable] at hreturned
    rfl
  have hposts : ∀ m, ((w.exitStep n result).threads m).posts = (w.threads m).posts := by
    intro m
    by_cases hm : m = n <;> simp [ContainerWorld.exitStep, hm]
  have hother : ∀ m, m ≠ n → (w.exitStep n result).threads m = w.threads m := by
    intro m hm
    simp [ContainerWorld.exitStep, hm]
  have hcalls : ∀ k tid, (w.exitStep n result).calls k = .semWait tid ↔
      w.calls k = .semWait tid := by
    intro k tid
    simp only [ContainerWorld.exitStep, broadcast]
    split <;> simp_all
  refine ⟨fun m q hq ↦ ?_, fun m r hq ↦ ?_, ?_, fun k tid hk ↦ ?_, ?_,
    fun m q hq hunposted ↦ ?_⟩
  · have hm : m ≠ n := by
      rintro rfl
      simp [ContainerWorld.exitStep] at hq
    rw [hother m hm] at hq ⊢
    exact h.posts m q hq
  · rw [hposts]
    by_cases hm : m = n
    · subst hm
      simp [h.posts m p hp, hposted]
    · exact h.exited m r (hother m hm ▸ hq)
  · simpa only [hcalls] using h.unique
  · rw [hposts]
    obtain ⟨habsent, hpending⟩ := h.waiting k tid ((hcalls k tid).mp hk)
    refine ⟨?_, hpending⟩
    by_cases htid : tid = n
    · simp [ContainerWorld.exitStep, htid]
    · rwa [hother tid htid]
  · intro hidle
    exact h.idle fun k tid hk ↦ hidle k tid ((hcalls k tid).mpr hk)
  · have hm : m ≠ n := by
      rintro rfl
      simp [ContainerWorld.exitStep] at hq
    rw [hother m hm] at hq
    obtain ⟨k, hk⟩ := h.unposted m q hq hunposted
    exact ⟨k, (hcalls k m).mpr hk⟩

theorem step (h : w.HandshakeInv) (hw : w.Inv) {a : Act WamrExt}
    (hstart : ∀ k calls, a = .start k calls → calls = {} →
      w.container.status = .created ∨ w.container.status = .stopped → w.NoneWaiting)
    (hok : collects a = false → HandshakeOk a w) (hstep : Step wamrVtable w a w') :
    w'.HandshakeInv := by
  cases hstep with
  | startRefused k calls hk =>
      exact h.finish (fun _ ↦ rfl) (fun _ ↦ rfl) rfl rfl (by simp [hk]) nofun
  | startFailed k calls attr hk hs =>
      exact h.finish (fun _ ↦ rfl) (fun _ ↦ rfl) rfl rfl (by simp [hk]) nofun
  | createFailed k calls hk hs =>
      exact h.finish (fun _ ↦ rfl) (fun _ ↦ rfl) rfl rfl (by simp [hk]) nofun
  | threadCreated k calls hk hcalls hs =>
      exact h.threadCreated hw hs (hstart k calls rfl hcalls hs) rfl rfl rfl
  | semWaitFailed k rc tid hk hrc => exact absurd (hok rfl) hrc
  | semWaitPast k rc tid post posts hk hrc hsem =>
      refine h.semWaitPast hk hsem rfl rfl rfl fun _ ↦ ?_
      split <;> nofun
  | storeError k admitted hk =>
      exact h.finish (fun _ ↦ rfl) (fun _ ↦ rfl) rfl rfl (by simp [hk]) nofun
  | signal k sig ext hk =>
      obtain ⟨ctx, status, heq, -⟩ := ocreContainerSignal_spec wamrVtable sig ext w.container
      refine h.finish (fun _ ↦ rfl) (fun _ ↦ rfl) ?_ rfl (by simp [hk]) nofun
      rw [heq]
      rfl
  | getStatus k ret hk =>
      exact h.finish (fun _ ↦ rfl) (fun _ ↦ rfl) rfl rfl (by simp [hk]) nofun
  | wait k dst condRc hk =>
      exact h.finish (fun _ ↦ rfl) (fun _ ↦ rfl) rfl rfl (by simp [hk])
        (WaitCaller.proceed_ne_semWait _ _ _)
  | nestedWait k condRc hk =>
      exact h.finish (fun _ ↦ rfl) (fun _ ↦ rfl) rfl rfl (by simp [hk])
        (WaitCaller.proceed_ne_semWait _ _ _)
  | spurious k caller run hk =>
      exact h.finish (fun _ ↦ rfl) (fun _ ↦ rfl) rfl rfl (by simp [hk]) nofun
  | resume k caller run hk =>
      refine h.finish (fun _ ↦ rfl) (fun _ ↦ rfl) rfl rfl (by simp [hk]) ?_
      exact WaitCaller.proceed_ne_semWait caller run (some _)
  | destroyRead k hk hmutex =>
      refine h.finish (fun _ ↦ rfl) (fun _ ↦ rfl) rfl rfl (by simp [hk]) fun _ ↦ ?_
      split <;> nofun
  | destroyJoinFailed k hk hexited hjoins =>
      exact h.finish (w.joinThread_phase _) (w.joinThread_posts _) rfl rfl (by simp [hk]) nofun
  | destroyJoined k hk hexited hjoins =>
      exact h.finish (w.joinThread_phase _) (w.joinThread_posts _) rfl rfl (by simp [hk]) nofun
  | destroyStore k hk =>
      exact h.finish (fun _ ↦ rfl) (fun _ ↦ rfl) rfl rfl (by simp [hk]) nofun
  | destroyRefused k hk =>
      exact h.finish (fun _ ↦ rfl) (fun _ ↦ rfl) rfl rfl (by simp [hk]) nofun
  | destroyChecked k hk hs =>
      exact h.finish (fun _ ↦ rfl) (fun _ ↦ rfl) rfl rfl (by simp [hk]) nofun
  | destroyFree k hk =>
      exact h.finish (fun _ ↦ rfl) (fun _ ↦ rfl) rfl rfl (by simp [hk]) nofun
  | thread n ext p hp hresult => exact h.threadStep hp fun hinst ↦ hok rfl (hinst ▸ hp)
  | exit n p result hp hresult => exact h.exitStep hp hresult

end HandshakeInv

theorem HandshakeInv.of_reachableWhere
    (h : (containerSystem wamrVtable).ReachableWhere HandshakeOk w) : w.HandshakeInv := by
  refine h.invariant_of (fun _ ↦ Inv.of_reachable) (fun _ ↦ HandshakeInv.of_fresh) ?_
  intro a v v' hv hinv hok hnext
  obtain ⟨-, -, hstep⟩ := next_cases hnext
  by_cases hcollects : collects a = true
  · rw [if_pos hcollects] at hstep
    refine hinv.collect.step hv.collect ?_ (by simp [hcollects]) hstep
    rintro k calls rfl hcalls hs j tid
    rw [collect_calls]
    exact hok hcalls hs j tid
  · rw [if_neg hcollects] at hstep
    refine hinv.step hv ?_ (fun _ ↦ hok) hstep
    rintro k calls rfl
    simp [collects] at hcollects

/-- In every run whose steps all meet the condition, the handshake works. -/
theorem handshake_of_reachableWhere
    (h : (containerSystem wamrVtable).ReachableWhere HandshakeOk w) : w.Handshake :=
  (HandshakeInv.of_reachableWhere h).handshake

/-- A whole run, and a second start that is past its `sem_wait`. -/
theorem handshake_of_restart :
    ∃ w, (containerSystem wamrVtable).run wamrWorld
        [.start 0 {}, .thread 0 {}, .thread 0 {}, .thread 0 {}, .semWait 0 0, .thread 0 {},
          .thread 0 {}, .thread 0 {}, .thread 0 {}, .exit 0, .start 1 {}, .thread 1 {},
          .thread 1 {}, .thread 1 {}, .semWait 1 0] = some w ∧
      w.calls 1 = .returned 0 none ∧ w.Handshake := by
  have hmeets : (containerSystem wamrVtable).RunMeets HandshakeOk wamrWorld
      [.start 0 {}, .thread 0 {}, .thread 0 {}, .thread 0 {}, .semWait 0 0, .thread 0 {},
        .thread 0 {}, .thread 0 {}, .thread 0 {}, .exit 0, .start 1 {}, .thread 1 {},
        .thread 1 {}, .thread 1 {}, .semWait 1 0] := by
    refine .cons rfl (fun _ _ ↦ nofun) ?_
    iterate 3 refine .cons rfl (fun _ ↦ rfl) ?_
    refine .cons rfl rfl ?_
    iterate 4 refine .cons rfl (fun _ ↦ rfl) ?_
    refine .cons rfl trivial (.cons rfl (fun _ _ k tid hk ↦ ?_) ?_)
    · change broadcast (update (update (fun _ ↦ .idle) 0 (.semWait 0)) 0 (.returned 0 none)) k =
        .semWait tid at hk
      by_cases hzero : k = 0 <;> simp [broadcast, hzero] at hk
    iterate 3 refine .cons rfl (fun _ ↦ rfl) ?_
    exact .cons rfl rfl trivial
  exact ⟨_, rfl, rfl, handshake_of_reachableWhere (.run (.start wamrWorld_fresh) hmeets rfl)⟩

/-- A module that does not instantiate never posts, and its start waits for ever. -/
theorem not_handshake_of_failed_instantiate :
    ¬ ∀ w, (containerSystem wamrVtable).Reachable w → w.Handshake := by
  intro h
  have hrun : ∃ w, (containerSystem wamrVtable).run wamrWorld
      [.start 0 {}, .thread 0 { instantiates := false }, .exit 0] = some w ∧
      w.calls 0 = .semWait 0 ∧ w.container.semStart = [] ∧
      (w.threads 0).phase = .exited (-1) := ⟨_, rfl, rfl, rfl, rfl⟩
  obtain ⟨w, hw, hcall, hsem, hphase⟩ := hrun
  rcases (h w (.run (.start wamrWorld_fresh) hw)).waiting 0 0 hcall with hpending | ⟨p, hp, -⟩
  · exact hpending hsem
  · cases hphase.symm.trans hp

end ContainerWorld

end OcreRuntime
