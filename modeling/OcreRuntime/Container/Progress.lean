import Mathlib.Algebra.BigOperators.Group.Finset.Piecewise
import Mathlib.Algebra.Order.BigOperators.Group.Finset
import OcreRuntime.Container.Ending

/-!
# No call hangs

In every state that callers can bring about, the thread and the calls in progress can go on
until all of them have returned, without a new call. A call that waits for the semaphore, for
the condition or for the end of a thread does so only while a thread is alive that will release
it. This needs a thread function that posts before it returns and can end, and no failing
`pthread_create`, which leaves RUNNING for a moment without a thread.
-/

namespace OcreRuntime

section Runtime

variable {Point Ctx Ext : Type} (V : OcreRuntimeVtable Point Ctx Ext)

/-- The points behind the post to the semaphore; a return is one of them. -/
structure OcreRuntimeVtable.PostsFirst (posted : Point → Prop) : Prop where
  entry : ¬ posted V.threadEntry
  step : ∀ ext p ctx, posted (V.threadExecute ext p ctx).1 →
    posted p ∨ (V.threadExecute ext p ctx).2.2 = true
  result : ∀ p, V.threadResult p ≠ none → posted p

/-- From a point the thread function can come to its return. -/
inductive OcreRuntimeVtable.Ends (V : OcreRuntimeVtable Point Ctx Ext) : Point → Ctx → Prop
  | result {p : Point} {ctx : Ctx} {result : Int} :
      V.threadResult p = some result → Ends V p ctx
  | step {p : Point} {ctx : Ctx} (ext : Ext) : V.threadResult p = none →
      Ends V (V.threadExecute ext p ctx).1 (V.threadExecute ext p ctx).2.1 → Ends V p ctx

end Runtime

/-- The steps of the threads, and of calls that have begun. No wait is given up: what a call
waits for has to come. -/
def Act.continues {Ext : Type} : Act Ext → Bool
  | .semWait _ rc | .nestedWait _ rc => rc = 0
  | .storeError _ | .resume _ | .destroyJoin _ | .destroyStore _ | .destroyCheck _
  | .destroyFree _ | .thread .. | .exit _ => true
  | .start .. | .signal .. | .getStatus _ | .wait .. | .spurious _ | .destroyRead _ => false

def CallState.done : CallState → Bool
  | idle | returned .. => true
  | _ => false

/-- How many more steps of its own a call may take, once no thread is alive. -/
def CallState.rank : CallState → ℕ
  | idle | returned .. => 0
  | waitCall | errorStatus _ | woken .. | condWait .. | destroyFree => 1
  | semWait _ | destroyCheck => 2
  | destroyStore => 3
  | destroyJoin => 4

/-- 1 for a call that waits for a post. -/
def CallState.handshake : CallState → ℕ
  | semWait _ => 1
  | _ => 0

theorem WaitCaller.finish_done (caller : WaitCaller) (r : WaitResult) :
    (caller.finish r).done = true := by
  cases caller <;> rfl

/-- A wait call goes on to block, or returns. -/
theorem WaitCaller.proceed_cases (caller : WaitCaller) (run : ℕ) (r : Option WaitResult) :
    (r = none ∧ caller.proceed run r = .condWait caller run) ∨
      (caller.proceed run r).done = true := by
  cases r with
  | none => exact .inl ⟨rfl, rfl⟩
  | some r => exact .inr (caller.finish_done r)

theorem running_of_waitResult {Ctx : Type} {condRc : Int} {dst : Bool} {c : OcreContainer Ctx}
    (h : waitResult condRc dst c = none) : c.status = .running := by
  unfold waitResult at h
  split_ifs at h
  assumption

theorem CallState.rank_of_done {st : CallState} (h : st.done = true) : st.rank = 0 := by
  cases st <;> first | rfl | cases h

theorem CallState.done_of_rank {st : CallState} (h : st.rank = 0) : st.done = true := by
  cases st <;> first | rfl | cases h

theorem CallState.handshake_of_done {st : CallState} (h : st.done = true) :
    st.handshake = 0 := by
  cases st <;> first | rfl | cases h

namespace ContainerWorld

open Function (update)

variable {Point Ctx Ext : Type} {V : OcreRuntimeVtable Point Ctx Ext}
  {w w' : ContainerWorld Point Ctx} {posted : Point → Prop} {a : Act Ext} {k : ℕ}

/-- A start call does not find `pthread_create` failing. -/
def CreatesThread (a : Act Ext) (_ : ContainerWorld Point Ctx) : Prop :=
  match a with
  | .start _ calls => calls.pthreadCreate = 0
  | _ => True

instance (a : Act Ext) (w : ContainerWorld Point Ctx) : Decidable (CreatesThread a w) :=
  match a with
  | .start .. => inferInstanceAs (Decidable (_ = _))
  | .semWait .. | .storeError _ | .signal .. | .getStatus _ | .wait .. | .nestedWait ..
  | .spurious _ | .resume _ | .destroyRead _ | .destroyJoin _ | .destroyStore _
  | .destroyCheck _ | .destroyFree _ | .thread .. | .exit _ => .isTrue trivial

def Live (w : ContainerWorld Point Ctx) : Prop := ∃ n p, (w.threads n).phase = .live p

/-- The status is one of a thread that executes. -/
def Executes (w : ContainerWorld Point Ctx) : Prop :=
  w.container.status = .running ∨ w.container.status = .paused

/-- A sum over the calls of a finite set. -/
def total (f : CallState → ℕ) (F : Finset ℕ) (w : ContainerWorld Point Ctx) : ℕ :=
  ∑ k ∈ F, f (w.calls k)

/-- The posts that all threads have made. -/
def allPosts (w : ContainerWorld Point Ctx) : ℕ := ∑ n ∈ Finset.range w.created, (w.threads n).posts

/-- What waits is waited for: the status of an execution and a call blocked on the condition
have a live thread, and for each call blocked on the semaphore there is a post, or a thread that
has not posted yet. -/
structure ProgressInv (posted : Point → Prop) (F : Finset ℕ) (w : ContainerWorld Point Ctx) :
    Prop where
  calls : ∀ k, k ∉ F → w.calls k = .idle
  begun : ∀ n < w.created, (w.threads n).phase ≠ .absent
  executes : w.Executes → w.Live
  blocked : ∀ k caller run, w.calls k = .condWait caller run → w.Live
  posted : ∀ n p, (w.threads n).phase = .live p → posted p → (w.threads n).posts ≠ 0
  ended : ∀ n r, (w.threads n).phase = .exited r → (w.threads n).posts ≠ 0
  handshakes : w.total CallState.handshake F + w.allPosts ≤ w.created + w.container.semStart.length
  joining : ∀ k, w.calls k = .destroyJoin → 0 < w.created

theorem live_congr (hphase : ∀ n, (w'.threads n).phase = (w.threads n).phase) :
    w'.Live ↔ w.Live := by
  simp only [Live, hphase]

/-- A start call that fails although `pthread_create` would not has not stored RUNNING. -/
theorem ocreContainerStart_failed {joinRc : Int} {calls : StartCalls} {tid : ℕ}
    {c : OcreContainer Ctx} (hcreate : calls.pthreadCreate = 0)
    (h : (ocreContainerStart joinRc calls tid c).1 = .failed) :
    (ocreContainerStart joinRc calls tid c).2.status ≠ .running := by
  have hstatus : (ocreContainerStatusLocked joinRc c).1 = .unknown ∨
      (ocreContainerStatusLocked joinRc c).2.status = (ocreContainerStatusLocked joinRc c).1 := by
    unfold ocreContainerStatusLocked
    split_ifs <;> simp
  simp only [ocreContainerStart, hcreate] at h ⊢
  split_ifs at h ⊢ with hready hattr hmalloc
  · rcases hstatus with hs | hs
    · simp [hs] at hready
    · rw [hs]
      rintro hrunning
      simp [hrunning] at hready
  · rcases hstatus with hs | hs
    · simp [hs] at hready
    · dsimp only
      rw [hs]
      rintro hrunning
      simp [hrunning] at hready
  · exact absurd rfl ‹_›

theorem startStep_ne {calls : StartCalls} (hcreate : calls.pthreadCreate = 0) :
    w.startStep V k calls ≠ w.collect.finish k
      { w.collect.container with attr := false, status := .running } (.errorStatus true) := by
  intro heq
  unfold startStep at heq
  dsimp only at heq
  split at heq
  · have hcall := congrFun (congrArg ContainerWorld.calls heq) k
    simp at hcall
  · rename_i hfailed
    have hrunning := congrArg (fun w' ↦ w'.container.status) heq
    exact ocreContainerStart_failed hcreate hfailed hrunning
  · have hcall := congrFun (congrArg ContainerWorld.calls heq) k
    simp at hcall

theorem total_update {f : CallState → ℕ} {F : Finset ℕ} {st : CallState} (hk : k ∈ F)
    (hcalls : w'.calls = update w.calls k st) :
    w'.total f F + f (w.calls k) = w.total f F + f st := by
  simp only [total, hcalls]
  have hsum : ∑ j ∈ F, f (update w.calls k st j) = f st + ∑ j ∈ F \ {k}, f (w.calls j) := by
    rw [← Finset.sum_update_of_mem hk]
    refine Finset.sum_congr rfl fun j _ ↦ ?_
    by_cases hj : j = k
    · subst hj
      simp
    · simp [hj]
  rw [hsum, Finset.sum_eq_add_sum_sdiff_singleton_of_mem hk]
  omega

theorem total_insert {f : CallState → ℕ} {F : Finset ℕ} (hf : f .idle = 0)
    (hcalls : ∀ k, k ∉ F → w.calls k = .idle) : w.total f (insert k F) = w.total f F := by
  by_cases hk : k ∈ F
  · rw [Finset.insert_eq_of_mem hk]
  · rw [total, Finset.sum_insert hk, hcalls k hk, hf, Nat.zero_add, total]

/-- The set may be given one more call. -/
theorem ProgressInv.insert {F : Finset ℕ} (h : w.ProgressInv posted F) (k : ℕ) :
    w.ProgressInv posted (insert k F) where
  __ := h
  calls j hj := h.calls j fun hmem ↦ hj (Finset.mem_insert_of_mem hmem)
  handshakes := by
    rw [total_insert rfl h.calls]
    exact h.handshakes

namespace ProgressInv

variable {F : Finset ℕ}

theorem of_fresh (h : w.Fresh) : w.ProgressInv posted ∅ where
  calls k _ := h.calls k
  begun n hn := by simp [h.created] at hn
  executes hs := by simp [Executes, h.status] at hs
  blocked k caller run hk := by simp [h.calls] at hk
  posted n p hp := by simp [h.threads] at hp
  ended n r hr := by simp [h.threads] at hr
  handshakes := by simp [total, allPosts, h.created]
  joining k hk := by simp [h.calls] at hk

/-- A step of one call that leaves the threads as they are, but for joins. -/
theorem finish (h : w.ProgressInv posted F) {st : CallState} (hk : k ∈ F)
    (hphase : ∀ n, (w'.threads n).phase = (w.threads n).phase)
    (hposts : ∀ n, (w'.threads n).posts = (w.threads n).posts)
    (hcreated : w'.created = w.created) (hcalls : w'.calls = update w.calls k st)
    (hstatus : w'.Executes → w.Executes)
    (hsem : w.container.semStart.length + st.handshake ≤
      w'.container.semStart.length + (w.calls k).handshake)
    (hcond : ∀ caller run, st = .condWait caller run → w.Live)
    (hjoin : st = .destroyJoin → 0 < w.created) : w'.ProgressInv posted F where
  calls j hj := by
    have hne : j ≠ k := by
      rintro rfl
      exact hj hk
    rw [hcalls, Function.update_of_ne hne, h.calls j hj]
  begun n hn := by
    rw [hphase]
    exact h.begun n (hcreated ▸ hn)
  executes hs := (live_congr hphase).mpr (h.executes (hstatus hs))
  blocked j caller run hj := by
    rw [live_congr hphase]
    by_cases hjk : j = k
    · subst hjk
      rw [hcalls, Function.update_self] at hj
      exact hcond caller run hj
    · rw [hcalls, Function.update_of_ne hjk] at hj
      exact h.blocked j caller run hj
  posted n p hp := by
    rw [hposts]
    exact h.posted n p (hphase n ▸ hp)
  ended n r hr := by
    rw [hposts]
    exact h.ended n r (hphase n ▸ hr)
  handshakes := by
    have hsame : w'.allPosts = w.allPosts := by
      simp only [allPosts, hcreated, hposts]
    have htotal := total_update (f := CallState.handshake) hk hcalls
    have hle := h.handshakes
    rw [hsame, hcreated]
    omega
  joining j hj := by
    rw [hcreated]
    by_cases hjk : j = k
    · subst hjk
      rw [hcalls, Function.update_self] at hj
      exact hjoin hj
    · rw [hcalls, Function.update_of_ne hjk] at hj
      exact h.joining j hj

theorem collect (h : w.ProgressInv posted F) : w.collect.ProgressInv posted F where
  calls k hk := by simpa using h.calls k hk
  begun n hn := by
    rw [collect_phase]
    exact h.begun n (by simpa using hn)
  executes hs := by
    rw [live_congr w.collect_phase]
    refine h.executes ?_
    rcases w.collect_status with heq | ⟨-, heq⟩
    · simpa only [Executes, heq] using hs
    · simp [Executes, heq] at hs
  blocked k caller run hk := by
    rw [live_congr w.collect_phase]
    exact h.blocked k caller run (by simpa using hk)
  posted n p hp := by
    rw [collect_posts]
    exact h.posted n p (w.collect_phase n ▸ hp)
  ended n r hr := by
    rw [collect_posts]
    exact h.ended n r (w.collect_phase n ▸ hr)
  handshakes := by
    simpa only [total, allPosts, collect_calls, collect_created, collect_posts,
      collect_semStart] using h.handshakes
  joining k hk := by simpa using h.joining k (by simpa using hk)

theorem threadCreated (h : w.ProgressInv posted F) (hk : k ∈ F)
    (hV : V.PostsFirst posted) (hidle : w.calls k = .idle)
    (hthreads : w'.threads = update w.threads w.created { phase := .live V.threadEntry })
    (hcreated : w'.created = w.created + 1)
    (hsem : w'.container.semStart = w.container.semStart)
    (hcalls : w'.calls = update w.calls k (.semWait w.created)) : w'.ProgressInv posted F := by
  have hself : w'.threads w.created = { phase := .live V.threadEntry } := by
    rw [hthreads, Function.update_self]
  have hother {n : ℕ} (hn : n ≠ w.created) : w'.threads n = w.threads n := by
    rw [hthreads, Function.update_of_ne hn]
  have hlive : w'.Live := ⟨w.created, V.threadEntry, by rw [hself]⟩
  refine ⟨fun j hj ↦ ?_, fun n hn ↦ ?_, fun _ ↦ hlive, fun _ _ _ _ ↦ hlive, fun n p hp hposted ↦ ?_,
    fun n r hr ↦ ?_, ?_, fun _ _ ↦ by omega⟩
  · have hne : j ≠ k := by
      rintro rfl
      exact hj hk
    rw [hcalls, Function.update_of_ne hne, h.calls j hj]
  · by_cases hne : n = w.created
    · subst hne
      simp [hself]
    · rw [hother hne]
      exact h.begun n (by omega)
  · by_cases hne : n = w.created
    · subst hne
      rw [hself] at hp
      obtain rfl : V.threadEntry = p := ThreadPhase.live.inj hp
      exact absurd hposted hV.entry
    · rw [hother hne] at hp ⊢
      exact h.posted n p hp hposted
  · have hne : n ≠ w.created := by
      rintro rfl
      simp [hself] at hr
    rw [hother hne] at hr ⊢
    exact h.ended n r hr
  · have htotal := total_update (f := CallState.handshake) hk hcalls
    have hposts : w'.allPosts = w.allPosts := by
      have hsum : ∑ n ∈ Finset.range w.created, (w'.threads n).posts = w.allPosts :=
        Finset.sum_congr rfl fun n hn ↦ by rw [hother (Finset.mem_range.mp hn).ne]
      rw [allPosts, hcreated, Finset.sum_range_succ, hself, hsum]
      exact Nat.add_zero _
    have hle := h.handshakes
    rw [hidle] at htotal
    simp only [CallState.handshake] at htotal
    rw [hposts, hcreated, hsem]
    omega

theorem threadStep (h : w.ProgressInv posted F) (hw : w.Inv) (hV : V.PostsFirst posted) {n : ℕ}
    {ext : Ext} {p : Point} (hp : (w.threads n).phase = .live p) :
    (w.threadStep V n ext p).ProgressInv posted F := by
  let post := (V.threadExecute ext p w.container.runtimeContext).2.2
  have hself : (w.threadStep V n ext p).threads n =
      { w.threads n with
        phase := .live (V.threadExecute ext p w.container.runtimeContext).1
        posts := (w.threads n).posts + if post then 1 else 0 } := Function.update_self ..
  have hother {m : ℕ} (hm : m ≠ n) : (w.threadStep V n ext p).threads m = w.threads m :=
    Function.update_of_ne hm ..
  have hlive : (w.threadStep V n ext p).Live := ⟨n, _, by rw [hself]⟩
  refine ⟨h.calls, fun m hm ↦ ?_, fun _ ↦ hlive, fun _ _ _ _ ↦ hlive, fun m q hq hposted ↦ ?_,
    fun m r hr ↦ ?_, ?_, h.joining⟩
  · by_cases hmn : m = n
    · subst hmn
      simp [hself]
    · rw [hother hmn]
      exact h.begun m hm
  · by_cases hmn : m = n
    · subst hmn
      rw [hself] at hq ⊢
      obtain rfl := ThreadPhase.live.inj hq
      rcases hV.step _ _ _ hposted with hbefore | hpost
      · have hne := h.posted m p hp hbefore
        dsimp only
        omega
      · simp [post, hpost]
    · rw [hother hmn] at hq ⊢
      exact h.posted m q hq hposted
  · have hmn : m ≠ n := by
      rintro rfl
      simp [hself] at hr
    rw [hother hmn] at hr ⊢
    exact h.ended m r hr
  · have hlt : n ∈ Finset.range w.created := Finset.mem_range.mpr (hw.lt_created_of_live hp)
    have hsum : (w.threadStep V n ext p).allPosts = w.allPosts + if post then 1 else 0 := by
      have hrest : ∑ m ∈ Finset.range w.created \ {n}, ((w.threadStep V n ext p).threads m).posts =
          ∑ m ∈ Finset.range w.created \ {n}, (w.threads m).posts := by
        refine Finset.sum_congr rfl fun m hm ↦ ?_
        rw [hother (by simpa using (Finset.mem_sdiff.mp hm).2)]
      have hcreated : (w.threadStep V n ext p).created = w.created := rfl
      rw [allPosts, allPosts, hcreated, Finset.sum_eq_add_sum_sdiff_singleton_of_mem hlt, hrest,
        Finset.sum_eq_add_sum_sdiff_singleton_of_mem hlt, hself]
      dsimp only
      omega
    have hsem : (w.threadStep V n ext p).container.semStart.length =
        w.container.semStart.length + if post then 1 else 0 := by
      have happend : (w.threadStep V n ext p).container.semStart =
          w.container.semStart ++ if post then [n] else [] := rfl
      rw [happend, List.length_append]
      cases post <;> rfl
    have hle := h.handshakes
    have htotal : (w.threadStep V n ext p).total CallState.handshake F =
      w.total CallState.handshake F := rfl
    have hcreated : (w.threadStep V n ext p).created = w.created := rfl
    rw [htotal, hsum, hsem, hcreated]
    omega

theorem exitStep (h : w.ProgressInv posted F) (hV : V.PostsFirst posted) {n : ℕ}
    {p : Point} {result : Int} (hp : (w.threads n).phase = .live p)
    (hresult : V.threadResult p = some result) : (w.exitStep n result).ProgressInv posted F := by
  have hself : (w.exitStep n result).threads n = { w.threads n with phase := .exited result } :=
    Function.update_self ..
  have hother {m : ℕ} (hm : m ≠ n) : (w.exitStep n result).threads m = w.threads m :=
    Function.update_of_ne hm ..
  have hbroadcast (k : ℕ) : (broadcast w.calls k).handshake = (w.calls k).handshake := by
    unfold broadcast
    split
    · rename_i hk
      rw [hk]
      rfl
    · rfl
  refine ⟨fun k hk ↦ ?_, fun m hm ↦ ?_, fun hs ↦ ?_, fun k caller run hk ↦ ?_,
    fun m q hq hposted ↦ ?_, fun m r hr ↦ ?_, ?_, fun k hk ↦ ?_⟩
  · simp [ContainerWorld.exitStep, broadcast, h.calls k hk]
  · by_cases hmn : m = n
    · subst hmn
      simp [hself]
    · rw [hother hmn]
      exact h.begun m hm
  · simp [Executes, ContainerWorld.exitStep, containerThreadExit] at hs
  · simp only [ContainerWorld.exitStep, broadcast] at hk
    split at hk <;> simp_all
  · have hmn : m ≠ n := by
      rintro rfl
      simp [hself] at hq
    rw [hother hmn] at hq ⊢
    exact h.posted m q hq hposted
  · by_cases hmn : m = n
    · subst hmn
      rw [hself]
      exact h.posted m p hp (hV.result p (by simp [hresult]))
    · rw [hother hmn] at hr ⊢
      exact h.ended m r hr
  · have hposts : (w.exitStep n result).allPosts = w.allPosts := by
      refine Finset.sum_congr rfl fun m _ ↦ ?_
      by_cases hmn : m = n
      · subst hmn
        rw [hself]
      · rw [hother hmn]
    have htotal : (w.exitStep n result).total CallState.handshake F =
        w.total CallState.handshake F :=
      Finset.sum_congr rfl fun k _ ↦ hbroadcast k
    rw [hposts, htotal]
    exact h.handshakes
  · exact h.joining k ((broadcast_eq_iff rfl).mp hk)

theorem finishDone (h : w.ProgressInv posted F) {st : CallState} (hk : k ∈ F)
    (hphase : ∀ n, (w'.threads n).phase = (w.threads n).phase)
    (hposts : ∀ n, (w'.threads n).posts = (w.threads n).posts)
    (hcreated : w'.created = w.created) (hcalls : w'.calls = update w.calls k st)
    (hstatus : w'.Executes → w.Executes)
    (hsem : w.container.semStart.length ≤
      w'.container.semStart.length + (w.calls k).handshake)
    (hst : st.done = true) : w'.ProgressInv posted F := by
  refine h.finish hk hphase hposts hcreated hcalls hstatus ?_ ?_ ?_
  · rw [CallState.handshake_of_done hst]
    exact hsem
  · rintro caller run rfl
    cases hst
  · rintro rfl
    cases hst

theorem finishWait (h : w.ProgressInv posted F) (hk : k ∈ F) (caller : WaitCaller) (condRc : Int)
    (dst : Bool) :
    (w.finish k w.container
      (caller.proceed w.created (waitResult condRc dst w.container))).ProgressInv posted F := by
  rcases caller.proceed_cases w.created (waitResult condRc dst w.container) with
    ⟨hnone, hst⟩ | hst
  · have hlive := h.executes (.inl (running_of_waitResult hnone))
    rw [hst]
    exact h.finish hk (fun _ ↦ rfl) (fun _ ↦ rfl) rfl rfl id (Nat.le_add_right _ _)
      (fun _ _ _ ↦ hlive) (by simp)
  · exact h.finishDone hk (fun _ ↦ rfl) (fun _ ↦ rfl) rfl rfl id (Nat.le_add_right _ _) hst

/-- What a step does to the invariant, once it is not a start that leaves RUNNING behind. -/
theorem step (h : w.ProgressInv posted F) (hw : w.Inv) (hV : V.PostsFirst posted)
    (hk : ∀ k ∈ a.call, k ∈ F)
    (hstart : ∀ k calls, a = .start k calls →
      w' ≠ w.finish k { w.container with attr := false, status := .running } (.errorStatus true))
    (hstep : Step V w a w') : w'.ProgressInv posted F := by
  cases hstep with
  | startRefused k calls hidle =>
      exact h.finish (hk k rfl) (fun _ ↦ rfl) (fun _ ↦ rfl) rfl rfl id (Nat.le_add_right _ _)
        (by simp) (by simp)
  | startFailed k calls attr hidle hs =>
      exact h.finish (hk k rfl) (fun _ ↦ rfl) (fun _ ↦ rfl) rfl rfl id (Nat.le_add_right _ _)
        (by simp) (by simp)
  | createFailed k calls hidle hs => exact absurd rfl (hstart k calls rfl)
  | threadCreated k calls hidle hcalls hs =>
      exact h.threadCreated (hk k rfl) hV hidle rfl rfl rfl rfl
  | semWaitFailed k rc tid hcall hrc =>
      exact h.finish (hk k rfl) (fun _ ↦ rfl) (fun _ ↦ rfl) rfl rfl id (Nat.le_add_right _ _)
        (by simp) (by simp)
  | semWaitPast k rc tid post posts hcall hrc hsem =>
      refine h.finish (hk k rfl) (fun _ ↦ rfl) (fun _ ↦ rfl) rfl rfl id ?_ ?_ ?_
      · rw [hcall, hsem]
        dsimp only
        split <;> simp [CallState.handshake, ContainerWorld.finish]
      · split <;> simp
      · split <;> simp
  | storeError k admitted hcall =>
      refine h.finish (hk k rfl) (fun _ ↦ rfl) (fun _ ↦ rfl) rfl rfl ?_ (Nat.le_add_right _ _)
        (by simp) (by simp)
      rintro (hs | hs) <;> cases hs
  | signal k sig ext hidle =>
      obtain ⟨ctx, status, heq, hcases⟩ := ocreContainerSignal_spec V sig ext w.container
      rw [heq]
      refine h.finish (hk k rfl) (fun _ ↦ rfl) (fun _ ↦ rfl) rfl rfl ?_ (Nat.le_add_right _ _)
        (by simp) (by simp)
      intro hs
      rcases hcases with rfl | ⟨-, hrunning, -⟩ | ⟨-, hpaused, -⟩
      · exact hs
      · exact .inl hrunning
      · exact .inr hpaused
  | getStatus k ret hidle =>
      exact h.finish (hk k rfl) (fun _ ↦ rfl) (fun _ ↦ rfl) rfl rfl id (Nat.le_add_right _ _)
        (by simp) (by simp)
  | wait k dst condRc hidle => exact h.finishWait (hk k rfl) _ condRc dst
  | nestedWait k condRc hcall => exact h.finishWait (hk k rfl) _ condRc false
  | spurious k caller run hcall =>
      exact h.finish (hk k rfl) (fun _ ↦ rfl) (fun _ ↦ rfl) rfl rfl id (Nat.le_add_right _ _)
        (by simp) (by simp)
  | resume k caller run hcall =>
      exact h.finishDone (hk k rfl) (fun _ ↦ rfl) (fun _ ↦ rfl) rfl rfl id (Nat.le_add_right _ _)
        (caller.finish_done _)
  | destroyRead k hidle hmutex =>
      refine h.finish (hk k rfl) (fun _ ↦ rfl) (fun _ ↦ rfl) rfl rfl id ?_ ?_ ?_
      · split <;> exact Nat.le_add_right _ _
      · split <;> simp
      · split_ifs with hexited
        · exact fun _ ↦ (hw.exited hexited).1
        · simp
  | destroyJoinFailed k hcall hexited hjoins =>
      exact h.finishDone (hk k rfl) (w.joinThread_phase _) (w.joinThread_posts _) rfl rfl id
        (Nat.le_add_right _ _) rfl
  | destroyJoined k hcall hexited hjoins =>
      exact h.finish (hk k rfl) (w.joinThread_phase _) (w.joinThread_posts _) rfl rfl id
        (Nat.le_add_right _ _) (by simp) (by simp)
  | destroyStore k hcall =>
      refine h.finish (hk k rfl) (fun _ ↦ rfl) (fun _ ↦ rfl) rfl rfl ?_ (Nat.le_add_right _ _)
        (by simp) (by simp)
      rintro (hs | hs) <;> cases hs
  | destroyRefused k hcall =>
      exact h.finish (hk k rfl) (fun _ ↦ rfl) (fun _ ↦ rfl) rfl rfl id (Nat.le_add_right _ _)
        (by simp) (by simp)
  | destroyChecked k hcall hs =>
      exact h.finish (hk k rfl) (fun _ ↦ rfl) (fun _ ↦ rfl) rfl rfl id (Nat.le_add_right _ _)
        (by simp) (by simp)
  | destroyFree k hcall =>
      exact h.finish (hk k rfl) (fun _ ↦ rfl) (fun _ ↦ rfl) rfl rfl id (Nat.le_add_right _ _)
        (by simp) (by simp)
  | thread n ext p hp hresult => exact h.threadStep hw hV hp
  | exit n p result hp hresult => exact h.exitStep hV hp hresult

theorem next_of_mem (h : w.ProgressInv posted F) (hw : w.Inv) (hV : V.PostsFirst posted)
    (hk : ∀ k ∈ a.call, k ∈ F) (ha : CreatesThread a w) (hnext : w.next V a = some w') :
    w'.ProgressInv posted F := by
  obtain ⟨hd, -, hstep⟩ := next_cases hnext
  split at hstep
  · refine h.collect.step hw.collect hV hk ?_ hstep
    rintro k calls rfl
    have hstart : some (w.startStep V k calls) = some w' := by
      rw [ContainerWorld.next, if_neg (by simp [hd])] at hnext
      exact (Option.ite_none_right_eq_some.mp hnext).2
    rw [← Option.some.inj hstart]
    exact startStep_ne ha
  · rename_i hcollects
    refine h.step hw hV hk ?_ hstep
    rintro k calls rfl
    exact absurd rfl hcollects

theorem of_reachable (hV : V.PostsFirst posted)
    (h : (containerSystem V).ReachableWhere CreatesThread w) :
    ∃ F, w.ProgressInv posted F := by
  refine h.invariant_of (I := fun w ↦ ∃ F, w.ProgressInv posted F)
    (fun _ ↦ Inv.of_reachable) (fun _ hinit ↦ ⟨∅, of_fresh hinit⟩) ?_
  rintro a w w' hw ⟨F, hprogress⟩ ha hnext
  cases hcall : a.call with
  | none => exact ⟨F, hprogress.next_of_mem hw hV (by simp [hcall]) ha hnext⟩
  | some k =>
      exact ⟨Insert.insert k F, (hprogress.insert k).next_of_mem hw hV (by simp [hcall]) ha hnext⟩

/-- Without a live thread a call blocked on the semaphore finds a post. -/
theorem semStart_ne_nil (h : w.ProgressInv posted F) (hquiet : ¬ w.Live) {tid : ℕ}
    (hk : w.calls k = .semWait tid) : w.container.semStart ≠ [] := by
  intro hnil
  have hmem : k ∈ F := by
    by_contra hk'
    simp [h.calls k hk'] at hk
  have hwaits : 1 ≤ w.total CallState.handshake F := by
    refine le_trans ?_ (Finset.single_le_sum (fun _ _ ↦ Nat.zero_le _) hmem)
    rw [hk]
    rfl
  have hposts : w.created ≤ w.allPosts := by
    have hone : ∀ n ∈ Finset.range w.created, 1 ≤ (w.threads n).posts := by
      intro n hn
      have hbegun := h.begun n (Finset.mem_range.mp hn)
      cases hphase : (w.threads n).phase with
      | absent => exact absurd hphase hbegun
      | live p => exact absurd ⟨n, p, hphase⟩ hquiet
      | exited r => exact Nat.pos_of_ne_zero (h.ended n r hphase)
    calc w.created = ∑ _n ∈ Finset.range w.created, 1 := by
          rw [← Finset.card_eq_sum_ones, Finset.card_range]
      _ ≤ w.allPosts := Finset.sum_le_sum hone
  have hle := h.handshakes
  rw [hnil] at hle
  simp only [List.length_nil] at hle
  omega

/-- A thread that has begun and is not alive has exited. -/
theorem isExited_thread (h : w.ProgressInv posted F) (hw : w.Inv) (hquiet : ¬ w.Live)
    (hcreated : 0 < w.created) : (w.threads w.container.thread).isExited = true := by
  have hhandle := hw.handle hcreated
  have hbegun := h.begun w.container.thread (by omega)
  unfold Thread.isExited
  cases hphase : (w.threads w.container.thread).phase with
  | absent => exact absurd hphase hbegun
  | live p => exact absurd ⟨_, p, hphase⟩ hquiet
  | exited r => rfl

end ProgressInv

/-- A step that a call takes by itself. -/
structure Advances (V : OcreRuntimeVtable Point Ctx Ext) (w : ContainerWorld Point Ctx) (k : ℕ)
    (a : Act Ext) (w' : ContainerWorld Point Ctx) : Prop where
  call : a.call = some k
  continues : a.continues = true
  next : w.next V a = some w'
  phase : ∀ n, (w'.threads n).phase = (w.threads n).phase
  destroyed : w'.destroyed = true → w.calls k = .destroyFree
  calls : ∃ st : CallState, w'.calls = update w.calls k st ∧ st.rank < (w.calls k).rank

theorem Advances.of_finish {v : ContainerWorld Point Ctx} {c : OcreContainer Ctx} {st : CallState}
    (hcall : a.call = some k) (hcontinues : a.continues = true)
    (hnext : w.next V a = some (v.finish k c st)) (hcalls : v.calls = w.calls)
    (hphase : ∀ n, (v.threads n).phase = (w.threads n).phase) (hd : v.destroyed = false)
    (hrank : st.rank < (w.calls k).rank) : Advances V w k a (v.finish k c st) where
  call := hcall
  continues := hcontinues
  next := hnext
  phase := hphase
  destroyed h := absurd (hd.symm.trans h) Bool.false_ne_true
  calls := ⟨st, by rw [← hcalls]; rfl, hrank⟩

variable {F : Finset ℕ}

/-- Without a live thread every call in progress can take a step. -/
theorem exists_advances (V : OcreRuntimeVtable Point Ctx Ext) (hw : w.Inv)
    (h : w.ProgressInv posted F) (hquiet : ¬ w.Live) (hd : w.destroyed = false)
    (hk : (w.calls k).done = false) : ∃ a w', Advances V w k a w' := by
  have hdestroyed : ¬ w.destroyed = true := by simp [hd]
  have hcan := hw.canCollect
  cases hcall : w.calls k with
  | idle | returned => simp [hcall, CallState.done] at hk
  | semWait tid =>
      obtain ⟨post, posts, hsem⟩ := List.exists_cons_of_ne_nil (h.semStart_ne_nil hquiet hcall)
      have hadvances : Advances V w k (.semWait k 0) (w.finish k
          { w.container with semStart := posts }
          (if w.container.detached then .returned 0 none else .waitCall)) := by
        refine .of_finish rfl rfl ?_ rfl (fun _ ↦ rfl) hd ?_
        · rw [ContainerWorld.next, if_neg hdestroyed]
          simp only [hcall, semWaitStep, hsem]
          rfl
        · rw [hcall]
          split <;> simp [CallState.rank]
      exact ⟨_, _, hadvances⟩
  | errorStatus admitted =>
      have hadvances : Advances V w k (.storeError k) (w.finish k
          { w.container with status := .error } (.returned (-1) none)) := by
        refine .of_finish rfl rfl ?_ rfl (fun _ ↦ rfl) hd ?_
        · rw [ContainerWorld.next, if_neg hdestroyed]
          simp only [hcall]
        · rw [hcall]
          simp [CallState.rank]
      exact ⟨_, _, hadvances⟩
  | waitCall =>
      let result := waitResult 0 false w.collect.container
      have hwait : w.next V (.nestedWait k 0) = some (w.collect.finish k w.collect.container
          (WaitCaller.start.proceed w.created result)) := by
        rw [ContainerWorld.next, if_neg hdestroyed]
        simp only [hcall, hcan, waitStep, ocreContainerWait_eq, result, collect_container]
        rfl
      refine ⟨_, _, .of_finish rfl rfl hwait w.collect_calls w.collect_phase
        (by rw [collect_destroyed, hd]) ?_⟩
      rcases WaitCaller.start.proceed_cases w.created result with ⟨hnone, -⟩ | hdone
      · refine absurd (h.collect.executes (.inl (running_of_waitResult hnone))) ?_
        rwa [live_congr w.collect_phase]
      · rw [CallState.rank_of_done hdone, hcall]
        decide
  | condWait caller run => exact absurd (h.blocked k caller run hcall) hquiet
  | woken caller run =>
      have hresume : w.next V (.resume k) = some (w.resumeStep k caller) := by
        rw [ContainerWorld.next, if_neg hdestroyed]
        simp only [hcall]
        exact if_pos hcan
      refine ⟨_, _, .of_finish rfl rfl hresume w.collect_calls w.collect_phase
        (by rw [collect_destroyed, hd]) ?_⟩
      rw [CallState.rank_of_done (caller.finish_done _), hcall]
      simp [CallState.rank]
  | destroyJoin =>
      have hexited := h.isExited_thread hw hquiet (h.joining k hcall)
      have hjoin : w.next V (.destroyJoin k) = some (if w.joinRc ≠ 0 then
            { w.finish k w.container (.returned (-1) none) with
              threads := w.joinThread w.container.thread
              contextMutex := none }
          else { w.finish k w.container .destroyStore with
            threads := w.joinThread w.container.thread }) := by
        rw [ContainerWorld.next, if_neg hdestroyed]
        exact if_pos ⟨hcall, hexited⟩
      split at hjoin
      · refine ⟨_, _, rfl, rfl, hjoin, w.joinThread_phase _, fun h' ↦ absurd h' hdestroyed,
          .returned (-1) none, rfl, ?_⟩
        rw [hcall]
        decide
      · refine ⟨_, _, rfl, rfl, hjoin, w.joinThread_phase _, fun h' ↦ absurd h' hdestroyed,
          .destroyStore, rfl, ?_⟩
        rw [hcall]
        decide
  | destroyStore =>
      have hstore : w.next V (.destroyStore k) = some (w.finish k
          { w.container with attr := false, status := .stopped } .destroyCheck) := by
        rw [ContainerWorld.next, if_neg hdestroyed]
        exact if_pos hcall
      refine ⟨_, _, .of_finish rfl rfl hstore rfl (fun _ ↦ rfl) hd ?_⟩
      rw [hcall]
      decide
  | destroyCheck =>
      have hcheck : w.next V (.destroyCheck k) = some (if w.container.status ≠ .stopped ∧
            w.container.status ≠ .created ∧ w.container.status ≠ .error then
            { w.finish k w.container (.returned (-1) none) with contextMutex := none }
          else w.finish k w.container .destroyFree) := by
        rw [ContainerWorld.next, if_neg hdestroyed]
        exact if_pos hcall
      split at hcheck
      · refine ⟨_, _, rfl, rfl, hcheck, fun _ ↦ rfl, fun h' ↦ absurd h' hdestroyed,
          .returned (-1) none, rfl, ?_⟩
        rw [hcall]
        decide
      · refine ⟨_, _, .of_finish rfl rfl hcheck rfl (fun _ ↦ rfl) hd ?_⟩
        rw [hcall]
        decide
  | destroyFree =>
      have hfree : w.next V (.destroyFree k) = some
          { w.finish k w.container (.returned 0 none) with
            contextMutex := none
            destroyed := true } := by
        rw [ContainerWorld.next, if_neg hdestroyed]
        exact if_pos hcall
      refine ⟨_, _, rfl, rfl, hfree, fun _ ↦ rfl, fun _ ↦ hcall, .returned 0 none, rfl, ?_⟩
      rw [hcall]
      decide

theorem createsThread_of_continues (ha : a.continues = true) : CreatesThread a w := by
  cases a <;> trivial

/-- The live thread can go on to its exit, after which there is none. -/
theorem exists_exit (hV : V.PostsFirst posted) {p : Point} {ctx : Ctx} (hends : V.Ends p ctx)
    {n : ℕ} (hp : (w.threads n).phase = .live p) (hctx : w.container.runtimeContext = ctx)
    (hw : w.Inv) (h : w.ProgressInv posted F) (hd : w.destroyed = false) :
    ∃ w', (containerSystem V).CanReach (fun a ↦ a.continues = true) w w' ∧ w'.Inv ∧
      w'.ProgressInv posted F ∧ w'.destroyed = false ∧ ¬ w'.Live := by
  have hdestroyed {v : ContainerWorld Point Ctx} (hv : v.destroyed = false) :
      ¬ v.destroyed = true := by simp [hv]
  induction hends generalizing w with
  | @result p ctx result hresult =>
      have hnext : w.next V (.exit n) = some (w.exitStep n result) := by
        rw [ContainerWorld.next, if_neg (hdestroyed hd)]
        simp only [hp, hresult, Option.map_some]
      have hreach : (containerSystem V).CanReach (fun a ↦ a.continues = true) w
          (w.exitStep n result) := .cons (a := .exit n) rfl hnext (.refl _)
      refine ⟨_, hreach, hw.next hnext, h.exitStep hV hp hresult, hd, ?_⟩
      rintro ⟨m, q, hm⟩
      by_cases hmn : m = n
      · subst hmn
        simp [exitStep] at hm
      · have hlive : (w.threads m).phase = .live q := by simpa [exitStep, hmn] using hm
        exact hmn ((hw.thread_eq_of_live hlive).symm.trans (hw.thread_eq_of_live hp))
  | @step p ctx ext hresult hends ih =>
      subst hctx
      have hnext : w.next V (.thread n ext) = some (w.threadStep V n ext p) := by
        rw [ContainerWorld.next, if_neg (hdestroyed hd)]
        simp only [hp]
        exact if_pos hresult
      obtain ⟨w', hreach, hrest⟩ := ih (w := w.threadStep V n ext p)
        (by simp [threadStep]) rfl (hw.next hnext) (h.threadStep hw hV hp) hd
      refine ⟨w', ?_, hrest⟩
      exact StepSystem.CanReach.cons (M := containerSystem V) (a := .thread n ext) rfl hnext hreach

/-- Between the exit of the thread and the return of the last call. -/
structure Settling (posted : Point → Prop) (F : Finset ℕ) (w : ContainerWorld Point Ctx) :
    Prop where
  inv : w.Inv
  progress : w.ProgressInv posted F
  quiet : ¬ w.Live
  destroyed : w.destroyed = true → ∀ k, (w.calls k).done = true

theorem Settling.step (hV : V.PostsFirst posted) (h : w.Settling posted F)
    (hopen : ¬ ∀ k, (w.calls k).done = true) :
    ∃ a w', Act.continues a = true ∧ (containerSystem V).next a w = some w' ∧
      w'.Settling posted F ∧ w'.total CallState.rank F < w.total CallState.rank F := by
  have hd : w.destroyed = false := Bool.eq_false_iff.mpr fun hd ↦ hopen (h.destroyed hd)
  -- a container is freed last
  have hchoice : ∃ k, (w.calls k).done = false ∧
      (w.calls k = .destroyFree → ∀ j, (w.calls j).done = false → j = k) := by
    by_cases hother : ∃ k, (w.calls k).done = false ∧ w.calls k ≠ .destroyFree
    · obtain ⟨k, hk, hne⟩ := hother
      exact ⟨k, hk, fun heq ↦ absurd heq hne⟩
    · obtain ⟨k, hk⟩ := not_forall.mp hopen
      have hfree (j : ℕ) (hj : (w.calls j).done = false) : w.calls j = .destroyFree := by
        by_contra hne
        exact hother ⟨j, hj, hne⟩
      refine ⟨k, Bool.eq_false_iff.mpr hk, fun hcall j hj ↦ h.inv.eq_of_removing ?_ ?_⟩
      · rw [hfree j hj]
        rfl
      · rw [hcall]
        rfl
  obtain ⟨k, hk, hlast⟩ := hchoice
  obtain ⟨a, w', hadvances⟩ := exists_advances V h.inv h.progress h.quiet hd hk
  obtain ⟨st, hcalls, hrank⟩ := hadvances.calls
  have hmem : k ∈ F := by
    by_contra hk'
    rw [h.progress.calls k hk'] at hk
    cases hk
  refine ⟨a, w', hadvances.continues, hadvances.next, ⟨h.inv.next hadvances.next, ?_, ?_, ?_⟩, ?_⟩
  · refine h.progress.next_of_mem h.inv hV ?_ (createsThread_of_continues hadvances.continues)
      hadvances.next
    simpa [hadvances.call] using hmem
  · rw [live_congr hadvances.phase]
    exact h.quiet
  · intro hd' j
    have hfree := hadvances.destroyed hd'
    rw [hcalls]
    by_cases hj : j = k
    · subst hj
      rw [Function.update_self]
      rw [hfree] at hrank
      exact CallState.done_of_rank (Nat.lt_one_iff.mp hrank)
    · rw [Function.update_of_ne hj]
      by_contra hopen'
      exact hj (hlast hfree j (Bool.eq_false_iff.mpr hopen'))
  · have htotal := total_update (f := CallState.rank) hmem hcalls
    omega

/-- Whatever callers have done and wherever the thread is, if it can come to its end, the calls
in progress can be completed without another call: all of them return and no thread is left. -/
theorem calls_return (hV : V.PostsFirst posted)
    (h : (containerSystem V).ReachableWhere CreatesThread w) (hd : w.destroyed = false)
    (hends : ∀ n p, (w.threads n).phase = .live p → V.Ends p w.container.runtimeContext) :
    ∃ w', (containerSystem V).CanReach (fun a ↦ a.continues = true) w w' ∧ ¬ w'.Live ∧
      ∀ k, (w'.calls k).done = true := by
  have hw := Inv.of_reachable h
  obtain ⟨F, hprogress⟩ := ProgressInv.of_reachable hV h
  have hquiet : ∃ v, (containerSystem V).CanReach (fun a ↦ a.continues = true) w v ∧
      v.Settling posted F := by
    by_cases hlive : w.Live
    · obtain ⟨n, p, hp⟩ := hlive
      obtain ⟨v, hreach, hv, hprogress', hd', hquiet⟩ :=
        exists_exit hV (hends n p hp) hp rfl hw hprogress hd
      exact ⟨v, hreach, hv, hprogress', hquiet, fun hdestroyed ↦ by simp [hd'] at hdestroyed⟩
    · exact ⟨w, .refl w, hw, hprogress, hlive, fun hdestroyed ↦ by simp [hd] at hdestroyed⟩
  obtain ⟨v, hreach, hv⟩ := hquiet
  obtain ⟨w', hreach', hw', hdone⟩ := StepSystem.exists_canReach (total CallState.rank F)
    (fun s hs hopen ↦ hs.step hV hopen) hv
  exact ⟨w', hreach.trans hreach', hw'.quiet, hdone⟩

theorem promptRuntime_postsFirst : promptRuntime.PostsFirst (· = true) where
  entry := Bool.false_ne_true
  step _ _ _ _ := .inr rfl
  result p hp := by
    cases p with
    | true => rfl
    | false => exact absurd rfl hp

theorem promptRuntime_ends (p : Bool) (ctx : Unit) : promptRuntime.Ends p ctx := by
  cases p with
  | true => exact .result rfl
  | false => exact .step () rfl (.result rfl)

/-- Three calls on a container that is not detached: it is being started, somebody waits for it,
and a removal that will be refused has begun. -/
def busyActs : List (Act Unit) :=
  [.start 1 {}, .wait 2 true 0, .destroyRead 3, .thread 0 (), .semWait 1 0]

theorem calls_return_of_busy :
    ∃ w, (containerSystem promptRuntime).run attachedWorld busyActs = some w ∧
      w.calls 1 = .waitCall ∧ w.calls 2 = .condWait (.user true) 1 ∧ w.calls 3 = .destroyCheck ∧
      ∃ w', (containerSystem promptRuntime).CanReach (fun a ↦ a.continues = true) w w' ∧
        ¬ w'.Live ∧ ∀ k, (w'.calls k).done = true := by
  refine ⟨_, rfl, rfl, rfl, rfl, calls_return promptRuntime_postsFirst ?_ rfl
    fun _ p _ ↦ promptRuntime_ends p _⟩
  refine (StepSystem.ReachableWhere.start attachedWorld_fresh).run
    (show (containerSystem promptRuntime).RunMeets CreatesThread attachedWorld busyActs by decide)
    rfl

end ContainerWorld

end OcreRuntime
