import OcreRuntime.Container.Collection

/-!
# The last calls on a container

A container that is being torn down is killed, waited for and destroyed, while its
thread and other callers go on. As long as nobody starts or pauses it, each of these
calls takes it to a stage that no other step undoes.
-/

namespace OcreRuntime

/-- The call whose step this is. -/
def Act.call {Ext : Type} : Act Ext → Option ℕ
  | .start k _ | .semWait k _ | .storeError k | .signal k _ _ | .getStatus k | .wait k _ _
  | .nestedWait k _ | .spurious k | .resume k | .destroyRead k | .destroyJoin k
  | .destroyStore k | .destroyCheck k | .destroyFree k => some k
  | .thread .. | .exit _ => none

/-- The steps that bring a container back to life, or to a pause. -/
def Act.revives {Ext : Type} : Act Ext → Bool
  | .start .. | .signal _ .pause _ => true
  | _ => false

/-- Removals are made by the context. -/
def Act.isRemoval {Ext : Type} : Act Ext → Bool
  | .destroyRead _ => true
  | _ => false

namespace ContainerWorld

open Function (update)

variable {Point Ctx Ext : Type} {V : OcreRuntimeVtable Point Ctx Ext}
  {w w' : ContainerWorld Point Ctx} {a : Act Ext} {k : ℕ}

/-- A call moves by its own steps, except that an exit wakes it up. -/
theorem Step.calls_eq (h : Step V w a w') (hk : a.call ≠ some k) :
    w'.calls k = w.calls k ∨
      (w'.calls k = broadcast w.calls k ∧ w'.container.status = .exited) := by
  cases h with
  | thread => exact .inl rfl
  | exit => exact .inr ⟨rfl, rfl⟩
  | _ =>
      refine .inl (Function.update_of_ne ?_ _ _)
      rintro rfl
      exact hk rfl

theorem Step.contextMutex_cases (h : Step V w a w') (ha : a.isRemoval = false) :
    w'.contextMutex = w.contextMutex ∨ w'.contextMutex = none := by
  cases h with
  | destroyRead => cases ha
  | destroyJoinFailed | destroyRefused | destroyFree => exact .inr rfl
  | _ => exact .inl rfl

theorem Step.contextMutex_eq (h : Step V w a w') (ha : a.isRemoval = false)
    (hw : w.contextMutex = none) : w'.contextMutex = none := by
  rcases h.contextMutex_cases ha with heq | heq
  · rw [heq, hw]
  · exact heq

/-- Only the last step of a removal destroys the container. -/
theorem Step.destroyed_cases (h : Step V w a w') : w'.destroyed = w.destroyed ∨
    ∃ k, w.calls k = .destroyFree ∧ w'.destroyed = true ∧ w'.calls k = .returned 0 none := by
  cases h with
  | destroyFree k hk => exact .inr ⟨k, hk, rfl, w.finish_calls k w.container _⟩
  | _ => exact .inl rfl

/-- The call that holds the context mutex for a removal ends with it, or goes on. -/
theorem Step.isRemoving (h : Step V w a w') (hk : (w.calls k).isRemoving = true) :
    (w'.calls k).isRemoving = true ∨ w'.contextMutex = none := by
  by_cases hcall : a.call = some k
  · cases h with
    | destroyJoinFailed | destroyRefused | destroyFree => exact .inr rfl
    | destroyJoined | destroyStore | destroyChecked =>
        obtain rfl := Option.some.inj hcall
        exact .inl (by simp [CallState.isRemoving])
    | _ => simp_all [Act.call, CallState.isRemoving]
  · rcases h.calls_eq hcall with heq | ⟨heq, -⟩
    · exact .inl (heq ▸ hk)
    · exact .inl (by rw [heq, isRemoving_broadcast, hk])

/-- How the status can change when nobody revives the container. -/
theorem Step.status_cases (h : Step V w a w') (ha : a.revives = false) :
    w'.container.status = w.container.status ∨ w'.container.status = .error ∨
      w'.container.status = .stopped ∨
      (w'.container.status = .running ∧ w.container.status = .paused) ∨
      (w'.container.status = .exited ∧ ∃ n p, (w.threads n).phase = .live p) := by
  cases h with
  | startRefused | startFailed | createFailed | threadCreated => cases ha
  | storeError => exact .inr (.inl rfl)
  | signal k sig ext hk =>
      obtain ⟨ctx, status, heq, hs⟩ := ocreContainerSignal_spec V sig ext w.container
      simp only [finish, heq]
      rcases hs with hs | ⟨rfl, -, -⟩ | ⟨-, hpaused, hrunning⟩
      · exact .inl hs
      · cases ha
      · exact .inr (.inr (.inr (.inl ⟨hrunning, hpaused⟩)))
  | destroyStore => exact .inr (.inr (.inl rfl))
  | exit n p result hp => exact .inr (.inr (.inr (.inr ⟨rfl, n, p, hp⟩)))
  | _ => exact .inl rfl

/-- No thread executes, though one may still have to be collected. -/
def Over (w : ContainerWorld Point Ctx) : Prop :=
  w.container.status ≠ .running ∧ w.container.status ≠ .paused

/-- The container can be destroyed. -/
def Ended (w : ContainerWorld Point Ctx) : Prop :=
  w.container.status = .stopped ∨ w.container.status = .created ∨ w.container.status = .error

/-- How far a wait call on a container has come that ends by itself. -/
def WaitCall (w : ContainerWorld Point Ctx) (k : ℕ) : Prop :=
  (∃ caller run, w.calls k = .condWait caller run) ∨
    (w.Over ∧ ∃ caller run, w.calls k = .woken caller run) ∨
    (w.Ended ∧ ∃ ret written, w.calls k = .returned ret written)

/-- How far the removal of a container has come that cannot be refused. -/
def DestroyCall (w : ContainerWorld Point Ctx) (k : ℕ) : Prop :=
  w.calls k = .destroyCheck ∨ w.calls k = .destroyFree ∨
    (w.destroyed = true ∧ ∃ written, w.calls k = .returned 0 written)

/-- How far a removal that may be refused has come. -/
def RemovalCall (w : ContainerWorld Point Ctx) (k : ℕ) : Prop :=
  (w.destroyed = false ∧ (w.contextMutex = none ∨
      (w.contextMutex = some k ∧ (w.calls k).isRemoving = true))) ∨
    (w.destroyed = true ∧ ∃ written, w.calls k = .returned 0 written)

/-- What the calls of the context have made of a container. -/
inductive Stage
  | early
  | leaving (k : ℕ)
  | called
  | waiting (k : ℕ)
  | ended
  | removing (k : ℕ)
  | gone

def Stage.Holds (w : ContainerWorld Point Ctx) : Stage → Prop
  | early => w.contextMutex = none ∧ w.destroyed = false
  | leaving k => w.RemovalCall k
  | called => w.contextMutex = none ∧ w.container.status ≠ .paused
  | waiting k => w.contextMutex = none ∧ w.container.status ≠ .paused ∧ w.WaitCall k
  | ended => w.contextMutex = none ∧ w.Ended
  | removing k => w.Ended ∧ w.DestroyCall k
  | gone => w.destroyed = true

/-- The steps of others that the stage is proof against. -/
def Stage.Admits (st : Stage) (a : Act Ext) : Prop :=
  a.isRemoval = false ∧
    match st with
    | early | leaving _ => True
    | waiting k => a.revives = false ∧ ∀ j, a = .spurious j → j ≠ k
    | _ => a.revives = false

theorem Ended.over (h : w.Ended) : w.Over := by
  rcases h with h | h | h <;> simp [Over, h]

theorem Ended.collect_eq (h : w.Ended) : w.collect = w := by
  refine collect_of_ne_exited ?_
  rcases h with h | h | h <;> simp [h]

theorem Ended.step (h : w.Ended) (hw : w.Inv) (hc : w.CollectInv) (ha : a.revives = false)
    (hstep : Step V w a w') : w'.Ended := by
  rcases hstep.status_cases ha with hs | hs | hs | ⟨-, hs⟩ | ⟨-, n, p, hp⟩
  · simpa only [Ended, hs] using h
  · exact .inr (.inr hs)
  · exact .inl hs
  · exact absurd hs h.over.2
  · have hout := hw.outstanding_of_live hp
    rcases h with h | h | h
    · exact absurd hout (hw.not_outstanding_of_ready (.inr h) n)
    · exact absurd hout (hw.not_outstanding_of_ready (.inl h) n)
    · exact absurd hout (hc.error h n)

theorem Over.step (h : w.Over) (ha : a.revives = false) (hstep : Step V w a w') : w'.Over := by
  rcases hstep.status_cases ha with hs | hs | hs | ⟨-, hs⟩ | ⟨hs, -⟩
  · simpa only [Over, hs] using h
  · simp [Over, hs]
  · simp [Over, hs]
  · exact absurd hs h.2
  · simp [Over, hs]

theorem ne_paused_of_step (h : w.container.status ≠ .paused) (ha : a.revives = false)
    (hstep : Step V w a w') : w'.container.status ≠ .paused := by
  rcases hstep.status_cases ha with hs | hs | hs | ⟨hs, -⟩ | ⟨hs, -⟩ <;> simp [hs, h]

theorem CollectInv.collect_ne_exited (hc : w.CollectInv) (hw : w.Inv)
    (hmutex : w.contextMutex = none) : w.collect.container.status ≠ .exited := by
  by_cases hs : w.container.status = .exited
  · have hout := hc.outstanding_of_exited hw hmutex hs
    rw [collect_container, joinRc, if_pos hout.2, ocreContainerStatusLocked_of_join hs]
    simp
  · rwa [collect_of_ne_exited hs]

/-- A wait call that is past the condition returns with the container ended. -/
theorem Over.ended (h : w.Over) (hw : w.Inv) (hs : w.container.status ≠ .exited) : w.Ended := by
  have hknown := hw.known
  unfold Over at h
  unfold Ended
  cases hstatus : w.container.status <;> simp_all

theorem WaitCall.step (h : w.WaitCall k) (hw : w.Inv) (hc : w.CollectInv)
    (hcollected : collects a = true → w.container.status ≠ .exited)
    (ha : a.revives = false) (hspurious : ∀ j, a = .spurious j → j ≠ k)
    (hstep : Step V w a w') : w'.WaitCall k := by
  by_cases hk : a.call = some k
  · rcases h with ⟨caller, run, h⟩ | ⟨hover, caller, run, h⟩ | ⟨-, ret, written, h⟩
    · cases hstep with
      | spurious j => exact absurd (Option.some.inj hk) (hspurious j rfl)
      | _ => simp_all [Act.call]
    · cases hstep with
      | resume j caller' run' hj =>
          obtain rfl : j = k := Option.some.inj hk
          refine .inr (.inr ⟨hover.ended hw (hcollected rfl), ?_⟩)
          cases caller' <;> exact ⟨_, _, finish_calls ..⟩
      | _ => simp_all [Act.call]
    · cases hstep <;> simp_all [Act.call]
  · rcases hstep.calls_eq hk with heq | ⟨heq, hexited⟩
    · simp only [WaitCall, heq]
      refine h.imp_right fun h ↦ h.imp (fun h ↦ ⟨h.1.step ha hstep, h.2⟩) fun h ↦ ?_
      exact ⟨h.1.step hw hc ha hstep, h.2⟩
    · rcases h with ⟨caller, run, h⟩ | ⟨-, caller, run, h⟩ | ⟨hended, ret, written, h⟩
      · exact .inr (.inl ⟨by simp [Over, hexited], caller, run, by simp [heq, broadcast, h]⟩)
      · exact .inr (.inl ⟨by simp [Over, hexited], caller, run, by simp [heq, broadcast, h]⟩)
      · exact .inr (.inr ⟨hended.step hw hc ha hstep, ret, written,
          by simp [heq, broadcast, h]⟩)

theorem DestroyCall.step (h : w.DestroyCall k) (hended : w.Ended) (hd : w.destroyed = false)
    (hstep : Step V w a w') : w'.DestroyCall k := by
  by_cases hk : a.call = some k
  · rcases h with h | h | ⟨h, -⟩
    · cases hstep with
      | destroyRefused j hj h₁ h₂ h₃ => rcases hended with hs | hs | hs <;> simp_all
      | destroyChecked j =>
          obtain rfl : j = k := Option.some.inj hk
          exact .inr (.inl (finish_calls ..))
      | _ => simp_all [Act.call]
    · cases hstep with
      | destroyFree j =>
          obtain rfl : j = k := Option.some.inj hk
          exact .inr (.inr ⟨rfl, none, w.finish_calls j w.container _⟩)
      | _ => simp_all [Act.call]
    · simp [h] at hd
  · rcases h with h | h | ⟨h, -⟩
    · rcases hstep.calls_eq hk with heq | ⟨heq, -⟩ <;>
        exact .inl (by simp [heq, broadcast, h])
    · rcases hstep.calls_eq hk with heq | ⟨heq, -⟩ <;>
        exact .inr (.inl (by simp [heq, broadcast, h]))
    · simp [h] at hd

theorem RemovalCall.step (h : w.RemovalCall k) (hw : w.Inv) (ha : a.isRemoval = false)
    (hd : w.destroyed = false) (hstep : Step V w a w') : w'.RemovalCall k := by
  rcases h with ⟨-, hmutex⟩ | ⟨h, -⟩
  · rcases hstep.destroyed_cases with hd' | ⟨j, hj, hd', hcall⟩
    · refine .inl ⟨hd'.trans hd, ?_⟩
      rcases hmutex with hmutex | ⟨hmutex, hk⟩
      · exact .inl (hstep.contextMutex_eq ha hmutex)
      · rcases hstep.contextMutex_cases ha with heq | heq
        · exact (hstep.isRemoving hk).elim (fun hk ↦ .inr ⟨heq.trans hmutex, hk⟩) .inl
        · exact .inl heq
    · have hholder : w.contextMutex = some j := hw.removing j (by simp [hj, CallState.isRemoving])
      obtain rfl : j = k := by
        rcases hmutex with hmutex | ⟨hmutex, -⟩ <;> rw [hholder] at hmutex
        · cases hmutex
        · exact Option.some.inj hmutex
      exact .inr ⟨hd', none, hcall⟩
  · simp [h] at hd

theorem Over.collect (h : w.Over) : w.collect.Over := by
  rcases w.collect_status with hs | ⟨-, hs⟩
  · simpa only [Over, hs] using h
  · simp [Over, hs]

namespace Stage.Holds

variable {st : Stage}

theorem collect (h : st.Holds w) : st.Holds w.collect := by
  have hpaused (h : w.container.status ≠ .paused) : w.collect.container.status ≠ .paused := by
    rcases w.collect_status with hs | ⟨-, hs⟩ <;> simp [hs, h]
  cases st with
  | early => simpa [Holds] using h
  | leaving k => simpa [Holds, RemovalCall] using h
  | called => exact ⟨by simpa using h.1, hpaused h.2⟩
  | waiting k =>
      refine ⟨by simpa using h.1, hpaused h.2.1, ?_⟩
      simp only [WaitCall, collect_calls]
      refine h.2.2.imp_right fun h ↦ h.imp (fun h ↦ ⟨h.1.collect, h.2⟩) fun h ↦ ?_
      rwa [h.1.collect_eq]
  | ended => rwa [h.2.collect_eq]
  | removing k => rwa [h.1.collect_eq]
  | gone => simpa [Holds] using h

theorem step (h : st.Holds w) (hw : w.Inv) (hc : w.CollectInv)
    (hcollected : collects a = true → w.container.status ≠ .exited) (ha : st.Admits a)
    (hd : w.destroyed = false) (hstep : Step V w a w') : st.Holds w' := by
  obtain ⟨hremoval, ha⟩ := ha
  cases st with
  | early =>
      refine ⟨hstep.contextMutex_eq hremoval h.1, ?_⟩
      rcases hstep.destroyed_cases with hd' | ⟨j, hj, -, -⟩
      · exact hd'.trans hd
      · simpa [hj, CallState.isRemoving] using hw.isRemoving_eq_false h.1 j
  | leaving k => exact RemovalCall.step h hw hremoval hd hstep
  | called => exact ⟨hstep.contextMutex_eq hremoval h.1, ne_paused_of_step h.2 ha hstep⟩
  | waiting k =>
      exact ⟨hstep.contextMutex_eq hremoval h.1, ne_paused_of_step h.2.1 ha.1 hstep,
        h.2.2.step hw hc hcollected ha.1 ha.2 hstep⟩
  | ended => exact ⟨hstep.contextMutex_eq hremoval h.1, h.2.step hw hc ha hstep⟩
  | removing k => exact ⟨h.1.step hw hc ha hstep, h.2.step h.1 hd hstep⟩
  | gone => simp [show w.destroyed = true from h] at hd

theorem next (h : st.Holds w) (hw : w.Inv) (hc : w.CollectInv) (hok : CollectOk a w)
    (ha : st.Admits a) (hnext : w.next V a = some w') : st.Holds w' := by
  obtain ⟨hd, -, hstep⟩ := next_cases hnext
  split at hstep
  · rename_i hcollects
    have hmutex : w.contextMutex = none := by
      by_contra hm
      simpa [hcollects] using hok.2 hm
    exact h.collect.step hw.collect (hc.collect hw hmutex)
      (fun _ ↦ hc.collect_ne_exited hw hmutex) ha (by simpa using hd) hstep
  · rename_i hcollects
    exact h.step hw hc (fun h ↦ absurd h hcollects) ha hd hstep

/-- A removal begins, by a caller of the context. -/
theorem leave (h : early.Holds w) (hnext : w.next V (.destroyRead k) = some w') :
    (leaving k).Holds w' := by
  obtain ⟨-, -, hstep⟩ := next_cases hnext
  rw [if_neg (show ¬ collects (.destroyRead k : Act Ext) = true from nofun)] at hstep
  cases hstep with
  | destroyRead =>
      refine .inl ⟨h.2, .inr ⟨rfl, ?_⟩⟩
      rw [finish_calls]
      split <;> rfl

theorem refused (h : (leaving k).Holds w) {ret : Int} {written : Option Int}
    (hk : w.calls k = .returned ret written) (hret : ret ≠ 0) : early.Holds w := by
  rcases h with ⟨hd, hmutex | ⟨-, hremoving⟩⟩ | ⟨-, _, hcall⟩
  · exact ⟨hmutex, hd⟩
  · simp [hk, CallState.isRemoving] at hremoving
  · exact absurd (CallState.returned.inj (hk.symm.trans hcall)).1 hret

/-- A wait on a container that is not paused goes on to the stage of waiting. -/
theorem wait (h : called.Holds w) (hw : w.Inv) (hc : w.CollectInv)
    (hnext : w.next V (.wait k false 0) = some w') : (waiting k).Holds w' := by
  have hcalled := h.next hw hc ⟨fun hs ↦ absurd rfl hs, fun hm ↦ absurd h.1 hm⟩ ⟨rfl, rfl⟩ hnext
  refine ⟨hcalled.1, hcalled.2, ?_⟩
  obtain ⟨-, -, hstep⟩ := next_cases hnext
  rw [if_pos (show collects (.wait k false 0 : Act Ext) = true from rfl)] at hstep
  have hknown := hw.collect.known
  have hexited := hc.collect_ne_exited hw h.1
  cases hstep with
  | wait _ _ _ hk =>
      cases hs : w.collect.container.status with
      | unknown => exact absurd hs hknown
      | exited => exact absurd hs hexited
      | paused => exact absurd hs h.collect.2
      | running =>
          exact .inl ⟨.user false, w.collect.created, by simp [waitResult, hs, WaitCaller.proceed]⟩
      | created =>
          refine .inr (.inr ⟨.inr (.inl hs), -1, none, ?_⟩)
          simp [waitResult, hs, WaitCaller.proceed, WaitCaller.finish]
      | stopped =>
          refine .inr (.inr ⟨.inl hs, 0, none, ?_⟩)
          simp [waitResult, hs, WaitCaller.proceed, WaitCaller.finish, waitTailResult]
      | error =>
          refine .inr (.inr ⟨.inr (.inr hs), 0, none, ?_⟩)
          simp [waitResult, hs, WaitCaller.proceed, WaitCaller.finish, waitTailResult]

theorem waited (h : (waiting k).Holds w) {ret : Int} {written : Option Int}
    (hk : w.calls k = .returned ret written) : ended.Holds w := by
  refine ⟨h.1, ?_⟩
  rcases h.2.2 with ⟨_, _, hcall⟩ | ⟨-, _, _, hcall⟩ | ⟨hended, -⟩
  · simp [hk] at hcall
  · simp [hk] at hcall
  · exact hended

theorem remove (h : ended.Holds w) (hw : w.Inv) (hc : w.CollectInv)
    (hnext : w.next V (.destroyRead k) = some w') : (removing k).Holds w' := by
  obtain ⟨-, -, hstep⟩ := next_cases hnext
  rw [if_neg (show ¬ collects (.destroyRead k : Act Ext) = true from nofun)] at hstep
  refine ⟨h.2.step hw hc rfl hstep, .inl ?_⟩
  have hexited : w.container.status ≠ .exited := by rcases h.2 with hs | hs | hs <;> simp [hs]
  cases hstep with
  | destroyRead => simp [finish, hexited]

theorem removed (h : (removing k).Holds w) {ret : Int} {written : Option Int}
    (hk : w.calls k = .returned ret written) : ret = 0 ∧ gone.Holds w := by
  rcases h.2 with hcall | hcall | ⟨hd, _, hcall⟩
  · simp [hk] at hcall
  · simp [hk] at hcall
  · rw [hk] at hcall
    exact ⟨(CallState.returned.inj hcall).1, hd⟩

end Stage.Holds

end ContainerWorld

end OcreRuntime
