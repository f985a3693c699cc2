import OcreRuntime.Lib.OrderedMap
import OcreRuntime.Context.Operations

/-!
# Listed containers are alive

A removal destroys the container, deletes its working directory and takes its node
off the list, in this order. When the deletion fails the function returns between
the two other effects, and the list is left with a container that is gone.
-/

namespace OcreRuntime

namespace ContextState

open Function (update)

variable {Ctx : Type} {s s' : ContextState Ctx}

def Listed (s : ContextState Ctx) (container : ℕ) : Prop :=
  ∃ node ∈ s.context.containers, node.container = container

/-- A node points to a container that has been destroyed. -/
def Dangling (s : ContextState Ctx) (container : ℕ) : Prop :=
  s.Listed container ∧ s.heap container = none

/-- A removal returns 0 with the container destroyed and its node gone, or fails
with the container as alive and the list as it was. -/
def DestroyedOrKept (container : ℕ) (ret : Int) (s s' : ContextState Ctx) : Prop :=
  (ret = 0 ∧ s.Listed container ∧ s.heap container ≠ none ∧
      s'.heap container = none ∧ ¬ s'.Listed container) ∨
    (ret ≠ 0 ∧ (s.heap container ≠ none → s'.heap container ≠ none) ∧
      s'.context.containers = s.context.containers)

/-- What an operation on a context owes its containers. -/
def ContainerContract (a : ContextAct Ctx) (s s' : ContextState Ctx) : Prop :=
  (∀ container, ¬ s'.Dangling container) ∧
    ∀ container calls, a = .remove (some container) calls →
      DestroyedOrKept container (s.ocreContextRemoveContainer (some container) calls).1 s s'

/-- If the container can be destroyed, `rm_rf` on its working directory returns 0. -/
def WorkdirRemoved (s : ContextState Ctx) (container : ℕ) (calls : RemoveCalls) : Prop :=
  ∀ node ∈ s.context.containers.find? (·.container = container), ∀ c ∈ s.heap container,
    (ocreContainerDestroy calls.joinRc c).isNone →
      (node.removeWorkdir s.maxLinks calls.rmRf s.tree).1 = 0

/-- The same of every removal in the last pass of `ocre_context_destroy`. -/
def WorkdirsRemoved (s : ContextState Ctx) (calls : ℕ → RemoveCalls) :
    List ContainerNode → Prop
  | [] => True
  | node :: nodes =>
      s.WorkdirRemoved node.container (calls node.container) ∧
        (s.removeContainerLocked node.container (calls node.container)).2.WorkdirsRemoved
          calls nodes

/-- No removal is stopped by its working directory. -/
def RemovesWorkdirs (a : ContextAct Ctx) (s : ContextState Ctx) : Prop :=
  match a with
  | .remove (some container) calls => s.WorkdirRemoved container calls
  | .destroy calls => s.WorkdirsRemoved calls s.context.containers
  | _ => True

instance (s : ContextState Ctx) (container : ℕ) (calls : RemoveCalls) :
    Decidable (s.WorkdirRemoved container calls) :=
  inferInstanceAs (Decidable (∀ _ ∈ _, ∀ _ ∈ _, _ → _))

instance decidableWorkdirsRemoved (calls : ℕ → RemoveCalls) :
    ∀ (s : ContextState Ctx) (nodes : List ContainerNode),
      Decidable (s.WorkdirsRemoved calls nodes)
  | _, [] => .isTrue trivial
  | s, node :: nodes =>
      have := decidableWorkdirsRemoved calls
        (s.removeContainerLocked node.container (calls node.container)).2 nodes
      inferInstanceAs (Decidable (_ ∧ _))

instance (a : ContextAct Ctx) (s : ContextState Ctx) : Decidable (RemovesWorkdirs a s) := by
  unfold RemovesWorkdirs
  split <;> infer_instance

/-- The nodes point to distinct live containers. -/
structure Inv (s : ContextState Ctx) : Prop where
  live : ∀ container, ¬ s.Dangling container
  nodup : (s.context.containers.map ContainerNode.container).Nodup

theorem Inv.of_fresh (h : s.Fresh) : s.Inv where
  live container := by simp [Dangling, Listed, h.containers]
  nodup := by simp [h.containers]

theorem listed_of_find? {container : ℕ} {node : ContainerNode}
    (h : s.context.containers.find? (·.container = container) = some node) :
    s.Listed container :=
  ⟨node, List.mem_of_find?_eq_some h, by simpa using List.find?_some h⟩

/-- Once its container is gone a node stays on the list. -/
theorem Dangling.remove {container : ℕ} (h : s.Dangling container) (other : ℕ)
    (calls : RemoveCalls) : (s.removeContainerLocked other calls).2.Dangling container := by
  obtain ⟨⟨node, hmem, hnode⟩, hdead⟩ := h
  have hgone : update s.heap other none container = none := by
    by_cases hother : container = other
    · simp [hother]
    · simpa [hother] using hdead
  have hremoval := s.removal other calls
  generalize s.removeContainerLocked other calls = r at hremoval ⊢
  cases hremoval with
  | missing | refused => exact ⟨⟨node, hmem, hnode⟩, hdead⟩
  | workdirLeft => exact ⟨⟨node, hmem, hnode⟩, hgone⟩
  | removed _ c _ hc =>
      have hne : node.container ≠ other := by
        rintro rfl
        rw [hnode] at hc
        simp [hdead] at hc
      refine ⟨⟨node, ?_, hnode⟩, hgone⟩
      exact (List.mem_eraseP_of_neg (by simpa using hne)).mpr hmem

theorem Dangling.removeAll {container : ℕ} (calls : ℕ → RemoveCalls)
    (nodes : List ContainerNode) (h : s.Dangling container) :
    (s.removeAll calls nodes).Dangling container := by
  induction nodes generalizing s with
  | nil => exact h
  | cons node nodes ih => exact ih (h.remove node.container (calls node.container))

/-- A removal that its working directory stops leaves a dangling node. -/
theorem dangling_of_not_workdirRemoved {container : ℕ} {calls : RemoveCalls}
    (h : ¬ s.WorkdirRemoved container calls) :
    (s.removeContainerLocked container calls).2.Dangling container := by
  simp only [WorkdirRemoved, not_forall] at h
  obtain ⟨node, hnode, c, hc, hdestroy, hrm⟩ := h
  rw [Option.mem_def] at hnode hc
  rw [Option.isNone_iff_eq_none] at hdestroy
  have hremoval := s.removal container calls
  generalize s.removeContainerLocked container calls = r at hremoval ⊢
  cases hremoval with
  | missing hmissing => simp [hnode, hc] at hmissing
  | refused node' c' hnode' hc' hdestroy' =>
      obtain rfl : c = c' := Option.some.inj (hc.symm.trans hc')
      simp [hdestroy] at hdestroy'
  | workdirLeft => exact ⟨listed_of_find? hnode, Function.update_self ..⟩
  | removed node' c' hnode' hc' hdestroy' hrm' =>
      obtain rfl : node = node' := Option.some.inj (hnode.symm.trans hnode')
      exact absurd hrm' hrm

theorem workdirsRemoved_of_live (calls : ℕ → RemoveCalls) (nodes : List ContainerNode)
    (h : ∀ container, ¬ (s.removeAll calls nodes).Dangling container) :
    s.WorkdirsRemoved calls nodes := by
  induction nodes generalizing s with
  | nil => trivial
  | cons node nodes ih =>
      refine ⟨?_, ih h⟩
      by_contra hleft
      exact h _ ((dangling_of_not_workdirRemoved hleft).removeAll calls nodes)

namespace Inv

theorem create (h : s.Inv) (args : CreateArgs) {calls : CreateCalls Ctx}
    (hfresh : s.heap calls.pointer = none) : (s.ocreContextCreateContainer args calls).2.Inv := by
  have hcreation := s.creation args calls
  generalize s.ocreContextCreateContainer args calls = r at hcreation ⊢
  cases hcreation with
  | early | containerFailed => exact h
  | mkdirFailed | containerFailedIn => exact ⟨h.live, h.nodup⟩
  | created target tree c =>
      have hunlisted : ¬ s.Listed calls.pointer := fun hl ↦ h.live _ ⟨hl, hfresh⟩
      refine ⟨?_, ?_⟩
      · rintro container ⟨⟨node, hmem, hnode⟩, hdead⟩
        have hne : container ≠ calls.pointer := by
          rintro rfl
          simp at hdead
        have hdead' : s.heap container = none := by simpa [hne] using hdead
        rcases List.mem_append.mp hmem with hmem | hmem
        · exact h.live container ⟨⟨node, hmem, hnode⟩, hdead'⟩
        · simp only [List.mem_singleton] at hmem
          exact hne (by rw [← hnode, hmem])
      · simp only [List.map_append, List.map_cons, List.map_nil]
        refine List.nodup_append.mpr ⟨h.nodup, List.nodup_singleton _, ?_⟩
        simp only [List.mem_map, List.mem_singleton]
        rintro a ⟨node, hmem, rfl⟩ b rfl heq
        exact hunlisted ⟨node, hmem, heq⟩

theorem evolve (h : s.Inv) (container : ℕ) (c : OcreContainer Ctx) :
    { s with heap := update s.heap container (some c) }.Inv := by
  refine ⟨?_, h.nodup⟩
  rintro other ⟨hlisted, hdead⟩
  refine h.live other ⟨hlisted, ?_⟩
  by_cases hother : other = container
  · simp [hother] at hdead
  · simpa [hother] using hdead

/-- The only removal that breaks the invariant leaves the working directory. -/
theorem remove (h : s.Inv) {container : ℕ} {calls : RemoveCalls}
    (hok : s.WorkdirRemoved container calls) :
    (s.removeContainerLocked container calls).2.Inv ∧
      DestroyedOrKept container (s.removeContainerLocked container calls).1 s
        (s.removeContainerLocked container calls).2 := by
  have hremoval := s.removal container calls
  generalize s.removeContainerLocked container calls = r at hremoval ⊢
  cases hremoval with
  | missing | refused => exact ⟨h, .inr ⟨by simp, id, rfl⟩⟩
  | workdirLeft node c hnode hc hdestroy hrm =>
      exact absurd (hok node hnode c hc (by simp [hdestroy])) hrm
  | removed node c hnode hc hdestroy hrm =>
      have hunlisted : ∀ node' ∈ s.context.containers.eraseP (·.container = container),
          node'.container ≠ container := by
        intro node' hmem heq
        rw [List.eraseP_eq_filter_of_nodup_map h.nodup] at hmem
        simpa [heq] using (List.mem_filter.mp hmem).2
      refine ⟨⟨?_, ?_⟩, .inl ⟨rfl, listed_of_find? hnode, by simp [hc], by simp, ?_⟩⟩
      · rintro other ⟨⟨node', hmem, rfl⟩, hdead⟩
        refine h.live _ ⟨⟨node', List.mem_of_mem_eraseP hmem, rfl⟩, ?_⟩
        simpa [hunlisted node' hmem] using hdead
      · exact h.nodup.sublist (List.Sublist.map _ List.eraseP_sublist)
      · rintro ⟨node', hmem, hnode'⟩
        exact hunlisted node' hmem hnode'

theorem removeAll (h : s.Inv) {calls : ℕ → RemoveCalls} {nodes : List ContainerNode}
    (hok : s.WorkdirsRemoved calls nodes) : (s.removeAll calls nodes).Inv := by
  induction nodes generalizing s with
  | nil => exact h
  | cons node nodes ih => exact ih (h.remove hok.1).1 hok.2

/-- A step from a state without dangling nodes keeps the contract exactly when no
working directory stops a removal, and then the invariant too. -/
theorem contract_iff (h : s.Inv) {a : ContextAct Ctx} (hnext : s.next a = some s') :
    (ContainerContract a s s' ↔ RemovesWorkdirs a s) ∧ (RemovesWorkdirs a s → s'.Inv) := by
  have hkept (hinv : s'.Inv) (ha : ∀ container calls, a ≠ .remove (some container) calls) :
      ContainerContract a s s' :=
    ⟨hinv.live, fun container calls heq ↦ absurd heq (ha container calls)⟩
  unfold ContextState.next at hnext
  obtain ⟨-, hnext⟩ := Option.ite_none_left_eq_some.mp hnext
  cases a with
  | create args calls =>
      obtain ⟨hfresh, hnext⟩ := Option.ite_none_right_eq_some.mp hnext
      obtain rfl := Option.some.inj hnext
      have hinv := h.create args (Option.isNone_iff_eq_none.mp hfresh)
      exact ⟨iff_of_true (hkept hinv nofun) trivial, fun _ ↦ hinv⟩
  | remove container calls =>
      obtain rfl := Option.some.inj hnext
      cases container with
      | none =>
          exact ⟨iff_of_true (hkept h (by simp)) trivial, fun _ ↦ h⟩
      | some container =>
          refine ⟨⟨fun hcontract ↦ ?_, fun hok ↦ ⟨(h.remove hok).1.live, ?_⟩⟩,
            fun hok ↦ (h.remove hok).1⟩
          · by_contra hleft
            exact hcontract.1 _ (dangling_of_not_workdirRemoved hleft)
          · rintro _ _ ⟨⟩
            exact (h.remove hok).2
  | destroy calls =>
      obtain rfl := Option.some.inj hnext
      have hinv (hok : s.WorkdirsRemoved calls s.context.containers) :
          (s.ocreContextDestroy calls).Inv :=
        ⟨(h.removeAll hok).live, (h.removeAll hok).nodup⟩
      exact ⟨⟨fun hcontract ↦ workdirsRemoved_of_live calls _ hcontract.1,
        fun hok ↦ hkept (hinv hok) nofun⟩, hinv⟩
  | evolve container c =>
      dsimp only at hnext
      split at hnext
      · obtain ⟨-, hnext⟩ := Option.ite_none_right_eq_some.mp hnext
        obtain rfl := Option.some.inj hnext
        have hinv := h.evolve container c
        exact ⟨iff_of_true (hkept hinv nofun) trivial, fun _ ↦ hinv⟩
      · cases hnext
  | _ =>
      obtain rfl := Option.some.inj hnext
      exact ⟨iff_of_true (hkept h nofun) trivial, fun _ ↦ h⟩

end Inv

theorem Inv.of_reachable (h : (contextSystem Ctx).ReachableWhere RemovesWorkdirs s) : s.Inv :=
  h.invariant (fun _ ↦ Inv.of_fresh) fun _ _ _ hs ha hnext ↦ (hs.contract_iff hnext).2 ha

/-- A sequence of operations keeps the contract at each step exactly when no removal
is stopped by its working directory. -/
theorem runKeeps_containerContract_iff {s₀ : ContextState Ctx} (h₀ : s₀.Fresh)
    {as : List (ContextAct Ctx)} (hrun : (contextSystem Ctx).run s₀ as = some s) :
    (contextSystem Ctx).RunKeeps ContainerContract s₀ as ↔
      (contextSystem Ctx).RunMeets RemovesWorkdirs s₀ as := by
  refine StepSystem.ReachableWhere.runKeeps_iff_runMeets ?_ (.start h₀) hrun
  intro a t t' ht hnext
  exact ((Inv.of_reachable ht).contract_iff hnext).1

/-- Two containers, of which one is removed and the other goes with the context. -/
theorem runKeeps_containerContract_of_two_containers :
    ∃ s, (contextSystem Unit).run workContext
        [.create (filesystemArgs (some (cstring "a"))) (promptCalls 1),
          .create (filesystemArgs none) (promptCalls 2), .remove (some 1) {}, .remove (some 1) {},
          .destroy fun _ ↦ {}] = some s ∧ s.context.containers = [] ∧
      (contextSystem Unit).RunKeeps ContainerContract workContext
        [.create (filesystemArgs (some (cstring "a"))) (promptCalls 1),
          .create (filesystemArgs none) (promptCalls 2), .remove (some 1) {}, .remove (some 1) {},
          .destroy fun _ ↦ {}] :=
  ⟨_, rfl, rfl, (runKeeps_containerContract_iff workContext_fresh rfl).mpr (by decide)⟩

/-- The removal of a container whose directory cannot be removed leaves its node. -/
theorem not_runKeeps_containerContract_of_rmdir :
    ¬ ∀ s₀ s, ContextState.Fresh s₀ → ∀ as, (contextSystem Unit).run s₀ as = some s →
        (contextSystem Unit).RunKeeps ContainerContract s₀ as := by
  intro h
  have hkeeps := h workContext _ workContext_fresh
    [.create (filesystemArgs (some (cstring "a"))) (promptCalls 1),
      .remove (some 1) { rmRf := fun _ ↦ { rmdir := true } }] rfl
  have hremoved := ((hkeeps _ rfl).2 _ rfl).1
  exact hremoved.1 1 ⟨⟨_, List.mem_singleton_self _, rfl⟩, rfl⟩

end ContextState

end OcreRuntime
