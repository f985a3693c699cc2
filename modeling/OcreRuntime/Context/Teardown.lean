import OcreRuntime.Lib.OrderedMap
import OcreRuntime.Context.Destruction

/-!
# When the destruction of a context is complete

Each pass takes every container one stage further. The passes ignore what the calls
return, so they rely on the statuses: a wait that does not block and a removal that
is refused end the destruction with the container alive.
-/

namespace OcreRuntime

open ContainerWorld (Stage CollectOk CollectInv)

/-- The stage of a container in a pass that takes each from one stage to another. -/
def todoStage (before : Stage) (during : ℕ → Stage) (after : Stage) (call : Option ℕ)
    (todo : List ContainerNode) (node : ContainerNode) : Stage :=
  match call, todo with
  | some k, head :: todo =>
      if node = head then during k else if node ∈ todo then before else after
  | _, todo => if node ∈ todo then before else after

def TeardownPass.stage (node : ContainerNode) : TeardownPass → Stage
  | .idle => .early
  | .removal call leaving => todoStage .early .leaving .early (some call) [leaving] node
  | .kill _ => .called
  | .wait call todo => todoStage .called .waiting .ended call todo node
  | .remove call todo => todoStage .ended .removing .gone call todo node
  | .returned _ => .gone

/-- The pass of the removals has begun. -/
def TeardownPass.isRemoving : TeardownPass → Bool
  | .remove .. | .returned _ => true
  | _ => false

def TeardownPass.todo : TeardownPass → List ContainerNode
  | .kill todo | .wait _ todo | .remove _ todo => todo
  | .idle | .removal .. | .returned _ => []

section Stages

variable {before after : Stage} {during : ℕ → Stage} {k : ℕ} {head node : ContainerNode}
  {todo : List ContainerNode}

theorem todoStage_none : todoStage before during after none todo node =
    if node ∈ todo then before else after := by
  cases todo <;> rfl

theorem todoStage_head : todoStage before during after (some k) (head :: todo) head =
    during k := by
  simp [todoStage]

theorem todoStage_of_ne (h : node ≠ head) (call : Option ℕ) :
    todoStage before during after call (head :: todo) node =
      todoStage before during after none todo node := by
  cases call <;> simp [todoStage, h]

theorem todoStage_cases (call : Option ℕ) : todoStage before during after call todo node = before ∨
    todoStage before during after call todo node = after ∨
    ∃ k rest, call = some k ∧ todo = node :: rest ∧
      todoStage before during after call todo node = during k := by
  unfold todoStage
  split
  · rename_i k head rest
    by_cases hnode : node = head
    · exact .inr (.inr ⟨k, rest, rfl, by rw [hnode], if_pos hnode⟩)
    · rw [if_neg hnode]
      split_ifs <;> simp
  · split_ifs <;> simp

end Stages

namespace TeardownWorld

open Function (update)

variable {Point Ctx Ext : Type} {V : OcreRuntimeVtable Point Ctx Ext}
  {s s' : TeardownWorld Point Ctx} {nodes : List ContainerNode}

/-- Every listed container has got to its stage by steps that collect its threads, and
what is gone has no directory left. -/
structure TeardownInv (V : OcreRuntimeVtable Point Ctx Ext) (nodes : List ContainerNode)
    (s : TeardownWorld Point Ctx) : Prop where
  nodup : (nodes.map ContainerNode.container).Nodup
  reached : ∀ node ∈ nodes,
    (containerSystem V).ReachableWhere CollectOk (s.worlds node.container)
  stage : ∀ node ∈ nodes, (s.pass.stage node).Holds (s.worlds node.container)
  todo : s.pass.todo <:+ nodes
  listed : s.pass.isRemoving = false → s.context.containers = nodes
  workdirs : ∀ node ∈ nodes, s.pass.stage node = .gone →
    ∀ workdir ∈ node.workingDirectory, s.tree.lstat s.maxLinks workdir = none
  wellNamed : WellNamed s.tree

/-- Only a stage that a step of another could undo asks something of that step. -/
theorem admits_of_not_disturbs {node : ContainerNode} {a : Act Ext} (ha : a.isRemoval = false)
    (hcalm : s.pass.isDestroying = true → s.disturbs node.container a = false) :
    (s.pass.stage node).Admits a := by
  have hquiet (h : s.pass.isDestroying = true) : a.revives = false ∧
      ∀ k, a = .spurious k → s.waitsOn k node.container = false := by
    have hdisturbs := hcalm h
    unfold disturbs at hdisturbs
    obtain ⟨hrevives, hspurious⟩ := Bool.or_eq_false_iff.mp hdisturbs
    refine ⟨hrevives, ?_⟩
    rintro k rfl
    exact hspurious
  refine ⟨ha, ?_⟩
  cases hpass : s.pass with
  | idle => trivial
  | removal call leaving =>
      simp only [TeardownPass.stage]
      rcases todoStage_cases (some call) with heq | heq | ⟨k, rest, -, -, heq⟩ <;>
        rw [heq] <;> trivial
  | kill todo | returned ret => exact (hquiet (by rw [hpass]; rfl)).1
  | wait call todo =>
      obtain ⟨hrevives, hspurious⟩ := hquiet (by rw [hpass]; rfl)
      simp only [TeardownPass.stage]
      rcases todoStage_cases call with heq | heq | ⟨k, rest, hcall, htodo, heq⟩
      · rw [heq]; exact hrevives
      · rw [heq]; exact hrevives
      · rw [heq]
        refine ⟨hrevives, fun j hj hjk ↦ ?_⟩
        subst hjk hcall htodo
        simpa [waitsOn, hpass] using hspurious j hj
  | remove call todo =>
      obtain ⟨hrevives, -⟩ := hquiet (by rw [hpass]; rfl)
      simp only [TeardownPass.stage]
      rcases todoStage_cases call with heq | heq | ⟨k, rest, hcall, htodo, heq⟩ <;>
        rw [heq] <;> exact hrevives

theorem exists_returned_of_result {k : ℕ} {node : ContainerNode} {ret : Int}
    (h : s.result k node = some ret) :
    ∃ written, (s.worlds node.container).calls k = .returned ret written := by
  unfold result CallState.result at h
  split at h
  · rename_i ret' written hcall
    obtain rfl := Option.some.inj h
    exact ⟨written, hcall⟩
  · cases h

theorem todoStage_ne_gone {before after : Stage} {during : ℕ → Stage} {call : Option ℕ}
    {todo : List ContainerNode} {node : ContainerNode} (hbefore : before ≠ .gone)
    (hduring : ∀ k, during k ≠ .gone) (hafter : after ≠ .gone) :
    todoStage before during after call todo node ≠ .gone := by
  rcases todoStage_cases call with heq | heq | ⟨k, rest, -, -, heq⟩ <;> rw [heq]
  · exact hbefore
  · exact hafter
  · exact hduring k

/-- While the file system may still change, no container is gone. -/
theorem stage_ne_gone (h : s.pass.isRemoving = false) {node : ContainerNode} :
    s.pass.stage node ≠ .gone := by
  cases hpass : s.pass with
  | idle | kill todo => rintro ⟨⟩
  | removal call leaving | wait call todo =>
      simp only [TeardownPass.stage]
      refine todoStage_ne_gone ?_ ?_ ?_ <;> nofun
  | remove call todo | returned ret => simp [hpass, TeardownPass.isRemoving] at h

/-- A creation adds a container at its address, or changes only the file system. -/
theorem create_cases {calls : CreateCalls Ctx} (hnamed : WellNamed s.tree)
    (hfree : (s.worlds calls.pointer).destroyed = true) (args : CreateArgs) :
    ∃ tree, WellNamed tree ∧ (s.create args calls = { s with tree := tree } ∨
      ∃ (c : OcreContainer Ctx) (workdir : Option CString), c.status = .created ∧
        c.semStart = [] ∧ s.create args calls = { s with
          context := { s.context with
            containers := s.context.containers ++ [⟨calls.pointer, workdir⟩] }
          worlds := update s.worlds calls.pointer (.ofContainer c)
          tree := tree }) := by
  refine ⟨_, (ContextState.addsOnlyDirectories_creation (s := s.view) hnamed args calls).named, ?_⟩
  have hnone : s.view.heap calls.pointer = none := by simp [view, hfree]
  have hcreation := s.view.creation args calls
  unfold create
  generalize s.view.ocreContextCreateContainer args calls = r at hcreation ⊢
  cases hcreation with
  | early | mkdirFailed | containerFailed | containerFailedIn =>
      refine .inl ?_
      dsimp only
      rw [hnone]
      rfl
  | created target tree c htarget hmake hid hstatus hsem =>
      refine .inr ⟨c, target.workdir, hstatus, hsem, ?_⟩
      dsimp only
      rw [Function.update_self]
      rfl

namespace TeardownInv

theorem of_fresh (h : s.Fresh) : TeardownInv V [] s where
  nodup := List.nodup_nil
  reached _ hmem := absurd hmem List.not_mem_nil
  stage _ hmem := absurd hmem List.not_mem_nil
  todo := by simp [h.pass, TeardownPass.todo]
  listed _ := h.containers
  workdirs _ hmem := absurd hmem List.not_mem_nil
  wellNamed := h.wellNamed

/-- A step of the container at `p` moves the stage of that container alone. -/
theorem act (h : TeardownInv V nodes s) {p : ℕ} {a : Act Ext} {pass : TeardownPass}
    (hact : s.act V p a pass = some s') (hok : CollectOk a (s.worlds p))
    (htodo : pass.todo <:+ nodes) (hremoving : pass.isRemoving = s.pass.isRemoving)
    (hat : ∀ node ∈ nodes, node.container = p → ∀ w, (s.worlds p).next V a = some w →
      (pass.stage node).Holds w ∧ (pass.stage node = .gone → s.pass.stage node = .gone))
    (helse : ∀ node ∈ nodes, node.container ≠ p → pass.stage node = s.pass.stage node) :
    TeardownInv V nodes s' := by
  obtain ⟨w, hnext, rfl⟩ := Option.map_eq_some_iff.mp hact
  refine ⟨h.nodup, fun node hmem ↦ ?_, fun node hmem ↦ ?_, htodo,
    fun hr ↦ h.listed (hremoving ▸ hr), fun node hmem hgone ↦ h.workdirs node hmem ?_,
    h.wellNamed⟩
  · by_cases hp : node.container = p
    · subst hp
      simpa using (h.reached node hmem).step a hok hnext
    · simpa [hp] using h.reached node hmem
  · by_cases hp : node.container = p
    · subst hp
      simpa using (hat node hmem rfl w hnext).1
    · simpa [hp, helse node hmem hp] using h.stage node hmem
  · by_cases hp : node.container = p
    · exact (hat node hmem hp w hnext).2 hgone
    · exact (helse node hmem hp).symm.trans hgone

theorem node_eq (h : TeardownInv V nodes s) {node head : ContainerNode} (hnode : node ∈ nodes)
    (hhead : head ∈ nodes) (heq : node.container = head.container) : node = head :=
  List.inj_on_of_nodup_map h.nodup hnode hhead heq

theorem head_mem {head : ContainerNode} {todo : List ContainerNode}
    (hsuffix : head :: todo <:+ nodes) : head ∈ nodes :=
  hsuffix.subset List.mem_cons_self

theorem head_not_mem (h : TeardownInv V nodes s) {head : ContainerNode}
    {todo : List ContainerNode} (hsuffix : head :: todo <:+ nodes) : head ∉ todo :=
  (List.nodup_cons.mp (h.nodup.of_map.sublist hsuffix.sublist)).1

theorem invs (h : TeardownInv V nodes s) {node : ContainerNode} (hmem : node ∈ nodes) :
    (s.worlds node.container).Inv ∧ (s.worlds node.container).CollectInv :=
  ⟨.of_reachable (h.reached node hmem), .of_reachable (h.reached node hmem)⟩

theorem container (h : TeardownInv V nodes s) {p : ℕ} {a : Act Ext} (hok : CollectOk a (s.worlds p))
    (ha : a.isRemoval = false)
    (hcalm : s.pass.isDestroying = true → s.disturbs p a = false)
    (hact : s.act V p a s.pass = some s') : TeardownInv V nodes s' := by
  refine h.act hact hok h.todo rfl (fun node hmem hp w hnext ↦ ⟨?_, id⟩) fun _ _ _ ↦ rfl
  subst hp
  obtain ⟨hw, hc⟩ := h.invs hmem
  exact (h.stage node hmem).next hw hc hok (admits_of_not_disturbs ha hcalm) hnext

theorem beginPass (h : TeardownInv V nodes s) {P : TeardownPass}
    (htodo : P.todo = s.context.containers) (hlisted : s.context.containers = nodes)
    (hstage : ∀ node ∈ nodes, (P.stage node).Holds (s.worlds node.container))
    (hgone : ∀ node ∈ nodes, P.stage node ≠ .gone) :
    TeardownInv V nodes { s with pass := P } :=
  ⟨h.nodup, h.reached, hstage, by rw [htodo, hlisted], fun _ ↦ hlisted,
    fun node hmem heq ↦ absurd heq (hgone node hmem), h.wellNamed⟩

theorem beginCall (h : TeardownInv V nodes s) {before after : Stage} {during : ℕ → Stage}
    {P : Option ℕ → TeardownPass} {head : ContainerNode} {todo : List ContainerNode}
    {a : Act Ext} {k : ℕ}
    (hstage : ∀ call node, (P call).stage node =
      todoStage before during after call (head :: todo) node)
    (hpass : s.pass = P none) (htodo : ∀ call, (P call).todo = head :: todo)
    (hremoving : ∀ call, (P call).isRemoving = (P none).isRemoving)
    (hok : CollectOk a (s.worlds head.container)) (hduring : during k ≠ .gone)
    (hcall : ∀ w, before.Holds (s.worlds head.container) →
      (s.worlds head.container).next V a = some w → (during k).Holds w)
    (hact : s.act V head.container a (P (some k)) = some s') : TeardownInv V nodes s' := by
  have hsuffix : head :: todo <:+ nodes := by
    rw [← htodo none, ← hpass]
    exact h.todo
  refine h.act hact hok (by rwa [htodo]) (by rw [hpass, hremoving]) ?_ ?_
  · intro node hmem hp w hnext
    obtain rfl := h.node_eq hmem (head_mem hsuffix) hp
    have hbefore := h.stage node hmem
    rw [hpass, hstage, todoStage_none, if_pos List.mem_cons_self] at hbefore
    rw [hstage, todoStage_head]
    exact ⟨hcall w hbefore hnext, fun hgone ↦ absurd hgone hduring⟩
  · intro node hmem hp
    have hne : node ≠ head := fun heq ↦ hp (congrArg _ heq)
    rw [hpass, hstage, hstage, todoStage_of_ne hne, todoStage_of_ne hne]

/-- The pass goes on to the next node when the call on the first has returned. -/
theorem stage_endCall (h : TeardownInv V nodes s) {before after : Stage}
    {during : ℕ → Stage} {P : Option ℕ → List ContainerNode → TeardownPass}
    {head : ContainerNode} {todo : List ContainerNode} {k : ℕ}
    (hstage : ∀ call todo node, (P call todo).stage node =
      todoStage before during after call todo node)
    (hpass : s.pass = P (some k) (head :: todo)) (hsuffix : head :: todo <:+ nodes)
    (hafter : (during k).Holds (s.worlds head.container) →
      after.Holds (s.worlds head.container)) :
    ∀ node ∈ nodes, ((P none todo).stage node).Holds (s.worlds node.container) := by
  intro node hmem
  have hbefore := h.stage node hmem
  rw [hpass, hstage] at hbefore
  rw [hstage, todoStage_none]
  by_cases hne : node = head
  · subst hne
    rw [todoStage_head] at hbefore
    rw [if_neg (h.head_not_mem hsuffix)]
    exact hafter hbefore
  · rwa [todoStage_of_ne hne, todoStage_none] at hbefore

theorem suffix_of_cons {head : ContainerNode} {todo : List ContainerNode}
    (h : head :: todo <:+ nodes) : todo <:+ nodes :=
  (List.suffix_cons head todo).trans h

theorem removeNode_zero {node : ContainerNode} {faults : ℕ → RmRfFaults} (pass : TeardownPass)
    (hrm : (node.removeWorkdir s.maxLinks faults s.tree).1 = 0) :
    s.removeNode node pass 0 faults = { s with
      tree := (node.removeWorkdir s.maxLinks faults s.tree).2
      context := { s.context with
        containers := s.context.containers.eraseP (·.container = node.container) }
      pass := pass } := by
  simp [removeNode, hrm]

theorem removed (h : TeardownInv V nodes s) {k : ℕ} {head : ContainerNode}
    {todo : List ContainerNode} {ret : Int} {faults : ℕ → RmRfFaults}
    (hpass : s.pass = .remove (some k) (head :: todo)) (hret : s.result k head = some ret)
    (hrm : s.result k head = some 0 → (head.removeWorkdir s.maxLinks faults s.tree).1 = 0) :
    TeardownInv V nodes (s.removeNode head (.remove none todo) ret faults) := by
  have hsuffix : head :: todo <:+ nodes := by simpa [hpass, TeardownPass.todo] using h.todo
  have hremoving := h.stage head (head_mem hsuffix)
  rw [hpass] at hremoving
  simp only [TeardownPass.stage, todoStage_head] at hremoving
  obtain ⟨written, hcall⟩ := exists_returned_of_result hret
  obtain ⟨rfl, hgone⟩ := hremoving.removed hcall
  have hrm := hrm hret
  have hstage := h.stage_endCall (P := .remove) (fun _ _ _ ↦ rfl) hpass hsuffix fun _ ↦ hgone
  rw [removeNode_zero _ hrm]
  refine ⟨h.nodup, h.reached, hstage, suffix_of_cons hsuffix, by rintro ⟨⟩,
    fun node hmem hnode ↦ ?_, (head.addsOnlyDirectories_removeWorkdir _ _ h.wellNamed).named⟩
  by_cases hne : node = head
  · subst hne
    exact ContainerNode.lstat_removeWorkdir h.wellNamed hrm
  · intro workdir hworkdir
    refine lstat_of_partOf (head.partOf_removeWorkdir _ _ h.wellNamed)
      (h.workdirs node hmem ?_ workdir hworkdir)
    rw [hpass]
    simpa only [TeardownPass.stage, todoStage_of_ne hne] using hnode

/-- A creation begins with a free address, so the addresses stay distinct. -/
theorem create (h : TeardownInv V nodes s) {args : CreateArgs} {calls : CreateCalls Ctx}
    (hpass : s.pass = .idle) (hfree : (s.worlds calls.pointer).destroyed = true) :
    ∃ nodes', TeardownInv V nodes' (s.create args calls) := by
  have hlisted := h.listed (by rw [hpass]; rfl)
  have hearly : ∀ node ∈ nodes, Stage.early.Holds (s.worlds node.container) := by
    intro node hmem
    have hstage := h.stage node hmem
    rwa [hpass] at hstage
  obtain ⟨tree, hnamed, heq | ⟨c, workdir, hstatus, hsem, heq⟩⟩ :=
    create_cases h.wellNamed hfree args
  · rw [heq]
    exact ⟨nodes, h.nodup, h.reached, h.stage, h.todo, h.listed,
      fun node hmem hgone ↦ absurd hgone (stage_ne_gone (by rw [hpass]; rfl)), hnamed⟩
  · have hne : ∀ node ∈ nodes, node.container ≠ calls.pointer := by
      intro node hmem hp
      have hlive := (hearly node hmem).2
      rw [hp, hfree] at hlive
      cases hlive
    have hnew : (.ofContainer c : ContainerWorld Point Ctx).Fresh :=
      ContainerWorld.ofContainer_fresh hstatus hsem
    rw [heq]
    refine ⟨nodes ++ [⟨calls.pointer, workdir⟩], ?_, fun node hmem ↦ ?_, fun node hmem ↦ ?_, ?_,
      fun _ ↦ by rw [hlisted], fun node hmem hgone ↦ ?_, hnamed⟩
    · rw [List.map_append, List.map_singleton]
      refine List.nodup_append.mpr ⟨h.nodup, List.nodup_singleton _, ?_⟩
      simp only [List.mem_map, List.mem_singleton]
      rintro _ ⟨node, hmem, rfl⟩ _ rfl
      exact hne node hmem
    · rcases List.mem_append.mp hmem with hmem | hmem
      · simpa [hne node hmem] using h.reached node hmem
      · obtain rfl := List.mem_singleton.mp hmem
        simpa using StepSystem.ReachableWhere.start hnew
    · dsimp only
      rw [hpass]
      rcases List.mem_append.mp hmem with hmem | hmem
      · simpa [TeardownPass.stage, hne node hmem] using hearly node hmem
      · obtain rfl := List.mem_singleton.mp hmem
        have hearly : Stage.early.Holds ((.ofContainer c : ContainerWorld Point Ctx)) :=
          ⟨hnew.contextMutex, hnew.destroyed⟩
        simpa [TeardownPass.stage] using hearly
    · dsimp only
      rw [hpass]
      exact List.nil_suffix
    · dsimp only at hgone
      rw [hpass] at hgone
      cases hgone

/-- A caller's removal begins with the node of the container. -/
theorem removeContainer (h : TeardownInv V nodes s) {k p : ℕ} {node : ContainerNode}
    (hpass : s.pass = .idle)
    (hnode : s.context.containers.find? (·.container = p) = some node)
    (hact : s.act V p (.destroyRead k) (.removal k node) = some s') : TeardownInv V nodes s' := by
  have hmem : node ∈ nodes := by
    rw [← h.listed (by rw [hpass]; rfl)]
    exact List.mem_of_find?_eq_some hnode
  have hp : node.container = p := by simpa using List.find?_some hnode
  refine h.act hact ⟨fun hs ↦ absurd rfl hs, fun _ ↦ rfl⟩ List.nil_suffix (by rw [hpass]; rfl) ?_ ?_
  · intro node' hmem' hp' w hnext
    obtain rfl := h.node_eq hmem' hmem (hp'.trans hp.symm)
    have hearly := h.stage node' hmem
    rw [hpass, hp] at hearly
    have hleaving : (TeardownPass.removal k node').stage node' = .leaving k := todoStage_head
    rw [hleaving]
    exact ⟨Stage.Holds.leave hearly hnext, nofun⟩
  · intro node' _ hp'
    have hne : node' ≠ node := by
      rintro rfl
      exact hp' hp
    rw [hpass]
    simp [TeardownPass.stage, todoStage, hne]

/-- A caller's removal ends with the container as alive as before, or off the list. -/
theorem containerRemoved (h : TeardownInv V nodes s) {k : ℕ} {node : ContainerNode} {ret : Int}
    {faults : ℕ → RmRfFaults} (hpass : s.pass = .removal k node)
    (hret : s.result k node = some ret)
    (hrm : s.result k node = some 0 → (node.removeWorkdir s.maxLinks faults s.tree).1 = 0) :
    ∃ nodes', TeardownInv V nodes' (s.removeNode node .idle ret faults) := by
  have hlisted := h.listed (by rw [hpass]; rfl)
  have hother : ∀ node' ∈ nodes, node' ≠ node →
      Stage.early.Holds (s.worlds node'.container) := by
    intro node' hmem hne
    have hstage := h.stage node' hmem
    rw [hpass] at hstage
    simpa [TeardownPass.stage, todoStage, hne] using hstage
  by_cases hzero : ret = 0
  · subst hzero
    rw [removeNode_zero _ (hrm hret)]
    have hfilter := List.eraseP_eq_filter_of_nodup_map h.nodup node.container
    have hmem_erase : ∀ node' ∈ nodes.eraseP (·.container = node.container),
        node' ∈ nodes ∧ node' ≠ node := by
      intro node' hmem
      refine ⟨List.mem_of_mem_eraseP hmem, ?_⟩
      rintro rfl
      rw [hfilter] at hmem
      simpa using (List.mem_filter.mp hmem).2
    refine ⟨nodes.eraseP (·.container = node.container),
      h.nodup.sublist (List.Sublist.map _ List.eraseP_sublist),
      fun node' hmem ↦ h.reached node' (hmem_erase node' hmem).1,
      fun node' hmem ↦ hother node' (hmem_erase node' hmem).1 (hmem_erase node' hmem).2,
      List.nil_suffix, fun _ ↦ by rw [hlisted], nofun,
      (node.addsOnlyDirectories_removeWorkdir _ _ h.wellNamed).named⟩
  · have heq : s.removeNode node .idle ret faults = { s with pass := .idle } := by
      rw [removeNode, if_pos hzero]
    rw [heq]
    refine ⟨nodes, h.nodup, h.reached, fun node' hmem ↦ ?_, List.nil_suffix, fun _ ↦ hlisted,
      nofun, h.wellNamed⟩
    by_cases hne : node' = node
    · subst hne
      obtain ⟨written, hcall⟩ := exists_returned_of_result hret
      have hstage := h.stage node' hmem
      rw [hpass] at hstage
      simp only [TeardownPass.stage, todoStage_head] at hstage
      exact hstage.refused hcall hzero
    · exact hother node' hmem hne

/-- What one step keeps. The containers stay the same once the destruction has begun. -/
theorem step (h : TeardownInv V nodes s) {a : TeardownAct Ctx Ext} (hok : TeardownOk a s)
    (hstep : Step V s a s') :
    ∃ nodes', TeardownInv V nodes' s' ∧ (s'.pass.isDestroying = true → nodes' = nodes) := by
  have hsame (h : TeardownInv V nodes s') :
      ∃ nodes', TeardownInv V nodes' s' ∧ (s'.pass.isDestroying = true → nodes' = nodes) :=
    ⟨nodes, h, fun _ ↦ rfl⟩
  have hidle (h : ∃ nodes', TeardownInv V nodes' s') (hpass : s'.pass = .idle) :
      ∃ nodes', TeardownInv V nodes' s' ∧ (s'.pass.isDestroying = true → nodes' = nodes) := by
    obtain ⟨nodes', h⟩ := h
    refine ⟨nodes', h, fun hdestroying ↦ ?_⟩
    rw [hpass] at hdestroying
    cases hdestroying
  cases hstep with
  | container p a _ ha hact => exact hsame (h.container hok.1 ha hok.2 hact)
  | files tree hnamed =>
      have hremoving : s.pass.isRemoving = false := by
        unfold TeardownOk at hok
        dsimp only at hok
        cases hpass : s.pass <;> simp_all [TeardownPass.isRemoving]
      exact hsame ⟨h.nodup, h.reached, h.stage, h.todo, h.listed,
        fun node hmem hgone ↦ absurd hgone (stage_ne_gone hremoving), hnamed⟩
  | createContainer args calls hpass hfree => exact hidle (h.create hpass hfree) hpass
  | unlisted => exact hsame h
  | removeContainer k p node _ hpass hnode hact =>
      exact hsame (h.removeContainer hpass hnode hact)
  | containerRemoved faults k node ret hpass hret =>
      refine hidle (h.containerRemoved hpass hret ?_) (s.removeNode_pass node .idle ret faults)
      simpa [TeardownOk, RemovesWorkdir, hpass] using hok
  | destroy hpass =>
      have hlisted := h.listed (by simp [hpass, TeardownPass.isRemoving])
      refine hsame (h.beginPass (P := .kill _) rfl hlisted (fun node hmem ↦ ⟨?_, ?_⟩)
        (by rintro _ - ⟨⟩))
      · have hearly := h.stage node hmem
        rw [hpass] at hearly
        exact hearly.1
      · exact hok node (hlisted ▸ hmem)
  | kill k ext node todo _ hpass hact =>
      have hsuffix : node :: todo <:+ nodes := by simpa [hpass, TeardownPass.todo] using h.todo
      have hok : CollectOk (.signal k .kill ext) (s.worlds node.container) :=
        ⟨fun hs ↦ absurd rfl hs, fun _ ↦ rfl⟩
      refine hsame (h.act hact hok (suffix_of_cons hsuffix) (by rw [hpass]; rfl) ?_
        fun _ _ _ ↦ by rw [hpass]; rfl)
      intro node' hmem hp w hnext
      obtain ⟨hw, hc⟩ := h.invs hmem
      have hcalled := h.stage node' hmem
      rw [hpass] at hcalled
      rw [← hp] at hnext hok
      exact ⟨hcalled.next hw hc hok ⟨rfl, rfl⟩ hnext, by rintro ⟨⟩⟩
  | killed hpass =>
      have hlisted := h.listed (by rw [hpass]; rfl)
      have hstage : ∀ node ∈ nodes, (TeardownPass.wait none s.context.containers).stage node =
          .called := by
        intro node hmem
        simp only [TeardownPass.stage, hlisted, todoStage_none, hmem, if_true]
      refine hsame (h.beginPass rfl hlisted (fun node hmem ↦ ?_) fun node hmem ↦ ?_)
      · have hcalled := h.stage node hmem
        rw [hpass] at hcalled
        rw [hstage node hmem]
        exact hcalled
      · simp [hstage node hmem]
  | wait k condRc node todo _ hpass hact =>
      obtain rfl : condRc = 0 := hok
      have hsuffix : node :: todo <:+ nodes := by simpa [hpass, TeardownPass.todo] using h.todo
      have hmem := head_mem hsuffix
      have hcalled := h.stage node hmem
      simp only [hpass, TeardownPass.stage, todoStage_none, List.mem_cons_self, if_true]
        at hcalled
      have hok : CollectOk (.wait k false 0 : Act Ext) (s.worlds node.container) :=
        ⟨fun hs ↦ absurd rfl hs, fun hm ↦ absurd hcalled.1 hm⟩
      obtain ⟨hw, hc⟩ := h.invs hmem
      exact hsame (h.beginCall (P := fun call ↦ .wait call (node :: todo))
        (fun _ _ ↦ rfl) hpass (fun _ ↦ rfl) (fun _ ↦ rfl) hok (by rintro ⟨⟩)
        (fun w hbefore hnext ↦ hbefore.wait hw hc hnext) hact)
  | waited k node todo ret hpass hret =>
      have hsuffix : node :: todo <:+ nodes := by simpa [hpass, TeardownPass.todo] using h.todo
      obtain ⟨written, hcall⟩ := exists_returned_of_result hret
      have hlisted := h.listed (by rw [hpass]; rfl)
      exact hsame ⟨h.nodup, h.reached, h.stage_endCall (P := .wait) (fun _ _ _ ↦ rfl) hpass hsuffix
        fun hwaiting ↦ hwaiting.waited hcall, suffix_of_cons hsuffix, fun _ ↦ hlisted,
        fun node' hmem hgone ↦ absurd hgone
          (stage_ne_gone (s := { s with pass := .wait none todo }) rfl), h.wellNamed⟩
  | allWaited hpass =>
      have hlisted := h.listed (by rw [hpass]; rfl)
      have hstage : ∀ node ∈ nodes, (TeardownPass.remove none s.context.containers).stage node =
          .ended := by
        intro node hmem
        simp only [TeardownPass.stage, hlisted, todoStage_none, hmem, if_true]
      refine hsame (h.beginPass rfl hlisted (fun node hmem ↦ ?_) fun node hmem ↦ ?_)
      · have hended := h.stage node hmem
        rw [hpass] at hended
        rw [hstage node hmem]
        simpa [TeardownPass.stage, todoStage_none] using hended
      · simp [hstage node hmem]
  | remove k node todo _ hpass hact =>
      have hsuffix : node :: todo <:+ nodes := by simpa [hpass, TeardownPass.todo] using h.todo
      obtain ⟨hw, hc⟩ := h.invs (head_mem hsuffix)
      exact hsame (h.beginCall (P := fun call ↦ .remove call (node :: todo))
        (fun _ _ ↦ rfl) hpass (fun _ ↦ rfl) (fun _ ↦ rfl)
        ⟨fun hs ↦ absurd rfl hs, fun _ ↦ rfl⟩ (by rintro ⟨⟩)
        (fun w hbefore hnext ↦ hbefore.remove hw hc hnext) hact)
  | removed faults k node todo ret hpass hret =>
      exact hsame (h.removed hpass hret
        (by simpa [TeardownOk, RemovesWorkdir, hpass] using hok))
  | mutexDestroy rc hpass =>
      have hstage : ∀ node ∈ nodes, s.pass.stage node = .gone := by
        intro node hmem
        simp [hpass, TeardownPass.stage, todoStage_none]
      refine hsame ⟨h.nodup, h.reached, fun node hmem ↦ ?_, List.nil_suffix, by rintro ⟨⟩,
        fun node hmem _ ↦ h.workdirs node hmem (hstage node hmem), h.wellNamed⟩
      have hgone := h.stage node hmem
      rwa [hstage node hmem] at hgone

end TeardownInv

/-- A destruction that has begun does not go back. -/
theorem isDestroying_of_step {a : TeardownAct Ctx Ext} (hstep : Step V s a s')
    (h : s.pass.isDestroying = true) : s'.pass.isDestroying = true := by
  cases hstep with
  | container p a _ ha hact =>
      obtain ⟨w, -, rfl⟩ := Option.map_eq_some_iff.mp hact
      exact h
  | files => exact h
  | createContainer args calls hpass => rw [hpass] at h; cases h
  | unlisted => exact h
  | removeContainer k p node _ hpass => rw [hpass] at h; cases h
  | containerRemoved faults k node ret hpass => rw [hpass] at h; cases h
  | kill k ext node todo _ hpass hact | wait k condRc node todo _ hpass hact
  | remove k node todo _ hpass hact =>
      obtain ⟨w, -, rfl⟩ := Option.map_eq_some_iff.mp hact
      rfl
  | removed faults k node todo ret =>
      rw [removeNode_pass]
      rfl
  | destroy | killed | waited | allWaited | mutexDestroy => rfl

/-- When the destruction of a context returns 0 in a run whose steps all meet the
condition, every container that was listed when it began is gone with all that belonged to
it. -/
theorem complete_of_returned {s₀ s₁ : TeardownWorld Point Ctx} (h₀ : s₀.Fresh)
    {as bs : List (TeardownAct Ctx Ext)}
    (hmeets : (teardownSystem V).RunMeets TeardownOk s₀ (as ++ .destroy :: bs))
    (hrun : (teardownSystem V).run s₀ as = some s₁)
    (hdestroy : (teardownSystem V).run s₁ (.destroy :: bs) = some s)
    (hret : s.pass = .returned 0) : ∀ node ∈ s₁.context.containers, s.Complete node := by
  obtain ⟨hmeets₁, hmeets⟩ := hmeets.of_append hrun
  obtain ⟨nodes, hinv⟩ : ∃ nodes, TeardownInv V nodes s₁ := by
    refine hmeets₁.invariant (I := fun t ↦ ∃ nodes, TeardownInv V nodes t) ?_
      ⟨[], .of_fresh h₀⟩ hrun
    rintro a t t' ⟨nodes, ht⟩ hok hnext
    obtain ⟨nodes', ht', -⟩ := ht.step hok (step_of_next V hnext)
    exact ⟨nodes', ht'⟩
  obtain ⟨t, hnext, hrest⟩ := Option.bind_eq_some_iff.mp hdestroy
  have hbegin : Step V s₁ .destroy t := step_of_next V hnext
  have hend : TeardownInv V nodes s ∧ s.pass.isDestroying = true := by
    refine (hmeets.2 t hnext).invariant
      (I := fun t ↦ TeardownInv V nodes t ∧ t.pass.isDestroying = true) ?_ ?_ hrest
    · rintro a t t' ⟨ht, hdestroying⟩ hok hnext
      have hstep := step_of_next V hnext
      have hdestroying' := isDestroying_of_step hstep hdestroying
      obtain ⟨nodes', ht', hsame⟩ := ht.step hok hstep
      exact ⟨hsame hdestroying' ▸ ht', hdestroying'⟩
    · obtain ⟨nodes', ht', hsame⟩ := hinv.step hmeets.1 hbegin
      cases hbegin with
      | destroy hpass => exact ⟨hsame rfl ▸ ht', rfl⟩
  have hlisted : s₁.context.containers = nodes := by
    cases hbegin with
    | destroy hpass => exact hinv.listed (by rw [hpass]; rfl)
  intro node hmem
  rw [hlisted] at hmem
  have hgone := hend.1.stage node hmem
  rw [hret] at hgone
  obtain ⟨hw, hc⟩ := hend.1.invs hmem
  exact ⟨(hc.collected hw).beforeFree hgone, hgone, hend.1.workdirs node hmem (by rw [hret]; rfl)⟩

/-- Three containers are created, of which the last is removed and the first is started. -/
def createdActs : List (TeardownAct Unit Unit) :=
  [.createContainer (filesystemArgs (some (cstring "a"))) (promptCalls 1),
    .createContainer { image := some (cstring "hello.wasm"), containerId := none }
      (promptCalls 2),
    .createContainer (filesystemArgs (some (cstring "c"))) (promptCalls 3),
    .removeContainer 0 3, .container 3 (.destroyCheck 0), .container 3 (.destroyFree 0),
    .containerRemoved noRmRfFaults,
    .container 1 (.start 0 {}), .container 1 (.thread 0 ()), .container 1 (.semWait 0 0)]

/-- A running and a created container. -/
theorem complete_of_running_container :
    ∃ s₁ s, (teardownSystem promptRuntime).run workTeardown createdActs = some s₁ ∧
      (teardownSystem promptRuntime).run s₁
        [.destroy, .kill 1 (), .kill 0 (), .killed, .wait 2 0, .container 1 (.exit 0),
          .container 1 (.resume 2), .waited, .wait 1 0, .waited, .allWaited, .remove 3,
          .container 1 (.destroyCheck 3), .container 1 (.destroyFree 3), .removed noRmRfFaults,
          .remove 2, .container 2 (.destroyCheck 2), .container 2 (.destroyFree 2),
          .removed noRmRfFaults, .mutexDestroy 0] = some s ∧
      s.pass = .returned 0 ∧ s.Complete ⟨1, some (cstring "/ocre/containers/a")⟩ := by
  have hmeets : (teardownSystem promptRuntime).RunMeets TeardownOk workTeardown (createdActs ++
      [.destroy, .kill 1 (), .kill 0 (), .killed, .wait 2 0, .container 1 (.exit 0),
        .container 1 (.resume 2), .waited, .wait 1 0, .waited, .allWaited, .remove 3,
        .container 1 (.destroyCheck 3), .container 1 (.destroyFree 3), .removed noRmRfFaults,
        .remove 2, .container 2 (.destroyCheck 2), .container 2 (.destroyFree 2),
        .removed noRmRfFaults, .mutexDestroy 0]) := by decide
  refine ⟨_, _, rfl, rfl, rfl, complete_of_returned workTeardown_fresh hmeets rfl rfl rfl _ ?_⟩
  exact List.mem_cons_self

/-- A paused container is not killed, not waited for and not destroyed, and the
destruction returns 0. -/
theorem not_complete_of_paused :
    ¬ ∀ s₀ s₁ s : TeardownWorld Bool Unit, s₀.Fresh → ∀ as bs,
      (teardownSystem promptRuntime).run s₀ as = some s₁ →
      (teardownSystem promptRuntime).run s₁ (.destroy :: bs) = some s → s.pass = .returned 0 →
        ∀ node ∈ s₁.context.containers, s.Complete node := by
  intro h
  have hcomplete := h workTeardown _ _ workTeardown_fresh
    (createdActs ++ [.container 1 (.signal 1 .pause ())])
    [.kill 2 (), .kill 0 (), .killed, .wait 3 0,
      .waited, .wait 1 0, .waited, .allWaited, .remove 4, .container 1 (.destroyCheck 4),
      .removed noRmRfFaults, .remove 2, .container 2 (.destroyCheck 2),
      .container 2 (.destroyFree 2), .removed noRmRfFaults, .mutexDestroy 0] rfl rfl rfl
  have hlisted := hcomplete _ List.mem_cons_self
  cases hlisted.destroyed

end TeardownWorld

end OcreRuntime
