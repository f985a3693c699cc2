import OcreRuntime.Context.Creation
import OcreRuntime.Context.Dangling

/-!
# A context as a map from IDs to containers

What callers of a context see of its containers is a map in the order of creation.
The abstract machine below has the map as its whole state, and its labels are the
operations with their results. Every sequence of operations on a context, seen from
outside, is one of the machine, as long as removals are not stopped by a directory.
-/

namespace OcreRuntime

/-- The operations with what they return. `draws` are the IDs from which a creation
without an ID can choose. -/
inductive IdMapEvent
  | create (given : Option CString) (draws : List CString) (result : Option ℕ)
  | remove (container : ℕ) (removed : Bool)
  | getById (id : CString) (result : Option ℕ)
  | getCount (result : Int)
  | getContainers (maxSize : Int) (result : Int × List ℕ)
  | other

/-- A creation may fail for reasons that the map does not show, but succeeds only with
a key that is free, and a removal succeeds only with a container of the map. -/
def idMapSystem : StepSystem (OrderedMap CString ℕ) IdMapEvent where
  init m := m = .empty
  next event m := match event with
    | .create _ _ none => some m
    | .create given draws (some container) =>
        match hkey : m.freeKey given draws with
        | none => none
        | some id => some (m.append id container (OrderedMap.find_eq_none_of_freeKey hkey))
    | .remove _ false => some m
    | .remove container true =>
        if container ∈ m.values then some (m.eraseValue container) else none
    | .getById id result => if result = m.find id then some m else none
    | .getCount result => if result = m.entries.length then some m else none
    | .getContainers maxSize result =>
        let containers := m.values.take maxSize.toNat
        if result = ((containers.length : Int), containers) then some m else none
    | .other => some m

theorem idMapSystem_create {m : OrderedMap CString ℕ} {given : Option CString}
    {draws : List CString} {id : CString} (h : m.freeKey given draws = some id) (container : ℕ) :
    idMapSystem.next (.create given draws (some container)) m =
      some (m.append id container (OrderedMap.find_eq_none_of_freeKey h)) := by
  dsimp only [idMapSystem]
  split
  · rename_i hnone
    simp [h] at hnone
  · rename_i id' hid
    obtain rfl : id = id' := Option.some.inj (h.symm.trans hid)
    rfl

namespace ContextState

open Function (update)

variable {Ctx : Type} {s s' : ContextState Ctx}

def draws (rand : ℕ → ℕ) : List CString := (List.range 100).map (generateRandomId rand)

/-- What is seen of an operation. Calls with NULL and what happens to the containers
themselves are nothing to the map. -/
def see (a : ContextAct Ctx) (s : ContextState Ctx) : IdMapEvent :=
  match a with
  | .create args calls =>
      .create args.containerId (draws calls.rand) (s.ocreContextCreateContainer args calls).1
  | .remove (some container) calls =>
      .remove container ((s.ocreContextRemoveContainer (some container) calls).1 == 0)
  | .getById (some id) => .getById id (s.ocreContextGetContainerById (some id))
  | .getCount => .getCount s.ocreContextGetContainerCount
  | .getContainers true maxSize =>
      .getContainers maxSize (s.ocreContextGetContainers true maxSize)
  | _ => .other

/-- The operations of the map, with removals that are not stopped by a directory. -/
def IdMapOk (a : ContextAct Ctx) (s : ContextState Ctx) : Prop :=
  match a with
  | .destroy _ => False
  | .remove (some container) calls => s.WorkdirRemoved container calls
  | _ => True

instance (a : ContextAct Ctx) (s : ContextState Ctx) : Decidable (IdMapOk a s) :=
  match a with
  | .destroy _ => inferInstanceAs (Decidable False)
  | .remove (some container) calls => inferInstanceAs (Decidable (s.WorkdirRemoved container calls))
  | .remove none _ | .create .. | .getById _ | .getCount | .getContainers .. | .evolve .. =>
      inferInstanceAs (Decidable True)

theorem IdMapOk.removesWorkdirs {a : ContextAct Ctx} (h : IdMapOk a s) : RemovesWorkdirs a s := by
  cases a with
  | remove container calls =>
      cases container with
      | none => trivial
      | some container => exact h
  | destroy calls => exact h.elim
  | _ => trivial

def nodeEntry (heap : ℕ → Option (OcreContainer Ctx)) (node : ContainerNode) :
    Option (CString × ℕ) :=
  (heap node.container).map fun c ↦ (c.id, node.container)

/-- The listed containers with their IDs. -/
def idList (s : ContextState Ctx) : List (CString × ℕ) :=
  s.context.containers.filterMap (nodeEntry s.heap)

/-- The map that a context stands for. -/
structure Represents (s : ContextState Ctx) (m : OrderedMap CString ℕ) : Prop extends Inv s where
  entries : m.entries = s.idList

/-- The ID is there already, or so are all that have been drawn. -/
def IdTaken (s : ContextState Ctx) (args : CreateArgs) (calls : CreateCalls Ctx) : Prop :=
  match args.containerId with
  | some id => id ∈ s.idList.map Prod.fst
  | none => ∀ id ∈ draws calls.rand, id ∈ s.idList.map Prod.fst

/-- The container can be destroyed neither now nor by collecting its thread. -/
def InUse (s : ContextState Ctx) (container : ℕ) (calls : RemoveCalls) : Prop :=
  ∃ c, s.heap container = some c ∧ (ocreContainerDestroy calls.joinRc c).isSome

/-- These operations fail and change nothing at all. -/
def RefusalsQuiet (a : ContextAct Ctx) (s s' : ContextState Ctx) : Prop :=
  (∀ args calls, a = .create args calls → s.IdTaken args calls →
    (s.ocreContextCreateContainer args calls).1 = none ∧ s' = s) ∧
  ∀ container calls, a = .remove container calls →
    (∀ p ∈ container, ¬ s.Listed p ∨ s.InUse p calls) →
      (s.ocreContextRemoveContainer container calls).1 = -1 ∧ s' = s

theorem nodeEntry_update_of_ne {heap : ℕ → Option (OcreContainer Ctx)} {node : ContainerNode}
    {container : ℕ} (h : node.container ≠ container) (c : Option (OcreContainer Ctx)) :
    nodeEntry (update heap container c) node = nodeEntry heap node := by
  simp [nodeEntry, h]

theorem findById_eq {heap : ℕ → Option (OcreContainer Ctx)} (id : CString)
    {nodes : List ContainerNode} (h : ∀ node ∈ nodes, heap node.container ≠ none) :
    findById heap id nodes =
      ((nodes.filterMap (nodeEntry heap)).find? (·.1 = id)).map Prod.snd := by
  induction nodes with
  | nil => rfl
  | cons node nodes ih =>
      obtain ⟨c, hc⟩ := Option.ne_none_iff_exists'.mp (h node List.mem_cons_self)
      have hrest := ih fun node' hn ↦ h node' (List.mem_cons_of_mem node hn)
      have hentry : nodeEntry heap node = some (c.id, node.container) := by simp [nodeEntry, hc]
      rw [findById, hc, List.filterMap_cons_some hentry]
      by_cases hid : c.id = id
      · simp [hid]
      · simp [hid, hrest]

theorem map_snd_filterMap_nodeEntry {heap : ℕ → Option (OcreContainer Ctx)}
    {nodes : List ContainerNode} (h : ∀ node ∈ nodes, heap node.container ≠ none) :
    (nodes.filterMap (nodeEntry heap)).map Prod.snd = nodes.map ContainerNode.container := by
  induction nodes with
  | nil => rfl
  | cons node nodes ih =>
      obtain ⟨c, hc⟩ := Option.ne_none_iff_exists'.mp (h node List.mem_cons_self)
      have hentry : nodeEntry heap node = some (c.id, node.container) := by simp [nodeEntry, hc]
      rw [List.filterMap_cons_some hentry, List.map_cons, List.map_cons,
        ih fun node' hn ↦ h node' (List.mem_cons_of_mem node hn)]

/-- The loop stops at the end of the list or of the array. -/
theorem collectContainers_eq (maxSize count : Int) (nodes : List ContainerNode) :
    collectContainers maxSize count nodes =
      (nodes.map ContainerNode.container).take (maxSize - count).toNat := by
  induction nodes generalizing count with
  | nil => simp [collectContainers]
  | cons node nodes ih =>
      by_cases hfull : count ≥ maxSize
      · have hzero : (maxSize - count).toNat = 0 := by omega
        simp [collectContainers, hfull, hzero]
      · have hsucc : (maxSize - count).toNat = (maxSize - (count + 1)).toNat + 1 := by omega
        rw [collectContainers, if_neg hfull, ih, hsucc, List.map_cons, List.take_succ_cons]

namespace Represents

variable {m : OrderedMap CString ℕ}

theorem ne_none (h : s.Represents m) :
    ∀ node ∈ s.context.containers, s.heap node.container ≠ none :=
  fun node hmem hdead ↦ h.live node.container ⟨⟨node, hmem, rfl⟩, hdead⟩

theorem values (h : s.Represents m) :
    m.values = s.context.containers.map ContainerNode.container := by
  rw [OrderedMap.values, h.entries]
  exact map_snd_filterMap_nodeEntry h.ne_none

theorem mem_values (h : s.Represents m) {container : ℕ} :
    container ∈ m.values ↔ s.Listed container := by
  rw [h.values]
  exact List.mem_map

theorem find (h : s.Represents m) (id : CString) : s.getContainerByIdLocked id = m.find id := by
  rw [OrderedMap.find, h.entries]
  exact findById_eq id h.ne_none

theorem length (h : s.Represents m) : s.context.containers.length = m.entries.length := by
  have hlength := congrArg List.length h.values
  simpa [OrderedMap.values] using hlength.symm

theorem find_isSome (h : s.Represents m) {id : CString} :
    (m.find id).isSome ↔ id ∈ s.idList.map Prod.fst := by
  rw [← h.entries, Option.isSome_iff_ne_none, ne_eq, m.find_eq_none_iff, not_not]

/-- The ID that a creation computes is the free key of the map. -/
theorem freeKey_of_computed (h : s.Represents m) {args : CreateArgs} {calls : CreateCalls Ctx}
    {id : CString} (hid : s.computedContainerId args calls = some id) :
    m.freeKey args.containerId (draws calls.rand) = some id := by
  unfold computedContainerId at hid
  unfold OrderedMap.freeKey
  cases hgiven : args.containerId with
  | none =>
      simp only [hgiven, makeUniqueRandomContainerId, h.find] at hid
      exact (Option.ite_none_left_eq_some.mp hid).2
  | some given => simpa only [hgiven, h.find] using hid

theorem freeKey_of_taken (h : s.Represents m) {args : CreateArgs} {calls : CreateCalls Ctx}
    (htaken : s.IdTaken args calls) : m.freeKey args.containerId (draws calls.rand) = none := by
  unfold IdTaken at htaken
  unfold OrderedMap.freeKey
  cases hgiven : args.containerId with
  | none =>
      simp only [hgiven] at htaken
      refine List.find?_eq_none.mpr fun id hid ↦ ?_
      have hsome := h.find_isSome.mpr (htaken id hid)
      simpa [Option.isSome_iff_ne_none] using hsome
  | some given =>
      simp only [hgiven] at htaken
      simp [h.find_isSome.mpr htaken]

theorem empty (h : s.Fresh) : s.Represents .empty where
  toInv := .of_fresh h
  entries := by simp [OrderedMap.empty, idList, h.containers]

theorem created (h : s.Represents m) {calls : CreateCalls Ctx}
    (hfresh : s.heap calls.pointer = none) {id : CString} (hid : m.find id = none)
    {c : OcreContainer Ctx} (hc : c.id = id) (workdir : Option CString) (tree : FileSystem)
    (hs' : s' = { s with
      tree := tree
      heap := update s.heap calls.pointer (some c)
      context := { s.context with
        containers := s.context.containers ++ [⟨calls.pointer, workdir⟩] } })
    (hinv : s'.Inv) : s'.Represents (m.append id calls.pointer hid) := by
  refine ⟨hinv, ?_⟩
  have hkept : s.context.containers.filterMap
      (nodeEntry (update s.heap calls.pointer (some c))) = s.idList := by
    refine List.filterMap_congr fun node hmem ↦ nodeEntry_update_of_ne (fun heq ↦ ?_) _
    exact h.ne_none node hmem (heq ▸ hfresh)
  subst hs'
  simp [idList, OrderedMap.append, h.entries, hkept, nodeEntry, hc]

theorem removed (h : s.Represents m) (container : ℕ) (tree : FileSystem)
    (hs' : s' = { s with
      heap := update s.heap container none
      tree := tree
      context := { s.context with
        containers := s.context.containers.eraseP (·.container = container) } })
    (hinv : s'.Inv) : s'.Represents (m.eraseValue container) := by
  refine ⟨hinv, ?_⟩
  subst hs'
  simp only [idList, OrderedMap.eraseValue, h.entries,
    List.eraseP_eq_filter_of_nodup_map h.nodup, List.filter_filterMap, List.filterMap_filter]
  refine List.filterMap_congr fun node hmem ↦ ?_
  by_cases hnode : node.container = container
  · cases hc : s.heap container <;> simp [nodeEntry, hc, hnode]
  · rw [nodeEntry_update_of_ne hnode]
    cases hc : s.heap node.container <;> simp [nodeEntry, hc, hnode]

theorem evolved (h : s.Represents m) {container : ℕ} {old c : OcreContainer Ctx}
    (hold : s.heap container = some old) (hid : c.id = old.id) :
    { s with heap := update s.heap container (some c) }.Represents m := by
  refine ⟨h.toInv.evolve container c, ?_⟩
  rw [h.entries]
  refine List.filterMap_congr fun node hmem ↦ ?_
  by_cases hnode : node.container = container
  · simp [nodeEntry, hnode, hold, hid]
  · rw [nodeEntry_update_of_ne hnode]

theorem create (h : s.Represents m) {args : CreateArgs} {calls : CreateCalls Ctx}
    (hfresh : s.heap calls.pointer = none)
    (hinv : (s.ocreContextCreateContainer args calls).2.Inv) :
    ∃ m', idMapSystem.next (see (.create args calls) s) m = some m' ∧
      (s.ocreContextCreateContainer args calls).2.Represents m' := by
  have hcreation := s.creation args calls
  unfold see
  dsimp only
  generalize s.ocreContextCreateContainer args calls = r at hcreation hinv ⊢
  cases hcreation with
  | early | containerFailed | mkdirFailed | containerFailedIn => exact ⟨m, rfl, hinv, h.entries⟩
  | created target tree c htarget hmake hc =>
      have hkey := h.freeKey_of_computed (createTarget_spec htarget).2.1
      exact ⟨_, idMapSystem_create hkey calls.pointer, h.created hfresh _ hc _ tree rfl hinv⟩

theorem create_of_taken (h : s.Represents m) {args : CreateArgs} {calls : CreateCalls Ctx}
    (htaken : s.IdTaken args calls) : s.ocreContextCreateContainer args calls = (none, s) := by
  have hcreation := s.creation args calls
  have htarget : s.createTarget args calls = none := by
    by_contra hne
    obtain ⟨target, htarget⟩ := Option.ne_none_iff_exists'.mp hne
    have hkey := h.freeKey_of_computed (createTarget_spec htarget).2.1
    simp [h.freeKey_of_taken htaken] at hkey
  simp [ocreContextCreateContainer, htarget]

theorem remove (h : s.Represents m) {container : ℕ} {calls : RemoveCalls}
    (hok : s.WorkdirRemoved container calls)
    (hinv : (s.removeContainerLocked container calls).2.Inv) :
    ∃ m', idMapSystem.next (see (.remove (some container) calls) s) m = some m' ∧
      (s.removeContainerLocked container calls).2.Represents m' := by
  have hremoval := s.removal container calls
  unfold see
  dsimp only [ocreContextRemoveContainer]
  generalize s.removeContainerLocked container calls = r at hremoval hinv ⊢
  cases hremoval with
  | missing | refused => exact ⟨m, rfl, hinv, h.entries⟩
  | workdirLeft node c hnode hc hdestroy hrm =>
      exact absurd (hok node hnode c hc (by simp [hdestroy])) hrm
  | removed node c hnode hc hdestroy hrm =>
      refine ⟨m.eraseValue container, ?_, h.removed container _ rfl hinv⟩
      simp [idMapSystem, h.mem_values.mpr (listed_of_find? hnode)]

theorem remove_of_refused {container : ℕ} {calls : RemoveCalls}
    (hrefused : ¬ s.Listed container ∨ s.InUse container calls) :
    s.removeContainerLocked container calls = (-1, s) := by
  have hremoval := s.removal container calls
  generalize s.removeContainerLocked container calls = r at hremoval ⊢
  cases hremoval with
  | missing | refused => rfl
  | workdirLeft node c hnode hc hdestroy | removed node c hnode hc hdestroy =>
      rcases hrefused with hunlisted | ⟨c', hc', hused⟩
      · exact absurd (listed_of_find? hnode) hunlisted
      · obtain rfl : c = c' := Option.some.inj (hc.symm.trans hc')
        simp [hdestroy] at hused

theorem step (h : s.Represents m) {a : ContextAct Ctx} (hok : IdMapOk a s)
    (hnext : s.next a = some s') :
    (∃ m', idMapSystem.next (see a s) m = some m' ∧ s'.Represents m') ∧
      RefusalsQuiet a s s' := by
  have hinv := (h.toInv.contract_iff hnext).2 hok.removesWorkdirs
  unfold ContextState.next at hnext
  obtain ⟨-, hnext⟩ := Option.ite_none_left_eq_some.mp hnext
  cases a with
  | create args calls =>
      obtain ⟨hfresh, hnext⟩ := Option.ite_none_right_eq_some.mp hnext
      obtain rfl := Option.some.inj hnext
      refine ⟨h.create (Option.isNone_iff_eq_none.mp hfresh) hinv, ?_, by simp⟩
      rintro _ _ ⟨⟩ htaken
      rw [h.create_of_taken htaken]
      exact ⟨rfl, rfl⟩
  | remove container calls =>
      obtain rfl := Option.some.inj hnext
      cases container with
      | none =>
          refine ⟨⟨m, rfl, h⟩, by simp, ?_⟩
          rintro _ _ ⟨⟩ -
          exact ⟨rfl, rfl⟩
      | some container =>
          refine ⟨h.remove hok hinv, by simp, ?_⟩
          rintro _ _ ⟨⟩ hrefused
          have hkept := remove_of_refused (hrefused container rfl)
          simp [ocreContextRemoveContainer, hkept]
  | getById id =>
      obtain rfl := Option.some.inj hnext
      refine ⟨⟨m, ?_, h⟩, by simp [RefusalsQuiet]⟩
      cases id with
      | none => rfl
      | some id => simp [see, idMapSystem, ocreContextGetContainerById, h.find]
  | getCount =>
      obtain rfl := Option.some.inj hnext
      refine ⟨⟨m, ?_, h⟩, by simp [RefusalsQuiet]⟩
      simp [see, idMapSystem, ocreContextGetContainerCount, h.length]
  | getContainers given maxSize =>
      obtain rfl := Option.some.inj hnext
      refine ⟨⟨m, ?_, h⟩, by simp [RefusalsQuiet]⟩
      cases given with
      | false => rfl
      | true =>
          simp [see, idMapSystem, ocreContextGetContainers, collectContainers_eq, h.values]
  | destroy calls => exact hok.elim
  | evolve container c =>
      dsimp only at hnext
      split at hnext
      · rename_i old hold
        obtain ⟨hid, hnext⟩ := Option.ite_none_right_eq_some.mp hnext
        obtain rfl := Option.some.inj hnext
        exact ⟨⟨m, rfl, h.evolved hold hid⟩, by simp [RefusalsQuiet]⟩
      · cases hnext

end Represents

/-- Every sequence of operations on a new context is seen as one of the map, which the
context stands for at the end; operations that are refused change nothing. -/
theorem refines_idMap {s₀ : ContextState Ctx} (h₀ : s₀.Fresh) {as : List (ContextAct Ctx)}
    (hmeets : (contextSystem Ctx).RunMeets IdMapOk s₀ as)
    (hrun : (contextSystem Ctx).run s₀ as = some s) :
    (∃ m, idMapSystem.run OrderedMap.empty ((contextSystem Ctx).trace see s₀ as) = some m ∧
        s.Represents m) ∧
      (contextSystem Ctx).RunKeeps RefusalsQuiet s₀ as := by
  have hrepresents {t : ContextState Ctx} (ht : (contextSystem Ctx).ReachableWhere IdMapOk t) :
      ∃ m, t.Represents m := by
    refine ht.invariant (I := fun t ↦ ∃ m, t.Represents m)
      (fun u hu ↦ ⟨OrderedMap.empty, Represents.empty hu⟩) ?_
    rintro a u u' ⟨m, hm⟩ ha hnext
    exact (hm.step ha hnext).1.imp fun _ hm' ↦ hm'.2
  refine ⟨StepSystem.ReachableWhere.simulation (fun a t t' m _ hm ha hnext ↦ ?_)
    (.start h₀) (.empty h₀) hmeets hrun, ?_⟩
  · exact (hm.step ha hnext).1
  · refine StepSystem.ReachableWhere.runKeeps (fun a t t' ht ha hnext ↦ ?_) (.start h₀) hmeets
    obtain ⟨m, hm⟩ := hrepresents ht
    exact (hm.step ha hnext).2

/-- Creations with a given and with a random ID, one that is refused, and the queries
before and after a removal. -/
theorem refines_idMap_of_two_containers :
    ∃ s m, (contextSystem Unit).run workContext
        [.create (filesystemArgs (some (cstring "a"))) (promptCalls 1),
          .create (filesystemArgs none) (promptCalls 2),
          .create (filesystemArgs (some (cstring "a"))) (promptCalls 3),
          .remove (some 1) {}, .getById (some (cstring "a")), .getCount,
          .getContainers true 5] = some s ∧
      m.values = [2] ∧ s.Represents m := by
  have hmeets : (contextSystem Unit).RunMeets IdMapOk workContext
      [.create (filesystemArgs (some (cstring "a"))) (promptCalls 1),
        .create (filesystemArgs none) (promptCalls 2),
        .create (filesystemArgs (some (cstring "a"))) (promptCalls 3),
        .remove (some 1) {}, .getById (some (cstring "a")), .getCount,
        .getContainers true 5] := by decide
  obtain ⟨⟨m, -, hm⟩, -⟩ := refines_idMap workContext_fresh hmeets rfl
  exact ⟨_, m, rfl, hm.values, hm⟩

end ContextState

end OcreRuntime
