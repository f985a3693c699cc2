import OcreRuntime.Wamr.DirMap

/-!
# The creation of an instance

`instance_create` acquires the context and its parts in order and builds the directory map;
the label `error` releases what is there, and `instance_destroy` releases all of it. When a
creation succeeds, the map is the one that the capabilities and the mounts ask for, unless
the capability `filesystem` has come twice. The entry of the capability is the only one for
the root exactly if no mount has the root, by any spelling, in front of its colon.
-/

namespace OcreRuntime

open Resources (release releaseIf Releases Keeps)

/-- NULL is returned. -/
def returnNull {α : Type} (r : Option (List Resource)) : Option (Option α × List Resource) :=
  r.map fun live ↦ (none, live)

/-- The loop that frees the strings up to the NULL. -/
def freeSlots : List Slot → List Resource → Option (List Resource)
  | [], _ => none
  | .uninitialized :: _, _ => none
  | .null :: _, live => some live
  | .entry r _ :: slots, live => (release r live).bind (freeSlots slots)

/-- The strings of the map and its array. A freed array cannot be read. -/
def freeDirMap (m : DirMap) (live : List Resource) : Option (List Resource) :=
  match m.list with
  | none => some live
  | some (r, slots) => if r ∈ live then (freeSlots slots live).bind (release r) else none

/-- `struct wamr_context` with the parts that it has so far: `argv`, its first string, the
buffer and the module. -/
structure InstanceContext where
  argv : Bool := false
  imgPath : Bool := false
  buffer : Bool := false
  module : Bool := false
  dirMap : DirMap

namespace InstanceContext

def hold (ctx : InstanceContext) (r : Resource) : InstanceContext :=
  { ctx with dirMap := { ctx.dirMap with live := r :: ctx.dirMap.live } }

/-- What a context holds besides its map. -/
def parts (ctx : InstanceContext) : List Resource :=
  (if ctx.module then [.module] else []) ++ (if ctx.buffer then [.buffer] else []) ++
    (if ctx.imgPath then [.imgPath] else []) ++ (if ctx.argv then [.contextArgv] else []) ++
      [.context]

/-- The label `error` of `instance_create`, with a context. -/
def free (ctx : InstanceContext) (live : List Resource) : Option (List Resource) := do
  let live ← releaseIf ctx.module .module live
  let live ← releaseIf ctx.buffer .buffer live
  let live ← freeDirMap ctx.dirMap live
  let live ← releaseIf ctx.imgPath .imgPath live
  let live ← releaseIf ctx.argv .contextArgv live
  release .context live

def error (ctx : InstanceContext) : Option (Option InstanceContext × List Resource) :=
  returnNull (ctx.free ctx.dirMap.live)

end InstanceContext

def instanceCreate (calls : CreationCalls) (args : RuntimeCreateArgs) (live : List Resource) :
    Option (Option InstanceContext × List Resource) :=
  if calls.fails .context then some (none, live)
  else
    let context : InstanceContext := { dirMap := { live := .context :: live } }
    if calls.fails .contextArgv then context.error
    else
      let context := { context.hold .contextArgv with argv := true }
      if calls.fails .imgPath then context.error
      else
        let context := { context.hold .imgPath with imgPath := true }
        if calls.fails .buffer then context.error
        else
          let context := { context.hold .buffer with buffer := true }
          if calls.fails .module then context.error
          else
            let context := { context.hold .module with module := true }
            (context.dirMap.build calls args.workdir (args.capabilities.getD [])
              (args.mounts.getD [])).bind fun r ↦
                let context := { context with dirMap := r.2 }
                if r.1 then some (some context, context.dirMap.live) else context.error

/-- `instance_destroy` of a context. -/
def instanceDestroy (ctx : InstanceContext) (live : List Resource) : Option (List Resource) := do
  let live ← release .module live
  let live ← release .buffer live
  let live ← freeDirMap ctx.dirMap live
  let live ← release .imgPath live
  let live ← release .contextArgv live
  release .context live

/-- The acquisitions before the capabilities. -/
def instanceStages : List Resource := [.context, .contextArgv, .imgPath, .buffer, .module]

/-- The context when the capabilities are reached. -/
def loadedContext (live : List Resource) : InstanceContext where
  argv := true
  imgPath := true
  buffer := true
  module := true
  dirMap := { live := instanceStages.reverse ++ live }

variable {calls : CreationCalls} {args : RuntimeCreateArgs} {ctx : InstanceContext}
  {m : DirMap} {base live live' : List Resource} {entries : List DirEntry} {r : Resource}

theorem releases_freeSlots (entries : List DirEntry) (rest : List Slot) :
    Releases (freeSlots (entries.map DirEntry.slot ++ .null :: rest)) (entries.map Prod.fst) := by
  induction entries with
  | nil => exact Releases.skip
  | cons e entries ih => exact (Resources.releases_release e.1).comp ih

/-- What a map holds besides the rest, and frees. -/
theorem DirMap.Lists.exists_heap (h : m.Lists base entries) :
    ∃ heap, Releases (freeDirMap m) heap ∧ m.live.Perm (heap ++ base) := by
  rcases h.held with ⟨hlist, rfl, hperm⟩ | ⟨r, rest, hlist, hperm⟩
  · refine ⟨[], fun live base h ↦ ⟨live, ?_, h⟩, hperm⟩
    rw [freeDirMap, hlist]
  · refine ⟨entries.map Prod.fst ++ [r], fun live base h ↦ ?_, by simpa using hperm⟩
    have hmem : r ∈ live := h.mem_iff.mpr (by simp)
    obtain ⟨live', hfree, hbase⟩ :=
      (releases_freeSlots entries rest).comp (Resources.releases_release r) live base h
    refine ⟨live', ?_, hbase⟩
    rw [freeDirMap, hlist]
    dsimp only
    rw [if_pos hmem]
    exact hfree

namespace InstanceContext

theorem releases_free (ctx : InstanceContext) {heap : List Resource}
    (h : Releases (freeDirMap ctx.dirMap) heap) :
    Releases ctx.free (heap ++ ctx.parts) := by
  have hreleases := (Resources.releases_releaseIf ctx.module .module).comp
    ((Resources.releases_releaseIf ctx.buffer .buffer).comp (h.comp
      ((Resources.releases_releaseIf ctx.imgPath .imgPath).comp
        ((Resources.releases_releaseIf ctx.argv .contextArgv).comp
          (Resources.releases_release .context)))))
  refine Releases.perm hreleases ?_
  simp only [parts, List.append_assoc]
  exact ((List.perm_append_comm_assoc _ heap _).append_left _).trans
    (List.perm_append_comm_assoc _ heap _)

/-- The label releases all that a context holds. -/
theorem error_of_lists (h : ctx.dirMap.Lists (ctx.parts ++ base) entries) :
    ∃ live, ctx.error = some (none, live) ∧ live.Perm base := by
  obtain ⟨heap, hfree, hperm⟩ := h.exists_heap
  rw [← List.append_assoc] at hperm
  obtain ⟨live, heq, hbase⟩ := releases_free ctx hfree ctx.dirMap.live base hperm
  exact ⟨live, by rw [error, heq]; rfl, hbase⟩

theorem fst_of_error {r : Option InstanceContext × List Resource} (h : ctx.error = some r) :
    r.1 = none := by
  obtain ⟨live, -, rfl⟩ := Option.map_eq_some_iff.mp h
  rfl

end InstanceContext

theorem instanceCreate_of_fails (args : RuntimeCreateArgs) (live : List Resource)
    (hr : r ∈ instanceStages) (hfails : calls.fails r = true) :
    ∃ live', instanceCreate calls args live = some (none, live') ∧ live'.Perm live := by
  have herror (ctx : InstanceContext) (hmap : ctx.dirMap = { live := ctx.parts ++ live }) :
      ∃ live', ctx.error = some (none, live') ∧ live'.Perm live :=
    InstanceContext.error_of_lists
      (DirMap.Unmapped.lists ⟨by rw [hmap], by rw [hmap], by rw [hmap]⟩)
  unfold instanceCreate
  split
  · exact ⟨live, rfl, .rfl⟩
  next hcontext =>
    dsimp only
    split
    · exact herror _ rfl
    next hargv =>
      split
      · exact herror _ rfl
      next himgPath =>
        split
        · exact herror _ rfl
        next hbuffer =>
          split
          · exact herror _ rfl
          next hmodule =>
            exfalso
            simp only [instanceStages, List.mem_cons, List.not_mem_nil, or_false] at hr
            rcases hr with rfl | rfl | rfl | rfl | rfl
            · exact hcontext hfails
            · exact hargv hfails
            · exact himgPath hfails
            · exact hbuffer hfails
            · exact hmodule hfails

theorem instanceCreate_of_loaded (h : ∀ r ∈ instanceStages, calls.fails r = false) :
    instanceCreate calls args live =
      ((loadedContext live).dirMap.build calls args.workdir (args.capabilities.getD [])
        (args.mounts.getD [])).bind fun r ↦
          if r.1 then some (some { loadedContext live with dirMap := r.2 }, r.2.live)
          else ({ loadedContext live with dirMap := r.2 } : InstanceContext).error := by
  simp only [instanceStages, List.forall_mem_cons] at h
  obtain ⟨hcontext, hargv, himgPath, hbuffer, hmodule, -⟩ := h
  simp only [instanceCreate, hcontext, hargv, himgPath, hbuffer, hmodule, Bool.false_eq_true,
    if_false]
  rfl

/-- What the capabilities and the mounts ask for. -/
def dirMapEntries (workdir : Option CString) (caps mounts : List CString) : List CString :=
  (if cstring "filesystem" ∈ caps then workdir.toList.map (cstring "/::" ++ ·) else []) ++
    mounts.map mountEntry

namespace DirMap

/-- The list that is handed to WAMR: each entry in a terminated block of its own, and a NULL
behind the last one. -/
structure Holds (m : DirMap) (strings : List CString) : Prop where
  len_eq : m.len = strings.length
  entry : ∀ (i : ℕ) s, strings[i]? = some s → ∃ list slots r block, m.list = some (list, slots) ∧
    slots[i]? = some (Slot.entry r block) ∧ 0 ∈ block ∧ blockString block = s
  terminated : ∀ list slots, m.list = some (list, slots) → slots[m.len]? = some .null

theorem holds_of_lists (h : m.Lists base entries)
    (hstrings : ∀ s ∈ entries.map Prod.snd, IsCString s) : m.Holds (entries.map Prod.snd) := by
  refine ⟨by rw [h.len_eq, List.length_map], fun i s hs ↦ ?_, fun list slots hlist ↦ ?_⟩
  · rw [List.getElem?_map] at hs
    obtain ⟨e, he, rfl⟩ := Option.map_eq_some_iff.mp hs
    rcases h.held with ⟨-, rfl, -⟩ | ⟨r, rest, hlist, -⟩
    · cases he
    · have hi := (List.getElem?_eq_some_iff.mp he).1
      refine ⟨r, _, e.1, e.2 ++ [0], hlist, ?_, by simp, ?_⟩
      · rw [List.getElem?_append_left (by simpa using hi), List.getElem?_map, he]
        rfl
      · exact blockString_append (hstrings _ (List.mem_map_of_mem (List.mem_of_getElem? he))) []
  · rcases h.held with ⟨hnone, -, -⟩ | ⟨r, rest, hsome, -⟩
    · rw [hnone] at hlist
      cases hlist
    · rw [hsome] at hlist
      obtain ⟨-, rfl⟩ := Prod.mk.inj (Option.some.inj hlist)
      rw [List.getElem?_append_right (by rw [List.length_map, h.len_eq]), List.length_map,
        h.len_eq, Nat.sub_self]
      rfl

/-- The map after the capability has come twice: the first slot is NULL. -/
structure Broken (m : DirMap) : Prop where
  two_le : 2 ≤ m.len
  first : ∃ list slots, m.list = some (list, slots) ∧ slots[0]? = some .null

theorem Broken.not_holds {strings : List CString} (h : m.Broken) : ¬ m.Holds strings := by
  intro hholds
  have hpos : 0 < strings.length := by
    have hlen := hholds.len_eq
    have htwo := h.two_le
    omega
  obtain ⟨list, slots, hlist, hnull⟩ := h.first
  obtain ⟨list', slots', r, block, hlist', hslot, -⟩ :=
    hholds.entry 0 strings[0] (List.getElem?_eq_getElem hpos)
  obtain ⟨-, rfl⟩ := Prod.mk.inj (Option.some.inj (hlist.symm.trans hlist'))
  cases hnull.symm.trans hslot

theorem getElem?_filesystemSlots_zero {n : ℕ} (hn : 0 < n) (slot : Slot) :
    (filesystemSlots n slot)[0]? = some .null := by
  rw [filesystemSlots, List.getElem?_set_ne (by omega), List.getElem?_set_ne (by omega)]
  simp

/-- The branch leaves a NULL in front, except for the first entry. -/
theorem broken_of_addFilesystem {workdir : CString} {k : ℕ} (hlen : 0 < m.len)
    {m' : DirMap} (h : m.addFilesystem calls workdir k = some (true, m')) : m'.Broken := by
  rcases addFilesystem_cases calls workdir k m with ⟨-, heq⟩ | ⟨-, -, heq⟩ | ⟨-, -, heq⟩
  · cases h.symm.trans heq
  · cases h.symm.trans heq
  · obtain ⟨-, rfl⟩ := Prod.mk.inj (Option.some.inj (h.symm.trans heq))
    exact ⟨Nat.succ_le_succ hlen, _, _, rfl, getElem?_filesystemSlots_zero hlen _⟩

theorem getElem?_grown_zero (h : m.Broken) : m.grown[0]? = some .null := by
  obtain ⟨list, slots, hlist, hnull⟩ := h.first
  rw [grown, hlist, Option.elim_some, List.getElem?_take_of_lt (by omega),
    List.getElem?_append_left (List.getElem?_eq_some_iff.mp hnull).1, hnull]

/-- Every array is still held, as `realloc` needs it. -/
def Held (m : DirMap) : Prop := ∀ list slots, m.list = some (list, slots) → list ∈ m.live

theorem Held.release (h : m.Held) :
    ∃ live, Resources.releaseAll (m.list.toList.map Prod.fst) m.live = some live := by
  rcases hlist : m.list with _ | ⟨list, slots⟩
  · exact ⟨m.live, rfl⟩
  · have hmem := h list slots hlist
    exact ⟨m.live.erase list, by simp [Resources.releaseAll, Resources.release, hmem]⟩

theorem addFilesystem_of_held (calls : CreationCalls) (workdir : CString) (k : ℕ) (m : DirMap) :
    ∃ b m', m.addFilesystem calls workdir k = some (b, m') ∧
      (b = true → m'.Held ∧ 0 < m'.len) ∧ ((∀ r, calls.fails r = false) → b = true) := by
  rcases addFilesystem_cases calls workdir k m with
    ⟨hfails, heq⟩ | ⟨-, hfails, heq⟩ | ⟨-, -, heq⟩
  · exact ⟨_, _, heq, nofun, fun h ↦ absurd hfails (by rw [h]; nofun)⟩
  · exact ⟨_, _, heq, nofun, fun h ↦ absurd hfails (by rw [h]; nofun)⟩
  · refine ⟨_, _, heq, fun _ ↦ ⟨fun list slots hlist ↦ ?_, Nat.succ_pos _⟩, fun _ ↦ rfl⟩
    obtain ⟨rfl, -⟩ := Prod.mk.inj (Option.some.inj hlist)
    exact List.mem_cons_of_mem _ List.mem_cons_self

theorem addMount_of_held (calls : CreationCalls) (h : m.Held) (hmount : IsCString mount)
    (haccepted : mountError mount = none) (k : ℕ) :
    ∃ b m', m.addMount calls k mount = some (b, m') ∧
      (b = true → m'.Held ∧ (m.Broken → m'.Broken)) ∧
        ((∀ r, calls.fails r = false) → b = true) := by
  obtain ⟨live, hlive⟩ := h.release
  rcases addMount_cases calls hmount haccepted k hlive with
    ⟨hfails, heq⟩ | ⟨-, hfails, heq⟩ | ⟨-, -, heq⟩
  · exact ⟨_, _, heq, nofun, fun h ↦ absurd hfails (by rw [h]; nofun)⟩
  · exact ⟨_, _, heq, nofun, fun h ↦ absurd hfails (by rw [h]; nofun)⟩
  · refine ⟨_, _, heq, fun _ ↦ ⟨fun list slots hlist ↦ ?_, fun hbroken ↦ ?_⟩, fun _ ↦ rfl⟩
    · obtain ⟨rfl, -⟩ := Prod.mk.inj (Option.some.inj hlist)
      exact List.mem_cons_of_mem _ List.mem_cons_self
    · have htwo := hbroken.two_le
      refine ⟨Nat.le_succ_of_le htwo, _, _, rfl, ?_⟩
      rw [List.getElem?_set_ne (by omega), List.getElem?_set_ne (by omega)]
      exact getElem?_grown_zero hbroken

theorem fails_of_addFilesystem {workdir : CString} {k : ℕ} {m' : DirMap}
    (h : m.addFilesystem calls workdir k = some (true, m')) :
    calls.fails (.filesystemList k) = false ∧ calls.fails (.filesystemEntry k) = false := by
  rcases addFilesystem_cases calls workdir k m with ⟨-, heq⟩ | ⟨-, -, heq⟩ | ⟨hlist, hentry, -⟩
  · cases h.symm.trans heq
  · cases h.symm.trans heq
  · exact ⟨hlist, hentry⟩

section Build

variable {workdir : Option CString} {path : CString} {caps mounts : List CString}

/-- No write of the two loops leaves its block, whatever fails, and they come to their end
when nothing fails. -/
theorem exists_build (calls : CreationCalls) (workdir : Option CString) (caps : List CString)
    (h : m.Held)
    (hmounts : ∀ mount ∈ mounts, IsCString mount ∧ mountError mount = none) :
    ∃ b m', m.build calls workdir caps mounts = some (b, m') ∧
      ((∀ r, calls.fails r = false) → b = true) := by
  let Kept (b : Bool) (m : DirMap) : Prop :=
    (b = true → m.Held) ∧ ((∀ r, calls.fails r = false) → b = true)
  have hfilesystem : ∀ path ∈ workdir, ∀ j ≥ 0, ∀ m : DirMap, Kept true m →
      ∃ b m', m.addFilesystem calls path j = some (b, m') ∧ Kept b m' := by
    rintro path - j - m -
    obtain ⟨b, m', heq, hheld, hall⟩ := addFilesystem_of_held calls path j m
    exact ⟨b, m', heq, fun hb ↦ (hheld hb).1, hall⟩
  have hmount : ∀ mount ∈ mounts, ∀ j, ∀ m : DirMap, Kept true m →
      ∃ b m', m.addMount calls j mount = some (b, m') ∧ Kept b m' := by
    rintro mount hmem j m hm
    obtain ⟨b, m', heq, hheld, hall⟩ :=
      addMount_of_held calls (hm.1 rfl) (hmounts mount hmem).1 (hmounts mount hmem).2 j
    exact ⟨b, m', heq, fun hb ↦ (hheld hb).1, hall⟩
  obtain ⟨b, m₁, hcaps, hkept⟩ := addCapabilities_rule calls caps (Q := Kept)
    (fun m u v hm ↦ hm) hfilesystem ⟨fun _ ↦ h, fun _ ↦ rfl⟩
  rw [build, hcaps, Option.bind_some]
  cases b with
  | false => exact ⟨false, m₁, rfl, hkept.2⟩
  | true =>
      obtain ⟨b, m', hloop, hkept'⟩ := addMounts_rule calls 0 (Q := Kept) hmount hkept
      exact ⟨b, m', by rw [if_pos rfl, hloop], hkept'.2⟩

/-- The branch for the capability is not reached, or fails before it has an array, or has
its string and is not reached again. -/
def BuildsOnce (calls : CreationCalls) (workdir : Option CString) (caps : List CString) : Prop :=
  workdir = none ∨ cstring "filesystem" ∉ caps ∨ calls.fails (.filesystemList 0) = true ∨
    calls.fails (.filesystemEntry 0) = false ∧ caps.count (cstring "filesystem") ≤ 1

/-- An array that is built once leads to the entries that are asked for. -/
theorem lists_of_build (h : m.Unmapped base) (honce : BuildsOnce calls workdir caps)
    (hmounts : ∀ mount ∈ mounts, IsCString mount ∧ mountError mount = none) :
    ∃ b m' entries, m.build calls workdir caps mounts = some (b, m') ∧ m'.Lists base entries ∧
      (b = true → entries.map Prod.snd = dirMapEntries workdir caps mounts) := by
  by_cases hskip : workdir = none ∨ cstring "filesystem" ∉ caps
  · obtain ⟨u, v, hcaps⟩ := addCapabilities_of_skipped calls 0 m hskip
    have hlists : (m.withFlags u v).Lists base [] := Unmapped.lists ⟨h.list_eq, h.len_eq, h.held⟩
    obtain ⟨b, m', entries, hbuild, hlists', hstrings⟩ := lists_of_addMounts hlists hmounts 0
    refine ⟨b, m', entries, by rw [build, hcaps, Option.bind_some, if_pos rfl, hbuild], hlists', ?_⟩
    intro hb
    rw [hstrings hb, dirMapEntries]
    rcases hskip with rfl | hnot
    · split <;> rfl
    · rw [if_neg hnot]
      rfl
  · rw [not_or, not_not] at hskip
    have hfails := (honce.resolve_left hskip.1).resolve_left (not_not_intro hskip.2)
    obtain ⟨path, rfl⟩ := Option.ne_none_iff_exists'.mp hskip.1
    obtain ⟨before, after, rfl, hbefore⟩ := List.eq_append_cons_of_mem hskip.2
    obtain ⟨u, v, hcaps⟩ := addCapabilities_filesystem calls path 0 m after hbefore
    obtain ⟨b, m₁, hstep, hlists⟩ := lists_of_addFilesystem (m := m.withFlags u v)
      ⟨h.list_eq, h.len_eq, h.held⟩ path 0 (hfails.imp_right And.left)
    rw [hstep, Option.bind_some] at hcaps
    rw [build, hcaps]
    cases b with
    | false => exact ⟨false, m₁, [], rfl, hlists, nofun⟩
    | true =>
        have hcount := (hfails.resolve_left fun hlist ↦
          Bool.false_ne_true ((fails_of_addFilesystem hstep).1.symm.trans hlist)).2
        have hafter : cstring "filesystem" ∉ after := by
          rw [List.count_append, List.count_cons_self] at hcount
          exact List.count_eq_zero.mp (by omega)
        obtain ⟨u', v', hrest⟩ := addCapabilities_of_skipped calls 1 m₁ (.inr hafter)
        have hlists₂ : (m₁.withFlags u' v').Lists base
            [(.filesystemEntry 0, cstring "/::" ++ path)] := ⟨hlists.len_eq, hlists.held⟩
        obtain ⟨b, m', entries, hbuild, hlists', hstrings⟩ := lists_of_addMounts hlists₂ hmounts 0
        refine ⟨b, m', entries, ?_, hlists', ?_⟩
        · rw [if_pos rfl, hrest, Option.bind_some, if_pos rfl, hbuild]
        · intro hb
          rw [hstrings hb, dirMapEntries, if_pos hskip.2]
          rfl

theorem build_eq_true {m' : DirMap} : m.build calls workdir caps mounts = some (true, m') ↔
    ∃ m₁, addCapabilities calls workdir 0 caps m = some (true, m₁) ∧
      addMounts calls 0 mounts m₁ = some (true, m') := by
  rw [build, Option.bind_eq_some_iff, Prod.exists]
  constructor
  · rintro ⟨b, m₁, hcaps, hrest⟩
    cases b with
    | false => cases hrest
    | true => exact ⟨m₁, hcaps, hrest⟩
  · rintro ⟨m₁, hcaps, hrest⟩
    exact ⟨true, m₁, hcaps, hrest⟩

theorem exists_of_addCapabilities {k : ℕ} {m' : DirMap} {before after : List CString}
    (hbefore : cstring "filesystem" ∉ before)
    (h : addCapabilities calls (some path) k (before ++ cstring "filesystem" :: after) m =
      some (true, m')) :
    ∃ m₀ m₁ : DirMap, m₀.len = m.len ∧ m₀.addFilesystem calls path k = some (true, m₁) ∧
      addCapabilities calls (some path) (k + 1) after m₁ = some (true, m') := by
  obtain ⟨u, v, heq⟩ := addCapabilities_filesystem calls path k m after hbefore
  obtain ⟨⟨b, m₁⟩, hstep, hrest⟩ := Option.bind_eq_some_iff.mp (heq.symm.trans h)
  cases b with
  | false => cases hrest
  | true => exact ⟨m.withFlags u v, m₁, rfl, hstep, hrest⟩

theorem buildsOnce_of_build {m' : DirMap}
    (honce : workdir = none ∨ caps.count (cstring "filesystem") ≤ 1)
    (h : m.build calls workdir caps mounts = some (true, m')) : BuildsOnce calls workdir caps := by
  obtain ⟨m₁, hcaps, -⟩ := build_eq_true.mp h
  rcases honce with rfl | hcount
  · exact .inl rfl
  · rcases workdir with _ | path
    · exact .inl rfl
    · by_cases hmem : cstring "filesystem" ∈ caps
      · obtain ⟨before, after, rfl, hbefore⟩ := List.eq_append_cons_of_mem hmem
        obtain ⟨m₀, m₂, -, hstep, -⟩ := exists_of_addCapabilities hbefore hcaps
        exact .inr (.inr (.inr ⟨(fails_of_addFilesystem hstep).2, hcount⟩))
      · exact .inr (.inl hmem)

/-- What the branch has left broken stays broken. -/
theorem broken_of_addCapabilities {k : ℕ} {m' : DirMap} (h : m.Held ∧ m.Broken)
    (hcaps : addCapabilities calls workdir k caps m = some (true, m')) :
    m'.Held ∧ m'.Broken := by
  have hfilesystem : ∀ path ∈ workdir, ∀ j ≥ k, ∀ m : DirMap,
      (true = true → m.Held ∧ m.Broken) → ∃ b m', m.addFilesystem calls path j = some (b, m') ∧
        (b = true → m'.Held ∧ m'.Broken) := by
    rintro path - j - m hm
    obtain ⟨b, m', heq, hheld, -⟩ := addFilesystem_of_held calls path j m
    refine ⟨b, m', heq, ?_⟩
    rintro rfl
    exact ⟨(hheld rfl).1, broken_of_addFilesystem (Nat.zero_lt_of_lt (hm rfl).2.two_le) heq⟩
  obtain ⟨b, m₁, heq, hkept⟩ := addCapabilities_rule calls caps
    (Q := fun b m ↦ b = true → m.Held ∧ m.Broken)
    (fun m u v hm _ ↦ ⟨(hm rfl).1, (hm rfl).2.two_le, (hm rfl).2.first⟩) hfilesystem (fun _ ↦ h)
  obtain ⟨rfl, rfl⟩ := Prod.mk.inj (Option.some.inj (heq.symm.trans hcaps))
  exact hkept rfl

/-- A capability that comes twice leaves a NULL in front. -/
theorem broken_of_build {m' : DirMap} (htwice : 2 ≤ caps.count (cstring "filesystem"))
    (hmounts : ∀ mount ∈ mounts, IsCString mount ∧ mountError mount = none)
    (hbuild : m.build calls (some path) caps mounts = some (true, m')) : m'.Broken := by
  obtain ⟨m₁, hcaps, hloop⟩ := build_eq_true.mp hbuild
  obtain ⟨before, between, rest, rfl, hbefore, hbetween⟩ := exists_of_two_le_count htwice
  obtain ⟨m₂, m₃, -, hfirst, hcaps₃⟩ := exists_of_addCapabilities hbefore hcaps
  obtain ⟨m₄, m₅, hlen, hsecond, hcaps₅⟩ := exists_of_addCapabilities hbetween hcaps₃
  have hpos : 0 < m₃.len := by
    obtain ⟨b, m', heq, hheld, -⟩ := addFilesystem_of_held calls path 0 m₂
    obtain ⟨rfl, rfl⟩ := Prod.mk.inj (Option.some.inj (heq.symm.trans hfirst))
    exact (hheld rfl).2
  have hheld : m₅.Held := by
    obtain ⟨b, m', heq, hheld, -⟩ := addFilesystem_of_held calls path (0 + 1) m₄
    obtain ⟨rfl, rfl⟩ := Prod.mk.inj (Option.some.inj (heq.symm.trans hsecond))
    exact (hheld rfl).1
  have hbroken := broken_of_addFilesystem (hlen ▸ hpos) hsecond
  have hmount : ∀ mount ∈ mounts, ∀ j, ∀ m : DirMap, (true = true → m.Held ∧ m.Broken) →
      ∃ b m', m.addMount calls j mount = some (b, m') ∧ (b = true → m'.Held ∧ m'.Broken) := by
    rintro mount hmem j m hm
    obtain ⟨b, m', heq, hkept, -⟩ :=
      addMount_of_held calls (hm rfl).1 (hmounts mount hmem).1 (hmounts mount hmem).2 j
    exact ⟨b, m', heq, fun hb ↦ ⟨(hkept hb).1, (hkept hb).2 (hm rfl).2⟩⟩
  obtain ⟨b, m₆, heq, hkept⟩ := addMounts_rule calls 0
    (Q := fun b m ↦ b = true → m.Held ∧ m.Broken) hmount
    (fun _ ↦ broken_of_addCapabilities ⟨hheld, hbroken⟩ hcaps₅)
  obtain ⟨rfl, rfl⟩ := Prod.mk.inj (Option.some.inj (heq.symm.trans hloop))
  exact (hkept rfl).2

end Build

end DirMap

theorem isCString_mountEntry {mount : CString} (hmount : IsCString mount)
    (haccepted : mountError mount = none) : IsCString (mountEntry mount) := by
  obtain ⟨source, rest, rfl, hsource, -, -⟩ := exists_of_accepted haccepted
  rw [mountEntry_append hsource]
  simpa [IsCString] using hmount

theorem isCString_of_mem_dirMapEntries {workdir : Option CString} {caps mounts : List CString}
    (hworkdir : ∀ path ∈ workdir, IsCString path)
    (hmounts : ∀ mount ∈ mounts, IsCString mount ∧ mountError mount = none) {s : CString}
    (hs : s ∈ dirMapEntries workdir caps mounts) : IsCString s := by
  rcases List.mem_append.mp hs with hs | hs
  · split at hs
    · obtain ⟨path, hpath, rfl⟩ := List.mem_map.mp hs
      have hzero := hworkdir path (Option.mem_toList.mp hpath)
      rw [IsCString, List.mem_append, not_or]
      exact ⟨by decide, hzero⟩
    · cases hs
  · obtain ⟨mount, hmem, rfl⟩ := List.mem_map.mp hs
    exact isCString_mountEntry (hmounts mount hmem).1 (hmounts mount hmem).2

/-- A creation that succeeds has built its map. -/
theorem build_of_instanceCreate (h : instanceCreate calls args live = some (some ctx, live')) :
    (loadedContext live).dirMap.build calls args.workdir (args.capabilities.getD [])
      (args.mounts.getD []) = some (true, ctx.dirMap) := by
  have hloaded : ∀ r ∈ instanceStages, calls.fails r = false := by
    intro r hr
    by_contra hfails
    obtain ⟨live₁, heq, -⟩ := instanceCreate_of_fails args live hr (eq_true_of_ne_false hfails)
    cases h.symm.trans heq
  rw [instanceCreate_of_loaded hloaded, Option.bind_eq_some_iff] at h
  obtain ⟨⟨b, m⟩, hbuild, h⟩ := h
  cases b with
  | false => cases InstanceContext.fst_of_error h
  | true =>
      obtain rfl := Option.some.inj (Prod.mk.inj (Option.some.inj h)).1
      exact hbuild

theorem instanceCreate_of_build {m : DirMap} (h : ∀ r ∈ instanceStages, calls.fails r = false)
    (hbuild : (loadedContext live).dirMap.build calls args.workdir (args.capabilities.getD [])
      (args.mounts.getD []) = some (true, m)) :
    instanceCreate calls args live =
      some (some { loadedContext live with dirMap := m }, m.live) := by
  rw [instanceCreate_of_loaded h, hbuild]
  rfl

/-- For accepted mounts no write leaves its block, whatever fails, and a creation without a
failure succeeds. Each creation that succeeds has the map that is asked for, exactly if there
is no working directory or the capability `filesystem` comes once at most. -/
theorem dirMapHolds_of_instanceCreate_iff (calls : CreationCalls) (args : RuntimeCreateArgs)
    (live : List Resource) (hmounts : ocreContainerCreateMounts (args.mounts.getD []) = .ok ())
    (hstrings : ∀ s ∈ args.workdir.toList ++ args.mounts.getD [], IsCString s) :
    ((loadedContext live).dirMap.build calls args.workdir (args.capabilities.getD [])
        (args.mounts.getD [])).isSome ∧
      ((∀ r, calls.fails r = false) →
        ∃ context live', instanceCreate calls args live = some (some context, live')) ∧
      ∀ context live', instanceCreate calls args live = some (some context, live') →
        (context.dirMap.Holds
            (dirMapEntries args.workdir (args.capabilities.getD []) (args.mounts.getD [])) ↔
          args.workdir = none ∨
            (args.capabilities.getD []).count (cstring "filesystem") ≤ 1) := by
  have haccepted : ∀ mount ∈ args.mounts.getD [], IsCString mount ∧ mountError mount = none :=
    fun mount hmem ↦ ⟨hstrings mount (List.mem_append_right _ hmem),
      accepted_iff.mp hmounts mount hmem⟩
  obtain ⟨b, m, hbuild, hall⟩ := DirMap.exists_build (m := (loadedContext live).dirMap) calls
    args.workdir (args.capabilities.getD []) nofun haccepted
  refine ⟨by rw [hbuild]; rfl, fun hfails ↦ ?_, fun context live' h ↦ ?_⟩
  · rw [hall hfails] at hbuild
    exact ⟨_, _, instanceCreate_of_build (fun r _ ↦ hfails r) hbuild⟩
  · have hbuilt := build_of_instanceCreate h
    constructor
    · intro hholds
      by_contra hnot
      rw [not_or, not_le] at hnot
      obtain ⟨path, hpath⟩ := Option.ne_none_iff_exists'.mp hnot.1
      rw [hpath] at hbuilt
      exact (DirMap.broken_of_build hnot.2 haccepted hbuilt).not_holds hholds
    · intro honce
      obtain ⟨b', m', entries, hbuild', hlists, hentries⟩ := DirMap.lists_of_build
        (m := (loadedContext live).dirMap) ⟨rfl, rfl, .rfl⟩
        (DirMap.buildsOnce_of_build honce hbuilt) haccepted
      obtain ⟨rfl, rfl⟩ := Prod.mk.inj (Option.some.inj (hbuild'.symm.trans hbuilt))
      rw [← hentries rfl]
      refine DirMap.holds_of_lists hlists fun s hs ↦ ?_
      rw [hentries rfl] at hs
      refine isCString_of_mem_dirMapEntries (fun path hpath ↦ ?_) haccepted hs
      exact hstrings path (List.mem_append_left _ (Option.mem_toList.mpr hpath))

/-- A container with a working directory and two mounts. -/
def mountsArgs (caps : List CString) : RuntimeCreateArgs where
  containerId := cstring "a"
  imgPath := cstring "/w/images/a"
  workdir := some (cstring "/w/containers/a")
  capabilities := some caps
  argv := none
  envp := none
  mounts := some [cstring "/tmp:/data", cstring "/srv:/a:b"]
  fds := {}

theorem dirMapHolds_of_mounts :
    ∃ context live', instanceCreate {} (mountsArgs [cstring "ocre:api", cstring "filesystem"]) [] =
        some (some context, live') ∧
      context.dirMap.Holds [cstring "/::/w/containers/a", cstring "/tmp::/data",
        cstring "/srv::/a:b"] := by
  obtain ⟨-, hsucceeds, hmap⟩ := dirMapHolds_of_instanceCreate_iff {}
    (mountsArgs [cstring "ocre:api", cstring "filesystem"]) [] (by decide) (by decide)
  obtain ⟨context, live', h⟩ := hsucceeds fun _ ↦ rfl
  exact ⟨context, live', h, (hmap context live' h).mpr (by decide)⟩

/-- The second array replaces the first one, and its first slot stays NULL. -/
theorem not_dirMapHolds_of_filesystemTwice :
    ∃ context live', instanceCreate {} (mountsArgs [cstring "filesystem", cstring "filesystem"])
        [] = some (some context, live') ∧
      ¬ context.dirMap.Holds [cstring "/::/w/containers/a", cstring "/tmp::/data",
        cstring "/srv::/a:b"] :=
  ⟨_, _, rfl, DirMap.Broken.not_holds ⟨by decide, _, _, rfl, rfl⟩⟩

section Root

/-- The path in the container that an entry `<path>::<directory>` stands for. -/
def mappedPath (entry : CString) : CString := entry.takeWhile (· ≠ 58)

/-- The entries of the map for the root are those of the capability `filesystem`. -/
def RootUnshared (workdir : Option CString) (caps mounts : List CString) : Prop :=
  (dirMapEntries workdir caps mounts).filter (fun entry ↦ pathOf (mappedPath entry) = []) =
    dirMapEntries workdir caps []

instance (workdir : Option CString) (caps mounts : List CString) :
    Decidable (RootUnshared workdir caps mounts) :=
  inferInstanceAs (Decidable (_ = _))

variable {workdir : Option CString} {caps mounts : List CString}

theorem mappedPath_mountEntry (mount : CString) :
    mappedPath (mountEntry mount) = mountSource mount := by
  have hall (c : UInt8) (hc : c ∈ mountSource mount) : decide (c ≠ 58) = true := by
    rw [mountSource] at hc
    exact List.mem_takeWhile_imp (p := fun d ↦ decide (d ≠ 58)) hc
  rw [mappedPath, mountEntry, List.append_assoc, List.takeWhile_append_of_pos hall]
  exact List.append_nil _

/-- The entry of the capability stands for the root. -/
theorem pathOf_mappedPath_of_mem {entry : CString} (h : entry ∈ dirMapEntries workdir caps []) :
    pathOf (mappedPath entry) = [] := by
  rw [dirMapEntries, List.map_nil, List.append_nil] at h
  split at h
  · obtain ⟨path, -, rfl⟩ := List.mem_map.mp h
    rfl
  · cases h

theorem rootUnshared_iff :
    RootUnshared workdir caps mounts ↔ ∀ mount ∈ mounts, KeepsName (mountSource mount) := by
  have hsplit : dirMapEntries workdir caps mounts =
      dirMapEntries workdir caps [] ++ mounts.map mountEntry := by
    rw [dirMapEntries, dirMapEntries, List.map_nil, List.append_nil]
  have hcapability : (dirMapEntries workdir caps []).filter
      (fun entry ↦ pathOf (mappedPath entry) = []) = dirMapEntries workdir caps [] :=
    List.filter_eq_self.mpr fun entry hentry ↦ decide_eq_true (pathOf_mappedPath_of_mem hentry)
  rw [RootUnshared, hsplit, List.filter_append, hcapability, List.append_right_eq_self,
    List.filter_eq_nil_iff, List.forall_mem_map]
  refine forall₂_congr fun mount _ ↦ ?_
  rw [mappedPath_mountEntry, decide_eq_true_eq, ← pathOf_ne_nil_iff]

/-- The command line and the library accept the same mounts. Accepted ones keep away from the
root and from the entry of the capability exactly if each source and each destination has a
final part with more names than `..`. -/
theorem rootFree_of_accepted_iff (workdir : Option CString) (caps mounts : List CString) :
    (cmdContainerCreateRunMounts (fun _ ↦ false) [] mounts = .ok mounts ↔
      ocreContainerCreateMounts mounts = .ok ()) ∧
    (ocreContainerCreateMounts mounts = .ok () →
      ((∀ mount ∈ mounts, RootFree mount) ∧ RootUnshared workdir caps mounts ↔
        ∀ mount ∈ mounts,
          KeepsName (mountSource mount) ∧ KeepsName (mountDestination mount))) := by
  refine ⟨cmdContainerCreateRunMounts_ok_iff.trans (and_iff_left rfl), fun h ↦ ?_⟩
  have haccepted := accepted_iff.mp h
  have hfree : (∀ mount ∈ mounts, RootFree mount) ↔
      ∀ mount ∈ mounts, KeepsName (mountDestination mount) :=
    forall₂_congr fun mount hmem ↦ rootFree_iff (haccepted mount hmem)
  rw [hfree, rootUnshared_iff]
  exact ⟨fun ⟨hdestination, hsource⟩ mount hmem ↦ ⟨hsource mount hmem, hdestination mount hmem⟩,
    fun hnames ↦ ⟨fun mount hmem ↦ (hnames mount hmem).2, fun mount hmem ↦ (hnames mount hmem).1⟩⟩

theorem rootFree_of_twoMounts :
    (∀ mount ∈ [cstring "/tmp:/data", cstring "/srv:/a/../b"], RootFree mount) ∧
      RootUnshared (some (cstring "/w/containers/a")) [cstring "filesystem"]
        [cstring "/tmp:/data", cstring "/srv:/a/../b"] :=
  ((rootFree_of_accepted_iff (some (cstring "/w/containers/a")) [cstring "filesystem"]
    [cstring "/tmp:/data", cstring "/srv:/a/../b"]).2 (by decide)).mpr (by decide)

/-- Two slashes, a dot, and a name that is taken back are other spellings of the root, and
the root as a source makes a second entry for it. -/
theorem not_rootFree_of_spellings :
    ocreContainerCreateMounts [cstring "/tmp://", cstring "/tmp:/.", cstring "/tmp:/x/..",
        cstring "/:/data"] = .ok () ∧
      ¬ RootFree (cstring "/tmp://") ∧ ¬ RootFree (cstring "/tmp:/.") ∧
      ¬ RootFree (cstring "/tmp:/x/..") ∧
      ¬ RootUnshared (some (cstring "/w/containers/a")) [cstring "filesystem"]
        [cstring "/:/data"] := by
  refine ⟨by decide, ?_, ?_, ?_, by decide⟩
  · exact (not_congr (rootFree_iff (by decide))).mpr (by decide)
  · exact (not_congr (rootFree_iff (by decide))).mpr (by decide)
  · exact (not_congr (rootFree_iff (by decide))).mpr (by decide)

end Root

end OcreRuntime
