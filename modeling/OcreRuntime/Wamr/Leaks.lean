import OcreRuntime.Wamr.Creation

/-!
# Arrays that are lost

A creation whose array for the capability `filesystem` is built once at most releases what
it holds, when it fails or by its destruction. When the string of the first array cannot be
allocated, the freed array is read; when the capability comes a second time, the first
array stays held for good.
-/

namespace OcreRuntime

open Resources (release releaseIf Releases Keeps)

variable {calls : CreationCalls} {args : RuntimeCreateArgs} {m m' : DirMap}
  {base live live' : List Resource} {mounts : List CString}

/-- A creation that has its array once returns NULL with nothing held, or a context that holds
what its destruction releases. -/
theorem instanceCreate_of_buildsOnce (live : List Resource)
    (honce : (∀ r ∈ instanceStages, calls.fails r = false) →
      DirMap.BuildsOnce calls args.workdir (args.capabilities.getD []))
    (hmounts : ∀ mount ∈ args.mounts.getD [], IsCString mount ∧ mountError mount = none) :
    (∃ live', instanceCreate calls args live = some (none, live') ∧ live'.Perm live) ∨
    ∃ context live' heap, instanceCreate calls args live = some (some context, live') ∧
      Releases (instanceDestroy context) heap ∧ live'.Perm (heap ++ live) := by
  by_cases hstages : ∀ r ∈ instanceStages, calls.fails r = false
  · obtain ⟨b, m, entries, hbuild, hlists, -⟩ := DirMap.lists_of_build
      (m := (loadedContext live).dirMap) ⟨rfl, rfl, .rfl⟩ (honce hstages) hmounts
    cases b with
    | false =>
        obtain ⟨live', herror, hperm⟩ := InstanceContext.error_of_lists
          (show ({ loadedContext live with dirMap := m } : InstanceContext).dirMap.Lists _ _
            from hlists)
        refine .inl ⟨live', ?_, hperm⟩
        rw [instanceCreate_of_loaded hstages, hbuild]
        exact herror
    | true =>
        obtain ⟨heap, hfree, hperm⟩ := hlists.exists_heap
        refine .inr ⟨_, m.live, _, instanceCreate_of_build hstages hbuild,
          InstanceContext.releases_free { loadedContext live with dirMap := m } hfree, ?_⟩
        rw [List.append_assoc]
        exact hperm
  · push Not at hstages
    obtain ⟨r, hr, hfails⟩ := hstages
    exact .inl (instanceCreate_of_fails args live hr (eq_true_of_ne_false hfails))

namespace DirMap

/-- The first array is still held, and nothing points to it. -/
structure Leaked (m : DirMap) : Prop where
  held : .filesystemList 0 ∈ m.live
  lost : ∀ list slots, m.list = some (list, slots) → list ≠ .filesystemList 0 ∧
    ∀ r block, Slot.entry r block ∈ slots → r ≠ .filesystemList 0

theorem keeps_freeSlots {r : Resource} {slots : List Slot}
    (h : ∀ r' block, Slot.entry r' block ∈ slots → r' ≠ r) : Keeps r (freeSlots slots) := by
  induction slots with
  | nil => exact fun live live' _ h ↦ nomatch h
  | cons slot slots ih =>
      have hrest := ih fun r' block hmem ↦ h r' block (List.mem_cons_of_mem _ hmem)
      cases slot with
      | uninitialized => exact fun live live' _ h ↦ nomatch h
      | null => exact Keeps.skip
      | entry r' block =>
          exact (Resources.keeps_release (h r' block List.mem_cons_self).symm).comp hrest

theorem Leaked.keeps (h : m.Leaked) : Keeps (.filesystemList 0) (freeDirMap m) := by
  intro live live' hr hfree
  unfold freeDirMap at hfree
  split at hfree
  · exact Option.some.inj hfree ▸ hr
  next list slots hlist =>
    obtain ⟨hne, hslots⟩ := h.lost list slots hlist
    obtain ⟨-, hfree⟩ := Option.ite_none_right_eq_some.mp hfree
    exact ((keeps_freeSlots hslots).comp (Resources.keeps_release hne.symm)) live live' hr hfree

theorem mem_of_mem_set_null {slots : List Slot} {i : ℕ} {r : Resource} {block : List UInt8}
    (h : Slot.entry r block ∈ slots.set i .null) : Slot.entry r block ∈ slots :=
  (List.mem_or_eq_of_mem_set h).resolve_right nofun

theorem not_mem_replicate {n : ℕ} {r : Resource} {block : List UInt8} :
    Slot.entry r block ∉ List.replicate n Slot.uninitialized :=
  fun h ↦ nomatch List.eq_of_mem_replicate h

/-- What comes after the first array does not point to it. -/
theorem leaked_of_addFilesystem (calls : CreationCalls) (workdir : CString) {k : ℕ} (hk : 0 < k)
    (hheld : .filesystemList 0 ∈ m.live) :
    ∃ b m', m.addFilesystem calls workdir k = some (b, m') ∧ m'.Leaked ∧ (b = true → m'.Held) := by
  have hne : Resource.filesystemList k ≠ .filesystemList 0 := by
    rintro ⟨⟩
    exact Nat.lt_irrefl 0 hk
  rcases addFilesystem_cases calls workdir k m with ⟨-, heq⟩ | ⟨-, -, heq⟩ | ⟨-, -, heq⟩
  · exact ⟨_, _, heq, ⟨hheld, nofun⟩, nofun⟩
  · refine ⟨_, _, heq, ⟨hheld, fun list slots hlist ↦ ?_⟩, nofun⟩
    obtain ⟨rfl, rfl⟩ := Prod.mk.inj (Option.some.inj hlist)
    refine ⟨hne, fun r block hmem ↦ ?_⟩
    exact absurd (mem_of_mem_set_null (mem_of_mem_set_null hmem)) not_mem_replicate
  · refine ⟨_, _, heq, ⟨?_, fun list slots hlist ↦ ?_⟩, fun _ list slots hlist ↦ ?_⟩
    · exact List.mem_cons_of_mem _ (List.mem_cons_of_mem _ hheld)
    · obtain ⟨rfl, rfl⟩ := Prod.mk.inj (Option.some.inj hlist)
      refine ⟨hne, fun r block hmem ↦ ?_⟩
      rcases List.mem_or_eq_of_mem_set (mem_of_mem_set_null hmem) with hmem | hslot
      · exact absurd (mem_of_mem_set_null hmem) not_mem_replicate
      · rw [(Slot.entry.inj hslot).1]
        nofun
    · obtain ⟨rfl, -⟩ := Prod.mk.inj (Option.some.inj hlist)
      exact List.mem_cons_of_mem _ List.mem_cons_self

theorem mem_of_mem_grown {r : Resource} {block : List UInt8}
    (h : Slot.entry r block ∈ m.grown) :
    ∃ list slots, m.list = some (list, slots) ∧ Slot.entry r block ∈ slots := by
  rcases List.mem_append.mp (List.mem_of_mem_take h) with hmem | hmem
  · rcases hlist : m.list with _ | ⟨list, slots⟩
    · rw [hlist] at hmem
      cases hmem
    · rw [hlist] at hmem
      exact ⟨list, slots, rfl, hmem⟩
  · exact absurd hmem not_mem_replicate

/-- Nor does the array of a mount, which has the entries of the one before. -/
theorem leaked_of_addMount (calls : CreationCalls) {mount : CString} (hm : m.Leaked)
    (hheld : m.Held) (hmount : IsCString mount) (haccepted : mountError mount = none) (k : ℕ) :
    ∃ b m', m.addMount calls k mount = some (b, m') ∧ m'.Leaked ∧ (b = true → m'.Held) := by
  obtain ⟨live, hlive⟩ := hheld.release
  have hkept : .filesystemList 0 ∈ live := by
    refine Resources.keeps_releaseAll (fun hmem ↦ ?_) _ _ hm.held hlive
    obtain ⟨⟨list, slots⟩, hlist, heq⟩ := List.mem_map.mp hmem
    exact (hm.lost list slots (Option.mem_toList.mp hlist)).1 heq
  have hgrown : ∀ r block, Slot.entry r block ∈ m.grown → r ≠ .filesystemList 0 := by
    intro r block hmem
    obtain ⟨list, slots, hlist, hslots⟩ := mem_of_mem_grown hmem
    exact (hm.lost list slots hlist).2 r block hslots
  rcases addMount_cases calls hmount haccepted k hlive with ⟨-, heq⟩ | ⟨-, -, heq⟩ | ⟨-, -, heq⟩
  · exact ⟨_, _, heq, hm, nofun⟩
  · refine ⟨_, _, heq, ⟨List.mem_cons_of_mem _ hkept, fun list slots hlist ↦ ?_⟩, nofun⟩
    obtain ⟨rfl, rfl⟩ := Prod.mk.inj (Option.some.inj hlist)
    exact ⟨nofun, fun r block hmem ↦ hgrown r block (mem_of_mem_set_null hmem)⟩
  · refine ⟨_, _, heq, ⟨?_, fun list slots hlist ↦ ?_⟩, fun _ list slots hlist ↦ ?_⟩
    · exact List.mem_cons_of_mem _ (List.mem_cons_of_mem _ hkept)
    · obtain ⟨rfl, rfl⟩ := Prod.mk.inj (Option.some.inj hlist)
      refine ⟨nofun, fun r block hmem ↦ ?_⟩
      rcases List.mem_or_eq_of_mem_set (mem_of_mem_set_null hmem) with hmem | hslot
      · exact hgrown r block hmem
      · rw [(Slot.entry.inj hslot).1]
        nofun
    · obtain ⟨rfl, -⟩ := Prod.mk.inj (Option.some.inj hlist)
      exact List.mem_cons_of_mem _ List.mem_cons_self

theorem mem_live_of_addFilesystem (workdir : CString) {k : ℕ} (m : DirMap)
    (hlist : calls.fails (.filesystemList k) = false)
    (hentry : calls.fails (.filesystemEntry k) = false) :
    ∃ m', m.addFilesystem calls workdir k = some (true, m') ∧ .filesystemList k ∈ m'.live := by
  rcases addFilesystem_cases calls workdir k m with ⟨hfails, -⟩ | ⟨-, hfails, -⟩ | ⟨-, -, heq⟩
  · exact absurd (hlist.symm.trans hfails) Bool.false_ne_true
  · exact absurd (hentry.symm.trans hfails) Bool.false_ne_true
  · exact ⟨_, heq, List.mem_cons_of_mem _ List.mem_cons_self⟩

/-- When the first array and its string are there and the capability comes again, the first
array is lost, whatever fails from then on. -/
theorem leaked_of_build (path : CString) {caps : List CString}
    (hlist : calls.fails (.filesystemList 0) = false)
    (hentry : calls.fails (.filesystemEntry 0) = false)
    (htwice : 2 ≤ caps.count (cstring "filesystem"))
    (hmounts : ∀ mount ∈ mounts, IsCString mount ∧ mountError mount = none) :
    ∃ b m', m.build calls (some path) caps mounts = some (b, m') ∧ m'.Leaked := by
  obtain ⟨before, between, rest, rfl, hbefore, hbetween⟩ := exists_of_two_le_count htwice
  let Lost (b : Bool) (m : DirMap) : Prop := m.Leaked ∧ (b = true → m.Held)
  have hfilesystem : ∀ path' ∈ some path, ∀ j ≥ 2, ∀ m : DirMap, Lost true m →
      ∃ b m', m.addFilesystem calls path' j = some (b, m') ∧ Lost b m' :=
    fun path' _ j hj m hm ↦ leaked_of_addFilesystem calls path' (Nat.zero_lt_of_lt hj) hm.1.held
  have hmount : ∀ mount ∈ mounts, ∀ j, ∀ m : DirMap, Lost true m →
      ∃ b m', m.addMount calls j mount = some (b, m') ∧ Lost b m' :=
    fun mount hmem j m hm ↦ leaked_of_addMount calls hm.1 (hm.2 rfl) (hmounts mount hmem).1
      (hmounts mount hmem).2 j
  obtain ⟨u, v, hfirst⟩ := addCapabilities_filesystem calls path 0 m
    (between ++ cstring "filesystem" :: rest) hbefore
  obtain ⟨m₁, hadd₁, hheld⟩ := mem_live_of_addFilesystem path (m.withFlags u v) hlist hentry
  obtain ⟨u', v', hsecond⟩ := addCapabilities_filesystem calls path 1 m₁ rest hbetween
  obtain ⟨b, m₂, hadd₂, hleaked, hheld₂⟩ :=
    leaked_of_addFilesystem (m := m₁.withFlags u' v') calls path Nat.one_pos hheld
  rw [hadd₁, Option.bind_some, if_pos rfl, hsecond, hadd₂, Option.bind_some] at hfirst
  rw [build, hfirst]
  cases b with
  | false => exact ⟨false, m₂, rfl, hleaked⟩
  | true =>
      obtain ⟨b, m₃, hcaps, hlost⟩ := addCapabilities_rule calls rest (Q := Lost)
        (fun m u v hm ↦ ⟨⟨hm.1.held, hm.1.lost⟩, hm.2⟩) hfilesystem ⟨hleaked, hheld₂⟩
      rw [if_pos rfl, hcaps, Option.bind_some]
      cases b with
      | false => exact ⟨false, m₃, rfl, hlost.1⟩
      | true =>
          obtain ⟨b, m₄, hloop, hlost'⟩ := addMounts_rule calls 0 (Q := Lost) hmount hlost
          exact ⟨b, m₄, hloop, hlost'.1⟩

end DirMap

theorem keeps_lost (s : Resource) (hs : .filesystemList 0 ≠ s) :
    Keeps (.filesystemList 0) (release s) :=
  Resources.keeps_release hs

theorem keeps_instanceDestroy {context : InstanceContext} (h : context.dirMap.Leaked) :
    Keeps (.filesystemList 0) (instanceDestroy context) := by
  exact (keeps_lost .module (by decide)).comp ((keeps_lost .buffer (by decide)).comp (h.keeps.comp
    ((keeps_lost .imgPath (by decide)).comp ((keeps_lost .contextArgv (by decide)).comp
      (keeps_lost .context (by decide))))))

/-- The first array stays held when the creation returns NULL, and is not released by the
destruction of the context either. -/
theorem instanceCreate_leaks {path : CString} {r : Option InstanceContext}
    (hstages : ∀ r ∈ instanceStages, calls.fails r = false) (hworkdir : args.workdir = some path)
    (hlist : calls.fails (.filesystemList 0) = false)
    (hentry : calls.fails (.filesystemEntry 0) = false)
    (htwice : 2 ≤ (args.capabilities.getD []).count (cstring "filesystem"))
    (hmounts : ∀ mount ∈ args.mounts.getD [], IsCString mount ∧ mountError mount = none)
    (h : instanceCreate calls args live = some (r, live')) :
    .filesystemList 0 ∈ live' ∧
      ∀ context ∈ r, Keeps (.filesystemList 0) (instanceDestroy context) := by
  obtain ⟨b, m, hbuild, hleaked⟩ := DirMap.leaked_of_build (m := (loadedContext live).dirMap)
    path hlist hentry htwice hmounts
  rw [instanceCreate_of_loaded hstages, hworkdir, hbuild, Option.bind_some] at h
  cases b with
  | false =>
      obtain ⟨live₁, hfree, heq⟩ := Option.map_eq_some_iff.mp h
      obtain ⟨rfl, rfl⟩ := Prod.mk.inj heq
      refine ⟨?_, fun _ hnone ↦ absurd hnone (Option.not_mem_none _)⟩
      have hkeeps : Keeps (.filesystemList 0)
          (InstanceContext.free { loadedContext live with dirMap := m }) :=
        keeps_instanceDestroy hleaked
      exact hkeeps _ _ hleaked.held hfree
  | true =>
      obtain ⟨rfl, rfl⟩ := Prod.mk.inj (Option.some.inj h)
      refine ⟨hleaked.held, fun context hcontext ↦ ?_⟩
      obtain rfl := Option.some.inj hcontext
      exact keeps_instanceDestroy hleaked

/-- When the string of the first array cannot be allocated, the freed array is read. -/
theorem instanceCreate_of_entryFails {path : CString}
    (hstages : ∀ r ∈ instanceStages, calls.fails r = false) (hworkdir : args.workdir = some path)
    (hlist : calls.fails (.filesystemList 0) = false)
    (hentry : calls.fails (.filesystemEntry 0) = true)
    (hmem : cstring "filesystem" ∈ args.capabilities.getD [])
    (hlive : .filesystemList 0 ∉ live) : instanceCreate calls args live = none := by
  obtain ⟨before, after, hcaps, hbefore⟩ := List.eq_append_cons_of_mem hmem
  obtain ⟨u, v, hfirst⟩ := DirMap.addCapabilities_filesystem calls path 0
    (loadedContext live).dirMap after hbefore
  rw [instanceCreate_of_loaded hstages, hworkdir, DirMap.build, hcaps, hfirst]
  rcases DirMap.addFilesystem_cases calls path 0
    ((loadedContext live).dirMap.withFlags u v) with ⟨hfails, -⟩ | ⟨-, -, heq⟩ | ⟨-, hfails, -⟩
  · exact absurd (hlist.symm.trans hfails) Bool.false_ne_true
  · rw [heq]
    simp [InstanceContext.error, InstanceContext.free, releaseIf, release, freeDirMap,
      loadedContext, instanceStages, hlive, returnNull]
  · exact absurd (hfails.symm.trans hentry) Bool.false_ne_true

end OcreRuntime
