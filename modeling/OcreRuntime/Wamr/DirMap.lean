import OcreRuntime.Lib.Block
import OcreRuntime.Lib.Resources
import OcreRuntime.Shell.Mounts

/-!
# The directory map of an instance

How `instance_create` builds `dir_map_list`: an array that is allocated for the capability
`filesystem` and grown for each mount, with strings that are written into buffers of their
own. Every resource of a creation has a name of its own, and a write outside its buffer,
the read of a slot that has never been written, and the release of something that is not
held are undefined.
-/

namespace OcreRuntime

/-- What the creation of a container acquires, in `context.c`, `container.c` and `wamr.c`.
The arrays and lists that are acquired several times are counted. -/
inductive Resource
  | node
  | imagePath
  | containerWorkdir
  | container
  | image
  | id
  | argv
  | argvString (i : ℕ)
  | envp
  | envpString (i : ℕ)
  | mutex
  | condStop
  | semStart
  | context
  | contextArgv
  | imgPath
  | buffer
  | module
  | filesystemList (k : ℕ)
  | filesystemEntry (k : ℕ)
  | mountList (k : ℕ)
  | mountEntry (k : ℕ)
  deriving DecidableEq

/-- Which acquisitions fail, and what a new block holds. -/
structure CreationCalls where
  fails : Resource → Bool := fun _ ↦ false
  garbage : Resource → ℕ → UInt8 := fun _ _ ↦ 0

def CreationCalls.block (calls : CreationCalls) (r : Resource) (size : ℕ) : List UInt8 :=
  (List.range size).map (calls.garbage r)

/-- What a slot of `dir_map_list` holds: nothing that has been written, NULL, or a string in
a block. -/
inductive Slot
  | uninitialized
  | null
  | entry (r : Resource) (block : List UInt8)
  deriving DecidableEq

/-- The fields of `struct wamr_context` that the capabilities and the mounts decide about,
and the resources that are held. The slots are what lies behind the pointer, also after it
has been freed. -/
structure DirMap where
  list : Option (Resource × List Slot) := none
  len : ℕ := 0
  usesSharedHeap : Bool := false
  usesOcreApi : Bool := false
  live : List Resource

/-- Write a string with its terminator. -/
def writeString (block : List UInt8) (offset : ℕ) (s : CString) : Option (List UInt8) :=
  Block.write block offset (⟨s ++ [0], rfl⟩ : List.Vector UInt8 (s ++ [0]).length)

def setSlot (slots : List Slot) (i : ℕ) (slot : Slot) : Option (List Slot) :=
  if i < slots.length then some (slots.set i slot) else none

namespace DirMap

open Resources (release releaseAll)

/-- The branch for the capability `filesystem`, the `k`-th time; false for `goto error`. -/
def addFilesystem (calls : CreationCalls) (workdir : CString) (k : ℕ) (m : DirMap) :
    Option (Bool × DirMap) :=
  if calls.fails (.filesystemList k) then some (false, { m with list := none })
  else do
    let live := .filesystemList k :: m.live
    let slots ← setSlot (List.replicate (m.len + 2) .uninitialized) 0 .null
    if calls.fails (.filesystemEntry k) then
      let slots ← setSlot slots m.len .null
      let live ← release (.filesystemList k) live
      some (false, { m with list := some (.filesystemList k, slots), live := live })
    else
      let block ← writeString (calls.block (.filesystemEntry k) (3 + workdir.length + 1)) 0
        (cstring "/::" ++ workdir)
      let slots ← setSlot slots m.len (.entry (.filesystemEntry k) block)
      let slots ← setSlot slots (m.len + 1) .null
      some (true, { m with
        list := some (.filesystemList k, slots)
        len := m.len + 1
        live := .filesystemEntry k :: live })

/-- The loop over the capabilities, with the number of times that the branch for
`filesystem` has been taken. -/
def addCapabilities (calls : CreationCalls) (workdir : Option CString) :
    ℕ → List CString → DirMap → Option (Bool × DirMap)
  | _, [], m => some (true, m)
  | k, cap :: caps, m =>
      if cap = cstring "ocre:shared_heap" then
        addCapabilities calls workdir k caps { m with usesSharedHeap := true }
      else if cap = cstring "ocre:api" then
        addCapabilities calls workdir k caps { m with usesOcreApi := true }
      else if cap = cstring "filesystem" then
        match workdir with
        | none => addCapabilities calls workdir k caps m
        | some path => (m.addFilesystem calls path k).bind fun r ↦
            if r.1 then addCapabilities calls workdir (k + 1) caps r.2 else some r
      else addCapabilities calls workdir k caps m

/-- The string of a block, and the first colon in it. -/
def blockString (block : List UInt8) : CString := block.takeWhile (· ≠ 0)

/-- The loop body for the `k`-th mount. -/
def addMount (calls : CreationCalls) (k : ℕ) (mount : CString) (m : DirMap) :
    Option (Bool × DirMap) :=
  if calls.fails (.mountList k) then some (false, m)
  else do
    let old := m.list.elim [] Prod.snd
    let live ← releaseAll (m.list.toList.map Prod.fst) m.live
    let live := .mountList k :: live
    -- `realloc` keeps what the old array holds
    let slots :=
      (old ++ List.replicate (m.len + 2 - old.length) Slot.uninitialized).take (m.len + 2)
    if calls.fails (.mountEntry k) then
      let slots ← setSlot slots m.len .null
      some (false, { m with list := some (.mountList k, slots), live := live })
    else
      let live := .mountEntry k :: live
      let block := calls.block (.mountEntry k) (mount.length + 2)
      match strchr mount 58 with
      | none =>
          let slots ← setSlot slots m.len (.entry (.mountEntry k) block)
          some (false, { m with list := some (.mountList k, slots), live := live })
      | some srcColon =>
          let block ← writeString block 0 mount
          let dstColon := (blockString block).findIdx (· = 58)
          if dstColon = (blockString block).length then
            let slots ← setSlot slots m.len (.entry (.mountEntry k) block)
            some (false, { m with list := some (.mountList k, slots), live := live })
          else
            let block ← writeString block (dstColon + 1) (58 :: srcColon.tail)
            let slots ← setSlot slots m.len (.entry (.mountEntry k) block)
            let slots ← setSlot slots (m.len + 1) .null
            some (true, { m with
              list := some (.mountList k, slots)
              len := m.len + 1
              live := live })

def addMounts (calls : CreationCalls) : ℕ → List CString → DirMap → Option (Bool × DirMap)
  | _, [], m => some (true, m)
  | k, mount :: mounts, m => (m.addMount calls k mount).bind fun r ↦
      if r.1 then addMounts calls (k + 1) mounts r.2 else some r

/-- Both loops. -/
def build (calls : CreationCalls) (workdir : Option CString) (caps mounts : List CString)
    (m : DirMap) : Option (Bool × DirMap) :=
  (addCapabilities calls workdir 0 caps m).bind fun r ↦
    if r.1 then addMounts calls 0 mounts r.2 else some r

end DirMap

/-- A string has no terminator inside. -/
def IsCString (s : CString) : Prop := 0 ∉ s

instance (s : CString) : Decidable (IsCString s) := inferInstanceAs (Decidable (0 ∉ s))

/-- What a mount becomes in the list. -/
def mountEntry (mount : CString) : CString :=
  mountSource mount ++ cstring "::" ++ mountDestination mount

section Strings

variable {block : List UInt8} {s t : CString}

theorem writeString_eq {offset : ℕ} (h : offset + (s.length + 1) ≤ block.length) :
    writeString block offset s =
      some (block.take offset ++ (s ++ [0]) ++ block.drop (offset + (s.length + 1))) := by
  have hlen : (s ++ [0]).length = s.length + 1 := by simp
  have hwrite : writeString block offset s =
      some (block.take offset ++ (s ++ [0]) ++ block.drop (offset + (s ++ [0]).length)) :=
    if_pos (by omega)
  rw [hwrite, hlen]

theorem writeString_all (h : block.length = s.length + 1) :
    writeString block 0 s = some (s ++ [0]) := by
  rw [writeString_eq (by omega), List.drop_eq_nil_of_le (by omega)]
  simp

theorem blockString_append (hs : IsCString s) (rest : List UInt8) :
    DirMap.blockString (s ++ 0 :: rest) = s := by
  have hall : ∀ c ∈ s, decide (c ≠ 0) = true := by
    intro c hc
    rw [decide_eq_true_eq]
    rintro rfl
    exact hs hc
  rw [DirMap.blockString, List.takeWhile_append_of_pos hall, List.takeWhile_cons_of_neg (by simp),
    List.append_nil]

theorem findIdx_colon (hs : 58 ∉ s) : (s ++ 58 :: t).findIdx (· = 58) = s.length := by
  have hall : ∀ c ∈ s, ¬ decide (c = 58) = true := by
    intro c hc
    rw [decide_eq_true_eq]
    rintro rfl
    exact hs hc
  rw [List.findIdx_append, if_neg]
  · simp [List.findIdx_cons]
  · rw [List.findIdx_eq_length.mpr fun c hc ↦ by simpa using hall c hc]
    exact Nat.lt_irrefl _

theorem mountEntry_append (hs : 58 ∉ s) : mountEntry (s ++ 58 :: t) = s ++ 58 :: 58 :: t := by
  have hall : ∀ c ∈ s, decide (c ≠ 58) = true := by
    intro c hc
    rw [decide_eq_true_eq]
    rintro rfl
    exact hs hc
  rw [mountEntry, mountSource, mountDestination_append hs, List.takeWhile_append_of_pos hall,
    List.takeWhile_cons_of_neg (by simp), List.append_nil, List.append_assoc]
  rfl

/-- The two writes of a mount into its block: `strcpy` leaves the last byte, up to which
`sprintf` writes from behind the colon on. -/
theorem exists_of_writeMount {mount : CString} (block : List UInt8) (hmount : IsCString mount)
    (haccepted : mountError mount = none) (hblock : block.length = mount.length + 2) :
    ∃ srcColon copied, strchr mount 58 = some srcColon ∧ writeString block 0 mount = some copied ∧
      (DirMap.blockString copied).findIdx (· = 58) ≠ (DirMap.blockString copied).length ∧
      writeString copied ((DirMap.blockString copied).findIdx (· = 58) + 1) (58 :: srcColon.tail) =
        some (mountEntry mount ++ [0]) := by
  obtain ⟨source, rest, rfl, hsource, -, -⟩ := exists_of_accepted haccepted
  obtain ⟨last, hlast⟩ : ∃ last, block.drop ((source ++ 58 :: 47 :: rest).length + 1) = [last] := by
    apply List.length_eq_one_iff.mp
    rw [List.length_drop]
    omega
  refine ⟨58 :: 47 :: rest, source ++ 58 :: 47 :: rest ++ 0 :: [last], strchr_append hsource _, ?_,
    ?_⟩
  · rw [writeString_eq (by omega), Nat.zero_add, hlast]
    simp
  · rw [blockString_append hmount, findIdx_colon hsource, mountEntry_append hsource]
    refine ⟨by simp, ?_⟩
    rw [writeString_eq (by simp; omega), List.drop_eq_nil_of_le (by simp; omega)]
    simp [List.take_append]

end Strings

/-- An entry of the list: the resource of its block and its string. -/
abbrev DirEntry := Resource × CString

def DirEntry.slot (e : DirEntry) : Slot := .entry e.1 (e.2 ++ [0])

namespace DirMap

open Resources (release releaseAll)

variable {calls : CreationCalls} {m m' : DirMap} {entries : List DirEntry} {k : ℕ}
  {workdir mount : CString}

theorem setSlot_of_lt {slots : List Slot} {i : ℕ} (h : i < slots.length) (slot : Slot) :
    setSlot slots i slot = some (slots.set i slot) :=
  if_pos h

/-- The slots of the array for the capability, with its last two set. -/
def filesystemSlots (n : ℕ) (slot : Slot) : List Slot :=
  (((List.replicate (n + 2) .uninitialized).set 0 .null).set n slot).set (n + 1) .null

theorem addFilesystem_cases (calls : CreationCalls) (workdir : CString) (k : ℕ) (m : DirMap) :
    (calls.fails (.filesystemList k) = true ∧
      m.addFilesystem calls workdir k = some (false, { m with list := none })) ∨
    (calls.fails (.filesystemList k) = false ∧ calls.fails (.filesystemEntry k) = true ∧
      m.addFilesystem calls workdir k = some (false, { m with
        list := some (.filesystemList k,
          ((List.replicate (m.len + 2) .uninitialized).set 0 .null).set m.len .null) })) ∨
    (calls.fails (.filesystemList k) = false ∧ calls.fails (.filesystemEntry k) = false ∧
      m.addFilesystem calls workdir k = some (true, { m with
        list := some (.filesystemList k, filesystemSlots m.len
          (DirEntry.slot (.filesystemEntry k, cstring "/::" ++ workdir)))
        len := m.len + 1
        live := .filesystemEntry k :: .filesystemList k :: m.live })) := by
  rcases hlist : calls.fails (.filesystemList k) with _ | _
  · rcases hentry : calls.fails (.filesystemEntry k) with _ | _
    · have hblock : writeString (calls.block (.filesystemEntry k) (3 + workdir.length + 1)) 0
          (cstring "/::" ++ workdir) = some (cstring "/::" ++ workdir ++ [0]) := by
        apply writeString_all
        rw [CreationCalls.block, List.length_map, List.length_range, List.length_append]
        rfl
      refine .inr (.inr ⟨rfl, rfl, ?_⟩)
      rw [addFilesystem, hblock]
      simp [hlist, hentry, setSlot, DirEntry.slot, filesystemSlots]
    · refine .inr (.inl ⟨rfl, rfl, ?_⟩)
      rw [addFilesystem]
      simp [hlist, hentry, setSlot, release]
  · exact .inl ⟨rfl, by rw [addFilesystem, if_pos hlist]⟩

/-- The array of `realloc`, with one slot more for an entry and for the NULL. -/
def grown (m : DirMap) : List Slot :=
  (m.list.elim [] Prod.snd ++
    List.replicate (m.len + 2 - (m.list.elim [] Prod.snd).length) Slot.uninitialized).take
      (m.len + 2)

theorem length_grown (m : DirMap) : m.grown.length = m.len + 2 := by
  rw [grown, List.length_take, List.length_append, List.length_replicate]
  omega

/-- An accepted mount is appended as `<source>::<destination>`, and its block is just large
enough. -/
theorem addMount_cases (calls : CreationCalls) {live : List Resource} (hmount : IsCString mount)
    (haccepted : mountError mount = none) (k : ℕ)
    (hlive : releaseAll (m.list.toList.map Prod.fst) m.live = some live) :
    (calls.fails (.mountList k) = true ∧ m.addMount calls k mount = some (false, m)) ∨
    (calls.fails (.mountList k) = false ∧ calls.fails (.mountEntry k) = true ∧
      m.addMount calls k mount = some (false, { m with
        list := some (.mountList k, m.grown.set m.len .null)
        live := .mountList k :: live })) ∨
    (calls.fails (.mountList k) = false ∧ calls.fails (.mountEntry k) = false ∧
      m.addMount calls k mount = some (true, { m with
        list := some (.mountList k, (m.grown.set m.len
          (DirEntry.slot (.mountEntry k, mountEntry mount))).set (m.len + 1) .null)
        len := m.len + 1
        live := .mountEntry k :: .mountList k :: live })) := by
  have hlen := m.length_grown
  rcases hlist : calls.fails (.mountList k) with _ | _
  · rcases hentry : calls.fails (.mountEntry k) with _ | _
    · obtain ⟨srcColon, copied, hcolon, hcopy, hfound, hwrite⟩ := exists_of_writeMount
        (calls.block (.mountEntry k) (mount.length + 2)) hmount haccepted
        (by simp [CreationCalls.block])
      refine .inr (.inr ⟨rfl, rfl, ?_⟩)
      rw [addMount, if_neg (by simp [hlist]), hlive]
      simp only [hentry, hcolon, hcopy, Bool.false_eq_true, if_false, Option.bind_eq_bind,
        Option.bind_some]
      rw [if_neg hfound, hwrite, Option.bind_some]
      change (setSlot m.grown m.len _).bind _ = _
      rw [setSlot_of_lt (by omega), Option.bind_some,
        setSlot_of_lt (by rw [List.length_set]; omega), Option.bind_some]
      rfl
    · refine .inr (.inl ⟨rfl, rfl, ?_⟩)
      rw [addMount, if_neg (by simp [hlist]), hlive]
      simp only [hentry, if_true, Option.bind_eq_bind, Option.bind_some]
      change (setSlot m.grown m.len .null).bind _ = _
      rw [setSlot_of_lt (by omega), Option.bind_some]
  · exact .inl ⟨rfl, by rw [addMount, if_pos hlist]⟩

/-- The array holds the entries, each in a block of its own size, and a NULL after them;
there is no array before the first entry. What is held besides is given. -/
structure Lists (base : List Resource) (entries : List DirEntry) (m : DirMap) : Prop where
  len_eq : m.len = entries.length
  held : (m.list = none ∧ entries = [] ∧ m.live.Perm base) ∨
    ∃ r rest, m.list = some (r, entries.map DirEntry.slot ++ .null :: rest) ∧
      m.live.Perm (entries.map Prod.fst ++ r :: base)

section Lists

variable {base : List Resource} {entries : List DirEntry}

theorem take_grown (h : m.Lists base entries) : m.grown.take m.len = entries.map DirEntry.slot := by
  rw [grown, List.take_take, Nat.min_eq_left (by omega)]
  rcases h.held with ⟨hlist, rfl, -⟩ | ⟨r, rest, hlist, -⟩
  · simp [h.len_eq]
  · rw [hlist, Option.elim_some, List.append_assoc]
    exact List.take_left' (by rw [List.length_map, h.len_eq])

theorem set_grown (h : m.Lists base entries) (slot : Slot) :
    m.grown.set m.len slot = entries.map DirEntry.slot ++ slot :: m.grown.drop (m.len + 1) := by
  have hlen := m.length_grown
  rw [List.set_eq_take_append_cons_drop, if_pos (by omega), take_grown h]

theorem set_set_grown (h : m.Lists base entries) (e : DirEntry) :
    (m.grown.set m.len e.slot).set (m.len + 1) .null =
      (entries ++ [e]).map DirEntry.slot ++ [.null] := by
  have hlen := m.length_grown
  have hprefix : (entries.map DirEntry.slot ++ [e.slot]).length = m.len + 1 := by simp [h.len_eq]
  rw [set_grown h, List.append_cons, List.set_append_right _ _ hprefix.le, hprefix, Nat.sub_self]
  obtain ⟨last, hlast⟩ : ∃ last, m.grown.drop (m.len + 1) = [last] := by
    apply List.length_eq_one_iff.mp
    rw [List.length_drop]
    omega
  rw [hlast, List.map_append]
  rfl

/-- `realloc` releases the array. -/
theorem releaseAll_of_lists (h : m.Lists base entries) :
    ∃ live, releaseAll (m.list.toList.map Prod.fst) m.live = some live ∧
      live.Perm (entries.map Prod.fst ++ base) := by
  rcases h.held with ⟨hlist, rfl, hperm⟩ | ⟨r, rest, hlist, hperm⟩
  · exact ⟨m.live, by rw [hlist]; rfl, hperm⟩
  · rw [hlist]
    exact Resources.releases_releaseAll [r] m.live _ (hperm.trans List.perm_middle)

/-- There is no array yet. -/
structure Unmapped (base : List Resource) (m : DirMap) : Prop where
  list_eq : m.list = none
  len_eq : m.len = 0
  held : m.live.Perm base

theorem Unmapped.lists (h : m.Unmapped base) : m.Lists base [] :=
  ⟨h.len_eq, .inl ⟨h.list_eq, rfl, h.held⟩⟩

theorem lists_of_addFilesystem (h : m.Unmapped base) (workdir : CString) (k : ℕ)
    (hfails : calls.fails (.filesystemList k) = true ∨ calls.fails (.filesystemEntry k) = false) :
    ∃ b m', m.addFilesystem calls workdir k = some (b, m') ∧ m'.Lists base
      (if b then [(.filesystemEntry k, cstring "/::" ++ workdir)] else []) := by
  rcases addFilesystem_cases calls workdir k m with ⟨-, heq⟩ | ⟨hlist, hentry, -⟩ | ⟨-, -, heq⟩
  · exact ⟨_, _, heq, ⟨h.len_eq, .inl ⟨rfl, rfl, h.held⟩⟩⟩
  · rw [hlist, hentry] at hfails
    exact hfails.elim nofun nofun
  · refine ⟨_, _, heq, ⟨by rw [h.len_eq]; rfl, .inr ⟨.filesystemList k, [], ?_, ?_⟩⟩⟩
    · rw [h.len_eq]
      rfl
    · exact (h.held.cons _).cons _

theorem lists_of_addMount (calls : CreationCalls) (h : m.Lists base entries)
    (hmount : IsCString mount) (haccepted : mountError mount = none) (k : ℕ) :
    ∃ b m', m.addMount calls k mount = some (b, m') ∧ m'.Lists base
      (if b then entries ++ [(.mountEntry k, mountEntry mount)] else entries) := by
  obtain ⟨live, hlive, hperm⟩ := releaseAll_of_lists h
  have hheld : (Resource.mountList k :: live).Perm
      (entries.map Prod.fst ++ .mountList k :: base) :=
    (hperm.cons _).trans List.perm_middle.symm
  rcases addMount_cases calls hmount haccepted k hlive with
    ⟨-, heq⟩ | ⟨-, -, heq⟩ | ⟨-, -, heq⟩
  · exact ⟨_, _, heq, h⟩
  · exact ⟨_, _, heq, ⟨h.len_eq, .inr ⟨.mountList k, _, by rw [set_grown h]; rfl, hheld⟩⟩⟩
  · refine ⟨_, _, heq, ⟨?_, .inr ⟨.mountList k, [], ?_, ?_⟩⟩⟩
    · simp [h.len_eq]
    · rw [set_set_grown h]
      rfl
    · rw [if_pos rfl, List.map_append, List.append_assoc]
      exact (hheld.cons _).trans List.perm_middle.symm

/-- The loop over the mounts appends them, as far as it comes. -/
theorem lists_of_addMounts {mounts : List CString} (h : m.Lists base entries)
    (hmounts : ∀ mount ∈ mounts, IsCString mount ∧ mountError mount = none) (k : ℕ) :
    ∃ b m' entries', addMounts calls k mounts m = some (b, m') ∧ m'.Lists base entries' ∧
      (b = true → entries'.map Prod.snd = entries.map Prod.snd ++ mounts.map mountEntry) := by
  induction mounts generalizing m entries k with
  | nil => exact ⟨true, m, entries, rfl, h, fun _ ↦ by simp⟩
  | cons mount mounts ih =>
      obtain ⟨hmount, hrest⟩ := List.forall_mem_cons.mp hmounts
      obtain ⟨b, m₁, heq, hlists⟩ := lists_of_addMount calls h hmount.1 hmount.2 k
      rw [addMounts, heq, Option.bind_some]
      cases b with
      | false => exact ⟨false, m₁, entries, rfl, hlists, nofun⟩
      | true =>
          obtain ⟨b, m', entries', heq', hlists', hstrings⟩ := ih hlists hrest (k + 1)
          exact ⟨b, m', entries', heq', hlists', fun hb ↦ by simp [hstrings hb]⟩

end Lists

/-- What the other capabilities set. -/
abbrev withFlags (m : DirMap) (usesSharedHeap usesOcreApi : Bool) : DirMap :=
  { m with usesSharedHeap := usesSharedHeap, usesOcreApi := usesOcreApi }

section Loops

variable {workdir : Option CString} {caps before mounts : List CString}

/-- A capability is the one that the branch is about, or it changes only the flags. -/
theorem addCapabilities_cons (calls : CreationCalls) (k : ℕ) (m : DirMap) (cap : CString)
    (caps : List CString) (h : workdir = none ∨ cap ≠ cstring "filesystem") :
    ∃ u v, addCapabilities calls workdir k (cap :: caps) m =
      addCapabilities calls workdir k caps (m.withFlags u v) := by
  rw [addCapabilities.eq_def]
  dsimp only
  split
  · exact ⟨_, _, rfl⟩
  · split
    · exact ⟨_, _, rfl⟩
    · split
      next hcap =>
        obtain rfl := h.resolve_right (not_not_intro hcap)
        exact ⟨m.usesSharedHeap, m.usesOcreApi, rfl⟩
      · exact ⟨m.usesSharedHeap, m.usesOcreApi, rfl⟩

theorem addCapabilities_of_skipped (calls : CreationCalls) (k : ℕ) (m : DirMap)
    (h : workdir = none ∨ cstring "filesystem" ∉ caps) :
    ∃ u v, addCapabilities calls workdir k caps m = some (true, m.withFlags u v) := by
  induction caps generalizing m with
  | nil => exact ⟨m.usesSharedHeap, m.usesOcreApi, rfl⟩
  | cons cap caps ih =>
      have hcap : workdir = none ∨ cap ≠ cstring "filesystem" :=
        h.imp_right fun hnot heq ↦ hnot (heq ▸ List.mem_cons_self)
      obtain ⟨u, v, heq⟩ := addCapabilities_cons calls k m cap caps hcap
      obtain ⟨u', v', heq'⟩ := ih (m.withFlags u v)
        (h.imp_right fun hnot hmem ↦ hnot (List.mem_cons_of_mem _ hmem))
      exact ⟨u', v', heq.trans heq'⟩

/-- The first time that the capability comes. -/
theorem addCapabilities_filesystem (calls : CreationCalls) (path : CString) (k : ℕ) (m : DirMap)
    (caps : List CString) (hbefore : cstring "filesystem" ∉ before) :
    ∃ u v, addCapabilities calls (some path) k (before ++ cstring "filesystem" :: caps) m =
      ((m.withFlags u v).addFilesystem calls path k).bind fun r ↦
        if r.1 then addCapabilities calls (some path) (k + 1) caps r.2 else some r := by
  induction before generalizing m with
  | nil =>
      refine ⟨m.usesSharedHeap, m.usesOcreApi, ?_⟩
      rw [List.nil_append, addCapabilities.eq_def]
      dsimp only
      rw [if_neg (by decide), if_neg (by decide), if_pos rfl]
  | cons cap before ih =>
      rw [List.mem_cons, not_or] at hbefore
      obtain ⟨u, v, heq⟩ := addCapabilities_cons calls k m cap
        (before ++ cstring "filesystem" :: caps) (.inr (Ne.symm hbefore.1))
      obtain ⟨u', v', heq'⟩ := ih (m.withFlags u v) hbefore.2
      exact ⟨u', v', heq.trans heq'⟩

theorem exists_of_two_le_count (h : 2 ≤ caps.count (cstring "filesystem")) :
    ∃ before between rest, caps =
        before ++ cstring "filesystem" :: (between ++ cstring "filesystem" :: rest) ∧
      cstring "filesystem" ∉ before ∧ cstring "filesystem" ∉ between := by
  obtain ⟨before, after, rfl, hbefore⟩ := List.eq_append_cons_of_mem
    (List.count_pos_iff.mp (Nat.zero_lt_of_lt h))
  have hafter : cstring "filesystem" ∈ after := by
    rw [List.count_append, List.count_cons_self, List.count_eq_zero.mpr hbefore] at h
    exact List.count_pos_iff.mp (by omega)
  obtain ⟨between, rest, rfl, hbetween⟩ := List.eq_append_cons_of_mem hafter
  exact ⟨before, between, rest, rfl, hbefore, hbetween⟩

/-- What every call of the branch keeps, the loop keeps. -/
theorem addCapabilities_rule (calls : CreationCalls) (caps : List CString)
    {Q : Bool → DirMap → Prop} (hflags : ∀ m u v, Q true m → Q true (m.withFlags u v))
    (hstep : ∀ path ∈ workdir, ∀ j ≥ k, ∀ m, Q true m →
      ∃ b m', m.addFilesystem calls path j = some (b, m') ∧ Q b m') (h : Q true m) :
    ∃ b m', addCapabilities calls workdir k caps m = some (b, m') ∧ Q b m' := by
  induction caps generalizing k m with
  | nil => exact ⟨true, m, rfl, h⟩
  | cons cap caps ih =>
      by_cases hcap : workdir = none ∨ cap ≠ cstring "filesystem"
      · obtain ⟨u, v, heq⟩ := addCapabilities_cons calls k m cap caps hcap
        rw [heq]
        exact ih hstep (hflags m u v h)
      · rw [not_or, not_not] at hcap
        obtain ⟨path, rfl⟩ := Option.ne_none_iff_exists'.mp hcap.1
        obtain ⟨u, v, heq⟩ := addCapabilities_filesystem calls path k m caps
          List.not_mem_nil
        rw [hcap.2]
        obtain ⟨b, m₁, hstep₁, hm₁⟩ := hstep path rfl k le_rfl _ (hflags m u v h)
        rw [← List.nil_append (_ :: caps), heq, hstep₁, Option.bind_some]
        cases b with
        | false => exact ⟨false, m₁, rfl, hm₁⟩
        | true =>
            exact ih (fun path hpath j hj ↦ hstep path hpath j (Nat.le_of_succ_le hj)) hm₁

theorem addMounts_rule (calls : CreationCalls) (k : ℕ) {Q : Bool → DirMap → Prop}
    (hstep : ∀ mount ∈ mounts, ∀ j m, Q true m →
      ∃ b m', m.addMount calls j mount = some (b, m') ∧ Q b m') (h : Q true m) :
    ∃ b m', addMounts calls k mounts m = some (b, m') ∧ Q b m' := by
  induction mounts generalizing k m with
  | nil => exact ⟨true, m, rfl, h⟩
  | cons mount mounts ih =>
      obtain ⟨b, m₁, heq, hm₁⟩ := hstep mount List.mem_cons_self k m h
      rw [addMounts, heq, Option.bind_some]
      cases b with
      | false => exact ⟨false, m₁, rfl, hm₁⟩
      | true => exact ih (k + 1) (fun mount hmem ↦ hstep mount (List.mem_cons_of_mem _ hmem)) hm₁

end Loops

end DirMap

end OcreRuntime
