import OcreRuntime.Util.Memory

/-!
# Arrays of strings

`string_array.c` in memory. A copy of an array is built of new blocks, one for the array and one
for each string, and stands for the same strings.
-/

namespace OcreRuntime

namespace Memory

variable {ω : Type} (m : Memory ω)

/-- The loop of `string_array_size` over what is left of the block. -/
def sizeLoop : ℕ → List (Option Pointer) → Option ℕ
  | _, [] => none
  | size, none :: _ => some (size + 1)
  | size, some _ :: cells => sizeLoop (size + 1) cells

def stringArraySize : Option Pointer → Option ℕ
  | none => some 0
  | some array => (m.cells (some array)).bind (sizeLoop 0)

end Memory

/-- The loop of `string_array_free`, for as many cells as the block has from `array[j]` on. -/
def freeLoop {ω : Type} (array : Option Pointer) : ℕ → ℕ → Memory ω → Option (Memory ω)
  | 0, _, _ => none
  | n + 1, j, m => (m.cell array j).bind fun p ↦
      if p.isNone then some m else (m.free p).bind (freeLoop array n (j + 1))

def Memory.stringArrayFree {ω : Type} (m : Memory ω) : Option Pointer → Option (Memory ω)
  | none => some m
  | some array => do
      let cells ← m.cells (some array)
      let m ← freeLoop (some array) cells.length 0 m
      m.free (some array)

namespace Libc

variable {ω : Type} (libc : Libc ω)

/-- The loop of `string_array_deep_dup` with `n` strings left; false for `goto error`. -/
def dupLoop (src dst : Option Pointer) : ℕ → ℕ → Memory ω → Option (Bool × Memory ω)
  | _, 0, m => some (true, m)
  | i, n + 1, m => do
      let p ← m.cell src i
      let r ← libc.strdup p m
      let m ← Memory.setCell r.2 dst i r.1
      if r.1.isNone then some (false, m) else dupLoop src dst (i + 1) n m

def stringArrayDeepDup (src : Option Pointer) (m : Memory ω) :
    Option (Option Pointer × Memory ω) := do
  let size ← m.stringArraySize src
  if size = 0 then some (none, m)
  else
    let r := libc.mallocPointers size m
    if r.1.isNone then some (none, r.2)
    else
      let copied ← libc.dupLoop src r.1 0 (size - 1) r.2
      if copied.1 then
        let m ← Memory.setCell copied.2 r.1 (size - 1) none
        some (r.1, m)
      else
        let m ← Memory.stringArrayFree copied.2 r.1
        some (none, m)

end Libc

namespace Memory

variable {ω : Type} {m : Memory ω} {p : Option Pointer}

theorem sizeLoop_eq (ps : List Pointer) (rest : List (Option Pointer)) (size : ℕ) :
    sizeLoop size (ps.map some ++ none :: rest) = some (size + ps.length + 1) := by
  induction ps generalizing size with
  | nil => rfl
  | cons p ps ih =>
      rw [List.map_cons, List.cons_append, sizeLoop, ih, List.length_cons]
      congr 1
      omega

theorem stringArraySize_eq {strings : List CString}
    (h : m.stringArray p = some (some strings)) :
    m.stringArraySize p = some (strings.length + 1) := by
  cases p with
  | none => cases h
  | some p =>
      obtain ⟨ps, ss, rest, hss, hcells, -, hlength⟩ := exists_of_stringArray h
      obtain rfl := Option.some.inj hss
      rw [stringArraySize, hcells, Option.bind_some, sizeLoop_eq, Nat.zero_add, hlength]

end Memory

namespace Libc

variable {ω : Type} {libc : Libc ω} {m₀ m m₁ m' : Memory ω} {src dst p : Option Pointer}
  {q : Pointer} {s : CString} {a n : ℕ} {copies : List (ℕ × CString)}

/-- Part of an array is filled with copies, and the rest of its cells are NULL. -/
structure Copying (libc : Libc ω) (m₀ m : Memory ω) (array : ℕ) (copies : List (ℕ × CString))
    (n : ℕ) : Prop where
  extends_memory : m₀.Extends m
  fresh : m₀.block array = none
  block_array : m.block array =
    some (libc.owner, .pointers ((pointersTo copies).map some ++ List.replicate n none))
  strings : m.Owns libc.owner (stringBlocks copies)
  isCString : ∀ e ∈ copies, IsCString e.2

namespace Copying

variable {array : ℕ}

theorem ne_array (h : Copying libc m₀ m array copies n) :
    ∀ e ∈ stringBlocks copies, e.1 ≠ array := by
  intro e he heq
  have hblock := h.strings e he
  rw [heq, h.block_array] at hblock
  obtain ⟨c, -, rfl⟩ := List.mem_map.mp he
  cases hblock

/-- The next cell is made to point to one more string. -/
theorem push (h : Copying libc m₀ m array copies n) (hext : m.Extends m₁) (hs : IsCString s)
    (hblock : m₁.block a = some (libc.owner, .chars (s ++ [0])))
    (hset : m₁.setCell (some { block := array }) copies.length (some { block := a }) = some m') :
    ∃ n', n = n' + 1 ∧ Copying libc m₀ m' array (copies ++ [(a, s)]) n' := by
  have harray₁ := hext _ _ h.block_array
  have hne : a ≠ array := by
    rintro rfl
    rw [hblock] at harray₁
    cases harray₁
  obtain ⟨hlt, hstore, harray⟩ := Memory.setCell_cases harray₁ hset
  have hlength : ((pointersTo copies).map some).length = copies.length := by simp
  obtain ⟨n', rfl⟩ : ∃ n', n = n' + 1 := by
    refine Nat.exists_eq_add_one.mpr ?_
    rw [List.length_append, hlength, List.length_replicate] at hlt
    omega
  refine ⟨n', rfl, (h.extends_memory.trans hext).store h.fresh hstore, h.fresh, ?_, ?_, ?_⟩
  · rw [harray, List.set_append_right _ _ hlength.le, hlength, Nat.sub_self, List.replicate_succ,
      List.set_cons_zero]
    simp [pointersTo]
  · rw [stringBlocks, List.map_append, Heap.Owns.append_iff]
    refine ⟨(h.strings.mono hext).store h.ne_array hstore, ?_⟩
    have hstring : m₁.Owns libc.owner [(a, .chars (s ++ [0]))] :=
      Heap.Owns.cons_iff.mpr ⟨hblock, .nil⟩
    exact hstring.store (by simpa using hne) hstore
  · intro e he
    rcases List.mem_append.mp he with he | he
    · exact h.isCString e he
    · obtain rfl := List.mem_singleton.mp he
      exact hs

theorem dup (h : Copying libc m₀ m array copies n) (hs : m₀.string p = some s)
    (hdup : libc.strdup p m = some (some q, m₁))
    (hset : m₁.setCell (some { block := array }) copies.length (some q) = some m') :
    ∃ a n', n = n' + 1 ∧ Copying libc m₀ m' array (copies ++ [(a, s)]) n' := by
  obtain ⟨hext, hnull | ⟨a, ha, -, hblock⟩⟩ :=
    strdup_cases hdup (Memory.string_of_extends h.extends_memory hs)
  · cases hnull
  · obtain rfl := Option.some.inj ha
    exact ⟨a, h.push hext (Memory.isCString_of_string hs) hblock hset⟩

/-- The NULL after the last string, where the array has just the room for it. -/
theorem terminate (h : Copying libc m₀ m array copies n) (hn : n ≤ 1)
    (hset : m.setCell (some { block := array }) copies.length none = some m') :
    m₀.Extends m' ∧ ∃ F, Built (some { block := array }) (some (copies.map Prod.snd)) F ∧
      m'.Owns libc.owner F := by
  obtain ⟨hlt, hstore, harray⟩ := Memory.setCell_cases h.block_array hset
  have hlength : ((pointersTo copies).map some).length = copies.length := by simp
  rw [List.length_append, hlength, List.length_replicate] at hlt
  obtain rfl : n = 1 := by omega
  rw [List.set_append_right _ _ hlength.le, hlength, Nat.sub_self] at harray
  refine ⟨h.extends_memory.store h.fresh hstore, _, .array array copies h.isCString, ?_⟩
  exact Heap.Owns.cons_iff.mpr ⟨harray, h.strings.store h.ne_array hstore⟩

/-- The loop copies the strings that are left, one for each cell. -/
theorem loop {rest : List CString} (h : Copying libc m₀ m array copies n)
    (hread : ∀ j s, rest[j]? = some s →
      ∃ q, m₀.cell src (copies.length + j) = some (some q) ∧ m₀.string (some q) = some s)
    (hloop : libc.dupLoop src (some { block := array }) copies.length rest.length m =
      some (true, m')) :
    ∃ more n', more.map Prod.snd = rest ∧ n = n' + rest.length ∧
      Copying libc m₀ m' array (copies ++ more) n' := by
  induction rest generalizing copies n m with
  | nil =>
      obtain rfl := (Prod.mk.inj (Option.some.inj hloop)).2
      exact ⟨[], n, rfl, rfl, by rwa [List.append_nil]⟩
  | cons s rest ih =>
      obtain ⟨q, hcell, hs⟩ := hread 0 s rfl
      rw [List.length_cons, dupLoop] at hloop
      obtain ⟨p, hp, hloop⟩ := Option.bind_eq_some_iff.mp hloop
      -- the source is read anew at each turn; no copy has touched it
      obtain rfl : some q = p :=
        Option.some.inj ((Memory.cell_of_extends h.extends_memory hcell).symm.trans hp)
      obtain ⟨⟨_ | c, m₁⟩, hdup, hloop⟩ := Option.bind_eq_some_iff.mp hloop <;>
        obtain ⟨m₂, hset, hloop⟩ := Option.bind_eq_some_iff.mp hloop
      · cases hloop
      obtain ⟨a, n₁, rfl, hcopying⟩ := h.dup hs hdup hset
      rw [if_neg (by simp)] at hloop
      have hlength : (copies ++ [(a, s)]).length = copies.length + 1 := by simp
      rw [← hlength] at hloop
      obtain ⟨more, n', rfl, rfl, hcopying⟩ := ih hcopying
        (fun j t ht ↦ by
          rw [hlength, Nat.add_assoc, Nat.add_comm 1 j]
          exact hread (j + 1) t ht) hloop
      refine ⟨(a, s) :: more, n', rfl, by rw [List.length_cons]; omega, ?_⟩
      rwa [List.append_cons]

end Copying

/-- The steps of a copy that is not NULL. -/
theorem stringArrayDeepDup_cases (hdup : libc.stringArrayDeepDup src m = some (some q, m')) :
    ∃ size m₁ m₂, m.stringArraySize src = some size ∧
      libc.mallocPointers size m = (some q, m₁) ∧
      libc.dupLoop src (some q) 0 (size - 1) m₁ = some (true, m₂) ∧
      m₂.setCell (some q) (size - 1) none = some m' := by
  obtain ⟨size, hsize, hdup⟩ := Option.bind_eq_some_iff.mp hdup
  split at hdup
  · cases hdup
  rcases hmalloc : libc.mallocPointers size m with ⟨_ | array, m₁⟩ <;> rw [hmalloc] at hdup
  · cases hdup
  obtain ⟨⟨_ | _, m₂⟩, hloop, hdup⟩ := Option.bind_eq_some_iff.mp hdup <;>
    obtain ⟨m₃, hset, hdup⟩ := Option.bind_eq_some_iff.mp hdup
  · cases hdup
  · obtain ⟨hq, rfl⟩ := Prod.mk.inj (Option.some.inj hdup)
    obtain rfl := Option.some.inj hq
    exact ⟨size, m₁, m₂, hsize, hmalloc, hloop, hset⟩

/-- A copy has all the strings, in blocks that are new. -/
theorem built_of_some {p : Pointer} {strings : List CString}
    (hdup : libc.stringArrayDeepDup (some p) m = some (some q, m'))
    (hsrc : m.stringArray (some p) = some (some strings)) :
    m.Extends m' ∧ ∃ F, Built (some q) (some strings) F ∧ m'.Owns libc.owner F := by
  obtain ⟨size, m₁, m₂, hsize, hmalloc, hloop, hset⟩ := stringArrayDeepDup_cases hdup
  obtain rfl := Option.some.inj ((Memory.stringArraySize_eq hsrc).symm.trans hsize)
  rw [Nat.add_sub_cancel] at hloop hset
  obtain ⟨hext, hnull | ⟨a, ha, hfree, hblock⟩⟩ := malloc_cases hmalloc
  · cases hnull
  obtain rfl := Option.some.inj ha
  have hstart : Copying libc m m₁ a [] _ := ⟨hext, hfree, hblock, .nil, by simp⟩
  obtain ⟨copies, n, rfl, hn, hcopying⟩ := hstart.loop (fun j s hs ↦ by
    rw [List.length_nil, Nat.zero_add]
    exact Memory.exists_of_getElem hsrc hs) hloop
  rw [List.nil_append] at hcopying
  -- a block that holds the strings has room for just one cell more
  have hroom := libc.capacity_le ((copies.map Prod.snd).length + 1)
  rw [List.length_map] at hset
  exact hcopying.terminate (by omega) hset

/-- The copy of `string_array_deep_dup`, unless it is NULL without reason. -/
theorem built_stringArrayDeepDup {strings : Option (List CString)}
    (hdup : libc.stringArrayDeepDup src m = some (dst, m'))
    (hsrc : m.stringArray src = some strings) (hnull : dst = none → src = none) :
    m.Extends m' ∧ ∃ F, Built dst strings F ∧ m'.Owns libc.owner F := by
  cases src with
  | none =>
      obtain ⟨rfl, rfl⟩ := Prod.mk.inj (Option.some.inj hdup)
      obtain rfl := Option.some.inj hsrc
      exact ⟨.refl m, [], .null, .nil⟩
  | some p =>
      cases dst with
      | none => cases hnull rfl
      | some q =>
          obtain ⟨ss, -, rfl⟩ := Option.map_eq_some_iff.mp hsrc
          exact built_of_some hdup hsrc

section Room

namespace Copying

variable {array : ℕ}

theorem exists_dup (hroom : libc.HasRoom) (h : Copying libc m₀ m array copies (n + 1))
    (hs : m₀.string p = some s) :
    ∃ q m₁ m', libc.strdup p m = some (some q, m₁) ∧
      m₁.setCell (some { block := array }) copies.length (some q) = some m' := by
  obtain ⟨q, m₁, hdup⟩ := exists_strdup hroom (Memory.string_of_extends h.extends_memory hs)
  obtain ⟨m', hset⟩ := Memory.exists_setCell (i := copies.length)
    (extends_strdup hdup _ _ h.block_array) (by simp) (some q)
  exact ⟨q, m₁, m', hdup, hset⟩

theorem exists_loop (hroom : libc.HasRoom) {rest : List CString}
    (h : Copying libc m₀ m array copies n) (hn : rest.length ≤ n)
    (hread : ∀ j s, rest[j]? = some s →
      ∃ q, m₀.cell src (copies.length + j) = some (some q) ∧ m₀.string (some q) = some s) :
    ∃ m', libc.dupLoop src (some { block := array }) copies.length rest.length m =
      some (true, m') := by
  induction rest generalizing copies n m with
  | nil => exact ⟨m, rfl⟩
  | cons s rest ih =>
      obtain ⟨n, rfl⟩ := Nat.exists_eq_add_of_lt (Nat.lt_of_lt_of_le (Nat.succ_pos _) hn)
      obtain ⟨q, hcell, hs⟩ := hread 0 s rfl
      rw [Nat.zero_add] at h hn
      obtain ⟨c, m₁, m₂, hdup, hset⟩ := h.exists_dup hroom hs
      obtain ⟨a, n₁, hn₁, hcopying⟩ := h.dup hs hdup hset
      have hlength : (copies ++ [(a, s)]).length = copies.length + 1 := by simp
      obtain ⟨m', hloop⟩ := ih hcopying (by rw [List.length_cons] at hn; omega) fun j t ht ↦ by
        rw [hlength, Nat.add_assoc, Nat.add_comm 1 j]
        exact hread (j + 1) t ht
      rw [hlength] at hloop
      have hcell' : m.cell src copies.length = some (some q) :=
        Memory.cell_of_extends h.extends_memory hcell
      exact ⟨m', by simp [dupLoop, hcell', hdup, hset, hloop]⟩

end Copying

/-- With room for the copies, none is missing. -/
theorem exists_stringArrayDeepDup {strings : Option (List CString)} (hroom : libc.HasRoom)
    (hfits : libc.Fits ((strings.getD []).length + 1))
    (hsrc : m.stringArray src = some strings) :
    ∃ dst m', libc.stringArrayDeepDup src m = some (dst, m') ∧ (dst = none → src = none) := by
  cases src with
  | none => exact ⟨none, m, rfl, fun h ↦ h⟩
  | some p =>
      obtain ⟨ss, -, rfl⟩ := Option.map_eq_some_iff.mp hsrc
      have hsize := Memory.stringArraySize_eq hsrc
      obtain ⟨a, m₁, hmalloc⟩ := exists_malloc hroom _
        (.pointers (List.replicate (ss.length + 1) none)) m
      have hpointers : libc.mallocPointers (ss.length + 1) m = (some { block := a }, m₁) := by
        have hcapacity := capacity_of_fits hfits
        rw [Option.getD_some] at hcapacity
        dsimp only [mallocPointers]
        rw [hcapacity, hmalloc]
      obtain ⟨hext, hnull | ⟨a', ha, hfree, hblock⟩⟩ := malloc_cases hmalloc
      · cases hnull
      cases ha
      have hstart : Copying libc m m₁ a [] (ss.length + 1) :=
        ⟨hext, hfree, hblock, .nil, by simp⟩
      obtain ⟨m₂, hloop⟩ := hstart.exists_loop hroom (Nat.le_succ _) fun j s hs ↦ by
        rw [List.length_nil, Nat.zero_add]
        exact Memory.exists_of_getElem hsrc hs
      obtain ⟨copies, n, rfl, hn, hcopying⟩ := hstart.loop (fun j s hs ↦ by
        rw [List.length_nil, Nat.zero_add]
        exact Memory.exists_of_getElem hsrc hs) hloop
      obtain ⟨m', hset⟩ := Memory.exists_setCell (i := (copies.map Prod.snd).length)
        hcopying.block_array (by simp; omega) none
      simp only [List.length_map, List.length_nil] at hsize hpointers hloop hset
      refine ⟨some { block := a }, m', ?_, by simp⟩
      simp [stringArrayDeepDup, hsize, hpointers, hloop, hset]

end Room

/-- In memory as on values: the copy stands for what the array stands for, or is NULL. -/
theorem stringArray_stringArrayDeepDup {strings : Option (List CString)}
    (hdup : libc.stringArrayDeepDup src m = some (dst, m'))
    (hsrc : m.stringArray src = some strings) :
    ∃ fails, m'.stringArray dst = some (OcreRuntime.stringArrayDeepDup fails strings) := by
  by_cases hnull : dst = none → src = none
  · obtain ⟨-, F, hbuilt, hF⟩ := built_stringArrayDeepDup hdup hsrc hnull
    exact ⟨false, hbuilt.stringArray hF⟩
  · rw [Classical.not_imp] at hnull
    obtain ⟨rfl, -⟩ := hnull
    exact ⟨true, rfl⟩

end Libc

end OcreRuntime
