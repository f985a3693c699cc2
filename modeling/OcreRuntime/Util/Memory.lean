import Mathlib.Data.List.TakeWhile
import OcreRuntime.Lib.Heap
import OcreRuntime.Wamr.DirMap

/-!
# The memory of a C program

Blocks of characters and of pointers, and the calls of the C library on them. A pointer may
stand anywhere in a block. To read or write past a block, to read a string that does not end in
its block, and to free what is not the start of a block are undefined.
-/

namespace OcreRuntime

structure Pointer where
  block : ℕ
  offset : ℕ := 0
  deriving DecidableEq

/-- What a block holds: characters, pointers with `none` for NULL, or the fields of a `struct`,
which are kept elsewhere. -/
inductive Object
  | chars (bytes : List UInt8)
  | pointers (cells : List (Option Pointer))
  | record
  deriving DecidableEq

abbrev Memory (ω : Type) := Heap ω Object

namespace Memory

variable {ω : Type} (m : Memory ω)

/-- The string at a pointer. -/
def string (p : Option Pointer) : Option CString :=
  p.bind fun p ↦ match m.get p.block with
    | some (.chars bytes) =>
        if 0 ∈ bytes.drop p.offset then some (DirMap.blockString (bytes.drop p.offset)) else none
    | _ => none

/-- The pointers from `array[0]` to the end of the block. -/
def cells (array : Option Pointer) : Option (List (Option Pointer)) :=
  array.bind fun array ↦ match m.get array.block with
    | some (.pointers cells) => some (cells.drop array.offset)
    | _ => none

def cell (array : Option Pointer) (i : ℕ) : Option (Option Pointer) :=
  (m.cells array).bind (·[i]?)

def setCell (array : Option Pointer) (i : ℕ) (p : Option Pointer) : Option (Memory ω) :=
  array.bind fun array ↦ match m.get array.block with
    | some (.pointers cells) =>
        if array.offset + i < cells.length then
          m.store array.block (.pointers (cells.set (array.offset + i) p))
        else none
    | _ => none

def free (p : Option Pointer) : Option (Memory ω) :=
  match p with
  | none => some m
  | some p => if p.offset = 0 then Heap.free p.block m else none

/-- The pointers before the first NULL. -/
def entries : List (Option Pointer) → Option (List Pointer)
  | [] => none
  | none :: _ => some []
  | some p :: cells => (entries cells).map (p :: ·)

/-- The strings of a NULL-terminated array. -/
def strings (array : Option Pointer) : Option (List CString) :=
  ((m.cells array).bind entries).bind fun ps ↦ ps.mapM fun p ↦ m.string (some p)

/-- What a pointer to an array stands for, which may be NULL. -/
def stringArray : Option Pointer → Option (Option (List CString))
  | none => some none
  | some array => (m.strings (some array)).map some

end Memory

/-- The C library that the code runs with, and the party that its blocks belong to. -/
structure Libc (ω : Type) where
  allocator : Heap.Allocator ω Object
  /-- The number of bits of `size_t`. -/
  sizeBits : ℕ := 64
  /-- `sizeof(char *)`. -/
  pointerSize : ℕ := 8
  owner : ω

namespace Libc

variable {ω : Type} (libc : Libc ω)

def malloc (size : ℕ) (x : Object) (m : Memory ω) : Option Pointer × Memory ω :=
  let r := Heap.malloc libc.allocator libc.owner size x m
  (r.1.map fun a ↦ { block := a }, r.2)

/-- `malloc` of `n` pointers with the `memset` that follows. The product is a `size_t`. -/
def mallocPointers (n : ℕ) (m : Memory ω) : Option Pointer × Memory ω :=
  let size := n * libc.pointerSize % 2 ^ libc.sizeBits
  libc.malloc size (.pointers (List.replicate (size / libc.pointerSize) none)) m

def strdup (p : Option Pointer) (m : Memory ω) : Option (Option Pointer × Memory ω) :=
  (m.string p).map fun s ↦ libc.malloc (s.length + 1) (.chars (s ++ [0])) m

end Libc

/-- The pointers to the starts of blocks. -/
def pointersTo (copies : List (ℕ × CString)) : List Pointer := copies.map fun e ↦ { block := e.1 }

@[simp] theorem length_pointersTo (copies : List (ℕ × CString)) :
    (pointersTo copies).length = copies.length :=
  List.length_map _

/-- Blocks that hold just these strings. -/
def stringBlocks (copies : List (ℕ × CString)) : List (ℕ × Object) :=
  copies.map fun e ↦ (e.1, .chars (e.2 ++ [0]))

/-- What a pointer to an array stands for when it has been built in these blocks. -/
inductive Built : Option Pointer → Option (List CString) → List (ℕ × Object) → Prop
  | null : Built none none []
  | array (a : ℕ) (copies : List (ℕ × CString)) (h : ∀ e ∈ copies, IsCString e.2) :
      Built (some { block := a }) (some (copies.map Prod.snd))
        ((a, .pointers ((pointersTo copies).map some ++ [none])) :: stringBlocks copies)

namespace Memory

variable {ω : Type} {m m' : Memory ω} {p array : Option Pointer} {s : CString} {a i : ℕ}
  {cells : List (Option Pointer)} {ps : List Pointer} {copies : List (ℕ × CString)} {o : ω}

theorem entries_eq_some :
    entries cells = some ps ↔ ∃ rest, cells = ps.map some ++ none :: rest := by
  induction cells generalizing ps with
  | nil => simp [entries]
  | cons cell cells ih =>
      cases cell with
      | none => cases ps <;> simp [entries]
      | some q =>
          rw [entries, Option.map_eq_some_iff]
          constructor
          · rintro ⟨qs, hqs, rfl⟩
            obtain ⟨rest, rfl⟩ := ih.mp hqs
            exact ⟨rest, rfl⟩
          · rintro ⟨rest, hcells⟩
            cases ps with
            | nil => cases hcells
            | cons p ps =>
                obtain ⟨hq, hrest⟩ := List.cons.inj hcells
                cases hq
                exact ⟨ps, ih.mpr ⟨rest, hrest⟩, rfl⟩

theorem string_of_extends (hm : m.Extends m') (hs : m.string p = some s) :
    m'.string p = some s := by
  obtain ⟨q, rfl, hq⟩ := Option.bind_eq_some_iff.mp hs
  cases hget : m.get q.block with
  | none => simp [hget] at hq
  | some x => simpa [string, hm.get hget, hget] using hq

theorem cells_of_extends (hm : m.Extends m') (hcells : m.cells array = some cells) :
    m'.cells array = some cells := by
  obtain ⟨q, rfl, hq⟩ := Option.bind_eq_some_iff.mp hcells
  cases hget : m.get q.block with
  | none => simp [hget] at hq
  | some x => simpa [Memory.cells, hm.get hget, hget] using hq

theorem string_of_get (hget : m.get a = some (.chars (s ++ [0]))) (hs : IsCString s) :
    m.string (some { block := a }) = some s := by
  simp [string, hget, blockString_append hs]

theorem cells_of_get (hget : m.get a = some (.pointers cells)) :
    m.cells (some { block := a }) = some cells := by
  simp [Memory.cells, hget]

theorem cell_of_extends {q : Option Pointer} (hm : m.Extends m')
    (hcell : m.cell array i = some q) : m'.cell array i = some q := by
  obtain ⟨cells, hcells, hq⟩ := Option.bind_eq_some_iff.mp hcell
  exact Option.bind_eq_some_iff.mpr ⟨cells, cells_of_extends hm hcells, hq⟩

theorem cell_of_cells (hcells : m.cells array = some cells) (i : ℕ) :
    m.cell array i = cells[i]? := by
  rw [cell, hcells, Option.bind_some]

theorem setCell_cases (hblock : m.block a = some (o, .pointers cells))
    (hset : m.setCell (some { block := a }) i p = some m') :
    i < cells.length ∧ m.store a (.pointers (cells.set i p)) = some m' ∧
      m'.block a = some (o, .pointers (cells.set i p)) := by
  have hget : m.get a = some (.pointers cells) := by rw [Heap.get, hblock, Option.map_some]
  simp only [setCell, Option.bind_some, hget, Nat.zero_add, Option.ite_none_right_eq_some] at hset
  obtain ⟨hlt, hstore⟩ := hset
  obtain ⟨b, hb, hupdate⟩ := Heap.block_of_store hstore
  obtain rfl : b = (o, .pointers cells) := Option.some.inj (hb.symm.trans hblock)
  exact ⟨hlt, hstore, by rw [hupdate, Function.update_self]⟩

theorem exists_setCell (hblock : m.block a = some (o, .pointers cells)) (hi : i < cells.length)
    (p : Option Pointer) : ∃ m', m.setCell (some { block := a }) i p = some m' := by
  have hget : m.get a = some (.pointers cells) := by rw [Heap.get, hblock, Option.map_some]
  simp [setCell, hget, hi, Heap.store, hblock]

theorem isCString_of_string (hs : m.string p = some s) : IsCString s := by
  obtain ⟨q, -, hq⟩ := Option.bind_eq_some_iff.mp hs
  split at hq
  · rw [Option.ite_none_right_eq_some] at hq
    obtain rfl := Option.some.inj hq.2
    intro hzero
    have hne := List.mem_takeWhile_imp hzero
    exact absurd hne (by decide)
  · cases hq

/-- What is read of an array at a pointer that is not NULL. -/
theorem exists_of_stringArray {q : Pointer} {strings : Option (List CString)}
    (h : m.stringArray (some q) = some strings) :
    ∃ (ps : List Pointer) (ss : List CString) (rest : List (Option Pointer)),
      strings = some ss ∧ m.cells (some q) = some (ps.map some ++ none :: rest) ∧
      ps.map (fun p ↦ m.string (some p)) = ss.map some ∧ ps.length = ss.length := by
  obtain ⟨ss, hss, rfl⟩ := Option.map_eq_some_iff.mp h
  obtain ⟨ps, hps, hmap⟩ := Option.bind_eq_some_iff.mp hss
  obtain ⟨cells, hcells, hentries⟩ := Option.bind_eq_some_iff.mp hps
  obtain ⟨rest, rfl⟩ := entries_eq_some.mp hentries
  have hstrings := OptionLoop.mapM_eq_some_iff.mp hmap
  exact ⟨ps, ss, rest, rfl, hcells, hstrings, by simpa using congrArg List.length hstrings⟩

theorem string_drop {q : Pointer} {k : ℕ} (hs : m.string (some q) = some s)
    (hk : k ≤ s.length) :
    m.string (some { q with offset := q.offset + k }) = some (s.drop k) := by
  rw [string, Option.bind_some] at hs
  split at hs
  · next bytes hget =>
    rw [Option.ite_none_right_eq_some] at hs
    obtain ⟨hzero, hs⟩ := hs
    obtain ⟨t, rest, hbytes, ht⟩ := List.eq_append_cons_of_mem hzero
    rw [hbytes, blockString_append ht] at hs
    obtain rfl := Option.some.inj hs
    have hdrop : bytes.drop (q.offset + k) = t.drop k ++ 0 :: rest := by
      rw [← List.drop_drop, hbytes, List.drop_append_of_le_length hk]
    have hnoNul : IsCString (t.drop k) := fun hmem ↦ ht (List.mem_of_mem_drop hmem)
    rw [string, Option.bind_some, hget]
    dsimp only
    rw [hdrop, if_pos (by simp), blockString_append hnoNul]
  · cases hs

/-- Each string of an array is behind its cell. -/
theorem exists_of_getElem {strings : Option (List CString)} (h : m.stringArray p = some strings)
    {j : ℕ} (hj : (strings.getD [])[j]? = some s) :
    ∃ q, m.cell p j = some (some q) ∧ m.string (some q) = some s := by
  cases p with
  | none =>
      obtain rfl := Option.some.inj h
      cases hj
  | some p =>
      obtain ⟨ps, ss, rest, rfl, hcells, hstrings, -⟩ := exists_of_stringArray h
      obtain ⟨q, hq, hs⟩ : ∃ q, ps[j]? = some q ∧ m.string (some q) = some s := by
        have hget := congrArg (·[j]?) hstrings
        simpa [show ss[j]? = some s from hj] using hget
      have hlt : j < (ps.map some).length := by
        rw [List.length_map]
        exact (List.getElem?_eq_some_iff.mp hq).1
      refine ⟨q, ?_, hs⟩
      rw [cell_of_cells hcells, List.getElem?_append_left hlt, List.getElem?_map, hq,
        Option.map_some]

theorem cell_length_of_stringArray {strings : List CString}
    (h : m.stringArray p = some (some strings)) : m.cell p strings.length = some none := by
  cases p with
  | none => cases h
  | some p =>
      obtain ⟨ps, ss, rest, hss, hcells, -, hlength⟩ := exists_of_stringArray h
      obtain rfl := Option.some.inj hss
      rw [cell_of_cells hcells, ← hlength, ← List.length_map some,
        List.getElem?_append_right le_rfl, Nat.sub_self]
      rfl

theorem stringArray_of_extends {strings : Option (List CString)} (hm : m.Extends m')
    (h : m.stringArray p = some strings) : m'.stringArray p = some strings := by
  cases p with
  | none => exact h
  | some p =>
      obtain ⟨ps, ss, rest, rfl, hcells, hstrings, -⟩ := exists_of_stringArray h
      have hsame : ps.map (fun q ↦ m'.string (some q)) = ss.map some := by
        rw [← hstrings]
        refine List.map_congr_left fun q hq ↦ ?_
        obtain ⟨s, -, hs⟩ := List.mem_map.mp (hstrings ▸ List.mem_map_of_mem hq)
        rw [← hs, string_of_extends hm hs.symm]
      rw [stringArray, Memory.strings, cells_of_extends hm hcells, Option.bind_some,
        entries_eq_some.mpr ⟨rest, rfl⟩, Option.bind_some, OptionLoop.mapM_eq_some_iff.mpr hsame,
        Option.map_some]

theorem strings_of_get (hget : m.get a = some (.pointers ((pointersTo copies).map some ++ [none])))
    (hstrings : m.Owns o (stringBlocks copies)) (h : ∀ e ∈ copies, IsCString e.2) :
    m.strings (some { block := a }) = some (copies.map Prod.snd) := by
  have hentries : entries ((pointersTo copies).map some ++ [none]) = some (pointersTo copies) :=
    entries_eq_some.mpr ⟨[], rfl⟩
  rw [strings, cells_of_get hget, Option.bind_some, hentries, Option.bind_some,
    OptionLoop.mapM_eq_some_iff, pointersTo, List.map_map, List.map_map]
  refine List.map_congr_left fun e he ↦ string_of_get (hstrings.get ?_) (h e he)
  exact List.mem_map.mpr ⟨e, he, rfl⟩

end Memory

theorem Built.stringArray {ω : Type} {m : Memory ω} {o : ω} {p : Option Pointer}
    {strings : Option (List CString)} {F : List (ℕ × Object)} (h : Built p strings F)
    (hF : m.Owns o F) : m.stringArray p = some strings := by
  cases h with
  | null => rfl
  | array a copies h =>
      obtain ⟨harray, hstrings⟩ := Heap.Owns.cons_iff.mp hF
      rw [Memory.stringArray, Memory.strings_of_get (hF.get List.mem_cons_self) hstrings h,
        Option.map_some]

/-- The strings of an array that has been built, with the blocks that its cells point to. -/
theorem Built.exists_copies {ω : Type} {m : Memory ω} {o : ω} {p : Option Pointer}
    {strings : Option (List CString)} {F : List (ℕ × Object)} (h : Built p strings F)
    (hF : m.Owns o F) :
    ∃ copies : List (ℕ × CString), copies.map Prod.snd = strings.getD [] ∧
      m.Owns o (stringBlocks copies) ∧ (∀ e ∈ copies, IsCString e.2) ∧
      ∀ (j : ℕ) (e : ℕ × CString), copies[j]? = some e →
        m.cell p j = some (some { block := e.1 }) := by
  cases h with
  | null => exact ⟨[], rfl, .nil, by simp, by simp⟩
  | array a copies h =>
      obtain ⟨harray, hstrings⟩ := Heap.Owns.cons_iff.mp hF
      refine ⟨copies, rfl, hstrings, h, fun j e he ↦ ?_⟩
      have hlt : j < ((pointersTo copies).map some).length := by
        simpa [pointersTo] using (List.getElem?_eq_some_iff.mp he).1
      rw [Memory.cell_of_cells (Memory.cells_of_get (hF.get List.mem_cons_self)),
        List.getElem?_append_left hlt]
      simp [pointersTo, he]

namespace Libc

variable {ω : Type} {libc : Libc ω} {m m' : Memory ω} {p dst : Option Pointer} {s : CString}
  {n : ℕ} {x : Object}

/-- A new block, when there is one, holds what is put there. -/
theorem malloc_cases (hmalloc : libc.malloc n x m = (p, m')) :
    m.Extends m' ∧ (p = none ∨ ∃ a, p = some { block := a } ∧ m.block a = none ∧
      m'.block a = some (libc.owner, x)) := by
  obtain ⟨rfl, rfl⟩ := Prod.mk.inj hmalloc
  refine ⟨Heap.extends_malloc _ _ _ _ m, ?_⟩
  rcases hr : Heap.malloc libc.allocator libc.owner n x m with ⟨_ | a, m'⟩
  · exact .inl rfl
  · obtain ⟨hfree, hblock⟩ := Heap.block_of_malloc hr
    exact .inr ⟨a, rfl, hfree, by rw [hblock, Function.update_self]⟩

theorem strdup_cases (hdup : libc.strdup p m = some (dst, m')) (hs : m.string p = some s) :
    m.Extends m' ∧ (dst = none ∨ ∃ a, dst = some { block := a } ∧ m.block a = none ∧
      m'.block a = some (libc.owner, .chars (s ++ [0]))) := by
  rw [strdup, hs, Option.map_some, Option.some.injEq] at hdup
  exact malloc_cases hdup

theorem extends_strdup (hdup : libc.strdup p m = some (dst, m')) : m.Extends m' := by
  obtain ⟨s, hs, -⟩ := Option.map_eq_some_iff.mp hdup
  exact (strdup_cases hdup hs).1

theorem capacity_le (libc : Libc ω) (n : ℕ) :
    n * libc.pointerSize % 2 ^ libc.sizeBits / libc.pointerSize ≤ n := by
  refine Nat.div_le_of_le_mul ?_
  rw [Nat.mul_comm libc.pointerSize n]
  exact Nat.mod_le _ _

def HasRoom (libc : Libc ω) : Prop := ∀ m n, (libc.allocator.place m n).isSome = true

/-- An array of so many pointers has a size. -/
def Fits (libc : Libc ω) (n : ℕ) : Prop :=
  0 < libc.pointerSize ∧ n * libc.pointerSize < 2 ^ libc.sizeBits

theorem exists_malloc (hroom : libc.HasRoom) (n : ℕ) (x : Object) (m : Memory ω) :
    ∃ a m', libc.malloc n x m = (some { block := a }, m') := by
  obtain ⟨a, ha⟩ := Option.isSome_iff_exists.mp (hroom m n)
  exact ⟨a, _, by rw [malloc, Heap.malloc, ha]; rfl⟩

theorem exists_strdup (hroom : libc.HasRoom) (hs : m.string p = some s) :
    ∃ q m', libc.strdup p m = some (some q, m') := by
  obtain ⟨a, m', hmalloc⟩ := exists_malloc hroom (s.length + 1) (.chars (s ++ [0])) m
  exact ⟨{ block := a }, m', by rw [strdup, hs, Option.map_some, hmalloc]⟩

theorem Fits.mono {n' : ℕ} (h : libc.Fits n) (hle : n' ≤ n) : libc.Fits n' :=
  ⟨h.1, (Nat.mul_le_mul_right _ hle).trans_lt h.2⟩

theorem capacity_of_fits (h : libc.Fits n) :
    n * libc.pointerSize % 2 ^ libc.sizeBits / libc.pointerSize = n := by
  rw [Nat.mod_eq_of_lt h.2, Nat.mul_div_cancel n h.1]

end Libc

end OcreRuntime
