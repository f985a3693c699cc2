import Mathlib.Algebra.Ring.Int.Defs
import Mathlib.Algebra.Ring.Nat
import OcreRuntime.Container.Model
import OcreRuntime.Lib.Portions

/-!
# Loading a file

The three implementations of `ocre_load_file`, of which a platform has one. They differ in how
the contents come into the buffer: by `mmap`, by one call of `read`, or by `fread`, which reads
until it has enough. What `close` and `fclose` return is only logged.
-/

namespace OcreRuntime

/-- What the calls on a regular file return while it is loaded. `w` is the number of bits of
`size_t`, and `read` returns its count as an `ssize_t`. -/
structure LoadCalls (w : ℕ) (contents : List UInt8) where
  opened : Bool := true
  fileno : Bool := true
  fstat : Bool := true
  mapped : Bool := true
  userMalloc : Bool := true
  reads : Portions contents
  lt_ssize : ∀ i position n, reads.deliver i position n < 2 ^ (w - 1)
  /-- A read fails, for `fread` after so many bytes. -/
  readError : Option ℕ := none
  /-- How much `fread` asks for when it wants so many bytes. -/
  request : ℕ → ℕ → ℕ := fun _ n ↦ n
  request_pos : ∀ i n, 0 < n → 0 < request i n

/-- The pointer that is returned, with what is behind it, and `*size` afterwards. -/
structure LoadResult where
  buffer : Option (List UInt8)
  size : ℕ
  deriving DecidableEq

namespace LoadCalls

variable {w : ℕ} {contents : List UInt8} (calls : LoadCalls w contents)

/-- `st_size` as a `size_t`. -/
def fileSize (_ : LoadCalls w contents) : ℕ := contents.length % 2 ^ w

/-- `st_size` as an `ssize_t`. -/
def signedFileSize (_ : LoadCalls w contents) : Int := (contents.length : Int).bmod (2 ^ w)

/-- The first bytes of the file, of which there are some. -/
def mmap (length : ℕ) : Option (List UInt8) :=
  if length = 0 ∨ ¬ calls.mapped then none else some (contents.take length)

/-- One call of `read`, with what it leaves in a buffer of this size that was zero before. -/
def read (size : ℕ) : Int × List UInt8 :=
  if calls.readError.isSome then (-1, List.replicate size 0)
  else
    let n := calls.reads.deliver 0 0 size
    (n, contents.take n ++ List.replicate (size - n) 0)

/-- The bytes that `fread` reads. -/
def fread (size : ℕ) : List UInt8 :=
  let bytes := calls.reads.collect calls.request size 0 0 size
  match calls.readError with
  | none => bytes
  | some n => bytes.take n

end LoadCalls

section Loaders

variable {w : ℕ} {contents : List UInt8} (calls : LoadCalls w contents) (path : Option CString)
  (size : ℕ)

/-- `ocre_load_file` of `file_mmap.c`. -/
def FileMmap.ocreLoadFile : LoadResult :=
  if path.isNone ∨ ¬ calls.opened ∨ ¬ calls.fileno ∨ ¬ calls.fstat then ⟨none, size⟩
  else match calls.mmap calls.fileSize with
    | none => ⟨none, size⟩
    | some buffer => ⟨some buffer, calls.fileSize⟩

/-- `ocre_load_file` of `file_alloc_read.c`. -/
def FileAllocRead.ocreLoadFile : LoadResult :=
  if path.isNone ∨ ¬ calls.opened ∨ ¬ calls.fstat then ⟨none, size⟩
  else
    let fileSize := calls.signedFileSize
    if fileSize = 0 then ⟨none, size⟩
    else if ¬ calls.userMalloc then ⟨none, size⟩
    else
      let r := calls.read (fileSize % 2 ^ w).toNat
      if r.1 ≠ fileSize then ⟨none, size⟩ else ⟨some r.2, (fileSize % 2 ^ w).toNat⟩

/-- `ocre_load_file` of `file_alloc_fread.c`. -/
def FileAllocFread.ocreLoadFile : LoadResult :=
  if path.isNone ∨ ¬ calls.opened ∨ ¬ calls.fileno ∨ ¬ calls.fstat then ⟨none, size⟩
  else if calls.fileSize = 0 then ⟨none, size⟩
  else if ¬ calls.userMalloc then ⟨none, size⟩
  else
    let bytes := calls.fread calls.fileSize
    if bytes.length ≠ calls.fileSize then ⟨none, size⟩ else ⟨some bytes, calls.fileSize⟩

end Loaders

/-- The calls on the file succeed, and no read fails. -/
structure LoadCalls.Succeed {w : ℕ} {contents : List UInt8} (calls : LoadCalls w contents) :
    Prop where
  opened : calls.opened = true
  fileno : calls.fileno = true
  fstat : calls.fstat = true
  readError : calls.readError = none

/-- NULL for an empty file, and a buffer with the contents for any other one. -/
def Loads (contents : List UInt8) (size : ℕ) (r : LoadResult) : Prop :=
  if contents = [] then r = ⟨none, size⟩
  else r.size = contents.length ∧ ∃ buffer, r.buffer = some buffer ∧
    buffer.take r.size = contents

variable {w : ℕ} {contents : List UInt8} {calls : LoadCalls w contents} {path : CString}
  {size : ℕ}

theorem loads_of_nil : Loads [] size ⟨none, size⟩ := rfl

theorem not_loads_null (h : contents ≠ []) : ¬ Loads contents size ⟨none, size⟩ := by
  rw [Loads, if_neg h]
  rintro ⟨-, buffer, hnone, -⟩
  cases hnone

theorem loads_take_iff (h : contents ≠ []) {n : ℕ} :
    Loads contents size ⟨some (contents.take n), n⟩ ↔ n = contents.length := by
  rw [Loads, if_neg h]
  constructor
  · exact And.left
  · rintro rfl
    exact ⟨rfl, _, rfl, by simp⟩

theorem LoadCalls.fileSize_eq_length_iff (calls : LoadCalls w contents) :
    calls.fileSize = contents.length ↔ contents.length < 2 ^ w :=
  Nat.mod_eq_iff_lt (Nat.two_pow_pos w).ne'

theorem LoadCalls.fileSize_nil (calls : LoadCalls w []) : calls.fileSize = 0 := Nat.zero_mod _

/-- What is loaded of `st_size` bytes when there is memory for them. -/
theorem loads_prefix_iff (calls : LoadCalls w contents) (memory : Bool) :
    Loads contents size (if calls.fileSize = 0 ∨ ¬ memory then ⟨none, size⟩
        else ⟨some (contents.take calls.fileSize), calls.fileSize⟩) ↔
      contents = [] ∨ contents.length < 2 ^ w ∧ memory = true := by
  by_cases hnil : contents = []
  · subst hnil
    rw [if_pos (.inl calls.fileSize_nil)]
    exact iff_of_true loads_of_nil (.inl rfl)
  · rw [← calls.fileSize_eq_length_iff, or_iff_right hnil]
    have hlength : contents.length ≠ 0 := by simpa using hnil
    split_ifs with hfails
    · refine iff_of_false (not_loads_null hnil) ?_
      rintro ⟨hsize, hmemory⟩
      rcases hfails with hzero | hnot
      · exact hlength (hsize ▸ hzero)
      · exact hnot hmemory
    · rw [not_or, not_not] at hfails
      rw [and_iff_left hfails.2]
      exact loads_take_iff hnil

theorem FileMmap.loads_iff (h : calls.Succeed) (path : CString) (size : ℕ) :
    Loads contents size (ocreLoadFile calls (some path) size) ↔
      contents = [] ∨ contents.length < 2 ^ w ∧ calls.mapped = true := by
  rw [← loads_prefix_iff calls calls.mapped]
  have hload : ocreLoadFile calls (some path) size =
      if calls.fileSize = 0 ∨ ¬ calls.mapped then ⟨none, size⟩
      else ⟨some (contents.take calls.fileSize), calls.fileSize⟩ := by
    simp only [ocreLoadFile, h.opened, h.fileno, h.fstat, LoadCalls.mmap]
    split_ifs <;> simp_all
  rw [hload]

theorem LoadCalls.fread_eq (h : calls.Succeed) (n : ℕ) : calls.fread n = contents.take n := by
  rw [fread, h.readError, calls.reads.collect_eq calls.request calls.request_pos 0 0 le_rfl]
  rfl

/-- However the reads are split, `fread` loads the file. -/
theorem FileAllocFread.loads_iff (h : calls.Succeed) (path : CString) (size : ℕ) :
    Loads contents size (ocreLoadFile calls (some path) size) ↔
      contents = [] ∨ contents.length < 2 ^ w ∧ calls.userMalloc = true := by
  rw [← loads_prefix_iff calls calls.userMalloc]
  have hfull : (contents.take calls.fileSize).length = calls.fileSize :=
    List.length_take_of_le (Nat.mod_le _ _)
  have hload : ocreLoadFile calls (some path) size =
      if calls.fileSize = 0 ∨ ¬ calls.userMalloc then ⟨none, size⟩
      else ⟨some (contents.take calls.fileSize), calls.fileSize⟩ := by
    simp only [ocreLoadFile, h.opened, h.fileno, h.fstat, calls.fread_eq h, hfull]
    split_ifs <;> simp_all
  rw [hload]

theorem LoadCalls.read_eq (h : calls.Succeed) (n : ℕ) :
    calls.read n = ((calls.reads.deliver 0 0 n : Int),
      contents.take (calls.reads.deliver 0 0 n) ++
        List.replicate (n - calls.reads.deliver 0 0 n) 0) := by
  simp [read, h.readError]

theorem LoadCalls.signedFileSize_emod (calls : LoadCalls w contents) :
    (calls.signedFileSize % 2 ^ w).toNat = calls.fileSize := by
  have hpow : (2 : Int) ^ w = (2 ^ w : ℕ) := by norm_cast
  rw [signedFileSize, hpow, Int.bmod_emod, ← Int.natCast_emod, Int.toNat_natCast, fileSize]

theorem LoadCalls.fileSize_of_lt (calls : LoadCalls w contents) (hnil : contents ≠ [])
    (h : contents.length < 2 ^ (w - 1)) :
    calls.fileSize = contents.length ∧ calls.signedFileSize = contents.length := by
  have hpos := List.length_pos_iff.mpr hnil
  obtain ⟨k, rfl⟩ : ∃ k, w = k + 1 := by
    refine Nat.exists_eq_succ_of_ne_zero ?_
    rintro rfl
    simp only [Nat.zero_sub, Nat.pow_zero] at h
    omega
  rw [Nat.add_sub_cancel] at h
  have hpow : 2 ^ (k + 1) = 2 * 2 ^ k := by rw [Nat.pow_succ, Nat.mul_comm]
  refine ⟨Nat.mod_eq_of_lt (by omega), ?_⟩
  rw [signedFileSize, hpow]
  exact Int.bmod_eq_of_le_mul_two (by omega) (by omega)

/-- What one `read` has delivered is the size of the file, as the code compares them, only if
that is what was asked for. -/
theorem LoadCalls.eq_fileSize (calls : LoadCalls w contents) {n : ℕ}
    (hn : n = calls.reads.deliver 0 0 calls.fileSize) (h : (n : Int) = calls.signedFileSize) :
    n = calls.fileSize := by
  have hlt : n < 2 ^ w := by
    rw [hn]
    exact (calls.lt_ssize _ _ _).trans_le (Nat.pow_le_pow_right Nat.two_pos (Nat.sub_le w 1))
  have hpow : (2 : Int) ^ w = (2 ^ w : ℕ) := by norm_cast
  rw [← calls.signedFileSize_emod, ← h, hpow, ← Int.natCast_emod, Int.toNat_natCast,
    Nat.mod_eq_of_lt hlt]

/-- One call of `read` loads the file only when it delivers all of it. -/
theorem FileAllocRead.loads_iff (h : calls.Succeed) (path : CString) (size : ℕ) :
    Loads contents size (ocreLoadFile calls (some path) size) ↔
      contents = [] ∨ calls.userMalloc = true ∧
        calls.reads.deliver 0 0 contents.length = contents.length := by
  by_cases hnil : contents = []
  · subst hnil
    have hload : ocreLoadFile calls (some path) size = ⟨none, size⟩ := by
      simp [ocreLoadFile, LoadCalls.signedFileSize]
    rw [hload]
    exact iff_of_true loads_of_nil (.inl rfl)
  rw [or_iff_right hnil]
  obtain ⟨n, hn⟩ : ∃ n, n = calls.reads.deliver 0 0 calls.fileSize := ⟨_, rfl⟩
  have hload : ocreLoadFile calls (some path) size =
      if calls.signedFileSize = 0 ∨ ¬ calls.userMalloc ∨ (n : Int) ≠ calls.signedFileSize then
        ⟨none, size⟩
      else ⟨some (contents.take n ++ List.replicate (calls.fileSize - n) 0), calls.fileSize⟩ := by
    simp only [ocreLoadFile, h.opened, h.fstat, calls.signedFileSize_emod, calls.read_eq h, ← hn]
    split_ifs <;> simp_all
  have hall (hdelivered : calls.reads.deliver 0 0 contents.length = contents.length) :
      calls.fileSize = contents.length ∧ calls.signedFileSize = contents.length ∧
        n = contents.length := by
    have hlt := calls.lt_ssize 0 0 contents.length
    rw [hdelivered] at hlt
    obtain ⟨hsize, hsigned⟩ := calls.fileSize_of_lt hnil hlt
    exact ⟨hsize, hsigned, by rw [hn, hsize, hdelivered]⟩
  rw [hload]
  split_ifs with hfails
  · refine iff_of_false (not_loads_null hnil) ?_
    rintro ⟨hmalloc, hdelivered⟩
    obtain ⟨-, hsigned, hcount⟩ := hall hdelivered
    have hlength : contents.length ≠ 0 := by simpa using hnil
    rcases hfails with hzero | hnot | hne
    · exact hlength (by omega)
    · exact hnot hmalloc
    · exact hne (by rw [hcount, hsigned])
  · simp only [not_or, not_not] at hfails
    obtain ⟨-, hmalloc, hcount⟩ := hfails
    have hsize := calls.eq_fileSize hn hcount
    rw [← hsize, Nat.sub_self, List.replicate_zero, List.append_nil, loads_take_iff hnil,
      and_iff_right hmalloc]
    constructor
    · intro hlength
      rw [← hlength, hsize, ← hn, hsize]
    · exact fun hdelivered ↦ (hall hdelivered).2.2

/-- The three implementations give what the contents ask for. -/
def LoadersAgree (calls calls' calls'' : LoadCalls w contents) (path : CString) (size : ℕ) :
    Prop :=
  Loads contents size (FileMmap.ocreLoadFile calls (some path) size) ∧
    Loads contents size (FileAllocRead.ocreLoadFile calls' (some path) size) ∧
    Loads contents size (FileAllocFread.ocreLoadFile calls'' (some path) size)

/-- Where there is memory for the file, the implementations agree exactly if the file is empty
or the first call of `read` delivers all of it. -/
theorem loadersAgree_iff {calls calls' calls'' : LoadCalls w contents} (h : calls.Succeed)
    (h' : calls'.Succeed) (h'' : calls''.Succeed) (path : CString) (size : ℕ) :
    LoadersAgree calls calls' calls'' path size ↔
      contents = [] ∨
        (calls.mapped = true ∧ calls'.userMalloc = true ∧ calls''.userMalloc = true) ∧
          calls'.reads.deliver 0 0 contents.length = contents.length := by
  rw [LoadersAgree, FileMmap.loads_iff h, FileAllocRead.loads_iff h', FileAllocFread.loads_iff h'']
  by_cases hnil : contents = []
  · simp [hnil]
  have hlt : calls'.reads.deliver 0 0 contents.length = contents.length →
      contents.length < 2 ^ w := by
    intro hdelivered
    have hssize := calls'.lt_ssize 0 0 contents.length
    rw [hdelivered] at hssize
    exact hssize.trans_le (Nat.pow_le_pow_right Nat.two_pos (Nat.sub_le w 1))
  simp only [hnil, false_or]
  tauto

/-- Calls that all succeed, with reads that are split in a given way. -/
def LoadCalls.ofReads (reads : Portions contents) (h : contents.length < 2 ^ (w - 1)) :
    LoadCalls w contents where
  reads := reads
  lt_ssize i position n := (reads.le_rest i position n).trans_lt (by omega)
  request_pos _ _ h := h

theorem LoadCalls.succeed_ofReads (reads : Portions contents)
    (h : contents.length < 2 ^ (w - 1)) : (ofReads reads h).Succeed := ⟨rfl, rfl, rfl, rfl⟩

/-- The first bytes of every module. -/
def wasmMagic : List UInt8 := [0, 97, 115, 109]

/-- On a 64-bit system, with reads that deliver all that is asked for. -/
def wholeReads : LoadCalls 64 wasmMagic := .ofReads (.whole wasmMagic) (by decide)

/-- With reads that deliver one byte at a time. -/
def singleReads : LoadCalls 64 wasmMagic := .ofReads (.single wasmMagic) (by decide)

theorem loadersAgree_wholeReads :
    LoadersAgree wholeReads wholeReads singleReads (cstring "/a.wasm") 7 :=
  (loadersAgree_iff (LoadCalls.succeed_ofReads _ _) (LoadCalls.succeed_ofReads _ _)
    (LoadCalls.succeed_ofReads _ _) (cstring "/a.wasm") 7).mpr (.inr (by decide))

/-- The first `read` delivers one byte of four, and only `fread` asks again. -/
theorem not_loadersAgree_singleReads :
    FileMmap.ocreLoadFile singleReads (some (cstring "/a.wasm")) 7 = ⟨some wasmMagic, 4⟩ ∧
      FileAllocFread.ocreLoadFile singleReads (some (cstring "/a.wasm")) 7 =
        ⟨some wasmMagic, 4⟩ ∧
      FileAllocRead.ocreLoadFile singleReads (some (cstring "/a.wasm")) 7 = ⟨none, 7⟩ ∧
      ¬ LoadersAgree singleReads singleReads singleReads (cstring "/a.wasm") 7 := by
  refine ⟨by decide, by decide, by decide, fun h ↦ ?_⟩
  have hread := (FileAllocRead.loads_iff (LoadCalls.succeed_ofReads _ _) _ _).mp h.2.1
  revert hread
  decide

end OcreRuntime
