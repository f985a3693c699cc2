import OcreRuntime.Container.Model
import OcreRuntime.Lib.Portions
import OcreRuntime.Shell.Sha256

/-!
# The hash of a file

`sha256_file` reads a file in portions of at most 1024 bytes and gives the hash as text. The
text is that of the whole file, however the reads are split. A file that could not be hashed
leaves the text as it was.
-/

namespace OcreRuntime

section Hex

/-- `lut` of `bin_to_hex`. -/
def hexLut : CString := cstring "0123456789abcdef"

def binToHex (data : List UInt8) : CString :=
  data.flatMap fun c : UInt8 ↦ [hexLut.getD (c >>> 4).toNat 0, hexLut.getD (c &&& 15).toNat 0]

/-- The value of a digit. -/
def hexValue (c : UInt8) : Option UInt8 :=
  if 48 ≤ c ∧ c ≤ 57 then some (c - 48) else if 97 ≤ c ∧ c ≤ 102 then some (c - 87) else none

/-- The bytes that a text stands for, two digits a byte. -/
def hexToBin : CString → Option (List UInt8)
  | [] => some []
  | [_] => none
  | high :: low :: text => do
      let high ← hexValue high
      let low ← hexValue low
      let data ← hexToBin text
      some ((high <<< 4 ||| low) :: data)

theorem hexValue_digits (c : UInt8) :
    ∃ high low, hexValue (hexLut.getD (c >>> 4).toNat 0) = some high ∧
      hexValue (hexLut.getD (c &&& 15).toNat 0) = some low ∧ high <<< 4 ||| low = c := by
  have hall : ∀ n < 256,
      hexValue (hexLut.getD (UInt8.ofNat n >>> 4).toNat 0) = some (UInt8.ofNat n >>> 4) ∧
        hexValue (hexLut.getD (UInt8.ofNat n &&& 15).toNat 0) = some (UInt8.ofNat n &&& 15) ∧
        (UInt8.ofNat n >>> 4) <<< 4 ||| (UInt8.ofNat n &&& 15) = UInt8.ofNat n := by
    decide +kernel
  have hc := hall c.toNat c.toNat_lt
  rw [UInt8.ofNat_toNat] at hc
  exact ⟨_, _, hc⟩

/-- The text determines the bytes. -/
theorem hexToBin_binToHex (data : List UInt8) : hexToBin (binToHex data) = some data := by
  induction data with
  | nil => rfl
  | cons c data ih =>
      obtain ⟨high, low, hhigh, hlow, hc⟩ := hexValue_digits c
      rw [binToHex, List.flatMap_cons, ← binToHex, List.cons_append, List.cons_append,
        List.nil_append, hexToBin, hhigh, hlow, ih]
      exact congrArg (fun c ↦ some (c :: data)) hc

theorem length_binToHex (data : List UInt8) : (binToHex data).length = 2 * data.length := by
  induction data with
  | nil => rfl
  | cons c data ih =>
      rw [binToHex, List.flatMap_cons, List.length_append, ← binToHex, ih, Nat.add_comm]
      rfl

theorem ne_zero_of_mem_binToHex {data : List UInt8} {c : UInt8} (h : c ∈ binToHex data) :
    c ≠ 0 := by
  have hdigit : ∀ n < 16, hexLut.getD n 0 ≠ 0 := by decide
  obtain ⟨b, -, hc⟩ := List.mem_flatMap.mp h
  have hhigh : (b >>> 4).toNat < 16 := by
    rw [UInt8.toNat_shiftRight, Nat.shiftRight_eq_div_pow]
    have hb := b.toNat_lt
    change _ / 2 ^ 4 < 16
    omega
  have hlow : (b &&& 15).toNat < 16 := by
    rw [UInt8.toNat_and]
    exact Nat.and_lt_two_pow _ (show 15 < 2 ^ 4 by decide)
  rcases List.mem_pair.mp hc with rfl | rfl
  · exact hdigit _ hhigh
  · exact hdigit _ hlow

theorem length_binToHex_digest (data : List UInt8) : (binToHex (Sha2.digest data)).length = 64 := by
  rw [length_binToHex, Sha2.length_digest]

end Hex

/-- What the calls on a file return while it is hashed. A read may fail, the one with this
number. -/
structure HashCalls (contents : List UInt8) where
  opened : Bool := true
  fstat : Bool := true
  malloc : Bool := true
  reads : Portions contents
  readError : Option ℕ := none

namespace HashCalls

variable {contents : List UInt8} (calls : HashCalls contents)

/-- `FILE_BUFFER_SIZE` of `sha256_file.c`. -/
def bufferSize : ℕ := 1024

/-- The bytes that a read delivers from a position on. -/
def read (i position : ℕ) : List UInt8 :=
  (contents.drop position).take (calls.reads.deliver i position bufferSize)

/-- The loop of `sha256_file`, with no buffer when a read has failed. -/
def readLoop (width : ℕ) : ℕ → ℕ → ℕ → Sha256Buff → Option (Option Sha256Buff)
  | 0, _, total, buff => if total < contents.length then none else some (some buff)
  | fuel + 1, i, total, buff =>
      if total < contents.length then
        if calls.readError = some i then some none
        else if (calls.read i total).length = 0 then some (some buff)
        else do
          let buff ← Sha256.update width buff (calls.read i total)
          readLoop width fuel (i + 1) (total + (calls.read i total).length) buff
      else some (some buff)

end HashCalls

section Sha256File

variable {contents : List UInt8}

/-- The end of `sha256_file` after the loop. The text takes 64 bytes. -/
def hashResult (text : CString) : Option Sha256Buff → Option (Int × Option CString)
  | none => some (-1, some text)
  | some buff => do
      let buff ← Sha256.finalize buff
      if text.length < 64 then none
      else some (0, some (binToHex (Sha256.read buff) ++ text.drop 64))

/-- `sha256_file`, with what is returned and what is behind `hash` afterwards. The buffer on the
stack holds anything. The loop has a round for each byte at most. -/
def sha256File (width : ℕ) (path hash : Option CString) (calls : HashCalls contents)
    (buff : Sha256Buff) : Option (Int × Option CString) :=
  match path, hash with
  | some _, some text =>
      if ¬ calls.opened then some (-2, some text)
      else if ¬ calls.fstat then some (-1, some text)
      else if contents.length = 0 then some (-1, some text)
      else if ¬ calls.malloc then some (-1, some text)
      else do
        let read ← calls.readLoop width contents.length 0 0 (Sha256.init buff)
        hashResult text read
  | _, _ => some (-1, hash)

namespace HashCalls

variable (calls : HashCalls contents)

/-- The reads that are made of a file when none fails. -/
def pieces : List (List UInt8) := calls.reads.pieces bufferSize contents.length 0 0

/-- One of so many reads fails, which are numbered from `i` on. -/
def FailsFrom (i n : ℕ) : Prop := ∃ j < n, calls.readError = some (i + j)

/-- One of the reads of the file fails. -/
def Fails : Prop := calls.FailsFrom 0 calls.pieces.length

variable {calls} {width : ℕ}

theorem not_failsFrom_zero (i : ℕ) : ¬ calls.FailsFrom i 0 := by
  rintro ⟨j, hj, -⟩
  exact Nat.not_lt_zero j hj

theorem failsFrom_succ {i n : ℕ} :
    calls.FailsFrom i (n + 1) ↔ calls.readError = some i ∨ calls.FailsFrom (i + 1) n := by
  constructor
  · rintro ⟨j, hj, herror⟩
    cases j with
    | zero => exact .inl herror
    | succ j => exact .inr ⟨j, Nat.lt_of_succ_lt_succ hj, by rw [herror]; congr 1; omega⟩
  · rintro (herror | ⟨j, hj, herror⟩)
    · exact ⟨0, Nat.succ_pos n, herror⟩
    · exact ⟨j + 1, Nat.succ_lt_succ hj, by rw [herror]; congr 1; omega⟩

/-- A read in front of the end delivers what was asked of the source, which is not nothing. -/
theorem length_read (calls : HashCalls contents) (i : ℕ) {total : ℕ}
    (hmore : total < contents.length) :
    (calls.read i total).length = calls.reads.deliver i total bufferSize ∧
      0 < (calls.read i total).length := by
  have hle := calls.reads.le_rest i total bufferSize
  have hlength : (calls.read i total).length = calls.reads.deliver i total bufferSize := by
    rw [read, List.length_take, List.length_drop, Nat.min_eq_left hle]
  exact ⟨hlength, hlength ▸ calls.reads.pos i total bufferSize (by decide) hmore⟩

theorem readLoop_of_le {fuel i total : ℕ} {buff : Sha256Buff} (h : contents.length ≤ total) :
    calls.readLoop width fuel i total buff = some (some buff) := by
  cases fuel with
  | zero => exact if_neg (Nat.not_lt.mpr h)
  | succ fuel => exact if_neg (Nat.not_lt.mpr h)

theorem pieces_of_le {fuel i total : ℕ} (h : contents.length ≤ total) :
    calls.reads.pieces bufferSize fuel i total = [] := by
  cases fuel with
  | zero => rfl
  | succ fuel => exact if_pos h

/-- The loop ends without a buffer when a read fails, and otherwise with one that stands for the
rest of the file too. -/
theorem readLoop_spec (calls : HashCalls contents) {fuel : ℕ} (i : ℕ) {total : ℕ}
    {buff : Sha256Buff} {message : List UInt8}
    (h : Sha256.Holds buff message) (hwidth : bufferSize + 64 ≤ 2 ^ width)
    (hfuel : contents.length ≤ total + fuel) :
    (calls.FailsFrom i (calls.reads.pieces bufferSize fuel i total).length ∧
      calls.readLoop width fuel i total buff = some none) ∨
    (¬ calls.FailsFrom i (calls.reads.pieces bufferSize fuel i total).length ∧
      ∃ buff', calls.readLoop width fuel i total buff = some (some buff') ∧
        Sha256.Holds buff' (message ++ contents.drop total)) := by
  induction fuel generalizing i total buff message with
  | zero =>
      have hend : contents.length ≤ total := hfuel
      rw [List.drop_of_length_le hend, List.append_nil]
      exact .inr ⟨not_failsFrom_zero i, buff, readLoop_of_le hend, h⟩
  | succ fuel ih =>
      rcases Nat.lt_or_ge total contents.length with hmore | hend
      · obtain ⟨hlength, hpos⟩ := length_read calls i hmore
        have hpieces : (calls.reads.pieces bufferSize (fuel + 1) i total).length =
            (calls.reads.pieces bufferSize fuel (i + 1)
              (total + (calls.read i total).length)).length + 1 := by
          rw [Portions.pieces, if_neg (Nat.not_le.mpr hmore), hlength, List.length_cons]
        rw [hpieces, failsFrom_succ, readLoop, if_pos hmore]
        by_cases herror : calls.readError = some i
        · rw [if_pos herror]
          exact .inl ⟨.inl herror, rfl⟩
        · have hsize : (calls.read i total).length + 64 ≤ 2 ^ width := by
            have hle := calls.reads.le_request i total bufferSize
            omega
          obtain ⟨next, hnext, hholds⟩ := Sha256.update_spec h hsize
          have hdrop : calls.read i total ++ contents.drop (total + (calls.read i total).length) =
              contents.drop total := by
            rw [hlength, ← List.drop_drop]
            exact List.take_append_drop _ _
          rw [if_neg herror, if_neg hpos.ne', hnext, or_iff_right herror]
          have hrest := @ih (i + 1) (total + (calls.read i total).length) next _ hholds (by omega)
          rwa [List.append_assoc, hdrop] at hrest
      · rw [pieces_of_le hend, List.drop_of_length_le hend, List.append_nil]
        exact .inr ⟨not_failsFrom_zero i, buff, readLoop_of_le hend, h⟩

end HashCalls

/-- The file could be read, and there is something in it. -/
structure HashCalls.Succeed (calls : HashCalls contents) : Prop where
  opened : calls.opened = true
  fstat : calls.fstat = true
  malloc : calls.malloc = true
  ne_nil : contents ≠ []
  reads : ¬ calls.Fails

instance (calls : HashCalls contents) : Decidable calls.Fails :=
  inferInstanceAs (Decidable (∃ j < calls.pieces.length, calls.readError = some (0 + j)))

instance (calls : HashCalls contents) : Decidable calls.Succeed :=
  decidable_of_iff (calls.opened = true ∧ calls.fstat = true ∧ calls.malloc = true ∧
    contents ≠ [] ∧ ¬ calls.Fails) ⟨fun ⟨h₁, h₂, h₃, h₄, h₅⟩ ↦ ⟨h₁, h₂, h₃, h₄, h₅⟩,
      fun h ↦ ⟨h.opened, h.fstat, h.malloc, h.ne_nil, h.reads⟩⟩

theorem readLoop_init {width : ℕ} (hwidth : 16 ≤ width) (calls : HashCalls contents)
    (buff : Sha256Buff) :
    (calls.Fails ∧ calls.readLoop width contents.length 0 0 (Sha256.init buff) = some none) ∨
    (¬ calls.Fails ∧ ∃ buff' buff'', calls.readLoop width contents.length 0 0 (Sha256.init buff) =
        some (some buff') ∧ Sha256.finalize buff' = some buff'' ∧
      Sha256.read buff'' = Sha2.digest contents) := by
  have hpow : HashCalls.bufferSize + 64 ≤ 2 ^ width :=
    (show _ ≤ 2 ^ 16 by decide).trans (Nat.pow_le_pow_right Nat.two_pos hwidth)
  rcases HashCalls.readLoop_spec calls 0 (Sha256.holds_init buff) hpow
    (Nat.zero_add _).ge with ⟨hfails, hloop⟩ | ⟨hreads, buff', hloop, hholds⟩
  · exact .inl ⟨hfails, hloop⟩
  · obtain ⟨buff'', hfinal, hhash⟩ := Sha256.finalize_spec hholds
    refine .inr ⟨hreads, buff', buff'', hloop, hfinal, ?_⟩
    rw [Sha256.read_eq, hhash]
    rfl

/-- With a path and room for the text, all calls succeed and the text begins with the digest of
the file, or the text stays as it was and the result says so. -/
theorem sha256File_spec {width : ℕ} (hwidth : 16 ≤ width) (path : CString) {text : CString}
    (hroom : 64 ≤ text.length) (calls : HashCalls contents) (buff : Sha256Buff) :
    (calls.Succeed ∧ sha256File width (some path) (some text) calls buff =
      some (0, some (binToHex (Sha2.digest contents) ++ text.drop 64))) ∨
    (¬ calls.Succeed ∧ ∃ ret < 0, sha256File width (some path) (some text) calls buff =
      some (ret, some text)) := by
  have hfailed (ret : Int) (hret : ret < 0) (hnot : ¬ calls.Succeed)
      (hrun : sha256File width (some path) (some text) calls buff = some (ret, some text)) :
      (¬ calls.Succeed ∧ ∃ ret < 0, sha256File width (some path) (some text) calls buff =
        some (ret, some text)) := ⟨hnot, ret, hret, hrun⟩
  by_cases hopened : calls.opened = true
  swap
  · refine .inr (hfailed (-2) (by decide) (fun h ↦ hopened h.opened) ?_)
    rw [sha256File, if_pos hopened]
  by_cases hfstat : calls.fstat = true
  swap
  · refine .inr (hfailed (-1) (by decide) (fun h ↦ hfstat h.fstat) ?_)
    rw [sha256File, if_neg (not_not.mpr hopened), if_pos hfstat]
  by_cases hnil : contents = []
  · refine .inr (hfailed (-1) (by decide) (fun h ↦ h.ne_nil hnil) ?_)
    rw [sha256File, if_neg (not_not.mpr hopened), if_neg (not_not.mpr hfstat),
      if_pos (List.length_eq_zero_iff.mpr hnil)]
  by_cases hmalloc : calls.malloc = true
  swap
  · refine .inr (hfailed (-1) (by decide) (fun h ↦ hmalloc h.malloc) ?_)
    rw [sha256File, if_neg (not_not.mpr hopened), if_neg (not_not.mpr hfstat),
      if_neg (mt List.length_eq_zero_iff.mp hnil), if_pos hmalloc]
  have hrun : sha256File width (some path) (some text) calls buff =
      (calls.readLoop width contents.length 0 0 (Sha256.init buff)).bind (hashResult text) := by
    rw [sha256File, if_neg (not_not.mpr hopened), if_neg (not_not.mpr hfstat),
      if_neg (mt List.length_eq_zero_iff.mp hnil), if_neg (not_not.mpr hmalloc)]
    rfl
  rcases readLoop_init hwidth calls buff with
    ⟨hfails, hloop⟩ | ⟨hreads, buff', buff'', hloop, hfinal, hdigest⟩
  · refine .inr (hfailed (-1) (by decide) (fun h ↦ h.reads hfails) ?_)
    rw [hrun, hloop]
    rfl
  · refine .inl ⟨⟨hopened, hfstat, hmalloc, hnil, hreads⟩, ?_⟩
    rw [hrun, hloop, Option.bind_some, hashResult, hfinal, Option.bind_eq_bind, Option.bind_some,
      if_neg (Nat.not_lt.mpr hroom), hdigest]

/-- Where there is room for the text, the hash of a file is defined for every split of the reads
and every failure. It succeeds exactly if there are a path, somewhere to put the text, and a file
that is not empty and could be read; then the text begins with 64 digits that stand for the digest
of the file. Otherwise nothing is stored. -/
theorem sha256File_digest {width : ℕ} (hwidth : 16 ≤ width) (path : Option CString)
    {hash : Option CString} (hroom : ∀ text ∈ hash, 64 ≤ text.length)
    (calls : HashCalls contents) (buff : Sha256Buff) :
    ∃ ret hash', sha256File width path hash calls buff = some (ret, hash') ∧
      (ret = 0 ↔ path.isSome ∧ hash.isSome ∧ calls.Succeed) ∧
      (ret = 0 → ∃ text digits, hash = some text ∧ hash' = some (digits ++ text.drop 64) ∧
        digits.length = 64 ∧ hexToBin digits = some (Sha2.digest contents)) ∧
      (ret ≠ 0 → ret < 0 ∧ hash' = hash) := by
  rcases path with _ | path
  · exact ⟨-1, hash, rfl, by simp, by simp, by simp⟩
  rcases hash with _ | text
  · exact ⟨-1, none, rfl, by simp, by simp, by simp⟩
  rcases sha256File_spec hwidth path (hroom text rfl) calls buff with
    ⟨hall, hrun⟩ | ⟨hnot, ret, hret, hrun⟩
  · refine ⟨0, _, hrun, by simpa using hall, fun _ ↦ ⟨text, _, rfl, rfl, ?_, ?_⟩, by simp⟩
    · exact length_binToHex_digest contents
    · exact hexToBin_binToHex _
  · refine ⟨ret, _, hrun, iff_of_false hret.ne fun h ↦ hnot h.2.2, fun h ↦ absurd h hret.ne,
      fun _ ↦ ⟨hret, rfl⟩⟩

/-- A file of three bytes that come one at a time. -/
def singleBytes : HashCalls (cstring "abc") where
  reads := .single (cstring "abc")

/-- They are hashed as a whole. -/
theorem sha256File_digest_singleBytes :
    16 ≤ 64 ∧ ∃ text, sha256File 64 (some (cstring "/images/abc")) (some (List.replicate 65 0))
        singleBytes Sha256.emptyBuff = some (0, some text) ∧
      hexToBin (text.take 64) = some (Sha2.digest (cstring "abc")) := by
  refine ⟨by decide, ?_⟩
  have hroom : ∀ text ∈ some (List.replicate 65 (0 : UInt8)), 64 ≤ text.length := by simp
  obtain ⟨ret, hash', hrun, hzero, htext, -⟩ := sha256File_digest (show 16 ≤ 64 by decide)
    (some (cstring "/images/abc")) hroom singleBytes Sha256.emptyBuff
  have hreads : ¬ singleBytes.Fails := by
    rintro ⟨i, -, herror⟩
    cases herror
  obtain rfl := hzero.mpr ⟨rfl, rfl, rfl, rfl, rfl, by decide, hreads⟩
  obtain ⟨text, digits, -, rfl, hlength, hdigits⟩ := htext rfl
  exact ⟨_, hrun, by rwa [List.take_left' hlength]⟩

end Sha256File

end OcreRuntime
