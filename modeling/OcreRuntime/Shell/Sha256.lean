import OcreRuntime.Lib.Block
import OcreRuntime.Lib.Sha2

/-!
# The hash of images

The functions of `sha256.c`. The buffer keeps the hash value and what has come behind the last
full chunk. An access outside an array is undefined. However the data is cut into updates, what
is read at the end is the digest of all of it.
-/

namespace OcreRuntime

open Sha2 (Word Working)

abbrev Sha256Chunk := List.Vector UInt8 64

/-- `struct sha256_buff`. -/
structure Sha256Buff where
  dataSize : BitVec 64
  h : Vector Word 8
  lastChunk : Sha256Chunk
  chunkSize : UInt8

namespace Sha256

def k : List Word := [
  0x428a2f98, 0x71374491, 0xb5c0fbcf, 0xe9b5dba5, 0x3956c25b, 0x59f111f1, 0x923f82a4, 0xab1c5ed5,
  0xd807aa98, 0x12835b01, 0x243185be, 0x550c7dc3, 0x72be5d74, 0x80deb1fe, 0x9bdc06a7, 0xc19bf174,
  0xe49b69c1, 0xefbe4786, 0x0fc19dc6, 0x240ca1cc, 0x2de92c6f, 0x4a7484aa, 0x5cb0a9dc, 0x76f988da,
  0x983e5152, 0xa831c66d, 0xb00327c8, 0xbf597fc7, 0xc6e00bf3, 0xd5a79147, 0x06ca6351, 0x14292967,
  0x27b70a85, 0x2e1b2138, 0x4d2c6dfc, 0x53380d13, 0x650a7354, 0x766a0abb, 0x81c2c92e, 0x92722c85,
  0xa2bfe8a1, 0xa81a664b, 0xc24b8b70, 0xc76c51a3, 0xd192e819, 0xd6990624, 0xf40e3585, 0x106aa070,
  0x19a4c116, 0x1e376c08, 0x2748774c, 0x34b0bcb5, 0x391c0cb3, 0x4ed8aa4a, 0x5b9cca4f, 0x682e6ff3,
  0x748f82ee, 0x78a5636f, 0x84c87814, 0x8cc70208, 0x90befffa, 0xa4506ceb, 0xbef9a3f7, 0xc67178f2]

/-- What `sha256_init` stores in `h`. -/
def initialHash : Vector Word 8 :=
  #v[0x6a09e667, 0xbb67ae85, 0x3c6ef372, 0xa54ff53a, 0x510e527f, 0x9b05688c, 0x1f83d9ab,
    0x5be0cd19]

def rotateR (val : Word) (bits : ℕ) : Word := val >>> bits ||| val <<< (32 - bits)

/-- The loop over the first 16 words. -/
def loadWords : List UInt8 → List Word
  | b₀ :: b₁ :: b₂ :: b₃ :: chunk =>
      (b₀.toBitVec.setWidth 32 <<< 24 ||| b₁.toBitVec.setWidth 32 <<< 16 |||
        b₂.toBitVec.setWidth 32 <<< 8 ||| b₃.toBitVec.setWidth 32) :: loadWords chunk
  | _ => []

/-- The loop over the other words, on those that have been stored. -/
def extendWords (w : List Word) (i : ℕ) : List Word :=
  let s₀ := rotateR (w.getD (i - 15) 0) 7 ^^^ rotateR (w.getD (i - 15) 0) 18 ^^^
    (w.getD (i - 15) 0 >>> 3)
  let s₁ := rotateR (w.getD (i - 2) 0) 17 ^^^ rotateR (w.getD (i - 2) 0) 19 ^^^
    (w.getD (i - 2) 0 >>> 10)
  w ++ [w.getD (i - 16) 0 + s₀ + w.getD (i - 7) 0 + s₁]

/-- The loop over `tv`, with `k[i]` and `w[i]`. -/
def round (tv : Vector Word 8) (k w : Word) : Vector Word 8 :=
  let S₁ := rotateR tv[4] 6 ^^^ rotateR tv[4] 11 ^^^ rotateR tv[4] 25
  let ch := (tv[4] &&& tv[5]) ^^^ (~~~tv[4] &&& tv[6])
  let temp₁ := tv[7] + S₁ + ch + k + w
  let S₀ := rotateR tv[0] 2 ^^^ rotateR tv[0] 13 ^^^ rotateR tv[0] 22
  let maj := (tv[0] &&& tv[1]) ^^^ (tv[0] &&& tv[2]) ^^^ (tv[1] &&& tv[2])
  let temp₂ := S₀ + maj
  #v[temp₁ + temp₂, tv[0], tv[1], tv[2], tv[3] + temp₁, tv[4], tv[5], tv[6]]

def calcChunk (h : Vector Word 8) (chunk : Sha256Chunk) : Vector Word 8 :=
  let w := (List.range' 16 48).foldl extendWords (loadWords chunk.toList)
  let tv := (k.zip w).foldl (fun tv kw ↦ round tv kw.1 kw.2) h
  h.zipWith (· + ·) tv

/-- The buffer is not cleared. -/
def init (buff : Sha256Buff) : Sha256Buff :=
  { buff with h := initialHash, dataSize := 0, chunkSize := 0 }

/-- The loop over the full chunks of the data, with what it leaves. -/
def calcChunks : ℕ → Vector Word 8 → List UInt8 → Option (Vector Word 8 × List UInt8)
  | 0, h, ptr => if ptr.length ≥ 64 then none else some (h, ptr)
  | fuel + 1, h, ptr =>
      if ptr.length ≥ 64 then do
        let chunk ← Block.read ptr 0 64
        calcChunks fuel (calcChunk h chunk) (ptr.drop 64)
      else some (h, ptr)

/-- The chunk that is put together of what was left and the first data, if there is enough. The
sum of the sizes is a `size_t` of `width` bits. -/
def fillChunk (width : ℕ) (buff : Sha256Buff) (data : List UInt8) :
    Option (Sha256Buff × List UInt8) :=
  if (data.length + buff.chunkSize.toNat) % 2 ^ width ≥ 64 then do
    let left ← Block.read buff.lastChunk.toList 0 buff.chunkSize.toNat
    let first ← Block.read data 0 (64 - buff.chunkSize.toNat)
    let tmpChunk ← Block.store (List.Vector.replicate 64 0) 0 left
    let tmpChunk ← Block.store tmpChunk buff.chunkSize.toNat first
    some ({ buff with chunkSize := 0, h := calcChunk buff.h tmpChunk },
      data.drop (64 - buff.chunkSize.toNat))
  else some (buff, data)

def update (width : ℕ) (buff : Sha256Buff) (data : List UInt8) : Option Sha256Buff := do
  let (buff, ptr) ←
    fillChunk width { buff with dataSize := buff.dataSize + BitVec.ofNat 64 data.length } data
  let (h, ptr) ← calcChunks ptr.length buff.h ptr
  let lastChunk ← Block.store buff.lastChunk buff.chunkSize.toNat ⟨ptr, rfl⟩
  some { buff with h, lastChunk, chunkSize := buff.chunkSize + UInt8.ofNat ptr.length }

/-- The loop that adds the size, from the last byte on. -/
def addSize : ℕ → BitVec 64 → Sha256Chunk → Option Sha256Chunk
  | 0, _, lastChunk => some lastChunk
  | i + 1, size, lastChunk => do
      let lastChunk ← Block.store lastChunk (55 + (i + 1))
        ⟨[⟨(size &&& 255).setWidth 8⟩], rfl⟩
      addSize i (size >>> 8) lastChunk

/-- A chunk without room for the size is calculated, and the next one is begun. -/
def nextChunk (chunkSize : UInt8) (h : Vector Word 8) (lastChunk : Sha256Chunk) :
    Vector Word 8 × Sha256Chunk :=
  if chunkSize > 56 then (calcChunk h lastChunk, List.Vector.replicate 64 0) else (h, lastChunk)

/-- The end of the message behind what waits, and zeros. -/
def markEnd (chunkSize : UInt8) (lastChunk : Sha256Chunk) : Option Sha256Chunk := do
  let lastChunk ← Block.store lastChunk chunkSize.toNat ⟨[0x80], rfl⟩
  Block.store lastChunk (chunkSize + 1).toNat
    (List.Vector.replicate (64 - (chunkSize + 1).toNat) 0)

/-- The last chunk, with the size. -/
def calcLast (buff : Sha256Buff) (next : Vector Word 8 × Sha256Chunk) : Option Sha256Buff := do
  let lastChunk ← addSize 8 (buff.dataSize * 8) next.2
  some { buff with
    h := calcChunk next.1 lastChunk, lastChunk, chunkSize := buff.chunkSize + 1 }

def finalize (buff : Sha256Buff) : Option Sha256Buff := do
  let lastChunk ← markEnd buff.chunkSize buff.lastChunk
  calcLast buff (nextChunk (buff.chunkSize + 1) buff.h lastChunk)

/-- The 32 bytes that `sha256_read` stores. -/
def read (buff : Sha256Buff) : List UInt8 :=
  buff.h.toList.flatMap fun word : Word ↦ [⟨(word >>> 24 &&& 255).setWidth 8⟩,
    ⟨(word >>> 16 &&& 255).setWidth 8⟩, ⟨(word >>> 8 &&& 255).setWidth 8⟩,
    ⟨(word &&& 255).setWidth 8⟩]

/-- The hash value in the terms of the standard. -/
def working (h : Vector Word 8) : Working := ⟨h[0], h[1], h[2], h[3], h[4], h[5], h[6], h[7]⟩

section Constants

/-- The table holds the constants of the standard. -/
theorem k_eq : k = (List.range 64).map Sha2.roundConstant := by
  have hroots : ∀ i < 64, ∃ p c, Sha2.firstPrimes[i]? = some p ∧ k[i]? = some c ∧
      Sha2.RootFraction 3 p c := by
    have hall : ∀ i < 64, Sha2.RootFraction 3 (Sha2.firstPrimes.getD i 0) (k.getD i 0) := by
      decide +kernel
    intro i hi
    have hp : i < Sha2.firstPrimes.length := hi
    have hk : i < k.length := hi
    refine ⟨_, _, List.getElem?_eq_getElem hp, List.getElem?_eq_getElem hk, ?_⟩
    have hroot := hall i hi
    rwa [List.getD_eq_getElem _ _ hp, List.getD_eq_getElem _ _ hk] at hroot
  apply List.ext_getElem?
  intro i
  rcases Nat.lt_or_ge i 64 with hi | hi
  · obtain ⟨p, c, hp, hc, hroot⟩ := hroots i hi
    rw [hc, List.getElem?_map, List.getElem?_range hi, Option.map_some, Sha2.roundConstant,
      Sha2.nth_prime hp, hroot.eq (by decide)]
  · rw [List.getElem?_eq_none (show k.length ≤ i from hi),
      List.getElem?_eq_none (by simpa using hi)]

theorem working_initialHash : working initialHash = .initial := by
  have hword {i p : ℕ} (hp : Sha2.firstPrimes[i]? = some p) {c : Word}
      (hc : Sha2.RootFraction 2 p c) : c = Sha2.initialWord i := by
    rw [Sha2.initialWord, Sha2.nth_prime hp, hc.eq (by decide)]
  rw [Working.initial, ← hword (i := 0) rfl (c := 0x6a09e667) (by decide +kernel),
    ← hword (i := 1) rfl (c := 0xbb67ae85) (by decide +kernel),
    ← hword (i := 2) rfl (c := 0x3c6ef372) (by decide +kernel),
    ← hword (i := 3) rfl (c := 0xa54ff53a) (by decide +kernel),
    ← hword (i := 4) rfl (c := 0x510e527f) (by decide +kernel),
    ← hword (i := 5) rfl (c := 0x9b05688c) (by decide +kernel),
    ← hword (i := 6) rfl (c := 0x1f83d9ab) (by decide +kernel),
    ← hword (i := 7) rfl (c := 0x5be0cd19) (by decide +kernel)]
  rfl

end Constants

section Words

theorem rotateR_eq {val : Word} {bits : ℕ} (h : bits < 32) :
    rotateR val bits = val.rotateRight bits := by
  rw [rotateR, BitVec.rotateRight_def, Nat.mod_eq_of_lt h]

/-- The shifted bytes are next to one another. -/
theorem shiftedBytes_eq (b₀ b₁ b₂ b₃ : BitVec 8) :
    b₀.setWidth 32 <<< 24 ||| b₁.setWidth 32 <<< 16 ||| b₂.setWidth 32 <<< 8 |||
      b₃.setWidth 32 = b₀ ++ b₁ ++ b₂ ++ b₃ := by
  rw [← @BitVec.setWidth_append_append_append_eq_shiftLeft_setWidth_or 8 8 8 8 32 b₀ b₁ b₂ b₃]
  exact BitVec.setWidth_eq _

theorem blockWord_cons (b₀ b₁ b₂ b₃ : UInt8) (chunk : List UInt8) (t : ℕ) :
    Sha2.blockWord (b₀ :: b₁ :: b₂ :: b₃ :: chunk) (t + 1) = Sha2.blockWord chunk t := by
  simp only [Sha2.blockWord, Nat.mul_succ, List.getD_cons_succ, Nat.add_right_comm _ 4]

theorem loadWords_eq (chunk : List UInt8) :
    loadWords chunk = (List.range (chunk.length / 4)).map (Sha2.blockWord chunk) := by
  fun_induction loadWords chunk with
  | case1 b₀ b₁ b₂ b₃ chunk ih =>
      have hlength : (b₀ :: b₁ :: b₂ :: b₃ :: chunk).length / 4 = chunk.length / 4 + 1 := by
        simp only [List.length_cons]
        omega
      rw [hlength, List.range_succ_eq_map, List.map_cons, List.map_map, ih, shiftedBytes_eq]
      exact congrArg (_ :: ·) (List.map_congr_left fun t _ ↦ (blockWord_cons ..).symm)
  | case2 chunk h =>
      have hshort : chunk.length / 4 = 0 := by
        rcases chunk with _ | ⟨b₀, _ | ⟨b₁, _ | ⟨b₂, _ | ⟨b₃, chunk⟩⟩⟩⟩
        · rfl
        · simp
        · simp
        · simp
        · exact (h b₀ b₁ b₂ b₃ chunk rfl).elim
      rw [hshort]
      rfl

/-- The stored words are those of the message schedule. -/
theorem extendWords_eq (block : ℕ → Word) (n : ℕ) :
    (List.range' 16 n).foldl extendWords ((List.range 16).map (Sha2.schedule block)) =
      (List.range (16 + n)).map (Sha2.schedule block) := by
  induction n with
  | zero => rfl
  | succ n ih =>
      rw [List.range'_concat, List.foldl_append, ih, Nat.one_mul, List.foldl_cons, List.foldl_nil,
        ← Nat.add_assoc, List.range_succ, List.map_append, extendWords]
      have hword {t : ℕ} (ht : t < 16 + n) :
          ((List.range (16 + n)).map (Sha2.schedule block)).getD t 0 = Sha2.schedule block t := by
        simp [List.getD_eq_getElem?_getD, ht]
      rw [hword (by omega), hword (by omega), hword (by omega), hword (by omega),
        List.map_singleton, Sha2.schedule_of_ge (Nat.le_add_right 16 n), Sha2.smallSigma₀,
        Sha2.smallSigma₁]
      simp only [rotateR_eq (show 7 < 32 by decide), rotateR_eq (show 18 < 32 by decide),
        rotateR_eq (show 17 < 32 by decide), rotateR_eq (show 19 < 32 by decide)]
      congr 2
      ac_rfl

theorem working_round (tv : Vector Word 8) (k w : Word) :
    working (round tv k w) = (working tv).round k w := by
  simp only [round, rotateR_eq (show 6 < 32 by decide), rotateR_eq (show 11 < 32 by decide),
    rotateR_eq (show 25 < 32 by decide), rotateR_eq (show 2 < 32 by decide),
    rotateR_eq (show 13 < 32 by decide), rotateR_eq (show 22 < 32 by decide)]
  rfl

end Words

theorem working_foldl_round (kw : List (Word × Word)) (tv : Vector Word 8) :
    working (kw.foldl (fun tv kw ↦ round tv kw.1 kw.2) tv) =
      kw.foldl (fun s kw ↦ s.round kw.1 kw.2) (working tv) := by
  induction kw generalizing tv with
  | nil => rfl
  | cons head kw ih => rw [List.foldl_cons, List.foldl_cons, ih, working_round]

theorem working_zipWith (h tv : Vector Word 8) :
    working (h.zipWith (· + ·) tv) = (working h).add (working tv) := by
  simp [working, Working.add]

/-- `sha256_calc_chunk` is the compression of the standard. -/
theorem working_calcChunk (h : Vector Word 8) (chunk : Sha256Chunk) :
    working (calcChunk h chunk) = Sha2.compress (working h) chunk.toList := by
  have hwords : (List.range' 16 48).foldl extendWords (loadWords chunk.toList) =
      (List.range 64).map (Sha2.schedule (Sha2.blockWord chunk.toList)) := by
    have hfirst : loadWords chunk.toList =
        (List.range 16).map (Sha2.schedule (Sha2.blockWord chunk.toList)) := by
      rw [loadWords_eq, List.Vector.toList_length]
      apply List.map_congr_left
      intro t ht
      exact (Sha2.schedule_of_lt (List.mem_range.mp ht)).symm
    rw [hfirst, extendWords_eq]
  rw [calcChunk, hwords, k_eq, List.zip_map', working_zipWith, working_foldl_round,
    List.foldl_map]
  rfl

/-- The loop takes the full chunks and leaves the rest; the data has fuel enough. -/
theorem calcChunks_spec {fuel : ℕ} (h : Vector Word 8) {ptr : List UInt8}
    (hfuel : ptr.length ≤ fuel) :
    ∃ h' rest, calcChunks fuel h ptr = some (h', rest) ∧
      BlockStream.consume Sha2.compress 64 (working h) ptr = (working h', rest) := by
  induction fuel generalizing h ptr with
  | zero =>
      have hlt : ptr.length < 64 := by omega
      exact ⟨h, ptr, if_neg (Nat.not_le.mpr hlt), BlockStream.consume_of_lt hlt⟩
  | succ fuel ih =>
      rcases Nat.lt_or_ge ptr.length 64 with hlt | hge
      · exact ⟨h, ptr, if_neg (Nat.not_le.mpr hlt), BlockStream.consume_of_lt hlt⟩
      · have hle : 0 + 64 ≤ ptr.length := by omega
        obtain ⟨chunk, hread, hchunk⟩ := Block.exists_read hle
        rw [List.drop_zero] at hchunk
        have hless : (ptr.drop 64).length ≤ fuel := by
          rw [List.length_drop]
          omega
        obtain ⟨h', rest, hrun, hrest⟩ := ih (calcChunk h chunk) hless
        refine ⟨h', rest, ?_, ?_⟩
        · rw [calcChunks, if_pos hge, hread]
          exact hrun
        · rw [BlockStream.consume_of_le (by decide) hge, ← hchunk, ← working_calcChunk, hrest]

/-- The bytes that wait for more. -/
def waiting (buff : Sha256Buff) : List UInt8 := buff.lastChunk.toList.take buff.chunkSize.toNat

theorem length_waiting {buff : Sha256Buff} (h : buff.chunkSize.toNat < 64) :
    (waiting buff).length = buff.chunkSize.toNat := by
  rw [waiting, List.length_take, List.Vector.toList_length, Nat.min_eq_left h.le]

/-- The buffer stands for what has come since it was initialised. -/
structure Holds (buff : Sha256Buff) (message : List UInt8) : Prop where
  dataSize : buff.dataSize = BitVec.ofNat 64 message.length
  chunkSize_lt : buff.chunkSize.toNat < 64
  consume_eq : BlockStream.consume Sha2.compress 64 .initial message =
    (working buff.h, waiting buff)

theorem holds_init (buff : Sha256Buff) : Holds (init buff) [] where
  dataSize := rfl
  chunkSize_lt := show (0 : UInt8).toNat < 64 by decide
  consume_eq := by
    rw [BlockStream.consume_of_lt (by decide)]
    exact congrArg (·, []) working_initialHash.symm

/-- Nothing waits any more, or too little has come for a chunk. -/
theorem fillChunk_spec {width : ℕ} {buff : Sha256Buff} {data : List UInt8}
    (hlt : buff.chunkSize.toNat < 64) (hwidth : data.length + 64 ≤ 2 ^ width) :
    ∃ buff' ptr, fillChunk width buff data = some (buff', ptr) ∧
      buff'.dataSize = buff.dataSize ∧
      (buff'.chunkSize = 0 ∨ buff'.chunkSize.toNat + ptr.length < 64) ∧
      BlockStream.consume Sha2.compress 64 (working buff.h) (waiting buff ++ data) =
        BlockStream.consume Sha2.compress 64 (working buff'.h) (waiting buff' ++ ptr) := by
  have hmod : (data.length + buff.chunkSize.toNat) % 2 ^ width =
      data.length + buff.chunkSize.toNat := Nat.mod_eq_of_lt (by omega)
  rw [fillChunk, hmod]
  split
  next hfull =>
    have hin : 0 + buff.chunkSize.toNat ≤ buff.lastChunk.toList.length := by
      rw [List.Vector.toList_length]
      omega
    have henough : 0 + (64 - buff.chunkSize.toNat) ≤ data.length := by omega
    have hfits : 0 + buff.chunkSize.toNat ≤ 64 := by omega
    have hend : buff.chunkSize.toNat + (64 - buff.chunkSize.toNat) = 64 := by omega
    obtain ⟨left, hleft, hleftList⟩ := Block.exists_read hin
    obtain ⟨first, hfirst, hfirstList⟩ := Block.exists_read henough
    obtain ⟨tmp, htmp, htmpList⟩ :=
      Block.exists_store (b := List.Vector.replicate 64 (0 : UInt8)) (v := left) hfits
    obtain ⟨chunk, hchunk, hchunkList⟩ := Block.exists_store (b := tmp) (v := first) hend.le
    -- the chunk is what has waited and the first data
    have hwhole : chunk.toList = waiting buff ++ data.take (64 - buff.chunkSize.toNat) := by
      rw [List.drop_zero] at hleftList hfirstList
      rw [hchunkList, htmpList, hfirstList, List.take_zero, List.nil_append, hend,
        List.take_left' (by simp), hleftList, List.drop_of_length_le (by simp; omega),
        List.append_nil]
      rfl
    refine ⟨{ buff with chunkSize := 0, h := calcChunk buff.h chunk },
      data.drop (64 - buff.chunkSize.toNat), ?_, rfl, .inl rfl, ?_⟩
    · simp only [hleft, hfirst, htmp, hchunk, Option.bind_eq_bind, Option.bind_some]
    · have hdata : waiting buff ++ data =
          chunk.toList ++ data.drop (64 - buff.chunkSize.toNat) := by
        rw [hwhole, List.append_assoc, List.take_append_drop]
      rw [hdata, working_calcChunk,
        BlockStream.consume_append_block (by decide) (List.Vector.toList_length chunk)]
      rfl
  next hshort => exact ⟨buff, data, rfl, rfl, .inr (by omega), rfl⟩

/-- The loop leaves so little that it has room behind what waits. -/
theorem consume_waiting {buff : Sha256Buff} {ptr rest : List UInt8} {h' : Vector Word 8}
    (hroom : buff.chunkSize = 0 ∨ buff.chunkSize.toNat + ptr.length < 64)
    (hrest : BlockStream.consume Sha2.compress 64 (working buff.h) ptr = (working h', rest)) :
    BlockStream.consume Sha2.compress 64 (working buff.h) (waiting buff ++ ptr) =
        (working h', waiting buff ++ rest) ∧ buff.chunkSize.toNat + rest.length < 64 := by
  rcases hroom with hzero | hshort
  · have hlt : rest.length < 64 := by
      have hmod : (BlockStream.consume Sha2.compress 64 (working buff.h) ptr).2.length =
          ptr.length % 64 := BlockStream.length_consume
      rw [hrest] at hmod
      exact hmod ▸ Nat.mod_lt _ (by decide)
    have hwaiting : waiting buff = [] := by
      rw [waiting, hzero]
      rfl
    have hsize : buff.chunkSize.toNat = 0 := by
      rw [hzero]
      rfl
    rw [hwaiting, List.nil_append, List.nil_append]
    exact ⟨hrest, by omega⟩
  · rw [BlockStream.consume_of_lt (by omega)] at hrest
    obtain ⟨hstate, rfl⟩ := Prod.mk.inj hrest
    rw [BlockStream.consume_of_lt, hstate]
    · exact ⟨rfl, hshort⟩
    · rw [List.length_append, length_waiting (by omega)]
      exact hshort

/-- An update adds its data to what the buffer stands for. -/
theorem update_spec {width : ℕ} {buff : Sha256Buff} {message data : List UInt8}
    (h : Holds buff message) (hwidth : data.length + 64 ≤ 2 ^ width) :
    ∃ buff', update width buff data = some buff' ∧ Holds buff' (message ++ data) := by
  obtain ⟨filled, ptr, hfill, hsize, hroom, hfilled⟩ := @fillChunk_spec width
    { buff with dataSize := buff.dataSize + BitVec.ofNat 64 data.length } data
    h.chunkSize_lt hwidth
  obtain ⟨h', rest, hrun, hrest⟩ := calcChunks_spec filled.h (le_refl ptr.length)
  obtain ⟨hconsumed, hend⟩ := consume_waiting hroom hrest
  obtain ⟨last, hlast, hlastList⟩ := Block.exists_store (b := filled.lastChunk)
    (v := (⟨rest, rfl⟩ : List.Vector UInt8 rest.length)) hend.le
  have hchunkSize : (filled.chunkSize + UInt8.ofNat rest.length).toNat =
      filled.chunkSize.toNat + rest.length := by
    rw [UInt8.toNat_add, UInt8.toNat_ofNat']
    omega
  refine ⟨⟨filled.dataSize, h', last, filled.chunkSize + UInt8.ofNat rest.length⟩, ?_, ?_, ?_, ?_⟩
  · simp only [update, hfill, hrun, hlast, Option.bind_eq_bind, Option.bind_some]
  · change filled.dataSize = _
    rw [hsize, List.length_append, BitVec.ofNat_add, ← h.dataSize]
  · change (filled.chunkSize + UInt8.ofNat rest.length).toNat < 64
    rw [hchunkSize]
    exact hend
  · have hlength : (waiting filled ++ rest).length = filled.chunkSize.toNat + rest.length := by
      rw [List.length_append, length_waiting (by omega)]
    have hwaiting :
        waiting ⟨filled.dataSize, h', last, filled.chunkSize + UInt8.ofNat rest.length⟩ =
          waiting filled ++ rest := by
      change last.toList.take (filled.chunkSize + UInt8.ofNat rest.length).toNat = _
      change last.toList = waiting filled ++ rest ++ _ at hlastList
      rw [hchunkSize, hlastList, List.take_left' hlength]
    rw [hwaiting, BlockStream.consume_append (by decide), h.consume_eq, ← hconsumed]
    exact hfilled

section Bytes

theorem setWidth_and_255 {n : ℕ} (hn : 8 ≤ n) (x : BitVec n) :
    (x &&& 255).setWidth 8 = x.setWidth 8 := by
  have hones : (255 : BitVec n).setWidth 8 = BitVec.allOnes 8 := by
    obtain ⟨k, rfl⟩ := Nat.exists_eq_add_of_le hn
    have hpow : 2 ^ (8 + k) = 256 * 2 ^ k := Nat.pow_add 2 8 k
    have hpos := Nat.two_pow_pos k
    have hlt : 255 < 2 ^ (8 + k) := by omega
    apply BitVec.eq_of_toNat_eq
    rw [BitVec.toNat_setWidth, BitVec.toNat_allOnes]
    change (BitVec.ofNat (8 + k) 255).toNat % 2 ^ 8 = _
    rw [BitVec.toNat_ofNat, Nat.mod_eq_of_lt hlt]
  rw [BitVec.setWidth_and, hones, BitVec.and_allOnes]

theorem extractLsb'_ushiftRight {n : ℕ} (x : BitVec n) (s m : ℕ) :
    (x >>> m).extractLsb' s 8 = x.extractLsb' (m + s) 8 := by
  rw [← BitVec.setWidth_ushiftRight_eq_extractLsb, ← BitVec.setWidth_ushiftRight_eq_extractLsb,
    BitVec.shiftRight_add]

/-- The last bytes of a size, the highest first. -/
def lowBytes (n : ℕ) (size : BitVec 64) : List UInt8 :=
  (List.range n).map fun i ↦ ⟨size.extractLsb' (8 * (n - 1 - i)) 8⟩

theorem lowBytes_succ (n : ℕ) (size : BitVec 64) :
    lowBytes (n + 1) size = lowBytes n (size >>> 8) ++ [⟨(size &&& 255).setWidth 8⟩] := by
  rw [lowBytes, lowBytes, List.range_succ, List.map_append, List.map_singleton,
    setWidth_and_255 (by decide), BitVec.setWidth_eq_extractLsb' (by decide)]
  congr 1
  · apply List.map_congr_left
    intro i hi
    have hlt := List.mem_range.mp hi
    rw [extractLsb'_ushiftRight]
    congr 2
    omega
  · rw [Nat.add_sub_cancel, Nat.sub_self]

theorem addSize_spec {n : ℕ} (hn : n ≤ 8) (size : BitVec 64) (last : Sha256Chunk) :
    ∃ last', addSize n size last = some last' ∧
      last'.toList = last.toList.take 56 ++ lowBytes n size ++ last.toList.drop (56 + n) := by
  induction n generalizing size last with
  | zero => exact ⟨last, rfl, by simp [lowBytes]⟩
  | succ n ih =>
      have hle : 55 + (n + 1) + 1 ≤ 64 := by omega
      obtain ⟨stored, hstored, hlist⟩ := Block.exists_store (b := last)
        (v := (⟨[⟨(size &&& 255).setWidth 8⟩], rfl⟩ : List.Vector UInt8 1)) hle
      obtain ⟨last', hlast', hlist'⟩ := ih (by omega) (size >>> 8) stored
      refine ⟨last', ?_, ?_⟩
      · simp only [addSize, hstored, Option.bind_eq_bind, Option.bind_some]
        exact hlast'
      · have htake : (last.toList.take (56 + n)).length = 56 + n := by
          rw [List.length_take, List.Vector.toList_length]
          omega
        have hstore : stored.toList = last.toList.take (56 + n) ++
            (⟨(size &&& 255).setWidth 8⟩ :: last.toList.drop (56 + (n + 1))) := by
          rw [hlist, List.append_assoc, show 55 + (n + 1) = 56 + n by omega]
          rfl
        rw [hlist', hstore, List.take_append_of_le_length (by omega), List.take_take,
          Nat.min_eq_left (by omega), List.drop_left' htake, lowBytes_succ]
        simp only [List.append_assoc, List.cons_append, List.nil_append]

theorem bytes_eq_bigEndian (word : Word) :
    ([⟨(word >>> 24 &&& 255).setWidth 8⟩, ⟨(word >>> 16 &&& 255).setWidth 8⟩,
      ⟨(word >>> 8 &&& 255).setWidth 8⟩, ⟨(word &&& 255).setWidth 8⟩] : List UInt8) =
        Sha2.bigEndian 4 word := by
  simp only [setWidth_and_255 (show 8 ≤ 32 by decide),
    BitVec.setWidth_eq_extractLsb' (show 8 ≤ 32 by decide)]
  rfl

theorem toList_eq_words (h : Vector Word 8) : h.toList = (working h).words := by
  obtain ⟨⟨l⟩, hl⟩ := h
  match l, hl with
  | [_, _, _, _, _, _, _, _], _ => rfl

/-- What is read is the hash value in bytes. -/
theorem read_eq (buff : Sha256Buff) :
    read buff = (working buff.h).words.flatMap (Sha2.bigEndian 4) := by
  rw [read, toList_eq_words]
  exact congrArg (List.flatMap · _) (funext bytes_eq_bigEndian)

end Bytes

section Padding

/-- The padding is calculated together with what waits. -/
theorem hash_of_holds {buff : Sha256Buff} {message : List UInt8} (h : Holds buff message) :
    Sha2.hash message = (BlockStream.consume Sha2.compress 64 (working buff.h)
      (waiting buff ++ (0x80 :: List.replicate ((119 - buff.chunkSize.toNat) % 64) 0 ++
        lowBytes 8 (buff.dataSize * 8)))).1 := by
  have hlength : message.length % 64 = buff.chunkSize.toNat := by
    rw [← BlockStream.length_consume (f := Sha2.compress) (s := .initial), h.consume_eq,
      length_waiting h.chunkSize_lt]
  have hsize : buff.dataSize * 8 = BitVec.ofNat 64 (8 * message.length) := by
    rw [h.dataSize, Nat.mul_comm, BitVec.ofNat_mul]
    rfl
  rw [Sha2.hash, Sha2.pad, List.append_assoc, BlockStream.consume_append (by decide),
    h.consume_eq, Sha2.zeros, hlength, hsize]
  rfl

theorem toNat_succ {size : UInt8} (h : size.toNat < 64) : (size + 1).toNat = size.toNat + 1 := by
  rw [UInt8.toNat_add]
  change (size.toNat + 1) % 256 = _
  omega

theorem exists_markEnd {buff : Sha256Buff} (hlt : buff.chunkSize.toNat < 64) :
    ∃ cleared, markEnd buff.chunkSize buff.lastChunk = some cleared ∧
      cleared.toList = waiting buff ++ 0x80 :: List.replicate (63 - buff.chunkSize.toNat) 0 := by
  have hsucc := toNat_succ hlt
  have hroom : buff.chunkSize.toNat + 1 ≤ 64 := hlt
  have hend : (buff.chunkSize + 1).toNat + (64 - (buff.chunkSize + 1).toNat) = 64 := by omega
  obtain ⟨marked, hmarked, hmarkedList⟩ := Block.exists_store (b := buff.lastChunk)
    (v := (⟨[0x80], rfl⟩ : List.Vector UInt8 1)) hroom
  obtain ⟨cleared, hcleared, hclearedList⟩ := Block.exists_store (b := marked)
    (v := List.Vector.replicate (64 - (buff.chunkSize + 1).toNat) (0 : UInt8)) hend.le
  refine ⟨cleared, by rw [markEnd, hmarked]; exact hcleared, ?_⟩
  have hlength : (waiting buff ++ [0x80]).length = buff.chunkSize.toNat + 1 := by
    rw [List.length_append, length_waiting hlt]
    rfl
  have hzeros : 64 - (buff.chunkSize.toNat + 1) = 63 - buff.chunkSize.toNat := by omega
  change marked.toList = waiting buff ++ [0x80] ++ _ at hmarkedList
  rw [hclearedList, List.drop_of_length_le (by rw [List.Vector.toList_length, hend]), hsucc,
    hmarkedList, List.take_left' hlength, List.append_nil, List.append_assoc, hzeros]
  rfl

theorem calcLast_eq {buff : Sha256Buff} {next : Vector Word 8 × Sha256Chunk} {last : Sha256Chunk}
    (hlast : addSize 8 (buff.dataSize * 8) next.2 = some last) :
    ∃ buff', calcLast buff next = some buff' ∧ buff'.h = calcChunk next.1 last := by
  rw [calcLast, hlast]
  exact ⟨_, rfl, rfl⟩

/-- With room for the size, one more chunk is calculated at the end. -/
theorem finalize_of_le {buff : Sha256Buff} (hle : buff.chunkSize.toNat ≤ 55) :
    ∃ buff' last, finalize buff = some buff' ∧ buff'.h = calcChunk buff.h last ∧
      last.toList = waiting buff ++ (0x80 :: List.replicate (55 - buff.chunkSize.toNat) 0 ++
        lowBytes 8 (buff.dataSize * 8)) := by
  have hlt : buff.chunkSize.toNat < 64 := by omega
  obtain ⟨cleared, hcleared, hlist⟩ := exists_markEnd hlt
  obtain ⟨last, hlast, hlastList⟩ := addSize_spec (le_refl 8) (buff.dataSize * 8) cleared
  have hnext : nextChunk (buff.chunkSize + 1) buff.h cleared = (buff.h, cleared) := by
    rw [nextChunk, if_neg]
    rw [gt_iff_lt, UInt8.lt_iff_toNat_lt, toNat_succ hlt]
    change ¬ 56 < _
    omega
  obtain ⟨buff', hbuff', hh⟩ := @calcLast_eq buff (buff.h, cleared) last hlast
  refine ⟨buff', last, ?_, hh, ?_⟩
  · rw [finalize, hcleared, Option.bind_eq_bind, Option.bind_some, hnext, hbuff']
  · have hsplit : 63 - buff.chunkSize.toNat = 55 - buff.chunkSize.toNat + 8 := by omega
    have hfront : (waiting buff ++ 0x80 :: List.replicate (55 - buff.chunkSize.toNat) 0).length =
        56 := by
      rw [List.length_append, length_waiting hlt, List.length_cons, List.length_replicate]
      omega
    have hclearedList : cleared.toList =
        (waiting buff ++ 0x80 :: List.replicate (55 - buff.chunkSize.toNat) 0) ++
          List.replicate 8 0 := by
      rw [hlist, hsplit, List.replicate_add, List.append_assoc, List.cons_append]
    rw [hlastList, List.drop_of_length_le (List.Vector.toList_length _).le, hclearedList,
      List.take_left' hfront, List.append_nil, List.append_assoc]

/-- Otherwise there are two. -/
theorem finalize_of_gt {buff : Sha256Buff} (hlt : buff.chunkSize.toNat < 64)
    (hgt : 55 < buff.chunkSize.toNat) :
    ∃ buff' cleared last, finalize buff = some buff' ∧
      buff'.h = calcChunk (calcChunk buff.h cleared) last ∧
      cleared.toList ++ last.toList =
        waiting buff ++ (0x80 :: List.replicate (119 - buff.chunkSize.toNat) 0 ++
          lowBytes 8 (buff.dataSize * 8)) := by
  obtain ⟨cleared, hcleared, hlist⟩ := exists_markEnd hlt
  obtain ⟨last, hlast, hlastList⟩ :=
    addSize_spec (le_refl 8) (buff.dataSize * 8) (List.Vector.replicate 64 0)
  have hnext : nextChunk (buff.chunkSize + 1) buff.h cleared =
      (calcChunk buff.h cleared, List.Vector.replicate 64 0) := by
    rw [nextChunk, if_pos]
    rw [gt_iff_lt, UInt8.lt_iff_toNat_lt, toNat_succ hlt]
    change 56 < _
    omega
  obtain ⟨buff', hbuff', hh⟩ :=
    @calcLast_eq buff (calcChunk buff.h cleared, List.Vector.replicate 64 0) last hlast
  refine ⟨buff', cleared, last, ?_, hh, ?_⟩
  · rw [finalize, hcleared, Option.bind_eq_bind, Option.bind_some, hnext, hbuff']
  · have hsplit : 119 - buff.chunkSize.toNat = 63 - buff.chunkSize.toNat + 56 := by omega
    have htake : (List.Vector.replicate 64 (0 : UInt8)).toList.take 56 = List.replicate 56 0 := rfl
    rw [hlastList, List.drop_of_length_le (List.Vector.toList_length _).le, htake, hlist, hsplit,
      List.replicate_add, List.append_nil]
    simp only [List.append_assoc, List.cons_append]

/-- What is calculated at the end is the hash value of the message. -/
theorem finalize_spec {buff : Sha256Buff} {message : List UInt8} (h : Holds buff message) :
    ∃ buff', finalize buff = some buff' ∧ working buff'.h = Sha2.hash message := by
  have hlt := h.chunkSize_lt
  rw [hash_of_holds h]
  rcases Nat.lt_or_ge 55 buff.chunkSize.toNat with hgt | hle
  · obtain ⟨buff', cleared, last, hfinal, hh, hpad⟩ := finalize_of_gt hlt hgt
    refine ⟨buff', hfinal, ?_⟩
    rw [Nat.mod_eq_of_lt (by omega), ← hpad, hh, BlockStream.consume_append_block (by decide)
      (List.Vector.toList_length cleared), BlockStream.consume_block (by decide)
      (List.Vector.toList_length last), working_calcChunk, working_calcChunk]
  · obtain ⟨buff', last, hfinal, hh, hpad⟩ := finalize_of_le hle
    have hzeros : (119 - buff.chunkSize.toNat) % 64 = 55 - buff.chunkSize.toNat := by omega
    refine ⟨buff', hfinal, ?_⟩
    rw [hzeros, ← hpad, hh, BlockStream.consume_block (by decide) (List.Vector.toList_length last),
      working_calcChunk]

end Padding

/-- The updates one after the other, and the end. -/
def stream (width : ℕ) (buff : Sha256Buff) (pieces : List (List UInt8)) : Option Sha256Buff := do
  finalize (← pieces.foldlM (update width) (init buff))

theorem foldlM_update_spec {width : ℕ} {buff : Sha256Buff} {message : List UInt8}
    (h : Holds buff message) {pieces : List (List UInt8)}
    (hwidth : ∀ data ∈ pieces, data.length + 64 ≤ 2 ^ width) :
    ∃ buff', pieces.foldlM (update width) buff = some buff' ∧
      Holds buff' (message ++ pieces.flatten) := by
  induction pieces generalizing buff message with
  | nil => exact ⟨buff, rfl, by rwa [List.flatten_nil, List.append_nil]⟩
  | cons data pieces ih =>
      obtain ⟨next, hnext, hholds⟩ := update_spec h (hwidth data List.mem_cons_self)
      obtain ⟨buff', hbuff', hholds'⟩ := ih hholds fun data hdata ↦
        hwidth data (List.mem_cons_of_mem _ hdata)
      refine ⟨buff', ?_, by rwa [List.flatten_cons, ← List.append_assoc]⟩
      rw [List.foldlM_cons, hnext]
      exact hbuff'

/-- However a message is cut into updates, and whatever the buffer held before, the digest of
the message is read. -/
theorem read_of_stream {width : ℕ} (buff : Sha256Buff) {pieces : List (List UInt8)}
    (hwidth : ∀ data ∈ pieces, data.length + 64 ≤ 2 ^ width) :
    ∃ buff', stream width buff pieces = some buff' ∧
      read buff' = Sha2.digest pieces.flatten := by
  obtain ⟨last, hlast, hholds⟩ := foldlM_update_spec (holds_init buff) hwidth
  obtain ⟨buff', hbuff', hhash⟩ := finalize_spec hholds
  refine ⟨buff', ?_, by rw [read_eq, hhash]; rfl⟩
  rw [stream, hlast]
  exact hbuff'

/-- A buffer of zeros. -/
def emptyBuff : Sha256Buff := ⟨0, Vector.replicate 8 0, List.Vector.replicate 64 0, 0⟩

/-- Three bytes that come in two updates. -/
theorem read_of_stream_abc :
    ∃ buff', stream 64 emptyBuff [[97], [98, 99]] = some buff' ∧
      read buff' = Sha2.digest [97, 98, 99] := by
  refine read_of_stream emptyBuff fun data hdata ↦ ?_
  rcases List.mem_pair.mp hdata with rfl | rfl
  · decide
  · decide

example : (stream 64 emptyBuff [[97], [98, 99]]).map (fun buff ↦ (read buff).take 4) =
    some [0xba, 0x78, 0x16, 0xbf] := by decide +kernel

end Sha256

end OcreRuntime
