import Mathlib.Data.Nat.Prime.Nth
import OcreRuntime.Lib.BlockStream

/-!
# SHA-256

The hash function of the Secure Hash Standard on messages of whole bytes. The constants are
taken from the roots of the first primes, the message schedule is the recurrence, and a message
is padded and compressed block by block.
-/

namespace Sha2

abbrev Word := BitVec 32

/-- The first 32 bits behind the point of the `k`-th root of `p`. -/
def rootFraction (k p : ℕ) : Word :=
  BitVec.ofNat 32 (Nat.findGreatest (fun n ↦ n ^ k ≤ p * 2 ^ (32 * k)) (p * 2 ^ (32 * k)))

theorem rootFraction_eq {k p n : ℕ} (hk : k ≠ 0) (hle : n ^ k ≤ p * 2 ^ (32 * k))
    (hlt : p * 2 ^ (32 * k) < (n + 1) ^ k) : rootFraction k p = BitVec.ofNat 32 n := by
  rw [rootFraction]
  congr 1
  refine Nat.findGreatest_eq_iff.mpr ⟨(Nat.le_self_pow hk n).trans hle, fun _ ↦ hle, ?_⟩
  intro m hm _ hroot
  exact (hlt.trans_le (Nat.pow_le_pow_left hm k)).not_ge hroot

/-- Constants that are checked against the roots by arithmetic on whole numbers. -/
def RootFraction (k : ℕ) (p : ℕ) (c : Word) : Prop :=
  ∃ q < 18, (q * 2 ^ 32 + c.toNat) ^ k ≤ p * 2 ^ (32 * k) ∧
    p * 2 ^ (32 * k) < (q * 2 ^ 32 + c.toNat + 1) ^ k

instance (k p : ℕ) (c : Word) : Decidable (RootFraction k p c) :=
  inferInstanceAs (Decidable (∃ q < 18, _ ∧ _))

theorem RootFraction.eq {k p : ℕ} {c : Word} (h : RootFraction k p c) (hk : k ≠ 0) :
    rootFraction k p = c := by
  obtain ⟨q, -, hle, hlt⟩ := h
  rw [rootFraction_eq hk hle hlt]
  apply BitVec.eq_of_toNat_eq
  have hc := c.isLt
  rw [BitVec.toNat_ofNat]
  omega

section Primes

/-- The numbers with a property in a range are the first ones. -/
theorem nth_of_filter_range {p : ℕ → Prop} [DecidablePred p] {n i m : ℕ}
    (h : ((List.range n).filter p)[i]? = some m) : Nat.nth p i = m := by
  suffices hcount : p m ∧ Nat.count p m = i by
    rw [← hcount.2, Nat.nth_count hcount.1]
  induction n with
  | zero => simp at h
  | succ n ih =>
      rw [List.range_succ, List.filter_append] at h
      rcases Nat.lt_or_ge i ((List.range n).filter p).length with hlt | hge
      · exact ih (by rwa [List.getElem?_append_left hlt] at h)
      · rw [List.getElem?_append_right hge] at h
        by_cases hn : p n
        · rw [List.filter_singleton, decide_eq_true hn, cond_true, List.getElem?_singleton] at h
          obtain ⟨hzero, hm⟩ := Option.ite_none_right_eq_some.mp h
          obtain rfl := Option.some.inj hm
          have hcount : Nat.count p n = ((List.range n).filter p).length :=
            List.countP_eq_length_filter
          exact ⟨hn, by omega⟩
        · rw [List.filter_singleton, decide_eq_false hn] at h
          cases h

theorem prime_iff_of_lt {n : ℕ} (h : n < 361) :
    n.Prime ↔ 2 ≤ n ∧ ∀ d < 19, 2 ≤ d → d * d ≤ n → ¬ d ∣ n := by
  rw [Nat.prime_def_le_sqrt]
  refine and_congr_right fun _ ↦ ⟨fun hn d _ htwo hle ↦ hn d htwo (Nat.le_sqrt.mpr hle), ?_⟩
  intro hn d htwo hle
  have hsq := Nat.le_sqrt.mp hle
  refine hn d ?_ htwo hsq
  by_contra hge
  have hmul := Nat.mul_le_mul (Nat.le_of_not_lt hge) (Nat.le_of_not_lt hge)
  omega

def firstPrimes : List ℕ := [
  2, 3, 5, 7, 11, 13, 17, 19, 23, 29, 31, 37, 41, 43, 47, 53, 59, 61, 67, 71, 73, 79, 83, 89, 97,
  101, 103, 107, 109, 113, 127, 131, 137, 139, 149, 151, 157, 163, 167, 173, 179, 181, 191, 193,
  197, 199, 211, 223, 227, 229, 233, 239, 241, 251, 257, 263, 269, 271, 277, 281, 283, 293, 307,
  311]

theorem filter_range_prime : (List.range 312).filter Nat.Prime = firstPrimes := by
  have htest : (List.range 312).filter Nat.Prime =
      (List.range 312).filter fun n ↦ 2 ≤ n ∧ ∀ d < 19, 2 ≤ d → d * d ≤ n → ¬ d ∣ n := by
    apply List.filter_congr
    intro n hn
    exact decide_eq_decide.mpr (prime_iff_of_lt ((List.mem_range.mp hn).trans (by decide)))
  rw [htest]
  decide +kernel

theorem nth_prime {i p : ℕ} (h : firstPrimes[i]? = some p) : Nat.nth Nat.Prime i = p :=
  nth_of_filter_range (by rw [filter_range_prime, h])

end Primes

/-- From the square roots of the first eight primes. -/
noncomputable def initialWord (i : ℕ) : Word := rootFraction 2 (Nat.nth Nat.Prime i)

/-- From the cube roots of the first 64 primes. -/
noncomputable def roundConstant (t : ℕ) : Word := rootFraction 3 (Nat.nth Nat.Prime t)

section Functions

variable (x y z : Word)

def choose : Word := (x &&& y) ^^^ (~~~x &&& z)

def majority : Word := (x &&& y) ^^^ (x &&& z) ^^^ (y &&& z)

def bigSigma₀ : Word := x.rotateRight 2 ^^^ x.rotateRight 13 ^^^ x.rotateRight 22

def bigSigma₁ : Word := x.rotateRight 6 ^^^ x.rotateRight 11 ^^^ x.rotateRight 25

def smallSigma₀ : Word := x.rotateRight 7 ^^^ x.rotateRight 18 ^^^ x >>> 3

def smallSigma₁ : Word := x.rotateRight 17 ^^^ x.rotateRight 19 ^^^ x >>> 10

end Functions

/-- The message schedule of a block of 16 words. -/
def schedule (block : ℕ → Word) (t : ℕ) : Word :=
  if _ : t < 16 then block t
  else
    smallSigma₁ (schedule block (t - 2)) + schedule block (t - 7) +
      smallSigma₀ (schedule block (t - 15)) + schedule block (t - 16)

theorem schedule_of_lt {block : ℕ → Word} {t : ℕ} (h : t < 16) :
    schedule block t = block t := by
  rw [schedule, dif_pos h]

theorem schedule_of_ge {block : ℕ → Word} {t : ℕ} (h : 16 ≤ t) :
    schedule block t = smallSigma₁ (schedule block (t - 2)) + schedule block (t - 7) +
      smallSigma₀ (schedule block (t - 15)) + schedule block (t - 16) := by
  rw [schedule, dif_neg (Nat.not_lt.mpr h)]

/-- The eight working variables, and the hash value between two blocks. -/
structure Working where
  a : Word
  b : Word
  c : Word
  d : Word
  e : Word
  f : Word
  g : Word
  h : Word
  deriving DecidableEq

namespace Working

def round (k w : Word) (s : Working) : Working :=
  let t₁ := s.h + bigSigma₁ s.e + choose s.e s.f s.g + k + w
  let t₂ := bigSigma₀ s.a + majority s.a s.b s.c
  ⟨t₁ + t₂, s.a, s.b, s.c, s.d + t₁, s.e, s.f, s.g⟩

def add (s s' : Working) : Working :=
  ⟨s.a + s'.a, s.b + s'.b, s.c + s'.c, s.d + s'.d, s.e + s'.e, s.f + s'.f, s.g + s'.g, s.h + s'.h⟩

def words (s : Working) : List Word := [s.a, s.b, s.c, s.d, s.e, s.f, s.g, s.h]

/-- The hash value before the first block. -/
noncomputable def initial : Working :=
  ⟨initialWord 0, initialWord 1, initialWord 2, initialWord 3, initialWord 4, initialWord 5,
    initialWord 6, initialWord 7⟩

end Working

/-- The big-endian word at a place of a block. -/
def blockWord (block : List UInt8) (t : ℕ) : Word :=
  (block.getD (4 * t) 0).toBitVec ++ (block.getD (4 * t + 1) 0).toBitVec ++
    (block.getD (4 * t + 2) 0).toBitVec ++ (block.getD (4 * t + 3) 0).toBitVec

noncomputable def compress (s : Working) (block : List UInt8) : Working :=
  s.add ((List.range 64).foldl
    (fun s t ↦ s.round (roundConstant t) (schedule (blockWord block) t)) s)

/-- The bytes of a word, the highest first. -/
def bigEndian (n : ℕ) (x : BitVec (8 * n)) : List UInt8 :=
  (List.range n).map fun i ↦ ⟨x.extractLsb' (8 * (n - 1 - i)) 8⟩

/-- How many zeros there are between the 0x80 and the length. -/
def zeros (length : ℕ) : ℕ := (119 - length % 64) % 64

/-- The message, a one bit, zeros, and the length in bits. -/
def pad (message : List UInt8) : List UInt8 :=
  message ++ 0x80 :: List.replicate (zeros message.length) 0 ++
    bigEndian 8 (BitVec.ofNat 64 (8 * message.length))

theorem length_bigEndian (n : ℕ) (x : BitVec (8 * n)) : (bigEndian n x).length = n := by
  rw [bigEndian, List.length_map, List.length_range]

/-- The hash value of a message. -/
noncomputable def hash (message : List UInt8) : Working :=
  (BlockStream.consume compress 64 .initial (pad message)).1

/-- The message digest. -/
noncomputable def digest (message : List UInt8) : List UInt8 :=
  (hash message).words.flatMap (bigEndian 4)

theorem length_digest (message : List UInt8) : (digest message).length = 32 := by
  simp [digest, Working.words, length_bigEndian]

end Sha2
