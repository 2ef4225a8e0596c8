import Mathlib.Data.List.Basic
import Mathlib.Data.Nat.Notation

/-!
# SHA-256

`kernel/security/sha256.c`. A context holds the bytes of the block that is not full yet; the
message schedule is a list with the latest word first.
-/

namespace VernisOS

/-- `SHA256_BLOCK_SIZE`. -/
def sha256BlockSize : ℕ := 64

/-- `K`. -/
def sha256K : List UInt32 :=
  [0x428a2f98, 0x71374491, 0xb5c0fbcf, 0xe9b5dba5, 0x3956c25b, 0x59f111f1, 0x923f82a4, 0xab1c5ed5,
   0xd807aa98, 0x12835b01, 0x243185be, 0x550c7dc3, 0x72be5d74, 0x80deb1fe, 0x9bdc06a7, 0xc19bf174,
   0xe49b69c1, 0xefbe4786, 0x0fc19dc6, 0x240ca1cc, 0x2de92c6f, 0x4a7484aa, 0x5cb0a9dc, 0x76f988da,
   0x983e5152, 0xa831c66d, 0xb00327c8, 0xbf597fc7, 0xc6e00bf3, 0xd5a79147, 0x06ca6351, 0x14292967,
   0x27b70a85, 0x2e1b2138, 0x4d2c6dfc, 0x53380d13, 0x650a7354, 0x766a0abb, 0x81c2c92e, 0x92722c85,
   0xa2bfe8a1, 0xa81a664b, 0xc24b8b70, 0xc76c51a3, 0xd192e819, 0xd6990624, 0xf40e3585, 0x106aa070,
   0x19a4c116, 0x1e376c08, 0x2748774c, 0x34b0bcb5, 0x391c0cb3, 0x4ed8aa4a, 0x5b9cca4f, 0x682e6ff3,
   0x748f82ee, 0x78a5636f, 0x84c87814, 0x8cc70208, 0x90befffa, 0xa4506ceb, 0xbef9a3f7, 0xc67178f2]

/-- `ROTR`. -/
def rotr (x n : UInt32) : UInt32 :=
  (x >>> n) ||| (x <<< (32 - n))

/-- `EP0`. -/
def ep0 (x : UInt32) : UInt32 :=
  rotr x 2 ^^^ rotr x 13 ^^^ rotr x 22

/-- `EP1`. -/
def ep1 (x : UInt32) : UInt32 :=
  rotr x 6 ^^^ rotr x 11 ^^^ rotr x 25

/-- `SIG0`. -/
def sig0 (x : UInt32) : UInt32 :=
  rotr x 7 ^^^ rotr x 18 ^^^ (x >>> 3)

/-- `SIG1`. -/
def sig1 (x : UInt32) : UInt32 :=
  rotr x 17 ^^^ rotr x 19 ^^^ (x >>> 10)

/-- The eight words of the state. -/
structure Sha256Words where
  a : UInt32
  b : UInt32
  c : UInt32
  d : UInt32
  e : UInt32
  f : UInt32
  g : UInt32
  h : UInt32
deriving DecidableEq

/-- The first 16 words of the schedule, the latest first. -/
def blockWords (done : List UInt32) : List UInt8 → List UInt32
  | b₀ :: b₁ :: b₂ :: b₃ :: rest =>
    blockWords (((b₀.toUInt32 <<< 24) ||| (b₁.toUInt32 <<< 16) ||| (b₂.toUInt32 <<< 8) |||
      b₃.toUInt32) :: done) rest
  | _ => done

/-- `n` more words of the schedule. -/
def extendSchedule : ℕ → List UInt32 → List UInt32
  | 0, w => w
  | n + 1, w =>
    extendSchedule n ((sig1 (w.getD 1 0) + w.getD 6 0 + sig0 (w.getD 14 0) + w.getD 15 0) :: w)

/-- One round, with its constant and its word of the schedule. -/
def sha256Round (s : Sha256Words) (kw : UInt32 × UInt32) : Sha256Words :=
  let t1 := s.h + ep1 s.e + ((s.e &&& s.f) ^^^ (~~~s.e &&& s.g)) + kw.1 + kw.2
  let t2 := ep0 s.a + ((s.a &&& s.b) ^^^ (s.a &&& s.c) ^^^ (s.b &&& s.c))
  ⟨t1 + t2, s.a, s.b, s.c, s.d + t1, s.e, s.f, s.g⟩

/-- `sha256_transform`. -/
def sha256Transform (s : Sha256Words) (block : List UInt8) : Sha256Words :=
  let w := (extendSchedule 48 (blockWords [] block)).reverse
  let r := (sha256K.zip w).foldl sha256Round s
  ⟨s.a + r.a, s.b + r.b, s.c + r.c, s.d + r.d, s.e + r.e, s.f + r.f, s.g + r.g, s.h + r.h⟩

/-- `Sha256Context`, with the first `buf_len` bytes of the buffer. -/
structure Sha256Context where
  state : Sha256Words
  bitCount : UInt64
  buffer : List UInt8

/-- `sha256_init`. -/
def sha256Init : Sha256Context :=
  ⟨⟨0x6a09e667, 0xbb67ae85, 0x3c6ef372, 0xa54ff53a, 0x510e527f, 0x9b05688c, 0x1f83d9ab,
    0x5be0cd19⟩, 0, []⟩

/-- One byte of `sha256_update`. -/
def sha256Byte (ctx : Sha256Context) (b : UInt8) : Sha256Context :=
  if ctx.buffer.length + 1 = sha256BlockSize then
    ⟨sha256Transform ctx.state (ctx.buffer ++ [b]), ctx.bitCount + 512, []⟩
  else { ctx with buffer := ctx.buffer ++ [b] }

/-- `sha256_update`. -/
def sha256Update (ctx : Sha256Context) (data : List UInt8) : Sha256Context :=
  data.foldl sha256Byte ctx

/-- The bytes of a word, the highest first. -/
def wordBytes (w : UInt32) : List UInt8 :=
  [(w >>> 24).toUInt8, (w >>> 16).toUInt8, (w >>> 8).toUInt8, w.toUInt8]

/-- The eight bytes of `total_bits`. -/
def lengthBytes (n : UInt64) : List UInt8 :=
  [(n >>> 56).toUInt8, (n >>> 48).toUInt8, (n >>> 40).toUInt8, (n >>> 32).toUInt8,
   (n >>> 24).toUInt8, (n >>> 16).toUInt8, (n >>> 8).toUInt8, n.toUInt8]

/-- Fill a buffer with zeros up to `n` bytes. -/
def zeroFill (n : ℕ) (buffer : List UInt8) : List UInt8 :=
  buffer ++ List.replicate (n - buffer.length) 0

/-- `sha256_final` : the digest. -/
def sha256Final (ctx : Sha256Context) : List UInt8 :=
  let totalBits := ctx.bitCount + UInt64.ofNat ctx.buffer.length * 8
  let buffer := ctx.buffer ++ [0x80]
  let (state, buffer) :=
    if 56 < buffer.length then (sha256Transform ctx.state (zeroFill 64 buffer), [])
    else (ctx.state, buffer)
  let s := sha256Transform state (zeroFill 56 buffer ++ lengthBytes totalBits)
  [s.a, s.b, s.c, s.d, s.e, s.f, s.g, s.h].flatMap wordBytes

/-- `sha256_hash`. -/
def sha256Hash (data : List UInt8) : List UInt8 :=
  sha256Final (sha256Update sha256Init data)

/-- `sha256_compare` : 0 if the digests are equal. -/
def sha256Compare (a b : List UInt8) : Int :=
  if (List.zipWith (· ^^^ ·) a b).foldl (· ||| ·) 0 = 0 then 0 else -1

theorem length_sha256Hash (data : List UInt8) : (sha256Hash data).length = 32 := by
  simp [sha256Hash, sha256Final, wordBytes]

theorem foldl_or_eq_zero (bs : List UInt8) (d : UInt8) :
    bs.foldl (· ||| ·) d = 0 ↔ d = 0 ∧ ∀ b ∈ bs, b = 0 := by
  induction bs generalizing d with
  | nil => simp
  | cons b bs ih =>
    have hor : d ||| b = 0 ↔ d = 0 ∧ b = 0 := by
      rw [← UInt8.toNat_inj, ← UInt8.toNat_inj, ← UInt8.toNat_inj, UInt8.toNat_or]
      exact Nat.or_eq_zero_iff
    rw [List.foldl_cons, ih, hor, List.forall_mem_cons, and_assoc]

theorem sha256Compare_eq_zero {a b : List UInt8} (h : a.length = b.length) :
    sha256Compare a b = 0 ↔ a = b := by
  have hzip : (∀ d ∈ List.zipWith (· ^^^ ·) a b, d = 0) ↔ a = b := by
    induction a generalizing b with
    | nil => cases b with
      | nil => simp
      | cons y b => simp at h
    | cons x a ih => cases b with
      | nil => simp at h
      | cons y b =>
        have hxor : x ^^^ y = 0 ↔ x = y := UInt8.xor_eq_zero_iff
        simp only [List.zipWith_cons_cons, List.forall_mem_cons, hxor, List.cons.injEq]
        rw [ih (by simpa using h)]
  rw [← hzip, sha256Compare]
  split
  · rename_i hor
    exact iff_of_true rfl ((foldl_or_eq_zero _ 0).mp hor).2
  · rename_i hor
    refine iff_of_false (by decide) fun hall => hor ?_
    exact (foldl_or_eq_zero _ 0).mpr ⟨rfl, hall⟩

/-- The digest of the empty message. -/
example : (sha256Hash []).take 4 = [0xe3, 0xb0, 0xc4, 0x42] := by
  decide +kernel

end VernisOS
