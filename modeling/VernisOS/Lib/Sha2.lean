import Mathlib.Data.Nat.NthRoot.Defs
import Mathlib.Data.Nat.Prime.Nth
import Mathlib.Data.Nat.Notation

/-!
# The SHA-256 digest

The digest as the standard defines it, over bits. The constants are bits of the roots of the
first primes, the message schedule is a function of the round, and a message is padded to whole
blocks of 512 bits before any block is read.

`hash_flatten` is the rule an incremental implementation needs : the hash value after `i` blocks
is the fold of `compress` over the first `i` of them.
-/

namespace Sha2

/-! ## Words -/

/-- A word of 32 bits. -/
abbrev Word := BitVec 32

/-- The bits of `x`, the highest first. -/
def bitsOf {n : ℕ} (x : BitVec n) : List Bool :=
  (List.range n).map x.getMsbD

/-- The word with the given 32 bits, the highest first. -/
def wordOf (bits : List Bool) : Word :=
  (BitVec.ofBoolListBE bits).setWidth 32

/-- The bits of a byte string. -/
def bytesBits (bytes : List UInt8) : List Bool :=
  bytes.flatMap fun b => bitsOf b.toBitVec

@[simp] theorem length_bitsOf {n : ℕ} (x : BitVec n) : (bitsOf x).length = n := by
  simp [bitsOf]

theorem bytesBits_append (as bs : List UInt8) :
    bytesBits (as ++ bs) = bytesBits as ++ bytesBits bs :=
  List.flatMap_append

theorem bytesBits_flatten (chunks : List (List UInt8)) :
    bytesBits chunks.flatten = (chunks.map bytesBits).flatten := by
  induction chunks with
  | nil => rfl
  | cons bs chunks ih => rw [List.flatten_cons, bytesBits_append, ih, List.map_cons,
      List.flatten_cons]

@[simp] theorem length_bytesBits (bytes : List UInt8) :
    (bytesBits bytes).length = 8 * bytes.length := by
  induction bytes with
  | nil => rfl
  | cons b bytes ih =>
    rw [← List.singleton_append, bytesBits_append, List.length_append, ih]
    simp [bytesBits]
    omega

theorem getMsbD_wordOf {bits : List Bool} (h : bits.length = 32) {i : ℕ} (hi : i < 32) :
    (wordOf bits).getMsbD i = bits.getD i false := by
  have hroom : 32 - bits.length ≤ i := by omega
  rw [wordOf, BitVec.getMsbD_setWidth, BitVec.getMsbD_ofBoolListBE, decide_eq_true hroom,
    Bool.true_and]
  congr 1
  omega

/-! ## Functions and constants -/

/-- `Ch`. -/
def ch (x y z : Word) : Word :=
  (x &&& y) ^^^ (~~~x &&& z)

/-- `Maj`. -/
def maj (x y z : Word) : Word :=
  (x &&& y) ^^^ (x &&& z) ^^^ (y &&& z)

/-- `Σ₀`. -/
def bigSigma0 (x : Word) : Word :=
  x.rotateRight 2 ^^^ x.rotateRight 13 ^^^ x.rotateRight 22

/-- `Σ₁`. -/
def bigSigma1 (x : Word) : Word :=
  x.rotateRight 6 ^^^ x.rotateRight 11 ^^^ x.rotateRight 25

/-- `σ₀`. -/
def smallSigma0 (x : Word) : Word :=
  x.rotateRight 7 ^^^ x.rotateRight 18 ^^^ (x >>> 3)

/-- `σ₁`. -/
def smallSigma1 (x : Word) : Word :=
  x.rotateRight 17 ^^^ x.rotateRight 19 ^^^ (x >>> 10)

/-- The first 32 bits of the fractional part of the `k`th root of `p`. -/
def rootBits (k p : ℕ) : Word :=
  BitVec.ofNat 32 (Nat.nthRoot k (p * 2 ^ (32 * k)))

/-- The numbers below `n` with a property, counted from the least. -/
theorem nth_eq_filter_range (p : ℕ → Prop) [DecidablePred p] {n t : ℕ}
    (h : t < ((List.range n).filter p).length) :
    Nat.nth p t = ((List.range n).filter p).getD t 0 := by
  induction n with
  | zero => simp at h
  | succ n ih =>
    have hcount : ((List.range n).filter p).length = Nat.count p n := by
      rw [Nat.count, List.countP_eq_length_filter]
    rw [List.range_succ, List.filter_append] at h ⊢
    rcases Nat.lt_or_ge t ((List.range n).filter p).length with hlt | hge
    · rw [List.getD_append _ _ _ _ hlt]
      exact ih hlt
    · by_cases hp : p n
      · have ht : t = Nat.count p n := by
          have hlast : ([n].filter p).length = 1 := by simp [hp]
          rw [List.length_append, hlast] at h
          omega
        rw [List.getD_append_right _ _ _ _ hge, hcount, ht, Nat.sub_self, Nat.nth_count hp]
        simp [hp]
      · simp [hp] at h
        omega

/-- The constant of round `t`, from the cube root of the prime number `t`. -/
noncomputable def constant (t : ℕ) : Word :=
  rootBits 3 (Nat.nth Nat.Prime t)

/-! ## Blocks -/

/-- The working variables, and a hash value. -/
structure Words where
  a : Word
  b : Word
  c : Word
  d : Word
  e : Word
  f : Word
  g : Word
  h : Word
deriving DecidableEq

/-- The initial hash value, from the square roots of the first eight primes. -/
noncomputable def initial : Words :=
  let root t := rootBits 2 (Nat.nth Nat.Prime t)
  ⟨root 0, root 1, root 2, root 3, root 4, root 5, root 6, root 7⟩

/-- Word `t` of the schedule of a block. -/
def schedule (block : List Bool) (t : ℕ) : Word :=
  if t < 16 then wordOf ((block.drop (32 * t)).take 32)
  else smallSigma1 (schedule block (t - 2)) + schedule block (t - 7) +
    smallSigma0 (schedule block (t - 15)) + schedule block (t - 16)
termination_by t

/-- One round. -/
def Words.round (s : Words) (k w : Word) : Words :=
  let t₁ := s.h + bigSigma1 s.e + ch s.e s.f s.g + k + w
  let t₂ := bigSigma0 s.a + maj s.a s.b s.c
  ⟨t₁ + t₂, s.a, s.b, s.c, s.d + t₁, s.e, s.f, s.g⟩

/-- The working variables after the first `t` rounds on a block. -/
noncomputable def Words.rounds (s : Words) (block : List Bool) : ℕ → Words
  | 0 => s
  | t + 1 => (s.rounds block t).round (constant t) (schedule block t)

/-- The next hash value. -/
noncomputable def Words.compress (s : Words) (block : List Bool) : Words :=
  let r := s.rounds block 64
  ⟨s.a + r.a, s.b + r.b, s.c + r.c, s.d + r.d, s.e + r.e, s.f + r.f, s.g + r.g, s.h + r.h⟩

/-! ## Messages -/

/-- The zero bits of the padding of a message of `len` bits. -/
def zeros (len : ℕ) : ℕ :=
  (959 - len % 512) % 512

/-- A message, a one bit, zero bits and the 64 bits of the length. -/
def pad (message : List Bool) : List Bool :=
  message ++ true :: List.replicate (zeros message.length) false ++
    bitsOf (BitVec.ofNat 64 message.length)

/-- The hash value after `i` blocks of a padded message. -/
noncomputable def hash (padded : List Bool) : ℕ → Words
  | 0 => initial
  | i + 1 => (hash padded i).compress ((padded.drop (512 * i)).take 512)

/-- The digest. -/
noncomputable def digest (message : List Bool) : List Bool :=
  let s := hash (pad message) ((pad message).length / 512)
  [s.a, s.b, s.c, s.d, s.e, s.f, s.g, s.h].flatMap bitsOf

/-- Block `i` of a concatenation of blocks of `n` elements. -/
theorem block_flatten {α : Type*} {n : ℕ} {blocks : List (List α)}
    (h : ∀ b ∈ blocks, b.length = n) {i : ℕ} (hi : i < blocks.length) :
    (blocks.flatten.drop (n * i)).take n = blocks[i] := by
  induction blocks generalizing i with
  | nil => exact absurd hi (Nat.not_lt_zero i)
  | cons b blocks ih =>
    have hb : b.length = n := h b List.mem_cons_self
    cases i with
    | zero =>
      rw [Nat.mul_zero, List.drop_zero, List.flatten_cons, List.getElem_cons_zero, ← hb,
        List.take_left']
      rfl
    | succ i =>
      have hd : (b ++ blocks.flatten).drop (n * (i + 1)) = blocks.flatten.drop (n * i) := by
        rw [Nat.mul_succ, Nat.add_comm, ← List.drop_drop, ← hb, List.drop_left]
      rw [List.flatten_cons, hd, List.getElem_cons_succ]
      exact ih (fun c hc => h c (List.mem_cons_of_mem b hc)) (Nat.lt_of_succ_lt_succ hi)

theorem hash_flatten {blocks : List (List Bool)} (h : ∀ b ∈ blocks, b.length = 512) {i : ℕ}
    (hi : i ≤ blocks.length) :
    hash blocks.flatten i = (blocks.take i).foldl Words.compress initial := by
  induction i with
  | zero => rfl
  | succ i ih =>
    have hlt : i < blocks.length := hi
    rw [hash, ih hlt.le, block_flatten h hlt, List.take_succ_eq_append_getElem hlt,
      List.foldl_append]
    rfl

end Sha2
