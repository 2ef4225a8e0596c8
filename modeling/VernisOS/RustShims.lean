import Mathlib.Tactic.IntervalCases
import VernisOS.Lib.RepString

/-!
# Memory primitives

`kernel/shims/rust_shims.c` : copies and fills by whole words and then by the bytes that are
left. They are the string instructions of `Lib/RepString.lean`, with the pointers of the first
instruction passed on to the second.
-/

namespace VernisOS

open RepString (Memory Cpu)

/-- The targets the shims are compiled for. -/
inductive ShimTarget
  | i686
  | x86_64
deriving DecidableEq

/-- `sizeof(WORD_T)`. -/
def ShimTarget.word : ShimTarget → ℕ
  | .i686 => 4
  | .x86_64 => 8

/-- A pointer or a `size_t`, as wide as `WORD_T`. -/
abbrev ShimTarget.Ptr (t : ShimTarget) :=
  BitVec (8 * t.word)

/-- What a primitive finds and leaves : the memory and the direction flag. -/
structure ShimState (t : ShimTarget) where
  mem : Memory (8 * t.word)
  df : Bool

/-- The first instruction of a primitive, on whole words, and the second, on the bytes left. -/
def wordsThenBytes {t : ShimTarget} (words bytes : Cpu (8 * t.word) → Cpu (8 * t.word))
    (s : ShimState t) (dest src n : t.Ptr) : ShimState t :=
  let c := Cpu.rep words ⟨s.mem, dest, src, n / BitVec.ofNat _ t.word, s.df⟩
  let c := Cpu.rep bytes { c with cx := n % BitVec.ofNat _ t.word }
  ⟨c.mem, c.df⟩

/-- `memcpy`. -/
def memcpy {t : ShimTarget} (s : ShimState t) (dest src n : t.Ptr) : ShimState t × t.Ptr :=
  (wordsThenBytes (Cpu.movs t.word) (Cpu.movs 1) s dest src n, dest)

/-- `(uint8_t)c`. -/
def lowByte (c : Int32) : UInt8 :=
  c.toUInt32.toUInt8

/-- `pattern` of `memset`. -/
def memsetPattern (t : ShimTarget) (c : Int32) : BitVec (8 * t.word) :=
  let pattern := (lowByte c).toBitVec.setWidth (8 * t.word)
  let pattern := pattern ||| pattern <<< 8
  let pattern := pattern ||| pattern <<< 16
  if t = .x86_64 then pattern ||| pattern <<< 32 else pattern

/-- `memset`. -/
def memset {t : ShimTarget} (s : ShimState t) (p : t.Ptr) (c : Int32) (n : t.Ptr) :
    ShimState t × t.Ptr :=
  (wordsThenBytes (Cpu.stos t.word (memsetPattern t c)) (Cpu.stos 1 (lowByte c).toBitVec) s p 0 n,
    p)

/-- `memmove`. -/
def memmove {t : ShimTarget} (s : ShimState t) (dest src n : t.Ptr) : ShimState t × t.Ptr :=
  if dest = src ∨ n = 0 then (s, dest)
  else if dest.toNat < src.toNat then memcpy s dest src n
  else
    -- `std`, `rep movsb`, `cld`
    let c := Cpu.rep (Cpu.movs 1) ⟨s.mem, dest + n - 1, src + n - 1, n, true⟩
    (⟨c.mem, false⟩, dest)

variable {t : ShimTarget}

theorem toNat_sizeofWord : (BitVec.ofNat (8 * t.word) t.word).toNat = t.word := by
  cases t <;> rfl

/-- The words and the bytes that are left make up the length. -/
theorem words_add_bytes (n : t.Ptr) :
    t.word * (n / BitVec.ofNat _ t.word).toNat + (n % BitVec.ofNat _ t.word).toNat =
      n.toNat := by
  rw [BitVec.toNat_udiv, BitVec.toNat_umod, toNat_sizeofWord]
  exact Nat.div_add_mod n.toNat t.word

/-- The forward copy, when no source byte lies where an earlier one goes. -/
theorem memcpy_of_ahead (mem : Memory (8 * t.word)) {dest src n : t.Ptr}
    (h : RepString.Ahead dest src n.toNat) :
    memcpy ⟨mem, false⟩ dest src n = (⟨mem.moved dest src n.toNat, false⟩, dest) := by
  have hsum := words_add_bytes n
  have hn := n.isLt
  rw [← hsum] at h
  rw [memcpy, wordsThenBytes]
  dsimp only
  rw [RepString.rep_movs_then t.word mem (by rw [hsum]; exact hn.le) h, hsum]

theorem pattern_byte (c : Int32) {i : ℕ} (hi : i < t.word) :
    (⟨(memsetPattern t c).extractLsb' (8 * i) 8⟩ : UInt8) = lowByte c := by
  rw [memsetPattern]
  generalize lowByte c = b
  rw [← UInt8.toBitVec_inj]
  dsimp only
  generalize b.toBitVec = v
  cases t with
  | i686 =>
    have hi' : i < 4 := hi
    interval_cases i <;> revert v <;> decide
  | x86_64 =>
    have hi' : i < 8 := hi
    interval_cases i <;> revert v <;> decide

theorem memset_eq (mem : Memory (8 * t.word)) (p : t.Ptr) (c : Int32) (n : t.Ptr) :
    memset ⟨mem, false⟩ p c n = (⟨mem.filled p n.toNat (lowByte c), false⟩, p) := by
  have hsum := words_add_bytes n
  have hn := n.isLt
  have hbyte : ∀ i < 1, (⟨(lowByte c).toBitVec.extractLsb' (8 * i) 8⟩ : UInt8) = lowByte c := by
    intro i hi
    rw [Nat.lt_one_iff.mp hi]
    simp
  rw [memset, wordsThenBytes]
  dsimp only
  rw [RepString.rep_stos_then t.word mem (fun i hi => pattern_byte c hi) hbyte
    (by rw [hsum]; exact hn.le), hsum]

theorem memmove_eq (mem : Memory (8 * t.word)) {dest src n : t.Ptr}
    (hdest : dest.toNat + n.toNat ≤ 2 ^ (8 * t.word))
    (hsrc : src.toNat + n.toNat ≤ 2 ^ (8 * t.word)) :
    memmove ⟨mem, false⟩ dest src n = (⟨mem.moved dest src n.toNat, false⟩, dest) := by
  rw [memmove]
  split_ifs with hsame hbelow
  · rcases hsame with rfl | rfl
    · rw [Memory.moved_self]
    · have hzero : BitVec.toNat (0 : t.Ptr) = 0 := BitVec.toNat_zero
      rw [hzero, Memory.moved_zero]
  · exact memcpy_of_ahead mem (RepString.ahead_of_le hsrc hbelow.le)
  · rw [Cpu.rep]
    dsimp only
    rw [RepString.turns_movs_backward n.toNat rfl (by simp) (by simp) n.isLt.le
      (RepString.behind_of_le hdest hsrc (by omega))]

/-- The primitives. The `n` bytes of a pointer lie in the address space, and the direction flag is
clear, as the calling convention has it, and is left clear. -/
theorem memory_primitives (t : ShimTarget) (mem : Memory (8 * t.word)) :
    (∀ dest src n : t.Ptr, dest.toNat + n.toNat ≤ 2 ^ (8 * t.word) →
      src.toNat + n.toNat ≤ 2 ^ (8 * t.word) →
        memmove ⟨mem, false⟩ dest src n = (⟨mem.moved dest src n.toNat, false⟩, dest) ∧
        (dest.toNat < src.toNat →
          memcpy ⟨mem, false⟩ dest src n = (⟨mem.moved dest src n.toNat, false⟩, dest))) ∧
      (∀ dest src n : t.Ptr, RepString.NoOverlap dest src n.toNat →
        memcpy ⟨mem, false⟩ dest src n = (⟨mem.moved dest src n.toNat, false⟩, dest)) ∧
      ∀ (s : t.Ptr) (c : Int32) (n : t.Ptr),
        memset ⟨mem, false⟩ s c n = (⟨mem.filled s n.toNat (lowByte c), false⟩, s) := by
  refine ⟨fun dest src n hdest hsrc => ⟨memmove_eq mem hdest hsrc, fun hbelow => ?_⟩,
    fun dest src n h => memcpy_of_ahead mem h.ahead, memset_eq mem⟩
  exact memcpy_of_ahead mem (RepString.ahead_of_le hsrc hbelow.le)

/-- Memory in which each byte is the low byte of its address. -/
def countingMemory : Memory 64 :=
  fun a => UInt8.ofNat a.toNat

/-- A move of 21 bytes by three, in both directions. -/
theorem memory_primitives_overlap :
    memmove (t := .x86_64) ⟨countingMemory, false⟩ 4099 4096 21 =
        (⟨countingMemory.moved 4099 4096 21, false⟩, 4099) ∧
      memmove (t := .x86_64) ⟨countingMemory, false⟩ 4096 4099 21 =
        (⟨countingMemory.moved 4096 4099 21, false⟩, 4096) :=
  ⟨((memory_primitives .x86_64 countingMemory).1 4099 4096 21 (by decide) (by decide)).1,
    ((memory_primitives .x86_64 countingMemory).1 4096 4099 21 (by decide) (by decide)).1⟩

end VernisOS
