import Mathlib
import VernisOS.Lib.Run
import VernisOS.Process

/-!
# The heap of a program

`malloc` of `userlib/libc.c` over `sys_sbrk` of `kernel/arch/x86_64/kernel_x64.c`. The allocator
keeps a cursor of its own beside the break of the kernel, and passes sizes on through an `int`.
Whether the kernel finds the frames for the pages of a call is part of the call.

Blocks stay apart from each other and from the memory that the program takes with `sbrk`, as long
as every block begins at the break and its size is a positive `int` (`heap_apart`).
-/

open Bytes Run

namespace VernisOS

/-! ## The break -/

/-- The break that `sys_sbrk` starts from. -/
def breakOf (brk : UInt64) : UInt64 :=
  if brk = 0 then 0x10100000 else brk

/-- `sys_sbrk` : the result and the break behind it. `mapped` says whether there are frames for
all pages of a positive increment. -/
def sysSbrkBreak (brk increment : UInt64) (mapped : Bool) : UInt64 × UInt64 :=
  let old := breakOf brk
  if increment = 0 then (old, old)
  else if increment < 0x8000000000000000 then
    if mapped then (old, old + increment) else (0xFFFFFFFFFFFFFFFF, old)
  else (old, old + increment)

/-- The call of the running task, with the pages of its address space. -/
theorem sysSbrk_break (m : Machine) (increment : UInt64) :
    ((m.sysSbrk increment).1.getD 0xFFFFFFFFFFFFFFFF, (m.sysSbrk increment).2.cur.brk) =
      sysSbrkBreak m.cur.brk increment
        (loadPages (m.root m.current) (m.sbrkPages increment) m.paging).1 := by
  have hold : m.oldBrk = breakOf m.cur.brk := rfl
  have hcur (m : Machine) (t : TaskSlot) : (m.setCur t).cur = t := by
    rw [Machine.cur, Machine.setCur_tasks, Machine.setCur_current, Function.update_self]
  unfold Machine.sysSbrk sysSbrkBreak
  by_cases hzero : increment = 0
  · rw [if_pos hzero, if_pos hzero, hcur]
    rfl
  rw [if_neg hzero, if_neg hzero]
  by_cases hpos : increment < 0x8000000000000000
  · rw [if_pos hpos, if_pos hpos]
    dsimp only
    split
    · rw [hcur]
      rfl
    · rw [hcur]
      rfl
  · rw [if_neg hpos, if_neg hpos, hcur]
    rfl

/-- An `int` as a `size_t`. -/
def signExtend (n : UInt32) : UInt64 :=
  if n < 0x80000000 then n.toUInt64 else n.toUInt64 + 0xFFFFFFFF00000000

/-- `sbrk` of `syscall.h`. -/
def sbrk (brk : UInt64) (increment : UInt32) (mapped : Bool) : UInt64 × UInt64 :=
  sysSbrkBreak brk (signExtend increment) mapped

/-! ## The allocator -/

/-- The break of the task and `heap_cur`. -/
structure Heap where
  brk : UInt64
  heapCur : UInt64

/-- `(size + 15) & ~15`. -/
def roundUp16 (size : UInt64) : UInt64 :=
  (size + 15) &&& ~~~15

/-- `(intptr_t)p < 0`. -/
def isNegative (p : UInt64) : Bool :=
  decide (0x8000000000000000 ≤ p)

/-- The first lines of `malloc` : `heap_cur` is set to the break if it is not set yet. -/
def Heap.start (s : Heap) : Heap :=
  if s.heapCur = 0 then
    let r := sbrk s.brk 0 true
    ⟨r.2, r.1⟩
  else s

/-- `malloc`. -/
def malloc (s : Heap) (size : UInt64) (mapped : Bool) : UInt64 × Heap :=
  if size = 0 then (0, s)
  else
    let size := roundUp16 size
    let t := s.start
    if s.heapCur = 0 ∧ isNegative t.heapCur then (0, t)
    else
      let r := sbrk t.brk size.toUInt32 mapped
      if isNegative r.1 then (0, ⟨r.2, t.heapCur⟩)
      else (t.heapCur, ⟨r.2, t.heapCur + size⟩)

/-! ## Runs -/

inductive HeapOp
  | malloc (size : UInt64) (mapped : Bool)
  | sbrk (increment : UInt32) (mapped : Bool)

/-- A block that `malloc` has returned, with the break at that time. -/
structure HeapBlock where
  start : ℕ
  size : ℕ
  top : ℕ

/-- The addresses of a block. -/
def HeapBlock.bytes (b : HeapBlock) : Set ℕ :=
  Set.Ico b.start (b.start + b.size)

/-- A program with its blocks and the ranges it has from its own calls of `sbrk`. A call that
lowers the break gives back what lies above it. -/
structure HeapRun where
  heap : Heap
  blocks : List HeapBlock
  own : List (ℕ × ℕ)

/-- The addresses of the ranges. -/
def HeapRun.ownBytes (s : HeapRun) : Set ℕ :=
  ⋃ r ∈ s.own, Set.Ico r.1 r.2

def HeapRun.step (s : HeapRun) : HeapOp → HeapRun
  | .malloc size mapped =>
    let r := malloc s.heap size mapped
    if r.1 = 0 then { s with heap := r.2 }
    else { s with heap := r.2, blocks := ⟨r.1.toNat, size.toNat, r.2.brk.toNat⟩ :: s.blocks }
  | .sbrk increment mapped =>
    let r := sbrk s.heap.brk increment mapped
    let own :=
      if cInt increment < 0 then s.own.map fun q => (q.1, min q.2 r.2.toNat)
      else if r.1 = 0xFFFFFFFFFFFFFFFF then s.own
      else (r.1.toNat, r.2.toNat) :: s.own
    { s with heap := ⟨r.2, s.heap.heapCur⟩, own := own }

/-- A program at its start. -/
def HeapRun.init (brk : UInt64) : HeapRun :=
  ⟨⟨brk, 0⟩, [], []⟩

/-- Blocks share no byte with each other or with the program's own memory, and each lies between
the initial break and the break at the time `malloc` returned it. -/
structure HeapRun.Apart (init : ℕ) (s : HeapRun) : Prop where
  blocks : s.blocks.Pairwise fun b c => Disjoint b.bytes c.bytes
  inside : ∀ b ∈ s.blocks, init ≤ b.start ∧ b.start + b.size ≤ b.top
  own : ∀ b ∈ s.blocks, Disjoint b.bytes s.ownBytes

/-- A call that keeps cursor and break together. The break is a user address. A block begins at
the break, and its size, rounded up, is a positive `int`; or there are no frames for it. The
program gives back no memory below the cursor or the initial break. -/
def HeapRun.CallOk (init : ℕ) (s : HeapRun) (op : HeapOp) : Prop :=
  s.heap.brk < 0x8000000000000000 ∧
  match op with
  | .malloc size mapped => size = 0 ∨
      (0 < cInt (roundUp16 size).toUInt32 ∧ mapped = false) ∨
      size ≤ 0x7FFFFFF0 ∧ (s.heap.heapCur = 0 ∨ s.heap.heapCur = s.heap.brk)
  | .sbrk increment _ =>
      (init : ℤ) ≤ (breakOf s.heap.brk).toNat + cInt increment ∧
      (s.heap.heapCur.toNat : ℤ) ≤ (breakOf s.heap.brk).toNat + cInt increment

/-! ## Single calls -/

theorem breakOf_ne_zero (brk : UInt64) : breakOf brk ≠ 0 := by
  unfold breakOf
  split
  · decide
  · assumption

theorem breakOf_of_ne_zero {brk : UInt64} (h : brk ≠ 0) : breakOf brk = brk :=
  if_neg h

theorem toNat_breakOf_lt {brk : UInt64} (h : brk < 0x8000000000000000) :
    (breakOf brk).toNat < 2 ^ 63 := by
  unfold breakOf
  split
  · decide
  · exact h

theorem toNat_pos {x : UInt64} (h : x ≠ 0) : 0 < x.toNat :=
  Nat.pos_of_ne_zero fun h0 => h (UInt64.toNat_inj.mp h0)

theorem toNat_signExtend (n : UInt32) :
    (signExtend n).toNat = if n.toNat < 2 ^ 31 then n.toNat else n.toNat + 0xFFFFFFFF00000000 := by
  have hn := n.toNat_lt
  have hlt : n < 0x80000000 ↔ n.toNat < 2 ^ 31 := Iff.rfl
  rw [signExtend]
  simp only [hlt]
  split
  · exact UInt32.toNat_toUInt64 n
  · rw [UInt64.toNat_add, UInt32.toNat_toUInt64]
    exact Nat.mod_eq_of_lt (by change _ + 0xFFFFFFFF00000000 < _; omega)

theorem cInt_cases (n : UInt32) :
    n.toNat < 2 ^ 31 ∧ cInt n = n.toNat ∨ 2 ^ 31 ≤ n.toNat ∧ cInt n = n.toNat - 2 ^ 32 := by
  rw [cInt_eq]
  split
  · exact Or.inl ⟨by omega, rfl⟩
  · exact Or.inr ⟨by omega, by omega⟩

/-- A call fails for want of frames, or moves the break by its increment. -/
theorem sbrk_cases (brk : UInt64) (increment : UInt32) (mapped : Bool) :
    0 < cInt increment ∧ mapped = false ∧
        sbrk brk increment mapped = (0xFFFFFFFFFFFFFFFF, breakOf brk) ∨
      (0 < cInt increment → mapped = true) ∧
        sbrk brk increment mapped = (breakOf brk, breakOf brk + signExtend increment) := by
  have hn := increment.toNat_lt
  have hext := toNat_signExtend increment
  have hzero : signExtend increment = 0 ↔ (signExtend increment).toNat = 0 :=
    UInt64.toNat_inj.symm
  have hlt : signExtend increment < 0x8000000000000000 ↔ (signExtend increment).toNat < 2 ^ 63 :=
    Iff.rfl
  unfold sbrk sysSbrkBreak
  dsimp only
  rcases cInt_cases increment with ⟨hsmall, hc⟩ | ⟨hlarge, hc⟩
  · rw [if_pos hsmall] at hext
    by_cases h0 : signExtend increment = 0
    · refine Or.inr ⟨fun hpos => ?_, ?_⟩
      · rw [hzero, hext] at h0
        omega
      · rw [if_pos h0, h0, UInt64.add_zero]
    · rw [if_neg h0, if_pos (hlt.mpr (by omega))]
      cases mapped with
      | false =>
        rw [hzero, hext] at h0
        exact Or.inl ⟨by omega, rfl, rfl⟩
      | true => exact Or.inr ⟨fun _ => rfl, rfl⟩
  · rw [if_neg (by omega)] at hext
    refine Or.inr ⟨fun hpos => by omega, ?_⟩
    rw [if_neg (by rw [hzero]; omega), if_neg (by rw [hlt]; omega)]

/-- A break that stays inside the address space. -/
theorem toNat_add_signExtend (old : UInt64) (increment : UInt32)
    (hlow : 0 ≤ (old.toNat : ℤ) + cInt increment)
    (hhigh : (old.toNat : ℤ) + cInt increment < 2 ^ 64) :
    ((old + signExtend increment).toNat : ℤ) = old.toNat + cInt increment := by
  have hold := old.toNat_lt
  have hn := increment.toNat_lt
  rw [UInt64.toNat_add, toNat_signExtend]
  rcases cInt_cases increment with ⟨hsmall, hc⟩ | ⟨hlarge, hc⟩
  · rw [if_pos hsmall, Nat.mod_eq_of_lt (by omega)]
    omega
  · rw [if_neg (by omega)]
    have hsum : old.toNat + (increment.toNat + 0xFFFFFFFF00000000) =
        old.toNat + increment.toNat - 2 ^ 32 + 2 ^ 64 := by omega
    rw [hsum, Nat.add_mod_right, Nat.mod_eq_of_lt (by omega)]
    omega

theorem toNat_roundUp16 {size : UInt64} (h : size ≤ 0x7FFFFFF0) :
    size.toNat ≤ (roundUp16 size).toNat ∧ (roundUp16 size).toNat ≤ 0x7FFFFFF0 := by
  have hle : size.toNat ≤ 0x7FFFFFF0 := h
  have hadd : (size + 15).toNat = size.toNat + 15 := by
    rw [UInt64.toNat_add]
    exact Nat.mod_eq_of_lt (by change size.toNat + 15 < _; omega)
  have hround : (roundUp16 size).toNat = (size.toNat + 15) / 16 * 16 := by
    rw [roundUp16, toNat_and_clear _ (k := 4) (by decide) (by decide), hadd]
    rfl
  omega

/-! ## The cursor and the break -/

namespace HeapRun

/-- Blocks end at the cursor, the program's own memory ends at the break, and the cursor is not
beyond it. -/
structure Inv (init : ℕ) (s : HeapRun) : Prop extends s.Apart init where
  init_le : init ≤ (breakOf s.heap.brk).toNat
  cursor_le : s.heap.heapCur.toNat ≤ (breakOf s.heap.brk).toNat
  below : ∀ b ∈ s.blocks, b.start + b.size ≤ s.heap.heapCur.toNat
  own_le : ∀ q ∈ s.own, q.2 ≤ (breakOf s.heap.brk).toNat

variable {init : ℕ} {s : HeapRun}

/-- The cursor may move up to the break, and the break up from there. -/
theorem Inv.move (h : s.Inv init) {heap : Heap}
    (hcur : s.heap.heapCur.toNat ≤ heap.heapCur.toNat)
    (hle : heap.heapCur.toNat ≤ (breakOf heap.brk).toNat)
    (hbrk : (breakOf s.heap.brk).toNat ≤ (breakOf heap.brk).toNat) :
    Inv init { s with heap := heap } where
  blocks := h.blocks
  inside := h.inside
  own := h.own
  init_le := h.init_le.trans hbrk
  cursor_le := hle
  below b hb := (h.below b hb).trans hcur
  own_le q hq := (h.own_le q hq).trans hbrk

/-- Memory from the break on is disjoint from all memory in use. -/
theorem Inv.above (h : s.Inv init) {lo : ℕ} (hlo : (breakOf s.heap.brk).toNat ≤ lo) (hi : ℕ) :
    (∀ b ∈ s.blocks, Disjoint (Set.Ico lo hi) b.bytes) ∧
      Disjoint (Set.Ico lo hi) s.ownBytes := by
  refine ⟨fun b hb => ?_, ?_⟩
  · refine Set.disjoint_left.mpr fun a ha hin => ?_
    have hend := (h.below b hb).trans h.cursor_le
    exact absurd (ha.1.trans_lt (hin.2.trans_le hend)) (not_lt_of_ge hlo)
  · refine Set.disjoint_left.mpr fun a ha hin => ?_
    obtain ⟨q, hq, hin⟩ := Set.mem_iUnion₂.mp hin
    exact absurd (ha.1.trans_lt (hin.2.trans_le (h.own_le q hq))) (not_lt_of_ge hlo)

theorem toNat_breakOf_pos (brk : UInt64) : 0 < (breakOf brk).toNat :=
  toNat_pos (breakOf_ne_zero brk)

theorem breakOf_breakOf (brk : UInt64) : breakOf (breakOf brk) = breakOf brk :=
  breakOf_of_ne_zero (breakOf_ne_zero brk)

theorem isNegative_eq_false {x : UInt64} (h : x.toNat < 2 ^ 63) : isNegative x = false :=
  decide_eq_false fun hle => absurd (show 2 ^ 63 ≤ x.toNat from hle) (by omega)

/-- The cursor and the break where a block is cut off. -/
theorem start_eq {t : Heap} (h : t.heapCur = 0 ∨ t.heapCur = t.brk) :
    t.start.heapCur = breakOf t.brk ∧ breakOf t.start.brk = breakOf t.brk := by
  have hzero : sbrk t.brk 0 true = (breakOf t.brk, breakOf t.brk) := rfl
  unfold Heap.start
  by_cases h0 : t.heapCur = 0
  · rw [if_pos h0, hzero]
    exact ⟨rfl, breakOf_breakOf t.brk⟩
  · have heq := h.resolve_left h0
    rw [if_neg h0]
    exact ⟨by rw [breakOf_of_ne_zero (heq ▸ h0), heq], rfl⟩

/-- What a call of `malloc` leaves. The cursor stays below the break when there is no block, and
a block lies between the old break and both. -/
theorem malloc_cases {t : Heap} (hbrk : t.brk < 0x8000000000000000)
    (hcur : t.heapCur.toNat ≤ (breakOf t.brk).toNat) {size : UInt64} {mapped : Bool}
    (hok : size = 0 ∨ (0 < cInt (roundUp16 size).toUInt32 ∧ mapped = false) ∨
      size ≤ 0x7FFFFFF0 ∧ (t.heapCur = 0 ∨ t.heapCur = t.brk)) :
    (∃ t', malloc t size mapped = (0, t') ∧ t.heapCur.toNat ≤ t'.heapCur.toNat ∧
      t'.heapCur.toNat ≤ (breakOf t'.brk).toNat ∧ breakOf t'.brk = breakOf t.brk) ∨
    ∃ end_, malloc t size mapped = (breakOf t.brk, ⟨end_, end_⟩) ∧
      (breakOf t.brk).toNat + size.toNat ≤ end_.toNat ∧ end_.toNat < 2 ^ 64 := by
  have hold := toNat_breakOf_lt hbrk
  have hneg := isNegative_eq_false hold
  unfold malloc
  by_cases hzero : size = 0
  · rw [if_pos hzero]
    exact Or.inl ⟨t, rfl, le_rfl, hcur, rfl⟩
  rw [if_neg hzero]
  dsimp only
  -- the first lines leave the break and a cursor below it
  have hstart : breakOf t.start.brk = breakOf t.brk ∧ t.heapCur.toNat ≤ t.start.heapCur.toNat ∧
      t.start.heapCur.toNat ≤ (breakOf t.brk).toNat := by
    by_cases h0 : t.heapCur = 0
    · obtain ⟨hcursor, hbreak⟩ := start_eq (Or.inl h0)
      rw [hcursor]
      exact ⟨hbreak, hcur, Nat.le_refl _⟩
    · have hsame : t.start = t := if_neg h0
      rw [hsame]
      exact ⟨rfl, le_rfl, hcur⟩
  have hpass : ¬ (t.heapCur = 0 ∧ isNegative t.start.heapCur = true) := by
    rintro ⟨h0, hn⟩
    rw [(start_eq (Or.inl h0)).1, hneg] at hn
    exact Bool.noConfusion hn
  rw [if_neg hpass]
  rcases sbrk_cases t.start.brk (roundUp16 size).toUInt32 mapped with
    ⟨-, -, hr⟩ | ⟨hmapped, hr⟩
  · refine Or.inl ⟨⟨breakOf t.brk, t.start.heapCur⟩, ?_, hstart.2.1, ?_, breakOf_breakOf _⟩
    · rw [hr, hstart.1]
      rfl
    · dsimp only
      rw [breakOf_breakOf]
      exact hstart.2.2
  · rcases (hok.resolve_left hzero) with ⟨hpos, hfail⟩ | ⟨hsize, hat⟩
    · rw [hmapped hpos] at hfail
      exact Bool.noConfusion hfail
    · obtain ⟨hcursor, -⟩ := start_eq hat
      obtain ⟨hle, hmax⟩ := toNat_roundUp16 hsize
      have hint : (roundUp16 size).toUInt32.toNat = (roundUp16 size).toNat := by
        rw [UInt64.toNat_toUInt32]
        exact Nat.mod_eq_of_lt (by omega)
      have hext : signExtend (roundUp16 size).toUInt32 = roundUp16 size := by
        rw [← UInt64.toNat_inj, toNat_signExtend, if_pos (by omega), hint]
      have hend : (breakOf t.brk + roundUp16 size).toNat =
          (breakOf t.brk).toNat + (roundUp16 size).toNat := by
        rw [UInt64.toNat_add]
        exact Nat.mod_eq_of_lt (by omega)
      refine Or.inr ⟨breakOf t.brk + roundUp16 size, ?_, by omega, UInt64.toNat_lt _⟩
      rw [hr, hext, hstart.1, hcursor, hneg]
      rfl

/-- A call of `malloc` that keeps cursor and break together. -/
theorem Inv.malloc (h : s.Inv init) {size : UInt64} {mapped : Bool}
    (hok : s.CallOk init (.malloc size mapped)) : (s.step (.malloc size mapped)).Inv init := by
  rcases malloc_cases hok.1 h.cursor_le hok.2 with ⟨t', hr, hcur, hle, hbrk⟩ | ⟨e, hr, hle, -⟩
  · have hstep : s.step (.malloc size mapped) = { s with heap := t' } := by
      rw [step, hr]
      rfl
    rw [hstep]
    exact h.move hcur hle (by rw [hbrk])
  · have hne : e ≠ 0 := fun h0 => by
      have hpos := toNat_breakOf_pos s.heap.brk
      rw [h0, UInt64.toNat_zero] at hle
      omega
    have hstep : s.step (.malloc size mapped) = { s with
        heap := ⟨e, e⟩
        blocks := ⟨(breakOf s.heap.brk).toNat, size.toNat, e.toNat⟩ :: s.blocks } := by
      rw [step, hr]
      exact if_neg (breakOf_ne_zero _)
    obtain ⟨hblocks, hown⟩ := h.above le_rfl ((breakOf s.heap.brk).toNat + size.toNat)
    have hcur := h.cursor_le
    rw [hstep]
    constructor
    · refine ⟨List.pairwise_cons.mpr ⟨hblocks, h.blocks⟩, ?_, ?_⟩
      · rintro b (_ | ⟨_, hb⟩)
        · exact ⟨h.init_le, hle⟩
        · exact h.inside b hb
      · rintro b (_ | ⟨_, hb⟩)
        · exact hown
        · exact h.own b hb
    · rw [breakOf_of_ne_zero hne]
      exact h.init_le.trans (by omega)
    · rw [breakOf_of_ne_zero hne]
    · rintro b (_ | ⟨_, hb⟩)
      · exact hle
      · have hbelow := h.below b hb
        dsimp only
        omega
    · intro q hq
      have hq' := h.own_le q hq
      rw [breakOf_of_ne_zero hne]
      omega

/-- A call of the program's own. -/
theorem Inv.sbrk (h : s.Inv init) (hinit : 0 < init) {increment : UInt32} {mapped : Bool}
    (hok : s.CallOk init (.sbrk increment mapped)) : (s.step (.sbrk increment mapped)).Inv init := by
  obtain ⟨hbrk, hlow, hcur⟩ := hok
  have hold := toNat_breakOf_lt hbrk
  rcases sbrk_cases s.heap.brk increment mapped with ⟨hpos, -, hr⟩ | ⟨-, hr⟩
  · have hstep : s.step (.sbrk increment mapped) =
        { s with heap := ⟨breakOf s.heap.brk, s.heap.heapCur⟩ } := by
      rw [step, hr]
      dsimp only
      rw [if_neg (by omega), if_pos rfl]
    rw [hstep]
    refine h.move le_rfl ?_ ?_
    · dsimp only
      rw [breakOf_breakOf]
      exact h.cursor_le
    · dsimp only
      rw [breakOf_breakOf]
  · have hsmall : cInt increment < 2 ^ 31 := by
      have hn := increment.toNat_lt
      rcases cInt_cases increment with ⟨hlt, hc⟩ | ⟨hge, hc⟩ <;> omega
    have hnew := toNat_add_signExtend (breakOf s.heap.brk) increment (by omega) (by omega)
    generalize hnb : breakOf s.heap.brk + signExtend increment = newBrk at hr hnew
    have hne : newBrk ≠ 0 := fun h0 => by
      rw [h0, UInt64.toNat_zero] at hnew
      omega
    have hb : breakOf newBrk = newBrk := breakOf_of_ne_zero hne
    have hnotneg : breakOf s.heap.brk ≠ 0xFFFFFFFFFFFFFFFF := fun heq => by
      rw [heq] at hold
      exact absurd hold (by decide)
    by_cases hshrink : cInt increment < 0
    · have hstep : s.step (.sbrk increment mapped) = { s with
          heap := ⟨newBrk, s.heap.heapCur⟩
          own := s.own.map fun q => (q.1, min q.2 newBrk.toNat) } := by
        rw [step, hr]
        dsimp only
        rw [if_pos hshrink]
      rw [hstep]
      refine ⟨⟨h.blocks, h.inside, fun b hb' => (h.own b hb').mono_right ?_⟩, ?_, ?_, h.below, ?_⟩
      · -- what is given back only takes bytes away
        refine Set.iUnion₂_subset fun q hq a ha => ?_
        obtain ⟨q', hq', rfl⟩ := List.mem_map.mp hq
        exact Set.mem_iUnion₂.mpr ⟨q', hq', ha.1, ha.2.trans_le (min_le_left _ _)⟩
      · dsimp only
        rw [hb]
        omega
      · dsimp only
        rw [hb]
        omega
      · intro q hq
        obtain ⟨q', hq', rfl⟩ := List.mem_map.mp hq
        dsimp only
        rw [hb]
        exact min_le_right _ _
    · have hstep : s.step (.sbrk increment mapped) = { s with
          heap := ⟨newBrk, s.heap.heapCur⟩
          own := ((breakOf s.heap.brk).toNat, newBrk.toNat) :: s.own } := by
        rw [step, hr]
        dsimp only
        rw [if_neg hshrink, if_neg hnotneg]
      have hmore : (breakOf s.heap.brk).toNat ≤ newBrk.toNat := by omega
      obtain ⟨hblocks, -⟩ := h.above le_rfl newBrk.toNat
      have hinit' := h.init_le
      have hcur' := h.cursor_le
      rw [hstep]
      refine ⟨⟨h.blocks, h.inside, fun b hb' => ?_⟩, ?_, ?_, h.below, ?_⟩
      · refine Set.disjoint_left.mpr fun a ha hin => ?_
        obtain ⟨q, hq, hin⟩ := Set.mem_iUnion₂.mp hin
        rcases List.mem_cons.mp hq with rfl | hq
        · exact Set.disjoint_left.mp (hblocks b hb') hin ha
        · exact Set.disjoint_left.mp (h.own b hb') ha (Set.mem_iUnion₂.mpr ⟨q, hq, hin⟩)
      · dsimp only
        rw [hb]
        omega
      · dsimp only
        rw [hb]
        omega
      · intro q hq
        dsimp only
        rw [hb]
        rcases List.mem_cons.mp hq with rfl | hq
        · exact le_rfl
        · exact (h.own_le q hq).trans hmore

theorem inv_init (brk : UInt64) : Inv (breakOf brk).toNat (HeapRun.init brk) where
  blocks := List.Pairwise.nil
  inside _ hb := absurd hb (List.not_mem_nil)
  own _ hb := absurd hb (List.not_mem_nil)
  init_le := le_rfl
  cursor_le := Nat.zero_le _
  below _ hb := absurd hb (List.not_mem_nil)
  own_le _ hq := absurd hq (List.not_mem_nil)

instance (init : ℕ) (s : HeapRun) : (op : HeapOp) → Decidable (s.CallOk init op)
  | .malloc _ _ => inferInstanceAs (Decidable (_ ∧ (_ ∨ _ ∨ _)))
  | .sbrk _ _ => inferInstanceAs (Decidable (_ ∧ (_ ∧ _)))

end HeapRun

/-- In every run whose calls keep cursor and break together, the blocks lie apart in every state
reached. -/
theorem heap_apart (brk : UInt64) (ops : List HeapOp)
    (h : Along (fun s op => some (s.step op)) (HeapRun.CallOk (breakOf brk).toNat) (.init brk)
      ops) :
    After (fun s op => some (s.step op)) (HeapRun.Apart (breakOf brk).toNat) (.init brk) ops := by
  refine After.mono (fun s hs => hs.toApart) ops _ (After.of_along ?_ ops _ (HeapRun.inv_init brk) h)
  rintro s op s' hs hok hstep
  obtain rfl := Option.some.inj hstep
  cases op with
  | malloc size mapped => exact hs.malloc hok
  | sbrk increment mapped => exact hs.sbrk (HeapRun.toNat_breakOf_pos brk) hok

/-- Two blocks, with a call of the program's own between them, where the second block begins
behind the first one and not at the break. -/
def ownThenBlock : List HeapOp :=
  [.malloc 16 true, .sbrk 16 true, .malloc 16 true]

theorem not_heap_apart :
    ¬ ∀ (brk : UInt64) (ops : List HeapOp),
      After (fun s op => some (s.step op)) (HeapRun.Apart (breakOf brk).toNat) (.init brk)
        ops := by
  intro h
  have hlast := (After.foldl _ _ (h 0 ownThenBlock)).own
  have hblocks : (⟨0x10100010, 16, 0x10100030⟩ : HeapBlock) ∈
      (ownThenBlock.foldl HeapRun.step (.init 0)).blocks := List.mem_cons_self
  have hin : 0x10100010 ∈ (ownThenBlock.foldl HeapRun.step (.init 0)).ownBytes :=
    Set.mem_iUnion₂.mpr ⟨(0x10100010, 0x10100020), List.mem_cons_self, by decide, by decide⟩
  exact Set.disjoint_left.mp (hlast _ hblocks) ⟨by decide, by decide⟩ hin

/-- Calls of both kinds : memory of the program's own before the first block, two blocks, one
that fails, and memory that is taken and given back between blocks. -/
def heapCalls : List HeapOp :=
  [.sbrk 4096 true, .malloc 100 true, .malloc 5000 true, .malloc 64 false, .sbrk 64 true,
    .sbrk (-64) true, .malloc 1 true]

theorem heap_apart_calls :
    After (fun s op => some (s.step op)) (HeapRun.Apart (breakOf 0).toNat) (.init 0) heapCalls :=
  heap_apart 0 heapCalls (by
    refine ⟨by decide, ?_⟩
    rintro _ ⟨⟩
    refine ⟨by decide, ?_⟩
    rintro _ ⟨⟩
    refine ⟨by decide, ?_⟩
    rintro _ ⟨⟩
    refine ⟨by decide, ?_⟩
    rintro _ ⟨⟩
    refine ⟨by decide, ?_⟩
    rintro _ ⟨⟩
    refine ⟨by decide, ?_⟩
    rintro _ ⟨⟩
    refine ⟨by decide, ?_⟩
    rintro _ ⟨⟩
    trivial)

end VernisOS
