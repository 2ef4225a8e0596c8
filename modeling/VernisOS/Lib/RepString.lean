import Mathlib.Data.BitVec
import Mathlib.Tactic.Abel

/-!
# String instructions

A processor with the registers of `movs` and `stos`, the direction flag and a byte memory whose
addresses wrap. `Memory.moved` is what a move is for : the bytes that the source held before, and
the rest as it was.

A forward run reads ahead of what it has written when no source byte lies where an earlier one
goes (`Ahead`), a backward run when none lies where a later one goes (`Behind`). Both runs then
move (`rep_movs_forward`, `turns_movs_backward`), for elements of any size in the forward
case : an element is loaded before it is stored.
-/

namespace RepString

variable {w : ℕ}

/-! ## Memory -/

/-- A byte at every address of `w` bits. -/
abbrev Memory (w : ℕ) :=
  BitVec w → UInt8

/-- `mem` with the `n` bytes at `dest` replaced by the values of `f` at their offsets. -/
def Memory.write (mem : Memory w) (dest : BitVec w) (n : ℕ) (f : BitVec w → UInt8) : Memory w :=
  fun a => if (a - dest).toNat < n then f (a - dest) else mem a

/-- `mem` with the `n` bytes at `dest` replaced by the bytes it has at `src`. -/
def Memory.moved (mem : Memory w) (dest src : BitVec w) (n : ℕ) : Memory w :=
  mem.write dest n fun i => mem (src + i)

/-- `mem` with the `n` bytes at `dest` set to `b`. -/
def Memory.filled (mem : Memory w) (dest : BitVec w) (n : ℕ) (b : UInt8) : Memory w :=
  mem.write dest n fun _ => b

/-- Where byte `j` of the source lies, counted from the destination. -/
def offset (dest src : BitVec w) (j : ℕ) : ℕ :=
  (src + BitVec.ofNat w j - dest).toNat

/-- No byte of the source lies where an earlier one goes. -/
def Ahead (dest src : BitVec w) (n : ℕ) : Prop :=
  ∀ j < n, j ≤ offset dest src j

/-- No byte of the source lies where a later one goes. -/
def Behind (dest src : BitVec w) (n : ℕ) : Prop :=
  ∀ j < n, offset dest src j ≤ j ∨ n ≤ offset dest src j

/-! ## Arithmetic of offsets -/

theorem toNat_sub_ofNat {x : BitVec w} {p : ℕ} (h : p ≤ x.toNat) :
    (x - BitVec.ofNat w p).toNat = x.toNat - p := by
  have hx := x.isLt
  rw [BitVec.toNat_sub, BitVec.toNat_ofNat, Nat.mod_eq_of_lt (by omega : p < 2 ^ w)]
  have hsum : 2 ^ w - p + x.toNat = x.toNat - p + 2 ^ w := by omega
  rw [hsum, Nat.add_mod_right, Nat.mod_eq_of_lt (by omega)]

theorem le_toNat_sub_ofNat {x : BitVec w} {p q : ℕ} (hsum : p + q ≤ 2 ^ w) (h : x.toNat < p) :
    q ≤ (x - BitVec.ofNat w p).toNat := by
  rcases Nat.eq_or_lt_of_le (by omega : p ≤ 2 ^ w) with heq | hlt
  · omega
  · rw [BitVec.toNat_sub, BitVec.toNat_ofNat, Nat.mod_eq_of_lt hlt,
      Nat.mod_eq_of_lt (by omega : 2 ^ w - p + x.toNat < 2 ^ w)]
    omega

/-- Past the first `p` bytes, an offset below `q` is one between `p` and `p + q`. -/
theorem toNat_sub_lt_iff {x : BitVec w} {p q : ℕ} (hsum : p + q ≤ 2 ^ w) :
    (x - BitVec.ofNat w p).toNat < q ↔ p ≤ x.toNat ∧ x.toNat < p + q := by
  rcases Nat.lt_or_ge x.toNat p with hlt | hge
  · have hq := le_toNat_sub_ofNat hsum hlt
    omega
  · rw [toNat_sub_ofNat hge]
    omega

theorem add_ofNat_add (a : BitVec w) (m n : ℕ) :
    a + BitVec.ofNat w m + BitVec.ofNat w n = a + BitVec.ofNat w (m + n) := by
  rw [BitVec.add_assoc, ← BitVec.ofNat_add]

theorem sub_one_sub (a : BitVec w) (k : ℕ) :
    a - 1 - BitVec.ofNat w k = a - BitVec.ofNat w (k + 1) := by
  have hone : BitVec.ofNat w 1 = 1 := rfl
  rw [BitVec.ofNat_add, hone]
  abel

theorem offset_shift (dest src : BitVec w) (p j : ℕ) :
    offset (dest + BitVec.ofNat w p) (src + BitVec.ofNat w p) j = offset dest src j := by
  rw [offset, offset]
  congr 1
  abel

theorem offset_toNat (dest src x : BitVec w) :
    offset dest src x.toNat = (src + x - dest).toNat := by
  rw [offset, BitVec.ofNat_toNat, BitVec.setWidth_eq]

theorem Ahead.shift {dest src : BitVec w} {p q : ℕ} (h : Ahead dest src (p + q)) :
    Ahead (dest + BitVec.ofNat w p) (src + BitVec.ofNat w p) q := fun j hj => by
  rw [offset_shift]
  exact h j (by omega)

theorem Ahead.mono {dest src : BitVec w} {m n : ℕ} (h : Ahead dest src n) (hle : m ≤ n) :
    Ahead dest src m := fun j hj => h j (by omega)

theorem Behind.mono {dest src : BitVec w} {m n : ℕ} (h : Behind dest src n) (hle : m ≤ n) :
    Behind dest src m := fun j hj => (h j (by omega)).imp id fun h => by omega

/-! ## Moves in two parts -/

variable (mem : Memory w) {dest src : BitVec w} {p q : ℕ}

theorem Memory.moved_zero (dest src : BitVec w) : mem.moved dest src 0 = mem :=
  funext fun a => by rw [Memory.moved, Memory.write, if_neg (Nat.not_lt_zero _)]

theorem Memory.moved_self (dest : BitVec w) (n : ℕ) : mem.moved dest dest n = mem := by
  funext a
  have ha : dest + (a - dest) = a := by abel
  rw [Memory.moved, Memory.write, ha, ite_self]

theorem Memory.moved_forward (hsum : p + q ≤ 2 ^ w) (h : Ahead dest src (p + q)) :
    (mem.moved dest src p).moved (dest + BitVec.ofNat w p) (src + BitVec.ofNat w p) q =
      mem.moved dest src (p + q) := by
  funext a
  have hx : a - (dest + BitVec.ofNat w p) = a - dest - BitVec.ofNat w p := by abel
  have hsrc : src + BitVec.ofNat w p + (a - dest - BitVec.ofNat w p) = src + (a - dest) := by abel
  simp only [Memory.moved, Memory.write, hx, hsrc, toNat_sub_lt_iff hsum]
  rcases Nat.lt_or_ge (a - dest).toNat p with hlt | hge
  · rw [if_neg (by omega), if_pos hlt, if_pos (by omega)]
  · rcases Nat.lt_or_ge (a - dest).toNat (p + q) with hlt | hge'
    · -- the second part reads a byte that the first has not written
      have hread : ¬ (src + (a - dest) - dest).toNat < p := by
        have hahead := h (a - dest).toNat hlt
        rw [offset_toNat] at hahead
        omega
      rw [if_pos ⟨hge, hlt⟩, if_neg hread, if_pos hlt]
    · rw [if_neg (by omega), if_neg (by omega), if_neg (by omega)]

theorem Memory.moved_backward (hsum : p + q ≤ 2 ^ w) (h : Behind dest src (p + q)) :
    (mem.moved (dest + BitVec.ofNat w p) (src + BitVec.ofNat w p) q).moved dest src p =
      mem.moved dest src (p + q) := by
  funext a
  have hx (a : BitVec w) : a - (dest + BitVec.ofNat w p) = a - dest - BitVec.ofNat w p := by abel
  have hsrc (x : BitVec w) : src + BitVec.ofNat w p + (x - BitVec.ofNat w p) = src + x := by abel
  simp only [Memory.moved, Memory.write, hx, hsrc, toNat_sub_lt_iff hsum]
  rcases Nat.lt_or_ge (a - dest).toNat p with hlt | hge
  · have hread : ¬ (p ≤ (src + (a - dest) - dest).toNat ∧
        (src + (a - dest) - dest).toNat < p + q) := by
      have hbehind := h (a - dest).toNat (by omega)
      rw [offset_toNat] at hbehind
      omega
    rw [if_pos hlt, if_neg hread, if_pos (by omega)]
  · rw [if_neg (by omega)]
    exact if_congr (by omega) rfl rfl

theorem Memory.filled_forward (hsum : p + q ≤ 2 ^ w) (dest : BitVec w) (b : UInt8) :
    (mem.filled dest p b).filled (dest + BitVec.ofNat w p) q b = mem.filled dest (p + q) b := by
  funext a
  have hx : a - (dest + BitVec.ofNat w p) = a - dest - BitVec.ofNat w p := by abel
  simp only [Memory.filled, Memory.write, hx, toNat_sub_lt_iff hsum]
  split_ifs <;> first | rfl | omega

/-! ## Instructions -/

/-- The memory, the registers of the string instructions and the direction flag. -/
structure Cpu (w : ℕ) where
  mem : Memory w
  di : BitVec w
  si : BitVec w
  cx : BitVec w
  df : Bool

/-- The address of the next element of `size` bytes. -/
def Cpu.advance (s : Cpu w) (size : ℕ) (a : BitVec w) : BitVec w :=
  if s.df then a - BitVec.ofNat w size else a + BitVec.ofNat w size

/-- `movs` with elements of `size` bytes. -/
def Cpu.movs (size : ℕ) (s : Cpu w) : Cpu w :=
  { s with
    mem := s.mem.moved s.di s.si size
    di := s.advance size s.di
    si := s.advance size s.si }

/-- `stos` of the low `size` bytes of `ax`, the lowest first. -/
def Cpu.stos {m : ℕ} (size : ℕ) (ax : BitVec m) (s : Cpu w) : Cpu w :=
  { s with
    mem := s.mem.write s.di size fun i => ⟨ax.extractLsb' (8 * i.toNat) 8⟩
    di := s.advance size s.di }

/-- `k` turns of `rep`. -/
def Cpu.turns (body : Cpu w → Cpu w) : ℕ → Cpu w → Cpu w
  | 0, s => s
  | k + 1, s => Cpu.turns body k { body s with cx := s.cx - 1 }

/-- `rep` : until the count is zero. -/
def Cpu.rep (body : Cpu w → Cpu w) (s : Cpu w) : Cpu w :=
  Cpu.turns body s.cx.toNat s

/-! ## Runs -/

theorem turns_movs_forward (size k : ℕ) {s : Cpu w} (hdf : s.df = false)
    (hsum : size * k ≤ 2 ^ w) (h : Ahead s.di s.si (size * k)) :
    Cpu.turns (Cpu.movs size) k s =
      { s with
        mem := s.mem.moved s.di s.si (size * k)
        di := s.di + BitVec.ofNat w (size * k)
        si := s.si + BitVec.ofNat w (size * k)
        cx := s.cx - BitVec.ofNat w k } := by
  induction k generalizing s with
  | zero =>
    rw [Cpu.turns, Nat.mul_zero, Memory.moved_zero]
    simp
  | succ k ih =>
    have hsplit : size * (k + 1) = size + size * k := by rw [Nat.mul_succ, Nat.add_comm]
    rw [hsplit] at hsum h
    have hnext := ih (s := { Cpu.movs size s with cx := s.cx - 1 }) hdf (by omega)
      (by simpa [Cpu.movs, Cpu.advance, hdf] using h.shift)
    rw [Cpu.turns, hnext]
    simp only [Cpu.movs, Cpu.advance, hdf, Bool.false_eq_true, if_false, add_ofNat_add,
      sub_one_sub]
    rw [Memory.moved_forward _ hsum h, hsplit]

/-- A backward run of bytes, which starts at the last one. -/
theorem turns_movs_backward (k : ℕ) {s : Cpu w} {dest src : BitVec w} (hdf : s.df = true)
    (hdi : s.di = dest + BitVec.ofNat w k - 1) (hsi : s.si = src + BitVec.ofNat w k - 1)
    (hsum : k ≤ 2 ^ w) (h : Behind dest src k) :
    (Cpu.turns (Cpu.movs 1) k s).mem = s.mem.moved dest src k := by
  induction k generalizing s with
  | zero => rw [Cpu.turns, Memory.moved_zero]
  | succ k ih =>
    have hone : BitVec.ofNat w 1 = 1 := rfl
    rw [← add_ofNat_add, hone, add_sub_cancel_right] at hdi hsi
    rw [Cpu.turns, ih (s := { Cpu.movs 1 s with cx := s.cx - 1 }) hdf
      (by simp only [Cpu.movs, Cpu.advance, hdf, if_true, hdi, hone])
      (by simp only [Cpu.movs, Cpu.advance, hdf, if_true, hsi, hone]) (by omega)
      (h.mono (Nat.le_succ k))]
    simp only [Cpu.movs, hdi, hsi]
    exact Memory.moved_backward s.mem hsum h

theorem turns_stos_forward {m : ℕ} (size k : ℕ) {ax : BitVec m} {b : UInt8} {s : Cpu w}
    (hax : ∀ i < size, (⟨ax.extractLsb' (8 * i) 8⟩ : UInt8) = b) (hdf : s.df = false)
    (hsum : size * k ≤ 2 ^ w) :
    Cpu.turns (Cpu.stos size ax) k s =
      { s with
        mem := s.mem.filled s.di (size * k) b
        di := s.di + BitVec.ofNat w (size * k)
        cx := s.cx - BitVec.ofNat w k } := by
  have hone (s : Cpu w) :
      s.mem.write s.di size (fun i => ⟨ax.extractLsb' (8 * i.toNat) 8⟩) =
        s.mem.filled s.di size b := by
    funext a
    simp only [Memory.filled, Memory.write]
    split_ifs with hlt
    · exact hax _ hlt
    · rfl
  induction k generalizing s with
  | zero =>
    have hzero : s.mem.filled s.di (size * 0) b = s.mem :=
      funext fun a => by
        rw [Memory.filled, Memory.write, Nat.mul_zero, if_neg (Nat.not_lt_zero _)]
    rw [Cpu.turns, hzero]
    simp
  | succ k ih =>
    have hsplit : size * (k + 1) = size + size * k := by rw [Nat.mul_succ, Nat.add_comm]
    rw [hsplit] at hsum
    rw [Cpu.turns, ih (s := { Cpu.stos size ax s with cx := s.cx - 1 }) hdf (by omega)]
    simp only [Cpu.stos, Cpu.advance, hdf, Bool.false_eq_true, if_false, add_ofNat_add,
      sub_one_sub, hone]
    rw [Memory.filled_forward _ hsum, hsplit]

theorem rep_movs_forward (size : ℕ) {s : Cpu w} (hdf : s.df = false)
    (hsum : size * s.cx.toNat ≤ 2 ^ w) (h : Ahead s.di s.si (size * s.cx.toNat)) :
    Cpu.rep (Cpu.movs size) s =
      { s with
        mem := s.mem.moved s.di s.si (size * s.cx.toNat)
        di := s.di + BitVec.ofNat w (size * s.cx.toNat)
        si := s.si + BitVec.ofNat w (size * s.cx.toNat)
        cx := 0 } := by
  have hcx : s.cx - BitVec.ofNat w s.cx.toNat = 0 := by
    rw [BitVec.ofNat_toNat, BitVec.setWidth_eq, sub_self]
  rw [Cpu.rep, turns_movs_forward size _ hdf hsum h, hcx]

theorem rep_stos_forward {m : ℕ} (size : ℕ) {ax : BitVec m} {b : UInt8} {s : Cpu w}
    (hax : ∀ i < size, (⟨ax.extractLsb' (8 * i) 8⟩ : UInt8) = b) (hdf : s.df = false)
    (hsum : size * s.cx.toNat ≤ 2 ^ w) :
    Cpu.rep (Cpu.stos size ax) s =
      { s with
        mem := s.mem.filled s.di (size * s.cx.toNat) b
        di := s.di + BitVec.ofNat w (size * s.cx.toNat)
        cx := 0 } := by
  have hcx : s.cx - BitVec.ofNat w s.cx.toNat = 0 := by
    rw [BitVec.ofNat_toNat, BitVec.setWidth_eq, sub_self]
  rw [Cpu.rep, turns_stos_forward size _ hax hdf hsum, hcx]

/-- A move of whole elements and then of bytes. -/
theorem rep_movs_then (size : ℕ) (mem : Memory w) {dest src q r : BitVec w}
    (hsum : size * q.toNat + r.toNat ≤ 2 ^ w) (h : Ahead dest src (size * q.toNat + r.toNat)) :
    Cpu.rep (Cpu.movs 1) { Cpu.rep (Cpu.movs size) ⟨mem, dest, src, q, false⟩ with cx := r } =
      ⟨mem.moved dest src (size * q.toNat + r.toNat),
        dest + BitVec.ofNat w (size * q.toNat + r.toNat),
        src + BitVec.ofNat w (size * q.toNat + r.toNat), 0, false⟩ := by
  have hone : 1 * r.toNat = r.toNat := Nat.one_mul _
  rw [rep_movs_forward size rfl (Nat.le_of_add_right_le hsum) (h.mono (Nat.le_add_right _ _)),
    rep_movs_forward 1 rfl (by rw [hone]; exact Nat.le_of_add_left_le hsum)
      (by rw [hone]; exact h.shift)]
  simp only [hone, add_ofNat_add, Memory.moved_forward mem hsum h]

/-- A fill of whole elements and then of bytes. -/
theorem rep_stos_then {m n : ℕ} (size : ℕ) (mem : Memory w) {ax : BitVec m} {al : BitVec n}
    {b : UInt8} {dest src q r : BitVec w}
    (hax : ∀ i < size, (⟨ax.extractLsb' (8 * i) 8⟩ : UInt8) = b)
    (hal : ∀ i < 1, (⟨al.extractLsb' (8 * i) 8⟩ : UInt8) = b)
    (hsum : size * q.toNat + r.toNat ≤ 2 ^ w) :
    Cpu.rep (Cpu.stos 1 al) { Cpu.rep (Cpu.stos size ax) ⟨mem, dest, src, q, false⟩ with cx := r } =
      ⟨mem.filled dest (size * q.toNat + r.toNat) b,
        dest + BitVec.ofNat w (size * q.toNat + r.toNat), src, 0, false⟩ := by
  have hone : 1 * r.toNat = r.toNat := Nat.one_mul _
  rw [rep_stos_forward size hax rfl (Nat.le_of_add_right_le hsum),
    rep_stos_forward 1 hal rfl (by rw [hone]; exact Nat.le_of_add_left_le hsum)]
  simp only [hone, add_ofNat_add, Memory.filled_forward mem hsum]

/-! ## When a run reads in time -/

/-- Ranges that share no address. -/
def NoOverlap (dest src : BitVec w) (n : ℕ) : Prop :=
  ∀ i < n, ∀ j < n, dest + BitVec.ofNat w i ≠ src + BitVec.ofNat w j

theorem NoOverlap.ahead {n : ℕ} (h : NoOverlap dest src n) : Ahead dest src n := by
  intro j hj
  by_contra hlt
  refine h (offset dest src j) (by omega) j hj ?_
  rw [offset, BitVec.ofNat_toNat, BitVec.setWidth_eq]
  abel

/-- Where a source byte lies, when neither range runs past the last address. -/
theorem toNat_add_ofNat {a : BitVec w} {n j : ℕ} (h : a.toNat + n ≤ 2 ^ w) (hj : j < n) :
    (a + BitVec.ofNat w j).toNat = a.toNat + j := by
  rw [BitVec.toNat_add, BitVec.toNat_ofNat, Nat.mod_eq_of_lt (by omega : j < 2 ^ w),
    Nat.mod_eq_of_lt (by omega)]

theorem ahead_of_le {n : ℕ} (hsrc : src.toNat + n ≤ 2 ^ w) (hle : dest.toNat ≤ src.toNat) :
    Ahead dest src n := by
  intro j hj
  have hadd := toNat_add_ofNat hsrc hj
  have hsub := toNat_sub_ofNat (x := src + BitVec.ofNat w j) (p := dest.toNat) (by omega)
  rw [BitVec.ofNat_toNat, BitVec.setWidth_eq] at hsub
  rw [offset, hsub, hadd]
  omega

theorem behind_of_le {n : ℕ} (hdest : dest.toNat + n ≤ 2 ^ w) (hsrc : src.toNat + n ≤ 2 ^ w)
    (hle : src.toNat ≤ dest.toNat) : Behind dest src n := by
  intro j hj
  have hadd := toNat_add_ofNat hsrc hj
  have hofNat : BitVec.ofNat w dest.toNat = dest := by
    rw [BitVec.ofNat_toNat, BitVec.setWidth_eq]
  rcases Nat.lt_or_ge (src.toNat + j) dest.toNat with hlt | hge
  · refine Or.inr ?_
    have hfar := le_toNat_sub_ofNat (x := src + BitVec.ofNat w j) hdest (by omega)
    rwa [hofNat] at hfar
  · refine Or.inl ?_
    have hsub := toNat_sub_ofNat (x := src + BitVec.ofNat w j) (p := dest.toNat) (by omega)
    rw [hofNat] at hsub
    rw [offset, hsub, hadd]
    omega

end RepString
