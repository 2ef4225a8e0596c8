import VernisOS.Lib.Bytes

/-!
# A growable buffer of bytes

A buffer that is written in place or spliced : `assign` replaces a range by a list that may be
longer or shorter, and what stands behind it moves. Where the list has the length of the
range, the write keeps the size, stores the list, and leaves everything else alone
(`holds_assign`, `patches_assign`).
-/

namespace Bytes

/-- A buffer of `size` bytes. What `byte` says behind them is not part of it. -/
structure Buffer where
  size : ℕ
  byte : ℕ → UInt8

namespace Buffer

/-- A buffer of zeros. -/
def zeros (size : ℕ) : Buffer :=
  ⟨size, fun _ => 0⟩

/-- Replace the bytes from `a` to `b` by those of `v`. Both ends are cut at the size. -/
def assign (m : Buffer) (a b : ℕ) (v : List UInt8) : Buffer :=
  let a := min a m.size
  let b := max a (min b m.size)
  ⟨a + v.length + (m.size - b), fun k =>
    if k < a then m.byte k
    else if k < a + v.length then v.getD (k - a) 0
    else m.byte (k - (a + v.length) + b)⟩

/-- Store `v` from `a` on; `none` if it does not fit. -/
def packInto (m : Buffer) (a : ℕ) (v : List UInt8) : Option Buffer :=
  if a + v.length ≤ m.size then some (m.assign a (a + v.length) v) else none

variable {m : Buffer} {a : ℕ} {v : List UInt8}

theorem size_assign (h : a + v.length ≤ m.size) : (m.assign a (a + v.length) v).size = m.size := by
  simp only [assign]
  omega

theorem byte_assign (h : a + v.length ≤ m.size) (k : ℕ) :
    (m.assign a (a + v.length) v).byte k =
      if a ≤ k ∧ k < a + v.length then v.getD (k - a) 0 else m.byte k := by
  have ha : min a m.size = a := by omega
  have hb : max a (min (a + v.length) m.size) = a + v.length := by omega
  simp only [assign, ha, hb]
  by_cases hlow : k < a
  · rw [if_pos hlow, if_neg (by omega)]
  · rw [if_neg hlow]
    by_cases hhigh : k < a + v.length
    · rw [if_pos hhigh, if_pos ⟨by omega, hhigh⟩]
    · rw [if_neg hhigh, if_neg (by omega), Nat.sub_add_cancel (by omega)]

/-- The list that was stored. -/
theorem holds_assign (h : a + v.length ≤ m.size) : Holds (m.assign a (a + v.length) v).byte a v := by
  intro k hk
  rw [byte_assign h, if_pos ⟨by omega, by omega⟩, Nat.add_sub_cancel_left]

theorem packInto_some {m' : Buffer} (h : m.packInto a v = some m') :
    a + v.length ≤ m.size ∧ m' = m.assign a (a + v.length) v := by
  unfold packInto at h
  split at h
  · next hfits =>
    cases h
    exact ⟨hfits, rfl⟩
  · cases h

end Buffer

/-- From `m` to `m'` only bytes from `lo` to below `hi` were written. -/
structure Patches (lo hi : ℕ) (m m' : Buffer) : Prop where
  size : m'.size = m.size
  byte : ∀ k, k < lo ∨ hi ≤ k → m'.byte k = m.byte k

variable {lo hi lo' hi' o : ℕ} {m m' m'' : Buffer} {bs : List UInt8}

theorem Patches.refl (lo hi : ℕ) (m : Buffer) : Patches lo hi m m :=
  ⟨rfl, fun _ _ => rfl⟩

theorem Patches.trans (h : Patches lo hi m m') (h' : Patches lo hi m' m'') :
    Patches lo hi m m'' :=
  ⟨h'.size.trans h.size, fun k hk => (h'.byte k hk).trans (h.byte k hk)⟩

theorem Patches.mono (h : Patches lo hi m m') (hlo : lo' ≤ lo) (hhi : hi ≤ hi') :
    Patches lo' hi' m m' :=
  ⟨h.size, fun k hk => h.byte k (by omega)⟩

theorem patches_assign {a : ℕ} {v : List UInt8} (h : a + v.length ≤ m.size) :
    Patches a (a + v.length) m (m.assign a (a + v.length) v) :=
  ⟨Buffer.size_assign h, fun k hk => by rw [Buffer.byte_assign h, if_neg (by omega)]⟩

/-- A list beside the bytes that were written. -/
theorem Holds.patches (hb : Holds m.byte o bs) (h : Patches lo hi m m')
    (hapart : o + bs.length ≤ lo ∨ hi ≤ o) : Holds m'.byte o bs :=
  hb.congr fun k hk hk' => h.byte k (by omega)

end Bytes
