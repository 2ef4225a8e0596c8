import Mathlib.Algebra.Order.Ring.Nat
import Mathlib.Data.List.Basic
import Mathlib.Data.List.GetD

/-!
# Machine integers as bytes

The bytes of an integer in memory, in both orders, the integers read back from them, a buffer
that holds a list of bytes, and the conversion from an unsigned size to a C `int`.
-/

namespace Bytes

/-- The two bytes of a `uint16_t`, little-endian. -/
def le16 (n : UInt16) : List UInt8 :=
  [n.toUInt8, (n >>> 8).toUInt8]

/-- The four bytes of a `uint32_t`, little-endian. -/
def le32 (n : UInt32) : List UInt8 :=
  [n.toUInt8, (n >>> 8).toUInt8, (n >>> 16).toUInt8, (n >>> 24).toUInt8]

@[simp] theorem length_le16 (n : UInt16) : (le16 n).length = 2 := rfl

@[simp] theorem length_le32 (n : UInt32) : (le32 n).length = 4 := rfl

/-- The two bytes of a `uint16_t`, in network order. -/
def be16 (n : UInt16) : List UInt8 :=
  [(n >>> 8).toUInt8, n.toUInt8]

/-- The four bytes of a `uint32_t`, in network order. -/
def be32 (n : UInt32) : List UInt8 :=
  [(n >>> 24).toUInt8, (n >>> 16).toUInt8, (n >>> 8).toUInt8, n.toUInt8]

/-- Two bytes in network order. -/
def ofBe16 (a b : UInt8) : UInt16 :=
  a.toUInt16 * 256 + b.toUInt16

/-- Four bytes in network order. -/
def ofBe32 (a b c d : UInt8) : UInt32 :=
  a.toUInt32 * 16777216 + b.toUInt32 * 65536 + c.toUInt32 * 256 + d.toUInt32

theorem ofBe16_be16 (n : UInt16) : ofBe16 (n >>> 8).toUInt8 n.toUInt8 = n := by
  have hn := n.toNat_lt
  have h256 : (256 : UInt16).toNat = 256 := rfl
  have h8 : (8 : UInt16).toNat = 8 := rfl
  rw [← UInt16.toNat_inj]
  simp only [ofBe16, UInt16.toNat_add, UInt16.toNat_mul, UInt8.toNat_toUInt16,
    UInt16.toNat_toUInt8, UInt16.toNat_shiftRight, Nat.shiftRight_eq_div_pow, h256, h8,
    Nat.reduceMod, Nat.reducePow]
  omega

theorem ofBe32_be32 (n : UInt32) :
    ofBe32 (n >>> 24).toUInt8 (n >>> 16).toUInt8 (n >>> 8).toUInt8 n.toUInt8 = n := by
  have hn := n.toNat_lt
  have ha : (16777216 : UInt32).toNat = 16777216 := rfl
  have hb : (65536 : UInt32).toNat = 65536 := rfl
  have hc : (256 : UInt32).toNat = 256 := rfl
  have h24 : (24 : UInt32).toNat = 24 := rfl
  have h16 : (16 : UInt32).toNat = 16 := rfl
  have h8 : (8 : UInt32).toNat = 8 := rfl
  rw [← UInt32.toNat_inj]
  simp only [ofBe32, UInt32.toNat_add, UInt32.toNat_mul, UInt8.toNat_toUInt32,
    UInt32.toNat_toUInt8, UInt32.toNat_shiftRight, Nat.shiftRight_eq_div_pow, ha, hb, hc, h24,
    h16, h8, Nat.reduceMod, Nat.reducePow]
  omega

/-! ## Text -/

/-- The bytes of a text. -/
def utf8 (s : String) : List UInt8 :=
  s.toList.flatMap String.utf8EncodeChar

theorem toNat_charOfNat {n : ℕ} (h : n < 55296) : (Char.ofNat n).toNat = n := by
  rw [Char.ofNat, dif_pos (Or.inl h)]
  rfl

/-- The byte of a character in ASCII, that of a question mark for any other. -/
def asciiByte (c : Char) : UInt8 :=
  if c.toNat < 128 then UInt8.ofNat c.toNat else 63

theorem encodeChar_ascii {c : Char} (h : c.toNat < 128) :
    String.utf8EncodeChar c = [UInt8.ofNat c.toNat] := by
  unfold String.utf8EncodeChar
  exact if_pos (by change c.toNat ≤ 127; omega)

/-- A character outside ASCII has a byte outside it. -/
theorem exists_byte_ge {c : Char} (h : 128 ≤ c.toNat) :
    ∃ x ∈ String.utf8EncodeChar c, 128 ≤ x.toNat := by
  have hval : c.val.toNat = c.toNat := rfl
  unfold String.utf8EncodeChar
  simp only [hval]
  rw [if_neg (by omega)]
  split
  · refine ⟨_, List.mem_cons_self, ?_⟩
    rw [UInt8.toNat_ofNat_of_lt' (by rw [UInt8.size]; omega)]
    omega
  · split
    · refine ⟨_, List.mem_cons_self, ?_⟩
      rw [UInt8.toNat_ofNat_of_lt' (by rw [UInt8.size]; omega)]
      omega
    · refine ⟨_, List.mem_cons_self, ?_⟩
      rw [UInt8.toNat_ofNat_of_lt' (by rw [UInt8.size]; omega)]
      omega

theorem utf8_ascii {s : String} (h : ∀ c ∈ s.toList, c.toNat < 128) :
    utf8 s = s.toList.map asciiByte := by
  rw [utf8, ← List.flatMap_singleton' (s.toList.map asciiByte), List.flatMap_map]
  refine List.flatMap_congr fun c hc => ?_
  rw [encodeChar_ascii (h c hc), asciiByte, if_pos (h c hc)]

theorem asciiByte_lt (c : Char) : (asciiByte c).toNat < 128 := by
  unfold asciiByte
  split
  · next h =>
    rw [UInt8.toNat_ofNat_of_lt' (by rw [UInt8.size]; omega)]
    exact h
  · decide

/-! ## Buffers -/

/-- Two bytes of a buffer, little-endian. -/
def leAt16 (buf : ℕ → UInt8) (o : ℕ) : UInt16 :=
  ofBe16 (buf (o + 1)) (buf o)

/-- Four bytes of a buffer, little-endian. -/
def leAt32 (buf : ℕ → UInt8) (o : ℕ) : UInt32 :=
  ofBe32 (buf (o + 3)) (buf (o + 2)) (buf (o + 1)) (buf o)

theorem leAt16_eq {buf buf' : ℕ → UInt8} {o o' : ℕ} (h : ∀ k < 2, buf (o + k) = buf' (o' + k)) :
    leAt16 buf o = leAt16 buf' o' := by
  have h0 : buf o = buf' o' := h 0 (by decide)
  rw [leAt16, leAt16, h0, h 1 (by decide)]

theorem leAt32_eq {buf buf' : ℕ → UInt8} {o o' : ℕ} (h : ∀ k < 4, buf (o + k) = buf' (o' + k)) :
    leAt32 buf o = leAt32 buf' o' := by
  have h0 : buf o = buf' o' := h 0 (by decide)
  rw [leAt32, leAt32, h0, h 1 (by decide), h 2 (by decide), h 3 (by decide)]

/-- The buffer holds these bytes from `o` on. -/
def Holds (buf : ℕ → UInt8) (o : ℕ) (bytes : List UInt8) : Prop :=
  ∀ k < bytes.length, buf (o + k) = bytes.getD k 0

variable {buf : ℕ → UInt8} {o : ℕ} {as bs : List UInt8}

theorem holds_append : Holds buf o (as ++ bs) ↔ Holds buf o as ∧ Holds buf (o + as.length) bs := by
  unfold Holds
  rw [List.length_append]
  constructor
  · intro h
    constructor
    · intro k hk
      rw [h k (by omega), List.getD_append _ _ _ _ hk]
    · intro k hk
      rw [Nat.add_assoc, h _ (by omega), List.getD_append_right _ _ _ _ (Nat.le_add_right _ _),
        Nat.add_sub_cancel_left]
  · rintro ⟨has, hbs⟩ k hk
    rcases lt_or_ge k as.length with hlt | hge
    · rw [has k hlt, List.getD_append _ _ _ _ hlt]
    · obtain ⟨j, rfl⟩ := Nat.exists_eq_add_of_le hge
      rw [← Nat.add_assoc, hbs j (by omega), List.getD_append_right _ _ _ _ hge,
        Nat.add_sub_cancel_left]

theorem Holds.congr {buf' : ℕ → UInt8} (h : Holds buf o bs)
    (hbuf : ∀ k, o ≤ k → k < o + bs.length → buf' k = buf k) : Holds buf' o bs := by
  intro k hk
  rw [hbuf _ (by omega) (by omega), h k hk]

theorem Holds.le16 {n : UInt16} (h : Holds buf o (le16 n)) : leAt16 buf o = n := by
  rw [leAt16, h 1 Nat.one_lt_two, show buf o = _ from h 0 Nat.two_pos]
  exact ofBe16_be16 n

theorem Holds.le32 {n : UInt32} (h : Holds buf o (le32 n)) : leAt32 buf o = n := by
  rw [leAt32, h 3 (by decide : 3 < 4), h 2 (by decide : 2 < 4), h 1 (by decide : 1 < 4),
    show buf o = _ from h 0 (by decide : 0 < 4)]
  exact ofBe32_be32 n

/-- The eight bytes of a `uint64_t`, little-endian. -/
def le64 (n : UInt64) : List UInt8 :=
  Bytes.le32 n.toUInt32 ++ Bytes.le32 (n >>> 32).toUInt32

@[simp] theorem length_le64 (n : UInt64) : (le64 n).length = 8 := rfl

/-- Eight bytes of a buffer, little-endian. -/
def leAt64 (buf : ℕ → UInt8) (o : ℕ) : UInt64 :=
  (leAt32 buf (o + 4)).toUInt64 * 4294967296 + (leAt32 buf o).toUInt64

theorem Holds.le64 {n : UInt64} (h : Holds buf o (le64 n)) : leAt64 buf o = n := by
  obtain ⟨hlow, hhigh⟩ := holds_append.mp h
  have hn := n.toNat_lt
  have hbase : (4294967296 : UInt64).toNat = 4294967296 := rfl
  have h32 : (32 : UInt64).toNat = 32 := rfl
  rw [leAt64, hlow.le32, show leAt32 buf (o + 4) = _ from hhigh.le32, ← UInt64.toNat_inj]
  simp only [UInt64.toNat_add, UInt64.toNat_mul, UInt32.toNat_toUInt64, UInt64.toNat_toUInt32,
    UInt64.toNat_shiftRight, Nat.shiftRight_eq_div_pow, hbase, h32, Nat.reduceMod, Nat.reducePow]
  omega

/-- The bytes of a list, zeros behind them. -/
def byteAt (bytes : List UInt8) (k : ℕ) : UInt8 :=
  bytes.getD k 0

theorem holds_byteAt (as bs cs : List UInt8) : Holds (byteAt (as ++ bs ++ cs)) as.length bs := by
  intro k hk
  rw [byteAt, List.append_assoc, List.getD_append_right _ _ _ _ (Nat.le_add_right _ _),
    Nat.add_sub_cancel_left, List.getD_append _ _ _ _ hk]

/-- A list that the buffer holds is what it has in these places. -/
theorem Holds.map_range (h : Holds buf o bs) :
    ((List.range bs.length).map fun k => buf (o + k)) = bs := by
  refine List.ext_getElem (by simp) fun k hk hk' => ?_
  rw [List.getElem_map, List.getElem_range, h k hk', List.getD_eq_getElem _ _ hk']

/-- A buffer holds records of one length behind each other. -/
theorem Holds.flatMap {α : Type*} {f : α → List UInt8} {len : ℕ} (hlen : ∀ a, (f a).length = len)
    {l : List α} (h : Holds buf o (l.flatMap f)) {k : ℕ} {a : α} (hk : l[k]? = some a) :
    Holds buf (o + k * len) (f a) := by
  induction l generalizing o k with
  | nil => cases hk
  | cons x l ih =>
    rw [List.flatMap_cons, holds_append, hlen] at h
    cases k with
    | zero =>
      cases hk
      simpa using h.1
    | succ k =>
      have hrest := ih h.2 hk
      rwa [Nat.add_assoc, Nat.add_comm len, ← Nat.succ_mul] at hrest

/-! ## Sizes -/

theorem ofNat_ne_zero {n : ℕ} (h : 1 ≤ n) (h' : n < 4294967296) : UInt32.ofNat n ≠ 0 := by
  intro hzero
  have hval := congrArg UInt32.toNat hzero
  rw [UInt32.toNat_ofNat_of_lt' h'] at hval
  change n = 0 at hval
  omega


/-- The `int` an unsigned number is converted to. -/
def cInt (n : UInt32) : Int :=
  n.toInt32.toInt

theorem cInt_eq (n : UInt32) :
    cInt n = if 2 * n.toNat < 2 ^ 32 then (n.toNat : Int) else n.toNat - (2 ^ 32 : ℕ) :=
  BitVec.toInt_eq_toNat_cond n.toBitVec

theorem cInt_neg (n : UInt32) : cInt n < 0 ↔ 2 ^ 31 ≤ n.toNat := by
  have hn := n.toNat_lt
  rw [cInt_eq]
  split <;> omega

theorem cInt_of_lt {n : UInt32} (h : n.toNat < 2 ^ 31) : cInt n = n.toNat := by
  rw [cInt_eq, if_pos (by omega)]

end Bytes
