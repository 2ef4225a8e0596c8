import Mathlib.Algebra.Order.Ring.Nat
import Mathlib.Data.List.Infix
import VernisOS.Lib.Ring

/-!
# Streams numbered modulo `2^32`

The positions of a stream are numbered by `UInt32`, from a base on. `Frag` says that bytes
stand in the stream at a number, `InOrder` that a receiver has an initial part of it and
expects the next number, and `Window` that a sender keeps in a ring what is not
acknowledged yet. As long as the stream is shorter than `2^32` a number determines the
position, so bytes that stand at the expected number may be appended (`InOrder.append`).
-/

namespace SeqStream

variable {α : Type*} {base : UInt32} {S S' : List α}

/-- The bytes stand in `S` at number `seq`. -/
def Frag (base : UInt32) (S : List α) (seq : UInt32) (bytes : List α) : Prop :=
  ∃ k ≤ S.length, seq = base + UInt32.ofNat k ∧ bytes <+: S.drop k

/-- `got` is an initial part of `S`, and `next` is the number of the byte behind it. -/
def InOrder (base : UInt32) (S : List α) (next : UInt32) (got : List α) : Prop :=
  ∃ r ≤ S.length, next = base + UInt32.ofNat r ∧ got = S.take r

theorem drop_isPrefix_drop (h : S <+: S') (k : ℕ) (hk : k ≤ S.length) : S.drop k <+: S'.drop k := by
  obtain ⟨t, rfl⟩ := h
  rw [List.drop_append_of_le_length hk]
  exact List.prefix_append _ _

theorem Frag.mono {seq : UInt32} {bytes : List α} (h : Frag base S seq bytes) (hS : S <+: S') :
    Frag base S' seq bytes := by
  obtain ⟨k, hk, hseq, hb⟩ := h
  exact ⟨k, hk.trans hS.length_le, hseq, hb.trans (drop_isPrefix_drop hS k hk)⟩

theorem Frag.shorten {seq : UInt32} {bytes bytes' : List α} (h : Frag base S seq bytes)
    (hb : bytes' <+: bytes) : Frag base S seq bytes' := by
  obtain ⟨k, hk, hseq, hb'⟩ := h
  exact ⟨k, hk, hseq, hb.trans hb'⟩

theorem InOrder.mono {next : UInt32} {got : List α} (h : InOrder base S next got)
    (hS : S <+: S') : InOrder base S' next got := by
  obtain ⟨r, hr, hnext, hgot⟩ := h
  obtain ⟨t, rfl⟩ := hS
  refine ⟨r, hr.trans (by simp), hnext, ?_⟩
  rw [List.take_append_of_le_length hr, hgot]

theorem InOrder.isPrefix {next : UInt32} {got : List α} (h : InOrder base S next got) :
    got <+: S := by
  obtain ⟨r, -, -, rfl⟩ := h
  exact List.take_prefix r S

theorem inOrder_nil (base : UInt32) (S : List α) : InOrder base S base [] :=
  ⟨0, Nat.zero_le _, by simp, by simp⟩

/-- Below `2^32` a number determines the position. -/
theorem offset_inj {k r : ℕ} (hk : k < 2 ^ 32) (hr : r < 2 ^ 32)
    (h : base + UInt32.ofNat k = base + UInt32.ofNat r) : k = r := by
  have hkr : UInt32.ofNat k = UInt32.ofNat r := by
    have := congrArg (fun x => x - base) h
    simpa [UInt32.add_comm base] using this
  have hnat := congrArg UInt32.toNat hkr
  rwa [UInt32.toNat_ofNat_of_lt' hk, UInt32.toNat_ofNat_of_lt' hr] at hnat

/-- What stands at the expected number may be appended. -/
theorem InOrder.append {next : UInt32} {got bytes : List α} (hS : S.length < 2 ^ 32)
    (h : InOrder base S next got) (hf : Frag base S next bytes) :
    InOrder base S (next + UInt32.ofNat bytes.length) (got ++ bytes) := by
  obtain ⟨r, hr, rfl, rfl⟩ := h
  obtain ⟨k, hk, hseq, hb⟩ := hf
  obtain rfl : r = k := offset_inj (by omega) (by omega) hseq
  have hlen : bytes.length ≤ (S.drop r).length := hb.length_le
  rw [List.length_drop] at hlen
  refine ⟨r + bytes.length, by omega, ?_, ?_⟩
  · rw [UInt32.ofNat_add, UInt32.add_assoc]
  · rw [List.take_add, ← List.prefix_iff_eq_take.mp hb]

/-! ## The sender's window -/

variable {n : ℕ} [NeZero n]

/-- The bytes from number `una` on are unacknowledged and kept in the ring; `next` is the
number of the next byte to be sent. -/
def Window (base : UInt32) (S : List α) (una next : UInt32) (buf : Fin n → α)
    (start : ℕ) : Prop :=
  ∃ u ≤ S.length, S.length - u ≤ n ∧ una = base + UInt32.ofNat u ∧
    next = base + UInt32.ofNat S.length ∧ Ring.Holds buf start (S.drop u)

variable {una next : UInt32} {buf : Fin n → α} {start : ℕ}

theorem window_nil (base : UInt32) (buf : Fin n → α) (start : ℕ) :
    Window base [] base base buf start :=
  ⟨0, le_refl 0, Nat.zero_le n, by simp, by simp, Ring.holds_nil buf start⟩

theorem offset_sub (base : UInt32) {u l : ℕ} (hu : u ≤ l) (hlt : l - u < 2 ^ 32) :
    (base + UInt32.ofNat l - (base + UInt32.ofNat u)).toNat = l - u := by
  have h : base + UInt32.ofNat l - (base + UInt32.ofNat u) = UInt32.ofNat (l - u) := by
    conv_lhs => rw [← Nat.add_sub_of_le hu, UInt32.ofNat_add, ← UInt32.add_assoc,
      UInt32.add_comm (base + UInt32.ofNat u), UInt32.add_sub_cancel]
  rw [h, UInt32.toNat_ofNat_of_lt' hlt]

/-- What is in flight fits into the ring. -/
theorem Window.inflight_le (h : Window base S una next buf start) (hn : n < 2 ^ 32) :
    (next - una).toNat ≤ n := by
  obtain ⟨u, hu, hfit, rfl, rfl, -⟩ := h
  rw [offset_sub base hu (by omega)]
  exact hfit

/-- Bytes that fit are queued behind those in flight. -/
theorem Window.send (h : Window base S una next buf start) (hn : n < 2 ^ 32) (bytes : List α)
    (hfit : (next - una).toNat + bytes.length ≤ n) :
    Window base (S ++ bytes) una (next + UInt32.ofNat bytes.length)
      (Ring.put buf (start + (next - una).toNat) bytes) start := by
  obtain ⟨u, hu, hle, rfl, rfl, hbuf⟩ := h
  have hin := offset_sub base hu (by omega)
  rw [hin] at hfit ⊢
  refine ⟨u, ?_, ?_, rfl, ?_, ?_⟩
  · rw [List.length_append]
    omega
  · rw [List.length_append]
    omega
  · rw [List.length_append, UInt32.ofNat_add, UInt32.add_assoc]
  · rw [List.drop_append_of_le_length hu, ← List.length_drop]
    exact hbuf.put_append (by rw [List.length_drop]; omega)

/-- An acknowledgement inside the window moves it. -/
theorem Window.ack (h : Window base S una next buf start) (hn : n < 2 ^ 32) (ack : UInt32)
    (hle : (ack - una).toNat ≤ (next - una).toNat) :
    Window base S ack next buf (start + (ack - una).toNat) := by
  obtain ⟨u, hu, hfit, rfl, rfl, hbuf⟩ := h
  rw [offset_sub base hu (by omega)] at hle
  set d := (ack - (base + UInt32.ofNat u)).toNat with hd
  refine ⟨u + d, by omega, by omega, ?_, rfl, ?_⟩
  · rw [UInt32.ofNat_add, ← UInt32.add_assoc, hd, UInt32.ofNat_toNat, UInt32.add_comm,
      UInt32.sub_add_cancel]
  · rw [← List.drop_drop]
    exact hbuf.drop d

/-- What is read from the front of the ring stands in the stream at `una`. -/
theorem Window.head (h : Window base S una next buf start) (hn : n < 2 ^ 32) {k : ℕ}
    (hk : k ≤ (next - una).toNat) : Frag base S una (Ring.get buf start k) := by
  obtain ⟨u, hu, hfit, rfl, rfl, hbuf⟩ := h
  rw [offset_sub base hu (by omega)] at hk
  refine ⟨u, hu, rfl, ?_⟩
  rw [hbuf.get (by rw [List.length_drop]; exact hk)]
  exact List.take_prefix _ _

/-- The last bytes sent stand in the stream where they were sent. -/
theorem Window.frag_send (h : Window base S una next buf start) (bytes : List α) :
    Frag base (S ++ bytes) next bytes := by
  obtain ⟨u, -, -, -, rfl, -⟩ := h
  exact ⟨S.length, by simp, rfl, by simp⟩

/-! ## Numbered bytes -/

/-- The bytes of `S` with their numbers, from `base` on. -/
def numbered (base : UInt32) : List α → List (UInt32 × α)
  | [] => []
  | a :: S => (base, a) :: numbered (base + 1) S

/-- What was numbered last with `seq`. -/
def byteFor (log : List (UInt32 × α)) (seq : UInt32) : Option α :=
  log.reverse.lookup seq

theorem numbered_append (S T : List α) :
    ∀ base, numbered base (S ++ T) = numbered base S ++ numbered (base + UInt32.ofNat S.length) T := by
  induction S with
  | nil => simp [numbered]
  | cons a S ih =>
    intro base
    rw [List.cons_append, numbered, numbered, ih, List.cons_append, List.length_cons,
      Nat.add_comm S.length, UInt32.ofNat_add, UInt32.add_assoc]
    rfl

/-- Among the last `2^32` bytes a number stands for one byte. -/
theorem byteFor_numbered (base : UInt32) (S : List α) {k : ℕ} (hk : k < S.length)
    (hlast : S.length - k ≤ 2 ^ 32) :
    byteFor (numbered base S) (base + UInt32.ofNat k) = some S[k] := by
  induction S using List.reverseRecOn with
  | nil => exact absurd hk (by simp)
  | append_singleton S a ih =>
    rw [List.length_append, List.length_singleton] at hk hlast
    rw [byteFor, numbered_append, List.reverse_append]
    simp only [numbered, List.reverse_singleton, List.singleton_append, List.lookup_cons]
    by_cases hlen : k = S.length
    · subst hlen
      simp
    · have hne : base + UInt32.ofNat k ≠ base + UInt32.ofNat S.length := by
        intro he
        have hsub := congrArg UInt32.toNat (UInt32.add_right_inj _ |>.mp he)
        rw [UInt32.toNat_ofNat', UInt32.toNat_ofNat'] at hsub
        omega
      rw [List.getElem_append_left (by omega), beq_false_of_ne hne]
      exact ih (by omega) (by omega)

/-- The ring has the byte of every number in flight. -/
theorem Window.byteFor (h : Window base S una next buf start) (hn : n < 2 ^ 32) {i : ℕ}
    (hi : i < (next - una).toNat) :
    SeqStream.byteFor (numbered base S) (una + UInt32.ofNat i)
      = some (buf (Ring.pos n (start + i))) := by
  obtain ⟨u, hu, hfit, rfl, rfl, hbuf⟩ := h
  rw [offset_sub base hu (by omega)] at hi
  have hlen : i < (S.drop u).length := by
    rw [List.length_drop]
    exact hi
  rw [UInt32.add_assoc, ← UInt32.ofNat_add, byteFor_numbered base S (by omega) (by omega),
    hbuf i hlen, List.getElem_drop]

end SeqStream
