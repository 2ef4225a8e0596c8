import Mathlib.Tactic.IntervalCases
import VernisOS.Lib.Sha2
import VernisOS.Sha256

/-!
# Every digest is the standard's

`kernel/security/sha256.c` against `Sha2.digest`. The transform is one compression
(`value_sha256Transform`). A context that has taken in some data holds the whole blocks of it in
its state and the rest in its buffer, however the data was cut (`absorbed_chunks`), and
`sha256_final` completes the rest to one or two padded blocks.
-/

namespace VernisOS

/-! ## Words -/

theorem toBitVec_rotr (x : UInt32) {n : UInt32} (h0 : 0 < n) (h : n < 32) :
    (rotr x n).toBitVec = x.toBitVec.rotateRight n.toNat := by
  have hn : n.toNat < 32 := h
  have hpos : 0 < n.toNat := h0
  have hr : (n.toBitVec % 32).toNat = n.toNat := Nat.mod_eq_of_lt hn
  have hl : ((32 - n).toBitVec % 32).toNat = 32 - n.toNat := by
    have hsub : (32 - n).toNat = 32 - n.toNat := UInt32.toNat_sub_of_le _ _ (UInt32.le_of_lt h)
    change (32 - n).toNat % 32 = _
    rw [hsub, Nat.mod_eq_of_lt (by omega)]
  rw [BitVec.rotateRight_def, Nat.mod_eq_of_lt hn, rotr, UInt32.toBitVec_or,
    UInt32.toBitVec_shiftRight, UInt32.toBitVec_shiftLeft, BitVec.ushiftRight_eq',
    BitVec.shiftLeft_eq', hr, hl]

theorem toBitVec_ep0 (x : UInt32) : (ep0 x).toBitVec = Sha2.bigSigma0 x.toBitVec := by
  simp only [ep0, UInt32.toBitVec_xor]
  rw [toBitVec_rotr x (by decide) (by decide), toBitVec_rotr x (by decide) (by decide),
    toBitVec_rotr x (by decide) (by decide)]
  rfl

theorem toBitVec_ep1 (x : UInt32) : (ep1 x).toBitVec = Sha2.bigSigma1 x.toBitVec := by
  simp only [ep1, UInt32.toBitVec_xor]
  rw [toBitVec_rotr x (by decide) (by decide), toBitVec_rotr x (by decide) (by decide),
    toBitVec_rotr x (by decide) (by decide)]
  rfl

theorem toBitVec_sig0 (x : UInt32) : (sig0 x).toBitVec = Sha2.smallSigma0 x.toBitVec := by
  simp only [sig0, UInt32.toBitVec_xor]
  rw [toBitVec_rotr x (by decide) (by decide), toBitVec_rotr x (by decide) (by decide)]
  rfl

theorem toBitVec_sig1 (x : UInt32) : (sig1 x).toBitVec = Sha2.smallSigma1 x.toBitVec := by
  simp only [sig1, UInt32.toBitVec_xor]
  rw [toBitVec_rotr x (by decide) (by decide), toBitVec_rotr x (by decide) (by decide)]
  rfl

/-! ## Constants -/

/-- The first 64 primes. -/
def shaPrimes : List ℕ :=
  [2, 3, 5, 7, 11, 13, 17, 19, 23, 29, 31, 37, 41, 43, 47, 53, 59, 61, 67, 71, 73, 79, 83, 89, 97,
   101, 103, 107, 109, 113, 127, 131, 137, 139, 149, 151, 157, 163, 167, 173, 179, 181, 191, 193,
   197, 199, 211, 223, 227, 229, 233, 239, 241, 251, 257, 263, 269, 271, 277, 281, 283, 293, 307,
   311]

theorem filter_prime : (List.range 312).filter Nat.Prime = shaPrimes := by
  decide +kernel

theorem nth_prime {t : ℕ} (h : t < 64) : Nat.nth Nat.Prime t = shaPrimes.getD t 0 := by
  rw [Sha2.nth_eq_filter_range Nat.Prime (n := 312) (by rw [filter_prime]; exact h), filter_prime]

theorem toBitVec_sha256K {t : ℕ} (h : t < 64) :
    (sha256K.getD t 0).toBitVec = Sha2.constant t := by
  have hall : ∀ t < 64, (sha256K.getD t 0).toBitVec = Sha2.rootBits 3 (shaPrimes.getD t 0) := by
    decide
  rw [Sha2.constant, nth_prime h, hall t h]

/-- A state as a hash value. -/
def Sha256Words.value (s : Sha256Words) : Sha2.Words :=
  ⟨s.a.toBitVec, s.b.toBitVec, s.c.toBitVec, s.d.toBitVec, s.e.toBitVec, s.f.toBitVec,
    s.g.toBitVec, s.h.toBitVec⟩

theorem value_sha256Init : sha256Init.state.value = Sha2.initial := by
  have hall : ∀ t < 8, Sha2.rootBits 2 (Nat.nth Nat.Prime t) =
      Sha2.rootBits 2 (shaPrimes.getD t 0) := fun t ht => by
    rw [nth_prime (by omega)]
  simp only [Sha2.initial, hall 0 (by decide), hall 1 (by decide), hall 2 (by decide),
    hall 3 (by decide), hall 4 (by decide), hall 5 (by decide), hall 6 (by decide),
    hall 7 (by decide)]
  decide

/-! ## One block -/

theorem toBitVec_blockWord (b₀ b₁ b₂ b₃ : UInt8) :
    ((b₀.toUInt32 <<< 24) ||| (b₁.toUInt32 <<< 16) ||| (b₂.toUInt32 <<< 8) |||
      b₃.toUInt32).toBitVec = Sha2.wordOf (Sha2.bytesBits [b₀, b₁, b₂, b₃]) := by
  apply BitVec.eq_of_getMsbD_eq
  intro i hi
  rw [Sha2.getMsbD_wordOf (by rw [Sha2.length_bytesBits]; rfl) hi]
  interval_cases i <;> simp [Sha2.bytesBits, Sha2.bitsOf, List.range_succ, BitVec.getMsbD]

/-- The words of a block that starts with `4 * n` bytes, the latest first. -/
theorem map_blockWords {n : ℕ} (done : List UInt32) {block : List UInt8}
    (h : block.length = 4 * n) :
    (blockWords done block).map UInt32.toBitVec =
      ((List.range n).map fun t =>
        Sha2.wordOf (((Sha2.bytesBits block).drop (32 * t)).take 32)).reverse ++
      done.map UInt32.toBitVec := by
  induction n generalizing done block with
  | zero =>
    rw [List.eq_nil_of_length_eq_zero h]
    rfl
  | succ n ih =>
    match block, h with
    | b₀ :: b₁ :: b₂ :: b₃ :: rest, h =>
      have hbits : Sha2.bytesBits (b₀ :: b₁ :: b₂ :: b₃ :: rest) =
          Sha2.bytesBits [b₀, b₁, b₂, b₃] ++ Sha2.bytesBits rest :=
        Sha2.bytesBits_append [b₀, b₁, b₂, b₃] rest
      have hlen : (Sha2.bytesBits [b₀, b₁, b₂, b₃]).length = 32 := Sha2.length_bytesBits _
      have hdrop (t : ℕ) : (Sha2.bytesBits [b₀, b₁, b₂, b₃] ++ Sha2.bytesBits rest).drop
          (32 * (t + 1)) = (Sha2.bytesBits rest).drop (32 * t) := by
        rw [Nat.mul_succ, Nat.add_comm, ← List.drop_drop, ← hlen, List.drop_left]
      have htake : (Sha2.bytesBits [b₀, b₁, b₂, b₃] ++ Sha2.bytesBits rest).take 32 =
          Sha2.bytesBits [b₀, b₁, b₂, b₃] := List.take_left' hlen
      have hrest : rest.length = 4 * n := by
        simp only [List.length_cons] at h
        omega
      rw [blockWords, ih _ hrest, List.map_cons, toBitVec_blockWord, hbits,
        List.range_succ_eq_map, List.map_cons, List.map_map, List.reverse_cons, Nat.mul_zero,
        List.drop_zero, htake, List.append_assoc]
      simp only [Function.comp_def, Nat.succ_eq_add_one, hdrop]
      rfl

/-- A schedule of `k` words, the latest first, and its next `n`. -/
theorem map_extendSchedule (block : List Bool) (n : ℕ) {k : ℕ} (hk : 16 ≤ k) {w : List UInt32}
    (hw : w.map UInt32.toBitVec = ((List.range k).map (Sha2.schedule block)).reverse) :
    (extendSchedule n w).map UInt32.toBitVec =
      ((List.range (k + n)).map (Sha2.schedule block)).reverse := by
  induction n generalizing k w with
  | zero => exact hw
  | succ n ih =>
    have hword {i : ℕ} (hi : i < k) :
        (w.getD i 0).toBitVec = Sha2.schedule block (k - 1 - i) := by
      have hget := congrArg (fun l : List Sha2.Word => l.getD i 0) hw
      have hlen : w.length = k := by simpa using congrArg List.length hw
      rw [List.getD_eq_getElem _ _ (by simpa [hlen] using hi),
        List.getD_eq_getElem _ _ (by simpa using hi)] at hget
      rw [List.getD_eq_getElem _ _ (by omega)]
      simpa using hget
    have hnext : (sig1 (w.getD 1 0) + w.getD 6 0 + sig0 (w.getD 14 0) + w.getD 15 0).toBitVec =
        Sha2.schedule block k := by
      rw [Sha2.schedule, if_neg (by omega)]
      simp only [UInt32.toBitVec_add, toBitVec_sig0, toBitVec_sig1]
      rw [hword (by omega), hword (by omega), hword (by omega), hword (by omega)]
      simp only [Nat.sub_sub, Nat.reduceAdd]
    have hcons : ((sig1 (w.getD 1 0) + w.getD 6 0 + sig0 (w.getD 14 0) + w.getD 15 0) ::
        w).map UInt32.toBitVec = ((List.range (k + 1)).map (Sha2.schedule block)).reverse := by
      rw [List.map_cons, hnext, hw, List.range_succ, List.map_append, List.reverse_append]
      rfl
    rw [extendSchedule, ih (by omega) hcons, Nat.add_assoc, Nat.add_comm 1]

theorem value_sha256Round (s : Sha256Words) (k w : UInt32) :
    (sha256Round s (k, w)).value = s.value.round k.toBitVec w.toBitVec := by
  simp only [sha256Round, Sha256Words.value, Sha2.Words.round, UInt32.toBitVec_add,
    toBitVec_ep0, toBitVec_ep1, UInt32.toBitVec_xor, UInt32.toBitVec_and, UInt32.toBitVec_not,
    Sha2.ch, Sha2.maj]

/-- The first `t` rounds. -/
theorem value_rounds (s : Sha256Words) (block : List Bool) {w : ℕ → UInt32} {t : ℕ}
    (ht : t ≤ 64) (hw : ∀ i < t, (w i).toBitVec = Sha2.schedule block i) :
    (((List.range t).map fun i => (sha256K.getD i 0, w i)).foldl sha256Round s).value =
      s.value.rounds block t := by
  induction t with
  | zero => rfl
  | succ t ih =>
    rw [List.range_succ, List.map_append, List.foldl_append, List.map_singleton,
      List.foldl_cons, List.foldl_nil, value_sha256Round, toBitVec_sha256K (by omega),
      hw t (by omega), ih (by omega) fun i hi => hw i (by omega)]
    rfl

theorem value_sha256Transform (s : Sha256Words) {block : List UInt8} (h : block.length = 64) :
    (sha256Transform s block).value = s.value.compress (Sha2.bytesBits block) := by
  have hfirst : (blockWords [] block).map UInt32.toBitVec =
      ((List.range 16).map (Sha2.schedule (Sha2.bytesBits block))).reverse := by
    rw [map_blockWords [] (n := 16) h, List.map_nil, List.append_nil]
    congr 1
    refine List.map_congr_left fun t ht => ?_
    rw [Sha2.schedule, if_pos (List.mem_range.mp ht)]
  have hall := congrArg List.reverse (map_extendSchedule _ 48 (le_refl 16) hfirst)
  rw [List.reverse_reverse, ← List.map_reverse] at hall
  have hlen : ((extendSchedule 48 (blockWords [] block)).reverse).length = 64 := by
    simpa using congrArg List.length hall
  have hzip : sha256K.zip (extendSchedule 48 (blockWords [] block)).reverse =
      (List.range 64).map fun i =>
        (sha256K.getD i 0, (extendSchedule 48 (blockWords [] block)).reverse.getD i 0) := by
    refine List.ext_getElem (by rw [List.length_zip, hlen]; rfl) fun i hi _ => ?_
    have hi' : i < 64 := by
      rw [List.length_zip, hlen] at hi
      omega
    rw [List.getElem_zip, List.getElem_map, List.getElem_range,
      List.getD_eq_getElem _ _ (by exact hi'), List.getD_eq_getElem _ _ (by omega)]
    rfl
  have hwords : ∀ i < 64, ((extendSchedule 48 (blockWords [] block)).reverse.getD i 0).toBitVec =
      Sha2.schedule (Sha2.bytesBits block) i := by
    intro i hi
    have hget := congrArg (fun l : List Sha2.Word => l.getD i 0) hall
    rw [List.getD_eq_getElem _ _ (by rw [List.length_map, hlen]; exact hi),
      List.getD_eq_getElem _ _ (by rw [List.length_map, List.length_range]; exact hi)] at hget
    rw [List.getD_eq_getElem _ _ (by omega)]
    simpa using hget
  have hrounds := value_rounds s (Sha2.bytesBits block) (le_refl 64) hwords
  rw [← hzip] at hrounds
  rw [Sha2.Words.compress, ← hrounds]
  rfl

theorem value_foldl (s : Sha256Words) {blocks : List (List UInt8)}
    (h : ∀ b ∈ blocks, b.length = 64) :
    (blocks.foldl sha256Transform s).value =
      (blocks.map Sha2.bytesBits).foldl Sha2.Words.compress s.value := by
  induction blocks generalizing s with
  | nil => rfl
  | cons b blocks ih =>
    rw [List.foldl_cons, List.map_cons, List.foldl_cons,
      ← value_sha256Transform s (h b List.mem_cons_self)]
    exact ih _ fun c hc => h c (List.mem_cons_of_mem b hc)

/-! ## Any cut of the data -/

/-- The context has taken in `data`, whose first blocks are `blocks`. -/
structure Sha256Context.Absorbed (ctx : Sha256Context) (data : List UInt8)
    (blocks : List (List UInt8)) : Prop where
  data_eq : data = blocks.flatten ++ ctx.buffer
  whole : ∀ b ∈ blocks, b.length = 64
  room : ctx.buffer.length < 64
  state : ctx.state = blocks.foldl sha256Transform sha256Init.state
  bits : ctx.bitCount = UInt64.ofNat (512 * blocks.length)

theorem absorbed_sha256Init : sha256Init.Absorbed [] [] :=
  ⟨rfl, by simp, by decide, rfl, rfl⟩

variable {ctx : Sha256Context} {data : List UInt8} {blocks : List (List UInt8)}

theorem Sha256Context.Absorbed.byte (h : ctx.Absorbed data blocks) (b : UInt8) :
    ∃ blocks', (sha256Byte ctx b).Absorbed (data ++ [b]) blocks' := by
  have hdata : data ++ [b] = blocks.flatten ++ (ctx.buffer ++ [b]) := by
    rw [h.data_eq, List.append_assoc]
  rw [sha256Byte]
  split
  · rename_i hfull
    refine ⟨blocks ++ [ctx.buffer ++ [b]], ?_, ?_, Nat.zero_lt_succ 63, ?_, ?_⟩
    · simpa using hdata
    · intro c hc
      rcases List.mem_append.mp hc with hc | hc
      · exact h.whole c hc
      · rw [List.mem_singleton.mp hc, List.length_append]
        exact hfull
    · rw [List.foldl_append, ← h.state]
      rfl
    · have hlen : 512 * (blocks ++ [ctx.buffer ++ [b]]).length = 512 * blocks.length + 512 := by
        rw [List.length_append, List.length_singleton, Nat.mul_succ]
      rw [hlen, UInt64.ofNat_add, ← h.bits]
      rfl
  · rename_i hfull
    refine ⟨blocks, hdata, h.whole, ?_, h.state, h.bits⟩
    have hroom := h.room
    have hne : ctx.buffer.length + 1 ≠ 64 := hfull
    rw [List.length_append, List.length_singleton]
    omega

theorem Sha256Context.Absorbed.update (h : ctx.Absorbed data blocks) (more : List UInt8) :
    ∃ blocks', (sha256Update ctx more).Absorbed (data ++ more) blocks' := by
  induction more generalizing ctx data blocks with
  | nil => exact ⟨blocks, by simpa [sha256Update] using h⟩
  | cons b more ih =>
    obtain ⟨blocks', h'⟩ := h.byte b
    simpa [sha256Update] using ih h'

theorem absorbed_chunks (h : ctx.Absorbed data blocks) (chunks : List (List UInt8)) :
    ∃ blocks', (chunks.foldl sha256Update ctx).Absorbed (data ++ chunks.flatten) blocks' := by
  induction chunks generalizing ctx data blocks with
  | nil => exact ⟨blocks, by simpa using h⟩
  | cons more chunks ih =>
    obtain ⟨blocks', h'⟩ := h.update more
    simpa using ih h'

/-! ## The padding -/

theorem bytesBits_replicate (z : ℕ) :
    Sha2.bytesBits (List.replicate z 0) = List.replicate (8 * z) false := by
  induction z with
  | zero => rfl
  | succ z ih =>
    rw [List.replicate_succ', Sha2.bytesBits_append, ih, Nat.mul_succ, List.replicate_add]
    rfl

theorem bytesBits_lengthBytes (n : UInt64) :
    Sha2.bytesBits (lengthBytes n) = Sha2.bitsOf n.toBitVec := by
  simp [Sha2.bytesBits, lengthBytes, Sha2.bitsOf, List.range_succ, BitVec.getMsbD]

theorem bytesBits_wordBytes (w : UInt32) :
    Sha2.bytesBits (wordBytes w) = Sha2.bitsOf w.toBitVec := by
  simp [Sha2.bytesBits, wordBytes, Sha2.bitsOf, List.range_succ, BitVec.getMsbD]

theorem length_zeroFill {n : ℕ} {buffer : List UInt8} (h : buffer.length ≤ n) :
    (zeroFill n buffer).length = n := by
  rw [zeroFill, List.length_append, List.length_replicate]
  omega

/-- The bytes of a state, as `sha256_final` writes them. -/
def Sha256Words.digestBytes (s : Sha256Words) : List UInt8 :=
  [s.a, s.b, s.c, s.d, s.e, s.f, s.g, s.h].flatMap wordBytes

theorem bytesBits_digestBytes (s : Sha256Words) :
    Sha2.bytesBits s.digestBytes = [s.value.a, s.value.b, s.value.c, s.value.d, s.value.e,
      s.value.f, s.value.g, s.value.h].flatMap Sha2.bitsOf := by
  simp only [Sha256Words.digestBytes, List.flatMap_cons, List.flatMap_nil, List.append_nil,
    Sha2.bytesBits_append, bytesBits_wordBytes]
  rfl

/-- The one or two blocks that `sha256_final` adds : the rest of the data, the end mark, `z`
zeros and the length. -/
theorem exists_padding (ctx : Sha256Context) (hroom : ctx.buffer.length < 64) :
    ∃ more : List (List UInt8), ∃ z, z < 64 ∧ (ctx.buffer.length + 1 + z) % 64 = 56 ∧
      (∀ b ∈ more, b.length = 64) ∧
      more.flatten = ctx.buffer ++ 0x80 :: List.replicate z 0 ++
        lengthBytes (ctx.bitCount + UInt64.ofNat ctx.buffer.length * 8) ∧
      sha256Final ctx = (more.foldl sha256Transform ctx.state).digestBytes := by
  have hbuf : (ctx.buffer ++ [0x80]).length = ctx.buffer.length + 1 := by simp
  by_cases hlong : 56 < (ctx.buffer ++ [0x80]).length
  · refine ⟨[zeroFill 64 (ctx.buffer ++ [0x80]), zeroFill 56 [] ++
        lengthBytes (ctx.bitCount + UInt64.ofNat ctx.buffer.length * 8)],
      119 - ctx.buffer.length, by omega, by omega, ?_, ?_, ?_⟩
    · intro b hb
      rcases List.mem_pair.mp hb with rfl | rfl
      · exact length_zeroFill (by omega)
      · rfl
    · have hz : 119 - ctx.buffer.length = 64 - (ctx.buffer.length + 1) + 56 := by omega
      rw [hz, List.replicate_add]
      simp [zeroFill]
    · rw [sha256Final]
      simp only [if_pos hlong]
      rfl
  · refine ⟨[zeroFill 56 (ctx.buffer ++ [0x80]) ++
        lengthBytes (ctx.bitCount + UInt64.ofNat ctx.buffer.length * 8)],
      55 - ctx.buffer.length, by omega, by omega, ?_, ?_, ?_⟩
    · intro b hb
      rw [List.mem_singleton.mp hb, List.length_append, length_zeroFill (by omega)]
      rfl
    · simp [zeroFill]
    · rw [sha256Final]
      simp only [if_neg hlong]
      rfl

/-- The blocks of a context and those of its padding are the padded data. -/
theorem bytesBits_padded (h : ctx.Absorbed data blocks) {z : ℕ} (hz : z < 64)
    (hmod : (ctx.buffer.length + 1 + z) % 64 = 56) :
    Sha2.bytesBits (blocks.flatten ++ (ctx.buffer ++ 0x80 :: List.replicate z 0 ++
      lengthBytes (ctx.bitCount + UInt64.ofNat ctx.buffer.length * 8))) =
      Sha2.pad (Sha2.bytesBits data) := by
  have hsum : blocks.flatten.length = 64 * blocks.length := by
    rw [List.length_flatten, List.map_congr_left h.whole, List.map_const', List.sum_replicate_nat,
      Nat.mul_comm]
  have hlen : data.length = 64 * blocks.length + ctx.buffer.length := by
    rw [h.data_eq, List.length_append, hsum]
  have hzeros : Sha2.zeros (8 * data.length) = 7 + 8 * z := by
    rw [Sha2.zeros, hlen]
    omega
  have htotal : (ctx.bitCount + UInt64.ofNat ctx.buffer.length * 8).toBitVec =
      BitVec.ofNat 64 (8 * data.length) := by
    have h8 : UInt64.ofNat ctx.buffer.length * 8 = UInt64.ofNat (ctx.buffer.length * 8) := by
      rw [UInt64.ofNat_mul]
      rfl
    rw [h.bits, h8, ← UInt64.ofNat_add, UInt64.toBitVec_ofNat']
    congr 1
    omega
  have hmark : Sha2.bytesBits [0x80] = true :: List.replicate 7 false := by decide
  have hcons : Sha2.bytesBits (0x80 :: List.replicate z 0) =
      true :: List.replicate (7 + 8 * z) false := by
    rw [← List.singleton_append, Sha2.bytesBits_append, hmark, bytesBits_replicate,
      List.replicate_add]
    rfl
  have hdata : Sha2.bytesBits data =
      Sha2.bytesBits blocks.flatten ++ Sha2.bytesBits ctx.buffer := by
    rw [h.data_eq, Sha2.bytesBits_append]
  rw [Sha2.pad, Sha2.length_bytesBits, hzeros, hdata, Sha2.bytesBits_append,
    Sha2.bytesBits_append, Sha2.bytesBits_append, hcons, bytesBits_lengthBytes, htotal]
  simp only [List.append_assoc]

/-- The incremental interface computes the standard's digest of the whole data, and the
comparison tells digests apart. -/
theorem sha256_digest :
    (∀ chunks : List (List UInt8),
      Sha2.bytesBits (sha256Final (chunks.foldl sha256Update sha256Init)) =
        Sha2.digest (Sha2.bytesBits chunks.flatten)) ∧
      ∀ a b : Vector UInt8 32, sha256Compare a.toList b.toList = 0 ↔ a = b := by
  constructor
  · intro chunks
    obtain ⟨blocks, h⟩ := absorbed_chunks absorbed_sha256Init chunks
    rw [List.nil_append] at h
    obtain ⟨more, z, hz, hmod, hwhole, hflat, hfinal⟩ := exists_padding _ h.room
    have hpad := bytesBits_padded h hz hmod
    rw [← hflat, ← List.flatten_append, Sha2.bytesBits_flatten] at hpad
    have hall : ∀ b ∈ blocks ++ more, b.length = 64 := fun b hb =>
      (List.mem_append.mp hb).elim (h.whole b) (hwhole b)
    have hbits : ∀ b ∈ (blocks ++ more).map Sha2.bytesBits, b.length = 512 := by
      intro b hb
      obtain ⟨c, hc, rfl⟩ := List.mem_map.mp hb
      rw [Sha2.length_bytesBits, hall c hc]
    have hvalue : ((blocks ++ more).foldl sha256Transform sha256Init.state).value =
        ((blocks ++ more).map Sha2.bytesBits).foldl Sha2.Words.compress Sha2.initial := by
      rw [← value_sha256Init]
      exact value_foldl _ hall
    have hcount : (((blocks ++ more).map Sha2.bytesBits).flatten).length / 512 =
        ((blocks ++ more).map Sha2.bytesBits).length := by
      rw [List.length_flatten, List.map_congr_left hbits, List.map_const',
        List.sum_replicate_nat, Nat.mul_div_cancel _ (by decide)]
    have hhash := Sha2.hash_flatten hbits (le_refl _)
    rw [List.take_length, ← hvalue] at hhash
    rw [hfinal, bytesBits_digestBytes, Sha2.digest, ← hpad, hcount, hhash, List.foldl_append,
      ← h.state]
  · intro a b
    rw [sha256Compare_eq_zero (by simp), Vector.toList_inj]

end VernisOS
