import Mathlib.Tactic.Ring
import VernisOS.Lib.OnesComplement
import VernisOS.TcpOps
import VernisOS.TcpStack

/-!
# The TCP checksum

`tcp_calc_checksum` adds 16-bit words in 32 bits and folds the carries. A segment is short enough
for the sum to be exact (`checksumWords_toNat`), so the fold is the one of one's complement
arithmetic, and the segment with its checksum filled in folds to all ones, whose complement is
zero (`checksum_agreement`).
-/

open Bytes OnesComplement

namespace VernisOS

/-! ## The sums as numbers -/

/-- The sum of the 16-bit words, an odd last byte with a zero behind it. -/
def wordSum : List UInt8 → ℕ
  | a :: b :: rest => a.toNat * 256 + b.toNat + wordSum rest
  | [a] => a.toNat * 256
  | [] => 0

/-- What the pseudo-header adds. -/
def pseudoSum (srcIp dstIp : UInt32) (len : ℕ) : ℕ :=
  (srcIp >>> 16).toNat % 65536 + srcIp.toNat % 65536 + (dstIp >>> 16).toNat % 65536 +
    dstIp.toNat % 65536 + 6 + len

/-- The accumulator of `tcp_calc_checksum` before the words are added. -/
def pseudoAccumulator (srcIp dstIp : UInt32) (len : ℕ) : UInt32 :=
  let low : UInt32 := 0xFFFF
  ((srcIp >>> 16) &&& low) + (srcIp &&& low) + ((dstIp >>> 16) &&& low) + (dstIp &&& low) + 6 +
    UInt32.ofNat len

/-- The accumulator holds the exact sum after every word of the packet, and after the odd byte. -/
def NoOverflow (packet : List UInt8) (srcIp dstIp : UInt32) : Prop :=
  ∀ pre, pre <+: packet → Even pre.length ∨ pre = packet →
    (checksumWords pre (pseudoAccumulator srcIp dstIp packet.length)).toNat =
      pseudoSum srcIp dstIp packet.length + wordSum pre

theorem wordSum_le : ∀ packet : List UInt8, wordSum packet ≤ 65535 * packet.length
  | [] => le_rfl
  | [a] => by
    have ha := a.toNat_lt
    simp only [wordSum, List.length_singleton]
    omega
  | a :: b :: rest => by
    have ha := a.toNat_lt
    have hb := b.toNat_lt
    have hrest := wordSum_le rest
    simp only [wordSum, List.length_cons]
    omega

theorem toNat_word (a b : UInt8) : (a.toUInt32 <<< 8 ||| b.toUInt32).toNat =
    a.toNat * 256 + b.toNat := by
  have ha := a.toNat_lt
  have hb := b.toNat_lt
  have hshift : (a.toUInt32 <<< 8).toNat = a.toNat <<< 8 := by
    simp only [UInt32.toNat_shiftLeft, UInt8.toNat_toUInt32]
    rw [show (8 : UInt32).toNat % 32 = 8 from rfl, Nat.shiftLeft_eq]
    omega
  rw [UInt32.toNat_or, hshift, UInt8.toNat_toUInt32, ← Nat.shiftLeft_add_eq_or_of_lt (by omega),
    Nat.shiftLeft_eq]

/-- While the exact sum fits 32 bits, the accumulator holds it. -/
theorem checksumWords_toNat : ∀ (packet : List UInt8) (sum : UInt32),
    sum.toNat + wordSum packet < 2 ^ 32 →
    (checksumWords packet sum).toNat = sum.toNat + wordSum packet
  | [], sum, _ => rfl
  | [a], sum, h => by
    have hword := toNat_word a 0
    have hzero : a.toUInt32 <<< 8 ||| (0 : UInt8).toUInt32 = a.toUInt32 <<< 8 := by simp
    rw [hzero] at hword
    simp only [wordSum] at h ⊢
    rw [checksumWords, UInt32.toNat_add, hword, UInt8.toNat_zero, Nat.add_zero]
    exact Nat.mod_eq_of_lt h
  | a :: b :: rest, sum, h => by
    simp only [wordSum] at h ⊢
    have hadd : (sum + (a.toUInt32 <<< 8 ||| b.toUInt32)).toNat =
        sum.toNat + (a.toNat * 256 + b.toNat) := by
      have hle : sum.toNat + (a.toNat * 256 + b.toNat) ≤
          sum.toNat + (a.toNat * 256 + b.toNat + wordSum rest) := by omega
      have hfits := Nat.lt_of_le_of_lt hle h
      rw [UInt32.toNat_add, toNat_word, Nat.mod_eq_of_lt hfits]
    rw [Nat.add_assoc (a.toNat * 256), ← Nat.add_assoc (a.toNat * 256), ← Nat.add_assoc sum.toNat,
      ← hadd] at h ⊢
    rw [checksumWords, checksumWords_toNat rest _ h]

theorem toNat_low (x : UInt32) : (x &&& (0xFFFF : UInt32)).toNat = x.toNat % 65536 := by
  rw [UInt32.toNat_and]
  exact Nat.and_two_pow_sub_one_eq_mod x.toNat 16

theorem toNat_high (x : UInt32) : (x >>> 16).toNat = x.toNat / 65536 := by
  rw [UInt32.toNat_shiftRight, show (16 : UInt32).toNat % 32 = 16 from rfl, Nat.shiftRight_eq_div_pow]

theorem pseudoAccumulator_toNat (srcIp dstIp : UInt32) {len : ℕ} (h : len < 2 ^ 16) :
    (pseudoAccumulator srcIp dstIp len).toNat = pseudoSum srcIp dstIp len := by
  have hlen : (UInt32.ofNat len).toNat = len := by
    rw [UInt32.toNat_ofNat']
    exact Nat.mod_eq_of_lt (by omega)
  have h₁ := Nat.mod_lt (srcIp >>> 16).toNat (show 0 < 65536 by decide)
  have h₂ := Nat.mod_lt srcIp.toNat (show 0 < 65536 by decide)
  have h₃ := Nat.mod_lt (dstIp >>> 16).toNat (show 0 < 65536 by decide)
  have h₄ := Nat.mod_lt dstIp.toNat (show 0 < 65536 by decide)
  simp only [pseudoAccumulator, pseudoSum, UInt32.toNat_add, toNat_low, hlen]
  rw [show (6 : UInt32).toNat = 6 from rfl]
  omega

/-! ## The fold -/

theorem foldCarries_toNat (sum : UInt32) : (foldCarries 2 sum).toNat = foldTwice 65536 sum.toNat := by
  have hstep : ∀ x : UInt32, ((x &&& (0xFFFF : UInt32)) + (x >>> 16)).toNat =
      endAround 65536 x.toNat := by
    intro x
    have hx := x.toNat_lt
    rw [UInt32.toNat_add, toNat_low, toNat_high, endAround]
    omega
  have hdone : ∀ x : UInt32, x >>> 16 = 0 → endAround 65536 x.toNat = x.toNat := by
    intro x hx
    have hhigh := toNat_high x
    rw [hx, show (0 : UInt32).toNat = 0 from rfl] at hhigh
    exact endAround_of_lt (by omega)
  unfold foldTwice
  simp only [foldCarries]
  split
  · rename_i hzero
    rw [hdone sum hzero, hdone sum hzero]
  · split
    · rename_i hzero
      have hsecond := hdone _ hzero
      rw [hstep] at hsecond ⊢
      exact hsecond.symm
    · rw [hstep, hstep]

/-- The checksum as a number, before its bytes are swapped. -/
def checksumWord (packet : List UInt8) (srcIp dstIp : UInt32) : UInt16 :=
  ~~~ (foldCarries 2 (checksumWords packet (pseudoAccumulator srcIp dstIp packet.length))).toUInt16

theorem tcpCalcChecksum_eq (packet : List UInt8) (srcIp dstIp : UInt32) :
    tcpCalcChecksum packet srcIp dstIp = tHtons (checksumWord packet srcIp dstIp) :=
  rfl

/-- As long as the sum is exact, the checksum is the complement of its fold. -/
theorem checksumWord_toNat {packet : List UInt8} {srcIp dstIp : UInt32}
    (hlen : packet.length < 2 ^ 16)
    (h : pseudoSum srcIp dstIp packet.length + wordSum packet < 2 ^ 32) :
    (checksumWord packet srcIp dstIp).toNat =
      65535 - foldTwice 65536 (pseudoSum srcIp dstIp packet.length + wordSum packet) := by
  have hacc := pseudoAccumulator_toNat srcIp dstIp hlen
  rw [← hacc] at h ⊢
  rw [← checksumWords_toNat packet _ h]
  unfold checksumWord
  generalize checksumWords packet (pseudoAccumulator srcIp dstIp packet.length) = sum
  have hfold : (foldCarries 2 sum).toNat < 65536 := by
    rw [foldCarries_toNat]
    exact foldTwice_lt (by decide) (Nat.lt_of_lt_of_eq sum.toNat_lt (by decide))
  have hword : (foldCarries 2 sum).toUInt16.toNat = (foldCarries 2 sum).toNat := by
    rw [UInt32.toNat_toUInt16]
    exact Nat.mod_eq_of_lt hfold
  rw [UInt16.toNat_not, hword, foldCarries_toNat]
  rfl

/-! ## Segments -/

theorem length_toBytes (seg : TcpSegment) (checksum : UInt16) :
    (seg.toBytes checksum).length = 20 + seg.payload.length := by
  simp [TcpSegment.toBytes, be16, be32, le16]
  omega

theorem toNat_tHtons (x : UInt16) : (tHtons x).toNat = x.toNat % 256 * 256 + x.toNat / 256 := by
  have hx := x.toNat_lt
  have hright : (x >>> 8).toNat = x.toNat / 256 := by
    rw [UInt16.toNat_shiftRight, show (8 : UInt16).toNat % 16 = 8 from rfl,
      Nat.shiftRight_eq_div_pow]
  have hleft : (x <<< 8).toNat = (x.toNat % 256) <<< 8 := by
    rw [UInt16.toNat_shiftLeft, show (8 : UInt16).toNat % 16 = 8 from rfl, Nat.shiftLeft_eq,
      Nat.shiftLeft_eq]
    omega
  rw [tHtons, UInt16.toNat_or, hright, hleft, Nat.or_comm,
    ← Nat.shiftLeft_add_eq_or_of_lt (by omega), Nat.shiftLeft_eq]

/-- The checksum field adds its two bytes, the first one high. -/
theorem wordSum_toBytes (seg : TcpSegment) (x : UInt16) :
    wordSum (seg.toBytes (tHtons x)) = wordSum (seg.toBytes 0) + x.toNat := by
  have hx := x.toNat_lt
  have hswap := toNat_tHtons x
  have hlow : (tHtons x).toUInt8.toNat = x.toNat / 256 := by
    rw [UInt16.toNat_toUInt8]
    omega
  have hhigh : ((tHtons x) >>> 8).toUInt8.toNat = x.toNat % 256 := by
    have hquot : x.toNat / 256 < 256 := by omega
    rw [UInt16.toNat_toUInt8, UInt16.toNat_shiftRight, show (8 : UInt16).toNat % 16 = 8 from rfl,
      Nat.shiftRight_eq_div_pow, show 2 ^ 8 = 256 from rfl, hswap, Nat.mul_comm,
      Nat.mul_add_div (by decide), Nat.div_eq_of_lt hquot, Nat.add_zero, Nat.mod_mod]
  have hparts : x.toNat / 256 * 256 + x.toNat % 256 = x.toNat := by omega
  simp only [TcpSegment.toBytes, be16, be32, le16, List.cons_append, List.nil_append, wordSum, hlow,
    hhigh, hparts]
  rw [show ((0 : UInt16).toUInt8).toNat = 0 from rfl,
    show ((0 : UInt16) >>> 8).toUInt8.toNat = 0 from rfl]
  ring

/-- The sum over a segment and its pseudo-header is far from 32 bits. -/
theorem segmentSum_lt (seg : TcpSegment) (checksum : UInt16) (srcIp dstIp : UInt32)
    (hlen : seg.payload.length ≤ tcpMaxSeg) :
    pseudoSum srcIp dstIp (seg.toBytes checksum).length + wordSum (seg.toBytes checksum) <
      65536 * 65535 := by
  have hwords := wordSum_le (seg.toBytes checksum)
  have hbytes := length_toBytes seg checksum
  have h₁ := Nat.mod_lt (srcIp >>> 16).toNat (show 0 < 65536 by decide)
  have h₂ := Nat.mod_lt srcIp.toNat (show 0 < 65536 by decide)
  have h₃ := Nat.mod_lt (dstIp >>> 16).toNat (show 0 < 65536 by decide)
  have h₄ := Nat.mod_lt dstIp.toNat (show 0 < 65536 by decide)
  simp only [tcpMaxSeg] at hlen
  unfold pseudoSum
  omega

theorem wordSum_prefix : ∀ {pre packet : List UInt8}, pre <+: packet →
    Even pre.length ∨ pre = packet → wordSum pre ≤ wordSum packet
  | [], _, _, _ => Nat.zero_le _
  | [a], packet, h, hwhole => by
    rcases hwhole with hodd | rfl
    · exact absurd hodd Nat.not_even_one
    · exact le_rfl
  | a :: b :: pre, packet, h, hwhole => by
    obtain ⟨post, rfl⟩ := h
    have hpre : Even pre.length ∨ pre = pre ++ post := by
      refine hwhole.imp (fun heven => ?_) fun heq => ?_
      · simp only [List.length_cons] at heven
        rw [Nat.even_iff] at heven ⊢
        omega
      · simpa using heq
    have hrest := wordSum_prefix (List.prefix_append pre post) hpre
    simp only [List.cons_append, wordSum]
    omega

theorem noOverflow_segment (seg : TcpSegment) (checksum : UInt16) (srcIp dstIp : UInt32)
    (hlen : seg.payload.length ≤ tcpMaxSeg) :
    NoOverflow (seg.toBytes checksum) srcIp dstIp := by
  intro pre hpre hwhole
  have hsum := segmentSum_lt seg checksum srcIp dstIp hlen
  have hle := wordSum_prefix hpre hwhole
  have hbytes : (seg.toBytes checksum).length < 2 ^ 16 := by
    rw [length_toBytes]
    simp only [tcpMaxSeg] at hlen
    omega
  have hacc := pseudoAccumulator_toNat srcIp dstIp hbytes
  rw [checksumWords_toNat pre _ ?_, hacc]
  rw [hacc]
  exact Nat.lt_of_le_of_lt (Nat.add_le_add_left hle _) (Nat.lt_trans hsum (by decide))

/-- A segment with its checksum filled in has the checksum zero. -/
theorem tcpCalcChecksum_encode (seg : TcpSegment) (localIp remoteIp : UInt32)
    (hlen : seg.payload.length ≤ tcpMaxSeg) :
    tcpCalcChecksum (seg.encode localIp remoteIp) localIp remoteIp = 0 := by
  have hbytes : ∀ checksum, (seg.toBytes checksum).length = 20 + seg.payload.length :=
    length_toBytes seg
  have hshort : ∀ checksum, (seg.toBytes checksum).length < 2 ^ 16 := by
    intro checksum
    rw [hbytes]
    simp only [tcpMaxSeg] at hlen
    omega
  have hsum := fun checksum => segmentSum_lt seg checksum localIp remoteIp hlen
  set x := checksumWord (seg.toBytes 0) localIp remoteIp with hx
  set n := pseudoSum localIp remoteIp (20 + seg.payload.length) + wordSum (seg.toBytes 0) with hn
  have hword : x.toNat = 65535 - foldTwice 65536 n := by
    rw [hx, checksumWord_toNat (hshort 0) (Nat.lt_trans (hsum 0) (by decide)), hbytes]
  have hfilled : pseudoSum localIp remoteIp (seg.toBytes (tHtons x)).length +
      wordSum (seg.toBytes (tHtons x)) = n + (65536 - 1 - foldTwice 65536 n) := by
    rw [wordSum_toBytes, hbytes, hword, hn]
    omega
  have hpos : 0 < n := by
    rw [hn, pseudoSum]
    omega
  have hlast : (checksumWord (seg.toBytes (tHtons x)) localIp remoteIp).toNat = 0 := by
    rw [checksumWord_toNat (hshort _) (Nat.lt_trans (hsum _) (by decide)), hfilled,
      foldTwice_add_complement (by decide) hpos]
    rw [← hfilled]
    exact Nat.lt_trans (hsum _) (by decide)
  have hzero : checksumWord (seg.toBytes (tHtons x)) localIp remoteIp = 0 :=
    UInt16.toNat_inj.mp hlast
  rw [TcpSegment.encode, tcpCalcChecksum_eq (seg.toBytes 0), ← hx, tcpCalcChecksum_eq, hzero]
  rfl

/-- What `tcp_output_seq` sends has a checksum that the receiver finds right, and no sum of the
computation overflows. -/
theorem checksum_agreement (env : TcpEnv) (tcb : TcpControlBlock) (flags : UInt8)
    (payload : List UInt8) (seq localIp : UInt32) (seg : TcpSegment)
    (h : seg ∈ (tcb.tcpOutputSeq env flags payload seq).2) :
    tcpCalcChecksum (seg.encode localIp tcb.remoteIp) localIp tcb.remoteIp = 0 ∧
      NoOverflow (seg.toBytes 0) localIp tcb.remoteIp ∧
      NoOverflow (seg.encode localIp tcb.remoteIp) localIp tcb.remoteIp := by
  have hlen : seg.payload.length ≤ tcpMaxSeg := by
    rw [(TcpControlBlock.sends_of_mem h).payload]
    unfold TcpControlBlock.tcpOutputSeq at h
    split at h
    · cases h
    · rename_i hcond
      rw [Bool.or_eq_true, not_or, decide_eq_true_eq] at hcond
      exact Nat.le_of_not_lt hcond.2
  exact ⟨tcpCalcChecksum_encode seg localIp tcb.remoteIp hlen,
    noOverflow_segment seg 0 localIp tcb.remoteIp hlen, noOverflow_segment seg _ localIp _ hlen⟩

theorem checksum_agreement_odd :
    tcpCalcChecksum (TcpSegment.encode 0x0A00020F 0x0A000202
        ⟨80, 49152, 7, 9, tcpFlagPsh ||| tcpFlagAck, 1024, [1, 2, 3]⟩) 0x0A00020F 0x0A000202 = 0 ∧
      NoOverflow (TcpSegment.toBytes
        ⟨80, 49152, 7, 9, tcpFlagPsh ||| tcpFlagAck, 1024, [1, 2, 3]⟩ 0) 0x0A00020F 0x0A000202 ∧
      NoOverflow (TcpSegment.encode 0x0A00020F 0x0A000202
        ⟨80, 49152, 7, 9, tcpFlagPsh ||| tcpFlagAck, 1024, [1, 2, 3]⟩) 0x0A00020F 0x0A000202 :=
  checksum_agreement ⟨true, 0⟩
    { TcpControlBlock.zero with
      localPort := 80, remotePort := 49152, ackNum := 9, remoteIp := 0x0A000202 }
    (tcpFlagPsh ||| tcpFlagAck) [1, 2, 3] 7 0x0A00020F _ (List.mem_singleton.mpr rfl)

end VernisOS
