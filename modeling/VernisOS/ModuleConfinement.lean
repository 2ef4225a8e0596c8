import VernisOS.LibraryHandles
import VernisOS.Lib.Loop

/-!
# Modules and their memory

What `module_load` reads of the memory, and where a call enters the module that it put into a
slot. The length of the name is looked for behind its 24 bytes too, and the offsets of the
functions are never compared with the size of the code : a load reads only the binary, and its
calls stay in it, exactly if a NUL follows the start of the name and every offset is below the
size (`module_confined_iff`). Where `size_t` has 32 bits the size of the code can also get past
the check.
-/

open Bytes Loop Slots

namespace VernisOS

/-! ## Loading -/

inductive Arch
  | x86
  | x64

/-- The width of pointers and of `size_t`. -/
def Arch.bits : Arch → ℕ
  | x86 => 32
  | x64 => 64

namespace Arch

variable (arch : Arch) (mem : ℕ → UInt8)

/-- The address `o` bytes behind `s`. -/
def ptr (s o : ℕ) : ℕ :=
  (s + o) % 2 ^ arch.bits

/-- The field of four bytes that lies `o` behind `s`. -/
def field (s o : ℕ) : UInt32 :=
  leAt32 (fun k => mem (arch.ptr s k)) o

def readField (s o : ℕ) : Logged ℕ UInt32 :=
  reads ((List.range 4).map fun k => arch.ptr s (o + k)) (arch.field mem s o)

/-- `mod_memcpy` of the bytes behind `s + o`. -/
def readBytes (s o n : ℕ) : Logged ℕ (List UInt8) :=
  reads ((List.range n).map fun k => arch.ptr s (o + k))
    ((List.range n).map fun k => mem (arch.ptr s (o + k)))

/-- A turn of the loop of `mod_strlen`. -/
def strlenTurn (s : ℕ) (n : UInt32) : Logged ℕ (UInt32 ⊕ UInt32) :=
  reads [arch.ptr s n.toNat] (if mem (arch.ptr s n.toNat) = 0 then .inr n else .inl (n + 1))

/-- `mod_strlen`, in at most `fuel` turns. -/
def modStrlen (s fuel : ℕ) : Logged ℕ UInt32 :=
  run (arch.strlenTurn mem s) fuel 0

/-- The loop over the offsets of the functions. -/
def readOffsets (s : ℕ) (fnCount : UInt32) : Logged ℕ (Fin modMaxExports → UInt32) :=
  reads ((List.range fnCount.toNat).flatMap fun i =>
      (List.range 4).map fun k => arch.ptr s (40 + 4 * i + k))
    fun i => if i.val < fnCount.toNat then arch.field mem s (40 + 4 * i.val) else 0

/-- What `module_load` puts into the slot it has found. -/
def fillSlot (idx : Fin modMaxModules) (addr : UInt32) (fuel : ℕ) : Logged ℕ ModSlot :=
  bind (arch.readField mem addr.toNat 12) fun codeSize =>
  bind (arch.readField mem addr.toNat 8) fun fnCount =>
  bind (arch.modStrlen mem (arch.ptr addr.toNat 16) fuel) fun len =>
  bind (arch.readBytes mem addr.toNat 16
    (if len.toNat ≥ modNameLen then modNameLen - 1 else len.toNat)) fun name =>
  bind (arch.readOffsets mem addr.toNat fnCount) fun fnOffsets =>
  reads [] ⟨true, UInt32.ofNat idx.val, name, addr, codeSize, fnCount, fnOffsets⟩

/-- `module_load`, with the addresses that it reads. -/
def moduleLoad (slots : ModSlots) (addr size : UInt32) (fuel : ℕ) : Logged ℕ (ℤ × ModSlots) :=
  if addr = 0 ∨ size.toNat < sizeofModHeader then reads [] (modErrInval, slots)
  else
    bind (arch.readField mem addr.toNat 0) fun magic =>
    if magic ≠ modMagic then reads [] (modErrMagic, slots)
    else
      bind (arch.readField mem addr.toNat 4) fun version =>
      if version ≠ modVersion then reads [] (modErrMagic, slots)
      else
        bind (arch.readField mem addr.toNat 8) fun fnCount =>
        if fnCount.toNat > modMaxExports then reads [] (modErrInval, slots)
        else
          bind (arch.readField mem addr.toNat 12) fun codeSize =>
          if size.toNat < (sizeofModHeader + codeSize.toNat) % 2 ^ arch.bits then
            reads [] (modErrInval, slots)
          else
            match first fun i => !(slots i).inUse with
            | none => reads [] (modErrNoslot, slots)
            | some idx =>
              bind (arch.fillSlot mem idx addr fuel) fun slot =>
              reads [] (idx.val, Function.update slots idx slot)

end Arch

/-! ## Confinement -/

/-- The header of a binary in memory. -/
def headerAt (mem : ℕ → UInt8) (addr : UInt32) : ModHeader :=
  ModHeader.read fun k => mem (addr.toNat + k)

/-- A call fails, or enters the code behind the header, which lies in the binary. -/
def CallConfined (mem : ℕ → UInt8) (addr size : UInt32) (call : Except ℤ ModCall) : Prop :=
  ∀ c, call = .ok c → addr.toNat + sizeofModHeader ≤ c.fnAddr.toNat ∧
    c.fnAddr.toNat < addr.toNat + sizeofModHeader + (headerAt mem addr).codeSize.toNat ∧
    addr.toNat + sizeofModHeader + (headerAt mem addr).codeSize.toNat ≤ addr.toNat + size.toNat

/-- A load that has put a module into a slot read only the binary, and as long as the slot is
left alone all calls of the module stay in it. -/
def ModuleConfined (mem : ℕ → UInt8) (addr size : UInt32) (log : List ℕ) (idx : Fin modMaxModules)
    (slot : ModSlot) : Prop :=
  (∀ a ∈ log, addr.toNat ≤ a ∧ a < addr.toNat + size.toNat) ∧
    ∀ (slots : ModSlots) fnId arg, slots idx = slot →
      CallConfined mem addr size (slots.moduleCall (UInt32.ofNat idx.val) fnId arg)

/-- The name ends in the binary, the offsets of the functions are below the size of the code, and
the code fits into the binary. -/
def WellBounded (mem : ℕ → UInt8) (addr size : UInt32) : Prop :=
  (∃ k, 16 ≤ k ∧ k < size.toNat ∧ mem (addr.toNat + k) = 0) ∧
    ∀ i : Fin modMaxExports, i.val < (headerAt mem addr).fnCount.toNat →
      ((headerAt mem addr).fnOffsets i).toNat < (headerAt mem addr).codeSize.toNat ∧
        sizeofModHeader + (headerAt mem addr).codeSize.toNat ≤ size.toNat

/-! ## The name -/

section
variable {arch : Arch} {mem : ℕ → UInt8} {s : ℕ} {addr size : UInt32}

/-- A search that ends finds the first NUL, and reads up to it. -/
theorem run_strlenTurn {fuel : ℕ} {n len : UInt32} {log : List ℕ}
    (h : run (arch.strlenTurn mem s) fuel n = reads log len) :
    ∃ j, len = n + UInt32.ofNat j ∧ mem (arch.ptr s len.toNat) = 0 ∧
      (∀ k < j, mem (arch.ptr s (n + UInt32.ofNat k).toNat) ≠ 0) ∧
      log = (List.range (j + 1)).map fun k => arch.ptr s (n + UInt32.ofNat k).toNat := by
  induction fuel generalizing n log with
  | zero => exact absurd (congrArg Prod.snd h) (Option.some_ne_none len).symm
  | succ fuel ih =>
    obtain ⟨l, next, l', hl, hl', rfl⟩ := bind_eq_reads.mp h
    obtain ⟨rfl, hnext⟩ := Prod.mk.inj hl
    have hnext := Option.some.inj hnext
    split_ifs at hnext with hzero
    · subst hnext
      obtain ⟨rfl, hlen⟩ := Prod.mk.inj hl'
      obtain rfl := Option.some.inj hlen
      refine ⟨0, (UInt32.add_zero n).symm, hzero, fun k hk => absurd hk (Nat.not_lt_zero k), ?_⟩
      simp
    · subst hnext
      obtain ⟨j, hlen, hnul, hbefore, rfl⟩ := ih hl'
      have hshift : ∀ k, n + 1 + UInt32.ofNat k = n + UInt32.ofNat (k + 1) := by
        intro k
        rw [UInt32.add_assoc, UInt32.add_comm 1, UInt32.ofNat_add]
        rfl
      refine ⟨j + 1, hlen.trans (hshift j), hnul, fun k hk => ?_, ?_⟩
      · cases k with
        | zero => simpa using hzero
        | succ k =>
          rw [← hshift]
          exact hbefore k (by omega)
      · rw [List.range_succ_eq_map (n := j + 1), List.map_cons, List.map_map]
        simp only [hshift]
        simp [Function.comp_def]

/-- A name whose length is found ends at the first NUL behind its start. -/
theorem modStrlen_eq {fuel : ℕ} {len : UInt32} {log : List ℕ}
    (h : arch.modStrlen mem s fuel = reads log len) :
    mem (arch.ptr s len.toNat) = 0 ∧ (∀ k < len.toNat, mem (arch.ptr s k) ≠ 0) ∧
      ∀ a, a ∈ log ↔ ∃ k ≤ len.toNat, a = arch.ptr s k := by
  obtain ⟨j, hlen, hnul, hbefore, rfl⟩ := run_strlenTurn h
  simp only [UInt32.zero_add] at hlen hbefore ⊢
  have hsmall : j < 2 ^ 32 := by
    by_contra hlarge
    have hmod := hbefore (j % 2 ^ 32) (by omega)
    rw [hlen, UInt32.toNat_ofNat'] at hnul
    rw [UInt32.toNat_ofNat', Nat.mod_mod] at hmod
    exact hmod hnul
  have hnat : ∀ k ≤ j, (UInt32.ofNat k).toNat = k := fun k hk =>
    UInt32.toNat_ofNat_of_lt' (by simp only [UInt32.size]; omega)
  have hlenNat : len.toNat = j := hlen ▸ hnat j (Nat.le_refl j)
  rw [hlenNat] at hnul ⊢
  refine ⟨hnul, fun k hk => ?_, fun a => ?_⟩
  · have hk' := hbefore k hk
    rwa [hnat k hk.le] at hk'
  · rw [List.mem_map]
    constructor
    · rintro ⟨k, hk, rfl⟩
      have hle : k ≤ j := Nat.lt_succ_iff.mp (List.mem_range.mp hk)
      exact ⟨k, hle, by rw [hnat k hle]⟩
    · rintro ⟨k, hle, rfl⟩
      exact ⟨k, List.mem_range.mpr (Nat.lt_succ_of_le hle), by rw [hnat k hle]⟩

/-! ## What a load leaves -/

/-- In the binary an address is not wrapped. -/
theorem ptr_eq (hend : addr.toNat + size.toNat ≤ 2 ^ 32) {o : ℕ} (ho : o < size.toNat) :
    arch.ptr addr.toNat o = addr.toNat + o := by
  unfold Arch.ptr
  refine Nat.mod_eq_of_lt ?_
  cases arch with
  | x86 => change _ < 2 ^ 32; omega
  | x64 => change _ < 2 ^ 64; omega

theorem field_eq (hend : addr.toNat + size.toNat ≤ 2 ^ 32) {o : ℕ} (ho : o + 4 ≤ size.toNat) :
    arch.field mem addr.toNat o = leAt32 (fun k => mem (addr.toNat + k)) o :=
  leAt32_eq fun k hk => congrArg mem (ptr_eq hend (by omega))

/-- A load that returns a module id did not end with an error. -/
theorem not_reads_error {slots slots' : ModSlots} {l log : List ℕ} {err mid : ℤ} (herr : err < 0)
    (hmid : 0 ≤ mid) : ¬ (reads l (err, slots) : Logged ℕ _) = reads log (mid, slots') := by
  intro h
  have heq := congrArg Prod.fst (Option.some.inj (congrArg Prod.snd h))
  dsimp only at heq
  omega

/-- A load that returns a module id filled a slot. It read the header, and what it put in. -/
theorem moduleLoad_eq {slots slots' : ModSlots} {fuel : ℕ} {log : List ℕ} {mid : ℤ}
    (h : arch.moduleLoad mem slots addr size fuel = reads log (mid, slots')) (hmid : 0 ≤ mid) :
    ∃ idx slot l, mid = idx.val ∧ slots' = Function.update slots idx slot ∧ addr ≠ 0 ∧
      sizeofModHeader ≤ size.toNat ∧ (arch.field mem addr.toNat 8).toNat ≤ modMaxExports ∧
      arch.fillSlot mem idx addr fuel = reads l slot ∧ (∀ a ∈ l, a ∈ log) ∧
      ∀ a ∈ log, a ∈ l ∨ ∃ o < sizeofModHeader, a = arch.ptr addr.toNat o := by
  have hfield : ∀ o, o + 4 ≤ sizeofModHeader →
      ∀ a ∈ (List.range 4).map fun k => arch.ptr addr.toNat (o + k),
        ∃ o < sizeofModHeader, a = arch.ptr addr.toNat o := by
    intro o ho a ha
    obtain ⟨k, hk, rfl⟩ := List.mem_map.mp ha
    rw [List.mem_range] at hk
    exact ⟨o + k, by omega, rfl⟩
  unfold Arch.moduleLoad at h
  split_ifs at h with hsize
  · exact absurd h (not_reads_error (by decide) hmid)
  obtain ⟨l₁, h₁, rfl⟩ := bind_reads_eq.mp h
  split_ifs at h₁ with hmagic
  · exact absurd h₁ (not_reads_error (by decide) hmid)
  obtain ⟨l₂, h₂, rfl⟩ := bind_reads_eq.mp h₁
  split_ifs at h₂ with hversion
  · exact absurd h₂ (not_reads_error (by decide) hmid)
  obtain ⟨l₃, h₃, rfl⟩ := bind_reads_eq.mp h₂
  split_ifs at h₃ with hcount
  · exact absurd h₃ (not_reads_error (by decide) hmid)
  obtain ⟨l₄, h₄, rfl⟩ := bind_reads_eq.mp h₃
  split_ifs at h₄ with hcode
  · exact absurd h₄ (not_reads_error (by decide) hmid)
  cases hfree : first fun i => !(slots i).inUse with
  | none =>
    rw [hfree] at h₄
    exact absurd h₄ (not_reads_error (by decide) hmid)
  | some idx =>
    rw [hfree] at h₄
    obtain ⟨l, slot, l₅, hfill, hlast, rfl⟩ := bind_eq_reads.mp h₄
    obtain ⟨rfl, hres⟩ := Prod.mk.inj hlast
    obtain ⟨rfl, rfl⟩ := Prod.mk.inj (Option.some.inj hres)
    obtain ⟨haddr, hheader⟩ := not_or.mp hsize
    refine ⟨idx, slot, l, rfl, rfl, haddr, Nat.le_of_not_lt hheader, Nat.le_of_not_lt hcount,
      hfill, fun a ha => ?_, fun a ha => ?_⟩
    · simp only [List.append_nil, List.mem_append]
      exact Or.inr (Or.inr (Or.inr (Or.inr ha)))
    · simp only [List.append_nil, List.mem_append] at ha
      rcases ha with ha | ha | ha | ha | ha
      · exact Or.inr (hfield 0 (by decide) a ha)
      · exact Or.inr (hfield 4 (by decide) a ha)
      · exact Or.inr (hfield 8 (by decide) a ha)
      · exact Or.inr (hfield 12 (by decide) a ha)
      · exact Or.inl ha

theorem mem_map_ptr {s o n a : ℕ} :
    (a ∈ (List.range n).map fun k => arch.ptr s (o + k)) ↔ ∃ k < n, a = arch.ptr s (o + k) := by
  simp only [List.mem_map, List.mem_range, eq_comm]

/-- What is put into a slot, and what is read for it. -/
theorem fillSlot_eq {idx : Fin modMaxModules} {fuel : ℕ} {log : List ℕ} {slot : ModSlot}
    (h : arch.fillSlot mem idx addr fuel = reads log slot)
    (hcount : (arch.field mem addr.toNat 8).toNat ≤ modMaxExports) :
    ∃ len l, arch.modStrlen mem (arch.ptr addr.toNat 16) fuel = reads l len ∧
      slot.inUse = true ∧ slot.baseAddr = addr ∧
      slot.codeSize = arch.field mem addr.toNat 12 ∧ slot.fnCount = arch.field mem addr.toNat 8 ∧
      (slot.fnOffsets = fun i => if i.val < (arch.field mem addr.toNat 8).toNat then
        arch.field mem addr.toNat (40 + 4 * i.val) else 0) ∧ (∀ a ∈ l, a ∈ log) ∧
      ∀ a ∈ log, a ∈ l ∨ ∃ o < sizeofModHeader, a = arch.ptr addr.toNat o := by
  obtain ⟨l₁, h₁, rfl⟩ := bind_reads_eq.mp h
  obtain ⟨l₂, h₂, rfl⟩ := bind_reads_eq.mp h₁
  obtain ⟨l, len, l₃, hlen, h₃, rfl⟩ := bind_eq_reads.mp h₂
  obtain ⟨l₄, h₄, rfl⟩ := bind_reads_eq.mp h₃
  obtain ⟨l₅, h₅, rfl⟩ := bind_reads_eq.mp h₄
  obtain ⟨rfl, hslot⟩ := Prod.mk.inj h₅
  obtain rfl := Option.some.inj hslot
  refine ⟨len, l, hlen, rfl, rfl, rfl, rfl, rfl, fun a ha => ?_, fun a ha => ?_⟩
  · simp only [List.mem_append]
    exact Or.inr (Or.inr (Or.inl ha))
  · have hname : (if len.toNat ≥ modNameLen then modNameLen - 1 else len.toNat) < 24 := by
      unfold modNameLen
      split_ifs <;> omega
    have hexports : modMaxExports = 8 := rfl
    simp only [List.mem_append, List.append_nil, mem_map_ptr, List.mem_flatMap,
      List.mem_range] at ha
    rcases ha with ⟨k, hk, rfl⟩ | ⟨k, hk, rfl⟩ | ha | ⟨k, hk, rfl⟩ | ⟨i, hi, k, hk, rfl⟩
    · exact Or.inr ⟨12 + k, by unfold sizeofModHeader; omega, rfl⟩
    · exact Or.inr ⟨8 + k, by unfold sizeofModHeader; omega, rfl⟩
    · exact Or.inl ha
    · exact Or.inr ⟨16 + k, by unfold sizeofModHeader; omega, rfl⟩
    · exact Or.inr ⟨40 + 4 * i + k, by unfold sizeofModHeader; omega, rfl⟩

/-- A load stays in the binary exactly if the name ends there. -/
theorem reads_inside_iff_name {slots slots' : ModSlots} {fuel : ℕ} {log : List ℕ} {mid : ℤ}
    (hend : addr.toNat + size.toNat ≤ 2 ^ 32)
    (h : arch.moduleLoad mem slots addr size fuel = reads log (mid, slots')) (hmid : 0 ≤ mid) :
    (∀ a ∈ log, addr.toNat ≤ a ∧ a < addr.toNat + size.toNat) ↔
      ∃ k, 16 ≤ k ∧ k < size.toNat ∧ mem (addr.toNat + k) = 0 := by
  obtain ⟨idx, slot, l, -, -, haddr, hsize, hcount, hfill, hl, hlog⟩ := moduleLoad_eq h hmid
  obtain ⟨len, lname, hname, -, -, -, -, -, hlname, hfilled⟩ := fillSlot_eq hfill hcount
  obtain ⟨hnul, hbefore, hreads⟩ := modStrlen_eq hname
  have hheader : sizeofModHeader = 72 := rfl
  have hstart : arch.ptr addr.toNat 16 = addr.toNat + 16 := ptr_eq hend (by omega)
  -- an address of the name, as long as it lies in the binary
  have hptr : ∀ k, 16 + k < size.toNat → arch.ptr (addr.toNat + 16) k = addr.toNat + (16 + k) := by
    intro k hk
    have hin : arch.ptr addr.toNat (16 + k) = addr.toNat + (16 + k) := ptr_eq hend hk
    rw [← hin, Arch.ptr, Arch.ptr, Nat.add_assoc]
  rw [hstart] at hnul hbefore hreads
  constructor
  · intro hinside
    have hlen : 16 + len.toNat < size.toNat := by
      by_contra hlong
      have hmem : arch.ptr (addr.toNat + 16) (size.toNat - 16) ∈ log :=
        hl _ (hlname _ ((hreads _).mpr ⟨size.toNat - 16, by omega, rfl⟩))
      have hout := hinside _ hmem
      have hpos : 0 < addr.toNat := Nat.pos_of_ne_zero fun hzero =>
        haddr (UInt32.toNat_inj.mp hzero)
      have hsum : addr.toNat + 16 + (size.toNat - 16) = addr.toNat + size.toNat := by omega
      rw [Arch.ptr, hsum] at hout
      rcases Nat.lt_or_ge (addr.toNat + size.toNat) (2 ^ arch.bits) with hlt | hge
      · rw [Nat.mod_eq_of_lt hlt] at hout
        omega
      · have hall : addr.toNat + size.toNat = 2 ^ arch.bits := by
          cases arch with
          | x86 => exact Nat.le_antisymm hend hge
          | x64 => exact absurd (Nat.le_trans hge hend) (by decide)
        rw [hall, Nat.mod_self] at hout
        omega
    refine ⟨16 + len.toNat, by omega, hlen, ?_⟩
    rw [← hptr _ hlen]
    exact hnul
  · rintro ⟨k, hk, hksize, hzero⟩
    have hlen : 16 + len.toNat ≤ k := by
      by_contra hlong
      refine hbefore (k - 16) (by omega) ?_
      rw [hptr _ (by omega), Nat.add_sub_cancel' hk]
      exact hzero
    have hin : ∀ a, (∃ o < sizeofModHeader, a = arch.ptr addr.toNat o) →
        addr.toNat ≤ a ∧ a < addr.toNat + size.toNat := by
      rintro a ⟨o, ho, rfl⟩
      rw [ptr_eq hend (Nat.lt_of_lt_of_le ho hsize)]
      omega
    intro a ha
    rcases hlog a ha with ha | ha
    · rcases hfilled a ha with ha | ha
      · obtain ⟨j, hj, rfl⟩ := (hreads a).mp ha
        rw [hptr j (by omega)]
        omega
      · exact hin a ha
    · exact hin a ha

/-- The bytes before the first that is not wanted. -/
theorem takeWhile_map_range {p : UInt8 → Bool} {f : ℕ → UInt8} {n m : ℕ} (hle : n ≤ m)
    (hbefore : ∀ k < n, p (f k) = true) (hstop : n < m → p (f n) = false) :
    ((List.range m).map f).takeWhile p = (List.range n).map f := by
  obtain ⟨d, rfl⟩ := Nat.exists_eq_add_of_le hle
  have hall : ∀ b ∈ (List.range n).map f, p b = true := by
    intro b hb
    obtain ⟨k, hk, rfl⟩ := List.mem_map.mp hb
    exact hbefore k (List.mem_range.mp hk)
  rw [List.range_add, List.map_append, List.takeWhile_append_of_pos hall]
  cases d with
  | zero => simp
  | succ d =>
    rw [List.range_succ_eq_map, List.map_cons, List.map_cons,
      List.takeWhile_cons_of_neg (by rw [Nat.add_zero, hstop (by omega)]; exact Bool.false_ne_true),
      List.append_nil]

/-- The name in a slot is that of the header. -/
theorem name_eq {fuel : ℕ} {len : UInt32} {log : List ℕ}
    (hend : addr.toNat + size.toNat ≤ 2 ^ 32) (hsize : sizeofModHeader ≤ size.toNat)
    (h : arch.modStrlen mem (arch.ptr addr.toNat 16) fuel = reads log len) :
    ((List.range (if len.toNat ≥ modNameLen then modNameLen - 1 else len.toNat)).map fun k =>
      mem (arch.ptr addr.toNat (16 + k))) = (headerAt mem addr).name := by
  have hheader : sizeofModHeader = 72 := rfl
  have hname : modNameLen = 24 := rfl
  have hptr : ∀ k < 24, arch.ptr (arch.ptr addr.toNat 16) k = addr.toNat + (16 + k) ∧
      arch.ptr addr.toNat (16 + k) = addr.toNat + (16 + k) := by
    intro k hk
    have hin : 16 + k < size.toNat := by omega
    have hwhole : arch.ptr addr.toNat (16 + k) = addr.toNat + (16 + k) := ptr_eq hend hin
    refine ⟨?_, hwhole⟩
    rw [ptr_eq hend (by omega : 16 < size.toNat), ← hwhole, Arch.ptr, Arch.ptr, Nat.add_assoc]
  obtain ⟨hnul, hbefore, -⟩ := modStrlen_eq h
  have hmap : ((List.range (if len.toNat ≥ modNameLen then modNameLen - 1 else len.toNat)).map
      fun k => mem (arch.ptr addr.toNat (16 + k))) =
      (List.range (if len.toNat ≥ modNameLen then modNameLen - 1 else len.toNat)).map fun k =>
        mem (addr.toNat + (16 + k)) := by
    refine List.map_congr_left fun k hk => congrArg mem (hptr k ?_).2
    rw [List.mem_range] at hk
    split_ifs at hk <;> omega
  rw [hmap]
  refine (takeWhile_map_range (p := (· ≠ 0)) ?_ (fun k hk => ?_) fun hlt => ?_).symm
  · split_ifs <;> omega
  · have hk24 : k < 24 ∧ k < len.toNat := by split_ifs at hk <;> omega
    rw [← (hptr k hk24.1).1]
    exact decide_eq_true (hbefore k hk24.2)
  · have hshort : ¬ len.toNat ≥ modNameLen := fun hlong => by
      rw [if_pos hlong] at hlt
      omega
    rw [if_neg hshort] at hlt ⊢
    rw [hname] at hlt
    rw [← (hptr len.toNat (by omega)).1]
    exact decide_eq_false (not_not.mpr hnul)

/-- On x86_64 a load that ends is the one of the slot table. -/
theorem moduleLoad_x64 {slots : ModSlots} {fuel : ℕ} {log : List ℕ} {res : ℤ × ModSlots}
    (hend : addr.toNat + size.toNat ≤ 2 ^ 32)
    (h : Arch.x64.moduleLoad mem slots addr size fuel = reads log res) :
    res = slots.moduleLoad addr size fun k => mem (addr.toNat + k) := by
  have hdone : ∀ {l l' : List ℕ} {r : ℤ × ModSlots}, (reads l r : Logged ℕ _) = reads l' res →
      res = r := fun heq => (Option.some.inj (congrArg Prod.snd heq)).symm
  have hheader : sizeofModHeader = 72 := rfl
  unfold Arch.moduleLoad at h
  unfold ModSlots.moduleLoad checkModule
  by_cases hsize : addr = 0 ∨ size.toNat < sizeofModHeader
  · rw [if_pos hsize] at h ⊢
    exact hdone h
  rw [if_neg hsize] at h ⊢
  have hfits := Nat.le_of_not_lt (not_or.mp hsize).2
  have hfield : ∀ o, o + 4 ≤ 72 →
      leAt32 (fun k => mem (addr.toNat + k)) o = Arch.x64.field mem addr.toNat o :=
    fun o ho => (field_eq hend (by omega)).symm
  obtain ⟨l₁, h₁, -⟩ := bind_reads_eq.mp h
  simp only [ModHeader.read, hfield 0 (by decide), hfield 4 (by decide), hfield 8 (by decide),
    hfield 12 (by decide)]
  by_cases hmagic : Arch.x64.field mem addr.toNat 0 ≠ modMagic
  · rw [if_pos hmagic] at h₁ ⊢
    exact hdone h₁
  rw [if_neg hmagic] at h₁ ⊢
  obtain ⟨l₂, h₂, -⟩ := bind_reads_eq.mp h₁
  by_cases hversion : Arch.x64.field mem addr.toNat 4 ≠ modVersion
  · rw [if_pos hversion] at h₂ ⊢
    exact hdone h₂
  rw [if_neg hversion] at h₂ ⊢
  obtain ⟨l₃, h₃, -⟩ := bind_reads_eq.mp h₂
  by_cases hcount : (Arch.x64.field mem addr.toNat 8).toNat > modMaxExports
  · rw [if_pos hcount] at h₃ ⊢
    exact hdone h₃
  rw [if_neg hcount] at h₃ ⊢
  obtain ⟨l₄, h₄, -⟩ := bind_reads_eq.mp h₃
  have hwide : (sizeofModHeader + (Arch.x64.field mem addr.toNat 12).toNat) % 2 ^ Arch.x64.bits =
      sizeofModHeader + (Arch.x64.field mem addr.toNat 12).toNat := by
    have hlt := (Arch.x64.field mem addr.toNat 12).toNat_lt
    refine Nat.mod_eq_of_lt ?_
    change _ < 2 ^ 64
    omega
  rw [hwide] at h₄
  by_cases hcode : size.toNat < sizeofModHeader + (Arch.x64.field mem addr.toNat 12).toNat
  · rw [if_pos hcode] at h₄ ⊢
    exact hdone h₄
  rw [if_neg hcode] at h₄ ⊢
  cases hfree : first fun i => !(slots i).inUse with
  | none =>
    rw [hfree] at h₄
    exact hdone h₄
  | some idx =>
    rw [hfree] at h₄
    obtain ⟨l, slot, l₅, hfill, hlast, -⟩ := bind_eq_reads.mp h₄
    rw [hdone hlast]
    refine congrArg (fun slot => ((idx.val : ℤ), Function.update slots idx slot)) ?_
    obtain ⟨l₆, h₆, -⟩ := bind_reads_eq.mp hfill
    obtain ⟨l₇, h₇, -⟩ := bind_reads_eq.mp h₆
    obtain ⟨l₈, len, l₉, hlen, h₉, -⟩ := bind_eq_reads.mp h₇
    obtain ⟨l₁₀, h₁₀, -⟩ := bind_reads_eq.mp h₉
    obtain ⟨l₁₁, h₁₁, -⟩ := bind_reads_eq.mp h₁₀
    obtain rfl := Option.some.inj (congrArg Prod.snd h₁₁)
    have hoffsets : (fun i : Fin modMaxExports => if i.val <
        (Arch.x64.field mem addr.toNat 8).toNat then
          Arch.x64.field mem addr.toNat (40 + 4 * i.val) else 0) =
        fun i => if i.val < (Arch.x64.field mem addr.toNat 8).toNat then
          leAt32 (fun k => mem (addr.toNat + k)) (40 + 4 * i.val) else 0 := by
      funext i
      have hi8 : i.val < 8 := i.isLt
      rw [hfield _ (by omega)]
    unfold ModSlot.load
    rw [name_eq hend hfits hlen, hoffsets]
    rfl

/-! ## Calls -/

/-- The calls of a slot stay in the code exactly if the offsets are below its size, and it fits. -/
theorem calls_confined_iff {idx : Fin modMaxModules} {slot : ModSlot}
    (hend : addr.toNat + size.toNat ≤ 2 ^ 32) (hsize : sizeofModHeader ≤ size.toNat)
    (huse : slot.inUse = true) (hbase : slot.baseAddr = addr)
    (hcount : slot.fnCount = (headerAt mem addr).fnCount)
    (hmax : (headerAt mem addr).fnCount.toNat ≤ modMaxExports)
    (hoffsets : ∀ i : Fin modMaxExports, i.val < (headerAt mem addr).fnCount.toNat →
      slot.fnOffsets i = (headerAt mem addr).fnOffsets i) :
    (∀ (slots : ModSlots) fnId arg, slots idx = slot →
        CallConfined mem addr size (slots.moduleCall (UInt32.ofNat idx.val) fnId arg)) ↔
      ∀ i : Fin modMaxExports, i.val < (headerAt mem addr).fnCount.toNat →
        ((headerAt mem addr).fnOffsets i).toNat < (headerAt mem addr).codeSize.toNat ∧
          sizeofModHeader + (headerAt mem addr).codeSize.toNat ≤ size.toNat := by
  have hheader : sizeofModHeader = 72 := rfl
  have haddr : ∀ i : Fin modMaxExports,
      (addr + UInt32.ofNat sizeofModHeader + (headerAt mem addr).fnOffsets i).toNat =
        (addr.toNat + 72 + ((headerAt mem addr).fnOffsets i).toNat) % 2 ^ 32 := by
    intro i
    rw [UInt32.toNat_add, UInt32.toNat_add, Nat.mod_add_mod]
    rfl
  constructor
  · intro hall i hi
    have hi8 : i.val < 8 := i.isLt
    have hid : (UInt32.ofNat i.val).toNat = i.val :=
      UInt32.toNat_ofNat_of_lt' (by simp only [UInt32.size]; omega)
    have hcall : ModSlots.moduleCall (fun _ => slot) (UInt32.ofNat idx.val) (UInt32.ofNat i.val) 0 =
        .ok ⟨idx, i, addr + UInt32.ofNat sizeofModHeader + (headerAt mem addr).fnOffsets i, 0⟩ := by
      unfold ModSlots.moduleCall
      rw [ModSlots.slotOf_ofNat]
      dsimp only
      have hrange : UInt32.ofNat i.val < slot.fnCount ∧
          (UInt32.ofNat i.val).toNat < modMaxExports := by
        rw [hcount, UInt32.lt_iff_toNat_lt, hid]
        exact ⟨hi, i.isLt⟩
      rw [if_pos huse, dif_pos hrange, hbase]
      simp only [hid, Fin.eta, hoffsets i hi]
    obtain ⟨hlow, hhigh, hfits⟩ := hall (fun _ => slot) _ 0 rfl _ hcall
    dsimp only at hlow hhigh
    rw [haddr] at hlow hhigh
    have hoff := ((headerAt mem addr).fnOffsets i).toNat_lt
    omega
  · intro hbound slots fnId arg hslot c hcall
    unfold ModSlots.moduleCall at hcall
    rw [ModSlots.slotOf_ofNat] at hcall
    subst hslot
    dsimp only at hcall
    rw [if_pos huse] at hcall
    split_ifs at hcall with hrange
    obtain rfl := Except.ok.inj hcall
    have hi : fnId.toNat < (headerAt mem addr).fnCount.toNat := by
      rw [← hcount]
      exact UInt32.lt_iff_toNat_lt.mp hrange.1
    obtain ⟨hoff, hfits⟩ := hbound ⟨fnId.toNat, hrange.2⟩ hi
    dsimp only
    rw [hbase, hoffsets ⟨fnId.toNat, hrange.2⟩ hi, haddr]
    omega

end

/-- A module that has been loaded reads and calls only its own binary exactly if its name ends
there and the offsets of its functions are below the size of its code, which fits. -/
theorem module_confined_iff (arch : Arch) (mem : ℕ → UInt8) (slots : ModSlots)
    (addr size : UInt32) (hend : addr.toNat + size.toNat ≤ 2 ^ 32) {fuel : ℕ} {log : List ℕ}
    {idx : Fin modMaxModules} {slots' : ModSlots}
    (h : arch.moduleLoad mem slots addr size fuel = reads log ((idx.val : ℤ), slots')) :
    ModuleConfined mem addr size log idx (slots' idx) ↔ WellBounded mem addr size := by
  obtain ⟨idx', slot, l, hidx, rfl, -, hsize, hmax, hfill, -, -⟩ :=
    moduleLoad_eq h (Int.natCast_nonneg _)
  obtain rfl : idx = idx' := Fin.ext (Int.ofNat.inj hidx)
  obtain ⟨len, lname, -, huse, hbase, -, hcount, hoffsets, -⟩ := fillSlot_eq hfill hmax
  have hheader : sizeofModHeader = 72 := rfl
  have hcountAt : arch.field mem addr.toNat 8 = (headerAt mem addr).fnCount :=
    field_eq hend (by omega)
  refine and_congr (reads_inside_iff_name hend h (Int.natCast_nonneg _)) ?_
  rw [Function.update_self]
  refine calls_confined_iff hend hsize huse hbase (hcount.trans hcountAt) (hcountAt ▸ hmax) ?_
  intro i hi
  have hi8 : i.val < 8 := i.isLt
  rw [hoffsets]
  dsimp only
  rw [hcountAt, if_pos hi]
  exact field_eq hend (by omega)

/-- A binary at 4096 with a function of four bytes, said to lie at an offset. -/
def moduleImage (offset : UInt8) (a : ℕ) : UInt8 :=
  ([77, 79, 68, 76, 1, 0, 0, 0, 1, 0, 0, 0, 4, 0, 0, 0, 109] ++ List.replicate 23 0 ++
    [offset, 0, 0, 0] ++ List.replicate 28 0 ++ [195, 0, 0, 0]).getD (a - 4096) 0

/-- It is loaded into free slots. -/
def imageLoad (offset : UInt8) : Logged ℕ (ℤ × ModSlots) :=
  Arch.x64.moduleLoad (moduleImage offset) (fun _ => ModSlot.zero) 4096 76 4

theorem module_confined_image : ∃ slots',
    imageLoad 0 = reads (imageLoad 0).1 (((0 : Fin modMaxModules).val : ℤ), slots') ∧
      ModuleConfined (moduleImage 0) 4096 76 (imageLoad 0).1 0 (slots' 0) := by
  obtain ⟨hload, hnul⟩ : (imageLoad 0).2.map Prod.fst = some ((0 : Fin modMaxModules).val : ℤ) ∧
      moduleImage 0 ((4096 : UInt32).toNat + 17) = 0 := by
    decide +kernel
  obtain ⟨⟨mid, slots'⟩, hres, rfl⟩ := Option.map_eq_some_iff.mp hload
  refine ⟨slots', Prod.ext rfl hres, (module_confined_iff .x64 (moduleImage 0) (fun _ => .zero) 4096
    76 (by decide) (Prod.ext rfl hres)).mpr ⟨⟨17, by decide, by decide, hnul⟩, ?_⟩⟩
  intro i hi
  obtain rfl : i = 0 := Fin.ext (Nat.lt_one_iff.mp hi)
  decide

/-- A function at offset 64 of a code of four bytes lies outside. -/
theorem not_module_confined : ¬ ∀ (arch : Arch) (mem : ℕ → UInt8) (slots : ModSlots)
    (addr size : UInt32) (fuel : ℕ) (log : List ℕ) (idx : Fin modMaxModules) (slots' : ModSlots),
    addr.toNat + size.toNat ≤ 2 ^ 32 →
    arch.moduleLoad mem slots addr size fuel = reads log ((idx.val : ℤ), slots') →
    ModuleConfined mem addr size log idx (slots' idx) := by
  intro hall
  have hload : (imageLoad 64).2.map (fun res => (res.1, (res.2.moduleCall 0 0 0).toOption.map
      ModCall.fnAddr)) = some (((0 : Fin modMaxModules).val : ℤ), some 4232) := by
    decide +kernel
  obtain ⟨⟨mid, slots'⟩, hres, heq⟩ := Option.map_eq_some_iff.mp hload
  obtain ⟨rfl, haddr⟩ := Prod.mk.inj heq
  obtain ⟨c, hc, hfn⟩ := Option.map_eq_some_iff.mp haddr
  have hcall : slots'.moduleCall 0 0 0 = .ok c := by
    cases hres' : slots'.moduleCall 0 0 0 with
    | error err =>
      rw [hres'] at hc
      cases hc
    | ok c' =>
      rw [hres'] at hc
      exact congrArg _ (Option.some.inj hc)
  have hin := (hall .x64 (moduleImage 64) (fun _ => .zero) 4096 76 4 _ 0 slots' (by decide)
    (Prod.ext rfl hres)).2 slots' 0 0 rfl c hcall
  rw [hfn] at hin
  exact absurd hin.2.1 (by decide)

end VernisOS
