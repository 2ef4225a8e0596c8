import VernisOS.DescriptorReads
import VernisOS.ElfImages
import VernisOS.ForkRefinement
import VernisOS.TaskRegions

/-!
# Mappings of files

A read fault in a mapping of a file reads the file again from its start, into a buffer of 65536
bytes, and copies from there. So a page shows the bytes of the file if they lie in that buffer,
and zeros behind it (`file_mapping_iff`).
-/

open Run

namespace VernisOS

/-! ## Where regions start -/

/-- The regions of a task start at pages. -/
structure Space.Aligned (s : Space) : Prop where
  next : s.mmapNext.toNat % 4096 = 0
  start : ∀ i, (s.vmaList i).type ≠ .none → (s.vmaList i).start.toNat % 4096 = 0

namespace Space.Aligned

variable {s : Space}

theorem of_noRegions (h : s.NoRegions) : s.Aligned :=
  ⟨by rw [h.2]; rfl, fun i hi => absurd (h.1 i) hi⟩

theorem enter (h : s.Aligned) {slot : Fin vmaMaxPerTask} {v : VmaEntry} (hstart : v.start = s.cursor)
    (hlen : v.length.toNat % 4096 = 0) : (s.enter slot v).Aligned := by
  have hcursor : v.start.toNat % 4096 = 0 := by
    rw [hstart]
    unfold cursor
    split
    · rfl
    · exact h.next
  refine ⟨?_, fun i hi => ?_⟩
  · change (v.start + v.length).toNat % 4096 = 0
    rw [UInt64.toNat_add]
    omega
  · change (Function.update s.vmaList slot v i).type ≠ .none at hi
    change (Function.update s.vmaList slot v i).start.toNat % 4096 = 0
    by_cases hslot : i = slot
    · rw [hslot, Function.update_self]
      exact hcursor
    · rw [Function.update_of_ne hslot] at hi ⊢
      exact h.start i hi

theorem leave (h : s.Aligned) (slot : Fin vmaMaxPerTask) : (s.leave slot).Aligned := by
  refine ⟨h.next, fun i hi => ?_⟩
  unfold Space.leave at hi ⊢
  dsimp only at hi ⊢
  by_cases hslot : i = slot
  · rw [hslot, Function.update_self] at hi
    exact absurd rfl hi
  · rw [Function.update_of_ne hslot] at hi ⊢
    exact h.start i hi

theorem setBrk (h : s.Aligned) (brk : UInt64) : (s.setBrk brk).Aligned :=
  ⟨h.next, h.start⟩

end Space.Aligned

namespace Machine

variable {m m' : Machine}

/-- The regions of every task start at pages. -/
def RegionsAligned (m : Machine) : Prop :=
  ∀ i, (m.tasks i).active = true → (m.tasks i).space.Aligned

theorem step_aligned (h : m.RegionsAligned) {op : ProcOp} (hs : m.step op = some m') :
    m'.RegionsAligned := by
  intro i ha
  cases step_spaceStep hs ha with
  | kept active space => exact space ▸ h i active
  | fresh none => exact .of_noRegions none
  | copied active space => exact space ▸ h m.current active
  | mapped length protFlags pathPtr path slot v call active accepted free start len space =>
    refine space ▸ (h m.current active).enter start ?_
    rw [len, pageUp, toNat_and_not_low]
    omega
  | unmapped addr slot call active space => exact space ▸ (h m.current active).leave slot
  | moved increment brk call active le space => exact space ▸ (h m.current active).setBrk brk
  | loaded file pml4 paging call active valid space => exact space ▸ (h m.current active).setBrk _

/-! ## A read fault -/

/-- These are the first bytes of what the kernel reads of the file, as far as the buffer for
mappings has room. -/
def FileBytes (env : KfsEnv) (fs : VernisFs) (path : CStr) (bytes : List UInt8) : Prop :=
  ∀ n ≤ 65536, ∀ got, (kfsReadFile env fs path n).1 = some got → got = bytes.take n

/-- A file of the volume. -/
theorem fileBytes_content (env : KfsEnv) {fs : VernisFs} {path : CStr}
    (hin : kfsOutside path.chars = false) {i : Fin vfsMaxFiles}
    (hfind : fs.vfsFindFile path = some i) : FileBytes env fs path (fs.content i) := by
  intro n hn got h
  rw [VernisFs.kfsReadFile_inside env fs hin] at h
  exact VernisFs.vfsReadBytes_eq_some hfind hn h

/-- How far the page of an address lies behind the start of its region. -/
def faultOffset (start va : UInt64) : UInt32 :=
  (pageDown va - start).toUInt32

/-- How much of a file a fault reads. -/
def faultNeed (start va : UInt64) : ℕ :=
  min (faultOffset start va + 4096).toNat 65536

theorem getD_take (l : List UInt8) (n k : ℕ) :
    (l.take n).getD k 0 = if k < n then l.getD k 0 else 0 := by
  rw [List.getD_eq_getElem?_getD, List.getElem?_take]
  split
  · rw [List.getD_eq_getElem?_getD]
  · rfl

/-- The bytes of a page that a fault fills. -/
theorem byte_regionFill {v : VmaEntry} (hfile : v.type = .file) (hpath : v.path.val ≠ [])
    (tmp : Option (List UInt8)) {va : UInt64} (hsmall : (faultOffset v.start va).toNat < 2147483648) :
    (regionFill v tmp va fun _ => 0).byte (pageOffset va) =
      if (faultOffset v.start va).toNat + (pageOffset va).val < faultNeed v.start va then
        (tmp.getD []).getD ((faultOffset v.start va).toNat + (pageOffset va).val) 0
      else 0 := by
  have hzero : Page.byte (fun _ => 0) (pageOffset va) = 0 := by
    unfold Page.byte
    rw [UInt64.zero_shiftRight]
    rfl
  rw [← getD_take]
  unfold regionFill
  rw [if_pos ⟨hfile, hpath⟩]
  change (if Bytes.cInt (faultOffset v.start va) <
      ((tmp.getD []).take (faultNeed v.start va)).length then _ else _ : Page).byte _ = _
  rw [Bytes.cInt_of_lt hsmall]
  set total := (tmp.getD []).take (faultNeed v.start va) with htotal
  by_cases hlt : (faultOffset v.start va).toNat < total.length
  · rw [if_pos (by omega), byte_foldl, hzero]
    by_cases hin : (faultOffset v.start va).toNat + (pageOffset va).val < total.length
    · exact if_pos ⟨List.mem_finRange _, hin⟩
    · refine (if_neg fun h => hin h.2).trans ?_
      exact (List.getD_eq_default _ _ (Nat.not_lt.mp hin)).symm
  · rw [if_neg (by omega), hzero]
    exact (List.getD_eq_default _ _ (by omega)).symm

/-- Where an address lies in the buffer of the fault. -/
theorem faultOffset_add {start va : UInt64} (hstart : start.toNat % 4096 = 0) (hle : start ≤ va)
    (hnear : (va - start).toNat < 0x1000000) :
    (faultOffset start va).toNat + (pageOffset va).val = (va - start).toNat ∧
      ((va - start).toNat < faultNeed start va ↔ (va - start).toNat < 65536) := by
  have hle' := UInt64.le_iff_toNat_le.mp hle
  have hsub : (va - start).toNat = va.toNat - start.toNat := UInt64.toNat_sub_of_le va start hle
  have hdown : (pageDown va).toNat = va.toNat / 4096 * 4096 := toNat_and_not_low va
  have hpage : start ≤ pageDown va := by
    rw [UInt64.le_iff_toNat_le, hdown]
    omega
  have hoffset : (faultOffset start va).toNat = va.toNat / 4096 * 4096 - start.toNat := by
    unfold faultOffset
    rw [UInt64.toNat_toUInt32, UInt64.toNat_sub_of_le _ _ hpage, hdown]
    omega
  refine ⟨?_, ?_⟩
  · rw [hoffset, toNat_pageOffset]
    omega
  · have hneed : (faultOffset start va + 4096).toNat = (va - start).toNat / 4096 * 4096 + 4096 := by
      rw [UInt32.toNat_add, hoffset, hsub]
      change (va.toNat / 4096 * 4096 - start.toNat + 4096) % 4294967296 = _
      omega
    rw [faultNeed, hneed, Nat.lt_min]
    exact and_iff_right (Nat.lt_div_mul_add (by decide))

/-- A read fault of the running task on a mapping that `sys_mmap` has entered for a length and the
path of a file. The task goes on after it, and the page is there. -/
structure FileFault (m m' : Machine) (env : KfsEnv) (fs : VernisFs) (start length : UInt64)
    (path : CString sysIoPathMax) (bytes : List UInt8) (va : UInt64) : Prop where
  user : m.IsUser m.current
  found : ∃ prot flags,
    vmaFind m.cur.vmaList va = some ⟨start, pageUp length, .file, prot, flags, path⟩
  accepted : MmapLength length
  named : path.val ≠ []
  inUser : InUser va
  file : FileBytes env fs path.path bytes
  step : m.step (.pageFault va false (kfsReadFile env fs path.path (faultNeed start va)).1) =
    some m'
  frames : m'.paging.outOfFrames = false

theorem vmaFind_eq_some {vmas : Fin vmaMaxPerTask → VmaEntry} {va : UInt64} {v : VmaEntry}
    (h : vmaFind vmas va = some v) :
    ∃ i, vmas i = v ∧ v.type ≠ .none ∧ v.start ≤ va ∧ va < v.start + v.length := by
  obtain ⟨i, hi, rfl⟩ := Option.map_eq_some_iff.mp h
  have hp := List.find?_some hi
  rw [decide_eq_true_iff] at hp
  exact ⟨i, rfl, hp.1, hp.2.1, hp.2.2⟩

/-- An address of a region lies less than its length behind its start. -/
theorem toNat_sub_lt {start length va : UInt64} (hle : start ≤ va) (hlt : va < start + length) :
    (va - start).toNat < length.toNat := by
  have hlt' := UInt64.lt_iff_toNat_lt.mp hlt
  have hle' := UInt64.le_iff_toNat_le.mp hle
  have hstart := start.toNat_lt
  have hlength := length.toNat_lt
  rw [UInt64.toNat_add] at hlt'
  rw [UInt64.toNat_sub_of_le va start hle]
  omega

/-- As long as there are frames, demand paging maps a page of a region that is not there. -/
theorem demandPage_done {b : PagingState} {R : Fin 8 → Pages} (h : m.Ok b R)
    (hu : m.IsUser m.current) {va : UInt64} (hva : InUser va) {v : VmaEntry}
    (hv : vmaFind m.cur.vmaList va = some v) (hnone : (R m.current).pageAt va = none)
    (tmp : Option (List UInt8)) (hok : (m.demandPage va tmp).2.paging.outOfFrames = false) :
    (m.demandPage va tmp).1 = true := by
  obtain ⟨hroot, hcur⟩ := h.user_cur hu
  obtain ⟨mode, hmode⟩ : ∃ mode : Mode, regionFlags v = mode.flags := by
    unfold regionFlags
    split
    · exact ⟨.writable, rfl⟩
    · exact ⟨.fixed, rfl⟩
  have hdemand : m.demandPage va tmp = ((loadPage m.cur.pml4 (pageDown va) mode.flags
      (regionFill v tmp va) m.paging).1, m.setPaging (loadPage m.cur.pml4 (pageDown va) mode.flags
        (regionFill v tmp va) m.paging).2) := by
    unfold demandPage
    rw [hv, hcur, ← hmode]
  rw [hdemand] at hok ⊢
  rw [setPaging_paging] at hok
  exact (h.sim.loadPage hroot hva.pageDown.at
    ((Pages.pageAt_pageDown (R m.current) va).trans hnone) mode hok).1

namespace FileFault

variable {env : KfsEnv} {fs : VernisFs} {start length : UInt64} {path : CString sysIoPathMax}
  {bytes : List UInt8} {va : UInt64} {b : PagingState} {R : Fin 8 → Pages}

/-- The fault gets its frame, and only changes the page tables. -/
theorem resolved (hf : FileFault m m' env fs start length path bytes va) (h : m.Ok b R) :
    ∃ v, vmaFind m.cur.vmaList va = some v ∧
      m'.Ok b (deepStep m R
        (.pageFault va false (kfsReadFile env fs path.path (faultNeed start va)).1)) ∧
      m'.tasks = m.tasks ∧ m'.current = m.current ∧ (R m.current).pageAt va = none := by
  obtain ⟨prot, flags, hfound⟩ := hf.found
  refine ⟨_, hfound, ?_⟩
  set tmp := (kfsReadFile env fs path.path (faultNeed start va)).1 with htmp
  obtain ⟨⟨rsp, m''⟩, hs, rfl⟩ := Option.map_eq_some_iff.mp hf.step
  obtain ⟨-, hs⟩ := Option.ite_none_right_eq_some.mp hs
  obtain ⟨htr, hs⟩ := Option.ite_none_right_eq_some.mp hs
  have hop : m.StepOk (.pageFault va false tmp) :=
    ⟨hf.inUser, Or.inr ⟨by rw [hfound]; rfl, htr⟩⟩
  have hnone := h.pageAt_eq_none hf.user hf.inUser htr
  refine ⟨h.pageFault hf.user hop hs hf.frames, ?_⟩
  have hsame := m.demandPage_tasks va tmp
  unfold pageFault at hs
  change (if (m.demandPage va tmp).1 then some (0, (m.demandPage va tmp).2)
    else (m.demandPage va tmp).2.userFault) = some (rsp, m'') at hs
  have hpaging : m''.paging = (m.demandPage va tmp).2.paging := by
    split at hs
    · cases hs
      rfl
    · exact userFault_paging _ hs
  rw [if_pos (demandPage_done h hf.user hf.inUser hfound hnone tmp
    (hpaging ▸ hf.frames))] at hs
  cases hs
  exact ⟨hsame.2, hsame.1, hnone⟩

/-- The byte that the task finds after the fault. -/
theorem userByte_eq (hf : FileFault m m' env fs start length path bytes va) (h : m.Ok b R)
    (haligned : m.RegionsAligned) :
    m'.userByte m'.current va = some (if (va - start).toNat < 65536 ∧
        (kfsReadFile env fs path.path (faultNeed start va)).1.isSome = true then
      bytes.getD (va - start).toNat 0 else 0) := by
  obtain ⟨prot, flags, hfound⟩ := hf.found
  obtain ⟨v, hv, hok, htasks, hcurrent, hnone⟩ := hf.resolved h
  obtain rfl := Option.some.inj (hfound.symm.trans hv)
  have huser : m'.IsUser m'.current := by
    have hu := hf.user
    unfold IsUser at hu ⊢
    rw [h.kernel_eq] at hu
    rw [hok.kernel_eq, htasks, hcurrent]
    exact hu
  obtain ⟨i, hi, htype, hle, hlt⟩ := vmaFind_eq_some hfound
  have hnear : (va - start).toNat < 0x1000000 :=
    (toNat_sub_lt hle hlt).trans_le (UInt64.le_iff_toNat_le.mp hf.accepted.2)
  have hstart : start.toNat % 4096 = 0 := by
    have h' := (haligned m.current hf.user.1).start i
    change (m.cur.vmaList i).type ≠ .none → (m.cur.vmaList i).start.toNat % 4096 = 0 at h'
    rw [hi] at h'
    exact h' htype
  obtain ⟨hoffset, hneed⟩ := faultOffset_add hstart hle hnear
  set tmp := (kfsReadFile env fs path.path (faultNeed start va)).1 with htmp
  have hpage : (deepStep m R (.pageFault va false tmp) m.current).pageAt va =
      some (regionFill ⟨start, pageUp length, .file, prot, flags, path⟩ tmp va fun _ => 0) := by
    unfold deepStep
    dsimp only
    rw [hnone, hfound]
    dsimp only
    rw [Function.update_self]
    exact Pages.pageAt_set_self _ (pageNumber_pageDown va) _
  have hsmall : (faultOffset start va).toNat < 2147483648 := by omega
  have hbyte := byte_regionFill (v := ⟨start, pageUp length, .file, prot, flags, path⟩) rfl
    hf.named tmp hsmall
  dsimp only at hbyte
  rw [hok.userByte_eq huser va, hcurrent, Pages.read, if_pos hf.inUser, hpage, Option.map_some,
    hbyte, hoffset]
  refine congrArg some ?_
  by_cases hin : (va - start).toNat < 65536
  · rw [if_pos (hneed.mpr hin)]
    cases hread : tmp with
    | none => exact (if_neg fun h => Bool.noConfusion h.2).symm
    | some got =>
      have hgot := hf.file (faultNeed start va) (Nat.min_le_right _ _) got hread
      rw [if_pos ⟨hin, rfl⟩, Option.getD_some, hgot, getD_take, if_pos (hneed.mpr hin)]
  · rw [if_neg (mt hneed.mp hin), if_neg fun h => hin h.1]

end FileFault

/-- In this state every read fault on a mapping of a file shows the byte of the file exactly if the
kernel reads it, or if it is 0. -/
def FilesShown (m : Machine) : Prop :=
  ∀ m' env fs start length path bytes va, FileFault m m' env fs start length path bytes va →
    (m'.userByte m'.current va = some (bytes.getD (va - start).toNat 0) ↔
      (va - start).toNat < 65536 ∧
          (kfsReadFile env fs path.path (faultNeed start va)).1.isSome = true ∨
        bytes.getD (va - start).toNat 0 = 0)

/-- Along every run from boot in which images are loaded page by page and frames last, a read
fault on a mapping of a file shows the byte of the file exactly if this lies among the first
65536 and can be read, or is 0. -/
theorem file_mapping_iff {m : Machine} (hboot : m.Booted)
    (hnone : ∀ i, (m.tasks i).active = true → (m.tasks i).space.NoRegions) {ops : List ProcOp}
    (hops : Along stepWith (fun c op => c.1.StepOk op ∧ c.1.FramesLast op)
      (m, fun _ => Pages.empty) ops) :
    After stepWith (fun c => c.1.FilesShown) (m, fun _ => Pages.empty) ops := by
  have haligned : m.RegionsAligned := fun i ha => .of_noRegions (hnone i ha)
  refine (After.of_along (I := fun c => c.1.Ok m.paging c.2 ∧ c.1.RegionsAligned) ?_ ops _
    ⟨hboot.ok, haligned⟩ hops).mono ?_
  · intro c op c' hc hop hs
    obtain ⟨m', hm', rfl⟩ := Option.map_eq_some_iff.mp hs
    exact ⟨hc.1.step hboot.tables hop.1 hop.2 hm', step_aligned hc.2 hm'⟩
  · intro c hc m' env fs start length path bytes va hf
    rw [hf.userByte_eq hc.1 hc.2]
    by_cases hread : (va - start).toNat < 65536 ∧
        (kfsReadFile env fs path.path (faultNeed start va)).1.isSome = true
    · rw [if_pos hread]
      exact iff_of_true rfl (Or.inl hread)
    · rw [if_neg hread, Option.some.injEq]
      exact ⟨fun h => Or.inr h.symm, fun h => (h.resolve_left hread).symm⟩

/-! ## A mapping of 128 KB -/

/-- `sys_mmap` changes neither the page tables nor who runs. -/
theorem sysMmap_user (m : Machine) (length protFlags pathPtr : UInt64)
    (path : Option (CString sysIoPathMax)) :
    (m.sysMmap length protFlags pathPtr path).2.paging = m.paging ∧
      (m.IsUser m.current → (m.sysMmap length protFlags pathPtr path).2.IsUser
        (m.sysMmap length protFlags pathPtr path).2.current) := by
  have hset : ∀ t : TaskSlot, t.active = m.cur.active → t.pml4 = m.cur.pml4 →
      m.IsUser m.current → (m.setCur t).IsUser m.current := by
    intro t hactive hpml4 hu
    unfold IsUser at hu ⊢
    rw [setCur_tasks, Function.update_self, hactive, hpml4]
    exact hu
  unfold sysMmap
  dsimp only
  split
  · exact ⟨rfl, id⟩
  · split
    · exact ⟨rfl, id⟩
    · split
      · exact ⟨rfl, hset _ rfl rfl⟩
      · split
        · exact ⟨rfl, hset _ rfl rfl⟩
        · exact ⟨rfl, hset _ rfl rfl⟩

/-- The only region in use is found at its addresses. -/
theorem vmaFind_update {vmas : Fin vmaMaxPerTask → VmaEntry} (hnone : ∀ i, (vmas i).type = .none)
    (slot : Fin vmaMaxPerTask) {v : VmaEntry} (htype : v.type ≠ .none) {va : UInt64}
    (hle : v.start ≤ va) (hlt : va < v.start + v.length) :
    vmaFind (Function.update vmas slot v) va = some v := by
  have hsome : ((List.finRange vmaMaxPerTask).find? fun i =>
      (Function.update vmas slot v i).type ≠ .none ∧ va ≥ (Function.update vmas slot v i).start ∧
        va < (Function.update vmas slot v i).start +
          (Function.update vmas slot v i).length).isSome = true := by
    rw [List.find?_isSome]
    refine ⟨slot, List.mem_finRange slot, ?_⟩
    rw [Function.update_self, decide_eq_true_iff]
    exact ⟨htype, hle, hlt⟩
  obtain ⟨i, hi⟩ := Option.isSome_iff_exists.mp hsome
  have hfound := List.find?_some hi
  rw [decide_eq_true_iff] at hfound
  have hslot : i = slot := by
    by_contra hne
    rw [Function.update_of_ne hne] at hfound
    exact hfound.1 (hnone i)
  unfold vmaFind
  rw [hi, Option.map_some, hslot, Function.update_self]

/-- A task without regions maps a file and reads from the mapping. -/
theorem fileFault_mmap (length protFlags pathPtr : UInt64) {b : PagingState} {R : Fin 8 → Pages}
    (h : m.Ok b R)
    (hu : m.IsUser m.current) (hregions : m.cur.space.NoRegions) {env : KfsEnv} {fs : VernisFs}
    {va : UInt64} {path : CString sysIoPathMax} {bytes : List UInt8}
    (haccepted : MmapLength length) (hfile : ¬ (pathPtr = 0 ∨
      ((protFlags >>> 8) &&& 0xFF).toUInt8 &&& mapAnonymous ≠ 0))
    (hnamed : path.val ≠ []) (hbytes : FileBytes env fs path.path bytes) (hva : InUser va)
    (hle : mmapBase64 ≤ va) (hlt : va < mmapBase64 + pageUp length)
    (hnone : (R m.current).pageAt va = none) (hpool : PoolOk m.paging)
    (hframes : m.paging.outOfFrames = false) (hleft : 4 ≤ framesLeft m.paging) :
    ∃ m', FileFault (m.sysMmap length protFlags pathPtr (some path)).2 m' env fs mmapBase64 length
      path bytes va := by
  have hfound : ∃ prot flags, vmaFind (m.sysMmap length protFlags pathPtr (some path)).2.cur.vmaList
      va = some ⟨mmapBase64, pageUp length, .file, prot, flags, path⟩ := by
    have hslot : ((List.finRange vmaMaxPerTask).find? fun i =>
        (m.cur.vmaList i).type = .none).isSome = true := by
      rw [List.find?_isSome]
      exact ⟨0, List.mem_finRange 0, decide_eq_true (hregions.1 0)⟩
    obtain ⟨slot, hslot⟩ := Option.isSome_iff_exists.mp hslot
    have hzero : m.cur.mmapNext = 0 := hregions.2
    unfold sysMmap
    dsimp only
    rw [if_neg (not_or.mpr ⟨haccepted.1, UInt64.not_lt.mpr haccepted.2⟩), hslot]
    dsimp only
    rw [if_neg hfile, if_pos hzero]
    refine ⟨(protFlags &&& 0xFF).toUInt8, ((protFlags >>> 8) &&& 0xFF).toUInt8, ?_⟩
    have hcur : ∀ t, (m.setCur t).cur = t := fun t => Function.update_self ..
    rw [hcur]
    exact vmaFind_update hregions.1 slot VmaType.noConfusion hle hlt
  obtain ⟨hpaging, huser⟩ := sysMmap_user m length protFlags pathPtr (some path)
  have hcurrent : (m.sysMmap length protFlags pathPtr (some path)).2.current = m.current := by
    unfold sysMmap
    dsimp only
    split
    · rfl
    · split
      · rfl
      · split <;> rfl
  have hok := h.mmap length protFlags pathPtr (some path)
  generalize (m.sysMmap length protFlags pathPtr (some path)).2 = m₁ at *
  obtain ⟨prot, flags, hv⟩ := hfound
  rw [← hcurrent] at hnone
  rw [← hpaging] at hpool hframes hleft
  set tmp := (kfsReadFile env fs path.path (faultNeed mmapBase64 va)).1 with htmp
  have hspends : (m₁.demandPage va tmp).2.paging.outOfFrames = false := by
    unfold demandPage
    rw [hv]
    exact ((Spends.loadPage _ _ _ _ _).left hpool hleft).1.trans hframes
  have hdone := demandPage_done hok (huser hu) hva hv hnone tmp hspends
  have htr : mmuTranslate m₁.paging m₁.cr3 va false = none := by
    have hread := hok.read_cur (huser hu) va
    rw [if_pos hva, hnone] at hread
    exact Option.map_eq_none_iff.mp hread
  refine ⟨(m₁.demandPage va tmp).2, huser hu, ⟨prot, flags, hv⟩, haccepted, hnamed, hva, hbytes, ?_,
    hspends⟩
  have hfault : m₁.pageFault va false tmp = some (0, (m₁.demandPage va tmp).2) := by
    unfold pageFault
    change (if (m₁.demandPage va tmp).1 then some (0, (m₁.demandPage va tmp).2)
      else (m₁.demandPage va tmp).2.userFault) = _
    rw [if_pos hdone]
  unfold Machine.step dispatch userStep
  dsimp only
  rw [if_pos (huser hu), if_pos htr, hfault]
  rfl

/-- A program is started and maps 128 KB of `/a`. -/
def mapFile : List ProcOp :=
  [.elfExec stackImage 4, .timer 0, .mmap 0x20000 1 0x10000000 (some namePathA)]

theorem noRegions_bootMachine :
    ∀ i, (bootMachine.tasks i).active = true → (bootMachine.tasks i).space.NoRegions := by
  have hnone : ∀ i, (∀ j, ((bootMachine.tasks i).vmaList j).type = .none) ∧
      (bootMachine.tasks i).mmapNext = 0 := by
    decide
  exact fun i _ => hnone i

/-- A step that a running user task makes. -/
theorem step_mmap (length protFlags pathPtr : UInt64) (path : Option (CString sysIoPathMax))
    (hu : m.IsUser m.current) : m.step (.mmap length protFlags pathPtr path) =
      some (m.sysMmap length protFlags pathPtr path).2 := by
  unfold Machine.step dispatch
  dsimp only
  rw [if_pos hu]
  rfl

/-- The steps of `mapFile` load each page once, and frames last. -/
theorem along_mapFile :
    Along stepWith (fun c op => c.1.StepOk op ∧ c.1.FramesLast op)
      (bootMachine, fun _ => Pages.empty) mapFile := by
  have hframes := bootMachine_elfExec_left.1
  have huser := bootMachine_firstTask
  have htimer := (bootMachine.elfExec stackImage 4).2.timer_paging 0
  have hexec := step_elfExec bootMachine stackImage 4
  generalize (bootMachine.elfExec stackImage 4).2 = m₁ at *
  have hticked := step_timer m₁ 0
  generalize (m₁.timer 0).2 = m₂ at *
  refine ⟨⟨fun _ => stackImage_pagesOk, fun m' hm' => ?_⟩, fun c hc => ?_⟩
  · cases hexec.symm.trans hm'
    exact hframes
  obtain ⟨m', hm', rfl⟩ := Option.map_eq_some_iff.mp hc
  cases hexec.symm.trans hm'
  refine ⟨⟨trivial, fun m' hm' => ?_⟩, fun c hc => ?_⟩
  · cases hticked.symm.trans hm'
    exact htimer ▸ hframes
  obtain ⟨m', hm', rfl⟩ := Option.map_eq_some_iff.mp hc
  cases hticked.symm.trans hm'
  refine ⟨⟨trivial, fun m' hm' => ?_⟩, fun _ _ => trivial⟩
  cases (step_mmap _ _ _ _ huser).symm.trans hm'
  rw [(sysMmap_user _ _ _ _ _).1, htimer]
  exact hframes

theorem file_mapping_mapFile :
    After stepWith (fun c => c.1.FilesShown) (bootMachine, fun _ => Pages.empty) mapFile :=
  file_mapping_iff bootMachine_booted noRegions_bootMachine along_mapFile

theorem stepWith_eq {R : Fin 8 → Pages} {op : ProcOp} (hs : m.step op = some m') :
    stepWith (m, R) op = some (m', deepStep m R op) :=
  congrArg (Option.map _) hs

/-- A task that was just started has no region, as little as the others. -/
theorem elfExec_noRegions (hm : ∀ i, (m.tasks i).active = true → (m.tasks i).space.NoRegions)
    {file : ElfFile} {ticks : UInt16} {i : Fin 8}
    (ha : ((m.elfExec file ticks).2.tasks i).active = true) :
    ((m.elfExec file ticks).2.tasks i).space.NoRegions := by
  cases step_spaceStep (step_elfExec m file ticks) ha with
  | kept active space => exact space ▸ hm i active
  | fresh none => exact none
  | copied active space => exact space ▸ hm m.current active
  | mapped _ _ _ _ _ _ call => exact ProcOp.noConfusion call
  | unmapped _ _ call => exact ProcOp.noConfusion call
  | moved _ _ call => exact ProcOp.noConfusion call
  | loaded _ _ _ call => exact ProcOp.noConfusion call

/-- The program of slot 3 has no region when it starts to run. -/
theorem bootMachine_firstTask_space :
    ((bootMachine.elfExec stackImage 4).2.timer 0).2.cur.space.NoRegions := by
  obtain ⟨hcurrent, htask, huser⟩ := bootMachine_switch
  have hspace := elfExec_noRegions noRegions_bootMachine huser.1
  rw [← htask, ← hcurrent] at hspace
  exact hspace

/-- Of a file of 65537 bytes, all 7, the page of the last one shows 0. -/
theorem not_file_mapping :
    (VernisFs.emptyVolume.vfsWriteFile VernisFs.pathA (fun _ => 7) 65537).1 = 65537 ∧
      Along stepWith (fun c op => c.1.StepOk op ∧ c.1.FramesLast op)
        (bootMachine, fun _ => Pages.empty) mapFile ∧
      ¬ After stepWith (fun c => ∀ m' env fs start length path bytes va,
          FileFault c.1 m' env fs start length path bytes va →
            m'.userByte m'.current va = some (bytes.getD (va - start).toNat 0))
        (bootMachine, fun _ => Pages.empty) mapFile := by
  refine ⟨by decide +kernel, along_mapFile, fun hafter => ?_⟩
  have hfind : (System.sevens 65537).fs.vfsFindFile namePathA.path = some 0 := by
    decide +kernel
  have hbyte : ((System.sevens 65537).fs.content 0).getD 65536 0 = 7 := by
    rw [VernisFs.getD_content _ (by decide +kernel)]
    decide +kernel
  have hfile := fileBytes_content noMounts (by decide) hfind
  have hnone : (deepStep bootMachine (fun _ => Pages.empty) (.elfExec stackImage 4) 3).pageAt
      0x20010000 = none := by
    rw [← Option.isNone_iff_eq_none]
    decide
  have hhead : bootMachine.RegionsAligned := fun i ha => .of_noRegions (noRegions_bootMachine i ha)
  have hok := (bootMachine_booted.ok.elfExec bootMachine_booted.tables
    (fun _ => stackImage_pagesOk) bootMachine_elfExec_left.1).timer 0
  obtain ⟨hframes, hleft⟩ := bootMachine_elfExec_left
  have hpool := (bootMachine.elfExec_spends stackImage 4).pool bootMachine_booted.pool
  have huser := bootMachine_firstTask
  have hspace := bootMachine_firstTask_space
  have hcurrent := bootMachine_switch.1
  have hexec := step_elfExec bootMachine stackImage 4
  have htimer := (bootMachine.elfExec stackImage 4).2.timer_paging 0
  generalize (bootMachine.elfExec stackImage 4).2 = m₁ at *
  have hticked := step_timer m₁ 0
  rw [← htimer] at hframes hleft hpool
  generalize (m₁.timer 0).2 = m₂ at *
  generalize deepStep bootMachine (fun _ => Pages.empty) (.elfExec stackImage 4) = R at *
  have hmmap := step_mmap 0x20000 1 0x10000000 (some namePathA) huser
  obtain ⟨m', hf⟩ := fileFault_mmap 0x20000 1 0x10000000
    hok huser hspace ⟨by decide, by decide⟩ (by decide) (by decide) hfile (by decide) (by decide)
    (by decide) (hcurrent ▸ hnone) hpool hframes (by omega)
  have haligned := step_aligned (step_aligned (step_aligned hhead hexec) hticked) hmmap
  have hshows := hf.userByte_eq (hok.mmap 0x20000 1 0x10000000 (some namePathA)) haligned
  have hlast := ((hafter.2 _ (stepWith_eq hexec)).2 _ (stepWith_eq hticked)).2 _ (stepWith_eq hmmap)
  have hclaim := hlast m' _ _ _ _ _ _ _ hf
  rw [hshows, if_neg (by decide)] at hclaim
  have hzero := Option.some.inj hclaim
  rw [show ((0x20010000 : UInt64) - mmapBase64).toNat = 65536 from rfl, hbyte] at hzero
  exact absurd hzero (by decide)

end Machine

end VernisOS
