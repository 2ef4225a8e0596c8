import VernisOS.FilePermissions
import VernisOS.VernisFsReadback
import VernisOS.VernisFsSecrecy

/-!
# Reading a descriptor to its end

Every `sys_read_fd` on a file reads it again from its start, into a buffer of 4096 bytes, and
gives what stands there from the offset of the descriptor on. So the calls up to the first that
returns 0 give the first 4096 bytes of the file whatever sizes they ask for, and the whole file
exactly if it is not longer (`read_to_end_iff`).
-/

open Bytes Slots

namespace VernisOS

/-! ## One read of a file -/

namespace VernisFs

variable {fs : VernisFs} {path : CStr} {i : Fin vfsMaxFiles}

/-- The bytes of a file. -/
def content (fs : VernisFs) (i : Fin vfsMaxFiles) : List UInt8 :=
  (List.range (fs.filetable i).size.toNat).map ((fs.filetable i).byteOn fs.disk.disk)

theorem length_content (fs : VernisFs) (i : Fin vfsMaxFiles) :
    (fs.content i).length = (fs.filetable i).size.toNat := by
  rw [content, List.length_map, List.length_range]

theorem getD_content (fs : VernisFs) {i : Fin vfsMaxFiles} {k : ℕ}
    (hk : k < (fs.filetable i).size.toNat) :
    (fs.content i).getD k 0 = (fs.filetable i).byteOn fs.disk.disk k := by
  rw [List.getD_eq_getElem _ _ (by rw [length_content]; exact hk)]
  unfold content
  rw [List.getElem_map, List.getElem_range]

/-- What a read gives that ends well are the first bytes. -/
theorem vfsReadBytes_eq_some (hfind : fs.vfsFindFile path = some i) {n : ℕ} (hn : n ≤ 65536)
    {got : List UInt8} (h : (vfsReadBytes fs path n).1 = some got) :
    got = (fs.content i).take n := by
  have hnat : (UInt64.ofNat n).toNat = n := UInt64.toNat_ofNat_of_lt' (by
    change n < 18446744073709551616
    omega)
  have hsize := readSize_toNat (fs.filetable i) (UInt64.ofNat n)
  rw [hnat] at hsize
  change (if (fs.vfsReadFile path (fun _ _ => 0) (UInt64.ofNat n)).1 < 0 then none else
    some (bufferBytes (fs.vfsReadFile path (fun _ _ => 0) (UInt64.ofNat n)).2.1
      (fs.vfsReadFile path (fun _ _ => 0) (UInt64.ofNat n)).1.toNat)) = some got at h
  by_cases hneg : (fs.vfsReadFile path (fun _ _ => 0) (UInt64.ofNat n)).1 < 0
  · rw [if_pos hneg] at h
    cases h
  · obtain ⟨hrc, hbytes⟩ := vfsReadFile_bytes hfind (fun _ _ => 0) _ (not_lt.mp hneg)
    rw [if_neg hneg, hrc, cInt_of_lt (by omega), Int.toNat_natCast, Option.some.injEq] at h
    rw [← h, content, ← List.map_take, List.take_range, hsize, Nat.min_comm n, bufferBytes]
    refine List.map_congr_left fun k hk => ?_
    have hk' := List.mem_range.mp hk
    have hsectors : k / 512 < readSectors (readSize (fs.filetable i) (UInt64.ofNat n)) := by
      rw [readSectors_eq (by omega)]
      unfold sectorCount
      omega
    have hbyte := hbytes k
    rw [if_pos hsectors] at hbyte
    exact hbyte

/-- A read into the buffer of `sys_read_fd` gives the first 4096 bytes. -/
theorem vfsReadBytes_content (hfind : fs.vfsFindFile path = some i) (hdisk : fs.disk.NeverFails) :
    (vfsReadBytes fs path 4096).1 = some ((fs.content i).take 4096) := by
  have hsize := readSize_toNat (fs.filetable i) 4096
  have h4096 : (4096 : UInt64).toNat = 4096 := rfl
  obtain ⟨size, -, hsize', hrc, -⟩ := vfsReadFile_spec hfind hdisk (fun _ _ => 0) 4096
  have hread : size = readSize (fs.filetable i) 4096 := hsize'
  rw [hread, cInt_of_lt (by omega)] at hrc
  have hsome : (vfsReadBytes fs path 4096).1 ≠ none := by
    change (if (fs.vfsReadFile path (fun _ _ => 0) 4096).1 < 0 then none else some _) ≠ none
    rw [if_neg (by omega)]
    exact Option.some_ne_none _
  obtain ⟨got, hgot⟩ := Option.ne_none_iff_exists'.mp hsome
  rw [hgot, vfsReadBytes_eq_some hfind (by decide) hgot]

/-- A path of VernisFS is read there. -/
theorem kfsReadFile_inside (env : KfsEnv) (fs : VernisFs) {path : CStr}
    (h : kfsOutside path.chars = false) (maxLen : ℕ) :
    kfsReadFile env fs path maxLen = vfsReadBytes fs path maxLen := by
  unfold kfsOutside kfsPathIsPseudo at h
  simp only [Bool.or_eq_false_iff, decide_eq_false_iff_not] at h
  obtain ⟨⟨⟨⟨⟨⟨⟨⟨⟨hproc, hdev⟩, huptime⟩, hps⟩, hfs⟩, hnull⟩, hzero⟩, -⟩, hfat⟩, hext⟩ := h
  rw [Option.isSome_eq_false_iff, Option.isNone_iff_eq_none] at hfat hext
  rw [kfsReadFile, if_neg hnull, if_neg hzero, if_neg huptime, if_neg hps, if_neg hfs,
    if_neg (not_or.mpr ⟨hproc, hdev⟩), hfat, hext]

/-- A read changes neither the files nor whether the disk fails. -/
theorem kfsReadFile_fs (env : KfsEnv) (fs : VernisFs) {path : CStr}
    (h : kfsOutside path.chars = false) (maxLen : ℕ) :
    ∃ d, (kfsReadFile env fs path maxLen).2 = fs.setDisk d ∧
      Backend.Wrote fs.disk d fun _ => False := by
  rw [kfsReadFile_inside env fs h maxLen]
  exact fs.vfsReadFile_fs path (fun _ _ => 0) (UInt64.ofNat maxLen)

/-- A disk with the same sectors has the same files. -/
theorem content_setDisk {d : Backend} (h : Backend.Wrote fs.disk d fun _ => False) :
    (fs.setDisk d).content i = fs.content i := by
  have hdisk : d.disk = fs.disk.disk := funext fun a => h.disk a not_false
  unfold content
  rw [setDisk_disk, setDisk_filetable, hdisk]

end VernisFs

namespace System

/-! ## A descriptor of a file -/

/-- A call of `sys_read_fd` : the pointer and the count. -/
abbrev ReadCall := UInt64 × UInt64

/-- It asks for bytes, and has a buffer of the user for them. -/
def ReadCall.Valid (r : ReadCall) : Prop :=
  0 < r.2.toNat ∧ userPtrRangeValid64 r.1 (UInt64.ofNat (ioCount r.2)) = true

/-- The bytes of the calls up to the first that returns 0, `none` if one before it fails or none
returns 0. -/
def readToEnd (env : KfsEnv) (fd : Int) : List ReadCall → System → Option (List UInt8)
  | [], _ => none
  | r :: calls, s =>
    match s.sysReadFd env fd r.1 r.2 with
    | (none, _) => none
    | (some [], _) => some []
    | (some (b :: bytes), s) => (readToEnd env fd calls s).map (b :: bytes ++ ·)

/-- A descriptor of the running task is open on a file of the volume, at an offset. -/
structure FileAt (s : System) (fd : Fin fdMax) (fs : VernisFs) (path : CString sysIoPathMax)
    (k : ℕ) : Prop where
  type : (s.fds fd).type = .file
  path : (s.fds fd).path = path
  offset : (s.fds fd).offset.toNat = k
  fs : ∃ d, s.fs = fs.setDisk d ∧ Backend.Wrote fs.disk d fun _ => False

section Reads

variable {env : KfsEnv} {s : System} {fd : Fin fdMax} {fs : VernisFs}
  {path : CString sysIoPathMax} {i : Fin vfsMaxFiles} {k : ℕ} {r : ReadCall}

theorem setFd_self (s : System) (fd : Fin fdMax) (e : FdEntry) : (s.setFd fd e).fds fd = e := by
  change Function.update s.fdTable s.machine.current (Function.update s.fds fd e)
    s.machine.current fd = e
  rw [Function.update_self, Function.update_self]

theorem openFd_of_type (h : (s.fds fd).type ≠ .none) : s.kernel.openFd fd.val = some fd := by
  have hfd : 0 ≤ (fd.val : Int) ∧ (fd.val : Int) < fdMax := ⟨Int.natCast_nonneg _, by omega⟩
  unfold Kernel.openFd
  rw [dif_pos hfd]
  exact if_neg h

theorem ioCount_pos (h : r.Valid) : 0 < ioCount r.2 :=
  lt_min h.1 (by decide)

/-- What `sys_read_fd` finds of the file. -/
theorem kfsReadFile_fileAt (h : s.FileAt fd fs path k) (hin : kfsOutside path.path.chars = false)
    (hfind : fs.vfsFindFile path.path = some i) (hdisk : fs.disk.NeverFails) :
    (kfsReadFile env s.fs path.path sysIoBufMax).1 = some ((fs.content i).take sysIoBufMax) := by
  obtain ⟨d, hfs, hwrote⟩ := h.fs
  rw [VernisFs.kfsReadFile_inside env s.fs hin, hfs, ← VernisFs.content_setDisk hwrote]
  exact VernisFs.vfsReadBytes_content hfind (hwrote.neverFails hdisk)

theorem range_getD (l : List UInt8) (k n : ℕ) (h : k + n ≤ l.length) :
    ((List.range n).map fun j => l.getD (k + j) 0) = (l.drop k).take n := by
  refine List.ext_getElem ?_ fun j hj hj' => ?_
  · rw [List.length_map, List.length_range, List.length_take, List.length_drop]
    omega
  · rw [List.getElem_map, List.getElem_range, List.getElem_take, List.getElem_drop]
    rw [List.length_map, List.length_range] at hj
    exact List.getD_eq_getElem _ _ (by omega)

/-- What `sys_read_fd` leaves of the files. -/
theorem FileAt.kfsReadFile_fs (h : s.FileAt fd fs path k) (env : KfsEnv)
    (hin : kfsOutside path.path.chars = false) :
    ∃ d, (kfsReadFile env s.fs path.path sysIoBufMax).2 = fs.setDisk d ∧
      Backend.Wrote fs.disk d fun _ => False := by
  obtain ⟨d, hfs, hwrote⟩ := h.fs
  obtain ⟨d', hfs', hwrote'⟩ := VernisFs.kfsReadFile_fs env s.fs hin sysIoBufMax
  rw [hfs] at hfs' hwrote'
  exact ⟨d', by rw [hfs, hfs']; rfl, hwrote.trans hwrote'⟩

/-- A read of the buffer gives its next bytes, and moves the offset behind them. -/
theorem readFileAt_fileAt (h : s.FileAt fd fs path k) (hin : kfsOutside path.path.chars = false)
    {whole : List UInt8} (hread : (kfsReadFile env s.fs path.path sysIoBufMax).1 = some whole)
    (hlen : whole.length ≤ 4096) (hk : k ≤ 4096) (count : ℕ) :
    (s.readFileAt env fd count).1 = some ((whole.drop k).take count) ∧
      (s.readFileAt env fd count).2.FileAt fd fs path
        (k + ((whole.drop k).take count).length) := by
  have hoffset : cInt (s.fds fd).offset = k := by
    rw [cInt_of_lt (by rw [h.offset]; omega), h.offset]
  have hfs := h.kfsReadFile_fs env hin
  unfold readFileAt
  dsimp only
  rw [h.path, hread, hoffset, h.offset]
  dsimp only
  by_cases hend : whole.length ≤ k
  · rw [if_pos (by omega), List.drop_eq_nil_of_le hend, List.take_nil]
    exact ⟨rfl, h.type, h.path, h.offset, hfs⟩
  · have hdrop : (whole.drop k).length = whole.length - k := List.length_drop
    have havail : (whole.length - (k : Int)).toNat = (whole.drop k).length := by omega
    have hbytes : ((whole.drop k).take (min count (whole.drop k).length)) =
        (whole.drop k).take count := by
      rw [← List.take_take, List.take_length]
    have hn : ((whole.drop k).take count).length = min count (whole.drop k).length :=
      List.length_take
    rw [if_neg (by omega), havail, range_getD whole k _ (by omega), hbytes, hn]
    set n := min count (whole.drop k).length with hdef
    refine ⟨rfl, ?_, ?_, ?_, hfs⟩
    · rw [setFd_self]
      exact h.type
    · rw [setFd_self]
    · rw [setFd_self]
      have hnat : (UInt32.ofNat n).toNat = n := UInt32.toNat_ofNat_of_lt' (by
        change n < 4294967296
        omega)
      have hmod : k + n < 4294967296 := by omega
      rw [UInt32.toNat_add, h.offset, hnat]
      exact Nat.mod_eq_of_lt hmod

/-- A call gives the next bytes of the first 4096, and moves the offset behind them. -/
theorem sysReadFd_fileAt (env : KfsEnv) (h : s.FileAt fd fs path k)
    (hin : kfsOutside path.path.chars = false) (hfind : fs.vfsFindFile path.path = some i) (hdisk : fs.disk.NeverFails) (hr : r.Valid)
    (hk : k ≤ 4096) :
    (s.sysReadFd env fd.val r.1 r.2).1 =
        some ((((fs.content i).take 4096).drop k).take (ioCount r.2)) ∧
      (s.sysReadFd env fd.val r.1 r.2).2.FileAt fd fs path
        (k + ((((fs.content i).take 4096).drop k).take (ioCount r.2)).length) := by
  have htype : (s.fds fd).type ≠ .none := by
    rw [h.type]
    decide
  have hcount : r.2 ≠ 0 := fun h0 => by
    have hpos := hr.1
    rw [h0] at hpos
    exact absurd hpos (by decide)
  have hread : s.sysReadFd env fd.val r.1 r.2 = s.readFileAt env fd (ioCount r.2) := by
    unfold sysReadFd
    rw [openFd_of_type htype]
    dsimp only
    rw [if_neg hcount, hr.2, h.type]
    rfl
  rw [hread]
  exact readFileAt_fileAt h hin (kfsReadFile_fileAt h hin hfind hdisk) (List.length_take_le _ _)
    hk (ioCount r.2)

/-! ## Reading to the end -/

/-- Enough calls give all of the first 4096 bytes from the offset on. -/
theorem readToEnd_fileAt (hin : kfsOutside path.path.chars = false)
    (hfind : fs.vfsFindFile path.path = some i) (hdisk : fs.disk.NeverFails)
    (calls : List ReadCall) (hcalls : ∀ r ∈ calls, r.Valid) {s : System} {k : ℕ}
    (h : s.FileAt fd fs path k) (hk : k ≤ 4096)
    (hmany : (((fs.content i).take 4096).drop k).length < calls.length) :
    readToEnd env fd.val calls s = some (((fs.content i).take 4096).drop k) := by
  induction calls generalizing s k with
  | nil => exact absurd hmany (Nat.not_lt_zero _)
  | cons r calls ih =>
    have hr := hcalls r List.mem_cons_self
    obtain ⟨hbytes, hnext⟩ := sysReadFd_fileAt env h hin hfind hdisk hr hk
    set rest := ((fs.content i).take 4096).drop k with hrest
    have hpos := ioCount_pos hr
    have hsplit : ∀ {o : Option (List UInt8)} {t : System},
        s.sysReadFd env fd.val r.1 r.2 = (o, t) →
          o = some (rest.take (ioCount r.2)) ∧
            t.FileAt fd fs path (k + (rest.take (ioCount r.2)).length) := by
      intro o t heq
      rw [heq] at hbytes hnext
      exact ⟨hbytes, hnext⟩
    unfold readToEnd
    split
    · next heq => exact absurd (hsplit heq).1 (by simp)
    · next heq =>
      -- nothing is left behind the offset
      obtain ⟨hnil, -⟩ := hsplit heq
      have hnil' := (Option.some.inj hnil).symm
      rcases List.take_eq_nil_iff.mp hnil' with h0 | h0
      · omega
      · rw [h0]
    · next b bytes t heq =>
      obtain ⟨hsome, hat⟩ := hsplit heq
      have htake := Option.some.inj hsome
      have hlen : (rest.take (ioCount r.2)).length = bytes.length + 1 := by
        rw [← htake, List.length_cons]
      have hle : (rest.take (ioCount r.2)).length ≤ rest.length := List.length_take_le' ..
      have hroom : rest.length ≤ 4096 - k := by
        rw [hrest, List.length_drop]
        have := List.length_take_le 4096 (fs.content i)
        omega
      have hdrop : ((fs.content i).take 4096).drop (k + (rest.take (ioCount r.2)).length) =
          rest.drop (rest.take (ioCount r.2)).length := by
        rw [hrest, List.drop_drop]
      have hgo := ih (fun r' hr' => hcalls r' (List.mem_cons_of_mem r hr')) hat (by omega) (by
        rw [hdrop, List.length_drop]
        rw [List.length_cons] at hmany
        omega)
      have hwhole : rest.take (ioCount r.2) ++ rest.drop (rest.take (ioCount r.2)).length =
          rest := by
        have hmin : (rest.take (ioCount r.2)).length = min (ioCount r.2) rest.length :=
          List.length_take
        rw [hmin]
        rcases le_total (ioCount r.2) rest.length with hle' | hle'
        · rw [Nat.min_eq_left hle', List.take_append_drop]
        · rw [Nat.min_eq_right hle', List.drop_length, List.append_nil,
            List.take_of_length_le hle']
      rw [hgo, hdrop, htake, Option.map_some, hwhole]

/-- The result stays as it is when more calls follow. -/
theorem readToEnd_append {fd : Int} {calls : List ReadCall} {whole : List UInt8}
    (more : List ReadCall) (h : readToEnd env fd calls s = some whole) :
    readToEnd env fd (calls ++ more) s = some whole := by
  induction calls generalizing s whole with
  | nil => cases h
  | cons r calls ih =>
    rw [List.cons_append]
    unfold readToEnd at h ⊢
    split at h
    · cases h
    · exact h
    · obtain ⟨rest, hrest, hwhole⟩ := Option.map_eq_some_iff.mp h
      rw [ih hrest, Option.map_some, hwhole]

/-- The calls up to the first that returns 0 give the first 4096 bytes. -/
theorem readToEnd_iff (hin : kfsOutside path.path.chars = false)
    (hfind : fs.vfsFindFile path.path = some i) (hdisk : fs.disk.NeverFails)
    {calls : ℕ → ReadCall} (hcalls : ∀ n, (calls n).Valid) (h : s.FileAt fd fs path 0)
    {whole : List UInt8} :
    (∃ n, readToEnd env fd.val ((List.range n).map calls) s = some whole) ↔
      whole = (fs.content i).take 4096 := by
  have hvalid : ∀ n, ∀ r ∈ (List.range n).map calls, r.Valid := by
    intro n r hr
    obtain ⟨j, -, rfl⟩ := List.mem_map.mp hr
    exact hcalls j
  have hlong : ∀ n, 4096 < n → readToEnd env fd.val ((List.range n).map calls) s =
      some ((fs.content i).take 4096) := by
    intro n hn
    have hlen := List.length_take_le 4096 (fs.content i)
    refine readToEnd_fileAt hin hfind hdisk _ (hvalid n) h (Nat.zero_le _) ?_
    rw [List.length_map, List.length_range, List.drop_zero]
    omega
  constructor
  · rintro ⟨n, hn⟩
    have hmore : (List.range (n + 4097)).map calls =
        (List.range n).map calls ++ (List.range' n 4097).map calls := by
      rw [← List.map_append, List.range_eq_range', List.range_eq_range', ← List.range'_append_1,
        Nat.zero_add]
    have happend := readToEnd_append ((List.range' n 4097).map calls) hn
    rw [← hmore, hlong _ (by omega)] at happend
    exact (Option.some.inj happend).symm
  · rintro rfl
    exact ⟨4097, hlong 4097 (by decide)⟩

/-- A descriptor that was just opened on a file stands at its start. -/
theorem fileAt_sysOpen {flags : UInt64} (h : 0 ≤ (s.sysOpen env (some path) flags).1) :
    ∃ fd : Fin fdMax, (s.sysOpen env (some path) flags).1 = fd.val ∧
      (s.sysOpen env (some path) flags).2.FileAt fd s.fs path 0 := by
  unfold sysOpen at h ⊢
  cases hfd : s.kernel.fdAlloc with
  | none =>
    rw [hfd] at h
    exact absurd h (by decide : ¬ (0 : Int) ≤ -1)
  | some fd =>
    rw [hfd] at h
    dsimp only at h ⊢
    by_cases hfound : (kfsFindFile env s.fs path.path).isSome
    · rw [if_pos hfound]
      refine ⟨fd, rfl, ?_, ?_, ?_, s.fs.disk, rfl, Backend.Wrote.refl _ _⟩
      · rw [setFd_self]
        rfl
      · rw [setFd_self]
        rfl
      · rw [setFd_self]
        rfl
    · rw [if_neg hfound] at h
      exact absurd h (by decide : ¬ (0 : Int) ≤ -1)

end Reads

/-- A descriptor that was just opened on a file of the volume is read to its end, with any
positive counts, and gives the file exactly if the file has at most 4096 bytes. -/
theorem read_to_end_iff (env : KfsEnv) (s : System) (path : CString sysIoPathMax) (flags : UInt64)
    (hopen : 0 ≤ (s.sysOpen env (some path) flags).1) (hin : kfsOutside path.path.chars = false)
    (i : Fin vfsMaxFiles) (hfind : s.fs.vfsFindFile path.path = some i)
    (hdisk : s.fs.disk.NeverFails) (calls : ℕ → ReadCall) (hcalls : ∀ n, (calls n).Valid) :
    (∃ n, readToEnd env (s.sysOpen env (some path) flags).1 ((List.range n).map calls)
        (s.sysOpen env (some path) flags).2 = some (s.fs.content i)) ↔
      (s.fs.filetable i).size.toNat ≤ 4096 := by
  obtain ⟨fd, hfd, hat⟩ := fileAt_sysOpen hopen
  rw [hfd, readToEnd_iff hin hfind hdisk hcalls hat, ← s.fs.length_content i]
  constructor
  · intro h
    rw [h]
    exact List.length_take_le _ _
  · intro h
    exact (List.take_of_length_le h).symm

/-- A user with a file `/a` of so many bytes, all 7. -/
def sevens (len : UInt64) : System :=
  boot userMachine (VernisFs.emptyVolume.vfsWriteFile VernisFs.pathA (fun _ => 7) len).2

theorem neverFails_sevens {len : UInt64}
    (h : (VernisFs.emptyVolume.vfsWriteFile VernisFs.pathA (fun _ => 7) len).1 = len.toNat) :
    (sevens len).fs.disk.NeverFails := by
  obtain ⟨_, _, -, hw⟩ := VernisFs.written_of_returns (fun _ => rfl) h
  exact hw.disk

theorem valid_readCall : ReadCall.Valid (0x10000000, 4096) :=
  ⟨by decide, by decide⟩

theorem read_to_end_sevens :
    ∃ n, readToEnd noMounts 3 ((List.range n).map fun _ => (0x10000000, 4096))
      ((sevens 600).sysOpen noMounts (some namePathA) 1).2 = some ((sevens 600).fs.content 0) := by
  have hfd : ((sevens 600).sysOpen noMounts (some namePathA) 1).1 = 3 := by
    decide +kernel
  have h := (read_to_end_iff noMounts (sevens 600) namePathA 1 (by rw [hfd]; decide) (by decide) 0
    (by decide +kernel) (neverFails_sevens (by decide +kernel)) (fun _ => (0x10000000, 4096))
    fun _ => valid_readCall).mpr (by decide +kernel)
  rw [hfd] at h
  exact h

/-- Of a file of 5000 bytes the last 904 are never read. -/
theorem not_read_to_end :
    ((VernisFs.emptyVolume.vfsWriteFile VernisFs.pathA (fun _ => 7) 5000).1 = 5000 ∧
      ((sevens 5000).sysOpen noMounts (some namePathA) 1).1 = 3 ∧
      (sevens 5000).fs.vfsFindFile namePathA.path = some 0 ∧
      (sevens 5000).fs.disk.NeverFails) ∧
      ¬ ∃ n, readToEnd noMounts 3 ((List.range n).map fun _ => (0x10000000, 4096))
        ((sevens 5000).sysOpen noMounts (some namePathA) 1).2 =
          some ((sevens 5000).fs.content 0) := by
  have hfd : ((sevens 5000).sysOpen noMounts (some namePathA) 1).1 = 3 := by
    decide +kernel
  have hfind : (sevens 5000).fs.vfsFindFile namePathA.path = some 0 := by
    decide +kernel
  have hdisk : (sevens 5000).fs.disk.NeverFails := neverFails_sevens (by decide +kernel)
  refine ⟨⟨by decide +kernel, hfd, hfind, hdisk⟩, fun h => ?_⟩
  obtain ⟨fd, hfd', hat⟩ := fileAt_sysOpen (by rw [hfd]; decide)
  rw [← hfd, hfd', readToEnd_iff (by decide) hfind hdisk (fun _ => valid_readCall) hat] at h
  have hlen := congrArg List.length h
  rw [List.length_take, VernisFs.length_content] at hlen
  have hsize : ((sevens 5000).fs.filetable 0).size.toNat = 5000 := by
    decide +kernel
  omega

end System

end VernisOS
