import VernisOS.Fat32Paths

/-!
# Reads outside the volume

The driver computes sectors from cluster numbers in 32 bits and checks none of them. Whichever reads
fail, the operations read only what they come to on a disk that can be read : so they stay inside
the volume exactly if every cluster they come to lies inside, as far as it is read, and has its
entry in a sector of the FAT that does (`reads_inside_iff`).
-/

open Bytes Loop

namespace VernisOS

variable {σ ρ : Type}

namespace FatVol

variable {v : FatVol} {disk : UInt32 → Sector} {P : UInt32 → Prop}

/-! ## Directories -/

/-- Every sector of the volume that a loop over a directory comes to meets `R` : of each cluster
those before the end of the directory, and that of the FAT if it goes on. -/
def DirInside (v : FatVol) (disk : UInt32 → Sector) (R : UInt32 → Prop) (hit : Dirent → Bool)
    (cl : UInt32) : Prop :=
  ∀ i c, orbit (v.dirStep disk hit) i cl = some c → isCluster c = true →
    (∀ s < v.sectorsPerCluster.toNat,
      (((v.clusterSectors disk c).take s).flatMap Dirent.ofSector).all (Dirent.passes hit) = true →
        R (v.clusterFirstSector c + UInt32.ofNat s)) ∧
      ((v.clusterDirents disk c).all (Dirent.passes hit) = true → R (v.fatSector c))

/-- The sectors of a cluster that a loop over a directory reads. -/
theorem lt_scanCluster {lp : ClusterLoop σ ρ} {hit : Dirent → Bool} (h : DirLoop lp hit)
    {cl : UInt32} {st : σ} {s : ℕ} : s < (v.scanCluster disk lp cl st).1 ↔
      s < v.sectorsPerCluster.toNat ∧
        (((v.clusterSectors disk cl).take s).flatMap Dirent.ofSector).all
          (Dirent.passes hit) = true := by
  rw [scanCluster, h.lt_scan, clusterSectors, List.length_map, List.length_range]

theorem scanCluster_inl {lp : ClusterLoop σ ρ} {hit : Dirent → Bool} (h : DirLoop lp hit)
    {cl : UInt32} (st : σ) : (∃ st', (v.scanCluster disk lp cl st).2 = .inl st') ↔
      (v.clusterDirents disk cl).all (Dirent.passes hit) = true :=
  h.scan_inl _ st

/-- Whichever reads fail, a loop over a directory reads only what it comes to. -/
theorem DirInside.logs {lp : ClusterLoop σ ρ} {hit : Dirent → Bool} (h : DirLoop lp hit)
    {cl : UInt32} {st : σ} {io : FatIo}
    (hin : v.DirInside io.disk (fun rel => P (v.baseLba + rel)) hit cl) {e : UInt32}
    (he : Logs (fun n => v.walk lp n (cl, st, io)) e) : P e := by
  obtain ⟨n, he⟩ := he
  refine log_of_invariant (I := fun w : UInt32 × σ × FatIo => w.2.2.disk = io.disk ∧
    (isCluster w.1 = true → ∃ i, orbit (v.dirStep io.disk hit) i cl = some w.1))
    (fun w hw => ?_) n ⟨rfl, fun _ => ⟨0, rfl⟩⟩ e he
  obtain ⟨c, st, io'⟩ := w
  obtain ⟨hdisk, horbit⟩ := hw
  dsimp only at hdisk horbit
  by_cases hc : isCluster c = true
  · obtain ⟨i, horbit⟩ := horbit hc
    obtain ⟨hsecs, hfat⟩ := hin i c horbit hc
    have hlbas : ∀ m ≤ (v.scanCluster io'.disk lp c st).1, ∀ e ∈ v.clusterLbas c m, P e := by
      intro m hm e he
      obtain ⟨s, hs, rfl⟩ := mem_clusterLbas.mp he
      obtain ⟨hspc, hpass⟩ := (lt_scanCluster h).mp (Nat.lt_of_lt_of_le hs hm)
      rw [hdisk] at hpass
      exact hsecs s hspc hpass
    rcases walkTurn_cases v io' (h.more st) hc with
      ⟨m, hm, st', io'', heq⟩ | ⟨ret, -, heq⟩ | ⟨st', hscan, heq⟩
    · rw [heq]
      exact ⟨hlbas m hm, fun log s' hs' => by cases Option.some.inj (congrArg Prod.snd hs')⟩
    · rw [heq]
      exact ⟨hlbas _ (Nat.le_refl _),
        fun log s' hs' => by cases Option.some.inj (congrArg Prod.snd hs')⟩
    · have hpass := (scanCluster_inl h st).mp ⟨st', hscan⟩
      rw [hdisk] at hpass
      rw [heq]
      constructor
      · intro e he
        rcases List.mem_append.mp he with he | he
        · exact hlbas _ (Nat.le_refl _) e he
        · obtain rfl := List.mem_singleton.mp he
          exact hfat hpass
      · intro log s' hs'
        cases Option.some.inj (congrArg Prod.snd hs')
        refine ⟨hdisk, fun hnext => ⟨i + 1, ?_⟩⟩
        dsimp only at hnext ⊢
        split at hnext
        · rw [isCluster_eoc] at hnext
          cases hnext
        · next hok =>
          rw [if_neg hok, hdisk, orbit_succ, horbit]
          exact if_pos (by rw [hc, hpass]; rfl)
  · rw [walkTurn_stop fun hgo => hc hgo.2]
    exact ⟨fun e he => absurd he List.not_mem_nil,
      fun log s' hs' => by cases Option.some.inj (congrArg Prod.snd hs')⟩

/-- On a disk that can be read it reads all it comes to. -/
theorem dirInside_of_logs {lp : ClusterLoop σ ρ} {hit : Dirent → Bool} (h : DirLoop lp hit)
    {cl : UInt32} {st : σ}
    (hlogs : ∀ e, Logs (fun n => v.walk lp n (cl, st, FatIo.quiet disk)) e → P e) :
    v.DirInside disk (fun rel => P (v.baseLba + rel)) hit cl := by
  intro i c horbit hc
  induction i generalizing cl st with
  | zero =>
    obtain rfl := Option.some.inj horbit
    have hturn := v.walkTurn_quiet disk lp cl st
    rw [if_pos ⟨h.more st, hc⟩] at hturn
    have hread : ∀ e ∈ (v.walkTurn lp (cl, st, FatIo.quiet disk)).1, P e :=
      fun e he => hlogs e ⟨1, mem_run_head he⟩
    constructor
    · intro s hs hpass
      refine hread _ ?_
      have hmem : v.clusterLba cl s ∈ v.clusterLbas cl (v.scanCluster disk lp cl st).1 :=
        mem_clusterLbas.mpr ⟨s, (lt_scanCluster h).mpr ⟨hs, hpass⟩, rfl⟩
      rw [hturn]
      split
      · exact List.mem_append_left _ hmem
      · exact hmem
    · intro hpass
      refine hread _ ?_
      obtain ⟨st', hscan⟩ := (scanCluster_inl h st).mpr hpass
      rw [hturn, hscan]
      exact List.mem_append_right _ (List.mem_singleton.mpr rfl)
  | succ i ih =>
    rcases h.turn_cases v disk cl st with ⟨log, st', hturn, hstep⟩ | ⟨log, ret, -, hstep⟩
    · rw [orbit, hstep] at horbit
      exact ih (fun e he => hlogs e (logs_run_next hturn he)) horbit
    · rw [orbit, hstep] at horbit
      cases horbit

/-! ## Files -/

/-- The cluster after a cluster of a file. -/
def fileStep (v : FatVol) (disk : UInt32 → Sector) (cl : UInt32) : Option UInt32 :=
  if isCluster cl then some (v.nextCluster disk cl) else none

/-- How many bytes a cluster has. -/
def clusterSize (v : FatVol) : ℕ :=
  512 * v.sectorsPerCluster.toNat

/-- Every sector of the volume that the read of `want` bytes comes to meets `R` : of each cluster
those with wanted bytes, and that of the FAT. -/
def FileInside (v : FatVol) (disk : UInt32 → Sector) (R : UInt32 → Prop) (want cl : UInt32) :
    Prop :=
  ∀ j c, orbit (v.fileStep disk) j cl = some c → isCluster c = true →
    j * v.clusterSize < want.toNat →
      (∀ s < v.sectorsPerCluster.toNat, j * v.clusterSize + 512 * s < want.toNat →
        R (v.clusterFirstSector c + UInt32.ofNat s)) ∧ R (v.fatSector c)

/-- The sectors of the next cluster that the loop of `fat32_read` reads. -/
theorem lt_scanCluster_readLoop {want : UInt32} {buf : List UInt8} {j s : ℕ}
    (disk : UInt32 → Sector) (cl : UInt32) (hbuf : buf.length = min want.toNat (j * v.clusterSize))
    (hj : j * v.clusterSize < want.toNat) :
    s < (v.scanCluster disk (readLoop want) cl buf).1 ↔
      s < v.sectorsPerCluster.toNat ∧ j * v.clusterSize + 512 * s < want.toNat := by
  rw [scanCluster_readLoop disk cl (by omega)]
  dsimp only
  omega

/-- Behind that cluster the buffer has the bytes of one more. -/
theorem scanCluster_readLoop_next {want : UInt32} {buf st' : List UInt8} {j : ℕ}
    (disk : UInt32 → Sector) (cl : UInt32) (hbuf : buf.length = min want.toNat (j * v.clusterSize))
    (hscan : (v.scanCluster disk (readLoop want) cl buf).2 = .inl st') :
    st'.length = min want.toNat ((j + 1) * v.clusterSize) := by
  have hle : buf.length ≤ want.toNat := by omega
  rw [scanCluster_readLoop disk cl hle] at hscan
  obtain rfl := Sum.inl.inj hscan
  rw [length_append_take buf _ hle, length_clusterBytes, ← clusterSize, Nat.succ_mul]
  omega

/-- Whichever reads fail, the loop of `fat32_read` reads only what it comes to. -/
theorem FileInside.logs {want cl : UInt32} {io : FatIo}
    (hin : v.FileInside io.disk (fun rel => P (v.baseLba + rel)) want cl) {e : UInt32}
    (he : Logs (fun n => v.walk (readLoop want) n (cl, [], io)) e) : P e := by
  obtain ⟨n, he⟩ := he
  refine log_of_invariant (I := fun w : UInt32 × List UInt8 × FatIo => w.2.2.disk = io.disk ∧
    (isCluster w.1 = true → ∃ j, orbit (v.fileStep io.disk) j cl = some w.1 ∧
      w.2.1.length = min want.toNat (j * v.clusterSize)))
    (fun w hw => ?_) n ⟨rfl, fun _ => ⟨0, rfl, by simp⟩⟩ e he
  obtain ⟨c, buf, io'⟩ := w
  obtain ⟨hdisk, horbit⟩ := hw
  dsimp only at hdisk horbit
  by_cases hgo : (readLoop want).more buf = true ∧ isCluster c = true
  · obtain ⟨hmore, hc⟩ := hgo
    obtain ⟨j, horbit, hbuf⟩ := horbit hc
    have hj : j * v.clusterSize < want.toNat := by
      have hlt := readLoop_more.mp hmore
      omega
    obtain ⟨hsecs, hfat⟩ := hin j c horbit hc hj
    have hlbas : ∀ m ≤ (v.scanCluster io'.disk (readLoop want) c buf).1,
        ∀ e ∈ v.clusterLbas c m, P e := by
      intro m hm e he
      obtain ⟨s, hs, rfl⟩ := mem_clusterLbas.mp he
      obtain ⟨hspc, hwant⟩ :=
        (lt_scanCluster_readLoop io'.disk c hbuf hj).mp (Nat.lt_of_lt_of_le hs hm)
      exact hsecs s hspc hwant
    rcases walkTurn_cases v io' hmore hc with
      ⟨m, hm, st', io'', heq⟩ | ⟨ret, -, heq⟩ | ⟨st', hscan, heq⟩
    · rw [heq]
      exact ⟨hlbas m hm, fun log s' hs' => by cases Option.some.inj (congrArg Prod.snd hs')⟩
    · rw [heq]
      exact ⟨hlbas _ (Nat.le_refl _),
        fun log s' hs' => by cases Option.some.inj (congrArg Prod.snd hs')⟩
    · rw [heq]
      constructor
      · intro e he
        rcases List.mem_append.mp he with he | he
        · exact hlbas _ (Nat.le_refl _) e he
        · obtain rfl := List.mem_singleton.mp he
          exact hfat
      · intro log s' hs'
        cases Option.some.inj (congrArg Prod.snd hs')
        refine ⟨hdisk, fun hnext => ⟨j + 1, ?_, scanCluster_readLoop_next io'.disk c hbuf hscan⟩⟩
        dsimp only at hnext ⊢
        split at hnext
        · rw [isCluster_eoc] at hnext
          cases hnext
        · next hok =>
          rw [if_neg hok, hdisk, orbit_succ, horbit]
          exact if_pos hc
  · rw [walkTurn_stop hgo]
    exact ⟨fun e he => absurd he List.not_mem_nil,
      fun log s' hs' => by cases Option.some.inj (congrArg Prod.snd hs')⟩

/-- On a disk that can be read it reads all it comes to. -/
theorem fileInside_of_logs {want cl : UInt32}
    (hlogs : ∀ e, Logs (fun n => v.walk (readLoop want) n (cl, [], FatIo.quiet disk)) e → P e) :
    v.FileInside disk (fun rel => P (v.baseLba + rel)) want cl := by
  suffices hgen : ∀ k j (c : UInt32) (buf : List UInt8),
      buf.length = min want.toNat (k * v.clusterSize) →
      (∀ e, Logs (fun n => v.walk (readLoop want) n (c, buf, FatIo.quiet disk)) e → P e) →
      ∀ c', orbit (v.fileStep disk) j c = some c' → isCluster c' = true →
        (k + j) * v.clusterSize < want.toNat →
          (∀ s < v.sectorsPerCluster.toNat, (k + j) * v.clusterSize + 512 * s < want.toNat →
            P (v.clusterLba c' s)) ∧ P (v.fatLba c') by
    intro j c horbit hc hj
    have h := hgen 0 j cl [] (by simp) hlogs c horbit hc
    rw [Nat.zero_add] at h
    exact h hj
  intro k j c buf hbuf hlogs c' horbit hc' hj
  induction j generalizing k c buf with
  | zero =>
    obtain rfl := Option.some.inj horbit
    rw [Nat.add_zero] at hj ⊢
    have hmore : (readLoop want).more buf = true := readLoop_more.mpr (by omega)
    have hturn := v.walkTurn_quiet disk (readLoop want) c buf
    rw [if_pos ⟨hmore, hc'⟩, scanCluster_readLoop disk c (by omega)] at hturn
    have hread : ∀ e ∈ (v.walkTurn (readLoop want) (c, buf, FatIo.quiet disk)).1, P e :=
      fun e he => hlogs e ⟨1, mem_run_head he⟩
    rw [hturn] at hread
    constructor
    · intro s hs hwant
      refine hread _ (List.mem_append_left _ (mem_clusterLbas.mpr ⟨s, ?_, rfl⟩))
      have hlt := (lt_scanCluster_readLoop disk c hbuf hj).mpr ⟨hs, hwant⟩
      rw [scanCluster_readLoop disk c (by omega)] at hlt
      exact hlt
    · exact hread _ (List.mem_append_right _ (List.mem_singleton.mpr rfl))
  | succ j ih =>
    have hc : isCluster c = true := by
      by_contra hno
      rw [orbit, fileStep, if_neg hno] at horbit
      cases horbit
    rw [orbit, fileStep, if_pos hc] at horbit
    have hkj : k * v.clusterSize < want.toNat := by
      refine Nat.lt_of_le_of_lt (Nat.mul_le_mul_right _ ?_) hj
      omega
    have hmore : (readLoop want).more buf = true := readLoop_more.mpr (by omega)
    have hturn := v.walkTurn_quiet disk (readLoop want) c buf
    rw [if_pos ⟨hmore, hc⟩, scanCluster_readLoop disk c (by omega)] at hturn
    have hnext := scanCluster_readLoop_next disk c hbuf
      (congrArg Prod.snd (scanCluster_readLoop disk c (by omega)))
    have hstep := ih (k + 1) (v.nextCluster disk c) _ hnext
      (fun e he => hlogs e (logs_run_next hturn he)) horbit
    rw [show k + 1 + j = k + (j + 1) by omega] at hstep
    exact hstep hj

/-! ## Paths -/

/-- The searches for the components come only to sectors that meet `R`. -/
def SearchesInside (v : FatVol) (disk : UInt32 → Sector) (R : UInt32 → Prop) :
    List (List UInt8) → FatNode → Prop :=
  v.OnPath disk fun t83 cl => v.DirInside disk R (Dirent.isHit t83) cl

theorem logs_resolveFrom_iff {comp t83 : List UInt8} {node : FatNode} (hlen : comp.length ≤ 12)
    (hdir : node.isDir = true) (hname : nameTo83 comp = some t83) {comps : List (List UInt8)}
    {io : FatIo} {e : UInt32} :
    Logs (fun n => v.resolveFrom n (comp :: comps) node io) e ↔
      Logs (fun n => v.dirFind n io node.cluster t83) e ∨
        ∃ l d io', Ends (fun n => v.dirFind n io node.cluster t83) l (some d, io') ∧
          Logs (fun n => v.resolveFrom n comps d.node io') e := by
  simp only [resolveFrom_search hlen hdir hname]
  rw [logs_bind_iff (stable_dirFind _ _ _)]
  · refine or_congr_right ⟨?_, ?_⟩
    · rintro ⟨l, ⟨_ | d, io'⟩, hfind, hrest⟩
      · exact absurd hrest not_logs_nil
      · exact ⟨l, d, io', hfind, hrest⟩
    · rintro ⟨l, d, io', hfind, hrest⟩
      exact ⟨l, (some d, io'), hfind, hrest⟩
  · rintro ⟨_ | d, io'⟩
    · exact grows_const _
    · exact grows_resolveFrom comps d.node io'

theorem SearchesInside.logs {comps : List (List UInt8)} {node : FatNode} {io : FatIo}
    (hin : v.SearchesInside io.disk (fun rel => P (v.baseLba + rel)) comps node) {e : UInt32}
    (he : Logs (fun n => v.resolveFrom n comps node io) e) : P e := by
  induction comps generalizing node io with
  | nil => exact absurd he not_logs_nil
  | cons comp comps ih =>
    by_cases hsearch : comp.length ≤ 12 ∧ node.isDir = true ∧ ∃ t83, nameTo83 comp = some t83
    · obtain ⟨hlen, hdir, t83, hname⟩ := hsearch
      obtain ⟨hfirst, hrest⟩ := hin hlen hdir t83 hname
      rcases (logs_resolveFrom_iff hlen hdir hname).mp he with he | ⟨l, d, io', hfind, he⟩
      · exact hfirst.logs (dirLoop_find t83) he
      · obtain ⟨hlookup, hdisk⟩ := lookup_of_dirFind hfind
        have hin' := hrest d hlookup
        rw [← hdisk] at hin'
        exact ih hin' he
    · simp only [resolveFrom_refused hsearch] at he
      exact absurd he not_logs_nil

theorem searchesInside_of_logs {comps : List (List UInt8)} {node : FatNode}
    (hlogs : ∀ e, Logs (fun n => v.resolveFrom n comps node (FatIo.quiet disk)) e → P e) :
    v.SearchesInside disk (fun rel => P (v.baseLba + rel)) comps node := by
  induction comps generalizing node with
  | nil => trivial
  | cons comp comps ih =>
    intro hlen hdir t83 hname
    refine ⟨dirInside_of_logs (dirLoop_find t83) fun e he =>
      hlogs e ((logs_resolveFrom_iff hlen hdir hname).mpr (Or.inl he)),
      fun d hd => ih fun e he => ?_⟩
    obtain ⟨l, io, hfind⟩ := dirFind_lookup.mpr hd
    obtain rfl : io = FatIo.quiet disk := walk_quiet hfind
    exact hlogs e ((logs_resolveFrom_iff hlen hdir hname).mpr (Or.inr ⟨l, d, _, hfind, he⟩))

/-- The searches for the components of a path come only to sectors that meet `R`. -/
def PathInside (v : FatVol) (disk : UInt32 → Sector) (R : UInt32 → Prop) (path : List UInt8) :
    Prop :=
  ∀ comps, v.absolute path = some comps → v.SearchesInside disk R comps v.root

/-- What an operation reads : what the path comes to, and what it reads itself then. -/
theorem logs_atNode_iff {α : Type} {path : List UInt8} {ok : FatNode → Bool} {refused : α}
    {op : ℕ → FatNode → FatIo → Logged UInt32 (α × FatIo)} {io : FatIo} {e : UInt32}
    (hop : ∀ node io, Grows fun n => op n node io) :
    Logs (fun n => v.atNode n io path ok refused (op n)) e ↔
      Logs (fun n => v.resolve n io path) e ∨
        ∃ l node io', Ends (fun n => v.resolve n io path) l (some node, io') ∧ ok node = true ∧
          Logs (fun n => op n node io') e := by
  simp only [atNode]
  rw [logs_bind_iff (stable_resolve _ _)]
  · refine or_congr_right ⟨?_, ?_⟩
    · rintro ⟨l, ⟨res, io'⟩, hres, hrest⟩
      cases hfilter : res.filter ok with
      | none =>
        rw [hfilter] at hrest
        exact absurd hrest not_logs_nil
      | some node =>
        obtain ⟨rfl, hok⟩ := Option.filter_eq_some_iff.mp hfilter
        rw [hfilter] at hrest
        exact ⟨l, node, io', hres, hok, hrest⟩
    · rintro ⟨l, node, io', hres, hok, hrest⟩
      refine ⟨l, (some node, io'), hres, ?_⟩
      dsimp only
      rw [Option.filter_some_pos hok]
      exact hrest
  · intro r
    cases r.1.filter ok with
    | none => exact grows_const _
    | some node => exact hop node r.2

/-- An operation reads only what meets `P`, whichever reads fail, exactly if the searches do, and
the operation on what the path leads to. -/
theorem atNode_inside_iff {α : Type} {path : List UInt8} {ok : FatNode → Bool} {refused : α}
    {op : ℕ → FatNode → FatIo → Logged UInt32 (α × FatIo)} {C : FatNode → Prop}
    (hop : ∀ node io, Grows fun n => op n node io)
    (hlogs : ∀ node io, io.disk = disk → C node → ∀ e, Logs (fun n => op n node io) e → P e)
    (hof : ∀ node, (∀ e, Logs (fun n => op n node (FatIo.quiet disk)) e → P e) → C node) :
    (∀ fails e, Logs (fun n => v.atNode n ⟨disk, fails⟩ path ok refused (op n)) e → P e) ↔
      v.PathInside disk (fun rel => P (v.baseLba + rel)) path ∧
        ∀ node, v.LeadsTo disk path node → ok node = true → C node := by
  simp only [logs_atNode_iff hop]
  constructor
  · intro h
    constructor
    · intro comps habs
      refine searchesInside_of_logs fun e he => h (fun _ => false) e (Or.inl ?_)
      simp only [resolve_eq, habs]
      exact he
    · intro node hnode hok
      obtain ⟨l, hres⟩ := resolve_leads.mpr hnode
      exact hof node fun e he => h (fun _ => false) e (Or.inr ⟨l, node, _, hres, hok, he⟩)
  · rintro ⟨hpath, hnode⟩ fails e (he | ⟨l, node, io', hres, hok, he⟩)
    · simp only [resolve_eq] at he
      cases habs : v.absolute path with
      | none =>
        rw [habs] at he
        exact absurd he not_logs_nil
      | some comps =>
        rw [habs] at he
        have hin : v.SearchesInside (FatIo.mk disk fails).disk _ comps v.root := hpath comps habs
        exact hin.logs he
    · obtain ⟨hleads, hdisk⟩ := leadsTo_of_resolve hres
      exact hlogs node io' hdisk (hnode node hleads hok) e he

/-! ## The volume -/

/-- `total_sec` of `fat32_mount`. -/
def totalSec (bpb : Sector) : UInt32 :=
  let total := (leAt16 (sectorByte bpb) 19).toUInt32
  if total = 0 then leAt32 (sectorByte bpb) 32 else total

/-- The sector of the disk lies in the volume. -/
def InVolume (baseLba total lba : UInt32) : Prop :=
  baseLba.toNat ≤ lba.toNat ∧ lba.toNat < baseLba.toNat + total.toNat

/-- The sum wraps around to a sector in front of the volume, if at all. -/
theorem inVolume_add {baseLba total : UInt32} (hfit : baseLba.toNat + total.toNat < 2 ^ 32)
    (rel : UInt32) : InVolume baseLba total (baseLba + rel) ↔ rel < total := by
  have hrel := rel.toNat_lt
  have hbase := baseLba.toNat_lt
  rw [InVolume, UInt32.toNat_add, UInt32.lt_iff_toNat_lt]
  omega

/-- All clusters that the operations on a path come to lie inside, as far as they are read : those
of the searches for its components, of the directory to list, and of the file to read. -/
structure Inside (v : FatVol) (disk : UInt32 → Sector) (total : UInt32) (path : List UInt8)
    (maxLen : UInt32) : Prop where
  searches : v.PathInside disk (· < total) path
  listing : ∀ node, v.LeadsTo disk path node → node.isDir = true →
    v.DirInside disk (· < total) (fun _ => false) (v.listStart node)
  file : ∀ node, v.LeadsTo disk path node → node.isDir = false →
    v.FileInside disk (· < total) (wanted node maxLen) node.cluster

theorem fat32Stat_inside_iff (disk : UInt32 → Sector) (path : List UInt8) :
    (∀ fails e, Logs (fun n => v.fat32Stat n ⟨disk, fails⟩ path) e → P e) ↔
      v.PathInside disk (fun rel => P (v.baseLba + rel)) path := by
  simp only [fat32Stat_eq]
  refine Iff.trans (atNode_inside_iff (C := fun _ => True) ?_ ?_ ?_)
    (and_iff_left fun _ _ _ => trivial)
  · exact fun _ _ => grows_const _
  · exact fun _ _ _ _ e he => absurd he not_logs_nil
  · exact fun _ _ => trivial

theorem fat32List_inside_iff (disk : UInt32 → Sector) (path : List UInt8) :
    (∀ fails e, Logs (fun n => v.fat32List n ⟨disk, fails⟩ path) e → P e) ↔
      v.PathInside disk (fun rel => P (v.baseLba + rel)) path ∧
        ∀ node, v.LeadsTo disk path node → node.isDir = true →
          v.DirInside disk (fun rel => P (v.baseLba + rel)) (fun _ => false)
            (v.listStart node) := by
  have hlogs : ∀ (node : FatNode) (io : FatIo) (e : UInt32),
      Logs (fun n => Loop.bind (v.walk listLoop n (v.listStart node, [], io)) fun q =>
        reads [] (((q.1.length : Int), q.1), q.2)) e ↔
      Logs (fun n => v.walk listLoop n (v.listStart node, [], io)) e := by
    intro node io e
    refine Iff.trans (logs_bind_iff (stable_walk _) ?_) (or_iff_left ?_)
    · exact fun _ => grows_const _
    · exact fun ⟨_, _, _, he⟩ => not_logs_nil he
  simp only [fat32List_eq]
  refine atNode_inside_iff ?_ ?_ ?_
  · exact fun _ _ => Grows.bind (stable_walk _) (grows_walk _) fun _ => grows_const _
  · rintro node io rfl hin e he
    exact DirInside.logs dirLoop_list hin ((hlogs node io e).mp he)
  · intro node h
    exact dirInside_of_logs dirLoop_list fun e he => h e ((hlogs node _ e).mpr he)

theorem fat32Read_inside_iff (disk : UInt32 → Sector) (path : List UInt8) (maxLen : UInt32) :
    (∀ fails e, Logs (fun n => v.fat32Read n ⟨disk, fails⟩ path maxLen) e → P e) ↔
      v.PathInside disk (fun rel => P (v.baseLba + rel)) path ∧
        ∀ node, v.LeadsTo disk path node → (!node.isDir) = true →
          v.FileInside disk (fun rel => P (v.baseLba + rel)) (wanted node maxLen) node.cluster := by
  simp only [fat32Read_eq]
  refine atNode_inside_iff ?_ ?_ ?_
  · exact fun _ _ => grows_walk _
  · rintro node io rfl hin e he
    exact FileInside.logs hin he
  · exact fun node h => fileInside_of_logs h

/-- The three operations read only sectors of the volume, whichever reads fail, exactly if all
clusters that they come to lie inside. -/
theorem reads_inside_iff {v₀ v : FatVol} {disk : UInt32 → Sector} {fails₀ : ℕ → Bool}
    {baseLba : UInt32} (h : v₀.Mounts ⟨disk, fails₀⟩ baseLba v)
    (hfit : baseLba.toNat + (totalSec (disk baseLba)).toNat < 2 ^ 32) (path : List UInt8)
    (maxLen : UInt32) :
    (∀ fails e, (Logs (fun n => v.fat32Stat n ⟨disk, fails⟩ path) e ∨
        Logs (fun n => v.fat32List n ⟨disk, fails⟩ path) e ∨
        Logs (fun n => v.fat32Read n ⟨disk, fails⟩ path maxLen) e) →
      InVolume baseLba (totalSec (disk baseLba)) e) ↔
        v.Inside disk (totalSec (disk baseLba)) path maxLen := by
  obtain ⟨-, hbase, -, -⟩ := h.geometry
  have hrel : (fun rel => InVolume baseLba (totalSec (disk baseLba)) (v.baseLba + rel)) =
      (· < totalSec (disk baseLba)) := by
    funext rel
    rw [hbase]
    exact propext (inVolume_add hfit rel)
  have hstat := fat32Stat_inside_iff (v := v) (P := InVolume baseLba (totalSec (disk baseLba)))
    disk path
  have hlist := fat32List_inside_iff (v := v) (P := InVolume baseLba (totalSec (disk baseLba)))
    disk path
  have hread := fat32Read_inside_iff (v := v) (P := InVolume baseLba (totalSec (disk baseLba)))
    disk path maxLen
  rw [hrel] at hstat hlist hread
  constructor
  · intro hall
    have hlist' := hlist.mp fun fails e he => hall fails e (Or.inr (Or.inl he))
    have hread' := hread.mp fun fails e he => hall fails e (Or.inr (Or.inr he))
    exact ⟨hlist'.1, hlist'.2, fun node hnode hdir => hread'.2 node hnode (by simp [hdir])⟩
  · rintro hin fails e (he | he | he)
    · exact hstat.mpr hin.searches fails e he
    · exact hlist.mpr ⟨hin.searches, hin.listing⟩ fails e he
    · exact hread.mpr ⟨hin.searches,
        fun node hnode hdir => hin.file node hnode (by simpa using hdir)⟩
        fails e he

theorem inside_fileA : smallVol.Inside fileDisk 16 fileA 600 := by
  have habs : smallVol.absolute fileA = some [[65]] := rfl
  have hname : nameTo83 [65] = some (65 :: List.replicate 10 32) := rfl
  have hstep : smallVol.dirStep fileDisk (Dirent.isHit (65 :: List.replicate 10 32)) 2 = none := by
    rfl
  refine ⟨?_, ?_, ?_⟩
  · intro comps hcomps
    obtain rfl := Option.some.inj (habs.symm.trans hcomps)
    intro _ _ t83 ht83
    obtain rfl := Option.some.inj (hname.symm.trans ht83)
    refine ⟨fun i c horbit hc => ?_, fun _ _ => trivial⟩
    cases i with
    | zero =>
      obtain rfl := Option.some.inj horbit
      refine ⟨fun s hs _ => ?_, fun _ => by decide⟩
      obtain rfl : s = 0 := Nat.lt_one_iff.mp hs
      decide
    | succ i =>
      rw [orbit] at horbit
      rw [show smallVol.root.cluster = 2 from rfl, hstep] at horbit
      cases horbit
  · intro node hnode hdir
    rw [leadsTo_fileA.mp hnode] at hdir
    cases hdir
  · intro node hnode _
    obtain rfl := leadsTo_fileA.mp hnode
    intro j c horbit hc hj
    have hsecs : ∀ s < smallVol.sectorsPerCluster.toNat, s = 0 := fun s hs => Nat.lt_one_iff.mp hs
    have hj' : j * 512 < 600 := hj
    obtain rfl | rfl : j = 0 ∨ j = 1 := by omega
    · obtain rfl := Option.some.inj horbit
      refine ⟨fun s hs _ => ?_, by decide⟩
      rw [hsecs s hs]
      decide
    · have hstep : orbit (smallVol.fileStep fileDisk) 1 3 = some 4 := rfl
      obtain rfl := Option.some.inj (hstep.symm.trans horbit)
      refine ⟨fun s hs _ => ?_, by decide⟩
      rw [hsecs s hs]
      decide

theorem reads_inside_fileA : totalSec (fileDisk 8192) = 16 ∧ ∀ fails e,
    (Logs (fun n => smallVol.fat32Stat n ⟨fileDisk, fails⟩ fileA) e ∨
      Logs (fun n => smallVol.fat32List n ⟨fileDisk, fails⟩ fileA) e ∨
      Logs (fun n => smallVol.fat32Read n ⟨fileDisk, fails⟩ fileA 600) e) →
        InVolume 8192 16 e := by
  have htotal : totalSec (fileDisk 8192) = 16 := rfl
  refine ⟨htotal, ?_⟩
  have hin := (reads_inside_iff mounts_fileDisk (by rw [htotal]; decide) fileA 600).mpr
    (by rw [htotal]; exact inside_fileA)
  rw [htotal] at hin
  exact hin

/-- A file whose only cluster is far behind the end of the volume is read there. -/
theorem not_reads_inside : ¬ ∀ (v₀ v : FatVol) (disk : UInt32 → Sector) (fails₀ : ℕ → Bool)
    (baseLba : UInt32), v₀.Mounts ⟨disk, fails₀⟩ baseLba v →
      baseLba.toNat + (totalSec (disk baseLba)).toNat < 2 ^ 32 →
        ∀ (path : List UInt8) (maxLen : UInt32) (fails : ℕ → Bool) (e : UInt32),
          (Logs (fun n => v.fat32Stat n ⟨disk, fails⟩ path) e ∨
            Logs (fun n => v.fat32List n ⟨disk, fails⟩ path) e ∨
            Logs (fun n => v.fat32Read n ⟨disk, fails⟩ path maxLen) e) →
          InVolume baseLba (totalSec (disk baseLba)) e := by
  intro h
  have htotal : totalSec (smallDisk smallFat (smallEntry 100) 8192) = 16 := rfl
  have hread : (8292 : UInt32) ∈ (smallVol.fat32Read 2
      (FatIo.quiet (smallDisk smallFat (smallEntry 100))) fileA 1).1 := by
    decide
  have hin := h _ _ _ _ _ (mounts_smallDisk smallFat (smallEntry 100))
    (by rw [htotal]; decide) fileA 1 _ 8292 (Or.inr (Or.inr ⟨2, hread⟩))
  rw [htotal] at hin
  exact absurd hin.2 (by decide)

end FatVol

end VernisOS
