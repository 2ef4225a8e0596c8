import VernisOS.Fat32Directories

/-!
# Following a path

`resolve` searches one directory after another for the components of a path : `OnPath` says
something of each of these searches, `Leads` where they arrive. On a disk that can be read it
returns what the path leads to (`resolve_leads`). The operations are all the same up to there
(`atNode`).
-/

open Loop

namespace VernisOS

namespace FatVol

variable {v : FatVol} {disk : UInt32 → Sector}

/-- `P` holds of every search that the path makes on its way : of its target and its directory. -/
def OnPath (v : FatVol) (disk : UInt32 → Sector) (P : List UInt8 → UInt32 → Prop) :
    List (List UInt8) → FatNode → Prop
  | [], _ => True
  | comp :: comps, node => comp.length ≤ 12 → node.isDir = true → ∀ t83, nameTo83 comp = some t83 →
      P t83 node.cluster ∧ ∀ d, v.Lookup disk node.cluster t83 d → OnPath v disk P comps d.node

/-- The components lead from a node to another. -/
def Leads (v : FatVol) (disk : UInt32 → Sector) :
    List (List UInt8) → FatNode → FatNode → Prop
  | [], node, node' => node' = node
  | comp :: comps, node, node' => comp.length ≤ 12 ∧ node.isDir = true ∧
      ∃ t83 d, nameTo83 comp = some t83 ∧ v.Lookup disk node.cluster t83 d ∧
        Leads v disk comps d.node node'

/-- The root directory. -/
def root (v : FatVol) : FatNode :=
  ⟨v.rootCluster, 0, true⟩

/-- The components of an absolute path, `none` for any other or if nothing is mounted. -/
def absolute (v : FatVol) (path : List UInt8) : Option (List (List UInt8)) :=
  if !v.mounted || path.getD 0 0 != 47 then none else some (pathComponents (path.drop 1))

theorem stable_resolveFrom (comps : List (List UInt8)) (node : FatNode) (io : FatIo) :
    Stable fun n => v.resolveFrom n comps node io := by
  induction comps generalizing node io with
  | nil => exact stable_const _
  | cons comp comps ih =>
    simp only [resolveFrom]
    split
    · exact stable_const _
    split
    · exact stable_const _
    cases nameTo83 comp with
    | none => exact stable_const _
    | some t83 =>
      refine (stable_dirFind io node.cluster t83).bind fun r => ?_
      obtain ⟨_ | d, io'⟩ := r
      · exact stable_const _
      · exact ih d.node io'

theorem stable_resolve (io : FatIo) (path : List UInt8) :
    Stable fun n => v.resolve n io path := by
  unfold resolve
  split
  · exact stable_const _
  · exact stable_resolveFrom _ _ _

theorem grows_resolveFrom (comps : List (List UInt8)) (node : FatNode) (io : FatIo) :
    Grows fun n => v.resolveFrom n comps node io := by
  induction comps generalizing node io with
  | nil => exact grows_const _
  | cons comp comps ih =>
    simp only [resolveFrom]
    split
    · exact grows_const _
    split
    · exact grows_const _
    cases nameTo83 comp with
    | none => exact grows_const _
    | some t83 =>
      refine Grows.bind (stable_dirFind io node.cluster t83) (grows_walk _) fun r => ?_
      obtain ⟨_ | d, io'⟩ := r
      · exact grows_const _
      · exact ih d.node io'

/-- The search for a component, and the rest of the path from what it finds. -/
theorem resolveFrom_search {comp t83 : List UInt8} {node : FatNode} (hlen : comp.length ≤ 12)
    (hdir : node.isDir = true) (hname : nameTo83 comp = some t83) (comps : List (List UInt8))
    (io : FatIo) (n : ℕ) :
    v.resolveFrom n (comp :: comps) node io =
      Loop.bind (v.dirFind n io node.cluster t83) fun r =>
        match r.1 with
        | none => reads [] (none, r.2)
        | some d => v.resolveFrom n comps d.node r.2 := by
  refine (if_neg (Nat.not_lt.mpr hlen)).trans ?_
  rw [hdir, if_neg (by decide)]
  generalize nameTo83 comp = o at hname ⊢
  obtain rfl := hname
  rfl

/-- A component for which there is no search ends the path. -/
theorem resolveFrom_refused {comp : List UInt8} {node : FatNode}
    (h : ¬ (comp.length ≤ 12 ∧ node.isDir = true ∧ ∃ t83, nameTo83 comp = some t83))
    (comps : List (List UInt8)) (io : FatIo) (n : ℕ) :
    v.resolveFrom n (comp :: comps) node io = reads [] (none, io) := by
  by_cases hlen : 12 < comp.length
  · exact if_pos hlen
  refine (if_neg hlen).trans ?_
  by_cases hdir : node.isDir = true
  · rw [hdir, if_neg (by decide)]
    cases hname : nameTo83 comp with
    | none => rfl
    | some t83 => exact absurd ⟨Nat.not_lt.mp hlen, hdir, t83, hname⟩ h
  · rw [if_pos (by simpa using hdir)]

/-- What a path comes to on a disk that can be read, behind the search for its first component. -/
theorem ends_resolveFrom_iff {comp t83 : List UInt8} {node : FatNode} (hlen : comp.length ≤ 12)
    (hdir : node.isDir = true) (hname : nameTo83 comp = some t83) {comps : List (List UInt8)}
    {log : List UInt32} {r : Option FatNode × FatIo} :
    Ends (fun n => v.resolveFrom n (comp :: comps) node (FatIo.quiet disk)) log r ↔
      (Ends (fun n => v.dirFind n (FatIo.quiet disk) node.cluster t83) log
          (none, FatIo.quiet disk) ∧ r = (none, FatIo.quiet disk)) ∨
        ∃ l d l', Ends (fun n => v.dirFind n (FatIo.quiet disk) node.cluster t83) l
            (some d, FatIo.quiet disk) ∧
          Ends (fun n => v.resolveFrom n comps d.node (FatIo.quiet disk)) l' r ∧ log = l ++ l' := by
  simp only [resolveFrom_search hlen hdir hname]
  have hstable : ∀ r : Option Dirent × FatIo, Stable fun n =>
      match r.1 with
      | none => reads [] (none, r.2)
      | some d => v.resolveFrom n comps d.node r.2 := by
    rintro ⟨_ | d, io⟩
    · exact stable_const _
    · exact stable_resolveFrom comps d.node io
  rw [Ends.bind_iff (stable_dirFind _ _ _) hstable]
  constructor
  · rintro ⟨l, ⟨res, io⟩, l', hfind, hrest, rfl⟩
    obtain rfl : io = FatIo.quiet disk := walk_quiet hfind
    cases res with
    | none =>
      obtain ⟨rfl, rfl⟩ := Ends.unique (stable_const _) hrest (.reads fun _ => rfl)
      exact Or.inl ⟨by rw [List.append_nil]; exact hfind, rfl⟩
    | some d => exact Or.inr ⟨l, d, l', hfind, hrest, rfl⟩
  · rintro (⟨hfind, rfl⟩ | ⟨l, d, l', hfind, hrest, rfl⟩)
    · exact ⟨log, _, [], hfind, .reads fun _ => rfl, (List.append_nil log).symm⟩
    · exact ⟨l, _, l', hfind, hrest, rfl⟩

/-- A path leaves the disk as it is. -/
theorem resolveFrom_quiet {comps : List (List UInt8)} {node : FatNode} {log : List UInt32}
    {r : Option FatNode × FatIo}
    (h : Ends (fun n => v.resolveFrom n comps node (FatIo.quiet disk)) log r) :
    r.2 = FatIo.quiet disk := by
  induction comps generalizing node log with
  | nil =>
    obtain ⟨-, rfl⟩ := Ends.unique (stable_const _) h (.reads fun _ => rfl)
    rfl
  | cons comp comps ih =>
    by_cases hsearch : comp.length ≤ 12 ∧ node.isDir = true ∧ ∃ t83, nameTo83 comp = some t83
    · obtain ⟨hlen, hdir, t83, hname⟩ := hsearch
      rcases (ends_resolveFrom_iff hlen hdir hname).mp h with
        ⟨-, rfl⟩ | ⟨l, d, l', -, hrest, -⟩
      · rfl
      · exact ih hrest
    · simp only [resolveFrom_refused hsearch] at h
      obtain ⟨-, rfl⟩ := Ends.unique (stable_const _) h (.reads fun _ => rfl)
      rfl

/-- A path on a disk that can be read arrives where its components lead. -/
theorem resolveFrom_leads {comps : List (List UInt8)} {node node' : FatNode} :
    (∃ log, Ends (fun n => v.resolveFrom n comps node (FatIo.quiet disk)) log
      (some node', FatIo.quiet disk)) ↔ v.Leads disk comps node node' := by
  induction comps generalizing node with
  | nil =>
    constructor
    · rintro ⟨log, h⟩
      obtain ⟨-, heq⟩ := Ends.unique (stable_const _) h (.reads fun _ => rfl)
      exact Option.some.inj (Prod.mk.inj heq).1
    · rintro rfl
      exact ⟨[], .reads fun _ => rfl⟩
  | cons comp comps ih =>
    constructor
    · rintro ⟨log, h⟩
      by_cases hsearch : comp.length ≤ 12 ∧ node.isDir = true ∧ ∃ t83, nameTo83 comp = some t83
      · obtain ⟨hlen, hdir, t83, hname⟩ := hsearch
        rcases (ends_resolveFrom_iff hlen hdir hname).mp h with
          ⟨-, heq⟩ | ⟨l, d, l', hfind, hrest, -⟩
        · cases heq
        · exact ⟨hlen, hdir, t83, d, hname, dirFind_lookup.mp ⟨l, _, hfind⟩, ih.mp ⟨l', hrest⟩⟩
      · simp only [resolveFrom_refused hsearch] at h
        cases (Ends.unique (stable_const _) h (.reads fun _ => rfl)).2
    · rintro ⟨hlen, hdir, t83, d, hname, hlookup, hleads⟩
      obtain ⟨l, io, hfind⟩ := dirFind_lookup.mpr hlookup
      obtain rfl : io = FatIo.quiet disk := walk_quiet hfind
      obtain ⟨l', hrest⟩ := ih.mpr hleads
      exact ⟨l ++ l', (ends_resolveFrom_iff hlen hdir hname).mpr
        (Or.inr ⟨l, d, l', hfind, hrest, rfl⟩)⟩

/-- A path arrives only where its components lead, whichever reads fail. -/
theorem leads_of_resolveFrom {comps : List (List UInt8)} {node node' : FatNode} {io io' : FatIo}
    {log : List UInt32}
    (h : Ends (fun n => v.resolveFrom n comps node io) log (some node', io')) :
    v.Leads io.disk comps node node' ∧ io'.disk = io.disk := by
  induction comps generalizing node io log with
  | nil =>
    obtain ⟨-, heq⟩ := Ends.unique (stable_const _) h (.reads fun _ => rfl)
    obtain ⟨hnode, rfl⟩ := Prod.mk.inj heq
    exact ⟨Option.some.inj hnode, rfl⟩
  | cons comp comps ih =>
    by_cases hsearch : comp.length ≤ 12 ∧ node.isDir = true ∧ ∃ t83, nameTo83 comp = some t83
    · obtain ⟨hlen, hdir, t83, hname⟩ := hsearch
      simp only [resolveFrom_search hlen hdir hname] at h
      obtain ⟨n, hn⟩ := h
      obtain ⟨l, ⟨res, io''⟩, l', hfind, hrest, -⟩ := bind_eq_reads.mp hn
      cases res with
      | none => cases Option.some.inj (congrArg Prod.snd hrest)
      | some d =>
        obtain ⟨hlookup, hdisk⟩ := lookup_of_dirFind ⟨n, hfind⟩
        obtain ⟨hleads, hdisk'⟩ := ih ⟨n, hrest⟩
        rw [hdisk] at hleads hdisk'
        exact ⟨⟨hlen, hdir, t83, d, hname, hlookup, hleads⟩, hdisk'⟩
    · simp only [resolveFrom_refused hsearch] at h
      cases (Ends.unique (stable_const _) h (.reads fun _ => rfl)).2

/-! ## `resolve` -/

/-- The path from the root, or the refusal. -/
theorem resolve_eq (v : FatVol) (n : ℕ) (io : FatIo) (path : List UInt8) :
    v.resolve n io path =
      (v.absolute path).elim (reads [] (none, io)) fun comps =>
        v.resolveFrom n comps v.root io := by
  rw [resolve, absolute]
  split
  · rfl
  · rfl

/-- The path leads to a file or a directory. -/
def LeadsTo (v : FatVol) (disk : UInt32 → Sector) (path : List UInt8) (node : FatNode) : Prop :=
  ∃ comps, v.absolute path = some comps ∧ v.Leads disk comps v.root node

/-- A path on a disk that can be read resolves to what its components lead to. -/
theorem resolve_leads {path : List UInt8} {node : FatNode} :
    (∃ log, Ends (fun n => v.resolve n (FatIo.quiet disk) path) log
      (some node, FatIo.quiet disk)) ↔ v.LeadsTo disk path node := by
  simp only [resolve_eq, LeadsTo]
  cases v.absolute path with
  | none =>
    refine iff_of_false ?_ fun ⟨_, h, _⟩ => by cases h
    rintro ⟨log, h⟩
    cases (Ends.unique (stable_const _) h (.reads fun _ => rfl)).2
  | some comps =>
    refine resolveFrom_leads.trans ⟨fun h => ⟨comps, rfl, h⟩, ?_⟩
    rintro ⟨_, ⟨⟩, h⟩
    exact h

/-- A path resolves only to what it leads to, whichever reads fail. -/
theorem leadsTo_of_resolve {path : List UInt8} {node : FatNode} {io io' : FatIo}
    {log : List UInt32} (h : Ends (fun n => v.resolve n io path) log (some node, io')) :
    v.LeadsTo io.disk path node ∧ io'.disk = io.disk := by
  simp only [resolve_eq] at h
  cases habs : v.absolute path with
  | none =>
    rw [habs] at h
    cases (Ends.unique (stable_const _) h (.reads fun _ => rfl)).2
  | some comps =>
    rw [habs] at h
    obtain ⟨hleads, hdisk⟩ := leads_of_resolveFrom h
    exact ⟨⟨comps, habs, hleads⟩, hdisk⟩

theorem resolve_quiet {path : List UInt8} {log : List UInt32} {r : Option FatNode × FatIo}
    (h : Ends (fun n => v.resolve n (FatIo.quiet disk) path) log r) : r.2 = FatIo.quiet disk := by
  simp only [resolve_eq] at h
  cases habs : v.absolute path with
  | none =>
    rw [habs] at h
    obtain ⟨-, rfl⟩ := Ends.unique (stable_const _) h (.reads fun _ => rfl)
    rfl
  | some comps =>
    rw [habs] at h
    exact resolveFrom_quiet h

/-! ## The operations -/

/-- The cluster in which the listing of a directory begins. -/
def listStart (v : FatVol) (node : FatNode) : UInt32 :=
  if node.cluster < 2 then v.rootCluster else node.cluster

/-- An operation on what a path leads to : `refused` if it leads nowhere or to what is not `ok`. -/
def atNode {α : Type} (v : FatVol) (n : ℕ) (io : FatIo) (path : List UInt8) (ok : FatNode → Bool)
    (refused : α) (op : FatNode → FatIo → Logged UInt32 (α × FatIo)) :
    Logged UInt32 (α × FatIo) :=
  Loop.bind (v.resolve n io path) fun r =>
    (r.1.filter ok).elim (reads [] (refused, r.2)) (op · r.2)

theorem fat32Stat_eq (n : ℕ) (io : FatIo) (path : List UInt8) :
    v.fat32Stat n io path = v.atNode n io path (fun _ => true) none
      fun node io => reads [] (some (node.size, node.isDir), io) := by
  rw [fat32Stat, atNode]
  congr 1
  funext r
  obtain ⟨_ | node, io⟩ := r
  · rfl
  · rfl

theorem fat32List_eq (n : ℕ) (io : FatIo) (path : List UInt8) :
    v.fat32List n io path = v.atNode n io path (·.isDir) ((-1 : Int), []) fun node io =>
      Loop.bind (v.walk listLoop n (v.listStart node, [], io)) fun q =>
        reads [] (((q.1.length : Int), q.1), q.2) := by
  rw [fat32List.eq_def, atNode]
  congr 1
  funext r
  obtain ⟨_ | node, io⟩ := r
  · rfl
  · cases hdir : node.isDir with
    | false => simp [Option.filter, hdir]
    | true => simp [Option.filter, hdir, listStart]

/-- How many bytes `fat32_read` is to read. -/
def wanted (node : FatNode) (maxLen : UInt32) : UInt32 :=
  if node.size < maxLen then node.size else maxLen

theorem fat32Read_eq (n : ℕ) (io : FatIo) (path : List UInt8) (maxLen : UInt32) :
    v.fat32Read n io path maxLen = v.atNode n io path (!·.isDir) (-1, []) fun node io =>
      v.walk (readLoop (wanted node maxLen)) n (node.cluster, [], io) := by
  rw [fat32Read.eq_def, atNode]
  congr 1
  funext r
  obtain ⟨_ | node, io⟩ := r
  · rfl
  · cases hdir : node.isDir with
    | false => simp [Option.filter, hdir, wanted]
    | true => simp [Option.filter, hdir]

/-! ## A small volume -/

/-- A sector with the given bytes, and zeros elsewhere. -/
def sectorOf (bytes : List (ℕ × UInt8)) : Sector :=
  fun k => (bytes.lookup k.val).getD 0

/-- A disk with the given sectors, and empty ones elsewhere. -/
def diskOf (secs : List (UInt32 × Sector)) : UInt32 → Sector :=
  fun lba => (secs.lookup lba).getD (sectorOf [])

/-- Before the first mount. -/
def unmounted : FatVol :=
  ⟨false, 0, 0, 0, 0, 0, 0⟩

/-- A boot sector : sixteen sectors, one of them reserved and one for the FAT. -/
def smallBoot : Sector :=
  sectorOf [(12, 2), (13, 1), (14, 1), (16, 1), (19, 16), (36, 1), (44, 2), (510, 0x55),
    (511, 0xAA)]

/-- A volume of one sector per cluster, whose root directory is cluster 2. -/
def smallVol : FatVol :=
  ⟨true, 8192, 1, 2, 2, 1, 14⟩

/-- A directory entry for the file `A`, of 600 bytes and with the given first cluster. -/
def smallEntry (cluster : UInt8) : Sector :=
  sectorOf ((0, 65) :: (11, 0x20) :: (26, cluster) :: (28, 88) :: (29, 2) ::
    (List.range' 1 10).map (·, 32))

/-- The disk with the volume, given its FAT and its root directory. -/
def smallDisk (fat rootDir : Sector) : UInt32 → Sector :=
  diskOf [(8192, smallBoot), (8193, fat), (8194, rootDir)]

/-- A FAT : the root directory has one cluster, and the file has clusters 3 and 4. -/
def smallFat : Sector :=
  sectorOf [(8, 0xF8), (9, 0xFF), (10, 0xFF), (11, 0x0F), (12, 4),
    (16, 0xF8), (17, 0xFF), (18, 0xFF), (19, 0x0F)]

theorem mounts_smallDisk (fat rootDir : Sector) :
    unmounted.Mounts (FatIo.quiet (smallDisk fat rootDir)) 8192 smallVol := by
  rw [mounts_quiet]
  change FatVol.parse _ smallBoot = _
  rfl

/-- The volume with the file in clusters 3 and 4. -/
def fileDisk : UInt32 → Sector :=
  smallDisk smallFat (smallEntry 3)

theorem mounts_fileDisk : unmounted.Mounts (FatIo.quiet fileDisk) 8192 smallVol :=
  mounts_smallDisk smallFat (smallEntry 3)

/-- The path `/A`. -/
def fileA : List UInt8 :=
  [47, 65]

theorem lookup_fileDisk : smallVol.Lookup fileDisk 2 (65 :: List.replicate 10 32)
    ⟨65 :: List.replicate 10 32, 0x20, 3, 600⟩ :=
  ⟨0, 2, rfl, rfl, rfl⟩

theorem leadsTo_fileA {node : FatNode} :
    smallVol.LeadsTo fileDisk fileA node ↔ node = ⟨3, 600, false⟩ := by
  have habs : smallVol.absolute fileA = some [[65]] := rfl
  have hname : nameTo83 [65] = some (65 :: List.replicate 10 32) := rfl
  constructor
  · rintro ⟨comps, hcomps, hleads⟩
    obtain rfl := Option.some.inj (habs.symm.trans hcomps)
    obtain ⟨-, -, t83, d, ht83, hd, rfl⟩ := hleads
    obtain rfl := Option.some.inj (hname.symm.trans ht83)
    obtain rfl := Lookup.unique hd lookup_fileDisk
    rfl
  · rintro rfl
    exact ⟨[[65]], habs, by decide, rfl, _, _, hname, lookup_fileDisk, rfl⟩

end FatVol

end VernisOS
