import VernisOS.Fat32Names

/-!
# Reading files

On a well-formed volume whose reads always succeed `fat32_read` puts the first `min(size, max_len)`
bytes of the clusters of the file into the buffer and returns their number, unless the path has a
component `.` or `..`, which the driver does not find, or the number does not fit an `int`
(`fat32Read_iff`).
-/

open Bytes Loop

namespace VernisOS

namespace FatVol

variable {v : FatVol} {disk : UInt32 → Sector} {baseLba : UInt32} {L : FatLayout}

/-- The bytes of the clusters of a chain. -/
def chainBytes (L : FatLayout) (b : ℕ → UInt8) (cs : List UInt32) : List UInt8 :=
  cs.flatMap (L.contents b)

theorem length_chainBytes (b : ℕ → UInt8) (cs : List UInt32) :
    (chainBytes L b cs).length = cs.length * L.clusterSize := by
  rw [chainBytes, List.length_flatMap]
  simp [FatLayout.length_contents]

/-- The loop of `fat32_read` puts the wanted bytes of a chain behind those it has. -/
theorem Has.readLoop_chain (h : v.Has disk baseLba L) (want : UInt32) {cl : UInt32}
    {cs : List UInt32} (hchain : L.Chain (volumeByte disk baseLba) cl cs) (done : List UInt8) :
    ∃ log, Ends (fun n => v.walk (readLoop want) n (cl, done.take want.toNat, FatIo.quiet disk)) log
      ((readLoop want).done
        ((done ++ chainBytes L (volumeByte disk baseLba) cs).take want.toNat),
          FatIo.quiet disk) := by
  induction cs generalizing cl done with
  | nil =>
    have hno : isCluster cl = false := hchain
    rw [chainBytes, List.flatMap_nil, List.append_nil]
    refine ⟨[], .done stable_walkTurn (.reads fun _ => walkTurn_stop ?_)⟩
    rw [hno]
    exact fun hc => by cases hc.2
  | cons c cs ih =>
    obtain ⟨rfl, hcl, -, hlink⟩ := hchain
    by_cases hlt : done.length < want.toNat
    · have htake : done.take want.toNat = done := List.take_of_length_le hlt.le
      have hturn := v.walkTurn_quiet disk (readLoop want) cl done
      rw [if_pos ⟨readLoop_more.mpr hlt, hcl⟩, scanCluster_readLoop disk cl hlt.le,
        h.sectorsBytes hcl, h.nextCluster hcl] at hturn
      obtain ⟨log, hrest⟩ := ih hlink (done ++ L.contents (volumeByte disk baseLba) cl)
      rw [List.take_append, htake, List.append_assoc] at hrest
      rw [htake]
      exact ⟨_, .next stable_walkTurn (.reads fun _ => hturn) hrest⟩
    · have hle : want.toNat ≤ done.length := Nat.not_lt.mp hlt
      rw [List.take_append_of_le_length hle]
      refine ⟨[], .done stable_walkTurn (.reads fun _ => walkTurn_stop fun hc => ?_)⟩
      have hmore := readLoop_more.mp hc.1
      rw [List.length_take] at hmore
      omega

/-- A path stands for a file or a directory of the volume. -/
def Denotes (L : FatLayout) (b : ℕ → UInt8) (path : List UInt8) (node : FatNode) : Prop :=
  path.getD 0 0 = 47 ∧ L.Names b (pathComponents (path.drop 1)) ⟨L.root, 0, true⟩ node

/-- The path has no component `.` or `..`. -/
def Dotless (path : List UInt8) : Prop :=
  ∀ comp ∈ pathComponents (path.drop 1), ¬ isDotComponent comp

instance decidableDotless (path : List UInt8) : Decidable (Dotless path) :=
  inferInstanceAs (Decidable (∀ _ ∈ _, _))

/-- On a well-formed volume a path leads to what it stands for unless it has a component `.` or
`..`. -/
theorem Has.leadsTo_iff (h : v.Has disk baseLba L) (hwf : L.WellFormed (volumeByte disk baseLba))
    {path : List UInt8} {node node' : FatNode}
    (hdenotes : Denotes L (volumeByte disk baseLba) path node) :
    v.LeadsTo disk path node' ↔ Dotless path ∧ node' = node := by
  obtain ⟨hslash, hnames⟩ := hdenotes
  obtain ⟨dirs, hroot, hdirs⟩ := hwf
  have habs : v.absolute path = some (pathComponents (path.drop 1)) := by
    rw [absolute, h.mounted, hslash]
    rfl
  have hroot' : v.root = ⟨L.root, 0, true⟩ := by rw [FatVol.root, h.root]
  rw [Dotless, ← h.leads_iff_of_names hdirs (fun _ => hroot) hnames, LeadsTo, habs]
  constructor
  · rintro ⟨comps, hcomps, hleads⟩
    obtain rfl := Option.some.inj hcomps
    exact hroot' ▸ hleads
  · exact fun hleads => ⟨_, rfl, hroot' ▸ hleads⟩

/-- An operation refuses its path, or comes to what it does with what the path leads to. -/
theorem ends_atNode_cases {α : Type} {path : List UInt8} {ok : FatNode → Bool} {refused : α}
    {op : ℕ → FatNode → FatIo → Logged UInt32 (α × FatIo)} {io : FatIo} {log : List UInt32}
    {r : α × FatIo} (h : Ends (fun n => v.atNode n io path ok refused (op n)) log r) :
    r.1 = refused ∨ ∃ l node io' l', Ends (fun n => v.resolve n io path) l (some node, io') ∧
      ok node = true ∧ Ends (fun n => op n node io') l' r ∧ log = l ++ l' := by
  obtain ⟨n, hn⟩ := h
  obtain ⟨l, ⟨res, io'⟩, l', hres, hrest, rfl⟩ := bind_eq_reads.mp hn
  cases hfilter : res.filter ok with
  | none =>
    rw [hfilter] at hrest
    exact Or.inl (congrArg Prod.fst (Option.some.inj (congrArg Prod.snd hrest))).symm
  | some node =>
    obtain ⟨rfl, hok⟩ := Option.filter_eq_some_iff.mp hfilter
    rw [hfilter] at hrest
    exact Or.inr ⟨l, node, io', l', ⟨n, hres⟩, hok, ⟨n, hrest⟩, rfl⟩

theorem ends_atNode {α : Type} {path : List UInt8} {ok : FatNode → Bool} {refused : α}
    {op : ℕ → FatNode → FatIo → Logged UInt32 (α × FatIo)} {io io' : FatIo}
    {l l' : List UInt32} {node : FatNode} {r : α × FatIo}
    (hop : ∀ node io, Stable fun n => op n node io)
    (hres : Ends (fun n => v.resolve n io path) l (some node, io')) (hok : ok node = true)
    (hends : Ends (fun n => op n node io') l' r) :
    Ends (fun n => v.atNode n io path ok refused (op n)) (l ++ l') r := by
  refine (Ends.bind_iff (stable_resolve _ _) fun res => ?_).mpr ⟨l, _, l', hres, ?_, rfl⟩
  · cases res.1.filter ok with
    | none => exact stable_const _
    | some node => exact hop node res.2
  · dsimp only
    rw [Option.filter_some_pos hok]
    exact hends

theorem stable_atNode {α : Type} {path : List UInt8} {ok : FatNode → Bool} {refused : α}
    {op : ℕ → FatNode → FatIo → Logged UInt32 (α × FatIo)} {io : FatIo}
    (hop : ∀ node io, Stable fun n => op n node io) :
    Stable fun n => v.atNode n io path ok refused (op n) := by
  refine (stable_resolve io path).bind fun res => ?_
  cases res.1.filter ok with
  | none => exact stable_const _
  | some node => exact hop node res.2

theorem stable_fat32Read (io : FatIo) (path : List UInt8) (maxLen : UInt32) :
    Stable fun n => v.fat32Read n io path maxLen := by
  simp only [fat32Read_eq]
  exact stable_atNode fun _ _ => stable_walk _

/-- `fat32_read` returns the number of the wanted bytes and puts them into the buffer. -/
def ReadsFile (v : FatVol) (disk : UInt32 → Sector) (path : List UInt8) (maxLen : UInt32)
    (count : ℕ) (bytes : List UInt8) : Prop :=
  ∃ log io, Ends (fun n => v.fat32Read n (FatIo.quiet disk) path maxLen) log
    (((count : Int), bytes), io)

theorem wanted_toNat (node : FatNode) (maxLen : UInt32) :
    (wanted node maxLen).toNat = min node.size.toNat maxLen.toNat := by
  unfold wanted
  split
  · next h =>
    have hlt := UInt32.lt_iff_toNat_lt.mp h
    omega
  · next h =>
    have hge := mt UInt32.lt_iff_toNat_lt.mpr h
    omega

/-- A file has a chain that is long enough for its size. -/
theorem file_chain {b : ℕ → UInt8} {dirs : UInt32 → Prop} (hdirs : L.GoodDirs b dirs)
    {comps : List (List UInt8)} {node node' : FatNode} (hdir : node.isDir = true)
    (hnode : dirs node.cluster) (hnames : L.Names b comps node node')
    (hfile : node'.isDir = false) :
    ∃ cs, L.Chain b node'.cluster cs ∧ node'.size.toNat ≤ (chainBytes L b cs).length := by
  induction comps generalizing node with
  | nil =>
    obtain rfl : node' = node := hnames
    rw [hdir] at hfile
    cases hfile
  | cons comp comps ih =>
    obtain ⟨-, cs', d, hchain', hd, -, hrest⟩ := hnames
    obtain ⟨-, cs'', hchain'', hgood⟩ := hdirs node.cluster hnode
    obtain rfl := hchain'.unique hchain''
    by_cases hd' : d.isDir = true
    · have htarget : dirs (L.target d).cluster := by
        rw [FatLayout.target, if_pos hd']
        exact hgood.dir d hd hd'
      exact ih hd' htarget hrest
    · have hd'' : d.isDir = false := by simpa using hd'
      cases comps with
      | nil =>
        obtain rfl : node' = L.target d := hrest
        obtain ⟨cs, hchain, hlen⟩ := hgood.file d hd hd''
        rw [FatLayout.target, if_neg hd']
        exact ⟨cs, hchain, by rw [length_chainBytes]; exact hlen⟩
      | cons comp' comps' => exact absurd hrest.1 hd'

/-- What a read of a file on the disk comes to. -/
theorem Has.readFile (h : v.Has disk baseLba L) {node : FatNode} {cs : List UInt32}
    (hchain : L.Chain (volumeByte disk baseLba) node.cluster cs) (maxLen : UInt32)
    (hlen : node.size.toNat ≤ (chainBytes L (volumeByte disk baseLba) cs).length) :
    ∃ log, Ends (fun n => v.walk (readLoop (wanted node maxLen)) n
        (node.cluster, [], FatIo.quiet disk)) log
      ((cInt (wanted node maxLen), (chainBytes L (volumeByte disk baseLba) cs).take
        (min node.size.toNat maxLen.toNat)), FatIo.quiet disk) := by
  obtain ⟨log, hends⟩ := h.readLoop_chain (wanted node maxLen) hchain []
  rw [List.nil_append, List.take_nil, wanted_toNat] at hends
  have htake : UInt32.ofNat ((chainBytes L (volumeByte disk baseLba) cs).take
      (min node.size.toNat maxLen.toNat)).length = wanted node maxLen := by
    rw [List.length_take_of_le (by omega), ← wanted_toNat, UInt32.ofNat_toNat]
  have hdone : (readLoop (wanted node maxLen)).done
      ((chainBytes L (volumeByte disk baseLba) cs).take
      (min node.size.toNat maxLen.toNat)) = (cInt (wanted node maxLen),
        (chainBytes L (volumeByte disk baseLba) cs).take (min node.size.toNat maxLen.toNat)) :=
    Prod.ext (congrArg cInt htake) rfl
  rw [hdone] at hends
  exact ⟨log, hends⟩

theorem cInt_eq_iff {n : UInt32} : cInt n = n.toNat ↔ n.toNat < 2 ^ 31 := by
  constructor
  · intro heq
    by_contra hge
    have hneg := (cInt_neg n).mpr (Nat.not_lt.mp hge)
    omega
  · exact cInt_of_lt

/-- A path that the driver reads as one of a file has no component `.` or `..`. -/
theorem Has.dotless_of_readsFile (h : v.Has disk baseLba L)
    (hwf : L.WellFormed (volumeByte disk baseLba)) {path : List UInt8} {node : FatNode}
    (hdenotes : Denotes L (volumeByte disk baseLba) path node) {maxLen : UInt32} {count : ℕ}
    {bytes : List UInt8} (hreads : v.ReadsFile disk path maxLen count bytes) : Dotless path := by
  obtain ⟨log, io, hends⟩ := hreads
  simp only [fat32Read_eq] at hends
  rcases ends_atNode_cases hends with hrefused | ⟨l, node', io', l', hres, -, -, -⟩
  · have hrc := congrArg Prod.fst hrefused
    have hcount : (count : Int) = -1 := hrc
    omega
  · exact ((h.leadsTo_iff hwf hdenotes).mp (leadsTo_of_resolve hres).1).1

/-- On a well-formed volume the read of a file gives the first bytes of its clusters, exactly if no
component of its path is `.` or `..` and their number fits an `int`. -/
theorem fat32Read_iff {v₀ v : FatVol} {disk : UInt32 → Sector} {baseLba : UInt32}
    (h : v₀.Mounts (FatIo.quiet disk) baseLba v)
    (hwf : (FatLayout.ofBoot (volumeByte disk baseLba)).WellFormed (volumeByte disk baseLba))
    {path : List UInt8} {node : FatNode} {cs : List UInt32}
    (hdenotes : Denotes (FatLayout.ofBoot (volumeByte disk baseLba)) (volumeByte disk baseLba)
      path node) (hfile : node.isDir = false)
    (hchain : (FatLayout.ofBoot (volumeByte disk baseLba)).Chain (volumeByte disk baseLba)
      node.cluster cs) (maxLen : UInt32) :
    v.ReadsFile disk path maxLen (min node.size.toNat maxLen.toNat)
        ((chainBytes (FatLayout.ofBoot (volumeByte disk baseLba)) (volumeByte disk baseLba) cs).take
          (min node.size.toNat maxLen.toNat)) ↔
      min node.size.toNat maxLen.toNat < 2 ^ 31 ∧ Dotless path := by
  have hhas := h.has
  have hlen : node.size.toNat ≤ (chainBytes (FatLayout.ofBoot (volumeByte disk baseLba))
      (volumeByte disk baseLba) cs).length := by
    obtain ⟨dirs, hroot, hdirs⟩ := hwf
    obtain ⟨cs', hchain', hlen⟩ := file_chain hdirs rfl hroot hdenotes.2 hfile
    rw [hchain.unique hchain']
    exact hlen
  obtain ⟨log, hread⟩ := hhas.readFile hchain maxLen hlen
  rw [← wanted_toNat, ← cInt_eq_iff]
  rw [← wanted_toNat] at hread
  have hends : Dotless path → ∃ log', Ends (fun n => v.fat32Read n (FatIo.quiet disk) path maxLen)
      log' ((cInt (wanted node maxLen),
        (chainBytes (FatLayout.ofBoot (volumeByte disk baseLba)) (volumeByte disk baseLba) cs).take
          (wanted node maxLen).toNat), FatIo.quiet disk) := by
    intro hdots
    obtain ⟨l, hres⟩ := resolve_leads.mpr ((hhas.leadsTo_iff hwf hdenotes).mpr ⟨hdots, rfl⟩)
    simp only [fat32Read_eq]
    exact ⟨_, ends_atNode (fun _ _ => stable_walk _) hres (by rw [hfile]; rfl) hread⟩
  constructor
  · intro hreads
    have hdots := hhas.dotless_of_readsFile hwf hdenotes hreads
    obtain ⟨log', io, hends'⟩ := hreads
    obtain ⟨log'', hends''⟩ := hends hdots
    obtain ⟨-, heq⟩ := Ends.unique (stable_fat32Read _ _ _) hends' hends''
    exact ⟨(congrArg (fun r => r.1.1) heq).symm, hdots⟩
  · rintro ⟨hlt, hdots⟩
    obtain ⟨log', hends'⟩ := hends hdots
    rw [hlt] at hends'
    exact ⟨log', _, hends'⟩

/-! ## A volume with a subdirectory -/

/-- The root directory : the file `A`, of 600 bytes in clusters 3 and 4, and the directory `D`. -/
def rootDir : Sector :=
  sectorOf ((0, 65) :: (11, 0x20) :: (26, 3) :: (28, 88) :: (29, 2) ::
    (32, 68) :: (43, 0x10) :: (58, 5) ::
    (List.range' 1 10).map (·, 32) ++ (List.range' 33 10).map (·, 32))

/-- The directory `D`, with its entries for itself and the root directory. -/
def subDir : Sector :=
  sectorOf ((0, 46) :: (11, 0x10) :: (26, 5) :: (32, 46) :: (33, 46) :: (43, 0x10) ::
    (List.range' 1 10).map (·, 32) ++ (List.range' 34 9).map (·, 32))

/-- A FAT with the chains of the two directories and the file. -/
def dirFat : Sector :=
  sectorOf [(8, 0xF8), (9, 0xFF), (10, 0xFF), (11, 0x0F), (12, 4),
    (16, 0xF8), (17, 0xFF), (18, 0xFF), (19, 0x0F), (20, 0xF8), (21, 0xFF), (22, 0xFF), (23, 0x0F)]

/-- The disk with this volume. -/
def dirDisk : UInt32 → Sector :=
  diskOf [(8192, smallBoot), (8193, dirFat), (8194, rootDir), (8197, subDir)]

/-- The layout of this volume. -/
def dirLayout : FatLayout :=
  .ofBoot (volumeByte dirDisk 8192)

theorem mounts_dirDisk : unmounted.Mounts (FatIo.quiet dirDisk) 8192 smallVol := by
  rw [mounts_quiet]
  rfl

/-- The entry for the file. -/
def entryA : Dirent :=
  ⟨65 :: List.replicate 10 32, 0x20, 3, 600⟩

/-- The entry for the directory. -/
def entryD : Dirent :=
  ⟨68 :: List.replicate 10 32, 0x10, 5, 0⟩

theorem live_root : dirLayout.live (volumeByte dirDisk 8192) [2] = [entryA, entryD] := by
  rfl

theorem live_sub : dirLayout.live (volumeByte dirDisk 8192) [5] =
    [⟨dotName, 0x10, 5, 0⟩, ⟨dotdotName, 0x10, 0, 0⟩] := by
  rfl

theorem chain_root : dirLayout.Chain (volumeByte dirDisk 8192) 2 [2] :=
  ⟨rfl, rfl, by decide, by unfold FatLayout.Chain; rfl⟩

theorem chain_sub : dirLayout.Chain (volumeByte dirDisk 8192) 5 [5] :=
  ⟨rfl, rfl, by decide, by unfold FatLayout.Chain; rfl⟩

theorem chain_file : dirLayout.Chain (volumeByte dirDisk 8192) 3 [3, 4] :=
  ⟨rfl, rfl, by decide, rfl, rfl, by decide,
    by unfold FatLayout.Chain; rfl⟩

theorem goodDir_root :
    dirLayout.GoodDir (volumeByte dirDisk 8192) (fun cl => cl = 2 ∨ cl = 5) [2] := by
  constructor
  · rw [live_root]
    decide
  all_goals
    rw [live_root]
    intro d hd
  · rcases List.mem_pair.mp hd with rfl | rfl
    · exact Or.inl ⟨rfl, by decide, by decide +kernel⟩
    · exact Or.inl ⟨rfl, by decide, by decide +kernel⟩
  · rcases List.mem_pair.mp hd with rfl | rfl
    · exact fun _ => ⟨[3, 4], chain_file, by decide⟩
    · exact fun hfile => absurd hfile (by decide)
  · rcases List.mem_pair.mp hd with rfl | rfl
    · exact fun hdir => absurd hdir (by decide)
    · exact fun _ => Or.inr rfl

theorem goodDir_sub :
    dirLayout.GoodDir (volumeByte dirDisk 8192) (fun cl => cl = 2 ∨ cl = 5) [5] := by
  constructor
  · rw [live_sub]
    decide
  all_goals
    rw [live_sub]
    intro d hd
  · rcases List.mem_pair.mp hd with rfl | rfl
    · exact Or.inr ⟨rfl, Or.inl rfl⟩
    · exact Or.inr ⟨rfl, Or.inr rfl⟩
  · rcases List.mem_pair.mp hd with rfl | rfl
    · exact fun hfile => absurd hfile (by decide)
    · exact fun hfile => absurd hfile (by decide)
  · rcases List.mem_pair.mp hd with rfl | rfl
    · exact fun _ => Or.inr rfl
    · exact fun _ => Or.inl rfl

theorem goodDirs_dirDisk :
    dirLayout.GoodDirs (volumeByte dirDisk 8192) fun cl => cl = 2 ∨ cl = 5 := by
  rintro cl (rfl | rfl)
  · exact ⟨rfl, [2], chain_root, goodDir_root⟩
  · exact ⟨rfl, [5], chain_sub, goodDir_sub⟩

theorem wellFormed_dirDisk : dirLayout.WellFormed (volumeByte dirDisk 8192) :=
  ⟨_, Or.inl rfl, goodDirs_dirDisk⟩

theorem has_dirDisk : smallVol.Has dirDisk 8192 dirLayout :=
  mounts_dirDisk.has

/-- The path `/a` stands for the file. -/
theorem denotes_fileA : Denotes dirLayout (volumeByte dirDisk 8192) [47, 97] ⟨3, 600, false⟩ :=
  ⟨rfl, rfl, [2], entryA, chain_root, by rw [live_root]; exact List.mem_cons_self, by decide, rfl⟩

theorem fat32Read_fileA : smallVol.ReadsFile dirDisk [47, 97] 1000 600
    ((chainBytes dirLayout (volumeByte dirDisk 8192) [3, 4]).take 600) :=
  (fat32Read_iff mounts_dirDisk wellFormed_dirDisk denotes_fileA rfl chain_file 1000).mpr
    ⟨by decide, by decide⟩

/-- The path `/D/../A` stands for the file, too. -/
theorem denotes_dotdot : Denotes dirLayout (volumeByte dirDisk 8192) [47, 68, 47, 46, 46, 47, 65]
    ⟨3, 600, false⟩ := by
  have hcomps : pathComponents [68, 47, 46, 46, 47, 65] = [[68], [46, 46], [65]] := by
    rfl
  have hroot : (dirLayout.target ⟨dotdotName, 0x10, 0, 0⟩).cluster = 2 := rfl
  refine ⟨rfl, ?_⟩
  rw [List.drop_one, List.tail_cons, hcomps]
  refine ⟨rfl, [2], entryD, chain_root, ?_, by decide, rfl, [5], ⟨dotdotName, 0x10, 0, 0⟩,
    chain_sub, ?_, by decide, rfl, [2], entryA, ?_, ?_, by decide, rfl⟩
  · rw [live_root]
    exact List.mem_pair.mpr (Or.inr rfl)
  · rw [live_sub]
    exact List.mem_pair.mpr (Or.inr rfl)
  · rw [hroot]
    exact chain_root
  · rw [live_root]
    exact List.mem_pair.mpr (Or.inl rfl)

/-- A file is not found behind a component `..`. -/
theorem not_fat32Read : ¬ ∀ (v₀ v : FatVol) (disk : UInt32 → Sector) (baseLba : UInt32),
    v₀.Mounts (FatIo.quiet disk) baseLba v →
      (FatLayout.ofBoot (volumeByte disk baseLba)).WellFormed (volumeByte disk baseLba) →
      ∀ (path : List UInt8) (node : FatNode) (cs : List UInt32),
        Denotes (.ofBoot (volumeByte disk baseLba)) (volumeByte disk baseLba) path node →
        node.isDir = false →
        (FatLayout.ofBoot (volumeByte disk baseLba)).Chain (volumeByte disk baseLba)
          node.cluster cs →
        ∀ maxLen : UInt32, v.ReadsFile disk path maxLen (min node.size.toNat maxLen.toNat)
          ((chainBytes (.ofBoot (volumeByte disk baseLba)) (volumeByte disk baseLba) cs).take
            (min node.size.toNat maxLen.toNat)) := by
  intro h
  have hreads := h _ _ _ _ mounts_dirDisk wellFormed_dirDisk _ _ _ denotes_dotdot rfl chain_file 1
  have hdots := mounts_dirDisk.has.dotless_of_readsFile wellFormed_dirDisk denotes_dotdot hreads
  exact absurd hdots (by decide)

end FatVol

end VernisOS
