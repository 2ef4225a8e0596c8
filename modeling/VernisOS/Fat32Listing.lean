import VernisOS.Fat32Files

/-!
# Listing a directory

`fat32_list` reports the entries of a directory under the names that `name_from_83` makes of their
eleven bytes, up to the first blank of each field. On a well-formed volume such a name can be looked
up exactly if the entry is neither `.` nor `..` and `cutName`, what is left of its name there, is
the name of an entry with the same size and kind (`list_stat_iff`).
-/

open Bytes Loop

namespace VernisOS

/-! ## The entries reported -/

/-- What the callback gets of an entry. -/
def Dirent.report (d : Dirent) : Fat32Entry :=
  ⟨nameFrom83 d.name, d.size, d.isDir⟩

/-- The loop over entries reports those in use, and goes on if none is the end of the directory. -/
theorem listDirents_eq (out : List Fat32Entry) (ds : List Dirent) :
    listDirents out ds =
      (if ds.all (!·.isEnd) then Sum.inl else Sum.inr)
        (out ++ ((ds.takeWhile (!·.isEnd)).filter (!·.skipped)).map Dirent.report) := by
  induction ds generalizing out with
  | nil => rw [listDirents, List.takeWhile_nil, List.filter_nil, List.map_nil, List.append_nil]; rfl
  | cons d ds ih =>
    rw [listDirents, List.all_cons]
    by_cases hend : d.isEnd = true
    · rw [if_pos hend, List.takeWhile_cons_of_neg (by simp [hend]), hend]
      simp
    rw [if_neg hend, List.takeWhile_cons_of_pos (by simpa using hend)]
    have hend' : (!d.isEnd) = true := by simpa using hend
    by_cases hskip : d.skipped = true
    · rw [if_pos hskip, ih, List.filter_cons_of_neg (by simp [hskip]), hend', Bool.true_and]
    · rw [if_neg hskip, ih, List.filter_cons_of_pos (by simpa using hskip), hend', Bool.true_and,
        List.map_cons, List.append_assoc]
      rfl

theorem scan_listLoop (secs : List Sector) (out : List Fat32Entry) :
    (FatVol.listLoop.scan secs out).2 = listDirents out (secs.flatMap Dirent.ofSector) := by
  induction secs generalizing out with
  | nil => rfl
  | cons sec secs ih =>
    have hsec : FatVol.listLoop.sector out sec = listDirents out (Dirent.ofSector sec) := rfl
    rw [ClusterLoop.scan, if_pos (dirLoop_list.more out), hsec, List.flatMap_cons]
    rw [listDirents_eq out (Dirent.ofSector sec), listDirents_eq out (Dirent.ofSector sec ++ _),
      List.all_append]
    by_cases hall : (Dirent.ofSector sec).all (!·.isEnd) = true
    · rw [if_pos hall]
      dsimp only
      have hpos : ∀ d ∈ Dirent.ofSector sec, (!d.isEnd) = true := List.all_eq_true.mp hall
      rw [ih, listDirents_eq, hall, Bool.true_and, List.takeWhile_append_of_pos hpos,
        List.takeWhile_eq_self_iff.mpr hpos, List.filter_append, List.map_append, List.append_assoc]
    · rw [if_neg hall]
      dsimp only
      have hno : (Dirent.ofSector sec).all (!·.isEnd) = false := Bool.eq_false_iff.mpr hall
      rw [hno, Bool.false_and, if_neg Bool.false_ne_true, takeWhile_append_of_not_all hall]

namespace FatVol

variable {v : FatVol} {disk : UInt32 → Sector} {baseLba : UInt32} {L : FatLayout}

/-- The listing of a directory reports its entries in use. -/
theorem Has.listLoop_chain (h : v.Has disk baseLba L) {cl : UInt32} {cs : List UInt32}
    (hchain : L.Chain (volumeByte disk baseLba) cl cs) (out : List Fat32Entry) :
    ∃ log, Ends (fun n => v.walk listLoop n (cl, out, FatIo.quiet disk)) log
      (out ++ (L.live (volumeByte disk baseLba) cs).map Dirent.report, FatIo.quiet disk) := by
  induction cs generalizing cl out with
  | nil =>
    have hno : isCluster cl = false := hchain
    rw [FatLayout.live, List.flatMap_nil, List.takeWhile_nil, List.filter_nil, List.map_nil,
      List.append_nil]
    refine ⟨[], .done stable_walkTurn (.reads fun _ => walkTurn_stop ?_)⟩
    rw [hno]
    exact fun hc => by cases hc.2
  | cons c cs ih =>
    obtain ⟨rfl, hcl, -, hlink⟩ := hchain
    have hscan : (v.scanCluster disk listLoop cl out).2 =
        listDirents out (L.dirents (volumeByte disk baseLba) cl) := by
      rw [← h.clusterDirents hcl]
      exact scan_listLoop _ out
    rw [listDirents_eq] at hscan
    have hturn := v.walkTurn_quiet disk listLoop cl out
    rw [if_pos ⟨dirLoop_list.more out, hcl⟩, hscan, h.nextCluster hcl] at hturn
    rw [FatLayout.live, List.flatMap_cons]
    by_cases hall : (L.dirents (volumeByte disk baseLba) cl).all (!·.isEnd) = true
    · rw [if_pos hall] at hturn
      have hpos := List.all_eq_true.mp hall
      obtain ⟨log, hrest⟩ := ih hlink (out ++
        (((L.dirents (volumeByte disk baseLba) cl).takeWhile (!·.isEnd)).filter (!·.skipped)).map
          Dirent.report)
      rw [List.takeWhile_append_of_pos hpos, List.filter_append, List.map_append,
        ← List.append_assoc]
      rw [List.takeWhile_eq_self_iff.mpr hpos] at hturn hrest
      exact ⟨_, .next stable_walkTurn (.reads fun _ => hturn) hrest⟩
    · rw [if_neg hall] at hturn
      rw [takeWhile_append_of_not_all hall]
      exact ⟨_, .done stable_walkTurn (.reads fun _ => hturn)⟩

end FatVol

/-! ## Names -/

/-- What is left of the eleven bytes of a name up to the first blank of each field. -/
def cutName (raw : List UInt8) : List UInt8 :=
  padField 8 ((raw.take 8).takeWhile (· ≠ 32)) ++ padField 3 ((raw.drop 8).takeWhile (· ≠ 32))

theorem nameFrom83_eq {raw : List UInt8} (h : raw.length = 11) :
    nameFrom83 raw = (raw.take 8).takeWhile (· ≠ 32) ++
      if (raw.drop 8).takeWhile (· ≠ 32) = [] then []
      else 46 :: (raw.drop 8).takeWhile (· ≠ 32) := by
  obtain ⟨c, cs, hdrop⟩ : ∃ c cs, raw.drop 8 = c :: cs :=
    List.exists_cons_of_length_pos (by rw [List.length_drop, h]; decide)
  have hget : raw.getD 8 0 = c := by
    have hget? : (raw.drop 8)[0]? = raw[8]? := List.getElem?_drop
    rw [List.getD_eq_getElem?_getD, ← hget?, hdrop]
    rfl
  rw [nameFrom83, hget, hdrop]
  by_cases hc : c = 32
  · rw [if_neg (not_not.mpr hc), List.takeWhile_cons_of_neg (by simpa using hc), if_pos rfl]
  · rw [if_pos hc, List.takeWhile_cons_of_pos (by simpa using hc),
      if_neg (List.cons_ne_nil _ _)]

/-- The characters of a name that is listed are those of the entry, and the dot. -/
theorem mem_nameFrom83 {raw : List UInt8} {c : UInt8} (h : raw.length = 11)
    (hc : c ∈ nameFrom83 raw) : c ∈ raw ∨ c = 46 := by
  rw [nameFrom83_eq h] at hc
  rcases List.mem_append.mp hc with hc | hc
  · exact Or.inl (List.mem_of_mem_take ((List.takeWhile_prefix _).mem hc))
  · split at hc
    · exact absurd hc List.not_mem_nil
    · rcases List.mem_cons.mp hc with rfl | hc
      · exact Or.inr rfl
      · exact Or.inl (List.mem_of_mem_drop ((List.takeWhile_prefix _).mem hc))

theorem length_cutFields_le {raw : List UInt8} (h : raw.length = 11) :
    ((raw.take 8).takeWhile (· ≠ 32)).length ≤ 8 ∧
      ((raw.drop 8).takeWhile (· ≠ 32)).length ≤ 3 := by
  have hle8 := (List.takeWhile_prefix (p := fun c => decide (c ≠ 32)) : _ <+: raw.take 8).length_le
  have hle3 := (List.takeWhile_prefix (p := fun c => decide (c ≠ 32)) : _ <+: raw.drop 8).length_le
  rw [List.length_take, h] at hle8
  rw [List.length_drop, h] at hle3
  exact ⟨hle8, hle3⟩

theorem length_nameFrom83_le {raw : List UInt8} (h : raw.length = 11) :
    (nameFrom83 raw).length ≤ 12 := by
  obtain ⟨hle8, hle3⟩ := length_cutFields_le h
  rw [nameFrom83_eq h, List.length_append]
  split
  · rw [List.length_nil]
    omega
  · rw [List.length_cons]
    omega

namespace ValidName

variable {raw : List UInt8} (h : ValidName raw)
include h

/-- There is nothing to convert in a name that is listed. -/
theorem map_upperByte_nameFrom83 : (nameFrom83 raw).map upperByte = nameFrom83 raw := by
  refine (List.map_congr_left fun c hc => ?_).trans (List.map_id _)
  rcases mem_nameFrom83 h.length hc with hc | rfl
  · exact if_neg (h.chars c hc).2.2.2
  · rfl

/-- A name that is listed is looked up as what is left of the name of its entry. -/
theorem nameTo83_nameFrom83 : nameTo83 (nameFrom83 raw) = some (cutName raw) := by
  have hbase : 46 ∉ (raw.take 8).takeWhile (· ≠ 32) := fun hmem =>
    h.no_dot (List.mem_of_mem_take ((List.takeWhile_prefix _).mem hmem))
  obtain ⟨htake, hdrop⟩ := takeWhile_dotted ((raw.drop 8).takeWhile (· ≠ 32)) hbase
  obtain ⟨hle8, hle3⟩ := length_cutFields_le h.length
  rw [nameTo83_upper, h.map_upperByte_nameFrom83, nameFrom83_eq h.length]
  dsimp only
  rw [htake, hdrop, if_neg (by omega)]
  rfl

/-- A name that is listed has no slash, and is not empty. -/
theorem nameFrom83_component : 47 ∉ nameFrom83 raw ∧ nameFrom83 raw ≠ [] := by
  constructor
  · intro hmem
    rcases mem_nameFrom83 h.length hmem with hmem | heq
    · exact (h.chars 47 hmem).2.2.1 rfl
    · exact absurd heq (by decide)
  · obtain ⟨c, cs, hraw⟩ : ∃ c cs, raw = c :: cs :=
      List.exists_cons_of_length_pos (by rw [h.length]; decide)
    have hfirst := h.first
    subst hraw
    rw [nameFrom83, List.take_succ_cons, List.takeWhile_cons_of_pos (by simpa using hfirst)]
    exact List.cons_ne_nil _ _

end ValidName

/-- The driver never looks for a name that begins with a dot. -/
theorem nameTo83_first {comp raw : List UInt8} (h : nameTo83 comp = some raw) :
    raw.getD 0 0 ≠ 46 := by
  rw [nameTo83_upper] at h
  dsimp only at h
  split at h
  · cases h
  · obtain rfl := Option.some.inj h
    cases hbase : (comp.map upperByte).takeWhile (· ≠ 46) with
    | nil =>
      have hblank : (32 : UInt8) ≠ 46 := by decide
      exact hblank
    | cons c cs =>
      have hc : c ∈ (comp.map upperByte).takeWhile (· ≠ 46) := hbase ▸ List.mem_cons_self
      have hdot : c ≠ 46 := by simpa using List.mem_takeWhile_imp hc
      exact hdot

theorem pathComponents_join {name : List UInt8} (h : 47 ∉ name) (hne : name ≠ [])
    (path : List UInt8) : pathComponents (path ++ 47 :: name) = pathComponents path ++ [name] := by
  have hname : ∀ c ∈ name, (c == 47) = false := fun c hc => beq_false_of_ne fun heq => h (heq ▸ hc)
  rw [pathComponents, List.splitOnP_append_cons _ _ rfl, List.splitOnP_eq_singleton hname,
    List.filter_append, pathComponents, List.filter_cons_of_pos (by simpa using hne),
    List.filter_nil]

namespace FatVol

variable {v : FatVol} {disk : UInt32 → Sector} {baseLba : UInt32} {L : FatLayout}

theorem leads_append {comps comps' : List (List UInt8)} {node node' : FatNode} :
    v.Leads disk (comps ++ comps') node node' ↔
      ∃ mid, v.Leads disk comps node mid ∧ v.Leads disk comps' mid node' := by
  induction comps generalizing node with
  | nil => exact ⟨fun h => ⟨node, rfl, h⟩, fun ⟨mid, hmid, h⟩ => by obtain rfl := hmid; exact h⟩
  | cons comp comps ih =>
    constructor
    · rintro ⟨hlen, hdir, t83, d, hname, hlookup, hrest⟩
      obtain ⟨mid, hmid, hlast⟩ := ih.mp hrest
      exact ⟨mid, ⟨hlen, hdir, t83, d, hname, hlookup, hmid⟩, hlast⟩
    · rintro ⟨mid, ⟨hlen, hdir, t83, d, hname, hlookup, hmid⟩, hlast⟩
      exact ⟨hlen, hdir, t83, d, hname, hlookup, ih.mpr ⟨mid, hmid, hlast⟩⟩

theorem Leads.unique {comps : List (List UInt8)} {node a b : FatNode}
    (h : v.Leads disk comps node a) (h' : v.Leads disk comps node b) : a = b := by
  induction comps generalizing node with
  | nil =>
    obtain rfl : a = node := h
    exact Eq.symm h'
  | cons comp comps ih =>
    obtain ⟨-, -, t83, d, hname, hlookup, hrest⟩ := h
    obtain ⟨-, -, t83', d', hname', hlookup', hrest'⟩ := h'
    obtain rfl := Option.some.inj (hname.symm.trans hname')
    obtain rfl := hlookup.unique hlookup'
    exact ih hrest hrest'

/-- What the driver finds on its way are directories of the volume. -/
theorem Has.dirs_of_leads (h : v.Has disk baseLba L) {dirs : UInt32 → Prop}
    (hdirs : L.GoodDirs (volumeByte disk baseLba) dirs) {comps : List (List UInt8)}
    {node node' : FatNode} (hnode : node.isDir = true → dirs node.cluster)
    (hleads : v.Leads disk comps node node') (hdir : node'.isDir = true) : dirs node'.cluster := by
  induction comps generalizing node with
  | nil =>
    obtain rfl : node' = node := hleads
    exact hnode hdir
  | cons comp comps ih =>
    obtain ⟨-, hdir', t83, d, hname, hlookup, hrest⟩ := hleads
    obtain ⟨-, cs, hchain, hgood⟩ := hdirs node.cluster (hnode hdir')
    obtain ⟨hd, rfl⟩ := (h.lookup_live hchain hgood.names).mp hlookup
    have hne : d.name ≠ dotdotName := fun heq => nameTo83_first hname (by rw [heq]; rfl)
    have hstart : L.dirStart d = d.cluster := if_neg fun hc => hne hc.1
    refine ih (fun hd' => ?_) hrest
    have hmem := hgood.dir d hd hd'
    rw [hstart] at hmem
    exact hmem

/-- `fat32_stat` succeeds, with this size and kind. -/
def Stats (v : FatVol) (disk : UInt32 → Sector) (path : List UInt8) (size : UInt32)
    (isDir : Bool) : Prop :=
  ∃ log io, Ends (fun n => v.fat32Stat n (FatIo.quiet disk) path) log (some (size, isDir), io)

theorem stats_iff {path : List UInt8} {size : UInt32} {isDir : Bool} :
    v.Stats disk path size isDir ↔
      ∃ node, v.LeadsTo disk path node ∧ node.size = size ∧ node.isDir = isDir := by
  constructor
  · rintro ⟨log, io, n, hn⟩
    obtain ⟨l, ⟨res, io'⟩, l', hres, hrest, -⟩ := bind_eq_reads.mp hn
    cases res with
    | none => cases Option.some.inj (congrArg Prod.snd hrest)
    | some node =>
      cases Option.some.inj (congrArg Prod.snd hrest)
      exact ⟨node, (leadsTo_of_resolve ⟨n, hres⟩).1, rfl, rfl⟩
  · rintro ⟨node, hleads, rfl, rfl⟩
    obtain ⟨l, hres⟩ := resolve_leads.mpr hleads
    exact ⟨_, _, hres.bind_reads rfl⟩

/-- Among the entries of the directory is one that can be opened in place of `d` : `d` is neither
`.` nor `..`, and there is one whose name is what is left of that of `d`, with the size and kind of
`d`. -/
def Openable (L : FatLayout) (b : ℕ → UInt8) (cs : List UInt32) (d : Dirent) : Prop :=
  d.name ≠ dotName ∧ d.name ≠ dotdotName ∧
    ∃ d' ∈ L.live b cs, d'.name = cutName d.name ∧ d'.size = d.size ∧ d'.isDir = d.isDir

/-- The names of the entries of a directory, and what its path leads to with one behind it. -/
theorem Has.leads_listed (h : v.Has disk baseLba L) {dirs : UInt32 → Prop} {cs : List UInt32}
    {node node' : FatNode} (hdir : node.isDir = true)
    (hchain : L.Chain (volumeByte disk baseLba) node.cluster cs)
    (hgood : L.GoodDir (volumeByte disk baseLba) dirs cs) {d : Dirent}
    (hd : d ∈ L.live (volumeByte disk baseLba) cs) :
    v.Leads disk [nameFrom83 d.name] node node' ↔ d.name ≠ dotName ∧ d.name ≠ dotdotName ∧
      ∃ d' ∈ L.live (volumeByte disk baseLba) cs, d'.name = cutName d.name ∧ node' = d'.node := by
  have hdots : ∀ {raw : List UInt8}, isDotComponent (nameFrom83 raw) → d.name = raw →
      ¬ v.Leads disk [nameFrom83 d.name] node node' := by
    rintro raw hdot rfl ⟨-, -, t83, d', hname, hlookup, -⟩
    exact h.not_lookup_dots hchain hgood hdot hname hlookup
  by_cases hdot : d.name = dotName
  · exact iff_of_false (hdots (by decide) hdot) fun hc => hc.1 hdot
  by_cases hdotdot : d.name = dotdotName
  · exact iff_of_false (hdots (by decide) hdotdot) fun hc => hc.2.1 hdotdot
  have hvalid : ValidName d.name := by
    rcases hgood.valid d hd with hvalid | ⟨-, hname | hname⟩
    · exact hvalid
    · exact absurd hname hdot
    · exact absurd hname hdotdot
  rw [and_iff_right hdot, and_iff_right hdotdot]
  constructor
  · rintro ⟨-, -, t83, d', hname, hlookup, hnode⟩
    obtain rfl := Option.some.inj (hvalid.nameTo83_nameFrom83.symm.trans hname)
    obtain ⟨hd', hname'⟩ := (h.lookup_live hchain hgood.names).mp hlookup
    exact ⟨d', hd', hname', hnode⟩
  · rintro ⟨d', hd', hname', rfl⟩
    exact ⟨length_nameFrom83_le hvalid.length, hdir, _, d', hvalid.nameTo83_nameFrom83,
      (h.lookup_live hchain hgood.names).mpr ⟨hd', hname'⟩, rfl⟩

/-- A listed entry can be looked up under its listed name exactly if it is openable. -/
theorem Has.stats_listed (h : v.Has disk baseLba L) {dirs : UInt32 → Prop} {cs : List UInt32}
    {path : List UInt8} {node : FatNode} (hleads : v.LeadsTo disk path node)
    (hdir : node.isDir = true) (hchain : L.Chain (volumeByte disk baseLba) node.cluster cs)
    (hgood : L.GoodDir (volumeByte disk baseLba) dirs cs) {d : Dirent}
    (hd : d ∈ L.live (volumeByte disk baseLba) cs) :
    v.Stats disk (path ++ 47 :: nameFrom83 d.name) d.size d.isDir ↔
      Openable L (volumeByte disk baseLba) cs d := by
  have hcomp : 47 ∉ nameFrom83 d.name ∧ nameFrom83 d.name ≠ [] := by
    rcases hgood.valid d hd with hvalid | ⟨-, hname | hname⟩
    · exact hvalid.nameFrom83_component
    · rw [hname]
      decide
    · rw [hname]
      decide
  obtain ⟨comps, habs, hpath⟩ := hleads
  have hjoin : v.absolute (path ++ 47 :: nameFrom83 d.name) =
      some (comps ++ [nameFrom83 d.name]) := by
    cases path with
    | nil =>
      rw [absolute, if_pos (by simp)] at habs
      cases habs
    | cons c rest =>
      rw [absolute] at habs ⊢
      split at habs
      · cases habs
      · next hok =>
        rw [List.cons_append]
        refine (if_neg hok).trans (congrArg some ?_)
        rw [← Option.some.inj habs, List.drop_one, List.drop_one, List.tail_cons, List.tail_cons,
          pathComponents_join hcomp.1 hcomp.2]
  have hall : v.LeadsTo disk (path ++ 47 :: nameFrom83 d.name) = fun node' =>
      d.name ≠ dotName ∧ d.name ≠ dotdotName ∧
        ∃ d' ∈ L.live (volumeByte disk baseLba) cs, d'.name = cutName d.name ∧ node' = d'.node := by
    funext node'
    rw [← h.leads_listed hdir hchain hgood hd]
    refine propext ⟨?_, fun hlast => ⟨_, hjoin, leads_append.mpr ⟨node, hpath, hlast⟩⟩⟩
    rintro ⟨comps', hcomps', hleads'⟩
    obtain rfl := Option.some.inj (hjoin.symm.trans hcomps')
    obtain ⟨mid, hmid, hlast⟩ := leads_append.mp hleads'
    obtain rfl := hmid.unique hpath
    exact hlast
  rw [stats_iff, Openable, hall]
  constructor
  · rintro ⟨_, ⟨hdot, hdotdot, d', hd', hname, rfl⟩, hsize, hkind⟩
    exact ⟨hdot, hdotdot, d', hd', hname, hsize, hkind⟩
  · rintro ⟨hdot, hdotdot, d', hd', hname, hsize, hkind⟩
    exact ⟨_, ⟨hdot, hdotdot, d', hd', hname, rfl⟩, hsize, hkind⟩

theorem stable_fat32List (io : FatIo) (path : List UInt8) :
    Stable fun n => v.fat32List n io path := by
  simp only [fat32List_eq]
  exact stable_atNode fun _ _ => (stable_walk _).bind fun _ => stable_const _

/-- What `fat32_list` reports of a directory : the entries in use. -/
theorem Has.list_ends (h : v.Has disk baseLba L) {dirs : UInt32 → Prop}
    (hdirs : L.GoodDirs (volumeByte disk baseLba) dirs) {path : List UInt8} {node : FatNode}
    (hleads : v.LeadsTo disk path node) (hdir : node.isDir = true) (hnode : dirs node.cluster)
    {cs : List UInt32} (hchain : L.Chain (volumeByte disk baseLba) node.cluster cs) :
    ∃ log rc, Ends (fun n => v.fat32List n (FatIo.quiet disk) path) log
      ((rc, (L.live (volumeByte disk baseLba) cs).map Dirent.report), FatIo.quiet disk) := by
  have hstart : v.listStart node = node.cluster := by
    have hle := (isCluster_iff.mp (hdirs node.cluster hnode).1).1
    refine if_neg fun hlt => ?_
    have hlt' : node.cluster.toNat < 2 := UInt32.lt_iff_toNat_lt.mp hlt
    omega
  obtain ⟨l, hres⟩ := resolve_leads.mpr hleads
  obtain ⟨log, hwalk⟩ := h.listLoop_chain hchain []
  rw [List.nil_append, ← hstart] at hwalk
  simp only [fat32List_eq]
  exact ⟨_, _, ends_atNode (fun _ _ => (stable_walk _).bind fun _ => stable_const _) hres hdir
    (hwalk.bind_reads rfl)⟩

/-- On a well-formed volume all entries that a listing reports can be looked up under the names
reported, with the sizes and kinds reported, exactly if all entries of the directory are openable.
-/
theorem list_stat_iff {v₀ v : FatVol} {disk : UInt32 → Sector} {baseLba : UInt32}
    (h : v₀.Mounts (FatIo.quiet disk) baseLba v)
    (hwf : (FatLayout.ofBoot (volumeByte disk baseLba)).WellFormed (volumeByte disk baseLba))
    {path : List UInt8} {log : List UInt32} {rc : Int} {out : List Fat32Entry} {io : FatIo}
    (hlist : Ends (fun n => v.fat32List n (FatIo.quiet disk) path) log ((rc, out), io)) :
    (∀ e ∈ out, v.Stats disk (path ++ 47 :: e.name) e.size e.isDir) ↔
      ∀ node cs, v.LeadsTo disk path node → node.isDir = true →
        (FatLayout.ofBoot (volumeByte disk baseLba)).Chain (volumeByte disk baseLba)
          node.cluster cs →
        ∀ d ∈ (FatLayout.ofBoot (volumeByte disk baseLba)).live (volumeByte disk baseLba) cs,
          Openable (.ofBoot (volumeByte disk baseLba)) (volumeByte disk baseLba) cs d := by
  have hhas := h.has
  obtain ⟨dirs, hroot, hdirs⟩ := hwf
  by_cases hdir : ∃ node, v.LeadsTo disk path node ∧ node.isDir = true
  · obtain ⟨node, hleads, hdir⟩ := hdir
    have hnode : dirs node.cluster := by
      obtain ⟨comps, -, hpath⟩ := hleads
      refine hhas.dirs_of_leads hdirs (fun _ => ?_) hpath hdir
      change dirs v.rootCluster
      rw [hhas.root]
      exact hroot
    obtain ⟨-, cs, hchain, hgood⟩ := hdirs node.cluster hnode
    obtain ⟨log', rc', hends⟩ := hhas.list_ends hdirs hleads hdir hnode hchain
    obtain ⟨-, heq⟩ := Ends.unique (stable_fat32List _ _) hlist hends
    obtain rfl := congrArg (fun r => r.1.2) heq
    constructor
    · intro hall node' cs' hleads' _ hchain' d hd
      obtain rfl : node = node' := by
        obtain ⟨comps, hcomps, hpath⟩ := hleads
        obtain ⟨comps', hcomps', hpath'⟩ := hleads'
        obtain rfl := Option.some.inj (hcomps.symm.trans hcomps')
        exact hpath.unique hpath'
      obtain rfl := hchain.unique hchain'
      exact (hhas.stats_listed hleads hdir hchain hgood hd).mp
        (hall d.report (List.mem_map_of_mem hd))
    · intro hall e he
      obtain ⟨d, hd, rfl⟩ := List.mem_map.mp he
      exact (hhas.stats_listed hleads hdir hchain hgood hd).mpr
        (hall node cs hleads hdir hchain d hd)
  · refine iff_of_true (fun e he => ?_)
      fun node cs hleads hdir' => absurd ⟨node, hleads, hdir'⟩ hdir
    simp only [fat32List_eq] at hlist
    rcases ends_atNode_cases hlist with hrefused | ⟨l, node, io', l', hres, hok, -, -⟩
    · have hout : out = [] := congrArg Prod.snd hrefused
      rw [hout] at he
      exact absurd he List.not_mem_nil
    · exact absurd ⟨node, (leadsTo_of_resolve hres).1, hok⟩ hdir

theorem leadsTo_root : smallVol.LeadsTo dirDisk [47] ⟨2, 0, true⟩ :=
  ⟨[], rfl, rfl⟩

theorem openable_root : ∀ d ∈ dirLayout.live (volumeByte dirDisk 8192) [2],
    Openable dirLayout (volumeByte dirDisk 8192) [2] d := by
  intro d hd
  have hcut : d.name ≠ dotName ∧ d.name ≠ dotdotName ∧ cutName d.name = d.name := by
    rw [live_root] at hd
    rcases List.mem_pair.mp hd with rfl | rfl
    · decide
    · decide
  exact ⟨hcut.1, hcut.2.1, d, hd, hcut.2.2.symm, rfl, rfl⟩

theorem list_stat_root : ∃ log rc out io,
    Ends (fun n => smallVol.fat32List n (FatIo.quiet dirDisk) [47]) log ((rc, out), io) ∧
      ∀ e ∈ out, smallVol.Stats dirDisk ([47] ++ 47 :: e.name) e.size e.isDir := by
  obtain ⟨log, rc, hends⟩ :=
    has_dirDisk.list_ends goodDirs_dirDisk leadsTo_root rfl (Or.inl rfl) chain_root
  refine ⟨log, rc, _, _, hends, (list_stat_iff mounts_dirDisk wellFormed_dirDisk hends).mpr ?_⟩
  rintro node cs ⟨comps, hcomps, hleads⟩ - hchain
  have habs : smallVol.absolute [47] = some [] := rfl
  obtain rfl := Option.some.inj (habs.symm.trans hcomps)
  obtain rfl : node = smallVol.root := hleads
  obtain rfl := hchain.unique chain_root
  exact openable_root

/-- The directory `D` is listed with an entry `.`, which `fat32_stat` does not find. -/
theorem not_list_stat : ¬ ∀ (v₀ v : FatVol) (disk : UInt32 → Sector) (baseLba : UInt32),
    v₀.Mounts (FatIo.quiet disk) baseLba v →
      (FatLayout.ofBoot (volumeByte disk baseLba)).WellFormed (volumeByte disk baseLba) →
      ∀ (path : List UInt8) (log : List UInt32) (rc : Int) (out : List Fat32Entry) (io : FatIo),
        Ends (fun n => v.fat32List n (FatIo.quiet disk) path) log ((rc, out), io) →
        ∀ e ∈ out, v.Stats disk (path ++ 47 :: e.name) e.size e.isDir := by
  intro h
  have hlookup : smallVol.Lookup dirDisk 2 entryD.name entryD := by
    have hroot := goodDir_root
    rw [has_dirDisk.lookup_live chain_root hroot.names, live_root]
    exact ⟨List.mem_pair.mpr (Or.inr rfl), rfl⟩
  have hleads : smallVol.LeadsTo dirDisk [47, 68] ⟨5, 0, true⟩ :=
    ⟨[[68]], rfl, by decide, rfl, _, _, by decide, hlookup, rfl⟩
  obtain ⟨log, rc, hends⟩ :=
    has_dirDisk.list_ends goodDirs_dirDisk hleads rfl (Or.inr rfl) chain_sub
  have hdot : ⟨dotName, 0x10, 5, 0⟩ ∈ dirLayout.live (volumeByte dirDisk 8192) [5] := by
    rw [live_sub]
    exact List.mem_cons_self
  have hstats := h _ _ _ _ mounts_dirDisk wellFormed_dirDisk _ _ _ _ _ hends _
    (List.mem_map_of_mem hdot)
  exact ((has_dirDisk.stats_listed hleads rfl chain_sub goodDir_sub hdot).mp hstats).1 rfl

end FatVol

end VernisOS
