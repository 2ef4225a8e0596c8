import VernisOS.Fat32Paths

/-!
# Cyclic directories

Of the three loops over clusters only that of `fat32_read` has a measure, the bytes still wanted.
The loops over directories follow the FAT wherever it leads. On a volume whose reads always succeed
the three operations end exactly if no directory on the way comes to a cluster twice before its end,
or before the entry that is looked for (`fat32_ends_iff`).
-/

open Loop

namespace VernisOS

namespace FatVol

variable {v : FatVol} {disk : UInt32 → Sector}

/-! ## Paths -/

/-- The searches for the components come to no cluster twice. -/
def SearchesEnd (v : FatVol) (disk : UInt32 → Sector) :
    List (List UInt8) → FatNode → Prop :=
  v.OnPath disk fun t83 cl => ¬ Repeats (v.dirStep disk (Dirent.isHit t83)) cl

theorem resolveFrom_ends_iff (comps : List (List UInt8)) (node : FatNode) :
    (∃ log r, Ends (fun n => v.resolveFrom n comps node (FatIo.quiet disk)) log r) ↔
      v.SearchesEnd disk comps node := by
  induction comps generalizing node with
  | nil => exact iff_of_true ⟨[], _, .reads fun _ => rfl⟩ trivial
  | cons comp comps ih =>
    by_cases hsearch : comp.length ≤ 12 ∧ node.isDir = true ∧ ∃ t83, nameTo83 comp = some t83
    · obtain ⟨hlen, hdir, t83, hname⟩ := hsearch
      constructor
      · rintro ⟨log, r, hends⟩ _ _ t83' hname'
        obtain rfl := Option.some.inj (hname.symm.trans hname')
        rcases (ends_resolveFrom_iff hlen hdir hname).mp hends with
          ⟨hfind, -⟩ | ⟨l, d, l', hfind, hrest, -⟩
        · refine ⟨((dirLoop_find t83).ends_iff v disk node.cluster ()).mp ⟨log, _, hfind⟩, ?_⟩
          intro d hd
          obtain ⟨log', io', hfind'⟩ := dirFind_lookup.mpr hd
          cases (Ends.unique (stable_dirFind _ _ _) hfind hfind').2
        · refine ⟨((dirLoop_find t83).ends_iff v disk node.cluster ()).mp ⟨l, _, hfind⟩, ?_⟩
          intro d' hd'
          obtain rfl := Lookup.unique (dirFind_lookup.mp ⟨l, _, hfind⟩) hd'
          exact (ih d.node).mp ⟨l', r, hrest⟩
      · intro hon
        obtain ⟨hno, hlookup⟩ := hon hlen hdir t83 hname
        obtain ⟨l, ⟨res, io⟩, hfind⟩ :=
          ((dirLoop_find t83).ends_iff v disk node.cluster ()).mpr hno
        obtain rfl : io = FatIo.quiet disk := walk_quiet hfind
        cases res with
        | none => exact ⟨l, _, (ends_resolveFrom_iff hlen hdir hname).mpr (Or.inl ⟨hfind, rfl⟩)⟩
        | some d =>
          obtain ⟨l', r, hrest⟩ := (ih d.node).mpr (hlookup d (dirFind_lookup.mp ⟨l, _, hfind⟩))
          exact ⟨l ++ l', r, (ends_resolveFrom_iff hlen hdir hname).mpr
            (Or.inr ⟨l, d, l', hfind, hrest, rfl⟩)⟩
    · simp only [resolveFrom_refused hsearch]
      refine iff_of_true ⟨[], _, .reads fun _ => rfl⟩ fun hlen hdir t83 hname => ?_
      exact absurd ⟨hlen, hdir, t83, hname⟩ hsearch

/-- The searches for the components of a path come to no cluster twice. -/
def PathEnds (v : FatVol) (disk : UInt32 → Sector) (path : List UInt8) : Prop :=
  ∀ comps, v.absolute path = some comps → v.SearchesEnd disk comps v.root

theorem resolve_ends_iff (path : List UInt8) :
    (∃ log r, Ends (fun n => v.resolve n (FatIo.quiet disk) path) log r) ↔
      v.PathEnds disk path := by
  simp only [resolve_eq, PathEnds]
  cases v.absolute path with
  | none => exact iff_of_true ⟨[], _, .reads fun _ => rfl⟩ fun comps h => by cases h
  | some comps =>
    refine (resolveFrom_ends_iff comps v.root).trans ⟨?_, fun h => h comps rfl⟩
    rintro h _ ⟨⟩
    exact h

/-! ## The loop of `fat32_read` -/

/-- The read of a file ends whatever the FAT says : every cluster gives it bytes. -/
theorem readLoop_ends (hspc : 0 < v.sectorsPerCluster.toNat) (want cl : UInt32) :
    ∃ log r, Ends (fun n => v.walk (readLoop want) n (cl, [], FatIo.quiet disk)) log r := by
  suffices hok : ∀ w : UInt32 × List UInt8 × FatIo,
      w.2.2 = FatIo.quiet disk ∧ w.2.1.length ≤ want.toNat →
        TurnOk (fun _ => v.walkTurn (readLoop want))
          (fun w => w.2.2 = FatIo.quiet disk ∧ w.2.1.length ≤ want.toNat) (fun _ => True)
          (fun _ => True) (fun w => want.toNat - w.2.1.length) w by
    obtain ⟨log, r, hends, -, -⟩ := ends_of_measure stable_walkTurn _ hok
      (cl, [], FatIo.quiet disk) ⟨rfl, Nat.zero_le _⟩
    exact ⟨log, r, hends⟩
  rintro ⟨cl, buf, io⟩ hw
  obtain ⟨rfl, hbuf⟩ : io = FatIo.quiet disk ∧ buf.length ≤ want.toNat := hw
  have hturn := v.walkTurn_quiet disk (readLoop want) cl buf
  by_cases hgo : (readLoop want).more buf = true ∧ isCluster cl = true
  · have hlt := readLoop_more.mp hgo.1
    rw [if_pos hgo, scanCluster_readLoop disk cl hbuf] at hturn
    refine ⟨_, _, .reads fun _ => hturn, fun _ _ => trivial, ?_, fun _ _ => trivial⟩
    rintro _ ⟨⟩
    have hlen := length_append_take buf (sectorsBytes (v.clusterSectors disk cl)) hbuf
    rw [length_clusterBytes] at hlen
    refine ⟨⟨rfl, ?_⟩, ?_⟩
    · dsimp only
      rw [hlen]
      exact Nat.min_le_left _ _
    · dsimp only
      rw [hlen]
      omega
  · rw [if_neg hgo] at hturn
    exact ⟨_, _, .reads fun _ => hturn, (fun _ h => absurd h List.not_mem_nil),
      (fun _ h => by cases h), fun _ _ => trivial⟩

/-! ## The three operations -/

/-- An operation ends if the resolution of the path does, and what it does then. -/
theorem ends_atNode_iff {α : Type} {path : List UInt8} {ok : FatNode → Bool} {refused : α}
    {op : ℕ → FatNode → FatIo → Logged UInt32 (α × FatIo)}
    (hop : ∀ node io, Stable fun n => op n node io) :
    (∃ log r, Ends (fun n => v.atNode n (FatIo.quiet disk) path ok refused (op n)) log r) ↔
      v.PathEnds disk path ∧ ∀ node, v.LeadsTo disk path node → ok node = true →
        ∃ log r, Ends (fun n => op n node (FatIo.quiet disk)) log r := by
  have hstable : ∀ r : Option FatNode × FatIo, Stable fun n =>
      (r.1.filter ok).elim (reads [] (refused, r.2)) (op n · r.2) := by
    intro r
    cases r.1.filter ok with
    | none => exact stable_const _
    | some node => exact hop node r.2
  simp only [atNode, Ends.bind_iff (stable_resolve _ _) hstable]
  rw [← resolve_ends_iff]
  constructor
  · rintro ⟨log, r, l, res, l', hres, hrest, -⟩
    refine ⟨⟨l, res, hres⟩, fun node hnode hok => ?_⟩
    obtain ⟨l'', hres'⟩ := resolve_leads.mpr hnode
    obtain ⟨-, rfl⟩ := Ends.unique (stable_resolve _ _) hres hres'
    rw [Option.filter_some_pos hok] at hrest
    exact ⟨l', r, hrest⟩
  · rintro ⟨⟨l, ⟨res, io⟩, hres⟩, hnode⟩
    obtain rfl : io = FatIo.quiet disk := resolve_quiet hres
    cases hfilter : res.filter ok with
    | none =>
      exact ⟨l ++ [], (refused, FatIo.quiet disk), l, _, [], hres,
        .reads fun _ => by dsimp only; rw [hfilter]; rfl, rfl⟩
    | some node =>
      obtain ⟨rfl, hok⟩ := Option.filter_eq_some_iff.mp hfilter
      obtain ⟨l', r, hrest⟩ := hnode node (resolve_leads.mp ⟨l, hres⟩) hok
      exact ⟨l ++ l', r, l, _, l', hres, by dsimp only; rw [hfilter]; exact hrest, rfl⟩

/-- No search for a component of the path comes to a cluster twice, nor does the listing of the
directory to which the path leads. -/
def Acyclic (v : FatVol) (disk : UInt32 → Sector) (path : List UInt8) : Prop :=
  v.PathEnds disk path ∧ ∀ node, v.LeadsTo disk path node → node.isDir = true →
    ¬ Repeats (v.dirStep disk fun _ => false) (v.listStart node)

theorem fat32Stat_ends_iff (path : List UInt8) :
    (∃ log r, Ends (fun n => v.fat32Stat n (FatIo.quiet disk) path) log r) ↔
      v.PathEnds disk path := by
  simp only [fat32Stat_eq]
  refine Iff.trans (ends_atNode_iff ?_) (and_iff_left ?_)
  · exact fun _ _ => stable_const _
  · exact fun node _ _ => ⟨[], _, .reads fun _ => rfl⟩

theorem fat32List_ends_iff (path : List UInt8) :
    (∃ log r, Ends (fun n => v.fat32List n (FatIo.quiet disk) path) log r) ↔
      v.Acyclic disk path := by
  simp only [fat32List_eq]
  refine Iff.trans (ends_atNode_iff ?_) ?_
  · exact fun _ _ => (stable_walk _).bind fun _ => stable_const _
  refine and_congr_right fun _ => forall_congr' fun node => forall_congr' fun _ =>
    forall_congr' fun _ => ?_
  rw [← dirLoop_list.ends_iff v disk (v.listStart node) []]
  constructor
  · rintro ⟨log, r, n, hn⟩
    obtain ⟨l, q, -, hq, -⟩ := bind_eq_reads.mp hn
    exact ⟨l, q, n, hq⟩
  · rintro ⟨l, q, hq⟩
    exact ⟨_, _, Ends.bind_reads hq rfl⟩

theorem fat32Read_ends_iff (hspc : 0 < v.sectorsPerCluster.toNat) (path : List UInt8)
    (maxLen : UInt32) :
    (∃ log r, Ends (fun n => v.fat32Read n (FatIo.quiet disk) path maxLen) log r) ↔
      v.PathEnds disk path := by
  simp only [fat32Read_eq]
  refine Iff.trans (ends_atNode_iff ?_) (and_iff_left ?_)
  · exact fun _ _ => stable_walk _
  · exact fun node _ _ => readLoop_ends hspc (wanted node maxLen) node.cluster

/-- On a volume that is accepted the three operations end exactly if neither a search nor the
listing comes to a cluster twice. -/
theorem fat32_ends_iff {v₀ v : FatVol} {disk : UInt32 → Sector} {baseLba : UInt32}
    (h : v₀.Mounts (FatIo.quiet disk) baseLba v) (path : List UInt8) (maxLen : UInt32) :
    ((∃ log r, Ends (fun n => v.fat32Stat n (FatIo.quiet disk) path) log r) ∧
      (∃ log r, Ends (fun n => v.fat32List n (FatIo.quiet disk) path) log r) ∧
      ∃ log r, Ends (fun n => v.fat32Read n (FatIo.quiet disk) path maxLen) log r) ↔
      v.Acyclic disk path := by
  obtain ⟨-, -, hspc, -⟩ := h.geometry
  rw [fat32Stat_ends_iff, fat32List_ends_iff, fat32Read_ends_iff hspc, Acyclic]
  exact ⟨fun ⟨_, hlist, _⟩ => hlist, fun hlist => ⟨hlist.1, hlist, hlist.1⟩⟩

/-- The listing of a directory of one cluster ends. -/
theorem not_repeats_of_none {f : UInt32 → Option UInt32} {cl : UInt32} (h : f cl = none) :
    ¬ Repeats f cl :=
  halts_iff.mp ⟨1, by rw [orbit, h]; rfl⟩

theorem fat32_ends_root :
    (∃ log r, Ends (fun n => smallVol.fat32Stat n
        (FatIo.quiet (smallDisk smallFat (smallEntry 3))) [47]) log r) ∧
      (∃ log r, Ends (fun n => smallVol.fat32List n
        (FatIo.quiet (smallDisk smallFat (smallEntry 3))) [47]) log r) ∧
      ∃ log r, Ends (fun n => smallVol.fat32Read n
        (FatIo.quiet (smallDisk smallFat (smallEntry 3))) [47] 100) log r := by
  refine (fat32_ends_iff (mounts_smallDisk _ _) [47] 100).mpr ⟨?_, ?_⟩
  · rintro _ ⟨⟩
    trivial
  · rintro node ⟨_, ⟨⟩, rfl⟩ -
    exact not_repeats_of_none rfl

/-- A FAT in which cluster 2 comes after itself. -/
def loopFat : Sector :=
  sectorOf [(8, 2)]

/-- A directory of deleted entries. -/
def deletedDir : Sector :=
  fun _ => 0xE5

/-- The listing of the root directory does not end if its only cluster comes after itself. -/
theorem not_fat32_ends : ¬ ∀ (v₀ v : FatVol) (disk : UInt32 → Sector) (baseLba : UInt32),
    v₀.Mounts (FatIo.quiet disk) baseLba v → ∀ (path : List UInt8) (maxLen : UInt32),
      (∃ log r, Ends (fun n => v.fat32Stat n (FatIo.quiet disk) path) log r) ∧
        (∃ log r, Ends (fun n => v.fat32List n (FatIo.quiet disk) path) log r) ∧
        ∃ log r, Ends (fun n => v.fat32Read n (FatIo.quiet disk) path maxLen) log r := by
  intro h
  have hlist := (h _ _ _ _ (mounts_smallDisk loopFat deletedDir) [47] 0).2.1
  have hacyclic := (fat32List_ends_iff [47]).mp hlist
  refine hacyclic.2 smallVol.root ⟨[], rfl, rfl⟩ rfl ⟨0, 1, 2, Nat.one_pos, rfl, ?_⟩
  have hstep : smallVol.dirStep (smallDisk loopFat deletedDir) (fun _ => false) 2 = some 2 := by
    rfl
  exact congrArg (Option.bind · (orbit _ 0)) hstep

end FatVol

end VernisOS
