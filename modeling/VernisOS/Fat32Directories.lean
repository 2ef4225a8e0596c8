import VernisOS.Fat32Walks

/-!
# Looking up names

`dir_find` and `fat32_list` stop at the first sector with an entry that is the end of the directory
or what is looked for (`DirLoop`). On a disk that can be read they follow the links of `dirStep`, so
they end exactly if these come to no cluster twice (`DirLoop.ends_iff`), and `dir_find` returns the
entry that is to be found along them (`dirFind_lookup`).
-/

open Loop

namespace VernisOS

variable {σ ρ : Type}

/-! ## The entries of a directory -/

namespace Dirent

/-- The entry that `dir_find` looks for. -/
def isHit (target : List UInt8) (d : Dirent) : Bool :=
  !d.skipped && decide (d.name = target)

/-- Neither the end of the directory nor what is looked for. -/
def passes (hit : Dirent → Bool) (d : Dirent) : Bool :=
  !d.isEnd && !hit d

variable {target : List UInt8} {d : Dirent}

theorem find_cons (d : Dirent) (ds : List Dirent) :
    find target (d :: ds) =
      if d.isEnd then .inr none else if d.isHit target then .inr (some d) else find target ds := by
  rw [find]
  by_cases hend : d.isEnd = true
  · rw [if_pos hend, if_pos hend]
  rw [if_neg hend, if_neg hend]
  by_cases hskip : d.skipped = true
  · rw [if_pos hskip, if_neg]
    simp [isHit, hskip]
  rw [if_neg hskip]
  by_cases hname : d.name = target
  · rw [if_pos hname, if_pos]
    simp [isHit, hskip, hname]
  · rw [if_neg hname, if_neg]
    simp [isHit, hname]

theorem find_append (ds es : List Dirent) :
    find target (ds ++ es) = (find target ds).elim (fun _ => find target es) .inr := by
  induction ds with
  | nil => rfl
  | cons d ds ih =>
    rw [List.cons_append, find_cons, find_cons]
    by_cases hend : d.isEnd = true
    · rw [if_pos hend, if_pos hend]
      rfl
    rw [if_neg hend, if_neg hend]
    by_cases hhit : d.isHit target = true
    · rw [if_pos hhit, if_pos hhit]
      rfl
    · rw [if_neg hhit, if_neg hhit, ih]

/-- Nothing stops the search. -/
theorem find_eq_inl {ds : List Dirent} :
    find target ds = .inl () ↔ ds.all (passes (isHit target)) = true := by
  induction ds with
  | nil => exact iff_of_true rfl rfl
  | cons d ds ih =>
    rw [find_cons, List.all_cons, Bool.and_eq_true, ← ih, passes, Bool.and_eq_true,
      Bool.not_eq_true', Bool.not_eq_true']
    by_cases hend : d.isEnd = true
    · simp [hend]
    by_cases hhit : d.isHit target = true
    · simp [hend, hhit]
    · simp [hend, hhit]

/-- What is found is the first hit before the end of the directory. -/
theorem find_eq_inr {ds : List Dirent} {r : Option Dirent} (h : find target ds = .inr r) :
    r = (ds.takeWhile (!·.isEnd)).find? (isHit target) := by
  induction ds with
  | nil => cases h
  | cons d ds ih =>
    rw [find_cons] at h
    by_cases hend : d.isEnd = true
    · rw [if_pos hend] at h
      cases h
      rw [List.takeWhile_cons_of_neg (by simp [hend])]
      rfl
    rw [if_neg hend] at h
    rw [List.takeWhile_cons_of_pos (by simp [hend])]
    by_cases hhit : d.isHit target = true
    · rw [if_pos hhit] at h
      cases h
      rw [List.find?_cons_of_pos hhit]
    · rw [if_neg hhit] at h
      rw [List.find?_cons_of_neg hhit]
      exact ih h

end Dirent

/-! ## Loops over directories -/

/-- A loop that goes on behind a sector exactly if all its entries let it pass. -/
structure DirLoop (lp : ClusterLoop σ ρ) (hit : Dirent → Bool) : Prop where
  more : ∀ st, lp.more st = true
  sector : ∀ st sec, (∃ st', lp.sector st sec = .inl st') ↔
    (Dirent.ofSector sec).all (Dirent.passes hit) = true

theorem dirLoop_find (target : List UInt8) :
    DirLoop (FatVol.findLoop target) (Dirent.isHit target) where
  more _ := rfl
  sector _ sec := by
    rw [← Dirent.find_eq_inl]
    exact ⟨fun ⟨_, h⟩ => h, fun h => ⟨(), h⟩⟩

theorem dirLoop_list : DirLoop FatVol.listLoop fun _ => false where
  more _ := rfl
  sector st sec := by
    change (∃ st', listDirents st (Dirent.ofSector sec) = .inl st') ↔ _
    generalize Dirent.ofSector sec = ds
    induction ds generalizing st with
    | nil => exact iff_of_true ⟨st, rfl⟩ rfl
    | cons d ds ih =>
      rw [listDirents, List.all_cons, Bool.and_eq_true, Dirent.passes, Bool.not_false,
        Bool.and_true, Bool.not_eq_true']
      by_cases hend : d.isEnd = true
      · rw [if_pos hend, hend]
        exact iff_of_false (fun ⟨_, h⟩ => by cases h) fun h => by cases h.1
      rw [if_neg hend]
      by_cases hskip : d.skipped = true
      · rw [if_pos hskip, ih]
        exact (and_iff_right (by simpa using hend)).symm
      · rw [if_neg hskip, ih]
        exact (and_iff_right (by simpa using hend)).symm

namespace DirLoop

variable {lp : ClusterLoop σ ρ} {hit : Dirent → Bool} (h : DirLoop lp hit)
include h

/-- The loop goes on behind sectors whose entries all let it pass. -/
theorem scan_inl (secs : List Sector) (st : σ) : (∃ st', (lp.scan secs st).2 = .inl st') ↔
    (secs.flatMap Dirent.ofSector).all (Dirent.passes hit) = true := by
  induction secs generalizing st with
  | nil => exact iff_of_true ⟨st, rfl⟩ rfl
  | cons sec secs ih =>
    rw [ClusterLoop.scan, if_pos (h.more st), List.flatMap_cons, List.all_append,
      Bool.and_eq_true, ← h.sector st sec]
    cases hsec : lp.sector st sec with
    | inl st' =>
      dsimp only
      rw [ih]
      exact (and_iff_right ⟨st', rfl⟩).symm
    | inr ret =>
      refine iff_of_false ?_ fun hc => by cases hc.1.choose_spec
      rintro ⟨_, hc⟩
      cases hc

/-- It reads a sector if all entries before it let it pass. -/
theorem lt_scan (secs : List Sector) (st : σ) (s : ℕ) : s < (lp.scan secs st).1 ↔
    s < secs.length ∧
      ((secs.take s).flatMap Dirent.ofSector).all (Dirent.passes hit) = true := by
  induction secs generalizing st s with
  | nil => exact iff_of_false (Nat.not_lt_zero s) fun hc => Nat.not_lt_zero s hc.1
  | cons sec secs ih =>
    rw [ClusterLoop.scan, if_pos (h.more st), List.length_cons]
    cases s with
    | zero =>
      refine iff_of_true ?_ ⟨Nat.succ_pos _, rfl⟩
      split
      · exact Nat.succ_pos _
      · exact Nat.one_pos
    | succ s =>
      rw [List.take_succ_cons, List.flatMap_cons, List.all_append, Bool.and_eq_true,
        ← h.sector st sec, Nat.succ_lt_succ_iff]
      cases hsec : lp.sector st sec with
      | inl st' =>
        dsimp only
        rw [Nat.succ_lt_succ_iff, ih]
        exact and_congr_right fun _ => (and_iff_right ⟨st', rfl⟩).symm
      | inr ret =>
        exact iff_of_false (fun hc => Nat.not_lt_zero s (Nat.lt_of_succ_lt_succ hc))
          fun hc => by cases hc.2.1.choose_spec

end DirLoop

namespace FatVol

variable {v : FatVol} {disk : UInt32 → Sector}

/-- The entries of a cluster of a directory. -/
def clusterDirents (v : FatVol) (disk : UInt32 → Sector) (cl : UInt32) : List Dirent :=
  (v.clusterSectors disk cl).flatMap Dirent.ofSector

/-- Where a loop over a directory goes on behind a cluster, if it does. -/
def dirStep (v : FatVol) (disk : UInt32 → Sector) (hit : Dirent → Bool) (cl : UInt32) :
    Option UInt32 :=
  if isCluster cl && (v.clusterDirents disk cl).all (Dirent.passes hit) then
    some (v.nextCluster disk cl)
  else none

/-- A turn on a disk that can be read. -/
theorem walkTurn_quiet (v : FatVol) (disk : UInt32 → Sector) (lp : ClusterLoop σ ρ) (cl : UInt32)
    (st : σ) :
    v.walkTurn lp (cl, st, FatIo.quiet disk) =
      if lp.more st ∧ isCluster cl then
        match (v.scanCluster disk lp cl st).2 with
        | .inl st' => reads (v.clusterLbas cl (v.scanCluster disk lp cl st).1 ++ [v.fatLba cl])
            (.inl (v.nextCluster disk cl, st', FatIo.quiet disk))
        | .inr ret => reads (v.clusterLbas cl (v.scanCluster disk lp cl st).1)
            (.inr (ret, FatIo.quiet disk))
      else reads [] (.inr (lp.done st, FatIo.quiet disk)) := by
  by_cases hgo : lp.more st = true ∧ isCluster cl = true
  · rw [if_pos hgo]
    cases hscan : (v.scanCluster disk lp cl st).2 with
    | inl st' => exact walkTurn_next hgo.1 hgo.2 hscan (fun _ _ => rfl) rfl
    | inr ret => exact walkTurn_ret hgo.1 hgo.2 hscan fun _ _ => rfl
  · rw [if_neg hgo, walkTurn_stop hgo]

end FatVol

instance finiteUInt32 : Finite UInt32 :=
  Finite.of_injective (fun a => (⟨a.toNat, a.toNat_lt⟩ : Fin (2 ^ 32))) fun _ _ h =>
    UInt32.toNat_inj.mp (congrArg Fin.val h)

namespace DirLoop

variable {lp : ClusterLoop σ ρ} {hit : Dirent → Bool} (h : DirLoop lp hit) {v : FatVol}
  {disk : UInt32 → Sector} {cl : UInt32} {st : σ}
include h

/-- The loop goes on behind a cluster exactly if there is a link. -/
theorem dirStep_isSome (hcl : isCluster cl = true) :
    (∃ st', (v.scanCluster disk lp cl st).2 = .inl st') ↔
      v.dirStep disk hit cl = some (v.nextCluster disk cl) := by
  rw [FatVol.scanCluster, h.scan_inl, FatVol.dirStep, hcl, Bool.true_and, FatVol.clusterDirents]
  constructor
  · exact fun hall => if_pos hall
  · intro hstep
    by_contra hno
    rw [if_neg hno] at hstep
    cases hstep

/-- A turn on a disk that can be read follows the link, or there is none and it is the last. -/
theorem turn_cases (v : FatVol) (disk : UInt32 → Sector) (cl : UInt32) (st : σ) :
    (∃ log st', v.walkTurn lp (cl, st, FatIo.quiet disk) =
        reads log (.inl (v.nextCluster disk cl, st', FatIo.quiet disk)) ∧
      v.dirStep disk hit cl = some (v.nextCluster disk cl)) ∨
    ∃ log ret, v.walkTurn lp (cl, st, FatIo.quiet disk) = reads log (.inr (ret, FatIo.quiet disk)) ∧
      v.dirStep disk hit cl = none := by
  rw [FatVol.walkTurn_quiet]
  by_cases hcl : isCluster cl = true
  · rw [if_pos ⟨h.more st, hcl⟩]
    have hstep : (∃ st', (v.scanCluster disk lp cl st).2 = .inl st') ↔
        v.dirStep disk hit cl = some (v.nextCluster disk cl) := h.dirStep_isSome hcl
    cases hscan : (v.scanCluster disk lp cl st).2 with
    | inl st' => exact Or.inl ⟨_, st', rfl, hstep.mp ⟨st', hscan⟩⟩
    | inr ret =>
      refine Or.inr ⟨_, ret, rfl, ?_⟩
      have hno := mt hstep.mpr fun ⟨_, hc⟩ => by rw [hscan] at hc; cases hc
      rw [FatVol.dirStep] at hno ⊢
      exact if_neg fun hc => hno (if_pos hc)
  · rw [if_neg fun hc => hcl hc.2]
    refine Or.inr ⟨[], _, rfl, if_neg ?_⟩
    simp [hcl]

/-- A loop over a directory ends exactly if its links come to no cluster twice. -/
theorem ends_iff (v : FatVol) (disk : UInt32 → Sector) (cl : UInt32) (st : σ) :
    (∃ log r, Ends (fun n => v.walk lp n (cl, st, FatIo.quiet disk)) log r) ↔
      ¬ Repeats (v.dirStep disk hit) cl := by
  rw [← halts_iff]
  refine ends_iff_halts (I := fun w : UInt32 × σ × FatIo => w.2.2 = FatIo.quiet disk)
    (s := (cl, st, FatIo.quiet disk)) FatVol.stable_walkTurn (fun w => w.1) (fun w hw => ?_) rfl
  obtain ⟨cl, st, io⟩ := w
  obtain rfl : io = FatIo.quiet disk := hw
  rcases h.turn_cases v disk cl st with ⟨log, st', hturn, hstep⟩ | ⟨log, ret, hturn, hstep⟩
  · refine ⟨log, _, .reads fun _ => hturn, ?_, fun r hr => by cases hr⟩
    rintro _ ⟨⟩
    exact ⟨rfl, hstep⟩
  · exact ⟨log, _, .reads fun _ => hturn, (fun s' hs' => by cases hs'), fun _ _ => hstep⟩

end DirLoop

/-! ## `dir_find` -/

namespace FatVol

variable {v : FatVol} {disk : UInt32 → Sector} {cl : UInt32} {target : List UInt8} {d : Dirent}

/-- The entry is found in the directory : along its links, before its end. -/
def Lookup (v : FatVol) (disk : UInt32 → Sector) (cl : UInt32) (target : List UInt8)
    (d : Dirent) : Prop :=
  ∃ i c, orbit (v.dirStep disk (Dirent.isHit target)) i cl = some c ∧ isCluster c = true ∧
    ((v.clusterDirents disk c).takeWhile (!·.isEnd)).find? (Dirent.isHit target) = some d

theorem stable_dirFind (io : FatIo) (cl : UInt32) (target : List UInt8) :
    Stable fun n => v.dirFind n io cl target :=
  stable_walk _

/-- The search of a cluster is one of all its entries. -/
theorem scan_findLoop (secs : List Sector) :
    ((findLoop target).scan secs ()).2 =
      Dirent.find target (secs.flatMap Dirent.ofSector) := by
  induction secs with
  | nil => rfl
  | cons sec secs ih =>
    have hsec : (findLoop target).sector () sec = Dirent.find target (Dirent.ofSector sec) := rfl
    rw [ClusterLoop.scan, if_pos ((dirLoop_find target).more ()), hsec, List.flatMap_cons,
      Dirent.find_append]
    cases Dirent.find target (Dirent.ofSector sec) with
    | inl u => exact ih
    | inr ret => rfl

/-- A turn of `dir_find` that returns. -/
theorem findTurn_ret {log : List UInt32} {r : Option Dirent × FatIo}
    (h : v.walkTurn (findLoop target) (cl, (), FatIo.quiet disk) = reads log (.inr r)) :
    isCluster cl = true ∧ Dirent.find target (v.clusterDirents disk cl) = .inr r.1 ∨
      isCluster cl = false ∧ r.1 = none := by
  rw [walkTurn_quiet] at h
  by_cases hcl : isCluster cl = true
  · rw [if_pos ⟨rfl, hcl⟩] at h
    refine Or.inl ⟨hcl, ?_⟩
    rw [clusterDirents, ← scan_findLoop]
    change (v.scanCluster disk (findLoop target) cl ()).2 = _
    cases hscan : (v.scanCluster disk (findLoop target) cl ()).2 with
    | inl u =>
      rw [hscan] at h
      cases Option.some.inj (congrArg Prod.snd h)
    | inr ret =>
      rw [hscan] at h
      cases Option.some.inj (congrArg Prod.snd h)
      rfl
  · rw [if_neg fun hc => hcl hc.2] at h
    cases Option.some.inj (congrArg Prod.snd h)
    exact Or.inr ⟨by simpa using hcl, rfl⟩

/-- A search that stops in a cluster ends with its turn. -/
theorem findTurn_eq (hcl : isCluster cl = true) {r : Option Dirent}
    (h : Dirent.find target (v.clusterDirents disk cl) = .inr r) :
    ∃ log, v.walkTurn (findLoop target) (cl, (), FatIo.quiet disk) =
      reads log (.inr (r, FatIo.quiet disk)) := by
  have hscan : (v.scanCluster disk (findLoop target) cl ()).2 = .inr r := by
    rw [← h, clusterDirents, ← scan_findLoop]
    rfl
  exact ⟨_, walkTurn_ret rfl hcl hscan fun _ _ => rfl⟩

/-- What is to be found in a cluster is found there. -/
theorem find_of_find? {ds : List Dirent}
    (h : (ds.takeWhile (!·.isEnd)).find? (Dirent.isHit target) = some d) :
    Dirent.find target ds = .inr (some d) := by
  cases hfind : Dirent.find target ds with
  | inl u =>
    have hall := List.all_eq_true.mp (Dirent.find_eq_inl.mp hfind) d
      ((List.takeWhile_prefix _).mem (List.mem_of_find?_eq_some h))
    rw [Dirent.passes, List.find?_some h] at hall
    simp at hall
  | inr r => rw [Dirent.find_eq_inr hfind, h]

/-- What `dir_find` returns on a disk that can be read is what is to be found. -/
theorem dirFind_lookup : (∃ log io, Ends (fun n => v.dirFind n (FatIo.quiet disk) cl target) log
    (some d, io)) ↔ v.Lookup disk cl target d := by
  constructor
  · rintro ⟨log, io, h⟩
    refine Ends.run_induction
      (motive := fun w _ r => w.2.2 = FatIo.quiet disk → r.1 = some d →
        v.Lookup disk w.1 target d) stable_walkTurn ?_ ?_ h rfl rfl
    · rintro ⟨cl, ⟨⟩, io⟩ log r ⟨_, hturn⟩ rfl hr
      rcases findTurn_ret hturn with ⟨hcl, hfind⟩ | ⟨-, hnone⟩
      · exact ⟨0, cl, rfl, hcl, (Dirent.find_eq_inr (hr ▸ hfind)).symm⟩
      · rw [hnone] at hr
        cases hr
    · rintro ⟨cl, ⟨⟩, io⟩ w' l l' r ⟨_, hturn⟩ - ih rfl hr
      rcases (dirLoop_find target).turn_cases v disk cl () with
        ⟨log, st', hnext, hstep⟩ | ⟨log, ret, hret, -⟩
      · rw [hnext] at hturn
        cases Option.some.inj (congrArg Prod.snd hturn)
        obtain ⟨i, c, horbit, hc, hfind⟩ := ih rfl hr
        exact ⟨i + 1, c, by rw [orbit, hstep]; exact horbit, hc, hfind⟩
      · rw [hret] at hturn
        cases Option.some.inj (congrArg Prod.snd hturn)
  · rintro ⟨i, c, horbit, hc, hfind⟩
    induction i generalizing cl with
    | zero =>
      obtain rfl := Option.some.inj horbit
      obtain ⟨log, hturn⟩ := findTurn_eq hc (find_of_find? hfind)
      exact ⟨log, _, .done stable_walkTurn (.reads fun _ => hturn)⟩
    | succ i ih =>
      rcases (dirLoop_find target).turn_cases v disk cl () with
        ⟨log, st', hnext, hstep⟩ | ⟨log, ret, -, hstep⟩
      · rw [orbit, hstep] at horbit
        obtain ⟨log', io, hends⟩ := ih horbit
        exact ⟨log ++ log', io, .next stable_walkTurn (.reads fun _ => hnext) hends⟩
      · rw [orbit, hstep] at horbit
        cases horbit

/-- A walk on a disk that can be read leaves it so. -/
theorem walk_quiet {lp : ClusterLoop σ ρ} {st : σ} {log : List UInt32} {r : ρ × FatIo}
    (h : Ends (fun n => v.walk lp n (cl, st, FatIo.quiet disk)) log r) :
    r.2 = FatIo.quiet disk := by
  refine Ends.run_induction (motive := fun w _ r => w.2.2 = FatIo.quiet disk →
    r.2 = FatIo.quiet disk) stable_walkTurn ?_ ?_ h rfl
  · rintro ⟨cl, st, io⟩ log r ⟨_, hturn⟩ rfl
    dsimp only at hturn
    rw [walkTurn_quiet] at hturn
    split at hturn
    · split at hturn
      · cases Option.some.inj (congrArg Prod.snd hturn)
      · cases Option.some.inj (congrArg Prod.snd hturn)
        rfl
    · cases Option.some.inj (congrArg Prod.snd hturn)
      rfl
  · rintro ⟨cl, st, io⟩ w' l l' r ⟨_, hturn⟩ - ih rfl
    refine ih ?_
    dsimp only at hturn
    rw [walkTurn_quiet] at hturn
    split at hturn
    · split at hturn
      · cases Option.some.inj (congrArg Prod.snd hturn)
        rfl
      · cases Option.some.inj (congrArg Prod.snd hturn)
    · cases Option.some.inj (congrArg Prod.snd hturn)

/-- Only one entry is to be found. -/
theorem Lookup.unique {d' : Dirent} (h : v.Lookup disk cl target d)
    (h' : v.Lookup disk cl target d') : d = d' := by
  obtain ⟨log, io, hd⟩ := dirFind_lookup.mpr h
  obtain ⟨log', io', hd'⟩ := dirFind_lookup.mpr h'
  exact Option.some.inj (Prod.mk.inj (Ends.unique (stable_dirFind _ _ _) hd hd').2).1

/-- There is nothing to be found behind the end of a chain. -/
theorem Lookup.start (h : v.Lookup disk cl target d) : isCluster cl = true := by
  obtain ⟨i, c, horbit, hc, -⟩ := h
  cases i with
  | zero =>
    obtain rfl := Option.some.inj horbit
    exact hc
  | succ i =>
    by_contra hno
    rw [orbit, dirStep, Bool.eq_false_iff.mpr hno, Bool.false_and, if_neg Bool.false_ne_true]
      at horbit
    cases horbit

/-- What `dir_find` returns is to be found, whichever reads fail. -/
theorem lookup_of_dirFind {io io' : FatIo} {log : List UInt32}
    (h : Ends (fun n => v.dirFind n io cl target) log (some d, io')) :
    v.Lookup io.disk cl target d ∧ io'.disk = io.disk := by
  refine Ends.run_induction (motive := fun w _ r => r.1 = some d →
    v.Lookup w.2.2.disk w.1 target d ∧ r.2.disk = w.2.2.disk) stable_walkTurn ?_ ?_ h rfl
  · rintro ⟨cl, ⟨⟩, io⟩ log ⟨res, io'⟩ ⟨_, hturn⟩ rfl
    by_cases hcl : isCluster cl = true
    · rcases walkTurn_cases v io ((dirLoop_find target).more ()) hcl with
        ⟨n, -, st', io'', heq⟩ | ⟨ret, hscan, heq⟩ | ⟨st', -, heq⟩
      · rw [heq] at hturn
        cases Option.some.inj (congrArg Prod.snd hturn)
      · rw [heq] at hturn
        cases Option.some.inj (congrArg Prod.snd hturn)
        rw [scanCluster, scan_findLoop] at hscan
        exact ⟨⟨0, cl, rfl, hcl, (Dirent.find_eq_inr hscan).symm⟩, rfl⟩
      · rw [heq] at hturn
        cases Option.some.inj (congrArg Prod.snd hturn)
    · rw [walkTurn_stop fun hc => hcl hc.2] at hturn
      cases Option.some.inj (congrArg Prod.snd hturn)
  · rintro ⟨cl, ⟨⟩, io⟩ w' l l' r ⟨_, hturn⟩ - ih hr
    by_cases hcl : isCluster cl = true
    · rcases walkTurn_cases v io ((dirLoop_find target).more ()) hcl with
        ⟨n, -, st', io'', heq⟩ | ⟨ret, -, heq⟩ | ⟨st', hscan, heq⟩
      · rw [heq] at hturn
        cases Option.some.inj (congrArg Prod.snd hturn)
      · rw [heq] at hturn
        cases Option.some.inj (congrArg Prod.snd hturn)
      · rw [heq] at hturn
        cases Option.some.inj (congrArg Prod.snd hturn)
        obtain ⟨hlookup, hdisk⟩ := ih hr
        refine ⟨?_, hdisk⟩
        split at hlookup
        · exact absurd hlookup.start (Bool.eq_false_iff.mp isCluster_eoc)
        · obtain ⟨i, c, horbit, hc, hfind⟩ := hlookup
          refine ⟨i + 1, c, ?_, hc, hfind⟩
          rw [orbit, ((dirLoop_find target).dirStep_isSome hcl).mp ⟨st', hscan⟩]
          exact horbit
    · rw [walkTurn_stop fun hc => hcl hc.2] at hturn
      cases Option.some.inj (congrArg Prod.snd hturn)

end FatVol

end VernisOS
