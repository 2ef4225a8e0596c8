import VernisOS.Fat32Listing
import VernisOS.Fat32Termination

/-!
# Reads that fail

A failing read ends a search without a result, and the read of a file with -1, unless it is that of
the FAT : `fat_next` then returns the end of the chain, and `fat32_read` what it has so far. On a
well-formed volume it so returns a shorter count exactly if the first read that fails is that of
the FAT behind a cluster that is not the last (`errors_iff`).
-/

open Bytes Loop

namespace VernisOS

namespace FatVol

variable {v : FatVol} {disk : UInt32 → Sector} {baseLba : UInt32} {L : FatLayout}

/-! ## Searches -/

/-- A computation of the driver ends as on a disk that can be read, if none of the reads it makes
there fails, and without a result otherwise. -/
def FailStop {α : Type} (x : FatIo → ℕ → Logged UInt32 (Option α × FatIo))
    (disk : UInt32 → Sector) (log : List UInt32) (res : Option α) : Prop :=
  ∀ io : FatIo, io.disk = disk →
    ((∀ k < log.length, io.fails k = false) → Ends (x io) log (res, io.drop log.length)) ∧
      ((∃ k < log.length, io.fails k = true) → ∃ log' io', Ends (x io) log' (none, io'))

theorem length_clusterLbas (v : FatVol) (cl : UInt32) (n : ℕ) :
    (v.clusterLbas cl n).length = n := by
  rw [clusterLbas, List.length_map, List.length_range]

/-- A search stops at a read that fails. -/
theorem dirFind_failStop {cl : UInt32} {target : List UInt8} {log : List UInt32}
    {res : Option Dirent} {io₀ : FatIo}
    (h : Ends (fun n => v.dirFind n (FatIo.quiet disk) cl target) log (res, io₀)) :
    FailStop (fun io n => v.dirFind n io cl target) disk log res := by
  refine Ends.run_induction (motive := fun w log r => w.2.2 = FatIo.quiet disk →
    FailStop (fun io n => v.walk (findLoop target) n (w.1, (), io)) disk log r.1)
    stable_walkTurn ?_ ?_ h rfl
  · rintro ⟨cl, ⟨⟩, io₁⟩ log ⟨res, io₂⟩ ⟨_, hturn⟩ rfl io rfl
    dsimp only at hturn ⊢
    by_cases hcl : isCluster cl = true
    · rw [walkTurn_quiet, if_pos ⟨(dirLoop_find target).more (), hcl⟩] at hturn
      cases hscan : (v.scanCluster io.disk (findLoop target) cl ()).2 with
      | inl st' =>
        rw [hscan] at hturn
        cases Option.some.inj (congrArg Prod.snd hturn)
      | inr ret =>
        rw [hscan] at hturn
        obtain rfl := congrArg Prod.fst hturn
        cases Option.some.inj (congrArg Prod.snd hturn)
        rw [reads_fst, length_clusterLbas]
        constructor
        · exact fun hok => .done stable_walkTurn (.reads fun _ => walkTurn_ret rfl hcl hscan hok)
        · intro hfail
          obtain ⟨n, st', io', -, heq⟩ := walkTurn_fails ((dirLoop_find target).more ()) hcl hfail
          exact ⟨_, io', .done stable_walkTurn (.reads fun _ => heq)⟩
    · rw [walkTurn_stop fun hc => hcl hc.2] at hturn
      obtain rfl := congrArg Prod.fst hturn
      cases Option.some.inj (congrArg Prod.snd hturn)
      rw [reads_fst, List.length_nil, FatIo.drop_zero]
      constructor
      · exact fun _ => .done stable_walkTurn (.reads fun _ => walkTurn_stop fun hc => hcl hc.2)
      · exact fun ⟨k, hk, _⟩ => absurd hk (Nat.not_lt_zero k)
  · rintro ⟨cl, ⟨⟩, io₁⟩ w' l l' r ⟨_, hturn⟩ - ih rfl io rfl
    dsimp only at hturn ⊢
    by_cases hcl : isCluster cl = true
    · rw [walkTurn_quiet, if_pos ⟨(dirLoop_find target).more (), hcl⟩] at hturn
      cases hscan : (v.scanCluster io.disk (findLoop target) cl ()).2 with
      | inr ret =>
        rw [hscan] at hturn
        cases Option.some.inj (congrArg Prod.snd hturn)
      | inl st' =>
        rw [hscan] at hturn
        obtain rfl := congrArg Prod.fst hturn
        cases Option.some.inj (congrArg Prod.snd hturn)
        set m := (v.scanCluster io.disk (findLoop target) cl ()).1 with hm
        have hlen : (v.clusterLbas cl m ++ [v.fatLba cl] ++ l').length = m + 1 + l'.length := by
          rw [List.length_append, List.length_append, length_clusterLbas]
          rfl
        obtain ⟨hrest, hrest'⟩ := ih rfl (io.drop (m + 1)) rfl
        rw [reads_fst, hlen]
        constructor
        · intro hok
          have hnext := hrest fun k hk => hok (m + 1 + k) (by omega)
          rw [FatIo.drop_drop] at hnext
          exact .next stable_walkTurn (.reads fun _ => walkTurn_next rfl hcl hscan
            (fun j hj => hok j (by omega)) (hok m (by omega))) hnext
        · rintro ⟨k, hk, hkfail⟩
          by_cases hfail : ∃ j < m, io.fails j = true
          · obtain ⟨n, st'', io', -, heq⟩ :=
              walkTurn_fails ((dirLoop_find target).more ()) hcl hfail
            exact ⟨_, io', .done stable_walkTurn (.reads fun _ => heq)⟩
          have hok : ∀ j < m, io.fails j = false :=
            fun j hj => Bool.eq_false_iff.mpr fun h => hfail ⟨j, hj, h⟩
          cases hfat : io.fails m with
          | true =>
            refine ⟨_, _, .next stable_walkTurn
              (.reads fun _ => walkTurn_fat_fails rfl hcl hscan hok hfat)
              (.done stable_walkTurn (.reads fun _ => walkTurn_stop fun hc => ?_))⟩
            rw [isCluster_eoc] at hc
            exact Bool.false_ne_true hc.2
          | false =>
            have hk' : m + 1 ≤ k := by
              by_contra hlt
              rcases Nat.lt_or_ge k m with hlt' | hge
              · rw [hok k hlt'] at hkfail
                cases hkfail
              · obtain rfl : k = m := by omega
                rw [hfat] at hkfail
                cases hkfail
            obtain ⟨log', io', hnext⟩ := hrest' ⟨k - (m + 1), by omega, by
              rw [← hkfail, ← Nat.add_sub_cancel' hk', Nat.add_sub_cancel_left]
              rfl⟩
            exact ⟨_, io', .next stable_walkTurn
              (.reads fun _ => walkTurn_next rfl hcl hscan hok hfat) hnext⟩
    · rw [walkTurn_stop fun hc => hcl hc.2] at hturn
      cases Option.some.inj (congrArg Prod.snd hturn)

/-! ## Paths -/

/-- A search and what is done with its result. -/
theorem FailStop.bind {α β : Type} {x : FatIo → ℕ → Logged UInt32 (Option α × FatIo)}
    {f : ℕ → α → FatIo → Logged UInt32 (Option β × FatIo)} {l l' : List UInt32} {a : α}
    {res : Option β} (hx : ∀ io, Stable (x io)) (hf : ∀ a io, Stable fun n => f n a io)
    (h : FailStop x disk l (some a)) (h' : FailStop (fun io n => f n a io) disk l' res) :
    FailStop (fun io n => Loop.bind (x io n) fun r => r.1.elim (reads [] (none, r.2)) (f n · r.2))
      disk (l ++ l') res := by
  intro io hdisk
  obtain ⟨hok, hfail⟩ := h io hdisk
  obtain ⟨hok', hfail'⟩ := h' (io.drop l.length) hdisk
  have hstable : ∀ r : Option α × FatIo, Stable fun n =>
      r.1.elim (reads [] (none, r.2)) (f n · r.2) := by
    rintro ⟨_ | a, io⟩
    · exact stable_const _
    · exact hf a io
  rw [List.length_append]
  constructor
  · intro hall
    have hrest := hok' fun k hk => hall (l.length + k) (by omega)
    rw [FatIo.drop_drop] at hrest
    exact (Ends.bind_iff (hx io) hstable).mpr
      ⟨l, _, l', hok fun k hk => hall k (by omega), hrest, rfl⟩
  · rintro ⟨k, hk, hkfail⟩
    by_cases hfirst : ∃ j < l.length, io.fails j = true
    · obtain ⟨log', io', hends⟩ := hfail hfirst
      exact ⟨log' ++ [], io', (Ends.bind_iff (hx io) hstable).mpr
        ⟨log', _, [], hends, .reads fun _ => rfl, rfl⟩⟩
    · have hall : ∀ j < l.length, io.fails j = false :=
        fun j hj => Bool.eq_false_iff.mpr fun h => hfirst ⟨j, hj, h⟩
      have hle : l.length ≤ k := by
        by_contra hlt
        rw [hall k (by omega)] at hkfail
        cases hkfail
      obtain ⟨log', io', hends⟩ := hfail' ⟨k - l.length, by omega, by
        rw [← hkfail, ← Nat.add_sub_cancel' hle, Nat.add_sub_cancel_left]
        rfl⟩
      exact ⟨l ++ log', io', (Ends.bind_iff (hx io) hstable).mpr
        ⟨l, _, log', hok hall, hends, rfl⟩⟩

/-- A search without a result, and what is not done then. -/
theorem FailStop.bind_none {α β : Type} {x : FatIo → ℕ → Logged UInt32 (Option α × FatIo)}
    {f : ℕ → α → FatIo → Logged UInt32 (Option β × FatIo)} {l : List UInt32}
    (h : FailStop x disk l none) :
    FailStop (fun io n => Loop.bind (x io n) fun r => r.1.elim (reads [] (none, r.2)) (f n · r.2))
      disk l none := by
  intro io hdisk
  obtain ⟨hok, hfail⟩ := h io hdisk
  constructor
  · intro hall
    obtain ⟨n, hn⟩ := hok hall
    exact ⟨n, bind_eq_reads.mpr ⟨l, _, [], hn, rfl, (List.append_nil l).symm⟩⟩
  · intro hfirst
    obtain ⟨log', io', n, hn⟩ := hfail hfirst
    exact ⟨log', io', n, bind_eq_reads.mpr ⟨log', _, [], hn, rfl, (List.append_nil log').symm⟩⟩

theorem failStop_const {α : Type} (res : Option α) :
    FailStop (fun io _ => reads [] (res, io)) disk [] res := by
  refine fun io _ => ⟨fun _ => ?_, fun ⟨k, hk, _⟩ => absurd hk (Nat.not_lt_zero k)⟩
  rw [List.length_nil, FatIo.drop_zero]
  exact .reads fun _ => rfl

/-- The resolution of a path stops at a read that fails. -/
theorem resolveFrom_failStop {comps : List (List UInt8)} {node : FatNode} {log : List UInt32}
    {res : Option FatNode} {io₀ : FatIo}
    (h : Ends (fun n => v.resolveFrom n comps node (FatIo.quiet disk)) log (res, io₀)) :
    FailStop (fun io n => v.resolveFrom n comps node io) disk log res := by
  induction comps generalizing node log with
  | nil =>
    obtain ⟨rfl, heq⟩ := Ends.unique (stable_const _) h (.reads fun _ => rfl)
    obtain rfl := congrArg Prod.fst heq
    exact failStop_const (some node)
  | cons comp comps ih =>
    by_cases hsearch : comp.length ≤ 12 ∧ node.isDir = true ∧ ∃ t83, nameTo83 comp = some t83
    · obtain ⟨hlen, hdir, t83, hname⟩ := hsearch
      have hrest : ∀ (io : FatIo) (n : ℕ), v.resolveFrom n (comp :: comps) node io =
          Loop.bind (v.dirFind n io node.cluster t83) fun r =>
            r.1.elim (reads [] (none, r.2)) fun d => v.resolveFrom n comps d.node r.2 := by
        intro io n
        rw [resolveFrom_search hlen hdir hname]
        congr 1
        funext r
        obtain ⟨_ | d, io'⟩ := r
        · rfl
        · rfl
      simp only [hrest]
      rcases (ends_resolveFrom_iff hlen hdir hname).mp h with
        ⟨hfind, heq⟩ | ⟨l, d, l', hfind, hrest', rfl⟩
      · obtain rfl := congrArg Prod.fst heq
        exact (dirFind_failStop hfind).bind_none
      · exact FailStop.bind (fun io => stable_dirFind io _ _)
          (fun d io => stable_resolveFrom comps d.node io) (dirFind_failStop hfind) (ih hrest')
    · simp only [resolveFrom_refused hsearch] at h ⊢
      obtain ⟨rfl, heq⟩ := Ends.unique (stable_const _) h (.reads fun _ => rfl)
      obtain rfl := congrArg Prod.fst heq
      exact failStop_const none

theorem resolve_failStop {path : List UInt8} {log : List UInt32} {res : Option FatNode}
    {io₀ : FatIo}
    (h : Ends (fun n => v.resolve n (FatIo.quiet disk) path) log (res, io₀)) :
    FailStop (fun io n => v.resolve n io path) disk log res := by
  simp only [resolve_eq] at h ⊢
  cases habs : v.absolute path with
  | none =>
    rw [habs] at h
    obtain ⟨rfl, heq⟩ := Ends.unique (stable_const _) h (.reads fun _ => rfl)
    obtain rfl := congrArg Prod.fst heq
    exact failStop_const none
  | some comps =>
    rw [habs] at h
    exact resolveFrom_failStop h

/-! ## Files -/

/-- The number of reads that `left` bytes need : their sectors, and the FAT between two clusters. -/
def neededReads (spc left : ℕ) : ℕ :=
  (left + 511) / 512 + ((left + 512 * spc - 1) / (512 * spc) - 1)

/-- The first read to fail is that of the FAT behind a cluster that is not the last with bytes
wanted. -/
def Cuts (spc : ℕ) (fails : ℕ → Bool) (left : ℕ) : Prop :=
  ∃ j, (j + 1) * (512 * spc) < left ∧ fails ((j + 1) * (spc + 1) - 1) = true ∧
    ∀ k < (j + 1) * (spc + 1) - 1, fails k = false

theorem neededReads_le {spc left : ℕ} (h : left ≤ 512 * spc) :
    neededReads spc left = (left + 511) / 512 := by
  rcases Nat.eq_zero_or_pos spc with rfl | hspc
  · rw [neededReads, Nat.mul_zero, Nat.div_zero]
    rfl
  · have hdiv : (left + 512 * spc - 1) / (512 * spc) < 2 :=
      (Nat.div_lt_iff_lt_mul (by omega)).mpr (by omega)
    rw [neededReads]
    omega

theorem neededReads_gt {spc left : ℕ} (hspc : 0 < spc) (h : 512 * spc < left) :
    neededReads spc left = spc + 1 + neededReads spc (left - 512 * spc) := by
  have hpos : 0 < 512 * spc := by omega
  have hdiv : (left + 512 * spc - 1) / (512 * spc) =
      (left - 512 * spc + 512 * spc - 1) / (512 * spc) + 1 := by
    rw [← Nat.add_div_right _ hpos]
    congr 1
    omega
  have hone : 1 ≤ (left - 512 * spc + 512 * spc - 1) / (512 * spc) :=
    (Nat.one_le_div_iff hpos).mpr (by omega)
  rw [neededReads, neededReads, hdiv]
  omega

theorem not_cuts_of_le {spc left : ℕ} {fails : ℕ → Bool} (h : left ≤ 512 * spc) :
    ¬ Cuts spc fails left := by
  rintro ⟨j, hj, -⟩
  have hle : 512 * spc ≤ (j + 1) * (512 * spc) := Nat.le_mul_of_pos_left _ j.succ_pos
  omega

/-- The FAT read comes behind those of a cluster. -/
theorem Cuts.head {spc left : ℕ} {fails : ℕ → Bool} (h : Cuts spc fails left) :
    ∀ k < spc, fails k = false := by
  obtain ⟨j, -, -, hall⟩ := h
  have hle : spc + 1 ≤ (j + 1) * (spc + 1) := Nat.le_mul_of_pos_left _ j.succ_pos
  exact fun k hk => hall k (by omega)

theorem cuts_first {spc left : ℕ} {fails : ℕ → Bool} (hleft : 512 * spc < left)
    (hfat : fails spc = true) (hall : ∀ k < spc, fails k = false) : Cuts spc fails left := by
  refine ⟨0, by omega, ?_, fun k hk => hall k (by omega)⟩
  rw [show (0 + 1) * (spc + 1) - 1 = spc by omega]
  exact hfat

theorem cuts_next {spc left : ℕ} {fails : ℕ → Bool} (hleft : 512 * spc < left)
    (hall : ∀ k ≤ spc, fails k = false) :
    Cuts spc fails left ↔ Cuts spc (fun k => fails (spc + 1 + k)) (left - 512 * spc) := by
  have hmul : ∀ j, (j + 1 + 1) * (spc + 1) - 1 = spc + 1 + ((j + 1) * (spc + 1) - 1) := by
    intro j
    have hle : spc + 1 ≤ (j + 1) * (spc + 1) := Nat.le_mul_of_pos_left _ j.succ_pos
    rw [Nat.succ_mul]
    omega
  constructor
  · rintro ⟨j, hj, hfat, hbefore⟩
    cases j with
    | zero =>
      rw [show (0 + 1) * (spc + 1) - 1 = spc by omega, hall spc (Nat.le_refl _)] at hfat
      cases hfat
    | succ j =>
      rw [hmul] at hfat hbefore
      rw [Nat.succ_mul] at hj
      exact ⟨j, by omega, hfat, fun k hk => hbefore (spc + 1 + k) (by omega)⟩
  · rintro ⟨j, hj, hfat, hbefore⟩
    refine ⟨j + 1, by rw [Nat.succ_mul]; omega, by rw [hmul]; exact hfat, fun k hk => ?_⟩
    rw [hmul] at hk
    rcases Nat.lt_or_ge spc k with hlt | hge
    · have hk' : fails (spc + 1 + (k - (spc + 1))) = false := hbefore (k - (spc + 1)) (by omega)
      rw [Nat.add_sub_cancel' (show spc + 1 ≤ k from hlt)] at hk'
      exact hk'
    · exact hall k hge

/-- What a count can be when reads fail : too small if the FAT cuts the file, -1 if another read
fails, and that of the wanted bytes if none does. -/
structure CountOk (spc : ℕ) (fails : ℕ → Bool) (left : ℕ) (want : UInt32) (rc : Int) : Prop where
  cut : Cuts spc fails left → ∃ m < want.toNat, rc = cInt (UInt32.ofNat m)
  failed : ¬ Cuts spc fails left → (∃ k < neededReads spc left, fails k = true) → rc = -1
  complete : (∀ k < neededReads spc left, fails k = false) → rc = cInt want

/-- A loop that has all it wants. -/
theorem countOk_done {spc : ℕ} {fails : ℕ → Bool} {want : UInt32} {buf : List UInt8}
    (h : buf.length = want.toNat) :
    CountOk spc fails 0 want (cInt (UInt32.ofNat buf.length)) where
  cut hcut := absurd hcut (not_cuts_of_le (Nat.zero_le _))
  failed _ hfail := by
    obtain ⟨k, hk, -⟩ := hfail
    rw [neededReads_le (Nat.zero_le _)] at hk
    exact absurd hk (by omega)
  complete _ := by rw [h, UInt32.ofNat_toNat]

/-- The count does not depend on the reads of a cluster and its FAT entry that succeed. -/
theorem CountOk.next {spc left : ℕ} {fails : ℕ → Bool} {want : UInt32} {rc : Int} (hspc : 0 < spc)
    (hleft : 512 * spc < left) (hall : ∀ k ≤ spc, fails k = false)
    (h : CountOk spc (fun k => fails (spc + 1 + k)) (left - 512 * spc) want rc) :
    CountOk spc fails left want rc where
  cut hcut := h.cut ((cuts_next hleft hall).mp hcut)
  failed hno hfail := by
    obtain ⟨k, hk, hkfail⟩ := hfail
    refine h.failed (mt (cuts_next hleft hall).mpr hno) ⟨k - (spc + 1), ?_, ?_⟩
    · rw [neededReads_gt hspc hleft] at hk
      have hlt : spc < k := by
        by_contra hge
        rw [hall k (by omega)] at hkfail
        cases hkfail
      omega
    · have hlt : spc + 1 ≤ k := by
        by_contra hge
        rw [hall k (by omega)] at hkfail
        cases hkfail
      rw [Nat.add_sub_cancel' hlt]
      exact hkfail
  complete hok := h.complete fun k hk => hok (spc + 1 + k) (by
    rw [neededReads_gt hspc hleft]
    omega)

/-- The reads of the last cluster succeed. -/
theorem countOk_last {spc left : ℕ} {fails : ℕ → Bool} {want : UInt32} (hleft : left ≤ 512 * spc)
    (hall : ∀ k < (left + 511) / 512, fails k = false) :
    CountOk spc fails left want (cInt want) where
  cut hcut := absurd hcut (not_cuts_of_le hleft)
  failed _ hfail := by
    obtain ⟨k, hk, hkfail⟩ := hfail
    rw [neededReads_le hleft] at hk
    rw [hall k hk] at hkfail
    cases hkfail
  complete _ := rfl

/-- A loop that ends in its next turn. -/
theorem readLoop_stop {want cl : UInt32} {buf : List UInt8} {io : FatIo}
    (h : ¬ (buf.length < want.toNat ∧ isCluster cl = true)) :
    Ends (fun n => v.walk (readLoop want) n (cl, buf, io)) []
      ((cInt (UInt32.ofNat buf.length), buf), io) :=
  .done stable_walkTurn (.reads fun _ => walkTurn_stop fun hc => h ⟨readLoop_more.mp hc.1, hc.2⟩)

/-- What the loop of `fat32_read` comes to from a buffer with the bytes `done`. -/
def ReadsCount (v : FatVol) (spc : ℕ) (want cl : UInt32) (done : List UInt8) (io : FatIo) : Prop :=
  ∃ log rc bytes io', Ends (fun n => v.walk (readLoop want) n (cl, done.take want.toNat, io)) log
      ((rc, bytes), io') ∧
    CountOk spc io.fails (want.toNat - done.length) want rc

theorem readsCount_enough {spc : ℕ} {want cl : UInt32} {done : List UInt8} {io : FatIo}
    (h : want.toNat ≤ done.length) : v.ReadsCount spc want cl done io := by
  have hlen := List.length_take_of_le h
  rw [ReadsCount, Nat.sub_eq_zero_of_le h]
  exact ⟨_, _, _, _, readLoop_stop (by omega), countOk_done hlen⟩

/-- Whichever reads fail, the loop of `fat32_read` comes to a count. -/
theorem Has.readLoop_faulty (h : v.Has disk baseLba L) (want : UInt32) {cl : UInt32}
    {cs : List UInt32} (hchain : L.Chain (volumeByte disk baseLba) cl cs) (done : List UInt8)
    {io : FatIo} (hdisk : io.disk = disk)
    (hlong : want.toNat ≤ done.length + cs.length * L.clusterSize) :
    v.ReadsCount L.perCluster want cl done io := by
  induction cs generalizing cl done io with
  | nil => exact readsCount_enough (by rw [List.length_nil, Nat.zero_mul] at hlong; exact hlong)
  | cons c cs ih =>
    by_cases hle : want.toNat ≤ done.length
    · exact readsCount_enough hle
    subst hdisk
    obtain ⟨rfl, hcl, -, hlink⟩ := hchain
    have hlt : done.length < want.toNat := Nat.not_le.mp hle
    have hmore := readLoop_more.mpr hlt
    have hspc := h.perCluster_pos
    have hsize : L.clusterSize = 512 * L.perCluster := rfl
    have hscan := scanCluster_readLoop (v := v) io.disk cl hlt.le
    rw [h.sectorsBytes hcl, h.length_sectors] at hscan
    have htake : (done ++ L.contents (volumeByte io.disk baseLba) cl).take want.toNat =
        done ++ (L.contents (volumeByte io.disk baseLba) cl).take (want.toNat - done.length) := by
      rw [List.take_append, List.take_of_length_le hlt.le]
    rw [← htake] at hscan
    have hnext := congrArg Prod.snd hscan
    have hdone : (done ++ L.contents (volumeByte io.disk baseLba) cl).length =
        done.length + 512 * L.perCluster := by
      rw [List.length_append, FatLayout.length_contents, hsize]
    rw [List.length_cons, Nat.succ_mul] at hlong
    rw [ReadsCount, List.take_of_length_le hlt.le]
    have hleft : want.toNat - (done.length + 512 * L.perCluster) =
        want.toNat - done.length - 512 * L.perCluster := by
      omega
    set left := want.toNat - done.length with hleft'
    set m := min L.perCluster ((left + 511) / 512) with hm
    have hcount : (v.scanCluster io.disk (readLoop want) cl done).1 = m := congrArg Prod.fst hscan
    by_cases hfail : ∃ j < m, io.fails j = true
    · -- a sector of the cluster cannot be read
      obtain ⟨n, st', io', -, heq⟩ := walkTurn_fails hmore hcl (hcount ▸ hfail)
      obtain ⟨j, hj, hjfail⟩ := hfail
      refine ⟨_, -1, st', io', .done stable_walkTurn (.reads fun _ => heq), ?_, fun _ _ => rfl, ?_⟩
      · intro hcut
        rw [hcut.head j (by omega)] at hjfail
        cases hjfail
      · intro hall
        have hneeded : m ≤ neededReads L.perCluster left := by
          rcases Nat.lt_or_ge (512 * L.perCluster) left with hgt | hge
          · rw [neededReads_gt hspc hgt]
            omega
          · rw [neededReads_le hge]
            omega
        rw [hall j (by omega)] at hjfail
        cases hjfail
    have hok : ∀ j < m, io.fails j = false :=
      fun j hj => Bool.eq_false_iff.mpr fun hc => hfail ⟨j, hj, hc⟩
    rcases Nat.lt_or_ge (512 * L.perCluster) left with hgt | hge
    · -- there are more clusters to come
      have hfull : m = L.perCluster := by omega
      rw [hfull] at hcount hok
      cases hfat : io.fails L.perCluster with
      | true =>
        have hturn := walkTurn_fat_fails hmore hcl hnext (by rw [hcount]; exact hok)
          (by rw [hcount]; exact hfat)
        have hbuf : ((done ++ L.contents (volumeByte io.disk baseLba) cl).take want.toNat).length =
            done.length + 512 * L.perCluster := by
          rw [List.length_take, hdone]
          omega
        refine ⟨_, _, _, _, .next stable_walkTurn (.reads fun _ => hturn) (readLoop_stop ?_), ?_⟩
        · rw [isCluster_eoc]
          exact fun hc => Bool.false_ne_true hc.2
        · refine ⟨fun _ => ⟨_, ?_, rfl⟩, fun hno => absurd (cuts_first hgt hfat hok) hno,
            fun hall => ?_⟩
          · rw [hbuf]
            omega
          · rw [hall L.perCluster (by rw [neededReads_gt hspc hgt]; omega)] at hfat
            cases hfat
      | false =>
        have hturn := walkTurn_next hmore hcl hnext (by rw [hcount]; exact hok)
          (by rw [hcount]; exact hfat)
        rw [hcount, h.nextCluster hcl] at hturn
        have hrest : v.ReadsCount L.perCluster want (L.link (volumeByte io.disk baseLba) cl)
            (done ++ L.contents (volumeByte io.disk baseLba) cl) (io.drop (L.perCluster + 1)) :=
          ih hlink _ rfl (by rw [hdone, ← hsize]; omega)
        obtain ⟨log, rc, bytes, io', hends, hrc⟩ := hrest
        rw [hdone, hleft] at hrc
        refine ⟨_, rc, bytes, io', .next stable_walkTurn (.reads fun _ => hturn) hends, ?_⟩
        refine hrc.next hspc hgt fun k hk => ?_
        rcases Nat.lt_or_eq_of_le hk with hlt' | rfl
        · exact hok k hlt'
        · exact hfat
    · -- this is the last cluster
      have hbuf : ((done ++ L.contents (volumeByte io.disk baseLba) cl).take want.toNat).length =
          want.toNat := by
        rw [List.length_take, hdone]
        omega
      have hrc : CountOk L.perCluster io.fails left want (cInt want) :=
        countOk_last hge fun k hk => hok k (by omega)
      have hstop : ∀ cl' io', Ends (fun n => v.walk (readLoop want) n
          (cl', (done ++ L.contents (volumeByte io.disk baseLba) cl).take want.toNat, io')) []
          ((cInt want, (done ++ L.contents (volumeByte io.disk baseLba) cl).take want.toNat),
            io') := by
        intro cl' io'
        have hcInt : cInt want = cInt (UInt32.ofNat
            ((done ++ L.contents (volumeByte io.disk baseLba) cl).take want.toNat).length) := by
          rw [hbuf, UInt32.ofNat_toNat]
        rw [hcInt]
        exact readLoop_stop fun hc => by omega
      cases hfat : io.fails m with
      | true =>
        have hturn := walkTurn_fat_fails hmore hcl hnext (by rw [hcount]; exact hok)
          (by rw [hcount]; exact hfat)
        exact ⟨_, _, _, _, .next stable_walkTurn (.reads fun _ => hturn) (hstop _ _), hrc⟩
      | false =>
        have hturn := walkTurn_next hmore hcl hnext (by rw [hcount]; exact hok)
          (by rw [hcount]; exact hfat)
        exact ⟨_, _, _, _, .next stable_walkTurn (.reads fun _ => hturn) (hstop _ _), hrc⟩

/-! ## Well-formed volumes -/

/-- The links of a chain end. -/
theorem Has.not_repeats (h : v.Has disk baseLba L) {cl : UInt32} {cs : List UInt32}
    (hchain : L.Chain (volumeByte disk baseLba) cl cs) (hit : Dirent → Bool) :
    ¬ Repeats (v.dirStep disk hit) cl := by
  rw [← halts_iff]
  refine ⟨cs.length + 1, ?_⟩
  induction cs generalizing cl with
  | nil =>
    have hno : isCluster cl = false := hchain
    have hstep : v.dirStep disk hit cl = none := by
      refine if_neg fun hc => ?_
      rw [hno, Bool.false_and] at hc
      exact Bool.false_ne_true hc
    rw [orbit, hstep, Option.bind_none]
  | cons c cs ih =>
    obtain ⟨rfl, hcl, -, hlink⟩ := hchain
    rw [orbit]
    cases hstep : v.dirStep disk hit cl with
    | none => exact Option.bind_none _
    | some cl' =>
      have hnext : v.nextCluster disk cl = cl' := by
        rw [dirStep] at hstep
        split at hstep
        · exact Option.some.inj hstep
        · cases hstep
      rw [h.nextCluster hcl] at hnext
      rw [Option.bind_some, ← hnext]
      exact ih hlink

/-- All searches on a well-formed volume end. -/
theorem Has.searchesEnd (h : v.Has disk baseLba L) {dirs : UInt32 → Prop}
    (hdirs : L.GoodDirs (volumeByte disk baseLba) dirs) (comps : List (List UInt8)) {node : FatNode}
    (hnode : node.isDir = true → dirs node.cluster) : v.SearchesEnd disk comps node := by
  induction comps generalizing node with
  | nil => trivial
  | cons comp comps ih =>
    intro hlen hdir t83 hname
    obtain ⟨-, cs, hchain, -⟩ := hdirs node.cluster (hnode hdir)
    refine ⟨h.not_repeats hchain _, fun d hlookup => ih fun hd => ?_⟩
    have hleads : v.Leads disk [comp] node d.node := ⟨hlen, hdir, t83, d, hname, hlookup, rfl⟩
    exact h.dirs_of_leads hdirs hnode hleads hd

theorem cInt_eq_neg_one_iff {n : UInt32} : cInt n = -1 ↔ n.toNat = 2 ^ 32 - 1 := by
  have hlt := n.toNat_lt
  rw [cInt_eq]
  split
  · omega
  · omega

/-- A smaller count is neither the wanted one nor an error. -/
theorem cInt_smaller {want : UInt32} {m : ℕ} (h : m < want.toNat) :
    ¬ (cInt (UInt32.ofNat m) = -1 ∨ cInt (UInt32.ofNat m) = (want.toNat : Int)) := by
  have hlt := want.toNat_lt
  have hm : (UInt32.ofNat m).toNat = m :=
    UInt32.toNat_ofNat_of_lt' (by rw [UInt32.size]; omega)
  rw [cInt_eq, hm]
  split
  · omega
  · omega

/-- The number of reads that a path needs to lead to what it does, on a disk that can be read. -/
def PathReads (v : FatVol) (disk : UInt32 → Sector) (path : List UInt8) (r : ℕ) : Prop :=
  ∃ l node, Ends (fun n => v.resolve n (FatIo.quiet disk) path) l (some node, FatIo.quiet disk) ∧
    l.length = r

/-- `fat32_read` returns -1 or the number of wanted bytes. -/
def Reports (v : FatVol) (disk : UInt32 → Sector) (fails : ℕ → Bool) (path : List UInt8)
    (maxLen : UInt32) (count : ℕ) : Prop :=
  ∃ log rc bytes io, Ends (fun n => v.fat32Read n ⟨disk, fails⟩ path maxLen) log
    ((rc, bytes), io) ∧ (rc = -1 ∨ rc = (count : Int))

theorem reports_of_refused {path : List UInt8} {fails : ℕ → Bool} {log : List UInt32} {io' : FatIo}
    (h : Ends (fun n => v.resolve n ⟨disk, fails⟩ path) log (none, io')) (maxLen : UInt32)
    (count : ℕ) : v.Reports disk fails path maxLen count := by
  refine ⟨log ++ [], -1, [], io', ?_, Or.inl rfl⟩
  simp only [fat32Read_eq]
  obtain ⟨n, hn⟩ := h
  exact ⟨n, bind_eq_reads.mpr ⟨log, _, [], hn, rfl, rfl⟩⟩

theorem reports_iff {path : List UInt8} {fails : ℕ → Bool} {log : List UInt32} {io' : FatIo}
    {node : FatNode} {maxLen : UInt32} {count spc : ℕ}
    (h : Ends (fun n => v.resolve n ⟨disk, fails⟩ path) log (some node, io'))
    (hfile : node.isDir = false)
    (hcount : v.ReadsCount spc (wanted node maxLen) node.cluster [] io') :
    ∃ rc, (v.Reports disk fails path maxLen count ↔ rc = -1 ∨ rc = (count : Int)) ∧
      CountOk spc io'.fails (wanted node maxLen).toNat (wanted node maxLen) rc := by
  obtain ⟨log', rc, bytes, io'', hends, hrc⟩ := hcount
  rw [List.take_nil] at hends
  have hread : Ends (fun n => v.fat32Read n ⟨disk, fails⟩ path maxLen) (log ++ log')
      ((rc, bytes), io'') := by
    simp only [fat32Read_eq]
    exact ends_atNode (fun _ _ => stable_walk _) h (by rw [hfile]; rfl) hends
  refine ⟨rc, ⟨?_, fun h => ⟨_, rc, bytes, io'', hread, h⟩⟩, hrc⟩
  rintro ⟨log'', rc', bytes', io₁, hends', hrc'⟩
  obtain ⟨-, heq⟩ := Ends.unique (stable_fat32Read _ _ _) hends' hread
  obtain rfl : rc' = rc := congrArg (fun r => r.1.1) heq
  exact hrc'

/-- On a well-formed volume the read of a file returns -1 or the number of wanted bytes exactly if
the first read to fail is not that of the FAT behind a cluster that is not the last, and the number
fits an `int` or is that of -1, unless some read fails that the file needs. -/
theorem errors_iff {v₀ v : FatVol} {disk : UInt32 → Sector} {baseLba : UInt32}
    (h : v₀.Mounts (FatIo.quiet disk) baseLba v)
    (hwf : (FatLayout.ofBoot (volumeByte disk baseLba)).WellFormed (volumeByte disk baseLba))
    {path : List UInt8} {node : FatNode}
    (hdenotes : Denotes (FatLayout.ofBoot (volumeByte disk baseLba)) (volumeByte disk baseLba)
      path node) (hfile : node.isDir = false) (maxLen : UInt32) (fails : ℕ → Bool) :
    v.Reports disk fails path maxLen (min node.size.toNat maxLen.toNat) ↔
      ∀ r, v.PathReads disk path r →
        ¬ ((∀ k < r, fails k = false) ∧
          Cuts (FatLayout.ofBoot (volumeByte disk baseLba)).perCluster (fun k => fails (r + k))
            (min node.size.toNat maxLen.toNat)) ∧
        (min node.size.toNat maxLen.toNat < 2 ^ 31 ∨
          min node.size.toNat maxLen.toNat = 2 ^ 32 - 1 ∨
          ∃ k < r + neededReads (FatLayout.ofBoot (volumeByte disk baseLba)).perCluster
            (min node.size.toNat maxLen.toNat), fails k = true) := by
  have hhas := h.has
  set L := FatLayout.ofBoot (volumeByte disk baseLba) with hL
  rw [← wanted_toNat]
  by_cases hdots : Dotless path
  · obtain ⟨l, hres⟩ := resolve_leads.mpr ((hhas.leadsTo_iff hwf hdenotes).mpr ⟨hdots, rfl⟩)
    obtain ⟨hok, hfail⟩ := resolve_failStop hres ⟨disk, fails⟩ rfl
    have hreads : ∀ r, v.PathReads disk path r ↔ r = l.length := by
      intro r
      constructor
      · rintro ⟨l', node', hres', rfl⟩
        rw [(Ends.unique (stable_resolve _ _) hres' hres).1]
      · rintro rfl
        exact ⟨l, node, hres, rfl⟩
    simp only [hreads, forall_eq]
    by_cases hfirst : ∃ k < l.length, fails k = true
    · obtain ⟨log', io', hends⟩ := hfail hfirst
      obtain ⟨k, hk, hkfail⟩ := hfirst
      refine iff_of_true (reports_of_refused hends maxLen _) ⟨fun hcut => ?_, Or.inr (Or.inr ?_)⟩
      · rw [hcut.1 k hk] at hkfail
        cases hkfail
      · exact ⟨k, by omega, hkfail⟩
    · have hall : ∀ k < l.length, fails k = false :=
        fun k hk => Bool.eq_false_iff.mpr fun hc => hfirst ⟨k, hk, hc⟩
      have hcount : v.ReadsCount L.perCluster (wanted node maxLen) node.cluster []
          ((FatIo.mk disk fails).drop l.length) := by
        obtain ⟨dirs, hroot, hdirs⟩ := hwf
        obtain ⟨cs, hchain, hlen⟩ := file_chain hdirs rfl hroot hdenotes.2 hfile
        rw [length_chainBytes] at hlen
        refine hhas.readLoop_faulty _ hchain [] rfl ?_
        rw [wanted_toNat, List.length_nil]
        omega
      obtain ⟨rc, hreports, hrc⟩ := reports_iff (hok hall) hfile hcount
      rw [hreports]
      set want := wanted node maxLen
      by_cases hcut : Cuts L.perCluster (fun k => fails (l.length + k)) want.toNat
      · obtain ⟨m, hm, rfl⟩ := hrc.cut hcut
        exact iff_of_false (cInt_smaller hm) fun hc => hc.1 ⟨hall, hcut⟩
      by_cases hneed : ∃ k < neededReads L.perCluster want.toNat, fails (l.length + k) = true
      · obtain rfl := hrc.failed hcut hneed
        obtain ⟨k, hk, hkfail⟩ := hneed
        exact iff_of_true (Or.inl rfl) ⟨fun hc => hcut hc.2,
          Or.inr (Or.inr ⟨l.length + k, by omega, hkfail⟩)⟩
      · obtain rfl := hrc.complete fun k hk => Bool.eq_false_iff.mpr fun hc => hneed ⟨k, hk, hc⟩
        rw [cInt_eq_neg_one_iff, cInt_eq_iff]
        constructor
        · exact fun hc => ⟨fun hc' => hcut hc'.2, hc.elim (fun h => Or.inr (Or.inl h)) Or.inl⟩
        · rintro ⟨-, hlt | hmax | ⟨k, hk, hkfail⟩⟩
          · exact Or.inr hlt
          · exact Or.inl hmax
          · rcases Nat.lt_or_ge k l.length with hlt | hge
            · rw [hall k hlt] at hkfail
              cases hkfail
            · refine absurd ⟨k - l.length, by omega, ?_⟩ hneed
              rw [Nat.add_sub_cancel' hge]
              exact hkfail
  · -- the driver does not find the file, whichever reads fail
    obtain ⟨dirs, hroot, hdirs⟩ := hwf
    have hend : v.PathEnds disk path := by
      intro comps _
      refine hhas.searchesEnd hdirs comps fun _ => ?_
      change dirs v.rootCluster
      rw [hhas.root]
      exact hroot
    obtain ⟨l, ⟨res, io₀⟩, hres⟩ := (resolve_ends_iff path).mpr hend
    have hno : ∀ node', ¬ v.LeadsTo disk path node' :=
      fun node' hleads => hdots ((hhas.leadsTo_iff ⟨dirs, hroot, hdirs⟩ hdenotes).mp hleads).1
    obtain rfl : io₀ = FatIo.quiet disk := resolve_quiet hres
    cases res with
    | some node' => exact absurd (resolve_leads.mp ⟨l, hres⟩) (hno node')
    | none =>
      obtain ⟨hok, hfail⟩ := resolve_failStop hres ⟨disk, fails⟩ rfl
      refine iff_of_true ?_ fun r ⟨l', node', hres', _⟩ =>
        absurd (resolve_leads.mp ⟨l', hres'⟩) (hno node')
      by_cases hfirst : ∃ k < l.length, fails k = true
      · obtain ⟨log', io', hends⟩ := hfail hfirst
        exact reports_of_refused hends maxLen _
      · exact reports_of_refused (hok fun k hk =>
          Bool.eq_false_iff.mpr fun hc => hfirst ⟨k, hk, hc⟩) maxLen _

/-! ## A sample volume -/

/-- The search for `/a` reads one sector. -/
theorem resolve_fileA : Ends (fun n => smallVol.resolve n (FatIo.quiet dirDisk) [47, 97]) [8194]
    (some ⟨3, 600, false⟩, FatIo.quiet dirDisk) :=
  ⟨1, rfl⟩

theorem pathReads_fileA {r : ℕ} (h : smallVol.PathReads dirDisk [47, 97] r) : r = 1 := by
  obtain ⟨l, node, hends, rfl⟩ := h
  obtain ⟨rfl, -⟩ := Ends.unique (stable_resolve _ _) hends resolve_fileA
  rfl

/-- The second sector of the file cannot be read. -/
theorem reports_fileA : smallVol.Reports dirDisk (· == 3) [47, 97] 1000 600 := by
  refine (errors_iff mounts_dirDisk wellFormed_dirDisk denotes_fileA rfl 1000 _).mpr fun r hr => ?_
  obtain rfl := pathReads_fileA hr
  refine ⟨?_, Or.inl (by decide)⟩
  rintro ⟨-, j, hj, hfat, -⟩
  have hspc : dirLayout.perCluster = 1 := rfl
  have hsize : min (600 : UInt32).toNat (1000 : UInt32).toNat = 600 := by decide
  change (j + 1) * (512 * dirLayout.perCluster) < _ at hj
  change (1 + ((j + 1) * (dirLayout.perCluster + 1) - 1) == 3) = true at hfat
  rw [hspc, hsize] at hj
  rw [hspc, beq_iff_eq] at hfat
  omega

/-- The read of the FAT behind the first sector of the file fails. -/
theorem not_errors : ¬ ∀ (v₀ v : FatVol) (disk : UInt32 → Sector) (baseLba : UInt32),
    v₀.Mounts (FatIo.quiet disk) baseLba v →
      (FatLayout.ofBoot (volumeByte disk baseLba)).WellFormed (volumeByte disk baseLba) →
      ∀ (path : List UInt8) (node : FatNode),
        Denotes (.ofBoot (volumeByte disk baseLba)) (volumeByte disk baseLba) path node →
        node.isDir = false → ∀ (maxLen : UInt32) (fails : ℕ → Bool),
          v.Reports disk fails path maxLen (min node.size.toNat maxLen.toNat) := by
  intro h
  have hreports := h _ _ _ _ mounts_dirDisk wellFormed_dirDisk _ _ denotes_fileA rfl 1000 (· == 2)
  obtain ⟨hok, -⟩ := resolve_failStop resolve_fileA ⟨dirDisk, (· == 2)⟩ rfl
  have hresolve := hok fun k hk => by
    obtain rfl : k = 0 := Nat.lt_one_iff.mp hk
    rfl
  have hcount : smallVol.ReadsCount dirLayout.perCluster (wanted ⟨3, 600, false⟩ 1000) 3 []
      ((FatIo.mk dirDisk (· == 2)).drop 1) :=
    has_dirDisk.readLoop_faulty _ chain_file [] rfl (by decide)
  obtain ⟨rc, hiff, hrc⟩ := reports_iff hresolve rfl hcount
  obtain ⟨m, hm, rfl⟩ := hrc.cut ⟨0, by decide, rfl, by decide⟩
  exact cInt_smaller hm (hiff.mp hreports)

end FatVol

end VernisOS
