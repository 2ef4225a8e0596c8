import VernisOS.Fat32Image

/-!
# Names on a well-formed volume

`name_to_83` gives a typed name the eleven bytes of the entry that it stands for
(`nameTo83_dotted`), but for the entries `.` and `..` : it takes their dots for the one in front of
an extension. So a path leads to what it stands for exactly if it has no such component
(`leads_iff_of_names`).
-/

open Bytes Loop

namespace VernisOS

/-! ## Typed names -/

theorem upperByte_eq_dot {c : UInt8} : upperByte c = 46 ↔ c = 46 := by
  unfold upperByte
  split
  · next h =>
    have h97 := UInt8.le_iff_toNat_le.mp h.1
    have h122 := UInt8.le_iff_toNat_le.mp h.2
    refine iff_of_false (fun heq => ?_) fun heq => ?_
    · have hval := congrArg UInt8.toNat heq
      rw [UInt8.toNat_sub_of_le _ _ (UInt8.le_iff_toNat_le.mpr (Nat.le_trans (by decide) h97))]
        at hval
      change c.toNat - 32 = 46 at hval
      change 97 ≤ c.toNat at h97
      omega
    · rw [heq] at h97
      exact absurd h97 (by decide)
  · exact Iff.rfl

/-- The conversion of a name, after that of its letters. -/
theorem nameTo83_upper (name : List UInt8) :
    nameTo83 name =
      let base := (name.map upperByte).takeWhile (· ≠ 46)
      let ext := ((name.map upperByte).dropWhile (· ≠ 46)).drop 1
      if 8 < base.length ∨ 3 < ext.length then none
      else some (padField 8 base ++ padField 3 ext) := by
  have hdot : ((fun c : UInt8 => decide (c ≠ 46)) ∘ upperByte) = fun c => decide (c ≠ 46) := by
    funext c
    exact decide_eq_decide.mpr (not_congr upperByte_eq_dot)
  dsimp only
  rw [nameTo83, List.takeWhile_map, List.dropWhile_map, hdot, List.length_map, ← List.map_drop,
    List.length_map]

/-- A field is its name filled up with blanks. -/
theorem padField_trimField {n : ℕ} {field : List UInt8} (h : field.length = n) :
    padField n (trimField field) = field := by
  have happ : trimField field ++ field.rtakeWhile (· = 32) = field :=
    List.rdropWhile_append_rtakeWhile
  have hblank : field.rtakeWhile (· = 32) =
      List.replicate (field.rtakeWhile (· = 32)).length 32 :=
    List.eq_replicate_of_mem fun c hc => by simpa using List.mem_rtakeWhile_imp hc
  have hlen : n - (trimField field).length = (field.rtakeWhile (· = 32)).length := by
    rw [← h, ← congrArg List.length happ, List.length_append]
    omega
  rw [padField, hlen, ← hblank, happ]

theorem length_trimField_le (field : List UInt8) : (trimField field).length ≤ field.length :=
  (List.rdropWhile_prefix _ _).length_le

theorem mem_of_mem_trimField {field : List UInt8} {c : UInt8} (h : c ∈ trimField field) :
    c ∈ field :=
  (List.rdropWhile_prefix _ _).mem h

/-- What stands in front of the first dot of a name, and behind it. -/
theorem takeWhile_dotted {base : List UInt8} (ext : List UInt8) (h : 46 ∉ base) :
    (base ++ if ext = [] then [] else 46 :: ext).takeWhile (· ≠ 46) = base ∧
      ((base ++ if ext = [] then [] else 46 :: ext).dropWhile (· ≠ 46)).drop 1 = ext := by
  have hbase : ∀ c ∈ base, decide (c ≠ 46) = true :=
    fun c hc => decide_eq_true fun heq => h (heq ▸ hc)
  rw [List.takeWhile_append_of_pos hbase, List.dropWhile_append_of_pos hbase]
  split
  · next hnil => exact ⟨by rw [List.takeWhile_nil, List.append_nil], by rw [hnil]; rfl⟩
  · exact ⟨by rw [List.takeWhile_cons_of_neg (by decide), List.append_nil],
      by rw [List.dropWhile_cons_of_neg (by decide)]; rfl⟩

namespace ValidName

variable {raw : List UInt8} (h : ValidName raw)
include h

theorem no_dot : 46 ∉ raw :=
  fun hmem => (h.chars 46 hmem).2.1 rfl

/-- A typed name in either case gives the entry that it stands for. -/
theorem nameTo83_dotted {comp : List UInt8} (hcomp : dotted raw = comp.map upperByte) :
    nameTo83 comp = some raw := by
  have hbase : 46 ∉ trimField (raw.take 8) :=
    fun hmem => h.no_dot (List.mem_of_mem_take (mem_of_mem_trimField hmem))
  obtain ⟨htake, hdrop⟩ := takeWhile_dotted (trimField (raw.drop 8)) hbase
  have h8 : (raw.take 8).length = 8 := by rw [List.length_take, h.length]; rfl
  have h3 : (raw.drop 8).length = 3 := by rw [List.length_drop, h.length]
  have hle8 := length_trimField_le (raw.take 8)
  have hle3 := length_trimField_le (raw.drop 8)
  rw [nameTo83_upper, ← hcomp, dotted]
  dsimp only
  rw [htake, hdrop, if_neg (by omega), padField_trimField h8, padField_trimField h3,
    List.take_append_drop]

end ValidName

theorem length_dotted_le {raw : List UInt8} (h : raw.length = 11) : (dotted raw).length ≤ 12 := by
  have hle8 := length_trimField_le (raw.take 8)
  have hle3 := length_trimField_le (raw.drop 8)
  rw [List.length_take] at hle8
  rw [List.length_drop] at hle3
  rw [dotted, List.length_append]
  split
  · rw [List.length_nil]
    omega
  · rw [List.length_cons]
    omega

/-! ## The entries of `.` and `..` -/

/-- A component that stands for the directory itself or the one above. -/
def isDotComponent (comp : List UInt8) : Prop :=
  comp = [46] ∨ comp = [46, 46]

instance decidableDotComponent (comp : List UInt8) : Decidable (isDotComponent comp) :=
  inferInstanceAs (Decidable (_ ∨ _))

theorem map_upperByte_eq_dots {comp : List UInt8} {n : ℕ} :
    List.replicate n 46 = comp.map upperByte ↔ comp = List.replicate n 46 := by
  rw [eq_comm, List.eq_replicate_iff, List.eq_replicate_iff, List.length_map, List.forall_mem_map]
  simp only [upperByte_eq_dot]

theorem isDotComponent_iff {comp : List UInt8} :
    isDotComponent comp ↔
      dotted dotName = comp.map upperByte ∨ dotted dotdotName = comp.map upperByte :=
  or_congr (map_upperByte_eq_dots (n := 1)).symm (map_upperByte_eq_dots (n := 2)).symm

/-- The driver looks for a name that begins with a blank. -/
theorem nameTo83_dots {comp raw : List UInt8} (h : isDotComponent comp)
    (hname : nameTo83 comp = some raw) : raw.getD 0 0 = 32 := by
  have h1 : nameTo83 [46] = some (List.replicate 11 32) := by decide
  have h2 : nameTo83 [46, 46] = some (List.replicate 8 32 ++ 46 :: List.replicate 2 32) := by decide
  rcases h with rfl | rfl
  · obtain rfl := Option.some.inj (h1.symm.trans hname)
    rfl
  · obtain rfl := Option.some.inj (h2.symm.trans hname)
    rfl

/-! ## Searching a directory -/

theorem takeWhile_append_of_not_all {α : Type} {p : α → Bool} {as bs : List α}
    (h : ¬ as.all p = true) : (as ++ bs).takeWhile p = as.takeWhile p := by
  rw [List.takeWhile_append, if_neg]
  intro hlen
  have htake : as.takeWhile p = as := (List.takeWhile_prefix p).eq_of_length hlen
  exact h (List.all_eq_true.mpr (List.takeWhile_eq_self_iff.mp htake))

/-- Among elements with different keys only one has a key. -/
theorem find?_key_eq_some {α β : Type} [DecidableEq β] {f : α → β} {l : List α} {a : α} {k : β}
    (h : (l.map f).Nodup) : l.find? (fun a => decide (f a = k)) = some a ↔ a ∈ l ∧ f a = k := by
  constructor
  · intro hfind
    have hkey := List.find?_some hfind
    exact ⟨List.mem_of_find?_eq_some hfind, by simpa using hkey⟩
  · rintro ⟨hmem, rfl⟩
    cases hfind : l.find? (fun a' => decide (f a' = f a)) with
    | none =>
      have hno := List.find?_eq_none.mp hfind a hmem
      exact absurd (decide_eq_true rfl) hno
    | some a' =>
      have hkey := List.find?_some hfind
      rw [List.inj_on_of_nodup_map h (List.mem_of_find?_eq_some hfind) hmem (by simpa using hkey)]

namespace FatVol

variable {v : FatVol} {disk : UInt32 → Sector} {baseLba : UInt32} {L : FatLayout} {cl : UInt32}
  {cs : List UInt32} {t83 : List UInt8} {d : Dirent}

/-- Nothing is found in a cluster all of whose entries let the search pass. -/
theorem lookup_next (hcl : isCluster cl = true)
    (hpass : (v.clusterDirents disk cl).all (Dirent.passes (Dirent.isHit t83)) = true) :
    v.Lookup disk cl t83 d ↔ v.Lookup disk (v.nextCluster disk cl) t83 d := by
  have hstep : v.dirStep disk (Dirent.isHit t83) cl = some (v.nextCluster disk cl) :=
    if_pos (by rw [hcl, hpass]; rfl)
  constructor
  · rintro ⟨i, c, horbit, hc, hfind⟩
    cases i with
    | zero =>
      obtain rfl := Option.some.inj horbit
      have hinl := Dirent.find_eq_inl.mpr hpass
      rw [find_of_find? hfind] at hinl
      cases hinl
    | succ i =>
      rw [orbit, hstep] at horbit
      exact ⟨i, c, horbit, hc, hfind⟩
  · rintro ⟨i, c, horbit, hc, hfind⟩
    exact ⟨i + 1, c, by rw [orbit, hstep]; exact horbit, hc, hfind⟩

/-- The search goes no further than a cluster with an entry that stops it. -/
theorem lookup_here (hcl : isCluster cl = true)
    (hpass : ¬ (v.clusterDirents disk cl).all (Dirent.passes (Dirent.isHit t83)) = true) :
    v.Lookup disk cl t83 d ↔
      ((v.clusterDirents disk cl).takeWhile (!·.isEnd)).find? (Dirent.isHit t83) = some d := by
  have hstep : v.dirStep disk (Dirent.isHit t83) cl = none :=
    if_neg (by rw [hcl, Bool.true_and]; exact hpass)
  constructor
  · rintro ⟨i, c, horbit, hc, hfind⟩
    cases i with
    | zero =>
      obtain rfl := Option.some.inj horbit
      exact hfind
    | succ i =>
      rw [orbit, hstep] at horbit
      cases horbit
  · exact fun hfind => ⟨0, cl, rfl, hcl, hfind⟩

/-- Behind entries that all let the search pass it goes on. -/
theorem find?_append_of_pass {ds es : List Dirent}
    (hpass : ds.all (Dirent.passes (Dirent.isHit t83)) = true) :
    ((ds ++ es).takeWhile (!·.isEnd)).find? (Dirent.isHit t83) =
      (es.takeWhile (!·.isEnd)).find? (Dirent.isHit t83) := by
  have hall := List.all_eq_true.mp hpass
  simp only [Dirent.passes, Bool.and_eq_true, Bool.not_eq_true'] at hall
  rw [List.takeWhile_append_of_pos fun d hd => by simp [(hall d hd).1], List.find?_append,
    List.find?_eq_none.mpr fun d hd => by simp [(hall d hd).2]]
  rfl

/-- An entry that stops the search hides those behind it. -/
theorem find?_append_of_not_pass {ds es : List Dirent}
    (hpass : ¬ ds.all (Dirent.passes (Dirent.isHit t83)) = true) :
    ((ds ++ es).takeWhile (!·.isEnd)).find? (Dirent.isHit t83) =
      (ds.takeWhile (!·.isEnd)).find? (Dirent.isHit t83) := by
  by_cases hend : ds.all (!·.isEnd) = true
  · have hall := List.all_eq_true.mp hend
    rw [List.takeWhile_append_of_pos hall, List.takeWhile_eq_self_iff.mpr hall, List.find?_append]
    cases hfind : ds.find? (Dirent.isHit t83) with
    | some d => rfl
    | none =>
      refine absurd (List.all_eq_true.mpr fun d hd => ?_) hpass
      have hhit := List.find?_eq_none.mp hfind d hd
      rw [Dirent.passes, hall d hd, Bool.true_and, Bool.not_eq_true']
      simpa using hhit
  · rw [takeWhile_append_of_not_all hend]

/-- What is to be found in a directory is the first hit in front of its end. -/
theorem Has.lookup_iff (h : v.Has disk baseLba L)
    (hchain : L.Chain (volumeByte disk baseLba) cl cs) : v.Lookup disk cl t83 d ↔
      ((cs.flatMap (L.dirents (volumeByte disk baseLba))).takeWhile (!·.isEnd)).find?
        (Dirent.isHit t83) = some d := by
  induction cs generalizing cl with
  | nil =>
    have hno : isCluster cl = false := hchain
    refine iff_of_false (fun hlookup => ?_) fun hfind => by cases hfind
    rw [hlookup.start] at hno
    cases hno
  | cons c cs ih =>
    obtain ⟨rfl, hcl, -, hlink⟩ := hchain
    rw [List.flatMap_cons, ← h.clusterDirents hcl]
    by_cases hpass : (v.clusterDirents disk cl).all (Dirent.passes (Dirent.isHit t83)) = true
    · rw [← h.nextCluster hcl] at hlink
      rw [lookup_next hcl hpass, find?_append_of_pass hpass, ih hlink]
    · rw [lookup_here hcl hpass, find?_append_of_not_pass hpass]

/-- In a directory whose names differ an entry is found under its name. -/
theorem Has.lookup_live (h : v.Has disk baseLba L)
    (hchain : L.Chain (volumeByte disk baseLba) cl cs)
    (hnames : ((L.live (volumeByte disk baseLba) cs).map Dirent.name).Nodup) :
    v.Lookup disk cl t83 d ↔ d ∈ L.live (volumeByte disk baseLba) cs ∧ d.name = t83 := by
  have hhit : Dirent.isHit t83 =
      fun a => decide ((!a.skipped) = true ∧ decide (a.name = t83) = true) := by
    funext a
    simp [Dirent.isHit]
  rw [h.lookup_iff hchain, ← find?_key_eq_some hnames, FatLayout.live, List.find?_filter, hhit]

/-! ## Following a path -/

variable {dirs : UInt32 → Prop}

/-- A component other than `.` and `..` is found in a directory under what it stands for. -/
theorem Has.lookup_component (h : v.Has disk baseLba L)
    (hchain : L.Chain (volumeByte disk baseLba) cl cs)
    (hgood : L.GoodDir (volumeByte disk baseLba) dirs cs)
    (hd : d ∈ L.live (volumeByte disk baseLba) cs) {comp : List UInt8}
    (hcomp : dotted d.name = comp.map upperByte) (hdots : ¬ isDotComponent comp) :
    comp.length ≤ 12 ∧ nameTo83 comp = some d.name ∧ v.Lookup disk cl d.name d ∧
      L.target d = d.node := by
  have hvalid : ValidName d.name := by
    rcases hgood.valid d hd with hvalid | ⟨-, hname | hname⟩
    · exact hvalid
    · exact absurd (isDotComponent_iff.mpr (Or.inl (hname ▸ hcomp))) hdots
    · exact absurd (isDotComponent_iff.mpr (Or.inr (hname ▸ hcomp))) hdots
  have hlen : comp.length = (dotted d.name).length := by rw [hcomp, List.length_map]
  refine ⟨hlen ▸ length_dotted_le hvalid.length, hvalid.nameTo83_dotted hcomp,
    (h.lookup_live hchain hgood.names).mpr ⟨hd, rfl⟩, ?_⟩
  have hne : d.name ≠ dotdotName := fun heq => hvalid.no_dot (heq ▸ List.mem_cons_self)
  have hstart : L.dirStart d = d.cluster := if_neg fun hc => hne hc.1
  rw [FatLayout.target, hstart, ite_self]
  rfl

/-- No entry has the name that the driver looks for in place of `.` or `..`. -/
theorem Has.not_lookup_dots (h : v.Has disk baseLba L)
    (hchain : L.Chain (volumeByte disk baseLba) cl cs)
    (hgood : L.GoodDir (volumeByte disk baseLba) dirs cs) {comp : List UInt8}
    (hdots : isDotComponent comp) (hname : nameTo83 comp = some t83) :
    ¬ v.Lookup disk cl t83 d := by
  intro hlookup
  obtain ⟨hd, rfl⟩ := (h.lookup_live hchain hgood.names).mp hlookup
  have hblank := nameTo83_dots hdots hname
  rcases hgood.valid d hd with hvalid | ⟨-, hdot | hdot⟩
  · exact hvalid.first hblank
  · rw [hdot] at hblank
    exact absurd hblank (by decide)
  · rw [hdot] at hblank
    exact absurd hblank (by decide)

/-- On a well-formed volume a path leads to what it stands for, and nowhere else, exactly if `.` and
`..` are none of its components. -/
theorem Has.leads_iff_of_names (h : v.Has disk baseLba L)
    (hdirs : L.GoodDirs (volumeByte disk baseLba) dirs) {comps : List (List UInt8)}
    {node node' node'' : FatNode} (hnode : node.isDir = true → dirs node.cluster)
    (hnames : L.Names (volumeByte disk baseLba) comps node node') :
    v.Leads disk comps node node'' ↔ (∀ comp ∈ comps, ¬ isDotComponent comp) ∧ node'' = node' := by
  induction comps generalizing node with
  | nil =>
    obtain rfl : node' = node := hnames
    exact (and_iff_right fun comp hc => absurd hc List.not_mem_nil).symm
  | cons comp comps ih =>
    obtain ⟨hdir, cs, d, hchain, hd, hcomp, hrest⟩ := hnames
    obtain ⟨-, cs', hchain', hgood⟩ := hdirs node.cluster (hnode hdir)
    obtain rfl := hchain.unique hchain'
    have htarget : (L.target d).isDir = true → dirs (L.target d).cluster := by
      intro hd'
      have hd'' : d.isDir = true := hd'
      rw [FatLayout.target, if_pos hd'']
      exact hgood.dir d hd hd''
    rw [List.forall_mem_cons, and_assoc, ← ih htarget hrest]
    by_cases hdots : isDotComponent comp
    · refine iff_of_false ?_ fun hc => hc.1 hdots
      rintro ⟨-, -, t83, d', hname, hlookup, -⟩
      exact h.not_lookup_dots hchain hgood hdots hname hlookup
    · obtain ⟨hlen, hname, hlookup, hnode'⟩ := h.lookup_component hchain hgood hd hcomp hdots
      rw [hnode', and_iff_right hdots]
      constructor
      · rintro ⟨-, -, t83, d', hname', hlookup', hleads⟩
        obtain rfl := Option.some.inj (hname.symm.trans hname')
        rw [hlookup.unique hlookup']
        exact hleads
      · exact fun hleads => ⟨hlen, hdir, d.name, d, hname, hlookup, hleads⟩

end FatVol

end VernisOS
