import VernisOS.VernisFsReadback

/-!
# Listing a directory

`vfs_list_dir` puts out the names that `vfs_is_child_of` calls direct children. It splits a name at
its last slash, so an empty component after the directory passes for one, and under the root an
empty component before the last. The listing is exact as long as no such name is among the first
`max` (`list_dir_iff`).
-/

open Slots

namespace VernisOS

namespace VernisFs

/-! ## Splitting a name -/

theorem lastSlash_concat (c : List UInt8) (x : UInt8) :
    lastSlash (c ++ [x]) = if x = 47 then c.length else lastSlash c := by
  have hinit : ∀ (l : List ℕ) (a : ℕ), (∀ i ∈ l, i < c.length) →
      l.foldl (fun last i => if (c ++ [x]).getD i 0 = 47 then i else last) a =
        l.foldl (fun last i => if c.getD i 0 = 47 then i else last) a := by
    intro l
    induction l with
    | nil => exact fun _ _ => rfl
    | cons i l ih =>
      intro a hl
      have hi : (c ++ [x]).getD i 0 = c.getD i 0 :=
        List.getD_append _ _ _ _ (hl i List.mem_cons_self)
      rw [List.foldl_cons, List.foldl_cons, hi]
      exact ih _ fun j hj => hl j (List.mem_cons_of_mem i hj)
  have hlast : (c ++ [x]).getD c.length 0 = x := by simp
  rw [lastSlash, List.length_append, List.length_singleton, List.range_succ, List.foldl_append,
    hinit _ _ fun i hi => List.mem_range.mp hi, List.foldl_cons, List.foldl_nil, hlast]
  rfl

/-- The last slash is the one before a component without any. -/
theorem lastSlash_split (p : List UInt8) {comp : List UInt8} (h : 47 ∉ comp) :
    lastSlash (p ++ 47 :: comp) = p.length := by
  induction comp using List.reverseRecOn with
  | nil => rw [lastSlash_concat, if_pos rfl]
  | append_singleton comp x ih =>
    obtain ⟨hcomp, hx⟩ := not_or.mp (mt List.mem_append.mpr h)
    rw [← List.cons_append, ← List.append_assoc, lastSlash_concat,
      if_neg fun heq => hx (List.mem_singleton.mpr heq.symm), ih hcomp]

/-- A name with a slash has a last one. -/
theorem exists_last_slash {c : List UInt8} (h : 47 ∈ c) :
    ∃ p comp, c = p ++ 47 :: comp ∧ 47 ∉ comp := by
  induction c using List.reverseRecOn with
  | nil => exact absurd h List.not_mem_nil
  | append_singleton c x ih =>
    by_cases hx : x = 47
    · exact ⟨c, [], by rw [hx], List.not_mem_nil⟩
    · have hc : 47 ∈ c := (List.mem_append.mp h).resolve_right
        fun hs => hx (List.mem_singleton.mp hs).symm
      obtain ⟨p, comp, rfl, hcomp⟩ := ih hc
      refine ⟨p, comp ++ [x], by simp, fun hs => ?_⟩
      rcases List.mem_append.mp hs with hs | hs
      · exact hcomp hs
      · exact hx (List.mem_singleton.mp hs).symm

/-- There is only one way to split a name there. -/
theorem split_inj {p q comp comp' : List UInt8} (h : p ++ 47 :: comp = q ++ 47 :: comp')
    (hcomp : 47 ∉ comp) (hcomp' : 47 ∉ comp') : p = q ∧ comp = comp' := by
  have hlen : p.length = q.length := by
    rw [← lastSlash_split p hcomp, h, lastSlash_split q hcomp']
  obtain ⟨hp, hc⟩ := List.append_inj h hlen
  exact ⟨hp, (List.cons.inj hc).2⟩

/-! ## `vfs_is_child_of` -/

theorem getD_eq_zero_iff {d : List UInt8} (hd : 0 ∉ d) {k : ℕ} : d.getD k 0 = 0 ↔ d.length ≤ k := by
  constructor
  · intro h
    by_contra hlt
    rw [List.getD_eq_getElem _ _ (not_le.mp hlt)] at h
    exact hd (h ▸ List.getElem_mem _)
  · exact List.getD_eq_default _ _

/-- The parent of a name is what stands before its last slash, or the root. -/
theorem vfsIsChildOf_split {p comp d : List UInt8} (hcomp : 47 ∉ comp) (hd : 0 ∉ d) :
    vfsIsChildOf (p ++ 47 :: comp) d = true ↔ if p = [] then d = [47] else d = p := by
  unfold vfsIsChildOf
  rw [lastSlash_split p hcomp]
  by_cases hp : p = []
  · rw [hp, if_pos List.length_nil, if_pos rfl, Bool.and_eq_true, beq_iff_eq, beq_iff_eq,
      getD_eq_zero_iff hd]
    constructor
    · rintro ⟨h, hlen⟩
      match d, hlen with
      | [], _ => cases h
      | [x], _ => rw [show x = 47 from h]
    · rintro rfl
      exact ⟨rfl, le_rfl⟩
  · have hpos := List.length_pos_of_ne_nil hp
    rw [if_neg (by omega), if_neg hp, Bool.and_eq_true, List.all_eq_true, beq_iff_eq,
      getD_eq_zero_iff hd]
    have hname : ∀ k < p.length, (p ++ 47 :: comp).getD k 0 = p.getD k 0 :=
      fun k hk => List.getD_append _ _ _ _ hk
    constructor
    · rintro ⟨hall, hle⟩
      have hsame : ∀ k < p.length, p.getD k 0 = d.getD k 0 ∧ k < d.length := by
        intro k hk
        have hk' := hall k (List.mem_range.mpr hk)
        rw [hname k hk, Bool.and_eq_true, beq_iff_eq, bne_iff_ne, ne_eq,
          getD_eq_zero_iff hd] at hk'
        exact ⟨hk'.1, not_le.mp hk'.2⟩
      have hlen : d.length = p.length := by
        have hlast := (hsame (p.length - 1) (by omega)).2
        omega
      refine List.ext_getElem hlen fun k hk hk' => ?_
      have heq := (hsame k hk').1
      rw [List.getD_eq_getElem _ _ hk', List.getD_eq_getElem _ _ hk] at heq
      exact heq.symm
    · rintro rfl
      refine ⟨fun k hk => ?_, le_rfl⟩
      have hlt := List.mem_range.mp hk
      rw [hname k hlt, Bool.and_eq_true, beq_self_eq_true, bne_iff_ne, ne_eq, getD_eq_zero_iff hd]
      exact ⟨rfl, not_le.mpr hlt⟩

/-! ## Children -/

/-- The root, or a path without a slash at its end. -/
def IsDir (d : List UInt8) : Prop :=
  d = [47] ∨ d ≠ [] ∧ d.getLast? ≠ some 47

/-- What stands before the component of a direct child. -/
def childPrefix (d : List UInt8) : List UInt8 :=
  if d = [47] then [47] else d ++ [47]

/-- The directory, a slash and a component. -/
def IsChild (d name : List UInt8) : Prop :=
  ∃ comp, comp ≠ [] ∧ 47 ∉ comp ∧ name = childPrefix d ++ comp

/-- A name with an empty component : behind the directory, or between two slashes of the root. -/
def IsGhost (d name : List UInt8) : Prop :=
  d ≠ [47] ∧ name = d ++ [47] ∨ d = [47] ∧ ∃ comp, 47 ∉ comp ∧ name = [47] ++ 47 :: comp

/-- A ghost is no child. -/
theorem IsGhost.not_isChild {d name : List UInt8} (h : IsGhost d name) : ¬ IsChild d name := by
  rintro ⟨comp, hne, hcomp, hname⟩
  rcases h with ⟨hd, rfl⟩ | ⟨rfl, comp', hcomp', rfl⟩
  · rw [childPrefix, if_neg hd] at hname
    exact hne (List.self_eq_append_right.mp hname)
  · rw [childPrefix, if_pos rfl] at hname
    have htail : 47 :: comp' = comp := (List.cons.inj hname).2
    exact hcomp (htail ▸ List.mem_cons_self)

/-- What is listed under a directory are its children, and the ghosts. -/
theorem listed_iff {d name : List UInt8} (hd : 0 ∉ d) (hdir : IsDir d)
    (hname : name.head? = some 47) :
    name ≠ d ∧ vfsIsChildOf name d = true ↔ IsChild d name ∨ IsGhost d name := by
  obtain ⟨p, comp, rfl, hcomp⟩ :=
    exists_last_slash (List.mem_of_mem_head? (Option.mem_def.mpr hname))
  rw [vfsIsChildOf_split hcomp hd]
  by_cases hroot : d = [47]
  · subst hroot
    rw [IsChild, IsGhost, childPrefix, if_pos rfl]
    by_cases hp : p = []
    · subst hp
      rw [if_pos rfl, List.nil_append]
      constructor
      · rintro ⟨hne, -⟩
        exact Or.inl ⟨comp, fun hc => hne (hc ▸ rfl), hcomp, rfl⟩
      · rintro (⟨comp', hne, -, heq⟩ | ⟨hself, -⟩ | ⟨-, comp', -, heq⟩)
        · obtain rfl := (List.cons.inj heq).2
          exact ⟨fun hc => hne (List.cons.inj hc).2, rfl⟩
        · exact absurd rfl hself
        · exact absurd ((List.cons.inj heq).2 ▸ List.mem_cons_self) hcomp
    · rw [if_neg hp]
      constructor
      · rintro ⟨-, rfl⟩
        exact Or.inr (Or.inr ⟨rfl, comp, hcomp, rfl⟩)
      · rintro (⟨comp', -, hcomp', heq⟩ | ⟨hself, -⟩ | ⟨-, comp', hcomp', heq⟩)
        · exact absurd (split_inj (q := []) heq hcomp hcomp').1 hp
        · exact absurd rfl hself
        · obtain ⟨rfl, rfl⟩ := split_inj heq hcomp hcomp'
          exact ⟨fun hc => absurd hc (by simp), rfl⟩
  · have hempty : d ≠ [] := by
      rcases hdir with hdir | ⟨hne, -⟩
      · exact absurd hdir hroot
      · exact hne
    rw [IsChild, IsGhost, childPrefix, if_neg hroot]
    by_cases hp : p = []
    · subst hp
      rw [if_pos rfl]
      constructor
      · rintro ⟨-, hd⟩
        exact absurd hd hroot
      · rintro (⟨comp', -, hcomp', heq⟩ | ⟨-, heq⟩ | ⟨hd, -⟩)
        · rw [List.append_assoc] at heq
          exact absurd (split_inj heq hcomp hcomp').1.symm hempty
        · exact absurd (split_inj heq hcomp List.not_mem_nil).1.symm hempty
        · exact absurd hd hroot
    · rw [if_neg hp]
      constructor
      · rintro ⟨-, rfl⟩
        by_cases hc : comp = []
        · exact Or.inr (Or.inl ⟨hroot, by rw [hc]⟩)
        · exact Or.inl ⟨comp, hc, hcomp, by rw [List.append_assoc]; rfl⟩
      · have hself : p ++ 47 :: comp ≠ p := fun hc =>
          absurd (List.append_right_eq_self.mp hc) (List.cons_ne_nil _ _)
        rintro (⟨comp', -, hcomp', heq⟩ | ⟨-, heq⟩ | ⟨hd, -⟩)
        · rw [List.append_assoc] at heq
          obtain ⟨rfl, -⟩ := split_inj heq hcomp hcomp'
          exact ⟨hself, rfl⟩
        · obtain ⟨rfl, -⟩ := split_inj heq hcomp List.not_mem_nil
          exact ⟨hself, rfl⟩
        · exact absurd hd hroot

/-! ## The listing -/

section Listing

variable {fs : VernisFs} {dir : CStr}

open Classical in
/-- The entries of the directory, in the order of the table. -/
noncomputable def children (fs : VernisFs) (dir : CStr) : List (Fin vfsMaxFiles) :=
  (slots vfsMaxFiles).filter fun i =>
    decide (Occupied fs.filetable i ∧ IsChild dir.chars (fs.filetable i).filename.str)

theorem mem_children {i : Fin vfsMaxFiles} : i ∈ fs.children dir ↔
    Occupied fs.filetable i ∧ IsChild dir.chars (fs.filetable i).filename.str := by
  classical
  rw [children, List.mem_filter, decide_eq_true_iff]
  exact and_iff_right (mem_slots i)

/-- The count and the names of the first `max` entries of the directory. -/
noncomputable def listing (fs : VernisFs) (dir : CStr) (max : Int) : Int × List (List UInt8) :=
  let found := (fs.children dir).take max.toNat
  (found.length, found.map fun i => vfsStrncpy vfsMaxFilename (fs.filetable i).filename.str)

/-- The entries that `vfs_list_dir` puts out if there is room. -/
def listed (fs : VernisFs) (dir : CStr) (i : Fin vfsMaxFiles) : Bool :=
  decide (Occupied fs.filetable i ∧ (fs.filetable i).filename.str ≠ dir.chars) &&
    vfsIsChildOf (fs.filetable i).filename.str dir.chars

theorem vfsListDir_eq (hready : fs.ready = true) (dir : CStr) (max : Int) :
    fs.vfsListDir dir max =
      let found := ((slots vfsMaxFiles).filter (fs.listed dir)).take max.toNat
      ((found.length : Int),
        found.map fun i => vfsStrncpy vfsMaxFilename (fs.filetable i).filename.str) := by
  have hloop : ∀ (l : List (Fin vfsMaxFiles)) out, l.foldl (fun out i =>
      if max ≤ (out.length : Int) ∨ (fs.filetable i).type = vfsTypeEmpty then out
      else if vfsStrcmp (fs.filetable i).filename.str dir.chars = 0 then out
      else if vfsIsChildOf (fs.filetable i).filename.str dir.chars then
        out ++ [vfsStrncpy vfsMaxFilename (fs.filetable i).filename.str]
      else out) out =
      l.foldl (fun out i => if max ≤ (out.length : Int) then out
        else if fs.listed dir i then
          out ++ [vfsStrncpy vfsMaxFilename (fs.filetable i).filename.str]
        else out) out := by
    intro l out
    congr 1
    funext out i
    have hcmp := vfsStrcmp_eq_zero (fs.filetable i).filename.zero_notMem_str dir.noNul
    by_cases hfull : max ≤ (out.length : Int)
    · rw [if_pos (Or.inl hfull), if_pos hfull]
    rw [if_neg hfull]
    by_cases htype : (fs.filetable i).type = vfsTypeEmpty
    · rw [if_pos (Or.inr htype), if_neg]
      simp [listed, Occupied, htype]
    rw [if_neg (not_or.mpr ⟨hfull, htype⟩)]
    by_cases hself : (fs.filetable i).filename.str = dir.chars
    · rw [if_pos (hcmp.mpr hself), if_neg]
      simp [listed, hself]
    · rw [if_neg fun hc => hself (hcmp.mp hc)]
      have hlisted : fs.listed dir i =
          vfsIsChildOf (fs.filetable i).filename.str dir.chars := by
        simp [listed, Occupied, htype, hself]
      rw [hlisted]
  unfold vfsListDir
  rw [hready]
  simp only [Bool.not_true, Bool.false_eq_true, if_false]
  rw [hloop, foldl_collect, List.nil_append, List.length_nil, Nat.sub_zero, List.length_map]

/-- The names of two entries are put out alike only if they are the same. -/
theorem vfsStrncpy_str_inj {f g : VfsFilename}
    (h : vfsStrncpy vfsMaxFilename f.str = vfsStrncpy vfsMaxFilename g.str) : f.str = g.str := by
  have hname : ∀ e : VfsFilename,
      (vfsStrncpy vfsMaxFilename e.str).takeWhile (· ≠ 0) = e.str := by
    intro e
    have hstr := VfsFilename.str_ofPath ⟨e.str, e.zero_notMem_str⟩
    rw [List.take_of_length_le e.length_str_le] at hstr
    exact hstr
  rw [← hname f, h, hname g]

/-- The listing is that of the directory exactly if each name with an empty component comes behind
`max` entries. -/
theorem list_dir_iff (fs : VernisFs) (hready : fs.ready = true) (dir : CStr)
    (hdir : IsDir dir.chars)
    (habs : ∀ i, Occupied fs.filetable i → (fs.filetable i).filename.str.head? = some 47)
    (max : Int) :
    fs.vfsListDir dir max = fs.listing dir max ↔
      ∀ i, Occupied fs.filetable i → IsGhost dir.chars (fs.filetable i).filename.str →
        max.toNat ≤ ((fs.children dir).filter (· < i)).length := by
  classical
  have hlisted : ∀ i, fs.listed dir i = true ↔ Occupied fs.filetable i ∧
      (IsChild dir.chars (fs.filetable i).filename.str ∨
        IsGhost dir.chars (fs.filetable i).filename.str) := by
    intro i
    rw [listed, Bool.and_eq_true, decide_eq_true_iff, and_assoc]
    exact and_congr_right fun hocc => listed_iff dir.noNul hdir (habs i hocc)
  set child := fun i =>
    decide (Occupied fs.filetable i ∧ IsChild dir.chars (fs.filetable i).filename.str) with hchild
  have hwider : ∀ i ∈ slots vfsMaxFiles, child i = true → fs.listed dir i = true := by
    intro i _ hi
    obtain ⟨hocc, hi⟩ := decide_eq_true_iff.mp hi
    exact (hlisted i).mpr ⟨hocc, Or.inl hi⟩
  have hghost : ∀ i, fs.listed dir i = true → (child i = false ↔
      IsGhost dir.chars (fs.filetable i).filename.str) := by
    intro i hi
    obtain ⟨hocc, hi⟩ := (hlisted i).mp hi
    rw [hchild, decide_eq_false_iff_not]
    constructor
    · exact fun hno => hi.resolve_left fun hc => hno ⟨hocc, hc⟩
    · exact fun hg hc => hg.not_isChild hc.2
  have hpair : ∀ found found' : List (Fin vfsMaxFiles),
      ((found.length : Int),
        found.map fun i => vfsStrncpy vfsMaxFilename (fs.filetable i).filename.str) =
      ((found'.length : Int),
        found'.map fun i => vfsStrncpy vfsMaxFilename (fs.filetable i).filename.str) ↔
      found.map (fun i => vfsStrncpy vfsMaxFilename (fs.filetable i).filename.str) =
        found'.map fun i => vfsStrncpy vfsMaxFilename (fs.filetable i).filename.str := by
    refine fun found found' => ⟨fun h => (Prod.mk.inj h).2, fun h => Prod.ext ?_ h⟩
    have hlen := congrArg List.length h
    rw [List.length_map, List.length_map] at hlen
    exact congrArg Int.ofNat hlen
  rw [vfsListDir_eq hready]
  refine (hpair _ _).trans ?_
  rw [children, take_filter_map_iff hwider, forall_mem_take_filter_iff pairwise_slots hwider]
  · constructor
    · intro h i hocc hg
      have hi := (hlisted i).mpr ⟨hocc, Or.inr hg⟩
      exact h i (mem_slots i) hi ((hghost i hi).mpr hg)
    · intro h i _ hi hno
      exact h i ((hlisted i).mp hi).1 ((hghost i hi).mp hno)
  · -- a ghost is not put out under the name of a child
    intro i _ j _ hi hno hj heq
    have hchildj := (decide_eq_true_iff.mp hj).2
    rw [← vfsStrncpy_str_inj heq] at hchildj
    exact ((hghost i hi).mp hno).not_isChild hchildj

/-- A volume with one empty file of the name. -/
def volumeNamed (path : CStr) : VernisFs :=
  (emptyVolume.vfsWriteFile path UInt8.ofNat 0).2

/-- The root. -/
def pathRoot : CStr :=
  ⟨[47], by decide⟩

theorem list_dir_pathA :
    (volumeNamed pathA).vfsListDir pathRoot 16 = (volumeNamed pathA).listing pathRoot 16 := by
  have hname : ∀ i, Occupied (volumeNamed pathA).filetable i →
      ((volumeNamed pathA).filetable i).filename.str = [47, 97] := by decide +kernel
  refine (list_dir_iff (volumeNamed pathA) (by decide +kernel) pathRoot (Or.inl rfl)
    (fun i hocc => by rw [hname i hocc]; rfl) 16).mpr fun i hocc hghost => ?_
  rw [hname i hocc] at hghost
  rcases hghost with ⟨hroot, -⟩ | ⟨-, comp, -, heq⟩
  · exact absurd rfl hroot
  · exact absurd heq (by simp)

/-- The path `/a/`. -/
def pathSlash : CStr :=
  ⟨[47, 97, 47], by decide⟩

/-- A file `/a/` is listed under `/a`, with nothing behind the slash. -/
theorem not_list_dir :
    (volumeNamed pathSlash).ready = true ∧ IsDir pathA.chars ∧
      (∀ i, Occupied (volumeNamed pathSlash).filetable i →
        ((volumeNamed pathSlash).filetable i).filename.str = [47, 97, 47]) ∧
      (∀ i j, Occupied (volumeNamed pathSlash).filetable i →
        Occupied (volumeNamed pathSlash).filetable j → i = j) ∧
      (volumeNamed pathSlash).vfsListDir pathA 16 ≠ (volumeNamed pathSlash).listing pathA 16 := by
  have hname : ∀ i, Occupied (volumeNamed pathSlash).filetable i →
      ((volumeNamed pathSlash).filetable i).filename.str = [47, 97, 47] := by decide +kernel
  refine ⟨by decide +kernel, Or.inr (by decide), hname, by decide +kernel, fun heq => ?_⟩
  have hcode : ((volumeNamed pathSlash).vfsListDir pathA 16).1 = 1 := by decide +kernel
  have hnone : (volumeNamed pathSlash).children pathA = [] := by
    refine List.eq_nil_iff_forall_not_mem.mpr fun i hi => ?_
    obtain ⟨hocc, hchild⟩ := mem_children.mp hi
    rw [hname i hocc] at hchild
    exact IsGhost.not_isChild (Or.inl ⟨by decide, rfl⟩) hchild
  rw [heq, listing, hnone] at hcode
  exact absurd hcode (by decide)

end Listing

end VernisFs

end VernisOS
