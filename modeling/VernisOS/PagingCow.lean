import VernisOS.PagingRelease

/-!
# Copy-on-write

`paging_clone_user_pages` shares every page of a space with a new one : both map the frame
read-only and copy-on-write. A store then finds its page alone in the frame, or takes a
copy of it in `paging_handle_cow_fault`. What user code sees of the spaces does not change,
except for the page that is stored to.
-/

namespace VernisOS

open Holder

section Frames

variable {b m : PagingState} {G : Ghost} {s : SpaceId} {i j : Fin 512} {t x : Ref}

/-- Writing a table changes no page. -/
theorem Inv.writeEntry_data (h : Inv b m G) {n : Node} (hn : G (node s n) = some t)
    (hpage : n.isPage = false) {w : Holder} {y : Ref} (hw : G w = some y) (hne : w ≠ node s n)
    (k : Fin 512) (e : UInt64) : (m.writeEntry t.frame k e).mem y.frame = m.mem y.frame :=
  Function.update_of_ne (fun he => hne (h.table_unique hn hpage hw he)) _ _

/-- A page is made read-only as in `paging_clone_user_pages`, if it was writable. -/
theorem Inv.markCow (h : Inv b m G) (ht : G (node s (.pt i)) = some t)
    (hx : G (node s (.page i j)) = some x) :
    ∃ m', m' = (if m.mem t.frame j &&& pageWritable ≠ 0 then
        m.writeEntry t.frame j ((m.mem t.frame j &&& ~~~pageWritable) ||| pageCow) else m) ∧
      Inv b m' (Function.update G (node s (.page i j)) (some x.shared)) ∧
      m'.mem t.frame j = x.shared.entry ∧ m'.outOfFrames = m.outOfFrames ∧
      ∀ w y, G w = some y → w ≠ node s (.pt i) → m'.mem y.frame = m.mem y.frame := by
  have hentry := h.entry_eq (c := .page i j) rfl ht hx
  have hf := h.isFrame hx
  refine ⟨_, rfl, ?_⟩
  rw [hentry, Ref.entry_and_flags hf (by decide)]
  cases hc : x.mode with
  | writable =>
    have hnew : (x.entry &&& ~~~pageWritable) ||| pageCow = x.shared.entry := by
      unfold Ref.entry Ref.shared
      rw [hc, hf.or_and_clear _ (by decide), UInt64.or_assoc]
      rfl
    rw [if_pos (by decide), hnew]
    refine ⟨h.setMode ht hx ?_, ?_, rfl, fun w y hw hne => ?_⟩
    · simp [hc, Mode.shared]
    · simp [PagingState.writeEntry, PagingState.writePage]
    · exact h.writeEntry_data ht rfl hw hne _ _
  | cow =>
    rw [if_neg (by decide), Ref.shared_eq (by simp [hc]), ← hx, Function.update_eq_self]
    exact ⟨h, hentry, rfl, fun _ _ _ _ => rfl⟩
  | fixed =>
    rw [if_neg (by decide), Ref.shared_eq (by simp [hc]), ← hx, Function.update_eq_self]
    exact ⟨h, hentry, rfl, fun _ _ _ _ => rfl⟩

end Frames

/-! ## Sharing the pages of a space -/

/-- The new space maps what the space `p` maps at the same place. -/
def Follows (G : Ghost) (p : Fin 8) : Prop :=
  ∀ i j x, G (node none (.page i j)) = some x →
    ∃ y, G (node (some p) (.page i j)) = some y ∧ y.frame = x.frame

/-- The pages in `D` are cloned : there the view of the new space is that of `p`, and
nothing else changes. -/
structure Cloned (m m' : PagingState) (G G' : Ghost) (p : Fin 8)
    (D : Fin 512 → Fin 512 → Prop) : Prop where
  hands : ∀ l, G' (hand l) = none
  root : ∀ s, G' (node s .pml4) = G (node s .pml4)
  tables : ∀ w x, w.isTable = true → G w = some x → G' w = some x
  follows : Follows G' p
  done : ∀ i j, D i j → view m' G' none i j = view m G (some p) i j
  other : ∀ s i j, ¬ (s = none ∧ D i j) → view m' G' s i j = view m G s i j

theorem Cloned.refl {m : PagingState} {G : Ghost} {p : Fin 8} (hhands : ∀ l, G (hand l) = none)
    (hfollows : Follows G p) : Cloned m m G G p fun _ _ => False :=
  ⟨hhands, fun _ => rfl, fun _ _ _ h => h, hfollows, fun _ _ h => h.elim, fun _ _ _ _ => rfl⟩

theorem Cloned.trans {m₁ m₂ m₃ : PagingState} {G₁ G₂ G₃ : Ghost} {p : Fin 8}
    {D D' : Fin 512 → Fin 512 → Prop} (h : Cloned m₁ m₂ G₁ G₂ p D)
    (h' : Cloned m₂ m₃ G₂ G₃ p D') : Cloned m₁ m₃ G₁ G₃ p fun i j => D i j ∨ D' i j where
  hands := h'.hands
  root s := (h'.root s).trans (h.root s)
  tables w x hw hx := h'.tables w x hw (h.tables w x hw hx)
  follows := h'.follows
  done i j hD := by
    by_cases hD' : D' i j
    · rw [h'.done i j hD', h.other (some p) i j (by simp)]
    · rw [h'.other none i j fun he => hD' he.2, h.done i j (hD.resolve_right hD')]
  other s i j hD := by
    rw [h'.other s i j fun he => hD ⟨he.1, Or.inr he.2⟩,
      h.other s i j fun he => hD ⟨he.1, Or.inl he.2⟩]

section Clone

variable {b m : PagingState} {G : Ghost} {p : Fin 8} {i j : Fin 512} {r t : Ref}

theorem cloneUserPage_absent (h : Inv b m G) (ht : G (node (some p) (.pt i)) = some t)
    (hx : G (node (some p) (.page i j)) = none) : cloneUserPage r.frame t.frame i m j = m := by
  have hentry := h.shape.entry (some p) (.page i j) (.pt i) j t rfl ht
  unfold cloneUserPage
  rw [hentry, hx]
  exact if_pos rfl

/-- One page of `paging_clone_user_pages` that is there. -/
theorem Inv.cloneUserPage_present (h : Inv b m G) (hhands : ∀ l, G (hand l) = none)
    (hroot : G (node none .pml4) = some r) (ht : G (node (some p) (.pt i)) = some t)
    (hi : 64 ≤ i) (hnew : G (node none (.page i j)) = none) (hfollows : Follows G p) {x : Ref}
    (hx : G (node (some p) (.page i j)) = some x)
    (hok : (cloneUserPage r.frame t.frame i m j).outOfFrames = false) :
    ∃ G', Inv b (cloneUserPage r.frame t.frame i m j) G' ∧
      Cloned m (cloneUserPage r.frame t.frame i m j) G G' p fun i' j' => i' = i ∧ j' = j := by
  have hentry := h.entry_eq (c := .page i j) rfl ht hx
  have hpresent : m.mem t.frame j &&& pagePresent ≠ 0 := by
    rw [hentry]
    exact Ref.entry_present (h.isFrame hx)
  obtain ⟨m₁, hm₁, h₁, he₁, _, hdata₁⟩ := h.markCow ht hx
  set q := node (some p) (.page i j) with hq
  set G₁ := Function.update G q (some x.shared) with hG₁
  have hG₁' : ∀ w, w ≠ q → G₁ w = G w := fun w hw => Function.update_of_ne hw _ _
  have hq₁ : G₁ q = some x.shared := Function.update_self _ _ _
  have hf : IsFrame x.frame := h.isFrame hx
  have hflags : x.shared.entry &&& 0xFFF = x.shared.mode.flags :=
    (hf.or_and_flags x.shared.mode.flags 0xFFF (by decide)).trans x.shared.mode.flags_low
  have heq : cloneUserPage r.frame t.frame i m j =
      frameRefInc (pagingMap4k m₁ r.frame (pageAddr i j) x.frame x.shared.mode.flags) x.frame := by
    unfold cloneUserPage
    rw [if_neg hpresent]
    simp only [← hm₁, he₁, hflags, Ref.entry_and_mask (x := x.shared) hf]
    rfl
  rw [heq] at hok ⊢
  rw [frameRefInc_outOfFrames] at hok
  -- the tables of the new space
  obtain ⟨m₂, G₂, x₂, h₂, hg, hx₂, hmap⟩ := h₁.map4k (at_pageAddr hi j)
    ((hG₁' _ (by simp [hq])).trans hroot) ((hG₁' _ (by simp [hq])).trans (hhands 1))
    x.shared.mode.flags_user hok
  have hentry' : (x.frame &&& pageAddrMask) ||| x.shared.mode.flags = x.shared.entry := by
    rw [hf]
    rfl
  rw [hmap, hentry']
  have hq₂ : G₂ q = some x.shared := (hg.same _ rfl).trans hq₁
  have hnew₂ : G₂ (node none (.page i j)) = none :=
    (hg.same _ rfl).trans ((hG₁' _ (by simp [hq])).trans hnew)
  have hpages : ∀ s i' j', node s (.page i' j') ≠ q →
      G₂ (node s (.page i' j')) = G (node s (.page i' j')) :=
    fun s i' j' hne => (hg.same _ rfl).trans (hG₁' _ hne)
  -- the new space does not map the frame yet
  have hfresh : ∀ n y, G₂ (node none n) = some y → y.frame ≠ x.frame := by
    intro n y hy he
    cases hpage : n.isPage with
    | false =>
      have hside := h₂.table_unique hy hpage hq₂ he.symm
      simp [hq] at hside
    | true =>
      cases n with
      | page i' j' =>
        rw [hpages none i' j' (by simp [hq])] at hy
        obtain ⟨z, hz, hzy⟩ := hfollows i' j' y hy
        by_cases hij : node (some p) (.page i' j') = q
        · simp only [hq, Holder.node.injEq, Node.page.injEq, true_and] at hij
          rw [hij.1, hij.2, hnew] at hy
          simp at hy
        · exact (h.separate.sep _ q z x hz hx (hzy.trans he) hij).2.2 rfl
      | pml4 => simp [Node.isPage] at hpage
      | pdpt => simp [Node.isPage] at hpage
      | pd => simp [Node.isPage] at hpage
      | pt i' => simp [Node.isPage] at hpage
  refine ⟨_, h₂.share hx₂ hnew₂ hq₂ x.readOnly_shared hfresh, ?_⟩
  set G₃ := Function.update G₂ (node none (.page i j)) (some x.shared) with hG₃
  have hG₃' : ∀ w, w ≠ node none (.page i j) → G₃ w = G₂ w := fun w hw =>
    Function.update_of_ne hw _ _
  have hdata : ∀ s i' j' y, G (node s (.page i' j')) = some y →
      (frameRefInc (m₂.writeEntry x₂.frame j x.shared.entry) x.frame).mem y.frame
        = m.mem y.frame := by
    intro s i' j' y hy
    obtain ⟨y₁, hy₁, hyf⟩ : ∃ y₁, G₁ (node s (.page i' j')) = some y₁ ∧ y₁.frame = y.frame := by
      by_cases hne : node s (.page i' j') = q
      · rw [hne, hq₁]
        rw [hne, hx, Option.some.injEq] at hy
        exact ⟨x.shared, rfl, show x.frame = y.frame by rw [hy]⟩
      · exact ⟨y, (hG₁' _ hne).trans hy, rfl⟩
    rw [frameRefInc_mem, ← hyf, h₂.writeEntry_data hx₂ rfl (hg.keep _ _ hy₁) (by simp),
      hg.data _ _ hy₁ rfl, hyf, hdata₁ _ y hy (by simp)]
  refine ⟨fun l => ?_, fun s => ?_, fun w y hw hy => ?_, fun i' j' y hy => ?_, fun i' j' hij => ?_,
    fun s i' j' hij => ?_⟩
  · rw [hG₃' _ (by simp), hg.same _ rfl, hG₁' _ (by simp [hq]), hhands l]
  · rw [hG₃' _ (by simp), hg.root, hG₁' _ (by simp [hq])]
  · have hne : w ≠ node none (.page i j) := by
      rintro rfl
      simp [isTable, Node.isPage] at hw
    have hneq : w ≠ q := by
      rintro rfl
      simp [hq, isTable, Node.isPage] at hw
    rw [hG₃' _ hne]
    exact hg.keep w y ((hG₁' _ hneq).trans hy)
  · have hother : ∀ i' j', (i', j') ≠ (i, j) → node (some p) (.page i' j') ≠ q := by
      intro i' j' hne he
      simp only [hq, Holder.node.injEq, Node.page.injEq, true_and] at he
      exact hne (Prod.ext he.1 he.2)
    by_cases hij : (i', j') = (i, j)
    · obtain ⟨rfl, rfl⟩ := Prod.mk.inj hij
      rw [hG₃, Function.update_self, Option.some.injEq] at hy
      exact ⟨x.shared, (hG₃' _ (by simp)).trans hq₂, congrArg Ref.frame hy⟩
    · rw [hG₃' _ (by simpa using hij), hpages none i' j' (by simp [hq])] at hy
      obtain ⟨z, hz, hzy⟩ := hfollows i' j' y hy
      exact ⟨z, by rw [hG₃' _ (by simp), hpages _ i' j' (hother i' j' hij), hz], hzy⟩
  · obtain ⟨rfl, rfl⟩ := hij
    rw [view_eq_some.mpr ⟨x, hx, rfl⟩]
    exact view_eq_some.mpr ⟨x.shared, Function.update_self _ _ _,
      hdata (some p) i' j' x hx⟩
  · have hne : node s (.page i' j') ≠ node none (.page i j) := by
      simpa using hij
    by_cases hsq : node s (.page i' j') = q
    · obtain ⟨rfl, rfl, rfl⟩ : s = some p ∧ i' = i ∧ j' = j := by simpa [hq] using hsq
      rw [view_eq_some.mpr ⟨x, hx, rfl⟩]
      exact view_eq_some.mpr ⟨x.shared, (hG₃' _ hne).trans hq₂, hdata _ i' j' x hx⟩
    · exact view_congr ((hG₃' _ hne).trans (hpages s i' j' hsq)) fun y hy => hdata s i' j' y hy

/-- One page of `paging_clone_user_pages`. -/
theorem Inv.cloneUserPage (h : Inv b m G) (hhands : ∀ l, G (hand l) = none)
    (hroot : G (node none .pml4) = some r) (ht : G (node (some p) (.pt i)) = some t)
    (hi : 64 ≤ i) (hnew : G (node none (.page i j)) = none) (hfollows : Follows G p)
    (hok : (cloneUserPage r.frame t.frame i m j).outOfFrames = false) :
    ∃ G', Inv b (cloneUserPage r.frame t.frame i m j) G' ∧
      Cloned m (cloneUserPage r.frame t.frame i m j) G G' p fun i' j' => i' = i ∧ j' = j := by
  cases hx : G (node (some p) (.page i j)) with
  | none =>
    rw [cloneUserPage_absent h ht hx]
    refine ⟨G, h, hhands, fun _ => rfl, fun _ _ _ hw => hw, hfollows, fun i' j' hij => ?_,
      fun _ _ _ _ => rfl⟩
    rw [hij.1, hij.2, view_eq_none.mpr hnew, view_eq_none.mpr hx]
  | some x => exact h.cloneUserPage_present hhands hroot ht hi hnew hfollows hx hok

theorem cloneUserPage_outOfFrames {m : PagingState} (h : m.outOfFrames = true) (dst pt : UInt64)
    (i j : Fin 512) : (VernisOS.cloneUserPage dst pt i m j).outOfFrames = true := by
  unfold VernisOS.cloneUserPage
  split
  · exact h
  · simp only [frameRefInc_outOfFrames]
    refine pagingMap4k_outOfFrames ?_ _ _ _ _
    split
    · exact h
    · exact h

theorem foldl_outOfFrames {ι : Type*} {f : PagingState → ι → PagingState}
    (hf : ∀ m k, m.outOfFrames = true → (f m k).outOfFrames = true) (l : List ι) :
    ∀ m, m.outOfFrames = true → (l.foldl f m).outOfFrames = true := by
  induction l with
  | nil => exact fun m hm => hm
  | cons k rest ih => exact fun m hm => ih _ (hf m k hm)

/-- A loop whose step `k` clones the pages in `D k`. What the steps need of the trees is
`T`. -/
theorem cloneLoop {ι : Type*} {f : PagingState → ι → PagingState}
    {D : ι → Fin 512 → Fin 512 → Prop} {T : Ghost → Prop} {l : List ι} (hl : l.Nodup)
    (hdisj : ∀ k k', k ≠ k' → ∀ i j, D k i j → ¬ D k' i j)
    (hout : ∀ m k, m.outOfFrames = true → (f m k).outOfFrames = true)
    (hT : ∀ m m' G G' D, Cloned m m' G G' p D → T G → T G')
    (hstep : ∀ m G, ∀ k ∈ l, Inv b m G → (∀ l, G (hand l) = none) → T G → Follows G p →
      (∀ i j, D k i j → G (node none (.page i j)) = none) → (f m k).outOfFrames = false →
      ∃ G', Inv b (f m k) G' ∧ Cloned m (f m k) G G' p (D k)) :
    ∀ {m : PagingState} {G : Ghost}, Inv b m G → (∀ l, G (hand l) = none) → T G → Follows G p →
      (∀ k ∈ l, ∀ i j, D k i j → G (node none (.page i j)) = none) →
      (l.foldl f m).outOfFrames = false →
      ∃ G', Inv b (l.foldl f m) G' ∧
        Cloned m (l.foldl f m) G G' p fun i j => ∃ k ∈ l, D k i j := by
  induction l with
  | nil =>
    intro m G h hhands _ hfollows _ _
    simpa using ⟨G, h, Cloned.refl (m := m) hhands hfollows⟩
  | cons k rest ih =>
    intro m G h hhands hTG hfollows hnew hok
    rw [List.nodup_cons] at hl
    rw [List.foldl_cons] at hok ⊢
    have hok₁ : (f m k).outOfFrames = false := by
      by_contra hbad
      rw [Bool.not_eq_false] at hbad
      rw [foldl_outOfFrames hout rest _ hbad] at hok
      exact Bool.noConfusion hok
    obtain ⟨G₁, h₁, hc₁⟩ := hstep m G k List.mem_cons_self h hhands hTG hfollows
      (hnew k List.mem_cons_self) hok₁
    have hnew₁ : ∀ k' ∈ rest, ∀ i j, D k' i j → G₁ (node none (.page i j)) = none := by
      intro k' hk' i j hD
      have hne : k ≠ k' := by
        rintro rfl
        exact hl.1 hk'
      have hview := hc₁.other none i j fun he => hdisj k k' hne i j he.2 hD
      rw [view_eq_none.mpr (hnew k' (List.mem_cons_of_mem k hk') i j hD)] at hview
      exact view_eq_none.mp hview
    obtain ⟨G₂, h₂, hc₂⟩ := ih hl.2
      (fun m G k' hk' => hstep m G k' (List.mem_cons_of_mem k hk')) h₁ hc₁.hands
      (hT _ _ _ _ _ hc₁ hTG) hc₁.follows hnew₁ hok
    have hD : (fun i j => ∃ k' ∈ k :: rest, D k' i j)
        = fun i j => D k i j ∨ ∃ k' ∈ rest, D k' i j := by
      funext i j
      simp
    rw [hD]
    exact ⟨G₂, h₂, hc₁.trans hc₂⟩

theorem cloneUserTable_outOfFrames {m : PagingState} (h : m.outOfFrames = true)
    (dst pd : UInt64) (i : Fin 512) : (cloneUserTable dst pd m i).outOfFrames = true := by
  unfold cloneUserTable
  split
  · exact foldl_outOfFrames (fun m j hm => cloneUserPage_outOfFrames hm _ _ i j) _ m h
  · exact h

/-- One table of `paging_clone_user_pages`. -/
theorem Inv.cloneUserTable (h : Inv b m G) (hhands : ∀ l, G (hand l) = none)
    (hroot : G (node none .pml4) = some r) {d : Ref} (hd : G (node (some p) .pd) = some d)
    (hi : 64 ≤ i) (hnew : ∀ j, G (node none (.page i j)) = none) (hfollows : Follows G p)
    (hok : (cloneUserTable r.frame d.frame m i).outOfFrames = false) :
    ∃ G', Inv b (cloneUserTable r.frame d.frame m i) G' ∧
      Cloned m (cloneUserTable r.frame d.frame m i) G G' p fun i' _ => i' = i := by
  have hentry := h.shape.entry (some p) (.pt i) .pd i d (if_pos hi) hd
  cases ht : G (node (some p) (.pt i)) with
  | none =>
    have heq : VernisOS.cloneUserTable r.frame d.frame m i = m := by
      unfold VernisOS.cloneUserTable
      rw [hentry, ht]
      exact if_neg not_hasTable_zero
    rw [heq]
    refine ⟨G, h, hhands, fun _ => rfl, fun _ _ _ hw => hw, hfollows, fun i' j hij => ?_,
      fun _ _ _ _ => rfl⟩
    rw [hij, view_eq_none.mpr (hnew j), view_eq_none.mpr (h.shape.orphan rfl ht)]
  | some t =>
    have heq : VernisOS.cloneUserTable r.frame d.frame m i
        = (List.finRange 512).foldl (VernisOS.cloneUserPage r.frame t.frame i) m := by
      unfold VernisOS.cloneUserTable
      rw [hentry, ht]
      exact (if_pos (Ref.hasTable (h.isFrame ht))).trans
        (by rw [entryOf, Ref.entry_and_mask (h.isFrame ht)])
    rw [heq] at hok ⊢
    obtain ⟨G', h', hc⟩ := cloneLoop (p := p) (D := fun j i' j' => i' = i ∧ j' = j)
      (T := fun G => G (node none .pml4) = some r ∧ G (node (some p) (.pt i)) = some t)
      (List.nodup_finRange 512) (fun j j' hne i' k hD hD' => hne (hD.2.symm.trans hD'.2))
      (fun m j hm => cloneUserPage_outOfFrames hm _ _ i j)
      (fun m m' G G' D hc hG => ⟨(hc.root none).trans hG.1, hc.tables _ t rfl hG.2⟩)
      (fun m G j _ h hhands hG hfollows hnew hok => h.cloneUserPage hhands hG.1 hG.2 hi
        (hnew i j ⟨rfl, rfl⟩) hfollows hok)
      h hhands ⟨hroot, ht⟩ hfollows (fun j _ i' j' hD => by rw [hD.1]; exact hnew j') hok
    have hD : (fun i' j' => ∃ j ∈ List.finRange 512, i' = i ∧ j' = j)
        = fun (i' : Fin 512) (_ : Fin 512) => i' = i := by
      funext i' j'
      simp
    rw [hD] at hc
    exact ⟨G', h', hc⟩

end Clone

/-- `paging_clone_user_pages` : the new space is a copy of the space `p`. -/
theorem Sim.clone {b m : PagingState} {S : Spaces} (h : Sim b m S) {f g : UInt64} {p : Fin 8}
    (hf : S.root none = some f) (hg : S.root (some p) = some g)
    (hempty : ∀ i j, S.page none i j = none)
    (hok : (pagingCloneUserPages m f g).outOfFrames = false) :
    Sim b (pagingCloneUserPages m f g) (S.setPages none (S.page (some p))) := by
  obtain ⟨G, hinv, hsees⟩ := h
  obtain ⟨r, hr, rfl⟩ : ∃ r, G (node none .pml4) = some r ∧ r.frame = f := by
    simpa [hf] using hsees.root none
  obtain ⟨r', hr', rfl⟩ : ∃ r, G (node (some p) .pml4) = some r ∧ r.frame = g := by
    simpa [hg] using hsees.root (some p)
  obtain ⟨x₃, d, hx₃, hd⟩ := hinv.upper hr'
  have hnew : ∀ i j, G (node none (.page i j)) = none := fun i j =>
    view_eq_none.mp ((hsees.page none i j).trans (hempty i j))
  have heq : pagingCloneUserPages m r.frame r'.frame
      = userPds.foldl (cloneUserTable r.frame d.frame) m := by
    unfold pagingCloneUserPages
    simp only [hinv.entry_eq (c := .pdpt) rfl hr' hx₃, Ref.entry_and_mask (hinv.isFrame hx₃),
      hinv.entry_eq (c := .pd) rfl hx₃ hd, Ref.entry_and_mask (hinv.isFrame hd)]
  rw [heq] at hok ⊢
  obtain ⟨G', h', hc⟩ := cloneLoop (p := p) (f := cloneUserTable r.frame d.frame)
    (D := fun i i' _ => i' = i)
    (T := fun G => G (node none .pml4) = some r ∧ G (node (some p) .pd) = some d)
    nodup_userPds (fun i i' hne k _ hD hD' => hne (hD.symm.trans hD'))
    (fun m i hm => cloneUserTable_outOfFrames hm _ _ i)
    (fun m m' G G' D hc hG => ⟨(hc.root none).trans hG.1, hc.tables _ d rfl hG.2⟩)
    (fun m G i hi h hhands hG hfollows hnew hok => h.cloneUserTable hhands hG.1 hG.2
      (mem_userPds.mp hi) (fun j => hnew i j rfl) hfollows hok)
    hinv hsees.hands ⟨hr, hd⟩ (fun i j x hx => absurd hx (by simp [hnew i j]))
    (fun i _ i' j _ => hnew i' j) hok
  refine ⟨G', h', hc.hands, fun s => ?_, fun s i j => ?_⟩
  · rw [hc.root s]
    exact hsees.root s
  · cases s with
    | some s =>
      rw [hc.other (some s) i j (by simp), hsees.page (some s) i j]
      simp [Spaces.setPages]
    | none =>
      have hpage : (S.setPages none (S.page (some p))).page none i j = S.page (some p) i j := by
        simp [Spaces.setPages]
      rw [hpage, ← hsees.page (some p) i j]
      by_cases hi : 64 ≤ i
      · exact hc.done i j ⟨i, mem_userPds.mpr hi, rfl⟩
      · have hnone : view m G (some p) i j = none := by
          rw [view_eq_none]
          cases hx : G (node (some p) (.page i j)) with
          | none => rfl
          | some x => exact absurd (hinv.table_of_page hx).1 hi
        rw [hnone, hc.other none i j, view_eq_none.mpr (hnew i j)]
        rintro ⟨_, i', hi', rfl⟩
        exact hi (mem_userPds.mp hi')

/-! ## Stores -/

section Fault

variable {b m : PagingState} {G : Ghost} {s : SpaceId} {va : UInt64} {i j : Fin 512} {r x : Ref}

/-- `paging_get_pte` finds the entry of a page that is there. -/
theorem Inv.getPte (h : Inv b m G) (hroot : G (node s .pml4) = some r) (hat : At va i j) {t : Ref}
    (ht : G (node s (.pt i)) = some t) : pagingGetPte m r.frame va = some (t.frame, j) := by
  obtain ⟨x₃, x₂, hx₃, hx₂⟩ := h.upper hroot
  have hpt : Node.parent (.pt i) = some (.pd, i) := if_pos hat.user
  have hps : ∀ {c : Node} {y : Ref}, G (node s c) = some y →
      ¬ (y.entry &&& pagePresent = 0 ∨ y.entry &&& pagePs ≠ 0) := fun hy =>
    Ref.hasTable (h.isFrame hy)
  unfold pagingGetPte
  simp only [hat.pml4, hat.pdpt, hat.pd, hat.pt, h.entry_eq (c := .pdpt) rfl hroot hx₃,
    Ref.entry_and_mask (h.isFrame hx₃), h.entry_eq (c := .pd) rfl hx₃ hx₂,
    Ref.entry_and_mask (h.isFrame hx₂), h.entry_eq hpt hx₂ ht, Ref.entry_and_mask (h.isFrame ht)]
  rw [if_neg (h.ne_zero hroot), if_neg (Ref.entry_present (h.isFrame hx₃)), if_neg (hps hx₂),
    if_neg (hps ht)]

/-- What a resolved fault leaves : the page is writable, and user code sees no change. -/
structure Resolved (m m' : PagingState) (G G' : Ghost) (s : SpaceId) (i j : Fin 512) : Prop where
  hands : ∀ l, G' (hand l) = none
  root : ∀ s', G' (node s' .pml4) = G (node s' .pml4)
  page : ∃ y, G' (node s (.page i j)) = some y ∧ y.readOnly = false
  view : ∀ s' i' j', view m' G' s' i' j' = view m G s' i' j'

/-- The sole owner gets its write permission back. -/
theorem Inv.cowSole (h : Inv b m G) (hhands : ∀ l, G (hand l) = none) {t : Ref}
    (ht : G (node s (.pt i)) = some t) (hx : G (node s (.page i j)) = some x)
    (hone : frameRefGet m x.frame = 1) :
    ∃ G', Inv b (m.writeEntry t.frame j (Ref.entry ⟨x.frame, .writable⟩)) G' ∧
      Resolved m (m.writeEntry t.frame j (Ref.entry ⟨x.frame, .writable⟩)) G G' s i j := by
  have hrefs : refs m x.frame ≤ 1 := by
    unfold refs
    rw [hone]
    exact le_refl 1
  have hsole : ∀ v y, G v = some y → y.frame = x.frame → v = node s (.page i j) := by
    intro v y hv he
    exact h.accounts.ledger.sole hrefs (he ▸ Ghost.frames_eq hv) (Ghost.frames_eq hx)
  set q := node s (.page i j) with hq
  have hG : ∀ w, w ≠ q → Function.update G q (some ⟨x.frame, .writable⟩) w = G w := fun w hw =>
    Function.update_of_ne hw _ _
  refine ⟨_, h.setMode ht hx fun _ => hsole, fun l => ?_, fun s' => ?_, ?_, fun s' i' j' => ?_⟩
  · rw [hG _ (by simp [hq]), hhands l]
  · rw [hG _ (by simp [hq])]
  · exact ⟨⟨x.frame, .writable⟩, Function.update_self _ _ _, rfl⟩
  · have hdata : ∀ y, G (node s' (.page i' j')) = some y →
        (m.writeEntry t.frame j (Ref.entry ⟨x.frame, .writable⟩)).mem y.frame = m.mem y.frame :=
      fun y hy => h.writeEntry_data ht rfl hy (by simp) _ _
    by_cases hsq : node s' (.page i' j') = q
    · rw [hsq] at hdata
      obtain ⟨rfl, rfl, rfl⟩ : s' = s ∧ i' = i ∧ j' = j := by simpa [hq] using hsq
      rw [view_eq_some.mpr ⟨x, hx, rfl⟩]
      exact view_eq_some.mpr ⟨⟨x.frame, .writable⟩, Function.update_self _ _ _, hdata x hx⟩
    · exact view_congr (hG _ hsq) hdata

/-- A shared page is copied, and its old frame loses a reference. -/
theorem Inv.cowCopy (h : Inv b m G) (hhands : ∀ l, G (hand l) = none) {t : Ref}
    (ht : G (node s (.pt i)) = some t) (hx : G (node s (.page i j)) = some x)
    (hok : (frameAlloc m).2.outOfFrames = false) :
    (frameAlloc m).1 ≠ 0 ∧ (frameAlloc m).2.mem x.frame = m.mem x.frame ∧
      (frameAlloc m).2.mem t.frame = m.mem t.frame ∧ t.frame ≠ (frameAlloc m).1 ∧
      IsFrame (frameAlloc m).1 ∧
    ∃ G', Inv b (frameFree (((frameAlloc m).2.writePage (frameAlloc m).1 (m.mem x.frame)).writeEntry
        t.frame j (Ref.entry ⟨(frameAlloc m).1, .writable⟩)) x.frame) G' ∧
      Resolved m (frameFree (((frameAlloc m).2.writePage (frameAlloc m).1
        (m.mem x.frame)).writeEntry t.frame j (Ref.entry ⟨(frameAlloc m).1, .writable⟩)) x.frame)
        G G' s i j := by
  obtain ⟨h₁, hnew, hmem₁⟩ := h.allocFill (hhands 0) hok (m.mem x.frame)
  have hmem₀ := (h.alloc (hhands 0) hok).2.2
  set f := (frameAlloc m).1 with hf
  set q := node s (.page i j) with hq
  set G₁ := Function.update G (hand 0) (some ⟨f, .writable⟩) with hG₁
  have hG₁' : ∀ w, w ≠ hand 0 → G₁ w = G w := fun w hw => Function.update_of_ne hw _ _
  have hh₁ : G₁ (hand 0) = some ⟨f, .writable⟩ := Function.update_self _ _ _
  have ht₁ : G₁ (node s (.pt i)) = some t := (hG₁' _ Holder.noConfusion).trans ht
  have hx₁ : G₁ q = some x := (hG₁' _ Holder.noConfusion).trans hx
  refine ⟨h₁.ne_zero hh₁, ?_, ?_, hnew _ t ht, h₁.isFrame hh₁, ?_⟩
  · rw [hmem₀, Function.update_of_ne (hnew _ x hx)]
  · rw [hmem₀, Function.update_of_ne (hnew _ t ht)]
  have h₂ := h₁.linkHand (c := .page i j) rfl ht₁ hh₁ rfl (Or.inl rfl)
  have hx₂ : (G₁ ∘ Equiv.swap (hand 0) q) (hand 0) = some x := by
    rw [Function.comp_apply, Equiv.swap_apply_left, hx₁]
  have h₃ := h₂.freeHand hx₂
  set G₃ := Function.update (G₁ ∘ Equiv.swap (hand 0) q) (hand 0) none with hG₃
  have hq₃ : G₃ q = some ⟨f, .writable⟩ := by
    rw [hG₃, Function.update_of_ne Holder.noConfusion, Function.comp_apply,
      Equiv.swap_apply_right, hh₁]
  have hG₃' : ∀ w, w ≠ hand 0 → w ≠ q → G₃ w = G w := by
    intro w hw hwq
    rw [hG₃, Function.update_of_ne hw, Function.comp_apply, Equiv.swap_apply_of_ne_of_ne hw hwq,
      hG₁' w hw]
  have hdata : ∀ g, g ≠ t.frame → (frameFree (((frameAlloc m).2.writePage f
      (m.mem x.frame)).writeEntry t.frame j (Ref.entry ⟨f, .writable⟩)) x.frame).mem g
      = Function.update m.mem f (m.mem x.frame) g := by
    intro g hg
    rw [frameFree_mem, ← hmem₁]
    exact Function.update_of_ne hg _ _
  refine ⟨G₃, h₃, fun l => ?_, fun s' => ?_, ⟨_, hq₃, rfl⟩, fun s' i' j' => ?_⟩
  · by_cases hl : l = 0
    · rw [hl, hG₃, Function.update_self]
    · rw [hG₃' _ (by simpa using hl) Holder.noConfusion, hhands l]
  · rw [hG₃' _ Holder.noConfusion (by simp [hq])]
  · by_cases hsq : node s' (.page i' j') = q
    · obtain ⟨rfl, rfl, rfl⟩ : s' = s ∧ i' = i ∧ j' = j := by simpa [hq] using hsq
      rw [view_eq_some.mpr ⟨x, hx, rfl⟩]
      refine view_eq_some.mpr ⟨_, hq₃, ?_⟩
      rw [hdata f (hnew _ t ht).symm, Function.update_self]
    · refine view_congr (hG₃' _ Holder.noConfusion hsq) fun y hy => ?_
      have hyt : y.frame ≠ t.frame := by
        intro he
        have hside := h.table_unique ht rfl hy he
        simp at hside
      rw [hdata y.frame hyt, Function.update_of_ne (hnew _ y hy)]

/-- `paging_handle_cow_fault` at a copy-on-write page. -/
theorem Inv.cowFault (h : Inv b m G) (hhands : ∀ l, G (hand l) = none)
    (hroot : G (node s .pml4) = some r) (hat : At va i j)
    (hx : G (node s (.page i j)) = some x) (hcow : x.mode = .cow)
    (hok : (pagingHandleCowFault m r.frame va).2.outOfFrames = false) :
    (pagingHandleCowFault m r.frame va).1 = true ∧
      ∃ G', Inv b (pagingHandleCowFault m r.frame va).2 G' ∧
        Resolved m (pagingHandleCowFault m r.frame va).2 G G' s i j := by
  obtain ⟨_, t, _, ht, _⟩ := h.table_of_page hx
  have hf := h.isFrame hx
  have hpte := h.getPte hroot hat ht
  have hentry : m.mem t.frame j = x.frame ||| 0x205 := by
    rw [h.entry_eq (c := .page i j) rfl ht hx, Ref.entry, hcow]
    rfl
  have hcowbit : ¬ ((x.frame ||| 0x205) &&& pagePresent = 0 ∨
      (x.frame ||| 0x205) &&& pageCow = 0) := by
    rw [hf.or_and_flags _ _ (by decide), hf.or_and_flags _ _ (by decide)]
    decide
  have hmask : (x.frame ||| 0x205) &&& pageAddrMask = x.frame :=
    hf.or_and_mask (by decide) (by decide)
  unfold pagingHandleCowFault at hok ⊢
  simp only [if_neg (h.ne_zero hroot), hpte, hentry, if_neg hcowbit, hmask] at hok ⊢
  by_cases hone : frameRefGet m x.frame = 1
  · have hnew : (x.frame ||| 0x205 ||| pageWritable) &&& ~~~pageCow
        = Ref.entry ⟨x.frame, .writable⟩ := by
      rw [UInt64.or_assoc, hf.or_and_clear _ (by decide)]
      rfl
    rw [if_pos hone, hnew]
    exact ⟨rfl, h.cowSole hhands ht hx hone⟩
  · rw [if_neg hone] at hok ⊢
    have hok' : (frameAlloc m).2.outOfFrames = false := by
      split at hok
      · exact hok
      · simpa [PagingState.writeEntry, PagingState.writePage] using hok
    obtain ⟨hne, hold, htab, htne, _, hcopy⟩ := h.cowCopy hhands ht hx hok'
    have hpte' : ((frameAlloc m).2.writePage (frameAlloc m).1 (m.mem x.frame)).mem t.frame j
        = x.frame ||| 0x205 := by
      rw [← hentry, ← htab]
      exact congrFun (Function.update_of_ne htne _ _) j
    have hnew : (frameAlloc m).1 ||| (((x.frame ||| 0x205) &&& 0xFFF ||| pageWritable)
        &&& ~~~pageCow) = Ref.entry ⟨(frameAlloc m).1, .writable⟩ := by
      rw [hf.or_and_flags _ _ (by decide)]
      rfl
    rw [if_neg hne]
    simp only [hold, hpte', hnew]
    exact ⟨trivial, hcopy⟩

/-- The entry of a page that is not mapped copy-on-write says so. -/
theorem Inv.cowPage_eq_false (h : Inv b m G) (hroot : G (node s .pml4) = some r)
    (hat : At va i j) (hx : ∀ x, G (node s (.page i j)) = some x → x.mode ≠ .cow) :
    cowPage m r.frame va = false := by
  obtain ⟨x₃, x₂, hx₃, hx₂⟩ := h.upper hroot
  have hps : ∀ {c : Node} {y : Ref}, G (node s c) = some y →
      ¬ (y.entry &&& pagePresent = 0 ∨ y.entry &&& pagePs ≠ 0) := fun hy =>
    Ref.hasTable (h.isFrame hy)
  unfold cowPage
  cases ht : G (node s (.pt i)) with
  | none =>
    have hentry : m.mem x₂.frame i = 0 := by
      rw [h.shape.entry s (.pt i) .pd i x₂ (if_pos hat.user) hx₂, ht]
      rfl
    have hpte : pagingGetPte m r.frame va = none := by
      unfold pagingGetPte
      simp only [hat.pml4, hat.pdpt, hat.pd, hat.pt, h.entry_eq (c := .pdpt) rfl hroot hx₃,
        Ref.entry_and_mask (h.isFrame hx₃), h.entry_eq (c := .pd) rfl hx₃ hx₂,
        Ref.entry_and_mask (h.isFrame hx₂), hentry]
      rw [if_neg (h.ne_zero hroot), if_neg (Ref.entry_present (h.isFrame hx₃)), if_neg (hps hx₂)]
      rfl
    rw [hpte]
  | some t =>
    have hentry := h.shape.entry s (.page i j) (.pt i) j t rfl ht
    rw [h.getPte hroot hat ht]
    simp only [hentry]
    cases hy : G (node s (.page i j)) with
    | none => rfl
    | some y =>
      have hbit := Ref.entry_and_flags (h.isFrame hy) (show pageAddrMask &&& pageCow = 0 by decide)
      have hzero : y.entry &&& pageCow = 0 := by
        rw [hbit]
        cases hm : y.mode with
        | writable => rfl
        | cow => exact absurd hm (hx y hy)
        | fixed => rfl
      simp [entryOf, hzero]

/-- Where there is no copy-on-write page, the fault is left alone. -/
theorem pagingHandleCowFault_of_cowPage (hpml4 : r.frame ≠ 0) (hno : cowPage m r.frame va = false) :
    pagingHandleCowFault m r.frame va = (false, m) := by
  unfold cowPage at hno
  unfold pagingHandleCowFault
  rw [if_neg hpml4]
  cases hpte : pagingGetPte m r.frame va with
  | none => rfl
  | some e =>
    obtain ⟨pt, j⟩ := e
    simp only [hpte] at hno
    refine if_pos ?_
    by_contra hbits
    rw [not_or] at hbits
    simp [hbits.1, hbits.2] at hno

end Fault

section Store

variable {b m : PagingState} {S : Spaces} {s : SpaceId} {f va : UInt64}

theorem Sim.exists_root (h : Sim b m S) (hroot : S.root s = some f) :
    ∃ G r, Inv b m G ∧ Sees m G S ∧ G (node s .pml4) = some r ∧ r.frame = f := by
  obtain ⟨G, hinv, hsees⟩ := h
  obtain ⟨r, hr, hf⟩ : ∃ r, G (node s .pml4) = some r ∧ r.frame = f := by
    simpa [hroot] using hsees.root s
  exact ⟨G, r, hinv, hsees, hr, hf⟩

/-- What user code reads. -/
theorem Sim.read (h : Sim b m S) (hroot : S.root s = some f) (va : UInt64) :
    (mmuTranslate m f va false).map m.mem =
      if InUser va then S.page s (levelIndex va 21) (levelIndex va 12) else none := by
  obtain ⟨G, r, hinv, hsees, hr, rfl⟩ := h.exists_root hroot
  by_cases hva : InUser va
  · rw [if_pos hva, hinv.mmuTranslate_user hr hva hva.at, ← hsees.page]
    unfold view
    cases G (node s (.page (levelIndex va 21) (levelIndex va 12))) <;> simp
  · rw [if_neg hva, hinv.mmuTranslate_outside hr hva]
    rfl

theorem Sim.translate_outside (h : Sim b m S) (hroot : S.root s = some f) (hva : ¬ InUser va)
    {write : Bool} : mmuTranslate m f va write = none := by
  obtain ⟨G, r, hinv, _, hr, rfl⟩ := h.exists_root hroot
  exact hinv.mmuTranslate_outside hr hva write

/-- A store that the processor lets through changes one page of one space. -/
theorem Sim.store (h : Sim b m S) (hroot : S.root s = some f) (hva : InUser va) {g : UInt64}
    (htr : mmuTranslate m f va true = some g) :
    S.page s (levelIndex va 21) (levelIndex va 12) = some (m.mem g) ∧
      ∀ p, Sim b (m.writePage g p) (S.setPage s (levelIndex va 21) (levelIndex va 12) p) := by
  obtain ⟨G, r, hinv, hsees, hr, rfl⟩ := h.exists_root hroot
  rw [hinv.mmuTranslate_user hr hva hva.at, Option.bind_eq_some_iff] at htr
  obtain ⟨x, hx, htr⟩ := htr
  obtain ⟨hcow, rfl⟩ : x.readOnly = false ∧ x.frame = g := by
    cases hc : x.readOnly <;> simp_all
  refine ⟨(hsees.page s _ _).symm.trans (view_eq_some.mpr ⟨x, hx, rfl⟩), fun p => ?_⟩
  refine ⟨G, hinv.writeData hx hcow rfl (fun _ => Holder.noConfusion) p, hsees.hands, hsees.root,
    fun s' i' j' => ?_⟩
  unfold Spaces.setPage
  by_cases he : (s', i', j') = (s, levelIndex va 21, levelIndex va 12)
  · simp only [if_pos he]
    obtain ⟨rfl, rfl, rfl⟩ : s' = s ∧ i' = levelIndex va 21 ∧ j' = levelIndex va 12 := by
      simpa using he
    exact view_eq_some.mpr ⟨x, hx, Function.update_self _ _ _⟩
  · simp only [if_neg he]
    rw [← hsees.page s' i' j']
    refine view_congr rfl fun y hy => Function.update_of_ne (fun hf => he ?_) _ _
    simpa using hinv.separate.exclusive hx hcow hy hf

/-- A copy-on-write fault is resolved : user code sees no change, and the store goes
through. -/
theorem Sim.cowFault (h : Sim b m S) (hroot : S.root s = some f) (hva : InUser va)
    (hcow : cowPage m f va = true)
    (hok : (pagingHandleCowFault m f va).2.outOfFrames = false) :
    (pagingHandleCowFault m f va).1 = true ∧ Sim b (pagingHandleCowFault m f va).2 S ∧
      ∃ g, mmuTranslate (pagingHandleCowFault m f va).2 f va true = some g := by
  obtain ⟨G, r, hinv, hsees, hr, rfl⟩ := h.exists_root hroot
  obtain ⟨x, hx, hmode⟩ : ∃ x, G (node s (.page (levelIndex va 21) (levelIndex va 12))) = some x ∧
      x.mode = .cow := by
    by_contra hx
    rw [hinv.cowPage_eq_false hr hva.at fun x hx' hm => hx ⟨x, hx', hm⟩] at hcow
    exact Bool.noConfusion hcow
  obtain ⟨hdone, G', hinv', hres⟩ := hinv.cowFault hsees.hands hr hva.at hx hmode hok
  refine ⟨hdone, ⟨G', hinv', hres.hands, fun s' => ?_, fun s' i j => ?_⟩, ?_⟩
  · rw [hres.root s', hsees.root s']
  · exact (hres.view s' i j).trans (hsees.page s' i j)
  · obtain ⟨y, hy, hyc⟩ := hres.page
    refine ⟨y.frame, ?_⟩
    rw [hinv'.mmuTranslate_user ((hres.root s).trans hr) hva hva.at, hy]
    simp [hyc]

/-- Elsewhere nothing happens. -/
theorem Sim.cowFault_refused (h : Sim b m S) (hroot : S.root s = some f)
    (hcow : cowPage m f va = false) : pagingHandleCowFault m f va = (false, m) := by
  obtain ⟨G, r, hinv, _, hr, rfl⟩ := h.exists_root hroot
  exact pagingHandleCowFault_of_cowPage (hinv.ne_zero hr) hcow

end Store

end VernisOS
