import VernisOS.PagingSpaces
import VernisOS.Process

/-!
# What user code sees

The address spaces as partial maps from pages to their contents. `Sim b m S` says that the
page tables, the allocator and the memory of `m` make up the spaces `S`, and each paging
function of the kernel has one lemma about `S` alone. The space `none` is the one that a
system call builds or takes down.
-/

namespace VernisOS

open Holder

/-- The root and the pages of every address space. -/
structure Spaces where
  root : SpaceId → Option UInt64
  page : SpaceId → Fin 512 → Fin 512 → Option Page

namespace Spaces

/-- The page `(i, j)` of a space becomes `p`. -/
def setPage (S : Spaces) (s : SpaceId) (i j : Fin 512) (p : Page) : Spaces :=
  { S with page := fun s' i' j' => if (s', i', j') = (s, i, j) then some p else S.page s' i' j' }

/-- Pages are loaded into a space. -/
def load (S : Spaces) (s : SpaceId) (pages : List (UInt64 × (Page → Page))) : Spaces :=
  pages.foldl (fun S q => S.setPage s (levelIndex q.1 21) (levelIndex q.1 12) (q.2 fun _ => 0)) S

/-- A space gets a root. -/
def setRoot (S : Spaces) (s : SpaceId) (f : UInt64) : Spaces :=
  { S with root := Function.update S.root s (some f) }

/-- The pages of a space are replaced. -/
def setPages (S : Spaces) (s : SpaceId) (p : Fin 512 → Fin 512 → Option Page) : Spaces :=
  { S with page := Function.update S.page s p }

/-- A space is taken down. -/
def clear (S : Spaces) (s : SpaceId) : Spaces :=
  { root := Function.update S.root s none, page := Function.update S.page s fun _ _ => none }

/-- Two spaces change places. -/
def swap (S : Spaces) (s s' : SpaceId) : Spaces :=
  { root := S.root ∘ Equiv.swap s s', page := S.page ∘ Equiv.swap s s' }

@[simp] theorem load_root (s : SpaceId) (pages : List (UInt64 × (Page → Page))) :
    ∀ S : Spaces, (S.load s pages).root = S.root := by
  induction pages with
  | nil => exact fun S => rfl
  | cons q rest ih => exact fun S => ih (S.setPage s _ _ _)

/-- A page that is there stays there. -/
theorem load_keeps {s : SpaceId} (pages : List (UInt64 × (Page → Page))) {i j : Fin 512} :
    ∀ {S : Spaces}, S.page s i j ≠ none → (S.load s pages).page s i j ≠ none := by
  induction pages with
  | nil => exact fun h => h
  | cons q rest ih =>
    intro S h
    refine ih (S := S.setPage s _ _ _) ?_
    unfold setPage
    simp only
    split
    · simp
    · exact h


end Spaces

/-- The contents of a page, as the tree of its space says. -/
def view (m : PagingState) (G : Ghost) (s : SpaceId) (i j : Fin 512) : Option Page :=
  (G (node s (.page i j))).map fun x => m.mem x.frame

/-- The trees are the spaces `S`, and no function holds a frame. -/
structure Sees (m : PagingState) (G : Ghost) (S : Spaces) : Prop where
  hands : ∀ l, G (hand l) = none
  root : ∀ s, (G (node s .pml4)).map Ref.frame = S.root s
  page : ∀ s i j, view m G s i j = S.page s i j

/-- The state of paging makes up the spaces `S`. -/
def Sim (b m : PagingState) (S : Spaces) : Prop :=
  ∃ G, Inv b m G ∧ Sees m G S

theorem view_eq_some {m : PagingState} {G : Ghost} {s : SpaceId} {i j : Fin 512} {p : Page} :
    view m G s i j = some p ↔ ∃ x, G (node s (.page i j)) = some x ∧ m.mem x.frame = p := by
  simp [view]

theorem view_eq_none {m : PagingState} {G : Ghost} {s : SpaceId} {i j : Fin 512} :
    view m G s i j = none ↔ G (node s (.page i j)) = none := by
  simp [view]

/-- What keeps a page and its contents keeps the view of it. -/
theorem view_congr {m m' : PagingState} {G G' : Ghost} {s : SpaceId} {i j : Fin 512}
    (hG : G' (node s (.page i j)) = G (node s (.page i j)))
    (hmem : ∀ x, G (node s (.page i j)) = some x → m'.mem x.frame = m.mem x.frame) :
    view m' G' s i j = view m G s i j := by
  unfold view
  rw [hG]
  cases hx : G (node s (.page i j)) with
  | none => rfl
  | some x => simp [hmem x hx]

namespace Inv

variable {b m m' : PagingState} {G G' : Ghost} {s : SpaceId}

/-- Without a root there is no tree. -/
theorem empty_of_root (h : Inv b m G) (hroot : G (node s .pml4) = none) (n : Node) :
    G (node s n) = none := by
  have hpdpt : G (node s .pdpt) = none := h.shape.orphan rfl hroot
  have hpd : G (node s .pd) = none := h.shape.orphan rfl hpdpt
  have hpt : ∀ i, G (node s (.pt i)) = none := by
    intro i
    by_cases hi : 64 ≤ i
    · exact h.shape.orphan (k := i) (if_pos hi) hpd
    · cases hx : G (node s (.pt i)) with
      | none => rfl
      | some x =>
        obtain ⟨n, k, _, hp, _⟩ := h.shape.rooted s (.pt i) x hx (by simp)
        simp [Node.parent, if_neg hi] at hp
  cases n with
  | pml4 => exact hroot
  | pdpt => exact hpdpt
  | pd => exact hpd
  | pt i => exact hpt i
  | page i j => exact h.shape.orphan rfl (hpt i)

/-- A page stands in a user table. -/
theorem table_of_page (h : Inv b m G) {i j : Fin 512} {x : Ref}
    (hx : G (node s (.page i j)) = some x) :
    64 ≤ i ∧ ∃ t d, G (node s (.pt i)) = some t ∧ G (node s .pd) = some d := by
  obtain ⟨n, k, t, hp, ht⟩ := h.shape.rooted s (.page i j) x hx (by simp)
  simp only [Node.parent, Option.some.injEq, Prod.mk.injEq] at hp
  rw [← hp.1] at ht
  obtain ⟨n', k', d, hp', hd⟩ := h.shape.rooted s (.pt i) t ht (by simp)
  by_cases hi : 64 ≤ i
  · simp only [Node.parent, if_pos hi, Option.some.injEq, Prod.mk.injEq] at hp'
    exact ⟨hi, t, d, ht, hp'.1 ▸ hd⟩
  · simp [Node.parent, if_neg hi] at hp'

end Inv

/-! ## Building a space -/

section Build

variable {b m : PagingState} {S : Spaces} {f : UInt64}

/-- `paging_create_address_space`. -/
theorem Sim.newSpace (h : Sim b m S) (hb : KernelTables b) (hnone : S.root none = none)
    (hok : (pagingCreateAddressSpace m b.kernelPml4).2.outOfFrames = false) :
    (pagingCreateAddressSpace m b.kernelPml4).1 ≠ 0 ∧
      (pagingCreateAddressSpace m b.kernelPml4).1 ≠ b.kernelPml4 ∧
      Sim b (pagingCreateAddressSpace m b.kernelPml4).2
        (S.setRoot none (pagingCreateAddressSpace m b.kernelPml4).1) := by
  obtain ⟨G, hinv, hsees⟩ := h
  have hroot : G (node none .pml4) = none := by
    simpa [hnone] using hsees.root none
  obtain ⟨G', x, hinv', hres, hspace⟩ :=
    hinv.newSpace hb (hinv.empty_of_root hroot) hsees.hands hok
  rw [hres]
  refine ⟨hinv'.ne_zero hspace.root, fun he => ?_, G', hinv', hspace.hands, fun s => ?_,
    fun s i j => ?_⟩
  · obtain ⟨_, k, r, hr, hf⟩ := hinv'.kernel_frame hb.pml4_known
    have hside := hinv'.separate.exclusive hr (hinv'.separate.writable_of_boot hr) hspace.root
      (he.trans hf.symm)
    simp at hside
  · cases s with
    | none => simp [Spaces.setRoot, hspace.root]
    | some s => simp [Spaces.setRoot, hspace.same, hsees.root]
  · rw [Spaces.setRoot, ← hsees.page s i j]
    cases s with
    | none =>
      rw [view_eq_none.mpr (hspace.empty i j),
        view_eq_none.mpr (hinv.empty_of_root hroot (.page i j))]
    | some s =>
      exact view_congr (hspace.same s _) fun x hx => hspace.data _ x hx fun l => Holder.noConfusion

theorem userFlags_eq : userFlags = Mode.writable.flags := rfl

/-- What `loadPage` does before it writes the entry of the page : the frame `f₀` is in a hand,
and the table of the page is there. -/
structure Prepared (m m' : PagingState) (G G' : Ghost) (f₀ : UInt64) (p : Page) : Prop where
  hand : G' (hand 0) = some ⟨f₀, .writable⟩
  filled : m'.mem f₀ = p
  root : ∀ s, G' (node s .pml4) = G (node s .pml4)
  same : ∀ w, w ≠ Holder.hand 0 → w.isTable = false → G' w = G w
  data : ∀ w x, G w = some x → w.isTable = false → m'.mem x.frame = m.mem x.frame

theorem Inv.loadPage {G : Ghost} {s : SpaceId} {r : Ref} (h : Inv b m G)
    (hhands : ∀ l, G (hand l) = none) (hr : G (node s .pml4) = some r) {va : UInt64}
    {i j : Fin 512} (hat : At va i j) {fill : Page → Page} (mode : Mode)
    (hok : (loadPage r.frame va mode.flags fill m).2.outOfFrames = false) :
    ∃ m' G' f₀ x, Inv b m' G' ∧ Prepared m m' G G' f₀ (fill fun _ => 0) ∧
      G' (node s (.pt i)) = some x ∧ loadPage r.frame va mode.flags fill m =
        (true, m'.writeEntry x.frame j (Ref.entry ⟨f₀, mode⟩)) := by
  have hok' : (frameAlloc m).2.outOfFrames = false := by
    by_contra hout
    rw [Bool.not_eq_false] at hout
    unfold VernisOS.loadPage at hok
    simp only at hok
    split at hok
    · exact Bool.noConfusion (hout.symm.trans hok)
    · rw [pagingMap4k_outOfFrames (m := (frameAlloc m).2.writePage _ _) hout] at hok
      exact Bool.noConfusion hok
  -- the frame is allocated and filled
  obtain ⟨h₁, hnew, hmem₁⟩ := h.allocFill (hhands 0) hok' (fill fun _ => 0)
  have hzero : (frameAlloc m).2.mem (frameAlloc m).1 = fun _ => 0 := by
    rw [(h.alloc (hhands 0) hok').2.2, Function.update_self]
  set f₀ := (frameAlloc m).1 with hf₀
  set G₁ := Function.update G (hand 0) (some ⟨f₀, .writable⟩) with hG₁
  have hG₁' : ∀ w, w ≠ hand 0 → G₁ w = G w := fun w hw => Function.update_of_ne hw _ _
  have hx₀ : G₁ (hand 0) = some ⟨f₀, .writable⟩ := Function.update_self _ _ _
  have heq : VernisOS.loadPage r.frame va mode.flags fill m
      = (true, pagingMap4k ((frameAlloc m).2.writePage f₀ (fill fun _ => 0)) r.frame va f₀
          mode.flags) := by
    unfold VernisOS.loadPage
    simp only
    rw [if_neg (h₁.ne_zero hx₀), hzero]
  rw [heq] at hok ⊢
  -- then its table is found or made
  obtain ⟨m', G', x, h', hg, hx, hmap⟩ := h₁.map4k (G := G₁) hat
    ((hG₁' _ Holder.noConfusion).trans hr) ((hG₁' _ (by simp)).trans (hhands 1))
    mode.flags_user hok
  have hentry : (f₀ &&& pageAddrMask) ||| mode.flags = Ref.entry ⟨f₀, mode⟩ := by
    rw [h₁.isFrame hx₀]
    rfl
  refine ⟨m', G', f₀, x, h', ⟨(hg.same _ rfl).trans hx₀, ?_, fun s' => ?_, fun w hw ht => ?_,
    fun w y hy ht => ?_⟩, hx, ?_⟩
  · rw [hg.data _ _ hx₀ rfl, hmem₁, Function.update_self]
  · rw [hg.root, hG₁' _ Holder.noConfusion]
  · rw [hg.same w ht, hG₁' w hw]
  · have hw : w ≠ hand 0 := by
      rintro rfl
      rw [hhands 0] at hy
      exact absurd hy (by simp)
    rw [hg.data w y ((hG₁' w hw).trans hy) ht, hmem₁, Function.update_of_ne (hnew w y hy)]
  · rw [hmap, hentry]

/-- A page that is new to a space is loaded. -/
theorem Sim.loadPage (h : Sim b m S) {s : SpaceId} (hroot : S.root s = some f) {va : UInt64}
    {i j : Fin 512} (hat : At va i j) (hfree : S.page s i j = none) {fill : Page → Page}
    (mode : Mode) (hok : (loadPage f va mode.flags fill m).2.outOfFrames = false) :
    (loadPage f va mode.flags fill m).1 = true ∧
      Sim b (loadPage f va mode.flags fill m).2 (S.setPage s i j (fill fun _ => 0)) := by
  obtain ⟨G, hinv, hsees⟩ := h
  obtain ⟨r, hr, rfl⟩ : ∃ r, G (node s .pml4) = some r ∧ r.frame = f := by
    simpa [hroot] using hsees.root s
  have hpage : G (node s (.page i j)) = none := view_eq_none.mp ((hsees.page s i j).trans hfree)
  obtain ⟨m', G', f₀, x, h', hprep, hx, heq⟩ := hinv.loadPage hsees.hands hr hat mode hok
  rw [heq]
  have hpage' : G' (node s (.page i j)) = none :=
    (hprep.same _ Holder.noConfusion rfl).trans hpage
  obtain ⟨G₂, h₂, hself, hhand, hother⟩ := h'.linkNew mode hx hprep.hand hpage'
  have hmem : ∀ g, g ≠ x.frame → (m'.writeEntry x.frame j (Ref.entry ⟨f₀, mode⟩)).mem g = m'.mem g :=
    fun g hg => Function.update_of_ne hg _ _
  refine ⟨rfl, _, h₂, fun l => ?_, fun s' => ?_, fun s' i' j' => ?_⟩
  · by_cases hl : l = 0
    · rw [hl, hhand]
    · rw [hother _ (by simpa using hl) Holder.noConfusion, hprep.same _ (by simpa using hl) rfl,
        hsees.hands l]
  · rw [hother _ Holder.noConfusion (by simp), hprep.root, hsees.root s']
    rfl
  · unfold Spaces.setPage
    by_cases he : (s', i', j') = (s, i, j)
    · simp only [if_pos he]
      obtain ⟨rfl, rfl, rfl⟩ : s' = s ∧ i' = i ∧ j' = j := by simpa using he
      refine view_eq_some.mpr ⟨⟨f₀, mode⟩, hself, ?_⟩
      rw [hmem, hprep.filled]
      intro hfr
      exact Holder.noConfusion (h'.table_unique hx rfl hprep.hand hfr)
    · simp only [if_neg he]
      rw [← hsees.page s' i' j']
      have hne : node s' (.page i' j') ≠ node s (.page i j) := by
        simpa using he
      have hsame := hprep.same (node s' (.page i' j')) Holder.noConfusion rfl
      refine view_congr ?_ fun y hy => ?_
      · rw [hother _ Holder.noConfusion hne, hsame]
      · rw [hmem, hprep.data _ y hy rfl]
        intro hfr
        have hside := h'.table_unique hx rfl (hsame.trans hy) hfr
        simp at hside

/-- A page that is there is loaded over : its frame stays counted, and no page has it. -/
theorem Sim.loadPage_again (h : Sim b m S) {s : SpaceId} (hroot : S.root s = some f) {va : UInt64}
    {i j : Fin 512} (hat : At va i j) (hthere : S.page s i j ≠ none) {fill : Page → Page}
    (hok : (VernisOS.loadPage f va userFlags fill m).2.outOfFrames = false) :
    (VernisOS.loadPage f va userFlags fill m).1 = true ∧
      ∃ G x, Inv b (VernisOS.loadPage f va userFlags fill m).2 G ∧ G (hand 0) = some x ∧
        ∀ s, (G (node s .pml4)).map Ref.frame = S.root s := by
  obtain ⟨G, hinv, hsees⟩ := h
  obtain ⟨r, hr, rfl⟩ : ∃ r, G (node s .pml4) = some r ∧ r.frame = f := by
    simpa [hroot] using hsees.root s
  obtain ⟨y, hy⟩ : ∃ y, G (node s (.page i j)) = some y := by
    refine Option.ne_none_iff_exists'.mp fun hnone => hthere ?_
    rw [← hsees.page s i j, view_eq_none.mpr hnone]
  obtain ⟨m', G', f₀, x, h', hprep, hx, heq⟩ := hinv.loadPage hsees.hands hr hat .writable hok
  rw [userFlags_eq, heq]
  refine ⟨rfl, _, y, h'.linkHand (c := .page i j) rfl hx hprep.hand rfl (Or.inl rfl), ?_,
    fun s' => ?_⟩
  · rw [Function.comp_apply, Equiv.swap_apply_left, hprep.same _ Holder.noConfusion rfl, hy]
  · rw [Function.comp_apply, Equiv.swap_apply_of_ne_of_ne Holder.noConfusion (by simp),
      hprep.root, hsees.root s']

theorem loadPage_outOfFrames {m : PagingState} (h : m.outOfFrames = true)
    (pml4 va flags : UInt64) (fill : Page → Page) :
    (loadPage pml4 va flags fill m).2.outOfFrames = true := by
  have halloc := frameAlloc_outOfFrames m h
  unfold VernisOS.loadPage
  simp only
  split
  · exact halloc
  · refine pagingMap4k_outOfFrames (m := (frameAlloc m).2.writePage _ _) ?_ _ _ _ _
    exact halloc

theorem loadPages_outOfFrames (pml4 : UInt64) (pages : List (UInt64 × (Page → Page))) :
    ∀ {m : PagingState}, m.outOfFrames = true → (loadPages pml4 pages m).2.outOfFrames = true := by
  induction pages with
  | nil => exact fun h => h
  | cons q rest ih =>
    intro m h
    have hq := loadPage_outOfFrames h pml4 q.1 userFlags q.2
    unfold loadPages
    simp only
    split
    · exact ih hq
    · exact hq

/-- What has been loaded is there. -/
theorem Spaces.load_ne_none {s : SpaceId} {pages : List (UInt64 × (Page → Page))} {va : UInt64} :
    ∀ {S : Spaces}, pageNumber va ∈ (pages.map fun p => pageNumber p.1) →
      (S.load s pages).page s (levelIndex va 21) (levelIndex va 12) ≠ none := by
  induction pages with
  | nil => simp
  | cons q rest ih =>
    intro S hmem
    rw [List.map_cons, List.mem_cons] at hmem
    rcases hmem with heq | hmem
    · refine Spaces.load_keeps rest (S := S.setPage s _ _ _) ?_
      obtain ⟨h21, h12⟩ := levelIndex_of_pageNumber heq
      simp [setPage, h21, h12]
    · exact ih (S := S.setPage s _ _ _) hmem

/-- A page loop, over pages that are new to the space and differ. -/
theorem Sim.loadPages {s : SpaceId} (pages : List (UInt64 × (Page → Page))) :
    ∀ {m : PagingState} {S : Spaces}, Sim b m S → S.root s = some f →
      (∀ q ∈ pages, InUser q.1) → (pages.map fun q => pageNumber q.1).Nodup →
      (∀ q ∈ pages, S.page s (levelIndex q.1 21) (levelIndex q.1 12) = none) →
      (loadPages f pages m).2.outOfFrames = false →
      (loadPages f pages m).1 = true ∧ Sim b (loadPages f pages m).2 (S.load s pages) := by
  induction pages with
  | nil => exact fun h _ _ _ _ _ => ⟨rfl, h⟩
  | cons q rest ih =>
    intro m S h hroot hin hnodup hfree hok
    have hq := hin q List.mem_cons_self
    have hok' : (VernisOS.loadPage f q.1 userFlags q.2 m).2.outOfFrames = false := by
      by_contra hout
      rw [Bool.not_eq_false] at hout
      unfold VernisOS.loadPages at hok
      simp only at hok
      split at hok
      · rw [loadPages_outOfFrames f rest hout] at hok
        exact Bool.noConfusion hok
      · exact Bool.noConfusion (hout.symm.trans hok)
    rw [userFlags_eq] at hok'
    obtain ⟨hdone, hsim⟩ := h.loadPage hroot hq.at (hfree q List.mem_cons_self) .writable hok'
    rw [← userFlags_eq] at hdone hsim
    rw [List.map_cons, List.nodup_cons] at hnodup
    unfold VernisOS.loadPages at hok ⊢
    simp only [hdone, if_true] at hok ⊢
    refine ih hsim hroot (fun q' hq' => hin q' (List.mem_cons_of_mem q hq')) hnodup.2 ?_ hok
    intro q' hq'
    have hin' := hin q' (List.mem_cons_of_mem q hq')
    -- the page just loaded is another one
    refine (if_neg fun he => hnodup.1 ?_).trans (hfree q' (List.mem_cons_of_mem q hq'))
    simp only [Prod.mk.injEq, true_and] at he
    rw [hq.pageNumber_eq hin' he.1.symm he.2.symm]
    exact List.mem_map_of_mem hq'

end Build

/-! ## Images -/

theorem loadPages_append (pml4 : UInt64) (l l' : List (UInt64 × (Page → Page))) :
    ∀ m, loadPages pml4 (l ++ l') m =
      if (loadPages pml4 l m).1 then loadPages pml4 l' (loadPages pml4 l m).2
      else loadPages pml4 l m := by
  induction l with
  | nil => exact fun m => rfl
  | cons q rest ih =>
    intro m
    simp only [List.cons_append, loadPages]
    by_cases hq : (loadPage pml4 q.1 userFlags q.2 m).1 = true
    · simp only [if_pos hq, ih]
    · simp only [if_neg hq]

theorem loadSegments_eq (file : ElfFile) (pml4 : UInt64) (phs : List Elf64Phdr) :
    ∀ m brk, ((loadSegments file pml4 phs m brk).1, (loadSegments file pml4 phs m brk).2.1)
      = loadPages pml4 (phs.flatMap fun ph => ph.pages file) m := by
  induction phs with
  | nil => exact fun m brk => rfl
  | cons ph rest ih =>
    intro m brk
    rw [List.flatMap_cons, loadPages_append, loadSegments]
    by_cases hph : (loadPages pml4 (ph.pages file) m).1 = true
    · simp only [if_pos hph, ih]
    · simp only [if_neg hph]
      rw [Bool.not_eq_true] at hph
      rw [← hph]

/-- A page loop whose last page is one of the others. -/
theorem Sim.loadPages_again {b m : PagingState} {S : Spaces} {f : UInt64} {s : SpaceId}
    {init : List (UInt64 × (Page → Page))} {q : UInt64 × (Page → Page)} (h : Sim b m S)
    (hroot : S.root s = some f) (hin : ∀ p ∈ init, InUser p.1) (hq : InUser q.1)
    (hnodup : (init.map fun p => pageNumber p.1).Nodup)
    (hfree : ∀ p ∈ init, S.page s (levelIndex p.1 21) (levelIndex p.1 12) = none)
    (hdup : pageNumber q.1 ∈ init.map fun p => pageNumber p.1)
    (hok : (VernisOS.loadPages f (init ++ [q]) m).2.outOfFrames = false) :
    (VernisOS.loadPages f (init ++ [q]) m).1 = true ∧
      ∃ G x, Inv b (VernisOS.loadPages f (init ++ [q]) m).2 G ∧ G (hand 0) = some x ∧
        ∀ s, (G (node s .pml4)).map Ref.frame = S.root s := by
  have hok' : (VernisOS.loadPages f init m).2.outOfFrames = false := by
    by_contra hout
    rw [Bool.not_eq_false] at hout
    rw [loadPages_append] at hok
    split at hok
    · rw [loadPages_outOfFrames f [q] hout] at hok
      exact Bool.noConfusion hok
    · exact Bool.noConfusion (hout.symm.trans hok)
  obtain ⟨hdone, hsim⟩ := h.loadPages init hroot hin hnodup hfree hok'
  have hlast : VernisOS.loadPages f (init ++ [q]) m
      = VernisOS.loadPage f q.1 userFlags q.2 (VernisOS.loadPages f init m).2 := by
    rw [loadPages_append, if_pos hdone, VernisOS.loadPages]
    simp only [VernisOS.loadPages]
    split
    · next hq => rw [← hq]
    · rfl
  rw [hlast] at hok ⊢
  obtain ⟨hq', G, x, hinv, hx, hroots⟩ := hsim.loadPage_again (by rwa [Spaces.load_root]) hq.at
    (Spaces.load_ne_none hdup) hok
  refine ⟨hq', G, x, hinv, hx, fun s' => ?_⟩
  rw [hroots, Spaces.load_root]

/-- A loader maps the pages of the image one after the other. -/
theorem loadImage_eq (file : ElfFile) (pml4 : UInt64) (m : PagingState) (brk : UInt64) :
    ((loadImage file pml4 m brk).1, (loadImage file pml4 m brk).2.1)
      = loadPages pml4 file.imagePages m := by
  unfold loadImage ElfFile.imagePages
  rw [loadPages_append, ← loadSegments_eq file pml4 file.segments m brk]
  by_cases h : (loadSegments file pml4 file.segments m brk).1 = true
  · simp only [if_pos h]
  · simp only [if_neg h]

/-- The condition on an image : its pages are in the user area, and none is loaded twice. -/
def ElfFile.PagesOk (file : ElfFile) : Prop :=
  (∀ q ∈ file.imagePages, InUser q.1) ∧ (file.imagePages.map fun q => pageNumber q.1).Nodup

/-- An image is loaded into a new space. -/
theorem Sim.loadImage {b m : PagingState} {S : Spaces} {f : UInt64} {file : ElfFile}
    (h : Sim b m S) (hroot : S.root none = some f) (hempty : ∀ i j, S.page none i j = none)
    (hpages : file.PagesOk) {brk : UInt64}
    (hok : (loadImage file f m brk).2.1.outOfFrames = false) :
    (loadImage file f m brk).1 = true ∧
      Sim b (loadImage file f m brk).2.1 (S.load none file.imagePages) := by
  have heq := loadImage_eq file f m brk
  have h₁ : (VernisOS.loadImage file f m brk).1 = (VernisOS.loadPages f file.imagePages m).1 :=
    congrArg Prod.fst heq
  have h₂ : (VernisOS.loadImage file f m brk).2.1 = (VernisOS.loadPages f file.imagePages m).2 :=
    congrArg Prod.snd heq
  rw [h₂] at hok
  rw [h₁, h₂]
  exact h.loadPages file.imagePages hroot hpages.1 hpages.2 (fun q _ => hempty _ _) hok

end VernisOS
