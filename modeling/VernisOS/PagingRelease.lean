import VernisOS.PagingViews

/-!
# Address spaces that change hands and die

An address space goes from one task slot to another by a renaming of the holders. Taking it
down (`paging_free_user_space`) is one `frame_free` for each node of its tree : the function
reads the tables only, and `frame_free` leaves them as they are.
-/

namespace VernisOS

open Holder

/-! ## Renaming -/

/-- The spaces `s` and `s'` change places. -/
def swapSpaces (s s' : SpaceId) : Holder ≃ Holder where
  toFun
    | node t n => node (Equiv.swap s s' t) n
    | w => w
  invFun
    | node t n => node (Equiv.swap s s' t) n
    | w => w
  left_inv w := by cases w <;> simp
  right_inv w := by cases w <;> simp

@[simp] theorem swapSpaces_node (s s' t : SpaceId) (n : Node) :
    swapSpaces s s' (node t n) = node (Equiv.swap s s' t) n :=
  rfl

@[simp] theorem swapSpaces_hand (s s' : SpaceId) (l : Fin 3) :
    swapSpaces s s' (hand l) = hand l :=
  rfl

@[simp] theorem swapSpaces_boot (s s' : SpaceId) (k : Fin 1024) :
    swapSpaces s s' (boot k) = boot k :=
  rfl

theorem side_swapSpaces {s s' : SpaceId} {w w' : Holder} (h : w.side = w'.side) :
    (swapSpaces s s' w).side = (swapSpaces s s' w').side := by
  cases w <;> cases w' <;> simp_all [side]

theorem Separate.swapSpaces {G : Ghost} (h : Separate G) (s s' : SpaceId) :
    Separate (G ∘ swapSpaces s s') where
  page w r hw hc := by
    rcases h.page _ r hw hc with ⟨t, i, j, he⟩ | ⟨k, he⟩
    · cases w with
      | node t' n =>
        rw [swapSpaces_node, Holder.node.injEq] at he
        exact Or.inl ⟨t', i, j, by rw [he.2]⟩
      | hand l => exact Or.inr ⟨l, rfl⟩
      | boot k => simp at he
    · cases w with
      | node t' n => simp at he
      | hand l => exact Or.inr ⟨l, rfl⟩
      | boot k => simp at he
  sep w w' r r' hw hw' hf hne := by
    obtain ⟨hc, hc', hside⟩ := h.sep _ _ r r' hw hw' hf fun he => hne ((VernisOS.swapSpaces s s').injective he)
    exact ⟨hc, hc', fun he => hside (side_swapSpaces he)⟩

theorem Inv.swapSpaces {b m : PagingState} {G : Ghost} (h : Inv b m G) (s s' : SpaceId) :
    Inv b m (G ∘ swapSpaces s s') := by
  obtain ⟨⟨hpool, hbase, hkernel, hledger⟩, hsep, hshape, hkmem, hkiff⟩ := h
  exact ⟨⟨hpool, hbase, hkernel, hledger.comp (VernisOS.swapSpaces s s')⟩, hsep.swapSpaces s s',
    ⟨fun t => hshape.entry _, fun t => hshape.rooted _, fun t => hshape.full _,
      fun t => hshape.closed _⟩, hkmem, hkiff⟩

/-- Nothing happens to the machine when two spaces change places. -/
theorem Sim.swap {b m : PagingState} {S : Spaces} (h : Sim b m S) (s s' : SpaceId) :
    Sim b m (S.swap s s') := by
  obtain ⟨G, hinv, hsees⟩ := h
  exact ⟨G ∘ swapSpaces s s', hinv.swapSpaces s s', hsees.hands, fun t => hsees.root _,
    fun t => hsees.page _⟩

/-! ## Taking a tree down -/

theorem mem_userPds {i : Fin 512} : i ∈ userPds ↔ 64 ≤ i := by
  unfold userPds
  rw [List.mem_drop_iff_getElem]
  constructor
  · rintro ⟨k, hk, rfl⟩
    rw [List.getElem_finRange, Fin.le_def]
    exact Nat.le_add_right 64 k
  · intro hi
    have hi' : 64 ≤ i.val := hi
    refine ⟨i.val - 64, ?_, ?_⟩
    · rw [List.length_finRange]
      omega
    · rw [List.getElem_finRange]
      exact Fin.ext (by simp; omega)

theorem nodup_userPds : userPds.Nodup :=
  (List.nodup_finRange 512).drop

/-- The nodes that go with the table `i`, in the order of the loops. -/
def tableNodes (i : Fin 512) : List Node :=
  (List.finRange 512).map (Node.page i) ++ [.pt i]

/-- All nodes of a tree, in the order of `paging_free_user_space`. -/
def treeNodes : List Node :=
  userPds.flatMap tableNodes ++ [.pd, .pdpt, .pml4]

/-- `frame_free` of what a node of the tree has. -/
def freeNode (G : Ghost) (m : PagingState) (n : Node) : PagingState :=
  match G (node none n) with
  | some x => frameFree m x.frame
  | none => m

/-- The space that was being taken down is gone. -/
def clearSpace (G : Ghost) : Ghost
  | node none _ => none
  | w => G w

theorem mem_tableNodes {i : Fin 512} {n : Node} :
    n ∈ tableNodes i ↔ (∃ j, n = .page i j) ∨ n = .pt i := by
  simp [tableNodes, eq_comm]

theorem nodup_treeNodes : treeNodes.Nodup := by
  unfold treeNodes
  rw [List.nodup_append]
  refine ⟨List.nodup_flatMap.mpr ⟨fun i _ => ?_, ?_⟩, by simp, ?_⟩
  · unfold tableNodes
    rw [List.nodup_append]
    refine ⟨(List.nodup_finRange 512).map fun j j' h => (Node.page.inj h).2, by simp, ?_⟩
    intro n hn n' hn'
    obtain ⟨j, _, rfl⟩ := List.mem_map.mp hn
    rw [List.mem_singleton.mp hn']
    simp
  · refine nodup_userPds.imp fun {i i'} hne n hn hn' => hne ?_
    rcases mem_tableNodes.mp hn with ⟨j, rfl⟩ | rfl
    · rcases mem_tableNodes.mp hn' with ⟨j', h⟩ | h
      · exact (Node.page.inj h).1
      · simp at h
    · rcases mem_tableNodes.mp hn' with ⟨j', h⟩ | h
      · simp at h
      · exact Node.pt.inj h
  · intro n hn n' hn'
    obtain ⟨i, _, hn⟩ := List.mem_flatMap.mp hn
    rcases mem_tableNodes.mp hn with ⟨j, rfl⟩ | rfl <;> simp at hn' <;>
      rcases hn' with rfl | rfl | rfl <;> simp

theorem Inv.mem_treeNodes {b m : PagingState} {G : Ghost} (h : Inv b m G) {n : Node} {x : Ref}
    (hn : G (node none n) = some x) : n ∈ treeNodes := by
  unfold treeNodes
  rw [List.mem_append]
  cases n with
  | pml4 => simp
  | pdpt => simp
  | pd => simp
  | pt i =>
    obtain ⟨n', k, _, hp, _⟩ := h.shape.rooted none (.pt i) x hn (by simp)
    have hi : 64 ≤ i := by
      by_contra hi
      simp [Node.parent, if_neg hi] at hp
    exact Or.inl (List.mem_flatMap.mpr ⟨i, mem_userPds.mpr hi, mem_tableNodes.mpr (Or.inr rfl)⟩)
  | page i j =>
    obtain ⟨hi, _⟩ := h.table_of_page hn
    exact Or.inl (List.mem_flatMap.mpr
      ⟨i, mem_userPds.mpr hi, mem_tableNodes.mpr (Or.inl ⟨j, rfl⟩)⟩)

/-- Loops that agree where `P` holds, and keep it, have the same result. -/
theorem foldl_congr_inv {σ ι : Type*} {P : σ → Prop} {f g : σ → ι → σ} {l : List ι}
    (hfg : ∀ m, P m → ∀ i ∈ l, f m i = g m i) (hP : ∀ m, P m → ∀ i ∈ l, P (g m i)) :
    ∀ m, P m → l.foldl f m = l.foldl g m := by
  induction l with
  | nil => exact fun m _ => rfl
  | cons i rest ih =>
    intro m hm
    rw [List.foldl_cons, List.foldl_cons, hfg m hm i List.mem_cons_self]
    exact ih (fun m hm i hi => hfg m hm i (List.mem_cons_of_mem _ hi))
      (fun m hm i hi => hP m hm i (List.mem_cons_of_mem _ hi)) _ (hP m hm i List.mem_cons_self)

@[simp] theorem freeNode_mem (G : Ghost) (m : PagingState) (n : Node) :
    (freeNode G m n).mem = m.mem := by
  unfold freeNode
  split <;> simp

@[simp] theorem freeNode_outOfFrames (G : Ghost) (m : PagingState) (n : Node) :
    (freeNode G m n).outOfFrames = m.outOfFrames := by
  unfold freeNode
  split <;> simp

theorem foldl_freeNode_mem (G : Ghost) (l : List Node) :
    ∀ m, (l.foldl (freeNode G) m).mem = m.mem := by
  induction l with
  | nil => exact fun m => rfl
  | cons n rest ih => exact fun m => (ih _).trans (freeNode_mem G m n)

theorem foldl_freeNode_outOfFrames (G : Ghost) (l : List Node) :
    ∀ m, (l.foldl (freeNode G) m).outOfFrames = m.outOfFrames := by
  induction l with
  | nil => exact fun m => rfl
  | cons n rest ih => exact fun m => (ih _).trans (freeNode_outOfFrames G m n)

section Free

variable {b m : PagingState} {G : Ghost}

/-- The loop gives the nodes of the list up, one after the other. -/
theorem Accounts.freeNodes {l : List Node} (hl : l.Nodup) :
    ∀ {m : PagingState} {F : Ghost}, Accounts b m F.frames → Separate F →
      (∀ n ∈ l, F (node none n) = G (node none n)) →
      ∃ F', Accounts b (l.foldl (freeNode G) m) F'.frames ∧ Separate F' ∧
        (∀ n ∈ l, F' (node none n) = none) ∧
        ∀ w, (∀ n ∈ l, w ≠ node none n) → F' w = F w := by
  induction l with
  | nil => exact fun {m F} h hsep _ => ⟨F, h, hsep, by simp, fun w _ => rfl⟩
  | cons n rest ih =>
    intro m F h hsep hF
    rw [List.nodup_cons] at hl
    have hn := hF n List.mem_cons_self
    have hacc : Accounts b (freeNode G m n)
        (Ghost.frames (Function.update F (node none n) none)) := by
      cases hx : G (node none n) with
      | none =>
        have hfree : freeNode G m n = m := by
          unfold freeNode
          rw [hx]
        rw [hfree, ← hn.trans hx, Function.update_eq_self]
        exact h
      | some x =>
        have hfree : freeNode G m n = frameFree m x.frame := by
          unfold freeNode
          rw [hx]
        rw [hfree, Ghost.frames_update]
        exact h.free (Ghost.frames_eq (hn.trans hx))
    obtain ⟨F', hacc', hsep', hclear, hkeep⟩ := ih hl.2 hacc hsep.clear fun n' hn' => by
      have hne : node none n' ≠ node none n := by
        intro he
        rw [Holder.node.injEq] at he
        exact hl.1 (he.2 ▸ hn')
      rw [Function.update_of_ne hne, hF n' (List.mem_cons_of_mem n hn')]
    refine ⟨F', hacc', hsep', fun n' hn' => ?_, fun w hw => ?_⟩
    · by_cases hmem : n' ∈ rest
      · exact hclear n' hmem
      · rcases List.mem_cons.mp hn' with rfl | hn'
        · rw [hkeep, Function.update_self]
          rintro n'' hn'' he
          rw [Holder.node.injEq] at he
          exact hmem (he.2 ▸ hn'')
        · exact absurd hn' hmem
    · rw [hkeep w fun n' hn' => hw n' (List.mem_cons_of_mem n hn'),
        Function.update_of_ne (hw n List.mem_cons_self)]

/-- One entry of a user table, in the loop over the pages. -/
theorem Inv.freeUserPage_eq (h : Inv b m G) {i : Fin 512} {t : Ref}
    (ht : G (node none (.pt i)) = some t) {m' : PagingState} (hm : m'.mem = m.mem) (j : Fin 512) :
    freeUserPage t.frame m' j = freeNode G m' (.page i j) := by
  have hentry := h.shape.entry none (.page i j) (.pt i) j t rfl ht
  unfold freeUserPage freeNode
  rw [hm, hentry]
  cases hx : G (node none (.page i j)) with
  | none => exact if_neg (not_not.mpr rfl)
  | some x =>
    exact (if_pos (Ref.entry_present (h.isFrame hx))).trans
      (congrArg (frameFree m') (Ref.entry_and_mask (h.isFrame hx)))

/-- One entry of the PD, in the loop over the tables. -/
theorem Inv.freeUserTable_eq (h : Inv b m G) {d : Ref} (hd : G (node none .pd) = some d)
    {i : Fin 512} (hi : 64 ≤ i) {m' : PagingState} (hm : m'.mem = m.mem) :
    freeUserTable d.frame m' i = (tableNodes i).foldl (freeNode G) m' := by
  have hentry := h.shape.entry none (.pt i) .pd i d (if_pos hi) hd
  unfold freeUserTable tableNodes
  rw [hm, hentry, List.foldl_append, List.foldl_map]
  cases ht : G (node none (.pt i)) with
  | none =>
    have hpages : ∀ m'' j, freeNode G m'' (.page i j) = m'' := by
      intro m'' j
      unfold freeNode
      rw [h.shape.orphan (c := .page i j) rfl ht]
    have hloop : (List.finRange 512).foldl (fun x y => freeNode G x (.page i y)) m' = m' := by
      induction List.finRange 512 with
      | nil => rfl
      | cons j rest ih => rw [List.foldl_cons, hpages, ih]
    rw [hloop]
    simp [entryOf, not_hasTable_zero, freeNode, ht]
  | some t =>
    have hmask : t.entry &&& pageAddrMask = t.frame := Ref.entry_and_mask (h.isFrame ht)
    have hloop : (List.finRange 512).foldl (freeUserPage t.frame) m'
        = (List.finRange 512).foldl (fun x y => freeNode G x (.page i y)) m' :=
      foldl_congr_inv (P := fun x => x.mem = m.mem)
        (fun x hx j _ => h.freeUserPage_eq ht hx j)
        (fun x hx j _ => (freeNode_mem G x _).trans hx) m' hm
    have hlast : ∀ x, freeNode G x (.pt i) = frameFree x t.frame := by
      intro x
      unfold freeNode
      rw [ht]
    simp only [entryOf, if_pos (Ref.hasTable (h.isFrame ht)), hmask, hloop, List.foldl_cons,
      List.foldl_nil, hlast]

/-- `paging_free_user_space` frees the nodes of the tree in their order. -/
theorem Inv.pagingFreeUserSpace_eq (h : Inv b m G) {r : Ref}
    (hroot : G (node none .pml4) = some r) (hkernel : r.frame ≠ m.kernelPml4) :
    pagingFreeUserSpace m r.frame = treeNodes.foldl (freeNode G) m := by
  obtain ⟨x₃, x₂, hx₃, hx₂⟩ := h.upper hroot
  have hpdpt : m.mem r.frame 0 &&& pageAddrMask = x₃.frame := by
    rw [h.entry_eq (c := .pdpt) rfl hroot hx₃, Ref.entry_and_mask (h.isFrame hx₃)]
  have hpd : m.mem x₃.frame 0 &&& pageAddrMask = x₂.frame := by
    rw [h.entry_eq (c := .pd) rfl hx₃ hx₂, Ref.entry_and_mask (h.isFrame hx₂)]
  have hloop : userPds.foldl (freeUserTable x₂.frame) m
      = userPds.foldl (fun x i => (tableNodes i).foldl (freeNode G) x) m :=
    foldl_congr_inv (P := fun x => x.mem = m.mem)
      (fun x hx i hi => h.freeUserTable_eq hx₂ (mem_userPds.mp hi) hx)
      (fun x hx i _ => (foldl_freeNode_mem G _ x).trans hx) m rfl
  unfold pagingFreeUserSpace treeNodes
  rw [if_neg (not_or.mpr ⟨h.ne_zero hroot, hkernel⟩), List.foldl_append, List.foldl_flatMap]
  simp only [hpdpt, hpd, hloop, List.foldl_cons, List.foldl_nil, freeNode, hroot, hx₃, hx₂]

/-- The tree is gone and its frames are given back. -/
theorem Inv.freeUserSpace (h : Inv b m G) {r : Ref}
    (hroot : G (node none .pml4) = some r) (hkernel : r.frame ≠ m.kernelPml4) :
    Inv b (pagingFreeUserSpace m r.frame) (clearSpace G) := by
  rw [h.pagingFreeUserSpace_eq hroot hkernel]
  obtain ⟨F', hacc, hsep, hclear, hkeep⟩ :=
    Accounts.freeNodes (G := G) nodup_treeNodes h.accounts h.separate fun n _ => rfl
  have hF : F' = clearSpace G := by
    funext w
    cases w with
    | boot k => exact hkeep _ fun n _ => Holder.noConfusion
    | hand l => exact hkeep _ fun n _ => Holder.noConfusion
    | node s n =>
      cases s with
      | some s => exact hkeep _ fun n' _ he => by simp at he
      | none =>
        by_cases hn : n ∈ treeNodes
        · exact hclear n hn
        · have hother : ∀ n' ∈ treeNodes, node none n ≠ node none n' := by
            intro n' hn' he
            rw [Holder.node.injEq] at he
            exact hn (he.2 ▸ hn')
          rw [hkeep _ hother]
          cases hx : G (node none n) with
          | none => rfl
          | some x => exact absurd (h.mem_treeNodes hx) hn
  subst hF
  refine ⟨hacc, hsep, ⟨?_, ?_, ?_, ?_⟩, fun k x hk => ?_, h.kernel_iff⟩
  · intro s c n k x hp hn
    cases s with
    | none => simp [clearSpace] at hn
    | some s =>
      rw [foldl_freeNode_mem]
      exact h.shape.entry _ c n k x hp hn
  · intro s c x hc hne
    cases s with
    | none => simp [clearSpace] at hc
    | some s => exact h.shape.rooted _ c x hc hne
  · intro s x hx
    cases s with
    | none => simp [clearSpace] at hx
    | some s => exact h.shape.full _ x hx
  · intro s n k x hn hpage hc
    cases s with
    | none => simp [clearSpace] at hn
    | some s =>
      rw [foldl_freeNode_mem]
      exact h.shape.closed _ n k x hn hpage hc
  · rw [foldl_freeNode_mem]
    exact h.kernel_mem k x hk

/-- `paging_free_user_space`. -/
theorem Sim.freeUserSpace {S : Spaces} (h : Sim b m S) {f : UInt64}
    (hroot : S.root none = some f) (hkernel : f ≠ b.kernelPml4) :
    Sim b (pagingFreeUserSpace m f) (S.clear none) ∧
      (pagingFreeUserSpace m f).outOfFrames = m.outOfFrames := by
  obtain ⟨G, hinv, hsees⟩ := h
  obtain ⟨r, hr, rfl⟩ : ∃ r, G (node none .pml4) = some r ∧ r.frame = f := by
    simpa [hroot] using hsees.root none
  rw [← hinv.accounts.kernel_eq] at hkernel
  have heq := hinv.pagingFreeUserSpace_eq hr hkernel
  refine ⟨⟨clearSpace G, hinv.freeUserSpace hr hkernel, hsees.hands, fun s => ?_,
    fun s i j => ?_⟩, ?_⟩
  · cases s with
    | none => simp [Spaces.clear, clearSpace]
    | some s => simpa [Spaces.clear, clearSpace] using hsees.root (some s)
  · cases s with
    | none => simp [Spaces.clear, clearSpace, view]
    | some s =>
      have hview := hsees.page (some s) i j
      unfold view at hview ⊢
      rw [heq, foldl_freeNode_mem]
      simpa [Spaces.clear, clearSpace] using hview
  · rw [heq, foldl_freeNode_outOfFrames]

end Free

end VernisOS
