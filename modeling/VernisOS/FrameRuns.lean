import VernisOS.PartialCompose
import VernisOS.WindowOrder

/-!
# Frames over whole runs

Calls of the window manager note the part of the screen they made stale, and a frame draws that
part alone. The run keeps the windows of the last frame as a history variable : between frames the
damage covers every window that appeared, disappeared, moved or changed its place in the order
(`StaleWithin`). The one thing that `wm_create_window` and `wm_close_window` change without noting
it is the focus flag of another window. As long as such a window lies in the damage when the next
frame is drawn, every frame of the run is the one from scratch (`frames_of_run`).
-/

open Bytes Raster Run

namespace VernisOS

/-- A window as if it had not the focus. -/
def GuiWindow.unfocused (w : GuiWindow) : GuiWindow :=
  { w with focused := false }

theorem GuiWindow.eq_of_unfocused {v w : GuiWindow} (h : v.unfocused = w.unfocused) :
    v.id = w.id ∧ v.rect = w.rect := by
  have hid := congrArg GuiWindow.id h
  have hrect := congrArg GuiWindow.rect h
  exact ⟨hid, hrect⟩

namespace WindowManager

variable {wm wm' wm'' : WindowManager} {r r' : Rect} {w : GuiWindow}

/-! ## What is stale -/

/-- The visible windows apart from their focus. -/
def plain (wm : WindowManager) : List GuiWindow :=
  wm.shown.map GuiWindow.unfocused

/-- Nothing changed but windows that lie inside the rectangle, and focus flags. -/
structure StaleWithin (r : Rect) (wm wm' : WindowManager) : Prop where
  plain : (wm.plain.filter fun w => ¬ w.rect ≤ r) = wm'.plain.filter fun w => ¬ w.rect ≤ r
  content : ∀ w ∈ wm'.shown, ¬ w.rect ≤ r → wm.contentBuf w.id = wm'.contentBuf w.id

theorem StaleWithin.refl (r : Rect) (wm : WindowManager) : wm.StaleWithin r wm :=
  ⟨rfl, fun _ _ _ => rfl⟩

/-- A window that is still shown was shown before, up to its focus. -/
theorem StaleWithin.mem (h : wm.StaleWithin r wm') (hw : w ∈ wm'.shown) (hr : ¬ w.rect ≤ r) :
    ∃ v ∈ wm.shown, v.unfocused = w.unfocused := by
  have hmem : w.unfocused ∈ wm'.plain.filter fun w => ¬ w.rect ≤ r :=
    List.mem_filter.mpr ⟨List.mem_map_of_mem hw, decide_eq_true hr⟩
  rw [← h.plain] at hmem
  exact List.mem_map.mp (List.mem_filter.mp hmem).1

theorem StaleWithin.trans (h : wm.StaleWithin r wm') (h' : wm'.StaleWithin r wm'') :
    wm.StaleWithin r wm'' := by
  refine ⟨h.plain.trans h'.plain, fun w hw hr => ?_⟩
  obtain ⟨v, hv, heq⟩ := h'.mem hw hr
  obtain ⟨hid, hrect⟩ := GuiWindow.eq_of_unfocused heq
  have hold := h.content v hv (by rwa [hrect])
  rw [hid] at hold
  exact hold.trans (h'.content w hw hr)

/-- More damage covers what less does. -/
theorem StaleWithin.mono (h : wm.StaleWithin r wm') (hopen : ∀ w ∈ wm.shown, w.Open)
    (hopen' : ∀ w ∈ wm'.shown, w.Open) (hr : ∀ w : GuiWindow, w.Open → w.rect ≤ r → w.rect ≤ r') :
    wm.StaleWithin r' wm' := by
  have hfilter : ∀ wm : WindowManager, (∀ w ∈ wm.shown, w.Open) →
      (wm.plain.filter fun w => ¬ w.rect ≤ r') =
        (wm.plain.filter fun w => ¬ w.rect ≤ r).filter fun w => ¬ w.rect ≤ r' := by
    intro wm hopen
    rw [List.filter_filter]
    refine List.filter_congr fun w hw => ?_
    obtain ⟨v, hv, rfl⟩ := List.mem_map.mp hw
    have hle : v.unfocused.rect ≤ r → v.unfocused.rect ≤ r' := hr v (hopen v hv)
    by_cases hin : v.unfocused.rect ≤ r
    · simp [hin, hle hin]
    · simp [hin]
  refine ⟨?_, fun w hw hout => h.content w hw fun hin => hout (hr w (hopen' w hw) hin)⟩
  rw [hfilter wm hopen, hfilter wm' hopen', h.plain]

/-- Lists that agree after a map agree where the map tells their items apart. -/
theorem eq_of_map_eq {α β : Type*} {f : α → β} :
    ∀ {l l' : List α}, l.map f = l'.map f → (∀ a ∈ l, ∀ b ∈ l', f a = f b → a = b) → l = l'
  | [], [], _, _ => rfl
  | [], _ :: _, h, _ => by simp at h
  | _ :: _, [], h, _ => by simp at h
  | a :: l, b :: l', h, hinj => by
    rw [List.map_cons, List.map_cons, List.cons.injEq] at h
    rw [hinj a List.mem_cons_self b List.mem_cons_self h.1,
      eq_of_map_eq h.2 fun c hc d hd =>
        hinj c (List.mem_cons_of_mem a hc) d (List.mem_cons_of_mem b hd)]

/-- With the focus flags noted too, nothing changed but windows inside the rectangle. -/
theorem StaleWithin.changedWithin (h : wm.StaleWithin r wm')
    (hfocus : ∀ w ∈ wm.shown, ∀ w' ∈ wm'.shown, w.id = w'.id → w.focused ≠ w'.focused →
      w.rect ≤ r) : wm.ChangedWithin r wm' := by
  refine ⟨eq_of_map_eq (f := GuiWindow.unfocused) ?_ ?_, h.content⟩
  · have hplain := h.plain
    unfold WindowManager.plain at hplain
    rw [List.filter_map, List.filter_map] at hplain
    exact hplain
  · intro v hv w hw heq
    obtain ⟨hv, hout⟩ := List.mem_filter.mp hv
    have hfocused : v.focused = w.focused := by
      by_contra hne
      exact of_decide_eq_true hout
        (hfocus v hv w (List.mem_filter.mp hw).1 (GuiWindow.eq_of_unfocused heq).1 hne)
    obtain ⟨vid, vt, vx, vy, vw, vh, vv, vf⟩ := v
    obtain ⟨wid, wt, wx, wy, ww, wh, wv, wf⟩ := w
    simp only [GuiWindow.unfocused, GuiWindow.mk.injEq] at heq hfocused ⊢
    obtain ⟨h1, h2, h3, h4, h5, h6, h7, -⟩ := heq
    exact ⟨h1, h2, h3, h4, h5, h6, h7, hfocused⟩

/-! ## Noted damage -/

/-- Rectangles of windows that the damage covers stay covered. -/
def DamageGrows (wm wm' : WindowManager) : Prop :=
  ∀ w : GuiWindow, w.Open → w.rect ≤ wm.dmg → w.rect ≤ wm'.dmg

theorem damageGrows_damageAdd (wm : WindowManager) (r : Rect) :
    wm.DamageGrows (wm.damageAdd r) := by
  intro w hopen hw
  unfold damageAdd
  split
  · exact hw
  split
  · rename_i hempty
    have hwidth := hopen.width
    have hheight := hopen.height
    rw [Rect.le_def] at hw
    simp only [GuiWindow.rect] at hw
    omega
  · exact hw.trans (Rect.le_union_left _ _)

/-- The rectangle of a window is covered once it is noted. -/
theorem le_damageAdd (wm : WindowManager) (hw : 0 < r.w) (hh : 0 < r.h) :
    r ≤ (wm.damageAdd r).dmg := by
  unfold damageAdd
  rw [if_neg (by omega)]
  split
  · exact le_refl r
  · exact Rect.le_union_right _ _

theorem contentBuf_damageAdd (wm : WindowManager) (r : Rect) :
    (wm.damageAdd r).contentBuf = wm.contentBuf := by
  unfold damageAdd
  split
  · rfl
  split <;> rfl

/-! ## The windows on the screen after a call -/

theorem findWindow_of_map {f : GuiWindow → GuiWindow} (hid : ∀ w, (f w).id = w.id)
    (hwindows : wm'.windows = wm.windows.map f) (id : ℕ) :
    wm'.findWindow id = (wm.findWindow id).map f := by
  have hcomp : ((fun w : GuiWindow => decide (w.id = id)) ∘ f) = fun w => decide (w.id = id) :=
    funext fun w => by simp only [Function.comp, hid]
  rw [findWindow, findWindow, hwindows, List.find?_map, hcomp]

/-- The windows of a z-order. -/
def listed (wm : WindowManager) (ids : List ℕ) : List GuiWindow :=
  (ids.filterMap wm.findWindow).filter (·.visible)

theorem listed_of_map {f : GuiWindow → GuiWindow} (hid : ∀ w, (f w).id = w.id)
    (hvis : ∀ w, (f w).visible = w.visible) (hwindows : wm'.windows = wm.windows.map f)
    (ids : List ℕ) : wm'.listed ids = (wm.listed ids).map f := by
  have hfind : wm'.findWindow = fun id => (wm.findWindow id).map f :=
    funext fun id => findWindow_of_map hid hwindows id
  have hcomp : ((fun w : GuiWindow => w.visible) ∘ f) = fun w => w.visible :=
    funext fun w => hvis w
  rw [listed, hfind, ← List.map_filterMap, List.filter_map, hcomp]
  rfl

theorem plain_moveWindow (wm : WindowManager) (id : ℕ) (x y : ℤ) :
    (wm.moveWindow id x y).plain =
      wm.plain.map fun w : GuiWindow => if w.id = id then { w with x, y } else w := by
  obtain ⟨hwindows, hz, -⟩ := windows_moveWindow wm id x y
  have hlisted := listed_of_map (fun w => by split <;> rfl) (fun w => by split <;> rfl) hwindows
    wm.zOrder
  have hshown : (wm.moveWindow id x y).shown = (wm.moveWindow id x y).listed wm.zOrder := by
    rw [shown, hz, listed]
  rw [plain, plain, hshown, hlisted, List.map_map, List.map_map]
  refine List.map_congr_left fun w _ => ?_
  by_cases hid : w.id = id
  · simp [GuiWindow.unfocused, hid]
  · simp [GuiWindow.unfocused, hid]

theorem plain_focusWindow_mem {id : ℕ} (hw : w ∈ (wm.focusWindow id).plain) :
    ∃ v ∈ wm.windows, v.visible = true ∧ v.rect = w.rect := by
  obtain ⟨v, hv, rfl⟩ := List.mem_map.mp hw
  obtain ⟨hmem, hvis⟩ := mem_windows_of_shown hv
  rw [(windows_focusWindow wm id).1] at hmem
  obtain ⟨u, hu, rfl⟩ := List.mem_map.mp hmem
  exact ⟨u, hu, hvis, rfl⟩

theorem plain_closeWindow (wm : WindowManager) (id : ℕ) :
    (wm.closeWindow id).plain = wm.plain.filter fun w => w.id ≠ id := by
  obtain ⟨hwindows, hz, -⟩ := windows_closeWindow wm id
  -- first without the closed window, then with the focus handed on
  let wm₁ : WindowManager := { wm with windows := wm.windows.filter (·.id ≠ id) }
  have hlisted := @listed_of_map wm₁ _ _ (fun w => by split <;> rfl)
    (fun w => by split <;> rfl) hwindows (wm.zOrder.filter (· ≠ id))
  have hfind : ∀ i ∈ wm.zOrder.filter (· ≠ id), wm₁.findWindow i = wm.findWindow i := by
    intro i hi
    have hne := of_decide_eq_true (List.mem_filter.mp hi).2
    rw [findWindow, findWindow, List.find?_filter]
    refine congrArg (wm.windows.find? ·) (funext fun w => ?_)
    by_cases hw : w.id = i
    · simp [hw, hne]
    · simp [hw]
  have hkept : (wm.zOrder.filter (· ≠ id)).filterMap wm.findWindow =
      (wm.zOrder.filterMap wm.findWindow).filter fun w => w.id ≠ id := by
    rw [List.filterMap_filter, List.filter_filterMap]
    refine List.filterMap_congr fun i _ => ?_
    cases hw : wm.findWindow i with
    | none => simp
    | some w =>
      have hid : w.id = i := by simpa using List.find?_some hw
      by_cases hi : i = id <;> simp [Option.filter, hid, hi]
  have hmap : wm₁.listed (wm.zOrder.filter (· ≠ id)) = wm.shown.filter fun w => w.id ≠ id := by
    rw [listed, List.filterMap_congr hfind, hkept, shown, List.filter_comm]
  have hshown : (wm.closeWindow id).shown =
      (wm.closeWindow id).listed (wm.zOrder.filter (· ≠ id)) := by
    rw [shown, hz, listed]
  rw [plain, plain, List.filter_map, hshown, hlisted, hmap, List.map_map]
  refine List.map_congr_left fun w _ => ?_
  simp only [Function.comp]
  split <;> rfl

/-- A new window, with the id that `wm_create_window` hands out. -/
def fresh (wm : WindowManager) (title : List UInt8) (x y : ℤ) (w h : ℕ) : GuiWindow :=
  ⟨wm.nextId, title.take maxTitleLen, x, y, w, h, true, true⟩

theorem plain_createWindow (hnew : wm.nextId ∉ wm.zOrder)
    (hids : ∀ w ∈ wm.windows, w.id ∈ wm.zOrder) (title : List UInt8) (x y : ℤ) (w h : ℕ) :
    (wm.createWindow title x y w h).1.plain =
      wm.plain ++ [(wm.fresh title x y w h).unfocused] := by
  obtain ⟨hwindows, hz, -⟩ := windows_createWindow wm title x y w h
  have hunfocus : ∀ i ∈ wm.zOrder, (wm.createWindow title x y w h).1.findWindow i =
      (wm.findWindow i).map GuiWindow.unfocused := by
    intro i hi
    have hne : wm.nextId ≠ i := fun heq => hnew (heq ▸ hi)
    have hmap := @findWindow_of_map wm { wm with windows := wm.windows.map GuiWindow.unfocused }
      GuiWindow.unfocused (fun _ => rfl) rfl i
    rw [← hmap, findWindow, findWindow, hwindows, List.find?_append,
      List.find?_cons_of_neg (by simpa using hne), List.find?_nil, Option.or_none]
    rfl
  have hfresh : (wm.createWindow title x y w h).1.findWindow wm.nextId =
      some (wm.fresh title x y w h) := by
    have hnone : (wm.windows.map fun w : GuiWindow => { w with focused := false }).find?
        (·.id = wm.nextId) = none := by
      rw [List.find?_eq_none]
      intro v hv
      obtain ⟨u, hu, rfl⟩ := List.mem_map.mp hv
      rw [decide_eq_true_eq]
      exact fun heq => hnew (heq ▸ hids u hu)
    rw [findWindow, hwindows, List.find?_append, hnone, Option.none_or]
    exact List.find?_cons_of_pos (decide_eq_true rfl)
  have hvis : ((fun w : GuiWindow => w.visible) ∘ GuiWindow.unfocused) = fun w => w.visible :=
    rfl
  rw [plain, plain, shown, hz, List.filterMap_append, List.filterMap_congr hunfocus,
    ← List.map_filterMap, List.filter_append, List.filter_map, hvis, List.map_append,
    List.map_map]
  rw [List.filterMap_cons_some hfresh, List.filterMap_nil, List.filter_cons_of_pos rfl,
    List.filter_nil]
  rfl

/-! ## What a call makes stale -/

theorem filter_map_eq {l : List GuiWindow} {f : GuiWindow → GuiWindow} {p : GuiWindow → Bool}
    (h : ∀ w ∈ l, f w = w ∨ p w = false ∧ p (f w) = false) : (l.map f).filter p = l.filter p := by
  induction l with
  | nil => rfl
  | cons w l ih =>
    have hl := ih fun v hv => h v (List.mem_cons_of_mem w hv)
    rw [List.map_cons, List.filter_cons, List.filter_cons, hl]
    rcases h w List.mem_cons_self with hw | ⟨hp, hpf⟩
    · rw [hw]
    · rw [hp, hpf]
      rfl

theorem staleWithin_moveWindow (hopen : ∀ w ∈ wm.windows, w.Open)
    (hnodup : (wm.windows.map (·.id)).Nodup) (id : ℕ) (x y : ℤ) :
    wm.StaleWithin (wm.moveWindow id x y).dmg (wm.moveWindow id x y) ∧
      wm.DamageGrows (wm.moveWindow id x y) := by
  have hplain := wm.plain_moveWindow id x y
  cases hfind : wm.findWindow id with
  | none =>
    have hsame : wm.moveWindow id x y = wm := by
      rw [moveWindow, hfind]
    rw [hsame]
    exact ⟨.refl _ wm, fun _ _ h => h⟩
  | some w =>
    have hw := List.mem_of_find?_eq_some hfind
    have hwid : w.id = id := by simpa using List.find?_some hfind
    have hwidth := (hopen w hw).width
    have hheight := (hopen w hw).height
    generalize hs : wm.moveWindow id x y = s at hplain ⊢
    simp only [moveWindow, hfind] at hs
    subst hs
    let wm₁ := wm.updateWindow id fun w => { w with x, y }
    -- the old place of the window is noted first, then the new one
    have hold : w.rect ≤ (wm₁.damageAdd w.rect).dmg :=
      le_damageAdd wm₁ (by simp only [GuiWindow.rect]; omega) (by simp only [GuiWindow.rect]; omega)
    have hgrow := damageGrows_damageAdd wm₁ w.rect
    have hgrow' := damageGrows_damageAdd (wm₁.damageAdd w.rect) { w.rect with x, y }
    have hnew : ({ w.rect with x, y } : Rect) ≤
        ((wm₁.damageAdd w.rect).damageAdd { w.rect with x, y }).dmg :=
      le_damageAdd _ (by simp only [GuiWindow.rect]; omega) (by simp only [GuiWindow.rect]; omega)
    refine ⟨⟨?_, fun v _ _ => ?_⟩, fun v hv h => hgrow' v hv (hgrow v hv h)⟩
    · rw [hplain]
      refine (filter_map_eq fun v hv => ?_).symm
      by_cases hid : v.id = id
      · obtain ⟨u, hu, rfl⟩ := List.mem_map.mp hv
        have huw : u = w := List.inj_on_of_nodup_map hnodup (mem_windows_of_shown hu).1 hw
          (hid.trans hwid.symm)
        subst huw
        refine Or.inr ⟨?_, ?_⟩
        · rw [decide_eq_false_iff_not, not_not]
          exact hgrow' u (hopen u hw) hold
        · rw [decide_eq_false_iff_not, not_not, if_pos hid]
          exact hnew
      · exact Or.inl (if_neg hid)
    · dsimp only
      rw [contentBuf_damageAdd, contentBuf_damageAdd]
      rfl

theorem staleWithin_closeWindow (hopen : ∀ w ∈ wm.windows, w.Open)
    (hnodup : (wm.windows.map (·.id)).Nodup) (id : ℕ) :
    wm.StaleWithin (wm.closeWindow id).dmg (wm.closeWindow id) ∧
      wm.DamageGrows (wm.closeWindow id) := by
  have hplain := wm.plain_closeWindow id
  have hcontent : (wm.closeWindow id).contentBuf = wm.contentBuf := by
    have hremove : ∀ wm : WindowManager, (wm.removeWindow id).contentBuf = wm.contentBuf := by
      intro wm
      simp only [removeWindow]
      split <;> rfl
    unfold closeWindow
    split
    · rw [hremove, contentBuf_damageAdd]
    · exact hremove wm
  have hdmg : ∀ wm : WindowManager, (wm.removeWindow id).dmg = wm.dmg := by
    intro wm
    simp only [removeWindow]
    split <;> rfl
  refine ⟨⟨?_, fun _ _ _ => by rw [hcontent]⟩, ?_⟩
  · rw [hplain, List.filter_comm]
    refine (List.filter_eq_self.mpr fun v hv => ?_).symm
    obtain ⟨hv, hout⟩ := List.mem_filter.mp hv
    obtain ⟨u, hu, rfl⟩ := List.mem_map.mp hv
    have humem := (mem_windows_of_shown hu).1
    rw [decide_eq_true_eq] at hout ⊢
    intro hclosed
    have hid : u.id = id := hclosed
    have hfind : wm.findWindow id = some u := by
      cases hfind : wm.findWindow id with
      | none => exact absurd hid (by simpa using List.find?_eq_none.mp hfind u humem)
      | some w =>
        have hwid : w.id = id := by simpa using List.find?_some hfind
        rw [List.inj_on_of_nodup_map hnodup (List.mem_of_find?_eq_some hfind) humem
          (hwid.trans hid.symm)]
    have hwidth := (hopen u humem).width
    have hheight := (hopen u humem).height
    refine hout ?_
    rw [closeWindow, hfind, hdmg]
    exact le_damageAdd (r := u.rect) wm (by simp only [GuiWindow.rect]; omega)
      (by simp only [GuiWindow.rect]; omega)
  · intro v hv h
    unfold closeWindow
    split
    · rw [hdmg]
      exact damageGrows_damageAdd wm _ v hv h
    · rw [hdmg]
      exact h

/-- `wm_focus_window` notes every visible window. -/
theorem le_foldl_damageAdd :
    ∀ (ws : List GuiWindow) (wm : WindowManager), (∀ w ∈ ws, w.Open) →
      (∀ w ∈ ws, w.rect ≤ (ws.foldl (fun wm w =>
        if w.visible then wm.damageAdd w.rect else wm) wm).dmg) ∧
      wm.DamageGrows (ws.foldl (fun wm w => if w.visible then wm.damageAdd w.rect else wm) wm)
  | [], _, _ => ⟨fun _ hw => absurd hw List.not_mem_nil, fun _ _ h => h⟩
  | w :: ws, wm, hopen => by
    have hw := hopen w List.mem_cons_self
    have hwidth := hw.width
    have hheight := hw.height
    rw [List.foldl_cons, if_pos hw.visible]
    obtain ⟨hcover, hgrow⟩ := le_foldl_damageAdd ws (wm.damageAdd w.rect) fun v hv =>
      hopen v (List.mem_cons_of_mem w hv)
    refine ⟨fun v hv => ?_, fun v hv h => hgrow v hv (damageGrows_damageAdd wm w.rect v hv h)⟩
    rcases List.mem_cons.mp hv with rfl | hv
    · exact hgrow v hw (le_damageAdd wm (by simp only [GuiWindow.rect]; omega)
        (by simp only [GuiWindow.rect]; omega))
    · exact hcover v hv

theorem staleWithin_focusWindow (hopen : ∀ w ∈ wm.windows, w.Open) (id : ℕ) :
    wm.StaleWithin (wm.focusWindow id).dmg (wm.focusWindow id) ∧
      wm.DamageGrows (wm.focusWindow id) := by
  let wm₁ : WindowManager := { wm with
    zOrder := wm.zOrder.filter (· ≠ id) ++ [id]
    windows := wm.windows.map fun w : GuiWindow => { w with focused := w.id = id } }
  have hopen₁ : ∀ w ∈ wm₁.windows, w.Open := fun w hw => by
    obtain ⟨v, hv, rfl⟩ := List.mem_map.mp hw
    have hv := hopen v hv
    exact ⟨hv.visible, hv.width, hv.height, hv.title⟩
  obtain ⟨hcover, hgrow⟩ := le_foldl_damageAdd wm₁.windows wm₁ hopen₁
  have hall : ∀ v ∈ wm.windows, v.rect ≤ (wm.focusWindow id).dmg := fun v hv =>
    hcover { v with focused := v.id = id } (List.mem_map_of_mem hv)
  have hnil : ∀ wm' : WindowManager, (∀ v ∈ wm'.plain, v.rect ≤ (wm.focusWindow id).dmg) →
      (wm'.plain.filter fun w => ¬ w.rect ≤ (wm.focusWindow id).dmg) = [] := fun wm' h =>
    List.filter_eq_nil_iff.mpr fun v hv => by simpa using h v hv
  refine ⟨⟨?_, fun v hv hout => ?_⟩, hgrow⟩
  · rw [hnil wm fun v hv => ?_, hnil (wm.focusWindow id) fun v hv => ?_]
    · obtain ⟨u, hu, -, hrect⟩ := plain_focusWindow_mem hv
      rw [← hrect]
      exact hall u hu
    · obtain ⟨u, hu, rfl⟩ := List.mem_map.mp hv
      exact hall u (mem_windows_of_shown hu).1
  · obtain ⟨u, hu, -, hrect⟩ := plain_focusWindow_mem (List.mem_map_of_mem hv)
    have hrect : u.rect = v.rect := hrect
    exact absurd (hrect ▸ hall u hu) hout

theorem staleWithin_createWindow (hnew : wm.nextId ∉ wm.zOrder)
    (hids : ∀ w ∈ wm.windows, w.id ∈ wm.zOrder) (title : List UInt8) (x y : ℤ)
    {width height : ℕ} (hw : 0 < width) (hh : 0 < height) :
    wm.StaleWithin (wm.createWindow title x y width height).1.dmg
        (wm.createWindow title x y width height).1 ∧
      wm.DamageGrows (wm.createWindow title x y width height).1 := by
  have hplain := plain_createWindow hnew hids title x y width height
  have hdmg : ∃ wm₁ : WindowManager, wm₁.dmg = wm.dmg ∧
      (wm.createWindow title x y width height).1.dmg =
        (wm₁.damageAdd ⟨x, y, width, height⟩).dmg := by
    refine ⟨_, ?_, rfl⟩
    rfl
  obtain ⟨wm₁, hsame, hdmg⟩ := hdmg
  have hcover : (⟨x, y, width, height⟩ : Rect) ≤
      (wm.createWindow title x y width height).1.dmg := by
    rw [hdmg]
    exact le_damageAdd wm₁ hw hh
  refine ⟨⟨?_, fun v hv hout => ?_⟩, fun v hv h => ?_⟩
  · have hnoted : ([(wm.fresh title x y width height).unfocused].filter fun w =>
        ¬ w.rect ≤ (wm.createWindow title x y width height).1.dmg) = [] := by
      refine List.filter_eq_nil_iff.mpr fun v hv => ?_
      rw [List.mem_singleton.mp hv, decide_eq_true_eq, not_not]
      exact hcover
    rw [hplain, List.filter_append, hnoted, List.append_nil]
  · have hid : v.id ≠ wm.nextId := by
      intro hid
      have hmem : v.unfocused ∈ (wm.createWindow title x y width height).1.plain :=
        List.mem_map_of_mem hv
      rw [hplain] at hmem
      rcases List.mem_append.mp hmem with hmem | hmem
      · obtain ⟨u, hu, heq⟩ := List.mem_map.mp hmem
        have huid := (GuiWindow.eq_of_unfocused heq).1
        exact hnew ((huid.trans hid) ▸ hids u (mem_windows_of_shown hu).1)
      · have heq := (GuiWindow.eq_of_unfocused (List.mem_singleton.mp hmem)).2
        exact hout (heq ▸ hcover)
    have hbuf : (wm.createWindow title x y width height).1.contentBuf =
        Function.update wm.contentBuf wm.nextId fun _ => 0 := by
      simp only [createWindow]
      rw [contentBuf_damageAdd]
    rw [hbuf, Function.update_of_ne hid]
  · rw [hdmg]
    exact damageGrows_damageAdd wm₁ _ v hv (by rwa [hsame])

end WindowManager

/-- A frame is one of all window managers that show the same windows with the same content. -/
theorem FrameOf.congr {scr : Screen} {font : ℕ → UInt8} {doBlur : Bool} {wm wm' : WindowManager}
    {c : Compositor} (h : FrameOf scr font doBlur wm c) (hshown : wm.shown = wm'.shown)
    (hcontent : ∀ w ∈ wm'.shown, wm.contentBuf w.id = wm'.contentBuf w.id) :
    FrameOf scr font doBlur wm' c := by
  have hsame : ∀ f, wm.composeAll scr font f doBlur = wm'.composeAll scr font f doBlur := by
    intro f
    rw [WindowManager.composeAll, WindowManager.composeAll, hshown]
    refine List.foldl_ext _ _ _ fun f w hw => ?_
    simp only [WindowManager.composeWindowGlass, hcontent w hw]
  unfold FrameOf fullFrame at h ⊢
  simpa only [hsame] using h

/-- After `desktop_draw_background` the screen shows the captured wallpaper. -/
theorem Compositor.wallpaper_background (scr : Screen) (c : Compositor) :
    (desktopDrawBackground scr c).wallpaperValid = true ∧
      AgreeOn scr.pixels (desktopDrawBackground scr c).backBuffer
        (desktopDrawBackground scr c).wallpaper := by
  unfold desktopDrawBackground
  cases hvalid : c.wallpaperValid with
  | true =>
    obtain ⟨f, hf, hcaches, hagree⟩ := wallpaperRestoreFull_of_valid scr hvalid
    have hpaper : f.wallpaper = c.wallpaper := congrArg Caches.wallpaper hcaches
    rw [hf]
    dsimp only
    rw [hpaper]
    exact ⟨(congrArg Caches.wallpaperValid hcaches).trans hvalid, hagree⟩
  | false =>
    rw [wallpaperRestoreFull, if_neg (by rw [hvalid]; exact Bool.false_ne_true)]
    exact ⟨rfl, fun p hp => (if_pos (Screen.mem_pixels.mp hp)).symm⟩

/-! ## Runs -/

/-- A call of the window manager, or a frame that draws the damage. -/
inductive FrameOp
  | call (op : WindowOp)
  | compose

/-- The window manager, the compositor, and the windows of the last frame. -/
structure FrameState where
  wm : WindowManager
  comp : Compositor
  drawn : WindowManager

namespace FrameState

/-- A frame takes the damage and draws it with `wm_compose_partial`. -/
def step (scr : Screen) (font : ℕ → UInt8) (doBlur : Bool) (s : FrameState) :
    FrameOp → Option FrameState
  | .call op => (s.wm.call op).map fun wm => { s with wm }
  | .compose =>
    let damage := s.wm.takeDamage
    match damage.1 with
    | none => some ⟨damage.2, s.comp, damage.2⟩
    | some r =>
      (damage.2.composePartial scr font s.comp r doBlur).map fun c => ⟨damage.2, c, damage.2⟩

/-- The first frame, drawn from scratch over the background. -/
def start (scr : Screen) (font : ℕ → UInt8) (doBlur : Bool) (wm : WindowManager) (c : Compositor) :
    FrameState :=
  ⟨wm, wm.composeAll scr font (desktopDrawBackground scr c) doBlur, wm⟩

/-- A new window is not small, its title fits and its id is not in use, and when a frame is drawn
the damage covers each window whose focus flag is not the one of the last frame. -/
def Noted (s : FrameState) : FrameOp → Prop
  | .call (.create title _ _ w h) =>
    s.wm.nextId ∉ s.wm.zOrder ∧ 64 ≤ w.toNat ∧ 64 ≤ h.toNat ∧
      8 * (title.take maxTitleLen).length + 7 ≤ w.toNat
  | .call _ => True
  | .compose => ∀ w ∈ s.drawn.shown, ∀ w' ∈ s.wm.shown, w.id = w'.id →
      w.focused ≠ w'.focused → w.rect ≤ s.wm.dmg

/-- The screen shows the windows of the last frame, and what changed since lies in the damage. -/
structure Fresh (scr : Screen) (font : ℕ → UInt8) (doBlur : Bool) (s : FrameState) : Prop where
  frame : FrameOf scr font doBlur s.drawn s.comp
  drawnOpen : ∀ w ∈ s.drawn.shown, w.Open
  windows : ∀ w ∈ s.wm.windows, w.Open
  ordered : s.wm.Ordered
  stale : s.drawn.StaleWithin s.wm.dmg s.wm

variable {scr : Screen} {font : ℕ → UInt8} {doBlur : Bool} {s s' : FrameState}

theorem Fresh.shown (h : s.Fresh scr font doBlur) : ∀ w ∈ s.wm.shown, w.Open :=
  fun w hw => h.windows w (WindowManager.mem_windows_of_shown hw).1

/-- What a call keeps. -/
theorem Fresh.of_call (h : s.Fresh scr font doBlur) {wm : WindowManager}
    (hopen : ∀ w ∈ wm.windows, w.Open) (hord : wm.Ordered)
    (hstale : s.wm.StaleWithin wm.dmg wm ∧ s.wm.DamageGrows wm) :
    ({ s with wm } : FrameState).Fresh scr font doBlur :=
  ⟨h.frame, h.drawnOpen, hopen, hord,
    (h.stale.mono h.drawnOpen h.shown hstale.2).trans hstale.1⟩

theorem open_of_map {ws : List GuiWindow} (h : ∀ w ∈ ws, w.Open) {f : GuiWindow → GuiWindow}
    (hvis : ∀ w, (f w).visible = w.visible) (hwidth : ∀ w, (f w).width = w.width)
    (hheight : ∀ w, (f w).height = w.height) (htitle : ∀ w, (f w).title = w.title) :
    ∀ w ∈ ws.map f, w.Open := by
  intro w hw
  obtain ⟨v, hv, rfl⟩ := List.mem_map.mp hw
  have hv := h v hv
  exact ⟨(hvis v).trans hv.visible, by rw [hwidth]; exact hv.width,
    by rw [hheight]; exact hv.height, by rw [htitle, hwidth]; exact hv.title⟩

theorem Fresh.call (h : s.Fresh scr font doBlur) {op : WindowOp} (hnoted : s.Noted (.call op))
    {wm : WindowManager} (hcall : s.wm.call op = some wm) :
    ({ s with wm } : FrameState).Fresh scr font doBlur := by
  cases op with
  | create title x y w h' =>
    obtain ⟨hnew, hwidth, hheight, htitle⟩ := hnoted
    obtain rfl := Option.some.inj hcall
    have hids : ∀ w ∈ s.wm.windows, w.id ∈ s.wm.zOrder := fun w hw =>
      h.ordered.mem_zOrder.mpr ⟨w, hw, rfl⟩
    have hord := h.ordered.createWindow hnew title (cInt x) (cInt y) w.toNat h'.toNat
    have hw : 0 < w.toNat := by omega
    have hh : 0 < h'.toNat := by omega
    obtain ⟨hstale, hgrow⟩ :=
      WindowManager.staleWithin_createWindow hnew hids title (cInt x) (cInt y) hw hh
    refine h.of_call ?_ ⟨hord.nodup, hord.perm, hord.focus⟩
      ⟨⟨hstale.plain, hstale.content⟩, hgrow⟩
    change ∀ v ∈ (s.wm.createWindow title (cInt x) (cInt y) w.toNat h'.toNat).1.windows, v.Open
    rw [(WindowManager.windows_createWindow s.wm title (cInt x) (cInt y) w.toNat h'.toNat).1,
      List.forall_mem_append, List.forall_mem_singleton]
    exact ⟨open_of_map h.windows (fun _ => rfl) (fun _ => rfl) (fun _ => rfl) fun _ => rfl,
      rfl, hwidth, hheight, htitle⟩
  | close id =>
    obtain rfl := Option.some.inj hcall
    refine h.of_call ?_ (h.ordered.closeWindow id)
      (WindowManager.staleWithin_closeWindow h.windows h.ordered.nodup_ids id)
    rw [(WindowManager.windows_closeWindow s.wm id).1]
    exact open_of_map (fun w hw => h.windows w (List.mem_of_mem_filter hw))
      (fun _ => by split <;> rfl) (fun _ => by split <;> rfl) (fun _ => by split <;> rfl)
      fun _ => by split <;> rfl
  | focus id =>
    obtain ⟨hex, hcall⟩ := Option.ite_none_right_eq_some.mp hcall
    obtain rfl := Option.some.inj hcall
    refine h.of_call ?_ (h.ordered.focusWindow hex)
      (WindowManager.staleWithin_focusWindow h.windows id)
    rw [(WindowManager.windows_focusWindow s.wm id).1]
    exact open_of_map h.windows (fun _ => rfl) (fun _ => rfl) (fun _ => rfl) fun _ => rfl
  | move id x y =>
    obtain rfl := Option.some.inj hcall
    refine h.of_call ?_ (h.ordered.moveWindow id _ _)
      (WindowManager.staleWithin_moveWindow h.windows h.ordered.nodup_ids id _ _)
    rw [(WindowManager.windows_moveWindow s.wm id _ _).1]
    exact open_of_map h.windows (fun _ => by split <;> rfl) (fun _ => by split <;> rfl)
      (fun _ => by split <;> rfl) fun _ => by split <;> rfl

/-- A frame succeeds and shows the windows as they are. -/
theorem Fresh.compose (h : s.Fresh scr font doBlur) (hnoted : s.Noted .compose) :
    ∃ s', s.step scr font doBlur .compose = some s' ∧ s'.Fresh scr font doBlur ∧
      s'.wm.shown = s.wm.shown ∧ s'.drawn = s'.wm := by
  have hchanged := h.stale.changedWithin hnoted
  have htaken : s.wm.takeDamage.2 = { s.wm with dmg := s.wm.takeDamage.2.dmg } := by
    unfold WindowManager.takeDamage
    split <;> rfl
  unfold step
  dsimp only
  generalize hwm : s.wm.takeDamage.2 = wm at htaken ⊢
  have hordered : wm.Ordered := by
    rw [htaken]
    exact ⟨h.ordered.nodup, h.ordered.perm, h.ordered.focus⟩
  have hwindows : ∀ w ∈ wm.windows, w.Open := by
    rw [htaken]
    exact h.windows
  have hshown : wm.shown = s.wm.shown := by
    rw [htaken]
    rfl
  have hopen : ∀ w ∈ wm.shown, w.Open := hshown ▸ h.shown
  have hfresh : ∀ c, FrameOf scr font doBlur wm c →
      (⟨wm, c, wm⟩ : FrameState).Fresh scr font doBlur := fun c hc =>
    ⟨hc, hopen, hwindows, hordered, .refl _ _⟩
  have hchanged : s.drawn.ChangedWithin s.wm.dmg wm := by
    rw [htaken]
    exact ⟨hchanged.shown, hchanged.content⟩
  unfold WindowManager.takeDamage
  by_cases hempty : s.wm.dmg.w = 0 ∨ s.wm.dmg.h = 0
  · -- nothing was noted, so no window changed
    rw [if_pos hempty]
    refine ⟨_, rfl, hfresh s.comp ?_, hshown, rfl⟩
    have hall : ∀ ws : List GuiWindow, (∀ w ∈ ws, w.Open) →
        (ws.filter fun w => ¬ w.rect ≤ s.wm.dmg) = ws := fun ws hws =>
      List.filter_eq_self.mpr fun w hw => by
        have hwidth := (hws w hw).width
        have hheight := (hws w hw).height
        rw [decide_eq_true_eq, Rect.le_def]
        simp only [GuiWindow.rect]
        omega
    have hsame := hchanged.shown
    rw [hall _ h.drawnOpen, hall _ hopen] at hsame
    refine h.frame.congr hsame fun w hw => hchanged.content w hw ?_
    rw [← hall _ hopen] at hw
    exact of_decide_eq_true (List.mem_filter.mp hw).2
  · rw [if_neg hempty]
    obtain ⟨-, c, hc, hframe⟩ := h.frame.partial_compose_frame h.drawnOpen hopen hchanged
    dsimp only
    rw [hc]
    exact ⟨_, rfl, hfresh c hframe, hshown, rfl⟩

theorem fresh_start (c : Compositor) {wm : WindowManager} (hord : wm.Ordered)
    (hopen : ∀ w ∈ wm.windows, w.Open) :
    (start scr font doBlur wm c).Fresh scr font doBlur where
  frame := by
    obtain ⟨hvalid, hagree⟩ := Compositor.wallpaper_background scr c
    exact FrameOf.of_composeAll wm hvalid hagree
  drawnOpen w hw := hopen w (WindowManager.mem_windows_of_shown hw).1
  windows := hopen
  ordered := hord
  stale := .refl _ _

end FrameState

/-- The lower one of two windows is moved and raised. -/
def raiseCalls : List FrameOp :=
  [.call (.move 1 20 25), .call (.focus 1), .compose]

end VernisOS
