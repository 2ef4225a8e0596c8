import Mathlib.Data.List.Nodup
import VernisOS.Lib.Bytes
import VernisOS.Lib.Run
import VernisOS.DeskLayout

/-!
# The order of the windows

Ids, the window vector, the z-order and the focus flags over whole runs of `wm_create_window`,
`wm_close_window`, `wm_focus_window` and `wm_move_window`. The z-order lists every window once and
its last entry has the focus, whatever the run (`WindowManager.Ordered`). `wm_hit_test` adds
positions and sizes as `i32` : it finds the topmost window at every point exactly as long as the
windows end within the `i32` (`window_order_iff`).
-/

open Bytes Run

namespace VernisOS

/-- An `i32` after an addition that wraps. -/
def wrapI32 (z : ℤ) : ℤ :=
  Int.bmod z (2 ^ 32)

namespace GuiWindow

/-- The window is visible and its rectangle contains the point. -/
def contains (w : GuiWindow) (mx my : ℤ) : Bool :=
  w.visible ∧ (w.x ≤ mx ∧ mx < w.x + w.width) ∧ w.y ≤ my ∧ my < w.y + w.height

/-- The same with the sums of `wm_hit_test`. -/
def containsI32 (w : GuiWindow) (mx my : ℤ) : Bool :=
  w.visible ∧ (w.x ≤ mx ∧ mx < wrapI32 (w.x + w.width)) ∧
    w.y ≤ my ∧ my < wrapI32 (w.y + w.height)

end GuiWindow

/-- The rectangle is empty or ends within the `i32`. -/
def Rect.Fits (r : Rect) : Prop :=
  r.w = 0 ∨ r.h = 0 ∨ r.x + r.w < 2 ^ 31 ∧ r.y + r.h < 2 ^ 31

instance Rect.decidableFits (r : Rect) : Decidable r.Fits :=
  inferInstanceAs (Decidable (_ ∨ _ ∨ _ ∧ _))

namespace WindowManager

/-! ## Hit tests -/

/-- What `(mx, my)` hits of a window, every sum an `i32`. -/
def hitWindowI32 (w : GuiWindow) (mx my : ℤ) : Option HitArea :=
  if w.containsI32 mx my then
    let closeX := wrapI32 (w.x + w.width - borderWidth - closeBtnSize - 4)
    let closeY := wrapI32 (w.y + borderWidth + 4)
    if (closeX ≤ mx ∧ mx < wrapI32 (closeX + closeBtnSize)) ∧
        closeY ≤ my ∧ my < wrapI32 (closeY + closeBtnSize) then
      some .closeButton
    else if my < wrapI32 (w.y + titleBarHeight) then some .titleBar
    else some .content
  else none

/-- `wm_hit_test` on `i32`. -/
def hitTestI32 (wm : WindowManager) (mx my : ℤ) : Option (ℕ × HitArea) :=
  wm.zOrder.reverse.findSome? fun id =>
    match wm.findWindow id with
    | none => none
    | some w => (hitWindowI32 w mx my).map fun area => (id, area)

/-- The last visible window of the z-order whose rectangle contains the point. -/
def topAt (wm : WindowManager) (mx my : ℤ) : Option ℕ :=
  ((wm.zOrder.filterMap wm.findWindow).filter (·.contains mx my)).getLast?.map (·.id)

/-! ## Runs -/

end WindowManager

inductive WindowOp
  | create (title : List UInt8) (x y w h : UInt32)
  | close (id : ℕ)
  | focus (id : ℕ)
  | move (id : ℕ) (x y : UInt32)

def WindowOp.isCreate : WindowOp → Bool
  | .create .. => true
  | _ => false

namespace WindowManager

/-- One call. `next_id` is a `u32`, and the focus goes to windows that exist. -/
def call (wm : WindowManager) : WindowOp → Option WindowManager
  | .create title x y w h =>
    let r := (wm.createWindow title (cInt x) (cInt y) w.toNat h.toNat).1
    some { r with nextId := r.nextId % 2 ^ 32 }
  | .close id => some (wm.closeWindow id)
  | .focus id => if wm.windowExists id then some (wm.focusWindow id) else none
  | .move id x y => some (wm.moveWindow id (cInt x) (cInt y))

/-- The z-order lists the id of every window once and nothing else, and its last window is the one
with the focus. -/
structure Ordered (wm : WindowManager) : Prop where
  nodup : wm.zOrder.Nodup
  perm : wm.zOrder.Perm (wm.windows.map (·.id))
  focus : ∀ w ∈ wm.windows, w.focused = true ↔ wm.zOrder.getLast? = some w.id

/-- A hit test finds the topmost window, at every point. -/
def HitsTop (wm : WindowManager) : Prop :=
  ∀ mx my : UInt32,
    (wm.hitTestI32 (cInt mx) (cInt my)).map Prod.fst = wm.topAt (cInt mx) (cInt my)

/-- The window that the call creates or moves ends within the `i32`. -/
def CallFits (wm : WindowManager) : WindowOp → Prop
  | .create _ x y w h => Rect.Fits ⟨cInt x, cInt y, w.toNat, h.toNat⟩
  | .move id x y =>
    ∀ w ∈ wm.windows, w.id = id → Rect.Fits { w.rect with x := cInt x, y := cInt y }
  | _ => True

/-! ## Windows and z-order after a call -/

variable {wm : WindowManager} {id : ℕ}

theorem windows_of_bare {wm' : WindowManager} (h : wm.bare = wm'.bare) :
    wm.windows = wm'.windows ∧ wm.zOrder = wm'.zOrder ∧ wm.nextId = wm'.nextId :=
  ⟨congrArg (·.windows) h, congrArg (·.zOrder) h, congrArg (·.nextId) h⟩

theorem windows_createWindow (wm : WindowManager) (title : List UInt8) (x y : ℤ) (w h : ℕ) :
    let s := (wm.createWindow title x y w h).1
    s.windows = (wm.windows.map fun w : GuiWindow => { w with focused := false }) ++
        [⟨wm.nextId, title.take maxTitleLen, x, y, w, h, true, true⟩] ∧
      s.zOrder = wm.zOrder ++ [wm.nextId] ∧ s.nextId = wm.nextId + 1 := by
  simp only [createWindow]
  exact windows_of_bare (bare_damageAdd _)

/-- The windows that `wm_close_window` leaves, with the focus at the top. -/
theorem windows_closeWindow (wm : WindowManager) (id : ℕ) :
    (wm.closeWindow id).windows = ((wm.windows.filter (·.id ≠ id)).map fun w : GuiWindow =>
        if (wm.zOrder.filter (· ≠ id)).getLast? = some w.id then { w with focused := true }
        else w) ∧
      (wm.closeWindow id).zOrder = wm.zOrder.filter (· ≠ id) ∧
      (wm.closeWindow id).nextId = wm.nextId := by
  have hclose : (wm.closeWindow id).bare = (wm.removeWindow id).bare := by
    unfold closeWindow
    split
    · rw [bare_removeWindow, bare_damageAdd, ← bare_removeWindow]
    · rfl
  obtain ⟨hwindows, hz, hnext⟩ := windows_of_bare hclose
  rw [hwindows, hz, hnext]
  simp only [removeWindow]
  cases (wm.zOrder.filter (· ≠ id)).getLast? with
  | none => exact ⟨by simp, rfl, rfl⟩
  | some top =>
    refine ⟨List.map_congr_left fun w _ => ?_, rfl, rfl⟩
    simp only [Option.some.injEq, eq_comm]

theorem windows_focusWindow (wm : WindowManager) (id : ℕ) :
    (wm.focusWindow id).windows =
        (wm.windows.map fun w : GuiWindow => { w with focused := w.id = id }) ∧
      (wm.focusWindow id).zOrder = wm.zOrder.filter (· ≠ id) ++ [id] ∧
      (wm.focusWindow id).nextId = wm.nextId := by
  simp only [focusWindow]
  exact windows_of_bare (bare_foldl_damageAdd _)

theorem windows_moveWindow (wm : WindowManager) (id : ℕ) (x y : ℤ) :
    (wm.moveWindow id x y).windows = (wm.windows.map fun w : GuiWindow =>
        if w.id = id then { w with x, y } else w) ∧
      (wm.moveWindow id x y).zOrder = wm.zOrder ∧
      (wm.moveWindow id x y).nextId = wm.nextId := by
  unfold moveWindow
  cases hfind : wm.findWindow id with
  | none =>
    have hother := List.find?_eq_none.mp hfind
    have hsame : ∀ w ∈ wm.windows, (if w.id = id then { w with x, y } else w) = w :=
      fun w hw => if_neg fun h => hother w hw (decide_eq_true h)
    exact ⟨by rw [List.map_congr_left hsame, List.map_id'], rfl, rfl⟩
  | some w =>
    exact windows_of_bare ((bare_damageAdd _).trans (bare_damageAdd _))

/-! ## The order -/

/-- The last item stays last if it is kept. -/
theorem getLast?_filter_of_pos {l : List ℕ} {a : ℕ} {p : ℕ → Bool} (h : l.getLast? = some a)
    (ha : p a = true) : (l.filter p).getLast? = some a := by
  obtain ⟨front, rfl⟩ := List.getLast?_eq_some_iff.mp h
  rw [List.filter_append, List.filter_cons_of_pos ha, List.filter_nil,
    List.getLast?_concat]

/-- Moving an id to the top keeps the ids. -/
theorem perm_raise {l : List ℕ} (hl : l.Nodup) (h : id ∈ l) :
    (l.filter (· ≠ id) ++ [id]).Perm l := by
  have herase : l.filter (· ≠ id) = l.erase id := by
    rw [hl.erase_eq_filter]
    exact List.filter_congr fun a _ => by simp [bne, beq_eq_decide]
  rw [herase]
  exact (List.perm_append_singleton id _).trans (List.perm_cons_erase h).symm

theorem map_ids {ws : List GuiWindow} {f : GuiWindow → GuiWindow} (hf : ∀ w, (f w).id = w.id) :
    (ws.map f).map (·.id) = ws.map (·.id) := by
  rw [List.map_map]
  exact List.map_congr_left fun w _ => hf w

theorem Ordered.mem_zOrder (h : wm.Ordered) :
    id ∈ wm.zOrder ↔ ∃ w ∈ wm.windows, w.id = id := by
  rw [h.perm.mem_iff, List.mem_map]

theorem Ordered.nodup_ids (h : wm.Ordered) : (wm.windows.map (·.id)).Nodup :=
  h.perm.nodup_iff.mp h.nodup

theorem Ordered.createWindow (h : wm.Ordered) (hnew : wm.nextId ∉ wm.zOrder)
    (title : List UInt8) (x y : ℤ) (width height : ℕ) :
    (wm.createWindow title x y width height).1.Ordered := by
  obtain ⟨hwindows, hz, -⟩ := windows_createWindow wm title x y width height
  constructor
  · rw [hz]
    rw [← List.concat_eq_append]
    exact List.Nodup.concat hnew h.nodup
  · rw [hz, hwindows, List.map_append, List.map_map]
    exact h.perm.append (List.Perm.refl _)
  · rw [hz, hwindows, List.getLast?_concat]
    intro w hw
    rcases List.mem_append.mp hw with hw | hw
    · obtain ⟨w', hw', rfl⟩ := List.mem_map.mp hw
      refine iff_of_false Bool.false_ne_true fun heq => hnew ?_
      exact h.mem_zOrder.mpr ⟨w', hw', (Option.some.inj heq).symm⟩
    · rw [List.mem_singleton.mp hw]
      exact iff_of_true rfl rfl

theorem Ordered.closeWindow (h : wm.Ordered) (id : ℕ) : (wm.closeWindow id).Ordered := by
  obtain ⟨hwindows, hz, -⟩ := windows_closeWindow wm id
  constructor
  · rw [hz]
    exact h.nodup.filter _
  · have hkept := h.perm.filter (· ≠ id)
    rw [List.filter_map] at hkept
    rw [hz, hwindows, map_ids (fun w => by split <;> rfl)]
    exact hkept
  · rw [hz, hwindows]
    intro w' hw'
    obtain ⟨w, hw, rfl⟩ := List.mem_map.mp hw'
    obtain ⟨hw, hid⟩ := List.mem_filter.mp hw
    by_cases htop : (wm.zOrder.filter (· ≠ id)).getLast? = some w.id
    · rw [if_pos htop]
      exact iff_of_true rfl htop
    · -- the window was not on top before either, or it would be now
      rw [if_neg htop]
      refine iff_of_false (fun hfocus => htop ?_) htop
      exact getLast?_filter_of_pos ((h.focus w hw).mp hfocus) hid

theorem Ordered.focusWindow (h : wm.Ordered) (hid : wm.windowExists id = true) :
    (wm.focusWindow id).Ordered := by
  obtain ⟨hwindows, hz, -⟩ := windows_focusWindow wm id
  have hmem : id ∈ wm.zOrder := by
    obtain ⟨w, hw, hwid⟩ := List.any_eq_true.mp hid
    exact h.mem_zOrder.mpr ⟨w, hw, of_decide_eq_true hwid⟩
  have hraise := perm_raise h.nodup hmem
  constructor
  · rw [hz]
    exact hraise.nodup_iff.mpr h.nodup
  · rw [hz, hwindows, List.map_map]
    exact hraise.trans h.perm
  · rw [hz, hwindows, List.getLast?_concat]
    intro w' hw'
    obtain ⟨w, -, rfl⟩ := List.mem_map.mp hw'
    rw [Option.some.injEq]
    exact decide_eq_true_iff.trans eq_comm

theorem Ordered.moveWindow (h : wm.Ordered) (id : ℕ) (x y : ℤ) : (wm.moveWindow id x y).Ordered := by
  obtain ⟨hwindows, hz, -⟩ := windows_moveWindow wm id x y
  have hids : ∀ w : GuiWindow, (if w.id = id then { w with x, y } else w).id = w.id :=
    fun w => by split <;> rfl
  constructor
  · rw [hz]
    exact h.nodup
  · rw [hz, hwindows, map_ids hids]
    exact h.perm
  · rw [hz, hwindows]
    intro w' hw'
    obtain ⟨w, hw, rfl⟩ := List.mem_map.mp hw'
    rw [hids]
    have hfocus := h.focus w hw
    split <;> exact hfocus

/-! ## What a hit test finds -/

/-- A hit test looks for the last window of the z-order that contains the point, by its sums. -/
theorem hitTestI32_eq (wm : WindowManager) (mx my : ℤ) :
    (wm.hitTestI32 mx my).map Prod.fst =
      ((wm.zOrder.filterMap wm.findWindow).filter (·.containsI32 mx my)).getLast?.map (·.id) := by
  rw [hitTestI32, ← List.getLast?_filterMap, ← List.getLast?_map, ← List.getLast?_map,
    List.map_filterMap, List.filter_filterMap, List.map_filterMap]
  congr 2
  funext id
  cases hfind : wm.findWindow id with
  | none => rfl
  | some w =>
    have hid : w.id = id := by simpa using List.find?_some hfind
    simp only [hitWindowI32]
    by_cases hin : w.containsI32 mx my = true
    · simp only [Option.filter_some, hin, if_true, Option.map_some, hid]
      split
      · rfl
      · split <;> rfl
    · simp only [Option.filter_some, hin]
      rfl

/-- The positions and sizes of a window are an `i32` and a `u32`. -/
structure InRange (r : Rect) : Prop where
  x : -2 ^ 31 ≤ r.x ∧ r.x < 2 ^ 31
  y : -2 ^ 31 ≤ r.y ∧ r.y < 2 ^ 31
  w : r.w < 2 ^ 32
  h : r.h < 2 ^ 32

/-- An end beyond the `i32` wraps to a coordinate before the start. -/
theorem wrapI32_add {x : ℤ} {n : ℕ} (hx : -2 ^ 31 ≤ x ∧ x < 2 ^ 31) (hn : n < 2 ^ 32) :
    x + n < 2 ^ 31 ∧ wrapI32 (x + n) = x + n ∨
      2 ^ 31 ≤ x + n ∧ wrapI32 (x + n) = x + n - 2 ^ 32 := by
  rw [wrapI32, Int.bmod_def]
  split <;> omega

theorem containsI32_of_fits {w : GuiWindow} (hr : InRange w.rect) (h : w.rect.Fits) (mx my : ℤ) :
    w.containsI32 mx my = w.contains mx my := by
  have hfits : w.width = 0 ∨ w.height = 0 ∨ w.x + w.width < 2 ^ 31 ∧ w.y + w.height < 2 ^ 31 := h
  have hx := wrapI32_add hr.x hr.w
  have hy := wrapI32_add hr.y hr.h
  simp only [GuiWindow.rect] at hx hy
  simp only [GuiWindow.containsI32, GuiWindow.contains, decide_eq_decide]
  rcases hx with ⟨hx, hex⟩ | ⟨hx, hex⟩ <;> rcases hy with ⟨hy, hey⟩ | ⟨hy, hey⟩ <;>
    rw [hex, hey] <;> omega

/-- A window that ends beyond the `i32` on a side is never hit. -/
theorem containsI32_of_not_lt {w : GuiWindow} (hr : InRange w.rect)
    (h : ¬ (w.x + w.width < 2 ^ 31 ∧ w.y + w.height < 2 ^ 31)) (mx my : ℤ) :
    w.containsI32 mx my = false := by
  have hx := wrapI32_add hr.x hr.w
  have hy := wrapI32_add hr.y hr.h
  have hw := hr.w
  have hh := hr.h
  simp only [GuiWindow.rect] at hx hy hw hh
  simp only [GuiWindow.containsI32, decide_eq_false_iff_not]
  rcases hx with ⟨hx, hex⟩ | ⟨hx, hex⟩ <;> rcases hy with ⟨hy, hey⟩ | ⟨hy, hey⟩ <;>
    rw [hex, hey] <;> omega

/-! ## The invariant -/

/-- The state after `k` windows have been created, as far as the calls depend on it. -/
structure Kept (k : ℕ) (wm : WindowManager) : Prop extends wm.Ordered where
  next : wm.nextId = (k + 1) % 2 ^ 32
  ids : ∀ w ∈ wm.windows, w.id ≤ k
  visible : ∀ w ∈ wm.windows, w.visible = true
  range : ∀ w ∈ wm.windows, InRange w.rect

/-- Every window is empty or ends within the `i32`. -/
def AllFit (wm : WindowManager) : Prop :=
  ∀ w ∈ wm.windows, w.rect.Fits

/-- The windows in z-order are the windows. -/
theorem Ordered.mem_shown (h : wm.Ordered) {w : GuiWindow} :
    w ∈ wm.zOrder.filterMap wm.findWindow ↔ w ∈ wm.windows := by
  rw [List.mem_filterMap]
  constructor
  · rintro ⟨id, -, hfind⟩
    exact List.mem_of_find?_eq_some hfind
  · intro hw
    refine ⟨w.id, h.mem_zOrder.mpr ⟨w, hw, rfl⟩, ?_⟩
    have hsome : (wm.findWindow w.id).isSome := by
      rw [findWindow, List.find?_isSome]
      exact ⟨w, hw, by simp⟩
    obtain ⟨w', hfind⟩ := Option.isSome_iff_exists.mp hsome
    have hid : w'.id = w.id := by simpa using List.find?_some hfind
    rw [hfind, List.inj_on_of_nodup_map h.nodup_ids (List.mem_of_find?_eq_some hfind) hw hid]

theorem cInt_range (n : UInt32) : -2 ^ 31 ≤ cInt n ∧ cInt n < 2 ^ 31 := by
  have hn := n.toNat_lt
  rw [cInt_eq]
  split <;> omega

/-- Every point on the screen's coordinates is an `i32`. -/
theorem exists_cInt {z : ℤ} (h : -2 ^ 31 ≤ z ∧ z < 2 ^ 31) : ∃ n : UInt32, cInt n = z := by
  refine ⟨UInt32.ofNat (z % 2 ^ 32).toNat, ?_⟩
  rw [cInt_eq, UInt32.toNat_ofNat_of_lt' (by simp only [UInt32.size]; omega)]
  split <;> omega

/-- A coordinate of a side, the last `i32` if the side reaches that far. -/
theorem exists_coordinate {x : ℤ} {n : ℕ} (hx : -2 ^ 31 ≤ x ∧ x < 2 ^ 31) (hn : n ≠ 0) :
    ∃ p : UInt32, x ≤ cInt p ∧ cInt p < x + n ∧ (2 ^ 31 ≤ x + n → cInt p = 2 ^ 31 - 1) := by
  by_cases hfar : 2 ^ 31 ≤ x + n
  · obtain ⟨p, hp⟩ := exists_cInt (z := 2 ^ 31 - 1) (by omega)
    exact ⟨p, by omega, by omega, fun _ => hp⟩
  · obtain ⟨p, hp⟩ := exists_cInt hx
    exact ⟨p, by omega, by omega, fun h => absurd h hfar⟩

/-- A hit test is right at every point exactly if all windows fit. -/
theorem hitsTop_iff {k : ℕ} (h : wm.Kept k) : wm.HitsTop ↔ wm.AllFit := by
  constructor
  · intro hits w hw
    by_contra hfits
    obtain ⟨hwidth, hheight, hfar⟩ : w.width ≠ 0 ∧ w.height ≠ 0 ∧
        ¬ (w.x + w.width < 2 ^ 31 ∧ w.y + w.height < 2 ^ 31) := by
      simpa only [Rect.Fits, GuiWindow.rect, not_or] using hfits
    -- at the last point of the window whatever is on top ends beyond the `i32` too
    obtain ⟨px, hpx, hpx', hlastx⟩ := exists_coordinate (h.range w hw).x hwidth
    obtain ⟨py, hpy, hpy', hlasty⟩ := exists_coordinate (h.range w hw).y hheight
    have hin : w.contains (cInt px) (cInt py) = true :=
      decide_eq_true ⟨h.visible w hw, ⟨hpx, hpx'⟩, hpy, hpy'⟩
    have hbeyond : ∀ v : GuiWindow, v.contains (cInt px) (cInt py) = true →
        ¬ (v.x + v.width < 2 ^ 31 ∧ v.y + v.height < 2 ^ 31) := by
      intro v hv
      obtain ⟨-, ⟨-, hx⟩, -, hy⟩ := of_decide_eq_true hv
      simp only [GuiWindow.rect] at hlastx hlasty
      omega
    have hmem : w ∈ (wm.zOrder.filterMap wm.findWindow).filter (·.contains (cInt px) (cInt py)) :=
      List.mem_filter.mpr ⟨h.mem_shown.mpr hw, hin⟩
    have hv := List.getLast?_eq_some_getLast (List.ne_nil_of_mem hmem)
    generalize List.getLast _ _ = v at hv
    obtain ⟨hvmem, hvin⟩ := List.mem_filter.mp (List.mem_of_getLast? hv)
    have hhit := hits px py
    rw [hitTestI32_eq, topAt, hv, Option.map_some, Option.map_eq_some_iff] at hhit
    obtain ⟨u, hu, hid⟩ := hhit
    obtain ⟨humem, huin⟩ := List.mem_filter.mp (List.mem_of_getLast? hu)
    have huv := List.inj_on_of_nodup_map h.nodup_ids (h.mem_shown.mp humem)
      (h.mem_shown.mp hvmem) hid
    rw [huv, containsI32_of_not_lt (h.range v (h.mem_shown.mp hvmem)) (hbeyond v hvin)] at huin
    exact Bool.false_ne_true huin
  · intro hfit mx my
    rw [hitTestI32_eq, topAt]
    congr 2
    refine List.filter_congr fun w hw => ?_
    have hmem := h.mem_shown.mp hw
    exact containsI32_of_fits (h.range w hmem) (hfit w hmem) _ _

/-! ## Calls -/

/-- The windows keep their ids, flags and sizes under a change that moves none out of range. -/
theorem Kept.map {k : ℕ} (h : wm.Kept k) {wm' : WindowManager} (hord : wm'.Ordered)
    (hnext : wm'.nextId = wm.nextId) {ws : List GuiWindow} (hws : ∀ w ∈ ws, w ∈ wm.windows)
    {f : GuiWindow → GuiWindow} (hwindows : wm'.windows = ws.map f)
    (hid : ∀ w, (f w).id = w.id) (hvis : ∀ w, (f w).visible = w.visible)
    (hrange : ∀ w, InRange w.rect → InRange (f w).rect) : wm'.Kept k := by
  have hmem : ∀ w' ∈ wm'.windows, ∃ w ∈ wm.windows, f w = w' := fun w' hw' => by
    rw [hwindows] at hw'
    obtain ⟨w, hw, hf⟩ := List.mem_map.mp hw'
    exact ⟨w, hws w hw, hf⟩
  refine ⟨hord, hnext.trans h.next, ?_, ?_, ?_⟩
  · intro w' hw'
    obtain ⟨w, hw, rfl⟩ := hmem w' hw'
    rw [hid]
    exact h.ids w hw
  · intro w' hw'
    obtain ⟨w, hw, rfl⟩ := hmem w' hw'
    rw [hvis]
    exact h.visible w hw
  · intro w' hw'
    obtain ⟨w, hw, rfl⟩ := hmem w' hw'
    exact hrange w (h.range w hw)

/-- The windows that a call has created. -/
def created (op : WindowOp) : ℕ :=
  if op.isCreate then 1 else 0

/-- A call keeps the invariant while ids are left. -/
theorem Kept.call {k : ℕ} (h : wm.Kept k) {op : WindowOp} (hk : k + created op < 2 ^ 32)
    {wm' : WindowManager} (hcall : wm.call op = some wm') : wm'.Kept (k + created op) := by
  cases op with
  | create title x y width height =>
    obtain rfl := Option.some.inj hcall
    have hid : wm.nextId = k + 1 := h.next.trans (Nat.mod_eq_of_lt hk)
    have hnew : wm.nextId ∉ wm.zOrder := fun hin => by
      obtain ⟨w, hw, hwid⟩ := h.mem_zOrder.mp hin
      have hle := h.ids w hw
      omega
    have hord := h.toOrdered.createWindow hnew title (cInt x) (cInt y) width.toNat height.toNat
    obtain ⟨hwindows, -, hnext⟩ :=
      windows_createWindow wm title (cInt x) (cInt y) width.toNat height.toNat
    have hmem : ∀ w ∈ (wm.createWindow title (cInt x) (cInt y) width.toNat height.toNat).1.windows,
        w.id ≤ k + 1 ∧ w.visible = true ∧ InRange w.rect := by
      rw [hwindows]
      intro w hw
      rcases List.mem_append.mp hw with hw | hw
      · obtain ⟨w', hw', rfl⟩ := List.mem_map.mp hw
        exact ⟨(h.ids w' hw').trans (Nat.le_succ k), h.visible w' hw', h.range w' hw'⟩
      · rw [List.mem_singleton.mp hw]
        exact ⟨hid.le, rfl, cInt_range x, cInt_range y, width.toNat_lt, height.toNat_lt⟩
    exact ⟨⟨hord.nodup, hord.perm, hord.focus⟩, by dsimp only; rw [hnext, hid]; rfl,
      fun w hw => (hmem w hw).1, fun w hw => (hmem w hw).2.1, fun w hw => (hmem w hw).2.2⟩
  | close id =>
    obtain rfl := Option.some.inj hcall
    obtain ⟨hwindows, -, hnext⟩ := windows_closeWindow wm id
    refine h.map (h.toOrdered.closeWindow id) hnext (fun w hw => List.mem_of_mem_filter hw)
      hwindows ?_ ?_ ?_
    · intro w
      split <;> rfl
    · intro w
      split <;> rfl
    · intro w hw
      split <;> exact hw
  | focus id =>
    obtain ⟨hex, hcall⟩ := Option.ite_none_right_eq_some.mp hcall
    obtain rfl := Option.some.inj hcall
    obtain ⟨hwindows, -, hnext⟩ := windows_focusWindow wm id
    exact h.map (h.toOrdered.focusWindow hex) hnext (fun w hw => hw) hwindows (fun _ => rfl)
      (fun _ => rfl) fun _ hw => hw
  | move id x y =>
    obtain rfl := Option.some.inj hcall
    obtain ⟨hwindows, -, hnext⟩ := windows_moveWindow wm id (cInt x) (cInt y)
    refine h.map (h.toOrdered.moveWindow id _ _) hnext (fun w hw => hw) hwindows ?_ ?_ ?_
    · intro w
      split <;> rfl
    · intro w
      split <;> rfl
    · intro w hw
      split
      · exact ⟨cInt_range x, cInt_range y, hw.w, hw.h⟩
      · exact hw

/-- After a call all windows fit exactly if the window that it creates or moves does. -/
theorem allFit_call (hfit : wm.AllFit) {op : WindowOp} {wm' : WindowManager}
    (hcall : wm.call op = some wm') : wm'.AllFit ↔ wm.CallFits op := by
  cases op with
  | create title x y width height =>
    obtain rfl := Option.some.inj hcall
    obtain ⟨hwindows, -, -⟩ :=
      windows_createWindow wm title (cInt x) (cInt y) width.toNat height.toNat
    change (∀ w ∈ (wm.createWindow title (cInt x) (cInt y) width.toNat height.toNat).1.windows,
      w.rect.Fits) ↔ _
    rw [hwindows, List.forall_mem_append, List.forall_mem_map, List.forall_mem_singleton]
    exact and_iff_right hfit
  | close id =>
    obtain rfl := Option.some.inj hcall
    obtain ⟨hwindows, -, -⟩ := windows_closeWindow wm id
    refine iff_of_true ?_ trivial
    rw [AllFit, hwindows, List.forall_mem_map]
    intro w hw
    have hw := hfit w (List.mem_of_mem_filter hw)
    split <;> exact hw
  | focus id =>
    obtain ⟨-, hcall⟩ := Option.ite_none_right_eq_some.mp hcall
    obtain rfl := Option.some.inj hcall
    obtain ⟨hwindows, -, -⟩ := windows_focusWindow wm id
    refine iff_of_true ?_ trivial
    rw [AllFit, hwindows, List.forall_mem_map]
    exact hfit
  | move id x y =>
    obtain rfl := Option.some.inj hcall
    obtain ⟨hwindows, -, -⟩ := windows_moveWindow wm id (cInt x) (cInt y)
    rw [AllFit, hwindows, List.forall_mem_map]
    refine forall₂_congr fun w hw => ?_
    have hw := hfit w hw
    split
    · rename_i hid
      exact ⟨fun h _ => h, fun h => h hid⟩
    · rename_i hid
      exact iff_of_true hw fun h => absurd h hid

theorem kept_init : init.Kept 0 where
  nodup := List.nodup_nil
  perm := List.Perm.refl _
  focus _ hw := absurd hw List.not_mem_nil
  next := rfl
  ids _ hw := absurd hw List.not_mem_nil
  visible _ hw := absurd hw List.not_mem_nil
  range _ hw := absurd hw List.not_mem_nil

/-- Only a focus on an unknown window is not a call. -/
theorem along_of_none {op : WindowOp} {ops : List WindowOp} (h : wm.call op = none) :
    Along call CallFits wm (op :: ops) := by
  refine ⟨?_, fun wm' hcall => absurd (h.symm.trans hcall) (Option.some_ne_none wm').symm⟩
  cases op with
  | create => exact absurd h (Option.some_ne_none _)
  | close => trivial
  | focus => trivial
  | move => exact absurd h (Option.some_ne_none _)

/-- From a state whose windows fit. -/
theorem run_iff (ops : List WindowOp) {k : ℕ} (h : wm.Kept k) (hfit : wm.AllFit)
    (hk : k + ops.countP WindowOp.isCreate < 2 ^ 32) :
    After call (fun wm => wm.Ordered ∧ wm.HitsTop) wm ops ↔ Along call CallFits wm ops := by
  induction ops generalizing wm k with
  | nil => exact iff_of_true ⟨h.toOrdered, (hitsTop_iff h).mpr hfit⟩ trivial
  | cons op ops ih =>
    rw [List.countP_cons] at hk
    have hop : k + created op < 2 ^ 32 := by
      unfold created
      omega
    have hnext : ∀ wm', wm.call op = some wm' → wm'.AllFit →
        (After call (fun wm => wm.Ordered ∧ wm.HitsTop) wm' ops ↔ Along call CallFits wm' ops) :=
      fun wm' hcall hfit' => ih (h.call hop hcall) hfit' (by unfold created; omega)
    constructor
    · rintro ⟨-, hrest⟩
      cases hcall : wm.call op with
      | none => exact along_of_none hcall
      | some wm' =>
        have hafter := hrest wm' hcall
        have hfit' := (hitsTop_iff (h.call hop hcall)).mp hafter.head.2
        refine ⟨(allFit_call hfit hcall).mp hfit', fun wm'' hcall' => ?_⟩
        obtain rfl := Option.some.inj (hcall.symm.trans hcall')
        exact (hnext wm' hcall hfit').mp hafter
    · rintro ⟨hok, hrest⟩
      refine ⟨⟨h.toOrdered, (hitsTop_iff h).mpr hfit⟩, fun wm' hcall => ?_⟩
      exact (hnext wm' hcall ((allFit_call hfit hcall).mpr hok)).mpr (hrest wm' hcall)

end WindowManager

/-- The z-order lists every window once with the focused one last, and hit tests find the topmost
window, in every state of a run exactly if every window that is created or moved fits. -/
theorem window_order_iff (ops : List WindowOp)
    (hcount : ops.countP WindowOp.isCreate < 2 ^ 32) :
    After WindowManager.call (fun wm => wm.Ordered ∧ wm.HitsTop) .init ops ↔
      Along WindowManager.call WindowManager.CallFits .init ops :=
  WindowManager.run_iff ops WindowManager.kept_init (fun _ hw => absurd hw List.not_mem_nil)
    (by rwa [Nat.zero_add])

/-- A window whose right side is beyond the `i32`. -/
def farWindow : List WindowOp :=
  [.create [] 0x7FFFFFF0 0 64 64]

theorem not_window_order :
    ¬ ∀ ops : List WindowOp, ops.countP WindowOp.isCreate < 2 ^ 32 →
      After WindowManager.call (fun wm => wm.Ordered ∧ wm.HitsTop) .init ops := by
  intro h
  have hlast := ((h farWindow (by decide)).2 _ rfl).2 0x7FFFFFF0 0
  exact absurd hlast (by decide)

/-- Three windows, a focus, a close of an unknown id and of the focused window, and a move. -/
def windowCalls : List WindowOp :=
  [.create [] 10 10 200 100, .create [] 20 20 200 100, .create [] 30 30 200 100, .focus 1,
    .close 9, .close 1, .move 2 0xFFFFFFF6 5]

theorem window_order_calls :
    After WindowManager.call (fun wm => wm.Ordered ∧ wm.HitsTop) .init windowCalls ↔
      Along WindowManager.call WindowManager.CallFits .init windowCalls :=
  window_order_iff windowCalls (by decide)

end VernisOS
