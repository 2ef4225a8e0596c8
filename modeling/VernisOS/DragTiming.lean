import VernisOS.DeskLayout
import VernisOS.Lib.Run

/-!
# Dragging and the timing of frames

Button events wait in the queue of the GUI and only the latest move is kept, so where the ticks
fall decides what the window manager sees. The windows end up where they would with a tick after
each packet exactly if no packet is late (`drag_independent_of_ticks`) : a packet is late if it
releases a button while a move of the dragged window is still undelivered and would move it
(`Gui.Late`).
-/

open Run

namespace VernisOS

variable {κ : Type}

/-! ## Moves and buttons on a desktop -/

namespace GuiEvent

/-- Not a key. -/
def isMouse : GuiEvent → Bool
  | .keyPress _ => false
  | .keyRelease _ => false
  | _ => true

/-- The release of a button. -/
def isUp : GuiEvent → Bool
  | .mouseUp _ _ => true
  | _ => false

/-- The press of the left button. -/
def isLeftDown : GuiEvent → Bool
  | .mouseDown _ _ button => button = 0
  | _ => false

/-- A press of another button than the left one, or a release. -/
def isCalm : GuiEvent → Bool
  | .mouseDown _ _ button => button ≠ 0
  | .mouseUp _ _ => true
  | _ => false

end GuiEvent

namespace Desk

variable {d d' : Desk} {scr : Screen}

/-- The drag is over. -/
def stop (d : Desk) : Desk :=
  { d with wm := d.wm.stopDrag }

theorem react_of_down (h : d.down = true) (ev : GuiEvent) : d.react scr ev = d := by
  simp only [react, h, if_true]

theorem reacts_of_down (h : d.down = true) (evs : List GuiEvent) : d.reacts scr evs = d := by
  induction evs with
  | nil => rfl
  | cons ev evs ih => rw [reacts_cons, react_of_down h, ih]

theorem handleMouseUp_eq (d : Desk) : d.handleMouseUp = d.stop := by
  unfold handleMouseUp stop
  split
  · rfl
  · have hnone : d.wm.dragging = none := by
      simpa [WindowManager.isDragging] using ‹¬ d.wm.isDragging = true›
    have hwm : d.wm.stopDrag = d.wm := by
      rw [WindowManager.stopDrag, ← hnone]
    rw [hwm]

/-- Presses of other buttons do nothing, and a release ends the drag. -/
theorem reacts_calm (hd : d.down = false) {evs : List GuiEvent} (h : ∀ ev ∈ evs, ev.isCalm) :
    d.reacts scr evs = if evs.any GuiEvent.isUp then d.stop else d := by
  induction evs generalizing d with
  | nil => rfl
  | cons ev evs ih =>
    have hev := h ev List.mem_cons_self
    have hrest : ∀ e ∈ evs, e.isCalm := fun e he => h e (List.mem_cons_of_mem ev he)
    match ev, hev with
    | .mouseDown x y button, hb =>
      have hreact : d.react scr (.mouseDown x y button) = d := by
        have hne : button ≠ 0 := of_decide_eq_true hb
        simp only [react, hd, Bool.false_eq_true, if_false, handleMouseDown, if_pos hne]
      rw [reacts_cons, hreact, ih hd hrest]
      rfl
    | .mouseUp x y, _ =>
      have hreact : d.react scr (.mouseUp x y) = d.stop := by
        simp only [react, hd, Bool.false_eq_true, if_false, handleMouseUp_eq]
      have hstop : d.stop.stop = d.stop := rfl
      have hdown : d.stop.down = false := hd
      rw [reacts_cons, hreact, ih hdown hrest, hstop]
      simp only [ite_self, List.any_cons, GuiEvent.isUp, Bool.true_or, if_true]

end Desk

/-- The windows once the dragged one follows the mouse to `(mx, my)`. -/
def WindowManager.dragged (wm : WindowManager) (mx my : ℤ) : List GuiWindow :=
  wm.windows.map fun w =>
    if wm.dragging = some w.id then { w with x := mx - wm.dragOffsetX, y := my - wm.dragOffsetY }
    else w

/-- The desktop once the dragged window follows the mouse to `(mx, my)`. -/
def Desk.moved (d : Desk) (mx my : ℤ) : Desk :=
  { d with wm := { d.wm with windows := d.wm.dragged mx my } }

namespace WindowManager

variable {wm : WindowManager}

theorem bare_dragTo_eq (mx my : ℤ) :
    (wm.dragTo mx my).bare = { wm.bare with windows := wm.dragged mx my } := by
  unfold dragTo
  cases hdrag : wm.dragging with
  | none =>
    have hsame : wm.dragged mx my = wm.windows := by
      simp only [dragged, hdrag, reduceCtorEq, if_false, List.map_id']
    rw [hsame]
    rfl
  | some id =>
    simp only [moveWindow]
    cases hfind : wm.findWindow id with
    | none =>
      have hsame : wm.dragged mx my = wm.windows := by
        have hno := List.find?_eq_none.mp hfind
        refine (List.map_congr_left fun w hw => ?_).trans (List.map_id' _)
        have hne : w.id ≠ id := by simpa using hno w hw
        rw [hdrag, if_neg fun h => hne (Option.some.inj h).symm]
      simp only
      rw [hsame]
      rfl
    | some w =>
      have hmap : wm.dragged mx my = (wm.updateWindow id fun w =>
          { w with x := mx - wm.dragOffsetX, y := my - wm.dragOffsetY }).windows := by
        simp only [dragged, updateWindow, hdrag, Option.some.injEq, eq_comm]
      change WindowManager.bare (WindowManager.damageAdd _ _) = _
      simp only [bare_damageAdd]
      rw [hmap]
      rfl

/-- Only the last of two moves counts. -/
theorem dragged_dragged (mx my mx' my' : ℤ) :
    ({ wm with windows := wm.dragged mx my } : WindowManager).dragged mx' my' =
      wm.dragged mx' my' := by
  simp only [dragged, List.map_map]
  refine List.map_congr_left fun w _ => ?_
  simp only [Function.comp_apply]
  split <;> simp_all

theorem dragged_eq_iff (mx my : ℤ) : wm.dragged mx my = wm.windows ↔
    ∀ w ∈ wm.windows, wm.dragging = some w.id →
      (mx - wm.dragOffsetX, my - wm.dragOffsetY) = (w.x, w.y) := by
  have hmap : wm.dragged mx my = wm.windows ↔ wm.dragged mx my = wm.windows.map id := by
    rw [List.map_id]
  rw [hmap, dragged, List.map_inj_left]
  refine forall₂_congr fun w _ => ?_
  constructor
  · intro h hdrag
    rw [if_pos hdrag] at h
    have hx := congrArg GuiWindow.x h
    have hy := congrArg GuiWindow.y h
    exact Prod.ext hx hy
  · intro h
    split
    · have := h ‹_›
      simp only [Prod.mk.injEq] at this
      rw [this.1, this.2]
      rfl
    · rfl

end WindowManager

namespace Desk

variable {d : Desk} {scr : Screen}

/-- A move changes the windows only, and only those of a drag. -/
theorem layout_react_move (scr : Screen) (hd : d.down = false) (x y : ℤ) :
    (d.react scr (.mouseMove x y)).layout = (d.moved x y).layout := by
  simp only [react, hd, Bool.false_eq_true, if_false, handleMouseMove]
  split
  · simp only [layout, WindowManager.bare_dragTo_eq, ← hd]
    rfl
  · have hnone : d.wm.dragging = none := by
      simpa [WindowManager.isDragging] using ‹¬ d.wm.isDragging = true›
    have hsame : d.wm.dragged x y = d.wm.windows := by
      rw [WindowManager.dragged_eq_iff]
      intro w _ h
      rw [hnone] at h
      cases h
    rw [moved, hsame]

/-- Without a press of the left button no drag begins. -/
theorem dragging_reacts (hnone : d.wm.dragging = none) {evs : List GuiEvent}
    (h : ∀ ev ∈ evs, ev.isCalm) : (d.reacts scr evs).wm.dragging = none := by
  cases hd : d.down with
  | true => rw [reacts_of_down hd, hnone]
  | false =>
    rw [reacts_calm hd h]
    split
    · rfl
    · exact hnone

end Desk

/-! ## The buttons of a packet -/

namespace Gui

theorem mem_buttonEdges {prev buttons : UInt8} {x y : ℤ} {ev : GuiEvent}
    (h : ev ∈ buttonEdges prev buttons x y) :
    (∃ bit < 3, ev = .mouseDown x y bit ∧ prev.toNat.testBit bit = false ∧
        buttons.toNat.testBit bit = true) ∨
      ∃ bit < 3, ev = .mouseUp x y ∧ prev.toNat.testBit bit = true ∧
        buttons.toNat.testBit bit = false := by
  obtain ⟨bit, hbit, hev⟩ := List.mem_filterMap.mp h
  have hlt : bit < 3 := by
    simp only [List.mem_cons, List.not_mem_nil, or_false] at hbit
    omega
  unfold buttonEdge at hev
  split at hev
  · exact Or.inl ⟨bit, hlt, (Option.some.inj hev).symm, ‹_›, ‹_›⟩
  · exact Or.inr ⟨bit, hlt, (Option.some.inj hev).symm, ‹_›, ‹_›⟩
  · cases hev

/-- A packet that changes the buttons from `prev` to `buttons` releases one. -/
def Releases (prev buttons : UInt8) : Prop :=
  ∃ bit < 3, prev.toNat.testBit bit = true ∧ buttons.toNat.testBit bit = false

theorem any_isUp_buttonEdges (prev buttons : UInt8) (x y : ℤ) :
    (buttonEdges prev buttons x y).any GuiEvent.isUp = true ↔ Releases prev buttons := by
  rw [List.any_eq_true]
  constructor
  · rintro ⟨ev, hev, hup⟩
    rcases mem_buttonEdges hev with ⟨bit, -, rfl, -, -⟩ | ⟨bit, hlt, rfl, hp, hb⟩
    · cases hup
    · exact ⟨bit, hlt, hp, hb⟩
  · rintro ⟨bit, hlt, hp, hb⟩
    refine ⟨.mouseUp x y, List.mem_filterMap.mpr ⟨bit, ?_, ?_⟩, rfl⟩
    · simp only [List.mem_cons, List.not_mem_nil, or_false]
      omega
    · simp only [buttonEdge, hp, hb]

/-- With the left button held the other buttons cannot begin a drag. -/
theorem calm_buttonEdges {prev buttons : UInt8} {x y : ℤ}
    (h : prev.toNat.testBit 0 = true ∨ buttons.toNat.testBit 0 = false) :
    ∀ ev ∈ buttonEdges prev buttons x y, ev.isCalm := by
  intro ev hev
  rcases mem_buttonEdges hev with ⟨bit, -, rfl, hp, hb⟩ | ⟨bit, -, rfl, -, -⟩
  · refine decide_eq_true fun hzero => ?_
    subst hzero
    rw [hp, hb] at h
    simp at h
  · rfl

theorem isMouse_buttonEdges {prev buttons : UInt8} {x y : ℤ} :
    ∀ ev ∈ buttonEdges prev buttons x y, ev.isMouse := by
  intro ev hev
  rcases mem_buttonEdges hev with ⟨bit, -, rfl, -⟩ | ⟨bit, -, rfl, -⟩ <;> rfl

/-! ## The events that wait -/

variable {scr : Screen} {font : ℕ → UInt8} {sh : GuiShell κ} {shape : CursorShape} {g : Gui κ}

/-- The pending move, as an event. -/
def moves (g : Gui κ) : List GuiEvent :=
  (g.pending.map fun p => GuiEvent.mouseMove p.1 p.2).toList

/-- The desktop once the queue is handled. -/
def buttoned (scr : Screen) (g : Gui κ) : Desk :=
  g.desk.reacts scr g.queue

/-- The desktop once everything that waits is handled. -/
def settled (scr : Screen) (g : Gui κ) : Desk :=
  (g.buttoned scr).reacts scr g.moves

/-- Nothing waits, or the machine is down. -/
def Quiet (g : Gui κ) : Prop :=
  g.desk.down = true ∨ g.queue = [] ∧ g.pending = none

theorem Quiet.settled (h : g.Quiet) : g.settled scr = g.desk := by
  rcases h with hdown | ⟨hqueue, hpending⟩
  · simp only [Gui.settled, buttoned, Desk.reacts_of_down hdown]
  · simp only [Gui.settled, buttoned, moves, hqueue, hpending, Option.map_none, Option.toList_none,
      Desk.reacts_nil]

theorem handleEvent_isMouse (k : κ) (d : Desk) {ev : GuiEvent} (h : ev.isMouse) :
    d.handleEvent scr sh k ev = (k, d.react scr ev) := by
  unfold Desk.handleEvent Desk.react
  cases ev with
  | keyPress => cases h
  | keyRelease => cases h
  | mouseDown => split <;> rfl
  | mouseUp => split <;> rfl
  | mouseMove => split <;> rfl

theorem processEvents_empty (n : ℕ) (had : Had) (hqueue : g.queue = [])
    (hpending : g.pending = none) : processEvents scr sh n g had = (g, had) := by
  cases n with
  | zero => rfl
  | succ n =>
    unfold processEvents
    simp only [eventPop, hqueue, hpending]

/-- The event loop handles the first events of the queue, and the pending move if it gets to the
end of it. -/
theorem processEvents_spec (n : ℕ) (had : Had) (hq : ∀ ev ∈ g.queue, ev.isMouse) :
    (processEvents scr sh n g had).1 =
      if n ≤ g.queue.length then
        { g with desk := g.desk.reacts scr (g.queue.take n), queue := g.queue.drop n }
      else { g with desk := g.settled scr, queue := [], pending := none } := by
  induction n generalizing g had with
  | zero => simp [processEvents]
  | succ n ih =>
    unfold processEvents
    cases hqueue : g.queue with
    | cons ev queue =>
      have hmouse := hq ev (hqueue ▸ List.mem_cons_self)
      have hrest : ∀ e ∈ queue, e.isMouse := fun e he => hq e (hqueue ▸ List.mem_cons_of_mem ev he)
      simp only [eventPop, hqueue, handleEvent_isMouse _ _ hmouse]
      rw [ih _ hrest]
      simp only [List.length_cons, Nat.add_le_add_iff_right, List.take_succ_cons,
        List.drop_succ_cons, Desk.reacts_cons]
      split
      · rfl
      · simp only [settled, buttoned, hqueue, Desk.reacts_cons, moves]
    | nil =>
      simp only [eventPop, hqueue]
      rw [if_neg (by simp)]
      cases hpending : g.pending with
      | none =>
        have hsettled : g.settled scr = g.desk := Quiet.settled (Or.inr ⟨hqueue, hpending⟩)
        dsimp only
        rw [hsettled, ← hqueue, ← hpending]
      | some p =>
        have hmouse : (GuiEvent.mouseMove p.1 p.2).isMouse := rfl
        simp only [handleEvent_isMouse _ _ hmouse]
        rw [processEvents_empty n _ rfl rfl]
        simp only [settled, buttoned, hqueue, moves, hpending, Option.map_some, Option.toList_some,
          Desk.reacts_nil, Desk.reacts_cons]

/-! ## A tick -/

theorem SameInput.buttoned {g' : Gui κ} (h : SameInput g g') :
    (g'.buttoned scr).layout = (g.buttoned scr).layout := by
  rw [Gui.buttoned, Gui.buttoned, h.queue]
  exact Desk.layout_reacts scr h.layout _

theorem SameInput.settled {g' : Gui κ} (h : SameInput g g') :
    (g'.settled scr).layout = (g.settled scr).layout := by
  rw [Gui.settled, Gui.settled, moves, moves, h.pending]
  exact Desk.layout_reacts scr h.buttoned _

/-- What a tick does to the input : it handles a part of what waits. -/
structure Ticked (scr : Screen) (g g' : Gui κ) : Prop where
  mouse : g'.mouse = g.mouse
  prevButtons : g'.prevButtons = g.prevButtons
  queue : ∃ n, g'.queue = g.queue.drop n
  out : g'.pending = g.pending ∧ (g'.buttoned scr).layout = (g.buttoned scr).layout ∨
    g'.queue = [] ∧ g'.pending = none ∧ g'.desk.layout = (g.settled scr).layout

theorem Ticked.settled {g' : Gui κ} (h : Ticked scr g g') :
    (g'.settled scr).layout = (g.settled scr).layout := by
  rcases h.out with ⟨hpending, hbuttoned⟩ | ⟨hqueue, hpending, hlayout⟩
  · rw [Gui.settled, Gui.settled, moves, moves, hpending]
    exact Desk.layout_reacts scr hbuttoned _
  · rw [Quiet.settled (Or.inr ⟨hqueue, hpending⟩), hlayout]

theorem SameInput.ticked {g' : Gui κ} (h : SameInput g g') : Ticked scr g g' :=
  ⟨h.mouse, h.prevButtons, ⟨0, h.queue⟩, Or.inl ⟨h.pending, h.buttoned⟩⟩

theorem Ticked.trans_same {g' g'' : Gui κ} (h : Ticked scr g g') (h' : SameInput g' g'') :
    Ticked scr g g'' where
  mouse := h'.mouse.trans h.mouse
  prevButtons := h'.prevButtons.trans h.prevButtons
  queue := by
    obtain ⟨n, hn⟩ := h.queue
    exact ⟨n, h'.queue.trans hn⟩
  out := by
    rcases h.out with ⟨hpending, hbuttoned⟩ | ⟨hqueue, hpending, hlayout⟩
    · exact Or.inl ⟨h'.pending.trans hpending, h'.buttoned.trans hbuttoned⟩
    · exact Or.inr ⟨h'.queue.trans hqueue, h'.pending.trans hpending, h'.layout.trans hlayout⟩

theorem sameInput_cliGuiTick (sh : GuiShell κ) (g : Gui κ) (now : BitVec 32) :
    SameInput g (g.cliGuiTick sh now) :=
  ⟨Desk.layout_termCalls _, rfl, rfl, rfl, rfl, rfl⟩

/-- The rest of `beforeCompose` after the event loop. -/
theorem sameInput_beforeCompose (now : BitVec 32) :
    SameInput (processEvents scr sh guiMaxEventsPerTick { g with lastFrameTick := now } Had.none).1
      (g.beforeCompose scr font sh now).1 := by
  simp only [beforeCompose]
  split
  · exact SameInput.refl _
  · refine ⟨?_, rfl, rfl, rfl, rfl, rfl⟩
    exact Desk.layout_terminalRender font _

/-- A tick that is not too early handles 64 events. -/
theorem tick_spec (font : ℕ → UInt8) (sh : GuiShell κ) (shape : CursorShape) {now : BitVec 32}
    (hq : ∀ ev ∈ g.queue, ev.isMouse) (hd : g.desk.down = false) (hnow : now ≠ g.lastFrameTick) :
    SameInput (if guiMaxEventsPerTick ≤ g.queue.length then
        { g with
          lastFrameTick := now
          desk := g.desk.reacts scr (g.queue.take guiMaxEventsPerTick)
          queue := g.queue.drop guiMaxEventsPerTick }
      else
        { g with lastFrameTick := now, desk := g.settled scr, queue := [], pending := none })
      (g.tick scr font sh shape now) := by
  have hne : ¬ now - (g.cliGuiTick sh now).lastFrameTick = 0 := by
    change ¬ now - g.lastFrameTick = 0
    bv_omega
  have hcli := sameInput_cliGuiTick sh g now
  simp only [tick, hd, Bool.false_eq_true, if_false, if_neg hne]
  refine SameInput.trans ?_ ((sameInput_beforeCompose now).trans (sameInput_drawPath _ _))
  rw [processEvents_spec]
  · simp only [hcli.queue]
    split
    · exact ⟨Desk.layout_reacts scr hcli.layout _, rfl, rfl, rfl, rfl, rfl⟩
    · exact ⟨hcli.settled, rfl, rfl, rfl, rfl, rfl⟩
  · exact hq

theorem ticked_tick {now : BitVec 32} (hq : ∀ ev ∈ g.queue, ev.isMouse) :
    Ticked scr g (g.tick scr font sh shape now) := by
  by_cases hd : g.desk.down = true
  · rw [tick, if_pos hd]
    exact (SameInput.refl g).ticked
  by_cases hnow : now = g.lastFrameTick
  · have hearly : now - (g.cliGuiTick sh now).lastFrameTick = 0 := by
      rw [hnow]
      exact BitVec.sub_self _
    simp only [tick, if_neg hd, if_pos hearly]
    exact (sameInput_cliGuiTick sh g now).ticked
  · refine Ticked.trans_same ?_ (tick_spec font sh shape hq (by simpa using hd) hnow)
    split
    · refine ⟨rfl, rfl, ⟨_, rfl⟩, Or.inl ⟨rfl, ?_⟩⟩
      rw [buttoned, buttoned, ← Desk.reacts_append, List.take_append_drop]
    · exact ⟨rfl, rfl, ⟨g.queue.length, (List.drop_length).symm⟩, Or.inr ⟨rfl, rfl, rfl⟩⟩

/-- Ticks at these times. -/
def ticks (scr : Screen) (font : ℕ → UInt8) (sh : GuiShell κ) (shape : CursorShape) (g : Gui κ)
    (times : List (BitVec 32)) : Gui κ :=
  times.foldl (tick scr font sh shape) g

theorem isMouse_of_ticked {g' : Gui κ} (h : Ticked scr g g') (hq : ∀ ev ∈ g.queue, ev.isMouse) :
    ∀ ev ∈ g'.queue, ev.isMouse := by
  obtain ⟨n, hn⟩ := h.queue
  intro ev hev
  rw [hn] at hev
  exact hq ev (List.mem_of_mem_drop hev)

/-- Ticks do not change where everything is going to be. -/
theorem settled_ticks (times : List (BitVec 32)) (hq : ∀ ev ∈ g.queue, ev.isMouse) :
    ((g.ticks scr font sh shape times).settled scr).layout = (g.settled scr).layout := by
  induction times generalizing g with
  | nil => rfl
  | cons now times ih =>
    have htick : Ticked scr g (g.tick scr font sh shape now) := ticked_tick hq
    exact (ih (isMouse_of_ticked htick hq)).trans htick.settled

/-- Ticks that are not too early handle everything that waits. -/
theorem exists_quiet_ticks (hq : ∀ ev ∈ g.queue, ev.isMouse) : ∃ times : List (BitVec 32),
    times.length ≤ g.queue.length / guiMaxEventsPerTick + 1 ∧
      (g.ticks scr font sh shape times).Quiet := by
  induction hn : g.queue.length using Nat.strong_induction_on generalizing g with
  | _ n ih =>
    subst hn
    by_cases hd : g.desk.down = true
    · exact ⟨[], Nat.zero_le _, Or.inl hd⟩
    have hd' : g.desk.down = false := by simpa using hd
    have hnow : g.lastFrameTick + 1 ≠ g.lastFrameTick := by bv_omega
    have hspec := (tick_spec font sh shape hq hd' hnow : SameInput _ (g.tick scr _ _ _ _))
    by_cases hlen : guiMaxEventsPerTick ≤ g.queue.length
    · rw [if_pos hlen] at hspec
      have hqueue : (g.tick scr font sh shape (g.lastFrameTick + 1)).queue =
          g.queue.drop guiMaxEventsPerTick := hspec.queue
      have hshort : (g.queue.drop guiMaxEventsPerTick).length < g.queue.length := by
        rw [List.length_drop]
        exact Nat.sub_lt_self (by decide) hlen
      obtain ⟨times, hcount, hquiet⟩ := ih _ (hqueue ▸ hshort)
        (fun ev hev => hq ev (List.mem_of_mem_drop (hqueue ▸ hev))) rfl
      refine ⟨(g.lastFrameTick + 1) :: times, ?_, hquiet⟩
      rw [hqueue, List.length_drop] at hcount
      simp only [guiMaxEventsPerTick, List.length_cons] at hcount hlen ⊢
      omega
    · rw [if_neg hlen] at hspec
      exact ⟨[g.lastFrameTick + 1], Nat.le_add_left _ _, Or.inr ⟨hspec.queue, hspec.pending⟩⟩

end Gui

/-! ## A move before the buttons of a packet, or after them -/

namespace Desk

variable {q : Desk} {scr : Screen} {p : ℤ × ℤ} {prev buttons : UInt8} {x y : ℤ}

/-- A move to `p`, then the buttons of a packet and its move. -/
def early (scr : Screen) (q : Desk) (p : ℤ × ℤ) (evs : List GuiEvent) (x y : ℤ) : Desk :=
  ((q.react scr (.mouseMove p.1 p.2)).reacts scr evs).react scr (.mouseMove x y)

/-- The buttons of a packet and its move, without the move before. -/
def dropped (scr : Screen) (q : Desk) (evs : List GuiEvent) (x y : ℤ) : Desk :=
  (q.reacts scr evs).react scr (.mouseMove x y)

theorem down_of_layout {d d' : Desk} (h : d.layout = d'.layout) : d.down = d'.down := by
  change d.layout.down = d'.layout.down
  rw [h]

theorem dragging_of_layout {d d' : Desk} (h : d.layout = d'.layout) :
    d.wm.dragging = d'.wm.dragging := by
  change d.layout.wm.dragging = d'.layout.wm.dragging
  rw [h]

theorem windows_of_layout {d d' : Desk} (h : d.layout = d'.layout) :
    d.wm.windows = d'.wm.windows := by
  change d.layout.wm.windows = d'.layout.wm.windows
  rw [h]

theorem down_react_move (scr : Screen) (hd : q.down = false) (x y : ℤ) :
    (q.react scr (.mouseMove x y)).down = false :=
  (down_of_layout (layout_react_move scr hd x y)).trans hd

theorem windows_react_move (scr : Screen) (hd : q.down = false) (x y : ℤ) :
    (q.react scr (.mouseMove x y)).wm.windows = q.wm.dragged x y :=
  windows_of_layout (layout_react_move scr hd x y)

/-- A move that moves nothing can be left out. -/
theorem early_of_dragged (hd : q.down = false) (h : q.wm.dragged p.1 p.2 = q.wm.windows)
    (evs : List GuiEvent) : (q.early scr p evs x y).layout = (q.dropped scr evs x y).layout := by
  have hmove : (q.react scr (.mouseMove p.1 p.2)).layout = q.layout := by
    rw [layout_react_move scr hd, moved, h]
  exact layout_reacts scr (layout_reacts scr hmove evs) [.mouseMove x y]

theorem early_of_down (hd : q.down = true) (evs : List GuiEvent) :
    q.early scr p evs x y = q.dropped scr evs x y := by
  rw [early, dropped, react_of_down hd (.mouseMove p.1 p.2)]

/-- While the drag goes on only the last move counts. -/
theorem early_of_held (hd : q.down = false) {evs : List GuiEvent} (hcalm : ∀ ev ∈ evs, ev.isCalm)
    (hup : evs.any GuiEvent.isUp = false) :
    (q.early scr p evs x y).layout = (q.dropped scr evs x y).layout := by
  have hd' := down_react_move scr hd p.1 p.2
  rw [early, dropped, reacts_calm hd hcalm, reacts_calm hd' hcalm, hup]
  simp only [Bool.false_eq_true, if_false]
  have hmove := layout_reacts scr (layout_react_move scr hd p.1 p.2) [.mouseMove x y]
  have hmoved : (q.moved p.1 p.2).down = false := hd
  calc ((q.react scr (.mouseMove p.1 p.2)).react scr (.mouseMove x y)).layout
      = ((q.moved p.1 p.2).react scr (.mouseMove x y)).layout := hmove
    _ = ((q.moved p.1 p.2).moved x y).layout := layout_react_move scr hmoved x y
    _ = (q.moved x y).layout := by
        rw [moved, moved, WindowManager.dragged_dragged]
        rfl
    _ = (q.react scr (.mouseMove x y)).layout := (layout_react_move scr hd x y).symm

/-- After a release the windows stay where the last move before it put them. -/
theorem windows_of_released (hd : q.down = false) {evs : List GuiEvent}
    (hcalm : ∀ ev ∈ evs, ev.isCalm) (hup : evs.any GuiEvent.isUp = true) :
    (q.early scr p evs x y).wm.windows = q.wm.dragged p.1 p.2 ∧
      (q.dropped scr evs x y).wm.windows = q.wm.windows := by
  have hd' := down_react_move scr hd p.1 p.2
  have hstopped : ∀ d : Desk, d.down = false →
      (d.stop.react scr (.mouseMove x y)).wm.windows = d.wm.windows := by
    intro d hdd
    have hstop : d.stop.down = false := hdd
    rw [windows_react_move scr hstop]
    exact (WindowManager.dragged_eq_iff x y).mpr fun w _ h => by cases h
  rw [early, dropped, reacts_calm hd hcalm, reacts_calm hd' hcalm, hup]
  simp only [if_true]
  rw [hstopped _ hd', hstopped _ hd]
  exact ⟨windows_react_move scr hd p.1 p.2, rfl⟩

end Desk

namespace Gui

variable {scr : Screen} {font : ℕ → UInt8} {sh : GuiShell κ} {shape : CursorShape} {g r : Gui κ}

/-! ## A packet -/

/-- The events of a packet in a queue that has room for them. -/
theorem foldl_eventPush (evs : List GuiEvent) :
    g.queue.length ≤ (evs.foldl eventPush g).queue.length ∧
      ((evs.foldl eventPush g).queue.length < 255 →
        evs.foldl eventPush g = { g with queue := g.queue ++ evs }) := by
  induction evs generalizing g with
  | nil => exact ⟨le_rfl, fun _ => by rw [List.append_nil]; rfl⟩
  | cons ev evs ih =>
    rw [List.foldl_cons]
    obtain ⟨hle, heq⟩ := ih (g := g.eventPush ev)
    have hpush : g.queue.length ≤ (g.eventPush ev).queue.length := by
      unfold eventPush
      split
      · exact le_rfl
      · simp
    refine ⟨hpush.trans hle, fun hroom => ?_⟩
    rw [heq hroom]
    have hfits : ¬ g.queue.length + 1 = eventQueueSize := by
      have : eventQueueSize = 256 := rfl
      omega
    simp only [eventPush, if_neg hfits, List.append_assoc, List.singleton_append]

theorem exists_foldl_eventPush (evs : List GuiEvent) : ∃ queue,
    evs.foldl eventPush g = { g with queue } ∧ queue.length ≤ g.queue.length + evs.length ∧
      ∀ ev ∈ queue, ev ∈ g.queue ∨ ev ∈ evs := by
  induction evs generalizing g with
  | nil => exact ⟨g.queue, rfl, le_rfl, fun ev hev => Or.inl hev⟩
  | cons ev evs ih =>
    obtain ⟨queue, heq, hlen, hmem⟩ := ih (g := g.eventPush ev)
    rw [List.foldl_cons, heq, List.length_cons]
    unfold eventPush at hlen hmem ⊢
    by_cases hfull : g.queue.length + 1 = eventQueueSize
    · simp only [if_pos hfull] at hlen hmem ⊢
      exact ⟨queue, rfl, by omega, fun e he => (hmem e he).imp_right (List.mem_cons_of_mem ev)⟩
    · simp only [if_neg hfull, List.length_append, List.length_singleton, List.mem_append,
        List.mem_singleton] at hlen hmem ⊢
      refine ⟨queue, rfl, by omega, fun e he => ?_⟩
      rw [List.mem_cons, ← or_assoc]
      exact hmem e he

/-- The buttons of a packet. -/
def packetEdges (scr : Screen) (g : Gui κ) (flags : UInt8) (dx dy : ℤ) : List GuiEvent :=
  let mouse := g.mouse.handlePacket scr flags dx dy
  buttonEdges g.prevButtons mouse.buttons mouse.x mouse.y

/-- A packet adds its buttons to the queue and takes the place of a pending move. -/
theorem handleMouse_eq {flags : UInt8} {dx dy : ℤ}
    (hroom : (g.handleMouse scr flags dx dy).queue.length < 255) :
    g.handleMouse scr flags dx dy =
      { g with
        mouse := g.mouse.handlePacket scr flags dx dy
        prevButtons := (g.mouse.handlePacket scr flags dx dy).buttons
        queue := g.queue ++ g.packetEdges scr flags dx dy
        pending := some ((g.mouse.handlePacket scr flags dx dy).x,
          (g.mouse.handlePacket scr flags dx dy).y) } := by
  unfold handleMouse at hroom ⊢
  simp only at hroom ⊢
  rw [(foldl_eventPush _).2 hroom]
  rfl

/-- A packet is late if it releases a button while an earlier move of the dragged window is
undelivered and would move the window. -/
structure Late (scr : Screen) (g : Gui κ) (flags : UInt8) : Prop where
  releases : Releases g.prevButtons (flags &&& 0x07)
  running : (g.buttoned scr).down = false
  moves : ∃ p, g.pending = some p ∧ ∃ w ∈ (g.buttoned scr).wm.windows,
    (g.buttoned scr).wm.dragging = some w.id ∧
      (p.1 - (g.buttoned scr).wm.dragOffsetX, p.2 - (g.buttoned scr).wm.dragOffsetY) ≠ (w.x, w.y)

/-- While a window is dragged the left button is held. -/
def Held (scr : Screen) (g : Gui κ) : Prop :=
  (g.buttoned scr).down = false → (g.buttoned scr).wm.dragging ≠ none →
    g.prevButtons.toNat.testBit 0 = true

section Packet

variable {flags : UInt8} {dx dy : ℤ}

theorem buttoned_handleMouse (hroom : (g.handleMouse scr flags dx dy).queue.length < 255) :
    (g.handleMouse scr flags dx dy).buttoned scr =
      (g.buttoned scr).reacts scr (g.packetEdges scr flags dx dy) := by
  rw [handleMouse_eq hroom, buttoned, buttoned, Desk.reacts_append]

/-- A packet that is not late leaves everything where it will be with its own tick before it; a
late packet leaves a window elsewhere. -/
theorem settled_handleMouse (hheld : g.Held scr)
    (hroom : (g.handleMouse scr flags dx dy).queue.length < 255) :
    let mouse := g.mouse.handlePacket scr flags dx dy
    let ticked := ((g.settled scr).reacts scr (g.packetEdges scr flags dx dy)).react scr
      (.mouseMove mouse.x mouse.y)
    (¬ g.Late scr flags → ((g.handleMouse scr flags dx dy).settled scr).layout = ticked.layout) ∧
      (g.Late scr flags →
        ((g.handleMouse scr flags dx dy).settled scr).wm.windows ≠ ticked.wm.windows) := by
  intro mouse ticked
  have hsettled : (g.handleMouse scr flags dx dy).settled scr =
      (g.buttoned scr).dropped scr (g.packetEdges scr flags dx dy) mouse.x mouse.y := by
    rw [settled, buttoned_handleMouse hroom, handleMouse_eq hroom]
    rfl
  rw [hsettled]
  cases hpending : g.pending with
  | none =>
    have hticked : ticked =
        (g.buttoned scr).dropped scr (g.packetEdges scr flags dx dy) mouse.x mouse.y := by
      simp only [ticked, settled, moves, hpending, Option.map_none, Option.toList_none,
        Desk.reacts_nil, Desk.dropped]
    rw [hticked]
    refine ⟨fun _ => rfl, fun hlate => ?_⟩
    obtain ⟨p, hp, -⟩ := hlate.moves
    rw [hpending] at hp
    cases hp
  | some p =>
    have hticked : ticked =
        (g.buttoned scr).early scr p (g.packetEdges scr flags dx dy) mouse.x mouse.y := by
      simp only [ticked, settled, moves, hpending, Option.map_some, Option.toList_some,
        Desk.reacts_nil, Desk.reacts_cons, Desk.early]
    rw [hticked]
    cases hd : (g.buttoned scr).down with
    | true =>
      rw [Desk.early_of_down hd]
      refine ⟨fun _ => rfl, fun hlate => ?_⟩
      rw [hlate.running] at hd
      cases hd
    | false =>
      have hmoved : (g.buttoned scr).wm.dragged p.1 p.2 ≠ (g.buttoned scr).wm.windows ↔
          ∃ w ∈ (g.buttoned scr).wm.windows, (g.buttoned scr).wm.dragging = some w.id ∧
            (p.1 - (g.buttoned scr).wm.dragOffsetX, p.2 - (g.buttoned scr).wm.dragOffsetY) ≠
              (w.x, w.y) := by
        rw [Ne, WindowManager.dragged_eq_iff]
        simp only [not_forall, exists_prop, ne_eq]
      by_cases hdrag : (g.buttoned scr).wm.dragged p.1 p.2 = (g.buttoned scr).wm.windows
      · refine ⟨fun _ => (Desk.early_of_dragged hd hdrag _).symm, fun hlate => ?_⟩
        obtain ⟨p', hp', hw⟩ := hlate.moves
        rw [hpending] at hp'
        cases hp'
        exact absurd hdrag (hmoved.mpr hw)
      · -- a window is dragged, so the left button is held
        have hbit : g.prevButtons.toNat.testBit 0 = true := by
          obtain ⟨w, -, hw, -⟩ := hmoved.mp hdrag
          exact hheld hd (by rw [hw]; exact Option.some_ne_none _)
        have hcalm : ∀ ev ∈ g.packetEdges scr flags dx dy, ev.isCalm :=
          calm_buttonEdges (Or.inl hbit)
        have hup : (g.packetEdges scr flags dx dy).any GuiEvent.isUp = true ↔
            Releases g.prevButtons mouse.buttons := any_isUp_buttonEdges _ _ _ _
        have hlate : g.Late scr flags ↔ Releases g.prevButtons mouse.buttons := by
          refine ⟨Late.releases, fun hr => ⟨hr, hd, p, hpending, hmoved.mp hdrag⟩⟩
        rw [hlate, ← hup]
        constructor
        · intro h
          exact (Desk.early_of_held hd hcalm (by simpa using h)).symm
        · intro h
          obtain ⟨hearly, hdropped⟩ := Desk.windows_of_released (p := p) (x := mouse.x)
            (y := mouse.y) hd hcalm h
          rw [hdropped, hearly]
          exact Ne.symm hdrag

theorem held_handleMouse (hheld : g.Held scr)
    (hroom : (g.handleMouse scr flags dx dy).queue.length < 255) :
    (g.handleMouse scr flags dx dy).Held scr := by
  intro hdown hdrag
  rw [buttoned_handleMouse hroom] at hdown hdrag
  rw [handleMouse_eq hroom]
  change (g.mouse.handlePacket scr flags dx dy).buttons.toNat.testBit 0 = true
  by_contra hbit
  rw [Bool.not_eq_true] at hbit
  have hcalm : ∀ ev ∈ g.packetEdges scr flags dx dy, ev.isCalm := calm_buttonEdges (Or.inr hbit)
  cases hd : (g.buttoned scr).down with
  | true =>
    rw [Desk.reacts_of_down hd, hd] at hdown
    cases hdown
  | false =>
    by_cases hnone : (g.buttoned scr).wm.dragging = none
    · exact hdrag (Desk.dragging_reacts hnone hcalm)
    · -- the left button was held, so this packet released it
      have hup : (g.packetEdges scr flags dx dy).any GuiEvent.isUp = true :=
        (any_isUp_buttonEdges _ _ _ _).mpr ⟨0, by decide, hheld hd hnone, hbit⟩
      rw [Desk.reacts_calm hd hcalm, hup] at hdrag
      exact hdrag rfl

end Packet

theorem held_of_ticked {g' : Gui κ} (h : Ticked scr g g') (hheld : g.Held scr) : g'.Held scr := by
  intro hdown hdrag
  rw [h.prevButtons]
  have hsettled : (g.settled scr).down = false → (g.settled scr).wm.dragging ≠ none →
      g.prevButtons.toNat.testBit 0 = true := by
    intro hd hne
    cases hb : (g.buttoned scr).down with
    | true =>
      rw [settled, Desk.reacts_of_down hb, hb] at hd
      cases hd
    | false =>
      refine hheld hb ?_
      cases hpending : g.pending with
      | none => simpa only [settled, moves, hpending, Option.map_none, Option.toList_none,
          Desk.reacts_nil] using hne
      | some p =>
        simp only [settled, moves, hpending, Option.map_some, Option.toList_some,
          Desk.reacts_nil, Desk.reacts_cons] at hne
        rwa [Desk.dragging_of_layout (Desk.layout_react_move scr hb p.1 p.2)] at hne
  rcases h.out with ⟨-, hlayout⟩ | ⟨hqueue, -, hlayout⟩
  · exact hheld ((Desk.down_of_layout hlayout).symm.trans hdown)
      (Desk.dragging_of_layout hlayout ▸ hdrag)
  · rw [buttoned, hqueue, Desk.reacts_nil] at hdown hdrag
    exact hsettled ((Desk.down_of_layout hlayout).symm.trans hdown)
      (Desk.dragging_of_layout hlayout ▸ hdrag)

end Gui

/-! ## Runs of packets and ticks -/

/-- A packet for `gui_handle_mouse`, or a tick. -/
inductive DragOp
  | packet (flags : UInt8) (dx dy : ℤ)
  | tick (now : BitVec 32)

/-- The same windows, at the same places, with the same focus, in the same order. -/
def Desk.SameWindows (d d' : Desk) : Prop :=
  d.wm.windows = d'.wm.windows ∧ d.wm.zOrder = d'.wm.zOrder

theorem Desk.SameWindows.of_layout {d d' : Desk} (h : d.layout = d'.layout) :
    d.SameWindows d' := by
  refine ⟨windows_of_layout h, ?_⟩
  change d.layout.wm.zOrder = d'.layout.wm.zOrder
  rw [h]

namespace Gui

variable {scr : Screen} {font : ℕ → UInt8} {sh : GuiShell κ} {shape : CursorShape} {g r : Gui κ}

/-- An operation of a run. -/
def dragStep (scr : Screen) (font : ℕ → UInt8) (sh : GuiShell κ) (shape : CursorShape) (g : Gui κ) :
    DragOp → Gui κ
  | .packet flags dx dy => g.step scr font sh shape (.mouse flags dx dy)
  | .tick now => g.step scr font sh shape (.tick now)

/-- A run of packets and ticks. -/
def dragRun (scr : Screen) (font : ℕ → UInt8) (sh : GuiShell κ) (shape : CursorShape) (g : Gui κ)
    (ops : List DragOp) : Gui κ :=
  ops.foldl (dragStep scr font sh shape) g

/-- The packets of the run alone, each followed by a tick that is not too early. -/
def tickEach (scr : Screen) (font : ℕ → UInt8) (sh : GuiShell κ) (shape : CursorShape) (g : Gui κ) :
    DragOp → Gui κ
  | .packet flags dx dy =>
    (g.handleMouse scr flags dx dy).tick scr font sh shape (g.lastFrameTick + 1)
  | .tick _ => g

/-- Nothing waits and no window is dragged with the left button up. -/
structure Ready (g : Gui κ) : Prop where
  queue : g.queue = []
  pending : g.pending = none
  held : g.desk.wm.dragging ≠ none → g.prevButtons.toNat.testBit 0 = true

/-- The run and the one with a tick after each packet are going to have one layout. -/
structure Sim (scr : Screen) (g r : Gui κ) : Prop where
  mouse : r.mouse = g.mouse
  prevButtons : r.prevButtons = g.prevButtons
  quiet : r.Quiet
  layout : r.desk.layout = (g.settled scr).layout
  isMouse : ∀ ev ∈ g.queue, ev.isMouse
  held : g.Held scr

theorem Ready.sim (h : g.Ready) : Sim scr g g where
  mouse := rfl
  prevButtons := rfl
  quiet := Or.inr ⟨h.queue, h.pending⟩
  layout := by rw [Quiet.settled (Or.inr ⟨h.queue, h.pending⟩)]
  isMouse := by simp [h.queue]
  held _ hdrag := h.held (by rwa [buttoned, h.queue, Desk.reacts_nil] at hdrag)

/-- Where the windows end up, however the rest of the events is delivered. -/
theorem sameWindows_iff {d : Desk} (hq : ∀ ev ∈ g.queue, ev.isMouse) :
    (∀ times, (g.ticks scr font sh shape times).Quiet →
      (g.ticks scr font sh shape times).desk.SameWindows d) ↔ (g.settled scr).SameWindows d := by
  have hend : ∀ times, (g.ticks scr font sh shape times).Quiet →
      (g.ticks scr font sh shape times).desk.SameWindows (g.settled scr) := by
    intro times hquiet
    have hticks : ((g.ticks scr font sh shape times).settled scr).layout =
        (g.settled scr).layout := settled_ticks times hq
    rw [Quiet.settled hquiet] at hticks
    exact Desk.SameWindows.of_layout hticks
  constructor
  · intro h
    obtain ⟨times, -, hquiet⟩ : ∃ times, _ ∧ (g.ticks scr font sh shape times).Quiet :=
      exists_quiet_ticks hq
    have hg := hend times hquiet
    have hd := h times hquiet
    exact ⟨hg.1.symm.trans hd.1, hg.2.symm.trans hd.2⟩
  · intro h times hquiet
    have hg := hend times hquiet
    exact ⟨hg.1.trans h.1, hg.2.trans h.2⟩

/-- A packet with its own tick, where nothing else waits. -/
theorem tickEach_packet (font : ℕ → UInt8) (sh : GuiShell κ) (shape : CursorShape) (flags : UInt8)
    (dx dy : ℤ) (hquiet : r.Quiet) :
    let mouse := r.mouse.handlePacket scr flags dx dy
    let r' := r.tickEach scr font sh shape (.packet flags dx dy)
    r'.Quiet ∧ r'.mouse = mouse ∧ r'.prevButtons = mouse.buttons ∧
      r'.desk.layout = ((r.desk.reacts scr (r.packetEdges scr flags dx dy)).react scr
        (.mouseMove mouse.x mouse.y)).layout := by
  intro mouse r'
  have hlen : (r.packetEdges scr flags dx dy).length ≤ 3 := List.length_filterMap_le _ _
  obtain ⟨queue, hpush, hqueue, -⟩ := exists_foldl_eventPush
    (g := { r with mouse, pending := some (mouse.x, mouse.y) }) (r.packetEdges scr flags dx dy)
  have hpacket : r.handleMouse scr flags dx dy =
      { r with mouse, pending := some (mouse.x, mouse.y), queue, prevButtons := mouse.buttons } :=
    congrArg (fun g : Gui κ => { g with prevButtons := mouse.buttons }) hpush
  cases hd : r.desk.down with
  | true =>
    have htick : r' = r.handleMouse scr flags dx dy := by
      have hdown : (r.handleMouse scr flags dx dy).desk.down = true := by rw [hpacket, hd]
      simp only [r', tickEach, tick, hdown, if_true]
    rw [htick, hpacket, Desk.reacts_of_down hd, Desk.react_of_down hd]
    exact ⟨Or.inl hd, rfl, rfl, rfl⟩
  | false =>
    have hempty : r.queue = [] := by
      rcases hquiet with h | h
      · rw [hd] at h
        cases h
      · exact h.1
    have hshort : queue.length ≤ 3 := by
      simp only [hempty, List.length_nil] at hqueue
      omega
    have hroom : (r.handleMouse scr flags dx dy).queue.length < 255 := by
      rw [hpacket]
      change queue.length < 255
      omega
    have hq : (r.handleMouse scr flags dx dy).queue = r.packetEdges scr flags dx dy := by
      rw [handleMouse_eq hroom, hempty, List.nil_append]
    have hnow : r.lastFrameTick + 1 ≠ (r.handleMouse scr flags dx dy).lastFrameTick := by
      rw [hpacket]
      change r.lastFrameTick + 1 ≠ r.lastFrameTick
      bv_omega
    have hspec := (tick_spec font sh shape (hq ▸ isMouse_buttonEdges) (by rw [hpacket, hd]) hnow :
      SameInput _ ((r.handleMouse scr flags dx dy).tick scr _ _ _ _))
    have hfew : ¬ guiMaxEventsPerTick ≤ (r.handleMouse scr flags dx dy).queue.length := by
      rw [hpacket]
      simp only [guiMaxEventsPerTick]
      omega
    rw [if_neg hfew] at hspec
    refine ⟨Or.inr ⟨hspec.queue, hspec.pending⟩, hspec.mouse.trans (by rw [hpacket]),
      hspec.prevButtons.trans (by rw [hpacket]), hspec.layout.trans ?_⟩
    simp only [settled, buttoned, hq, moves]
    rw [hpacket]
    rfl

/-- A packet of the run and of the one with a tick after each packet. -/
theorem Sim.packet (font : ℕ → UInt8) (sh : GuiShell κ) (shape : CursorShape) {flags : UInt8}
    {dx dy : ℤ} (h : Sim scr g r)
    (hroom : (g.handleMouse scr flags dx dy).queue.length < 255) :
    let g' := g.handleMouse scr flags dx dy
    let r' := r.tickEach scr font sh shape (.packet flags dx dy)
    (¬ g.Late scr flags → Sim scr g' r') ∧
      (g.Late scr flags → ¬ (g'.settled scr).SameWindows r'.desk) := by
  intro g' r'
  obtain ⟨hquiet, hmouse, hprev, hlayout⟩ := tickEach_packet font sh shape flags dx dy h.quiet
  obtain ⟨hontime, hlate⟩ := settled_handleMouse h.held hroom
  have hedges : r.packetEdges scr flags dx dy = g.packetEdges scr flags dx dy := by
    rw [packetEdges, packetEdges, h.mouse, h.prevButtons]
  rw [hedges, h.mouse] at hlayout
  have hsame := (hlayout.trans (Desk.layout_reacts scr
    (Desk.layout_reacts scr h.layout (g.packetEdges scr flags dx dy)) [.mouseMove _ _]))
  have hg' : g' = _ := handleMouse_eq hroom
  refine ⟨fun hl => ?_, fun hl hwindows => ?_⟩
  · refine ⟨?_, ?_, hquiet, hsame.trans (hontime hl).symm, ?_, held_handleMouse h.held hroom⟩
    · rw [hmouse, h.mouse, hg']
    · rw [hprev, h.mouse, hg']
    · intro ev hev
      rw [hg'] at hev
      rcases List.mem_append.mp hev with hev | hev
      · exact h.isMouse ev hev
      · exact isMouse_buttonEdges ev hev
  · exact hlate hl (hwindows.1.trans (Desk.windows_of_layout hsame))

theorem Sim.tick (h : Sim scr g r) (now : BitVec 32) :
    Sim scr (g.tick scr font sh shape now) r := by
  have htick : Ticked scr g (g.tick scr font sh shape now) := ticked_tick h.isMouse
  exact ⟨h.mouse.trans htick.mouse.symm, h.prevButtons.trans htick.prevButtons.symm, h.quiet,
    h.layout.trans htick.settled.symm, isMouse_of_ticked htick h.isMouse,
    held_of_ticked htick h.held⟩

/-- The operation is not a late packet. -/
def OnTime (scr : Screen) (g : Gui κ) : DragOp → Prop
  | .packet flags _ _ => ¬ g.Late scr flags
  | .tick _ => True

/-- The windows are where they would be with a tick after each packet, after every part of a run,
exactly if no packet is late. -/
theorem Sim.run (h : Sim scr g r) {ops : List DragOp}
    (hroom : After (fun g op => some (dragStep scr font sh shape g op))
      (fun g => g.queue.length < 255) g ops) :
    (∀ pre, pre <+: ops → ((g.dragRun scr font sh shape pre).settled scr).SameWindows
        (pre.foldl (tickEach scr font sh shape) r).desk) ↔
      Along (fun g op => some (dragStep scr font sh shape g op)) (OnTime scr) g ops := by
  induction ops generalizing g r with
  | nil =>
    refine ⟨fun _ => trivial, fun _ pre hpre => ?_⟩
    rw [List.prefix_nil.mp hpre]
    exact Desk.SameWindows.of_layout h.layout.symm
  | cons op ops ih =>
    have hnext := hroom.2 _ rfl
    -- the first operation, if it is on time
    have hstep : OnTime scr g op →
        Sim scr (dragStep scr font sh shape g op) (tickEach scr font sh shape r op) := by
      intro hon
      cases op with
      | packet flags dx dy => exact (h.packet font sh shape hnext.head).1 hon
      | tick now => exact h.tick now
    have hlate : ¬ OnTime scr g op → ¬ ((dragStep scr font sh shape g op).settled scr).SameWindows
        (tickEach scr font sh shape r op).desk := by
      intro hon
      cases op with
      | packet flags dx dy => exact (h.packet font sh shape hnext.head).2 (not_not.mp hon)
      | tick now => exact absurd trivial hon
    constructor
    · intro hall
      have hon : OnTime scr g op := by
        by_contra hon
        exact hlate hon (hall [op] ⟨ops, rfl⟩)
      refine ⟨hon, ?_⟩
      rintro g' ⟨⟩
      exact (ih (hstep hon) hnext).mp fun pre hpre =>
        hall (op :: pre) (List.cons_prefix_cons.mpr ⟨rfl, hpre⟩)
    · rintro ⟨hon, hrest⟩ pre hpre
      cases pre with
      | nil => exact Desk.SameWindows.of_layout h.layout.symm
      | cons op' pre =>
        obtain ⟨rfl, htail⟩ := List.cons_prefix_cons.mp hpre
        exact (ih (hstep hon) hnext).mpr (hrest _ rfl) pre htail

/-- Packets and ticks put no keys into the queue. -/
theorem isMouse_dragRun (ops : List DragOp) (hq : ∀ ev ∈ g.queue, ev.isMouse) :
    ∀ ev ∈ (g.dragRun scr font sh shape ops).queue, ev.isMouse := by
  induction ops generalizing g with
  | nil => exact hq
  | cons op ops ih =>
    refine ih ?_
    cases op with
    | packet flags dx dy =>
      obtain ⟨queue, hpush, -, hmem⟩ := exists_foldl_eventPush
        (g := { g with
          mouse := g.mouse.handlePacket scr flags dx dy
          pending := some ((g.mouse.handlePacket scr flags dx dy).x,
            (g.mouse.handlePacket scr flags dx dy).y) })
        (g.packetEdges scr flags dx dy)
      have hqueue : (g.handleMouse scr flags dx dy).queue = queue := congrArg Gui.queue hpush
      intro ev hev
      change ev ∈ (g.handleMouse scr flags dx dy).queue at hev
      rw [hqueue] at hev
      rcases hmem ev hev with h | h
      · exact hq ev h
      · exact isMouse_buttonEdges ev h
    | tick now => exact isMouse_of_ticked (ticked_tick hq : Ticked scr g _) hq

/-- However the ticks fall among the packets, enough ticks after them leave every window where a
tick after each packet leaves it, with the same focus and order, exactly if no packet is late. -/
theorem drag_independent_of_ticks (scr : Screen) (font : ℕ → UInt8) (sh : GuiShell κ)
    (shape : CursorShape) (g : Gui κ) (hg : g.Ready) (ops : List DragOp)
    (hroom : After (fun g op => some (dragStep scr font sh shape g op))
      (fun g => g.queue.length < 255) g ops) :
    (∀ pre, pre <+: ops → ∀ times,
        ((g.dragRun scr font sh shape pre).ticks scr font sh shape times).Quiet →
        ((g.dragRun scr font sh shape pre).ticks scr font sh shape times).desk.SameWindows
          (pre.foldl (tickEach scr font sh shape) g).desk) ↔
      Along (fun g op => some (dragStep scr font sh shape g op)) (OnTime scr) g ops := by
  have hq : ∀ ev ∈ g.queue, ev.isMouse := by simp [hg.queue]
  rw [← (hg.sim : Sim scr g g).run hroom]
  exact forall₂_congr fun pre _ => sameWindows_iff (isMouse_dragRun pre hq)

/-- The GUI in a mode of 1024 by 768. -/
def largeScreen : Gui Unit :=
  start ⟨1024, 768⟩ (fun _ => 0) (fun _ => 0) (fun _ => 0) [] () 0

theorem ready_largeScreen : largeScreen.Ready :=
  ⟨rfl, rfl, fun hdrag => absurd rfl hdrag⟩

/-- The mouse goes to the title bar of the terminal, and drags it with a tick before the
release. -/
def slowDrag : List DragOp :=
  [.packet 0 0 172, .packet 0 0 172, .packet 1 0 0, .packet 1 100 0, .tick 1, .packet 0 0 0]

theorem drag_independent_of_ticks_slow :
    (∀ pre, pre <+: slowDrag → ∀ times,
        ((largeScreen.dragRun ⟨1024, 768⟩ (fun _ => 0) quietShell drawCursorShape pre).ticks
          ⟨1024, 768⟩ (fun _ => 0) quietShell drawCursorShape times).Quiet →
        ((largeScreen.dragRun ⟨1024, 768⟩ (fun _ => 0) quietShell drawCursorShape pre).ticks
          ⟨1024, 768⟩ (fun _ => 0) quietShell drawCursorShape times).desk.SameWindows
          (pre.foldl (tickEach ⟨1024, 768⟩ (fun _ => 0) quietShell drawCursorShape)
            largeScreen).desk) ↔
      Along (fun g op => some (dragStep ⟨1024, 768⟩ (fun _ => 0) quietShell drawCursorShape g op))
        (OnTime ⟨1024, 768⟩) largeScreen slowDrag := by
  refine drag_independent_of_ticks ⟨1024, 768⟩ (fun _ => 0) quietShell drawCursorShape largeScreen
    ready_largeScreen slowDrag ?_
  simp only [slowDrag, After, Option.some.injEq, forall_eq']
  decide +kernel

/-- The same drag, all of it before the next tick. -/
def fastDrag : List DragOp :=
  [.packet 0 0 172, .packet 0 0 172, .packet 1 0 0, .packet 1 100 0, .packet 0 0 0]

/-- A window that is dragged between two ticks stays where it was. -/
theorem not_drag_independent_of_ticks : ¬ ∀ (scr : Screen) (font : ℕ → UInt8) (g : Gui Unit)
    (ops : List DragOp) (times : List (BitVec 32)), g.Ready →
      After (fun g op => some (dragStep scr font quietShell drawCursorShape g op))
        (fun g => g.queue.length < 255) g ops →
      ((g.dragRun scr font quietShell drawCursorShape ops).ticks scr font quietShell
        drawCursorShape times).Quiet →
      ((g.dragRun scr font quietShell drawCursorShape ops).ticks scr font quietShell
        drawCursorShape times).desk.SameWindows
        (ops.foldl (tickEach scr font quietShell drawCursorShape) g).desk := by
  intro h
  have hroom : After (fun g op => some (dragStep ⟨1024, 768⟩ (fun _ => 0) quietShell
      drawCursorShape g op)) (fun g => g.queue.length < 255) largeScreen fastDrag := by
    simp only [fastDrag, After, Option.some.injEq, forall_eq']
    decide
  have hquiet : ((largeScreen.dragRun ⟨1024, 768⟩ (fun _ => 0) quietShell drawCursorShape
      fastDrag).ticks ⟨1024, 768⟩ (fun _ => 0) quietShell drawCursorShape [1]).Quiet :=
    Or.inr ⟨by decide +kernel, by decide +kernel⟩
  obtain ⟨hwindows, -⟩ := h ⟨1024, 768⟩ (fun _ => 0) largeScreen fastDrag [1] ready_largeScreen
    hroom hquiet
  have hx := congrArg (List.map GuiWindow.x) hwindows
  have hfast : ((largeScreen.dragRun ⟨1024, 768⟩ (fun _ => 0) quietShell drawCursorShape
      fastDrag).ticks ⟨1024, 768⟩ (fun _ => 0) quietShell drawCursorShape
        [1]).desk.wm.windows.map GuiWindow.x = [188] := by
    decide +kernel
  have heach : (fastDrag.foldl (tickEach ⟨1024, 768⟩ (fun _ => 0) quietShell drawCursorShape)
      largeScreen).desk.wm.windows.map GuiWindow.x = [288] := by
    decide +kernel
  rw [hfast, heach] at hx
  cases hx

end Gui

end VernisOS
