import VernisOS.Compositor
import VernisOS.Lib.BoxSum
import VernisOS.Lib.Bytes

/-!
# The box blur in the back buffer

`compositor_blur_rect` of `gui/compositor.rs` over the bytes of the back buffer, with its scratch
lines, `read_pixel_buf` and `write_pixel_buf` of `framebuffer.rs`. Modes of 32 bits write a blurred
line over the pixels it was read from, the others go through a second line. Sums are `u32` and the
loops fail where one would wrap or a division would be by zero; `usize` has 64 bits.

On every mode that the compositor takes no sum wraps and no count is zero, nothing outside the
clipped rectangle changes, and each channel becomes the mean over the columns of the means over
the rows (`blur_rect_box`).
-/

open BoxSum Bytes Function

namespace VernisOS

/-! ## Pixels -/

/-- `BACK_BUFFER_MAX`. -/
def backBufferMax : ℕ := 8 * 1024 * 1024

/-- `width`, `height` and `bpp` of a mode that `compositor_init` takes. -/
structure VideoMode where
  screen : Screen
  bpp : ℕ
  depth : bpp = 24 ∨ bpp = 32
  fits : screen.width * (bpp / 8) * screen.height ≤ backBufferMax

namespace VideoMode

def bppBytes (m : VideoMode) : ℕ :=
  m.bpp / 8

def pitch (m : VideoMode) : ℕ :=
  m.screen.width * m.bppBytes

end VideoMode

/-- The bytes of the back buffer and the words of `BLUR_SCRATCH`. -/
structure BlurState where
  buf : ℕ → UInt8
  scratch : ℕ → ℕ

/-- `read_pixel_buf`. -/
def readPixelBuf (buf : ℕ → UInt8) (base bpp : ℕ) : ℕ :=
  let rgb := (buf base).toNat ||| ((buf (base + 1)).toNat <<< 8) |||
    ((buf (base + 2)).toNat <<< 16)
  if bpp = 32 then rgb ||| ((buf (base + 3)).toNat <<< 24) else rgb

/-- `write_pixel_buf`. -/
def writePixelBuf (buf : ℕ → UInt8) (base color bpp : ℕ) : ℕ → UInt8 :=
  let buf := update buf base (UInt8.ofNat color)
  let buf := update buf (base + 1) (UInt8.ofNat (color >>> 8))
  let buf := update buf (base + 2) (UInt8.ofNat (color >>> 16))
  if bpp = 32 then update buf (base + 3) (UInt8.ofNat (color >>> 24)) else buf

/-! ## One line -/

namespace BlurSums

/-- `+=` on the three sums and the count. -/
def addChecked (s : BlurSums) (p : ℕ) : Option BlurSums :=
  let t := s.add p
  if t.sr < 2 ^ 32 ∧ t.sg < 2 ^ 32 ∧ t.sb < 2 ^ 32 ∧ t.count < 2 ^ 32 then some t else none

/-- `-=` on the three sums and the count. -/
def subChecked (s : BlurSums) (p : ℕ) : Option BlurSums :=
  if (p >>> 16 &&& 0xFF) ≤ s.sr ∧ (p >>> 8 &&& 0xFF) ≤ s.sg ∧ (p &&& 0xFF) ≤ s.sb ∧
      1 ≤ s.count then
    some (s.sub p)
  else none

/-- The divisions by the count. -/
def averageChecked (s : BlurSums) : Option ℕ :=
  if s.count = 0 then none else some s.average

end BlurSums

/-- One turn of the loop of `blur_line_u32`. -/
def blurTurn (len r : ℕ) (store : BlurState → ℕ → ℕ → BlurState) (b : BlurState × BlurSums)
    (i : ℕ) : Option (BlurState × BlurSums) := do
  let (s, sums) := b
  let v ← sums.averageChecked
  let s := store s i v
  let sums ← if i + r + 1 < len then sums.addChecked (s.scratch (i + r + 1)) else some sums
  let sums ← if r ≤ i then sums.subChecked (s.scratch (i - r)) else some sums
  return (s, sums)

/-- `blur_line_u32` of the line in the scratch buffer. `store` is what a write to `out` does. -/
def blurLineU32 (len r : ℕ) (store : BlurState → ℕ → ℕ → BlurState) (s : BlurState) :
    Option BlurState := do
  let sums ← (List.range (min r (len - 1) + 1)).foldlM
    (fun sums i => sums.addChecked (s.scratch i)) ⟨0, 0, 0, 0⟩
  let b ← (List.range len).foldlM (blurTurn len r store) (s, sums)
  return b.1

/-- The loops that fill the line with pixels `base 0`, `base 1`, … -/
def loadLine (m : VideoMode) (base : ℕ → ℕ) (len : ℕ) (s : BlurState) : BlurState :=
  (List.range len).foldl (fun s i =>
    { s with scratch := update s.scratch i (readPixelBuf s.buf (base i) m.bpp) }) s

/-- A line of the fast path, written to the pixels that it was read from. -/
def blurLineFast (m : VideoMode) (base : ℕ → ℕ) (len r : ℕ) (s : BlurState) : Option BlurState :=
  blurLineU32 len r (fun s i v => { s with buf := writePixelBuf s.buf (base i) v m.bpp })
    (loadLine m base len s)

/-- A line of the generic path, written through the second half of the scratch buffer. -/
def blurLineGeneric (m : VideoMode) (base : ℕ → ℕ) (len r half : ℕ) (s : BlurState) :
    Option BlurState := do
  let s ← blurLineU32 len r (fun s i v => { s with scratch := update s.scratch (half + i) v })
    (loadLine m base len s)
  return (List.range len).foldl (fun s i =>
    { s with buf := writePixelBuf s.buf (base i) (s.scratch (half + i)) m.bpp }) s

/-! ## The rectangle -/

/-- The bytes of the pixels of the fast path, where `u32` words are addressed. -/
def wordBase (m : VideoMode) (q : Clip) (row col : ℕ) : ℕ :=
  let pitch4 := m.pitch / 4
  4 * (q.y0 * pitch4 + q.x0 + row * pitch4 + col)

/-- The bytes of the pixels of the generic path. -/
def byteBase (m : VideoMode) (q : Clip) (row col : ℕ) : ℕ :=
  (q.y0 + row) * m.pitch + q.x0 * m.bppBytes + col * m.bppBytes

/-- The rows and then the columns of the clipped rectangle. -/
def blurClipBytes (m : VideoMode) (q : Clip) (r : ℕ) (s : BlurState) : Option BlurState :=
  let rw := q.x1 - q.x0
  let rh := q.y1 - q.y0
  if m.bpp = 32 then do
    let s ← (List.range rh).foldlM (fun s row => blurLineFast m (wordBase m q row) rw r s) s
    (List.range rw).foldlM (fun s col => blurLineFast m (wordBase m q · col) rh r s) s
  else do
    let half := max rw rh * 2 / 2
    let s ← (List.range rh).foldlM
      (fun s row => blurLineGeneric m (byteBase m q row) rw r half s) s
    (List.range rw).foldlM (fun s col => blurLineGeneric m (byteBase m q · col) rh r half s) s

/-- `saturating_add` on `i32`. -/
def saturatingAdd (a b : ℤ) : ℤ :=
  max (-2 ^ 31) (min (a + b) (2 ^ 31 - 1))

/-- `clip_rect` on `i32` and `u32`. -/
def clipRect (scr : Screen) (x y w h : UInt32) : Option Clip :=
  let x0 := (cInt x).toNat
  let y0 := (cInt y).toNat
  let xe := saturatingAdd (cInt x) (cInt w)
  let ye := saturatingAdd (cInt y) (cInt h)
  if xe ≤ 0 then none
  else if ye ≤ 0 then none
  else
    let x1 := min xe.toNat scr.width
    let y1 := min ye.toNat scr.height
    if x1 ≤ x0 ∨ y1 ≤ y0 then none else some ⟨x0, y0, x1, y1⟩

/-- `compositor_blur_rect`, what it does to the back buffer. -/
def compositorBlurRect (m : VideoMode) (x y w h radius : UInt32) (s : BlurState) :
    Option BlurState :=
  if radius = 0 then some s
  else
    match clipRect m.screen x y w h with
    | none => some s
    | some q => blurClipBytes m q radius.toNat s

/-! ## Channels and sums -/

/-- A channel of a colour : blue, green and red. -/
def channel (c p : ℕ) : ℕ :=
  p >>> (8 * c) &&& 0xFF

theorem channel_le (c p : ℕ) : channel c p ≤ 255 :=
  Nat.and_le_right

/-- Three channels packed into a colour. -/
theorem channel_pack (r : ℕ) {g b : ℕ} (hg : g ≤ 255) (hb : b ≤ 255) :
    (r <<< 16) ||| (g <<< 8) ||| b = 65536 * r + 256 * g + b := by
  have hgb : g <<< 8 < 2 ^ 16 := by
    rw [Nat.shiftLeft_eq]
    omega
  have hhigh : (r <<< 16) ||| (g <<< 8) = (256 * r + g) <<< 8 := by
    rw [← Nat.shiftLeft_add_eq_or_of_lt hgb]
    simp only [Nat.shiftLeft_eq]
    omega
  rw [hhigh, ← Nat.shiftLeft_add_eq_or_of_lt (by omega), Nat.shiftLeft_eq]
  omega

theorem channel_eq (c p : ℕ) : channel c p = p / 256 ^ c % 256 := by
  rw [channel, Nat.shiftRight_eq_div_pow, Nat.pow_mul]
  exact Nat.and_two_pow_sub_one_eq_mod _ 8

/-- The sums over the window around `i`. -/
def boxSums (line : ℕ → ℕ) (len r i : ℕ) : BlurSums where
  sr := ∑ j ∈ near len r i, channel 2 (line j)
  sg := ∑ j ∈ near len r i, channel 1 (line j)
  sb := ∑ j ∈ near len r i, channel 0 (line j)
  count := (near len r i).card

variable {line : ℕ → ℕ} {len r i : ℕ}

theorem BlurSums.add_eq (s : BlurSums) (p : ℕ) :
    s.add p = ⟨s.sr + channel 2 p, s.sg + channel 1 p, s.sb + channel 0 p, s.count + 1⟩ :=
  rfl

theorem BlurSums.sub_eq (s : BlurSums) (p : ℕ) :
    s.sub p = ⟨s.sr - channel 2 p, s.sg - channel 1 p, s.sb - channel 0 p, s.count - 1⟩ :=
  rfl

/-- The sums of the first colours. -/
def firstSums (line : ℕ → ℕ) (n : ℕ) : BlurSums where
  sr := ∑ j ∈ Finset.range n, channel 2 (line j)
  sg := ∑ j ∈ Finset.range n, channel 1 (line j)
  sb := ∑ j ∈ Finset.range n, channel 0 (line j)
  count := n

theorem firstSums_succ (line : ℕ → ℕ) (n : ℕ) :
    firstSums line (n + 1) = (firstSums line n).add (line n) := by
  simp only [firstSums, BlurSums.add_eq, Finset.sum_range_succ]

theorem boxSums_zero (h : 0 < len) :
    boxSums line len r 0 = firstSums line (min r (len - 1) + 1) := by
  simp only [boxSums, firstSums, near_zero h, Finset.card_range]

/-- What a turn of the loop makes of the sums. -/
theorem boxSums_succ (h : i < len) :
    boxSums line len r (i + 1) =
      let s := boxSums line len r i
      let s := if i + r + 1 < len then s.add (line (i + r + 1)) else s
      if r ≤ i then s.sub (line (i - r)) else s := by
  have hr := sum_near_succ (fun j => channel 2 (line j)) h (r := r)
  have hg := sum_near_succ (fun j => channel 1 (line j)) h (r := r)
  have hb := sum_near_succ (fun j => channel 0 (line j)) h (r := r)
  have hcount := card_near_succ h (r := r)
  dsimp only at hr hg hb ⊢
  by_cases hahead : i + r + 1 < len <;> by_cases hbehind : r ≤ i <;>
    simp only [hahead, hbehind, if_true, if_false, add_zero] at hr hg hb hcount ⊢ <;>
    simp only [boxSums, BlurSums.add_eq, BlurSums.sub_eq, BlurSums.mk.injEq] <;> omega

theorem window_eq_boxSums (hi : i ≤ len) (hlen : 0 < len) :
    BlurSums.window line len r i = boxSums line len r i := by
  induction i with
  | zero =>
    have hfold : ∀ n, (List.range n).foldl (fun s i => BlurSums.add s (line i)) ⟨0, 0, 0, 0⟩ =
        firstSums line n := by
      intro n
      induction n with
      | zero => rfl
      | succ n ih => rw [List.range_succ, List.foldl_concat, ih, firstSums_succ]
    rw [boxSums_zero hlen, BlurSums.window, hfold]
  | succ i ih =>
    rw [BlurSums.window, ih (by omega), boxSums_succ (by omega)]

theorem boxMean_channel_le (line : ℕ → ℕ) (len r i c : ℕ) :
    boxMean (fun j => channel c (line j)) len r i ≤ 255 :=
  boxMean_le (fun j _ => channel_le c (line j)) r i

theorem blurLine_eq (hi : i < len) :
    blurLine line len r i = 65536 * boxMean (fun j => channel 2 (line j)) len r i +
      256 * boxMean (fun j => channel 1 (line j)) len r i +
      boxMean (fun j => channel 0 (line j)) len r i := by
  rw [blurLine, window_eq_boxSums hi.le (by omega)]
  exact channel_pack _ (boxMean_channel_le line len r i 1) (boxMean_channel_le line len r i 0)

/-- A blurred line : each channel is the mean over the window. -/
theorem channel_blurLine (hi : i < len) {c : ℕ} (hc : c < 3) :
    channel c (blurLine line len r i) = boxMean (fun j => channel c (line j)) len r i := by
  have h0 := boxMean_channel_le line len r i 0
  have h1 := boxMean_channel_le line len r i 1
  have h2 := boxMean_channel_le line len r i 2
  rw [blurLine_eq hi, channel_eq]
  obtain rfl | rfl | rfl : c = 0 ∨ c = 1 ∨ c = 2 := by omega
  · omega
  · omega
  · omega

theorem blurLine_lt (hi : i < len) : blurLine line len r i < 2 ^ 24 := by
  have h0 := boxMean_channel_le line len r i 0
  have h1 := boxMean_channel_le line len r i 1
  have h2 := boxMean_channel_le line len r i 2
  rw [blurLine_eq hi]
  omega

/-! ## The checked loops -/

/-- A line is short enough for its sums. -/
def ShortLine (len : ℕ) : Prop :=
  255 * (len + 1) < 2 ^ 32

theorem boxSums_le (line : ℕ → ℕ) (len r i : ℕ) :
    (boxSums line len r i).sr ≤ 255 * len ∧ (boxSums line len r i).sg ≤ 255 * len ∧
      (boxSums line len r i).sb ≤ 255 * len ∧ (boxSums line len r i).count ≤ len := by
  have hcard := card_near_le len r i
  have hsum : ∀ c, ∑ j ∈ near len r i, channel c (line j) ≤ 255 * len := fun c =>
    (sum_near_le (fun j _ => channel_le c (line j)) r i).trans (by
      rw [Nat.mul_comm]
      exact Nat.mul_le_mul_left 255 hcard)
  exact ⟨hsum 2, hsum 1, hsum 0, hcard⟩

theorem addChecked_eq {s : BlurSums} {n : ℕ} (hn : 255 * (n + 1) < 2 ^ 32) (hr : s.sr ≤ 255 * n)
    (hg : s.sg ≤ 255 * n) (hb : s.sb ≤ 255 * n) (hcount : s.count ≤ n) (p : ℕ) :
    s.addChecked p = some (s.add p) := by
  have h2 := channel_le 2 p
  have h1 := channel_le 1 p
  have h0 := channel_le 0 p
  rw [BlurSums.addChecked, BlurSums.add_eq]
  exact if_pos ⟨by dsimp only; omega, by dsimp only; omega, by dsimp only; omega,
    by dsimp only; omega⟩

/-- The first loop of `blur_line_u32`. -/
theorem foldlM_addChecked {scratch : ℕ → ℕ} {n : ℕ} (hn : n ≤ len) (hlen : ShortLine len)
    (h : ∀ j < len, scratch j = line j) :
    (List.range n).foldlM (fun sums i => BlurSums.addChecked sums (scratch i)) ⟨0, 0, 0, 0⟩ =
      some (firstSums line n) := by
  unfold ShortLine at hlen
  induction n with
  | zero => rfl
  | succ n ih =>
    have hsum : ∀ c, ∑ j ∈ Finset.range n, channel c (line j) ≤ 255 * n := fun c => by
      refine (Finset.sum_le_card_nsmul _ _ 255 fun j _ => channel_le c (line j)).trans ?_
      rw [Finset.card_range, smul_eq_mul, Nat.mul_comm]
    rw [List.range_succ, List.foldlM_append, ih (by omega), Option.bind_eq_bind, Option.bind_some,
      List.foldlM_cons, h n (by omega), firstSums_succ,
      addChecked_eq (by omega) (hsum 2) (hsum 1) (hsum 0) (Nat.le_refl n)]
    rfl

variable {store : BlurState → ℕ → ℕ → BlurState} {s : BlurState}

/-- One turn writes a blurred colour and moves the window. -/
theorem blurTurn_eq (hi : i < len) (hlen : ShortLine len)
    (hstore : ∀ s i v, i < len → ∀ j < len, (store s i v).scratch j = s.scratch j)
    (h : ∀ j < len, s.scratch j = line j) :
    blurTurn len r store (s, boxSums line len r i) i =
      some (store s i (blurLine line len r i), boxSums line len r (i + 1)) := by
  have hcount : (boxSums line len r i).count ≠ 0 := (card_near_pos hi).ne'
  have hline : ∀ v, ∀ j < len, (store s i v).scratch j = line j := fun v j hj =>
    (hstore s i v hi j hj).trans (h j hj)
  obtain ⟨hr, hg, hb, hc⟩ := boxSums_le line len r i
  have havg : (boxSums line len r i).averageChecked = some (blurLine line len r i) := by
    rw [BlurSums.averageChecked, if_neg hcount, blurLine, window_eq_boxSums hi.le (by omega)]
  have hsub : r ≤ i → ∀ t : BlurSums, (boxSums line len r i).sr ≤ t.sr →
      (boxSums line len r i).sg ≤ t.sg → (boxSums line len r i).sb ≤ t.sb →
      (boxSums line len r i).count ≤ t.count →
      t.subChecked (line (i - r)) = some (t.sub (line (i - r))) := by
    intro hbehind t htr htg htb htc
    have hpos := card_near_pos hi (r := r)
    exact if_pos ⟨(le_sum_near (fun j => channel 2 (line j)) hi hbehind).trans htr,
      (le_sum_near (fun j => channel 1 (line j)) hi hbehind).trans htg,
      (le_sum_near (fun j => channel 0 (line j)) hi hbehind).trans htb, hpos.trans_le htc⟩
  rw [boxSums_succ hi, blurTurn]
  dsimp only
  rw [havg, Option.bind_eq_bind, Option.bind_some]
  by_cases hahead : i + r + 1 < len
  · rw [if_pos hahead, if_pos hahead, hline _ _ hahead, addChecked_eq hlen hr hg hb hc,
      Option.bind_eq_bind, Option.bind_some]
    by_cases hbehind : r ≤ i
    · rw [if_pos hbehind, if_pos hbehind, hline _ _ (by omega),
        hsub hbehind _ (Nat.le_add_right _ _) (Nat.le_add_right _ _) (Nat.le_add_right _ _)
          (Nat.le_add_right _ _)]
      rfl
    · rw [if_neg hbehind, if_neg hbehind]
      rfl
  · rw [if_neg hahead, if_neg hahead, Option.bind_eq_bind, Option.bind_some]
    by_cases hbehind : r ≤ i
    · rw [if_pos hbehind, if_pos hbehind, hline _ _ (by omega),
        hsub hbehind _ le_rfl le_rfl le_rfl le_rfl]
      rfl
    · rw [if_neg hbehind, if_neg hbehind]
      rfl

/-- What the writes of a line do. -/
def storeLine (store : BlurState → ℕ → ℕ → BlurState) (v : ℕ → ℕ) (n : ℕ) (s : BlurState) :
    BlurState :=
  (List.range n).foldl (fun s i => store s i (v i)) s

theorem storeLine_succ (store : BlurState → ℕ → ℕ → BlurState) (v : ℕ → ℕ) (n : ℕ)
    (s : BlurState) : storeLine store v (n + 1) s = store (storeLine store v n s) n (v n) := by
  rw [storeLine, List.range_succ, List.foldl_concat]
  rfl

/-- No sum of a line wraps, no count is zero, and every colour is written once. -/
theorem blurLineU32_eq (hpos : 0 < len) (hlen : ShortLine len)
    (hstore : ∀ s i v, i < len → ∀ j < len, (store s i v).scratch j = s.scratch j)
    (h : ∀ j < len, s.scratch j = line j) :
    blurLineU32 len r store s = some (storeLine store (blurLine line len r) len s) := by
  have hloop : ∀ n ≤ len, (List.range n).foldlM (blurTurn len r store) (s, boxSums line len r 0) =
        some (storeLine store (blurLine line len r) n s, boxSums line len r n) ∧
      ∀ j < len, (storeLine store (blurLine line len r) n s).scratch j = line j := by
    intro n hn
    induction n with
    | zero => exact ⟨rfl, h⟩
    | succ n ih =>
      obtain ⟨hfold, hline⟩ := ih (by omega)
      constructor
      · rw [List.range_succ, List.foldlM_append, hfold, Option.bind_eq_bind, Option.bind_some,
          List.foldlM_cons, blurTurn_eq (by omega) hlen hstore hline, storeLine_succ]
        rfl
      · intro j hj
        rw [storeLine_succ, hstore _ _ _ (by omega) j hj]
        exact hline j hj
  rw [blurLineU32, foldlM_addChecked (by omega) hlen h, ← boxSums_zero hpos, Option.bind_eq_bind,
    Option.bind_some, (hloop len le_rfl).1]
  rfl

/-! ## Pixels in the back buffer -/

namespace VideoMode

variable (m : VideoMode)

/-- The first byte of a pixel. -/
def offset (p : Pixel) : ℕ :=
  p.2 * m.pitch + p.1 * m.bppBytes

/-- The bytes of a pixel. -/
def bytes (p : Pixel) : Set ℕ :=
  {k | m.offset p ≤ k ∧ k < m.offset p + m.bppBytes}

/-- The picture that the back buffer holds. -/
def image (s : BlurState) : Image :=
  fun p => readPixelBuf s.buf (m.offset p) m.bpp

theorem bppBytes_cases : m.bpp = 24 ∧ m.bppBytes = 3 ∨ m.bpp = 32 ∧ m.bppBytes = 4 := by
  rw [bppBytes]
  rcases m.depth with h | h
  · exact Or.inl ⟨h, by rw [h]⟩
  · exact Or.inr ⟨h, by rw [h]⟩

theorem offset_eq (p : Pixel) : m.offset p = (p.2 * m.screen.width + p.1) * m.bppBytes := by
  rw [offset, pitch, Nat.add_mul, Nat.mul_assoc]

/-- Two pixels of the screen share no byte. -/
theorem offset_apart {p p' : Pixel} (hp : p ∈ m.screen.pixels) (hp' : p' ∈ m.screen.pixels)
    (hne : p ≠ p') :
    m.offset p + m.bppBytes ≤ m.offset p' ∨ m.offset p' + m.bppBytes ≤ m.offset p := by
  have hindex : p.2 * m.screen.width + p.1 ≠ p'.2 * m.screen.width + p'.1 := by
    intro heq
    have hpos : 0 < m.screen.width := by
      have := hp.1
      omega
    have hrow : p.2 = p'.2 := by
      have hdiv := congrArg (· / m.screen.width) heq
      simp only [Nat.mul_comm _ m.screen.width, Nat.mul_add_div hpos, Nat.div_eq_of_lt hp.1,
        Nat.div_eq_of_lt hp'.1, Nat.add_zero] at hdiv
      exact hdiv
    rw [hrow] at heq
    exact hne (Prod.ext (Nat.add_left_cancel heq) hrow)
  simp only [offset_eq, ← Nat.succ_mul]
  rcases Nat.lt_or_gt_of_ne hindex with hlt | hlt
  · exact Or.inl (Nat.mul_le_mul_right _ hlt)
  · exact Or.inr (Nat.mul_le_mul_right _ hlt)

end VideoMode

theorem readPixelBuf_eq (buf : ℕ → UInt8) (base bpp : ℕ) :
    readPixelBuf buf base bpp = (buf base).toNat + 256 * (buf (base + 1)).toNat +
      65536 * (buf (base + 2)).toNat +
      if bpp = 32 then 16777216 * (buf (base + 3)).toNat else 0 := by
  have h0 := (buf base).toNat_lt
  have h1 := (buf (base + 1)).toNat_lt
  have h2 := (buf (base + 2)).toNat_lt
  have hlow : (buf base).toNat ||| ((buf (base + 1)).toNat <<< 8) =
      (buf base).toNat + 256 * (buf (base + 1)).toNat := by
    rw [Nat.or_comm, ← Nat.shiftLeft_add_eq_or_of_lt h0, Nat.shiftLeft_eq]
    omega
  have hrgb : ((buf base).toNat ||| ((buf (base + 1)).toNat <<< 8)) |||
      ((buf (base + 2)).toNat <<< 16) = (buf base).toNat + 256 * (buf (base + 1)).toNat +
        65536 * (buf (base + 2)).toNat := by
    rw [hlow, Nat.or_comm, ← Nat.shiftLeft_add_eq_or_of_lt (by omega), Nat.shiftLeft_eq]
    omega
  rw [readPixelBuf, hrgb]
  split
  · rw [Nat.or_comm, ← Nat.shiftLeft_add_eq_or_of_lt (by omega), Nat.shiftLeft_eq]
    omega
  · rfl

/-- A pixel is read from its own bytes. -/
theorem readPixelBuf_congr (m : VideoMode) {buf buf' : ℕ → UInt8} {base : ℕ}
    (h : ∀ k, base ≤ k → k < base + m.bppBytes → buf k = buf' k) :
    readPixelBuf buf base m.bpp = readPixelBuf buf' base m.bpp := by
  rw [readPixelBuf_eq, readPixelBuf_eq]
  rcases m.bppBytes_cases with ⟨hbpp, hb⟩ | ⟨hbpp, hb⟩
  · rw [h base (by omega) (by omega), h (base + 1) (by omega) (by omega),
      h (base + 2) (by omega) (by omega), hbpp]
    rfl
  · rw [h base (by omega) (by omega), h (base + 1) (by omega) (by omega),
      h (base + 2) (by omega) (by omega), h (base + 3) (by omega) (by omega)]

/-- A write leaves the bytes of other pixels. -/
theorem writePixelBuf_of_notMem (m : VideoMode) (buf : ℕ → UInt8) {base : ℕ} (color : ℕ) {k : ℕ}
    (hk : k < base ∨ base + m.bppBytes ≤ k) : writePixelBuf buf base color m.bpp k = buf k := by
  unfold writePixelBuf
  rcases m.bppBytes_cases with ⟨hbpp, hb⟩ | ⟨hbpp, hb⟩
  · rw [hbpp, if_neg (by decide), update_of_ne (by omega), update_of_ne (by omega),
      update_of_ne (by omega)]
  · rw [hbpp, if_pos rfl, update_of_ne (by omega), update_of_ne (by omega),
      update_of_ne (by omega), update_of_ne (by omega)]

/-- A colour that is written is read back. -/
theorem readPixelBuf_writePixelBuf (m : VideoMode) (buf : ℕ → UInt8) (base : ℕ) {color : ℕ}
    (hcolor : color < 2 ^ 24) :
    readPixelBuf (writePixelBuf buf base color m.bpp) base m.bpp = color := by
  have hbytes : ∀ k, (UInt8.ofNat (color >>> k)).toNat = color / 2 ^ k % 256 := fun k => by
    rw [UInt8.toNat_ofNat', Nat.shiftRight_eq_div_pow]
  have hbyte0 : (UInt8.ofNat color).toNat = color % 256 := UInt8.toNat_ofNat'
  rw [readPixelBuf_eq]
  rcases m.depth with hbpp | hbpp
  · have hset : ∀ k, writePixelBuf buf base color m.bpp k =
        if k = base + 2 then UInt8.ofNat (color >>> 16)
        else if k = base + 1 then UInt8.ofNat (color >>> 8)
        else if k = base then UInt8.ofNat color else buf k := fun k => by
      simp only [writePixelBuf, if_neg (show ¬ m.bpp = 32 by omega), update_apply]
    rw [hset, if_neg (by omega), if_neg (by omega), if_pos rfl, hset, if_neg (by omega),
      if_pos rfl, hset, if_pos rfl, if_neg (by omega), hbyte0, hbytes, hbytes]
    omega
  · have hset : ∀ k, writePixelBuf buf base color m.bpp k =
        if k = base + 3 then UInt8.ofNat (color >>> 24)
        else if k = base + 2 then UInt8.ofNat (color >>> 16)
        else if k = base + 1 then UInt8.ofNat (color >>> 8)
        else if k = base then UInt8.ofNat color else buf k := fun k => by
      simp only [writePixelBuf, hbpp, if_true, update_apply]
    rw [hset, if_neg (by omega), if_neg (by omega), if_neg (by omega), if_pos rfl, hset,
      if_neg (by omega), if_neg (by omega), if_pos rfl, hset, if_neg (by omega), if_pos rfl,
      if_pos hbpp, hset, if_pos rfl, hbyte0, hbytes, hbytes, hbytes]
    omega

/-! ## Lines of pixels -/

namespace VideoMode

variable {m : VideoMode}

theorem image_congr {s s' : BlurState} {p : Pixel} (h : ∀ k ∈ m.bytes p, s'.buf k = s.buf k) :
    m.image s' p = m.image s p :=
  readPixelBuf_congr m fun k hlo hhi => h k ⟨hlo, hhi⟩

/-- The bytes outside the pixels of a set are as before. -/
def Outside (m : VideoMode) (P : Set Pixel) (s s' : BlurState) : Prop :=
  ∀ k, (∀ p ∈ P, k ∉ m.bytes p) → s'.buf k = s.buf k

/-- A pixel of the screen outside the set is as before. -/
theorem Outside.image {P : Set Pixel} {s s' : BlurState} (h : m.Outside P s s')
    (hP : P ⊆ m.screen.pixels) {p : Pixel} (hp : p ∈ m.screen.pixels) (hout : p ∉ P) :
    m.image s' p = m.image s p := by
  refine image_congr fun k hk => h k fun p' hp' hk' => ?_
  have hne : p ≠ p' := fun heq => hout (heq ▸ hp')
  rcases m.offset_apart hp (hP hp') hne with hapart | hapart
  · exact absurd (hk.2.trans_le (hapart.trans hk'.1)) (lt_irrefl k)
  · exact absurd (hk'.2.trans_le (hapart.trans hk.1)) (lt_irrefl k)

theorem Outside.trans {P : Set Pixel} {s s' s'' : BlurState} (h : m.Outside P s s')
    (h' : m.Outside P s' s'') : m.Outside P s s'' :=
  fun k hk => (h' k hk).trans (h k hk)

theorem Outside.mono {P Q : Set Pixel} {s s' : BlurState} (h : m.Outside P s s') (hPQ : P ⊆ Q) :
    m.Outside Q s s' :=
  fun k hk => h k fun p hp => hk p (hPQ hp)

end VideoMode

/-- The pixels of a line, from first to last, are different ones of the screen. -/
structure PixelLine (m : VideoMode) (pix : ℕ → Pixel) (len : ℕ) : Prop where
  pos : 0 < len
  short : ShortLine len
  screen : ∀ i < len, pix i ∈ m.screen.pixels
  distinct : ∀ i < len, ∀ j < len, pix i = pix j → i = j

namespace PixelLine

variable {m : VideoMode} {pix : ℕ → Pixel} {len r : ℕ} {s : BlurState}

/-- The pixels of the line. -/
def pixels (pix : ℕ → Pixel) (len : ℕ) : Set Pixel :=
  {p | ∃ i < len, pix i = p}

theorem pixels_subset (h : PixelLine m pix len) : pixels pix len ⊆ m.screen.pixels := by
  rintro _ ⟨i, hi, rfl⟩
  exact h.screen i hi

/-- Writes of colours to the pixels of a line, one after the other. -/
theorem writes (h : PixelLine m pix len) {v : ℕ → ℕ} (hv : ∀ i < len, v i < 2 ^ 24)
    {t : ℕ → BlurState} (ht : ∀ n < len,
      (t (n + 1)).buf = writePixelBuf (t n).buf (m.offset (pix n)) (v n) m.bpp) :
    (∀ i < len, m.image (t len) (pix i) = v i) ∧ m.Outside (pixels pix len) (t 0) (t len) := by
  have hrun : ∀ n ≤ len, (∀ i < n, m.image (t n) (pix i) = v i) ∧
      m.Outside (pixels pix len) (t 0) (t n) := by
    intro n hn
    induction n with
    | zero => exact ⟨fun i hi => absurd hi (Nat.not_lt_zero i), fun k _ => rfl⟩
    | succ n ih =>
      obtain ⟨himage, hout⟩ := ih (by omega)
      have hn' : n < len := by omega
      have hnext : m.Outside {p | p = pix n} (t n) (t (n + 1)) := by
        intro k hk
        rw [ht n hn']
        refine writePixelBuf_of_notMem m _ _ ?_
        by_contra hin
        rw [not_or, not_lt, not_le] at hin
        exact hk _ rfl hin
      constructor
      · intro i hi
        rcases Nat.lt_succ_iff_lt_or_eq.mp hi with hlt | rfl
        · have hne : pix i ≠ pix n := fun heq => by
            have := h.distinct i (by omega) n hn' heq
            omega
          rw [hnext.image (fun p hp => hp ▸ h.screen n hn') (h.screen i (by omega)) hne]
          exact himage i hlt
        · rw [VideoMode.image, ht i hn']
          exact readPixelBuf_writePixelBuf m _ _ (hv i hn')
      · exact hout.trans (hnext.mono fun p hp => ⟨n, hn', hp.symm⟩)
  exact hrun len le_rfl

/-- The line in the scratch buffer. -/
theorem scratch_loadLine (m : VideoMode) (base : ℕ → ℕ) (len : ℕ) (s : BlurState) :
    (loadLine m base len s).buf = s.buf ∧
      ∀ i < len, (loadLine m base len s).scratch i = readPixelBuf s.buf (base i) m.bpp := by
  unfold loadLine
  induction len with
  | zero => exact ⟨rfl, fun i hi => absurd hi (Nat.not_lt_zero i)⟩
  | succ n ih =>
    obtain ⟨hbuf, hline⟩ := ih
    rw [List.range_succ, List.foldl_concat]
    refine ⟨hbuf, fun i hi => ?_⟩
    dsimp only
    rcases Nat.lt_succ_iff_lt_or_eq.mp hi with hlt | rfl
    · rw [update_of_ne (by omega)]
      exact hline i hlt
    · rw [update_self, hbuf]

/-- What is left of a line once it is blurred. -/
structure Blurred (m : VideoMode) (pix : ℕ → Pixel) (len r : ℕ) (s s' : BlurState) : Prop where
  image : ∀ i < len, m.image s' (pix i) = blurLine (fun j => m.image s (pix j)) len r i
  outside : m.Outside (pixels pix len) s s'

/-- Colours that are stored in the scratch buffer from `half` on. -/
theorem storeLine_scratch (half : ℕ) (v : ℕ → ℕ) (n : ℕ) (s : BlurState) :
    let t := storeLine (fun s i v => { s with scratch := update s.scratch (half + i) v }) v n s
    t.buf = s.buf ∧ ∀ i < n, t.scratch (half + i) = v i := by
  induction n with
  | zero => exact ⟨rfl, fun i hi => absurd hi (Nat.not_lt_zero i)⟩
  | succ n ih =>
    obtain ⟨hbuf, hout⟩ := ih
    rw [storeLine_succ]
    refine ⟨hbuf, fun i hi => ?_⟩
    dsimp only
    rcases Nat.lt_succ_iff_lt_or_eq.mp hi with hlt | rfl
    · rw [update_of_ne (by omega)]
      exact hout i hlt
    · exact update_self _ _ _

/-- The fast path blurs the line in place. -/
theorem blurLineFast_eq (h : PixelLine m pix len) {base : ℕ → ℕ}
    (hbase : ∀ i < len, base i = m.offset (pix i)) (r : ℕ) (s : BlurState) :
    ∃ s', blurLineFast m base len r s = some s' ∧ Blurred m pix len r s s' := by
  obtain ⟨hbuf, hline⟩ := scratch_loadLine m base len s
  have hload : ∀ j < len, (loadLine m base len s).scratch j = m.image s (pix j) := fun j hj => by
    rw [hline j hj, hbase j hj]
    rfl
  refine ⟨_, blurLineU32_eq h.pos h.short (fun _ _ _ _ _ _ => rfl) hload, ?_⟩
  have hwrites := h.writes (v := blurLine (fun j => m.image s (pix j)) len r)
    (fun i hi => blurLine_lt hi)
    (t := fun n => storeLine (fun s i v => { s with buf := writePixelBuf s.buf (base i) v m.bpp })
      (blurLine (fun j => m.image s (pix j)) len r) n (loadLine m base len s))
    fun n hn => by rw [storeLine_succ, hbase n hn]
  refine ⟨hwrites.1, fun k hk => (hwrites.2 k hk).trans ?_⟩
  exact congrFun hbuf k

/-- The generic path blurs it through the second half of the scratch buffer. -/
theorem blurLineGeneric_eq (h : PixelLine m pix len) {base : ℕ → ℕ}
    (hbase : ∀ i < len, base i = m.offset (pix i)) {half : ℕ} (hhalf : len ≤ half) (r : ℕ)
    (s : BlurState) :
    ∃ s', blurLineGeneric m base len r half s = some s' ∧ Blurred m pix len r s s' := by
  obtain ⟨hbuf, hline⟩ := scratch_loadLine m base len s
  have hload : ∀ j < len, (loadLine m base len s).scratch j = m.image s (pix j) := fun j hj => by
    rw [hline j hj, hbase j hj]
    rfl
  have hstore : ∀ (s : BlurState) (i v : ℕ), i < len → ∀ j < len,
      ({ s with scratch := update s.scratch (half + i) v } : BlurState).scratch j = s.scratch j :=
    fun s i v hi j hj => update_of_ne (by omega) _ _
  have hblur := blurLineU32_eq (r := r) h.pos h.short hstore hload
  obtain ⟨htbuf, hout⟩ := storeLine_scratch half (blurLine (fun j => m.image s (pix j)) len r) len
    (loadLine m base len s)
  generalize storeLine (fun s i v => { s with scratch := update s.scratch (half + i) v })
    (blurLine (fun j => m.image s (pix j)) len r) len (loadLine m base len s) = t
    at hblur htbuf hout
  -- the second half goes to the pixels, and stays as it is
  generalize hcopy : (fun n => (List.range n).foldl (fun s i =>
    { s with buf := writePixelBuf s.buf (base i) (s.scratch (half + i)) m.bpp }) t) = copy
  have hnext : ∀ n, copy (n + 1) = { copy n with
      buf := writePixelBuf (copy n).buf (base n) ((copy n).scratch (half + n)) m.bpp } := by
    intro n
    rw [← hcopy]
    dsimp only
    rw [List.range_succ, List.foldl_concat]
  have hscratch : ∀ n, (copy n).scratch = t.scratch := by
    intro n
    induction n with
    | zero => rw [← hcopy]; rfl
    | succ n ih => rw [hnext, ← ih]
  have hwrites := h.writes (v := blurLine (fun j => m.image s (pix j)) len r)
    (fun i hi => blurLine_lt hi) (t := copy)
    fun n hn => by rw [hnext, hbase n hn, hscratch, hout n hn]
  refine ⟨copy len, by rw [blurLineGeneric, hblur, ← hcopy]; rfl, hwrites.1, fun k hk => ?_⟩
  rw [hwrites.2 k hk, ← hcopy]
  exact congrFun (htbuf.trans hbuf) k

end PixelLine

/-! ## The clipped rectangle -/

/-- Lines that share no pixel, blurred one after the other. -/
theorem blurLines {m : VideoMode} {pix : ℕ → ℕ → Pixel} {lines len r : ℕ}
    (hline : ∀ a < lines, PixelLine m (pix a) len)
    (hapart : ∀ a < lines, ∀ b < lines, ∀ i < len, ∀ j < len, pix a i = pix b j → a = b)
    {step : ℕ → BlurState → Option BlurState}
    (hstep : ∀ a < lines, ∀ s, ∃ s', step a s = some s' ∧ PixelLine.Blurred m (pix a) len r s s')
    (s : BlurState) :
    ∃ s', (List.range lines).foldlM (fun s a => step a s) s = some s' ∧
      (∀ a < lines, ∀ i < len,
        m.image s' (pix a i) = blurLine (fun j => m.image s (pix a j)) len r i) ∧
      m.Outside {p | ∃ a < lines, ∃ i < len, pix a i = p} s s' := by
  have hrun : ∀ n ≤ lines, ∃ s', (List.range n).foldlM (fun s a => step a s) s = some s' ∧
      (∀ a < n, ∀ i < len,
        m.image s' (pix a i) = blurLine (fun j => m.image s (pix a j)) len r i) ∧
      m.Outside {p | ∃ a < n, ∃ i < len, pix a i = p} s s' := by
    intro n hn
    induction n with
    | zero => exact ⟨s, rfl, fun a ha => absurd ha (Nat.not_lt_zero a), fun k _ => rfl⟩
    | succ n ih =>
      obtain ⟨t, hfold, himage, hout⟩ := ih (by omega)
      have hn' : n < lines := by omega
      obtain ⟨s', hs', hblur⟩ := hstep n hn' t
      refine ⟨s', ?_, ?_, ?_⟩
      · rw [List.range_succ, List.foldlM_append, hfold, Option.bind_eq_bind, Option.bind_some,
          List.foldlM_cons, hs']
        rfl
      · intro a ha i hi
        rcases Nat.lt_succ_iff_lt_or_eq.mp ha with hlt | rfl
        · rw [hblur.outside.image (hline n hn').pixels_subset
            ((hline a (by omega)).screen i hi)]
          · exact himage a hlt i hi
          · rintro ⟨j, hj, heq⟩
            have := hapart n hn' a (by omega) j hj i hi heq
            omega
        · -- the line is still as it was at the start
          have hsame : ∀ j < len, m.image t (pix a j) = m.image s (pix a j) := by
            intro j hj
            refine hout.image ?_ ((hline a hn').screen j hj) ?_
            · rintro _ ⟨b, hb, k, hk, rfl⟩
              exact (hline b (by omega)).screen k hk
            · rintro ⟨b, hb, k, hk, heq⟩
              have := hapart b (by omega) a hn' k hk j hj heq
              omega
          rw [hblur.image i hi]
          exact blurLine_congr hsame hi
      · refine (hout.mono ?_).trans (hblur.outside.mono ?_)
        · rintro p ⟨a, ha, i, hi, heq⟩
          exact ⟨a, by omega, i, hi, heq⟩
        · rintro p ⟨i, hi, heq⟩
          exact ⟨n, by omega, i, hi, heq⟩
  exact hrun lines le_rfl

/-- A clipped rectangle of the screen. -/
structure Clip.Within (q : Clip) (scr : Screen) : Prop where
  x : q.x0 < q.x1
  y : q.y0 < q.y1
  width : q.x1 ≤ scr.width
  height : q.y1 ≤ scr.height

theorem clipRect_within {scr : Screen} {x y w h : UInt32} {q : Clip}
    (hq : clipRect scr x y w h = some q) : q.Within scr := by
  unfold clipRect at hq
  dsimp only at hq
  split at hq
  · cases hq
  split at hq
  · cases hq
  split at hq
  · cases hq
  · rename_i hempty
    obtain rfl := Option.some.inj hq
    rw [not_or, not_le, not_le] at hempty
    exact ⟨hempty.1, hempty.2, min_le_right _ _, min_le_right _ _⟩

/-- The lines of a mode are short. -/
theorem VideoMode.shortLine (m : VideoMode) {q : Clip} (hq : q.Within m.screen) {len : ℕ}
    (hlen : len ≤ m.screen.width ∨ len ≤ m.screen.height) : ShortLine len := by
  have hfits := m.fits
  have hx := hq.x
  have hy := hq.y
  have hwidth := hq.width
  have hheight := hq.height
  have hb : 1 ≤ m.bpp / 8 := by
    rcases m.depth with h | h <;> omega
  have hrow : m.screen.width ≤ m.screen.width * (m.bpp / 8) := Nat.le_mul_of_pos_right _ hb
  have hw : m.screen.width ≤ m.screen.width * (m.bpp / 8) * m.screen.height :=
    hrow.trans (Nat.le_mul_of_pos_right _ (by omega))
  have hh : m.screen.height ≤ m.screen.width * (m.bpp / 8) * m.screen.height :=
    Nat.le_mul_of_pos_left _ (by omega)
  unfold ShortLine
  unfold backBufferMax at hfits
  omega

section

variable {m : VideoMode} {q : Clip}

theorem wordBase_eq (hbpp : m.bpp = 32) (row col : ℕ) :
    wordBase m q row col = m.offset (q.x0 + col, q.y0 + row) := by
  have hb : m.bppBytes = 4 := by rw [VideoMode.bppBytes, hbpp]
  have hpitch : m.pitch / 4 = m.screen.width := by
    rw [VideoMode.pitch, hb, Nat.mul_div_cancel _ (by decide)]
  rw [wordBase, VideoMode.offset_eq, hb, hpitch]
  ring

theorem byteBase_eq (row col : ℕ) : byteBase m q row col = m.offset (q.x0 + col, q.y0 + row) := by
  rw [byteBase, VideoMode.offset]
  ring

theorem pixelLine_row (hq : q.Within m.screen) {row : ℕ} (hrow : row < q.y1 - q.y0) :
    PixelLine m (fun i => (q.x0 + i, q.y0 + row)) (q.x1 - q.x0) where
  pos := Nat.sub_pos_of_lt hq.x
  short := m.shortLine hq (Or.inl ((Nat.sub_le _ _).trans hq.width))
  screen i hi := by
    have hwidth := hq.width
    have hheight := hq.height
    exact ⟨by dsimp only; omega, by dsimp only; omega⟩
  distinct i _ j _ heq := by simpa using congrArg Prod.fst heq

theorem pixelLine_col (hq : q.Within m.screen) {col : ℕ} (hcol : col < q.x1 - q.x0) :
    PixelLine m (fun i => (q.x0 + col, q.y0 + i)) (q.y1 - q.y0) where
  pos := Nat.sub_pos_of_lt hq.y
  short := m.shortLine hq (Or.inr ((Nat.sub_le _ _).trans hq.height))
  screen i hi := by
    have hwidth := hq.width
    have hheight := hq.height
    exact ⟨by dsimp only; omega, by dsimp only; omega⟩
  distinct i _ j _ heq := by simpa using congrArg Prod.snd heq

/-- The rows and then the columns, on either path. -/
theorem blurClipBytes_passes (hq : q.Within m.screen) (r : ℕ) (s : BlurState) :
    ∃ rows cols : ℕ → BlurState → Option BlurState,
      (∀ a < q.y1 - q.y0, ∀ s, ∃ s', rows a s = some s' ∧
        PixelLine.Blurred m (fun i => (q.x0 + i, q.y0 + a)) (q.x1 - q.x0) r s s') ∧
      (∀ a < q.x1 - q.x0, ∀ s, ∃ s', cols a s = some s' ∧
        PixelLine.Blurred m (fun i => (q.x0 + a, q.y0 + i)) (q.y1 - q.y0) r s s') ∧
      blurClipBytes m q r s =
        ((List.range (q.y1 - q.y0)).foldlM (fun s a => rows a s) s).bind fun s =>
          (List.range (q.x1 - q.x0)).foldlM (fun s a => cols a s) s := by
  by_cases hbpp : m.bpp = 32
  · refine ⟨fun row => blurLineFast m (wordBase m q row) (q.x1 - q.x0) r,
      fun col => blurLineFast m (wordBase m q · col) (q.y1 - q.y0) r, ?_, ?_, ?_⟩
    · intro row hrow s
      exact (pixelLine_row hq hrow).blurLineFast_eq (fun i _ => wordBase_eq hbpp row i) r s
    · intro col hcol s
      exact (pixelLine_col hq hcol).blurLineFast_eq (fun i _ => wordBase_eq hbpp i col) r s
    · rw [blurClipBytes, if_pos hbpp]
      rfl
  · refine ⟨fun row => blurLineGeneric m (byteBase m q row) (q.x1 - q.x0) r
        (max (q.x1 - q.x0) (q.y1 - q.y0) * 2 / 2),
      fun col => blurLineGeneric m (byteBase m q · col) (q.y1 - q.y0) r
        (max (q.x1 - q.x0) (q.y1 - q.y0) * 2 / 2), ?_, ?_, ?_⟩
    · intro row hrow s
      exact (pixelLine_row hq hrow).blurLineGeneric_eq (fun i _ => byteBase_eq row i)
        (by omega) r s
    · intro col hcol s
      exact (pixelLine_col hq hcol).blurLineGeneric_eq (fun i _ => byteBase_eq i col)
        (by omega) r s
    · rw [blurClipBytes, if_neg hbpp]
      rfl

/-- The bytes of the clipped rectangle become those of the blurred picture. -/
theorem blurClipBytes_eq (hq : q.Within m.screen) (r : ℕ) (s : BlurState) :
    ∃ s', blurClipBytes m q r s = some s' ∧ m.Outside {p | p ∈ q} s s' ∧
      ∀ p ∈ q, m.image s' p = blurClip q r (m.image s) p := by
  obtain ⟨rows, cols, hrows, hcols, hpasses⟩ := blurClipBytes_passes hq r s
  obtain ⟨t, ht, hrow, houtrow⟩ := blurLines (fun a ha => pixelLine_row hq ha)
    (fun a _ b _ i _ j _ heq => by simpa using congrArg Prod.snd heq) hrows s
  obtain ⟨s', hs', hcol, houtcol⟩ := blurLines (fun a ha => pixelLine_col hq ha)
    (fun a _ b _ i _ j _ heq => by simpa using congrArg Prod.fst heq) hcols t
  have hx := hq.x
  have hy := hq.y
  refine ⟨s', ?_, (houtrow.mono ?_).trans (houtcol.mono ?_), ?_⟩
  · rw [hpasses, ht, Option.bind_some, hs']
  · rintro _ ⟨a, ha, i, hi, rfl⟩
    exact Clip.mem_def.mpr ⟨⟨by dsimp only; omega, by dsimp only; omega⟩, by dsimp only; omega,
      by dsimp only; omega⟩
  · rintro _ ⟨a, ha, i, hi, rfl⟩
    exact Clip.mem_def.mpr ⟨⟨by dsimp only; omega, by dsimp only; omega⟩, by dsimp only; omega,
      by dsimp only; omega⟩
  · rintro ⟨px, py⟩ hp
    obtain ⟨⟨hx0, hx1⟩, hy0, hy1⟩ := Clip.mem_def.mp hp
    have hcol' := hcol (px - q.x0) (by omega) (py - q.y0) (by omega)
    rw [Nat.add_sub_cancel' hx0, Nat.add_sub_cancel' hy0] at hcol'
    rw [hcol', blurClip]
    dsimp only
    rw [if_pos hp]
    refine blurLine_congr (fun j hj => ?_) (by omega)
    have hin : (px, q.y0 + j) ∈ q :=
      Clip.mem_def.mpr ⟨⟨hx0, hx1⟩, by dsimp only; omega, by dsimp only; omega⟩
    have hrow' := hrow j hj (px - q.x0) (by omega)
    rw [Nat.add_sub_cancel' hx0] at hrow'
    rw [if_pos hin, hrow']

end

/-- The channels of the blurred picture. -/
theorem channel_blurClip {q : Clip} {p : Pixel} (hp : p ∈ q) (r : ℕ) (b : Image) {c : ℕ}
    (hc : c < 3) :
    channel c (blurClip q r b p) =
      boxMean (fun j => boxMean (fun i => channel c (b (q.x0 + i, q.y0 + j))) (q.x1 - q.x0) r
        (p.1 - q.x0)) (q.y1 - q.y0) r (p.2 - q.y0) := by
  obtain ⟨⟨hx0, hx1⟩, hy0, hy1⟩ := Clip.mem_def.mp hp
  rw [blurClip]
  dsimp only
  rw [if_pos hp, channel_blurLine (by omega) hc]
  refine boxMean_congr (fun j hj => ?_) _ _
  have hin : (p.1, q.y0 + j) ∈ q :=
    Clip.mem_def.mpr ⟨⟨hx0, hx1⟩, by dsimp only; omega, by dsimp only; omega⟩
  rw [if_pos hin]
  exact channel_blurLine (by omega) hc

/-- Nothing but the pixels of the clipped rectangle changes, and each channel there is the mean
over its column of the means over the rows. -/
structure BoxBlurred (m : VideoMode) (q : Clip) (r : ℕ) (s s' : BlurState) : Prop where
  outside : m.Outside {p | p ∈ q} s s'
  inside : ∀ p ∈ q, ∀ c < 3, channel c (m.image s' p) =
    boxMean (fun j => boxMean (fun i => channel c (m.image s (q.x0 + i, q.y0 + j)))
      (q.x1 - q.x0) r (p.1 - q.x0)) (q.y1 - q.y0) r (p.2 - q.y0)

/-- The blur of a rectangle ends without a wrapped sum or a count of zero, and blurs the clipped
rectangle, whichever path the mode takes. -/
theorem blur_rect_box (m : VideoMode) (x y w h radius : UInt32) (s : BlurState)
    (hradius : radius ≠ 0) :
    ∃ s', compositorBlurRect m x y w h radius s = some s' ∧
      match clipRect m.screen x y w h with
      | none => s' = s
      | some q => BoxBlurred m q radius.toNat s s' := by
  unfold compositorBlurRect
  rw [if_neg hradius]
  cases hclip : clipRect m.screen x y w h with
  | none => exact ⟨s, rfl, rfl⟩
  | some q =>
    obtain ⟨s', hs', hout, himage⟩ := blurClipBytes_eq (clipRect_within hclip) radius.toNat s
    refine ⟨s', hs', hout, fun p hp c hc => ?_⟩
    rw [himage p hp]
    exact channel_blurClip hp _ _ hc

/-- A small screen of 24 bits. -/
def smallMode : VideoMode :=
  ⟨⟨4, 2⟩, 24, Or.inl rfl, by decide⟩

/-- A rectangle that begins left of the small screen and ends below it. -/
theorem blur_rect_box_small :
    ∃ s', compositorBlurRect smallMode 0xFFFFFFFE 1 5 9 3 ⟨fun k => UInt8.ofNat k, fun _ => 0⟩ =
        some s' ∧
      BoxBlurred smallMode ⟨0, 1, 3, 2⟩ 3 ⟨fun k => UInt8.ofNat k, fun _ => 0⟩ s' :=
  blur_rect_box smallMode 0xFFFFFFFE 1 5 9 3 _ (by decide)

end VernisOS
