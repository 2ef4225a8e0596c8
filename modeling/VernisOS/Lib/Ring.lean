import Mathlib.Data.List.Basic
import Mathlib.Data.Nat.ModEq

/-!
# Ring buffers

A buffer of `n` cells indexed modulo `n`. `Holds buf s l` says that the list `l` stands in
it from position `s` on. Writing behind what a buffer holds appends to it, as long as both
fit (`Holds.put_append`), and dropping from the front moves the start (`Holds.drop`).
-/

namespace Ring

variable {α : Type*} {n : ℕ} [NeZero n]

/-- Position `k` as an index. -/
def pos (n : ℕ) [NeZero n] (k : ℕ) : Fin n :=
  ⟨k % n, Nat.mod_lt k (Nat.pos_of_ne_zero (NeZero.ne n))⟩

/-- Write `l` from position `s` on, one cell at a time. -/
def put (buf : Fin n → α) : ℕ → List α → Fin n → α
  | _, [] => buf
  | s, a :: l => put (Function.update buf (pos n s) a) (s + 1) l

/-- The `k` cells from position `s` on. -/
def get (buf : Fin n → α) (s k : ℕ) : List α :=
  (List.range k).map fun i => buf (pos n (s + i))

/-- The buffer holds `l` from position `s` on. -/
def Holds (buf : Fin n → α) (s : ℕ) (l : List α) : Prop :=
  ∀ i (h : i < l.length), buf (pos n (s + i)) = l[i]

theorem pos_inj {a b : ℕ} (h : pos n a = pos n b) (hab : a ≤ b) (hlt : b < a + n) : a = b := by
  have hmod : a % n = b % n := congrArg Fin.val h
  have hdvd : n ∣ b - a := (Nat.modEq_iff_dvd' hab).mp hmod
  obtain ⟨k, hk⟩ := hdvd
  cases k with
  | zero => omega
  | succ k =>
    have : n ≤ n * (k + 1) := Nat.le_mul_of_pos_right n (Nat.succ_pos k)
    omega

theorem pos_mod (a : ℕ) : pos n (a % n) = pos n a := by
  simp [pos]

theorem put_congr (buf : Fin n → α) {s s' : ℕ} (h : pos n s = pos n s') (l : List α) :
    put buf s l = put buf s' l := by
  induction l generalizing buf s s' with
  | nil => rfl
  | cons a l ih =>
    rw [put, put, h]
    refine ih _ (Fin.ext ?_)
    have hmod : s % n = s' % n := congrArg Fin.val h
    exact Nat.ModEq.add_right 1 hmod

theorem put_of_ne (buf : Fin n → α) (s : ℕ) (l : List α) (j : Fin n)
    (hj : ∀ i < l.length, j ≠ pos n (s + i)) : put buf s l j = buf j := by
  induction l generalizing buf s with
  | nil => rfl
  | cons a l ih =>
    rw [put, ih]
    · exact Function.update_of_ne (hj 0 (by simp)) _ _
    · intro i hi
      have := hj (i + 1) (by simpa using hi)
      rwa [Nat.add_comm i, ← Nat.add_assoc] at this

/-- What was written can be read back, if it did not run over itself. -/
theorem holds_put (buf : Fin n → α) (s : ℕ) (l : List α) (hl : l.length ≤ n) :
    Holds (put buf s l) s l := by
  induction l generalizing buf s with
  | nil => exact fun i h => absurd h (by simp)
  | cons a l ih =>
    intro i hi
    simp only [List.length_cons] at hl hi
    cases i with
    | zero =>
      rw [put, put_of_ne, Nat.add_zero, Function.update_self]
      · rfl
      · intro j hj he
        have := pos_inj he (by omega) (by omega)
        omega
    | succ i =>
      have h := ih (Function.update buf (pos n s) a) (s + 1) (by omega) i (by omega)
      rw [put, ← Nat.add_assoc, Nat.add_right_comm]
      exact h

/-- Writing behind what the buffer holds appends to it. -/
theorem Holds.put_append {buf : Fin n → α} {s : ℕ} {l l' : List α} (h : Holds buf s l)
    (hl : l.length + l'.length ≤ n) : Holds (put buf (s + l.length) l') s (l ++ l') := by
  intro i hi
  rw [List.length_append] at hi
  by_cases hlt : i < l.length
  · rw [List.getElem_append_left hlt, put_of_ne]
    · exact h i hlt
    · intro j hj he
      have := pos_inj he (by omega) (by omega)
      omega
  · rw [List.getElem_append_right (not_lt.mp hlt)]
    have hput := holds_put buf (s + l.length) l' (by omega) (i - l.length) (by omega)
    rw [Nat.add_assoc, Nat.add_sub_cancel' (not_lt.mp hlt)] at hput
    exact hput

theorem Holds.drop {buf : Fin n → α} {s : ℕ} {l : List α} (h : Holds buf s l) (k : ℕ) :
    Holds buf (s + k) (l.drop k) := by
  intro i hi
  rw [List.length_drop] at hi
  rw [List.getElem_drop, Nat.add_assoc]
  exact h (k + i) (by omega)

theorem holds_mod {buf : Fin n → α} {s : ℕ} {l : List α} :
    Holds buf (s % n) l ↔ Holds buf s l := by
  have hpos : ∀ i, pos n (s % n + i) = pos n (s + i) := by
    intro i
    simp [pos]
  simp only [Holds, hpos]

theorem Holds.get {buf : Fin n → α} {s : ℕ} {l : List α} (h : Holds buf s l) {k : ℕ}
    (hk : k ≤ l.length) : get buf s k = l.take k := by
  refine List.ext_getElem (by simp [Ring.get, hk]) fun i hi _ => ?_
  have hik : i < k := by simpa [Ring.get] using hi
  rw [List.getElem_take]
  simp only [Ring.get, List.getElem_map, List.getElem_range]
  exact h i (by omega)

theorem holds_nil (buf : Fin n → α) (s : ℕ) : Holds buf s [] :=
  fun i h => absurd h (by simp)

/-! ## Queues -/

/-- The ring is a queue with `count` elements, the oldest at `head` : the list `l`. -/
structure Fifo (buf : Fin n → α) (head count : ℕ) (l : List α) : Prop where
  length : l.length = count
  fits : count ≤ n
  holds : Holds buf head l

theorem fifo_empty (buf : Fin n → α) (head : ℕ) : Fifo buf head 0 [] :=
  ⟨rfl, Nat.zero_le n, holds_nil buf head⟩

/-- A queue holds what is read from it. -/
theorem Fifo.get {buf : Fin n → α} {head count : ℕ} {l : List α} (h : Fifo buf head count l) :
    get buf head count = l := by
  rw [h.holds.get h.length.ge, List.take_of_length_le h.length.le]

/-- An element stored behind the last one. -/
theorem Fifo.push {buf : Fin n → α} {head count : ℕ} {l : List α} (h : Fifo buf head count l)
    (hroom : count < n) (a : α) :
    Fifo (Function.update buf (pos n (head + count)) a) head (count + 1) (l ++ [a]) := by
  refine ⟨by rw [List.length_append, h.length]; rfl, hroom, ?_⟩
  have hfits : l.length + [a].length ≤ n := by
    rw [h.length]
    exact hroom
  have hput := h.holds.put_append hfits
  rw [h.length] at hput
  exact hput

/-- The oldest element taken off. -/
theorem Fifo.pop {buf : Fin n → α} {head count : ℕ} {l : List α}
    (h : Fifo buf head (count + 1) l) :
    ∃ rest, l = buf (pos n head) :: rest ∧ Fifo buf ((head + 1) % n) count rest := by
  cases l with
  | nil => exact absurd h.length (by simp)
  | cons a rest =>
    have hhead : buf (pos n head) = a := h.holds 0 (by simp)
    refine ⟨rest, by rw [hhead], by simpa using h.length, ?_, ?_⟩
    · exact (Nat.le_succ count).trans h.fits
    · rw [holds_mod]
      exact h.holds.drop 1

/-! ## Logs -/

/-- The ring remembers the last elements of `past`, the last one before `head`. While it is not
full, it is filled from cell 0. -/
structure Recent (buf : Fin n → α) (head count : ℕ) (past : List α) : Prop where
  head_lt : head < n
  count_eq : count = min past.length n
  head_eq : count < n → head = count
  back : ∀ i < past.length, i < n →
    past.reverse[i]? = some (buf (pos n (head + n - 1 - i)))

theorem recent_nil (buf : Fin n → α) : Recent buf 0 0 [] :=
  ⟨Nat.pos_of_ne_zero (NeZero.ne n), by simp, fun _ => rfl,
    fun _ h => absurd h (Nat.not_lt_zero _)⟩

/-- An element stored at the head, over the oldest one once the ring is full. -/
theorem Recent.record {buf : Fin n → α} {head count : ℕ} {past : List α}
    (h : Recent buf head count past) (a : α) :
    Recent (Function.update buf (pos n head) a) ((head + 1) % n)
      (if count < n then count + 1 else count) (past ++ [a]) := by
  have hn : 0 < n := Nat.pos_of_ne_zero (NeZero.ne n)
  have hlt := h.head_lt
  have hcount := h.count_eq
  -- one cell further back from the new head
  have hstep : ∀ i < n, pos n ((head + 1) % n + n - 1 - i) = pos n (head + n - i) := by
    intro i hi
    have hcase : (head + 1) % n = head + 1 ∨ head + 1 = n := by
      rcases Nat.lt_or_ge (head + 1) n with hlt' | hge
      · exact Or.inl (Nat.mod_eq_of_lt hlt')
      · exact Or.inr (by omega)
    rcases hcase with heq | heq
    · rw [heq]
      congr 1
      omega
    · refine Fin.ext ?_
      have hback : head + n - i = ((head + 1) % n + n - 1 - i) + n := by
        rw [heq, Nat.mod_self]
        omega
      change _ % n = _ % n
      rw [hback, Nat.add_mod_right]
  refine ⟨Nat.mod_lt _ hn, ?_, ?_, ?_⟩
  · rw [List.length_append, List.length_singleton]
    split <;> omega
  · intro hfull
    split at hfull
    · rename_i hroom
      rw [if_pos hroom, h.head_eq hroom, Nat.mod_eq_of_lt hfull]
    · omega
  · intro i hi hin
    have hrev : (past ++ [a]).reverse = a :: past.reverse := by simp
    simp only [hrev, hstep i hin]
    cases i with
    | zero =>
      have hhead : pos n (head + n - 0) = pos n head := Fin.ext (Nat.add_mod_right head n)
      rw [hhead, Function.update_self, List.getElem?_cons_zero]
    | succ i =>
      have hi' : i < past.length := by simpa using hi
      have hne : pos n (head + n - (i + 1)) ≠ pos n head := by
        intro heq
        have hwrap : pos n (head + n) = pos n head := Fin.ext (Nat.add_mod_right head n)
        have := pos_inj (heq.trans hwrap.symm) (by omega) (by omega)
        omega
      rw [Function.update_of_ne hne, List.getElem?_cons_succ, h.back i hi' (by omega)]
      congr 3
      omega

/-- The last `k` elements, the newest first. -/
theorem Recent.walk {buf : Fin n → α} {head count : ℕ} {past : List α}
    (h : Recent buf head count past) {k : ℕ} (hk : k ≤ count) :
    ((List.range k).map fun i => buf (pos n (head + n - 1 - i))) = past.reverse.take k := by
  have hcount := h.count_eq
  refine List.ext_getElem (by simp; omega) fun i hi _ => ?_
  have hik : i < k := by simpa using hi
  obtain ⟨_, hback⟩ := List.getElem?_eq_some_iff.mp (h.back i (by omega) (by omega))
  rw [List.getElem_map, List.getElem_range, List.getElem_take, hback]

/-- The elements that are left, the oldest first. -/
theorem Recent.forward {buf : Fin n → α} {head count : ℕ} {past : List α}
    (h : Recent buf head count past) :
    ((List.range count).map fun i => buf (pos n ((if count < n then 0 else head) + i))) =
      past.drop (past.length - n) := by
  have hcount := h.count_eq
  have hlt := h.head_lt
  refine List.ext_getElem (by simp; omega) fun i hi _ => ?_
  have hic : i < count := by simpa using hi
  have hcell : pos n ((if count < n then 0 else head) + i) =
      pos n (head + n - 1 - (count - 1 - i)) := by
    split
    · rename_i hroom
      have hpos : head + n - 1 - (count - 1 - i) = 0 + i + n := by
        rw [h.head_eq hroom]
        omega
      rw [hpos]
      exact Fin.ext (Nat.add_mod_right _ n).symm
    · congr 1
      omega
  obtain ⟨_, hback⟩ :=
    List.getElem?_eq_some_iff.mp (h.back (count - 1 - i) (by omega) (by omega))
  rw [List.getElem_map, List.getElem_range, hcell, ← hback, List.getElem_reverse,
    List.getElem_drop]
  congr 1
  omega

/-! ## Rings with their counters -/

/-- A ring with the position of its first element, the position behind its last one, and
their number. -/
structure Cyclic (α : Type*) (n : ℕ) where
  buf : Fin n → α
  head : ℕ
  tail : ℕ
  count : ℕ

namespace Cyclic

/-- Store an element behind the last one. -/
def push (r : Cyclic α n) (a : α) : Cyclic α n :=
  { r with
    buf := Function.update r.buf (pos n r.tail) a
    tail := (r.tail + 1) % n
    count := r.count + 1 }

/-- The first element. -/
def front (r : Cyclic α n) : α :=
  r.buf (pos n r.head)

/-- Drop the first element. -/
def pop (r : Cyclic α n) : Cyclic α n :=
  { r with head := (r.head + 1) % n, count := r.count - 1 }

/-- Store elements until the list ends or the ring is full : how many, and the ring. -/
def fill : List α → Cyclic α n → ℕ × Cyclic α n
  | [], r => (0, r)
  | a :: l, r =>
    if n ≤ r.count then (0, r)
    else ((fill l (r.push a)).1 + 1, (fill l (r.push a)).2)

/-- Take up to `k` elements. -/
def drain : ℕ → Cyclic α n → List α × Cyclic α n
  | 0, r => ([], r)
  | k + 1, r =>
    if r.count = 0 then ([], r)
    else (r.front :: (drain k r.pop).1, (drain k r.pop).2)

/-- The elements, the first one first. -/
def content (r : Cyclic α n) : List α :=
  get r.buf r.head r.count

/-- The counters agree. -/
structure Wf (r : Cyclic α n) : Prop where
  count_le : r.count ≤ n
  tail_eq : pos n r.tail = pos n (r.head + r.count)

@[simp] theorem length_content (r : Cyclic α n) : r.content.length = r.count := by
  simp [content, get]

theorem Wf.fifo {r : Cyclic α n} (h : r.Wf) : Fifo r.buf r.head r.count r.content := by
  refine ⟨r.length_content, h.count_le, fun i hi => ?_⟩
  simp [content, get]

theorem wf_empty (buf : Fin n → α) (k : ℕ) : Wf ⟨buf, k, k, 0⟩ :=
  ⟨Nat.zero_le n, rfl⟩

theorem Wf.push {r : Cyclic α n} (h : r.Wf) (hroom : r.count < n) (a : α) :
    (r.push a).Wf ∧ (r.push a).content = r.content ++ [a] := by
  have hpush := h.fifo.push hroom a
  rw [← h.tail_eq] at hpush
  refine ⟨⟨hroom, ?_⟩, hpush.get⟩
  have hnext : (r.tail + 1) % n = (r.head + r.count + 1) % n :=
    Nat.ModEq.add_right 1 (congrArg Fin.val h.tail_eq)
  change pos n ((r.tail + 1) % n) = pos n (r.head + (r.count + 1))
  rw [hnext, pos_mod, Nat.add_assoc]

theorem Wf.pop {r : Cyclic α n} (h : r.Wf) (hne : r.count ≠ 0) :
    r.pop.Wf ∧ r.content = r.front :: r.pop.content := by
  obtain ⟨k, hk⟩ := Nat.exists_eq_succ_of_ne_zero hne
  have hfifo := h.fifo
  rw [hk] at hfifo
  obtain ⟨rest, hcons, hpop⟩ := hfifo.pop
  have hcount : r.pop.count = k := by
    change r.count - 1 = k
    omega
  have hle := h.count_le
  refine ⟨⟨by omega, ?_⟩, ?_⟩
  · change pos n r.tail = pos n ((r.head + 1) % n + r.pop.count)
    have hshift : ((r.head + 1) % n + k) % n = (r.head + 1 + k) % n := by simp
    rw [h.tail_eq, hk, hcount]
    refine Fin.ext ?_
    change (r.head + (k + 1)) % n = ((r.head + 1) % n + k) % n
    rw [hshift]
    congr 1
    omega
  · have hrest : r.pop.content = rest := by
      unfold content
      rw [hcount]
      exact hpop.get
    rw [hrest]
    exact hcons

/-- `fill` stores what fits, behind what the ring holds. -/
theorem Wf.fill {r : Cyclic α n} (h : r.Wf) (l : List α) :
    (fill l r).2.Wf ∧ (fill l r).1 = min l.length (n - r.count) ∧
      (fill l r).2.content = r.content ++ l.take (fill l r).1 := by
  induction l generalizing r with
  | nil => exact ⟨h, by simp [Cyclic.fill], by simp [Cyclic.fill]⟩
  | cons a l ih =>
    unfold Cyclic.fill
    by_cases hfull : n ≤ r.count
    · rw [if_pos hfull]
      refine ⟨h, ?_, by simp⟩
      dsimp only
      omega
    · rw [if_neg hfull]
      obtain ⟨hpush, hcontent⟩ := h.push (not_le.mp hfull) a
      obtain ⟨hwf, hcount, hall⟩ := ih hpush
      refine ⟨hwf, ?_, ?_⟩
      · have hnext : (r.push a).count = r.count + 1 := rfl
        dsimp only
        rw [hcount, hnext, List.length_cons]
        omega
      · dsimp only
        rw [hall, hcontent, List.take_succ_cons, List.append_assoc]
        rfl

/-- `drain` takes what is there, up to the number asked for. -/
theorem Wf.drain {r : Cyclic α n} (h : r.Wf) (k : ℕ) :
    (drain k r).2.Wf ∧ (drain k r).1 = r.content.take k ∧
      (drain k r).2.content = r.content.drop k := by
  induction k generalizing r with
  | zero => exact ⟨h, by simp [Cyclic.drain], by simp [Cyclic.drain]⟩
  | succ k ih =>
    unfold Cyclic.drain
    by_cases hempty : r.count = 0
    · have hnil : r.content = [] := List.length_eq_zero_iff.mp (by rw [length_content, hempty])
      rw [if_pos hempty, hnil]
      exact ⟨h, rfl, by simp⟩
    · rw [if_neg hempty]
      obtain ⟨hpop, hcons⟩ := h.pop hempty
      obtain ⟨hwf, htake, hdrop⟩ := ih hpop
      refine ⟨hwf, ?_, ?_⟩
      · dsimp only
        rw [hcons, List.take_succ_cons, htake]
      · dsimp only
        rw [hcons, List.drop_succ_cons, hdrop]

end Cyclic

end Ring
