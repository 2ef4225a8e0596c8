import Mathlib.Order.Lattice

/-!
# Line editors

A line editor keeps a text with a cursor in it, and walks through texts that it remembers :
`older k` is the `k`-th text back, for `k` up to `count`. Editors that remember the same texts
answer every sequence of edits alike (`run_congr`), and the `k`-th up in a row shows the `k`-th
text back (`run_ups`).
-/

namespace LineEditor

variable {α : Type*}

/-- What a key does. -/
inductive Edit (α : Type*) where
  | insert (c : α)
  | backspace
  | delete
  | left
  | right
  | home
  | toEnd
  | up
  | down

/-- A text with a cursor, and how far back in the remembered texts the editor is. -/
@[ext] structure Editor (α : Type*) where
  text : List α
  cursor : ℕ
  back : ℕ
  inside : cursor ≤ text.length

namespace Editor

/-- An empty line. -/
def empty : Editor α :=
  ⟨[], 0, 0, le_rfl⟩

/-- Replace the text, with the cursor behind it. -/
def replace (text : List α) (back : ℕ) : Editor α :=
  ⟨text, text.length, back, le_rfl⟩

/-- One edit of a text of at most `cap` characters. -/
def step (cap count : ℕ) (older : ℕ → List α) (e : Editor α) : Edit α → Editor α
  | .insert c =>
    if e.text.length < cap then
      ⟨e.text.take e.cursor ++ c :: e.text.drop e.cursor, e.cursor + 1, e.back, by
        have hin := e.inside
        rw [List.length_append, List.length_cons, List.length_take_of_le hin]
        omega⟩
    else e
  | .backspace =>
    if h : 0 < e.cursor then
      ⟨e.text.eraseIdx (e.cursor - 1), e.cursor - 1, e.back, by
        have hin := e.inside
        rw [List.length_eraseIdx_of_lt (by omega)]
        omega⟩
    else e
  | .delete =>
    if h : e.cursor < e.text.length then
      ⟨e.text.eraseIdx e.cursor, e.cursor, e.back, by
        rw [List.length_eraseIdx_of_lt h]
        omega⟩
    else e
  | .left => ⟨e.text, e.cursor - 1, e.back, (Nat.sub_le _ _).trans e.inside⟩
  | .right => ⟨e.text, min (e.cursor + 1) e.text.length, e.back, min_le_right _ _⟩
  | .home => ⟨e.text, 0, e.back, Nat.zero_le _⟩
  | .toEnd => ⟨e.text, e.text.length, e.back, le_rfl⟩
  | .up => if e.back < count then replace (older (e.back + 1)) (e.back + 1) else e
  | .down =>
    if 1 < e.back then replace (older (e.back - 1)) (e.back - 1)
    else if e.back = 1 then empty
    else e

/-- A sequence of edits. -/
def run (cap count : ℕ) (older : ℕ → List α) (e : Editor α) (edits : List (Edit α)) : Editor α :=
  edits.foldl (step cap count older) e

variable {cap count : ℕ} {older older' : ℕ → List α} {e : Editor α}

theorem step_back_le (h : e.back ≤ count) (edit : Edit α) :
    (e.step cap count older edit).back ≤ count := by
  cases edit with
  | left | right | home | toEnd => exact h
  | insert c =>
    simp only [step]
    split_ifs <;> exact h
  | backspace =>
    simp only [step]
    split_ifs <;> exact h
  | delete =>
    simp only [step]
    split_ifs <;> exact h
  | up =>
    simp only [step]
    split_ifs with hlt
    · exact hlt
    · exact h
  | down =>
    simp only [step]
    split_ifs with hlt
    · exact (Nat.sub_le _ _).trans h
    · exact Nat.zero_le _
    · exact h

/-- Editors that remember the same texts step alike. -/
theorem step_congr (holder : ∀ k, 1 ≤ k → k ≤ count → older k = older' k)
    (h : e.back ≤ count) (edit : Edit α) :
    e.step cap count older edit = e.step cap count older' edit := by
  cases edit with
  | up =>
    simp only [step]
    split_ifs with hlt
    · rw [holder _ (by omega) hlt]
    · rfl
  | down =>
    simp only [step]
    split_ifs with hlt
    · rw [holder _ (by omega) (by omega)]
    · rfl
    · rfl
  | _ => rfl

theorem run_congr (holder : ∀ k, 1 ≤ k → k ≤ count → older k = older' k)
    (edits : List (Edit α)) : ∀ {e : Editor α}, e.back ≤ count →
    e.run cap count older edits = e.run cap count older' edits := by
  induction edits with
  | nil => exact fun _ => rfl
  | cons edit edits ih =>
    intro e h
    have hstep : e.step cap count older edit = e.step cap count older' edit :=
      step_congr holder h edit
    change (e.step cap count older edit).run cap count older edits =
      (e.step cap count older' edit).run cap count older' edits
    rw [← hstep]
    exact ih (step_back_le h edit)

/-- The `k`-th up in a row shows the `k`-th text back. -/
theorem run_ups (cap : ℕ) (older : ℕ → List α) {k : ℕ} (hk : k + 1 ≤ count) :
    (empty : Editor α).run cap count older (List.replicate (k + 1) .up) =
      replace (older (k + 1)) (k + 1) := by
  induction k with
  | zero => exact if_pos hk
  | succ k ih =>
    rw [List.replicate_succ', run, List.foldl_append]
    change step cap count older (run cap count older empty (List.replicate (k + 1) .up)) .up = _
    rw [ih (by omega)]
    exact if_pos hk

/-- Characters are typed at the end of the text. -/
theorem run_inserts (count : ℕ) (older : ℕ → List α) (back : ℕ) (typed : List α) :
    ∀ {text : List α}, text.length + typed.length ≤ cap →
      (replace text back).run cap count older (typed.map .insert) =
        replace (text ++ typed) back := by
  induction typed with
  | nil =>
    intro text _
    rw [List.append_nil]
    rfl
  | cons c typed ih =>
    intro text hfit
    rw [List.length_cons] at hfit
    have hstep : (replace text back).step cap count older (.insert c) =
        replace (text ++ [c]) back := by
      refine (if_pos (by change text.length < cap; omega)).trans ?_
      ext1 <;> simp [replace]
    have hfit' : (text ++ [c]).length + typed.length ≤ cap := by
      rw [List.length_append, List.length_singleton]
      omega
    have hrest := ih hfit'
    rw [List.append_assoc, List.singleton_append] at hrest
    rw [← hrest, ← hstep]
    rfl

end Editor

end LineEditor
