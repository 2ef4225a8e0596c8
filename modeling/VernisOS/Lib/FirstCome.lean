import Mathlib.Data.List.Basic
import Mathlib.Data.List.Induction
import Mathlib.Data.List.Nodup
import Mathlib.Data.Nat.Notation

/-!
# Tables that never evict

A table with room for `cap` keys takes a new value for a key that it has and, while there is
room, a new key; a key that comes too late is dropped. The keys of a table are the first `cap`
that came (`keys_table`), and those have their last value (`find_table`). Along a history a key
is right at every moment exactly if it is not one of the late ones (`always_iff`).
-/

namespace FirstCome

variable {κ α : Type*} [DecidableEq κ]

/-- Store a value for a key. -/
def put (cap : ℕ) (t : List (κ × α)) (b : κ × α) : List (κ × α) :=
  if b.1 ∈ t.map Prod.fst then t.map fun e => if e.1 = b.1 then b else e
  else if t.length < cap then t ++ [b]
  else t

/-- The table after a history. -/
def table (cap : ℕ) (bs : List (κ × α)) : List (κ × α) :=
  bs.foldl (put cap) []

/-- The value of a key. -/
def find (t : List (κ × α)) (k : κ) : Option α :=
  (t.find? fun e => e.1 = k).map Prod.snd

/-- The last value a history has for a key. -/
def last (bs : List (κ × α)) (k : κ) : Option α :=
  find bs.reverse k

/-- The keys of a history, in the order in which they came first. -/
def distinct (bs : List (κ × α)) : List κ :=
  bs.foldl (fun ks b => if b.1 ∈ ks then ks else ks ++ [b.1]) []

/-! ## One more entry -/

theorem find_cons (e : κ × α) (t : List (κ × α)) (k : κ) :
    find (e :: t) k = if e.1 = k then some e.2 else find t k := by
  unfold find
  rw [List.find?_cons]
  by_cases h : e.1 = k <;> simp [h]

theorem find_isSome_iff (t : List (κ × α)) (k : κ) :
    (find t k).isSome ↔ k ∈ t.map Prod.fst := by
  induction t with
  | nil => simp [find]
  | cons e t ih =>
    rw [find_cons, List.map_cons, List.mem_cons]
    by_cases h : e.1 = k
    · simp [h]
    · rw [if_neg h, ih]
      exact ⟨Or.inr, fun hk => hk.resolve_left (Ne.symm h)⟩

theorem find_append (t t' : List (κ × α)) (k : κ) : find (t ++ t') k = (find t k).or (find t' k) := by
  induction t with
  | nil => rfl
  | cons e t ih =>
    rw [List.cons_append, find_cons, find_cons, ih]
    split <;> rfl

theorem find_replace (t : List (κ × α)) (b : κ × α) (k : κ) :
    find (t.map fun e => if e.1 = b.1 then b else e) k =
      if k = b.1 then (find t k).map fun _ => b.2 else find t k := by
  induction t with
  | nil => simp [find]
  | cons e t ih =>
    rw [List.map_cons, find_cons, find_cons, ih]
    by_cases hk : k = b.1 <;> by_cases he : e.1 = b.1
    · simp [hk, he]
    · simp [he, hk]
    · have hne : ¬ b.1 = k := Ne.symm hk
      simp [he, hk, hne]
    · simp [he, hk]

theorem last_concat (bs : List (κ × α)) (b : κ × α) (k : κ) :
    last (bs ++ [b]) k = if b.1 = k then some b.2 else last bs k := by
  rw [last, List.reverse_append, List.reverse_singleton, List.singleton_append, find_cons]
  rfl

theorem distinct_concat (bs : List (κ × α)) (b : κ × α) :
    distinct (bs ++ [b]) = if b.1 ∈ distinct bs then distinct bs else distinct bs ++ [b.1] := by
  unfold distinct
  rw [List.foldl_concat]

theorem mem_distinct (bs : List (κ × α)) (k : κ) : k ∈ distinct bs ↔ (last bs k).isSome := by
  induction bs using List.reverseRecOn with
  | nil => simp [distinct, last, find]
  | append_singleton bs b ih =>
    rw [distinct_concat, last_concat]
    by_cases hb : b.1 = k
    · subst hb
      by_cases hmem : b.1 ∈ distinct bs <;> simp [hmem]
    · have hne : k ≠ b.1 := Ne.symm hb
      rw [if_neg hb, ← ih]
      split
      · exact Iff.rfl
      · simp [hne]

theorem nodup_distinct (bs : List (κ × α)) : (distinct bs).Nodup := by
  induction bs using List.reverseRecOn with
  | nil => exact List.nodup_nil
  | append_singleton bs b ih =>
    rw [distinct_concat]
    split
    · exact ih
    · rename_i hnew
      rw [List.nodup_append]
      refine ⟨ih, List.nodup_singleton _, fun a ha c hc heq => hnew ?_⟩
      rw [← List.mem_singleton.mp hc, ← heq]
      exact ha

theorem distinct_prefix {bs cs : List (κ × α)} (h : bs <+: cs) : distinct bs <+: distinct cs := by
  obtain ⟨ds, rfl⟩ := h
  induction ds using List.reverseRecOn with
  | nil => simp
  | append_singleton ds b ih =>
    rw [← List.append_assoc, distinct_concat]
    split
    · exact ih
    · exact ih.trans (List.prefix_append _ _)

/-! ## Histories -/

/-- The keys of the table and their values. -/
theorem table_spec (cap : ℕ) (bs : List (κ × α)) :
    (table cap bs).map Prod.fst = (distinct bs).take cap ∧
      ∀ k ∈ (distinct bs).take cap, find (table cap bs) k = last bs k := by
  induction bs using List.reverseRecOn with
  | nil => exact ⟨by simp [table, distinct], fun k hk => absurd hk (by simp [distinct])⟩
  | append_singleton bs b ih =>
    obtain ⟨hkeys, hfind⟩ := ih
    have htable : table cap (bs ++ [b]) = put cap (table cap bs) b := by
      unfold table
      rw [List.foldl_concat]
    have hlen : (table cap bs).length = min cap (distinct bs).length := by
      rw [← List.length_map (f := Prod.fst), hkeys, List.length_take]
    rw [htable, distinct_concat]
    by_cases hold : b.1 ∈ (table cap bs).map Prod.fst
    · -- a key of the table gets its new value
      have hmem : b.1 ∈ distinct bs := List.mem_of_mem_take (hkeys ▸ hold)
      rw [put, if_pos hold, if_pos hmem]
      refine ⟨?_, fun k hk => ?_⟩
      · rw [← hkeys, List.map_map]
        refine List.map_congr_left fun e _ => ?_
        by_cases he : e.1 = b.1 <;> simp [he]
      · rw [find_replace, last_concat, hfind k hk]
        by_cases hkb : k = b.1
        · have hsome := (mem_distinct bs k).mp (List.mem_of_mem_take hk)
          obtain ⟨v, hv⟩ := Option.isSome_iff_exists.mp hsome
          rw [if_pos hkb, if_pos hkb.symm, hv]
          rfl
        · rw [if_neg hkb, if_neg (Ne.symm hkb)]
    · rw [put, if_neg hold]
      rw [hkeys] at hold
      split
      · -- a new key, and room for it
        rename_i hroom
        have hall : (distinct bs).take cap = distinct bs :=
          List.take_of_length_le (by omega)
        have hnew : b.1 ∉ distinct bs := by rwa [hall] at hold
        have htake : (distinct bs ++ [b.1]).take cap = distinct bs ++ [b.1] :=
          List.take_of_length_le (by rw [List.length_append, List.length_singleton]; omega)
        rw [if_neg hnew, htake]
        refine ⟨by rw [List.map_append, hkeys, hall]; rfl, fun k hk => ?_⟩
        rw [find_append, last_concat]
        rcases List.mem_append.mp hk with hk | hk
        · have hne : b.1 ≠ k := fun h => hnew (h ▸ hk)
          have hsome := (mem_distinct bs k).mp hk
          obtain ⟨v, hv⟩ := Option.isSome_iff_exists.mp hsome
          rw [if_neg hne, hfind k (by rwa [hall]), hv]
          rfl
        · have heq : k = b.1 := List.mem_singleton.mp hk
          have hnone : find (table cap bs) k = none := by
            rw [← Option.not_isSome_iff_eq_none, find_isSome_iff, hkeys, hall, heq]
            exact hnew
          rw [hnone, if_pos heq.symm, find_cons, if_pos heq.symm]
          rfl
      · -- a key that comes too late
        rename_i hroom
        have htake : (if b.1 ∈ distinct bs then distinct bs else distinct bs ++ [b.1]).take cap =
            (distinct bs).take cap := by
          split
          · rfl
          · exact List.take_append_of_le_length (by omega)
        rw [htake]
        refine ⟨hkeys, fun k hk => ?_⟩
        have hne : b.1 ≠ k := fun h => hold (h ▸ hk)
        rw [last_concat, if_neg hne, hfind k hk]

theorem keys_table (cap : ℕ) (bs : List (κ × α)) :
    (table cap bs).map Prod.fst = (distinct bs).take cap :=
  (table_spec cap bs).1

theorem nodup_keys_table (cap : ℕ) (bs : List (κ × α)) :
    ((table cap bs).map Prod.fst).Nodup := by
  rw [keys_table]
  exact (nodup_distinct bs).sublist (List.take_sublist _ _)

theorem find_table {cap : ℕ} {bs : List (κ × α)} {k : κ} (h : k ∈ (distinct bs).take cap) :
    find (table cap bs) k = last bs k :=
  (table_spec cap bs).2 k h

theorem find_table_late {cap : ℕ} {bs : List (κ × α)} {k : κ} (h : k ∉ (distinct bs).take cap) :
    find (table cap bs) k = none := by
  rw [← Option.not_isSome_iff_eq_none, find_isSome_iff, keys_table]
  exact h

/-- At every moment of a history the table has the last value of a key, exactly if the key is
not behind the first `cap`. -/
theorem always_iff (cap : ℕ) (bs : List (κ × α)) (k : κ) :
    (∀ pre, pre <+: bs → ∀ v, last pre k = some v → find (table cap pre) k = some v) ↔
      k ∉ (distinct bs).drop cap := by
  constructor
  · intro h hlate
    have hmem : k ∈ distinct bs := List.mem_of_mem_drop hlate
    obtain ⟨v, hv⟩ := Option.isSome_iff_exists.mp ((mem_distinct bs k).mp hmem)
    have hfind := h bs (List.prefix_refl bs) v hv
    have hearly : k ∉ (distinct bs).take cap := by
      have hnodup := nodup_distinct bs
      rw [← List.take_append_drop cap (distinct bs), List.nodup_append] at hnodup
      exact fun htake => hnodup.2.2 k htake k hlate rfl
    rw [find_table_late hearly] at hfind
    exact absurd hfind (by simp)
  · intro h pre hpre v hv
    have hmem : k ∈ distinct pre := (mem_distinct pre k).mpr (by rw [hv]; rfl)
    have htake : k ∈ (distinct pre).take cap := by
      rw [← List.take_append_drop cap (distinct pre), List.mem_append] at hmem
      refine hmem.resolve_right fun hdrop => h ?_
      obtain ⟨more, hmore⟩ := distinct_prefix hpre
      rw [← hmore, List.drop_append]
      exact List.mem_append_left _ hdrop
    rw [find_table htake, hv]

end FirstCome
