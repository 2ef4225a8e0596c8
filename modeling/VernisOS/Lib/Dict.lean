import Mathlib.Data.Nat.Notation
import Mathlib.Logic.Function.Basic

/-!
# A dictionary with its keys in order

A dictionary with numbers as keys that remembers the order in which they were inserted.
-/

/-- A dictionary : its keys in the order of their insertion, and their values. -/
structure Dict (α : Type*) where
  keys : List ℕ
  get : ℕ → Option α
  mem_keys : ∀ k, k ∈ keys ↔ (get k).isSome = true
  nodup_keys : keys.Nodup

namespace Dict

variable {α : Type*}

theorem mem_keys_empty (k : ℕ) : k ∈ ([] : List ℕ) ↔ (none : Option α).isSome = true := by
  simp

/-- No keys. -/
def empty : Dict α :=
  ⟨[], fun _ => none, mem_keys_empty, List.nodup_nil⟩

theorem mem_keys_insert (d : Dict α) (k : ℕ) (v : α) (j : ℕ) :
    j ∈ (if (d.get k).isSome then d.keys else d.keys ++ [k]) ↔
      (Function.update d.get k (some v) j).isSome = true := by
  by_cases hj : j = k
  · subst hj
    rw [Function.update_self]
    split
    · next h => simpa using (d.mem_keys j).mpr h
    · simp
  · rw [Function.update_of_ne hj]
    split
    · exact d.mem_keys j
    · rw [← d.mem_keys j]
      simp [hj]

theorem nodup_keys_insert (d : Dict α) (k : ℕ) :
    (if (d.get k).isSome then d.keys else d.keys ++ [k]).Nodup := by
  split
  · exact d.nodup_keys
  · next h =>
    refine List.nodup_append.mpr ⟨d.nodup_keys, by simp, ?_⟩
    rintro x hx y hy rfl
    rw [List.mem_singleton] at hy
    subst hy
    exact h ((d.mem_keys x).mp hx)

/-- Set the value of a key; a new key comes last. -/
def insert (d : Dict α) (k : ℕ) (v : α) : Dict α where
  keys := if (d.get k).isSome then d.keys else d.keys ++ [k]
  get := Function.update d.get k (some v)
  mem_keys := d.mem_keys_insert k v
  nodup_keys := d.nodup_keys_insert k

theorem mem_keys_modify (d : Dict α) (k : ℕ) (f : α → α) (j : ℕ) :
    j ∈ d.keys ↔ (Function.update d.get k ((d.get k).map f) j).isSome = true := by
  by_cases hj : j = k
  · subst hj
    rw [Function.update_self, Option.isSome_map]
    exact d.mem_keys j
  · rw [Function.update_of_ne hj]
    exact d.mem_keys j

/-- Change the value of a key in place. -/
def modify (d : Dict α) (k : ℕ) (f : α → α) : Dict α where
  keys := d.keys
  get := Function.update d.get k ((d.get k).map f)
  mem_keys := d.mem_keys_modify k f
  nodup_keys := d.nodup_keys

@[simp] theorem get_insert_self (d : Dict α) (k : ℕ) (v : α) : (d.insert k v).get k = some v :=
  Function.update_self _ _ _

theorem get_insert_of_ne (d : Dict α) {k j : ℕ} (h : j ≠ k) (v : α) :
    (d.insert k v).get j = d.get j :=
  Function.update_of_ne h _ _

@[simp] theorem get_modify_self (d : Dict α) (k : ℕ) (f : α → α) :
    (d.modify k f).get k = (d.get k).map f :=
  Function.update_self _ _ _

theorem get_modify_of_ne (d : Dict α) {k j : ℕ} (h : j ≠ k) (f : α → α) :
    (d.modify k f).get j = d.get j :=
  Function.update_of_ne h _ _

end Dict
