import Mathlib.Data.List.Dedup
import Mathlib.Data.List.Infix
import VernisOS.Ext2Image

/-!
# The tree an image is built for

What a list of paths with contents stands for : the directories that their paths go through
and the files they end in, with `.` and `..` followed (`dirPaths`, `filePaths`). A list is
`Ext2Clean` when every name and every directory has room in its record and its block, and no
two files, and no file and directory, are in one place. The builder then has one inode for
each directory and file, and its directories are those of the tree (`Builds`).
-/

open Bytes

namespace VernisOS

/-- A place in the tree : the names that lead there from the root, without `.` and `..`. -/
abbrev Ext2Path := List (List UInt8)

/-- The place that a name leads to from a directory. -/
def stepInto (dir : Ext2Path) (name : List UInt8) : Ext2Path :=
  if name = nameDot then dir else if name = nameDotdot then dir.dropLast else dir ++ [name]

/-- The place that the parts of a path lead to. -/
def canonical (parts : List (List UInt8)) : Ext2Path :=
  parts.foldl stepInto []

/-- The place of the file with this path. -/
def filePath (path : List UInt8) : Ext2Path :=
  canonical (components path).dropLast ++ [(components path).getLastD []]

/-- The places of the files. -/
def filePaths (files : List (List UInt8 × List UInt8)) : List Ext2Path :=
  files.map fun f => filePath f.1

/-- The places of the directories : the root and what the paths go through. -/
def dirPaths (files : List (List UInt8 × List UInt8)) : List Ext2Path :=
  [] :: files.flatMap fun f => (components f.1).dropLast.inits.map canonical

/-- The names in a directory. -/
def members (files : List (List UInt8 × List UInt8)) (dir : Ext2Path) : List (List UInt8) :=
  (((dirPaths files ++ filePaths files).filter fun p => p ≠ [] ∧ p.dropLast = dir).map
    fun p => p.getLastD []).dedup

/-- What the builder has to be given for an image that can be read back. -/
structure Ext2Clean (files : List (List UInt8 × List UInt8)) : Prop where
  length_le : ∀ f ∈ files, ∀ name ∈ components f.1, name.length ≤ 255
  last : ∀ f ∈ files, ∀ name ∈ (components f.1).getLast?, name ≠ nameDot ∧ name ≠ nameDotdot
  nodup : (filePaths files).Nodup
  apart : ∀ p ∈ filePaths files, p ∉ dirPaths files
  fits : ∀ dir ∈ dirPaths files,
    ((members files dir).map Ext2Builder.entryNeed).sum ≤ 1000

theorem nodup_members (files : List (List UInt8 × List UInt8)) (dir : Ext2Path) :
    (members files dir).Nodup :=
  List.nodup_dedup _

theorem mem_members {files : List (List UInt8 × List UInt8)} {dir : Ext2Path}
    {name : List UInt8} :
    name ∈ members files dir ↔
      dir ++ [name] ∈ dirPaths files ∨ dir ++ [name] ∈ filePaths files := by
  simp only [members, List.mem_dedup, List.mem_map, List.mem_filter, List.mem_append,
    decide_eq_true_eq]
  constructor
  · rintro ⟨p, ⟨hp, hne, rfl⟩, rfl⟩
    rwa [List.getLastD_eq_getLast?, List.getLast?_eq_getLast_of_ne_nil hne, Option.getD_some,
      List.dropLast_append_getLast hne]
  · intro h
    exact ⟨_, ⟨h, by simp, by simp⟩, by simp⟩

/-- What is in a place of the tree. -/
inductive Ext2Node
  | dir
  | file (data : List UInt8)

/-- The entries of a directory. -/
def entriesOf (ino : Ext2Path → ℕ) (dir : Ext2Path) (names : List (List UInt8)) :
    List (List UInt8 × ℕ) :=
  (nameDot, ino dir) :: (nameDotdot, ino dir.dropLast) ::
    names.map fun name => (name, ino (dir ++ [name]))

/-- The directory of a new node with the inode `i`, in the directory with the inode `up`. -/
def Ext2Node.newDir (i up : ℕ) : Ext2Node → Option (List (List UInt8 × ℕ))
  | .dir => some [(nameDot, i), (nameDotdot, up)]
  | .file _ => none

/-- A name that a directory entry can have. -/
def Ext2Name (name : List UInt8) : Prop :=
  name ≠ nameDot ∧ name ≠ nameDotdot ∧ name ≠ [] ∧ name.length ≤ 255

/-- The directories `dirs`, by inode, are those of the tree `t` with the inodes `ino`. -/
structure Linked (t : Ext2Path → Option Ext2Node) (ino : Ext2Path → ℕ)
    (dirs : ℕ → Option (List (List UInt8 × ℕ))) : Prop where
  root : t [] = some .dir
  parent : ∀ {c name}, t (c ++ [name]) ≠ none → t c = some .dir ∧ Ext2Name name
  inj : ∀ {c d}, t c ≠ none → t d ≠ none → ino c = ino d → c = d
  dir : ∀ {c}, t c = some .dir → ∃ names : List (List UInt8), names.Nodup ∧
    (∀ name, name ∈ names ↔ t (c ++ [name]) ≠ none) ∧
    dirs (ino c) = some (entriesOf ino c names)
  isDir : ∀ {i}, dirs i ≠ none → ∃ c, t c = some .dir ∧ ino c = i

theorem entriesOf_update {ino : Ext2Path → ℕ} {c : Ext2Path} {names : List (List UInt8)}
    {p : Ext2Path} (hc : c ≠ p) (hup : c.dropLast ≠ p) (hin : ∀ name ∈ names, c ++ [name] ≠ p)
    (i : ℕ) : entriesOf (Function.update ino p i) c names = entriesOf ino c names := by
  unfold entriesOf
  rw [Function.update_of_ne hc, Function.update_of_ne hup]
  congr 2
  refine List.map_congr_left fun name hname => ?_
  rw [Function.update_of_ne (hin name hname)]

namespace Linked

variable {t : Ext2Path → Option Ext2Node} {ino : Ext2Path → ℕ}
  {dirs dirs' : ℕ → Option (List (List UInt8 × ℕ))} {c : Ext2Path} {name : List UInt8} {i : ℕ}

theorem dropLast_dir (h : Linked t ino dirs) (hc : t c ≠ none) : t c.dropLast = some .dir := by
  rcases List.eq_nil_or_concat' c with rfl | ⟨c, name, rfl⟩
  · exact h.root
  · rw [List.dropLast_concat]
    exact (h.parent hc).1

/-- An entry of a directory leads where its name leads. -/
theorem mem_entriesOf (h : Linked t ino dirs) (hc : t c = some .dir)
    {names : List (List UInt8)} (hnames : ∀ name, name ∈ names ↔ t (c ++ [name]) ≠ none) :
    (name, i) ∈ entriesOf ino c names ↔ t (stepInto c name) ≠ none ∧ i = ino (stepInto c name) := by
  have hself : t c ≠ none := by
    rw [hc]
    simp
  have hup : t c.dropLast ≠ none := by
    rw [h.dropLast_dir hself]
    simp
  simp only [entriesOf, List.mem_cons, List.mem_map, Prod.mk.injEq, hnames]
  constructor
  · rintro (⟨rfl, rfl⟩ | ⟨rfl, rfl⟩ | ⟨n, hn, rfl, rfl⟩)
    · exact ⟨hself, rfl⟩
    · exact ⟨hup, rfl⟩
    · obtain ⟨-, hdot, hdotdot, -⟩ := h.parent hn
      rw [stepInto, if_neg hdot, if_neg hdotdot]
      exact ⟨hn, rfl⟩
  · rintro ⟨hn, rfl⟩
    unfold stepInto at hn ⊢
    by_cases hdot : name = nameDot
    · rw [if_pos hdot]
      exact Or.inl ⟨hdot, rfl⟩
    · by_cases hdotdot : name = nameDotdot
      · rw [if_neg hdot, if_pos hdotdot]
        exact Or.inr (Or.inl ⟨hdotdot, rfl⟩)
      · rw [if_neg hdot, if_neg hdotdot] at hn ⊢
        exact Or.inr (Or.inr ⟨name, hn, rfl, rfl⟩)

/-- The directories after a new node `k` was put into the directory `c`, with the inode `i`. -/
theorem link (h : Linked t ino dirs) (hc : t c = some .dir) (hnew : t (c ++ [name]) = none)
    (hname : Ext2Name name) (hfresh : ∀ d, t d ≠ none → ino d ≠ i) (k : Ext2Node)
    (hself : dirs' i = k.newDir i (ino c))
    (hparent : dirs' (ino c) = (dirs (ino c)).map (· ++ [(name, i)]))
    (hother : ∀ j, j ≠ i → j ≠ ino c → dirs' j = dirs j) :
    Linked (Function.update t (c ++ [name]) (some k)) (Function.update ino (c ++ [name]) i)
      dirs' := by
  have hcne : c ≠ c ++ [name] := by simp
  have hup : ∀ {d}, t d ≠ none → d.dropLast ≠ c ++ [name] := by
    intro d hd he
    have hdir := h.dropLast_dir hd
    rw [he, hnew] at hdir
    cases hdir
  have hold : ∀ {d}, t d ≠ none → d ≠ c ++ [name] := by
    rintro d hd rfl
    exact hd hnew
  have hsome : ∀ {d} {k : Ext2Node}, t d = some k → t d ≠ none := by
    intro d k hd he
    rw [hd] at he
    cases he
  constructor
  · rw [Function.update_of_ne (by simp), h.root]
  · intro d m hd
    by_cases he : d ++ [m] = c ++ [name]
    · obtain ⟨rfl, rfl⟩ := List.append_singleton_inj.mp he
      rw [Function.update_of_ne hcne]
      exact ⟨hc, hname⟩
    · rw [Function.update_of_ne he] at hd
      obtain ⟨hdir, hm⟩ := h.parent hd
      rw [Function.update_of_ne (hold (hsome hdir))]
      exact ⟨hdir, hm⟩
  · intro d d' hd hd' hino
    by_cases hdn : d = c ++ [name] <;> by_cases hdn' : d' = c ++ [name]
    · rw [hdn, hdn']
    · rw [Function.update_of_ne hdn'] at hd' hino
      rw [hdn, Function.update_self] at hino
      exact absurd hino.symm (hfresh d' hd')
    · rw [Function.update_of_ne hdn] at hd hino
      rw [hdn', Function.update_self] at hino
      exact absurd hino (hfresh d hd)
    · rw [Function.update_of_ne hdn] at hd hino
      rw [Function.update_of_ne hdn'] at hd' hino
      exact h.inj hd hd' hino
  · intro d hd
    by_cases hdn : d = c ++ [name]
    · subst hdn
      rw [Function.update_self] at hd
      cases hd
      -- a new directory is empty
      refine ⟨[], List.nodup_nil, ?_, ?_⟩
      · intro m
        rw [Function.update_of_ne (by simp)]
        simp only [List.not_mem_nil, false_iff, not_not]
        by_contra hm
        rw [(h.parent hm).1] at hnew
        cases hnew
      · simp only [entriesOf, Function.update_self, List.dropLast_concat, List.map_nil,
          Function.update_of_ne hcne]
        exact hself
    · rw [Function.update_of_ne hdn] at hd
      obtain ⟨names, hnodup, hmem, hentries⟩ := h.dir hd
      by_cases hdc : d = c
      · subst hdc
        have hnot : name ∉ names := fun hin => (hmem name).mp hin hnew
        refine ⟨names ++ [name], ?_, ?_, ?_⟩
        · exact List.nodup_append.mpr ⟨hnodup, List.nodup_singleton name, by
            rintro x hx y hy rfl
            rw [List.mem_singleton] at hy
            exact hnot (hy ▸ hx)⟩
        · intro m
          rw [List.mem_append, List.mem_singleton, hmem]
          by_cases hm : m = name
          · subst hm
            simp
          · rw [Function.update_of_ne (by simpa using hm)]
            simp [hm]
        · have hin : ∀ m ∈ names, d ++ [m] ≠ d ++ [name] := by
            intro m hm he
            exact hnot ((List.append_singleton_inj.mp he).2 ▸ hm)
          have hsplit : entriesOf (Function.update ino (d ++ [name]) i) d (names ++ [name]) =
              entriesOf (Function.update ino (d ++ [name]) i) d names ++ [(name, i)] := by
            simp [entriesOf]
          rw [Function.update_of_ne hcne, hparent, hentries, hsplit,
            entriesOf_update hcne (hup (hsome hd)) hin]
          rfl
      · refine ⟨names, hnodup, ?_, ?_⟩
        · intro m
          rw [Function.update_of_ne, hmem]
          intro he
          exact hdc (List.append_singleton_inj.mp he).1
        · rw [Function.update_of_ne hdn,
            entriesOf_update hdn (hup (hsome hd)) fun m _ he =>
              hdc (List.append_singleton_inj.mp he).1, hother _ (hfresh d (hsome hd)), hentries]
          intro he
          exact hdc (h.inj (hsome hd) (hsome hc) he)
  · intro j hj
    by_cases hji : j = i
    · subst hji
      cases k with
      | dir => exact ⟨c ++ [name], by rw [Function.update_self], by rw [Function.update_self]⟩
      | file data => exact absurd hself hj
    · have hdirs : dirs j ≠ none := by
        by_cases hjc : j = ino c
        · rw [hjc, hparent] at hj
          rw [hjc]
          intro he
          rw [he] at hj
          exact hj rfl
        · rwa [hother j hji hjc] at hj
      obtain ⟨d, hd, rfl⟩ := h.isDir hdirs
      have hdn := hold (hsome hd)
      exact ⟨d, by rw [Function.update_of_ne hdn, hd], by rw [Function.update_of_ne hdn]⟩

end Linked

end VernisOS
