import VernisOS.Ext2Builds

/-!
# Writing the metadata of an image

`finish` gives every directory its block, and writes the inode table, the bitmaps, the
superblock and the group descriptor before the data blocks. What comes out is an
`Ext2Volume` : each node of the tree has an inode in the table, and the blocks of that inode
have the data of the file or the records of the directory.
-/

open Bytes

namespace VernisOS

/-! ## Directory blocks -/

/-- A directory block has these entries, behind each other, from `off` on. -/
def Records (blk : ℕ → UInt8) : ℕ → List (List UInt8 × ℕ) → Prop
  | off, [] => off = 1024
  | off, (name, target) :: rest => ∃ recLen, 8 + name.length ≤ recLen ∧ off + recLen ≤ 1024 ∧
    Holds blk off (Ext2Builder.entryHead target recLen name.length) ∧
    Holds blk (off + 8) name ∧ Records blk (off + recLen) rest

namespace Ext2Builder

theorem length_entryHead (target recLen nameLen : ℕ) :
    (entryHead target recLen nameLen).length = 8 := rfl

theorem le_entryNeed (name : List UInt8) : 8 + name.length ≤ entryNeed name := by
  unfold entryNeed
  omega

/-- The bytes that the entries of a directory need. -/
def entriesNeed (entries : List (List UInt8 × ℕ)) : ℕ :=
  (entries.map fun e => entryNeed e.1).sum

/-- Entries that have room in the block are its records. -/
theorem putEntries_spec {entries : List (List UInt8 × ℕ)} {off : ℕ} {block block' : Buffer}
    (h : putEntries entries off block = some block') (hne : entries ≠ [])
    (hsize : block.size = 1024) (hroom : off + entriesNeed entries ≤ 1024) :
    Patches off 1024 block block' ∧ Records block'.byte off entries := by
  induction entries generalizing off block with
  | nil => exact absurd rfl hne
  | cons e rest ih =>
    obtain ⟨name, target⟩ := e
    obtain ⟨nb, hascii, hput⟩ := Option.bind_eq_some_iff.mp h
    clear h
    have hnb : nb = name := by
      unfold encodeAscii at hascii
      split at hascii
      · exact (Option.some.inj hascii).symm
      · cases hascii
    subst hnb
    have hneed := le_entryNeed nb
    have hsum : entryNeed nb + entriesNeed rest = entriesNeed ((nb, target) :: rest) := by
      simp [entriesNeed]
    -- the last record takes the rest of the block
    obtain ⟨recLen, hrec, hfit, hlast, hmore⟩ : ∃ recLen : ℕ,
        (if rest = [] then (1024 : Int) - off else entryNeed nb) = recLen ∧
        entryNeed nb ≤ recLen ∧ (rest = [] → off + recLen = 1024) ∧
        (rest ≠ [] → recLen = entryNeed nb) := by
      by_cases hrest : rest = []
      · refine ⟨1024 - off, ?_, by omega, by omega, fun hn => absurd hrest hn⟩
        rw [if_pos hrest]
        omega
      · exact ⟨entryNeed nb, by rw [if_neg hrest], le_rfl, fun hn => absurd hn hrest,
          fun _ => rfl⟩
    have hend : off + recLen + entriesNeed rest ≤ 1024 := by
      by_cases hrest : rest = []
      · rw [hrest, show entriesNeed [] = 0 from rfl]
        have := hlast hrest
        omega
      · have := hmore hrest
        omega
    dsimp only at hput
    rw [hrec] at hput
    split at hput
    · cases hput
    · obtain ⟨block₁, hpack, h⟩ := Option.bind_eq_some_iff.mp hput
      obtain ⟨hhead, rfl⟩ := Buffer.packInto_some hpack
      rw [Int.toNat_natCast] at hhead h
      rw [length_entryHead] at hhead
      have hp₁ := patches_assign (v := entryHead target recLen nb.length) (a := off)
        (m := block) hhead
      have hholds₁ := Buffer.holds_assign (v := entryHead target recLen nb.length) (a := off)
        (m := block) hhead
      generalize block.assign off (off + (entryHead target recLen nb.length).length)
        (entryHead target recLen nb.length) = block₁ at h hp₁ hholds₁
      have hname : off + 8 + nb.length ≤ block₁.size := by
        rw [hp₁.size, hsize]
        omega
      have hp₂ := patches_assign hname
      have hholds₂ := Buffer.holds_assign hname
      generalize block₁.assign (off + 8) (off + 8 + nb.length) nb = block₂ at h hp₂ hholds₂
      obtain ⟨hp₃, hrecs⟩ : Patches (off + recLen) 1024 block₂ block' ∧
          Records block'.byte (off + recLen) rest := by
        by_cases hrest : rest = []
        · subst hrest
          cases h
          exact ⟨.refl _ _ _, hlast rfl⟩
        · exact ih h hrest (by rw [hp₂.size, hp₁.size, hsize]) hend
      have hl := length_entryHead target recLen nb.length
      refine ⟨?_, recLen, by omega, by omega, ?_, ?_, hrecs⟩
      · refine ((hp₁.mono le_rfl ?_).trans (hp₂.mono ?_ ?_)).trans (hp₃.mono ?_ le_rfl)
        · omega
        · omega
        · omega
        · omega
      · exact (hholds₁.patches hp₂ (by omega)).patches hp₃ (by omega)
      · exact hholds₂.patches hp₃ (by omega)

end Ext2Builder

/-- A directory whose block has its entries. -/
def FilledDir (dirs : ℕ → Option (List (List UInt8 × ℕ))) (ino : Ext2Path → ℕ) (c : Ext2Path)
    (inode : Ext2Inode) (bodies : List (List UInt8)) : Prop :=
  inode.size = 1024 ∧ ∃ (buf : Buffer) (entries : List (List UInt8 × ℕ)),
    dirs (ino c) = some entries ∧ bodies = [Ext2Builder.bytesOf buf] ∧ buf.size = 1024 ∧
    Records buf.byte 0 entries

/-- The directories with the inodes in `done` have their blocks, the others have none. -/
def DirsFilled (done : List ℕ) (dirs : ℕ → Option (List (List UInt8 × ℕ)))
    (ino : Ext2Path → ℕ) (c : Ext2Path) (inode : Ext2Inode) (bodies : List (List UInt8)) : Prop :=
  (ino c ∈ done → FilledDir dirs ino c inode bodies) ∧
    (ino c ∉ done → FreshDir c inode bodies)

theorem Shows.imp {D D' : Ext2Path → Ext2Inode → List (List UInt8) → Prop} {c : Ext2Path}
    {k : Ext2Node} {inode : Ext2Inode} {bodies : List (List UInt8)}
    (h : Shows D c k inode bodies) (hD : k = .dir → D c inode bodies → D' c inode bodies) :
    Shows D' c k inode bodies := by
  cases k with
  | dir => exact ⟨h.1, hD rfl h.2⟩
  | file data => exact h

theorem Stored.singleton {img : Buffer} {next : ℕ} {blocks : List ℕ} {body : List UInt8}
    (h : Stored img next blocks [body]) : ∃ block, blocks = [block] ∧ 13 ≤ block ∧ block < next ∧
      body.length ≤ 1024 ∧ Holds img.byte (block * 1024) body := by
  obtain ⟨block, rest, hblock, hrest, rfl⟩ := List.forall₂_cons_right_iff.mp h
  rw [List.forall₂_nil_right_iff.mp hrest]
  exact ⟨block, rfl, hblock⟩

theorem getD_bytesOf (buf : Buffer) {k : ℕ} (hk : k < buf.size) :
    (Ext2Builder.bytesOf buf).getD k 0 = buf.byte k := by
  simp [Ext2Builder.bytesOf, hk]

theorem length_bytesOf (buf : Buffer) : (Ext2Builder.bytesOf buf).length = buf.size := by
  simp [Ext2Builder.bytesOf]

namespace Builds

variable {t : Ext2Path → Option Ext2Node} {ino : Ext2Path → ℕ} {b b' : Ext2Builder}
  {dirs : ℕ → Option (List (List UInt8 × ℕ))} {done : List ℕ} {c : Ext2Path}

/-- `write_dir_blocks` for one directory whose entries have room. -/
theorem writeDirBlock (h : Builds (DirsFilled done dirs ino) t ino b) (hdirs : b.dirs.get = dirs)
    (hc : t c = some .dir)
    (hroom : ∀ entries ∈ dirs (ino c), Ext2Builder.entriesNeed entries ≤ 1024)
    (hw : b.writeDirBlock (ino c) = some b') :
    Builds (DirsFilled (done ++ [ino c]) dirs ino) t ino b' ∧ b'.dirs = b.dirs ∧
      b'.nextIno = b.nextIno := by
  have hcsome : t c ≠ none := by
    rw [hc]
    simp
  obtain ⟨entries, hentries, hw⟩ := Option.bind_eq_some_iff.mp hw
  obtain ⟨⟨block, b₁⟩, halloc, hw⟩ := Option.bind_eq_some_iff.mp hw
  obtain ⟨buf, hput, hb'⟩ := Option.map_eq_some_iff.mp hw
  unfold Ext2Builder.allocBlock at halloc
  split at halloc
  · cases halloc
  next hlt =>
  cases halloc
  have hne : entries ≠ [] := by
    obtain ⟨names, -, -, hget⟩ := h.linked.dir hc
    rw [hget] at hentries
    cases hentries
    simp [entriesOf]
  rw [hdirs] at hentries
  obtain ⟨hpatch, hrecs⟩ := Ext2Builder.putEntries_spec hput hne rfl (by
    rw [Nat.zero_add]
    exact hroom entries hentries)
  have hlen : (Ext2Builder.bytesOf buf).length = 1024 := (length_bytesOf buf).trans hpatch.size
  have himg : b'.img = b.img.assign (b.nextBlock * 1024)
      (b.nextBlock * 1024 + (Ext2Builder.bytesOf buf).length) (Ext2Builder.bytesOf buf) := by
    rw [← hb', hlen, ← Nat.succ_mul]
  obtain ⟨hkeeps, hnew⟩ := Ext2Builder.keeps_write h.space (by omega) hlen.le b' himg
    (by rw [← hb']) (by rw [← hb'])
  have hdirs' : b'.dirs = b.dirs := by rw [← hb']
  have hnext' : b'.nextIno = b.nextIno := by rw [← hb']
  have hinodes' : b'.inodes = b.inodes.modify (ino c) fun inode =>
      { inode with size := 1024, blocks := [b.nextBlock] } := by rw [← hb']
  refine ⟨⟨?_, hkeeps.space, h.root, ?_, ?_, ?_, ?_⟩, hdirs', hnext'⟩
  · rw [hdirs']
    exact h.linked
  · intro d hd
    rw [hnext']
    exact h.range hd
  · rw [hnext']
    exact h.first
  · intro d k hd
    obtain ⟨inode, bodies, hget, hblocks, hs, hshows⟩ := h.node hd
    by_cases hdc : d = c
    · subst hdc
      rw [hc] at hd
      cases hd
      refine ⟨{ inode with size := 1024, blocks := [b.nextBlock] },
        [Ext2Builder.bytesOf buf], ?_, by simp, hnew, hshows.1, ?_, ?_⟩
      · rw [hinodes', Dict.get_modify_self, hget, Option.map_some]
      · intro _
        exact ⟨rfl, buf, entries, hentries, rfl, hpatch.size, hrecs⟩
      · intro hnot
        simp at hnot
    · have hino : ino d ≠ ino c := fun he => hdc (h.linked.inj (by rw [hd]; simp) hcsome he)
      refine ⟨inode, bodies, ?_, hblocks, hkeeps.stored hs, hshows.imp ?_⟩
      · rw [hinodes', Dict.get_modify_of_ne _ hino, hget]
      · rintro - ⟨hdone, hfresh⟩
        refine ⟨fun hin => hdone ?_, fun hnot => hfresh ?_⟩
        · simpa [hino] using hin
        · simpa [hino] using hnot
  · intro i hi
    refine h.inode fun hnone => hi ?_
    rw [hinodes']
    by_cases hic : i = ino c
    · subst hic
      rw [Dict.get_modify_self, hnone, Option.map_none]
    · rw [Dict.get_modify_of_ne _ hic, hnone]

/-- `write_dir_blocks` over the directories in `todo`. -/
theorem writeDirBlocks (todo : List ℕ) (h : Builds (DirsFilled done dirs ino) t ino b)
    (hdirs : b.dirs.get = dirs) (htodo : ∀ i ∈ todo, dirs i ≠ none)
    (hroom : ∀ i, ∀ entries ∈ dirs i, Ext2Builder.entriesNeed entries ≤ 1024)
    (hw : todo.foldlM Ext2Builder.writeDirBlock b = some b') :
    Builds (DirsFilled (done ++ todo) dirs ino) t ino b' ∧ b'.dirs = b.dirs ∧
      b'.nextIno = b.nextIno := by
  induction todo generalizing done b with
  | nil =>
    cases hw
    rw [List.append_nil]
    exact ⟨h, rfl, rfl⟩
  | cons i todo ih =>
    rw [List.foldlM_cons] at hw
    obtain ⟨b₁, h₁, hrest⟩ := Option.bind_eq_some_iff.mp hw
    have hi : b.dirs.get i ≠ none := by
      rw [hdirs]
      exact htodo i (by simp)
    obtain ⟨c, hc, rfl⟩ := h.linked.isDir hi
    obtain ⟨hb₁, hd₁, hn₁⟩ := h.writeDirBlock hdirs hc (hroom (ino c)) h₁
    obtain ⟨hb', hd', hn'⟩ := ih hb₁ (by rw [hd₁, hdirs])
      (fun j hj => htodo j (List.mem_cons_of_mem _ hj)) hrest
    rw [List.append_assoc, List.singleton_append] at hb'
    exact ⟨hb', hd'.trans hd₁, hn'.trans hn₁⟩

end Builds

/-! ## The inode table -/

/-- Where the inode table has an inode. -/
def inodeOffset (i : ℕ) : ℕ :=
  5120 + (i - 1) * 128

/-- The image has this inode in its table. -/
structure InodeAt (img : Buffer) (i : ℕ) (inode : Ext2Inode) : Prop where
  head : ∃ links, Holds img.byte (inodeOffset i) (Ext2Builder.inodeHead inode links)
  block : ∀ {j block}, inode.blocks[j]? = some block →
    Holds img.byte (inodeOffset i + 40 + j * 4) (le32 (UInt32.ofNat block))
  size_lt : inode.size < 4294967296

namespace Ext2Builder

theorem length_inodeHead (inode : Ext2Inode) (links : ℕ) : (inodeHead inode links).length = 36 :=
  rfl

theorem putBlocks_spec {off i : ℕ} {blocks : List ℕ} {img img' : Buffer}
    (h : putBlocks off i blocks img = some img') :
    Patches (off + 40 + i * 4) (off + 40 + (i + blocks.length) * 4) img img' ∧
      ∀ {j block}, blocks[j]? = some block →
        Holds img'.byte (off + 40 + (i + j) * 4) (le32 (UInt32.ofNat block)) := by
  induction blocks generalizing i img with
  | nil =>
    cases h
    refine ⟨.refl _ _ _, fun hj => ?_⟩
    cases hj
  | cons block rest ih =>
    unfold putBlocks at h
    split at h
    · cases h
    obtain ⟨img₁, hpack, hrest⟩ := Option.bind_eq_some_iff.mp h
    obtain ⟨hfits, rfl⟩ := Buffer.packInto_some hpack
    have hp := patches_assign hfits
    have hholds := Buffer.holds_assign hfits
    have hlen : (le32 (UInt32.ofNat block)).length = 4 := rfl
    obtain ⟨hp', hblocks⟩ := ih hrest
    rw [List.length_cons]
    refine ⟨(hp.mono le_rfl (by omega)).trans (hp'.mono (by omega) (by omega)), ?_⟩
    intro j block' hj
    cases j with
    | zero =>
      cases hj
      exact hholds.patches hp' (by omega)
    | succ j =>
      have hnext := hblocks hj
      rwa [show i + 1 + j = i + (j + 1) by omega] at hnext

theorem writeInode_spec {b : Ext2Builder} {img img' : Buffer} {i : ℕ} {inode : Ext2Inode}
    (hget : b.inodes.get i = some inode) (hblocks : inode.blocks.length ≤ 12)
    (h : b.writeInode img i = some img') :
    Patches (inodeOffset i) (inodeOffset i + 128) img img' ∧ InodeAt img' i inode := by
  obtain ⟨inode', hget', h⟩ := Option.bind_eq_some_iff.mp h
  rw [hget] at hget'
  cases hget'
  dsimp only at h
  split at h
  · cases h
  next hsmall =>
  obtain ⟨img₁, hpack, hput⟩ := Option.bind_eq_some_iff.mp h
  obtain ⟨hfits, rfl⟩ := Buffer.packInto_some hpack
  have hp := patches_assign hfits
  have hholds := Buffer.holds_assign hfits
  have hlen := length_inodeHead inode (b.links i inode)
  obtain ⟨hp', hat⟩ := putBlocks_spec hput
  refine ⟨?_, ⟨_, hholds.patches hp' (by omega)⟩, ?_, by omega⟩
  · refine (hp.mono le_rfl ?_).trans (hp'.mono ?_ ?_)
    · rw [hlen]
      unfold inodeOffset
      omega
    · omega
    · unfold inodeOffset
      omega
  · intro j block hj
    have hb := hat hj
    rwa [Nat.zero_add] at hb

end Ext2Builder

theorem InodeAt.patches {img img' : Buffer} {i lo hi : ℕ} {inode : Ext2Inode}
    (h : InodeAt img i inode) (hblocks : inode.blocks.length ≤ 12) (hp : Patches lo hi img img')
    (hapart : inodeOffset i + 128 ≤ lo ∨ hi ≤ inodeOffset i) : InodeAt img' i inode := by
  obtain ⟨links, hhead⟩ := h.head
  have hlen := Ext2Builder.length_inodeHead inode links
  refine ⟨⟨links, hhead.patches hp (by omega)⟩, ?_, h.size_lt⟩
  intro j block hj
  have hlt : j < inode.blocks.length := by
    rw [List.getElem?_eq_some_iff] at hj
    exact hj.1
  have hlen' : (le32 (UInt32.ofNat block)).length = 4 := rfl
  exact (h.block hj).patches hp (by omega)

/-- `write_inode_table` over the inodes in `todo`. -/
theorem writeInodes_spec {b : Ext2Builder} (todo : List ℕ) {img img' : Buffer}
    (hinodes : ∀ {i inode}, b.inodes.get i = some inode → inode.blocks.length ≤ 12 ∧ 1 ≤ i ∧ i ≤ 64)
    (hnodup : todo.Nodup) (h : todo.foldlM b.writeInode img = some img') :
    Patches 5120 13312 img img' ∧
      (∀ {i inode}, i ∉ todo → b.inodes.get i = some inode → InodeAt img i inode →
        InodeAt img' i inode) ∧
      ∀ {i inode}, i ∈ todo → b.inodes.get i = some inode → InodeAt img' i inode := by
  induction todo generalizing img with
  | nil =>
    cases h
    refine ⟨.refl _ _ _, fun _ _ hat => hat, fun hi => ?_⟩
    cases hi
  | cons i todo ih =>
    rw [List.foldlM_cons] at h
    obtain ⟨img₁, h₁, hrest⟩ := Option.bind_eq_some_iff.mp h
    obtain ⟨hnot, hnodup'⟩ := List.nodup_cons.mp hnodup
    obtain ⟨inode, hget, -⟩ := Option.bind_eq_some_iff.mp h₁
    obtain ⟨hblocks, hlow, hhigh⟩ := hinodes hget
    obtain ⟨hp₁, hat₁⟩ := Ext2Builder.writeInode_spec hget hblocks h₁
    obtain ⟨hp, hkeep, hdone⟩ := ih hnodup' hrest
    refine ⟨(hp₁.mono ?_ ?_).trans hp, ?_, ?_⟩
    · unfold inodeOffset
      omega
    · unfold inodeOffset
      omega
    · intro j inode' hj hget' hat
      obtain ⟨hblocks', hlow', -⟩ := hinodes hget'
      obtain ⟨hne, hjtodo⟩ : j ≠ i ∧ j ∉ todo := by simpa using hj
      refine hkeep hjtodo hget' (hat.patches hblocks' hp₁ ?_)
      unfold inodeOffset
      omega
    · intro j inode' hj hget'
      rcases List.mem_cons.mp hj with rfl | hj
      · rw [hget] at hget'
        cases hget'
        exact hkeep hnot hget hat₁
      · exact hdone hj hget'

/-! ## The whole image -/

/-- An image with the tree `t` : the data blocks end before `next`. -/
structure Ext2Volume (t : Ext2Path → Option Ext2Node) (ino : Ext2Path → ℕ)
    (dirs : ℕ → Option (List (List UInt8 × ℕ))) (next : ℕ) (img : Buffer) : Prop where
  linked : Linked t ino dirs
  root : ino [] = ext2RootIno
  range : ∀ {c}, t c ≠ none → 2 ≤ ino c ∧ ino c ≤ 64
  low : 13 ≤ next
  high : next ≤ 8192
  size : next * 1024 ≤ img.size
  magic : leAt16 img.byte 1080 = 0xEF53
  logBs : leAt32 img.byte 1048 = 0
  inodesPerGroup : leAt32 img.byte 1064 = 64
  firstDataBlock : leAt32 img.byte 1044 = 1
  rev : leAt32 img.byte 1100 = 0
  itable : leAt32 img.byte 2056 = 5
  node : ∀ {c k}, t c = some k → ∃ inode bodies, InodeAt img (ino c) inode ∧
    inode.blocks.length ≤ 12 ∧ Stored img next inode.blocks bodies ∧
    Shows (FilledDir dirs ino) c k inode bodies

theorem entriesNeed_entriesOf (ino : Ext2Path → ℕ) (c : Ext2Path) (names : List (List UInt8)) :
    Ext2Builder.entriesNeed (entriesOf ino c names) =
      24 + (names.map Ext2Builder.entryNeed).sum := by
  have hdot : Ext2Builder.entryNeed nameDot = 12 := rfl
  have hdotdot : Ext2Builder.entryNeed nameDotdot = 12 := rfl
  simp only [Ext2Builder.entriesNeed, entriesOf, List.map_cons, List.sum_cons, List.map_map, hdot,
    hdotdot]
  rw [← Nat.add_assoc]
  rfl

/-- The names in a directory of the tree are its members. -/
theorem Describes.perm_members {t : Ext2Path → Option Ext2Node}
    {files : List (List UInt8 × List UInt8)} (ht : Describes t files) {c : Ext2Path}
    {names : List (List UInt8)} (hnodup : names.Nodup)
    (hmem : ∀ name, name ∈ names ↔ t (c ++ [name]) ≠ none) : names.Perm (members files c) := by
  refine (List.perm_ext_iff_of_nodup hnodup (nodup_members files c)).mpr fun name => ?_
  rw [hmem, mem_members, ← ht.dir]
  constructor
  · intro hne
    obtain ⟨k, hk⟩ := Option.ne_none_iff_exists'.mp hne
    cases k with
    | dir => exact Or.inl hk
    | file data =>
      obtain ⟨f, hf, hfx, -⟩ := ht.file.mp hk
      exact Or.inr (List.mem_map.mpr ⟨f, hf, hfx⟩)
  · rintro (hk | hfile)
    · rw [hk]
      simp
    · obtain ⟨f, hf, hfx⟩ := List.mem_map.mp hfile
      rw [ht.file.mpr ⟨f, hf, hfx, rfl⟩]
      simp

/-- In a clean list every directory has room for its entries. -/
theorem Linked.room {t : Ext2Path → Option Ext2Node} {ino : Ext2Path → ℕ}
    {dirs : ℕ → Option (List (List UInt8 × ℕ))} {files : List (List UInt8 × List UInt8)}
    (h : Linked t ino dirs) (ht : Describes t files) (hclean : Ext2Clean files) (i : ℕ)
    (entries : List (List UInt8 × ℕ)) (hi : entries ∈ dirs i) :
    Ext2Builder.entriesNeed entries ≤ 1024 := by
  have hi' : dirs i = some entries := hi
  obtain ⟨c, hc, rfl⟩ := h.isDir (by rw [hi']; simp)
  obtain ⟨names, hnodup, hmem, hentries⟩ := h.dir hc
  rw [hi'] at hentries
  cases hentries
  have hfits := hclean.fits c (ht.dir.mp hc)
  rw [entriesNeed_entriesOf, ((ht.perm_members hnodup hmem).map _).sum_nat]
  omega

theorem length_bitmap (lo hi : ℕ) : (Ext2Builder.bitmap lo hi).length = 1024 := by
  simp [Ext2Builder.bitmap]

namespace Ext2Builder

variable {b b' : Ext2Builder} {img : Buffer}

theorem writeBitmaps_counts (h : b.writeBitmaps = some b') :
    b.nextBlock ≤ 8192 ∧ b'.blocksCount = b.blocksCount ∧ b'.nextBlock = b.nextBlock ∧
      b'.nextIno = b.nextIno := by
  unfold writeBitmaps at h
  split at h
  · cases h
  next hsmall =>
  cases h
  exact ⟨by omega, rfl, rfl, rfl⟩

theorem writeBitmaps_spec (h : b.writeBitmaps = some b') (hsize : 5120 ≤ b.img.size) :
    Patches 3072 5120 b.img b'.img := by
  unfold writeBitmaps at h
  split at h
  · cases h
  cases h
  have hl₁ := length_bitmap 1 b.nextBlock
  have hl₂ := length_bitmap 0 (b.nextIno - 1)
  have hp₁ := patches_assign (a := 3072) (m := b.img) (v := bitmap 1 b.nextBlock) (by omega)
  rw [hl₁] at hp₁
  have hp₂ := patches_assign (a := 4096) (m := b.img.assign 3072 4096 (bitmap 1 b.nextBlock))
    (v := bitmap 0 (b.nextIno - 1)) (by rw [hp₁.size, hl₂]; omega)
  rw [hl₂] at hp₂
  exact (hp₁.mono le_rfl (by omega)).trans (hp₂.mono (by omega) le_rfl)

theorem length_superblockBytes (b : Ext2Builder) : b.superblockBytes.length = 84 := by
  unfold superblockBytes
  simp only [List.length_append, length_le32, length_le16]

theorem writeSuperblock_counts (h : b.writeSuperblock = some b') :
    b.nextBlock ≤ b.blocksCount ∧ b.nextIno ≤ 65 := by
  unfold writeSuperblock at h
  split at h
  · cases h
  · omega

theorem writeSuperblock_spec (h : b.writeSuperblock = some b') (hsize : 5120 ≤ b.img.size) :
    Patches 1024 2048 b.img b'.img ∧ Holds b'.img.byte 1024 b.superblockBytes := by
  unfold writeSuperblock at h
  split at h
  · cases h
  cases h
  have hl := length_superblockBytes b
  have hfits : 1024 + b.superblockBytes.length ≤ b.img.size := by omega
  exact ⟨(patches_assign hfits).mono le_rfl (by omega), Buffer.holds_assign hfits⟩

theorem superblock_fields {buf : ℕ → UInt8} (h : Holds buf 1024 b.superblockBytes) :
    leAt16 buf 1080 = 0xEF53 ∧ leAt32 buf 1048 = 0 ∧ leAt32 buf 1064 = 64 ∧
      leAt32 buf 1044 = 1 ∧ leAt32 buf 1100 = 0 := by
  unfold superblockBytes at h
  simp only [holds_append, List.length_append, length_le32, length_le16, Nat.reduceAdd,
    and_assoc] at h
  obtain ⟨-, -, -, -, -, hfirst, hlog, -, -, -, hgroup, -, -, -, -, hmagic, -, -, -, -, -, -,
    hrev, -⟩ := h
  exact ⟨hmagic.le16, hlog.le32, hgroup.le32, hfirst.le32, hrev.le32⟩

theorem length_groupDescBytes (b : Ext2Builder) : b.groupDescBytes.length = 18 := by
  unfold groupDescBytes
  simp only [List.length_append, length_le32, length_le16]

theorem writeGroupDesc_spec (h : b.writeGroupDesc = some b') (hsize : 5120 ≤ b.img.size) :
    Patches 2048 3072 b.img b'.img ∧ Holds b'.img.byte 2048 b.groupDescBytes := by
  unfold writeGroupDesc at h
  split at h
  · cases h
  cases h
  have hl := length_groupDescBytes b
  have hfits : 2048 + b.groupDescBytes.length ≤ b.img.size := by omega
  exact ⟨(patches_assign hfits).mono le_rfl (by omega), Buffer.holds_assign hfits⟩

theorem groupDesc_itable {buf : ℕ → UInt8} (h : Holds buf 2048 b.groupDescBytes) :
    leAt32 buf 2056 = 5 := by
  unfold groupDescBytes at h
  simp only [holds_append, List.length_append, length_le32, length_le16, Nat.reduceAdd,
    and_assoc] at h
  exact h.2.2.1.le32

end Ext2Builder

theorem Builds.imp {D D' : Ext2Path → Ext2Inode → List (List UInt8) → Prop}
    {t : Ext2Path → Option Ext2Node} {ino : Ext2Path → ℕ} {b : Ext2Builder}
    (h : Builds D t ino b)
    (hD : ∀ c inode bodies, t c = some .dir → D c inode bodies → D' c inode bodies) :
    Builds D' t ino b := by
  refine ⟨h.linked, h.space, h.root, h.range, h.first, ?_, h.inode⟩
  intro c k hc
  obtain ⟨inode, bodies, hget, hblocks, hs, hshows⟩ := h.node hc
  refine ⟨inode, bodies, hget, hblocks, hs, hshows.imp ?_⟩
  rintro rfl hdir
  exact hD c inode bodies hc hdir

/-- Every directory has its block after `write_dir_blocks`. -/
theorem Builds.filled {t : Ext2Path → Option Ext2Node} {ino : Ext2Path → ℕ} {b b' : Ext2Builder}
    (h : Builds FreshDir t ino b)
    (hroom : ∀ i, ∀ entries ∈ b.dirs.get i, Ext2Builder.entriesNeed entries ≤ 1024)
    (hw : b.writeDirBlocks = some b') :
    Builds (FilledDir b.dirs.get ino) t ino b' ∧ b'.dirs = b.dirs := by
  have hfresh : Builds (DirsFilled [] b.dirs.get ino) t ino b :=
    h.imp fun c inode bodies _ hc => ⟨fun hin => absurd hin List.not_mem_nil, fun _ => hc⟩
  have hkeys : ∀ i ∈ b.dirs.keys, b.dirs.get i ≠ none := fun i hi =>
    Option.isSome_iff_ne_none.mp ((b.dirs.mem_keys i).mp hi)
  obtain ⟨hb, hd, -⟩ := hfresh.writeDirBlocks b.dirs.keys rfl hkeys hroom hw
  refine ⟨hb.imp fun c inode bodies hc hdone => hdone.1 ?_, hd⟩
  obtain ⟨names, -, -, hget⟩ := h.linked.dir hc
  exact (b.dirs.mem_keys _).mpr (by rw [hget]; rfl)

/-- The image of a clean list that the builder accepts. -/
theorem volume_of_mkfs {sizeMb : ℕ} {files : List (List UInt8 × List UInt8)} {img : Buffer}
    (hclean : Ext2Clean files) (h : mkfsExt2 sizeMb files = some img) :
    ∃ t ino dirs next, Describes t files ∧ Ext2Volume t ino dirs next img := by
  obtain ⟨b, hadds, hfinish⟩ := Option.bind_eq_some_iff.mp h
  obtain ⟨t, ino, hb, ht⟩ := builds_adds hclean hadds
  obtain ⟨b₄, hsuper, hgroup⟩ := Option.bind_eq_some_iff.mp hfinish
  obtain ⟨b₅, hdesc, rfl⟩ := Option.map_eq_some_iff.mp hgroup
  obtain ⟨b₃, hbitmaps, hsuper⟩ := Option.bind_eq_some_iff.mp hsuper
  obtain ⟨b₂, htable, hbitmaps⟩ := Option.bind_eq_some_iff.mp hbitmaps
  obtain ⟨b₁, hdirs, htable⟩ := Option.bind_eq_some_iff.mp htable
  obtain ⟨hb₁, hdirs₁⟩ := hb.filled (hb.linked.room ht hclean) hdirs
  obtain ⟨img₂, hinodes, rfl⟩ := Option.map_eq_some_iff.mp htable
  obtain ⟨hblocks, hinos⟩ := Ext2Builder.writeSuperblock_counts hsuper
  obtain ⟨hhigh, hcount₃, hblock₃, hino₃⟩ := Ext2Builder.writeBitmaps_counts hbitmaps
  rw [hblock₃, hcount₃] at hblocks
  rw [hino₃] at hinos
  dsimp only at hblocks hhigh hinos
  have hlow := hb₁.space.low
  have hsize₁ := hb₁.space.size
  -- every inode of the builder is that of a node
  have hmeta : ∀ {i inode}, b₁.inodes.get i = some inode →
      inode.blocks.length ≤ 12 ∧ 1 ≤ i ∧ i ≤ 64 := by
    intro i inode hget
    obtain ⟨c, hc, rfl⟩ := hb₁.inode (by rw [hget]; simp)
    obtain ⟨k, hk⟩ := Option.ne_none_iff_exists'.mp hc
    obtain ⟨inode', bodies, hget', hlen, -⟩ := hb₁.node hk
    rw [hget] at hget'
    cases hget'
    have := hb₁.range hc
    exact ⟨hlen, by omega, by omega⟩
  obtain ⟨hp₂, -, hat⟩ := writeInodes_spec _ hmeta b₁.inodes.nodup_keys hinodes
  have hsize₂ : 5120 ≤ img₂.size := by
    rw [hp₂.size]
    omega
  have hp₃ := Ext2Builder.writeBitmaps_spec hbitmaps hsize₂
  dsimp only at hp₃
  obtain ⟨hp₄, hsb⟩ := Ext2Builder.writeSuperblock_spec hsuper (by rw [hp₃.size]; exact hsize₂)
  obtain ⟨hp₅, hgd⟩ := Ext2Builder.writeGroupDesc_spec hdesc (by
    rw [hp₄.size, hp₃.size]
    exact hsize₂)
  have hp : Patches 1024 5120 img₂ b₅.img :=
    ((hp₃.mono (by omega) le_rfl).trans (hp₄.mono le_rfl (by omega))).trans
      (hp₅.mono (by omega) (by omega))
  have hl := Ext2Builder.length_superblockBytes b₃
  obtain ⟨hmagic, hlog, hgroups, hfirst, hrev⟩ :=
    Ext2Builder.superblock_fields (hsb.patches hp₅ (by omega))
  refine ⟨t, ino, b.dirs.get, b₁.nextBlock, ht, ?_⟩
  constructor
  · exact hb.linked
  · exact hb.root
  · intro c hc
    have := hb₁.range hc
    omega
  · exact hlow
  · exact hhigh
  · rw [hp.size, hp₂.size]
    omega
  · exact hmagic
  · exact hlog
  · exact hgroups
  · exact hfirst
  · exact hrev
  · exact Ext2Builder.groupDesc_itable hgd
  · intro c k hk
    obtain ⟨inode, bodies, hget, hlen, hs, hshows⟩ := hb₁.node hk
    refine ⟨inode, bodies, ?_, hlen, ?_, hshows⟩
    · have hin : ino c ∈ b₁.inodes.keys := (b₁.inodes.mem_keys _).mpr (by rw [hget]; rfl)
      refine (hat hin hget).patches hlen hp (Or.inr ?_)
      unfold inodeOffset
      omega
    · exact (hs.patches hp₂ (Or.inl le_rfl) le_rfl).patches hp (Or.inl (by omega)) le_rfl

end VernisOS
