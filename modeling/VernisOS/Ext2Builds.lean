import VernisOS.Ext2Tree

/-!
# Adding files to an image

What `add_file` stores stays where it is (`Stored`, `Keeps`), and after the `--add` arguments
of a clean list the builder has the tree of that list (`builds_adds`).
-/

open Bytes

namespace VernisOS

/-- Blocks of the image below `next` and what they begin with. -/
def Stored (img : Buffer) (next : ℕ) : List ℕ → List (List UInt8) → Prop :=
  List.Forall₂ fun block body =>
    13 ≤ block ∧ block < next ∧ body.length ≤ 1024 ∧ Holds img.byte (block * 1024) body

/-- A write before the data blocks or behind `next` leaves what is stored. -/
theorem Stored.patches {img img' : Buffer} {next next' lo hi : ℕ} {blocks : List ℕ}
    {bodies : List (List UInt8)} (h : Stored img next blocks bodies)
    (hp : Patches lo hi img img') (hapart : hi ≤ 13312 ∨ next * 1024 ≤ lo)
    (hnext : next ≤ next') : Stored img' next' blocks bodies := by
  refine List.Forall₂.imp ?_ h
  rintro block body ⟨hlow, hlt, hlen, hholds⟩
  exact ⟨hlow, by omega, hlen, hholds.patches hp (by omega)⟩

theorem Stored.get {img : Buffer} {next j block : ℕ} {body : List UInt8} {blocks : List ℕ}
    {bodies : List (List UInt8)} (h : Stored img next blocks bodies)
    (hblock : blocks[j]? = some block) (hbody : bodies[j]? = some body) :
    13 ≤ block ∧ block < next ∧ body.length ≤ 1024 ∧ Holds img.byte (block * 1024) body := by
  induction h generalizing j with
  | nil => cases hblock
  | cons hhead _ ih =>
    cases j with
    | zero =>
      cases hblock
      cases hbody
      exact hhead
    | succ j => exact ih hblock hbody

/-- The blocks of a file. -/
def chunks (data : List UInt8) : List (List UInt8) :=
  (List.range ((data.length + 1023) / 1024)).map (Ext2Builder.chunk data)

namespace Ext2Builder

/-- The image has its size, and the data blocks are behind the inode table. -/
structure Space (b : Ext2Builder) : Prop where
  size : b.img.size = b.blocksCount * 1024
  low : 13 ≤ b.nextBlock

/-- What is stored in `b` is stored in `b'`. -/
structure Keeps (b b' : Ext2Builder) : Prop where
  space : b'.Space
  count : b'.blocksCount = b.blocksCount
  stored : ∀ {blocks bodies}, Stored b.img b.nextBlock blocks bodies →
    Stored b'.img b'.nextBlock blocks bodies

theorem Keeps.refl {b : Ext2Builder} (h : b.Space) : b.Keeps b :=
  ⟨h, rfl, id⟩

theorem Keeps.trans {b b' b'' : Ext2Builder} (h : b.Keeps b') (h' : b'.Keeps b'') :
    b.Keeps b'' :=
  ⟨h'.space, h'.count.trans h.count, fun hs => h'.stored (h.stored hs)⟩

/-- The names, inodes and directories of `b'` are those of `b`. -/
structure SameTree (b b' : Ext2Builder) : Prop where
  nextIno : b'.nextIno = b.nextIno
  inodes : b'.inodes = b.inodes
  dirs : b'.dirs = b.dirs

/-- Writing the next block. -/
theorem keeps_write {b : Ext2Builder} (h : b.Space) (hlt : b.nextBlock < b.blocksCount)
    {v : List UInt8} (hv : v.length ≤ 1024) (b' : Ext2Builder)
    (himg : b'.img = b.img.assign (b.nextBlock * 1024) (b.nextBlock * 1024 + v.length) v)
    (hnext : b'.nextBlock = b.nextBlock + 1) (hcount : b'.blocksCount = b.blocksCount) :
    b.Keeps b' ∧ Stored b'.img b'.nextBlock [b.nextBlock] [v] := by
  have hlow := h.low
  have hfits : b.nextBlock * 1024 + v.length ≤ b.img.size := by
    rw [h.size]
    omega
  rw [himg, hnext]
  refine ⟨⟨⟨?_, by omega⟩, hcount, ?_⟩, ?_⟩
  · rw [himg, Buffer.size_assign hfits, h.size, hcount]
  · intro blocks bodies hs
    rw [himg, hnext]
    exact hs.patches (patches_assign hfits) (Or.inr le_rfl) (Nat.le_succ _)
  · exact .cons ⟨hlow, Nat.lt_succ_self _, hv, Buffer.holds_assign hfits⟩ .nil

theorem length_chunk_le (data : List UInt8) (i : ℕ) : (chunk data i).length ≤ 1024 :=
  List.length_take_le _ _

theorem addBlock_spec {data : List UInt8} {blocks blocks' : List ℕ} {b b' : Ext2Builder} {i : ℕ}
    {bodies : List (List UInt8)} (h : addBlock data (blocks, b) i = some (blocks', b'))
    (hspace : b.Space) (hs : Stored b.img b.nextBlock blocks bodies) :
    b.Keeps b' ∧ b.SameTree b' ∧
      Stored b'.img b'.nextBlock blocks' (bodies ++ [chunk data i]) := by
  simp only [addBlock, allocBlock] at h
  split at h
  · cases h
  · next hlt =>
    cases h
    obtain ⟨hkeeps, hnew⟩ := keeps_write hspace (by omega) (length_chunk_le data i)
      { b with
        nextBlock := b.nextBlock + 1
        img := b.img.assign (b.nextBlock * 1024) (b.nextBlock * 1024 + (chunk data i).length)
          (chunk data i) } rfl rfl rfl
    exact ⟨hkeeps, ⟨rfl, rfl, rfl⟩, List.rel_append (hkeeps.stored hs) hnew⟩

theorem addBlocks_spec {data : List UInt8} (is : List ℕ) {blocks blocks' : List ℕ}
    {b b' : Ext2Builder} {bodies : List (List UInt8)}
    (h : is.foldlM (addBlock data) (blocks, b) = some (blocks', b')) (hspace : b.Space)
    (hs : Stored b.img b.nextBlock blocks bodies) :
    b.Keeps b' ∧ b.SameTree b' ∧
      Stored b'.img b'.nextBlock blocks' (bodies ++ is.map (chunk data)) := by
  induction is generalizing blocks b bodies with
  | nil =>
    cases h
    exact ⟨.refl hspace, ⟨rfl, rfl, rfl⟩, by simpa using hs⟩
  | cons i is ih =>
    rw [List.foldlM_cons] at h
    obtain ⟨⟨blocks₁, b₁⟩, h₁, h⟩ := Option.bind_eq_some_iff.mp h
    obtain ⟨hk₁, ht₁, hs₁⟩ := addBlock_spec h₁ hspace hs
    obtain ⟨hk, ht, hs'⟩ := ih h hk₁.space hs₁
    refine ⟨hk₁.trans hk, ⟨ht.nextIno.trans ht₁.nextIno, ht.inodes.trans ht₁.inodes,
      ht.dirs.trans ht₁.dirs⟩, ?_⟩
    simpa using hs'

/-- `add_file` stores the data and links the next inode. -/
theorem addFile_spec {b b' : Ext2Builder} {parentIno : ℕ} {name data : List UInt8}
    (h : b.addFile parentIno name data = some b') (hspace : b.Space) :
    ∃ blocks, blocks.length ≤ 12 ∧ b.Keeps b' ∧
      Stored b'.img b'.nextBlock blocks (chunks data) ∧ b'.nextIno = b.nextIno + 1 ∧
      b'.inodes = b.inodes.insert b.nextIno ⟨ext2RegularMode, data.length, blocks⟩ ∧
      b'.dirs = b.dirs.modify parentIno fun entries => entries ++ [(name, b.nextIno)] := by
  obtain ⟨⟨blocks, b₁⟩, hloop, h⟩ := Option.bind_eq_some_iff.mp h
  have hspace' : Space { b with nextIno := b.nextIno + 1 } := ⟨hspace.size, hspace.low⟩
  obtain ⟨hk, ht, hs⟩ := addBlocks_spec _ hloop hspace' (.nil : Stored _ _ [] [])
  dsimp only at h
  split at h
  · cases h
  · next hlen =>
    cases h
    refine ⟨blocks, by omega, ⟨⟨hk.space.size, hk.space.low⟩, hk.count, hk.stored⟩, hs,
      ht.nextIno, ?_, ?_⟩
    · dsimp only
      rw [ht.inodes]
    · dsimp only
      rw [ht.dirs]

end Ext2Builder

/-- What the inode of a node and its blocks have to say. `D` is what a directory has. -/
def Shows (D : Ext2Path → Ext2Inode → List (List UInt8) → Prop) (c : Ext2Path) :
    Ext2Node → Ext2Inode → List (List UInt8) → Prop
  | .dir, inode, bodies => inode.mode = ext2DirectoryMode ∧ D c inode bodies
  | .file data, inode, bodies =>
    inode.mode = ext2RegularMode ∧ inode.size = data.length ∧ bodies = chunks data

/-- The builder has the tree `t`, with the inodes `ino`. -/
structure Builds (D : Ext2Path → Ext2Inode → List (List UInt8) → Prop)
    (t : Ext2Path → Option Ext2Node) (ino : Ext2Path → ℕ) (b : Ext2Builder) : Prop where
  linked : Linked t ino b.dirs.get
  space : b.Space
  root : ino [] = ext2RootIno
  range : ∀ {c}, t c ≠ none → 2 ≤ ino c ∧ ino c < b.nextIno
  first : 11 ≤ b.nextIno
  node : ∀ {c k}, t c = some k → ∃ inode bodies, b.inodes.get (ino c) = some inode ∧
    inode.blocks.length ≤ 12 ∧ Stored b.img b.nextBlock inode.blocks bodies ∧
    Shows D c k inode bodies
  inode : ∀ {i}, b.inodes.get i ≠ none → ∃ c, t c ≠ none ∧ ino c = i

/-- A directory that has no block yet. -/
def FreshDir (_ : Ext2Path) (inode : Ext2Inode) (_ : List (List UInt8)) : Prop :=
  inode.size = 0 ∧ inode.blocks = []

theorem builds_new (sizeMb : ℕ) : Builds FreshDir
    (Function.update (fun _ => none) [] (some .dir)) (fun _ => ext2RootIno) (.new sizeMb) := by
  have hnone : ∀ {c : Ext2Path}, Function.update (fun _ => none) []
      (some Ext2Node.dir) c ≠ none → c = [] := by
    intro c hc
    by_contra hne
    exact hc (Function.update_of_ne hne _ _)
  have hroot : Function.update (fun _ => none) [] (some Ext2Node.dir) ([] : Ext2Path) =
      some .dir := Function.update_self _ _ _
  constructor
  · constructor
    · exact hroot
    · intro c name hc
      exact absurd (hnone hc) (by simp)
    · intro c d hc hd _
      rw [hnone hc, hnone hd]
    · intro c hc
      refine ⟨[], List.nodup_nil, fun name => ?_, ?_⟩
      · rw [Function.update_of_ne (by simp)]
        simp
      · exact Dict.get_insert_self _ _ _
    · intro i hi
      refine ⟨[], hroot, ?_⟩
      by_contra hne
      exact hi (Dict.get_insert_of_ne _ (Ne.symm hne) _)
  · exact ⟨by simp [Ext2Builder.new, Buffer.zeros], le_rfl⟩
  · rfl
  · intro c _
    exact ⟨le_rfl, (by decide : 2 < 11)⟩
  · exact le_rfl
  · intro c k hc
    have hk : some k = some .dir := by
      rw [← hc, hnone (c := c) (by rw [hc]; simp), hroot]
    cases hk
    exact ⟨_, [], Dict.get_insert_self _ _ _, Nat.zero_le _, .nil, rfl, rfl, rfl⟩
  · intro i hi
    refine ⟨[], by rw [hroot]; simp, ?_⟩
    by_contra hne
    exact hi (Dict.get_insert_of_ne _ (Ne.symm hne) _)

namespace Builds

variable {D : Ext2Path → Ext2Inode → List (List UInt8) → Prop}
  {t : Ext2Path → Option Ext2Node} {ino : Ext2Path → ℕ} {b b' : Ext2Builder} {c : Ext2Path}
  {name : List UInt8}

theorem fresh (h : Builds D t ino b) (d : Ext2Path) (hd : t d ≠ none) : ino d ≠ b.nextIno :=
  (h.range hd).2.ne

/-- A new node. -/
theorem link (h : Builds D t ino b) (hc : t c = some .dir) (hnew : t (c ++ [name]) = none)
    (hname : Ext2Name name) (k : Ext2Node) {inode : Ext2Inode} {bodies : List (List UInt8)}
    (hkeeps : b.Keeps b') (hnext : b'.nextIno = b.nextIno + 1)
    (hinodes : b'.inodes = b.inodes.insert b.nextIno inode) (hlen : inode.blocks.length ≤ 12)
    (hs : Stored b'.img b'.nextBlock inode.blocks bodies)
    (hshows : Shows D (c ++ [name]) k inode bodies)
    (hself : b'.dirs.get b.nextIno = k.newDir b.nextIno (ino c))
    (hparent : b'.dirs.get (ino c) = (b.dirs.get (ino c)).map (· ++ [(name, b.nextIno)]))
    (hother : ∀ j, j ≠ b.nextIno → j ≠ ino c → b'.dirs.get j = b.dirs.get j) :
    Builds D (Function.update t (c ++ [name]) (some k))
      (Function.update ino (c ++ [name]) b.nextIno) b' := by
  have hfirst := h.first
  constructor
  · exact h.linked.link hc hnew hname h.fresh k hself hparent hother
  · exact hkeeps.space
  · rw [Function.update_of_ne (by simp), h.root]
  · intro d hd
    rw [hnext]
    by_cases hdn : d = c ++ [name]
    · rw [hdn, Function.update_self]
      omega
    · rw [Function.update_of_ne hdn] at hd ⊢
      have := h.range hd
      omega
  · omega
  · intro d k' hd
    by_cases hdn : d = c ++ [name]
    · subst hdn
      rw [Function.update_self] at hd ⊢
      cases hd
      exact ⟨inode, bodies, by rw [hinodes, Dict.get_insert_self], hlen, hs, hshows⟩
    · rw [Function.update_of_ne hdn] at hd ⊢
      obtain ⟨inode', bodies', hget, hlen', hs', hshows'⟩ := h.node hd
      refine ⟨inode', bodies', ?_, hlen', hkeeps.stored hs', hshows'⟩
      rw [hinodes, Dict.get_insert_of_ne _ (h.fresh d (by rw [hd]; simp)), hget]
  · intro i hi
    by_cases hin : i = b.nextIno
    · exact ⟨c ++ [name], by rw [Function.update_self]; simp, by rw [Function.update_self, hin]⟩
    · rw [hinodes, Dict.get_insert_of_ne _ hin] at hi
      obtain ⟨d, hd, rfl⟩ := h.inode hi
      have hdn : d ≠ c ++ [name] := by
        rintro rfl
        exact hd hnew
      exact ⟨d, by rwa [Function.update_of_ne hdn], by rw [Function.update_of_ne hdn]⟩

theorem dirs_none (h : Builds D t ino b) : b.dirs.get b.nextIno = none := by
  by_contra hne
  obtain ⟨d, hd, hino⟩ := h.linked.isDir hne
  exact h.fresh d (by rw [hd]; simp) hino

/-- `mkdir`. -/
theorem mkdir (h : Builds FreshDir t ino b) (hc : t c = some .dir)
    (hnew : t (c ++ [name]) = none) (hname : Ext2Name name) :
    Builds FreshDir (Function.update t (c ++ [name]) (some .dir))
      (Function.update ino (c ++ [name]) b.nextIno) (b.mkdir (ino c) name).2 := by
  have hne : ino c ≠ b.nextIno := h.fresh c (by rw [hc]; simp)
  refine h.link hc hnew hname .dir ⟨⟨h.space.size, h.space.low⟩, rfl, id⟩ rfl rfl
    (Nat.zero_le _) (.nil : Stored _ _ [] []) ⟨rfl, rfl, rfl⟩ ?_ ?_ ?_
  · exact (Dict.get_modify_of_ne _ hne.symm _).trans (Dict.get_insert_self _ _ _)
  · refine (Dict.get_modify_self _ _ _).trans ?_
    rw [Dict.get_insert_of_ne _ hne]
  · intro j hj hjc
    exact (Dict.get_modify_of_ne _ hjc _).trans (Dict.get_insert_of_ne _ hj _)

/-- `add_file`. -/
theorem addFile {data : List UInt8} (h : Builds D t ino b) (hc : t c = some .dir)
    (hnew : t (c ++ [name]) = none) (hname : Ext2Name name)
    (hadd : b.addFile (ino c) name data = some b') :
    Builds D (Function.update t (c ++ [name]) (some (.file data)))
      (Function.update ino (c ++ [name]) b.nextIno) b' := by
  have hne : ino c ≠ b.nextIno := h.fresh c (by rw [hc]; simp)
  obtain ⟨blocks, hlen, hkeeps, hs, hnext, hinodes, hdirs⟩ :=
    Ext2Builder.addFile_spec hadd h.space
  refine h.link hc hnew hname (.file data) hkeeps hnext hinodes hlen hs ⟨rfl, rfl, rfl⟩ ?_ ?_ ?_
  · rw [hdirs, Dict.get_modify_of_ne _ hne.symm, h.dirs_none]
    rfl
  · rw [hdirs, Dict.get_modify_self]
  · intro j _ hjc
    rw [hdirs, Dict.get_modify_of_ne _ hjc]

end Builds

/-! ## Following a path -/

namespace Ext2Builder

variable {t : Ext2Path → Option Ext2Node} {ino : Ext2Path → ℕ} {b : Ext2Builder}
  {c : Ext2Path} {name : List UInt8}

theorem findDir_some (h : Linked t ino b.dirs.get) (hc : t c = some .dir)
    (hname : t (stepInto c name) = some .dir) :
    b.findDir (ino c) name = some (ino (stepInto c name)) := by
  obtain ⟨names, -, hmem, hentries⟩ := h.dir hc
  have hisDir : b.dirs.get (ino (stepInto c name)) ≠ none := by
    obtain ⟨names', -, -, hentries'⟩ := h.dir hname
    rw [hentries']
    simp
  rw [findDir, hentries, Option.getD_some]
  cases hfind : (entriesOf ino c names).find? fun e =>
      e.1 == name && (b.dirs.get e.2).isSome with
  | none =>
    have hin := (h.mem_entriesOf hc hmem).mpr ⟨by rw [hname]; simp, rfl⟩
    have := List.find?_eq_none.mp hfind _ hin
    simp [Option.isSome_iff_ne_none, hisDir] at this
  | some e =>
    obtain ⟨n, i⟩ := e
    have hp := List.find?_some hfind
    have hin := (h.mem_entriesOf hc hmem).mp (List.mem_of_find?_eq_some hfind)
    simp only [Bool.and_eq_true, beq_iff_eq] at hp
    rw [Option.map_some, hin.2, hp.1]

theorem findDir_none (h : Linked t ino b.dirs.get) (hc : t c = some .dir)
    (hname : t (stepInto c name) ≠ some .dir) : b.findDir (ino c) name = none := by
  obtain ⟨names, -, hmem, hentries⟩ := h.dir hc
  rw [findDir, hentries, Option.getD_some, Option.map_eq_none_iff, List.find?_eq_none]
  rintro ⟨n, i⟩ hin hp
  obtain ⟨hsome, rfl⟩ := (h.mem_entriesOf hc hmem).mp hin
  simp only [Bool.and_eq_true, beq_iff_eq] at hp
  obtain ⟨rfl, hisDir⟩ := hp
  obtain ⟨d, hd, hino⟩ := h.isDir (Option.isSome_iff_ne_none.mp hisDir)
  rw [h.inj (by rw [hd]; simp) hsome hino] at hd
  exact hname hd

end Ext2Builder

namespace Builds

variable {t : Ext2Path → Option Ext2Node} {ino : Ext2Path → ℕ} {b b' : Ext2Builder}
  {c : Ext2Path} {name : List UInt8}

/-- One part of a path. -/
theorem enterDir (h : Builds FreshDir t ino b) (hc : t c = some .dir)
    (hname : name ≠ [] ∧ name.length ≤ 255)
    (hfile : ∀ data, t (stepInto c name) ≠ some (.file data)) :
    ∃ t' ino', Builds FreshDir t' ino' (Ext2Builder.enterDir (ino c, b) name).2 ∧
      ino' (stepInto c name) = (Ext2Builder.enterDir (ino c, b) name).1 ∧
      ∀ x k, t' x = some k ↔ t x = some k ∨ x = stepInto c name ∧ k = .dir := by
  unfold Ext2Builder.enterDir
  dsimp only
  cases hk : t (stepInto c name) with
  | some k =>
    cases k with
    | file data => exact absurd hk (hfile data)
    | dir =>
      rw [Ext2Builder.findDir_some h.linked hc hk]
      refine ⟨t, ino, h, rfl, fun x k => ⟨Or.inl, ?_⟩⟩
      rintro (hx | ⟨rfl, rfl⟩)
      · exact hx
      · exact hk
  | none =>
    rw [Ext2Builder.findDir_none h.linked hc (by rw [hk]; simp)]
    have hup : t c.dropLast = some .dir := h.linked.dropLast_dir (by rw [hc]; simp)
    have hdot : name ≠ nameDot := by
      rintro rfl
      rw [stepInto, if_pos rfl, hc] at hk
      cases hk
    have hdotdot : name ≠ nameDotdot := by
      rintro rfl
      rw [stepInto, if_neg (by decide), if_pos rfl, hup] at hk
      cases hk
    have hstep : stepInto c name = c ++ [name] := by
      rw [stepInto, if_neg hdot, if_neg hdotdot]
    rw [hstep] at hk ⊢
    refine ⟨_, _, h.mkdir hc hk ⟨hdot, hdotdot, hname⟩, Function.update_self _ _ _, ?_⟩
    intro x k
    by_cases hx : x = c ++ [name]
    · subst hx
      rw [Function.update_self, hk]
      simp [eq_comm]
    · rw [Function.update_of_ne hx]
      simp [hx]

/-- `resolve_dir` over the parts of a path but the last. -/
theorem enterDirs (parts : List (List UInt8)) (h : Builds FreshDir t ino b)
    (hc : t c = some .dir) (hnames : ∀ name ∈ parts, name ≠ [] ∧ name.length ≤ 255)
    (hfile : ∀ q, q <+: parts → ∀ data, t (q.foldl stepInto c) ≠ some (.file data)) :
    ∃ t' ino', Builds FreshDir t' ino' (parts.foldl Ext2Builder.enterDir (ino c, b)).2 ∧
      ino' (parts.foldl stepInto c) = (parts.foldl Ext2Builder.enterDir (ino c, b)).1 ∧
      ∀ x k, t' x = some k ↔
        t x = some k ∨ (∃ q, q <+: parts ∧ x = q.foldl stepInto c) ∧ k = .dir := by
  induction parts generalizing t ino b c with
  | nil =>
    refine ⟨t, ino, h, rfl, fun x k => ⟨Or.inl, ?_⟩⟩
    rintro (hx | ⟨⟨q, hq, rfl⟩, rfl⟩)
    · exact hx
    · rw [List.prefix_nil.mp hq]
      exact hc
  | cons name parts ih =>
    obtain ⟨t₁, ino₁, h₁, hcur, hiff₁⟩ := h.enterDir hc (hnames name (by simp))
      (hfile [name] (by simp))
    have hc₁ : t₁ (stepInto c name) = some .dir := (hiff₁ _ _).mpr (Or.inr ⟨rfl, rfl⟩)
    obtain ⟨t', ino', h', hcur', hiff'⟩ := ih h₁ hc₁
      (fun n hn => hnames n (List.mem_cons_of_mem _ hn)) (by
        intro q hq data hdata
        rcases (hiff₁ _ _).mp hdata with hold | ⟨-, hk⟩
        · exact hfile (name :: q) ((List.prefix_cons_inj name).mpr hq) data hold
        · cases hk)
    have hfold : parts.foldl Ext2Builder.enterDir (ino₁ (stepInto c name),
        (Ext2Builder.enterDir (ino c, b) name).2) =
        (name :: parts).foldl Ext2Builder.enterDir (ino c, b) := by
      rw [hcur, List.foldl_cons]
    rw [hfold] at h' hcur'
    refine ⟨t', ino', h', hcur', fun x k => ?_⟩
    rw [hiff', hiff₁]
    constructor
    · rintro ((hx | ⟨rfl, rfl⟩) | ⟨⟨q, hq, rfl⟩, rfl⟩)
      · exact Or.inl hx
      · exact Or.inr ⟨⟨[name], by simp, rfl⟩, rfl⟩
      · exact Or.inr ⟨⟨name :: q, (List.prefix_cons_inj name).mpr hq, rfl⟩, rfl⟩
    · rintro (hx | ⟨⟨q, hq, rfl⟩, rfl⟩)
      · exact Or.inl (Or.inl hx)
      · rcases List.prefix_cons_iff.mp hq with rfl | ⟨q, rfl, hq'⟩
        · exact Or.inl (Or.inl hc)
        · exact Or.inr ⟨⟨q, hq', rfl⟩, rfl⟩

end Builds

/-- The tree of a list of files. -/
structure Describes (t : Ext2Path → Option Ext2Node) (files : List (List UInt8 × List UInt8)) :
    Prop where
  dir : ∀ {x}, t x = some .dir ↔ x ∈ dirPaths files
  file : ∀ {x data}, t x = some (.file data) ↔ ∃ f ∈ files, filePath f.1 = x ∧ f.2 = data

theorem components_ne_nil {path name : List UInt8} (h : name ∈ components path) : name ≠ [] := by
  simpa using (List.mem_filter.mp h).2

theorem mem_dirPaths {files : List (List UInt8 × List UInt8)} {x : Ext2Path} :
    x ∈ dirPaths files ↔
      x = [] ∨ ∃ f ∈ files, ∃ q, q <+: (components f.1).dropLast ∧ canonical q = x := by
  simp [dirPaths, List.mem_inits]

theorem mem_dirPaths_append {pre suf : List (List UInt8 × List UInt8)} {x : Ext2Path} :
    x ∈ dirPaths (pre ++ suf) ↔ x ∈ dirPaths pre ∨ x ∈ dirPaths suf := by
  simp only [dirPaths, List.flatMap_append, List.mem_cons, List.mem_append]
  tauto

theorem filePath_of_getLast? {path base : List UInt8} (h : (components path).getLast? = some base) :
    filePath path = canonical (components path).dropLast ++ [base] := by
  rw [filePath, List.getLastD_eq_getLast?, h, Option.getD_some]

section

variable {t : Ext2Path → Option Ext2Node} {ino : Ext2Path → ℕ} {b b' : Ext2Builder}
  {files pre suf : List (List UInt8 × List UInt8)} {f : List UInt8 × List UInt8}

/-- One `--add` of a clean list, after those of `pre`. -/
theorem Builds.add (hclean : Ext2Clean (pre ++ f :: suf)) (h : Builds FreshDir t ino b)
    (ht : Describes t pre) (hadd : b.add f = some b') :
    ∃ t' ino', Builds FreshDir t' ino' b' ∧ Describes t' (pre ++ [f]) := by
  obtain ⟨⟨parent, base, b₁⟩, hresolve, hfileadd⟩ := Option.bind_eq_some_iff.mp hadd
  obtain ⟨base', hlast, heq⟩ := Option.map_eq_some_iff.mp hresolve
  cases heq
  have hin : f ∈ pre ++ f :: suf := by simp
  have hplace := filePath_of_getLast? hlast
  have hnames : ∀ name ∈ components f.1, name ≠ [] ∧ name.length ≤ 255 := fun name hn =>
    ⟨components_ne_nil hn, hclean.length_le f hin name hn⟩
  have hdirs : ∀ {q}, q <+: (components f.1).dropLast →
      canonical q ∈ dirPaths (pre ++ f :: suf) := fun hq =>
    mem_dirPaths.mpr (Or.inr ⟨f, hin, _, hq, rfl⟩)
  have hfiles : ∀ g ∈ pre ++ [f], filePath g.1 ∈ filePaths (pre ++ f :: suf) := by
    intro g hg
    refine List.mem_map.mpr ⟨g, ?_, rfl⟩
    rcases List.mem_append.mp hg with hg | hg
    · simp [hg]
    · simp [List.mem_singleton.mp hg]
  have hother : ∀ g ∈ pre, filePath g.1 ≠ filePath f.1 := by
    intro g hg
    have hnodup := hclean.nodup
    rw [filePaths, List.map_append, List.map_cons] at hnodup
    exact (List.nodup_append.mp hnodup).2.2 _ (List.mem_map.mpr ⟨g, hg, rfl⟩) _ (by simp)
  obtain ⟨t₁, ino₁, h₁, hcur, hiff⟩ := h.enterDirs (components f.1).dropLast h.linked.root
    (fun name hn => hnames name (List.dropLast_subset _ hn)) (by
      intro q hq data hdata
      obtain ⟨g, hg, hgx, -⟩ := ht.file.mp hdata
      have hgin := hfiles g (by simp [hg])
      rw [hgx] at hgin
      exact hclean.apart _ hgin (hdirs hq))
  rw [h.root] at h₁ hcur
  have hc : t₁ (canonical (components f.1).dropLast) = some .dir :=
    (hiff _ _).mpr (Or.inr ⟨⟨_, List.prefix_rfl, rfl⟩, rfl⟩)
  have hnew : t₁ (canonical (components f.1).dropLast ++ [base]) = none := by
    rw [← hplace]
    cases hk : t₁ (filePath f.1) with
    | none => rfl
    | some k =>
      have hfin := hfiles f (by simp)
      rcases (hiff _ _).mp hk with hold | ⟨⟨q, hq, hx⟩, -⟩
      · cases k with
        | dir =>
          exact absurd (mem_dirPaths_append.mpr (Or.inl (ht.dir.mp hold))) (hclean.apart _ hfin)
        | file data =>
          obtain ⟨g, hg, hgx, -⟩ := ht.file.mp hold
          exact absurd hgx (hother g hg)
      · rw [hx] at hfin
        exact absurd (hdirs hq) (hclean.apart _ hfin)
  have hbase : Ext2Name base := by
    obtain ⟨hdot, hdotdot⟩ := hclean.last f hin base hlast
    exact ⟨hdot, hdotdot, hnames base (List.mem_of_getLast? hlast)⟩
  dsimp only at hfileadd
  rw [← hcur] at hfileadd
  refine ⟨_, _, h₁.addFile hc hnew hbase hfileadd, ?_, ?_⟩
  · intro x
    have hdir : t₁ x = some .dir ↔ x ∈ dirPaths (pre ++ [f]) := by
      rw [hiff, ht.dir, mem_dirPaths_append]
      refine or_congr_right' fun hpre => ⟨?_, fun hx => ⟨?_, rfl⟩⟩
      · rintro ⟨⟨q, hq, rfl⟩, -⟩
        exact mem_dirPaths.mpr (Or.inr ⟨f, by simp, q, hq, rfl⟩)
      · rcases mem_dirPaths.mp hx with rfl | ⟨g, hg, q, hq, rfl⟩
        · exact absurd (mem_dirPaths.mpr (Or.inl rfl)) hpre
        · rw [List.mem_singleton.mp hg] at hq
          exact ⟨q, hq, rfl⟩
    rw [← hdir, ← hplace]
    by_cases hx : x = filePath f.1
    · subst hx
      rw [Function.update_self, hplace, hnew]
      simp
    · rw [Function.update_of_ne hx]
  · intro x data
    rw [← hplace]
    by_cases hx : x = filePath f.1
    · subst hx
      rw [Function.update_self]
      constructor
      · intro he
        cases he
        exact ⟨f, by simp, rfl, rfl⟩
      · rintro ⟨g, hg, hgx, rfl⟩
        rcases List.mem_append.mp hg with hg | hg
        · exact absurd hgx (hother g hg)
        · rw [List.mem_singleton.mp hg]
    · rw [Function.update_of_ne hx, hiff, ht.file]
      constructor
      · rintro (⟨g, hg, hgx, hdata⟩ | ⟨-, hk⟩)
        · exact ⟨g, by simp [hg], hgx, hdata⟩
        · cases hk
      · rintro ⟨g, hg, hgx, hdata⟩
        rcases List.mem_append.mp hg with hg | hg
        · exact Or.inl ⟨g, hg, hgx, hdata⟩
        · rw [List.mem_singleton.mp hg] at hgx
          exact absurd hgx.symm hx

/-- The `--add` arguments of a clean list, after those of `pre`. -/
theorem Builds.adds (hclean : Ext2Clean (pre ++ suf)) (h : Builds FreshDir t ino b)
    (ht : Describes t pre) (hadd : suf.foldlM Ext2Builder.add b = some b') :
    ∃ t' ino', Builds FreshDir t' ino' b' ∧ Describes t' (pre ++ suf) := by
  induction suf generalizing pre t ino b with
  | nil =>
    cases hadd
    rw [List.append_nil]
    exact ⟨t, ino, h, ht⟩
  | cons f suf ih =>
    rw [List.foldlM_cons] at hadd
    obtain ⟨b₁, h₁, hadd⟩ := Option.bind_eq_some_iff.mp hadd
    obtain ⟨t₁, ino₁, hb₁, ht₁⟩ := h.add hclean ht h₁
    rw [List.append_cons] at hclean ⊢
    exact ih hclean hb₁ ht₁ hadd

end

/-- The builder has the tree of a clean list. -/
theorem builds_adds {sizeMb : ℕ} {files : List (List UInt8 × List UInt8)} {b : Ext2Builder}
    (hclean : Ext2Clean files) (h : files.foldlM Ext2Builder.add (.new sizeMb) = some b) :
    ∃ t ino, Builds FreshDir t ino b ∧ Describes t files := by
  have ht : Describes (Function.update (fun _ => none) [] (some .dir)) [] := by
    constructor
    · intro x
      rw [mem_dirPaths]
      by_cases hx : x = []
      · simp [hx]
      · rw [Function.update_of_ne hx]
        simp [hx]
    · intro x data
      by_cases hx : x = []
      · simp [hx]
      · rw [Function.update_of_ne hx]
        simp
  exact (builds_new sizeMb).adds (show Ext2Clean ([] ++ files) from hclean) ht h

end VernisOS
