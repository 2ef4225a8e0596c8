import VernisOS.Dylib
import VernisOS.Lib.Run

/-!
# Library handles

Every successful `module_load` has a number, and beside the tables it is kept which load is in
a module slot, whether an open made it, and which load an open library was given. A handle
stays with its library exactly as long as no `module_unload` takes the module of a library and
no open gives out a handle that is still in use (`library_handles`).
-/

open Bytes Run Slots

namespace VernisOS

variable {storageAddr : Fin dylibMaxLibs → UInt32}

/-! ## What an operation does -/

theorem ModHeader.read_congr {b b' : ℕ → UInt8} (h : ∀ k < sizeofModHeader, b k = b' k) :
    ModHeader.read b = ModHeader.read b' := by
  have hword : ∀ o, o + 4 ≤ sizeofModHeader → leAt32 b o = leAt32 b' o := fun o ho =>
    leAt32_eq fun k hk => h (o + k) (by omega)
  have hname : ((List.range (modNameLen - 1)).map fun k => b (16 + k)) =
      (List.range (modNameLen - 1)).map fun k => b' (16 + k) := by
    refine List.map_congr_left fun k hk => h (16 + k) ?_
    rw [List.mem_range] at hk
    simp only [modNameLen, sizeofModHeader] at hk ⊢
    omega
  have hoffsets : (fun i : Fin modMaxExports => leAt32 b (40 + 4 * i.val)) =
      fun i => leAt32 b' (40 + 4 * i.val) := by
    funext i
    have hlt : i.val < 8 := i.isLt
    exact hword _ (by simp only [sizeofModHeader]; omega)
  unfold ModHeader.read
  rw [hword 0 (by decide), hword 4 (by decide), hword 8 (by decide), hword 12 (by decide), hname,
    hoffsets]

theorem checkModule_neg {addr size : UInt32} {hdr : ModHeader} {err : ℤ}
    (h : checkModule addr size hdr = some err) : err < 0 := by
  unfold checkModule at h
  split_ifs at h <;> cases h <;> decide

namespace ModSlots

variable {slots : ModSlots} {mid : UInt32} {idx : Fin modMaxModules}

theorem slotOf_ofNat (idx : Fin modMaxModules) : slotOf (UInt32.ofNat idx.val) = some idx := by
  have hidx : idx.val < 8 := idx.isLt
  have hlt : idx.val < 2 ^ 32 := by omega
  simp only [slotOf, UInt32.toNat_ofNat', Nat.mod_eq_of_lt hlt, dif_pos idx.isLt]

/-- A load fails, or fills a free slot. -/
theorem moduleLoad_cases (slots : ModSlots) (addr size : UInt32) (bytes : ℕ → UInt8) :
    ((slots.moduleLoad addr size bytes).1 < 0 ∧
      (slots.moduleLoad addr size bytes).2 = slots ∧
      ¬ (checkModule addr size (ModHeader.read bytes) = none ∧ ∃ m, (slots m).inUse = false)) ∨
    ∃ idx, (slots idx).inUse = false ∧ (slots.moduleLoad addr size bytes).1 = idx.val ∧
      (slots.moduleLoad addr size bytes).2 =
        Function.update slots idx (ModSlot.load idx addr (ModHeader.read bytes)) ∧
      checkModule addr size (ModHeader.read bytes) = none := by
  unfold moduleLoad
  cases hcheck : checkModule addr size (ModHeader.read bytes) with
  | some err =>
    exact Or.inl ⟨checkModule_neg hcheck, rfl, fun h => by cases h.1⟩
  | none =>
    cases hfree : first fun i => !(slots i).inUse with
    | none =>
      refine Or.inl ⟨(by decide : modErrNoslot < 0), rfl, ?_⟩
      rintro ⟨-, m, hm⟩
      have := first_none.mp hfree m
      rw [hm] at this
      cases this
    | some idx =>
      refine Or.inr ⟨idx, ?_, rfl, rfl, rfl⟩
      simpa using first_some hfree

/-- An unload does nothing, or clears a slot that is in use. -/
theorem moduleUnload_cases (slots : ModSlots) (mid : UInt32) :
    ((slots.moduleUnload mid).2 = slots ∧ ∀ m, slotOf mid = some m → (slots m).inUse = false) ∨
    ∃ m, slotOf mid = some m ∧ (slots m).inUse = true ∧
      (slots.moduleUnload mid).2 = Function.update slots m ModSlot.zero := by
  unfold moduleUnload
  cases hslot : slotOf mid with
  | none => exact Or.inl ⟨rfl, fun m hm => by cases hm⟩
  | some idx =>
    dsimp only
    by_cases huse : (slots idx).inUse = true
    · rw [if_pos huse]
      exact Or.inr ⟨idx, rfl, huse, rfl⟩
    · rw [if_neg huse]
      refine Or.inl ⟨rfl, fun m hm => ?_⟩
      cases hm
      exact Bool.eq_false_iff.mpr huse

end ModSlots

namespace Libraries

variable {l : Libraries} {i j : Fin dylibMaxLibs} {handle : UInt32}

theorem dylibFindHandle_some (h : l.dylibFindHandle handle = some i) :
    (l.dylibs i).used = true ∧ (l.dylibs i).handle = handle := by
  simpa using first_some h

theorem dylibFindHandle_isSome (h : (l.dylibs i).used = true) :
    ∃ j, l.dylibFindHandle (l.dylibs i).handle = some j := by
  refine Option.isSome_iff_exists.mp (first_isSome.mpr ⟨i, ?_⟩)
  rw [h, beq_self_eq_true]
  rfl

/-- This open succeeds. -/
def CanOpen (storageAddr : Fin dylibMaxLibs → UInt32) (l : Libraries) (path file : List UInt8) :
    Prop :=
  path ≠ [] ∧ (∃ m, (l.slots m).inUse = false) ∧ ∃ i,
    (first fun i => !(l.dylibs i).used) = some i ∧ sizeofModHeader ≤ file.length ∧
      checkModule (storageAddr i) (UInt32.ofNat file.length) (ModHeader.read (byteAt file)) = none

/-- What a successful open leaves : module slot `m` and library `i`, which were free, belong
together. -/
structure Opened (storageAddr : Fin dylibMaxLibs → UInt32) (l : Libraries) (file : List UInt8)
    (i : Fin dylibMaxLibs) (m : Fin modMaxModules) (l' : Libraries) : Prop where
  free : (l.dylibs i).used = false
  freeSlot : (l.slots m).inUse = false
  slots : ∃ hdr, l'.slots = Function.update l.slots m (ModSlot.load m (storageAddr i) hdr)
  dylibs : ∃ d, l'.dylibs = Function.update l.dylibs i d ∧ d.used = true ∧
    d.handle = l.nextHandle ∧ d.mid = UInt32.ofNat m.val
  storage : ∀ j, j ≠ i → l'.storage j = l.storage j
  file : ∀ k < file.length, l'.storage i k = byteAt file k

/-- The tables are as before, and the storage of every library that is in use. -/
structure Unchanged (l l' : Libraries) : Prop where
  slots : l'.slots = l.slots
  dylibs : l'.dylibs = l.dylibs
  storage : ∀ i, (l.dylibs i).used = true → l'.storage i = l.storage i

theorem storage_readInto (l : Libraries) (i : Fin dylibMaxLibs) (file : List UInt8) {k : ℕ}
    (hk : k < file.length) : (l.readInto i file).storage i k = byteAt file k := by
  simp only [readInto, Function.update_self, if_pos hk]

/-- Reading into a free storage changes nothing that is in use. -/
theorem unchanged_readInto (file : List UInt8) (h : (l.dylibs i).used = false) :
    Unchanged l (l.readInto i file) := by
  refine ⟨rfl, rfl, fun j hj => ?_⟩
  have hne : j ≠ i := by
    rintro rfl
    rw [h] at hj
    cases hj
  simp only [readInto, Function.update_of_ne hne]

theorem dylibOpen_cases (storageAddr : Fin dylibMaxLibs → UInt32) (l : Libraries)
    (path name file : List UInt8) :
    (¬ CanOpen storageAddr l path file ∧
      Unchanged l (l.dylibOpen storageAddr path name file).2) ∨
    (CanOpen storageAddr l path file ∧ ∃ i m,
      Opened storageAddr l file i m (l.dylibOpen storageAddr path name file).2) := by
  unfold dylibOpen
  by_cases hpath : path = []
  · rw [if_pos hpath]
    exact Or.inl ⟨fun h => h.1 hpath, rfl, rfl, fun _ _ => rfl⟩
  rw [if_neg hpath]
  cases hfree : first fun i => !(l.dylibs i).used with
  | none =>
    refine Or.inl ⟨?_, rfl, rfl, fun _ _ => rfl⟩
    rintro ⟨-, -, i, hi, -⟩
    rw [hfree] at hi
    cases hi
  | some i =>
    have hi : (l.dylibs i).used = false := by simpa using first_some hfree
    have hread := unchanged_readInto file hi
    dsimp only
    by_cases hempty : file = []
    · rw [if_pos hempty]
      refine Or.inl ⟨?_, hread⟩
      rintro ⟨-, -, -, -, hlen, -⟩
      rw [hempty] at hlen
      exact absurd hlen (by decide)
    rw [if_neg hempty]
    by_cases hshort : file.length < sizeofModHeader
    · rw [if_pos hshort]
      exact Or.inl ⟨fun ⟨_, _, _, _, hlen, _⟩ => absurd hlen (not_le.mpr hshort), hread⟩
    rw [if_neg hshort]
    have hheader : ModHeader.read ((l.readInto i file).storage i) = ModHeader.read (byteAt file) :=
      ModHeader.read_congr fun k hk => storage_readInto l i file (hk.trans_le (not_lt.mp hshort))
    rcases ModSlots.moduleLoad_cases (l.readInto i file).slots (storageAddr i)
        (UInt32.ofNat file.length) ((l.readInto i file).storage i) with
      ⟨hneg, hslots, hfails⟩ | ⟨m, hm, hrc, hslots, hcheck⟩
    · rw [if_pos hneg, hslots]
      refine Or.inl ⟨?_, hread⟩
      rintro ⟨-, hslot, j, hj, -, hcheck⟩
      rw [hfree, Option.some.injEq] at hj
      subst hj
      rw [← hheader] at hcheck
      exact hfails ⟨hcheck, hslot⟩
    · have hmid : UInt32.ofNat (m.val : ℤ).toNat = UInt32.ofNat m.val := rfl
      rw [hheader] at hcheck
      rw [hrc, if_neg (by omega), hslots, hmid]
      refine Or.inr ⟨⟨hpath, ⟨m, hm⟩, i, hfree, not_lt.mp hshort, hcheck⟩, i, m, hi, hm,
        ⟨_, rfl⟩, ⟨_, rfl, rfl, rfl, rfl⟩, ?_, ?_⟩
      · exact fun j hne => Function.update_of_ne hne _ _
      · exact fun k hk => storage_readInto l i file hk

/-- A close does nothing, or clears the library and unloads its module. -/
theorem dylibClose_cases (l : Libraries) (handle : UInt32) :
    (l.dylibClose handle).2 = l ∨ ∃ i, l.dylibFindHandle handle = some i ∧
      (l.dylibClose handle).2 =
        { l with
          slots := (l.slots.moduleUnload (l.dylibs i).mid).2
          dylibs := Function.update l.dylibs i DylibSlot.zero
          storage := Function.update l.storage i fun _ => 0 } := by
  unfold dylibClose
  cases h : l.dylibFindHandle handle with
  | none => exact Or.inl rfl
  | some i => exact Or.inr ⟨i, rfl, rfl⟩

end Libraries

/-! ## Runs -/

inductive LibOp
  | dylibOpen (path name : List UInt8) (file : LibFile)
  | dylibClose (handle : UInt32)
  | dylibCall (handle : UInt32) (symbol : List UInt8) (arg : UInt32)
  | moduleLoad (addr size : UInt32) (bytes : ℕ → UInt8)
  | moduleUnload (mid : UInt32)

/-- An operation on the tables. -/
def Libraries.apply (storageAddr : Fin dylibMaxLibs → UInt32) (l : Libraries) :
    LibOp → Libraries
  | .dylibOpen path name file => (l.dylibOpen storageAddr path name file.val).2
  | .dylibClose handle => (l.dylibClose handle).2
  | .dylibCall _ _ _ => l
  | .moduleLoad addr size bytes =>
    { l with slots := (l.slots.moduleLoad addr size bytes).2 }
  | .moduleUnload mid => { l with slots := (l.slots.moduleUnload mid).2 }

/-- The tables, and beside them the number of loads, the load that is in each module slot and
whether an open made it, and the load and the file of each library. -/
structure LibraryRun where
  libs : Libraries
  loads : ℕ
  loadOf : Fin modMaxModules → ℕ
  byOpen : Fin modMaxModules → Bool
  openLoad : Fin dylibMaxLibs → ℕ
  openFile : Fin dylibMaxLibs → List UInt8

namespace LibraryRun

def init : LibraryRun :=
  ⟨Libraries.init, 0, fun _ => 0, fun _ => false, fun _ => 0, fun _ => []⟩

/-- The first slot that is in use now and was not before. -/
def filled {n : ℕ} (before now : Fin n → Bool) : Option (Fin n) :=
  first fun i => now i && !before i

/-- The module slot that is filled between two states. -/
def filledSlot (l l' : Libraries) : Option (Fin modMaxModules) :=
  filled (fun m => (l.slots m).inUse) fun m => (l'.slots m).inUse

/-- The library that is opened between two states. -/
def filledLib (l l' : Libraries) : Option (Fin dylibMaxLibs) :=
  filled (fun i => (l.dylibs i).used) fun i => (l'.dylibs i).used

/-- The file of an open. -/
def fileOf : LibOp → List UInt8
  | .dylibOpen _ _ file => file.val
  | _ => []

/-- An operation, and the numbers beside it. -/
def step (storageAddr : Fin dylibMaxLibs → UInt32) (r : LibraryRun) (op : LibOp) : LibraryRun :=
  let libs := r.libs.apply storageAddr op
  let lib := filledLib r.libs libs
  match filledSlot r.libs libs with
  | none => { r with libs := libs }
  | some m =>
    { libs := libs
      loads := r.loads + 1
      loadOf := Function.update r.loadOf m r.loads
      byOpen := Function.update r.byOpen m lib.isSome
      openLoad i := if lib = some i then r.loads else r.openLoad i
      openFile i := if lib = some i then fileOf op else r.openFile i }

/-- The module that a handle leads to, to resolve a name, to call it or to close it. -/
def Leads (l : Libraries) (handle : UInt32) (m : Fin modMaxModules) : Prop :=
  ∃ j, l.dylibFindHandle handle = some j ∧ ModSlots.slotOf (l.dylibs j).mid = some m ∧
    (l.slots m).inUse = true

/-- The module of library `i` that its open made, with its code in memory. -/
structure Own (storageAddr : Fin dylibMaxLibs → UInt32) (r : LibraryRun) (i : Fin dylibMaxLibs)
    (m : Fin modMaxModules) : Prop where
  load : r.loadOf m = r.openLoad i
  addr : (r.libs.slots m).baseAddr = storageAddr i
  code : ∀ k < (r.openFile i).length, r.libs.storage i k = byteAt (r.openFile i) k

/-- Every handle in use leads to the module of its own library, or to none. -/
def Bound (storageAddr : Fin dylibMaxLibs → UInt32) (r : LibraryRun) : Prop :=
  ∀ i, (r.libs.dylibs i).used = true → ∀ m, Leads r.libs (r.libs.dylibs i).handle m →
    r.Own storageAddr i m

/-- The module in this slot was loaded for a library. -/
def OfLibrary (r : LibraryRun) (mid : UInt32) : Prop :=
  ∃ m, ModSlots.slotOf mid = some m ∧ (r.libs.slots m).inUse = true ∧ r.byOpen m = true

/-- The operation keeps the handles bound, and does not unload by its id a module that was
loaded for a library. -/
def Respects (storageAddr : Fin dylibMaxLibs → UInt32) (r : LibraryRun) (op : LibOp) : Prop :=
  Bound storageAddr (r.step storageAddr op) ∧ ∀ mid, op = .moduleUnload mid → ¬ r.OfLibrary mid

/-- No open gives out a handle in use, and no unload takes the module of a library. -/
def Distinct (storageAddr : Fin dylibMaxLibs → UInt32) (r : LibraryRun) : LibOp → Prop
  | .dylibOpen path _ file => r.libs.CanOpen storageAddr path file.val →
      ∀ i, (r.libs.dylibs i).used = true → (r.libs.dylibs i).handle ≠ r.libs.nextHandle
  | .moduleUnload mid => ¬ r.OfLibrary mid
  | .dylibClose _ | .dylibCall _ _ _ | .moduleLoad _ _ _ => True

/-- Every library in use has its own module in a slot and its own handle. -/
structure Inv (storageAddr : Fin dylibMaxLibs → UInt32) (r : LibraryRun) : Prop where
  module : ∀ i, (r.libs.dylibs i).used = true → ∃ m,
    (r.libs.dylibs i).mid = UInt32.ofNat m.val ∧ (r.libs.slots m).inUse = true ∧
      r.byOpen m = true ∧ r.Own storageAddr i m
  handle : ∀ i j, (r.libs.dylibs i).used = true → (r.libs.dylibs j).used = true →
    (r.libs.dylibs i).handle = (r.libs.dylibs j).handle → i = j
  load : ∀ i j, (r.libs.dylibs i).used = true → (r.libs.dylibs j).used = true →
    r.openLoad i = r.openLoad j → i = j
  loads : ∀ i, (r.libs.dylibs i).used = true → r.openLoad i < r.loads

theorem inv_init : Inv storageAddr init where
  module _ hi := by cases hi
  handle _ _ hi := by cases hi
  load _ _ hi := by cases hi
  loads _ hi := by cases hi

theorem inv_bound {r : LibraryRun} (h : Inv storageAddr r) : Bound storageAddr r := by
  rintro i hi m ⟨j, hj, hslot, -⟩
  obtain ⟨hused, hhandle⟩ := Libraries.dylibFindHandle_some hj
  obtain rfl := h.handle j i hused hi hhandle
  obtain ⟨m', hmid, -, -, hown⟩ := h.module j hi
  rw [hmid, ModSlots.slotOf_ofNat, Option.some.injEq] at hslot
  exact hslot ▸ hown

/-! ## One operation -/

section
variable {r : LibraryRun} {op : LibOp} {l' : Libraries} {m : Fin modMaxModules}
  {i : Fin dylibMaxLibs}

theorem filled_none {n : ℕ} {before now : Fin n → Bool}
    (h : ∀ i, now i = true → before i = true) : filled before now = none := by
  refine first_none.mpr fun i => ?_
  cases hnow : now i with
  | false => rfl
  | true => rw [h i hnow]; rfl

theorem filled_some {n : ℕ} {before now : Fin n → Bool} {i : Fin n} (hbefore : before i = false)
    (hnow : now i = true) (hother : ∀ j, j ≠ i → now j = before j) :
    filled before now = some i := by
  refine first_eq_some.mpr ⟨by rw [hbefore, hnow]; rfl, fun j hj => ?_⟩
  by_cases heq : j = i
  · exact heq ▸ le_refl i
  · rw [hother j heq, Bool.and_not_self] at hj
    cases hj

/-- Without a new module the numbers stay as they are. -/
theorem step_of_none (happly : r.libs.apply storageAddr op = l')
    (h : ∀ m, (l'.slots m).inUse = true → (r.libs.slots m).inUse = true) :
    r.step storageAddr op = { r with libs := l' } := by
  have hfilled : filledSlot r.libs l' = none := filled_none h
  unfold step
  rw [happly]
  dsimp only
  rw [hfilled]

theorem step_of_some {lib : Option (Fin dylibMaxLibs)} (happly : r.libs.apply storageAddr op = l')
    (hslot : filledSlot r.libs l' = some m) (hlib : filledLib r.libs l' = lib) :
    r.step storageAddr op =
      { libs := l'
        loads := r.loads + 1
        loadOf := Function.update r.loadOf m r.loads
        byOpen := Function.update r.byOpen m lib.isSome
        openLoad := fun i => if lib = some i then r.loads else r.openLoad i
        openFile := fun i => if lib = some i then fileOf op else r.openFile i } := by
  subst hlib
  unfold step
  rw [happly]
  dsimp only
  rw [hslot]

theorem inv_of_unchanged (h : Inv storageAddr r) (hl : r.libs.Unchanged l') :
    Inv storageAddr { r with libs := l' } := by
  obtain ⟨hslots, hdylibs, hstorage⟩ := hl
  constructor
  · intro i hi
    dsimp only at hi ⊢
    rw [hdylibs] at hi ⊢
    obtain ⟨m, hmid, huse, hopen, hload, haddr, hcode⟩ := h.module i hi
    refine ⟨m, hmid, hslots ▸ huse, hopen, hload, ?_, ?_⟩
    · dsimp only
      rw [hslots, haddr]
    · dsimp only
      rw [hstorage i hi]
      exact hcode
  · dsimp only
    rw [hdylibs]
    exact h.handle
  · dsimp only
    rw [hdylibs]
    exact h.load
  · dsimp only
    rw [hdylibs]
    exact h.loads

/-- A module slot that no library has is cleared or filled. -/
theorem inv_of_slot {r' : LibraryRun} {s : ModSlot} (h : Inv storageAddr r)
    (hslots : r'.libs.slots = Function.update r.libs.slots m s)
    (hdylibs : r'.libs.dylibs = r.libs.dylibs) (hstorage : r'.libs.storage = r.libs.storage)
    (hloads : r.loads ≤ r'.loads) (hloadOf : ∀ m', m' ≠ m → r'.loadOf m' = r.loadOf m')
    (hbyOpen : ∀ m', m' ≠ m → r'.byOpen m' = r.byOpen m')
    (hopenLoad : r'.openLoad = r.openLoad) (hopenFile : r'.openFile = r.openFile)
    (hm : ∀ i, (r.libs.dylibs i).used = true → (r.libs.dylibs i).mid ≠ UInt32.ofNat m.val) :
    Inv storageAddr r' := by
  refine ⟨fun i hi => ?_, ?_, ?_, ?_⟩
  · rw [hdylibs] at hi
    obtain ⟨m', hmid, huse, hopen, hload, haddr, hcode⟩ := h.module i hi
    have hne : m' ≠ m := fun heq => hm i hi (heq ▸ hmid)
    refine ⟨m', hdylibs ▸ hmid, ?_, (hbyOpen m' hne).trans hopen, ?_, ?_, ?_⟩
    · rw [hslots, Function.update_of_ne hne, huse]
    · rw [hloadOf m' hne, hopenLoad, hload]
    · rw [hslots, Function.update_of_ne hne, haddr]
    · rw [hopenFile, hstorage]
      exact hcode
  · rw [hdylibs]
    exact h.handle
  · rw [hdylibs, hopenLoad]
    exact h.load
  · rw [hdylibs, hopenLoad]
    exact fun i hi => (h.loads i hi).trans_le hloads

/-- The module of a library in use is the one in the slot of its id. -/
theorem Inv.mid_ne (h : Inv storageAddr r) (hm : (r.libs.slots m).inUse = false)
    (hi : (r.libs.dylibs i).used = true) : (r.libs.dylibs i).mid ≠ UInt32.ofNat m.val := by
  obtain ⟨m', hmid, huse, -, -⟩ := h.module i hi
  rw [hmid]
  intro heq
  have hsame : m' = m := by
    have hslot := ModSlots.slotOf_ofNat m'
    rw [heq, ModSlots.slotOf_ofNat, Option.some.injEq] at hslot
    exact hslot.symm
  rw [hsame, hm] at huse
  cases huse

theorem inv_moduleLoad (h : Inv storageAddr r) (addr size : UInt32) (bytes : ℕ → UInt8) :
    Inv storageAddr (r.step storageAddr (.moduleLoad addr size bytes)) := by
  rcases ModSlots.moduleLoad_cases r.libs.slots addr size bytes with
    ⟨-, hslots, -⟩ | ⟨m, hm, -, hslots, -⟩
  · have happly : r.libs.apply storageAddr (.moduleLoad addr size bytes) = r.libs := by
      rw [Libraries.apply, hslots]
    rw [step_of_none happly fun _ hm => hm]
    exact h
  · have hfilled : filledSlot r.libs (r.libs.apply storageAddr (.moduleLoad addr size bytes)) =
        some m := by
      refine filled_some hm ?_ fun m' hne => ?_
      · simp only [Libraries.apply, hslots, Function.update_self, ModSlot.load]
      · simp only [Libraries.apply, hslots, Function.update_of_ne hne]
    have hlib : filledLib r.libs (r.libs.apply storageAddr (.moduleLoad addr size bytes)) = none :=
      filled_none fun _ hi => hi
    rw [step_of_some rfl hfilled hlib]
    refine inv_of_slot (m := m) h hslots rfl rfl (Nat.le_succ _) ?_ ?_ rfl rfl ?_
    · exact fun m' hne => Function.update_of_ne hne _ _
    · exact fun m' hne => Function.update_of_ne hne _ _
    · exact fun i hi => h.mid_ne hm hi

theorem inv_moduleUnload (h : Inv storageAddr r) {mid : UInt32} (hmid : ¬ r.OfLibrary mid) :
    Inv storageAddr (r.step storageAddr (.moduleUnload mid)) := by
  rcases ModSlots.moduleUnload_cases r.libs.slots mid with ⟨hslots, -⟩ | ⟨m, hm, huse, hslots⟩
  · have happly : r.libs.apply storageAddr (.moduleUnload mid) = r.libs := by
      rw [Libraries.apply, hslots]
    rw [step_of_none happly fun _ hm => hm]
    exact h
  · rw [step_of_none rfl]
    · refine inv_of_slot (m := m) h hslots rfl rfl le_rfl (fun _ _ => rfl) (fun _ _ => rfl) rfl rfl
        fun i hi heq => hmid ⟨m, hm, huse, ?_⟩
      obtain ⟨m', hmid', -, hopen, -⟩ := h.module i hi
      have hslot := ModSlots.slotOf_ofNat m'
      rw [← hmid', heq, ModSlots.slotOf_ofNat, Option.some.injEq] at hslot
      exact hslot ▸ hopen
    · intro m' hm'
      by_cases heq : m' = m
      · exact heq ▸ huse
      · simpa only [Libraries.apply, hslots, Function.update_of_ne heq] using hm'

theorem inv_dylibClose (h : Inv storageAddr r) (handle : UInt32) :
    Inv storageAddr (r.step storageAddr (.dylibClose handle)) := by
  rcases Libraries.dylibClose_cases r.libs handle with hsame | ⟨i, hi, hclose⟩
  · have happly : r.libs.apply storageAddr (.dylibClose handle) = r.libs := hsame
    rw [step_of_none happly fun _ hm => hm]
    exact h
  · obtain ⟨hused, -⟩ := Libraries.dylibFindHandle_some hi
    obtain ⟨m, hmid, huse, -, hload, -, -⟩ := h.module i hused
    have hslots : (r.libs.slots.moduleUnload (r.libs.dylibs i).mid).2 =
        Function.update r.libs.slots m ModSlot.zero := by
      rw [ModSlots.moduleUnload, hmid, ModSlots.slotOf_ofNat]
      dsimp only
      rw [if_pos huse]
    rw [hslots] at hclose
    have happly : r.libs.apply storageAddr (.dylibClose handle) = _ := hclose
    rw [step_of_none happly]
    · have hold : ∀ j, ((Function.update r.libs.dylibs i DylibSlot.zero) j).used = true →
          j ≠ i ∧ (r.libs.dylibs j).used = true := by
        intro j hj
        by_cases heq : j = i
        · subst heq
          rw [Function.update_self] at hj
          cases hj
        · rw [Function.update_of_ne heq] at hj
          exact ⟨heq, hj⟩
      constructor
      · intro j hj
        obtain ⟨hne, hj'⟩ := hold j hj
        obtain ⟨m', hmid', huse', hopen', hload', haddr', hcode'⟩ := h.module j hj'
        have hslot : m' ≠ m := fun heq =>
          hne (h.load j i hj' hused (hload'.symm.trans (heq ▸ hload)))
        dsimp only
        rw [Function.update_of_ne hne]
        refine ⟨m', hmid', ?_, hopen', hload', ?_, ?_⟩
        · rw [Function.update_of_ne hslot, huse']
        · dsimp only
          rw [Function.update_of_ne hslot, haddr']
        · dsimp only
          rw [Function.update_of_ne hne]
          exact hcode'
      · intro j k hj hk heq
        obtain ⟨hnej, hj⟩ := hold j hj
        obtain ⟨hnek, hk⟩ := hold k hk
        dsimp only at heq
        rw [Function.update_of_ne hnej, Function.update_of_ne hnek] at heq
        exact h.handle j k hj hk heq
      · exact fun j k hj hk => h.load j k (hold j hj).2 (hold k hk).2
      · exact fun j hj => h.loads j (hold j hj).2
    · intro m' hm'
      by_cases heq : m' = m
      · exact heq ▸ huse
      · dsimp only at hm'
        rwa [Function.update_of_ne heq] at hm'

/-- What a successful open leaves. -/
theorem step_opened {path name : List UInt8} {file : LibFile}
    (happly : r.libs.apply storageAddr (.dylibOpen path name file) = l')
    (ho : r.libs.Opened storageAddr file.val i m l') :
    r.step storageAddr (.dylibOpen path name file) =
      { libs := l'
        loads := r.loads + 1
        loadOf := Function.update r.loadOf m r.loads
        byOpen := Function.update r.byOpen m true
        openLoad := fun j => if some i = some j then r.loads else r.openLoad j
        openFile := fun j => if some i = some j then file.val else r.openFile j } := by
  obtain ⟨hdr, hslots⟩ := ho.slots
  obtain ⟨d, hdylibs, hused, -, -⟩ := ho.dylibs
  have hslot : filledSlot r.libs l' = some m := by
    refine filled_some ho.freeSlot ?_ fun m' hne => ?_
    · rw [hslots, Function.update_self]
      rfl
    · rw [hslots, Function.update_of_ne hne]
  have hlib : filledLib r.libs l' = some i := by
    refine filled_some ho.free ?_ fun j hne => ?_
    · rw [hdylibs, Function.update_self, hused]
    · rw [hdylibs, Function.update_of_ne hne]
  exact step_of_some happly hslot hlib

/-- The new library has its own module, and the others keep theirs. -/
theorem own_opened (r' : LibraryRun) {file : List UInt8}
    (ho : r.libs.Opened storageAddr file i m r'.libs)
    (hloadOf : r'.loadOf = Function.update r.loadOf m r.loads)
    (hopenLoad : ∀ j, r'.openLoad j = if some i = some j then r.loads else r.openLoad j)
    (hopenFile : ∀ j, r'.openFile j = if some i = some j then file else r.openFile j) :
    r'.Own storageAddr i m ∧ ∀ j m', j ≠ i → m' ≠ m → r.Own storageAddr j m' →
      r'.Own storageAddr j m' := by
  obtain ⟨hdr, hslots⟩ := ho.slots
  constructor
  · refine ⟨?_, ?_, ?_⟩
    · rw [hloadOf, Function.update_self, hopenLoad, if_pos rfl]
    · rw [hslots, Function.update_self]
      rfl
    · rw [hopenFile, if_pos rfl]
      exact ho.file
  · rintro j m' hj hm ⟨hload, haddr, hcode⟩
    have hne : some i ≠ some j := fun heq => hj (Option.some.inj heq).symm
    refine ⟨?_, ?_, ?_⟩
    · rw [hloadOf, Function.update_of_ne hm, hopenLoad, if_neg hne, hload]
    · rw [hslots, Function.update_of_ne hm, haddr]
    · rw [hopenFile, if_neg hne, ho.storage j hj]
      exact hcode

theorem inv_dylibOpen (h : Inv storageAddr r) {path name : List UInt8} {file : LibFile}
    (hfresh : r.libs.CanOpen storageAddr path file.val →
      ∀ i, (r.libs.dylibs i).used = true → (r.libs.dylibs i).handle ≠ r.libs.nextHandle) :
    Inv storageAddr (r.step storageAddr (.dylibOpen path name file)) := by
  obtain ⟨l', happly⟩ : ∃ l', r.libs.apply storageAddr (.dylibOpen path name file) = l' := ⟨_, rfl⟩
  rcases Libraries.dylibOpen_cases storageAddr r.libs path name file.val with
    ⟨-, hl⟩ | ⟨hcan, i, m, ho⟩
  · have hl' : r.libs.Unchanged l' := happly ▸ hl
    rw [step_of_none happly fun m' hm' => hl'.slots ▸ hm']
    exact inv_of_unchanged h hl'
  have ho' : r.libs.Opened storageAddr file.val i m l' := happly ▸ ho
  obtain ⟨d, hdylibs, -, hhandle, hmid⟩ := ho'.dylibs
  obtain ⟨hdr, hslots⟩ := ho'.slots
  rw [step_opened happly ho']
  obtain ⟨hnew, hkept⟩ := own_opened (r := r)
    { libs := l'
      loads := r.loads + 1
      loadOf := Function.update r.loadOf m r.loads
      byOpen := Function.update r.byOpen m true
      openLoad := fun j => if some i = some j then r.loads else r.openLoad j
      openFile := fun j => if some i = some j then file.val else r.openFile j }
    ho' rfl (fun _ => rfl) fun _ => rfl
  have hself : l'.dylibs i = d := by rw [hdylibs, Function.update_self]
  have hother : ∀ j, j ≠ i → l'.dylibs j = r.libs.dylibs j := fun j hne => by
    rw [hdylibs, Function.update_of_ne hne]
  have hload : ∀ j, j ≠ i → (if some i = some j then r.loads else r.openLoad j) =
      r.openLoad j := fun j hne => if_neg fun heq => hne (Option.some.inj heq).symm
  have hold : ∀ j, j ≠ i → (l'.dylibs j).used = true → (r.libs.dylibs j).used = true :=
    fun j hne hj => hother j hne ▸ hj
  constructor
  · intro j hj
    dsimp only at hj ⊢
    by_cases heq : j = i
    · rw [heq, hself]
      refine ⟨m, hmid, ?_, Function.update_self _ _ _, hnew⟩
      rw [hslots, Function.update_self]
      rfl
    · obtain ⟨m', hmid', huse', hopen', hown'⟩ := h.module j (hold j heq hj)
      have hne : m' ≠ m := fun hm => by
        rw [hm, ho'.freeSlot] at huse'
        cases huse'
      rw [hother j heq]
      refine ⟨m', hmid', ?_, ?_, hkept j m' heq hne hown'⟩
      · rw [hslots, Function.update_of_ne hne, huse']
      · rw [Function.update_of_ne hne, hopen']
  · intro j k hj hk heq
    dsimp only at hj hk heq
    by_cases hji : j = i <;> by_cases hki : k = i
    · rw [hji, hki]
    · rw [hji, hself, hother k hki, hhandle] at heq
      exact absurd heq.symm (hfresh hcan k (hold k hki hk))
    · rw [hki, hself, hother j hji, hhandle] at heq
      exact absurd heq (hfresh hcan j (hold j hji hj))
    · rw [hother j hji, hother k hki] at heq
      exact h.handle j k (hold j hji hj) (hold k hki hk) heq
  · intro j k hj hk heq
    dsimp only at hj hk heq
    by_cases hji : j = i <;> by_cases hki : k = i
    · rw [hji, hki]
    · rw [hji, if_pos rfl, hload k hki] at heq
      exact absurd heq.symm (h.loads k (hold k hki hk)).ne
    · rw [hki, if_pos rfl, hload j hji] at heq
      exact absurd heq (h.loads j (hold j hji hj)).ne
    · rw [hload j hji, hload k hki] at heq
      exact h.load j k (hold j hji hj) (hold k hki hk) heq
  · intro j hj
    dsimp only at hj ⊢
    by_cases hji : j = i
    · rw [hji, if_pos rfl]
      exact Nat.lt_succ_self _
    · rw [hload j hji]
      exact (h.loads j (hold j hji hj)).trans (Nat.lt_succ_self _)

/-- Two libraries with one handle : the handle leads one of them astray. -/
theorem not_bound_of_same_handle (h : Inv storageAddr r) {path name : List UInt8}
    {file : LibFile} (hcan : r.libs.CanOpen storageAddr path file.val)
    (hi : (r.libs.dylibs i).used = true) (hsame : (r.libs.dylibs i).handle = r.libs.nextHandle) :
    ¬ Bound storageAddr (r.step storageAddr (.dylibOpen path name file)) := by
  obtain ⟨l', happly⟩ : ∃ l', r.libs.apply storageAddr (.dylibOpen path name file) = l' := ⟨_, rfl⟩
  rcases Libraries.dylibOpen_cases storageAddr r.libs path name file.val with
    ⟨hcannot, -⟩ | ⟨-, n, m, ho⟩
  · exact absurd hcan hcannot
  have ho' : r.libs.Opened storageAddr file.val n m l' := happly ▸ ho
  obtain ⟨d, hdylibs, hused, hhandle, hmid⟩ := ho'.dylibs
  obtain ⟨hdr, hslots⟩ := ho'.slots
  rw [step_opened happly ho']
  intro hbound
  have hself : l'.dylibs n = d := by rw [hdylibs, Function.update_self]
  have hother : ∀ j, j ≠ n → l'.dylibs j = r.libs.dylibs j := fun j hne => by
    rw [hdylibs, Function.update_of_ne hne]
  have hne : i ≠ n := fun heq => by
    rw [heq, ho'.free] at hi
    cases hi
  have hload : ∀ j, j ≠ n → (if some n = some j then r.loads else r.openLoad j) =
      r.openLoad j := fun j hne => if_neg fun heq => hne (Option.some.inj heq).symm
  have hold : (l'.dylibs i).used = true := by rw [hother i hne, hi]
  have hnew : (l'.dylibs n).used = true := by rw [hself, hused]
  obtain ⟨j, hj⟩ := Libraries.dylibFindHandle_isSome hnew
  rw [hself, hhandle] at hj
  obtain ⟨hjused, -⟩ := Libraries.dylibFindHandle_some hj
  by_cases heq : j = n
  · -- the handle leads to the new module, also from the old library
    have hleads : Leads l' (l'.dylibs i).handle m := by
      refine ⟨j, ?_, ?_, ?_⟩
      · rw [hother i hne, hsame, hj]
      · rw [heq, hself, hmid, ModSlots.slotOf_ofNat]
      · rw [hslots, Function.update_self]
        rfl
    have hwrong := (hbound i hold m hleads).load
    dsimp only at hwrong
    rw [Function.update_self, hload i hne] at hwrong
    exact absurd hwrong.symm (h.loads i hi).ne
  · -- the handle leads to an old module, also from the new library
    rw [hother j heq] at hjused
    obtain ⟨m', hmid', huse', -, hown'⟩ := h.module j hjused
    have hslot : m' ≠ m := fun hm => by
      rw [hm, ho'.freeSlot] at huse'
      cases huse'
    have hleads : Leads l' (l'.dylibs n).handle m' := by
      refine ⟨j, ?_, ?_, ?_⟩
      · rw [hself, hhandle, hj]
      · rw [hother j heq, hmid', ModSlots.slotOf_ofNat]
      · rw [hslots, Function.update_of_ne hslot, huse']
    have hwrong := (hbound n hnew m' hleads).load
    dsimp only at hwrong
    rw [Function.update_of_ne hslot, if_pos rfl, hown'.load] at hwrong
    exact absurd hwrong (h.loads j hjused).ne

/-- An operation that meets the condition keeps the invariant. -/
theorem inv_step (h : Inv storageAddr r) (hop : r.Distinct storageAddr op) :
    Inv storageAddr (r.step storageAddr op) := by
  cases op with
  | dylibOpen path name file => exact inv_dylibOpen h hop
  | dylibClose handle => exact inv_dylibClose h handle
  | dylibCall handle symbol arg =>
    rw [step_of_none rfl fun _ hm => hm]
    exact h
  | moduleLoad addr size bytes => exact inv_moduleLoad h addr size bytes
  | moduleUnload mid => exact inv_moduleUnload h hop

theorem respects_iff_distinct (h : Inv storageAddr r) (op : LibOp) :
    r.Respects storageAddr op ↔ r.Distinct storageAddr op := by
  constructor
  · rintro ⟨hbound, hunload⟩
    cases op with
    | dylibOpen path name file =>
      exact fun hcan i hi hsame => not_bound_of_same_handle h hcan hi hsame hbound
    | moduleUnload mid => exact hunload mid rfl
    | dylibClose _ => trivial
    | dylibCall _ _ _ => trivial
    | moduleLoad _ _ _ => trivial
  · intro hop
    refine ⟨inv_bound (inv_step h hop), ?_⟩
    rintro mid rfl
    exact hop

end

/-- In a run handles stay bound to their libraries, and modules of libraries are unloaded by
their handles only, exactly if no open gives out a handle in use and no unload takes the module
of a library. -/
theorem library_handles (storageAddr : Fin dylibMaxLibs → UInt32) (ops : List LibOp) :
    Along (fun r op => some (step storageAddr r op)) (Respects storageAddr) init ops ↔
      Along (fun r op => some (step storageAddr r op)) (Distinct storageAddr) init ops := by
  refine Along.iff_of_inv (I := Inv storageAddr) (fun r op h => respects_iff_distinct h op) ?_ ops
    init inv_init
  rintro r op _ h hop ⟨⟩
  exact inv_step h ((respects_iff_distinct h op).mp hop)

/-! ## What handles reach -/

section
variable {r : LibraryRun} {i : Fin dylibMaxLibs}

/-- A call on a bound handle enters the module of its library, at an offset into its code. -/
theorem Bound.call (h : Bound storageAddr r) (hi : (r.libs.dylibs i).used = true)
    {symbol : List UInt8} {arg : UInt32} {c : ModCall}
    (hc : r.libs.dylibCall (r.libs.dylibs i).handle symbol arg = .ok c) :
    r.Own storageAddr i c.mid ∧ c.fnAddr = storageAddr i + UInt32.ofNat sizeofModHeader +
      (r.libs.slots c.mid).fnOffsets c.fnId := by
  unfold Libraries.dylibCall at hc
  cases hj : r.libs.dylibFindHandle (r.libs.dylibs i).handle with
  | none =>
    rw [hj] at hc
    cases hc
  | some j =>
    rw [hj] at hc
    dsimp only at hc
    split at hc
    · cases hc
    · next fnId hresolve =>
      unfold ModSlots.moduleCall at hc
      split at hc
      · cases hc
      · next m hm =>
        dsimp only at hc
        split_ifs at hc with huse hid
        cases hc
        have hown := h i hi m ⟨j, hj, hm, huse⟩
        exact ⟨hown, by rw [hown.addr]⟩

/-- Closing a bound handle unloads the module of its library, or none. -/
theorem Bound.close (h : Bound storageAddr r) (hi : (r.libs.dylibs i).used = true) :
    (r.libs.dylibClose (r.libs.dylibs i).handle).2.slots = r.libs.slots ∨
      ∃ m, r.Own storageAddr i m ∧ (r.libs.dylibClose (r.libs.dylibs i).handle).2.slots =
        Function.update r.libs.slots m ModSlot.zero := by
  rcases Libraries.dylibClose_cases r.libs (r.libs.dylibs i).handle with hsame | ⟨j, hj, hclose⟩
  · exact Or.inl (by rw [hsame])
  · rw [hclose]
    rcases ModSlots.moduleUnload_cases r.libs.slots (r.libs.dylibs j).mid with
      ⟨hslots, -⟩ | ⟨m, hm, huse, hslots⟩
    · exact Or.inl hslots
    · exact Or.inr ⟨m, h i hi m ⟨j, hj, hm, huse⟩, hslots⟩

end

/-! ## A recycled slot -/

/-- A module with this name and one function. -/
def smallModule (name : UInt8) : List UInt8 :=
  [0x4D, 0x4F, 0x44, 0x4C, 1, 0, 0, 0, 1, 0, 0, 0, 0, 0, 0, 0, name] ++ List.replicate 55 0

theorem smallModule_fits (name : UInt8) : (smallModule name).length ≤ dylibMaxFileSize := by
  simp [smallModule, dylibMaxFileSize]

/-- A library is opened, its module is unloaded by id, and another module is loaded. -/
def recycleOps : List LibOp :=
  [.dylibOpen [47, 97] [] ⟨smallModule 97, smallModule_fits 97⟩, .moduleUnload 0,
    .moduleLoad 0x5000 72 (byteAt (smallModule 98))]

/-- The handle of the library now leads to the other module. -/
theorem not_library_handles : ¬ ∀ storageAddr ops,
    Along (fun r op => some (step storageAddr r op)) (Respects storageAddr) init ops := by
  intro hall
  have hrun := hall (fun _ => 0x1000) recycleOps
  have hbound := (((hrun.2 _ rfl).2 _ rfl).1).1
  have hload := (hbound 0 (by decide +kernel) 0
    ⟨0, by decide +kernel, by decide +kernel, by decide +kernel⟩).load
  revert hload
  decide +kernel

end LibraryRun

end VernisOS
