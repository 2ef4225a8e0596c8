import VernisOS.Lib.Bytes
import VernisOS.Lib.Slots

/-!
# Modules and libraries

The module loader `module.c` and the library handles `dylib.c` over it. A module that is in
memory is given by the bytes from its header on ; `storageAddr` is where the storage of each
library lies. A call is the function that it enters, since modules are code of their own.
-/

open Bytes Slots

namespace VernisOS

/-! ## The module loader -/

abbrev modMaxModules : ℕ := 8

abbrev modMaxExports : ℕ := 8

def modNameLen : ℕ := 24

/-- `MOD_MAGIC`, "MODL". -/
def modMagic : UInt32 := 0x4C444F4D

def modVersion : UInt32 := 1

def modErrInval : ℤ := -1

def modErrNoslot : ℤ := -2

def modErrMagic : ℤ := -3

def modErrRange : ℤ := -4

def modErrNotfound : ℤ := -5

structure ModHeader where
  magic : UInt32
  version : UInt32
  fnCount : UInt32
  codeSize : UInt32
  name : List UInt8
  fnOffsets : Fin modMaxExports → UInt32

/-- `sizeof(ModHeader)`. -/
def sizeofModHeader : ℕ := 72

/-- The header at the start of a binary. The name ends at its NUL, and is cut to 23 bytes. -/
def ModHeader.read (bytes : ℕ → UInt8) : ModHeader where
  magic := leAt32 bytes 0
  version := leAt32 bytes 4
  fnCount := leAt32 bytes 8
  codeSize := leAt32 bytes 12
  name := ((List.range (modNameLen - 1)).map fun k => bytes (16 + k)).takeWhile (· ≠ 0)
  fnOffsets i := leAt32 bytes (40 + 4 * i.val)

structure ModSlot where
  inUse : Bool
  mid : UInt32
  name : List UInt8
  baseAddr : UInt32
  codeSize : UInt32
  fnCount : UInt32
  fnOffsets : Fin modMaxExports → UInt32

def ModSlot.zero : ModSlot :=
  ⟨false, 0, [], 0, 0, 0, fun _ => 0⟩

/-- What `module_load` puts into a slot. -/
def ModSlot.load (idx : Fin modMaxModules) (addr : UInt32) (hdr : ModHeader) : ModSlot where
  inUse := true
  mid := UInt32.ofNat idx.val
  name := hdr.name
  baseAddr := addr
  codeSize := hdr.codeSize
  fnCount := hdr.fnCount
  fnOffsets i := if i.val < hdr.fnCount.toNat then hdr.fnOffsets i else 0

/-- The checks of `module_load`, with the error of the first that fails. -/
def checkModule (addr size : UInt32) (hdr : ModHeader) : Option ℤ :=
  if addr = 0 ∨ size.toNat < sizeofModHeader then some modErrInval
  else if hdr.magic ≠ modMagic then some modErrMagic
  else if hdr.version ≠ modVersion then some modErrMagic
  else if hdr.fnCount.toNat > modMaxExports then some modErrInval
  else if size.toNat < sizeofModHeader + hdr.codeSize.toNat then some modErrInval
  else none

abbrev ModSlots := Fin modMaxModules → ModSlot

/-- The function that a call enters, and its argument. -/
structure ModCall where
  mid : Fin modMaxModules
  fnId : Fin modMaxExports
  fnAddr : UInt32
  arg : UInt32

structure ModInfo where
  mid : UInt32
  name : List UInt8
  baseAddr : UInt32
  codeSize : UInt32
  fnCount : UInt32

namespace ModSlots

/-- The slot of a module id. -/
def slotOf (mid : UInt32) : Option (Fin modMaxModules) :=
  if h : mid.toNat < modMaxModules then some ⟨mid.toNat, h⟩ else none

/-- `module_load` of the binary `bytes` at `addr`. -/
def moduleLoad (slots : ModSlots) (addr size : UInt32) (bytes : ℕ → UInt8) : ℤ × ModSlots :=
  match checkModule addr size (ModHeader.read bytes) with
  | some err => (err, slots)
  | none =>
    match first fun i => !(slots i).inUse with
    | none => (modErrNoslot, slots)
    | some idx =>
      (idx.val, Function.update slots idx (ModSlot.load idx addr (ModHeader.read bytes)))

/-- `module_unload`. -/
def moduleUnload (slots : ModSlots) (mid : UInt32) : ℤ × ModSlots :=
  match slotOf mid with
  | none => (modErrInval, slots)
  | some idx =>
    if (slots idx).inUse then (0, Function.update slots idx ModSlot.zero)
    else (modErrNotfound, slots)

/-- `module_call` : an error, or the function that is entered. -/
def moduleCall (slots : ModSlots) (mid fnId arg : UInt32) : Except ℤ ModCall :=
  match slotOf mid with
  | none => .error modErrInval
  | some idx =>
    let slot := slots idx
    if slot.inUse then
      if h : fnId < slot.fnCount ∧ fnId.toNat < modMaxExports then
        let codeBase := slot.baseAddr + UInt32.ofNat sizeofModHeader
        .ok ⟨idx, ⟨fnId.toNat, h.2⟩, codeBase + slot.fnOffsets ⟨fnId.toNat, h.2⟩, arg⟩
      else .error modErrRange
    else .error modErrNotfound

/-- `module_info`. -/
def moduleInfo (slots : ModSlots) (mid : UInt32) : Except ℤ ModInfo :=
  match slotOf mid with
  | none => .error modErrInval
  | some idx =>
    let slot := slots idx
    if slot.inUse then .ok ⟨slot.mid, slot.name, slot.baseAddr, slot.codeSize, slot.fnCount⟩
    else .error modErrNotfound

end ModSlots

/-! ## Library handles -/

abbrev dylibMaxLibs : ℕ := 4

def dylibNameMax : ℕ := 24

def dylibPathMax : ℕ := 48

def dylibMaxFileSize : ℕ := 8192

def dylibErrInval : ℤ := -1

def dylibErrNoslot : ℤ := -2

def dylibErrNotfound : ℤ := -3

def dylibErrIo : ℤ := -4

def dylibErrFormat : ℤ := -5

structure DylibSlot where
  used : Bool
  handle : UInt32
  mid : UInt32
  size : UInt32
  name : List UInt8
  path : List UInt8

def DylibSlot.zero : DylibSlot :=
  ⟨false, 0, 0, 0, [], []⟩

/-- `d_strncpy` : the text that it leaves. -/
def dStrncpy (src : List UInt8) (max : ℕ) : List UInt8 :=
  src.take (max - 1)

/-- The digits of `fn<id>`, as the loop adds them up. -/
def fnidDigits (id : Int32) (digits : List UInt8) : Int32 :=
  digits.foldl (fun id c => id * 10 + (Int32.ofNat c.toNat - 48)) id

/-- `dylib_symbol_to_fnid`. -/
def dylibSymbolToFnid (symbol : List UInt8) : Option (Fin modMaxExports) :=
  match symbol with
  | 102 :: 110 :: digits =>
    if digits.isEmpty then none
    else if (digits.takeWhile fun c => 48 ≤ c && c ≤ 57) ≠ digits then none
    else
      let id := (fnidDigits 0 digits).toInt
      if h : 0 ≤ id ∧ id < modMaxExports then
        some ⟨id.toNat, (Int.toNat_lt h.1).mpr h.2⟩
      else none
  | _ => none

/-- The module slots, the table of libraries, the next handle and the storage of the
libraries. -/
structure Libraries where
  slots : ModSlots
  dylibs : Fin dylibMaxLibs → DylibSlot
  nextHandle : UInt32
  storage : Fin dylibMaxLibs → ℕ → UInt8

/-- What `kfs_read_file` reads into a storage. -/
abbrev LibFile := { file : List UInt8 // file.length ≤ dylibMaxFileSize }

namespace Libraries

/-- `module_init` and `dylib_init`. -/
def init : Libraries where
  slots _ := ModSlot.zero
  dylibs _ := DylibSlot.zero
  nextHandle := 1
  storage _ _ := 0

/-- `dylib_find_handle`. -/
def dylibFindHandle (l : Libraries) (handle : UInt32) : Option (Fin dylibMaxLibs) :=
  first fun i => (l.dylibs i).used && (l.dylibs i).handle == handle

/-- A file read into the storage of a library. -/
def readInto (l : Libraries) (i : Fin dylibMaxLibs) (file : List UInt8) : Libraries :=
  { l with storage := Function.update l.storage i fun k =>
      if k < file.length then byteAt file k else l.storage i k }

/-- The name of a library : the given one, or that of its module. -/
def libName (slots : ModSlots) (mid : UInt32) (name : List UInt8) : List UInt8 :=
  if name ≠ [] then dStrncpy name dylibNameMax
  else
    match slots.moduleInfo mid with
    | .ok info => dStrncpy info.name dylibNameMax
    | .error _ => utf8 "lib"

/-- `dylib_open` of a file from which `kfs_read_file` reads `file`, nothing if it fails. -/
def dylibOpen (storageAddr : Fin dylibMaxLibs → UInt32) (l : Libraries) (path name : List UInt8)
    (file : List UInt8) : ℤ × Libraries :=
  if path = [] then (dylibErrInval, l)
  else
    match first fun i => !(l.dylibs i).used with
    | none => (dylibErrNoslot, l)
    | some i =>
      let l := l.readInto i file
      if file = [] then (dylibErrIo, l)
      else if file.length < sizeofModHeader then (dylibErrFormat, l)
      else
        let loaded := l.slots.moduleLoad (storageAddr i) (UInt32.ofNat file.length) (l.storage i)
        if loaded.1 < 0 then (loaded.1, { l with slots := loaded.2 })
        else
          let mid := UInt32.ofNat loaded.1.toNat
          (l.nextHandle.toInt32.toInt,
            { l with
              slots := loaded.2
              dylibs := Function.update l.dylibs i
                { used := true
                  handle := l.nextHandle
                  mid := mid
                  size := UInt32.ofNat file.length
                  name := libName loaded.2 mid name
                  path := dStrncpy path dylibPathMax }
              nextHandle := l.nextHandle + 1 })

/-- `dylib_close`. -/
def dylibClose (l : Libraries) (handle : UInt32) : ℤ × Libraries :=
  match l.dylibFindHandle handle with
  | none => (dylibErrNotfound, l)
  | some i =>
    (0, { l with
      slots := (l.slots.moduleUnload (l.dylibs i).mid).2
      dylibs := Function.update l.dylibs i DylibSlot.zero
      storage := Function.update l.storage i fun _ => 0 })

/-- `dylib_resolve`. -/
def dylibResolve (l : Libraries) (handle : UInt32) (symbol : List UInt8) :
    Except ℤ (Fin modMaxExports) :=
  match l.dylibFindHandle handle with
  | none => .error dylibErrNotfound
  | some i =>
    match l.slots.moduleInfo (l.dylibs i).mid with
    | .error _ => .error dylibErrNotfound
    | .ok info =>
      match dylibSymbolToFnid symbol with
      | none => .error dylibErrNotfound
      | some fnId => if fnId.val ≥ info.fnCount.toNat then .error dylibErrNotfound else .ok fnId

/-- `dylib_call`. -/
def dylibCall (l : Libraries) (handle : UInt32) (symbol : List UInt8) (arg : UInt32) :
    Except ℤ ModCall :=
  match l.dylibFindHandle handle with
  | none => .error dylibErrNotfound
  | some i =>
    match l.dylibResolve handle symbol with
    | .error e => .error e
    | .ok fnId => l.slots.moduleCall (l.dylibs i).mid (UInt32.ofNat fnId.val) arg

end Libraries

end VernisOS
