import VernisOS.Disk
import VernisOS.Lib.Slots

/-!
# The block cache

`kernel/fs/bcache.c` : 64 slots of one sector between VernisFS and the disk, with LRU
replacement and write-back. `bcacheRead` and `bcacheWrite` have the signature of the
disk functions they replace; the disk they capture in `bcacheInit` is the field `real`.
The loops over the sectors of a request are split into one iteration
(`bcacheReadSector`, `bcacheWriteSector`) and the recursion over the count.
-/

open Slots

namespace VernisOS

/-- `BCACHE_NUM_BLOCKS`. -/
abbrev bcacheNumBlocks : ℕ := 64

/-- A cache block. `valid` and `dirty` are the two bits of `flags`. -/
structure BcacheBlock where
  lba : UInt32
  valid : Bool
  dirty : Bool
  accessTick : UInt32
  data : Sector

/-- Cache statistics. -/
structure BcacheStats where
  hits : UInt32
  misses : UInt32
  writebacks : UInt32
  evictions : UInt32

/-- The state of `bcache.c`, with the captured disk. -/
structure Bcache where
  cache : Fin bcacheNumBlocks → BcacheBlock
  stats : BcacheStats
  tick : UInt32
  flushInterval : UInt32
  flushCounter : UInt32
  real : Backend
  ready : Bool

namespace Bcache

/-- Replace one block. -/
def setBlock (c : Bcache) (i : Fin bcacheNumBlocks) (b : BcacheBlock) : Bcache :=
  { c with cache := Function.update c.cache i b }

/-- Count one more access (`++g_tick`). -/
def bumpTick (c : Bcache) : Bcache :=
  { c with tick := c.tick + 1 }

/-- Count a hit. -/
def countHit (c : Bcache) : Bcache :=
  { c with stats := { c.stats with hits := c.stats.hits + 1 } }

/-- Count a miss. -/
def countMiss (c : Bcache) : Bcache :=
  { c with stats := { c.stats with misses := c.stats.misses + 1 } }

/-- Count a write-back. -/
def countWriteback (c : Bcache) : Bcache :=
  { c with stats := { c.stats with writebacks := c.stats.writebacks + 1 } }

/-- Count an eviction. -/
def countEviction (c : Bcache) : Bcache :=
  { c with stats := { c.stats with evictions := c.stats.evictions + 1 } }

/-- The cache with the disk as a call left it. -/
def setReal (c : Bcache) (real : Backend) : Bcache :=
  { c with real := real }

/-- The slot that holds `lba`. -/
def bcacheFind (c : Bcache) (lba : UInt32) : Option (Fin bcacheNumBlocks) :=
  first fun i => (c.cache i).valid && (c.cache i).lba == lba

/-- The scan of `bcache_lru` over the slots left, with the best one so far. -/
def bcacheLruFrom (c : Bcache) :
    List (Fin bcacheNumBlocks) → Fin bcacheNumBlocks → UInt32 → Fin bcacheNumBlocks
  | [], best, _ => best
  | i :: is, best, bestTick =>
    if !(c.cache i).valid then i
    else if (c.cache i).accessTick < bestTick then
      bcacheLruFrom c is i (c.cache i).accessTick
    else bcacheLruFrom c is best bestTick

/-- The slot to replace : the first invalid one, else the least recently used. -/
def bcacheLru (c : Bcache) : Fin bcacheNumBlocks :=
  bcacheLruFrom c (slots bcacheNumBlocks) 0 0xFFFFFFFF

/-- Write back one dirty block : 0 on success, -1 if the disk refused it. -/
def bcacheWriteback (c : Bcache) (i : Fin bcacheNumBlocks) : Int × Bcache :=
  if !(c.cache i).dirty then (0, c)
  else
    let (rc, real) := c.real.write (c.cache i).lba 1 fun _ => (c.cache i).data
    let c := c.setReal real
    if rc < 0 then (-1, c)
    else (0, (c.setBlock i { c.cache i with dirty := false }).countWriteback)

/-- The eviction both miss paths make : the result of the write-back is not looked at. -/
def evict (c : Bcache) (i : Fin bcacheNumBlocks) : Bcache :=
  if (c.cache i).dirty then (c.bcacheWriteback i).2.countEviction
  else if (c.cache i).valid then c.countEviction
  else c

/-- Read a sector from the disk into the block of slot `i`, which a failed read leaves
filled with whatever the disk put there. -/
def fillBlock (c : Bcache) (i : Fin bcacheNumBlocks) (sector : UInt32) : Int × Bcache :=
  let (rc, buf, real) := c.real.read sector 1 fun _ => (c.cache i).data
  (rc, (c.setReal real).setBlock i { c.cache i with data := buf 0 })

/-- One iteration of `bcache_read` : the sector's bytes, `none` if the disk read fails. -/
def bcacheReadSector (c : Bcache) (sector : UInt32) : Option Sector × Bcache :=
  match c.bcacheFind sector with
  | some i =>
    let c := c.countHit.bumpTick
    (some (c.cache i).data, c.setBlock i { c.cache i with accessTick := c.tick })
  | none =>
    let c := c.countMiss
    let slot := c.bcacheLru
    let (rc, c) := (c.evict slot).fillBlock slot sector
    if rc < 0 then (none, c)
    else
      let c := c.bumpTick
      (some (c.cache slot).data,
        c.setBlock slot ⟨sector, true, false, c.tick, (c.cache slot).data⟩)

/-- One iteration of `bcache_write`. -/
def bcacheWriteSector (c : Bcache) (sector : UInt32) (data : Sector) : Bcache :=
  match c.bcacheFind sector with
  | some i =>
    let c := c.bumpTick
    c.setBlock i ⟨(c.cache i).lba, true, true, c.tick, data⟩
  | none =>
    let slot := c.bcacheLru
    let c := (c.evict slot).bumpTick
    c.setBlock slot ⟨sector, true, true, c.tick, data⟩

/-- The loop of `bcache_read` from sector `s` of the request on, `n` sectors left. -/
def bcacheReadFrom (lba : UInt32) (s : ℕ) :
    ℕ → Bcache → (ℕ → Sector) → Bool × (ℕ → Sector) × Bcache
  | 0, c, buf => (true, buf, c)
  | n + 1, c, buf =>
    let (d, c) := c.bcacheReadSector (lba + UInt32.ofNat s)
    match d with
    | none => (false, buf, c)
    | some d => bcacheReadFrom lba (s + 1) n c (Function.update buf s d)

/-- Read sectors through the cache : the return value and the buffer left. -/
def bcacheRead (c : Bcache) (lba : UInt32) (count : UInt8) (buf : ℕ → Sector) :
    Int × (ℕ → Sector) × Bcache :=
  if !c.ready then (-1, buf, c)
  else
    let (ok, buf, c) := bcacheReadFrom lba 0 count.toNat c buf
    (if ok then count.toNat else -1, buf, c)

/-- The loop of `bcache_write`. -/
def bcacheWriteFrom (lba : UInt32) (buf : ℕ → Sector) (s : ℕ) : ℕ → Bcache → Bcache
  | 0, c => c
  | n + 1, c =>
    bcacheWriteFrom lba buf (s + 1) n (c.bcacheWriteSector (lba + UInt32.ofNat s) (buf s))

/-- Write sectors through the cache. -/
def bcacheWrite (c : Bcache) (lba : UInt32) (count : UInt8) (buf : ℕ → Sector) :
    Int × Bcache :=
  if !c.ready then (-1, c) else (count.toNat, bcacheWriteFrom lba buf 0 count.toNat c)

/-- The loop of `bcache_sync` over the slots left. -/
def bcacheSyncFrom : List (Fin bcacheNumBlocks) → Int → Bcache → Int × Bcache
  | [], err, c => (err, c)
  | i :: is, err, c =>
    if (c.cache i).dirty then
      let (rc, c) := c.bcacheWriteback i
      bcacheSyncFrom is (if rc < 0 then -1 else err) c
    else bcacheSyncFrom is err c

/-- Flush all dirty blocks : 0 on success, -1 on error. -/
def bcacheSync (c : Bcache) : Int × Bcache :=
  if !c.ready then (-1, c) else bcacheSyncFrom (slots bcacheNumBlocks) 0 c

/-- Timer tick : flush once per interval, if anything is dirty. -/
def bcacheTick (c : Bcache) : Bcache :=
  if !c.ready then c
  else
    let c := { c with flushCounter := c.flushCounter + 1 }
    if c.flushInterval ≤ c.flushCounter then
      let c := { c with flushCounter := 0 }
      if (first fun i => (c.cache i).dirty).isSome then c.bcacheSync.2 else c
    else c

/-- The cache after `bcache_init` has captured `real`. -/
def bcacheInit (real : Backend) : Bcache where
  cache _ := ⟨0, false, false, 0, fun _ => 0⟩
  stats := ⟨0, 0, 0, 0⟩
  tick := 0
  flushInterval := 240
  flushCounter := 0
  real := real
  ready := true

end Bcache

/-- A call on the cache. -/
inductive BcacheOp where
  | read (lba : UInt32) (count : UInt8) (buf : ℕ → Sector)
  | write (lba : UInt32) (count : UInt8) (buf : ℕ → Sector)
  | sync
  | tick

/-- The cache after a call. -/
def bcacheStep (c : Bcache) : BcacheOp → Bcache
  | .read lba count buf => (c.bcacheRead lba count buf).2.2
  | .write lba count buf => (c.bcacheWrite lba count buf).2
  | .sync => c.bcacheSync.2
  | .tick => c.bcacheTick

end VernisOS
