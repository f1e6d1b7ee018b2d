import Zenbite.Fat.Volume

/-! The file allocation table (fat.c): the one-sector write-back cache of FAT16
and FAT32, the in-memory FAT12 image, entry access and flushing. -/

namespace Zenbite.Fat

open Memory VolState

variable {δ : Type} [Device δ]

def fatCacheFlush (s : VolState δ) : Int × VolState δ :=
  if s.vol.fatCdirty = false ∨ s.vol.fatCsec = fatCacheNone then (0, s)
  else
    let w := s.diskWrite (u32 (s.vol.fatLba + s.vol.fatCsec)) 1 s.vol.fatCbuf
    if w.1 < 0 then (-1, w.2)
    else
      -- the result of the mirror write is not looked at
      let m := w.2.diskWrite (u32 (s.vol.fatLba + s.vol.fatSectors + s.vol.fatCsec)) 1 s.vol.fatCbuf
      (0, m.2.modVol (·.cacheClean))

def fatCacheLoad (sec : Nat) (s : VolState δ) : Int × VolState δ :=
  if s.vol.fatCsec = sec then (0, s)
  else
    let f := fatCacheFlush s
    if f.1 < 0 then (-1, f.2)
    else
      let r := f.2.diskRead (u32 (f.2.vol.fatLba + sec)) 1 f.2.vol.fatCbuf
      if r.1 < 0 then
        (-1, r.2.2.modVol (·.cacheSector r.2.1 fatCacheNone))
      else
        (0, r.2.2.modVol (·.cacheSector r.2.1 sec))

/-- Byte offset of a FAT12 entry. -/
def off12 (cluster : Nat) : Nat := u32 (cluster + cluster / 2)

/-- `(cluster & 1) ? (val >> 4) : (val & 0x0FFF)`. -/
def get12 (b : Buffer) (cluster : Nat) : Nat :=
  if cluster % 2 = 1 then readLe16 b (off12 cluster) / 16
  else readLe16 b (off12 cluster) % 4096

/-- The other nibble of the shared byte is kept. -/
def set12 (b : Buffer) (cluster val : Nat) : Buffer :=
  let cur := readLe16 b (off12 cluster)
  writeLe16 b (off12 cluster)
    (if cluster % 2 = 1 then cur % 16 + val % 4096 * 16 else cur / 4096 * 4096 + val % 4096)

/-- `(cur & 0xF0000000) | (val & 0x0FFFFFFF)`. -/
def set32 (b : Buffer) (off val : Nat) : Buffer :=
  writeLe32 b off (readLe32 b off / 2 ^ 28 * 2 ^ 28 + val % 2 ^ 28)

def fatGet (cluster : Nat) (s : VolState δ) : Nat × VolState δ :=
  match s.vol.kind with
  | .fat12 => (get12 s.vol.fat cluster, s.useBuffer (off12 cluster + 2) fat12Buf)
  | .fat16 =>
    let r := fatCacheLoad (u32 (cluster * 2) / sectorSize) s
    if r.1 < 0 then (0xFFFF, r.2)
    else (readLe16 r.2.vol.fatCbuf (u32 (cluster * 2) % sectorSize), r.2)
  | _ =>
    let r := fatCacheLoad (u32 (cluster * 4) / sectorSize) s
    if r.1 < 0 then (0x0FFFFFFF, r.2)
    else (readLe32 r.2.vol.fatCbuf (u32 (cluster * 4) % sectorSize) % 2 ^ 28, r.2)

def fatSet (cluster val : Nat) (s : VolState δ) : VolState δ :=
  match s.vol.kind with
  | .fat12 =>
    (s.useBuffer (off12 cluster + 2) fat12Buf).modVol (·.imageWrite (set12 s.vol.fat cluster val))
  | .fat16 =>
    let r := fatCacheLoad (u32 (cluster * 2) / sectorSize) s
    if r.1 < 0 then r.2
    else r.2.modVol
      (·.cacheWrite (writeLe16 r.2.vol.fatCbuf (u32 (cluster * 2) % sectorSize) val))
  | _ =>
    let r := fatCacheLoad (u32 (cluster * 4) / sectorSize) s
    if r.1 < 0 then r.2
    else r.2.modVol
      (·.cacheWrite (set32 r.2.vol.fatCbuf (u32 (cluster * 4) % sectorSize) val))

def flushFat (s : VolState δ) : Int × VolState δ :=
  match s.vol.kind with
  | .fat12 =>
    if s.vol.fatDirty = false then (0, s)
    else
      let w := s.diskWrite s.vol.fatLba s.vol.fatSectors s.vol.fat
      if w.1 < 0 then (-1, w.2)
      else
        let m := w.2.diskWrite (u32 (s.vol.fatLba + s.vol.fatSectors)) s.vol.fatSectors s.vol.fat
        (0, m.2.modVol (·.imageClean))
  | _ => fatCacheFlush s

/-- Scans clusters `c, c+1, ..` for a free one; `n` of them are left. -/
def allocFrom : Nat → Nat → VolState δ → Nat × VolState δ
  | 0, _, s => (0, s)
  | n + 1, c, s =>
    let r := fatGet c s
    if r.1 = 0 then (c, fatSet c r.2.vol.fatEof r.2) else allocFrom n (c + 1) r.2

def allocCluster (s : VolState δ) : Nat × VolState δ :=
  let r := allocFrom (s.vol.maxCluster - 2) 2 s
  (r.1, { r.2 with taken := r.1 :: r.2.taken })

/-- The `while` loop of free_chain. Every round that goes on has just zeroed an
entry below fat_eof, so fat_eof rounds are enough. -/
def freeFrom : Nat → Nat → VolState δ → VolState δ
  | 0, _, s => s
  | n + 1, c, s =>
    if 2 ≤ c ∧ c < s.vol.fatEof then
      let r := fatGet c s
      freeFrom n r.1 (fatSet c 0 r.2)
    else s

def freeChain (first : Nat) (s : VolState δ) : VolState δ := freeFrom s.vol.fatEof first s

/-- Nothing to write back. -/
structure FatVolume.Clean (v : FatVolume) : Prop where
  cache : v.fatCdirty = false
  image : v.fatDirty = false
  root : v.rootDirty = false

theorem fatCacheFlush_traffic (s : VolState δ) :
    Device.Traffic True s.disk (fatCacheFlush s).2.disk := by
  simp only [fatCacheFlush]
  split
  · exact .idle
  · split
    · exact .write trivial _ _ _ .idle
    · exact .write trivial _ _ _ (.write trivial _ _ _ .idle)

theorem flushFat_traffic (s : VolState δ) : Device.Traffic True s.disk (flushFat s).2.disk := by
  simp only [flushFat]
  split
  · split
    · exact .idle
    · split
      · exact .write trivial _ _ _ .idle
      · exact .write trivial _ _ _ (.write trivial _ _ _ .idle)
  · exact fatCacheFlush_traffic s

end Zenbite.Fat
