import Zenbite.Disk

/-! `struct fat_volume` (fat.c): the layout read from the boot sector, the two
FAT caches, the fixed-root cache and the current directory of one drive. -/

namespace Zenbite.Fat

open Memory

def fat12Buf : Nat := 16 * sectorSize
def rootBufMax : Nat := 32 * sectorSize
/-- The static one-cluster buffers of load_dir, fs_read, fs_write and fs_mkdir. -/
def clusterBuf : Nat := 16 * sectorSize
def fatCacheNone : Nat := 0xFFFFFFFF
def fsPathMax : Nat := 128
def fsDriveMax : Nat := 4
def maxHandles : Nat := 8

inductive FatKind where
  | none | fat12 | fat16 | fat32
  deriving DecidableEq, Repr

/-- The fields copied from the boot sector. -/
structure Header where
  bytesPerSec : Nat
  secPerCluster : Nat
  reservedSectors : Nat
  numFats : Nat
  rootEntries : Nat
  fatSectors : Nat
  totalSectors : Nat
  deriving DecidableEq, Repr

/-- What fs_mount derives from the boot sector; nothing later writes it. -/
structure Layout extends Header where
  kind : FatKind
  fatLba : Nat
  rootLba : Nat
  dataLba : Nat
  rootDirCluster : Nat
  deriving DecidableEq, Repr

structure FatVolume extends Layout where
  diskId : Nat
  fat : Buffer
  fatDirty : Bool
  fatCbuf : Buffer
  fatCsec : Nat
  fatCdirty : Bool
  root : Buffer
  rootDirty : Bool
  cwdIsRoot : Bool
  cwdCluster : Nat
  cwdPath : List UInt8

namespace FatVolume

/-! The writes of fat.c to `*v`, one name each. -/

def cacheClean (v : FatVolume) : FatVolume := { v with fatCdirty := false }

def cacheSector (v : FatVolume) (buf : Buffer) (sec : Nat) : FatVolume :=
  { v with fatCbuf := buf, fatCsec := sec }

def cacheWrite (v : FatVolume) (buf : Buffer) : FatVolume :=
  { v with fatCbuf := buf, fatCdirty := true }

def imageLoad (v : FatVolume) (buf : Buffer) : FatVolume := { v with fat := buf }

def imageWrite (v : FatVolume) (buf : Buffer) : FatVolume :=
  { v with fat := buf, fatDirty := true }

def imageClean (v : FatVolume) : FatVolume := { v with fatDirty := false }

def rootLoad (v : FatVolume) (buf : Buffer) : FatVolume := { v with root := buf }

def rootWrite (v : FatVolume) (buf : Buffer) : FatVolume :=
  { v with root := buf, rootDirty := true }

def rootClean (v : FatVolume) : FatVolume := { v with rootDirty := false }

def setLayout (v : FatVolume) (l : Layout) : FatVolume := { v with toLayout := l }

def setCwd (v : FatVolume) (isRoot : Bool) (cluster : Nat) (path : List UInt8) :
    FatVolume :=
  { v with cwdIsRoot := isRoot, cwdCluster := cluster, cwdPath := path }

end FatVolume

/-- `memset(v, 0, sizeof *v)`. -/
def FatVolume.zero : FatVolume where
  kind := .none
  bytesPerSec := 0
  secPerCluster := 0
  reservedSectors := 0
  numFats := 0
  rootEntries := 0
  fatSectors := 0
  totalSectors := 0
  fatLba := 0
  rootLba := 0
  dataLba := 0
  rootDirCluster := 0
  diskId := 0
  fat := fun _ => 0
  fatDirty := false
  fatCbuf := fun _ => 0
  fatCsec := 0
  fatCdirty := false
  root := fun _ => 0
  rootDirty := false
  cwdIsRoot := false
  cwdCluster := 0
  cwdPath := []

/-- What a volume function of fat.c works on: `v` and the disk behind
`v->disk_id`. Two ghost fields: `fault` records an access outside a fixed buffer
or a division by zero, `taken` the results of alloc_cluster, latest first. -/
structure VolState (δ : Type) where
  disk : δ
  vol : FatVolume
  fault : Bool
  taken : List Nat

namespace VolState
variable {δ : Type}

def diskRead [Device δ] (s : VolState δ) (lba count : Nat) (buf : Buffer) : Int × Buffer × VolState δ :=
  let r := Device.read s.disk lba count buf
  (r.1, r.2.1, { s with disk := r.2.2 })

def diskWrite [Device δ] (s : VolState δ) (lba count : Nat) (buf : Buffer) : Int × VolState δ :=
  let r := Device.write s.disk lba count buf
  (r.1, { s with disk := r.2 })

/-- A write to `*v`. -/
def modVol (s : VolState δ) (f : FatVolume → FatVolume) : VolState δ := { s with vol := f s.vol }

/-- A disk behind a drive slot before anything happened. -/
def fresh (disk : δ) (vol : FatVolume) : VolState δ := ⟨disk, vol, false, []⟩

@[simp] theorem modVol_vol (s : VolState δ) (f : FatVolume → FatVolume) :
    (s.modVol f).vol = f s.vol := rfl

@[simp] theorem modVol_disk (s : VolState δ) (f : FatVolume → FatVolume) :
    (s.modVol f).disk = s.disk := rfl

@[simp] theorem modVol_fault (s : VolState δ) (f : FatVolume → FatVolume) :
    (s.modVol f).fault = s.fault := rfl

@[simp] theorem modVol_taken (s : VolState δ) (f : FatVolume → FatVolume) :
    (s.modVol f).taken = s.taken := rfl

/-- Ghost: `n` bytes are used of a buffer of `size`. -/
def useBuffer (s : VolState δ) (n size : Nat) : VolState δ :=
  { s with fault := s.fault || decide (size < n) }

theorem useBuffer_fits (s : VolState δ) {n size : Nat} (fits : n ≤ size) : s.useBuffer n size = s := by
  simp only [useBuffer, show ¬ size < n by omega, decide_false, Bool.or_false]

@[simp] theorem useBuffer_vol (s : VolState δ) (n size : Nat) : (s.useBuffer n size).vol = s.vol := rfl

@[simp] theorem useBuffer_disk (s : VolState δ) (n size : Nat) :
    (s.useBuffer n size).disk = s.disk := rfl

@[simp] theorem useBuffer_taken (s : VolState δ) (n size : Nat) :
    (s.useBuffer n size).taken = s.taken := rfl

@[simp] theorem useBuffer_fault (s : VolState δ) (n size : Nat) :
    (s.useBuffer n size).fault = (s.fault || decide (size < n)) := rfl

@[simp] theorem diskWrite_vol (s : VolState Disk) (lba count : Nat) (buf : Buffer) :
    (s.diskWrite lba count buf).2.vol = s.vol := rfl

@[simp] theorem diskRead_vol (s : VolState Disk) (lba count : Nat) (buf : Buffer) :
    (s.diskRead lba count buf).2.2.vol = s.vol := rfl

@[simp] theorem diskWrite_fst (s : VolState Disk) (lba count : Nat) (buf : Buffer) :
    (s.diskWrite lba count buf).1 = (s.disk.write lba count buf).1 := rfl

@[simp] theorem diskRead_fst (s : VolState Disk) (lba count : Nat) (buf : Buffer) :
    (s.diskRead lba count buf).1 = (s.disk.read lba count buf).1 := rfl

@[simp] theorem diskRead_buf (s : VolState Disk) (lba count : Nat) (buf : Buffer) :
    (s.diskRead lba count buf).2.1 = (s.disk.read lba count buf).2.1 := rfl

@[simp] theorem diskWrite_disk (s : VolState Disk) (lba count : Nat) (buf : Buffer) :
    (s.diskWrite lba count buf).2.disk = (s.disk.write lba count buf).2 := rfl

@[simp] theorem diskRead_disk (s : VolState Disk) (lba count : Nat) (buf : Buffer) :
    (s.diskRead lba count buf).2.2.disk = (s.disk.read lba count buf).2.2 := rfl

@[simp] theorem diskWrite_fault (s : VolState Disk) (lba count : Nat) (buf : Buffer) :
    (s.diskWrite lba count buf).2.fault = s.fault := rfl

@[simp] theorem diskRead_fault (s : VolState Disk) (lba count : Nat) (buf : Buffer) :
    (s.diskRead lba count buf).2.2.fault = s.fault := rfl

@[simp] theorem diskWrite_taken (s : VolState Disk) (lba count : Nat) (buf : Buffer) :
    (s.diskWrite lba count buf).2.taken = s.taken := rfl

@[simp] theorem diskRead_taken (s : VolState Disk) (lba count : Nat) (buf : Buffer) :
    (s.diskRead lba count buf).2.2.taken = s.taken := rfl

end VolState

/-! Sizes derived from the layout. -/

/-- `root_size_sec`. -/
def Header.rootSizeSec (h : Header) : Nat := (h.rootEntries * 32 + sectorSize - 1) / sectorSize

namespace Layout

def fatEof (l : Layout) : Nat :=
  match l.kind with
  | .fat16 => 0xFFF8
  | .fat32 => 0x0FFFFFF8
  | _ => 0xFF8

def maxCluster (l : Layout) : Nat :=
  match l.kind with
  | .fat32 => u32 (l.fatSectors * sectorSize) / 4
  | .fat16 => u32 (l.fatSectors * sectorSize) / 2
  | _ => u32 (l.fatSectors * sectorSize * 2) / 3

/-- `c - 2` and the product wrap: a chain value below 2 names a sector before
the data area. -/
def clusterToLba (l : Layout) (c : Nat) : Nat :=
  u32 (l.dataLba + u32 (c + 2 ^ 32 - 2) * l.secPerCluster)

def clusterBytes (l : Layout) : Nat := l.secPerCluster * sectorSize

end Layout

end Zenbite.Fat
