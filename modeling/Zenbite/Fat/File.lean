import Zenbite.Fat.Ops

/-! Open files and directories (fat.c): the handle tables, reading and writing
through a handle, fs_chdir and the listing of a directory, and the calls of the
file system as a whole. -/

namespace Zenbite.Fat

open Memory VolState

/-- `(int)n` for a 32-bit number. -/
def int32 (n : Nat) : Int := if u32 n < 2 ^ 31 then u32 n else (u32 n : Int) - 2 ^ 32

section Volume
variable {δ : Type} [Device δ]

def clusterAfter : Nat → Nat → VolState δ → Nat × VolState δ
  | 0, c, s => (c, s)
  | n + 1, c, s =>
    if 2 ≤ c ∧ c < s.vol.fatEof then
      let r := fatGet c s
      clusterAfter n r.1 r.2
    else (c, s)

/-- Bytes `off .. off + n` of a buffer. -/
def bytesFrom (buf : Buffer) (off n : Nat) : List UInt8 := (List.range n).map (window buf off)

/-- The loop of fs_read from position `pos` on: the position afterwards and the
bytes. Every round that goes on takes a byte, so `n` rounds are enough. -/
def readLoop (first size : Nat) : Nat → Nat → Nat → VolState δ → (Nat × List UInt8) × VolState δ
  | 0, pos, _, s => ((pos, []), s)
  | fuel + 1, pos, n, s =>
    if n = 0 ∨ size ≤ pos then ((pos, []), s)
    else
      let c := clusterAfter (pos / s.vol.clusterBytes) first s
      if c.2.vol.fatEof ≤ c.1 then ((pos, []), c.2)
      else
        let r := readCluster c.1 (fun _ => 0) c.2
        if r.1 < 0 then ((pos, []), r.2.2)
        else
          let inCluster := pos % s.vol.clusterBytes
          let avail := min (min (s.vol.clusterBytes - inCluster) (size - pos)) n
          let rest := readLoop first size fuel (pos + avail) (n - avail) r.2.2
          ((rest.1.1, bytesFrom r.2.1 inCluster avail ++ rest.1.2), rest.2)

/-- The `for` loop of fs_write: `n` steps along the chain, which grows at its end.
`none` when there is no cluster left. -/
def walkExtend : Nat → Nat → VolState δ → Option Nat × VolState δ
  | 0, c, s => (some c, s)
  | n + 1, c, s =>
    let r := fatGet c s
    if r.2.vol.fatEof ≤ r.1 then
      let a := allocCluster r.2
      if a.1 = 0 then (none, a.2)
      else
        let t := fatSet c a.1 a.2
        walkExtend n a.1 (fatSet a.1 t.vol.fatEof t)
    else walkExtend n r.1 r.2

/-- The loop of fs_write: the position afterwards and the number of bytes written. -/
def writeLoop (first : Nat) : Nat → Nat → List UInt8 → VolState δ → (Nat × Nat) × VolState δ
  | 0, pos, _, s => ((pos, 0), s)
  | fuel + 1, pos, data, s =>
    if data = [] then ((pos, 0), s)
    else
      let w := walkExtend (pos / s.vol.clusterBytes) first s
      match w.1 with
      | none => ((pos, 0), w.2)
      | some c =>
        let r := readCluster c (fun _ => 0) w.2
        if r.1 < 0 then ((pos, 0), r.2.2)
        else
          let inCluster := pos % s.vol.clusterBytes
          let chunk := min (s.vol.clusterBytes - inCluster) data.length
          let put := writeCluster c (poke r.2.1 inCluster (data.take chunk)) r.2.2
          if put.1 < 0 then ((pos, 0), put.2)
          else
            let rest := writeLoop first fuel (u32 (pos + chunk)) (data.drop chunk) put.2
            ((rest.1.1, chunk + rest.1.2), rest.2)

/-- Ghost: the buffer that load_dir fills for directory `d`. -/
def FatVolume.dirBuf (v : FatVolume) (d : Nat) : Nat := if v.FixedRoot d then rootBufMax else clusterBuf

/-- The end of fs_write: first cluster and size go into the directory entry, the
FAT is flushed. No result is looked at. -/
def updateDirent (dir off first size : Nat) (s : VolState δ) : VolState δ :=
  let r := loadDir dir s
  let s := match r.1 with
    | none => r.2
    | some (buf, _) =>
      let e := Dirent.setSize (Dirent.setCluster r.2.vol.kind (window buf off) first) size
      (storeDir dir (splice buf off 32 e) (r.2.useBuffer (off + 32) (r.2.vol.dirBuf dir))).2
  (flushFat s).2

end Volume

/-! The handle table. -/

/-- A slot of the table in use. -/
def Fs.handle (f : Fs) (h : Nat) : Option Handle :=
  if h < maxHandles ∧ (f.handles h).inUse = true then some (f.handles h) else none

/-- `alloc_handle`. -/
def allocHandle (f : Fs) : Option Nat := (List.range maxHandles).find? fun h => !(f.handles h).inUse

def fsOpen (path : List UInt8) (f : Fs) : Int × Fs :=
  let w := walkPath path false f
  match w.1 with
  | none => (-1, w.2)
  | some r =>
    match r.entry with
    | none => (-1, w.2)
    | some (e, off) =>
      if Dirent.hasAttr e attrDir then (-1, w.2)
      else
        match allocHandle w.2 with
        | none => (-1, w.2)
        | some h =>
          (h, w.2.putHandle h ⟨true, r.drive, Dirent.cluster (w.2.vols r.drive).kind e,
            Dirent.size e, 0, r.parent, off⟩)

def fsSize (h : Nat) (f : Fs) : Int :=
  match f.handle h with
  | none => -1
  | some x => int32 x.size

/-- `none` is the fault of a division by a zero cluster size. -/
def fsRead (h n : Nat) (f : Fs) : Option (Int × List UInt8) × Fs :=
  match f.handle h with
  | none => (some (-1, []), f)
  | some x =>
    if (f.vols x.drive).clusterBytes = 0 ∧ 0 < n ∧ x.pos < x.size then (none, f)
    else
      let r := f.on x.drive (readLoop x.firstCluster x.size n x.pos n)
      (some (int32 r.1.2.length, r.1.2), r.2.putHandle h { x with pos := r.1.1 })

/-- The first cluster of an empty file. -/
def firstFor (first : Nat) (s : VolState Disk) : Nat × VolState Disk :=
  if first = 0 then allocCluster s else (first, s)

/-- fs_write once the file has a first cluster. -/
def writeThrough (x : Handle) (data : List UInt8) (s : VolState Disk) :
    (Nat × Handle) × VolState Disk :=
  let w := writeLoop x.firstCluster data.length x.pos data s
  let y := { x with pos := w.1.1, size := max x.size w.1.1 }
  ((w.1.2, y), updateDirent y.parentDirCluster y.direntOffset y.firstCluster y.size w.2)

/-- `none` is the fault of a division by a zero cluster size. -/
def fsWrite (h : Nat) (data : List UInt8) (f : Fs) : Option Int × Fs :=
  match f.handle h with
  | none => (some (-1), f)
  | some x =>
    let a := f.on x.drive (firstFor x.firstCluster)
    if a.1 = 0 then (some (-1), a.2)
    else if (f.vols x.drive).clusterBytes = 0 ∧ data ≠ [] then (none, a.2)
    else
      let w := a.2.on x.drive (writeThrough { x with firstCluster := a.1 } data)
      (some (int32 w.1.1), w.2.putHandle h w.1.2)

def fsClose (h : Nat) (f : Fs) : Int × Fs :=
  match f.handle h with
  | none => (-1, f)
  | some x => (0, f.putHandle h { x with inUse := false })

/-! fs_chdir. A path longer than the buffer shows as a list of FS_PATH_MAX bytes. -/

def backslash : UInt8 := 92

/-- `cwd_pop`. -/
def cwdPop (path : List UInt8) : List UInt8 :=
  let cut := (path.reverse.dropWhile (· != backslash)).reverse
  if cut.length ≤ 1 then path.take 1 else cut.dropLast

/-- `cwd_append`. -/
def cwdAppend (path name : List UInt8) : List UInt8 :=
  let base := if 1 < path.length then path ++ [backslash] else path
  base ++ name.take (fsPathMax - 1 - base.length)

/-- What fs_chdir makes of `cwd_path`: ".." drops a component, a leaf that was
found is appended, everything else leaves the path. -/
def patchPath (leaf : Leaf) (path : List UInt8) : List UInt8 :=
  match leaf.entry with
  | none => if leaf.name = dotdotName then cwdPop path else path
  | some (e, _) =>
    let name := nameFrom83 (Dirent.name e)
    if name = [46, 46] then cwdPop path
    else if name = [46] then path
    else cwdAppend path name

/-- fs_chdir behind the walk. -/
def FatVolume.chdir (v : FatVolume) (leaf : Leaf) (target : Nat) : FatVolume :=
  if target = 0 then v.setCwd true 0 [backslash]
  else v.setCwd false target (patchPath leaf v.cwdPath)

def fsChdir (path : List UInt8) (f : Fs) : Int × Fs :=
  let w := walkPath path false f
  match w.1 with
  | none => (-1, w.2)
  | some r =>
    let go (target : Nat) : Int × Fs :=
      (0, w.2.putVol r.drive ((w.2.vol r.drive).modVol (·.chdir r.toLeaf target)))
    match r.entry with
    | none => go r.parent
    | some (e, _) =>
      if Dirent.hasAttr e attrDir then go (Dirent.cluster (w.2.vols r.drive).kind e) else (-1, w.2)

/-! Mounting. -/

/-- `fs_mount`. -/
def fsMountOn (letter : UInt8) (id : Nat) (f : Fs) : Int × Fs :=
  match driveIdx letter with
  | none => (-1, f)
  | some idx =>
    if (f.disks id).present = false then (-1, f)
    else
      let r := mountVolume id ⟨f.disks id, f.vols idx, f.fault, f.taken⟩
      (r.1, { f with
        disks := Function.update f.disks id r.2.disk
        vols := Function.update f.vols idx r.2.vol
        currentDrive := if r.1 = 0 then some (f.currentDrive.getD idx) else f.currentDrive
        fault := r.2.fault
        taken := r.2.taken })

/-- `fs_unmount`; the results of the flushes are dropped. -/
def fsUnmountOf (letter : UInt8) (f : Fs) : Int × Fs :=
  match driveIdx letter with
  | none => (-1, f)
  | some idx =>
    if (f.vols idx).kind = .none then (-1, f)
    else (0, f.putVol idx ((flushRoot (flushFat (f.vol idx)).2).2.modVol fun _ => .zero))

def fsSetDrive (letter : UInt8) (f : Fs) : Int × Fs :=
  match driveIdx letter with
  | none => (-1, f)
  | some idx => if (f.vols idx).kind = .none then (-1, f) else (0, { f with currentDrive := some idx })

/-! Listing a directory. -/

/-- `struct dir_handle`; `drive` is the index of `vol`. -/
structure DirHandle where
  inUse : Bool
  drive : Nat
  cluster : Nat
  entryIndex : Nat
  deriving DecidableEq, Repr

/-- The file system with `dirhs[]`. -/
structure FileSys extends Fs where
  dirhs : Nat → DirHandle

namespace FileSys

def setFs (s : FileSys) (f : Fs) : FileSys := { s with toFs := f }

def putDir (s : FileSys) (h : Nat) (x : DirHandle) : FileSys :=
  { s with dirhs := Function.update s.dirhs h x }

end FileSys

/-- `struct fs_dirent`. -/
structure Listed where
  name : List UInt8
  size : Nat
  attr : UInt8
  firstCluster : Nat
  deriving DecidableEq, Repr

/-- The directory that fs_opendir opens for a walk. -/
def listedDir (kind : FatKind) (leaf : Leaf) : Option Nat :=
  match leaf.entry with
  | none => some leaf.parent
  | some (e, _) =>
    if leaf.name.getD 0 0 = 32 then some leaf.parent
    else if Dirent.hasAttr e attrDir then some (Dirent.cluster kind e)
    else none

/-- The handle that fs_opendir returns is one more than the slot. -/
def fsOpendir (path : List UInt8) (s : FileSys) : Int × FileSys :=
  let w := walkPath path false s.toFs
  match w.1 with
  | none => (-1, s.setFs w.2)
  | some r =>
    match listedDir (w.2.vols r.drive).kind r.toLeaf with
    | none => (-1, s.setFs w.2)
    | some c =>
      match (List.range maxHandles).find? fun h => !(s.dirhs h).inUse with
      | none => (-1, s.setFs w.2)
      | some h => (h + 1, (s.setFs w.2).putDir h ⟨true, r.drive, c, 0⟩)

/-- The loop of fs_readdir over the slots `i, i+1, ..`; `n` of them are left. The
slot of the entry found, and where the next call goes on. -/
def nextFrom (buf : Buffer) : Nat → Nat → Option Nat × Nat
  | 0, i => (none, i)
  | n + 1, i =>
    if slot buf i 0 = 0 then (none, i + 1)
    else if slot buf i 0 = deletedMark ∨ Dirent.hasAttr (slot buf i) attrVol = true then
      nextFrom buf n (i + 1)
    else (some i, i + 1)

/-- `none` for 0, no entry. -/
def fsReaddir (h : Nat) (s : FileSys) : Option Listed × FileSys :=
  if h = 0 ∨ maxHandles < h ∨ (s.dirhs (h - 1)).inUse = false then (none, s)
  else
    let x := s.dirhs (h - 1)
    let r := s.on x.drive (loadDir x.cluster)
    match r.1 with
    | none => (none, s.setFs r.2)
    | some (buf, size) =>
      let next := nextFrom buf (size / 32 - x.entryIndex) x.entryIndex
      (next.1.map fun i =>
        let e := slot buf i
        ⟨nameFrom83 (Dirent.name e), Dirent.size e, e 11, Dirent.cluster (r.2.vols x.drive).kind e⟩,
        (s.setFs r.2).putDir (h - 1) { x with entryIndex := next.2 })

def fsClosedir (h : Nat) (s : FileSys) : Int × FileSys :=
  if h = 0 ∨ maxHandles < h then (-1, s)
  else (0, s.putDir (h - 1) { s.dirhs (h - 1) with inUse := false })

end Zenbite.Fat
