import Zenbite.Fat.Path

/-! The file system calls (fat.c) over several drives: the handle table, path
resolution, and the calls that change directories. -/

namespace Zenbite.Fat

open Memory VolState

/-- `struct handle`; `is_dir`, `buf` and `buf_valid_cluster` are never read. -/
structure Handle where
  inUse : Bool
  drive : Nat
  firstCluster : Nat
  size : Nat
  pos : Nat
  parentDirCluster : Nat
  direntOffset : Nat
  deriving DecidableEq, Repr

/-- The disks by id, `vols[]`, `current_drive` and `handles[]`, with the ghosts
of the volume functions. -/
structure Fs where
  disks : Nat → Disk
  vols : Nat → FatVolume
  currentDrive : Option Nat
  handles : Nat → Handle
  fault : Bool
  taken : List Nat

namespace Fs

/-- Drive `d` as the volume functions see it. -/
def vol (f : Fs) (d : Nat) : VolState Disk := ⟨f.disks (f.vols d).diskId, f.vols d, f.fault, f.taken⟩

def putVol (f : Fs) (d : Nat) (s : VolState Disk) : Fs :=
  { f with
    disks := Function.update f.disks (f.vols d).diskId s.disk
    vols := Function.update f.vols d s.vol
    fault := s.fault
    taken := s.taken }

def putHandle (f : Fs) (h : Nat) (x : Handle) : Fs :=
  { f with handles := Function.update f.handles h x }

/-- One volume on A:, no open handle. -/
def single (m : VolState Disk) : Fs where
  disks := fun _ => m.disk
  vols := fun d => if d = 0 then m.vol else .zero
  currentDrive := some 0
  handles := fun _ => ⟨false, 0, 0, 0, 0, 0, 0⟩
  fault := m.fault
  taken := m.taken

/-- A volume function on drive `d`. -/
def on {α : Type} (f : Fs) (d : Nat) (run : VolState Disk → α × VolState Disk) : α × Fs :=
  let r := run (f.vol d)
  (r.1, f.putVol d r.2)

theorem vol_putVol {f : Fs} {d : Nat} {s : VolState Disk}
    (same : s.vol.diskId = (f.vols d).diskId) : (f.putVol d s).vol d = s := by
  simp only [vol, putVol, Function.update_self, same]

theorem vol_putVol_ne {f : Fs} {d e : Nat} (s : VolState Disk) (other : e ≠ d) :
    ((f.putVol d s).vol e).vol = f.vols e ∧ ((f.putVol d s).vol e).disk =
      if (f.vols e).diskId = (f.vols d).diskId then s.disk else f.disks (f.vols e).diskId := by
  simp only [vol, putVol, Function.update_of_ne other, Function.update_apply, true_and]

end Fs

/-- `struct walk_result`; the volume is the index of the drive. -/
structure Walk extends Leaf where
  drive : Nat

/-- `none` for -1. -/
def walkPath (path : List UInt8) (allowMissing : Bool) (f : Fs) : Option Walk × Fs :=
  match parseDrive path with
  | none => (none, f)
  | some (prefixed, rest) =>
    match prefixed.or f.currentDrive with
    | none => (none, f)
    | some d =>
      if (f.vols d).kind = .none then (none, f)
      else
        let r := f.on d (walkVolume rest allowMissing)
        (r.1.map fun leaf => ⟨leaf, d⟩, r.2)

/-- `is_dot_marker`, `is_dotdot_marker` and the test for an empty name. -/
def Creatable (name : List UInt8) : Prop :=
  name ≠ dotName ∧ name ≠ dotdotName ∧ name.getD 0 0 ≠ 32

instance (name : List UInt8) : Decidable (Creatable name) :=
  inferInstanceAs (Decidable (_ ∧ _ ∧ _))

def fsCreate (path : List UInt8) (f : Fs) : Int × Fs :=
  let w := walkPath path true f
  match w.1 with
  | none => (-1, w.2)
  | some r =>
    if r.entry.isSome ∨ ¬ Creatable r.name then (-1, w.2)
    else
      let a := w.2.on r.drive (dirAddEntry r.parent (Dirent.make r.name attrArc))
      if a.1 < 0 then (-1, a.2) else (0, a.2)

/-- The end of fs_unlink and fs_rmdir. The results of the store and of the flush
are not looked at. -/
def removeEntry (parent off first : Nat) (s : VolState Disk) : Int × VolState Disk :=
  let s := freeChain first s
  let r := loadDir parent s
  match r.1 with
  | none => (-1, r.2)
  | some (buf, _) =>
    (0, (flushFat (storeDir parent (splice buf off 1 fun _ => deletedMark) r.2).2).2)

def fsUnlink (path : List UInt8) (f : Fs) : Int × Fs :=
  let w := walkPath path false f
  match w.1 with
  | none => (-1, w.2)
  | some r =>
    match r.entry with
    | none => (-1, w.2)
    | some (e, off) =>
      if Dirent.hasAttr e attrDir then (-1, w.2)
      else w.2.on r.drive (removeEntry r.parent off (Dirent.cluster (w.2.vols r.drive).kind e))

def fsRename (oldp newp : List UInt8) (f : Fs) : Int × Fs :=
  let o := walkPath oldp false f
  match o.1 with
  | none => (-1, o.2)
  | some ro =>
    match ro.entry with
    | none => (-1, o.2)
    | some (e, off) =>
      let n := walkPath newp true o.2
      match n.1 with
      | none => (-1, n.2)
      | some rn =>
        if rn.entry.isSome ∨ ro.drive ≠ rn.drive ∨ ro.parent ≠ rn.parent then (-1, n.2)
        else
          n.2.on ro.drive (dirUpdateEntry ro.parent off (splice e 0 11 fun i => rn.name.getD i 0))

/-- A new directory: the entries for "." and "..", the rest zero. -/
def newDirBuf (kind : FatKind) (c parent : Nat) : Buffer :=
  splice (splice (fun _ => 0) 0 32 (Dirent.setCluster kind (Dirent.make dotName attrDir) c)) 32 32
    (Dirent.setCluster kind (Dirent.make dotdotName attrDir) parent)

/-- fs_mkdir behind the checks. -/
def addDir (parent : Nat) (name : List UInt8) (s : VolState Disk) : Int × VolState Disk :=
  let a := allocCluster s
  if a.1 = 0 then (-1, a.2)
  else
    let w := writeCluster a.1 (newDirBuf a.2.vol.kind a.1 parent) a.2
    if w.1 < 0 then (-1, w.2)
    else
      let d := dirAddEntry parent (Dirent.setCluster w.2.vol.kind (Dirent.make name attrDir) a.1) w.2
      if d.1 < 0 then (-1, d.2) else (0, (flushFat d.2).2)

def fsMkdir (path : List UInt8) (f : Fs) : Int × Fs :=
  let w := walkPath path true f
  match w.1 with
  | none => (-1, w.2)
  | some r =>
    if r.entry.isSome ∨ ¬ Creatable r.name then (-1, w.2)
    else w.2.on r.drive (addDir r.parent r.name)

/-- The loop of fs_rmdir: only deleted entries up to the end mark. -/
def emptyFrom (buf : Buffer) : Nat → Nat → Bool
  | 0, _ => true
  | n + 1, i =>
    if slot buf i 0 = 0 then true
    else if slot buf i 0 = deletedMark then emptyFrom buf n (i + 1)
    else false

/-- fs_rmdir behind the walk. -/
def removeDir (parent off c : Nat) (s : VolState Disk) : Int × VolState Disk :=
  let r := loadDir c s
  match r.1 with
  | none => (-1, r.2)
  | some (buf, size) =>
    if emptyFrom buf (size / 32 - 2) 2 then removeEntry parent off c r.2 else (-1, r.2)

def fsRmdir (path : List UInt8) (f : Fs) : Int × Fs :=
  let w := walkPath path false f
  match w.1 with
  | none => (-1, w.2)
  | some r =>
    match r.entry with
    | none => (-1, w.2)
    | some (e, off) =>
      if Dirent.hasAttr e attrDir then
        w.2.on r.drive (removeDir r.parent off (Dirent.cluster (w.2.vols r.drive).kind e))
      else (-1, w.2)

end Zenbite.Fat
