import Zenbite.Fat.Alloc
import Zenbite.Fat.DirView

/-! What the calls that change directories leave behind when they return -1. -/

namespace Zenbite.Fat

open Memory VolState

/-- What fs_mount establishes and no later call breaks. -/
structure Usable (s : VolState Disk) : Prop where
  accepted : s.vol.toLayout.Accepted
  cached : s.CacheBound
  idle : s.vol.kind = .fat12 → s.vol.fatCsec = fatCacheNone

namespace Fs

def Mounted (f : Fs) : Prop := ∀ d, (f.vols d).kind ≠ .none → Usable (f.vol d)

/-- The logical FAT and the live entries of every directory are the same on
every mounted drive. -/
def Unchanged (f g : Fs) : Prop :=
  ∀ d, d < fsDriveMax → (f.vols d).kind ≠ .none →
    (∀ c, c < (f.vols d).maxCluster → (g.vol d).rawFat c = (f.vol d).rawFat c) ∧
      ∀ dir, (f.vol d).IsDir dir → (g.vol d).liveEntries dir = (f.vol d).liveEntries dir

/-- No volume has changed, and no disk but in its history. -/
structure Keeps (f g : Fs) : Prop where
  vols : g.vols = f.vols
  disks : ∀ id, (f.disks id).Same (g.disks id)

theorem Keeps.refl (f : Fs) : Keeps f f := ⟨rfl, fun _ => .refl _⟩

theorem Keeps.trans {f g h : Fs} (first : Keeps f g) (second : Keeps g h) : Keeps f h :=
  ⟨second.vols.trans first.vols, fun id => (first.disks id).trans (second.disks id)⟩

theorem Keeps.drive {f g : Fs} (keeps : Keeps f g) (d : Nat) : Fat.Keeps (f.vol d) (g.vol d) := by
  refine ⟨congrFun keeps.vols d, ?_⟩
  simp only [vol, keeps.vols]
  exact keeps.disks _

theorem Keeps.put {f : Fs} {d : Nat} {s : VolState Disk} (keeps : Fat.Keeps (f.vol d) s) :
    Keeps f (f.putVol d s) := by
  refine ⟨?_, fun id => ?_⟩
  · simp only [putVol, keeps.vol, vol, Function.update_eq_self]
  · simp only [putVol, Function.update_apply]
    split
    next here =>
      rw [here]
      exact keeps.disk
    · exact .refl _

theorem Keeps.unchanged {f g : Fs} (keeps : Keeps f g) : f.Unchanged g := fun d _ _ =>
  ⟨fun c _ => (keeps.drive d).rawFat c, fun dir _ => ((keeps.drive d).sameDir dir).entries⟩

theorem Unchanged.after {f g h : Fs} (keeps : Keeps f g) (unchanged : g.Unchanged h) :
    f.Unchanged h := by
  intro d low mounted
  have drive := keeps.drive d
  obtain ⟨table, dirs⟩ := unchanged d low (by rw [keeps.vols]; exact mounted)
  refine ⟨fun c bound => ?_, fun dir here => ?_⟩
  · rw [table c (by rw [keeps.vols]; exact bound), drive.rawFat]
  · rw [dirs dir (drive.isDir here), (drive.sameDir dir).entries]

end Fs

theorem walkPath_keeps (path : List UInt8) (allowMissing : Bool) (f : Fs) :
    Fs.Keeps f (walkPath path allowMissing f).2 := by
  simp only [walkPath]
  split
  · exact .refl f
  split
  · exact .refl f
  split
  · exact .refl f
  · exact .put (walkVolume_reads _ _ _).keeps

/-! When a call gets to its first update, nothing after it fails. -/

/-- The request that stores directory `d`. -/
def storeAccess (d : Nat) (s : VolState Disk) : Access :=
  if s.vol.FixedRoot d then ⟨true, s.vol.rootLba, s.vol.rootSizeSec⟩
  else ⟨true, s.vol.clusterToLba (s.vol.dirCluster d), s.vol.secPerCluster⟩

/-- A scan of the table that finds nothing free can do no harm: the cached sector
is what the disk holds; or it is dirty, and writing it back touches neither
another copy nor a directory nor another drive. -/
structure Fs.ScanSafe (f : Fs) (d : Nat) : Prop where
  clean : (f.vols d).fatCdirty = false → (f.vols d).fatCsec ≠ fatCacheNone → ∀ i, i < sectorSize →
    (f.vols d).fatCbuf i = (f.vol d).disk.bytes
      (u32 ((f.vols d).fatLba + (f.vols d).fatCsec) * sectorSize + i)
  apart : (f.vols d).fatCdirty = true → (f.vols d).Separate
  alone : (f.vols d).fatCdirty = true → ∀ e, e < fsDriveMax → e ≠ d → (f.vols e).kind ≠ .none →
    (f.vols e).diskId ≠ (f.vols d).diskId
  dirs : (f.vols d).fatCdirty = true → ∀ dir, (f.vol d).IsDir dir → ¬ (f.vols d).FixedRoot dir →
    ∀ k, k < (f.vols d).secPerCluster →
      ¬ (f.vols d).TableSector ((f.vols d).clusterToLba ((f.vols d).dirCluster dir) + k)

inductive MetaCall where
  | create (path : List UInt8)
  | unlink (path : List UInt8)
  | rename (oldp newp : List UInt8)
  | mkdir (path : List UInt8)
  | rmdir (path : List UInt8)

namespace MetaCall

def run : MetaCall → Fs → Int × Fs
  | .create path => fsCreate path
  | .unlink path => fsUnlink path
  | .rename oldp newp => fsRename oldp newp
  | .mkdir path => fsMkdir path
  | .rmdir path => fsRmdir path

end MetaCall

section Volume
variable {s : VolState Disk}

/-- A clean cache stays clean, and the disk as it is. -/
theorem fatGet_clean (c : Nat) (clean : s.vol.fatCdirty = false) :
    (fatGet c s).2.vol.fatCdirty = false ∧ (fatGet c s).2.disk.bytes = s.disk.bytes := by
  have load (sec : Nat) : (fatCacheLoad sec s).2.vol.fatCdirty = false ∧
      (fatCacheLoad sec s).2.disk.bytes = s.disk.bytes := by
    have flush : fatCacheFlush s = (0, s) := if_pos (.inl clean)
    have bytes := (s.disk.read_same (u32 (s.vol.fatLba + sec)) 1 s.vol.fatCbuf).bytes
    simp only [fatCacheLoad, flush]
    split
    · exact ⟨clean, rfl⟩
    · split
      · exact ⟨clean, rfl⟩
      · split <;> exact ⟨clean, bytes⟩
  simp only [fatGet]
  split
  · exact ⟨clean, rfl⟩
  · split <;> exact load _
  · split <;> exact load _

/-- A scan in vain keeps the table; a clean cache keeps the disk. -/
theorem allocCluster_full (ok : TableRead s) (full : (allocCluster s).1 = 0) :
    ∃ t, (allocCluster s).2 = { t with taken := 0 :: t.taken } ∧ TableFrame s t ∧ SameMap s t ∧
      (s.vol.fatCdirty = false → t.disk.bytes = s.disk.bytes) := by
  have get : ∀ c t, c < s.vol.maxCluster →
      (TableRead t ∧ TableFrame s t ∧ SameMap s t ∧
        (s.vol.fatCdirty = false → t.vol.fatCdirty = false ∧ t.disk.bytes = s.disk.bytes)) →
      TableRead (fatGet c t).2 ∧ TableFrame s (fatGet c t).2 ∧ SameMap s (fatGet c t).2 ∧
        (s.vol.fatCdirty = false → (fatGet c t).2.vol.fatCdirty = false ∧
          (fatGet c t).2.disk.bytes = s.disk.bytes) := by
    rintro c t bound ⟨read, frame, map, clean⟩
    have size : t.vol.maxCluster = s.vol.maxCluster := by rw [frame.layout]
    obtain ⟨next, kept, same, -⟩ := fatGet_read read (by rw [size]; exact bound)
    refine ⟨kept, frame.trans next, fun d low => ?_, fun idle => ?_⟩
    · rw [same d (by rw [size]; exact low), map d low]
    · obtain ⟨was, bytes⟩ := clean idle
      obtain ⟨still, equal⟩ := fatGet_clean c was
      exact ⟨still, equal.trans bytes⟩
  by_cases room : 2 ≤ s.vol.maxCluster
  · rcases allocFrom_rule s.vol.maxCluster get (s.vol.maxCluster - 2) 2 s (by omega)
      ⟨ok, .refl s, fun _ _ => rfl, fun clean => ⟨clean, rfl⟩⟩ with
      ⟨d, u, low, -, -, -, run, -⟩ | ⟨u, ⟨-, frame, map, clean⟩, run, -⟩
    · simp only [allocCluster, run] at full
      omega
    · exact ⟨u, by simp only [allocCluster, run], frame, map, fun idle => (clean idle).2⟩
  · have none : s.vol.maxCluster - 2 = 0 := by omega
    exact ⟨s, by simp only [allocCluster, none, allocFrom], .refl s, fun _ _ => rfl, fun _ => rfl⟩

end Volume

namespace Fs
variable {f : Fs}

/-- A full table: the scan changes neither the table nor a directory. -/
theorem ScanSafe.unchanged {d : Nat} (usable : Usable (f.vol d)) (safe : f.ScanSafe d)
    (full : (allocCluster (f.vol d)).1 = 0) : f.Unchanged (f.putVol d (allocCluster (f.vol d)).2) := by
  have ok : TableRead (f.vol d) :=
    ⟨usable.accepted, ⟨usable.cached, safe.clean⟩, safe.apart, usable.idle⟩
  obtain ⟨t, run, frame, map, clean⟩ := allocCluster_full ok full
  rw [run]
  intro e low mounted
  by_cases here : e = d
  · subst here
    rw [vol_putVol (s := { t with taken := 0 :: t.taken }) frame.diskId]
    refine ⟨map, fun dir isDir => SameDir.entries (sameDir_of_bytes frame.layout frame.root ?_)⟩
    intro chain k inside
    by_cases dirty : (f.vols e).fatCdirty = true
    · refine frame.bytes _ fun table => ?_
      have place : ((f.vols e).clusterToLba ((f.vols e).dirCluster dir) * sectorSize + k) / sectorSize =
          (f.vols e).clusterToLba ((f.vols e).dirCluster dir) + k / sectorSize := by
        simp only [sectorSize]
        omega
      have sector : k / sectorSize < (f.vols e).secPerCluster := Nat.div_lt_of_lt_mul
        (by rw [Nat.mul_comm]; exact inside)
      exact safe.dirs dirty dir isDir chain _ sector (place ▸ table)
    · rw [clean (Bool.eq_false_of_not_eq_true dirty)]
  · obtain ⟨volume, disk⟩ := vol_putVol_ne (f := f) { t with taken := 0 :: t.taken } here
    have bytes : ((f.putVol d { t with taken := 0 :: t.taken }).vol e).disk.bytes = (f.vol e).disk.bytes := by
      rw [disk]
      split
      next shared =>
        have idle : (f.vols d).fatCdirty = false := by
          cases dirty : (f.vols d).fatCdirty with
          | false => rfl
          | true => exact absurd shared (safe.alone dirty e low here mounted)
        exact (clean idle).trans (by simp only [vol, shared])
      · rfl
    refine ⟨fun c _ => congrFun (rawFat_congr volume bytes) c, fun dir _ => ?_⟩
    exact SameDir.entries (sameDir_of_bytes (by rw [volume]; rfl) (by rw [volume]; rfl)
      fun _ _ _ => by rw [bytes])

end Fs

theorem walkPath_mounted {path : List UInt8} {allowMissing : Bool} {f g : Fs} {r : Walk}
    (walk : walkPath path allowMissing f = (some r, g)) : (f.vols r.drive).kind ≠ .none := by
  simp only [walkPath] at walk
  split at walk
  · cases (Prod.mk.inj walk).1
  split at walk
  · cases (Prod.mk.inj walk).1
  split at walk
  · cases (Prod.mk.inj walk).1
  next d _ mounted =>
    obtain ⟨leaf, -⟩ := Prod.mk.inj walk
    obtain ⟨found, -, rfl⟩ := Option.map_eq_some_iff.mp leaf
    exact mounted

theorem Fs.Mounted.walk {path : List UInt8} {allowMissing : Bool} {f g : Fs} {r : Walk}
    (mounted : f.Mounted) (walk : walkPath path allowMissing f = (some r, g)) :
    Usable (g.vol r.drive) := by
  have reads := walkPath_keeps path allowMissing f
  rw [walk] at reads
  have usable := mounted r.drive (walkPath_mounted walk)
  have volume : (g.vol r.drive).vol = (f.vol r.drive).vol := (reads.drive r.drive).vol
  exact ⟨volume ▸ usable.accepted, by simpa only [CacheBound, volume] using usable.cached,
    volume ▸ usable.idle⟩

section Calls
variable {f : Fs}

end Calls

/-- A volume right after fs_mount, on A:. -/
theorem Mounted.single {m : VolState Disk} (mounted : Mounted m) : (Fs.single m).Mounted := by
  intro d kind
  have here : d = 0 := by
    by_contra other
    exact kind (by simp only [Fs.single, if_neg other]; rfl)
  subst here
  exact ⟨mounted.layout, .inl ⟨mounted.csec, mounted.cdirty⟩, fun _ => mounted.csec⟩

end Zenbite.Fat
