import Zenbite.Fat.Path
import Zenbite.Mbr

/-! Drive letters (fat.c) and their mounting at boot and on a rescan (vfs.c). -/

namespace Zenbite

open Memory Fat

/-- Ghost: the sectors of a raw disk that a disk id stands for. -/
structure Area where
  parent : Nat
  start : Nat
  sectors : Nat
  deriving DecidableEq, Repr

/-- A raw disk is addressed with any 32-bit sector number. -/
def Blk.area (b : Blk) (id : Nat) : Area :=
  if id < diskRawMax then ⟨id, 0, 2 ^ 32⟩
  else
    match b.views (id - partSlotBase) with
    | none => ⟨id, 0, 0⟩
    | some p => ⟨p.parent, p.offset, p.sectors⟩

/-- `disks[]`, `vols[]` and `current_drive`. Two ghost fields: `areas` records
what each drive stood for when fs_mount filled its slot, `fault` an access
outside a fixed buffer. -/
structure Sys where
  blk : Blk
  vols : Nat → FatVolume
  currentDrive : Option Nat
  areas : Nat → Area
  fault : Bool

namespace Sys

def setBlk (s : Sys) (b : Blk) : Sys := { s with blk := b }

def setArea (s : Sys) (idx : Nat) (a : Area) : Sys :=
  { s with areas := Function.update s.areas idx a }

def setVol (s : Sys) (idx : Nat) (v : FatVolume) : Sys :=
  { s with vols := Function.update s.vols idx v }

def setCurrent (s : Sys) (idx : Nat) : Sys :=
  { s with currentDrive := some (s.currentDrive.getD idx) }

/-- Drive `idx` over disk `id`, as the volume functions of fat.c see it. -/
def volState (s : Sys) (idx id : Nat) : VolState BlkDev := ⟨⟨s.blk, id⟩, s.vols idx, s.fault, []⟩

def putVol (s : Sys) (idx : Nat) (v : VolState BlkDev) : Sys :=
  { s with blk := v.disk.blk, vols := Function.update s.vols idx v.vol, fault := v.fault }

/-- fs_drive_present. -/
def drivePresent (s : Sys) (idx : Nat) : Bool := decide ((s.vols idx).kind ≠ .none)

/-- fs_drive_disk_id; `none` for -1. -/
def driveDiskId (s : Sys) (idx : Nat) : Option Nat :=
  if (s.vols idx).kind = .none then none else some (s.vols idx).diskId

/-- Static memory at power-on. -/
def powerOn (raws : Nat → Disk) : Sys where
  blk := ⟨raws, Slots.clear⟩
  vols := fun _ => .zero
  currentDrive := none
  areas := fun _ => ⟨0, 0, 0⟩
  fault := false

end Sys

/-- fs_mount with the letter resolved. -/
def fsMount (idx id : Nat) (s : Sys) : Int × Sys :=
  if s.blk.present id = false then (-1, s)
  else
    let r := mountVolume id (s.volState idx id)
    let t := (s.putVol idx r.2).setArea idx (s.blk.area id)
    (r.1, if r.1 = 0 then t.setCurrent idx else t)

/-- fs_unmount with the letter resolved; the results of the flushes are dropped. -/
def fsUnmountIdx (idx : Nat) (s : Sys) : Int × Sys :=
  if (s.vols idx).kind = .none then (-1, s)
  else
    let v := (flushRoot (flushFat (s.volState idx (s.vols idx).diskId)).2).2
    (0, (s.putVol idx v).setVol idx .zero)

def fsUnmount (letter : UInt8) (s : Sys) : Int × Sys :=
  match driveIdx letter with
  | none => (-1, s)
  | some idx => fsUnmountIdx idx s

/-- The `while` loop of do_mount_all: the next letter without a volume. -/
def nextFree (s : Sys) : Nat → Nat → Nat
  | 0, mounted => mounted
  | n + 1, mounted => if s.drivePresent mounted then nextFree s n (mounted + 1) else mounted

/-- `id < DISK_RAW_MAX && mbr_has_table(id)`. -/
def rawHasTable (id : Nat) (b : Blk) : Bool × Blk :=
  if id < diskRawMax then mbrHasTable id b else (false, b)

/-- One round of do_mount_all on the counter `mounted`. The loop ends once the
counter has passed the last letter. -/
def mountRound (c : Nat × Sys) (id : Nat) : Nat × Sys :=
  if fsDriveMax ≤ c.1 then c
  else if c.2.blk.present id = false then c
  else if c.2.driveDiskId c.1 = some id then c
  else
    let t := rawHasTable id c.2.blk
    let s := c.2.setBlk t.2
    if t.1 then (c.1, s)
    else
      let mounted := nextFree s (fsDriveMax - c.1) c.1
      if fsDriveMax ≤ mounted then (mounted, s)
      else
        let r := fsMount mounted id s
        (if r.1 = 0 then mounted + 1 else mounted, r.2)

def doMountAll (s : Sys) : Nat × Sys := (List.range diskMax).foldl mountRound (0, s)

/-- What the drivers find: the sector count of each disk that answers. -/
abbrev Probe := Nat → Option Nat

/-- ata_init .. ehci_msc_register_disks. A disk that does not answer stays. -/
def Blk.registerDisks (b : Blk) (probe : Probe) : Blk :=
  { b with raws := fun id =>
      match probe id with
      | none => b.raws id
      | some n => { b.raws id with present := true, sectors := n } }

/-- disk_init. -/
def Blk.diskInit (b : Blk) : Blk where
  raws := fun id => { b.raws id with present := false }
  views := Slots.clear

def fsInit (probe : Probe) (s : Sys) : Int × Sys :=
  let r := doMountAll (s.setBlk (mbrScanAll (s.blk.diskInit.registerDisks probe)))
  (if r.1 = 0 then -1 else 0, r.2)

def fsRescan (probe : Probe) (s : Sys) : Int × Sys :=
  let r := doMountAll (s.setBlk (mbrScanAll (s.blk.registerDisks probe)))
  (0, r.2)

/-! What each operation can do to the drive table. -/

namespace Sys

theorem driveDiskId_eq {s : Sys} {idx id : Nat} :
    s.driveDiskId idx = some id ↔ (s.vols idx).kind ≠ .none ∧ (s.vols idx).diskId = id := by
  simp only [driveDiskId]
  split <;> simp_all

end Sys

/-- The slot of drive `idx` after fs_mount of `id`, everything else in place. -/
structure MountedOn (idx id : Nat) (s t : Sys) : Prop where
  views : t.blk.views = s.blk.views
  raws : ∀ raw, (s.blk.raws raw).Same (t.blk.raws raw)
  others : ∀ other, other ≠ idx → t.vols other = s.vols other
  areas : t.areas = Function.update s.areas idx (s.blk.area id)
  clean : (t.vols idx).Clean
  named : (t.vols idx).kind ≠ .none → (t.vols idx).diskId = id

theorem fsMount_slot (idx : Nat) {id : Nat} {s : Sys} (present : s.blk.present id = true) :
    MountedOn idx id s (fsMount idx id s).2 := by
  have traffic := mountVolume_traffic id (s.volState idx id)
  have views := BlkDev.traffic_views traffic
  have raws := BlkDev.reads_same traffic
  obtain ⟨clean, named⟩ := mountVolume_slot id (s.volState idx id) present
  simp only [fsMount, present, Bool.true_eq_false, if_false]
  split
  · exact ⟨views, raws, fun other apart => Function.update_of_ne apart _ _, rfl,
      by simpa [Sys.putVol, Sys.setArea, Sys.setCurrent] using clean,
      by simpa [Sys.putVol, Sys.setArea, Sys.setCurrent] using named⟩
  · exact ⟨views, raws, fun other apart => Function.update_of_ne apart _ _, rfl,
      by simpa [Sys.putVol, Sys.setArea] using clean,
      by simpa [Sys.putVol, Sys.setArea] using named⟩

/-- Reads between two states; the drive table is the same. -/
structure OnlyRead (s t : Sys) : Prop where
  views : t.blk.views = s.blk.views
  raws : ∀ raw, (s.blk.raws raw).Same (t.blk.raws raw)
  vols : t.vols = s.vols
  areas : t.areas = s.areas

theorem OnlyRead.refl (s : Sys) : OnlyRead s s := ⟨rfl, fun _ => .refl _, rfl, rfl⟩

theorem OnlyRead.rawHasTable (id : Nat) (s : Sys) :
    OnlyRead s (s.setBlk (rawHasTable id s.blk).2) := by
  simp only [Zenbite.rawHasTable]
  split
  · exact ⟨mbrRead_views id s.blk, mbrRead_same id s.blk, rfl, rfl⟩
  · exact .refl s

theorem tableOn_of_rawHasTable {id : Nat} {b : Blk} (skipped : ¬ (rawHasTable id b).1 = true)
    (raw : id < diskRawMax) : tableOn (b.raws id) = none := by
  rw [rawHasTable, if_pos raw] at skipped
  have nothing : (mbrRead id b).1 = none := by simpa [mbrHasTable] using skipped
  rwa [mbrRead_table ⟨id, raw⟩] at nothing

/-- When a round of do_mount_all comes to call fs_mount. -/
def Mounting (c : Nat × Sys) (id : Nat) : Prop :=
  c.2.blk.present id = true ∧ c.2.driveDiskId c.1 ≠ some id ∧
    (id < diskRawMax → tableOn (c.2.blk.raws id) = none) ∧
    ∃ idx, idx < fsDriveMax ∧ c.1 ≤ idx ∧ c.2.drivePresent idx = false

instance (c : Nat × Sys) (id : Nat) : Decidable (Mounting c id) :=
  inferInstanceAs (Decidable (_ ∧ _ ∧ _ ∧ _))

theorem nextFree_ge (s : Sys) : ∀ n mounted, mounted ≤ nextFree s n mounted := by
  intro n
  induction n with
  | zero => exact fun mounted => Nat.le_refl _
  | succ n ih =>
      intro mounted
      simp only [nextFree]
      split
      · exact Nat.le_of_succ_le (ih (mounted + 1))
      · exact Nat.le_refl _

theorem nextFree_free (s : Sys) : ∀ n mounted, nextFree s n mounted < mounted + n →
    s.drivePresent (nextFree s n mounted) = false := by
  intro n
  induction n with
  | zero => exact fun mounted found => absurd found (by simp [nextFree])
  | succ n ih =>
      intro mounted found
      simp only [nextFree] at found ⊢
      split at found
      next full =>
        rw [if_pos full]
        exact ih _ (by omega)
      next free =>
        rw [if_neg free]
        simpa using free

/-- A round either only reads, or calls fs_mount on a letter that is free. -/
theorem mountRound_cases (c : Nat × Sys) (id : Nat) :
    OnlyRead c.2 (mountRound c id).2 ∨
      Mounting c id ∧ ∃ idx s, OnlyRead c.2 s ∧ idx < fsDriveMax ∧ s.drivePresent idx = false ∧
        (mountRound c id).2 = (fsMount idx id s).2 := by
  simp only [mountRound]
  split
  · exact .inl (.refl _)
  next counter =>
    split
    · exact .inl (.refl _)
    next present =>
      split
      · exact .inl (.refl _)
      next elsewhere =>
        have reads := OnlyRead.rawHasTable id c.2
        split
        · exact .inl reads
        next skipped =>
          split
          · exact .inl reads
          next room =>
            have free := nextFree_free (c.2.setBlk (rawHasTable id c.2.blk).2) (fsDriveMax - c.1)
              c.1 (by omega)
            have low := nextFree_ge (c.2.setBlk (rawHasTable id c.2.blk).2) (fsDriveMax - c.1) c.1
            exact .inr ⟨⟨by simpa using present, elsewhere, tableOn_of_rawHasTable skipped, _,
              by omega, low, free⟩, _, _, reads, by omega, free, rfl⟩

end Zenbite
