import Zenbite.Vfs

/-! The partition commands of the shell (builtins.c): each edits a table in
sector 0 and rescans, which numbers the view slots anew under the mounted
drives. -/

namespace Zenbite

open Memory Fat

/-- A command up to its fs_rescan, and whether it gets there. -/
abbrev Edit := Sys → Bool × Sys

def unmountIf (id : Nat) (s : Sys) (idx : Nat) : Sys :=
  if s.driveDiskId idx = some id then (fsUnmountIdx idx s).2 else s

/-- `fs_unmount` of every letter on a disk id. -/
def unmountOn (s : Sys) (id : Nat) : Sys := (List.range fsDriveMax).foldl (unmountIf id) s

/-- The loop body of mkmbr: the drives on view slot `i` if `dev` is its parent. -/
def unmountView (dev : Nat) (s : Sys) (i : Nat) : Sys :=
  if (s.blk.views i).any fun p => p.parent.val == dev then unmountOn s (partSlotBase + i) else s

def firstEmpty (table : List MbrPart) : Option Nat := table.findIdx? fun e => e.type == 0

/-- The range that mkpart asks for, else the largest free one. -/
def mkpartRange (dev start count : Nat) (b : Blk) : Option (Nat × Nat) × Blk :=
  if count ≠ 0 then (some (start, count), b)
  else
    let g := mbrLargestFree dev b
    (g.1.filter fun span => decide (2048 ≤ span.2), g.2)

/-- mkpart behind the check for a table; `type = 0` asks for the default. -/
def mkpartEntry (blob : MbrBlob) (dev : Nat) (type : UInt8) (start count : Nat) (b : Blk) :
    Bool × Blk :=
  let g := mkpartRange dev start count b
  match g.1 with
  | none => (false, g.2)
  | some span =>
    let r := mbrRead dev g.2
    let table := r.1.getD noTable
    match firstEmpty table with
    | none => (false, r.2)
    | some slot =>
      let c := mbrCreatePartition blob dev slot
        (if type = 0 then mbrSuggestType span.2 else type) span.1 span.2
        (!table.any fun e => e.boot == 0x80) r.2
      (decide (0 ≤ c.1), c.2)

/-- A disk without a table gets one. -/
def mkpartTable (blob : MbrBlob) (dev : Nat) (b : Blk) : Int × Blk :=
  let h := mbrHasTable dev b
  if h.1 then (0, h.2) else mbrInitDisk blob dev h.2

def mkpartEdit (blob : MbrBlob) (dev : Nat) (type : UInt8) (start count : Nat) : Edit := fun s =>
  let i := mkpartTable blob dev s.blk
  if i.1 < 0 then (false, s.setBlk i.2)
  else
    let e := mkpartEntry blob dev type start count i.2
    (e.1, s.setBlk e.2)

def delpartEdit (blob : MbrBlob) (dev slot : Nat) : Edit := fun s =>
  if mbrPartMax ≤ slot then (false, s)
  else
    let t := match mbrViewFor dev slot s.blk with
      | none => s
      | some view => unmountOn s view
    let d := mbrDeletePartition blob dev slot t.blk
    (decide (0 ≤ d.1), t.setBlk d.2)

/-- setactive does not rescan. -/
def setactiveEdit (blob : MbrBlob) (dev slot : Nat) : Edit := fun s =>
  if mbrPartMax ≤ slot then (false, s)
  else (false, s.setBlk (mbrSetActive blob dev slot s.blk).2)

def mkmbrEdit (blob : MbrBlob) (dev : Nat) : Edit := fun s =>
  let t := (List.range partSlotMax).foldl (unmountView dev) s
  let w := mbrInitDisk blob dev t.blk
  (decide (0 ≤ w.1), t.setBlk w.2)

/-- The commands, on devices that raw_from_arg has resolved, and fs_rescan itself. -/
inductive PartCmd where
  | mkmbr (dev : Fin diskRawMax)
  | mkpart (dev : Fin diskRawMax) (type : UInt8) (start count : Nat)
  | delpart (dev : Fin diskRawMax) (slot : Nat)
  | setactive (dev : Fin diskRawMax) (slot : Nat)
  | rescan

namespace PartCmd

def edit (blob : MbrBlob) : PartCmd → Edit
  | .mkmbr dev => mkmbrEdit blob dev
  | .mkpart dev type start count => mkpartEdit blob dev type start count
  | .delpart dev slot => delpartEdit blob dev slot
  | .setactive dev slot => setactiveEdit blob dev slot
  | .rescan => fun s => (true, s)

/-- A command with what the drivers find if it rescans. -/
def run (blob : MbrBlob) (s : Sys) (c : PartCmd × Probe) : Sys :=
  let e := c.1.edit blob s
  if e.1 then (fsRescan c.2 e.2).2 else e.2

end PartCmd

/-- A request through drive `i` fails or is one on the drive's area. -/
def Sys.Stays (s : Sys) (i : Nat) (a : Access) : Prop :=
  ∀ id ∈ s.driveDiskId i, ∀ raw x, s.blk.request id a = some (raw, x) →
    raw = (s.areas i).parent ∧ x = { a with lba := (s.areas i).start + a.lba } ∧
      a.lba + a.count ≤ (s.areas i).sectors

/-- Every drive was mounted on what its disk id stands for. -/
def Sys.Recorded (s : Sys) : Prop :=
  ∀ i, i < fsDriveMax → ∀ id ∈ s.driveDiskId i, s.areas i = s.blk.area id

instance (s : Sys) : Decidable s.Recorded := inferInstanceAs (Decidable (∀ i < _, _))

/-- A partition that starts where the area does and is no longer. -/
def Part.Within (p : Part) (a : Area) : Prop :=
  p.parent = a.parent ∧ p.offset = a.start ∧ p.sectors ≤ a.sectors

instance (p : Part) (a : Area) : Decidable (p.Within a) := inferInstanceAs (Decidable (_ ∧ _ ∧ _))

/-- The tables on the disks list no other partition at the number of a mounted view. -/
def Sys.InPlace (s : Sys) (probe : Probe) : Prop :=
  ∀ i, i < fsDriveMax → ∀ id ∈ s.driveDiskId i, partSlotBase ≤ id → id < diskMax →
    ∀ p ∈ (foundParts (s.blk.registerDisks probe))[id - partSlotBase]?, p.Within (s.areas i)

instance (s : Sys) (probe : Probe) : Decidable (s.InPlace probe) :=
  inferInstanceAs (Decidable (∀ i < _, _))

/-- Every rescan of the run finds the mounted partitions in place. -/
def InPlaceRun (blob : MbrBlob) : List (PartCmd × Probe) → Sys → Prop
  | [], _ => True
  | c :: cmds, s =>
    ((c.1.edit blob s).1 = true → (c.1.edit blob s).2.InPlace c.2) ∧
      InPlaceRun blob cmds (PartCmd.run blob s c)

instance InPlaceRun.decidable (blob : MbrBlob) : ∀ cmds s, Decidable (InPlaceRun blob cmds s)
  | [], _ => .isTrue trivial
  | c :: cmds, s =>
    have := InPlaceRun.decidable blob cmds (PartCmd.run blob s c)
    inferInstanceAs (Decidable (_ ∧ _))

/-- What a disk id stands for, against a recorded area. -/
def Blk.Matches (b : Blk) (id : Nat) (a : Area) : Prop :=
  if id < diskRawMax then a = ⟨id, 0, 2 ^ 32⟩ else ∀ p ∈ b.views (id - partSlotBase), p.Within a

/-- The invariant that couples drives and views. -/
def Sys.Coupled (s : Sys) : Prop :=
  ∀ i, i < fsDriveMax → ∀ id ∈ s.driveDiskId i, s.blk.Matches id (s.areas i)

theorem Blk.matches_area (b : Blk) (id : Nat) : b.Matches id (b.area id) := by
  simp only [Matches, area]
  split
  · rfl
  · intro p found
    rw [Option.mem_def] at found
    rw [found]
    exact ⟨rfl, rfl, Nat.le_refl _⟩

theorem Sys.Recorded.coupled {s : Sys} (recorded : s.Recorded) : s.Coupled := by
  intro i low id here
  rw [recorded i low id here]
  exact s.blk.matches_area id

theorem Sys.Coupled.of_same {s t : Sys} (coupled : s.Coupled) (views : t.blk.views = s.blk.views)
    (vols : t.vols = s.vols) (areas : t.areas = s.areas) : t.Coupled := by
  intro i low id here
  simp only [driveDiskId, vols] at here
  simp only [Blk.Matches, views, areas]
  exact coupled i low id here

/-- The law for one request that does not wrap around. -/
theorem Sys.Coupled.stays {s : Sys} (coupled : s.Coupled) {i : Nat} (low : i < fsDriveMax)
    {a : Access} (request : a.lba + a.count < 2 ^ 32) (sector : (s.areas i).start + a.lba < 2 ^ 32) :
    s.Stays i a := by
  intro id here raw x sent
  have stands := coupled i low id here
  simp only [Blk.request, Blk.Matches] at sent stands
  split at sent
  next rawDisk =>
    rw [if_pos rawDisk] at stands
    split at sent
    · obtain ⟨rfl, rfl⟩ := Prod.mk.inj (Option.some.inj sent)
      rw [stands]
      exact ⟨rfl, by simp, Nat.le_of_lt request⟩
    · cases sent
  next view =>
    rw [if_neg view] at stands
    split at sent
    · split at sent
      · cases sent
      next p found =>
        obtain ⟨parent, offset, fits⟩ := stands p found
        split at sent
        next admitted =>
          obtain ⟨rfl, rfl⟩ := Prod.mk.inj (Option.some.inj sent)
          have inside : u32 (a.lba + a.count) ≤ p.sectors := admitted.1
          rw [u32_of_lt request] at inside
          refine ⟨parent, ?_, Nat.le_trans inside fits⟩
          rw [Part.shift, offset, u32_of_lt sector]
        · cases sent
    · cases sent

/-- A rescan that finds the mounted partitions in place. -/
theorem Sys.Coupled.scan {s : Sys} {probe : Probe} (coupled : s.Coupled)
    (inPlace : s.InPlace probe) :
    (s.setBlk (mbrScanAll (s.blk.registerDisks probe))).Coupled := by
  intro i low id here
  have before := coupled i low id here
  simp only [Blk.Matches, setBlk] at before ⊢
  split at before
  next raw => rwa [if_pos raw]
  next view =>
    rw [if_neg view]
    intro p found
    have slots := mbrScanAll_views (s.blk.registerDisks probe) (id - partSlotBase)
    rw [Option.mem_def] at found
    rw [found] at slots
    have base : partSlotBase ≤ id := Nat.le_of_not_lt view
    split at slots
    next inside =>
      refine inPlace i low id here base ?_ p slots.symm
      simp only [partSlotBase, partSlotMax, diskMax] at inside base ⊢
      omega
    · cases slots

theorem fsMount_coupled {idx id : Nat} {s : Sys} (coupled : s.Coupled) :
    (fsMount idx id s).2.Coupled := by
  by_cases present : s.blk.present id = true
  · have mounted := fsMount_slot idx present
    intro i low found here
    rcases eq_or_ne i idx with rfl | other
    · obtain ⟨kind, named⟩ := Sys.driveDiskId_eq.mp here
      have same : found = id := named.symm.trans (mounted.named kind)
      simp only [same, mounted.areas, Function.update_self, Blk.Matches, mounted.views]
      exact s.blk.matches_area id
    · simp only [Sys.driveDiskId, mounted.others i other] at here
      simp only [mounted.areas, Function.update_of_ne other, Blk.Matches, mounted.views]
      exact coupled i low found here
  · simp only [fsMount, present, if_true]
    exact coupled

theorem mountRound_coupled {c : Nat × Sys} {id : Nat} (coupled : c.2.Coupled) :
    (mountRound c id).2.Coupled := by
  rcases mountRound_cases c id with reads | ⟨-, idx, t, reads, -, -, result⟩
  · exact coupled.of_same reads.views reads.vols reads.areas
  · rw [result]
    exact fsMount_coupled (coupled.of_same reads.views reads.vols reads.areas)

theorem doMountAll_coupled {s : Sys} (coupled : s.Coupled) : (doMountAll s).2.Coupled :=
  List.foldlRecOn _ mountRound (motive := fun c => c.2.Coupled) coupled
    fun _ coupled _ _ => mountRound_coupled coupled

theorem fsRescan_coupled {s : Sys} {probe : Probe} (coupled : s.Coupled)
    (inPlace : s.InPlace probe) : (fsRescan probe s).2.Coupled := by
  simp only [fsRescan]
  exact doMountAll_coupled (coupled.scan inPlace)

/-- Unmounting leaves the views and the other drives alone. -/
theorem fsUnmountIdx_coupled {idx : Nat} {s : Sys} (coupled : s.Coupled) :
    (fsUnmountIdx idx s).2.Coupled := by
  simp only [fsUnmountIdx]
  split
  · exact coupled
  · have views := BlkDev.traffic_views ((flushFat_traffic (s.volState idx (s.vols idx).diskId)).trans
      (flushRoot_traffic _))
    intro i low id here
    simp only [Sys.driveDiskId, Sys.setVol, Sys.putVol, Function.update_idem,
      Function.update_apply] at here
    split at here
    · simp [FatVolume.zero] at here
    · have before := coupled i low id here
      simp only [Blk.Matches, Sys.setVol, Sys.putVol] at before ⊢
      rw [views]
      exact before

theorem unmountOn_coupled {s : Sys} (id : Nat) (coupled : s.Coupled) :
    (unmountOn s id).Coupled := by
  refine List.foldlRecOn _ (unmountIf id) (motive := Sys.Coupled) coupled
    fun t coupled idx _ => ?_
  simp only [unmountIf]
  split
  · exact fsUnmountIdx_coupled coupled
  · exact coupled

theorem unmountViews_coupled {s : Sys} (dev : Nat) (coupled : s.Coupled) :
    ((List.range partSlotMax).foldl (unmountView dev) s).Coupled := by
  refine List.foldlRecOn _ (unmountView dev) (motive := Sys.Coupled) coupled
    fun t coupled i _ => ?_
  simp only [unmountView]
  split
  · exact unmountOn_coupled _ coupled
  · exact coupled

section Touches
variable (blob : MbrBlob) (dev : Fin diskRawMax) (b : Blk)

theorem mkpartTable_touches : b.Touches dev (mkpartTable blob dev b).2 := by
  have reads : b.Touches dev (mbrHasTable dev b).2 := mbrRead_touches dev.isLt b
  simp only [mkpartTable]
  split
  · exact reads
  · exact reads.trans (mbrInitDisk_touches dev.isLt blob _)

theorem mkpartEntry_touches (type : UInt8) (start count : Nat) :
    b.Touches dev (mkpartEntry blob dev type start count b).2 := by
  have range : b.Touches dev (mkpartRange dev start count b).2 := by
    simp only [mkpartRange]
    split
    · exact .refl _ b
    · exact mbrLargestFree_touches dev.isLt b
  simp only [mkpartEntry]
  split
  · exact range
  · split
    · exact range.trans (mbrRead_touches dev.isLt _)
    · exact (range.trans (mbrRead_touches dev.isLt _)).trans
        (mbrCreatePartition_touches dev.isLt blob _ _ _ _ _ _)

end Touches

theorem PartCmd.edit_coupled (blob : MbrBlob) (cmd : PartCmd) {s : Sys} (coupled : s.Coupled) :
    (cmd.edit blob s).2.Coupled := by
  cases cmd with
  | mkmbr dev =>
      exact (unmountViews_coupled dev coupled).of_same (mbrInitDisk_touches dev.isLt blob _).views rfl rfl
  | mkpart dev type start count =>
      have table := mkpartTable_touches blob dev s.blk
      simp only [edit, mkpartEdit]
      split
      · exact coupled.of_same table.views rfl rfl
      · exact coupled.of_same (table.trans (mkpartEntry_touches blob dev _ type start count)).views
          rfl rfl
  | delpart dev slot =>
      have deleted {t : Sys} (coupled : t.Coupled) :
          (t.setBlk (mbrDeletePartition blob dev slot t.blk).2).Coupled :=
        coupled.of_same (mbrDeletePartition_touches dev.isLt blob _ slot).views rfl rfl
      simp only [edit, delpartEdit]
      split
      · exact coupled
      · split
        · exact deleted coupled
        next view _ => exact deleted (unmountOn_coupled view coupled)
  | setactive dev slot =>
      simp only [edit, setactiveEdit]
      split
      · exact coupled
      · exact coupled.of_same (mbrSetActive_touches dev.isLt blob _ slot).views rfl rfl
  | rescan => exact coupled

/-- Drives over every run whose rescans find the mounted partitions in place. -/
theorem drives_stay {blob : MbrBlob} {cmds : List (PartCmd × Probe)} {s : Sys}
    (recorded : s.Recorded) (inPlace : InPlaceRun blob cmds s) {i : Nat} (low : i < fsDriveMax)
    {a : Access} (request : a.lba + a.count < 2 ^ 32)
    (sector : ((cmds.foldl (PartCmd.run blob) s).areas i).start + a.lba < 2 ^ 32) :
    (cmds.foldl (PartCmd.run blob) s).Stays i a := by
  have fold (cmds : List (PartCmd × Probe)) : ∀ s : Sys, s.Coupled → InPlaceRun blob cmds s →
      (cmds.foldl (PartCmd.run blob) s).Coupled := by
    induction cmds with
    | nil => exact fun s coupled _ => coupled
    | cons c cmds ih =>
        intro s coupled inPlace
        refine ih _ ?_ inPlace.2
        have edited := c.1.edit_coupled blob coupled
        simp only [PartCmd.run]
        split
        next scans => exact fsRescan_coupled edited (inPlace.1 scans)
        · exact edited
  exact (fold cmds s recorded.coupled inPlace).stays low request sector

/-- Three FAT12 volumes in three partitions, mounted on A:, B: and C: at boot. -/
def threeParts : Disk := .image 4096 fun a =>
  if a < sectorSize then
    putTable (fun _ => 0) [⟨0, 0x0E, 100, 40⟩, ⟨0, 0x0E, 200, 40⟩, ⟨0, 0x0E, 300, 40⟩] a
  else Header.bootSector ⟨512, 1, 1, 2, 16, 1, 40⟩ 0 (a % (100 * sectorSize))

def largeDisk : Probe := fun id => if id = 0 then some 4096 else none

def partitioned : Sys := (fsInit largeDisk (.powerOn fun _ => threeParts)).2

def chainloader : MbrBlob := ⟨fun _ => 0, 512⟩

/-- Deleting the last partition and making it again. -/
theorem partitioned_stays :
    ([(.delpart 0 2, largeDisk), (.mkpart 0 0 0 0, largeDisk), (.setactive 0 1, largeDisk)].foldl
      (PartCmd.run chainloader) partitioned).Stays 1 ⟨true, 3, 1⟩ :=
  drives_stay (by decide +kernel) (by decide +kernel) (by decide) (by decide) (by decide +kernel)

/-- B: holds view 17. After `delpart` of the first partition that view is the
third partition. -/
theorem delpart_moves_drive :
    partitioned.Recorded ∧ partitioned.driveDiskId 1 = some 17 ∧
      partitioned.areas 1 = ⟨0, 200, 40⟩ ∧
      ([(.delpart 0 0, largeDisk)].foldl (PartCmd.run chainloader) partitioned).areas 1 =
        partitioned.areas 1 ∧
      ¬ ([(.delpart 0 0, largeDisk)].foldl (PartCmd.run chainloader) partitioned).Stays 1
        ⟨false, 0, 1⟩ := by
  refine ⟨by decide +kernel, by decide +kernel, by decide +kernel, by decide +kernel,
    fun stays => ?_⟩
  have moved := stays 17 (by decide +kernel) 0 ⟨false, 300, 1⟩ (by decide +kernel)
  exact absurd moved (by decide +kernel)

end Zenbite
