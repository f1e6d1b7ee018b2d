import Zenbite.Vfs

/-! The drive table over runs of fs_init, fs_rescan and fs_unmount. -/

namespace Zenbite

open Memory Fat

instance (d : Disk) : Decidable d.HasTable := inferInstanceAs (Decidable (_ = true))

/-- What the automounter is for: one letter a disk, and partitions instead of
the disk they are on. -/
structure Sys.Once (s : Sys) : Prop where
  distinct : ∀ i j id, i < fsDriveMax → j < fsDriveMax → i ≠ j → s.driveDiskId i = some id →
    s.driveDiskId j ≠ some id
  noTable : ∀ i id, i < fsDriveMax → s.driveDiskId i = some id → id < diskRawMax →
    ¬ (s.blk.raws id).HasTable

inductive Call where
  | init (probe : Probe)
  | rescan (probe : Probe)
  | unmount (letter : UInt8)

namespace Call

def run (s : Sys) : Call → Sys
  | .init probe => (fsInit probe s).2
  | .rescan probe => (fsRescan probe s).2
  | .unmount letter => (fsUnmount letter s).2

/-- The state in which do_mount_all starts. -/
def scanned (s : Sys) : Call → Option Sys
  | .init probe => some (s.setBlk (mbrScanAll (s.blk.diskInit.registerDisks probe)))
  | .rescan probe => some (s.setBlk (mbrScanAll (s.blk.registerDisks probe)))
  | .unmount _ => none

end Call

/-- If this round mounts disk `id`, no drive is on it, and mbr_has_table could
read a table that is there. -/
def Apart (c : Nat × Sys) (id : Nat) : Prop :=
  Mounting c id → (∀ idx, idx < fsDriveMax → c.2.driveDiskId idx ≠ some id) ∧
    (id < diskRawMax → (c.2.blk.raws id).HasTable → (c.2.blk.raws id).answer ⟨false, 0, 1⟩ = .ok)

instance (c : Nat × Sys) (id : Nat) : Decidable (Apart c id) := inferInstanceAs (Decidable (_ → _))

/-- Every round of do_mount_all on `s` is `Apart`. -/
def MountsApart (s : Sys) : Prop :=
  ∀ id, id < diskMax → Apart ((List.range id).foldl mountRound (0, s)) id

instance (s : Sys) : Decidable (MountsApart s) := inferInstanceAs (Decidable (∀ id < diskMax, _))

def CallsApart : List Call → Sys → Prop
  | [], _ => True
  | call :: calls, s => (∀ t ∈ call.scanned s, MountsApart t) ∧ CallsApart calls (call.run s)

instance CallsApart.decidable : ∀ calls s, Decidable (CallsApart calls s)
  | [], _ => .isTrue trivial
  | call :: calls, s =>
    have := CallsApart.decidable calls (call.run s)
    inferInstanceAs (Decidable ((∀ t ∈ call.scanned s, MountsApart t) ∧ _))

/-- `Once` with what keeps it: a mounted drive has nothing to write back. -/
structure Sys.Tidy (s : Sys) : Prop where
  once : s.Once
  clean : ∀ i, i < fsDriveMax → (s.vols i).kind ≠ .none → (s.vols i).Clean

theorem Sys.Tidy.of_same {s t : Sys} (tidy : s.Tidy) (vols : t.vols = s.vols)
    (bytes : ∀ raw, (t.blk.raws raw).bytes = (s.blk.raws raw).bytes) : t.Tidy := by
  have ids (i : Nat) : t.driveDiskId i = s.driveDiskId i := by simp only [driveDiskId, vols]
  refine ⟨⟨fun i j id low also apart here => ?_, fun i id low here raw => ?_⟩, ?_⟩
  · rw [ids] at here ⊢
    exact tidy.once.distinct i j id low also apart here
  · rw [ids] at here
    rw [Disk.HasTable, bytes]
    exact tidy.once.noTable i id low here raw
  · rw [vols]
    exact tidy.clean

theorem OnlyRead.tidy {s t : Sys} (reads : OnlyRead s t) (tidy : s.Tidy) : t.Tidy :=
  tidy.of_same reads.vols fun raw => (reads.raws raw).bytes

theorem driveDiskId_other {idx id : Nat} {s t : Sys} (mounted : MountedOn idx id s t) {i : Nat}
    (other : i ≠ idx) : t.driveDiskId i = s.driveDiskId i := by
  simp only [Sys.driveDiskId, mounted.others i other]

theorem driveDiskId_slot {idx id : Nat} {s t : Sys} (mounted : MountedOn idx id s t) {found : Nat}
    (here : t.driveDiskId idx = some found) : found = id := by
  obtain ⟨kind, named⟩ := Sys.driveDiskId_eq.mp here
  exact named.symm.trans (mounted.named kind)

theorem MountedOn.tidy {idx id : Nat} {s t : Sys} (mounted : MountedOn idx id s t) (tidy : s.Tidy)
    (untaken : ∀ i, i < fsDriveMax → s.driveDiskId i ≠ some id)
    (noTable : id < diskRawMax → ¬ (s.blk.raws id).HasTable) : t.Tidy := by
  refine ⟨⟨fun i j found low also apart here there => ?_, fun i found low here raw => ?_⟩,
    fun i low kind => ?_⟩
  · rcases eq_or_ne i idx with rfl | first
    · rw [driveDiskId_other mounted apart.symm] at there
      exact untaken j also (driveDiskId_slot mounted here ▸ there)
    rcases eq_or_ne j idx with rfl | second
    · rw [driveDiskId_other mounted first] at here
      exact untaken i low (driveDiskId_slot mounted there ▸ here)
    · rw [driveDiskId_other mounted first] at here
      rw [driveDiskId_other mounted second] at there
      exact tidy.once.distinct i j found low also apart here there
  · rw [Disk.HasTable, (mounted.raws found).bytes]
    rcases eq_or_ne i idx with rfl | other
    · obtain rfl := driveDiskId_slot mounted here
      exact noTable raw
    · rw [driveDiskId_other mounted other] at here
      exact tidy.once.noTable i found low here raw
  · rcases eq_or_ne i idx with rfl | other
    · exact mounted.clean
    · rw [mounted.others i other] at kind ⊢
      exact tidy.clean i low kind

end Zenbite
