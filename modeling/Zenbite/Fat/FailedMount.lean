import Zenbite.Fat.File
import Zenbite.Fat.TableWrap

/-! What a failed fs_mount leaves of the drive's slot. -/

namespace Zenbite.Fat

open Memory VolState

/-- `fs_drive_present`. -/
def fsDrivePresent (letter : UInt8) (f : Fs) : Bool :=
  match driveIdx letter with
  | none => false
  | some idx => decide ((f.vols idx).kind ≠ .none)

/-- No drive appears, and a volume that was there is left as it was. -/
structure LeavesDrive (letter : UInt8) (f g : Fs) : Prop where
  empty : fsDrivePresent letter f = false → fsDrivePresent letter g = false
  occupied : ∀ idx, driveIdx letter = some idx → (f.vols idx).kind ≠ .none → g.vols idx = f.vols idx

/-- The checks of fs_mount on the boot sector. -/
def Header.Rejected (h : Header) : Prop :=
  h.bytesPerSec ≠ sectorSize ∨ h.fatSectors = 0 ∨ h.secPerCluster = 0

instance (h : Header) : Decidable h.Rejected := inferInstanceAs (Decidable (_ ∨ _ ∨ _))

/-- The letter or the disk is wrong; or the drive is empty, and the boot sector
cannot be read or is rejected. -/
def FailsEarly (letter : UInt8) (id : Nat) (f : Fs) : Prop :=
  driveIdx letter = none ∨ (f.disks id).present = false ∨ fsDrivePresent letter f = false ∧
    (((f.disks id).read 0 1 fun _ => 0).1 < 0 ∨ (Header.ofBoot (bootOf (f.disks id))).Rejected)

/-- The drive is empty, or holds a volume with a current directory, as a successful
fs_mount leaves it. -/
def Fs.Settled (f : Fs) (letter : UInt8) : Prop := ∀ idx, driveIdx letter = some idx →
  (f.vols idx).kind ≠ .none → (f.vols idx).cwdPath ≠ []

section Volume
variable {δ : Type} [Device δ]

theorem Header.kind_ne (h : Header) : h.layout.kind ≠ .none := by
  simp only [layout, kindOf]
  intro none
  split at none
  · cases none
  · split at none <;> cases none

/-- Behind the header checks a failure keeps the FAT kind, and sets no path. -/
theorem mountRoot_failed (boot : Buffer) (s : VolState δ) (failed : (mountRoot boot s).1 = -1) :
    (mountRoot boot s).2.vol.kind = s.vol.kind ∧ (mountRoot boot s).2.vol.cwdPath = s.vol.cwdPath := by
  simp only [mountRoot] at failed ⊢
  split at failed
  · split at failed
    next fat32 low =>
      rw [if_pos fat32, if_pos low]
      exact ⟨rfl, rfl⟩
    · cases failed
  next fixed =>
    rw [if_neg fixed]
    split at failed
    next large =>
      rw [if_pos large]
      exact ⟨rfl, rfl⟩
    next fits =>
      rw [if_neg fits]
      split at failed
      next unread =>
        rw [if_pos unread]
        exact ⟨rfl, rfl⟩
      · cases failed

theorem mountFat_failed (boot : Buffer) (s : VolState δ) (failed : (mountFat boot s).1 = -1) :
    (mountFat boot s).2.vol.kind = s.vol.kind ∧ (mountFat boot s).2.vol.cwdPath = s.vol.cwdPath := by
  simp only [mountFat] at failed ⊢
  split at failed
  next fat12 =>
    rw [if_pos fat12]
    split at failed
    next large =>
      rw [if_pos large]
      exact ⟨rfl, rfl⟩
    next fits =>
      rw [if_neg fits]
      split at failed
      next unread =>
        rw [if_pos unread]
        exact ⟨rfl, rfl⟩
      next read =>
        rw [if_neg read]
        exact mountRoot_failed boot _ failed
  next other =>
    rw [if_neg other]
    exact mountRoot_failed boot s failed

end Volume

/-- The slot after a failed mount on a disk that is there. -/
theorem mountVolume_failed {id : Nat} {s : VolState Disk} (present : s.disk.present = true)
    (failed : (mountVolume id s).1 = -1) :
    (mountVolume id s).2.vol.cwdPath = [] ∧ ((mountVolume id s).2.vol.kind = .none ↔
      (s.disk.read 0 1 fun _ => 0).1 < 0 ∨ (Header.ofBoot (bootOf s.disk)).Rejected) := by
  have there : ¬ Device.present s.disk = false := by
    rw [Device.present_disk, present]
    decide
  simp only [mountVolume, if_neg there] at failed ⊢
  by_cases unread : (s.disk.read 0 1 fun _ => 0).1 < 0
  · have first : (s.diskRead 0 1 fun _ => 0).1 < 0 := unread
    rw [if_pos first]
    exact ⟨rfl, fun _ => .inl unread, fun _ => rfl⟩
  · have first : ¬ (s.diskRead 0 1 fun _ => 0).1 < 0 := unread
    have boot : (s.diskRead 0 1 fun _ => 0).2.1 = bootOf s.disk := (Disk.read_ok s.disk _ _ _ unread).2
    rw [if_neg first] at failed ⊢
    rw [boot] at failed ⊢
    by_cases rejected : (Header.ofBoot (bootOf s.disk)).Rejected
    · have checked : (Header.ofBoot (bootOf s.disk)).bytesPerSec ≠ sectorSize ∨
        (Header.ofBoot (bootOf s.disk)).fatSectors = 0 ∨
        (Header.ofBoot (bootOf s.disk)).secPerCluster = 0 := rejected
      rw [if_pos checked]
      exact ⟨rfl, fun _ => .inr rejected, fun _ => rfl⟩
    · have checked : ¬ ((Header.ofBoot (bootOf s.disk)).bytesPerSec ≠ sectorSize ∨
        (Header.ofBoot (bootOf s.disk)).fatSectors = 0 ∨
        (Header.ofBoot (bootOf s.disk)).secPerCluster = 0) := rejected
      rw [if_neg checked] at failed ⊢
      obtain ⟨kind, path⟩ := mountFat_failed _ _ failed
      refine ⟨path, fun none => ?_, fun early => absurd early (not_or.mpr ⟨unread, rejected⟩)⟩
      rw [kind] at none
      exact absurd none (Header.kind_ne _)

/-- A failed fs_mount leaves the drive as the callers expect exactly when it fails
before it touches an occupied slot, and before it sets the kind of an empty one. -/
theorem failed_mount_iff {letter : UInt8} {id : Nat} {f : Fs} (settled : f.Settled letter)
    (failed : (fsMountOn letter id f).1 = -1) :
    LeavesDrive letter f (fsMountOn letter id f).2 ↔ FailsEarly letter id f := by
  simp only [FailsEarly, fsMountOn] at failed ⊢
  cases drive : driveIdx letter with
  | none =>
      refine ⟨fun _ => .inl rfl, fun _ => ⟨fun none => none, fun idx found => ?_⟩⟩
      rw [drive] at found
      cases found
  | some idx =>
      simp only [drive] at failed ⊢
      by_cases present : (f.disks id).present = true
      · have there : ¬ (f.disks id).present = false := by
          rw [present]
          decide
        rw [if_neg there] at failed ⊢
        obtain ⟨path, kind⟩ := mountVolume_failed (s := ⟨f.disks id, f.vols idx, f.fault, f.taken⟩) present
          failed
        have empty (g : Fs) : fsDrivePresent letter g = false ↔ (g.vols idx).kind = .none := by
          simp only [fsDrivePresent, drive, decide_eq_false_iff_not, ne_eq, not_not]
        constructor
        · intro leaves
          right; right
          have none : (f.vols idx).kind = .none := by
            by_contra some
            have same := leaves.occupied idx drive some
            simp only [Function.update_self] at same
            rw [same] at path
            exact settled idx drive some path
          have gone := leaves.empty ((empty f).mpr none)
          rw [empty] at gone
          simp only [Function.update_self] at gone
          exact ⟨(empty f).mpr none, kind.mp gone⟩
        · intro early
          obtain ⟨none, early⟩ := (early.resolve_left nofun).resolve_left there
          refine ⟨fun _ => ?_, fun idx' found some => ?_⟩
          · rw [empty]
            simp only [Function.update_self]
            exact kind.mpr early
          · rw [drive] at found
            obtain rfl := Option.some.inj found
            exact absurd ((empty f).mp none) some
      · rw [Bool.not_eq_true] at present
        rw [if_pos present]
        exact ⟨fun _ => .inr (.inl present), fun _ => ⟨fun none => none, fun _ _ _ => rfl⟩⟩

/-- A: holds a small volume; disk 1 is blank. -/
def oneMounted : Fs :=
  { Fs.single (mountVolume 0 (.fresh floppy .zero)).2 with
    disks := fun id => if id = 0 then floppy else .image 40 fun _ => 0 }

theorem oneMounted_settled (letter : UInt8) : oneMounted.Settled letter := by
  intro idx _ some
  by_cases first : idx = 0
  · have path : (oneMounted.vols 0).cwdPath = ['\\'.toUInt8] := by decide +kernel
    rw [first, path]
    exact List.cons_ne_nil _ _
  · have empty : oneMounted.vols idx = .zero := if_neg first
    rw [empty] at some
    exact absurd rfl some

/-- Mounting the blank disk on B:. -/
theorem failed_mount_empty : LeavesDrive 66 oneMounted (fsMountOn 66 1 oneMounted).2 :=
  (failed_mount_iff (oneMounted_settled 66) (by decide +kernel)).mpr
    (.inr (.inr ⟨by decide +kernel, .inr (by decide +kernel)⟩))

/-- Mounting it on A: fails, and the volume there is gone. -/
theorem failed_mount_wipes : (fsMountOn 65 1 oneMounted).1 = -1 ∧ fsDrivePresent 65 oneMounted = true ∧
    fsDrivePresent 65 (fsMountOn 65 1 oneMounted).2 = false ∧
    ¬ LeavesDrive 65 oneMounted (fsMountOn 65 1 oneMounted).2 := by
  have gone : ((fsMountOn 65 1 oneMounted).2.vols 0).kind = .none := by decide +kernel
  have there : (oneMounted.vols 0).kind ≠ .none := by decide +kernel
  refine ⟨by decide +kernel, by decide +kernel, by decide +kernel, fun leaves => ?_⟩
  have same := leaves.occupied 0 (by decide) there
  rw [same] at gone
  exact there gone

end Zenbite.Fat
