import Zenbite.Fat.CallFrames

/-! No call of a run leaves the static buffers, as long as the boot sectors that
are mounted and the handles that are written through fit them. -/

namespace Zenbite.Fat

open Memory VolState

namespace Fs

/-- No buffer was left, and the volumes fit. -/
structure Roomy (f : Fs) : Prop where
  fault : f.fault = false
  fits : f.Fits

theorem Roomy.calm {f g : Fs} {p : Prop} (roomy : f.Roomy) (calm : Calm p f g) (ok : p) : g.Roomy :=
  ⟨(calm.fault roomy.fits ok).trans roomy.fault, calm.fits roomy.fits⟩

end Fs

theorem fsMountOn_roomy {f : Fs} (roomy : f.Roomy) (letter : UInt8) (id : Nat)
    (fits : driveIdx letter ≠ none → (f.disks id).present = true →
      (f.disks id).answer ⟨false, 0, 1⟩ = .ok → (Layout.left (bootOf (f.disks id))).Fits) :
    (fsMountOn letter id f).2.Roomy := by
  simp only [fsMountOn]
  split
  · exact roomy
  next idx drive =>
    split
    · exact roomy
    next there =>
      have present : (f.disks id).present = true := by simpa using there
      have next := fits (by rw [drive]; exact Option.some_ne_none idx) present
      have left := mountVolume_left (s := ⟨f.disks id, f.vols idx, f.fault, f.taken⟩) id present
      have fault := mountVolume_roomy (s := ⟨f.disks id, f.vols idx, f.fault, f.taken⟩) id next
      refine ⟨fault.trans roomy.fault, fun e => ?_⟩
      simp only [Function.update_apply]
      split
      · rcases left with zero | ⟨answer, layout⟩
        · rw [zero]
          exact Layout.Fits.zero
        · rw [layout]
          exact next answer
      · exact roomy.fits e

theorem fsUnmountOf_roomy {f : Fs} (roomy : f.Roomy) (letter : UInt8) :
    (fsUnmountOf letter f).2.Roomy := by
  simp only [fsUnmountOf]
  split
  · exact roomy
  next idx _ =>
    split
    · exact roomy
    · have flush := (flushFat_quiet (f.vol idx)).trans (flushRoot_quiet _) fun ok => ok
      refine ⟨(flush.fault trivial).trans roomy.fault, fun e => ?_⟩
      simp only [Fs.putVol, Function.update_apply]
      split
      · exact Layout.Fits.zero
      · exact roomy.fits e

theorem FsCall.next_roomy (call : FsCall) (s : FileSys) (roomy : s.toFs.Roomy) (fits : call.Fits s) :
    (call.next s).toFs.Roomy := by
  cases call with
  | mount letter id => exact fsMountOn_roomy roomy letter id fits
  | unmount letter => exact fsUnmountOf_roomy roomy letter
  | opens path =>
      obtain ⟨g, calm, run | ⟨h, x, run, -⟩⟩ := fsOpen_cases path s.toFs
      all_goals
        have after := roomy.calm calm trivial
        simp only [next, FileSys.setFs, run]
        exact ⟨after.fault, after.fits⟩
  | _ => exact roomy.calm (next_calm rfl rfl) fits

/-! Where a path leads. -/

theorem findFrom_lt {buf : Buffer} {name83 : List UInt8} : ∀ {n i j : Nat},
    findFrom buf name83 n i = some j → j < i + n := by
  intro n
  induction n with
  | zero => exact fun found => by simp [findFrom] at found
  | succ n ih =>
      intro i j found
      simp only [findFrom] at found
      split at found
      · cases found
      split at found
      · have := ih found
        omega
      split at found
      · obtain rfl := Option.some.inj found
        omega
      · have := ih found
        omega

section Leaf
variable {s : VolState Disk}

/-- A found entry lies in the buffer of its directory. -/
theorem findInDir_inside (fits : s.vol.toLayout.Fits) {d off : Nat} {name83 : List UInt8} {e : Buffer}
    (found : (findInDir d name83 s).1 = some (e, off)) : off + 32 ≤ s.vol.dirBuf d := by
  have size : ∀ buf n, (loadDir d s).1 = some (buf, n) → n ≤ s.vol.dirBuf d := by
    intro buf n loaded
    simp only [loadDir] at loaded
    split at loaded
    next fixed =>
      obtain ⟨-, rfl⟩ := Prod.mk.inj (Option.some.inj loaded)
      rw [FatVolume.dirBuf, if_pos fixed]
      exact Nat.mul_le_mul_right sectorSize (fits.root fixed.2)
    next chain =>
      split at loaded
      · cases loaded
      · obtain ⟨-, rfl⟩ := Prod.mk.inj (Option.some.inj loaded)
        rw [FatVolume.dirBuf, if_neg chain]
        exact Nat.mul_le_mul_right sectorSize fits.cluster
  simp only [findInDir] at found
  split at found
  · cases found
  next buf n loaded =>
    have room := size buf n loaded
    obtain ⟨i, slot, place⟩ := Option.map_eq_some_iff.mp found
    obtain ⟨-, rfl⟩ := Prod.mk.inj place
    have := findFrom_lt slot
    omega

theorem walkLeaf_inside (fits : s.vol.toLayout.Fits) {comp : List UInt8} {allowMissing : Bool}
    {cluster : Nat} {leaf : Leaf} {e : Buffer} {off : Nat}
    (walk : (walkLeaf comp allowMissing cluster s).1 = some leaf) (found : leaf.entry = some (e, off)) :
    off + 32 ≤ s.vol.dirBuf leaf.parent := by
  simp only [walkLeaf] at walk
  split at walk
  · obtain rfl := Option.some.inj walk
    cases found
  split at walk
  · obtain rfl := Option.some.inj walk
    cases found
  · split at walk
    · split at walk
      · obtain rfl := Option.some.inj walk
        cases found
      · cases walk
    next here =>
      obtain rfl := Option.some.inj walk
      obtain rfl := Option.some.inj found
      exact findInDir_inside fits here

theorem walkVolume_inside (fits : s.vol.toLayout.Fits) {path : List UInt8} {allowMissing : Bool}
    {leaf : Leaf} {e : Buffer} {off : Nat} (walk : (walkVolume path allowMissing s).1 = some leaf)
    (found : leaf.entry = some (e, off)) : off + 32 ≤ s.vol.dirBuf leaf.parent := by
  simp only [walkVolume] at walk
  split at walk
  · obtain rfl := Option.some.inj walk
    cases found
  · have dirs := enterDirs_quiet (components path).dropLast (s.vol.startDir (isAbsolute path)) s
    split at walk
    · cases walk
    · rw [← FatVolume.dirBuf_layout dirs.layout]
      exact walkLeaf_inside (dirs.fits fits) walk found

end Leaf

/-- All indices lie in the buffers: the ghost has seen no access outside; the FAT12
image, the fixed root and one cluster are no larger than theirs, and a path leads
to an entry inside the buffer of its directory. -/
structure Fs.InBuffers (f : Fs) : Prop where
  fault : f.fault = false
  image : ∀ d, (f.vols d).kind = .fat12 → (f.vols d).fatSectors * sectorSize ≤ fat12Buf
  root : ∀ d, (f.vols d).kind ≠ .fat32 → (f.vols d).rootSizeSec * sectorSize ≤ rootBufMax
  cluster : ∀ d, (f.vols d).clusterBytes ≤ clusterBuf
  leaf : ∀ path allowMissing r g e off, walkPath path allowMissing f = (some r, g) →
    r.entry = some (e, off) → off + 32 ≤ (f.vols r.drive).dirBuf r.parent

theorem Fs.Roomy.inBuffers {f : Fs} (roomy : f.Roomy) : f.InBuffers where
  fault := roomy.fault
  image d image := Nat.mul_le_mul_right sectorSize ((roomy.fits d).image image)
  root d fixed := Nat.mul_le_mul_right sectorSize ((roomy.fits d).root fixed)
  cluster d := Nat.mul_le_mul_right sectorSize (roomy.fits d).cluster
  leaf path allowMissing r g e off walk found := by
    simp only [walkPath] at walk
    split at walk
    · simp at walk
    split at walk
    · simp at walk
    split at walk
    · simp at walk
    next d _ _ =>
      obtain ⟨walked, -⟩ := Prod.mk.inj walk
      obtain ⟨leaf, volume, rfl⟩ := Option.map_eq_some_iff.mp walked
      exact walkVolume_inside (s := f.vol d) (roomy.fits d) volume found

/-- Every call of a run keeps to the buffers, if every boot sector that is mounted
and every handle that is written through fits them. -/
theorem buffers_hold (disks : Nat → Disk) {calls : List FsCall}
    (each : Runs.Each FsCall.next FsCall.Fits calls (FileSys.start disks)) :
    (Runs.run FsCall.next calls (FileSys.start disks)).toFs.InBuffers := by
  have start : (FileSys.start disks).toFs.Roomy := ⟨rfl, fun _ => Layout.Fits.zero⟩
  have roomy := Runs.Each.run FsCall.next_roomy each start
  exact roomy.inBuffers

/-- A FAT12 volume, a directory, a file of two clusters in it. -/
theorem floppy_in_buffers : (Runs.run FsCall.next [.mount 65 0, .tree (.mkdir [66]),
    .tree (.create [66, 92, 67]), .opens [66, 92, 67], .write 0 (List.replicate 600 1)]
      (FileSys.start fun _ => floppy)).toFs.InBuffers :=
  buffers_hold (fun _ => floppy) (by decide +kernel)

/-- A FAT12 volume with 32 sectors in a cluster. -/
def bigCluster : Disk := .image 400 (Header.bootSector ⟨512, 32, 1, 2, 16, 1, 400⟩ 0)

/-- It is mounted, and fs_mkdir clears 32 sectors of a buffer of 16. -/
theorem bigCluster_overruns : (fsMountOn 65 0 (FileSys.start fun _ => bigCluster).toFs).1 = 0 ∧
    ¬ (Runs.run FsCall.next [.mount 65 0, .tree (.mkdir [66])]
      (FileSys.start fun _ => bigCluster)).toFs.InBuffers :=
  ⟨by decide +kernel, fun held => absurd held.fault (by decide +kernel)⟩

end Zenbite.Fat
