import Zenbite.Fat.Calls

/-! The static buffers: 16 sectors for the FAT12 image and for one cluster, 32 for
the fixed root. What the sizes of a volume must be so that no call leaves them. -/

namespace Zenbite.Fat

open Memory VolState

/-- The layouts that the buffers are large enough for. -/
structure Layout.Fits (l : Layout) : Prop where
  cluster : l.secPerCluster ≤ 16
  image : l.kind = .fat12 → l.fatSectors ≤ 16
  root : l.kind ≠ .fat32 → l.rootSizeSec ≤ 32

instance (l : Layout) : Decidable l.Fits :=
  decidable_of_iff (l.secPerCluster ≤ 16 ∧ (l.kind = .fat12 → l.fatSectors ≤ 16) ∧
      (l.kind ≠ .fat32 → l.rootSizeSec ≤ 32))
    ⟨fun h => ⟨h.1, h.2.1, h.2.2⟩, fun h => ⟨h.cluster, h.image, h.root⟩⟩

theorem Layout.Fits.zero : FatVolume.zero.toLayout.Fits := by decide

/-- A volume function has kept the layout and the disk, and left no buffer if `ok`. -/
structure Quiet (ok : Prop) (s t : VolState Disk) : Prop where
  layout : t.vol.toLayout = s.vol.toLayout
  diskId : t.vol.diskId = s.vol.diskId
  fault : ok → t.fault = s.fault

namespace Quiet
variable {p q : Prop} {s t u : VolState Disk}

theorem refl (s : VolState Disk) : Quiet p s s := ⟨rfl, rfl, fun _ => rfl⟩

theorem trans (first : Quiet p s t) (second : Quiet q t u) (next : p → q) : Quiet p s u :=
  ⟨second.layout.trans first.layout, second.diskId.trans first.diskId,
    fun ok => (second.fault (next ok)).trans (first.fault ok)⟩

theorem weaken (quiet : Quiet q s t) (next : p → q) : Quiet p s t :=
  ⟨quiet.layout, quiet.diskId, fun ok => quiet.fault (next ok)⟩

theorem fits (quiet : Quiet p s t) (start : s.vol.toLayout.Fits) : t.vol.toLayout.Fits := by
  rw [quiet.layout]
  exact start

end Quiet

/-- The FAT12 entry of cluster `c` lies in `fat[]`. -/
def FatVolume.HasEntry (v : FatVolume) (c : Nat) : Prop :=
  v.kind = .fat12 → off12 c + 2 ≤ fat12Buf

instance (v : FatVolume) (c : Nat) : Decidable (v.HasEntry c) := inferInstanceAs (Decidable (_ → _))

theorem FatVolume.dirBuf_layout {v w : FatVolume} (same : w.toLayout = v.toLayout) (d : Nat) :
    w.dirBuf d = v.dirBuf d := by
  have fixed : w.FixedRoot d ↔ v.FixedRoot d := by simp only [FixedRoot, same]
  simp only [dirBuf, fixed]

/-- Below the end-of-chain mark, every cluster has its entry. -/
theorem FatVolume.hasEntry_chain {v : FatVolume} {c : Nat} (inside : c < v.fatEof) :
    v.HasEntry c := by
  intro image
  simp only [Layout.fatEof, image] at inside
  rw [off12, u32_of_lt (by omega)]
  simp only [fat12Buf, sectorSize]
  omega

/-- And every cluster that alloc_cluster looks at. -/
theorem FatVolume.hasEntry_scan {v : FatVolume} {c : Nat} (fits : v.toLayout.Fits)
    (inside : c < v.maxCluster) : v.HasEntry c := by
  intro image
  have small := fits.image image
  simp only [Layout.maxCluster, image, sectorSize] at inside
  rw [u32_of_lt (by omega)] at inside
  rw [off12, u32_of_lt (by omega)]
  simp only [fat12Buf, sectorSize]
  omega

/-- An entry stays where it is while the layout does. -/
theorem Quiet.entry {p : Prop} {s t : VolState Disk} (quiet : Quiet p s t) {c : Nat}
    (entry : s.vol.HasEntry c) : t.vol.HasEntry c := by
  simpa only [FatVolume.HasEntry, quiet.layout] using entry

section Volume
variable {s : VolState Disk}

theorem readCluster_quiet (c : Nat) (buf : Buffer) (s : VolState Disk) :
    Quiet s.vol.toLayout.Fits s (readCluster c buf s).2.2 := by
  refine ⟨rfl, rfl, fun fits => ?_⟩
  have small : s.vol.clusterBytes ≤ clusterBuf := Nat.mul_le_mul_right sectorSize fits.cluster
  change (s.useBuffer s.vol.clusterBytes clusterBuf).fault = s.fault
  rw [useBuffer_fits s small]

theorem writeCluster_quiet (c : Nat) (buf : Buffer) (s : VolState Disk) :
    Quiet s.vol.toLayout.Fits s (writeCluster c buf s).2 := by
  refine ⟨rfl, rfl, fun fits => ?_⟩
  have small : s.vol.clusterBytes ≤ clusterBuf := Nat.mul_le_mul_right sectorSize fits.cluster
  change (s.useBuffer s.vol.clusterBytes clusterBuf).fault = s.fault
  rw [useBuffer_fits s small]

theorem flushRoot_quiet (s : VolState Disk) : Quiet True s (flushRoot s).2 := by
  simp only [flushRoot]
  split
  · exact .refl s
  · split <;> exact ⟨rfl, rfl, fun _ => rfl⟩

theorem fatCacheFlush_quiet (s : VolState Disk) : Quiet True s (fatCacheFlush s).2 := by
  simp only [fatCacheFlush]
  split
  · exact .refl s
  · split <;> exact ⟨rfl, rfl, fun _ => rfl⟩

theorem flushFat_quiet (s : VolState Disk) : Quiet True s (flushFat s).2 := by
  simp only [flushFat]
  split
  · split
    · exact .refl s
    · split <;> exact ⟨rfl, rfl, fun _ => rfl⟩
  · exact fatCacheFlush_quiet s

theorem fatCacheLoad_quiet (sec : Nat) (s : VolState Disk) : Quiet True s (fatCacheLoad sec s).2 := by
  have flush := fatCacheFlush_quiet s
  simp only [fatCacheLoad]
  split
  · exact .refl s
  · split
    · exact flush
    · split <;> exact ⟨flush.layout, flush.diskId, flush.fault⟩

theorem fatGet_quiet (c : Nat) (s : VolState Disk) : Quiet (s.vol.HasEntry c) s (fatGet c s).2 := by
  have load (sec : Nat) : Quiet (s.vol.HasEntry c) s (fatCacheLoad sec s).2 :=
    (fatCacheLoad_quiet sec s).weaken fun _ => trivial
  simp only [fatGet]
  split
  next image => exact ⟨rfl, rfl, fun entry => by rw [useBuffer_fits s (entry image)]⟩
  · split <;> exact load _
  · split <;> exact load _

theorem fatSet_quiet (c val : Nat) (s : VolState Disk) :
    Quiet (s.vol.HasEntry c) s (fatSet c val s) := by
  have load (sec : Nat) := fatCacheLoad_quiet sec s
  have kept (sec : Nat) : Quiet (s.vol.HasEntry c) s (fatCacheLoad sec s).2 :=
    (load sec).weaken fun _ => trivial
  simp only [fatSet]
  split
  next image =>
    exact ⟨rfl, rfl, fun entry => by rw [modVol_fault, useBuffer_fits s (entry image)]⟩
  · split
    · exact kept _
    · exact ⟨(load _).layout, (load _).diskId, fun _ => (load _).fault trivial⟩
  · split
    · exact kept _
    · exact ⟨(load _).layout, (load _).diskId, fun _ => (load _).fault trivial⟩

theorem allocFrom_quiet (n c : Nat) (s : VolState Disk) :
    Quiet (s.vol.toLayout.Fits ∧ c + n ≤ s.vol.maxCluster) s (allocFrom n c s).2 := by
  induction n generalizing c s with
  | zero => exact .refl s
  | succ n ih =>
      have get := (fatGet_quiet c s).weaken
        fun ok : s.vol.toLayout.Fits ∧ c + (n + 1) ≤ s.vol.maxCluster =>
          FatVolume.hasEntry_scan ok.1 (by omega)
      simp only [allocFrom]
      split
      · exact get.trans (fatSet_quiet c _ _) fun ok =>
          get.entry (FatVolume.hasEntry_scan ok.1 (by omega))
      · exact get.trans (ih (c + 1) _) fun ok =>
          ⟨get.fits ok.1, by rw [get.layout]; omega⟩

theorem allocCluster_quiet (s : VolState Disk) :
    Quiet s.vol.toLayout.Fits s (allocCluster s).2 := by
  by_cases some : 2 ≤ s.vol.maxCluster
  · have scan := allocFrom_quiet (s.vol.maxCluster - 2) 2 s
    exact ⟨scan.layout, scan.diskId, fun fits => scan.fault ⟨fits, by omega⟩⟩
  · have none : s.vol.maxCluster - 2 = 0 := by omega
    simp only [allocCluster, none, allocFrom]
    exact ⟨rfl, rfl, fun _ => rfl⟩

theorem allocCluster_entry (fits : s.vol.toLayout.Fits) (some : (allocCluster s).1 ≠ 0) :
    s.vol.HasEntry (allocCluster s).1 :=
  FatVolume.hasEntry_scan fits ((allocCluster_range s).resolve_left some).2

theorem freeFrom_quiet (n c : Nat) (s : VolState Disk) : Quiet True s (freeFrom n c s) := by
  induction n generalizing c s with
  | zero => exact .refl s
  | succ n ih =>
      simp only [freeFrom]
      split
      next chain =>
        have entry := FatVolume.hasEntry_chain chain.2
        have get := (fatGet_quiet c s).weaken fun _ : True => entry
        have zero := get.trans (fatSet_quiet c 0 _) fun _ => get.entry entry
        exact zero.trans (ih _ _) fun ok => ok
      · exact .refl s

theorem loadDir_quiet (d : Nat) (s : VolState Disk) :
    Quiet s.vol.toLayout.Fits s (loadDir d s).2 := by
  simp only [loadDir]
  split
  · exact .refl s
  · split <;> exact readCluster_quiet _ _ s

theorem storeDir_quiet (d : Nat) (buf : Buffer) (s : VolState Disk) :
    Quiet s.vol.toLayout.Fits s (storeDir d buf s).2 := by
  simp only [storeDir]
  split
  · have write : Quiet s.vol.toLayout.Fits s (s.modVol (·.rootWrite buf)) := ⟨rfl, rfl, fun _ => rfl⟩
    exact write.trans (flushRoot_quiet _) fun _ => trivial
  · exact writeCluster_quiet _ _ s

theorem findInDir_quiet (d : Nat) (name83 : List UInt8) (s : VolState Disk) :
    Quiet s.vol.toLayout.Fits s (findInDir d name83 s).2 := by
  simp only [findInDir]
  split <;> exact loadDir_quiet d s

theorem dirAddEntry_quiet (d : Nat) (src : Buffer) (s : VolState Disk) :
    Quiet s.vol.toLayout.Fits s (dirAddEntry d src s).2 := by
  have load := loadDir_quiet d s
  simp only [dirAddEntry]
  split
  · exact load
  · split
    · exact load
    · exact load.trans (storeDir_quiet d _ _) load.fits

theorem dirUpdateEntry_quiet (d off : Nat) (e : Buffer) (s : VolState Disk) :
    Quiet s.vol.toLayout.Fits s (dirUpdateEntry d off e s).2 := by
  have load := loadDir_quiet d s
  simp only [dirUpdateEntry]
  split
  · exact load
  · split
    · exact load
    · exact load.trans (storeDir_quiet d _ _) load.fits

theorem parentOf_quiet (cluster : Nat) (s : VolState Disk) :
    Quiet s.vol.toLayout.Fits s (parentOf cluster s).2 := by
  simp only [parentOf]
  split
  · exact .refl s
  · split <;> exact findInDir_quiet cluster dotdotName s

theorem enterDir_quiet (comp : List UInt8) (cluster : Nat) (s : VolState Disk) :
    Quiet s.vol.toLayout.Fits s (enterDir comp cluster s).2 := by
  simp only [enterDir]
  split
  · exact .refl s
  split
  · exact parentOf_quiet cluster s
  · split
    · exact findInDir_quiet cluster _ s
    · split <;> exact findInDir_quiet cluster _ s

theorem enterDirs_quiet (comps : List (List UInt8)) (cluster : Nat) (s : VolState Disk) :
    Quiet s.vol.toLayout.Fits s (enterDirs comps cluster s).2 := by
  induction comps generalizing cluster s with
  | nil => exact .refl s
  | cons comp comps ih =>
      have first := enterDir_quiet comp cluster s
      simp only [enterDirs]
      split
      · exact first
      · exact first.trans (ih _ _) first.fits

theorem walkLeaf_quiet (comp : List UInt8) (allowMissing : Bool) (cluster : Nat)
    (s : VolState Disk) : Quiet s.vol.toLayout.Fits s (walkLeaf comp allowMissing cluster s).2 := by
  simp only [walkLeaf]
  split
  · exact .refl s
  split
  · exact parentOf_quiet cluster s
  · split <;> exact findInDir_quiet cluster _ s

theorem walkVolume_quiet (path : List UInt8) (allowMissing : Bool) (s : VolState Disk) :
    Quiet s.vol.toLayout.Fits s (walkVolume path allowMissing s).2 := by
  simp only [walkVolume]
  split
  · exact .refl s
  · have dirs := enterDirs_quiet (components path).dropLast (s.vol.startDir (isAbsolute path)) s
    split
    · exact dirs
    · exact dirs.trans (walkLeaf_quiet _ _ _ _) dirs.fits

theorem clusterAfter_quiet (n c : Nat) (s : VolState Disk) : Quiet True s (clusterAfter n c s).2 := by
  induction n generalizing c s with
  | zero => exact .refl s
  | succ n ih =>
      simp only [clusterAfter]
      split
      next chain =>
        have get := (fatGet_quiet c s).weaken fun _ : True => FatVolume.hasEntry_chain chain.2
        exact get.trans (ih _ _) fun ok => ok
      · exact .refl s

theorem readLoop_quiet (first size fuel pos n : Nat) (s : VolState Disk) :
    Quiet s.vol.toLayout.Fits s (readLoop first size fuel pos n s).2 := by
  induction fuel generalizing pos n s with
  | zero => exact .refl s
  | succ fuel ih =>
      have walk := (clusterAfter_quiet (pos / s.vol.clusterBytes) first s).weaken
        fun _ : s.vol.toLayout.Fits => trivial
      have read := walk.trans (readCluster_quiet
        (clusterAfter (pos / s.vol.clusterBytes) first s).1 (fun _ => 0) _) walk.fits
      simp only [readLoop]
      split
      · exact .refl s
      split
      · exact walk
      split
      · exact read
      · exact read.trans (ih _ _ _) read.fits

/-- Only the first cluster of a chain can be out of range: the others are below
the end mark or fresh. -/
theorem walkExtend_quiet (n c : Nat) (s : VolState Disk) :
    Quiet (s.vol.toLayout.Fits ∧ (n ≠ 0 → s.vol.HasEntry c)) s (walkExtend n c s).2 := by
  induction n generalizing c s with
  | zero => exact .refl s
  | succ n ih =>
      have get := (fatGet_quiet c s).weaken
        fun ok : s.vol.toLayout.Fits ∧ (n + 1 ≠ 0 → s.vol.HasEntry c) => ok.2 (Nat.succ_ne_zero n)
      have alloc := get.trans (allocCluster_quiet _) fun ok => get.fits ok.1
      simp only [walkExtend]
      split
      · split
        · exact alloc
        next some =>
          have link := alloc.trans (fatSet_quiet c (allocCluster (fatGet c s).2).1 _)
            fun ok => alloc.entry (ok.2 (Nat.succ_ne_zero n))
          have fresh (fits : s.vol.toLayout.Fits) := (link.trans (.refl _) (q := True)
            fun _ => trivial).entry (c := (allocCluster (fatGet c s).2).1) (by
              have entry := allocCluster_entry (get.fits fits) some
              rwa [FatVolume.HasEntry, get.layout] at entry)
          have close := fun val => link.trans (fatSet_quiet (allocCluster (fatGet c s).2).1 val _)
            fun ok => fresh ok.1
          exact (close _).trans (ih _ _) fun ok =>
            ⟨(close _).fits ok.1, fun _ => (fatSet_quiet _ _ _).entry (fresh ok.1)⟩
      next chain =>
        exact get.trans (ih _ _) fun ok =>
          ⟨get.fits ok.1, fun _ => FatVolume.hasEntry_chain (Nat.lt_of_not_le chain)⟩

theorem writeLoop_quiet (first fuel pos : Nat) (data : List UInt8) (s : VolState Disk) :
    Quiet (s.vol.toLayout.Fits ∧ (s.vol.HasEntry first ∨ pos + data.length ≤ s.vol.clusterBytes)) s
      (writeLoop first fuel pos data s).2 := by
  induction fuel generalizing pos data s with
  | zero => exact .refl s
  | succ fuel ih =>
      simp only [writeLoop]
      split
      · exact .refl s
      next some =>
        have bytes := List.length_pos_iff.mpr some
        have walk := (walkExtend_quiet (pos / s.vol.clusterBytes) first s).weaken
          fun ok : s.vol.toLayout.Fits ∧
            (s.vol.HasEntry first ∨ pos + data.length ≤ s.vol.clusterBytes) =>
            ⟨ok.1, fun far => ok.2.resolve_right fun short =>
              far (Nat.div_eq_of_lt (by omega))⟩
        split
        · exact walk
        next c _ =>
          have read := walk.trans (readCluster_quiet c (fun _ => 0) _) fun ok => walk.fits ok.1
          split
          · exact read
          · have put (buf : Buffer) := read.trans (writeCluster_quiet c buf _)
              fun ok => read.fits ok.1
            split
            · exact put _
            · refine (put _).trans (ih _ _ _) fun ok => ⟨(put _).fits ok.1, ?_⟩
              rw [(put _).layout, List.length_drop]
              refine ok.2.imp (put _).entry fun short => ?_
              have cluster := Nat.mul_le_mul_right sectorSize ok.1.cluster
              have wrap : u32 (pos + min (s.vol.clusterBytes - pos % s.vol.clusterBytes) data.length) =
                  pos + min (s.vol.clusterBytes - pos % s.vol.clusterBytes) data.length := by
                simp only [Layout.clusterBytes, sectorSize] at short cluster ⊢
                exact u32_of_lt (by omega)
              rw [wrap]
              omega

theorem updateDirent_quiet (dir off first size : Nat) (s : VolState Disk) :
    Quiet (s.vol.toLayout.Fits ∧ off + 32 ≤ s.vol.dirBuf dir) s (updateDirent dir off first size s) := by
  have load := (loadDir_quiet dir s).weaken
    fun ok : s.vol.toLayout.Fits ∧ off + 32 ≤ s.vol.dirBuf dir => ok.1
  simp only [updateDirent]
  split
  · exact load.trans (flushFat_quiet _) fun _ => trivial
  · have used : Quiet (s.vol.toLayout.Fits ∧ off + 32 ≤ s.vol.dirBuf dir) s ((loadDir dir s).2.useBuffer
        (off + 32) ((loadDir dir s).2.vol.dirBuf dir)) := by
      refine ⟨load.layout, load.diskId, fun ok => ?_⟩
      rw [useBuffer_fits _ (by rw [FatVolume.dirBuf_layout load.layout]; exact ok.2)]
      exact load.fault ok
    exact (used.trans (storeDir_quiet dir _ _) fun ok => used.fits ok.1).trans (flushFat_quiet _)
      fun _ => trivial

end Volume

section Tree
variable {s : VolState Disk}

theorem removeEntry_quiet (parent off first : Nat) (s : VolState Disk) :
    Quiet s.vol.toLayout.Fits s (removeEntry parent off first s).2 := by
  have free := (freeFrom_quiet s.vol.fatEof first s).weaken fun _ : s.vol.toLayout.Fits => trivial
  have load := free.trans (loadDir_quiet parent _) free.fits
  simp only [removeEntry]
  split
  · exact load
  · have store (buf : Buffer) := load.trans (storeDir_quiet parent buf _) load.fits
    exact (store _).trans (flushFat_quiet _) fun _ => trivial

theorem removeDir_quiet (parent off c : Nat) (s : VolState Disk) :
    Quiet s.vol.toLayout.Fits s (removeDir parent off c s).2 := by
  have load := loadDir_quiet c s
  simp only [removeDir]
  split
  · exact load
  · split
    · exact load.trans (removeEntry_quiet parent off c _) load.fits
    · exact load

theorem addDir_quiet (parent : Nat) (name : List UInt8) (s : VolState Disk) :
    Quiet s.vol.toLayout.Fits s (addDir parent name s).2 := by
  have alloc := allocCluster_quiet s
  simp only [addDir]
  split
  · exact alloc
  · have put := alloc.trans (writeCluster_quiet (allocCluster s).1
      (newDirBuf (allocCluster s).2.vol.kind (allocCluster s).1 parent) _) alloc.fits
    split
    · exact put
    · have add (src : Buffer) := put.trans (dirAddEntry_quiet parent src _) put.fits
      split
      · exact add _
      · exact (add _).trans (flushFat_quiet _) fun _ => trivial

theorem firstFor_quiet (first : Nat) (s : VolState Disk) :
    Quiet s.vol.toLayout.Fits s (firstFor first s).2 := by
  simp only [firstFor]
  split
  · exact allocCluster_quiet s
  · exact .refl s

/-- A first cluster that was just allocated has its entry. -/
theorem firstFor_entry (fits : s.vol.toLayout.Fits) {first : Nat} (some : (firstFor first s).1 ≠ 0)
    {short : Prop} (own : first ≠ 0 → s.vol.HasEntry first ∨ short) :
    s.vol.HasEntry (firstFor first s).1 ∨ short := by
  simp only [firstFor] at some ⊢
  split
  next empty =>
    rw [if_pos empty] at some
    exact .inl (allocCluster_entry fits some)
  next old => exact own old

/-- A write through the handle stays in the buffers: the chain is not followed
from a first cluster without an entry, and the directory entry is where a
directory of this volume can have one. -/
structure Handle.WriteFits (x : Handle) (n : Nat) (v : FatVolume) : Prop where
  chain : x.firstCluster ≠ 0 → v.HasEntry x.firstCluster ∨ x.pos + n ≤ v.clusterBytes
  entry : x.direntOffset + 32 ≤ v.dirBuf x.parentDirCluster

instance (x : Handle) (n : Nat) (v : FatVolume) : Decidable (x.WriteFits n v) :=
  decidable_of_iff ((x.firstCluster ≠ 0 → v.HasEntry x.firstCluster ∨ x.pos + n ≤ v.clusterBytes) ∧
      x.direntOffset + 32 ≤ v.dirBuf x.parentDirCluster)
    ⟨fun h => ⟨h.1, h.2⟩, fun h => ⟨h.chain, h.entry⟩⟩

theorem writeThrough_quiet (x : Handle) (data : List UInt8) (s : VolState Disk) :
    Quiet (s.vol.toLayout.Fits ∧
        (s.vol.HasEntry x.firstCluster ∨ x.pos + data.length ≤ s.vol.clusterBytes) ∧
        x.direntOffset + 32 ≤ s.vol.dirBuf x.parentDirCluster) s (writeThrough x data s).2 := by
  have loop := (writeLoop_quiet x.firstCluster data.length x.pos data s).weaken
    fun ok : s.vol.toLayout.Fits ∧
        (s.vol.HasEntry x.firstCluster ∨ x.pos + data.length ≤ s.vol.clusterBytes) ∧
        x.direntOffset + 32 ≤ s.vol.dirBuf x.parentDirCluster => ⟨ok.1, ok.2.1⟩
  refine loop.trans (updateDirent_quiet _ _ _ _ _) fun ok => ⟨loop.fits ok.1, ?_⟩
  rw [FatVolume.dirBuf_layout loop.layout]
  exact ok.2.2

end Tree

/-! Mounting. -/

/-- The layout that fs_mount leaves in the drive's slot, accepted or not, once it
has read the boot sector. -/
def Layout.left (boot : Buffer) : Layout :=
  if (Header.ofBoot boot).bytesPerSec ≠ sectorSize ∨ (Header.ofBoot boot).fatSectors = 0 ∨
      (Header.ofBoot boot).secPerCluster = 0 then
    { FatVolume.zero.toLayout with toHeader := Header.ofBoot boot }
  else Layout.ofBoot boot

section Mount
variable {boot : Buffer} {s : VolState Disk}

theorem mountRoot_left (staged : s.vol.toLayout = (Header.ofBoot boot).layout) :
    (mountRoot boot s).2.vol.toLayout = Layout.ofBoot boot := by
  have kind : s.vol.kind = (Header.ofBoot boot).layout.kind := by rw [staged]
  simp only [mountRoot, Layout.ofBoot, ← kind]
  split
  · rw [← staged]
    split <;> rfl
  · rw [← staged]
    split
    · rfl
    · split <;> rfl

theorem mountFat_left (staged : s.vol.toLayout = (Header.ofBoot boot).layout) :
    (mountFat boot s).2.vol.toLayout = Layout.ofBoot boot := by
  have kind : s.vol.kind = (Header.ofBoot boot).layout.kind := by rw [staged]
  simp only [mountFat]
  split
  next image =>
    have same : s.vol.toLayout = Layout.ofBoot boot := by
      rw [Layout.ofBoot, ← kind, if_neg (by rw [image]; decide), staged]
    split
    · exact same
    · split
      · exact same
      · exact mountRoot_left staged
  · exact mountRoot_left staged

theorem read_answer {lba count : Nat} {buf : Buffer} (ok : ¬ (s.diskRead lba count buf).1 < 0) :
    s.disk.answer ⟨false, lba, count⟩ = .ok := by
  simp only [diskRead_fst, Disk.read] at ok
  split at ok
  · cases said : s.disk.answer ⟨false, lba, count⟩ with
    | ok => rfl
    | fail n => simp [said, Disk.rc] at ok
  · exact absurd (show (-1 : Int) < 0 by decide) ok

theorem mountVolume_left (id : Nat) (present : s.disk.present = true) :
    (mountVolume id s).2.vol.toLayout = FatVolume.zero.toLayout ∨
      s.disk.answer ⟨false, 0, 1⟩ = .ok ∧
        (mountVolume id s).2.vol.toLayout = Layout.left (bootOf s.disk) := by
  simp only [mountVolume, Device.present_disk, present, Bool.true_eq_false, if_false]
  split
  · exact .inl rfl
  next ok =>
    have boot : (s.diskRead 0 1 fun _ => 0).2.1 = bootOf s.disk := (Disk.read_ok s.disk _ _ _ ok).2
    rw [boot]
    refine .inr ⟨read_answer ok, ?_⟩
    split
    next refused =>
      rw [Layout.left, if_pos refused]
      rfl
    next passed =>
      rw [Layout.left, if_neg passed]
      exact mountFat_left rfl

theorem mountFat_roomy (boot : Buffer) (fits : s.vol.toLayout.Fits) :
    (mountFat boot s).2.fault = s.fault := by
  simp only [mountFat]
  split
  next image =>
    have small : s.vol.fatSectors * sectorSize ≤ fat12Buf :=
      Nat.mul_le_mul_right sectorSize (fits.image image)
    split
    · rfl
    · split
      · rw [modVol_fault, useBuffer_fits _ small, diskRead_fault]
      · rw [mountRoot_fault, modVol_fault, useBuffer_fits _ small, diskRead_fault]
  · exact mountRoot_fault boot s

/-- The only fixed buffer that a mount itself fills is `fat[]`. -/
theorem mountVolume_roomy (id : Nat) (fits : s.disk.answer ⟨false, 0, 1⟩ = .ok →
    (Layout.left (bootOf s.disk)).Fits) : (mountVolume id s).2.fault = s.fault := by
  simp only [mountVolume]
  split
  · rfl
  split
  · rfl
  next ok =>
    have boot : (s.diskRead 0 1 fun _ => 0).2.1 = bootOf s.disk := (Disk.read_ok s.disk _ _ _ ok).2
    have left := fits (read_answer ok)
    rw [boot]
    split
    · rfl
    next passed =>
      rw [Layout.left, if_neg passed] at left
      obtain ⟨header, kind⟩ := Layout.ofBoot_header (bootOf s.disk)
      refine mountFat_roomy _ ⟨?_, fun image => ?_, fun fixed => ?_⟩
      · have small := left.cluster
        rwa [header] at small
      · have small := left.image (kind.trans image)
        rwa [header] at small
      · have small := left.root fun chain => fixed (kind.symm.trans chain)
        rwa [header] at small

end Mount

end Zenbite.Fat
