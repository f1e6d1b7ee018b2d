import Zenbite.Fat.Table

/-! fs_mount on one drive slot: the header fields, the choice of the FAT kind,
the initial FAT12 image and fixed-root cache. -/

namespace Zenbite.Fat

open Memory VolState

variable {δ : Type} [Device δ]

namespace Header

def ofBoot (boot : Buffer) : Header where
  bytesPerSec := readLe16 boot 11
  secPerCluster := (boot 13).toNat
  reservedSectors := readLe16 boot 14
  numFats := (boot 16).toNat
  rootEntries := readLe16 boot 17
  fatSectors := if readLe16 boot 22 ≠ 0 then readLe16 boot 22 else readLe32 boot 36
  totalSectors := if readLe16 boot 19 ≠ 0 then readLe16 boot 19 else readLe32 boot 32

/-- `fat_lba + num_fats * fat_sectors`. -/
def fatEnd (h : Header) : Nat := u32 (h.reservedSectors + h.numFats * h.fatSectors)

/-- The first sector behind a fixed root directory. -/
def rootEnd (h : Header) : Nat := u32 (h.fatEnd + h.rootSizeSec)

/-- `(total_sectors - data_lba) / sec_per_cluster`; the subtraction wraps. -/
def clusters (h : Header) : Nat := u32 (h.totalSectors + 2 ^ 32 - h.rootEnd) / h.secPerCluster

def kindOf (clusters : Nat) : FatKind :=
  if clusters < 4085 then .fat12 else if clusters < 65525 then .fat16 else .fat32

/-- The layout before FAT32 is treated apart. -/
def layout (h : Header) : Layout where
  toHeader := h
  kind := kindOf h.clusters
  fatLba := h.reservedSectors
  rootLba := h.fatEnd
  dataLba := h.rootEnd
  rootDirCluster := 0

end Header

/-- On FAT32 the data starts right after the FATs and the root is a chain. -/
def Layout.moveRoot (l : Layout) (boot : Buffer) : Layout :=
  { l with rootLba := 0, dataLba := l.fatEnd, rootDirCluster := readLe32 boot 44 }

namespace FatVolume

def freshCache (v : FatVolume) : FatVolume := (v.cacheSector v.fatCbuf fatCacheNone).cacheClean

def atRoot (v : FatVolume) : FatVolume := v.setCwd true 0 ['\\'.toUInt8]

end FatVolume

/-- The end of fs_mount: the root directory and the current directory. -/
def mountRoot (boot : Buffer) (s : VolState δ) : Int × VolState δ :=
  if s.vol.kind = .fat32 then
    let s := s.modVol fun v => v.setLayout (v.moveRoot boot)
    if s.vol.rootDirCluster < 2 then (-1, s)
    else (0, s.modVol (·.atRoot))
  else if rootBufMax < s.vol.rootSizeSec * sectorSize then (-1, s)
  else
    let r := s.diskRead s.vol.rootLba s.vol.rootSizeSec s.vol.root
    let s := r.2.2.modVol (·.rootLoad r.2.1)
    if r.1 < 0 then (-1, s) else (0, s.modVol (·.atRoot))

/-- The FAT12 image. `fat_sectors * SECTOR_SIZE` is compared after wrapping. -/
def mountFat (boot : Buffer) (s : VolState δ) : Int × VolState δ :=
  if s.vol.kind = .fat12 then
    if fat12Buf < u32 (s.vol.fatSectors * sectorSize) then (-1, s)
    else
      let r := s.diskRead s.vol.fatLba s.vol.fatSectors s.vol.fat
      let s := (r.2.2.useBuffer (s.vol.fatSectors * sectorSize) fat12Buf).modVol (·.imageLoad r.2.1)
      if r.1 < 0 then (-1, s) else mountRoot boot s
  else mountRoot boot s

/-- fs_mount once the letter is resolved; `s.vol` is the drive's slot in `vols`. -/
def mountVolume (diskId : Nat) (s : VolState δ) : Int × VolState δ :=
  if Device.present s.disk = false then (-1, s)
  else
    let r := s.diskRead 0 1 (fun _ => 0)
    if r.1 < 0 then (-1, r.2.2.modVol fun _ => .zero)
    else
      let h := Header.ofBoot r.2.1
      let v : FatVolume := { FatVolume.zero with toHeader := h, diskId := diskId }
      if h.bytesPerSec ≠ sectorSize ∨ h.fatSectors = 0 ∨ h.secPerCluster = 0 then
        (-1, r.2.2.modVol fun _ => v)
      else mountFat r.2.1 (r.2.2.modVol fun _ => (v.setLayout h.layout).freshCache)

theorem mountRoot_traffic (boot : Buffer) {d : δ} {s : VolState δ}
    (past : Device.Traffic False d s.disk) : Device.Traffic False d (mountRoot boot s).2.disk := by
  simp only [mountRoot]
  split
  · split <;> exact past
  · split
    · exact past
    · split <;> exact past.read _ _ _

theorem mountFat_traffic (boot : Buffer) {d : δ} {s : VolState δ}
    (past : Device.Traffic False d s.disk) : Device.Traffic False d (mountFat boot s).2.disk := by
  have image := past.read s.vol.fatLba s.vol.fatSectors s.vol.fat
  simp only [mountFat]
  split
  · split
    · exact past
    · split
      · exact image
      · exact mountRoot_traffic boot image
  · exact mountRoot_traffic boot past

/-- A mount, accepted or not, only reads. -/
theorem mountVolume_traffic (id : Nat) (s : VolState δ) :
    Device.Traffic False s.disk (mountVolume id s).2.disk := by
  have boot : Device.Traffic False s.disk (s.diskRead 0 1 fun _ => 0).2.2.disk := .read 0 1 _ .idle
  simp only [mountVolume]
  split
  · exact .idle
  · split
    · exact boot
    · split
      · exact boot
      · exact mountFat_traffic _ boot

theorem mountFat_slot {P : FatVolume → Prop} (boot : Buffer) (s : VolState δ)
    (layout : ∀ v l, P v → P (v.setLayout l)) (image : ∀ v b, P v → P (v.imageLoad b))
    (root : ∀ v b, P v → P (v.rootLoad b)) (cwd : ∀ v r c p, P v → P (v.setCwd r c p))
    (start : P s.vol) : P (mountFat boot s).2.vol := by
  have last (t : VolState δ) (start : P t.vol) : P (mountRoot boot t).2.vol := by
    simp only [mountRoot]
    split
    · split
      · exact layout _ _ start
      · exact cwd _ _ _ _ (layout _ _ start)
    · split
      · exact start
      · split
        · exact root _ _ start
        · exact cwd _ _ _ _ (root _ _ start)
  simp only [mountFat]
  split
  · split
    · exact start
    · split
      · exact image _ _ start
      · exact last _ (image _ _ start)
  · exact last _ start

/-- Whatever a mount returns, it leaves no dirty cache, and a drive that looks
mounted afterwards names the disk. -/
theorem mountVolume_slot (id : Nat) (s : VolState δ) (present : Device.present s.disk = true) :
    (mountVolume id s).2.vol.Clean ∧
      ((mountVolume id s).2.vol.kind ≠ .none → (mountVolume id s).2.vol.diskId = id) := by
  have clean : FatVolume.zero.Clean := ⟨rfl, rfl, rfl⟩
  simp only [mountVolume, present, Bool.true_eq_false, if_false]
  split
  · exact ⟨clean, fun mounted => absurd rfl mounted⟩
  · split
    · exact ⟨⟨rfl, rfl, rfl⟩, fun _ => rfl⟩
    · refine mountFat_slot (P := fun v => v.Clean ∧ v.diskId = id) _ _ ?_ ?_ ?_ ?_
        ⟨⟨rfl, rfl, rfl⟩, rfl⟩ |>.imp_right fun named _ => named
      · exact fun v l kept => ⟨⟨kept.1.cache, kept.1.image, kept.1.root⟩, kept.2⟩
      · exact fun v b kept => ⟨⟨kept.1.cache, kept.1.image, kept.1.root⟩, kept.2⟩
      · exact fun v b kept => ⟨⟨kept.1.cache, kept.1.image, kept.1.root⟩, kept.2⟩
      · exact fun v r c p kept => ⟨⟨kept.1.cache, kept.1.image, kept.1.root⟩, kept.2⟩

/-- A boot sector with the given fields, sizes in the 32-bit places. -/
def Header.bootSector (h : Header) (root : Nat) : Buffer := fun i =>
  if i < 11 then 0
  else if i < 13 then byteOf h.bytesPerSec (i - 11)
  else if i = 13 then byteOf h.secPerCluster 0
  else if i < 16 then byteOf h.reservedSectors (i - 14)
  else if i = 16 then byteOf h.numFats 0
  else if i < 19 then byteOf h.rootEntries (i - 17)
  else if i < 32 then 0
  else if i < 36 then byteOf h.totalSectors (i - 32)
  else if i < 40 then byteOf h.fatSectors (i - 36)
  else if i < 44 then 0
  else if i < 48 then byteOf root (i - 44)
  else 0

theorem mountVolume_run {id : Nat} {s : VolState Disk} (ok : (mountVolume id s).1 = 0) :
    mountVolume id s = (0, (mountVolume id s).2) := Prod.ext ok rfl

/-! What an accepted mount establishes. -/

structure Header.Valid (h : Header) : Prop where
  bytesPerSec : h.bytesPerSec = sectorSize
  spc_pos : 0 < h.secPerCluster
  spc_lt : h.secPerCluster < 256
  fat_pos : 0 < h.fatSectors
  fat_lt : h.fatSectors < 2 ^ 32
  fats_lt : h.numFats < 256
  reserved_lt : h.reservedSectors < 2 ^ 16
  entries_lt : h.rootEntries < 2 ^ 16
  total_lt : h.totalSectors < 2 ^ 32

/-- Every valid header is read from some boot sector. -/
theorem Header.Valid.ofBoot_bootSector {h : Header} (valid : h.Valid) (root : Nat) :
    Header.ofBoot (h.bootSector root) = h := by
  obtain ⟨bytes, -, spc, -, fat, fats, reserved, entries, total⟩ := valid
  have wide : h.bytesPerSec < 2 ^ 16 := by rw [bytes]; decide
  obtain ⟨b, c, r, n, e, f, t⟩ := h
  simp only [] at wide spc fat fats reserved entries total
  simp [Header.ofBoot, bootSector, readLe16, readLe32, byteOf_toNat]
  omega

/-- The layouts that fs_mount accepts. -/
structure Layout.Accepted (l : Layout) : Prop where
  header : l.toHeader.Valid
  fatLba : l.fatLba = l.reservedSectors
  kind : l.kind = Header.kindOf l.clusters
  image : l.kind = .fat12 → l.fatSectors ≤ 16
  fixedRoot : l.kind ≠ .fat32 → l.rootLba = l.fatEnd ∧ l.dataLba = l.rootEnd ∧ l.rootSizeSec ≤ 32
  chainRoot : l.kind = .fat32 → l.dataLba = l.fatEnd ∧ 2 ≤ l.rootDirCluster

/-- A volume right after fs_mount. -/
structure Mounted (s : VolState Disk) : Prop where
  layout : s.vol.toLayout.Accepted
  csec : s.vol.fatCsec = fatCacheNone
  cdirty : s.vol.fatCdirty = false
  fatClean : s.vol.fatDirty = false
  rootClean : s.vol.rootDirty = false
  image : s.vol.kind = .fat12 → ∀ i, i < s.vol.fatSectors * sectorSize →
    s.vol.fat i = s.disk.bytes (s.vol.fatLba * sectorSize + i)
  rootImage : s.vol.kind ≠ .fat32 → ∀ i, i < s.vol.rootSizeSec * sectorSize →
    s.vol.root i = s.disk.bytes (s.vol.rootLba * sectorSize + i)
  cwd : s.vol.cwdIsRoot = true

theorem ofBoot_valid {boot : Buffer}
    (passed : ¬ ((Header.ofBoot boot).bytesPerSec ≠ sectorSize ∨
      (Header.ofBoot boot).fatSectors = 0 ∨ (Header.ofBoot boot).secPerCluster = 0)) :
    (Header.ofBoot boot).Valid := by
  push Not at passed
  obtain ⟨bytes, fat, spc⟩ := passed
  refine ⟨bytes, Nat.pos_of_ne_zero spc, (boot 13).toNat_lt, Nat.pos_of_ne_zero fat, ?_,
    (boot 16).toNat_lt, readLe16_lt boot 14, readLe16_lt boot 17, ?_⟩
  · simp only [Header.ofBoot]
    split
    · exact lt_trans (readLe16_lt boot 22) (by decide)
    · exact readLe32_lt boot 36
  · simp only [Header.ofBoot]
    split
    · exact lt_trans (readLe16_lt boot 19) (by decide)
    · exact readLe32_lt boot 32

/-- The state that fs_mount hands to its last part: layout and clean caches. -/
structure Staged (h : Header) (s : VolState Disk) : Prop where
  valid : h.Valid
  layout : s.vol.toLayout = h.layout
  csec : s.vol.fatCsec = fatCacheNone
  cdirty : s.vol.fatCdirty = false
  fatClean : s.vol.fatDirty = false
  rootClean : s.vol.rootDirty = false
  image : s.vol.kind = .fat12 → s.vol.fatSectors ≤ 16 ∧
    ∀ i, i < s.vol.fatSectors * sectorSize →
      s.vol.fat i = s.disk.bytes (s.vol.fatLba * sectorSize + i)

/-- FAT32: only the layout changes. -/
theorem mounted_of_chain {h : Header} {s : VolState Disk} {boot : Buffer} (staged : Staged h s)
    (chain : s.vol.kind = .fat32) (big : 2 ≤ readLe32 boot 44) :
    Mounted ((s.modVol fun v => v.setLayout (v.moveRoot boot)).modVol (·.atRoot)) := by
  have header : s.vol.toHeader = h := congrArg Layout.toHeader staged.layout
  have kind : s.vol.kind = Header.kindOf h.clusters := congrArg Layout.kind staged.layout
  have other : s.vol.kind ≠ .fat12 := by rw [chain]; decide
  have lba : s.vol.fatLba = h.reservedSectors := congrArg Layout.fatLba staged.layout
  refine ⟨⟨?_, ?_, ?_, ?_, ?_, ?_⟩, staged.csec, staged.cdirty, staged.fatClean, staged.rootClean,
    fun image => absurd image other, fun fixed => absurd chain fixed, rfl⟩
  · change s.vol.toHeader.Valid
    rw [header]
    exact staged.valid
  · change s.vol.fatLba = s.vol.toHeader.reservedSectors
    rw [header, lba]
  · change s.vol.kind = Header.kindOf s.vol.toHeader.clusters
    rw [header, kind]
  · exact fun image => absurd image other
  · exact fun fixed => absurd chain fixed
  · exact fun _ => ⟨rfl, big⟩

/-- FAT12 and FAT16: the root image comes from the disk. -/
theorem mounted_of_fixed {h : Header} {s t : VolState Disk} (staged : Staged h s)
    (fixed : s.vol.kind ≠ .fat32) (fits : s.vol.rootSizeSec ≤ 32) {buf : Buffer}
    (vol : t.vol = (s.vol.rootLoad buf).atRoot) (bytes : t.disk.bytes = s.disk.bytes)
    (loaded : buf = splice s.vol.root 0 (s.vol.rootSizeSec * sectorSize)
      (window s.disk.bytes (s.vol.rootLba * sectorSize))) : Mounted t := by
  have layout : t.vol.toLayout = h.layout := by rw [vol]; exact staged.layout
  have same : s.vol.toLayout = t.vol.toLayout := staged.layout.trans layout.symm
  have header : t.vol.toHeader = h := congrArg Layout.toHeader layout
  have kind : t.vol.kind = s.vol.kind := congrArg Layout.kind same.symm
  have root : t.vol.root = buf := by rw [vol]; rfl
  refine ⟨⟨?_, ?_, ?_, ?_, ?_, ?_⟩, ?_, ?_, ?_, ?_, ?_, ?_, ?_⟩
  · rw [header]; exact staged.valid
  · rw [header]; exact congrArg Layout.fatLba layout
  · rw [header]; exact congrArg Layout.kind layout
  · intro image
    rw [kind] at image
    rw [← same]
    exact (staged.image image).1
  · intro _
    refine ⟨?_, ?_, ?_⟩
    · rw [header]; exact congrArg Layout.rootLba layout
    · rw [header]; exact congrArg Layout.dataLba layout
    · rw [← same]; exact fits
  · intro chain
    rw [kind] at chain
    exact absurd chain fixed
  · rw [vol]; exact staged.csec
  · rw [vol]; exact staged.cdirty
  · rw [vol]; exact staged.fatClean
  · rw [vol]; exact staged.rootClean
  · intro image i bound
    rw [kind] at image
    rw [← same] at bound ⊢
    rw [bytes]
    have fat : t.vol.fat = s.vol.fat := by rw [vol]; rfl
    rw [fat]
    exact (staged.image image).2 i bound
  · intro _ i bound
    rw [← same] at bound ⊢
    rw [root, bytes, loaded, splice_inside _ _ (Nat.zero_le i) (by omega)]
    rfl
  · rw [vol]; rfl

theorem mountRoot_mounted {h : Header} {boot : Buffer} {s m : VolState Disk} (staged : Staged h s)
    (run : mountRoot boot s = (0, m)) : Mounted m ∧ m.disk.bytes = s.disk.bytes := by
  simp only [mountRoot] at run
  split at run
  next chain =>
    split at run
    · simp at run
    next big =>
      obtain ⟨-, rfl⟩ := Prod.mk.inj run
      exact ⟨mounted_of_chain staged chain (Nat.le_of_not_lt big), rfl⟩
  next fixed =>
    split at run
    · simp at run
    next fits =>
      split at run
      · simp at run
      next ok =>
        obtain ⟨-, rfl⟩ := Prod.mk.inj run
        have small : s.vol.rootSizeSec ≤ 32 := by
          simp only [rootBufMax, sectorSize] at fits
          omega
        obtain ⟨bytes, loaded⟩ := Disk.read_ok s.disk _ _ _ ok
        exact ⟨mounted_of_fixed staged fixed small rfl bytes loaded, bytes⟩

theorem mountRoot_fault (boot : Buffer) (s : VolState Disk) : (mountRoot boot s).2.fault = s.fault := by
  simp only [mountRoot]
  split
  · split <;> rfl
  · split
    · rfl
    · split <;> rfl

theorem mountFat_mounted {h : Header} {boot : Buffer} {s m : VolState Disk} (valid : h.Valid)
    (layout : s.vol.toLayout = h.layout) (csec : s.vol.fatCsec = fatCacheNone)
    (cdirty : s.vol.fatCdirty = false) (fatClean : s.vol.fatDirty = false)
    (rootClean : s.vol.rootDirty = false) (run : mountFat boot s = (0, m))
    (clean : m.fault = false) : Mounted m ∧ m.disk.bytes = s.disk.bytes := by
  simp only [mountFat] at run
  split at run
  next image =>
    split at run
    · simp at run
    split at run
    · simp at run
    next ok =>
      obtain ⟨bytes, loaded⟩ := Disk.read_ok s.disk _ _ _ ok
      have fault := mountRoot_fault boot _ |>.symm.trans (congrArg (·.2.fault) run) |>.trans clean
      simp only [modVol_fault, useBuffer_fault, diskRead_fault, Bool.or_eq_false_iff,
        decide_eq_false_iff_not, fat12Buf, sectorSize] at fault
      have staged : Staged h (((s.diskRead s.vol.fatLba s.vol.fatSectors s.vol.fat).2.2.useBuffer
          (s.vol.fatSectors * sectorSize) fat12Buf).modVol
            (·.imageLoad (s.diskRead s.vol.fatLba s.vol.fatSectors s.vol.fat).2.1)) := by
        refine ⟨valid, layout, csec, cdirty, fatClean, rootClean, fun _ => ⟨?_, ?_⟩⟩
        · change s.vol.fatSectors ≤ 16
          omega
        · intro i bound
          change (s.disk.read _ _ _).2.1 i = (s.disk.read _ _ _).2.2.bytes _
          rw [bytes, loaded, splice_inside _ _ (Nat.zero_le i) (by rw [Nat.zero_add]; exact bound)]
          rfl
      have done := mountRoot_mounted staged run
      exact ⟨done.1, done.2.trans bytes⟩
  next other =>
    exact mountRoot_mounted ⟨valid, layout, csec, cdirty, fatClean, rootClean,
      fun image => absurd image other⟩ run

/-- A mount that returns 0 and stays inside its buffers (a FAT12 size that wraps
to a small product overruns `fat[]`). -/
theorem mountVolume_mounted {id : Nat} {s m : VolState Disk} (run : mountVolume id s = (0, m))
    (clean : m.fault = false) :
    Mounted m ∧ m.disk.bytes = s.disk.bytes := by
  simp only [mountVolume] at run
  split at run
  · simp at run
  split at run
  · simp at run
  next ok =>
    have bytes := (Disk.read_ok s.disk _ _ _ ok).1
    split at run
    · simp at run
    next passed =>
      have done := mountFat_mounted (ofBoot_valid passed) rfl rfl rfl rfl rfl run clean
      exact ⟨done.1, done.2.trans bytes⟩

/-- The only buffer a mount overruns is `fat[]`. -/
theorem mountFat_fault {boot : Buffer} {s m : VolState Disk} (run : mountFat boot s = (0, m)) :
    m.fault = (s.fault || decide (m.vol.kind = .fat12 ∧ 16 < m.vol.fatSectors)) := by
  have root (t : VolState Disk) (rc : (mountRoot boot t).1 = 0) :
      (mountRoot boot t).2.vol.kind = t.vol.kind ∧
        (mountRoot boot t).2.vol.fatSectors = t.vol.fatSectors := by
    simp only [mountRoot] at rc ⊢
    split
    · split <;> exact ⟨rfl, rfl⟩
    · split
      · exact ⟨rfl, rfl⟩
      · split <;> exact ⟨rfl, rfl⟩
  simp only [mountFat] at run
  split at run
  next image =>
    split at run
    · simp at run
    split at run
    · simp at run
    next ok =>
      obtain ⟨kind, sectors⟩ := root _ (congrArg Prod.fst run)
      have fault := mountRoot_fault boot _ |>.symm.trans (congrArg (·.2.fault) run)
      rw [run] at kind sectors
      have wide : fat12Buf < s.vol.fatSectors * sectorSize ↔ 16 < s.vol.fatSectors := by
        simp only [fat12Buf, sectorSize]
        omega
      change m.vol.kind = s.vol.kind at kind
      change m.vol.fatSectors = s.vol.fatSectors at sectors
      change (s.fault || decide (fat12Buf < s.vol.fatSectors * sectorSize)) = m.fault at fault
      rw [← fault, kind, sectors]
      simp only [image, wide, true_and]
  next other =>
    obtain ⟨kind, -⟩ := root _ (congrArg Prod.fst run)
    have fault := (mountRoot_fault boot _).symm.trans (congrArg (·.2.fault) run)
    rw [run] at kind
    rw [← fault, kind]
    simp [other]

theorem mountVolume_fault {id : Nat} {s m : VolState Disk} (run : mountVolume id s = (0, m)) :
    m.fault = (s.fault || decide (m.vol.kind = .fat12 ∧ 16 < m.vol.fatSectors)) := by
  simp only [mountVolume] at run
  split at run
  · simp at run
  split at run
  · simp at run
  split at run
  · simp at run
  · have fault := mountFat_fault run
    exact fault

theorem mountVolume_clean {id : Nat} {disk : Disk} {vol : FatVolume} {m : VolState Disk}
    (run : mountVolume id (.fresh disk vol) = (0, m)) :
    m.fault = false ↔ (m.vol.kind = .fat12 → m.vol.fatSectors ≤ 16) := by
  rw [mountVolume_fault run]
  simp [fresh]

/-- The first sector as fs_mount reads it. -/
def bootOf (d : Disk) : Buffer :=
  splice (fun _ => 0) 0 (1 * sectorSize) (window d.bytes (0 * sectorSize))

/-- The layout that a boot sector describes. -/
def Layout.ofBoot (boot : Buffer) : Layout :=
  if (Header.ofBoot boot).layout.kind = .fat32 then (Header.ofBoot boot).layout.moveRoot boot
  else (Header.ofBoot boot).layout

/-- The checks of fs_mount. -/
structure Layout.Passes (l : Layout) : Prop where
  bytesPerSec : l.bytesPerSec = sectorSize
  fat_pos : l.fatSectors ≠ 0
  spc_pos : l.secPerCluster ≠ 0
  image : l.kind = .fat12 → u32 (l.fatSectors * sectorSize) ≤ fat12Buf
  chainRoot : l.kind = .fat32 → 2 ≤ l.rootDirCluster
  fixedRoot : l.kind ≠ .fat32 → l.rootSizeSec * sectorSize ≤ rootBufMax

theorem Layout.ofBoot_header (boot : Buffer) :
    (Layout.ofBoot boot).toHeader = Header.ofBoot boot ∧
      (Layout.ofBoot boot).kind = Header.kindOf (Header.ofBoot boot).clusters := by
  simp only [ofBoot]
  split <;> exact ⟨rfl, rfl⟩

theorem Header.ofBoot_congr {a b : Buffer} (agree : ∀ i, i < sectorSize → a i = b i) :
    Header.ofBoot a = Header.ofBoot b := by
  have word (off : Nat) (inside : off < 510) : readLe16 a off = readLe16 b off :=
    readLe16_congr fun k bound => agree _ (by simp only [sectorSize]; omega)
  have long (off : Nat) (inside : off < 508) : readLe32 a off = readLe32 b off :=
    readLe32_congr fun k bound => agree _ (by simp only [sectorSize]; omega)
  simp only [ofBoot, word 11 (by decide), word 14 (by decide), word 17 (by decide),
    word 19 (by decide), word 22 (by decide), long 32 (by decide), long 36 (by decide),
    agree 13 (by decide), agree 16 (by decide)]

theorem bootOf_byte (d : Disk) {i : Nat} (inside : i < sectorSize) : bootOf d i = d.bytes i := by
  rw [bootOf, splice_inside _ _ (Nat.zero_le i) (by omega), window, Nat.zero_mul, Nat.zero_add,
    Nat.sub_zero]

section Checks
variable {boot : Buffer} {s m : VolState Disk}

theorem mountRoot_layout (staged : s.vol.toLayout = (Header.ofBoot boot).layout)
    (run : mountRoot boot s = (0, m)) : m.vol.toLayout = Layout.ofBoot boot := by
  have kind : s.vol.kind = (Header.ofBoot boot).layout.kind := by rw [staged]
  simp only [mountRoot] at run
  rw [Layout.ofBoot, ← kind]
  split at run
  next chain =>
    rw [if_pos chain, ← staged]
    split at run
    · simp at run
    · obtain ⟨-, rfl⟩ := Prod.mk.inj run
      rfl
  next fixed =>
    rw [if_neg fixed, ← staged]
    split at run
    · simp at run
    split at run
    · simp at run
    · obtain ⟨-, rfl⟩ := Prod.mk.inj run
      rfl

theorem mountVolume_layout {id : Nat} (run : mountVolume id s = (0, m)) :
    m.vol.toLayout = Layout.ofBoot (bootOf s.disk) := by
  simp only [mountVolume] at run
  split at run
  · simp at run
  split at run
  · simp at run
  next ok =>
    have boot : (s.diskRead 0 1 fun _ => 0).2.1 = bootOf s.disk := (Disk.read_ok s.disk _ _ _ ok).2
    rw [boot] at run
    split at run
    · simp at run
    simp only [mountFat] at run
    split at run
    · split at run
      · simp at run
      split at run
      · simp at run
      · exact mountRoot_layout rfl run
    · exact mountRoot_layout rfl run

theorem mountRoot_rc (boot : Buffer) (s : VolState Disk) (good : s.disk.Faultless)
    (staged : s.vol.toLayout = (Header.ofBoot boot).layout) : (mountRoot boot s).1 = 0 ↔
      (s.vol.kind = .fat32 → 2 ≤ (Layout.ofBoot boot).rootDirCluster) ∧
      (s.vol.kind ≠ .fat32 → (Layout.ofBoot boot).rootSizeSec * sectorSize ≤ rootBufMax) := by
  have header : (Layout.ofBoot boot).toHeader = s.vol.toHeader := by
    rw [(Layout.ofBoot_header boot).1, staged]
    rfl
  have read := Disk.read_faultless good s.vol.rootLba s.vol.rootSizeSec s.vol.root
  have kind : s.vol.kind = (Header.ofBoot boot).layout.kind := by rw [staged]
  rw [header]
  by_cases chain : s.vol.kind = .fat32
  · have cluster : (Layout.ofBoot boot).rootDirCluster = readLe32 boot 44 := by
      rw [Layout.ofBoot, ← kind, if_pos chain]
      rfl
    simp only [mountRoot, chain, cluster, ne_eq, not_true, false_implies, and_true,
      forall_const]
    change (if readLe32 boot 44 < 2 then _ else _ : Int × VolState Disk).1 = 0 ↔ _
    split <;> simp <;> omega
  · simp only [mountRoot, chain, false_implies, true_and, ne_eq, not_false_eq_true,
      forall_const, diskRead_fst, read, lt_irrefl, if_false]
    split <;> simp <;> omega

theorem mountFat_rc (boot : Buffer) (good : s.disk.Faultless)
    (staged : s.vol.toLayout = (Header.ofBoot boot).layout) : (mountFat boot s).1 = 0 ↔
      (s.vol.kind = .fat12 → u32 (s.vol.fatSectors * sectorSize) ≤ fat12Buf) ∧
      (s.vol.kind = .fat32 → 2 ≤ (Layout.ofBoot boot).rootDirCluster) ∧
      (s.vol.kind ≠ .fat32 → (Layout.ofBoot boot).rootSizeSec * sectorSize ≤ rootBufMax) := by
  by_cases image : s.vol.kind = .fat12
  · have read := Disk.read_faultless good s.vol.fatLba s.vol.fatSectors s.vol.fat
    have last := mountRoot_rc boot (((s.diskRead s.vol.fatLba s.vol.fatSectors
      s.vol.fat).2.2.useBuffer (s.vol.fatSectors * sectorSize) fat12Buf).modVol
        (·.imageLoad (s.diskRead s.vol.fatLba s.vol.fatSectors s.vol.fat).2.1))
      (good.read _ _ _) staged
    have rc : ¬ (s.diskRead s.vol.fatLba s.vol.fatSectors s.vol.fat).1 < 0 := by
      rw [diskRead_fst, read]
      exact lt_irrefl 0
    simp only [mountFat, if_pos image, if_neg rc]
    by_cases large : fat12Buf < u32 (s.vol.fatSectors * sectorSize)
    · rw [if_pos large]
      exact iff_of_false (show (-1 : Int) ≠ 0 by decide) fun all =>
        absurd (all.1 image) (Nat.not_le_of_lt large)
    · rw [if_neg large]
      exact last.trans ⟨fun root => ⟨fun _ => Nat.le_of_not_lt large, root⟩, fun all => all.2⟩
  · have run : mountFat boot s = mountRoot boot s := if_neg image
    rw [run, mountRoot_rc boot s good staged]
    exact ⟨fun root => ⟨fun kind => absurd kind image, root⟩, fun all => all.2⟩

/-- Which boot sectors fs_mount accepts when no read fails. -/
theorem mountVolume_ok_iff (id : Nat) (s : VolState Disk) (good : s.disk.Faultless) :
    (mountVolume id s).1 = 0 ↔ (Layout.ofBoot (bootOf s.disk)).Passes := by
  obtain ⟨header, kind⟩ := Layout.ofBoot_header (bootOf s.disk)
  have read := Disk.read_faultless good 0 1 fun _ => 0
  have boot : (s.diskRead 0 1 fun _ => 0).2.1 = bootOf s.disk := by rw [diskRead_buf, read]; rfl
  have rc : ¬ (s.diskRead 0 1 fun _ => 0).1 < 0 := by
    rw [diskRead_fst, read]
    exact lt_irrefl 0
  have present : ¬ Device.present s.disk = false := by rw [Device.present_disk, good.1]; decide
  simp only [mountVolume, if_neg present, if_neg rc, boot]
  split
  next failed =>
    refine iff_of_false (show (-1 : Int) ≠ 0 by decide) fun passes => ?_
    have bytes := passes.bytesPerSec
    have fat := passes.fat_pos
    have spc := passes.spc_pos
    rw [header] at bytes fat spc
    exact failed.elim (absurd bytes) fun rest => rest.elim (absurd · fat) (absurd · spc)
  next passed =>
    push Not at passed
    obtain ⟨bytes, fat, spc⟩ := passed
    rw [mountFat_rc (bootOf s.disk) (good.read _ _ _) rfl]
    constructor
    · rintro ⟨image, chain, fixed⟩
      refine ⟨by rw [header]; exact bytes, by rw [header]; exact fat, by rw [header]; exact spc,
        ?_, ?_, ?_⟩
      · rw [header, kind]; exact image
      · rw [kind]; exact chain
      · rw [kind]; exact fixed
    · intro passes
      have image := passes.image
      have chain := passes.chainRoot
      have fixed := passes.fixedRoot
      rw [header, kind] at image
      rw [kind] at chain fixed
      exact ⟨image, chain, fixed⟩

end Checks

/-- What reading leaves alone. -/
structure ReadFrame (s t : VolState Disk) : Prop where
  present : t.disk.present = s.disk.present
  sectors : t.disk.sectors = s.disk.sectors
  verdict : t.disk.verdict = s.disk.verdict
  bytes : t.disk.bytes = s.disk.bytes
  taken : t.taken = s.taken
  log : ∃ new, t.disk.log = new ++ s.disk.log ∧ ∀ x ∈ new, x.write = false

namespace ReadFrame

theorem refl (s : VolState Disk) : ReadFrame s s := ⟨rfl, rfl, rfl, rfl, rfl, [], rfl, by simp⟩

theorem trans {s t u : VolState Disk} (first : ReadFrame s t) (second : ReadFrame t u) :
    ReadFrame s u := by
  obtain ⟨new, log, reads⟩ := first.log
  obtain ⟨more, grown, also⟩ := second.log
  refine ⟨second.present.trans first.present, second.sectors.trans first.sectors,
    second.verdict.trans first.verdict, second.bytes.trans first.bytes,
    second.taken.trans first.taken, more ++ new, by rw [grown, log, List.append_assoc], ?_⟩
  intro x member
  exact (List.mem_append.mp member).elim (also x) (reads x)

theorem read (s : VolState Disk) (lba count : Nat) (buf : Buffer) :
    ReadFrame s (s.diskRead lba count buf).2.2 := by
  obtain ⟨present, sectors, verdict, bytes⟩ := s.disk.read_keeps lba count buf
  obtain ⟨new, log, all⟩ := s.disk.read_log lba count buf
  exact ⟨present, sectors, verdict, bytes, rfl, new, log, fun x member => by rw [all x member]⟩

theorem mod {s t : VolState Disk} (frame : ReadFrame s t) (f : FatVolume → FatVolume) :
    ReadFrame s (t.modVol f) :=
  ⟨frame.present, frame.sectors, frame.verdict, frame.bytes, frame.taken, frame.log⟩

theorem use {s t : VolState Disk} (frame : ReadFrame s t) (n size : Nat) :
    ReadFrame s (t.useBuffer n size) :=
  ⟨frame.present, frame.sectors, frame.verdict, frame.bytes, frame.taken, frame.log⟩

theorem faultless {s t : VolState Disk} (frame : ReadFrame s t) (good : s.disk.Faultless) :
    t.disk.Faultless :=
  ⟨frame.present.trans good.1, fun past a => (congrFun₂ frame.verdict past a).trans (good.2 past a)⟩

end ReadFrame

theorem mountRoot_frame (boot : Buffer) (s : VolState Disk) : ReadFrame s (mountRoot boot s).2 := by
  have image := (ReadFrame.read s s.vol.rootLba s.vol.rootSizeSec s.vol.root).mod
    (·.rootLoad (s.diskRead s.vol.rootLba s.vol.rootSizeSec s.vol.root).2.1)
  have chain := (ReadFrame.refl s).mod fun v => v.setLayout (v.moveRoot boot)
  simp only [mountRoot]
  split
  · split
    · exact chain
    · exact chain.mod (·.atRoot)
  · split
    · exact .refl s
    · split
      · exact image
      · exact image.mod (·.atRoot)

theorem mountFat_frame (boot : Buffer) (s : VolState Disk) : ReadFrame s (mountFat boot s).2 := by
  have loaded := ((ReadFrame.read s s.vol.fatLba s.vol.fatSectors s.vol.fat).use
    (s.vol.fatSectors * sectorSize) fat12Buf).mod
      (·.imageLoad (s.diskRead s.vol.fatLba s.vol.fatSectors s.vol.fat).2.1)
  simp only [mountFat]
  split
  · split
    · exact .refl s
    · split
      · exact loaded
      · exact loaded.trans (mountRoot_frame boot _)
  · exact mountRoot_frame boot s

/-- A mount, accepted or not, only reads the disk. -/
theorem mountVolume_frame (id : Nat) (s : VolState Disk) : ReadFrame s (mountVolume id s).2 := by
  have boot := ReadFrame.read s 0 1 fun _ => 0
  have cleared (v : FatVolume) := boot.mod fun _ => v
  simp only [mountVolume]
  split
  · exact .refl s
  split
  · exact cleared _
  · split
    · exact cleared _
    · exact (cleared _).trans (mountFat_frame _ _)

end Zenbite.Fat
