import Zenbite.Fat.Format
import Mathlib.Tactic.SplitIfs

/-! What a formatted disk holds, and that fs_mount reads back what the formatter
meant: only between 16424 sectors and 512 MiB. -/

namespace Zenbite.Fat

open Memory VolState

theorem volumeLabel_length (label : Option (List UInt8)) : (volumeLabel label).length = 11 := by
  simp [volumeLabel]

theorem ascii_fat16 : (ascii "FAT16   ").length = 8 := by decide

theorem ascii_fat32 : (ascii "FAT32   ").length = 8 := by decide

theorem ascii_oem : (ascii "ZENBITE ").length = 8 := by decide

/-! Sizes. -/

theorem spc16_cases (total : Nat) :
    total < 32768 ∧ spc16 total = 4 ∨ 32768 ≤ total ∧ total < 131072 ∧ spc16 total = 8 ∨
      131072 ≤ total ∧ spc16 total = 16 := by
  simp only [spc16]
  split
  · omega
  · split <;> omega

theorem fatSecs16_spec (total : Nat) (low : 1024 ≤ total) (high : total < 2 ^ 20) :
    0 < fatSecs16 total ∧ fatSecs16 total = (total - 20 + 8 + (spc16 total * 128 + 2) - 1) /
      (spc16 total * 128 + 2) := by
  have wrap : u32 (u32 (total - 4 - 16 + 8) + (spc16 total * 128 + 2) - 1) =
      total - 20 + 8 + (spc16 total * 128 + 2) - 1 := by
    simp only [u32]
    rcases spc16_cases total with ⟨-, spc⟩ | ⟨-, -, spc⟩ | ⟨-, spc⟩ <;> rw [spc] <;> omega
  have pos : 0 < (total - 20 + 8 + (spc16 total * 128 + 2) - 1) / (spc16 total * 128 + 2) := by
    apply Nat.div_pos <;> omega
  simp only [fatSecs16, wrap, if_neg pos.ne']
  exact ⟨pos, trivial⟩

theorem spc32_cases (total : Nat) :
    total < 2097152 ∧ spc32 total = 8 ∨ 2097152 ≤ total ∧ spc32 total = 16 := by
  simp only [spc32]
  split <;> omega

theorem fatSecs32_eq (total : Nat) : ∃ q, q = u32 (u32 (total - 32 + 8) +
    (spc32 total * 128 + 2 * 2) - 1) / (spc32 total * 128 + 2 * 2) ∧
      fatSecs32 total = if q = 0 then 1 else q := ⟨_, rfl, rfl⟩

/-- Too few sectors for two FATs: clusters at the end of the data area have no entry. -/
theorem fatSecs32_spec {total : Nat} (low : 2 ^ 20 ≤ total) (high : total < 2 ^ 32) :
    0 < fatSecs32 total ∧ fatSecs32 total < 2 ^ 22 ∧
      32 + 2 * fatSecs32 total + (128 * fatSecs32 total - 1) * spc32 total ≤ total ∧
      65525 * spc32 total ≤ total - (32 + 2 * fatSecs32 total) := by
  obtain ⟨q, quot, secs⟩ := fatSecs32_eq total
  rw [secs]
  simp only [u32] at quot
  rcases spc32_cases total with ⟨small, spc⟩ | ⟨large, spc⟩ <;> rw [spc] at quot ⊢
  · rw [if_neg (by omega)]
    omega
  · by_cases zero : q = 0
    · rw [if_pos zero]
      omega
    · rw [if_neg zero]
      omega

theorem boot16_header (hidden : Nat) (label : Option (List UInt8)) {total : Nat}
    (low : 1024 ≤ total) (high : total < 2 ^ 20) :
    Header.ofBoot (boot16 hidden label total) =
      ⟨512, spc16 total, 4, 2, 256, fatSecs16 total, total⟩ := by
  have spc := spc16_cases total
  obtain ⟨pos, secs⟩ := fatSecs16_spec total low high
  have small : fatSecs16 total < 2 ^ 16 := by
    rw [secs]
    rcases spc with ⟨-, spc⟩ | ⟨-, -, spc⟩ | ⟨-, spc⟩ <;> rw [spc] <;> omega
  clear secs
  rcases Nat.lt_or_ge 0xFFFF total with large | fits
  · simp [Header.ofBoot, readLe16, readLe32, boot16, large, Nat.not_le_of_lt large, poke, splice,
      volumeLabel_length, ascii_fat16, ascii_oem, bytesOf, byteOf_toNat, blankSector, sectorSize]
    split <;> omega
  · simp [Header.ofBoot, readLe16, readLe32, boot16, fits, Nat.not_lt_of_le fits, poke, splice,
      volumeLabel_length, ascii_fat16, ascii_oem, bytesOf, byteOf_toNat, blankSector, sectorSize]
    split <;> split <;> omega

theorem boot32_root (hidden : Nat) (label : Option (List UInt8)) (total : Nat) :
    readLe32 (boot32 hidden label total) 44 = 2 := by
  simp [readLe32, boot32, poke, splice, volumeLabel_length, ascii_fat32, bytesOf, byteOf_toNat]

theorem boot32_header (hidden : Nat) (label : Option (List UInt8)) {total : Nat}
    (low : 2 ^ 20 ≤ total) (high : total < 2 ^ 32) :
    Header.ofBoot (boot32 hidden label total) =
      ⟨512, spc32 total, 32, 2, 0, fatSecs32 total, total⟩ := by
  have spc := spc32_cases total
  obtain ⟨-, small, -⟩ := fatSecs32_spec low high
  simp [Header.ofBoot, readLe16, readLe32, boot32, poke, splice, volumeLabel_length, ascii_fat32,
    ascii_oem, bytesOf, byteOf_toNat, blankSector, sectorSize]
  omega

/-! Bytes. -/

theorem clearSectors_spec (lba n : Nat) : ∀ (s : Nat) {d : Disk}, d.Faultless →
    (clearSectors lba n s d).Faultless ∧ ∀ a, (clearSectors lba n s d).bytes a =
      if (lba + s) * sectorSize ≤ a ∧ a < (lba + s + n) * sectorSize then 0 else d.bytes a := by
  induction n with
  | zero =>
      intro s d good
      exact ⟨good, fun a => (if_neg (by simp only [Nat.add_zero]; omega)).symm⟩
  | succ n ih =>
      intro s d good
      obtain ⟨next, bytes⟩ := ih (s := s + 1) (good.write (lba + s) 1 blankSector)
      refine ⟨next, fun a => ?_⟩
      rw [clearSectors, bytes, Disk.write_bytes good]
      simp only [splice, blankSector]
      rw [show sectorSize = 512 from rfl]
      split_ifs <;> first | omega | rfl

theorem clearFats_spec (first second n : Nat) : ∀ (s : Nat) {d : Disk}, d.Faultless →
    (clearFats first second n s d).Faultless ∧ ∀ a, (clearFats first second n s d).bytes a =
      if (first + s) * sectorSize ≤ a ∧ a < (first + s + n) * sectorSize ∨
        (second + s) * sectorSize ≤ a ∧ a < (second + s + n) * sectorSize then 0
      else d.bytes a := by
  induction n with
  | zero =>
      intro s d good
      exact ⟨good, fun a => (if_neg (by simp only [Nat.add_zero]; omega)).symm⟩
  | succ n ih =>
      intro s d good
      have once := good.write (first + s) 1 blankSector
      obtain ⟨next, bytes⟩ := ih (s := s + 1) (once.write (second + s) 1 blankSector)
      refine ⟨next, fun a => ?_⟩
      rw [clearFats, bytes, Disk.write_bytes once, Disk.write_bytes good]
      simp only [splice, blankSector]
      rw [show sectorSize = 512 from rfl]
      split_ifs <;> first | omega | rfl

/-- What format_fat16 leaves on a disk that takes every write. -/
structure Formatted16 (hidden : Nat) (label : Option (List UInt8)) (total : Nat) (d : Disk) :
    Prop where
  good : d.Faultless
  boot : ∀ i, i < sectorSize → d.bytes i = boot16 hidden label total i
  first : ∀ i, i < fatSecs16 total * sectorSize → d.bytes (4 * sectorSize + i) = fatFirst16 i
  root : ∀ i, i < 16 * sectorSize → d.bytes ((4 + 2 * fatSecs16 total) * sectorSize + i) = 0

theorem fatFirst16_zero {i : Nat} (past : 4 ≤ i) : fatFirst16 i = 0 := by
  rw [fatFirst16, poke, splice_outside _ _ (.inr (by simpa using past))]
  rfl

theorem formatFat16_spec (hidden : Nat) (label : Option (List UInt8)) (total : Nat) {d : Disk}
    (good : d.Faultless) (pos : 0 < fatSecs16 total) :
    (formatFat16 hidden label total d).1 = 0 ∧
      Formatted16 hidden label total (formatFat16 hidden label total d).2 := by
  have g0 := good.write 0 1 (boot16 hidden label total)
  have g1 := g0.write 4 1 fatFirst16
  have g2 := g1.write (4 + fatSecs16 total) 1 fatFirst16
  obtain ⟨g3, fats⟩ := clearFats_spec 4 (4 + fatSecs16 total) (fatSecs16 total - 1) 1 g2
  obtain ⟨g4, root⟩ := clearSectors_spec (4 + 2 * fatSecs16 total) 16 0 g3
  simp only [formatFat16, if_neg (Disk.write_done good _ _ _), if_neg (Disk.write_done g0 _ _ _),
    if_neg (Disk.write_done g1 _ _ _)]
  refine ⟨trivial, g4, fun i inside => ?_, fun i inside => ?_, fun i inside => ?_⟩
  · rw [root, fats, Disk.write_bytes g1, Disk.write_bytes g0, Disk.write_bytes good]
    rw [show sectorSize = 512 from rfl] at inside ⊢
    rw [if_neg (by omega), if_neg (by omega), splice_outside _ _ (by omega),
      splice_outside _ _ (by omega), splice_inside _ _ (by omega) (by omega)]
    rfl
  · rw [root, fats, Disk.write_bytes g1, Disk.write_bytes g0]
    rw [show sectorSize = 512 from rfl] at inside ⊢
    rw [if_neg (by omega)]
    rcases Nat.lt_or_ge i 512 with head | tail
    · rw [if_neg (by omega), splice_outside _ _ (by omega), splice_add _ _ (by omega)]
    · rw [if_pos (by omega), fatFirst16_zero (by omega)]
  · rw [root]
    rw [show sectorSize = 512 from rfl] at inside ⊢
    rw [if_pos (by omega)]

/-- The kind that fs_format writes. -/
def formattedKind (total : Nat) : FatKind := if total < 512 * 1024 * 2 then .fat16 else .fat32

/-- On a disk of `total` sectors where every request succeeds, a format that returns
0 is followed by a mount that returns 0, with the kind that was written, no live
entry in the root and no used cluster but the FAT32 root. -/
def FormatMounts (total : Nat) : Prop :=
  ∀ (disk : Disk) (hidden : Nat) (label : Option (List UInt8)) (id : Nat) (vol : FatVolume)
    (d : Disk), disk.Faultless → disk.sectors = total → fsFormat hidden label disk = (0, d) →
    ∃ m, mountVolume id (.fresh d vol) = (0, m) ∧ m.vol.kind = formattedKind total ∧
      (∃ buf size, (loadDir 0 m).1 = some (buf, size) ∧
        ∀ i, i < size / 32 → ¬ Dirent.Live (slot buf i)) ∧
      ∀ c, 2 ≤ c → m.vol.dataLba + (c - 2) * m.vol.secPerCluster + m.vol.secPerCluster ≤
          m.vol.totalSectors →
        (m.vol.kind = .fat32 → c ≠ m.vol.rootDirCluster) → (fatGet c m).1 = 0

section Fat16
variable {hidden : Nat} {label : Option (List UInt8)} {total : Nat}

theorem rootSize16 {h : Header} (entries : h.rootEntries = 256) : h.rootSizeSec = 16 := by
  simp only [Header.rootSizeSec, entries, sectorSize]

/-- The layout that fs_mount derives from a FAT16 boot sector. -/
theorem formatted16_header {d : Disk} (low : 1024 ≤ total) (high : total < 2 ^ 20)
    (formatted : Formatted16 hidden label total d) :
    (Layout.ofBoot (bootOf d)).toHeader =
      ⟨512, spc16 total, 4, 2, 256, fatSecs16 total, total⟩ := by
  rw [(Layout.ofBoot_header _).1, ← boot16_header hidden label low high]
  exact Header.ofBoot_congr fun i inside => (bootOf_byte d inside).trans (formatted.boot i inside)

/-- Below 16424 sectors there are too few clusters for FAT16. -/
theorem clusters16 (total : Nat) (low : 1024 ≤ total) (high : total < 2 ^ 20) :
    let h : Header := ⟨512, spc16 total, 4, 2, 256, fatSecs16 total, total⟩
    h.fatEnd = 4 + 2 * fatSecs16 total ∧ h.rootEnd = 20 + 2 * fatSecs16 total ∧
      h.rootEnd ≤ total ∧ h.clusters < 65525 ∧ (4085 ≤ h.clusters ↔ 16424 ≤ total) := by
  intro h
  obtain ⟨pos, secs⟩ := fatSecs16_spec total low high
  have fatEnd : h.fatEnd = 4 + 2 * fatSecs16 total := by
    simp only [h, Header.fatEnd, u32]
    rcases spc16_cases total with ⟨-, spc⟩ | ⟨-, -, spc⟩ | ⟨-, spc⟩ <;> rw [spc] at secs <;> omega
  have rootEnd : h.rootEnd = 20 + 2 * fatSecs16 total := by
    rw [Header.rootEnd, fatEnd]
    simp only [h, Header.rootSizeSec, u32, sectorSize]
    rcases spc16_cases total with ⟨-, spc⟩ | ⟨-, -, spc⟩ | ⟨-, spc⟩ <;> rw [spc] at secs <;> omega
  rw [Header.clusters, rootEnd]
  simp only [h, u32]
  refine ⟨fatEnd, trivial, ?_⟩
  rcases spc16_cases total with ⟨_, spc⟩ | ⟨_, _, spc⟩ | ⟨_, spc⟩ <;> rw [spc] at secs ⊢ <;> omega

/-- From 16424 sectors on, a FAT16 format mounts as an empty FAT16 volume. -/
theorem formatted16_mounts (low : 16424 ≤ total) (high : total < 2 ^ 20) (id : Nat)
    (vol : FatVolume) {d : Disk} (formatted : Formatted16 hidden label total d) :
    ∃ m, mountVolume id (.fresh d vol) = (0, m) ∧ m.vol.kind = .fat16 ∧
      (∀ i, i < 16 * sectorSize → m.vol.root i = 0) ∧ m.vol.rootSizeSec = 16 ∧
      ∀ c, 2 ≤ c → m.vol.dataLba + (c - 2) * m.vol.secPerCluster + m.vol.secPerCluster ≤
        m.vol.totalSectors → (fatGet c m).1 = 0 := by
  have header := formatted16_header (by omega) high formatted
  obtain ⟨fatEnd, rootEnd, inside, few, enough⟩ := clusters16 total (by omega) high
  obtain ⟨pos, secs⟩ := fatSecs16_spec total (by omega) high
  generalize layout : Layout.ofBoot (bootOf d) = l at header
  have kind : l.kind = .fat16 := by
    rw [← layout, (Layout.ofBoot_header _).2, ← (Layout.ofBoot_header _).1, layout, header,
      Header.kindOf, if_neg (Nat.not_lt_of_le (enough.2 low)), if_pos few]
  have spc : 0 < spc16 total := by
    rcases spc16_cases total with ⟨-, spc⟩ | ⟨-, -, spc⟩ | ⟨-, spc⟩ <;> omega
  have passes : l.Passes := by
    refine ⟨?_, ?_, ?_, fun image => ?_, fun chain => ?_, fun _ => ?_⟩
    · rw [header]; rfl
    · rw [header]; exact pos.ne'
    · rw [header]; exact spc.ne'
    · rw [kind] at image; cases image
    · rw [kind] at chain; cases chain
    · rw [header, rootSize16 rfl]; decide
  have run := mountVolume_run ((mountVolume_ok_iff id (.fresh d vol)
    formatted.good).2 (layout ▸ passes))
  generalize (mountVolume id (.fresh d vol)).2 = m at run
  have same : m.vol.toLayout = l := (mountVolume_layout run).trans layout
  have mounted := (mountVolume_mounted run ((mountVolume_clean run).2 fun image => by
    rw [same, kind] at image; cases image)).1
  have frame := mountVolume_frame id (.fresh d vol)
  rw [run] at frame
  have bytes : m.disk.bytes = d.bytes := frame.bytes
  have fixed := mounted.layout.fixedRoot (by rw [same, kind]; decide)
  have rootLba : m.vol.rootLba = 4 + 2 * fatSecs16 total := by
    rw [fixed.1, same, header, fatEnd]
  have dataLba : m.vol.dataLba = 20 + 2 * fatSecs16 total := by
    rw [fixed.2.1, same, header, rootEnd]
  have rootSize : m.vol.rootSizeSec = 16 := by rw [same, header, rootSize16 rfl]
  have fatLba : m.vol.fatLba = 4 := by rw [mounted.layout.fatLba, same, header]
  have fatSectors : m.vol.fatSectors = fatSecs16 total := by rw [same, header]
  have perCluster : m.vol.secPerCluster = spc16 total := by rw [same, header]
  have size : m.vol.totalSectors = total := by rw [same, header]
  refine ⟨m, run, by rw [same, kind], fun i low => ?_, rootSize, fun c ge fits => ?_⟩
  · rw [mounted.rootImage (by rw [same, kind]; decide) i (by rw [rootSize]; exact low), bytes,
      rootLba]
    exact formatted.root i low
  · rw [dataLba, perCluster, size] at fits
    have max : m.vol.maxCluster = fatSecs16 total * 256 := by
      rw [Layout.maxCluster_fat16 (by rw [same, kind]), fatSectors]
      simp only [u32, sectorSize]
      rcases spc16_cases total with ⟨_, spc⟩ | ⟨_, _, spc⟩ | ⟨_, spc⟩ <;> rw [spc] at secs <;> omega
    have bound : c < m.vol.maxCluster := by
      rw [max]
      rcases spc16_cases total with ⟨_, spc⟩ | ⟨_, _, spc⟩ | ⟨_, spc⟩ <;> rw [spc] at secs fits <;>
        omega
    have good : m.disk.Faultless := frame.faultless formatted.good
    rw [((fatGet_read mounted.tableRead bound).2.2.2.resolve_right fun fault => fault.1 good).1]
    obtain ⟨wrap, sec, off⟩ := Layout.entry16 (by rw [same, kind]) bound
    have short := m.vol.toLayout.tableSectors_le
    have zero (k : Nat) (two : k < 2) :
        m.fatSector (c * 2 / sectorSize) (c * 2 % sectorSize + k) = 0 := by
      rw [mounted.coherent.stored mounted.cdirty sec (by omega), bytes, fatLba,
        u32_of_lt (by omega), Nat.add_mul, Nat.add_assoc, ← Nat.add_assoc _ _ k, Nat.div_add_mod',
        formatted.first _ (by simp only [sectorSize]; omega), fatFirst16_zero (by omega)]
    have first := zero 0 (by decide)
    rw [Nat.add_zero] at first
    rw [fatMap, rawFat_fat16 (by rw [same, kind]), wrap, readLe16, first, zero 1 (by decide)]
    exact Nat.zero_mod _

/-- Below, it mounts as FAT12 if at all. -/
theorem not_formatMounts_small (low : 1024 ≤ total) (high : total < 16424) :
    ¬ FormatMounts total := by
  intro formats
  obtain ⟨pos, -⟩ := fatSecs16_spec total low (by omega)
  have good := Disk.image_faultless total blankSector
  obtain ⟨rc, formatted⟩ := formatFat16_spec 0 none total good pos
  have format : fsFormat 0 none (.image total blankSector) =
      formatFat16 0 none total (.image total blankSector) := by
    have large : ¬ total < 1024 := by omega
    have small : total < 512 * 1024 * 2 := by omega
    simp only [fsFormat, Disk.image, large, small, if_true, if_false, Bool.true_eq_false]
  obtain ⟨m, run, kind, -, -⟩ := formats (.image total blankSector) 0 none 0 .zero _ good rfl
    (format.trans (Prod.ext rc rfl))
  have header := formatted16_header low (by omega) formatted
  obtain ⟨-, -, -, few, enough⟩ := clusters16 total low (by omega)
  have layout := mountVolume_layout run
  rw [layout, formattedKind, if_pos (by omega), (Layout.ofBoot_header _).2,
    ← (Layout.ofBoot_header _).1] at kind
  change Header.kindOf (Layout.ofBoot (bootOf (formatFat16 0 none total
    (.image total blankSector)).2)).toHeader.clusters = .fat16 at kind
  rw [header, Header.kindOf, if_pos (Nat.lt_of_not_le fun le => by have := enough.1 le; omega)]
    at kind
  cases kind

end Fat16

/-! FAT32: an entry past the end of the FAT is read from the second copy. -/

section Fat32
variable {total : Nat}

theorem formatFat32_spec (hidden : Nat) (label : Option (List UInt8)) {d : Disk}
    (good : d.Faultless) (pos : 0 < fatSecs32 total) :
    (formatFat32 hidden label total d).1 = 0 ∧
      (formatFat32 hidden label total d).2.Faultless ∧
      (∀ i, i < sectorSize →
        (formatFat32 hidden label total d).2.bytes i = boot32 hidden label total i) ∧
      ∀ i, i < sectorSize → (formatFat32 hidden label total d).2.bytes
        ((32 + fatSecs32 total) * sectorSize + i) = fatFirst32 i := by
  have g0 := good.write 0 1 (boot32 hidden label total)
  have g1 := g0.write 6 1 (boot32 hidden label total)
  have g2 := g1.write 1 1 fsInfo
  have g3 := g2.write 7 1 fsInfo
  have g4 := g3.write 32 1 fatFirst32
  have g5 := g4.write (32 + fatSecs32 total) 1 fatFirst32
  obtain ⟨g6, fats⟩ := clearFats_spec 32 (32 + fatSecs32 total) (fatSecs32 total - 1) 1 g5
  obtain ⟨g7, root⟩ := clearSectors_spec (32 + 2 * fatSecs32 total) (spc32 total) 0 g6
  simp only [formatFat32, if_neg (Disk.write_done good _ _ _), if_neg (Disk.write_done g3 _ _ _),
    if_neg (Disk.write_done g4 _ _ _)]
  refine ⟨trivial, g7, fun i inside => ?_, fun i inside => ?_⟩
  · rw [root, fats, Disk.write_bytes g4, Disk.write_bytes g3, Disk.write_bytes g2,
      Disk.write_bytes g1, Disk.write_bytes g0, Disk.write_bytes good]
    rw [show sectorSize = 512 from rfl] at inside ⊢
    rw [if_neg (by omega), if_neg (by omega), splice_outside _ _ (by omega),
      splice_outside _ _ (by omega), splice_outside _ _ (by omega), splice_outside _ _ (by omega),
      splice_outside _ _ (by omega), splice_inside _ _ (by omega) (by omega)]
    rfl
  · rw [root, fats, Disk.write_bytes g4]
    rw [show sectorSize = 512 from rfl] at inside ⊢
    rw [if_neg (by omega), if_neg (by omega), splice_add _ _ (by omega)]

/-- Cluster `128 * fat_secs` lies in the data area and has the value of entry 0. -/
theorem not_formatMounts_large (low : 2 ^ 20 ≤ total) (high : total < 2 ^ 32) :
    ¬ FormatMounts total := by
  intro formats
  obtain ⟨pos, small, fits, many⟩ := fatSecs32_spec low high
  have good := Disk.image_faultless total blankSector
  obtain ⟨rc, good', boot, second⟩ := formatFat32_spec 0 none good pos
  have format : fsFormat 0 none (.image total blankSector) =
      formatFat32 0 none total (.image total blankSector) := by
    have above : ¬ total < 1024 := by omega
    have large : ¬ total < 512 * 1024 * 2 := by omega
    simp only [fsFormat, Disk.image, above, large, if_false, Bool.true_eq_false]
  have whole : formatFat32 0 none total (.image total blankSector) =
      (0, (formatFat32 0 none total (.image total blankSector)).2) := Prod.ext rc rfl
  obtain ⟨m, run, kind, -, clusters⟩ := formats (.image total blankSector) 0 none 0 .zero _ good rfl
    (format.trans whole)
  generalize (formatFat32 0 none total (.image total blankSector)).2 = d at good' boot second run
  rw [formattedKind, if_neg (by omega)] at kind
  have header : m.vol.toHeader = ⟨512, spc32 total, 32, 2, 0, fatSecs32 total, total⟩ := by
    rw [mountVolume_layout run, (Layout.ofBoot_header _).1, ← boot32_header 0 none low high]
    exact Header.ofBoot_congr fun i inside => (bootOf_byte d inside).trans (boot i inside)
  have mounted := (mountVolume_mounted run ((mountVolume_clean run).2 fun image => by
    rw [kind] at image; cases image)).1
  have frame := mountVolume_frame 0 (.fresh d .zero)
  rw [run] at frame
  have bytes : m.disk.bytes = d.bytes := frame.bytes
  have fatLba : m.vol.fatLba = 32 := by rw [mounted.layout.fatLba, header]
  have dataLba : m.vol.dataLba = 32 + 2 * fatSecs32 total := by
    rw [(mounted.layout.chainRoot kind).1, header]
    change u32 (32 + 2 * fatSecs32 total) = _
    exact u32_of_lt (by omega)
  have rootDir : m.vol.rootDirCluster = 2 := by
    have chain : (Header.ofBoot (bootOf d)).layout.kind = .fat32 := by
      rw [← kind, mountVolume_layout run, (Layout.ofBoot_header _).2]
      rfl
    rw [mountVolume_layout run, ← boot32_root 0 none total]
    change (Layout.ofBoot (bootOf d)).rootDirCluster = _
    rw [Layout.ofBoot, if_pos chain]
    exact readLe32_congr fun k inside => by
      have low : 44 + k < sectorSize := by simp only [sectorSize]; omega
      exact (bootOf_byte d low).trans (boot _ low)
  have free := clusters (128 * fatSecs32 total) (by omega)
    (by
      rw [dataLba, header]
      have step : (128 * fatSecs32 total - 2) * spc32 total + spc32 total =
          (128 * fatSecs32 total - 1) * spc32 total := by
        rw [← Nat.succ_mul]
        congr 1
        omega
      change 32 + 2 * fatSecs32 total + (128 * fatSecs32 total - 2) * spc32 total +
        spc32 total ≤ total
      omega)
    (fun _ => by rw [rootDir]; omega)
  have place : u32 (128 * fatSecs32 total * 4) / sectorSize = fatSecs32 total ∧
      u32 (128 * fatSecs32 total * 4) % sectorSize = 0 := by
    simp only [u32, sectorSize]
    omega
  have good'' : m.disk.Faultless := frame.faultless good'
  have loaded := fatCacheLoad_ok good'' (fatSecs32 total)
  have other : m.vol.fatCsec ≠ fatSecs32 total := by
    rw [mounted.csec, fatCacheNone]
    omega
  have sector (i : Nat) (inside : i < sectorSize) :
      (fatCacheLoad (fatSecs32 total) m).2.vol.fatCbuf i = fatFirst32 i := by
    rw [(fatCacheLoad_clean good'' mounted.cdirty other).2 i inside, fatLba, bytes,
      u32_of_lt (by omega)]
    exact second i inside
  simp only [fatGet, kind, place, if_neg loaded] at free
  rw [readLe32_congr (b := fatFirst32) (j := 0) fun k inside =>
    sector _ (by simp only [sectorSize]; omega)] at free
  exact absurd free (by decide)

end Fat32

/-- A format followed by a mount works exactly from 16424 sectors up to 512 MiB. -/
theorem formatMounts_iff {total : Nat} (low : 1024 ≤ total) (high : total < 2 ^ 32) :
    FormatMounts total ↔ 16424 ≤ total ∧ total < 2 ^ 20 := by
  constructor
  · intro formats
    refine ⟨Nat.le_of_not_lt fun small => ?_, Nat.lt_of_not_le fun large => ?_⟩
    · exact not_formatMounts_small low small formats
    · exact not_formatMounts_large large high formats
  · rintro ⟨enough, few⟩ disk hidden label id vol d good size format
    have run : fsFormat hidden label disk = formatFat16 hidden label total disk := by
      have above : ¬ disk.sectors < 1024 := by omega
      have below : disk.sectors < 512 * 1024 * 2 := by omega
      have present : ¬ disk.present = false := by rw [good.1]; decide
      rw [fsFormat, if_neg present, if_neg above, if_pos below, size]
    obtain ⟨-, formatted⟩ := formatFat16_spec hidden label total good (fatSecs16_spec total low few).1
    rw [← run, format] at formatted
    obtain ⟨m, mount, kind, root, rootSize, entries⟩ :=
      formatted16_mounts enough few id vol formatted
    refine ⟨m, mount, kind.trans (if_pos (by omega)).symm,
      ⟨m.vol.root, m.vol.rootSizeSec * sectorSize, ?_, fun i inside live => live.1 ?_⟩,
      fun c ge fits _ => entries c ge fits⟩
    · have fixed : m.vol.FixedRoot 0 := ⟨rfl, by rw [kind]; decide⟩
      simp only [loadDir, if_pos fixed]
    · rw [rootSize] at inside
      simp only [sectorSize] at inside
      exact root _ (by simp only [sectorSize]; omega)

theorem formatMounts_20000 : FormatMounts 20000 :=
  (formatMounts_iff (by decide) (by decide)).2 (by decide)

/-- 4 MiB come back as FAT12; at 512 MiB the FAT32 table is too short. -/
theorem formatMounts_fails : ¬ FormatMounts 8192 ∧ ¬ FormatMounts 1048576 :=
  ⟨not_formatMounts_small (by decide) (by decide), not_formatMounts_large (by decide) (by decide)⟩

end Zenbite.Fat
