import Zenbite.Fat.FormatMount

/-! How large fs_format makes the FATs. -/

namespace Zenbite.Fat

/-- What format_fat16 and format_fat32 decide before they write. -/
structure Sizing where
  secPerCluster : Nat
  reserved : Nat
  fats : Nat
  rootSecs : Nat
  fatSecs : Nat
  entriesPerSector : Nat

def formatSizing (total : Nat) : Sizing :=
  if total < 512 * 1024 * 2 then ⟨spc16 total, 4, 2, 16, fatSecs16 total, 256⟩
  else ⟨spc32 total, 32, 2, 0, fatSecs32 total, 128⟩

namespace Sizing

def dataLba (s : Sizing) : Nat := s.reserved + s.fats * s.fatSecs + s.rootSecs

def clusters (s : Sizing) (total : Nat) : Nat := (total - s.dataLba) / s.secPerCluster

/-- Every data cluster has an entry, and there is room for one; a FAT of 16-bit entries
has a size that its header can say. -/
structure Fits (s : Sizing) (total : Nat) : Prop where
  entries : s.clusters total + 2 ≤ s.fatSecs * s.entriesPerSector
  room : s.dataLba + s.secPerCluster ≤ total
  field : s.entriesPerSector = 256 → s.fatSecs < 2 ^ 16

end Sizing

/-- The boot sector says the same. -/
theorem formatSizing_header (hidden : Nat) (label : Option (List UInt8)) {total : Nat} (low : 1024 ≤ total)
    (high : total < 2 ^ 32) :
    let s := formatSizing total
    Header.ofBoot (if total < 512 * 1024 * 2 then boot16 hidden label total else boot32 hidden label total) =
      ⟨512, s.secPerCluster, s.reserved, s.fats, s.rootSecs * 16, s.fatSecs, total⟩ := by
  simp only [formatSizing]
  split
  · exact boot16_header hidden label low (by omega)
  · exact boot32_header hidden label (by omega) high

theorem sizing16_fits {total : Nat} (low : 1024 ≤ total) (high : total < 2 ^ 20) : (formatSizing total).Fits total := by
  obtain ⟨pos, secs⟩ := fatSecs16_spec total low high
  rw [formatSizing, if_pos (by omega)]
  rcases spc16_cases total with ⟨below, spc⟩ | ⟨above, below, spc⟩ | ⟨above, spc⟩
  all_goals
    rw [spc] at secs ⊢
    constructor
    · dsimp only [Sizing.clusters, Sizing.dataLba]
      omega
    · dsimp only [Sizing.dataLba]
      omega
    · intro _
      change fatSecs16 total < 2 ^ 16
      omega

/-- The divisor counts four FATs: the last clusters have no entry. -/
theorem sizing32_short {total : Nat} (low : 2 ^ 20 ≤ total) (high : total < 2 ^ 32) :
    ¬ (formatSizing total).Fits total := by
  intro fits
  have entries := fits.entries
  obtain ⟨pos, small, past, -⟩ := fatSecs32_spec low high
  rw [formatSizing, if_neg (by omega)] at entries
  change (total - (32 + 2 * fatSecs32 total + 0)) / spc32 total + 2 ≤ fatSecs32 total * 128 at entries
  have spc : 0 < spc32 total := by
    rcases spc32_cases total with ⟨-, spc⟩ | ⟨-, spc⟩ <;> rw [spc] <;> decide
  have many : 128 * fatSecs32 total - 1 ≤ (total - (32 + 2 * fatSecs32 total + 0)) / spc32 total := by
    rw [Nat.le_div_iff_mul_le spc]
    omega
  omega

/-- The sizes are right exactly below 512 MiB, where the volume is a FAT16 one. -/
theorem formatSizing_fits_iff {total : Nat} (low : 1024 ≤ total) (high : total < 2 ^ 32) :
    (formatSizing total).Fits total ↔ total < 2 ^ 20 := by
  constructor
  · intro fits
    by_contra large
    exact sizing32_short (Nat.le_of_not_lt large) high fits
  · exact sizing16_fits low

theorem formatSizing_fits_1024 : (formatSizing 1024).Fits 1024 :=
  (formatSizing_fits_iff (by decide) (by decide)).mpr (by decide)

/-- At 512 MiB the table has 130560 entries for 130813 clusters. -/
theorem formatSizing_short : ¬ (formatSizing 1048576).Fits 1048576 := by
  intro fits
  have entries := fits.entries
  revert entries
  decide

end Zenbite.Fat
