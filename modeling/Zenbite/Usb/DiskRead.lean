import Zenbite.Usb.Bulk
import Zenbite.Usb.Qtd
import Zenbite.Usb.Stick

/-! The reads of the two USB drivers: msc_disk_read in usb.c and ehci_disk_read in ehci.c. -/

namespace Zenbite.Usb

open Memory Spans

/-- usb.c, with MSC_IO_CHUNK_SECTORS. -/
def uhci : Driver Msc Td where
  plan m dirIn addr len :=
    let queue := m.bulkQueue dirIn (UInt32.ofNat addr) (UInt32.ofNat len)
    (ran queue.1, queue.2)
  spans td := [td.span]
  blockSize m := m.blockSize.toNat
  sectors := 4
  sectors_pos := by decide
  sectors_word := by decide

/-- ehci.c, with EHCI_MSC_CHUNK_SECTORS. -/
def ehci : Driver EhciMsc (Nat × Qtd) where
  plan m dirIn addr len := m.bulkChain dirIn addr len
  spans q := q.2.spans
  blockSize m := m.blockSize.toNat
  sectors := 32
  sectors_pos := by decide
  sectors_word := by decide

/-! UHCI -/

/-- The same device but for its toggles. -/
def Msc.Alike (m m' : Msc) : Prop := m'.maxpIn = m.maxpIn ∧ m'.maxpOut = m.maxpOut ∧ m'.blockSize = m.blockSize

theorem Msc.Alike.maxp {m m' : Msc} (alike : m.Alike m') (dirIn : Bool) : (m'.pipe dirIn).maxp = (m.pipe dirIn).maxp := by
  rw [Msc.pipe, Msc.pipe, alike.1, alike.2.1]

theorem uhci_spansOf (m : Msc) (dirIn : Bool) (addr len : Nat) : uhci.spansOf m dirIn addr len =
    (m.bulkQueue dirIn (UInt32.ofNat addr) (UInt32.ofNat len)).1.map Td.span := by
  have queue : uhci.spansOf m dirIn addr len =
      (ran (m.bulkQueue dirIn (UInt32.ofNat addr) (UInt32.ofNat len)).1).flatMap fun td => [td.span] := rfl
  rw [queue, Msc.ran_bulkQueue, List.map_eq_flatMap]

theorem uhci_covers {m : Msc} {dirIn : Bool} {addr len : Nat} (word : len < 2 ^ 32) (fits : Fits (m.pipe dirIn).maxp len) :
    Covers (2 ^ 32) addr len (uhci.spansOf m dirIn addr len) := by
  have length : (UInt32.ofNat len).toNat = len := UInt32.toNat_ofNat_of_lt' word
  have fits' : Fits (m.pipe dirIn).maxp (UInt32.ofNat len).toNat := length.symm ▸ fits
  have start : (UInt32.ofNat addr).toNat % 2 ^ 32 = addr % 2 ^ 32 := by
    rw [UInt32.toNat_ofNat', Nat.mod_mod]
  rw [uhci_spansOf]
  exact ⟨(follow_congr start).mp (Msc.follow_bulkQueue fits'), (Msc.total_iff.mpr fits').trans length⟩

theorem Fits.mono {maxp len more : Nat} (fits : Fits maxp more) (le : len ≤ more) : Fits maxp len := by
  have pool := fits.1
  have packet := fits.2
  exact ⟨le.trans pool, by omega⟩

theorem uhci_steady (m : Msc) : Steady uhci m.Alike m.blockSize.toNat where
  keeps m' dirIn addr len alike := by
    cases dirIn with
    | false => exact alike
    | true => exact alike
  size m' alike := congrArg UInt32.toNat alike.2.2
  envelope m' dirIn addr len alike small := by
    have packet := (@Msc.pipe_known m' dirIn).2.1
    exact uhci_covers (by omega) ⟨by rw [bulkMaxTds]; omega, by omega⟩

/-! EHCI -/

theorem ehci_covers {m : EhciMsc} {dirIn : Bool} {addr len : Nat} (small : len ≤ 0x4000) :
    Covers (2 ^ 32) addr len (ehci.spansOf m dirIn addr len) := by
  have chain : ehci.spansOf m dirIn addr len =
      (fillQtds dirIn (m.maxp dirIn) addr len ehciMaxQtds 0 (m.toggle dirIn)).1.flatMap Qtd.spans := List.flatMap_map ..
  rw [chain]
  exact fillQtds_covers small

theorem ehci_steady (m : EhciMsc) : Steady ehci (fun m' => m'.blockSize = m.blockSize) m.blockSize.toNat where
  keeps m' dirIn addr len same := by
    cases dirIn with
    | false => exact same
    | true => exact same
  size m' same := congrArg UInt32.toNat same
  envelope m' dirIn addr len _ small := ehci_covers (by omega)

/-! The reads -/

theorem Driver.chunk_eq {δ τ : Type} (D : Driver δ τ) (count : Nat) : D.chunk count = min count D.sectors := by
  rw [Driver.chunk]
  split_ifs <;> omega

theorem uhci_reads_iff {L : Layout} {m : Msc} {count : Nat} (target : Target L count) : ReadsRight uhci L m target ↔
    count = 0 ∨ m.blockSize = 512 ∧ Fits (m.pipe true).maxp (512 * min count 4) := by
  have steady := uhci_steady m
  have same : m.Alike m := ⟨rfl, rfl, rfl⟩
  have first : uhci.chunk count = min count 4 := uhci.chunk_eq count
  constructor
  · intro right
    by_cases none : count = 0
    · exact Or.inl none
    · apply Or.inr
      by_contra wrong
      apply not_readsRight steady same none _ right
      by_cases size : m.blockSize.toNat = 512
      · apply Or.inr
        intro m' alike whole
        have word : 512 * min count 4 < 2 ^ 32 := by omega
        have length : (UInt32.ofNat (512 * min count 4)).toNat = 512 * min count 4 := UInt32.toNat_ofNat_of_lt' word
        rw [uhci_spansOf, first] at whole
        have fits := Msc.total_iff.mp (whole.trans length.symm)
        rw [length, alike.maxp] at fits
        exact wrong ⟨UInt32.toNat_inj.mp size, fits⟩
      · exact Or.inl size
  · intro right
    rcases right with none | ⟨size, fits⟩
    · subst none
      exact readsRight_zero
    · rw [size] at steady
      apply readsRight_of_whole steady same
      intro m' addr n alike le
      rw [first] at le
      exact uhci_covers (by omega) (alike.maxp true ▸ fits.mono (by omega))

theorem ehci_reads_iff {L : Layout} {m : EhciMsc} {count : Nat} (target : Target L count) : ReadsRight ehci L m target ↔
    count = 0 ∨ m.blockSize = 512 := by
  have steady := ehci_steady m
  constructor
  · intro right
    by_cases none : count = 0
    · exact Or.inl none
    · apply Or.inr
      by_contra wrong
      have other : m.blockSize.toNat ≠ 512 := fun size => wrong (UInt32.toNat_inj.mp size)
      exact not_readsRight steady rfl none (Or.inl other) right
  · intro right
    rcases right with none | size
    · subst none
      exact readsRight_zero
    · rw [size] at steady
      apply readsRight_of_whole steady size
      intro d addr n _ le
      have bound : ehci.chunk count ≤ 32 := (ehci.chunk_le count).2
      exact ehci_covers (by omega)

/-- Reads are right from blocks of 512 bytes, and over UHCI where the pool has room for the data
of the first request, too. -/
theorem disk_reads_right_iff (m : Msc) (e : EhciMsc) {L₁ L₂ : Layout} {n k : Nat} (target₁ : Target L₁ n) (target₂ : Target L₂ k) :
    (ReadsRight uhci L₁ m target₁ ↔ n = 0 ∨ m.blockSize = 512 ∧ Fits (m.pipe true).maxp (512 * min n 4)) ∧
      (ReadsRight ehci L₂ e target₂ ↔ k = 0 ∨ e.blockSize = 512) :=
  ⟨uhci_reads_iff target₁, ehci_reads_iff target₂⟩

theorem low_statics : 0x1000 + 31 ≤ 2 ^ 32 ∧ 0x1020 + 13 ≤ 2 ^ 32 := by decide

/-- The `cbw` and the `csw` behind it. -/
def lowLayout : Layout := ⟨0x1000, 0x1020, low_statics.1, low_statics.2⟩

theorem low_sector : 0 < 0x10000 ∧ 0x10000 + 512 * 1 ≤ 2 ^ 32 := by decide

theorem low_apart : ∀ k < 512 * 1, ¬ lowLayout.Static (0x10000 + k) := by
  intro k small
  have cbw : lowLayout.cbwAt = 0x1000 := rfl
  have csw : lowLayout.cswAt = 0x1020 := rfl
  rw [Layout.Static, cbw, csw]
  omega

/-- A buffer for one sector. -/
def oneSector : Target lowLayout 1 := ⟨0x10000, low_sector.1, low_sector.2, low_apart⟩

/-- A stick with blocks of 4096 bytes, and a read of one sector. -/
theorem large_blocks : ¬ ReadsRight uhci lowLayout ⟨1, 1, 2, 64, 64, false, false, false, 1000, 4096⟩ oneSector := by
  apply not_readsRight (uhci_steady _) ⟨rfl, rfl, rfl⟩ (by decide)
  exact Or.inl (by decide)

end Zenbite.Usb
