import Zenbite.Fat.FlushArea

/-! alloc_cluster: a linear scan bounded by the FAT size, not by the data area. -/

namespace Zenbite.Fat

open Memory VolState

/-- What the scan of `n` clusters from `c` on finds, for an invariant of fat_get. -/
theorem allocFrom_rule {P : VolState Disk → Prop} (max : Nat)
    (get : ∀ c s, c < max → P s → P (fatGet c s).2) :
    ∀ n c s, c + n ≤ max → P s →
      (∃ d u, c ≤ d ∧ d < c + n ∧ P u ∧ (fatGet d u).1 = 0 ∧
        allocFrom n c s = (d, fatSet d (fatGet d u).2.vol.fatEof (fatGet d u).2) ∧
        ∀ e, c ≤ e → e < d → ∃ w, P w ∧ (fatGet e w).1 ≠ 0) ∨
      (∃ u, P u ∧ allocFrom n c s = (0, u) ∧
        ∀ e, c ≤ e → e < c + n → ∃ w, P w ∧ (fatGet e w).1 ≠ 0) := by
  intro n
  induction n with
  | zero => exact fun c s _ inv => .inr ⟨s, inv, rfl, fun e low high => by omega⟩
  | succ n ih =>
      intro c s bound inv
      by_cases free : (fatGet c s).1 = 0
      · exact .inl ⟨c, s, le_rfl, by omega, inv, free, if_pos free, fun e low high => by omega⟩
      · have next := get c s (by omega) inv
        have run : allocFrom (n + 1) c s = allocFrom n (c + 1) (fatGet c s).2 := if_neg free
        have used (e : Nat) (low : c ≤ e) (past : c + 1 ≤ e → ∃ w, P w ∧ (fatGet e w).1 ≠ 0) :
            ∃ w, P w ∧ (fatGet e w).1 ≠ 0 := by
          rcases Nat.eq_or_lt_of_le low with rfl | low
          · exact ⟨s, inv, free⟩
          · exact past low
        rw [run]
        rcases ih (c + 1) _ (by omega) next with ⟨d, u, low, high, invu, zero, out, before⟩ |
          ⟨u, invu, out, before⟩
        · exact .inl ⟨d, u, by omega, by omega, invu, zero, out, fun e le lt =>
            used e le fun past => before e past lt⟩
        · exact .inr ⟨u, invu, out, fun e le lt => used e le fun past => before e past (by omega)⟩

/-- In every state, the result is 0 or a cluster below max_cluster. -/
theorem allocCluster_range (s : VolState Disk) : (allocCluster s).1 = 0 ∨
    2 ≤ (allocCluster s).1 ∧ (allocCluster s).1 < s.vol.maxCluster := by
  rcases allocFrom_rule (P := fun _ => True) (2 + (s.vol.maxCluster - 2))
    (fun _ _ _ _ => trivial) (s.vol.maxCluster - 2) 2 s le_rfl trivial with
    ⟨d, u, low, high, -, -, run, -⟩ | ⟨u, -, run, -⟩
  · right
    simp only [allocCluster, run]
    omega
  · left
    simp only [allocCluster, run]

/-- The clusters that the FAT has entries for end inside the volume. -/
def Layout.AllocFits (l : Layout) : Prop :=
  l.maxCluster ≤ 2 ∨ l.dataLba + (l.maxCluster - 2) * l.secPerCluster ≤ l.totalSectors

instance (l : Layout) : Decidable l.AllocFits := inferInstanceAs (Decidable (_ ∨ _))

/-- Cluster `c` lies between data_lba and the end of the volume. -/
def Layout.OnVolume (l : Layout) (c : Nat) : Prop :=
  l.dataLba ≤ l.clusterToLba c ∧ l.clusterToLba c + l.secPerCluster ≤ l.totalSectors

/-- Whatever the FAT of a mounted volume of this layout holds, and after whatever
updates of it, alloc_cluster stays on the volume. -/
def AllocInside (m : VolState Disk) : Prop :=
  ∀ s, Mounted s → s.vol.toLayout = m.vol.toLayout →
    ∀ calls, (∀ call ∈ calls, call.InRange m.vol.maxCluster) →
      ∀ c, (allocCluster (runTable s calls)).1 = c → c ≠ 0 → m.vol.OnVolume c

namespace Layout
variable {l : Layout}

theorem Accepted.data_lt (accepted : l.Accepted) : l.dataLba < 2 ^ 32 := by
  by_cases kind : l.kind = .fat32
  · rw [(accepted.chainRoot kind).1]
    exact u32_lt _
  · rw [(accepted.fixedRoot kind).2.1]
    exact u32_lt _

theorem clusterToLba_eq {c : Nat} (low : 2 ≤ c)
    (small : l.dataLba + (c - 2) * l.secPerCluster < 2 ^ 32) (pos : 0 < l.secPerCluster) :
    l.clusterToLba c = l.dataLba + (c - 2) * l.secPerCluster := by
  have le : c - 2 ≤ (c - 2) * l.secPerCluster := Nat.le_mul_of_pos_right _ pos
  have wrap : u32 (c + 2 ^ 32 - 2) = c - 2 := by
    simp only [u32]
    omega
  rw [clusterToLba, wrap, u32_of_lt small]

theorem onVolume_of_fits (accepted : l.Accepted) (fits : l.AllocFits) {c : Nat} (low : 2 ≤ c)
    (bound : c < l.maxCluster) : l.OnVolume c := by
  have room := fits.resolve_left (by omega)
  have total := accepted.header.total_lt
  have next : (c - 2 + 1) * l.secPerCluster ≤ (l.maxCluster - 2) * l.secPerCluster :=
    Nat.mul_le_mul_right _ (by omega)
  rw [Nat.add_mul, Nat.one_mul] at next
  have pos := accepted.header.spc_pos
  have lba := clusterToLba_eq low (l := l) (by omega) pos
  rw [OnVolume, lba]
  omega

/-- Otherwise the first cluster that crosses the end has an entry. -/
theorem exists_offVolume (accepted : l.Accepted) (unfit : ¬ l.AllocFits) :
    ∃ c, 2 ≤ c ∧ c < l.maxCluster ∧ ¬ l.OnVolume c := by
  simp only [AllocFits, not_or, not_le] at unfit
  obtain ⟨some, beyond⟩ := unfit
  have total := accepted.header.total_lt
  have data := accepted.data_lt
  have pos := accepted.header.spc_pos
  have step := Nat.div_add_mod (l.totalSectors - l.dataLba) l.secPerCluster
  have rest := Nat.mod_lt (l.totalSectors - l.dataLba) pos
  generalize quot : (l.totalSectors - l.dataLba) / l.secPerCluster = q at step
  rw [Nat.mul_comm] at step
  have inside : q < l.maxCluster - 2 := by
    by_contra out
    have := Nat.mul_le_mul_right l.secPerCluster (Nat.le_of_not_lt out)
    rcases Nat.lt_or_ge l.totalSectors l.dataLba with past | before
    · have zero : l.totalSectors - l.dataLba = 0 := by omega
      rw [zero, Nat.zero_div] at quot
      omega
    · omega
  refine ⟨q + 2, by omega, by omega, ?_⟩
  have lba := clusterToLba_eq (l := l) (c := q + 2) (by omega) (by
    rw [Nat.add_sub_cancel]
    rcases Nat.lt_or_ge l.totalSectors l.dataLba with past | before
    · have zero : l.totalSectors - l.dataLba = 0 := by omega
      rw [zero, Nat.zero_div] at quot
      rw [← quot, Nat.zero_mul]
      exact data
    · omega) pos
  rw [OnVolume, lba, Nat.add_sub_cancel]
  omega

end Layout

/-! A volume on which all clusters but one are in use. -/

/-- A freshly mounted volume of layout `l` whose table starts with the bytes `content`. -/
def stocked (l : Layout) (content : Buffer) : VolState Disk :=
  .fresh (.image 0 fun a => content (a - l.fatLba * sectorSize))
    ((({ FatVolume.zero with toLayout := l, fat := content } : FatVolume).freshCache.atRoot).rootLoad
      fun i => content (l.rootLba * sectorSize + i - l.fatLba * sectorSize))

theorem stocked_mounted {l : Layout} (accepted : l.Accepted) (content : Buffer) :
    Mounted (stocked l content) := by
  refine ⟨accepted, rfl, rfl, rfl, rfl, fun _ i _ => ?_, fun _ _ _ => rfl, rfl⟩
  change content i = content (l.fatLba * sectorSize + i - l.fatLba * sectorSize)
  rw [Nat.add_sub_cancel_left]

/-- Table bytes with all entries set but entry `c`. -/
def allBut (kind : FatKind) (c : Nat) : Buffer :=
  match kind with
  | .fat12 => set12 (fun _ => 0xFF) c 0
  | .fat16 => writeLe16 (fun _ => 0xFF) (c * 2) 0
  | _ => writeLe32 (fun _ => 0xFF) (c * 4) 0

/-- A sector of the stocked table, unless it is the one the empty cache names. -/
theorem stocked_sector {l : Layout} (accepted : l.Accepted) (content : Buffer) {sec i : Nat}
    (bound : sec < l.tableSectors) (inside : i < sectorSize) :
    (stocked l content).fatSector sec i = content (sec * sectorSize + i) := by
  rw [(stocked_mounted accepted content).coherent.stored rfl bound inside]
  change content (u32 (l.fatLba + sec) * sectorSize + i - l.fatLba * sectorSize) = _
  rw [u32_of_lt (accepted.lba_lt bound), Nat.add_mul, Nat.add_assoc, Nat.add_sub_cancel_left]

theorem get12_allBut {c d : Nat} (small : c < 2 ^ 30) (near : d < 2 ^ 30) :
    get12 (set12 (fun _ => 0xFF) c 0) d = 0 ↔ d = c := by
  have ones : (0xFF : UInt8).toNat = 255 := rfl
  by_cases same : d = c
  · rw [same, get12_set12]
    simp only [Nat.zero_mod]
  · rw [get12_set12_ne _ 0 small near same]
    simp only [same, iff_false, get12, readLe16, ones]
    split <;> omega

theorem read16_allBut {c d : Nat} :
    readLe16 (writeLe16 (fun _ => 0xFF) (c * 2) 0) (d * 2) = 0 ↔ d = c := by
  have ones : (0xFF : UInt8).toNat = 255 := rfl
  by_cases same : d = c
  · rw [same, readLe16_write]
    simp only [Nat.zero_mod]
  · rw [readLe16_write_ne _ _ (by omega)]
    simp only [readLe16, ones]
    omega

theorem read32_allBut {c d : Nat} :
    readLe32 (writeLe32 (fun _ => 0xFF) (c * 4) 0) (d * 4) % 2 ^ 28 = 0 ↔ d = c := by
  have ones : (0xFF : UInt8).toNat = 255 := rfl
  by_cases same : d = c
  · rw [same, readLe32_write]
    simp only [Nat.zero_mod]
  · rw [readLe32_write_ne _ _ (by omega)]
    simp only [readLe32, ones]
    omega

theorem stocked_map {l : Layout} (accepted : l.Accepted) {c d : Nat} (low : c < l.maxCluster)
    (bound : d < l.maxCluster) : (stocked l (allBut l.kind c)).fatMap d = 0 ↔ d = c := by
  have layout : (stocked l (allBut l.kind c)).vol.toLayout = l := rfl
  rcases accepted.kind_cases with kind | kind | kind
  · obtain ⟨small, -, -⟩ := Layout.entry12 kind (accepted.image kind) bound
    obtain ⟨small', -, -⟩ := Layout.entry12 kind (accepted.image kind) low
    have image : (stocked l (allBut l.kind c)).vol.fat = set12 (fun _ => 0xFF) c 0 := by
      change allBut l.kind c = _
      simp only [allBut, kind]
    have entry : (stocked l (allBut l.kind c)).fatMap d = get12 (set12 (fun _ => 0xFF) c 0) d := by
      rw [fatMap, rawFat_fat12 (by rw [layout, kind]), image, layout, kind]
      exact Nat.mod_eq_of_lt (get12_lt _ _)
    rw [entry, get12_allBut small' small]
  · obtain ⟨wrap, sec, off⟩ := Layout.entry16 kind bound
    have word : readLe16 ((stocked l (allBut l.kind c)).fatSector (d * 2 / sectorSize))
        (d * 2 % sectorSize) = readLe16 (writeLe16 (fun _ => 0xFF) (c * 2) 0) (d * 2) := by
      refine readLe16_congr fun k inside => ?_
      rw [stocked_sector accepted _ sec (by omega), ← Nat.add_assoc, Nat.div_add_mod']
      simp only [kind, allBut]
    rw [← read16_allBut (c := c) (d := d), ← word, fatMap, rawFat_fat16 (by rw [layout, kind]), layout, wrap, kind]
    rw [valueBits, Nat.mod_eq_of_lt (readLe16_lt _ _)]
  · obtain ⟨wrap, sec, off⟩ := Layout.entry32 kind bound
    have word : readLe32 ((stocked l (allBut l.kind c)).fatSector (d * 4 / sectorSize))
        (d * 4 % sectorSize) = readLe32 (writeLe32 (fun _ => 0xFF) (c * 4) 0) (d * 4) := by
      refine readLe32_congr fun k inside => ?_
      rw [stocked_sector accepted _ sec (by omega), ← Nat.add_assoc, Nat.div_add_mod']
      simp only [kind, allBut]
    rw [← read32_allBut (c := c) (d := d), ← word, fatMap, rawFat_fat32 (by rw [layout, kind]), layout, wrap, kind]
    rfl

/-- A scan of a readable table on a faultless disk finds the first free entry. -/
theorem allocCluster_read {s : VolState Disk} (ok : TableRead s) (good : s.disk.Faultless) {c : Nat}
    (low : 2 ≤ c) (bound : c < s.vol.maxCluster)
    (only : ∀ d, d < s.vol.maxCluster → (s.fatMap d = 0 ↔ d = c)) : (allocCluster s).1 = c := by
  have get (d : Nat) (u : VolState Disk) (inside : d < s.vol.maxCluster)
      (inv : TableRead u ∧ u.vol.toLayout = s.vol.toLayout ∧ u.disk.Faultless ∧ SameMap s u) :
      (fatGet d u).1 = s.fatMap d ∧ (TableRead (fatGet d u).2 ∧
        (fatGet d u).2.vol.toLayout = s.vol.toLayout ∧ (fatGet d u).2.disk.Faultless ∧
          SameMap s (fatGet d u).2) := by
    obtain ⟨read, layout, good, same⟩ := inv
    have inside' : d < u.vol.maxCluster := by rw [layout]; exact inside
    obtain ⟨frame, next, map, value⟩ := fatGet_read read inside'
    refine ⟨?_, next, frame.layout.trans layout, frame.faultless good, fun e high =>
      (map e (by rw [layout]; exact high)).trans (same e high)⟩
    rw [(value.resolve_right fun fault => fault.1 good).1, fatMap, same d inside, layout]
    rfl
  have start : TableRead s ∧ s.vol.toLayout = s.vol.toLayout ∧ s.disk.Faultless ∧ SameMap s s :=
    ⟨ok, rfl, good, fun _ _ => rfl⟩
  rcases allocFrom_rule _ (fun d u inside inv => (get d u inside inv).2) (s.vol.maxCluster - 2) 2 s
    (by omega) start with ⟨d, u, le, lt, inv, free, run, -⟩ | ⟨u, -, run, full⟩
  · have inside : d < s.vol.maxCluster := by omega
    rw [(get d u inside inv).1, only d inside] at free
    rw [← free]
    simp only [allocCluster, run]
  · obtain ⟨u, inv, used⟩ := full c low (by omega)
    rw [(get c u bound inv).1] at used
    exact absurd ((only c bound).2 rfl) used

theorem allocInside_of_fits {m : VolState Disk} (accepted : m.vol.toLayout.Accepted)
    (fits : m.vol.AllocFits) : AllocInside m := by
  intro s mounted layout calls range c taken some
  obtain ⟨frame, -⟩ := run_frame mounted.layout (.refl s) (.inl ⟨mounted.csec, mounted.cdirty⟩)
    (by rw [layout]; exact range)
  obtain ⟨low, high⟩ := (allocCluster_range (runTable s calls)).resolve_left (by rw [taken]; exact some)
  rw [taken, frame.layout, layout] at high
  rw [taken] at low
  exact Layout.onVolume_of_fits accepted fits low high

theorem fits_of_allocInside {m : VolState Disk} (accepted : m.vol.toLayout.Accepted)
    (inside : AllocInside m) : m.vol.AllocFits := by
  by_contra unfit
  obtain ⟨c, low, high, off⟩ := Layout.exists_offVolume accepted unfit
  have mounted := stocked_mounted accepted (allBut m.vol.kind c)
  have taken := allocCluster_read mounted.tableRead (Disk.image_faultless _ _) low high
    fun d bound => stocked_map accepted high bound
  exact off (inside _ mounted rfl [] (by simp) c taken (by omega))

/-- On an accepted volume, allocation never leaves the volume exactly when the
FAT has no entries for clusters beyond its end. -/
theorem mounted_alloc_inside_iff {id : Nat} {disk : Disk} {vol : FatVolume} {m : VolState Disk}
    (run : mountVolume id (.fresh disk vol) = (0, m)) :
    m.fault = false ∧ AllocInside m ↔
      (m.vol.kind = .fat12 → m.vol.fatSectors ≤ 16) ∧ m.vol.AllocFits := by
  rw [← mountVolume_clean run]
  refine and_congr_right fun clean => ?_
  have accepted := (mountVolume_mounted run clean).1.layout
  exact ⟨fits_of_allocInside accepted, allocInside_of_fits accepted⟩

/-- A FAT12 volume with as many data clusters as its FAT has entries for. -/
def matched : Disk := .image 343 (Header.bootSector ⟨512, 1, 1, 2, 16, 1, 343⟩ 0)

theorem matched_alloc_inside : AllocInside (mountVolume 0 (.fresh matched .zero)).2 :=
  ((mounted_alloc_inside_iff (mountVolume_run (by decide))).2 ⟨by decide, by decide⟩).2

/-- 36 data clusters, entries for 341. -/
theorem floppy_alloc_outside :
    (mountVolume 0 (.fresh floppy .zero)).1 = 0 ∧
      (mountVolume 0 (.fresh floppy .zero)).2.fault = false ∧
      ¬ AllocInside (mountVolume 0 (.fresh floppy .zero)).2 := by
  have accepted : (mountVolume 0 (.fresh floppy .zero)).1 = 0 := by decide
  have clean := (mountVolume_clean (mountVolume_run accepted)).2 (by decide)
  have mounted := (mountVolume_mounted (mountVolume_run accepted) clean).1
  exact ⟨accepted, clean, fun inside =>
    absurd (fits_of_allocInside mounted.layout inside) (by decide +kernel)⟩

end Zenbite.Fat
