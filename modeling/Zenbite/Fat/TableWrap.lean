import Zenbite.Fat.TableRefine

/-! A FAT so large that its second copy wraps around into the first one: the mount
accepts it, and a flush then overwrites entries nobody set. -/

namespace Zenbite.Fat

open Memory VolState

/-- Entries in one sector. -/
def perSector (kind : FatKind) : Nat :=
  match kind with
  | .fat16 => 256
  | _ => 128

/-- The first entry of a sector, as fat_get returns it. -/
def firstEntry (kind : FatKind) (b : Buffer) : Nat :=
  match kind with
  | .fat16 => readLe16 b 0
  | _ => readLe32 b 0 % 2 ^ 28

theorem perSector_inRange {l : Layout} (kind : l.kind = .fat16 ∨ l.kind = .fat32) (sec : Nat)
    (inside : sec < l.tableSectors) : sec * perSector l.kind < l.maxCluster := by
  rcases kind with kind | kind
  · rw [Layout.tableSectors] at inside
    simp only [Layout.maxCluster_fat16 kind, kind, perSector, sectorSize] at inside ⊢
    omega
  · rw [Layout.tableSectors] at inside
    simp only [Layout.maxCluster_fat32 kind, kind, perSector, sectorSize] at inside ⊢
    omega

theorem firstEntry_congr {kind : FatKind} {a b : Buffer} (agree : ∀ i, i < sectorSize → a i = b i) :
    firstEntry kind a = firstEntry kind b := by
  have word : readLe16 a 0 = readLe16 b 0 :=
    readLe16_congr fun k inside => agree _ (by simp only [sectorSize]; omega)
  have long : readLe32 a 0 = readLe32 b 0 :=
    readLe32_congr fun k inside => agree _ (by simp only [sectorSize]; omega)
  cases kind <;> simp only [firstEntry, word, long]

section First
variable {s : VolState Disk} {sec : Nat}

/-- Loading into a clean cache brings the sector from the disk. -/
theorem fatCacheLoad_clean (good : s.disk.Faultless) (clean : s.vol.fatCdirty = false)
    (other : s.vol.fatCsec ≠ sec) : (fatCacheLoad sec s).1 = 0 ∧ ∀ i, i < sectorSize →
      (fatCacheLoad sec s).2.vol.fatCbuf i =
        s.disk.bytes (u32 (s.vol.fatLba + sec) * sectorSize + i) := by
  have flush : fatCacheFlush s = (0, s) := if_pos (.inl clean)
  simp only [fatCacheLoad, if_neg other, flush, diskRead_fst, Disk.read_faultless good, lt_irrefl,
    if_false]
  refine ⟨trivial, fun i inside => ?_⟩
  have loaded := (Disk.read_ok s.disk (u32 (s.vol.fatLba + sec)) 1 s.vol.fatCbuf
    (by rw [Disk.read_faultless good]; exact lt_irrefl 0)).2
  change (s.disk.read (u32 (s.vol.fatLba + sec)) 1 s.vol.fatCbuf).2.1 i = _
  rw [loaded, splice_inside _ _ (Nat.zero_le i) (by omega)]
  rfl

theorem fatCacheFlush_layout (s : VolState Disk) :
    (fatCacheFlush s).2.vol.toLayout = s.vol.toLayout := by
  rcases fatCacheFlush_cases s with ⟨-, run⟩ | ⟨-, -, ⟨-, run⟩ | ⟨-, run⟩⟩ <;> rw [run] <;> rfl

theorem fatCacheLoad_held (good : s.disk.Faultless) (sec : Nat) :
    ¬ (fatCacheLoad sec s).1 < 0 ∧ (fatCacheLoad sec s).2.vol.toLayout = s.vol.toLayout ∧
      (fatCacheLoad sec s).2.disk.Faultless ∧ (fatCacheLoad sec s).2.vol.fatCsec = sec := by
  refine ⟨fatCacheLoad_ok good sec, ?_⟩
  obtain ⟨flushed, next⟩ := fatCacheFlush_faultless good
  have layout := fatCacheFlush_layout s
  simp only [fatCacheLoad, flushed, diskRead_fst, Disk.read_faultless next]
  split
  next held => exact ⟨rfl, good, held⟩
  next => exact ⟨layout, next.read _ _ _, rfl⟩

theorem fatGet_first (good : s.disk.Faultless) (kind : s.vol.kind = .fat16 ∨ s.vol.kind = .fat32)
    (small : sec < 2 ^ 23) : (fatGet (sec * perSector s.vol.kind) s).1 =
      firstEntry s.vol.kind (fatCacheLoad sec s).2.vol.fatCbuf := by
  have loaded := fatCacheLoad_ok good sec
  rcases kind with kind | kind
  · have place : u32 (sec * 256 * 2) / sectorSize = sec ∧ u32 (sec * 256 * 2) % sectorSize = 0 := by
      simp only [u32, sectorSize]; omega
    simp only [fatGet, kind, perSector, place, if_neg loaded, firstEntry]
  · have place : u32 (sec * 128 * 4) / sectorSize = sec ∧ u32 (sec * 128 * 4) % sectorSize = 0 := by
      simp only [u32, sectorSize]; omega
    simp only [fatGet, kind, perSector, place, if_neg loaded, firstEntry]

theorem fatSet_first (good : s.disk.Faultless) (kind : s.vol.kind = .fat16 ∨ s.vol.kind = .fat32)
    (small : sec < 2 ^ 23) {x : Nat} (value : x < 2 ^ 16) :
    ∃ b, fatSet (sec * perSector s.vol.kind) x s =
        (fatCacheLoad sec s).2.modVol (·.cacheWrite b) ∧ firstEntry s.vol.kind b = x := by
  have loaded := fatCacheLoad_ok good sec
  rcases kind with kind | kind
  · have place : u32 (sec * 256 * 2) / sectorSize = sec ∧ u32 (sec * 256 * 2) % sectorSize = 0 := by
      simp only [u32, sectorSize]; omega
    refine ⟨writeLe16 (fatCacheLoad sec s).2.vol.fatCbuf 0 x, ?_, ?_⟩
    · simp only [fatSet, kind, perSector, place, if_neg loaded]
    · simp only [firstEntry, kind, readLe16_write, Nat.mod_eq_of_lt value]
  · have place : u32 (sec * 128 * 4) / sectorSize = sec ∧ u32 (sec * 128 * 4) % sectorSize = 0 := by
      simp only [u32, sectorSize]; omega
    refine ⟨set32 (fatCacheLoad sec s).2.vol.fatCbuf 0 x, ?_, ?_⟩
    · simp only [fatSet, kind, perSector, place, if_neg loaded]
    · simp only [firstEntry, kind, set32, readLe32_write]
      omega

/-- Setting the first entry of a sector and flushing is one load and one flush. -/
theorem set_flush_first (good : s.disk.Faultless)
    (kind : s.vol.kind = .fat16 ∨ s.vol.kind = .fat32) (sec x : Nat) (small : sec < 2 ^ 23)
    (value : x < 2 ^ 16) :
    ∃ b, runTable s [.set (sec * perSector s.vol.kind) x, .flush] =
        (fatCacheFlush ((fatCacheLoad sec s).2.modVol (·.cacheWrite b))).2 ∧
      firstEntry s.vol.kind b = x := by
  obtain ⟨-, layout, -, -⟩ := fatCacheLoad_held good sec
  obtain ⟨b, set, stored⟩ := fatSet_first good kind small value
  refine ⟨b, ?_, stored⟩
  change (flushFat (fatSet _ x s)).2 = _
  rw [set, flushFat_cached]
  exact (congrArg Layout.kind layout).symm ▸ kind

/-- Flushing a dirty sector leaves it in the mirror sector, written last. -/
theorem fatCacheFlush_mirror (good : s.disk.Faultless) (dirty : s.vol.fatCdirty = true)
    (held : s.vol.fatCsec ≠ fatCacheNone) {i : Nat} (inside : i < sectorSize) :
    (fatCacheFlush s).2.disk.bytes
      (u32 (s.vol.fatLba + s.vol.fatSectors + s.vol.fatCsec) * sectorSize + i) = s.vol.fatCbuf i ∧
    (fatCacheFlush s).2.vol.fatCdirty = false := by
  rcases fatCacheFlush_cases s with ⟨skip, -⟩ | ⟨-, -, ⟨failed, -⟩ | ⟨-, run⟩⟩
  · rcases skip with clean | empty
    · rw [dirty] at clean
      cases clean
    · exact absurd empty held
  · rw [diskWrite_fst, Disk.write_faultless good] at failed
    cases failed
  · rw [run]
    have good' := good.write (u32 (s.vol.fatLba + s.vol.fatCsec)) 1 s.vol.fatCbuf
    exact ⟨Disk.write_here _ _ _ (congrArg Prod.fst (Disk.write_faultless good' _ _ _)) inside, rfl⟩

end First

section Wrap
variable {m : VolState Disk}

/-- With a wrapped copy, setting the first entry of the last sector and flushing
also sets the first entry of an earlier sector. -/
theorem wrapped_set (good : m.disk.Faultless)
    (kind : m.vol.kind = .fat16 ∨ m.vol.kind = .fat32) {sec last x : Nat}
    (earlier : sec < last) (inside : last < m.vol.tableSectors)
    (wrap : m.vol.fatSectors + last = sec + 2 ^ 32) (value : x < 2 ^ 16) :
    (fatGet (sec * perSector m.vol.kind)
      (runTable m [.set (last * perSector m.vol.kind) x, .flush])).1 = x := by
  have low := inside
  rw [Layout.tableSectors_mod] at low
  obtain ⟨-, layout, good₁, held⟩ := fatCacheLoad_held good last
  obtain ⟨b, run, stored⟩ := set_flush_first good kind last _ (by omega) value
  rw [run]
  generalize here : (fatCacheLoad last m).2.modVol (·.cacheWrite b) = t
  have layout' : t.vol.toLayout = m.vol.toLayout := by rw [← here]; exact layout
  have good' : t.disk.Faultless := by rw [← here]; exact good₁
  have csec : t.vol.fatCsec = last := by rw [← here]; exact held
  have dirty : t.vol.fatCdirty = true := by rw [← here]; rfl
  have cbuf : t.vol.fatCbuf = b := by rw [← here]; rfl
  have copied (i : Nat) (inside : i < sectorSize) :=
    fatCacheFlush_mirror good' dirty (by rw [csec, fatCacheNone]; omega) inside
  have clean := (copied 0 (by decide)).2
  obtain ⟨-, good₂⟩ := fatCacheFlush_faultless good'
  have layout₂ : (fatCacheFlush t).2.vol.toLayout = m.vol.toLayout :=
    (fatCacheFlush_layout t).trans layout'
  have csec₂ := (fatCacheFlush_cache t).2.trans csec
  have place : u32 (t.vol.fatLba + t.vol.fatSectors + t.vol.fatCsec) =
      u32 (t.vol.fatLba + sec) := by
    rw [csec, layout', Nat.add_assoc, wrap]
    simp only [u32]
    omega
  have kind₂ : (fatCacheFlush t).2.vol.kind = m.vol.kind := by rw [layout₂]
  rw [← kind₂, fatGet_first good₂ (kind₂.symm ▸ kind) (by omega), kind₂, ← stored, ← cbuf]
  apply firstEntry_congr
  intro i inside
  rw [(fatCacheLoad_clean good₂ clean (by omega)).2 i inside, layout₂, ← layout', ← place]
  exact (copied i inside).1

theorem not_refinesMap_of_wrap (mounted : Mounted m) (good : m.disk.Faultless)
    (overlap : ¬ m.vol.Separate) : ¬ RefinesMap m := by
  intro refines
  have size := mounted.layout.header.fat_lt
  have mod := m.vol.toLayout.tableSectors_mod
  simp only [Layout.Separate] at overlap
  have kind : m.vol.kind = .fat16 ∨ m.vol.kind = .fat32 :=
    mounted.layout.kind_cases.resolve_left fun kind => by
      have := mounted.layout.image kind
      omega
  have per : 0 < perSector m.vol.kind ∧ perSector m.vol.kind ≤ 256 := by
    rcases kind with kind | kind <;> simp [kind, perSector]
  obtain ⟨last, top⟩ : ∃ last, m.vol.tableSectors = last + 1 := ⟨m.vol.tableSectors - 1, by omega⟩
  obtain ⟨sec, wrap⟩ : ∃ sec, m.vol.fatSectors + last = sec + 2 ^ 32 :=
    ⟨m.vol.fatSectors + last - 2 ^ 32, by omega⟩
  have apart : sec * perSector m.vol.kind ≠ last * perSector m.vol.kind := fun same => by
    have := Nat.eq_of_mul_eq_mul_right per.1 same
    omega
  -- one of two values differs from what the entry held
  have value (x : Nat) (small : x < 2 ^ 16) : x = m.copyMap 0 (sec * perSector m.vol.kind) := by
    have here := perSector_inRange kind sec (by omega)
    have seen := (refines [.set (last * perSector m.vol.kind) x, .flush] (by
      simp [TableCall.InRange, perSector_inRange kind last (by omega)])).1 _ here
    rw [wrapped_set good kind (by omega) (by omega) wrap small] at seen
    rw [seen]
    simp only [specTable, List.foldl, TableCall.spec]
    exact Function.update_of_ne apart _ _
  have one := value 1 (by decide)
  have two := value 2 (by decide)
  omega

end Wrap

/-- The cached table refines a plain map on every disk that mounts exactly when the
second copy stays clear of the first one; a FAT12 table must fit `fat[]`. -/
theorem mounted_table_refines_iff {id : Nat} {disk : Disk} {vol : FatVolume} {m : VolState Disk}
    (run : mountVolume id (.fresh disk vol) = (0, m)) (good : disk.Faultless) :
    m.fault = false ∧ RefinesMap m ↔
      (m.vol.kind = .fat12 → m.vol.fatSectors ≤ 16) ∧ m.vol.Separate := by
  rw [← mountVolume_clean run]
  refine and_congr_right fun clean => ?_
  have mounted := (mountVolume_mounted run clean).1
  have frame := mountVolume_frame id (.fresh disk vol)
  rw [run] at frame
  have good' : m.disk.Faultless := frame.faultless good
  exact ⟨fun refines => by_contra fun overlap => not_refinesMap_of_wrap mounted good' overlap refines,
    refinesMap_of_separate mounted good'⟩

/-- A small FAT12 volume as formatters make them. -/
def floppy : Disk := .image 40 (Header.bootSector ⟨512, 1, 1, 2, 16, 1, 40⟩ 0)

theorem floppy_table_refines : RefinesMap (mountVolume 0 (.fresh floppy .zero)).2 :=
  ((mounted_table_refines_iff (mountVolume_run (by decide))
    (Disk.image_faultless _ _)).2 ⟨by decide, by decide⟩).2

/-- A FAT32 boot sector whose FAT length is 2^32 - 1. -/
def wrapped : Disk := .image 131072 (Header.bootSector ⟨512, 1, 32, 2, 0, 2 ^ 32 - 1, 131072⟩ 2)

theorem wrapped_table_fails :
    (mountVolume 0 (.fresh wrapped .zero)).1 = 0 ∧ wrapped.Faultless ∧
      (mountVolume 0 (.fresh wrapped .zero)).2.fault = false ∧
      ¬ RefinesMap (mountVolume 0 (.fresh wrapped .zero)).2 := by
  have accepted : (mountVolume 0 (.fresh wrapped .zero)).1 = 0 := by decide
  have clean := (mountVolume_clean (mountVolume_run accepted)).2 (by decide)
  have good : wrapped.Faultless := Disk.image_faultless _ _
  have mounted := (mountVolume_mounted (mountVolume_run accepted) clean).1
  have good' := (mountVolume_frame 0 (.fresh wrapped .zero)).faultless good
  exact ⟨accepted, good, clean, not_refinesMap_of_wrap mounted good' (by decide)⟩

end Zenbite.Fat
