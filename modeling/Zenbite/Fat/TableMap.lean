import Zenbite.Fat.TableView

/-! Entry access refines a plain map: fat_get reads it, fat_set updates one entry
of it, on the nibble-packed image and through the one-sector cache alike. -/

namespace Zenbite.Fat

open Memory VolState

/-! FAT12 packing. -/

theorem off12_eq {c : Nat} (bound : c < 2 ^ 31) : off12 c = c + c / 2 := by
  simp only [off12, u32]
  omega

theorem get12_lt (b : Buffer) (c : Nat) : get12 b c < 4096 := by
  have := readLe16_lt b (off12 c)
  simp only [get12]
  split <;> omega

theorem get12_congr {a b : Buffer} {c : Nat}
    (agree : ∀ k, k < 2 → a (off12 c + k) = b (off12 c + k)) : get12 a c = get12 b c := by
  simp only [get12, readLe16_congr agree]

theorem get12_set12 (b : Buffer) (c x : Nat) : get12 (set12 b c x) c = x % 4096 := by
  have cur := readLe16_lt b (off12 c)
  simp only [get12, set12, readLe16_write]
  split <;> omega

/-- The neighbour in the same three bytes keeps its nibble. -/
theorem get12_set12_pair (b : Buffer) {c d : Nat} (x : Nat) (small : c < 2 ^ 30)
    (pair : c % 2 = 0 ∧ d = c + 1 ∨ c % 2 = 1 ∧ d + 1 = c) :
    get12 (set12 b c x) d = get12 b d := by
  have b0 := (b (off12 c)).toNat_lt
  have b1 := (b (off12 c + 1)).toNat_lt
  have place : off12 c = c + c / 2 := off12_eq (by omega)
  have next : off12 d = d + d / 2 := off12_eq (by omega)
  rcases pair with ⟨even, rfl⟩ | ⟨odd, rfl⟩
  · have shift : off12 (c + 1) = off12 c + 1 := by rw [place, next]; omega
    have low : set12 b c x (off12 c + 1) = byteOf
        (readLe16 b (off12 c) / 4096 * 4096 + x % 4096) 1 := by
      simp only [set12, if_neg (show ¬ c % 2 = 1 by omega), writeLe16]
      exact splice_add _ _ (by decide)
    have high : set12 b c x (off12 c + 1 + 1) = b (off12 c + 1 + 1) :=
      writeLe16_outside _ _ (by omega)
    simp only [get12, if_pos (show (c + 1) % 2 = 1 by omega), readLe16, shift, low, high,
      byteOf_toNat]
    omega
  · have shift : off12 (d + 1) = off12 d + 1 := by rw [place, next]; omega
    have low : set12 b (d + 1) x (off12 d) = b (off12 d) :=
      writeLe16_outside _ _ (by omega)
    have high : set12 b (d + 1) x (off12 d + 1) = byteOf
        (readLe16 b (off12 (d + 1)) % 16 + x % 4096 * 16) 0 := by
      simp only [set12, if_pos odd, writeLe16, shift]
      exact splice_add _ _ (k := 0) (by decide)
    rw [shift] at b0 b1
    simp only [get12, if_neg (show ¬ d % 2 = 1 by omega), readLe16, low, high, byteOf_toNat, shift]
    omega

theorem get12_set12_ne (b : Buffer) {c d : Nat} (x : Nat) (small : c < 2 ^ 30) (near : d < 2 ^ 30)
    (other : d ≠ c) : get12 (set12 b c x) d = get12 b d := by
  by_cases pair : c % 2 = 0 ∧ d = c + 1 ∨ c % 2 = 1 ∧ d + 1 = c
  · exact get12_set12_pair b x small pair
  · have place : off12 c = c + c / 2 := off12_eq (by omega)
    have next : off12 d = d + d / 2 := off12_eq (by omega)
    exact get12_congr fun k bound => writeLe16_outside _ _ (by omega)

/-! Where an entry lies. -/

namespace Layout
variable {l : Layout}

theorem maxCluster_fat16 (kind : l.kind = .fat16) :
    l.maxCluster = u32 (l.fatSectors * sectorSize) / 2 := by simp only [maxCluster, kind]

theorem maxCluster_fat32 (kind : l.kind = .fat32) :
    l.maxCluster = u32 (l.fatSectors * sectorSize) / 4 := by simp only [maxCluster, kind]

theorem maxCluster_fat12 (kind : l.kind = .fat12) :
    l.maxCluster = u32 (l.fatSectors * sectorSize * 2) / 3 := by simp only [maxCluster, kind]

theorem entry16 (kind : l.kind = .fat16) {c : Nat} (bound : c < l.maxCluster) :
    u32 (c * 2) = c * 2 ∧ c * 2 / sectorSize < l.tableSectors ∧
      c * 2 % sectorSize + 2 ≤ sectorSize := by
  rw [maxCluster_fat16 kind] at bound
  simp only [tableSectors, u32, sectorSize] at bound ⊢
  omega

theorem entry32 (kind : l.kind = .fat32) {c : Nat} (bound : c < l.maxCluster) :
    u32 (c * 4) = c * 4 ∧ c * 4 / sectorSize < l.tableSectors ∧
      c * 4 % sectorSize + 4 ≤ sectorSize := by
  rw [maxCluster_fat32 kind] at bound
  simp only [tableSectors, u32, sectorSize] at bound ⊢
  omega

theorem entry12 (kind : l.kind = .fat12) (small : l.fatSectors ≤ 16) {c : Nat}
    (bound : c < l.maxCluster) : c < 2 ^ 30 ∧ off12 c + 2 ≤ l.fatSectors * sectorSize ∧
      off12 c + 2 ≤ fat12Buf := by
  rw [maxCluster_fat12 kind, u32_of_lt (by simp only [sectorSize]; omega)] at bound
  simp only [sectorSize] at bound
  have place : off12 c = c + c / 2 := off12_eq (by omega)
  have last : 2 * (c + c / 2) + 3 ≤ 1024 * l.fatSectors := by omega
  simp only [place, sectorSize, fat12Buf]
  omega

end Layout

theorem Layout.Accepted.kind_cases {l : Layout} (accepted : l.Accepted) :
    l.kind = .fat12 ∨ l.kind = .fat16 ∨ l.kind = .fat32 := by
  rw [accepted.kind]
  simp only [Header.kindOf]
  split
  · exact .inl rfl
  · split
    · exact .inr (.inl rfl)
    · exact .inr (.inr rfl)

/-- A volume whose table can be read. -/
structure TableRead (s : VolState Disk) : Prop where
  accepted : s.vol.toLayout.Accepted
  coherent : s.Coherent
  apart : s.vol.fatCdirty = true → s.vol.Separate
  idle : s.vol.kind = .fat12 → s.vol.fatCsec = fatCacheNone

/-- A volume whose table can be worked on. -/
structure TableOk (s : VolState Disk) : Prop extends TableRead s where
  separate : s.vol.Separate

/-- Same layout, cache in order: the table can still be worked on. -/
theorem TableOk.next {s t : VolState Disk} (ok : TableOk s) (layout : t.vol.toLayout = s.vol.toLayout)
    (coherent : t.Coherent) (idle : s.vol.kind = .fat12 → t.vol.fatCsec = fatCacheNone) :
    TableOk t := by
  have separate : t.vol.Separate := by rw [layout]; exact ok.separate
  exact ⟨⟨by rw [layout]; exact ok.accepted, coherent, fun _ => separate, by rw [layout]; exact idle⟩,
    separate⟩

/-- The sector (or image) of entry `c` is in memory. -/
def Held (c : Nat) (s : VolState Disk) : Prop :=
  match s.vol.kind with
  | .fat12 => True
  | .fat16 => s.vol.fatCsec = u32 (c * 2) / sectorSize
  | _ => s.vol.fatCsec = u32 (c * 4) / sectorSize

/-- Same stored entries, upper bits included. -/
def SameMap (s t : VolState Disk) : Prop := ∀ c, c < s.vol.maxCluster → t.rawFat c = s.rawFat c

/-- What fat_set stores over `raw`. -/
def storeRaw (kind : FatKind) (raw x : Nat) : Nat :=
  match kind with
  | .fat12 => x % 2 ^ 12
  | .fat16 => x % 2 ^ 16
  | _ => raw / 2 ^ 28 * 2 ^ 28 + x % 2 ^ 28

section Access
variable {s t : VolState Disk} {c : Nat}

theorem rawFat_fat12 (kind : s.vol.kind = .fat12) : s.rawFat c = get12 s.vol.fat c := by
  simp only [rawFat, rawEntry, kind]

theorem rawFat_fat16 (kind : s.vol.kind = .fat16) : s.rawFat c =
    readLe16 (s.fatSector (u32 (c * 2) / sectorSize)) (u32 (c * 2) % sectorSize) := by
  simp only [rawFat, rawEntry, kind]

theorem rawFat_fat32 (kind : s.vol.kind = .fat32) : s.rawFat c =
    readLe32 (s.fatSector (u32 (c * 4) / sectorSize)) (u32 (c * 4) % sectorSize) := by
  simp only [rawFat, rawEntry, kind]

/-- Loading a sector does not move the map. -/
theorem sameMap_of_sameTable (other : s.vol.kind = .fat16 ∨ s.vol.kind = .fat32)
    (layout : t.vol.toLayout = s.vol.toLayout) (same : SameTable s t) : SameMap s t := by
  intro c bound
  have kind : t.vol.kind = s.vol.kind := by rw [layout]
  rcases other with fat16 | fat32
  · obtain ⟨wrap, sec, off⟩ := Layout.entry16 fat16 bound
    rw [rawFat_fat16 (kind.trans fat16), rawFat_fat16 fat16, wrap]
    exact readLe16_congr fun k inside => same _ sec _ (by omega)
  · obtain ⟨wrap, sec, off⟩ := Layout.entry32 fat32 bound
    rw [rawFat_fat32 (kind.trans fat32), rawFat_fat32 fat32, wrap]
    exact readLe32_congr fun k inside => same _ sec _ (by omega)

theorem rawFat_lt16 (kind : s.vol.kind = .fat16) : s.rawFat c < 2 ^ 16 := by
  rw [rawFat_fat16 kind]
  exact readLe16_lt _ _

theorem fatCacheFlush_dirty (s : VolState Disk) (dirty : (fatCacheFlush s).2.vol.fatCdirty = true) :
    s.vol.fatCdirty = true := by
  rcases fatCacheFlush_cases s with ⟨-, run⟩ | ⟨was, -⟩
  · rw [run] at dirty
    exact dirty
  · exact was

/-- Loading makes nothing dirty. -/
theorem fatCacheLoad_dirty {sec : Nat} (dirty : (fatCacheLoad sec s).2.vol.fatCdirty = true) :
    s.vol.fatCdirty = true := by
  simp only [fatCacheLoad] at dirty
  split at dirty
  · exact dirty
  · apply fatCacheFlush_dirty
    split at dirty
    · exact dirty
    · split at dirty <;> exact dirty

theorem TableRead.load (ok : TableRead s) {sec : Nat} (bound : sec < s.vol.tableSectors)
    (kind : s.vol.kind ≠ .fat12) : TableRead (fatCacheLoad sec s).2 := by
  obtain ⟨frame, coherent, -, -⟩ := fatCacheLoad_spec ok.accepted ok.coherent ok.apart bound
  refine ⟨by rw [frame.layout]; exact ok.accepted, coherent, fun dirty => ?_, fun image => ?_⟩
  · rw [frame.layout]
    exact ok.apart (fatCacheLoad_dirty dirty)
  · rw [frame.layout] at image
    exact absurd image kind

/-- fat_get, for every answer of the disk: an error reads as an end of chain. -/
theorem fatGet_read (ok : TableRead s) (bound : c < s.vol.maxCluster) :
    TableFrame s (fatGet c s).2 ∧ TableRead (fatGet c s).2 ∧ SameMap s (fatGet c s).2 ∧
      ((fatGet c s).1 = s.fatMap c ∧ Held c (fatGet c s).2 ∨
        ¬ s.disk.Faultless ∧ s.vol.fatEof ≤ (fatGet c s).1) := by
  rcases ok.accepted.kind_cases with kind | kind | kind
  · obtain ⟨-, -, fits⟩ := Layout.entry12 kind (ok.accepted.image kind) bound
    have run : fatGet c s = (get12 s.vol.fat c, s) := by
      simp only [fatGet, kind, useBuffer_fits s fits]
    rw [run]
    refine ⟨.refl s, ok, fun _ _ => rfl, .inl ⟨?_, ?_⟩⟩
    · rw [fatMap, rawFat_fat12 kind, kind]
      exact (Nat.mod_eq_of_lt (get12_lt _ _)).symm
    · simp only [Held, kind]
  · obtain ⟨wrap, sec, off⟩ := Layout.entry16 kind bound
    have inside : u32 (c * 2) / sectorSize < s.vol.tableSectors := by rw [wrap]; exact sec
    obtain ⟨frame, -, same, held⟩ := fatCacheLoad_spec ok.accepted ok.coherent ok.apart inside
    have map := sameMap_of_sameTable (.inl kind) frame.layout same
    have next := ok.load inside (by rw [kind]; decide)
    have kind' : (fatCacheLoad (u32 (c * 2) / sectorSize) s).2.vol.kind = .fat16 := by
      rw [frame.layout]; exact kind
    simp only [fatGet, kind]
    split
    next failed =>
      refine ⟨frame, next, map, .inr ⟨fun good => fatCacheLoad_ok good _ failed, ?_⟩⟩
      simp only [Layout.fatEof, kind]
      decide
    next loaded =>
      have here := held loaded
      refine ⟨frame, next, map, .inl ⟨?_, ?_⟩⟩
      · rw [fatMap, ← map c bound, kind]
        rw [valueBits, Nat.mod_eq_of_lt (rawFat_lt16 kind'), rawFat_fat16 kind', fatSector_held here]
      · simp only [Held, kind']
        exact here
  · obtain ⟨wrap, sec, off⟩ := Layout.entry32 kind bound
    have inside : u32 (c * 4) / sectorSize < s.vol.tableSectors := by rw [wrap]; exact sec
    obtain ⟨frame, -, same, held⟩ := fatCacheLoad_spec ok.accepted ok.coherent ok.apart inside
    have map := sameMap_of_sameTable (.inr kind) frame.layout same
    have next := ok.load inside (by rw [kind]; decide)
    have kind' : (fatCacheLoad (u32 (c * 4) / sectorSize) s).2.vol.kind = .fat32 := by
      rw [frame.layout]; exact kind
    simp only [fatGet, kind]
    split
    next failed =>
      refine ⟨frame, next, map, .inr ⟨fun good => fatCacheLoad_ok good _ failed, ?_⟩⟩
      simp only [Layout.fatEof, kind]
      decide
    next loaded =>
      have here := held loaded
      refine ⟨frame, next, map, .inl ⟨?_, ?_⟩⟩
      · rw [fatMap, ← map c bound, kind, rawFat_fat32 kind', fatSector_held here]
        rfl
      · simp only [Held, kind']
        exact here

theorem fatGet_spec (ok : TableOk s) (bound : c < s.vol.maxCluster) :
    TableFrame s (fatGet c s).2 ∧ TableOk (fatGet c s).2 ∧ SameMap s (fatGet c s).2 ∧
      ((fatGet c s).1 = s.fatMap c ∧ Held c (fatGet c s).2 ∨
        ¬ s.disk.Faultless ∧ s.vol.fatEof ≤ (fatGet c s).1) := by
  obtain ⟨frame, next, same, value⟩ := fatGet_read ok.toTableRead bound
  exact ⟨frame, ⟨next, by rw [frame.layout]; exact ok.separate⟩, same, value⟩

/-- Writing the loaded sector keeps cache and disk together. -/
theorem tableOk_write (ok : TableOk s) (loaded : s.vol.fatCsec < s.vol.tableSectors)
    (buf : Buffer) : TableOk (s.modVol (·.cacheWrite buf)) :=
  ok.next rfl ⟨.inr loaded, fun clean => by cases clean⟩ ok.idle

/-- The other sectors of the table do not see a write to the cache. -/
theorem fatSector_write_ne {sec : Nat} (other : s.vol.fatCsec ≠ sec) (buf : Buffer) :
    (s.modVol (·.cacheWrite buf)).fatSector sec = s.fatSector sec := by
  rw [fatSector_stored other]
  exact fatSector_stored other

theorem fatSector_write (buf : Buffer) :
    (s.modVol (·.cacheWrite buf)).fatSector s.vol.fatCsec = buf :=
  fatSector_cached (s.modVol (·.cacheWrite buf))

theorem frame_cacheWrite (s : VolState Disk) (buf : Buffer) :
    TableFrame s (s.modVol (·.cacheWrite buf)) := frame_cache s buf s.vol.fatCsec true

section Words
variable {d : Nat}

theorem rawFat_cache16 (kind : s.vol.kind = .fat16) (buf : Buffer) :
    (s.modVol (·.cacheWrite buf)).rawFat c =
      readLe16 ((s.modVol (·.cacheWrite buf)).fatSector (u32 (c * 2) / sectorSize))
        (u32 (c * 2) % sectorSize) :=
  rawFat_fat16 (s := s.modVol (·.cacheWrite buf)) kind

theorem rawFat_cache32 (kind : s.vol.kind = .fat32) (buf : Buffer) :
    (s.modVol (·.cacheWrite buf)).rawFat c =
      readLe32 ((s.modVol (·.cacheWrite buf)).fatSector (u32 (c * 4) / sectorSize))
        (u32 (c * 4) % sectorSize) :=
  rawFat_fat32 (s := s.modVol (·.cacheWrite buf)) kind

theorem rawFat_write16 (kind : s.vol.kind = .fat16)
    (held : s.vol.fatCsec = u32 (c * 2) / sectorSize) (x : Nat) :
    (s.modVol (·.cacheWrite (writeLe16 s.vol.fatCbuf (u32 (c * 2) % sectorSize) x))).rawFat c =
      x % 2 ^ 16 := by
  rw [rawFat_cache16 kind, ← held]
  rw [fatSector_write, readLe16_write]

theorem rawFat_write16_ne (kind : s.vol.kind = .fat16) (bound : c < s.vol.maxCluster)
    (near : d < s.vol.maxCluster) (other : d ≠ c)
    (held : s.vol.fatCsec = u32 (c * 2) / sectorSize) (x : Nat) :
    (s.modVol (·.cacheWrite (writeLe16 s.vol.fatCbuf (u32 (c * 2) % sectorSize) x))).rawFat d =
      s.rawFat d := by
  have first := (Layout.entry16 kind bound).1
  have second := (Layout.entry16 kind near).1
  rw [rawFat_cache16 kind, rawFat_fat16 kind, second]
  by_cases same : s.vol.fatCsec = d * 2 / sectorSize
  · rw [← same, fatSector_write, fatSector_cached]
    rw [held, first] at same
    apply readLe16_write_ne
    rw [first]
    simp only [sectorSize] at same ⊢
    omega
  · rw [fatSector_write_ne same]

theorem rawFat_write32 (kind : s.vol.kind = .fat32)
    (held : s.vol.fatCsec = u32 (c * 4) / sectorSize) (x : Nat) :
    (s.modVol (·.cacheWrite (set32 s.vol.fatCbuf (u32 (c * 4) % sectorSize) x))).rawFat c =
      s.rawFat c / 2 ^ 28 * 2 ^ 28 + x % 2 ^ 28 := by
  rw [rawFat_cache32 kind, rawFat_fat32 kind, ← held]
  have old := readLe32_lt s.vol.fatCbuf (u32 (c * 4) % sectorSize)
  rw [fatSector_write, fatSector_cached, set32, readLe32_write, Nat.mod_eq_of_lt]
  omega

theorem rawFat_write32_ne (kind : s.vol.kind = .fat32) (bound : c < s.vol.maxCluster)
    (near : d < s.vol.maxCluster) (other : d ≠ c)
    (held : s.vol.fatCsec = u32 (c * 4) / sectorSize) (x : Nat) :
    (s.modVol (·.cacheWrite (set32 s.vol.fatCbuf (u32 (c * 4) % sectorSize) x))).rawFat d =
      s.rawFat d := by
  have first := (Layout.entry32 kind bound).1
  have second := (Layout.entry32 kind near).1
  rw [rawFat_cache32 kind, rawFat_fat32 kind, second]
  by_cases same : s.vol.fatCsec = d * 4 / sectorSize
  · rw [← same, fatSector_write, fatSector_cached]
    rw [held, first] at same
    apply readLe32_write_ne
    rw [first]
    simp only [sectorSize] at same ⊢
    omega
  · rw [fatSector_write_ne same]

end Words

/-- fat_set, for every answer of the disk: it stores, or it could not load. -/
theorem fatSet_spec (ok : TableOk s) (bound : c < s.vol.maxCluster) (x : Nat) :
    TableFrame s (fatSet c x s) ∧ TableOk (fatSet c x s) ∧
      (∀ d, d < s.vol.maxCluster → d ≠ c → (fatSet c x s).rawFat d = s.rawFat d) ∧
      ((fatSet c x s).rawFat c = storeRaw s.vol.kind (s.rawFat c) x ∨
        ¬ s.disk.Faultless ∧ ¬ Held c s ∧ (fatSet c x s).rawFat c = s.rawFat c) := by
  rcases ok.accepted.kind_cases with kind | kind | kind
  · obtain ⟨small, -, fits⟩ := Layout.entry12 kind (ok.accepted.image kind) bound
    have run : fatSet c x s = s.modVol (·.imageWrite (set12 s.vol.fat c x)) := by
      simp only [fatSet, kind, useBuffer_fits s fits]
    have kind' : (s.modVol (·.imageWrite (set12 s.vol.fat c x))).vol.kind = .fat12 := kind
    rw [run]
    refine ⟨⟨rfl, rfl, rfl, rfl, rfl, rfl, rfl, rfl, rfl, rfl, rfl, rfl, fun _ _ => rfl, [], rfl,
      by simp⟩, ok.next rfl ⟨ok.coherent.cached, ok.coherent.clean⟩ ok.idle, ?_, .inl ?_⟩
    · intro d near other
      have low := (Layout.entry12 kind (ok.accepted.image kind) near).1
      rw [rawFat_fat12 kind, rawFat_fat12 kind']
      exact get12_set12_ne _ x small low other
    · rw [rawFat_fat12 kind', kind]
      exact get12_set12 _ c x
  · obtain ⟨wrap, sec, off⟩ := Layout.entry16 kind bound
    have inside : u32 (c * 2) / sectorSize < s.vol.tableSectors := by rw [wrap]; exact sec
    obtain ⟨frame, coherent, same, held⟩ := fatCacheLoad_spec ok.accepted ok.coherent ok.apart inside
    have map := sameMap_of_sameTable (.inl kind) frame.layout same
    have next : TableOk (fatCacheLoad (u32 (c * 2) / sectorSize) s).2 :=
      ok.next frame.layout coherent (fun image => by rw [kind] at image; cases image)
    have failing : Held c s → ¬ (fatCacheLoad (u32 (c * 2) / sectorSize) s).1 < 0 := by
      intro cached
      simp only [Held, kind] at cached
      simp only [fatCacheLoad, if_pos cached]
      exact lt_irrefl _
    simp only [fatSet, kind]
    split
    next failed =>
      exact ⟨frame, next, fun d near _ => map d near,
        .inr ⟨fun good => fatCacheLoad_ok good _ failed, fun cached => failing cached failed,
          map c bound⟩⟩
    next loaded =>
      have here := held loaded
      generalize (fatCacheLoad (u32 (c * 2) / sectorSize) s).2 = t at frame next map here ⊢
      rw [← frame.layout] at kind bound sec
      refine ⟨frame.trans (frame_cacheWrite t _), tableOk_write next (by rw [here, wrap]; exact sec) _,
        ?_, .inl (rawFat_write16 kind here x)⟩
      intro d near other
      rw [← map d near]
      exact rawFat_write16_ne kind bound (by rw [frame.layout]; exact near) other here x
  · obtain ⟨wrap, sec, off⟩ := Layout.entry32 kind bound
    have inside : u32 (c * 4) / sectorSize < s.vol.tableSectors := by rw [wrap]; exact sec
    obtain ⟨frame, coherent, same, held⟩ := fatCacheLoad_spec ok.accepted ok.coherent ok.apart inside
    have map := sameMap_of_sameTable (.inr kind) frame.layout same
    have next : TableOk (fatCacheLoad (u32 (c * 4) / sectorSize) s).2 :=
      ok.next frame.layout coherent (fun image => by rw [kind] at image; cases image)
    have failing : Held c s → ¬ (fatCacheLoad (u32 (c * 4) / sectorSize) s).1 < 0 := by
      intro cached
      simp only [Held, kind] at cached
      simp only [fatCacheLoad, if_pos cached]
      exact lt_irrefl _
    simp only [fatSet, kind]
    split
    next failed =>
      exact ⟨frame, next, fun d near _ => map d near,
        .inr ⟨fun good => fatCacheLoad_ok good _ failed, fun cached => failing cached failed,
          map c bound⟩⟩
    next loaded =>
      have here := held loaded
      have old := map c bound
      generalize (fatCacheLoad (u32 (c * 4) / sectorSize) s).2 = t at frame next map here old ⊢
      rw [← frame.layout] at kind bound sec
      refine ⟨frame.trans (frame_cacheWrite t _), tableOk_write next (by rw [here, wrap]; exact sec) _,
        ?_, .inl ?_⟩
      · intro d near other
        rw [← map d near]
        exact rawFat_write32_ne kind bound (by rw [frame.layout]; exact near) other here x
      · rw [rawFat_write32 kind here x, old]
        rfl

end Access

end Zenbite.Fat
