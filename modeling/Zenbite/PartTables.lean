import Zenbite.FreeSpan
import Zenbite.Partition

/-! The partition commands keep the table of a raw disk well formed: disjoint
partitions inside the disk, as long as an explicit range asks for free sectors. -/

namespace Zenbite

open Memory Fat

/-- Every used entry of the new table is one of the old table at the same place,
or the one in `slot`, which is free there. -/
theorem Parted.edit {size : Nat} {old new : Nat → MbrPart} (parted : Parted size old) (slot : Nat)
    (each : ∀ i, i < mbrPartMax → (new i).Used →
      ((old i).Used ∧ (new i).startLba = (old i).startLba ∧ (new i).sectors = (old i).sectors) ∨
        i = slot ∧ FreeSpan size old slot (new i).startLba (new i).sectors) : Parted size new := by
  refine ⟨fun i bound used => ?_, fun i low j high other usedI usedJ => ?_⟩
  · rcases each i bound used with ⟨before, start, count⟩ | ⟨-, free⟩
    · rw [start, count]
      exact parted.inside i bound before
    · exact ⟨free.positive, free.ends⟩
  · rcases each i low usedI with ⟨beforeI, startI, countI⟩ | ⟨slotI, freeI⟩ <;>
      rcases each j high usedJ with ⟨beforeJ, startJ, countJ⟩ | ⟨slotJ, freeJ⟩
    · rw [MbrPart.Apart, startI, countI, startJ, countJ]
      exact parted.apart i low j high other beforeI beforeJ
    · rw [MbrPart.Apart, startI, countI]
      exact (freeJ.apart i low (by omega) beforeI).symm
    · rw [MbrPart.Apart, startJ, countJ]
      exact freeI.apart j high (by omega) beforeJ
    · omega

theorem Parted.sub {size : Nat} {old new : Nat → MbrPart} (parted : Parted size old)
    (each : ∀ i, i < mbrPartMax → (new i).Used →
      (old i).Used ∧ (new i).startLba = (old i).startLba ∧ (new i).sectors = (old i).sectors) :
    Parted size new :=
  parted.edit mbrPartMax fun i bound used => .inl (each i bound used)

/-- No used entry at all. -/
theorem Parted.blank {size : Nat} {entry : Nat → MbrPart}
    (none : ∀ i, i < mbrPartMax → ¬ (entry i).Used) : Parted size entry :=
  ⟨fun i bound used => absurd used (none i bound), fun i low _ _ _ used _ => absurd used (none i low)⟩

theorem Parted.congr {size : Nat} {a b : Buffer} (same : SameSector b a)
    (parted : Parted size (MbrPart.ofSector a)) : Parted size (MbrPart.ofSector b) :=
  parted.sub fun i bound used => by
    rw [same.entry bound] at used ⊢
    exact ⟨used, rfl, rfl⟩

theorem MbrPart.stored_span {e : MbrPart} (used : e.stored.Used) : e.Used ∧
    e.stored.startLba = u32 e.startLba ∧ e.stored.sectors = u32 e.sectors := by
  by_cases before : e.Used
  · rw [stored_used before]
    exact ⟨before, rfl, rfl⟩
  · rw [stored_unused before] at used
    exact absurd used (by decide)

/-- A raw disk with a well-formed table. -/
def Disk.WellParted (d : Disk) : Prop := Parted d.sectors d.entry

instance (d : Disk) : Decidable d.WellParted := inferInstanceAs (Decidable (Parted _ _))

section Editors
variable {blob : MbrBlob} {id : Nat} {b : Blk}

theorem mbrWrite_parted (raw : id < diskRawMax) {table : List MbrPart}
    (parted : (b.raws id).WellParted)
    (table_parted : Parted (b.raws id).sectors fun i => (table.getD i .empty).stored) :
    ((mbrWrite blob id table b).2.raws id).WellParted := by
  have size := (mbrWrite_touches raw blob b table).sectors id
  rw [Disk.WellParted, size]
  have cases : _ ∨ (mbrWrite blob id table b).1 ≠ 0 ∧ _ := mbrWrite_cases raw table b
  rcases cases with ⟨sec, -, put⟩ | ⟨-, kept⟩
  · refine table_parted.sub fun i bound used => ?_
    rw [Disk.entry, put.entry bound, putTable_entry sec table bound] at used ⊢
    exact ⟨used, rfl, rfl⟩
  · exact Parted.congr kept parted

/-- The span that an editor stores is free. -/
def MbrEdit.Fits (size : Nat) (entry : Nat → MbrPart) : MbrEdit → Prop
  | .create slot _ start sectors _ => FreeSpan size entry slot start sectors
  | _ => True

theorem MbrEdit.table_parted {size : Nat} (edit : MbrEdit) {found : List MbrPart}
    (small : size < 2 ^ 32) (parted : Parted size fun i => found.getD i .empty)
    (fits : edit.Fits size fun i => found.getD i .empty) :
    Parted size fun i => ((edit.table found).getD i .empty).stored := by
  have short {e f : MbrPart} {i : Nat} (bound : i < mbrPartMax) (eq : f = found.getD i .empty)
      (used : e.stored.Used) (type : e.type = f.type) (start : e.startLba = f.startLba)
      (count : e.sectors = f.sectors) :
      f.Used ∧ e.stored.startLba = f.startLba ∧ e.stored.sectors = f.sectors := by
    obtain ⟨before, startStored, countStored⟩ := MbrPart.stored_span used
    have beforeF : f.Used := by
      rw [MbrPart.Used, ← type, ← count]
      exact before
    have inside := (parted.inside i bound (by rw [← eq]; exact beforeF)).2
    rw [← eq] at inside
    rw [startStored, countStored, start, count, u32_of_lt (by omega), u32_of_lt (by omega)]
    exact ⟨beforeF, rfl, rfl⟩
  refine parted.edit edit.slot fun i bound used => ?_
  by_cases other : i ≠ edit.slot
  · obtain ⟨type, start, count⟩ := edit.table_other found other
    exact .inl (short bound rfl used type start count)
  · have here : i = edit.slot := not_not.mp other
    cases edit with
    | create slot type start sectors active =>
        have here : i = slot := here
        refine .inr ⟨here, ?_⟩
        obtain ⟨before, startStored, countStored⟩ := MbrPart.stored_span used
        simp only [MbrEdit.table, List.getD_eq_getElem?_getD, List.getElem?_mapIdx] at before
        cases list : found[i]? with
        | none =>
            rw [list, Option.map_none, Option.getD_none] at before
            exact absurd before (by decide)
        | some e =>
            have entry : (((MbrEdit.create slot type start sectors active).table found).getD i .empty) =
                ⟨if active then 0x80 else 0, type, start, sectors⟩ := by
              simp only [MbrEdit.table, List.getD_eq_getElem?_getD, List.getElem?_mapIdx, list,
                Option.map_some, Option.getD_some, if_pos here]
            have free : FreeSpan size (fun i => found.getD i .empty) slot start sectors := fits
            have ends := free.ends
            simp only [entry] at startStored countStored ⊢
            rw [startStored, countStored, u32_of_lt (by omega), u32_of_lt (by omega)]
            exact free
    | delete slot =>
        exfalso
        have here : slot = i := here.symm
        have blank : ((MbrEdit.delete slot).table found).getD i .empty = .empty := by
          simp only [MbrEdit.table, List.getD_eq_getElem?_getD, here, List.getElem?_set, if_true]
          split <;> rfl
        simp only [blank] at used
        exact absurd used (by decide)
    | setActive slot =>
        refine .inl (short bound rfl used ?_ ?_ ?_) <;>
          simp only [MbrEdit.table, List.getD_eq_getElem?_getD, List.getElem?_mapIdx] <;>
          cases found[i]? <;> rfl

/-- What the editors leave on the disk. -/
theorem MbrEdit.run_parted (raw : id < diskRawMax) (small : (b.raws id).sectors < 2 ^ 32)
    (parted : (b.raws id).WellParted) (edit : MbrEdit)
    (fits : edit.Fits (b.raws id).sectors (b.raws id).entry) :
    ((edit.run blob id b).2.raws id).WellParted := by
  have same := mbrRead_same id b id
  have read : ((mbrRead id b).2.raws id).WellParted := by
    rw [Disk.WellParted, same.sectors]
    exact Parted.congr (fun i _ => by rw [same.bytes]) parted
  rcases edit.run_cases blob raw b with ⟨-, left | left⟩ | ⟨found, run, origin⟩
  · rwa [left]
  · rwa [left]
  · rw [run]
    refine mbrWrite_parted raw read ?_
    rw [same.sectors]
    refine edit.table_parted small ?_ ?_
    · rcases origin with found | ⟨-, -, rfl⟩
      · refine parted.sub fun i bound used => ?_
        rw [(tableOn_sector found).2 i bound] at used ⊢
        exact ⟨used, rfl, rfl⟩
      · refine .blank fun i _ used => ?_
        rw [noTable_getD] at used
        exact absurd used (by decide)
    · cases edit with
      | create slot type start sectors active =>
          have free : FreeSpan _ _ slot start sectors := fits
          refine ⟨free.positive, free.ends, fun i bound other used => ?_⟩
          rcases origin with found | ⟨-, -, rfl⟩
          · rw [(tableOn_sector found).2 i bound] at used ⊢
            exact free.apart i bound other used
          · rw [noTable_getD] at used
            exact absurd used (by decide)
      | delete slot => trivial
      | setActive slot => trivial

theorem mbrInitDisk_parted (raw : id < diskRawMax) (blank : blob.Blank)
    (parted : (b.raws id).WellParted) : ((mbrInitDisk blob id b).2.raws id).WellParted := by
  have empty : ¬ MbrPart.empty.Used := by decide
  have chain (size : Nat) : Parted size (MbrPart.ofSector (poke blob.bytes 510 [0x55, 0xAA])) :=
    .blank fun i bound used => by
      have low : i < 4 := bound
      have same : MbrPart.ofSector (poke blob.bytes 510 [0x55, 0xAA]) i =
          MbrPart.ofSector blob.bytes i := by
        simp only [MbrPart.ofSector, poke]
        rw [splice_outside _ _ (by omega), splice_outside _ _ (by omega),
          readLe32_congr fun k _ => splice_outside _ _ (by omega),
          readLe32_congr fun k _ => splice_outside _ _ (by omega)]
      rw [same, blank i bound] at used
      exact empty used
  obtain ⟨-, disk⟩ := Blk.write_raw raw b 0 1 (poke blob.bytes 510 [0x55, 0xAA])
  have first : ((b.write id 0 1 (poke blob.bytes 510 [0x55, 0xAA])).2.raws id).WellParted := by
    rw [Disk.WellParted, (b.write_touches raw 0 1 _).sectors id, disk]
    rcases (b.raws id).write_sector (poke blob.bytes 510 [0x55, 0xAA]) with
      ⟨-, put⟩ | ⟨-, put | kept⟩
    · exact Parted.congr put (chain _)
    · exact Parted.congr put (chain _)
    · exact Parted.congr kept parted
  simp only [mbrInitDisk]
  split
  · exact parted
  · split
    · exact first
    · refine mbrWrite_parted raw first (.blank fun i _ used => ?_)
      rw [noTable_getD] at used
      exact absurd used (by decide)

end Editors

/-! mkpart asks for a free span. -/

/-- An explicit range is free, or there is no slot for it; the automatic one is
chosen with the table at hand. `b` is the state behind the check for a table. -/
def MkpartFits (dev start count : Nat) (b : Blk) : Prop :=
  if count ≠ 0 then
    firstEmpty ((tableOn (b.raws dev)).getD noTable) = none ∨
      FreeSpan (b.raws dev).sectors (b.raws dev).entry mbrPartMax start count
  else (∃ i, i < mbrPartMax ∧ ((b.raws dev).entry i).Used) → (tableOn (b.raws dev)).isSome = true

section Mkpart
variable {blob : MbrBlob} {dev : Fin diskRawMax} {b : Blk}

theorem Disk.WellParted.of_same {d e : Disk} (same : d.Same e) (parted : d.WellParted) :
    e.WellParted := by
  rw [WellParted, same.sectors]
  exact Parted.congr (fun i _ => by rw [same.bytes]) parted

theorem mkpartTable_parted (blank : blob.Blank) (parted : (b.raws dev).WellParted) :
    ((mkpartTable blob dev b).2.raws dev).WellParted := by
  have read : ((mbrHasTable dev b).2.raws dev).WellParted := parted.of_same (mbrRead_same _ b dev)
  simp only [mkpartTable]
  split
  · exact read
  · exact mbrInitDisk_parted dev.isLt blank read

theorem mbrLargestFree_same (id : Nat) (b : Blk) (raw : Nat) :
    (b.raws raw).Same ((mbrLargestFree id b).2.raws raw) := by
  simp only [mbrLargestFree]
  split
  · exact .refl _
  · split <;> exact mbrRead_same id b raw

theorem mkpartRange_same (start count : Nat) (raw : Nat) :
    (b.raws raw).Same ((mkpartRange dev start count b).2.raws raw) := by
  simp only [mkpartRange]
  split
  · exact .refl _
  · exact mbrLargestFree_same _ b raw

/-- The span of mkpart, once a slot is found for it. -/
theorem mkpartRange_free (small : (b.raws dev).sectors < 2 ^ 32) (parted : (b.raws dev).WellParted)
    {start count slot : Nat} {span : Nat × Nat} (fits : MkpartFits dev start count b)
    (range : (mkpartRange dev start count b).1 = some span)
    (found : firstEmpty ((mbrRead dev (mkpartRange dev start count b).2).1.getD noTable) = some slot) :
    FreeSpan (b.raws dev).sectors (b.raws dev).entry mbrPartMax span.1 span.2 := by
  by_cases explicit : count ≠ 0
  · have asked : mkpartRange dev start count b = (some (start, count), b) := if_pos explicit
    rw [asked] at range found
    obtain rfl := Option.some.inj range
    rw [mbrRead_raw dev.isLt] at found
    rw [MkpartFits, if_pos explicit, found] at fits
    exact fits.resolve_left (by simp)
  · have auto : mkpartRange dev start count b =
        ((mbrLargestFree dev b).1.filter fun span => decide (2048 ≤ span.2), (mbrLargestFree dev b).2) :=
      if_neg explicit
    rw [auto] at range
    rw [MkpartFits, if_neg explicit] at fits
    have gap := (Option.filter_eq_some_iff.mp range).1
    exact largestFree_free dev.isLt parted small gap fits mbrPartMax

theorem FreeSpan.inSlot {size start count : Nat} {entry : Nat → MbrPart}
    (free : FreeSpan size entry mbrPartMax start count) (slot : Nat) :
    FreeSpan size entry slot start count :=
  ⟨free.positive, free.ends, fun i bound _ used => free.apart i bound (by omega) used⟩

theorem mkpartEntry_parted (small : (b.raws dev).sectors < 2 ^ 32)
    (parted : (b.raws dev).WellParted) (type : UInt8) {start count : Nat}
    (fits : MkpartFits dev start count b) :
    ((mkpartEntry blob dev type start count b).2.raws dev).WellParted := by
  have range : (b.raws dev).Same ((mkpartRange dev start count b).2.raws dev) :=
    mkpartRange_same start count dev
  have read := mbrRead_same dev (mkpartRange dev start count b).2 dev
  have same := range.trans read
  simp only [mkpartEntry]
  split
  · exact parted.of_same range
  next span asked =>
    split
    · exact parted.of_same same
    next slot found =>
      have free := (mkpartRange_free small parted fits asked found).inSlot slot
      refine MbrEdit.run_parted dev.isLt (by rw [same.sectors]; exact small) (parted.of_same same)
        (.create slot _ span.1 span.2 _) ⟨free.positive, ?_, ?_⟩
      · rw [same.sectors]
        exact free.ends
      · intro i bound other used
        rw [Disk.entry, same.bytes] at used ⊢
        exact free.apart i bound other used

end Mkpart

/-! Unmounting a drive on a view writes back into its partition. -/

/-- The requests of a flush do not wrap around. -/
structure Fat.FatVolume.FlushFits (v : FatVolume) : Prop where
  image : v.kind = .fat12 → v.fatDirty = true → v.fatLba + 2 * v.fatSectors < 2 ^ 32
  cache : v.kind ≠ .fat12 → v.fatCdirty = true → v.fatCsec ≠ fatCacheNone →
    v.fatLba + v.fatSectors + v.fatCsec + 1 < 2 ^ 32
  root : v.rootDirty = true → v.rootLba + v.rootSizeSec < 2 ^ 32

theorem Fat.FatVolume.Clean.flushFits {v : FatVolume} (clean : v.Clean) : v.FlushFits :=
  ⟨fun _ dirty => absurd dirty (by rw [clean.image]; decide),
    fun _ dirty => absurd dirty (by rw [clean.cache]; decide),
    fun dirty => absurd dirty (by rw [clean.root]; decide)⟩

/-- A view on raw disk `dev` starts behind the table and does not wrap around. -/
def Blk.Guarded (b : Blk) (dev : Nat) : Prop :=
  ∀ i, i < partSlotMax → ∀ p ∈ b.views i, p.parent.val = dev →
    1 ≤ p.offset ∧ p.offset + p.sectors < 2 ^ 32

instance (b : Blk) (dev : Nat) : Decidable (b.Guarded dev) := inferInstanceAs (Decidable (∀ i < _, _))

/-- The table on raw disk `dev` is the same, and so are the views. -/
structure Blk.Spares (dev : Nat) (b c : Blk) : Prop where
  views : c.views = b.views
  sectors : (c.raws dev).sectors = (b.raws dev).sectors
  sector : SameSector (c.raws dev).bytes (b.raws dev).bytes

theorem Blk.Spares.refl (dev : Nat) (b : Blk) : b.Spares dev b := ⟨rfl, rfl, fun _ _ => rfl⟩

theorem Blk.Spares.trans {dev : Nat} {b c d : Blk} (first : b.Spares dev c)
    (second : c.Spares dev d) : b.Spares dev d :=
  ⟨second.views.trans first.views, second.sectors.trans first.sectors,
    second.sector.trans first.sector⟩

namespace BlkDev

structure Spares (dev : Nat) (d e : BlkDev) : Prop where
  id : e.id = d.id
  blk : d.blk.Spares dev e.blk

variable {dev : Nat} {d e f : BlkDev}

theorem Spares.refl (dev : Nat) (d : BlkDev) : Spares dev d d := ⟨rfl, .refl dev d.blk⟩

theorem Spares.trans (first : Spares dev d e) (second : Spares dev e f) : Spares dev d f :=
  ⟨second.id.trans first.id, first.blk.trans second.blk⟩

/-- `d` stands for a partition of `dev`. -/
def On (dev : Nat) (d : BlkDev) : Prop :=
  ∃ p, d.blk.views (d.id - partSlotBase) = some p ∧ p.parent.val = dev

/-- Where a request through a view of `dev` goes: behind the table. -/
theorem request_behind (guarded : d.blk.Guarded dev) (view : partSlotBase ≤ d.id) {lba count : Nat}
    (fits : On dev d → lba + count < 2 ^ 32) {write : Bool} {x : Access}
    (request : d.blk.request d.id ⟨write, lba, count⟩ = some (dev, x)) : 1 ≤ x.lba := by
  have high : ¬ d.id < diskRawMax := Nat.not_lt.mpr view
  simp only [Blk.request, if_neg high] at request
  split at request
  next top =>
    split at request
    · cases request
    next p found =>
      split at request
      next admitted =>
        obtain ⟨here, rfl⟩ := Prod.mk.inj (Option.some.inj request)
        have slot : d.id - partSlotBase < partSlotMax := by
          simp only [diskMax] at top
          simp only [partSlotBase, partSlotMax]
          omega
        obtain ⟨start, span⟩ := guarded _ slot p found here
        have short := fits ⟨p, found, here⟩
        have inside : u32 (lba + count) ≤ p.sectors := admitted.1
        rw [u32_of_lt short] at inside
        simp only [Part.shift]
        rw [u32_of_lt (by omega)]
        omega
      · cases request
  · cases request

theorem write_spares (guarded : d.blk.Guarded dev) (view : partSlotBase ≤ d.id) {lba count : Nat}
    (fits : On dev d → lba + count < 2 ^ 32) (buf : Buffer) :
    Spares dev d (Device.write d lba count buf).2 := by
  have parts : ((d.blk.write d.id lba count buf).2.raws dev).sectors = (d.blk.raws dev).sectors ∧
      SameSector ((d.blk.write d.id lba count buf).2.raws dev).bytes (d.blk.raws dev).bytes := by
    simp only [Blk.write]
    cases request : d.blk.request d.id ⟨true, lba, count⟩ with
    | none => exact ⟨rfl, fun _ _ => rfl⟩
    | some sent =>
        obtain ⟨raw, x⟩ := sent
        by_cases here : dev = raw
        · subst here
          have behind := request_behind guarded view fits request
          simp only [Blk.setRaw_here]
          refine ⟨(Disk.write_keeps _ _ _ _).2.1, fun i inside => Disk.write_outside _ _ _ _ (.inl ?_)⟩
          have := Nat.mul_le_mul_right sectorSize behind
          omega
        · simp only [Blk.setRaw_ne _ _ here]
          exact ⟨trivial, fun _ _ => rfl⟩
  exact ⟨rfl, d.blk.write_views _ _ _ _, parts.1, parts.2⟩

end BlkDev

namespace Fat
variable {dev : Nat} {s : VolState BlkDev}

open VolState BlkDev

/-- What a flush of a volume on a guarded view needs. -/
structure Flushable (dev : Nat) (s : VolState BlkDev) : Prop where
  guarded : s.disk.blk.Guarded dev
  view : partSlotBase ≤ s.disk.id
  fits : On dev s.disk → s.vol.FlushFits

theorem diskWrite_spares (flushable : Flushable dev s) {lba count : Nat}
    (fits : s.vol.FlushFits → lba + count < 2 ^ 32) (buf : Buffer) :
    Spares dev s.disk (s.diskWrite lba count buf).2.disk :=
  write_spares flushable.guarded flushable.view (fun on => fits (flushable.fits on)) buf

theorem Flushable.next {t : VolState BlkDev} (flushable : Flushable dev s)
    (spares : Spares dev s.disk t.disk) (vol : s.vol.FlushFits → t.vol.FlushFits) :
    Flushable dev t := by
  obtain ⟨guarded, view, fits⟩ := flushable
  refine ⟨?_, by rw [spares.id]; exact view, fun on => vol (fits ?_)⟩
  · simp only [Blk.Guarded, spares.blk.views]
    exact guarded
  · simpa only [On, spares.id, spares.blk.views] using on

/-- Two writes in a row, as for the two copies of the table. -/
theorem diskWrite_twice_spares (flushable : Flushable dev s) {lba lba' count : Nat} (buf : Buffer)
    (first : s.vol.FlushFits → lba + count < 2 ^ 32)
    (second : s.vol.FlushFits → lba' + count < 2 ^ 32) :
    Spares dev s.disk ((s.diskWrite lba count buf).2.diskWrite lba' count buf).2.disk := by
  have one := diskWrite_spares flushable first buf
  have next : Flushable dev (s.diskWrite lba count buf).2 := flushable.next one id
  exact one.trans (diskWrite_spares next second buf)

theorem flushFat_spares (flushable : Flushable dev s) :
    Spares dev s.disk (flushFat s).2.disk ∧ (s.vol.FlushFits → (flushFat s).2.vol.FlushFits) := by
  have image (kind : s.vol.kind = .fat12) (dirty : ¬ s.vol.fatDirty = false)
      (fits : s.vol.FlushFits) : s.vol.fatLba + 2 * s.vol.fatSectors < 2 ^ 32 :=
    fits.image kind (by simpa using dirty)
  have sector (kind : s.vol.kind ≠ .fat12)
      (dirty : ¬ (s.vol.fatCdirty = false ∨ s.vol.fatCsec = fatCacheNone)) (fits : s.vol.FlushFits) :
      s.vol.fatLba + s.vol.fatSectors + s.vol.fatCsec + 1 < 2 ^ 32 := by
    rw [not_or] at dirty
    exact fits.cache kind (by simpa using dirty.1) dirty.2
  have low (n m : Nat) (small : n + m < 2 ^ 32) : u32 n + m < 2 ^ 32 := by
    have := u32_le n
    omega
  simp only [flushFat]
  split
  next kind =>
    split
    · exact ⟨.refl dev _, id⟩
    next dirty =>
      split
      · exact ⟨diskWrite_spares flushable (fun fits => by have := image kind dirty fits; omega) _, id⟩
      · refine ⟨diskWrite_twice_spares flushable _
          (fun fits => by have := image kind dirty fits; omega)
          (fun fits => low _ _ (by have := image kind dirty fits; omega)),
          fun fits => ⟨fun _ on => ?_, fun other => absurd kind other, fits.root⟩⟩
        exact absurd on (show ¬ false = true by decide)
  next kind =>
    simp only [fatCacheFlush]
    split
    · exact ⟨.refl dev _, id⟩
    next dirty =>
      split
      · exact ⟨diskWrite_spares flushable
          (fun fits => low _ _ (by have := sector kind dirty fits; omega)) _, id⟩
      · refine ⟨diskWrite_twice_spares flushable _
          (fun fits => low _ _ (by have := sector kind dirty fits; omega))
          (fun fits => low _ _ (by have := sector kind dirty fits; omega)),
          fun fits => ⟨fun fat12 => absurd fat12 kind, fun _ on => ?_, fits.root⟩⟩
        exact absurd on (show ¬ false = true by decide)

theorem flushRoot_spares (flushable : Flushable dev s) :
    Spares dev s.disk (flushRoot s).2.disk := by
  simp only [flushRoot]
  split
  · exact .refl dev _
  next dirty =>
    have fits (fits : s.vol.FlushFits) := fits.root (by simpa using dirty)
    split <;> exact diskWrite_spares flushable fits _

end Fat

/-! Unmounting. -/

/-- Some drives have been unmounted, and the table on `dev` has been left alone. -/
structure Sys.Unmounted (dev : Nat) (s t : Sys) : Prop where
  blk : s.blk.Spares dev t.blk
  vols : ∀ idx, t.vols idx = s.vols idx ∨ t.vols idx = .zero

theorem Sys.Unmounted.refl (dev : Nat) (s : Sys) : s.Unmounted dev s :=
  ⟨.refl dev s.blk, fun _ => .inl rfl⟩

theorem Sys.Unmounted.trans {dev : Nat} {s t u : Sys} (first : s.Unmounted dev t)
    (second : t.Unmounted dev u) : s.Unmounted dev u := by
  refine ⟨first.blk.trans second.blk, fun idx => ?_⟩
  rcases second.vols idx with same | zero
  · rw [same]
    exact first.vols idx
  · exact .inr zero

/-- A drive that is left was there before. -/
theorem Sys.Unmounted.drive {dev : Nat} {s t : Sys} (unmounted : s.Unmounted dev t) {idx id : Nat}
    (here : t.driveDiskId idx = some id) :
    s.driveDiskId idx = some id ∧ t.vols idx = s.vols idx := by
  rcases unmounted.vols idx with same | zero
  · rw [Sys.driveDiskId, same] at here
    exact ⟨here, same⟩
  · simp only [Sys.driveDiskId, zero, FatVolume.zero, if_true] at here
    cases here

/-- Flushing the drives that sit on disk id `id` does not wrap around. -/
def Sys.FlushFits (dev : Nat) (s : Sys) (id : Nat) : Prop :=
  BlkDev.On dev ⟨s.blk, id⟩ → ∀ idx, idx < fsDriveMax → s.driveDiskId idx = some id →
    (s.vols idx).FlushFits

theorem Sys.FlushFits.after {dev : Nat} {s t : Sys} (unmounted : s.Unmounted dev t) {id : Nat}
    (fits : s.FlushFits dev id) : t.FlushFits dev id := by
  intro on idx low here
  obtain ⟨before, same⟩ := unmounted.drive here
  rw [same]
  refine fits ?_ idx low before
  simpa only [BlkDev.On, unmounted.blk.views] using on

section Unmount
variable {dev : Nat} {s : Sys} {id : Nat}

theorem Blk.Guarded.after {b c : Blk} (spares : b.Spares dev c) (guarded : b.Guarded dev) :
    c.Guarded dev := by
  rw [Guarded, spares.views]
  exact guarded

theorem fsUnmountIdx_spares (guarded : s.blk.Guarded dev) (view : partSlotBase ≤ id)
    (fits : s.FlushFits dev id) {idx : Nat} (low : idx < fsDriveMax)
    (here : s.driveDiskId idx = some id) : s.Unmounted dev (fsUnmountIdx idx s).2 := by
  obtain ⟨kind, named⟩ := Sys.driveDiskId_eq.mp here
  have flushable : Fat.Flushable dev (s.volState idx id) := ⟨guarded, view, fun on => fits on idx low here⟩
  obtain ⟨table, keeps⟩ := Fat.flushFat_spares flushable
  have root := Fat.flushRoot_spares (flushable.next table keeps)
  simp only [fsUnmountIdx, if_neg kind, named]
  refine ⟨(table.trans root).blk, fun other => ?_⟩
  by_cases same : other = idx
  · subst same
    exact .inr (Function.update_self _ _ _)
  · simp only [Sys.setVol, Sys.putVol, Function.update_of_ne same, true_or]

theorem unmountOn_spares (guarded : s.blk.Guarded dev) (view : partSlotBase ≤ id)
    (fits : s.FlushFits dev id) : s.Unmounted dev (unmountOn s id) := by
  refine List.foldlRecOn _ (unmountIf id) (motive := s.Unmounted dev) (.refl dev s)
    fun t unmounted idx member => ?_
  simp only [unmountIf]
  split
  next here =>
    exact unmounted.trans (fsUnmountIdx_spares (guarded.after unmounted.blk) view
      (fits.after unmounted) (List.mem_range.mp member) here)
  · exact unmounted

theorem unmountViews_spares (parent : Nat) (guarded : s.blk.Guarded dev)
    (fits : parent = dev → ∀ i, i < partSlotMax → s.FlushFits dev (partSlotBase + i)) :
    s.Unmounted dev ((List.range partSlotMax).foldl (unmountView parent) s) := by
  refine List.foldlRecOn _ (unmountView parent) (motive := s.Unmounted dev) (.refl dev s)
    fun t unmounted i member => ?_
  simp only [unmountView]
  split
  next listed =>
    refine unmounted.trans (unmountOn_spares (guarded.after unmounted.blk) (Nat.le_add_right _ _)
      fun on => ?_)
    obtain ⟨p, found, here⟩ := on
    simp only [Nat.add_sub_cancel_left] at found
    rw [found, Option.any_some, beq_iff_eq] at listed
    exact (fits (listed.symm.trans here) i (List.mem_range.mp member)).after unmounted
      ⟨p, by simpa only [Nat.add_sub_cancel_left] using found, here⟩
  · exact unmounted

end Unmount

/-! Rescanning. -/

/-- The disks and views of `b` after reads. -/
structure Blk.Kept (b c : Blk) : Prop where
  views : c.views = b.views
  raws : ∀ raw, (b.raws raw).Same (c.raws raw)

theorem Blk.Kept.trans {b c d : Blk} (first : b.Kept c) (second : c.Kept d) : b.Kept d :=
  ⟨second.views.trans first.views, fun raw => (first.raws raw).trans (second.raws raw)⟩

theorem fsMount_kept (idx id : Nat) (s : Sys) : s.blk.Kept (fsMount idx id s).2.blk := by
  by_cases present : s.blk.present id = true
  · have mounted := fsMount_slot idx present
    exact ⟨mounted.views, mounted.raws⟩
  · have refused : fsMount idx id s = (-1, s) := if_pos (by simpa using present)
    rw [refused]
    exact ⟨rfl, fun _ => .refl _⟩

theorem mountRound_kept {b : Blk} {c : Nat × Sys} {id : Nat} (kept : b.Kept c.2.blk) :
    b.Kept (mountRound c id).2.blk := by
  rcases mountRound_cases c id with reads | ⟨-, idx, t, reads, -, -, result⟩
  · exact kept.trans ⟨reads.views, reads.raws⟩
  · rw [result]
    exact (kept.trans ⟨reads.views, reads.raws⟩).trans (fsMount_kept idx id t)

theorem doMountAll_kept {b : Blk} {s : Sys} (kept : b.Kept s.blk) : b.Kept (doMountAll s).2.blk :=
  List.foldlRecOn _ mountRound (motive := fun c => b.Kept c.2.blk) kept
    fun _ kept _ _ => mountRound_kept kept

theorem foundOn_entry {parent : Fin diskRawMax} {d : Disk} {p : Part} (member : p ∈ foundOn parent d) :
    p.parent = parent ∧ ∃ i, i < mbrPartMax ∧ (d.entry i).Used ∧ p.offset = (d.entry i).startLba ∧
      p.sectors = (d.entry i).sectors := by
  simp only [foundOn] at member
  split at member
  · cases member
  · obtain ⟨⟨src, idx⟩, listed, view⟩ := List.mem_filterMap.mp member
    obtain ⟨entry, used⟩ := List.mem_filter.mp listed
    cases table : tableOn d with
    | none =>
        rw [table] at entry
        cases entry
    | some entries =>
        rw [table, Option.getD_some] at entry
        obtain ⟨i, low, here⟩ := List.mem_iff_getElem.mp (List.fst_mem_of_mem_zipIdx entry)
        have bound : i < mbrPartMax := by rwa [tableOn_length table] at low
        have get := (tableOn_sector table).2 i bound
        rw [List.getD_eq_getElem?_getD, List.getElem?_eq_getElem low, Option.getD_some, here] at get
        simp only [viewOf] at view
        split at view
        · cases view
        · obtain rfl := Option.some.inj view
          refine ⟨rfl, i, bound, ?_⟩
          rw [Disk.entry, ← get]
          exact ⟨of_decide_eq_true used, rfl, rfl⟩

/-- The invariant of the tracked disk: a well-formed table, and views behind it. -/
structure Sys.Held (dev : Fin diskRawMax) (s : Sys) : Prop where
  parted : (s.blk.raws dev).WellParted
  size : (s.blk.raws dev).sectors < 2 ^ 32
  guarded : s.blk.Guarded dev

namespace Sys
variable {dev : Fin diskRawMax} {s t : Sys}

theorem Held.after (held : s.Held dev) (spares : s.blk.Spares dev t.blk) : t.Held dev := by
  refine ⟨?_, by rw [spares.sectors]; exact held.size, held.guarded.after spares⟩
  rw [Disk.WellParted, spares.sectors]
  exact Parted.congr spares.sector held.parted

/-- An edit of the table behind an unmounting. -/
theorem Held.edit (held : s.Held dev) {id : Fin diskRawMax} {b : Blk} (touches : s.blk.Touches id b)
    (parted : id = dev → (b.raws dev).WellParted) : (s.setBlk b).Held dev := by
  refine ⟨?_, (touches.sectors dev).trans_lt held.size, ?_⟩
  · by_cases here : id = dev
    · exact parted here
    · change (b.raws dev).WellParted
      rw [touches.others dev fun same => here (Fin.ext same.symm)]
      exact held.parted
  · simp only [Blk.Guarded, setBlk, touches.views]
    exact held.guarded

theorem Held.rescan (held : s.Held dev) {probe : Probe}
    (steady : ∀ n ∈ probe dev, n = (s.blk.raws dev).sectors) : (fsRescan probe s).2.Held dev := by
  have listed : ((s.blk.registerDisks probe).raws dev).bytes = (s.blk.raws dev).bytes ∧
      ((s.blk.registerDisks probe).raws dev).sectors = (s.blk.raws dev).sectors := by
    simp only [Blk.registerDisks]
    split
    · exact ⟨rfl, rfl⟩
    next n answers => exact ⟨rfl, steady n answers⟩
  have parted : ((s.blk.registerDisks probe).raws dev).WellParted := by
    rw [Disk.WellParted, listed.2]
    exact Parted.congr (fun i _ => by rw [listed.1]) held.parted
  have scanned := mbrScanAll_same (s.blk.registerDisks probe) dev
  obtain ⟨views, raws⟩ := doMountAll_kept (s := s.setBlk (mbrScanAll (s.blk.registerDisks probe)))
    ⟨rfl, fun _ => .refl _⟩
  have same := scanned.trans (raws dev)
  simp only [fsRescan]
  refine ⟨parted.of_same same, (same.sectors.trans listed.2).trans_lt held.size,
    fun i low p view here => ?_⟩
  · rw [Option.mem_def, views] at view
    have slots := mbrScanAll_views (s.blk.registerDisks probe) i
    change (mbrScanAll (s.blk.registerDisks probe)).views i = some p at view
    rw [view, if_pos low] at slots
    obtain ⟨parent, -, member⟩ := List.mem_flatMap.mp (List.mem_of_getElem? slots.symm)
    obtain ⟨rfl, j, bound, used, start, count⟩ := foundOn_entry member
    rw [Fin.ext here] at used start count
    have inside := parted.inside j bound used
    have size := held.size
    rw [listed.2] at inside
    omega

end Sys

/-! Whole runs. -/

/-- When a command keeps the table on `dev` well formed: the drives that it
unmounts from there flush without wrapping around, and a partition that it
creates there asks for free sectors. -/
def PartCmd.FitsOn (blob : MbrBlob) (dev : Fin diskRawMax) (s : Sys) : PartCmd → Prop
  | .mkmbr d => d = dev → ∀ i, i < partSlotMax → s.FlushFits dev (partSlotBase + i)
  | .mkpart d _ start count => d = dev → MkpartFits d start count (mkpartTable blob d s.blk).2
  | .delpart d slot => d = dev → ∀ view ∈ mbrViewFor d slot s.blk, s.FlushFits dev view
  | _ => True

/-- Every step of the run meets its condition, and the disk keeps its size. -/
def FitRun (blob : MbrBlob) (dev : Fin diskRawMax) : List (PartCmd × Probe) → Sys → Prop
  | [], _ => True
  | c :: cmds, s => c.1.FitsOn blob dev s ∧ (∀ n ∈ c.2 dev, n = (s.blk.raws dev).sectors) ∧
      FitRun blob dev cmds (PartCmd.run blob s c)

theorem PartCmd.edit_held {blob : MbrBlob} (blank : blob.Blank) {dev : Fin diskRawMax} {s : Sys}
    (held : s.Held dev) (cmd : PartCmd) (fits : cmd.FitsOn blob dev s) :
    (cmd.edit blob s).2.Held dev ∧
      ((cmd.edit blob s).2.blk.raws dev).sectors = (s.blk.raws dev).sectors := by
  cases cmd with
  | mkmbr d =>
      have unmounted := unmountViews_spares d.val held.guarded fun same => fits (Fin.ext same)
      have after := held.after unmounted.blk
      have touches := mbrInitDisk_touches d.isLt blob
        ((List.range partSlotMax).foldl (unmountView d) s).blk
      refine ⟨after.edit touches fun same => ?_, (touches.sectors dev).trans unmounted.blk.sectors⟩
      subst same
      exact mbrInitDisk_parted d.isLt blank after.parted
  | mkpart d type start count =>
      have table := mkpartTable_touches blob d s.blk
      have entry := table.trans (mkpartEntry_touches blob d (mkpartTable blob d s.blk).2 type start count)
      have parted (same : d = dev) : ((mkpartTable blob d s.blk).2.raws dev).WellParted := by
        rw [← same]
        exact mkpartTable_parted blank (by rw [same]; exact held.parted)
      simp only [edit, mkpartEdit]
      split
      · exact ⟨held.edit table parted, table.sectors dev⟩
      · refine ⟨held.edit entry fun same => ?_, entry.sectors dev⟩
        have free := fits same
        subst same
        exact mkpartEntry_parted ((table.sectors d).trans_lt held.size) (parted rfl) type free
  | delpart d slot =>
      have delete (t : Sys) (unmounted : s.Unmounted dev t) :
          (t.setBlk (mbrDeletePartition blob d slot t.blk).2).Held dev ∧
            ((t.setBlk (mbrDeletePartition blob d slot t.blk).2).blk.raws dev).sectors =
              (s.blk.raws dev).sectors := by
        have after := held.after unmounted.blk
        have touches := mbrDeletePartition_touches d.isLt blob t.blk slot
        refine ⟨after.edit touches fun same => ?_, (touches.sectors dev).trans unmounted.blk.sectors⟩
        subst same
        exact MbrEdit.run_parted d.isLt after.size after.parted (.delete slot) trivial
      simp only [edit, delpartEdit]
      split
      · exact ⟨held, rfl⟩
      · apply delete
        cases found : mbrViewFor d slot s.blk with
        | none => exact .refl dev s
        | some view =>
            obtain ⟨i, listed, rfl⟩ := Option.map_eq_some_iff.mp found
            refine unmountOn_spares held.guarded (Nat.le_add_right _ _) fun on => ?_
            obtain ⟨p, slotted, here⟩ := on
            have named := List.find?_some listed
            simp only [Nat.add_sub_cancel_left] at slotted
            rw [slotted, Option.any_some, Bool.and_eq_true, beq_iff_eq] at named
            exact fits (Fin.ext (named.1.symm.trans here)) _ found
              ⟨p, by simpa only [Nat.add_sub_cancel_left] using slotted, here⟩
  | setactive d slot =>
      have touches := mbrSetActive_touches d.isLt blob s.blk slot
      simp only [edit, setactiveEdit]
      split
      · exact ⟨held, rfl⟩
      · refine ⟨held.edit touches fun same => ?_, touches.sectors dev⟩
        subst same
        exact MbrEdit.run_parted d.isLt held.size held.parted (.setActive slot) trivial
  | rescan => exact ⟨held, rfl⟩

theorem PartCmd.run_held {blob : MbrBlob} (blank : blob.Blank) {dev : Fin diskRawMax} {s : Sys}
    (held : s.Held dev) (c : PartCmd × Probe) (fits : c.1.FitsOn blob dev s)
    (steady : ∀ n ∈ c.2 dev, n = (s.blk.raws dev).sectors) : (PartCmd.run blob s c).Held dev := by
  obtain ⟨edited, size⟩ := c.1.edit_held blank held fits
  simp only [run]
  split
  · exact edited.rescan (by rw [size]; exact steady)
  · exact edited

/-- The table after every command of a run whose steps all meet their condition. -/
theorem tables_stay_parted {blob : MbrBlob} (blank : blob.Blank) {dev : Fin diskRawMax}
    {cmds : List (PartCmd × Probe)} {s : Sys} (parted : (s.blk.raws dev).WellParted)
    (size : (s.blk.raws dev).sectors < 2 ^ 32) (guarded : s.blk.Guarded dev)
    (fits : FitRun blob dev cmds s) :
    ∀ n, ((((cmds.take n).foldl (PartCmd.run blob) s).blk).raws dev).WellParted := by
  have fold (cmds : List (PartCmd × Probe)) : ∀ s : Sys, s.Held dev → FitRun blob dev cmds s →
      ∀ n, ((cmds.take n).foldl (PartCmd.run blob) s).Held dev := by
    induction cmds with
    | nil => exact fun s held _ n => by rwa [List.take_nil]
    | cons c cmds ih =>
        intro s held fits n
        cases n with
        | zero => exact held
        | succ n => exact ih _ (PartCmd.run_held blank held c fits.1 fits.2.1) fits.2.2 n
  exact fun n => (fold cmds s ⟨parted, size, guarded⟩ fits n).parted

/-- The third partition makes room, and two new ones take free sectors. -/
theorem repartitioned_parted :
    (((([(.delpart 0 2, largeDisk), (.mkpart 0 0 1000 500, largeDisk),
      (.mkpart 0 0 0 0, largeDisk)].take 3).foldl (PartCmd.run chainloader) partitioned).blk).raws
        (0 : Fin diskRawMax)).WellParted := by
  refine tables_stay_parted (by decide +kernel) (by decide +kernel) (by decide +kernel) (by decide +kernel)
    ?_ 3
  have clean : ∀ idx, idx < fsDriveMax → (partitioned.vols idx).fatCdirty = false ∧
      (partitioned.vols idx).fatDirty = false ∧ (partitioned.vols idx).rootDirty = false := by
    decide +kernel
  refine ⟨fun _ view _ _ idx low _ => Fat.FatVolume.Clean.flushFits ?_, by decide +kernel,
    fun _ => .inr ⟨by decide, by decide +kernel, by decide +kernel⟩, by decide +kernel,
    fun _ _ => by decide +kernel, by decide +kernel, trivial⟩
  exact ⟨(clean idx low).1, (clean idx low).2.1, (clean idx low).2.2⟩

/-- `mkpart` with an explicit range inside the first partition. -/
theorem mkpart_overlaps :
    (partitioned.blk.raws 0).WellParted ∧
      ¬ ((PartCmd.run chainloader partitioned (.mkpart 0 0 110 20, largeDisk)).blk.raws
        0).WellParted :=
  ⟨by decide +kernel, by decide +kernel⟩

end Zenbite
