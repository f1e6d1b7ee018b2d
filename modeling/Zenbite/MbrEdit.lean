import Zenbite.PartView

/-! mbr_write against the table that mbr_read returns, and what the editors of
mbr.c leave of the other entries. -/

namespace Zenbite

open Memory

/-- The same first sector. -/
def SameSector (a b : Buffer) : Prop := ∀ i, i < sectorSize → a i = b i

theorem SameSector.symm {a b : Buffer} (same : SameSector a b) : SameSector b a :=
  fun i inside => (same i inside).symm

theorem SameSector.trans {a b c : Buffer} (first : SameSector a b) (second : SameSector b c) :
    SameSector a c := fun i inside => (first i inside).trans (second i inside)

theorem SameSector.entry {a b : Buffer} (same : SameSector a b) {i : Nat} (bound : i < mbrPartMax) :
    MbrPart.ofSector a i = MbrPart.ofSector b i := by
  simp only [mbrPartMax] at bound
  simp only [MbrPart.ofSector]
  rw [same _ (by simp only [sectorSize]; omega), same _ (by simp only [sectorSize]; omega),
    readLe32_congr fun k _ => same _ (by simp only [sectorSize]; omega),
    readLe32_congr fun k _ => same _ (by simp only [sectorSize]; omega)]

theorem SameSector.signed {a b : Buffer} (same : SameSector a b) :
    Zenbite.signed a = Zenbite.signed b := by
  rw [Zenbite.signed, Zenbite.signed, same 510 (by decide), same 511 (by decide)]

/-- The chainloader's own sector has no partitions. -/
def MbrBlob.Blank (blob : MbrBlob) : Prop :=
  ∀ i, i < mbrPartMax → MbrPart.ofSector blob.bytes i = .empty

instance (blob : MbrBlob) : Decidable blob.Blank := inferInstanceAs (Decidable (∀ i < _, _))

/-! Reading back what mbr_write has stored. -/

namespace MbrPart

/-- An entry as it comes back: entries that are not used are dropped. -/
def stored (e : MbrPart) : MbrPart :=
  if e.Used then ⟨if e.boot ≠ 0 then 0x80 else 0, e.type, u32 e.startLba, u32 e.sectors⟩ else .empty

theorem toBytes_length (e : MbrPart) : e.toBytes.length = 16 := by
  simp only [toBytes]
  split <;> rfl

theorem stored_used {e : MbrPart} (used : e.Used) :
    e.stored = ⟨if e.boot ≠ 0 then 0x80 else 0, e.type, u32 e.startLba, u32 e.sectors⟩ := if_pos used

theorem stored_unused {e : MbrPart} (unused : ¬ e.Used) : e.stored = .empty := if_neg unused

/-- The 16 bytes of an entry, wherever they are stored. -/
theorem ofSector_bytes {sec : Buffer} {i : Nat} {e : MbrPart}
    (bytes : ∀ k, k < 16 → sec (0x1BE + i * 16 + k) = e.toBytes.getD k 0) :
    ofSector sec i = e.stored := by
  have word (v off : Nat) (inside : off + 4 ≤ 16)
      (there : ∀ k, k < 4 → e.toBytes.getD (off + k) 0 = byteOf v k) :
      readLe32 sec (0x1BE + i * 16 + off) = u32 v := by
    rw [u32, ← readLe32_write sec (0x1BE + i * 16 + off) v]
    refine readLe32_congr fun k low => ?_
    rw [Nat.add_assoc, bytes (off + k) (by omega), there k low, ← Nat.add_assoc]
    exact (splice_add sec (byteOf v) low).symm
  by_cases used : e.Used
  · have list : e.toBytes = [if e.boot ≠ 0 then 0x80 else 0, 0xFE, 0xFF, 0xFF, e.type, 0xFE, 0xFF,
        0xFF] ++ bytesOf e.startLba 4 ++ bytesOf e.sectors 4 := if_pos used
    have four (k : Nat) (low : k < 4) : k = 0 ∨ k = 1 ∨ k = 2 ∨ k = 3 := by omega
    have start := word e.startLba 8 (by decide) fun k low => by
      rw [list]
      rcases four k low with rfl | rfl | rfl | rfl <;> rfl
    have count := word e.sectors 12 (by decide) fun k low => by
      rw [list]
      rcases four k low with rfl | rfl | rfl | rfl <;> rfl
    have boot := bytes 0 (by decide)
    have type := bytes 4 (by decide)
    rw [list] at boot type
    rw [stored_used used]
    simp only [ofSector, start, count]
    congr 1
  · have list : e.toBytes = List.replicate 16 0 := if_neg used
    have blank (k : Nat) : (List.replicate 16 (0 : UInt8)).getD k 0 = byteOf 0 0 := by
      rw [List.getD_eq_getElem?_getD, List.getElem?_replicate]
      split <;> rfl
    have zero (off : Nat) (inside : off + 4 ≤ 16) := word 0 off inside fun k _ => by
      rw [list, blank]
      simp only [byteOf, Nat.zero_div]
    have boot := bytes 0 (by decide)
    have type := bytes 4 (by decide)
    rw [list] at boot type
    rw [stored_unused used]
    simp only [ofSector, zero 8 (by decide), zero 12 (by decide)]
    congr 1

end MbrPart

/-- The loop of mbr_write after `n` rounds. -/
def putEntries (sec : Buffer) (table : List MbrPart) (n : Nat) : Buffer :=
  (List.range n).foldl (fun sec i => poke sec (0x1BE + i * 16) (table.getD i .empty).toBytes) sec

theorem putEntries_succ (sec : Buffer) (table : List MbrPart) (n : Nat) :
    putEntries sec table (n + 1) =
      poke (putEntries sec table n) (0x1BE + n * 16) (table.getD n .empty).toBytes := by
  simp only [putEntries, List.range_succ, List.foldl_append, List.foldl_cons, List.foldl_nil]

theorem putEntries_outside (sec : Buffer) (table : List MbrPart) (n : Nat) {a : Nat}
    (outside : a < 0x1BE ∨ 0x1BE + n * 16 ≤ a) : putEntries sec table n a = sec a := by
  induction n with
  | zero => rfl
  | succ n ih =>
      rw [putEntries_succ, poke, splice_outside, ih (by omega)]
      rw [MbrPart.toBytes_length]
      omega

theorem putEntries_entry (sec : Buffer) (table : List MbrPart) {n i : Nat} (low : i < n) {k : Nat}
    (inside : k < 16) :
    putEntries sec table n (0x1BE + i * 16 + k) = (table.getD i .empty).toBytes.getD k 0 := by
  induction n with
  | zero => omega
  | succ n ih =>
      rw [putEntries_succ, poke]
      rcases Nat.eq_or_lt_of_le (Nat.le_of_lt_succ low) with rfl | before
      · exact splice_add _ _ (by rw [MbrPart.toBytes_length]; exact inside)
      · rw [splice_outside _ _ (by omega), ih before]

theorem putTable_eq (sec : Buffer) (table : List MbrPart) :
    putTable sec table = poke (putEntries sec table mbrPartMax) 510 [0x55, 0xAA] := rfl

theorem putTable_code (sec : Buffer) (table : List MbrPart) {a : Nat} (code : a < 0x1BE) :
    putTable sec table a = sec a := by
  rw [putTable_eq, poke, splice_outside _ _ (by omega)]
  exact putEntries_outside sec table _ (.inl code)

theorem putTable_signed (sec : Buffer) (table : List MbrPart) : signed (putTable sec table) = true := by
  rfl

/-- Entry `i` comes back as it was stored. -/
theorem putTable_entry (sec : Buffer) (table : List MbrPart) {i : Nat} (bound : i < mbrPartMax) :
    MbrPart.ofSector (putTable sec table) i = (table.getD i .empty).stored := by
  apply MbrPart.ofSector_bytes
  intro k inside
  have low : i < 4 := bound
  rw [putTable_eq, poke, splice_outside _ _ (by omega)]
  exact putEntries_entry sec table bound inside

/-! One sector of a raw disk. -/

/-- Writing one sector stores it or leaves it, also when the driver fails. -/
theorem Disk.write_at (d : Disk) (lba : Nat) (buf : Buffer) :
    ((d.write lba 1 buf).1 = 0 ∧
        SameSector (window (d.write lba 1 buf).2.bytes (lba * sectorSize)) buf) ∨
      (d.write lba 1 buf).1 = -1 ∧
        (SameSector (window (d.write lba 1 buf).2.bytes (lba * sectorSize)) buf ∨
          SameSector (window (d.write lba 1 buf).2.bytes (lba * sectorSize))
            (window d.bytes (lba * sectorSize))) := by
  have put (n : Nat) (some : 1 ≤ n) : SameSector
      (window (splice d.bytes (lba * sectorSize) (n * sectorSize) buf) (lba * sectorSize)) buf := by
    intro i inside
    have := Nat.mul_le_mul_right sectorSize some
    exact splice_add _ _ (by omega)
  simp only [Disk.write]
  split
  · cases answer : d.answer ⟨true, lba, 1⟩ with
    | ok => exact .inl ⟨rfl, put 1 (Nat.le_refl 1)⟩
    | fail n =>
        refine .inr ⟨rfl, ?_⟩
        rcases Nat.eq_zero_or_pos n with rfl | some
        · right
          simp only [Disk.moved, Nat.zero_min, Nat.zero_mul, splice_zero]
          exact fun _ _ => rfl
        · exact .inl (put (min n 1) (by omega))
  · exact .inr ⟨rfl, .inr fun _ _ => rfl⟩

theorem Disk.write_sector (d : Disk) (buf : Buffer) :
    ((d.write 0 1 buf).1 = 0 ∧ SameSector (d.write 0 1 buf).2.bytes buf) ∨
      (d.write 0 1 buf).1 = -1 ∧ (SameSector (d.write 0 1 buf).2.bytes buf ∨
        SameSector (d.write 0 1 buf).2.bytes d.bytes) := by
  have first (m : Buffer) : window m (0 * sectorSize) = m := by
    funext i
    rw [window, Nat.zero_mul, Nat.zero_add]
  have put := d.write_at 0 buf
  rwa [first, first] at put

section Editors
variable {blob : MbrBlob} {id : Nat} {b : Blk}

theorem Blk.write_raw (raw : id < diskRawMax) (b : Blk) (lba count : Nat) (buf : Buffer) :
    (b.write id lba count buf).1 = ((b.raws id).write lba count buf).1 ∧
      (b.write id lba count buf).2.raws id = ((b.raws id).write lba count buf).2 := by
  simp only [write, request, if_pos raw]
  by_cases present : (b.raws id).present = true
  · rw [if_pos present]
    exact ⟨rfl, setRaw_here b id _⟩
  · rw [if_neg present]
    simp only [Disk.write, if_neg present, and_self]

theorem Blk.read_sector (raw : id < diskRawMax)
    (ok : ¬ (b.read id 0 1 fun _ => 0).1 < 0) :
    SameSector (b.read id 0 1 fun _ => 0).2.1 (b.raws id).bytes := by
  by_cases present : (b.raws id).present = true
  · rw [Blk.read_raw raw present] at ok ⊢
    have read := (Disk.read_ok _ 0 1 _ ok).2
    intro i inside
    rw [read, splice_inside _ _ (Nat.zero_le i) (by omega), window, Nat.zero_mul, Nat.zero_add,
      Nat.sub_zero]
  · exfalso
    apply ok
    simp only [Blk.read, Blk.request, if_pos raw, if_neg present]
    decide

/-- The sector that mbr_write edits. -/
def MbrBlob.Base (blob : MbrBlob) (d : Disk) (sec : Buffer) : Prop :=
  (signed d.bytes = true → SameSector sec d.bytes) ∧ (signed d.bytes = false → sec = blob.bytes)

/-- mbr_write stores the table or leaves the sector; it returns 0 only if it has
stored it. -/
theorem mbrWrite_cases (raw : id < diskRawMax) (table : List MbrPart) (b : Blk) :
    (∃ sec, blob.Base (b.raws id) sec ∧
        SameSector ((mbrWrite blob id table b).2.raws id).bytes (putTable sec table)) ∨
      (mbrWrite blob id table b).1 ≠ 0 ∧
        SameSector ((mbrWrite blob id table b).2.raws id).bytes (b.raws id).bytes := by
  have same := (b.read_same id 0 1 (fun _ => 0) id).bytes
  have store (sec : Buffer) (base : blob.Base (b.raws id) sec) (c : Blk)
      (left : (c.raws id).bytes = (b.raws id).bytes) :
      (∃ base, blob.Base (b.raws id) base ∧
          SameSector ((c.write id 0 1 (putTable sec table)).2.raws id).bytes (putTable base table)) ∨
        (c.write id 0 1 (putTable sec table)).1 ≠ 0 ∧
          SameSector ((c.write id 0 1 (putTable sec table)).2.raws id).bytes (b.raws id).bytes := by
    obtain ⟨rc, disk⟩ := Blk.write_raw raw c 0 1 (putTable sec table)
    rw [rc, disk, ← left]
    rcases (c.raws id).write_sector (putTable sec table) with ⟨-, put⟩ | ⟨fails, put | kept⟩
    · exact .inl ⟨sec, base, put⟩
    · exact .inl ⟨sec, base, put⟩
    · exact .inr ⟨by rw [fails]; decide, kept⟩
  simp only [mbrWrite]
  split
  · exact .inr ⟨show (-1 : Int) ≠ 0 by decide, fun i _ => by rw [same]⟩
  next ok =>
    have sector := Blk.read_sector raw ok
    split
    next mark =>
      rw [sector.signed] at mark
      exact store _ ⟨fun _ => sector, fun none => absurd mark (by rw [none]; decide)⟩ _ same
    next unmarked =>
      rw [sector.signed, Bool.not_eq_true] at unmarked
      split
      · exact .inr ⟨show (-1 : Int) ≠ 0 by decide, fun i _ => by rw [same]⟩
      · exact store _ ⟨fun mark => absurd mark (by rw [unmarked]; decide), fun _ => rfl⟩ _ same

theorem mbrRead_raw (raw : id < diskRawMax) (b : Blk) : (mbrRead id b).1 = tableOn (b.raws id) :=
  mbrRead_table ⟨id, raw⟩ b

theorem tableOn_sector {d : Disk} {table : List MbrPart} (found : tableOn d = some table) :
    signed d.bytes = true ∧ ∀ i, i < mbrPartMax → table.getD i .empty = .ofSector d.bytes i := by
  simp only [tableOn] at found
  split at found
  · cases found
  next ok =>
    have read := (Disk.read_ok d 0 1 _ ok).2
    have sector : SameSector (d.read 0 1 fun _ => 0).2.1 d.bytes := fun i inside => by
      rw [read, splice_inside _ _ (Nat.zero_le i) (by omega), window, Nat.zero_mul, Nat.zero_add,
        Nat.sub_zero]
    refine ⟨?_, fun i bound => ?_⟩
    · rw [← sector.signed]
      simp only [parseTable] at found
      split at found
      · cases found
      next mark => simpa using mark
    · have range : i < (List.range mbrPartMax).length := by rwa [List.length_range]
      rw [parseTable_entries found, List.getD_eq_getElem?_getD, List.getElem?_map,
        List.getElem?_eq_getElem range, List.getElem_range, Option.map_some, Option.getD_some]
      exact sector.entry bound

theorem tableOn_length {d : Disk} {table : List MbrPart} (found : tableOn d = some table) :
    table.length = mbrPartMax := by
  simp only [tableOn] at found
  split at found
  · cases found
  · rw [parseTable_entries found, List.length_map, List.length_range]

end Editors

theorem noTable_getD (i : Nat) : noTable.getD i .empty = .empty := by
  rw [noTable, List.getD_eq_getElem?_getD, List.getElem?_replicate]
  split <;> rfl

/-- The three editors of a table. -/
inductive MbrEdit where
  | create (slot : Nat) (type : UInt8) (start sectors : Nat) (active : Bool)
  | delete (slot : Nat)
  | setActive (slot : Nat)

namespace MbrEdit

def run (blob : MbrBlob) (id : Nat) : MbrEdit → Blk → Int × Blk
  | .create slot type start sectors active =>
    mbrCreatePartition blob id slot type start sectors active
  | .delete slot => mbrDeletePartition blob id slot
  | .setActive slot => mbrSetActive blob id slot

def slot : MbrEdit → Nat
  | .create slot .. => slot
  | .delete slot => slot
  | .setActive slot => slot

/-- The table that the editor hands to mbr_write. -/
def table (found : List MbrPart) : MbrEdit → List MbrPart
  | .create slot type start sectors active => found.mapIdx fun i e =>
      if i = slot then ⟨if active then 0x80 else 0, type, start, sectors⟩
      else if active then { e with boot := 0 } else e
  | .delete slot => found.set slot .empty
  | .setActive slot => found.mapIdx fun i e => { e with boot := if i = slot then 0x80 else 0 }

/-- mbr_create_partition takes a table that mbr_read refuses for an empty one. -/
def Creates : MbrEdit → Prop
  | .create .. => True
  | _ => False

/-- The other entries that are not empty keep their type and span, and the boot
code stays. -/
structure Preserves (edit : MbrEdit) (before after : Buffer) : Prop where
  entries : ∀ i, i < mbrPartMax → i ≠ edit.slot → (MbrPart.ofSector before i).type ≠ 0 →
    (MbrPart.ofSector after i).type = (MbrPart.ofSector before i).type ∧
      (MbrPart.ofSector after i).startLba = (MbrPart.ofSector before i).startLba ∧
      (MbrPart.ofSector after i).sectors = (MbrPart.ofSector before i).sectors
  code : ∀ a, a < 0x1BE → after a = before a

/-- No other entry has a type but no sectors; and if there is another entry with
a type, mbr_create_partition can read the table and mbr_read accepts it. -/
def KeepsOthers (edit : MbrEdit) (d : Disk) : Prop :=
  ∀ i, i < mbrPartMax → i ≠ edit.slot → (MbrPart.ofSector d.bytes i).type ≠ 0 →
    (MbrPart.ofSector d.bytes i).sectors ≠ 0 ∧
      (edit.Creates → d.answer ⟨false, 0, 1⟩ = .ok ∧ (parseTable d.bytes).isSome = true)

theorem table_other (edit : MbrEdit) (found : List MbrPart) {i : Nat} (other : i ≠ edit.slot) :
    ((edit.table found).getD i .empty).type = (found.getD i .empty).type ∧
      ((edit.table found).getD i .empty).startLba = (found.getD i .empty).startLba ∧
      ((edit.table found).getD i .empty).sectors = (found.getD i .empty).sectors := by
  cases edit with
  | create slot type start sectors active =>
      have other : i ≠ slot := other
      simp only [table, List.getD_eq_getElem?_getD, List.getElem?_mapIdx]
      cases found[i]? with
      | none => exact ⟨rfl, rfl, rfl⟩
      | some e =>
          simp only [Option.map_some, Option.getD_some, if_neg other]
          split <;> exact ⟨rfl, rfl, rfl⟩
  | delete slot =>
      have other : slot ≠ i := Ne.symm other
      simp only [table, List.getD_eq_getElem?_getD, List.getElem?_set_ne other, and_self]
  | setActive slot =>
      simp only [table, List.getD_eq_getElem?_getD, List.getElem?_mapIdx]
      cases found[i]? with
      | none => exact ⟨rfl, rfl, rfl⟩
      | some e => exact ⟨rfl, rfl, rfl⟩

/-- An editor gives up, or passes an edited table to mbr_write. -/
theorem run_reads (blob : MbrBlob) (id : Nat) (b : Blk) (edit : MbrEdit) :
    ((edit.run blob id b).1 ≠ 0 ∧
        ((edit.run blob id b).2 = b ∨ (edit.run blob id b).2 = (mbrRead id b).2)) ∨
      ∃ found, edit.run blob id b = mbrWrite blob id (edit.table found) (mbrRead id b).2 ∧
        ((mbrRead id b).1 = some found ∨ edit.Creates ∧ (mbrRead id b).1 = none ∧ found = noTable) := by
  have failed : (-1 : Int) ≠ 0 := by decide
  cases edit with
  | create slot type start sectors active =>
      simp only [run, mbrCreatePartition]
      split
      · exact .inl ⟨failed, .inl rfl⟩
      · split
        · exact .inl ⟨show (-2 : Int) ≠ 0 by decide, .inr rfl⟩
        · refine .inr ⟨_, rfl, ?_⟩
          cases (mbrRead id b).1 with
          | none => exact .inr ⟨trivial, rfl, rfl⟩
          | some found => exact .inl rfl
  | delete slot =>
      simp only [run, mbrDeletePartition]
      split
      · exact .inl ⟨failed, .inl rfl⟩
      · cases (mbrRead id b).1 with
        | none => exact .inl ⟨failed, .inr rfl⟩
        | some found => exact .inr ⟨found, rfl, .inl rfl⟩
  | setActive slot =>
      simp only [run, mbrSetActive]
      split
      · exact .inl ⟨failed, .inl rfl⟩
      · cases (mbrRead id b).1 with
        | none => exact .inl ⟨failed, .inr rfl⟩
        | some found =>
            simp only
            split
            · exact .inl ⟨failed, .inr rfl⟩
            · exact .inr ⟨found, rfl, .inl rfl⟩

theorem run_cases (blob : MbrBlob) {id : Nat} (raw : id < diskRawMax) (b : Blk) (edit : MbrEdit) :
    ((edit.run blob id b).1 ≠ 0 ∧
        ((edit.run blob id b).2 = b ∨ (edit.run blob id b).2 = (mbrRead id b).2)) ∨
      ∃ found, edit.run blob id b = mbrWrite blob id (edit.table found) (mbrRead id b).2 ∧
        (tableOn (b.raws id) = some found ∨
          edit.Creates ∧ tableOn (b.raws id) = none ∧ found = noTable) := by
  rw [← mbrRead_raw raw b]
  exact edit.run_reads blob id b

end MbrEdit

theorem tableOn_isSome {d : Disk} (present : d.present = true) : (tableOn d).isSome = true ↔
    d.answer ⟨false, 0, 1⟩ = .ok ∧ (parseTable d.bytes).isSome = true := by
  cases answer : d.answer ⟨false, 0, 1⟩ with
  | ok => rw [tableOn_answer present answer, and_iff_right rfl]
  | fail n =>
      have fails : (d.read 0 1 fun _ => 0).1 < 0 := by
        simp only [Disk.read, present, if_true, answer, Disk.rc]
        decide
      simp only [tableOn, if_pos fails, Option.isSome_none, Bool.false_eq_true, reduceCtorEq,
        false_and]

theorem mbrWrite_present {blob : MbrBlob} {id : Nat} (raw : id < diskRawMax) {table : List MbrPart}
    {b : Blk} (done : (mbrWrite blob id table b).1 = 0) : (b.raws id).present = true := by
  by_contra absent
  have read : (b.read id 0 1 fun _ => 0).1 < 0 := by
    simp only [Blk.read, Blk.request, if_pos raw, if_neg absent]
    decide
  simp only [mbrWrite, if_pos read] at done
  exact absurd done (show (-1 : Int) ≠ 0 by decide)

/-- On a signed sector, an editor that returns 0 preserves the other entries
exactly when each of them has sectors and, for mbr_create_partition, is read. -/
theorem edit_preserves_iff {blob : MbrBlob} {id : Nat} (raw : id < diskRawMax) {b : Blk}
    {edit : MbrEdit} (mark : signed (b.raws id).bytes = true) (done : (edit.run blob id b).1 = 0) :
    edit.Preserves (b.raws id).bytes ((edit.run blob id b).2.raws id).bytes ↔
      edit.KeepsOthers (b.raws id) := by
  obtain ⟨found, run, origin⟩ := (edit.run_cases blob raw b).resolve_left fun fails => fails.1 done
  have same := mbrRead_same id b id
  rw [run] at done ⊢
  have present := mbrWrite_present raw done
  rw [same.present] at present
  obtain ⟨sec, base, after⟩ := (mbrWrite_cases raw (edit.table found) (mbrRead id b).2).resolve_right
    fun fails => fails.1 done
  have base : SameSector sec (b.raws id).bytes := by
    have marked := base.1
    rw [same.bytes] at marked
    exact marked mark
  have entry {i : Nat} (bound : i < mbrPartMax) :
      MbrPart.ofSector ((mbrWrite blob id (edit.table found) (mbrRead id b).2).2.raws id).bytes i =
        ((edit.table found).getD i .empty).stored := by
    rw [after.entry bound, putTable_entry sec _ bound]
  constructor
  · intro preserves i bound other some
    obtain ⟨type, -, -⟩ := preserves.entries i bound other some
    obtain ⟨kept, -, count⟩ := edit.table_other found other
    rw [entry bound] at type
    have used : ((edit.table found).getD i .empty).Used := by
      by_contra unused
      rw [MbrPart.stored_unused unused] at type
      exact some type.symm
    rw [MbrPart.Used, not_or, kept, count] at used
    rcases origin with read | ⟨-, -, rfl⟩
    · rw [(tableOn_sector read).2 i bound] at used
      exact ⟨used.2, fun _ => (tableOn_isSome present).1 (by rw [read]; rfl)⟩
    · rw [noTable_getD] at used
      exact absurd rfl used.1
  · intro keeps
    refine ⟨fun i bound other some => ?_, fun a code => ?_⟩
    · obtain ⟨count, creates⟩ := keeps i bound other some
      have read : tableOn (b.raws id) = Option.some found := by
        rcases origin with read | ⟨create, none, -⟩
        · exact read
        · have listed := (tableOn_isSome present).2 (creates create)
          rw [none] at listed
          cases listed
      obtain ⟨sameType, sameStart, sameCount⟩ := edit.table_other found other
      rw [(tableOn_sector read).2 i bound] at sameType sameStart sameCount
      rw [entry bound, MbrPart.stored_used (by
        rw [MbrPart.Used, not_or, sameType, sameCount]
        exact ⟨some, count⟩)]
      refine ⟨sameType, ?_, ?_⟩
      · rw [sameStart]
        exact u32_of_lt (readLe32_lt _ _)
      · rw [sameCount]
        exact u32_of_lt (readLe32_lt _ _)
    · have inside : a < sectorSize := by
        simp only [sectorSize]
        omega
      rw [after a inside, putTable_code sec _ code, base a inside]

/-- Deleting the second of two partitions. -/
theorem delete_keeps_first : (MbrEdit.delete 1).Preserves
    (putTable (fun _ => 0) [⟨0, 0x0E, 100, 40⟩, ⟨0, 0x0E, 300, 40⟩])
    (((MbrEdit.delete 1).run ⟨fun _ => 0, 512⟩ 0
      (tabled [⟨0, 0x0E, 100, 40⟩, ⟨0, 0x0E, 300, 40⟩])).2.raws 0).bytes :=
  (edit_preserves_iff (b := tabled [⟨0, 0x0E, 100, 40⟩, ⟨0, 0x0E, 300, 40⟩]) (by decide)
    (by decide +kernel) (by decide +kernel)).2 (by
      intro i bound other some
      exact ⟨by revert other some; revert i; decide +kernel, False.elim⟩)

/-- A table with one boot flag of 0x01: mbr_read refuses it, and creating a
partition in slot 2 drops the partition in slot 0. -/
theorem create_drops_first :
    let sec := poke (putTable (fun _ => 0) [⟨0, 0x0E, 100, 40⟩, ⟨0, 0x0E, 300, 40⟩]) 0x1CE [1]
    let b : Blk := ⟨fun _ => .image 4096 sec, Slots.clear⟩
    let r := (MbrEdit.create 2 0x0E 500 40 false).run ⟨fun _ => 0, 512⟩ 0 b
    signed sec = true ∧ r.1 = 0 ∧ ¬ (MbrEdit.create 2 0x0E 500 40 false).Preserves sec (r.2.raws 0).bytes := by
  refine ⟨by decide +kernel, by decide +kernel, fun preserves => ?_⟩
  have type := (preserves.entries 0 (by decide) (by decide) (by decide +kernel)).1
  exact absurd type (by decide +kernel)

end Zenbite
