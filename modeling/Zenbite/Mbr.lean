import Mathlib.Data.List.FinRange
import Zenbite.Blk
import Zenbite.Lib.Slots

/-! Partition tables (mbr.c): sector 0 of a raw disk, its editors, and the scan
that registers a view for every entry. -/

namespace Zenbite

open Memory

def mbrPartMax : Nat := 4

structure MbrPart where
  boot : UInt8
  type : UInt8
  startLba : Nat
  sectors : Nat
  deriving DecidableEq, Repr

/-- `mbr_blob`, made by the build from the chainloader, and `mbr_blob_size`. -/
structure MbrBlob where
  bytes : Buffer
  size : Nat

namespace MbrPart

def empty : MbrPart := ⟨0, 0, 0, 0⟩

/-- An entry that mbr_scan_all and mbr_write do not skip. -/
def Used (e : MbrPart) : Prop := ¬ (e.type = 0 ∨ e.sectors = 0)

instance (e : MbrPart) : Decidable e.Used := inferInstanceAs (Decidable (¬ _))

/-- Entry `i` of the table in sector 0. -/
def ofSector (sec : Buffer) (i : Nat) : MbrPart where
  boot := sec (0x1BE + i * 16)
  type := sec (0x1BE + i * 16 + 4)
  startLba := readLe32 sec (0x1BE + i * 16 + 8)
  sectors := readLe32 sec (0x1BE + i * 16 + 12)

/-- The 16 bytes that mbr_write stores. -/
def toBytes (e : MbrPart) : List UInt8 :=
  if e.Used then
    [if e.boot ≠ 0 then 0x80 else 0, 0xFE, 0xFF, 0xFF, e.type, 0xFE, 0xFF, 0xFF] ++
      bytesOf e.startLba 4 ++ bytesOf e.sectors 4
  else List.replicate 16 0

end MbrPart

def signed (sec : Buffer) : Bool := sec 510 == 0x55 && sec 511 == 0xAA

/-- The tests of mbr_read on sector 0. -/
def parseTable (sec : Buffer) : Option (List MbrPart) :=
  let table := (List.range mbrPartMax).map (MbrPart.ofSector sec)
  if signed sec = false then none
  else if table.any fun e => e.boot != 0 && e.boot != 0x80 then none
  else if table.any fun e => e.type != 0 && e.sectors != 0 && decide (1 ≤ e.startLba) then some table
  else none

def putTable (sec : Buffer) (table : List MbrPart) : Buffer :=
  let put := (List.range mbrPartMax).foldl
    (fun sec i => poke sec (0x1BE + i * 16) (table.getD i .empty).toBytes) sec
  poke put 510 [0x55, 0xAA]

def mbrRead (id : Nat) (b : Blk) : Option (List MbrPart) × Blk :=
  let r := b.read id 0 1 fun _ => 0
  (if r.1 < 0 then none else parseTable r.2.1, r.2.2)

def mbrWrite (blob : MbrBlob) (id : Nat) (table : List MbrPart) (b : Blk) : Int × Blk :=
  let r := b.read id 0 1 fun _ => 0
  if r.1 < 0 then (-1, r.2.2)
  else if signed r.2.1 then r.2.2.write id 0 1 (putTable r.2.1 table)
  else if blob.size ≠ 512 then (-1, r.2.2)
  else r.2.2.write id 0 1 (putTable blob.bytes table)

def noTable : List MbrPart := List.replicate mbrPartMax .empty

def mbrInitDisk (blob : MbrBlob) (id : Nat) (b : Blk) : Int × Blk :=
  if blob.size ≠ 512 then (-1, b)
  else
    let w := b.write id 0 1 (poke blob.bytes 510 [0x55, 0xAA])
    if w.1 < 0 then (-1, w.2) else mbrWrite blob id noTable w.2

def mbrCreatePartition (blob : MbrBlob) (id slot : Nat) (type : UInt8) (start sectors : Nat)
    (active : Bool) (b : Blk) : Int × Blk :=
  if mbrPartMax ≤ slot then (-1, b)
  else
    let r := mbrRead id b
    let table := r.1.getD noTable
    if (table.getD slot .empty).type ≠ 0 then (-2, r.2)
    else
      mbrWrite blob id (table.mapIdx fun i e =>
        if i = slot then ⟨if active then 0x80 else 0, type, start, sectors⟩
        else if active then { e with boot := 0 } else e) r.2

def mbrDeletePartition (blob : MbrBlob) (id slot : Nat) (b : Blk) : Int × Blk :=
  if mbrPartMax ≤ slot then (-1, b)
  else
    let r := mbrRead id b
    match r.1 with
    | none => (-1, r.2)
    | some table => mbrWrite blob id (table.set slot .empty) r.2

def mbrSetActive (blob : MbrBlob) (id slot : Nat) (b : Blk) : Int × Blk :=
  if mbrPartMax ≤ slot then (-1, b)
  else
    let r := mbrRead id b
    match r.1 with
    | none => (-1, r.2)
    | some table =>
      if (table.getD slot .empty).type = 0 then (-1, r.2)
      else mbrWrite blob id (table.mapIdx fun i e => { e with boot := if i = slot then 0x80 else 0 }) r.2

def mbrHasTable (id : Nat) (b : Blk) : Bool × Blk :=
  let r := mbrRead id b
  (r.1.isSome, r.2)

/-- register_view without the search for a slot; the sum wraps. -/
def viewOf (parent : Fin diskRawMax) (d : Disk) (idx : Nat) (src : MbrPart) : Option Part :=
  if d.present = false ∨ src.startLba = 0 ∨ d.sectors ≤ src.startLba ∨ src.sectors = 0 ∨
      d.sectors < u32 (src.startLba + src.sectors) then none
  else some ⟨parent, idx, src.startLba, src.sectors, src.type, src.boot⟩

def registerView (parent : Fin diskRawMax) (b : Blk) (e : MbrPart × Nat) : Blk :=
  match viewOf parent (b.raws parent) e.2 e.1 with
  | none => b
  | some p => b.setViews (Slots.register partSlotMax b.views p)

/-- One round of the outer loop of mbr_scan_all. -/
def scanDisk (b : Blk) (parent : Fin diskRawMax) : Blk :=
  if (b.raws parent).present = false ∨ (b.raws parent).sectors < 2048 then b
  else
    let r := mbrRead parent b
    match r.1 with
    | none => r.2
    | some table =>
      (table.zipIdx.filter fun e => decide e.1.Used).foldl (registerView parent) r.2

def mbrScanAll (b : Blk) : Blk :=
  (List.finRange diskRawMax).foldl scanDisk (b.setViews Slots.clear)

/-- The view slot of a partition. -/
def mbrViewFor (parent idx : Nat) (b : Blk) : Option Nat :=
  ((List.range partSlotMax).find? fun i =>
    (b.views i).any fun p => p.parent.val == parent && p.idx == idx).map (partSlotBase + ·)

/-! The largest gap of a disk: spans `[start, end)` sorted by start, then walked. -/

/-- One round of the insertion sort: behind the spans that start no later. -/
def insertSpan (sorted : List (Nat × Nat)) (span : Nat × Nat) : List (Nat × Nat) :=
  match sorted with
  | [] => [span]
  | s :: rest => if span.1 < s.1 then span :: s :: rest else s :: insertSpan rest span

/-- `cursor`, `best_start`, `best_count`. -/
structure Gap where
  cursor : Nat
  start : Nat
  count : Nat

def Gap.upTo (g : Gap) (n : Nat) : Gap :=
  if g.cursor < n ∧ g.count < n - g.cursor then { g with start := g.cursor, count := n - g.cursor }
  else g

def Gap.walk (g : Gap) (span : Nat × Nat) : Gap :=
  { g.upTo span.1 with cursor := max g.cursor span.2 }

/-- Start and length of the largest gap; `none` for -1. -/
def mbrLargestFree (id : Nat) (b : Blk) : Option (Nat × Nat) × Blk :=
  if b.present id = false then (none, b)
  else
    let r := mbrRead id b
    let sectors := (b.raws id).sectors
    match r.1 with
    | none => (if 2048 < sectors then some (2048, sectors - 2048) else none, r.2)
    | some table =>
      let spans := (0, 2048) :: (table.filter fun e => decide e.Used).map fun e =>
        (e.startLba, u32 (e.startLba + e.sectors))
      let best := ((spans.foldl insertSpan []).foldl Gap.walk ⟨0, 0, 0⟩).upTo sectors
      (if 0 < best.count then some (best.start, best.count) else none, r.2)

def mbrSuggestType (sectors : Nat) : UInt8 := if sectors < 512 * 1024 * 2 then 0x0E else 0x0C

/-! What a scan registers. -/

/-- What mbr_read finds on a raw disk. -/
def tableOn (d : Disk) : Option (List MbrPart) :=
  if (d.read 0 1 fun _ => 0).1 < 0 then none else parseTable (d.read 0 1 fun _ => 0).2.1

def foundOn (parent : Fin diskRawMax) (d : Disk) : List Part :=
  if d.present = false ∨ d.sectors < 2048 then []
  else ((tableOn d).getD []).zipIdx.filter (fun e => decide e.1.Used) |>.filterMap fun e =>
    viewOf parent d e.2 e.1

/-- The partitions of all raw disks, in the order of the scan. -/
def foundParts (b : Blk) : List Part :=
  (List.finRange diskRawMax).flatMap fun parent => foundOn parent (b.raws parent)

theorem mbrRead_views (id : Nat) (b : Blk) : (mbrRead id b).2.views = b.views :=
  b.read_views id 0 1 _

theorem mbrRead_same (id : Nat) (b : Blk) (raw : Nat) :
    (b.raws raw).Same ((mbrRead id b).2.raws raw) :=
  b.read_same id 0 1 _ raw

theorem mbrRead_table (parent : Fin diskRawMax) (b : Blk) :
    (mbrRead parent b).1 = tableOn (b.raws parent) := by
  simp only [mbrRead, tableOn]
  by_cases present : (b.raws parent).present = true
  · rw [Blk.read_raw parent.isLt present]
  · have absent : (b.raws parent).read 0 1 (fun _ => 0) = (-1, fun _ => 0, b.raws parent) :=
      if_neg present
    have nothing : b.read parent 0 1 (fun _ => 0) = (-1, fun _ => 0, b) := by
      simp only [Blk.read, Blk.request, if_pos parent.isLt, if_neg present]
    rw [absent, nothing]

theorem mbrRead_elsewhere (parent : Nat) (raw : parent < diskRawMax) (b : Blk) {other : Nat}
    (apart : other ≠ parent) : (mbrRead parent b).2.raws other = b.raws other := by
  simp only [mbrRead, Blk.read, Blk.request, if_pos raw]
  split
  · rfl
  next hit =>
    split at hit
    · obtain ⟨rfl, -⟩ := Prod.mk.inj (Option.some.inj hit)
      exact Blk.setRaw_ne b _ apart
    · exact absurd hit (by simp)

theorem viewOf_same (parent : Fin diskRawMax) {d e : Disk} (same : d.Same e) (idx : Nat)
    (src : MbrPart) : viewOf parent e idx src = viewOf parent d idx src := by
  simp only [viewOf, same.present, same.sectors]

theorem foldl_registerView (parent : Fin diskRawMax) (entries : List (MbrPart × Nat)) (b : Blk) :
    entries.foldl (registerView parent) b = b.setViews
      ((entries.filterMap fun e => viewOf parent (b.raws parent) e.2 e.1).foldl
        (Slots.register partSlotMax) b.views) := by
  induction entries generalizing b with
  | nil => rfl
  | cons e entries ih =>
      rw [List.foldl_cons, ih, List.filterMap_cons, registerView]
      cases view : viewOf parent (b.raws parent) e.2 e.1 with
      | none => rfl
      | some p => rfl

theorem scanDisk_views (b : Blk) (parent : Fin diskRawMax) {l : List Part}
    (holds : Slots.Holds partSlotMax b.views l) :
    Slots.Holds partSlotMax (scanDisk b parent).views (l ++ foundOn parent (b.raws parent)) := by
  simp only [scanDisk, foundOn]
  split
  · rwa [List.append_nil]
  · rw [← mbrRead_table]
    cases table : (mbrRead parent b).1 with
    | none =>
        rw [Option.getD_none, List.zipIdx_nil, List.filter_nil, List.filterMap_nil, List.append_nil,
          mbrRead_views]
        exact holds
    | some entries =>
        simp only [foldl_registerView, Option.getD_some, mbrRead_views,
          viewOf_same parent (mbrRead_same parent b parent)]
        exact Slots.foldl_register_holds _ holds

theorem scanDisk_same (b : Blk) (parent : Fin diskRawMax) (raw : Nat) :
    (b.raws raw).Same ((scanDisk b parent).raws raw) := by
  simp only [scanDisk]
  split
  · exact .refl _
  · split
    · exact mbrRead_same parent b raw
    · rw [foldl_registerView]
      exact mbrRead_same parent b raw

theorem scanDisk_elsewhere (b : Blk) (parent : Fin diskRawMax) {other : Nat}
    (apart : other ≠ parent) : (scanDisk b parent).raws other = b.raws other := by
  simp only [scanDisk]
  split
  · rfl
  · split
    · exact mbrRead_elsewhere parent parent.isLt b apart
    · rw [foldl_registerView]
      exact mbrRead_elsewhere parent parent.isLt b apart

theorem foldl_scanDisk_views (parents : List (Fin diskRawMax)) (distinct : parents.Nodup) :
    ∀ {b : Blk} {l : List Part}, Slots.Holds partSlotMax b.views l →
      Slots.Holds partSlotMax (parents.foldl scanDisk b).views
        (l ++ parents.flatMap fun parent => foundOn parent (b.raws parent)) := by
  induction parents with
  | nil =>
      intro b l holds
      rwa [List.flatMap_nil, List.append_nil]
  | cons parent parents ih =>
      intro b l holds
      obtain ⟨fresh, distinct⟩ := List.nodup_cons.mp distinct
      have rest := ih distinct (scanDisk_views b parent holds)
      have untouched : (parents.flatMap fun p => foundOn p ((scanDisk b parent).raws p)) =
          parents.flatMap fun p => foundOn p (b.raws p) :=
        List.flatMap_congr fun p member => by
          rw [scanDisk_elsewhere b parent fun same => fresh (Fin.ext same ▸ member)]
      rw [List.foldl_cons, List.flatMap_cons, ← List.append_assoc, ← untouched]
      exact rest

/-- The scan fills the view slots with the partitions it finds, in order. -/
theorem mbrScanAll_views (b : Blk) : Slots.Holds partSlotMax (mbrScanAll b).views (foundParts b) :=
  foldl_scanDisk_views _ (List.nodup_finRange _) (b := b.setViews Slots.clear)
    (Slots.holds_clear _)

theorem mbrScanAll_same (b : Blk) (raw : Nat) : (b.raws raw).Same ((mbrScanAll b).raws raw) := by
  have fold (parents : List (Fin diskRawMax)) (c : Blk) :
      (c.raws raw).Same ((parents.foldl scanDisk c).raws raw) := by
    induction parents generalizing c with
    | nil => exact .refl _
    | cons parent parents ih => exact (scanDisk_same c parent raw).trans (ih _)
  exact fold _ (b.setViews Slots.clear)

/-! The editors go through disk_read and disk_write on one raw disk. -/

/-- `c` is `b` after requests on raw disk `id`. -/
structure Blk.Touches (id : Nat) (b c : Blk) : Prop where
  views : c.views = b.views
  others : ∀ raw, raw ≠ id → c.raws raw = b.raws raw
  sectors : ∀ raw, (c.raws raw).sectors = (b.raws raw).sectors

namespace Blk.Touches
variable {id : Nat} {b c d : Blk}

theorem refl (id : Nat) (b : Blk) : b.Touches id b := ⟨rfl, fun _ _ => rfl, fun _ => rfl⟩

theorem trans (first : b.Touches id c) (second : c.Touches id d) : b.Touches id d :=
  ⟨second.views.trans first.views, fun raw other =>
    (second.others raw other).trans (first.others raw other),
    fun raw => (second.sectors raw).trans (first.sectors raw)⟩

theorem setRaw {x : Disk} (size : x.sectors = (b.raws id).sectors) : b.Touches id (b.setRaw id x) := by
  refine ⟨rfl, fun raw other => setRaw_ne b x other, fun raw => ?_⟩
  by_cases here : raw = id
  · rw [here, setRaw_here, size]
  · rw [setRaw_ne b x here]

end Blk.Touches

section Touches
variable {id : Nat} (raw : id < diskRawMax) (blob : MbrBlob) (b : Blk)

theorem Blk.read_touches (raw : id < diskRawMax) (b : Blk) (lba count : Nat) (buf : Buffer) :
    b.Touches id (b.read id lba count buf).2.2 := by
  simp only [Blk.read, Blk.request, if_pos raw]
  by_cases present : (b.raws id).present = true
  · rw [if_pos present]
    exact .setRaw (Disk.read_same _ _ _ _).sectors
  · rw [if_neg present]
    exact .refl id b

theorem Blk.write_touches (raw : id < diskRawMax) (b : Blk) (lba count : Nat) (buf : Buffer) :
    b.Touches id (b.write id lba count buf).2 := by
  simp only [Blk.write, Blk.request, if_pos raw]
  by_cases present : (b.raws id).present = true
  · rw [if_pos present]
    exact .setRaw (Disk.write_keeps _ _ _ _).2.1
  · rw [if_neg present]
    exact .refl id b

include raw

theorem mbrRead_touches : b.Touches id (mbrRead id b).2 := b.read_touches raw 0 1 _

theorem mbrWrite_touches (table : List MbrPart) : b.Touches id (mbrWrite blob id table b).2 := by
  have read := b.read_touches raw 0 1 fun _ => 0
  simp only [mbrWrite]
  split
  · exact read
  · split
    · exact read.trans (Blk.write_touches raw _ _ _ _)
    · split
      · exact read
      · exact read.trans (Blk.write_touches raw _ _ _ _)

theorem mbrInitDisk_touches : b.Touches id (mbrInitDisk blob id b).2 := by
  have write := b.write_touches raw 0 1 (poke blob.bytes 510 [0x55, 0xAA])
  simp only [mbrInitDisk]
  split
  · exact .refl id b
  · split
    · exact write
    · exact write.trans (mbrWrite_touches raw blob _ noTable)

theorem mbrCreatePartition_touches (slot : Nat) (type : UInt8) (start sectors : Nat) (active : Bool) :
    b.Touches id (mbrCreatePartition blob id slot type start sectors active b).2 := by
  have read := mbrRead_touches raw b
  simp only [mbrCreatePartition]
  split
  · exact .refl id b
  · split
    · exact read
    · exact read.trans (mbrWrite_touches raw blob _ _)

theorem mbrDeletePartition_touches (slot : Nat) :
    b.Touches id (mbrDeletePartition blob id slot b).2 := by
  have read := mbrRead_touches raw b
  simp only [mbrDeletePartition]
  split
  · exact .refl id b
  · split
    · exact read
    · exact read.trans (mbrWrite_touches raw blob _ _)

theorem mbrSetActive_touches (slot : Nat) : b.Touches id (mbrSetActive blob id slot b).2 := by
  have read := mbrRead_touches raw b
  simp only [mbrSetActive]
  split
  · exact .refl id b
  · split
    · exact read
    · split
      · exact read
      · exact read.trans (mbrWrite_touches raw blob _ _)

theorem mbrLargestFree_touches : b.Touches id (mbrLargestFree id b).2 := by
  simp only [mbrLargestFree]
  split
  · exact .refl id b
  · split <;> exact mbrRead_touches raw b

end Touches

/-- A table on the disk, whatever its driver answers. -/
def Disk.HasTable (d : Disk) : Prop := (parseTable d.bytes).isSome = true

theorem parseTable_congr {a b : Buffer} (agree : ∀ i, i < sectorSize → a i = b i) :
    parseTable a = parseTable b := by
  have entries : (List.range mbrPartMax).map (MbrPart.ofSector a) =
      (List.range mbrPartMax).map (MbrPart.ofSector b) := by
    apply List.map_congr_left
    intro i member
    have bound : i < 4 := List.mem_range.mp member
    simp only [MbrPart.ofSector]
    rw [agree _ (by simp only [sectorSize]; omega), agree _ (by simp only [sectorSize]; omega),
      readLe32_congr fun k _ => agree _ (by simp only [sectorSize]; omega),
      readLe32_congr fun k _ => agree _ (by simp only [sectorSize]; omega)]
  have mark : signed a = signed b := by
    rw [signed, signed, agree 510 (by decide), agree 511 (by decide)]
  rw [parseTable, parseTable, entries, mark]

/-- A sector read that succeeds shows the table. -/
theorem tableOn_answer {d : Disk} (present : d.present = true)
    (ok : d.answer ⟨false, 0, 1⟩ = .ok) : tableOn d = parseTable d.bytes := by
  have read : ¬ (d.read 0 1 fun _ => 0).1 < 0 := by
    simp only [Disk.read, present, if_true, ok, Disk.rc]
    exact lt_irrefl 0
  rw [tableOn, if_neg read, (Disk.read_ok d 0 1 _ read).2]
  apply parseTable_congr
  intro i inside
  rw [splice_inside _ _ (Nat.zero_le i) (by omega), window, Nat.zero_mul, Nat.zero_add, Nat.sub_zero]

end Zenbite
