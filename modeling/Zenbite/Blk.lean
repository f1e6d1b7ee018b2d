import Zenbite.Disk

/-! The block-device table (disk.c) with the partition views of mbr.c on top:
raw disks in slots 0..15, views that add an offset in slots 16..31. -/

namespace Zenbite

open Memory

def diskRawMax : Nat := 16
def partSlotBase : Nat := 16
def partSlotMax : Nat := 16
def diskMax : Nat := 32

instance : NeZero diskRawMax := ⟨by decide⟩

/-- `struct part_priv`. Only raw disks are scanned for partitions. -/
structure Part where
  parent : Fin diskRawMax
  idx : Nat
  offset : Nat
  sectors : Nat
  type : UInt8
  boot : UInt8
  deriving DecidableEq

/-- `disks[]` and `g_parts[]`. Every driver sets both `read` and `write`. -/
structure Blk where
  raws : Nat → Disk
  views : Nat → Option Part

namespace Part

/-- The test of part_read and part_write; the sum wraps. -/
def Admits (p : Part) (a : Access) : Prop := u32 (a.lba + a.count) ≤ p.sectors

instance (p : Part) (a : Access) : Decidable (p.Admits a) := inferInstanceAs (Decidable (_ ≤ _))

/-- The request on the parent. -/
def shift (p : Part) (a : Access) : Access := { a with lba := u32 (p.offset + a.lba) }

end Part

namespace Blk

def setRaw (b : Blk) (id : Nat) (d : Disk) : Blk := { b with raws := Function.update b.raws id d }

def setViews (b : Blk) (views : Nat → Option Part) : Blk := { b with views := views }

/-- `disk_get(id)` with `present` set. -/
def present (b : Blk) (id : Nat) : Bool :=
  if id < diskRawMax then (b.raws id).present
  else decide (id < diskMax) && (b.views (id - partSlotBase)).isSome

/-- Where disk_read and disk_write send a request: raw disk and sector there. -/
def request (b : Blk) (id : Nat) (a : Access) : Option (Nat × Access) :=
  if id < diskRawMax then if (b.raws id).present then some (id, a) else none
  else if id < diskMax then
    match b.views (id - partSlotBase) with
    | none => none
    | some p =>
      if p.Admits a ∧ (b.raws p.parent.val).present = true then
        some (p.parent.val, p.shift a)
      else none
  else none

def read (b : Blk) (id lba count : Nat) (buf : Buffer) : Int × Buffer × Blk :=
  match b.request id ⟨false, lba, count⟩ with
  | none => (-1, buf, b)
  | some (raw, a) =>
    let r := (b.raws raw).read a.lba a.count buf
    (r.1, r.2.1, b.setRaw raw r.2.2)

def write (b : Blk) (id lba count : Nat) (buf : Buffer) : Int × Blk :=
  match b.request id ⟨true, lba, count⟩ with
  | none => (-1, b)
  | some (raw, a) =>
    let r := (b.raws raw).write a.lba a.count buf
    (r.1, b.setRaw raw r.2)

theorem read_views (b : Blk) (id lba count : Nat) (buf : Buffer) :
    (b.read id lba count buf).2.2.views = b.views := by
  simp only [read]
  split <;> rfl

theorem write_views (b : Blk) (id lba count : Nat) (buf : Buffer) :
    (b.write id lba count buf).2.views = b.views := by
  simp only [write]
  split <;> rfl

@[simp] theorem setRaw_here (b : Blk) (id : Nat) (d : Disk) : (b.setRaw id d).raws id = d :=
  Function.update_self _ _ _

theorem setRaw_ne (b : Blk) {id raw : Nat} (d : Disk) (other : id ≠ raw) :
    (b.setRaw raw d).raws id = b.raws id :=
  Function.update_of_ne other _ _

theorem setRaw_same {b : Blk} {raw : Nat} {d : Disk} (same : (b.raws raw).Same d) (id : Nat) :
    (b.raws id).Same ((b.setRaw raw d).raws id) := by
  by_cases here : id = raw
  · subst here
    rw [setRaw_here]
    exact same
  · rw [setRaw_ne b d here]
    exact .refl _

/-- Reading through any slot changes no raw disk but its history. -/
theorem read_same (b : Blk) (id lba count : Nat) (buf : Buffer) (raw : Nat) :
    (b.raws raw).Same ((b.read id lba count buf).2.2.raws raw) := by
  simp only [read]
  split
  · exact .refl _
  · exact setRaw_same (Disk.read_same _ _ _ _) raw

theorem read_raw {b : Blk} {id : Nat} (raw : id < diskRawMax) (present : (b.raws id).present = true)
    (lba count : Nat) (buf : Buffer) : b.read id lba count buf =
      (((b.raws id).read lba count buf).1, ((b.raws id).read lba count buf).2.1,
        b.setRaw id ((b.raws id).read lba count buf).2.2) := by
  simp only [read, request, if_pos raw, if_pos present]

end Blk

/-- A disk id and the table behind it: what a mounted volume works on. -/
structure BlkDev where
  blk : Blk
  id : Nat

namespace BlkDev

def read (d : BlkDev) (lba count : Nat) (buf : Buffer) : Int × Buffer × BlkDev :=
  let r := d.blk.read d.id lba count buf
  (r.1, r.2.1, { d with blk := r.2.2 })

def write (d : BlkDev) (lba count : Nat) (buf : Buffer) : Int × BlkDev :=
  let r := d.blk.write d.id lba count buf
  (r.1, { d with blk := r.2 })

instance : Device BlkDev := ⟨fun d => d.blk.present d.id, read, write⟩

theorem traffic_views {writes : Prop} {d e : BlkDev} (traffic : Device.Traffic writes d e) :
    e.blk.views = d.blk.views :=
  traffic.keeps (P := fun f => f.blk.views = d.blk.views)
    (fun f lba count buf same => (f.blk.read_views f.id lba count buf).trans same)
    (fun _ f lba count buf same => (f.blk.write_views f.id lba count buf).trans same) rfl

theorem reads_same {d e : BlkDev} (reads : Device.Traffic False d e) (raw : Nat) :
    (d.blk.raws raw).Same (e.blk.raws raw) :=
  reads.keeps (P := fun f => (d.blk.raws raw).Same (f.blk.raws raw))
    (fun f lba count buf same => same.trans (f.blk.read_same f.id lba count buf raw))
    (fun none => none.elim) (.refl _)

end BlkDev

end Zenbite
