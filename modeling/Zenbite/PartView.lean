import Zenbite.Mbr

/-! Partition views (mbr.c): the spans that register_view accepts, and the
requests that part_read and part_write pass on. Both guards add 32-bit numbers. -/

namespace Zenbite

open Memory

/-- What register_view has checked about a view. -/
structure Part.Checked (p : Part) (d : Disk) : Prop where
  present : d.present = true
  start : 0 < p.offset
  starts : p.offset < d.sectors
  some : 0 < p.sectors
  small : p.sectors < 2 ^ 32
  ends : u32 (p.offset + p.sectors) ≤ d.sectors

theorem viewOf_checked {parent : Fin diskRawMax} {d : Disk} {idx : Nat} {src : MbrPart} {p : Part}
    (small : src.sectors < 2 ^ 32) (view : viewOf parent d idx src = some p) :
    p.parent = parent ∧ p.Checked d := by
  simp only [viewOf] at view
  split at view
  · cases view
  next passed =>
    simp only [not_or, Bool.not_eq_false, Nat.not_le, Nat.not_lt] at passed
    obtain ⟨present, start, starts, some, ends⟩ := passed
    obtain rfl := Option.some.inj view
    exact ⟨rfl, present, Nat.pos_of_ne_zero start, starts, Nat.pos_of_ne_zero some, small, ends⟩

theorem parseTable_entries {sec : Buffer} {table : List MbrPart} (parsed : parseTable sec = some table) :
    table = (List.range mbrPartMax).map (MbrPart.ofSector sec) := by
  simp only [parseTable] at parsed
  split at parsed
  · cases parsed
  · split at parsed
    · cases parsed
    · split at parsed
      · exact (Option.some.inj parsed).symm
      · cases parsed

theorem tableOn_entry {d : Disk} {table : List MbrPart} (found : tableOn d = some table)
    {e : MbrPart} (member : e ∈ table) : e.startLba < 2 ^ 32 ∧ e.sectors < 2 ^ 32 := by
  simp only [tableOn] at found
  split at found
  · cases found
  · rw [parseTable_entries found] at member
    obtain ⟨i, -, rfl⟩ := List.mem_map.mp member
    exact ⟨readLe32_lt _ _, readLe32_lt _ _⟩

theorem foundOn_checked {parent : Fin diskRawMax} {d : Disk} {p : Part}
    (member : p ∈ foundOn parent d) : p.parent = parent ∧ p.Checked d := by
  simp only [foundOn] at member
  split at member
  · cases member
  · obtain ⟨⟨src, idx⟩, listed, view⟩ := List.mem_filterMap.mp member
    have entry := List.fst_mem_of_mem_zipIdx (List.mem_of_mem_filter listed)
    cases table : tableOn d with
    | none =>
        rw [table] at entry
        cases entry
    | some entries =>
        rw [table] at entry
        exact viewOf_checked (tableOn_entry table entry).2 view

/-- Every view of a scan comes from an entry on its parent. -/
theorem scanned_checked {b : Blk} {i : Nat} {p : Part} (view : (mbrScanAll b).views i = some p) :
    i < partSlotMax ∧ p.Checked (b.raws p.parent) := by
  have slots := mbrScanAll_views b i
  rw [view] at slots
  split at slots
  next low =>
    obtain ⟨parent, -, member⟩ := List.mem_flatMap.mp (List.mem_of_getElem? slots.symm)
    obtain ⟨same, checked⟩ := foundOn_checked member
    exact ⟨low, by rw [same]; exact checked⟩
  · cases slots

/-- The view `p` behind disk id `id` lies inside its parent; of the request for
`count` sectors from `lba` on only sectors of the view get to the parent, and a
request for others is answered with -1. -/
structure Blk.Confines (b : Blk) (id : Nat) (p : Part) (lba count : Nat) : Prop where
  inside : p.offset + p.sectors ≤ (b.raws p.parent).sectors
  sent : ∀ write raw x, b.request id ⟨write, lba, count⟩ = some (raw, x) → raw = p.parent ∧
    x.write = write ∧ ∀ sector, x.lba ≤ sector → sector < x.lba + x.count →
      p.offset ≤ sector ∧ sector < p.offset + p.sectors
  refused : p.sectors < lba + count →
    (∀ buf, b.read id lba count buf = (-1, buf, b)) ∧ ∀ buf, b.write id lba count buf = (-1, b)

/-- A request through a view whose parent is there. -/
theorem Blk.request_view {b : Blk} {i : Nat} {p : Part} (low : i < partSlotMax)
    (view : b.views i = some p) (present : (b.raws p.parent).present = true) (a : Access) :
    b.request (partSlotBase + i) a = if p.Admits a then some (p.parent.val, p.shift a) else none := by
  have base : ¬ partSlotBase + i < diskRawMax := by
    simp only [partSlotBase, diskRawMax]
    omega
  have top : partSlotBase + i < diskMax := by
    simp only [partSlotMax] at low
    simp only [partSlotBase, diskMax]
    omega
  simp only [request, if_neg base, if_pos top, Nat.add_sub_cancel_left, view, present, and_true]

theorem confines_of_noWrap {b : Blk} {i : Nat} {p : Part} (low : i < partSlotMax)
    (view : b.views i = some p) (checked : p.Checked (b.raws p.parent)) {lba count : Nat}
    (span : p.offset + p.sectors < 2 ^ 32)
    (request : lba + count < 2 ^ 32 ∨ p.sectors < u32 (lba + count)) :
    b.Confines (partSlotBase + i) p lba count := by
  have ends := checked.ends
  rw [u32_of_lt span] at ends
  have admitted (write : Bool) (admits : p.Admits ⟨write, lba, count⟩) :
      lba + count ≤ p.sectors := by
    have inside : u32 (lba + count) ≤ p.sectors := admits
    rcases request with short | refused
    · rwa [u32_of_lt short] at inside
    · omega
  have closed (write : Bool) (beyond : p.sectors < lba + count) :
      b.request (partSlotBase + i) ⟨write, lba, count⟩ = none := by
    rw [Blk.request_view low view checked.present, if_neg]
    intro admits
    have := admitted write admits
    omega
  refine ⟨ends, fun write raw x sent => ?_, fun beyond => ⟨fun buf => ?_, fun buf => ?_⟩⟩
  · rw [Blk.request_view low view checked.present] at sent
    split at sent
    next admits =>
      have inside := admitted write admits
      obtain ⟨rfl, rfl⟩ := Prod.mk.inj (Option.some.inj sent)
      refine ⟨rfl, rfl, fun sector from_ to_ => ?_⟩
      simp only [Part.shift] at from_ to_
      rw [u32_of_lt (by omega)] at from_ to_
      omega
    · cases sent
  · simp only [Blk.read, closed false beyond]
  · simp only [Blk.write, closed true beyond]

theorem noWrap_of_confines {b : Blk} {i : Nat} {p : Part} (low : i < partSlotMax)
    (view : b.views i = some p) (checked : p.Checked (b.raws p.parent))
    (size : (b.raws p.parent).sectors < 2 ^ 32) {lba count : Nat} (lbaSmall : lba < 2 ^ 32)
    (confines : b.Confines (partSlotBase + i) p lba count) :
    p.offset + p.sectors < 2 ^ 32 ∧ (lba + count < 2 ^ 32 ∨ p.sectors < u32 (lba + count)) := by
  have inside := confines.inside
  refine ⟨by omega, ?_⟩
  by_contra wraps
  simp only [not_or, Nat.not_lt] at wraps
  obtain ⟨wraps, admits⟩ := wraps
  have sent := confines.sent false p.parent (p.shift ⟨false, lba, count⟩) (by
    rw [Blk.request_view low view checked.present]
    exact if_pos admits)
  obtain ⟨-, -, sectors⟩ := sent
  simp only [Part.shift] at sectors
  -- the first sector is on the view only if the shifted number has not wrapped
  have first := sectors (u32 (p.offset + lba)) (Nat.le_refl _) (by omega)
  have last := sectors (u32 (p.offset + lba) + (count - 1)) (by omega) (by omega)
  rcases Nat.lt_or_ge (p.offset + lba) (2 ^ 32) with short | long
  · rw [u32_of_lt short] at last
    omega
  · have wrapped : u32 (p.offset + lba) = p.offset + lba - 2 ^ 32 := by
      simp only [u32]
      omega
    omega

/-- A registered view confines a request exactly when neither its span nor the
request wraps around. -/
theorem view_confined_iff {b : Blk} (sizes : ∀ raw, (b.raws raw).sectors < 2 ^ 32) {i : Nat}
    {p : Part} (view : (mbrScanAll b).views i = some p) {lba count : Nat} (lbaSmall : lba < 2 ^ 32) :
    (mbrScanAll b).Confines (partSlotBase + i) p lba count ↔
      p.offset + p.sectors < 2 ^ 32 ∧ (lba + count < 2 ^ 32 ∨ p.sectors < u32 (lba + count)) := by
  obtain ⟨low, checked⟩ := scanned_checked view
  have same := mbrScanAll_same b p.parent
  have checked : p.Checked ((mbrScanAll b).raws p.parent) :=
    ⟨same.present.trans checked.present, checked.start, by rw [same.sectors]; exact checked.starts,
      checked.some, checked.small, by rw [same.sectors]; exact checked.ends⟩
  exact ⟨noWrap_of_confines low view checked (by rw [same.sectors]; exact sizes _) lbaSmall,
    fun ⟨span, request⟩ => confines_of_noWrap low view checked span request⟩

/-- One disk of 4096 sectors with the given table. -/
def tabled (table : List MbrPart) : Blk :=
  ⟨fun id => { Disk.image 4096 (putTable (fun _ => 0) table) with present := id == 0 }, Slots.clear⟩

theorem tabled_sectors (table : List MbrPart) (raw : Nat) :
    ((tabled table).raws raw).sectors = 4096 := rfl

/-- The second of two partitions of 40 sectors. -/
theorem secondView_confined :
    (mbrScanAll (tabled [⟨0, 0x0E, 100, 40⟩, ⟨0, 0x0E, 300, 40⟩])).Confines (partSlotBase + 1)
      ⟨0, 1, 300, 40, 0x0E, 0⟩ 30 20 :=
  (view_confined_iff (fun raw => by rw [tabled_sectors]; decide) (by decide +kernel)
    (by decide)).2 ⟨by decide, by decide⟩

/-- `100 + (2^32 - 50)` wraps to 50, so the first partition is registered, and
through it sector 300 of the second one is written. -/
theorem wrappedView_escapes :
    (mbrScanAll (tabled [⟨0, 0x0E, 100, 2 ^ 32 - 50⟩, ⟨0, 0x0E, 300, 40⟩])).views 0 =
        some ⟨0, 0, 100, 2 ^ 32 - 50, 0x0E, 0⟩ ∧
      (mbrScanAll (tabled [⟨0, 0x0E, 100, 2 ^ 32 - 50⟩, ⟨0, 0x0E, 300, 40⟩])).request partSlotBase
        ⟨true, 200, 1⟩ = some (0, ⟨true, 300, 1⟩) ∧
      ¬ (mbrScanAll (tabled [⟨0, 0x0E, 100, 2 ^ 32 - 50⟩, ⟨0, 0x0E, 300, 40⟩])).Confines
        (partSlotBase + 0) ⟨0, 0, 100, 2 ^ 32 - 50, 0x0E, 0⟩ 200 1 := by
  refine ⟨by decide +kernel, by decide +kernel, fun confines => ?_⟩
  have inside := confines.inside
  rw [(mbrScanAll_same _ _).sectors, tabled_sectors] at inside
  exact absurd inside (by decide)

end Zenbite
