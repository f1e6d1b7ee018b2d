import Zenbite.Lib.Runs
import Zenbite.MbrEdit

/-! Partition tables through any disk id: what mbr_write stores comes back, and in
every run of the editors at most one entry of a table is active. -/

namespace Zenbite

open Memory

/-! Sector 0 of a disk id. -/

namespace Blk

/-- Raw disk and sector where sector 0 of a disk id lies. -/
def place (b : Blk) (id : Nat) : Option (Nat × Nat) :=
  (b.request id ⟨false, 0, 1⟩).map fun r => (r.1, r.2.lba)

def sector (b : Blk) (p : Nat × Nat) : Buffer := window (b.raws p.1).bytes (p.2 * sectorSize)

theorem request_place (b : Blk) (id : Nat) (write : Bool) : b.request id ⟨write, 0, 1⟩ =
    (b.place id).map fun p => (p.1, ⟨write, p.2, 1⟩) := by
  simp only [place, request]
  split
  · split <;> rfl
  · split
    · cases b.views (id - partSlotBase) with
      | none => rfl
      | some p =>
          have same : p.Admits ⟨write, 0, 1⟩ = p.Admits ⟨false, 0, 1⟩ := rfl
          by_cases admits : p.Admits ⟨false, 0, 1⟩ ∧ (b.raws p.parent.val).present = true
          · simp only [same, if_pos admits]
            rfl
          · simp only [same, if_neg admits]
            rfl
    · rfl

/-- `c` is `b` with nothing but sector 0 of `id` changed, to something good. -/
structure Changes (good : Buffer → Prop) (id : Nat) (b c : Blk) : Prop where
  views : c.views = b.views
  present : ∀ raw, (c.raws raw).present = (b.raws raw).present
  sector : ∀ q, SameSector (c.sector q) (b.sector q) ∨ b.place id = some q ∧ good (c.sector q)

namespace Changes
variable {good : Buffer → Prop} {id : Nat} {b c d : Blk}

theorem place (changes : Changes good id b c) (k : Nat) : c.place k = b.place k := by
  simp only [Blk.place, request, changes.views, changes.present]

theorem mono {better : Buffer → Prop} (changes : Changes good id b c)
    (imp : ∀ sec, good sec → better sec) : Changes better id b c :=
  ⟨changes.views, changes.present, fun q => (changes.sector q).imp_right fun put => ⟨put.1, imp _ put.2⟩⟩

theorem refl (good : Buffer → Prop) (id : Nat) (b : Blk) : Changes good id b b :=
  ⟨rfl, fun _ => rfl, fun _ => .inl fun _ _ => rfl⟩

theorem trans (closed : ∀ x y, SameSector x y → good y → good x) (first : Changes good id b c)
    (second : Changes good id c d) : Changes good id b d := by
  refine ⟨second.views.trans first.views, fun raw => (second.present raw).trans (first.present raw),
    fun q => ?_⟩
  rcases second.sector q with same | ⟨here, put⟩
  · rcases first.sector q with still | ⟨here, put⟩
    · exact .inl (same.trans still)
    · exact .inr ⟨here, closed _ _ same put⟩
  · rw [first.place] at here
    exact .inr ⟨here, put⟩

theorem of_same (same : ∀ raw, (b.raws raw).Same (c.raws raw)) (views : c.views = b.views) :
    Changes good id b c := by
  refine ⟨views, fun raw => (same raw).present, fun q => .inl fun i _ => ?_⟩
  simp only [Blk.sector, (same q.1).bytes]

end Changes

theorem read_changes (good : Buffer → Prop) (b : Blk) (id lba count : Nat) (buf : Buffer) :
    Changes good id b (b.read id lba count buf).2.2 :=
  .of_same (b.read_same id lba count buf) (b.read_views id lba count buf)

/-- A successful read of sector 0. -/
theorem read_place {b : Blk} {id : Nat} (ok : ¬ (b.read id 0 1 fun _ => 0).1 < 0) :
    ∃ p, b.place id = some p ∧ SameSector (b.read id 0 1 fun _ => 0).2.1 (b.sector p) := by
  have request := b.request_place id false
  cases here : b.place id with
  | none =>
      rw [here, Option.map_none] at request
      simp only [read, request] at ok
      exact absurd (show (-1 : Int) < 0 by decide) ok
  | some p =>
      rw [here, Option.map_some] at request
      simp only [read, request] at ok ⊢
      refine ⟨p, rfl, fun i inside => ?_⟩
      rw [(Disk.read_ok _ p.2 1 _ ok).2, splice_inside _ _ (Nat.zero_le i) (by omega), Nat.sub_zero]
      rfl

/-- Writing sector 0. -/
theorem write_place (b : Blk) (id : Nat) (buf : Buffer) :
    Changes (SameSector · buf) id b (b.write id 0 1 buf).2 ∧ ((b.write id 0 1 buf).1 = 0 →
      ∃ p, b.place id = some p ∧ SameSector ((b.write id 0 1 buf).2.sector p) buf) := by
  have request := b.request_place id true
  cases here : b.place id with
  | none =>
      rw [here, Option.map_none] at request
      simp only [write, request]
      exact ⟨.refl _ id b, fun done => absurd done (show (-1 : Int) ≠ 0 by decide)⟩
  | some p =>
      rw [here, Option.map_some] at request
      simp only [write, request]
      have put := (b.raws p.1).write_at p.2 buf
      have keeps := (b.raws p.1).write_keeps p.2 1 buf
      have placed : (b.setRaw p.1 ((b.raws p.1).write p.2 1 buf).2).sector p =
          window ((b.raws p.1).write p.2 1 buf).2.bytes (p.2 * sectorSize) := by
        rw [sector, setRaw_here]
      refine ⟨⟨rfl, fun raw => ?_, fun q => ?_⟩, fun done => ⟨p, rfl, ?_⟩⟩
      · by_cases same : raw = p.1
        · rw [same, setRaw_here, keeps.1]
        · rw [setRaw_ne b _ same]
      · by_cases same : q = p
        · rw [same, placed]
          rcases put with ⟨-, put⟩ | ⟨-, put | left⟩
          · exact .inr ⟨here, put⟩
          · exact .inr ⟨here, put⟩
          · exact .inl left
        · left
          intro i inside
          by_cases disk : q.1 = p.1
          · have other : q.2 ≠ p.2 := fun lba => same (Prod.ext disk lba)
            simp only [sector, window, disk, setRaw_here]
            apply Disk.write_elsewhere
            rw [Nat.add_comm, Nat.add_mul_div_right _ _ (by decide), Nat.div_eq_of_lt inside, Nat.zero_add]
            exact other
          · simp only [sector, setRaw_ne b _ disk]
      · rw [placed]
        rcases put with ⟨-, put⟩ | ⟨fails, -⟩
        · exact put
        · rw [fails] at done
          exact absurd done (by decide)

end Blk

/-! mbr_write and mbr_read. -/

section Calls
variable {blob : MbrBlob} {id : Nat} {b : Blk}

theorem SameSector.closed (sec : Buffer) : ∀ x y, SameSector x y → SameSector y sec → SameSector x sec :=
  fun _ _ first second => first.trans second

theorem mbrRead_changes (good : Buffer → Prop) (id : Nat) (b : Blk) :
    b.Changes good id (mbrRead id b).2 := b.read_changes good id 0 1 _

/-- The table that mbr_read returns, and its checks. -/
theorem mbrRead_found {table : List MbrPart} (found : (mbrRead id b).1 = some table) :
    table.length = mbrPartMax ∧ ∃ p, b.place id = some p ∧ ∀ i, i < mbrPartMax → table.getD i .empty = .ofSector (b.sector p) i ∧
      ((table.getD i .empty).boot = 0 ∨ (table.getD i .empty).boot = 0x80) := by
  simp only [mbrRead] at found
  split at found
  · cases found
  next ok =>
    obtain ⟨p, here, same⟩ := Blk.read_place ok
    refine ⟨?_, p, here, fun i bound => ?_⟩
    · rw [parseTable_entries found, List.length_map, List.length_range]
    have range : i < (List.range mbrPartMax).length := by rwa [List.length_range]
    have entry : table.getD i .empty = .ofSector (b.read id 0 1 fun _ => 0).2.1 i := by
      rw [parseTable_entries found, List.getD_eq_getElem?_getD, List.getElem?_map,
        List.getElem?_eq_getElem range, List.getElem_range, Option.map_some, Option.getD_some]
    refine ⟨entry.trans (same.entry bound), ?_⟩
    rw [entry]
    simp only [parseTable] at found
    split at found
    · cases found
    · split at found
      · cases found
      next flags =>
        simp only [List.any_map, List.any_eq_true, List.mem_range, Function.comp_apply, not_exists,
          not_and] at flags
        have flag := flags i bound
        simp only [Bool.and_eq_true, bne_iff_ne, ne_eq, not_and_or, not_not] at flag
        exact flag

/-- What mbr_write does to the disk, and what its success says. -/
theorem mbrWrite_changes (blob : MbrBlob) (id : Nat) (table : List MbrPart) (b : Blk) :
    b.Changes (fun sec => ∃ base, SameSector sec (putTable base table)) id (mbrWrite blob id table b).2 ∧
      ((mbrWrite blob id table b).1 = 0 → ∃ p base, b.place id = some p ∧
        (signed (b.sector p) = true → SameSector base (b.sector p)) ∧
        SameSector ((mbrWrite blob id table b).2.sector p) (putTable base table)) := by
  have closed : ∀ x y, SameSector x y → (∃ base, SameSector y (putTable base table)) →
      ∃ base, SameSector x (putTable base table) := fun x y same ⟨base, put⟩ => ⟨base, same.trans put⟩
  have read := b.read_changes (fun sec => ∃ base, SameSector sec (putTable base table)) id 0 1 fun _ => 0
  have failed : ¬ (-1 : Int) = 0 := by decide
  simp only [mbrWrite]
  split
  · exact ⟨read, fun done => absurd done failed⟩
  next ok =>
    obtain ⟨p, here, same⟩ := Blk.read_place ok
    have store (sec : Buffer) (kept : signed (b.sector p) = true → SameSector sec (b.sector p)) :
        b.Changes (fun sec => ∃ base, SameSector sec (putTable base table)) id
            ((b.read id 0 1 fun _ => 0).2.2.write id 0 1 (putTable sec table)).2 ∧
          (((b.read id 0 1 fun _ => 0).2.2.write id 0 1 (putTable sec table)).1 = 0 →
            ∃ p base, b.place id = some p ∧ (signed (b.sector p) = true → SameSector base (b.sector p)) ∧
              SameSector (((b.read id 0 1 fun _ => 0).2.2.write id 0 1 (putTable sec table)).2.sector p)
                (putTable base table)) := by
      obtain ⟨changes, stored⟩ := (b.read id 0 1 fun _ => 0).2.2.write_place id (putTable sec table)
      refine ⟨read.trans closed (changes.mono fun _ put => ⟨sec, put⟩), fun done => ?_⟩
      obtain ⟨q, there, put⟩ := stored done
      rw [read.place, here] at there
      obtain rfl := Option.some.inj there
      exact ⟨p, sec, here, kept, put⟩
    split
    · exact store _ fun _ => same
    next unsigned =>
      split
      · exact ⟨read, fun done => absurd done failed⟩
      · refine store _ fun mark => absurd mark ?_
        rw [← same.signed]
        exact unsigned

end Calls

/-! The round trip. -/

/-- An entry as mbr_read returns it after mbr_write. -/
def MbrPart.normal (e : MbrPart) : MbrPart :=
  if e.Used then { e with boot := if e.boot ≠ 0 then 0x80 else 0 } else .empty

/-- The numbers of an entry are 32-bit words. -/
def MbrPart.Words (e : MbrPart) : Prop := e.startLba < 2 ^ 32 ∧ e.sectors < 2 ^ 32

theorem MbrPart.Words.stored {e : MbrPart} (words : e.Words) : e.stored = e.normal := by
  simp only [MbrPart.stored, normal, u32_of_lt words.1, u32_of_lt words.2]

/-- A table that mbr_write has stored, as mbr_read takes it. -/
theorem parseTable_put {sec base : Buffer} {table : List MbrPart} (four : table.length = mbrPartMax)
    (words : ∀ e ∈ table, e.Words) (some : ∃ e ∈ table, e.Used ∧ 1 ≤ e.startLba)
    (put : SameSector sec (putTable base table)) : parseTable sec = Option.some (table.map MbrPart.normal) := by
  have entry (i : Nat) (bound : i < mbrPartMax) :
      MbrPart.ofSector sec i = (table.getD i .empty).normal := by
    have low : i < table.length := by rwa [four]
    rw [put.entry bound, putTable_entry base table bound]
    apply MbrPart.Words.stored
    rw [List.getD_eq_getElem?_getD, List.getElem?_eq_getElem low]
    exact words _ (List.getElem_mem low)
  have whole : (List.range mbrPartMax).map (MbrPart.ofSector sec) = table.map MbrPart.normal := by
    apply List.ext_getElem
    · rw [List.length_map, List.length_map, List.length_range, four]
    · intro i low high
      rw [List.length_map, List.length_range] at low
      rw [List.length_map] at high
      rw [List.getElem_map, List.getElem_map, List.getElem_range, entry i low, List.getD_eq_getElem?_getD,
        List.getElem?_eq_getElem high, Option.getD_some]
  have flags : ¬ (table.map MbrPart.normal).any (fun e => e.boot != 0 && e.boot != 0x80) = true := by
    simp only [List.any_map, List.any_eq_true, Function.comp_apply, not_exists, not_and]
    intro e _
    simp only [MbrPart.normal]
    split
    · split <;> simp
    · decide
  have normal : (table.map MbrPart.normal).any
      (fun e => e.type != 0 && e.sectors != 0 && decide (1 ≤ e.startLba)) = true := by
    obtain ⟨e, member, used, start⟩ := some
    rw [List.any_map, List.any_eq_true]
    refine ⟨e, member, ?_⟩
    simp only [Function.comp_apply, MbrPart.normal, if_pos used]
    simp only [MbrPart.Used, not_or] at used
    simp [used.1, used.2, start]
  simp only [parseTable, put.signed, putTable_signed, whole, if_neg flags, if_pos normal]
  rfl

/-- What mbr_write has stored, mbr_read returns unless the disk fails to read; the
boot code of a signed sector stays. -/
theorem mbr_round_trip {blob : MbrBlob} {id : Nat} {b : Blk} {table : List MbrPart}
    (four : table.length = mbrPartMax) (words : ∀ e ∈ table, e.Words)
    (some : ∃ e ∈ table, e.Used ∧ 1 ≤ e.startLba) (done : (mbrWrite blob id table b).1 = 0) :
    (mbrRead id (mbrWrite blob id table b).2).1 =
        (if ((mbrWrite blob id table b).2.read id 0 1 fun _ => 0).1 < 0 then none
        else Option.some (table.map MbrPart.normal)) ∧
      ∃ p, b.place id = Option.some p ∧ (signed (b.sector p) = true →
        ∀ a, a < 0x1BE → (mbrWrite blob id table b).2.sector p a = b.sector p a) := by
  obtain ⟨changes, stored⟩ := mbrWrite_changes blob id table b
  obtain ⟨p, base, here, kept, put⟩ := stored done
  constructor
  · simp only [mbrRead]
    split
    · rfl
    next ok =>
      obtain ⟨q, there, same⟩ := Blk.read_place ok
      rw [changes.place, here] at there
      obtain rfl := Option.some.inj there
      exact parseTable_put four words some (same.trans put)
  · refine ⟨p, here, fun mark a code => ?_⟩
    have inside : a < sectorSize := by
      simp only [sectorSize]
      omega
    rw [put a inside, putTable_code base table code, kept mark a inside]

theorem mbr_round_trip_two : (mbrRead 0 (mbrWrite ⟨fun _ => 0, 512⟩ 0
    [⟨1, 0x0E, 2048, 40⟩, ⟨0, 0, 7, 7⟩, ⟨0, 0x0C, 4000, 9⟩, .empty] (tabled noTable)).2).1 =
      some [⟨0x80, 0x0E, 2048, 40⟩, .empty, ⟨0, 0x0C, 4000, 9⟩, .empty] := by
  have done : (mbrWrite ⟨fun _ => 0, 512⟩ 0
      [⟨1, 0x0E, 2048, 40⟩, ⟨0, 0, 7, 7⟩, ⟨0, 0x0C, 4000, 9⟩, .empty] (tabled noTable)).1 = 0 := by decide +kernel
  have trip := (mbr_round_trip (by decide) (by simp [MbrPart.Words, MbrPart.empty]) (by decide) done).1
  rw [trip, if_neg (by decide +kernel)]
  decide

/-! Active entries. -/

/-- A chainloader without code. -/
def chainless : MbrBlob := ⟨fun _ => 0, 512⟩

def Active (sec : Buffer) (i : Nat) : Prop := (MbrPart.ofSector sec i).boot = 0x80

def OneActive (sec : Buffer) : Prop := ∀ i j, i < mbrPartMax → j < mbrPartMax →
  Active sec i → Active sec j → i = j

/-- At most one entry of a table in memory has a boot flag. -/
def OneFlag (table : List MbrPart) : Prop := ∀ i j, (table.getD i .empty).boot ≠ 0 →
  (table.getD j .empty).boot ≠ 0 → i = j

theorem OneActive.of_same {x y : Buffer} (same : SameSector x y) (one : OneActive y) : OneActive x := by
  intro i j low high first second
  simp only [Active, same.entry low] at first
  simp only [Active, same.entry high] at second
  exact one i j low high first second

theorem noTable_oneFlag : OneFlag noTable := fun i _ flag => by
  rw [noTable_getD] at flag
  exact absurd rfl flag

theorem stored_boot {e : MbrPart} (active : e.stored.boot = 0x80) : e.boot ≠ 0 := by
  by_cases used : e.Used
  · rw [MbrPart.stored_used used] at active
    intro none
    rw [none] at active
    change (0 : UInt8) = 0x80 at active
    exact absurd active (by decide)
  · rw [MbrPart.stored_unused used] at active
    exact absurd active (by decide)

/-- What mbr_write stores has no more active entries than the table has flags. -/
theorem OneFlag.stored {table : List MbrPart} (one : OneFlag table) {sec base : Buffer}
    (put : SameSector sec (putTable base table)) : OneActive sec := by
  intro i j low high first second
  rw [Active, put.entry low, putTable_entry base table low] at first
  rw [Active, put.entry high, putTable_entry base table high] at second
  exact one i j (stored_boot first) (stored_boot second)

theorem OneActive.found {id : Nat} {b : Blk} {table : List MbrPart}
    (one : ∀ p, b.place id = some p → OneActive (b.sector p))
    (found : (mbrRead id b).1 = some table) : OneFlag table := by
  obtain ⟨four, p, here, entries⟩ := mbrRead_found found
  have active {i : Nat} (flag : (table.getD i .empty).boot ≠ 0) : i < mbrPartMax ∧ Active (b.sector p) i := by
    have bound : i < mbrPartMax := by
      by_contra past
      rw [List.getD_eq_getElem?_getD, List.getElem?_eq_none (by rw [four]; omega)] at flag
      exact absurd rfl flag
    obtain ⟨entry, mark⟩ := entries i bound
    rw [Active, ← entry]
    exact ⟨bound, mark.resolve_left flag⟩
  intro i j first second
  exact one p here i j (active first).1 (active second).1 (active first).2 (active second).2

/-- Every editor leaves at most one flag. -/
theorem MbrEdit.table_oneFlag {found : List MbrPart} (one : OneFlag found) (edit : MbrEdit) :
    OneFlag (edit.table found) := by
  cases edit with
  | create slot type start sectors active =>
      have flag {i : Nat} (some : (((MbrEdit.create slot type start sectors active).table found).getD i
          .empty).boot ≠ 0) : active = true ∧ i = slot ∨ (found.getD i .empty).boot ≠ 0 := by
        simp only [table, List.getD_eq_getElem?_getD, List.getElem?_mapIdx] at some ⊢
        cases entry : found[i]? with
        | none =>
            rw [entry] at some
            exact absurd rfl some
        | some e =>
            simp only [entry, Option.map_some, Option.getD_some] at some ⊢
            by_cases here : i = slot
            · cases active with
              | true => exact .inl ⟨rfl, here⟩
              | false =>
                  rw [if_pos here] at some
                  exact absurd rfl some
            · cases active with
              | true =>
                  rw [if_neg here] at some
                  exact absurd rfl some
              | false =>
                  rw [if_neg here] at some
                  exact .inr some
      have alone (on : active = true) {i : Nat} (some : (((MbrEdit.create slot type start sectors
          active).table found).getD i .empty).boot ≠ 0) : i = slot := by
        by_contra other
        simp only [table, List.getD_eq_getElem?_getD, List.getElem?_mapIdx, on, if_true] at some
        cases entry : found[i]? with
        | none =>
            rw [entry] at some
            exact absurd rfl some
        | some e =>
            simp only [entry, Option.map_some, Option.getD_some, if_neg other] at some
            exact absurd rfl some
      intro i j first second
      by_cases on : active = true
      · rw [alone on first, alone on second]
      · exact one i j ((flag first).resolve_left fun set => on set.1)
          ((flag second).resolve_left fun set => on set.1)
  | delete slot =>
      have kept {i : Nat} (some : (((MbrEdit.delete slot).table found).getD i .empty).boot ≠ 0) :
          (found.getD i .empty).boot ≠ 0 := by
        simp only [table, List.getD_eq_getElem?_getD, List.getElem?_set] at some ⊢
        split at some
        · split at some <;> exact absurd rfl some
        · exact some
      exact fun i j first second => one i j (kept first) (kept second)
  | setActive slot =>
      have here {i : Nat} (some : (((MbrEdit.setActive slot).table found).getD i .empty).boot ≠ 0) :
          i = slot := by
        by_contra other
        simp only [table, List.getD_eq_getElem?_getD, List.getElem?_mapIdx] at some
        cases entry : found[i]? with
        | none =>
            rw [entry] at some
            exact absurd rfl some
        | some e =>
            simp only [entry, Option.map_some, Option.getD_some, if_neg other] at some
            exact absurd rfl some
      exact fun i j first second => (here first).trans (here second).symm

/-! Runs. -/

/-- The calls that write a partition table. -/
inductive MbrCall where
  | init
  | edit (e : MbrEdit)

def MbrCall.run (blob : MbrBlob) (id : Nat) : MbrCall → Blk → Int × Blk
  | .init => mbrInitDisk blob id
  | .edit e => e.run blob id

/-- A call on any disk id. -/
def mbrStep (blob : MbrBlob) (c : Nat × MbrCall) (b : Blk) : Blk := (c.2.run blob c.1 b).2

theorem MbrBlob.Blank.oneActive {blob : MbrBlob} (blank : blob.Blank) :
    OneActive (poke blob.bytes 510 [0x55, 0xAA]) := by
  intro i j low _ first
  have bound : i < 4 := low
  have same : MbrPart.ofSector (poke blob.bytes 510 [0x55, 0xAA]) i = .ofSector blob.bytes i := by
    simp only [MbrPart.ofSector]
    rw [poke, splice_outside _ _ (by omega), splice_outside _ _ (by omega),
      readLe32_congr fun k _ => splice_outside _ _ (by omega),
      readLe32_congr fun k _ => splice_outside _ _ (by omega)]
  rw [Active, same, blank i low] at first
  exact absurd first (by decide)

/-- A call changes one sector at most, and leaves at most one active entry there if
there was no more than one. -/
theorem MbrCall.run_changes {blob : MbrBlob} (blank : blob.Blank) (id : Nat) (call : MbrCall) (b : Blk) :
    b.Changes (fun sec => (∀ p, b.place id = some p → OneActive (b.sector p)) → OneActive sec) id
      (call.run blob id b).2 := by
  have closed : ∀ x y, SameSector x y →
      ((∀ p, b.place id = some p → OneActive (b.sector p)) → OneActive y) →
      (∀ p, b.place id = some p → OneActive (b.sector p)) → OneActive x :=
    fun x y same one all => (one all).of_same same
  cases call with
  | init =>
      have first := (b.write_place id (poke blob.bytes 510 [0x55, 0xAA])).1.mono
        fun sec put (_ : ∀ p, b.place id = some p → OneActive (b.sector p)) => blank.oneActive.of_same put
      simp only [run, mbrInitDisk]
      split
      · exact .refl _ id b
      · split
        · exact first
        · refine first.trans closed ((mbrWrite_changes blob id noTable _).1.mono fun sec wrote _ => ?_)
          obtain ⟨base, put⟩ := wrote
          exact noTable_oneFlag.stored put
  | edit e =>
      have read := mbrRead_changes
        (fun sec => (∀ p, b.place id = some p → OneActive (b.sector p)) → OneActive sec) id b
      rcases e.run_reads blob id b with ⟨-, same | same⟩ | ⟨found, wrote, origin⟩
      · rw [run, same]
        exact .refl _ id b
      · rw [run, same]
        exact read
      · rw [run, wrote]
        refine read.trans closed ((mbrWrite_changes blob id (e.table found) _).1.mono fun sec wrote all => ?_)
        obtain ⟨base, put⟩ := wrote
        rcases origin with listed | ⟨-, -, rfl⟩
        · exact (e.table_oneFlag (OneActive.found all listed)).stored put
        · exact (e.table_oneFlag noTable_oneFlag).stored put

/-- The place of a disk id stays, and so does at most one active entry there. -/
theorem mbrStep_oneActive {blob : MbrBlob} (blank : blob.Blank) {id : Nat} {p : Nat × Nat}
    (c : Nat × MbrCall) (b : Blk) (inv : b.place id = some p ∧ OneActive (b.sector p)) :
    (mbrStep blob c b).place id = some p ∧ OneActive ((mbrStep blob c b).sector p) := by
  have changes := c.2.run_changes blank c.1 b
  refine ⟨(changes.place id).trans inv.1, ?_⟩
  rcases changes.sector p with same | ⟨here, put⟩
  · exact inv.2.of_same same
  · refine put fun q there => ?_
    rw [here] at there
    obtain rfl := Option.some.inj there
    exact inv.2

/-- A successful mbr_set_active. -/
theorem mbrSetActive_done {blob : MbrBlob} {id slot : Nat} {b : Blk}
    (done : (mbrSetActive blob id slot b).1 = 0) : ∃ found, (mbrRead id b).1 = some found ∧
      (found.getD slot .empty).type ≠ 0 ∧ mbrSetActive blob id slot b =
        mbrWrite blob id ((MbrEdit.setActive slot).table found) (mbrRead id b).2 := by
  have failed : ¬ (-1 : Int) = 0 := by decide
  simp only [mbrSetActive] at done ⊢
  split at done
  · exact absurd done failed
  next inside =>
    rw [if_neg inside]
    cases found : (mbrRead id b).1 with
    | none =>
        rw [found] at done
        exact absurd done failed
    | some table =>
        simp only [found] at done ⊢
        split at done
        · exact absurd done failed
        next type =>
          rw [if_neg type]
          exact ⟨table, rfl, type, rfl⟩

theorem mbrSetActive_only {blob : MbrBlob} {id slot : Nat} {b : Blk} {p : Nat × Nat}
    (here : b.place id = some p) (done : (mbrSetActive blob id slot b).1 = 0)
    (some : (MbrPart.ofSector (b.sector p) slot).sectors ≠ 0) {i : Nat} (bound : i < mbrPartMax) :
    Active ((mbrSetActive blob id slot b).2.sector p) i ↔ i = slot := by
  obtain ⟨found, read, type, run⟩ := mbrSetActive_done done
  obtain ⟨four, q, there, entries⟩ := mbrRead_found read
  rw [here] at there
  obtain rfl := Option.some.inj there
  rw [run] at done ⊢
  obtain ⟨-, stored⟩ := mbrWrite_changes blob id ((MbrEdit.setActive slot).table found)
    (mbrRead id b).2
  obtain ⟨q, base, there, -, put⟩ := stored done
  rw [(mbrRead_changes (fun _ => False) id b).place, here] at there
  obtain rfl := Option.some.inj there
  rw [Active, put.entry bound, putTable_entry base _ bound]
  have low : i < found.length := by rwa [four]
  have entry : ((MbrEdit.setActive slot).table found).getD i .empty =
      { found.getD i .empty with boot := if i = slot then 0x80 else 0 } := by
    simp only [MbrEdit.table, List.getD_eq_getElem?_getD, List.getElem?_mapIdx,
      List.getElem?_eq_getElem low, Option.map_some, Option.getD_some]
  constructor
  · intro active
    by_contra other
    have flag := stored_boot active
    rw [entry, if_neg other] at flag
    exact flag rfl
  · intro same
    have used : (((MbrEdit.setActive slot).table found).getD i .empty).Used := by
      rw [entry, MbrPart.Used, not_or, same]
      rw [same] at bound
      exact ⟨type, by rw [(entries slot bound).1]; exact some⟩
    rw [MbrPart.stored_used used, entry, if_pos same]
    rfl

/-- In every run on any disks, a table with at most one active entry keeps that, and
mbr_set_active makes an entry with sectors the only one. -/
theorem one_active {blob : MbrBlob} (blank : blob.Blank) {id : Nat} {b : Blk} {p : Nat × Nat}
    (here : b.place id = some p) (start : OneActive (b.sector p)) (calls : List (Nat × MbrCall)) :
    let c := Runs.run (mbrStep blob) calls b
    OneActive (c.sector p) ∧ ∀ slot, (mbrSetActive blob id slot c).1 = 0 →
      (MbrPart.ofSector (c.sector p) slot).sectors ≠ 0 → ∀ i, i < mbrPartMax →
        (Active ((mbrSetActive blob id slot c).2.sector p) i ↔ i = slot) := by
  intro c
  have inv : c.place id = some p ∧ OneActive (c.sector p) :=
    Runs.run_keeps (fun call b inv => mbrStep_oneActive blank call b inv) calls ⟨here, start⟩
  exact ⟨inv.2, fun slot done some i bound => mbrSetActive_only inv.1 done some bound⟩

/-- A second active partition is made, and the first one active again. -/
theorem one_active_again :
    let b := Runs.run (mbrStep chainless) [(0, .edit (.create 2 0x0C 3000 40 true)),
      (0, .edit (.delete 1)), (3, .init)] (tabled [⟨0x80, 0x0E, 2048, 40⟩, ⟨0, 0x0E, 2400, 40⟩])
    OneActive (b.sector (0, 0)) ∧ ∀ i, i < mbrPartMax →
      (Active ((mbrSetActive chainless 0 0 b).2.sector (0, 0)) i ↔ i = 0) := by
  have start : OneActive ((tabled [⟨0x80, 0x0E, 2048, 40⟩, ⟨0, 0x0E, 2400, 40⟩]).sector (0, 0)) := by
    have flags : ∀ i, i < mbrPartMax →
        Active ((tabled [⟨0x80, 0x0E, 2048, 40⟩, ⟨0, 0x0E, 2400, 40⟩]).sector (0, 0)) i → i = 0 := by
      simp only [Active]
      decide +kernel
    intro i j low high first second
    rw [flags i low first, flags j high second]
  have blank : chainless.Blank := by decide
  have here : (tabled [⟨0x80, 0x0E, 2048, 40⟩, ⟨0, 0x0E, 2400, 40⟩]).place 0 = some (0, 0) := by decide +kernel
  have run := one_active blank here start
    [(0, .edit (.create 2 0x0C 3000 40 true)), (0, .edit (.delete 1)), (3, .init)]
  exact ⟨run.1, run.2 0 (by decide +kernel) (by decide +kernel)⟩

end Zenbite
