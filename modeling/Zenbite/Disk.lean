import Zenbite.Lib.Memory

/-! One entry of the block-device table as the file system sees it (disk.c):
512-byte sectors behind `disk_read` and `disk_write`, each of which may fail. -/

namespace Zenbite

open Memory

def sectorSize : Nat := 512

/-- What the driver answers to one request. A failing request may still have
moved its first sectors: the ATA loop returns -1 in the middle of a transfer. -/
inductive Verdict where
  | ok
  | fail (moved : Nat)
  deriving DecidableEq, Repr

structure Access where
  write : Bool
  lba : Nat
  count : Nat
  deriving DecidableEq, Repr

/-- Sector `s` is bytes `[512 s, 512 s + 512)`. `log` is a ghost that keeps the
requests so far, latest first; `verdict` answers the next one. -/
structure Disk where
  present : Bool
  sectors : Nat
  bytes : Buffer
  verdict : List Access → Access → Verdict
  log : List Access

namespace Disk

def answer (d : Disk) (a : Access) : Verdict := d.verdict d.log a

def rc : Verdict → Int
  | .ok => 0
  | .fail _ => -1

def moved (count : Nat) : Verdict → Nat
  | .ok => count
  | .fail n => min n count

def note (d : Disk) (a : Access) : Disk := { d with log := a :: d.log }

/-- `disk_read`: return code, the caller's buffer afterwards, the disk. -/
def read (d : Disk) (lba count : Nat) (buf : Buffer) : Int × Buffer × Disk :=
  if d.present then
    (rc (d.answer ⟨false, lba, count⟩),
      splice buf 0 (moved count (d.answer ⟨false, lba, count⟩) * sectorSize)
        (window d.bytes (lba * sectorSize)),
      d.note ⟨false, lba, count⟩)
  else (-1, buf, d)

/-- `disk_write`. -/
def write (d : Disk) (lba count : Nat) (buf : Buffer) : Int × Disk :=
  if d.present then
    (rc (d.answer ⟨true, lba, count⟩),
      { d.note ⟨true, lba, count⟩ with
        bytes := splice d.bytes (lba * sectorSize)
          (moved count (d.answer ⟨true, lba, count⟩) * sectorSize) buf })
  else (-1, d)

/-- Every request succeeds. -/
def Faultless (d : Disk) : Prop := d.present = true ∧ ∀ past a, d.verdict past a = .ok

/-- A disk without faults that holds the given bytes. -/
def image (sectors : Nat) (bytes : Buffer) : Disk := ⟨true, sectors, bytes, fun _ _ => .ok, []⟩

theorem image_faultless (sectors : Nat) (bytes : Buffer) : (image sectors bytes).Faultless :=
  ⟨rfl, fun _ _ => rfl⟩

theorem read_faultless {d : Disk} (good : d.Faultless) (lba count : Nat) (buf : Buffer) :
    d.read lba count buf =
      (0, splice buf 0 (count * sectorSize) (window d.bytes (lba * sectorSize)),
        d.note ⟨false, lba, count⟩) := by
  simp only [read, good.1, if_true, answer, good.2, rc, moved]

theorem write_faultless {d : Disk} (good : d.Faultless) (lba count : Nat) (buf : Buffer) :
    d.write lba count buf =
      (0, { d.note ⟨true, lba, count⟩ with
        bytes := splice d.bytes (lba * sectorSize) (count * sectorSize) buf }) := by
  simp only [write, good.1, if_true, answer, good.2, rc, moved]

theorem write_done {d : Disk} (good : d.Faultless) (lba count : Nat) (buf : Buffer) :
    ¬ (d.write lba count buf).1 < 0 := by
  rw [write_faultless good]
  exact lt_irrefl 0

theorem write_bytes {d : Disk} (good : d.Faultless) (lba count : Nat) (buf : Buffer) :
    (d.write lba count buf).2.bytes =
      splice d.bytes (lba * sectorSize) (count * sectorSize) buf := by
  rw [write_faultless good]

/-- A request never changes what the disk is, only its bytes and its history. -/
theorem write_keeps (d : Disk) (lba count : Nat) (buf : Buffer) :
    (d.write lba count buf).2.present = d.present ∧
      (d.write lba count buf).2.sectors = d.sectors ∧
      (d.write lba count buf).2.verdict = d.verdict := by
  simp only [write]
  split <;> simp [note]

theorem read_keeps (d : Disk) (lba count : Nat) (buf : Buffer) :
    (d.read lba count buf).2.2.present = d.present ∧
      (d.read lba count buf).2.2.sectors = d.sectors ∧
      (d.read lba count buf).2.2.verdict = d.verdict ∧
      (d.read lba count buf).2.2.bytes = d.bytes := by
  simp only [read]
  split <;> simp [note]

/-- The same disk up to its history. -/
structure Same (d e : Disk) : Prop where
  present : e.present = d.present
  sectors : e.sectors = d.sectors
  verdict : e.verdict = d.verdict
  bytes : e.bytes = d.bytes

theorem Same.refl (d : Disk) : d.Same d := ⟨rfl, rfl, rfl, rfl⟩

theorem Same.trans {d e f : Disk} (first : d.Same e) (second : e.Same f) : d.Same f :=
  ⟨second.present.trans first.present, second.sectors.trans first.sectors,
    second.verdict.trans first.verdict, second.bytes.trans first.bytes⟩

theorem Same.faultless {d e : Disk} (same : d.Same e) (good : d.Faultless) : e.Faultless :=
  ⟨same.present.trans good.1, fun past a => (congrFun₂ same.verdict past a).trans (good.2 past a)⟩

theorem read_same (d : Disk) (lba count : Nat) (buf : Buffer) :
    d.Same (d.read lba count buf).2.2 := by
  obtain ⟨present, sectors, verdict, bytes⟩ := d.read_keeps lba count buf
  exact ⟨present, sectors, verdict, bytes⟩

theorem Faultless.write {d : Disk} (good : d.Faultless) (lba count : Nat) (buf : Buffer) :
    (d.write lba count buf).2.Faultless := by
  obtain ⟨present, -, verdict⟩ := d.write_keeps lba count buf
  exact ⟨present.trans good.1, fun past a => (congrFun₂ verdict past a).trans (good.2 past a)⟩

theorem Faultless.read {d : Disk} (good : d.Faultless) (lba count : Nat) (buf : Buffer) :
    (d.read lba count buf).2.2.Faultless := by
  obtain ⟨present, -, verdict, -⟩ := d.read_keeps lba count buf
  exact ⟨present.trans good.1, fun past a => (congrFun₂ verdict past a).trans (good.2 past a)⟩

theorem read_ok (d : Disk) (lba count : Nat) (buf : Buffer) (ok : ¬ (d.read lba count buf).1 < 0) :
    (d.read lba count buf).2.2.bytes = d.bytes ∧ (d.read lba count buf).2.1 =
      splice buf 0 (count * sectorSize) (window d.bytes (lba * sectorSize)) := by
  refine ⟨(d.read_keeps lba count buf).2.2.2, ?_⟩
  simp only [read] at ok ⊢
  split at ok
  next present =>
    rw [if_pos present]
    cases answer : d.answer _ with
    | ok => rfl
    | fail n =>
        simp [answer, rc] at ok
  · exact absurd (show (-1 : Int) < 0 by decide) ok

/-- A write, successful or not, stays in its sectors. -/
theorem write_outside (d : Disk) (lba count : Nat) (buf : Buffer) {a : Nat}
    (outside : a < lba * sectorSize ∨ (lba + count) * sectorSize ≤ a) :
    (d.write lba count buf).2.bytes a = d.bytes a := by
  have short : moved count (d.answer ⟨true, lba, count⟩) ≤ count := by
    cases d.answer ⟨true, lba, count⟩ with
    | ok => exact le_rfl
    | fail n => exact Nat.min_le_right n count
  simp only [write]
  split
  · apply splice_outside
    have := Nat.mul_le_mul_right sectorSize short
    rw [Nat.add_mul] at outside
    omega
  · rfl

theorem write_elsewhere (d : Disk) (lba : Nat) (buf : Buffer) {a : Nat}
    (outside : a / sectorSize ≠ lba) : (d.write lba 1 buf).2.bytes a = d.bytes a := by
  apply write_outside
  simp only [sectorSize] at outside ⊢
  omega

theorem write_here (d : Disk) (lba : Nat) (buf : Buffer) (ok : (d.write lba 1 buf).1 = 0) {i : Nat}
    (inside : i < sectorSize) : (d.write lba 1 buf).2.bytes (lba * sectorSize + i) = buf i := by
  simp only [write] at ok ⊢
  split at ok
  next present =>
    rw [if_pos present]
    cases answer : d.answer _ with
    | ok => exact splice_add _ _ (by simpa [moved] using inside)
    | fail n => simp [answer, rc] at ok
  · exact absurd ok (show (-1 : Int) ≠ 0 by decide)

theorem write_rc (d : Disk) (lba count : Nat) (buf : Buffer) :
    (d.write lba count buf).1 = 0 ∨ (d.write lba count buf).1 = -1 := by
  simp only [write]
  split
  · cases d.answer _ with
    | ok => exact .inl rfl
    | fail n => exact .inr rfl
  · exact .inr rfl

theorem write_log (d : Disk) (lba count : Nat) (buf : Buffer) :
    ∃ new, (d.write lba count buf).2.log = new ++ d.log ∧ ∀ x ∈ new, x = ⟨true, lba, count⟩ := by
  simp only [write]
  split
  · exact ⟨[⟨true, lba, count⟩], rfl, by simp⟩
  · exact ⟨[], rfl, by simp⟩

theorem read_log (d : Disk) (lba count : Nat) (buf : Buffer) :
    ∃ new, (d.read lba count buf).2.2.log = new ++ d.log ∧ ∀ x ∈ new, x = ⟨false, lba, count⟩ := by
  simp only [read]
  split
  · exact ⟨[⟨false, lba, count⟩], rfl, by simp⟩
  · exact ⟨[], rfl, by simp⟩

/-- Between two states of a disk, no sector was written. -/
def Unwritten (d e : Disk) : Prop :=
  ∃ new, e.log = new ++ d.log ∧ ∀ a ∈ new, a.write = true → a.count = 0

theorem Unwritten.refl (d : Disk) : d.Unwritten d := ⟨[], rfl, by simp⟩

theorem Unwritten.trans {d e f : Disk} (first : d.Unwritten e) (second : e.Unwritten f) :
    d.Unwritten f := by
  obtain ⟨new, log, none⟩ := first
  obtain ⟨more, grown, also⟩ := second
  refine ⟨more ++ new, by rw [grown, log, List.append_assoc], fun a member => ?_⟩
  exact (List.mem_append.mp member).elim (also a) (none a)

theorem read_unwritten (d : Disk) (lba count : Nat) (buf : Buffer) :
    d.Unwritten (d.read lba count buf).2.2 := by
  obtain ⟨new, log, all⟩ := d.read_log lba count buf
  refine ⟨new, log, fun a member write => ?_⟩
  rw [all a member] at write
  cases write

theorem write_unwritten (d : Disk) (lba : Nat) (buf : Buffer) :
    d.Unwritten (d.write lba 0 buf).2 := by
  obtain ⟨new, log, all⟩ := d.write_log lba 0 buf
  exact ⟨new, log, fun a member _ => by rw [all a member]⟩

end Disk

/-- What fat.c uses of a disk id: `present`, disk_read and disk_write. -/
class Device (δ : Type) where
  present : δ → Bool
  read : δ → Nat → Nat → Buffer → Int × Buffer × δ
  write : δ → Nat → Nat → Buffer → Int × δ

instance : Device Disk := ⟨Disk.present, Disk.read, Disk.write⟩

namespace Device

@[simp] theorem present_disk (d : Disk) : Device.present d = d.present := rfl

variable {δ : Type} [Device δ]

/-- The device after any requests; writes among them only if `writes` allows it. -/
inductive Traffic (writes : Prop) (d : δ) : δ → Prop
  | idle : Traffic writes d d
  | read {e : δ} (lba count : Nat) (buf : Buffer) (past : Traffic writes d e) :
      Traffic writes d (Device.read e lba count buf).2.2
  | write {e : δ} (allowed : writes) (lba count : Nat) (buf : Buffer)
      (past : Traffic writes d e) : Traffic writes d (Device.write e lba count buf).2

theorem Traffic.trans {writes : Prop} {d e f : δ} (first : Traffic writes d e)
    (second : Traffic writes e f) : Traffic writes d f := by
  induction second with
  | idle => exact first
  | read lba count buf _ ih => exact ih.read lba count buf
  | write allowed lba count buf _ ih => exact ih.write allowed lba count buf

/-- What every allowed request keeps, any traffic keeps. -/
theorem Traffic.keeps {writes : Prop} {d e : δ} (traffic : Traffic writes d e) {P : δ → Prop}
    (read : ∀ f lba count buf, P f → P (Device.read f lba count buf).2.2)
    (write : writes → ∀ f lba count buf, P f → P (Device.write f lba count buf).2)
    (start : P d) : P e := by
  induction traffic with
  | idle => exact start
  | read lba count buf _ ih => exact read _ lba count buf ih
  | write allowed lba count buf _ ih => exact write allowed _ lba count buf ih

theorem Traffic.unwritten {d e : Disk} (reads : Traffic False d e) : d.Unwritten e :=
  reads.keeps (P := d.Unwritten)
    (fun f lba count buf same => same.trans (f.read_unwritten lba count buf))
    (fun none => none.elim) (.refl d)

/-- Reads leave a disk the same. -/
theorem Traffic.same {d e : Disk} (reads : Traffic False d e) : d.Same e :=
  reads.keeps (P := d.Same) (fun f lba count buf same => same.trans (f.read_same lba count buf))
    (fun none => none.elim) (.refl d)

end Device

end Zenbite
