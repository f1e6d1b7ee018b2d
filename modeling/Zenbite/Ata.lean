import Zenbite.Blk
import Zenbite.Lib.Queues

/-! The ATA driver (ata.c) against the drives of one IDE channel: registers, status and the
data port, with 28-bit and 48-bit addresses. -/

namespace Zenbite.Ata

open Memory

/-- A drive: its sectors, whether it knows the EXT commands, and how many reads of the status
find it busy behind a command. -/
structure Drive where
  sectors : Nat
  ext : Bool
  lag : Nat
  bytes : Buffer

/-- What the data port of the selected drive is there for: `left` sectors from `lba` on, at `word`. -/
inductive Phase where
  | idle
  | dataIn (lba left word : Nat)
  | dataOut (lba left word : Nat)
  deriving DecidableEq

/-- A register keeps the byte written before the last one, for the 48-bit commands. -/
structure Latch where
  cur : UInt8
  prev : UInt8

def Latch.write (l : Latch) (v : UInt8) : Latch := ⟨v, l.cur⟩

/-- The two drives of a channel and the registers that they share. -/
structure Channel where
  drives : Bool → Option Drive
  seccnt : Latch
  lba0 : Latch
  lba1 : Latch
  lba2 : Latch
  drv : UInt8
  phase : Phase
  err : Bool
  busy : Nat

def srBsy : UInt8 := 0x80
def srDrdy : UInt8 := 0x40
def srDrq : UInt8 := 0x08
def srErr : UInt8 := 0x01

/-! The drives' side of the ports. -/

namespace Channel

variable (c : Channel)

def slave : Bool := c.drv &&& 0x10 != 0

def selected : Option Drive := c.drives c.slave

def setDrive (d : Drive) : Channel := { c with drives := Function.update c.drives c.slave (some d) }

def address28 : Nat :=
  c.lba0.cur.toNat + 2 ^ 8 * c.lba1.cur.toNat + 2 ^ 16 * c.lba2.cur.toNat + 2 ^ 24 * (c.drv &&& 0x0F).toNat

def address48 : Nat :=
  c.lba0.cur.toNat + 2 ^ 8 * c.lba1.cur.toNat + 2 ^ 16 * c.lba2.cur.toNat +
    2 ^ 24 * c.lba0.prev.toNat + 2 ^ 32 * c.lba1.prev.toNat + 2 ^ 40 * c.lba2.prev.toNat

/-- A count of 0 stands for the greatest one. -/
def count28 : Nat := if c.seccnt.cur = 0 then 2 ^ 8 else c.seccnt.cur.toNat

def count48 : Nat :=
  let n := c.seccnt.cur.toNat + 2 ^ 8 * c.seccnt.prev.toNat
  if n = 0 then 2 ^ 16 else n

/-- The drive is no longer busy. -/
def settle : Channel := { c with busy := 0 }

/-- A transfer within the drive gets its phase, any other one sets ERR. -/
def transfer (d : Drive) (lba count : Nat) (phase : Phase) : Channel :=
  if lba + count ≤ d.sectors then { c with phase := phase, err := false, busy := d.lag }
  else { c with phase := .idle, err := true, busy := d.lag }

def abort (d : Drive) : Channel := { c with phase := .idle, err := true, busy := d.lag }

/-- The commands that the driver uses; a drive without EXT aborts those. -/
def command (v : UInt8) : Channel :=
  match c.selected with
  | none => c
  | some d =>
    if v = 0x20 then c.transfer d c.address28 c.count28 (.dataIn c.address28 c.count28 0)
    else if v = 0x30 then c.transfer d c.address28 c.count28 (.dataOut c.address28 c.count28 0)
    else if v = 0xE7 then { c with phase := .idle, err := false, busy := d.lag }
    else if ¬d.ext then c.abort d
    else if v = 0x24 then c.transfer d c.address48 c.count48 (.dataIn c.address48 c.count48 0)
    else if v = 0x34 then c.transfer d c.address48 c.count48 (.dataOut c.address48 c.count48 0)
    else if v = 0xEA then { c with phase := .idle, err := false, busy := d.lag }
    else c.abort d

def restStatus (idle err : Bool) : UInt8 := srDrdy ||| (if idle then 0 else srDrq) ||| (if err then srErr else 0)

/-- `inb(base + R_STAT)`; while BSY is set the other bits mean nothing. -/
def status : UInt8 × Channel :=
  match c.selected with
  | none => (0, c)
  | some _ =>
    if c.busy ≠ 0 then (srBsy, { c with busy := c.busy - 1 })
    else (restStatus (c.phase = .idle) c.err, c)

/-- The transfer goes on to the next word, behind the last one to the next sector. -/
def advance (make : Nat → Nat → Nat → Phase) (lba left word : Nat) : Phase :=
  if word + 1 < 256 then make lba left (word + 1)
  else if 1 < left then make (lba + 1) (left - 1) 0
  else .idle

end Channel

/-! The driver. -/

/-- ata_delay -/
def ataDelay (c : Channel) : Channel := c.status.2.status.2.status.2.status.2

/-- wait_not_busy and wait_drq give up after as many reads of the status. -/
@[irreducible] def waitPolls : Nat := 1000000

def selectDriveLba28 (slave : Bool) (lba : Nat) (c : Channel) : Channel :=
  ataDelay { c with drv := 0xE0 ||| (if slave then 0x10 else 0) ||| UInt8.ofNat (lba / 2 ^ 24 % 2 ^ 4) }

def selectDriveLba48 (slave : Bool) (c : Channel) : Channel :=
  ataDelay { c with drv := 0xE0 ||| (if slave then 0x10 else 0) }

/-- What the driver writes to the registers for one sector, up to the command. -/
def issue (slave lba48 : Bool) (cur : Nat) (command28 command48 : UInt8) (c : Channel) : Channel :=
  if lba48 then
    let c := selectDriveLba48 slave c
    -- high bytes first, then low
    let c := { c with seccnt := c.seccnt.write 0, lba0 := c.lba0.write (UInt8.ofNat (cur / 2 ^ 24))
                      lba1 := c.lba1.write 0, lba2 := c.lba2.write 0 }
    let c := { c with seccnt := c.seccnt.write 1, lba0 := c.lba0.write (UInt8.ofNat cur)
                      lba1 := c.lba1.write (UInt8.ofNat (cur / 2 ^ 8))
                      lba2 := c.lba2.write (UInt8.ofNat (cur / 2 ^ 16)) }
    c.command command48
  else
    let c := selectDriveLba28 slave cur c
    let c := { c with seccnt := c.seccnt.write 1, lba0 := c.lba0.write (UInt8.ofNat cur)
                      lba1 := c.lba1.write (UInt8.ofNat (cur / 2 ^ 8))
                      lba2 := c.lba2.write (UInt8.ofNat (cur / 2 ^ 16)) }
    c.command command28

/-- The selected drive is at rest. -/
structure Channel.Ready (c : Channel) : Prop where
  phase : c.phase = .idle
  busy : c.busy = 0

/-- The sector number that a drive can be asked for. -/
def Drive.Reaches (d : Drive) (lba : Nat) : Prop := lba ≤ if d.ext then 2 ^ 32 else 2 ^ 28

section Commands
variable {c : Channel} {s : Bool} {d : Drive} {cur : Nat} {command28 command48 : UInt8} {make : Nat → Nat → Nat → Phase}
  (known : command28 = 0x20 ∧ command48 = 0x24 ∧ make = .dataIn ∨ command28 = 0x30 ∧ command48 = 0x34 ∧ make = .dataOut)
include known

end Commands

/-! The words of a sector. -/

/-- The channel between two requests; `lags` bounds how long its drives stay busy. -/
structure Resting (c : Channel) : Prop where
  phase : c.phase = .idle
  busy : c.busy = 0
  lags : ∀ s d, c.drives s = some d → d.lag < waitPolls

theorem Resting.polls {c : Channel} {s : Bool} {d : Drive} (rest : Resting c) (here : c.drives s = some d) :
    0 < waitPolls := Nat.zero_lt_of_lt (rest.lags s d here)

section Sectors
variable {c : Channel} {s : Bool} {d : Drive} {cur : Nat} (off : Nat) (buf : Buffer)
  (rest : Resting c) (here : c.drives s = some d) (reach : d.Reaches (cur + 1))
include rest here reach

end Sectors

theorem Drive.Reaches.word {d : Drive} {lba : Nat} (reach : d.Reaches (lba + 1)) : u32 lba = lba := by
  apply u32_of_lt
  unfold Drive.Reaches at reach
  split at reach <;> omega

/-- The sectors of a request that a drive has. -/
def Drive.has (d : Drive) (lba count : Nat) : Nat := min count (d.sectors - lba)

def Drive.answers (d : Drive) (lba count : Nat) : Int := if count = 0 ∨ lba + count ≤ d.sectors then 0 else -1

theorem Drive.short {d : Drive} {lba : Nat} (outside : d.sectors ≤ lba) (n : Nat) :
    d.answers lba (n + 1) = -1 ∧ d.has lba (n + 1) = 0 := by
  constructor
  · exact if_neg (by omega)
  · unfold Drive.has
    omega

namespace Request

variable (r : Request)

end Request

/-- A disk with a drive's bytes that fails where the drive ends. -/
structure Shows (d : Drive) (k : Disk) : Prop where
  present : k.present = true
  bytes : k.bytes = d.bytes
  verdict : ∀ past a, k.verdict past a =
    if a.count = 0 ∨ a.lba + a.count ≤ d.sectors then .ok else .fail (d.sectors - a.lba)

/-- The channel at rest with the drives that the disks show. -/
structure Mirrors (ext : Bool → Bool) (c : Channel) (k : Bool → Disk) : Prop where
  rest : Resting c
  absent : ∀ s, c.drives s = none → (k s).present = false
  ext : ∀ s d, c.drives s = some d → ext s = d.ext
  shows : ∀ s d, c.drives s = some d → Shows d (k s)

theorem Shows.read {d : Drive} {k : Disk} (shows_ : Shows d k) (lba count : Nat) (buf : Buffer) : k.read lba count buf =
    (d.answers lba count, splice buf 0 (d.has lba count * sectorSize) (window d.bytes (lba * sectorSize)),
      k.note ⟨false, lba, count⟩) := by
  rw [Disk.read, if_pos shows_.present, Disk.answer, shows_.verdict, shows_.bytes, Drive.answers]
  dsimp only
  split
  next fits =>
    have all : d.has lba count = count := by
      unfold Drive.has
      omega
    rw [all]
    rfl
  next =>
    rw [Disk.rc, Disk.moved, Drive.has, Nat.min_comm]

theorem Shows.write {d : Drive} {k : Disk} (shows_ : Shows d k) (lba count : Nat) (buf : Buffer) : k.write lba count buf =
    (d.answers lba count, { k.note ⟨true, lba, count⟩ with
      bytes := splice d.bytes (lba * sectorSize) (d.has lba count * sectorSize) buf }) := by
  rw [Disk.write, if_pos shows_.present, Disk.answer, shows_.verdict, shows_.bytes, Drive.answers]
  dsimp only
  split
  next fits =>
    have all : d.has lba count = count := by
      unfold Drive.has
      omega
    rw [all]
    rfl
  next =>
    rw [Disk.rc, Disk.moved, Drive.has, Nat.min_comm]

/-- One drive and its disk change together. -/
theorem Mirrors.change {ext : Bool → Bool} {c c' : Channel} {k : Bool → Disk} {s : Bool} {d : Drive} {disk : Disk}
    (mirrors : Mirrors ext c k) (rest : Resting c') (drives : c'.drives = Function.update c.drives s (some d))
    (flag : ext s = d.ext) (shown : Shows d disk) : Mirrors ext c' (Function.update k s disk) := by
  constructor
  · exact rest
  · intro t none_
    rw [drives] at none_
    by_cases same : t = s
    · rw [same, Function.update_self] at none_
      cases none_
    · rw [Function.update_of_ne same] at none_ ⊢
      exact mirrors.absent t none_
  · intro t e there
    rw [drives] at there
    by_cases same : t = s
    · rw [same, Function.update_self] at there
      rw [same, flag, Option.some.inj there]
    · rw [Function.update_of_ne same] at there
      exact mirrors.ext t e there
  · intro t e there
    rw [drives] at there
    by_cases same : t = s
    · rw [same, Function.update_self] at there ⊢
      rw [← Option.some.inj there]
      exact shown
    · rw [Function.update_of_ne same] at there ⊢
      exact mirrors.shows t e there

end Zenbite.Ata
