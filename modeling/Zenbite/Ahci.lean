import Mathlib.Data.Nat.Count
import Zenbite.Lib.Memory

/-! The AHCI driver (ahci.c): the structures that commands are written into, by ahci_init for
each port and by the transfers behind it. -/

namespace Zenbite.Ahci

open Memory

/-- AHCI_SLOT_BASE -/
def slotBase : Nat := 4

/-- AHCI_SLOT_MAX -/
def slotMax : Nat := 4

/-- The rounds of the polling loop in ahci_issue. -/
@[irreducible] def issuePolls : Nat := 2000000

/-- Where the linker put the arrays of the driver. -/
structure Statics where
  cmdList : Nat
  fisBuf : Nat
  cmdTable : Nat
  ioBuf : Nat

namespace Statics

variable (S : Statics) (i : Nat)

/-- `&g_cmd_list[i]` -/
def list : Nat := u32 (S.cmdList + 1024 * i)

/-- `&g_fis_buf[i]` -/
def fis : Nat := u32 (S.fisBuf + 256 * i)

/-- `&g_cmd_table[i]` -/
def table : Nat := u32 (S.cmdTable + 144 * i)

end Statics

/-- `struct hba_cmd_hdr`, but for what stays 0. -/
structure CmdHdr where
  cfl : Nat
  w : Bool
  prdtl : Nat
  ctba : Nat
  deriving DecidableEq

/-- `struct hba_cmd_table`, but for what stays 0. -/
structure CmdTable where
  cfis : List UInt8
  dba : Nat
  dbc : UInt32
  deriving DecidableEq

/-- A command when its bit in PORT_CI is written: the places in g_cmd_list and g_cmd_table that
it was written to, and the list that the port is to fetch it from. -/
structure Command where
  port : Nat
  clb : Nat
  list : Nat
  table : Nat
  header : CmdHdr
  content : CmdTable
  deriving DecidableEq

/-- What a port answers to a command of ahci_issue: PORT_CI and PORT_IS in each round, then
PORT_TFD, and PORT_CI by then. -/
structure Answers where
  ci : Nat → UInt32
  is : Nat → UInt32
  tfd : UInt32
  ciEnd : UInt32

inductive Polled where
  | cleared
  | taskFileError
  | timedOut
  deriving DecidableEq

namespace Answers

variable (a : Answers)

def pending (t : Nat) : Bool := a.ci t &&& 1 != 0

/-- PORT_IS has the bit for a task file error. -/
def taskFileError (t : Nat) : Bool := a.is t &&& 0x40000000 != 0

/-- PORT_TFD_ERR -/
def tfdErr : Bool := a.tfd &&& 1 != 0

def pendingEnd : Bool := a.ciEnd &&& 1 != 0

/-- The loop of ahci_issue from round `t` on. -/
def poll : Nat → Nat → Polled
  | 0, _ => .timedOut
  | left + 1, t =>
    if a.pending t = false then .cleared
    else if a.taskFileError t then .taskFileError
    else poll left (t + 1)

/-- ahci_issue returns 0. -/
def ok : Bool := a.poll issuePolls 0 != .taskFileError && !a.tfdErr

end Answers

/-- A call of ahci_issue, and whether it returned 0. -/
structure Issue where
  command : Command
  answers : Answers
  ok : Bool

section

variable (S : Statics) (p clb : Nat)

/-- What ahci_issue and ahci_identify have in common. -/
def command (write : Bool) (content : CmdTable) : Command :=
  { port := p, clb := clb, list := p, table := p
    header := { cfl := 5, w := write, prdtl := 1, ctba := S.table p }, content := content }

def ahciIssue (write : Bool) (lba : UInt32) (count : UInt16) (buf : UInt32) (a : Answers) : Issue :=
  { command := command S p clb write
      { cfis := [0x27, 0x80, if write then 0x35 else 0x25, 0, lba.toUInt8, (lba >>> 8).toUInt8, (lba >>> 16).toUInt8,
          0x40, (lba >>> 24).toUInt8, 0, 0, 0, count.toUInt8, (count >>> 8).toUInt8] ++ List.replicate 50 0
        dba := buf.toNat, dbc := count.toUInt32 * 512 - 1 }
    answers := a, ok := a.ok }

/-- `count > 127 ? 127 : (u16)count` -/
def chunk (count : Nat) : Nat := if 127 < count then 127 else count

/-- The loop of ahci_read and ahci_write, from their `k`-th command on. -/
def transfer (write : Bool) (answers : Nat → Answers) (k : Nat) (lba : UInt32) (count : Nat) (buf : UInt32) :
    Bool × List Issue :=
  if count = 0 then (true, [])
  else
    let n := chunk count
    let issue := ahciIssue S p clb write lba (UInt16.ofNat n) buf (answers k)
    if issue.ok then
      let rest := transfer write answers (k + 1) (lba + UInt32.ofNat n) (count - n) (buf + UInt32.ofNat (n * 512))
      (rest.1, issue :: rest.2)
    else (false, [issue])
termination_by count
decreasing_by
  rw [chunk]
  split <;> omega

/-- The command of ahci_identify. -/
def identifyCommand : Command :=
  command S p clb false { cfis := [0x27, 0x80, 0xEC] ++ List.replicate 61 0, dba := u32 S.ioBuf, dbc := 511 }

end

/-- What a port answers to ahci_init: PORT_SSTS, and PORT_TFD with words 60 and 61 of the sector
in g_io_buf behind the command. -/
structure Port where
  ssts : UInt32
  tfd : UInt32
  word60 : UInt16
  word61 : UInt16

/-- `ahci_identify` -/
def Port.identify (port : Port) : UInt32 :=
  if port.tfd &&& 1 != 0 then 0 else port.word60.toUInt32 ||| port.word61.toUInt32 <<< 16

structure Hba where
  pi : UInt32
  port : Nat → Port

/-- The port is implemented, and a device is on it. -/
def Hba.present (hba : Hba) (p : Nat) : Bool := hba.pi.toNat.testBit p && (hba.port p).ssts &&& 0x0F == 3

/-- A registered disk, with its port in `priv`. -/
structure Disk where
  sectors : UInt32
  port : Nat
  deriving DecidableEq

/-- The driver and its ports: PORT_CLB and PORT_FB, the disks from slot AHCI_SLOT_BASE on, and
the commands so far. -/
structure Driver where
  clb : Nat → Nat := fun _ => 0
  fb : Nat → Nat := fun _ => 0
  disks : List Disk := []
  identified : List Command := []
  issues : List Issue := []

/-- A call of disk_read or disk_write on a slot, with what the port answers to each command. -/
structure Call where
  slot : Nat
  write : Bool
  lba : UInt32
  count : UInt32
  buf : UInt32
  answers : Nat → Answers

namespace Driver

variable (S : Statics) (d : Driver)

/-- The rest of the loop of ahci_init for a port with a device. -/
def attach (hba : Hba) (p : Nat) : Driver :=
  let idx := d.disks.length
  let d := { d with
    clb := Function.update d.clb p (S.list idx), fb := Function.update d.fb p (S.fis idx)
    identified := d.identified ++ [identifyCommand S p (S.list idx)] }
  let secs := (hba.port p).identify
  if secs = 0 then d else { d with disks := d.disks ++ [{ sectors := secs, port := p }] }

/-- One round of the loop, of which none is left after the last slot is taken. -/
def probe (hba : Hba) (p : Nat) : Driver :=
  if d.disks.length < slotMax ∧ hba.present p then d.attach S hba p else d

/-- The commands of one call. -/
def send (c : Call) : List Issue :=
  ((if c.slot < slotBase then none else d.disks[c.slot - slotBase]?).elim [] fun disk =>
    (transfer S disk.port (d.clb disk.port) c.write c.answers 0 c.lba c.count.toNat c.buf).2)

def call (c : Call) : Driver := { d with issues := d.issues ++ d.send S c }

/-- All commands so far. -/
def commands : List Command := d.identified ++ d.issues.map Issue.command

end Driver

/-- `ahci_init` up to port `n` -/
def probeTo (S : Statics) (hba : Hba) (n : Nat) : Driver := (List.range n).foldl (fun d p => d.probe S hba p) {}

def ahciInit (S : Statics) (hba : Hba) : Driver := probeTo S hba 32

/-- A run: ahci_init, then calls. -/
def run (S : Statics) (hba : Hba) (calls : List Call) : Driver := calls.foldl (Driver.call S) (ahciInit S hba)

/-! The claims of a run, and when it meets them -/

/-- The controller has cleared the command, seen by the loop or not. -/
def Answers.Cleared (a : Answers) : Prop := (∃ t < issuePolls, a.pending t = false) ∨ a.pendingEnd = false

/-- The controller neither clears the command nor reports an error. -/
def Answers.Silent (a : Answers) : Prop :=
  (∀ t < issuePolls, a.pending t ∧ a.taskFileError t = false) ∧ a.pendingEnd ∧ a.tfdErr = false

/-- The controller reports an error: in PORT_IS while the command is pending, or in PORT_TFD. -/
def Answers.Fails (a : Answers) : Prop :=
  (∃ t < issuePolls, a.taskFileError t ∧ ∀ u ≤ t, a.pending u) ∨ a.tfdErr

/-- Commands lie where their port fetches them, disks have lists of their own, and 0 means that
the command is done. -/
structure Sound (S : Statics) (d : Driver) : Prop where
  placed : ∀ c ∈ d.commands, S.list c.list = c.clb ∧ c.table < slotMax
  apart : d.disks.Pairwise fun a b => d.clb a.port ≠ d.clb b.port ∧ S.list a.port ≠ S.list b.port
  cleared : ∀ i ∈ d.issues, i.ok → i.answers.Cleared

namespace Hba

variable (hba : Hba)

/-- A disk is on the port. -/
def Identifies (p : Nat) : Prop := hba.present p ∧ (hba.port p).identify ≠ 0

instance : DecidablePred hba.Identifies := fun _ => inferInstanceAs (Decidable (_ ∧ _))

/-- A device is on the port, and a slot left for it. -/
def Probed (p : Nat) : Prop := hba.present p ∧ Nat.count hba.Identifies p < slotMax

/-- A disk is in the slot. -/
def HasDisk (slot : Nat) : Prop := slotBase ≤ slot ∧ slot - slotBase < min slotMax (Nat.count hba.Identifies 32)

/-- The ports below one with a device all have disks. -/
def Packed : Prop := ∀ p < 32, hba.Probed p → ∀ q < p, hba.Identifies q

end Hba

/-- The call comes to its `k`-th command. -/
def Call.Sends (c : Call) (k : Nat) : Prop := 127 * k < c.count.toNat ∧ ∀ j < k, ¬(c.answers j).Fails

/-! ahci_issue -/

namespace Answers

variable {a : Answers}

/-- An error from round `t` on is one in that round or one behind it. -/
theorem error_from {left t : Nat} :
    (∃ u < left + 1, a.taskFileError (t + u) ∧ ∀ v ≤ u, a.pending (t + v)) ↔
      a.pending t ∧ (a.taskFileError t ∨
        ∃ u < left, a.taskFileError (t + 1 + u) ∧ ∀ v ≤ u, a.pending (t + 1 + v)) := by
  have shift (u : Nat) : t + 1 + u = t + (u + 1) := Nat.add_right_comm t 1 u
  simp only [shift]
  constructor
  · rintro ⟨u, below, error, before⟩
    refine ⟨before 0 (Nat.zero_le u), ?_⟩
    cases u with
    | zero => exact Or.inl error
    | succ u => exact Or.inr ⟨u, Nat.lt_of_succ_lt_succ below, error, fun v le => before (v + 1) (Nat.succ_le_succ le)⟩
  · rintro ⟨pending, error | ⟨u, below, error, before⟩⟩
    · refine ⟨0, Nat.succ_pos left, error, fun v first => ?_⟩
      rw [Nat.le_zero.mp first]
      exact pending
    · refine ⟨u + 1, Nat.succ_lt_succ below, error, fun v le => ?_⟩
      cases v with
      | zero => exact pending
      | succ v => exact before v (Nat.le_of_succ_le_succ le)

theorem poll_error (left : Nat) (t : Nat) : a.poll left t = .taskFileError ↔
    ∃ u < left, a.taskFileError (t + u) ∧ ∀ v ≤ u, a.pending (t + v) := by
  induction left generalizing t with
  | zero =>
      constructor
      · intro none
        cases none
      · exact fun ⟨u, below, _⟩ => absurd below (Nat.not_lt_zero u)
  | succ left ih =>
      rw [poll, error_from, ← ih]
      cases a.pending t with
      | false => simp
      | true => cases a.taskFileError t <;> simp

theorem ok_iff : a.ok ↔ ¬a.Fails := by
  have error := poll_error (a := a) issuePolls 0
  simp only [Nat.zero_add] at error
  rw [Fails, ← error, ok]
  simp

/-- What 0 means holds of all answers but silent ones. -/
theorem ok_cleared_iff : (a.ok → a.Cleared) ↔ ¬a.Silent := by
  rw [ok_iff]
  constructor
  · rintro means ⟨polls, pendingEnd, noErr⟩
    have noFail : ¬a.Fails := by
      rintro (⟨t, below, error, _⟩ | error)
      · rw [(polls t below).2] at error
        cases error
      · rw [noErr] at error
        cases error
    rcases means noFail with ⟨t, below, clear⟩ | clear
    · rw [(polls t below).1] at clear
      cases clear
    · rw [pendingEnd] at clear
      cases clear
  · intro heard noFail
    by_contra stuck
    rw [Cleared, not_or, not_exists] at stuck
    have pending : ∀ t < issuePolls, a.pending t := fun t below => by
      simpa [below] using stuck.1 t
    refine heard ⟨fun t below => ⟨pending t below, ?_⟩, by simpa using stuck.2, ?_⟩
    · by_contra error
      rw [Bool.not_eq_false] at error
      exact noFail (Or.inl ⟨t, below, error, fun u le => pending u (Nat.lt_of_le_of_lt le below)⟩)
    · by_contra error
      rw [Bool.not_eq_false] at error
      exact noFail (Or.inr error)

end Answers

/-! The commands of a call -/

section

variable {S : Statics} {p clb : Nat} {write : Bool} {answers : Nat → Answers}

theorem transfer_none {k : Nat} {lba buf : UInt32} : transfer S p clb write answers k lba 0 buf = (true, []) := by
  rw [transfer, if_pos rfl]

theorem sub_chunk (count : Nat) : count - chunk count = count - 127 := by
  rw [chunk]
  split <;> omega

/-- The first command, and the rest of the call if it is done. -/
theorem transfer_some {k count : Nat} {lba buf : UInt32} (some' : count ≠ 0) :
    (transfer S p clb write answers k lba count buf).2 =
      ahciIssue S p clb write lba (UInt16.ofNat (chunk count)) buf (answers k) ::
        if (answers k).ok then (transfer S p clb write answers (k + 1) (lba + UInt32.ofNat (chunk count)) (count - 127)
          (buf + UInt32.ofNat (chunk count * 512))).2 else [] := by
  rw [transfer, if_neg some', ← sub_chunk]
  cases done : (answers k).ok with
  | true => exact congrArg Prod.snd (if_pos done)
  | false => exact congrArg Prod.snd (if_neg (ne_true_of_eq_false done))

theorem transfer_mem {i : Issue} (count : Nat) {k : Nat} {lba buf : UInt32}
    (sent : i ∈ (transfer S p clb write answers k lba count buf).2) :
    ∃ lba n buf a, i = ahciIssue S p clb write lba n buf a := by
  induction count using Nat.strong_induction_on generalizing k lba buf with
  | _ count ih =>
      by_cases some' : count = 0
      · rw [some', transfer_none] at sent
        cases sent
      · rw [transfer_some some'] at sent
        rcases List.mem_cons.mp sent with first | later
        · exact ⟨lba, _, buf, answers k, first⟩
        · split at later
          · exact ih (count - 127) (by omega) later
          · cases later

/-- A fact about answers holds of all commands of a call if it holds of those that the call
comes to. -/
theorem transfer_forall_iff {P : Answers → Prop} (count : Nat) {k : Nat} {lba buf : UInt32} :
    (∀ i ∈ (transfer S p clb write answers k lba count buf).2, P i.answers) ↔
      ∀ j, 127 * j < count → (∀ i < j, (answers (k + i)).ok) → P (answers (k + j)) := by
  induction count using Nat.strong_induction_on generalizing k lba buf with
  | _ count ih =>
      by_cases some' : count = 0
      · rw [some', transfer_none]
        exact iff_of_true (List.forall_mem_nil _) fun j few => absurd few (Nat.not_lt_zero _)
      · have shift (j : Nat) : k + 1 + j = k + (j + 1) := Nat.add_right_comm k 1 j
        have more (j : Nat) : 127 * j < count - 127 ↔ 127 * (j + 1) < count := by omega
        have first : 127 * 0 < count := Nat.pos_of_ne_zero some'
        rw [transfer_some some', List.forall_mem_cons, ← Nat.and_forall_add_one]
        apply and_congr
        · exact ⟨fun here _ _ => here, fun here => here first fun i below => absurd below (Nat.not_lt_zero i)⟩
        · by_cases done : (answers k).ok
          · rw [if_pos done, ih (count - 127) (by omega)]
            apply forall_congr'
            intro j
            rw [more, shift, Nat.forall_lt_succ_left]
            simp only [shift, Nat.add_zero, done, true_and]
          · rw [if_neg done]
            exact iff_of_true (List.forall_mem_nil _) fun j _ all => absurd (all 0 (Nat.succ_pos j)) done

end

/-! ahci_init -/

theorem Statics.list_inj {S : Statics} {i j : Nat} (small : i ≤ 32) (small' : j ≤ 32) : S.list i = S.list j ↔ i = j := by
  rw [list, list, u32, u32]
  omega

/-- The driver after the ports below `n`. -/
structure Inited (S : Statics) (hba : Hba) (n : Nat) (d : Driver) : Prop where
  slots : d.disks.length = min slotMax (Nat.count hba.Identifies n)
  disks : ∀ disk ∈ d.disks, disk.port < n ∧ hba.Probed disk.port ∧ hba.Identifies disk.port
  sorted : d.disks.Pairwise fun a b => a.port < b.port
  clb : ∀ p < n, hba.Probed p → d.clb p = S.list (Nat.count hba.Identifies p)
  identified : ∀ c, c ∈ d.identified ↔
    ∃ p < n, hba.Probed p ∧ c = identifyCommand S p (S.list (Nat.count hba.Identifies p))
  issues : d.issues = []

section

variable {S : Statics} {hba : Hba} {n : Nat} {d : Driver}

theorem Inited.start : Inited S hba 0 {} where
  slots := by rw [Nat.count_zero, Nat.min_zero]; rfl
  disks := List.forall_mem_nil _
  sorted := List.Pairwise.nil
  clb p below := absurd below (Nat.not_lt_zero p)
  identified c := iff_of_false List.not_mem_nil fun ⟨p, below, _⟩ => Nat.not_lt_zero p below
  issues := rfl

theorem Inited.probed (init : Inited S hba n d) : (d.disks.length < slotMax ∧ hba.present n) ↔ hba.Probed n := by
  rw [init.slots, Hba.Probed, and_comm, min_lt_iff]
  simp

/-- A port without a device, or without a slot left. -/
theorem Inited.skip (init : Inited S hba n d) (other : ¬hba.Probed n) : Inited S hba (n + 1) d where
  slots := by
    have full : hba.Identifies n → slotMax ≤ Nat.count hba.Identifies n := fun disk =>
      Nat.not_lt.mp fun free => other ⟨disk.1, free⟩
    rw [init.slots, Nat.count_succ]
    split
    next disk => rw [Nat.min_eq_left (full disk), Nat.min_eq_left (Nat.le_succ_of_le (full disk))]
    next => rfl
  disks disk mem := ⟨Nat.lt_succ_of_lt (init.disks disk mem).1, (init.disks disk mem).2⟩
  sorted := init.sorted
  clb p below probed := by
    rcases Nat.lt_succ_iff_lt_or_eq.mp below with before | rfl
    · exact init.clb p before probed
    · exact absurd probed other
  identified c := by
    rw [init.identified, Nat.exists_lt_succ_right]
    exact ⟨Or.inl, fun either => either.resolve_right fun here => other here.1⟩
  issues := init.issues

theorem attach_disks (p : Nat) : (d.attach S hba p).disks =
    d.disks ++ if (hba.port p).identify = 0 then [] else [{ sectors := (hba.port p).identify, port := p }] := by
  rw [Driver.attach]
  dsimp only
  split
  next => exact (List.append_nil d.disks).symm
  next => rfl

theorem attach_rest (p : Nat) : (d.attach S hba p).clb = Function.update d.clb p (S.list d.disks.length) ∧
    (d.attach S hba p).identified = d.identified ++ [identifyCommand S p (S.list d.disks.length)] ∧
    (d.attach S hba p).issues = d.issues := by
  rw [Driver.attach]
  dsimp only
  split <;> exact ⟨rfl, rfl, rfl⟩

/-- A device is asked through the list of the next slot. -/
theorem Inited.attach (init : Inited S hba n d) (probed : hba.Probed n) : Inited S hba (n + 1) (d.attach S hba n) := by
  have slot : d.disks.length = Nat.count hba.Identifies n := init.slots.trans (Nat.min_eq_right probed.2.le)
  obtain ⟨clb, identified, issues⟩ := @attach_rest S hba d n
  rw [slot] at clb identified
  constructor
  · rw [attach_disks, List.length_append, slot, Nat.count_succ]
    have free : Nat.count hba.Identifies n + 1 ≤ slotMax := probed.2
    by_cases none : (hba.port n).identify = 0
    · have other : ¬hba.Identifies n := fun disk => disk.2 none
      rw [if_pos none, if_neg other]
      exact (Nat.min_eq_right probed.2.le).symm
    · have disk : hba.Identifies n := ⟨probed.1, none⟩
      rw [if_neg none, if_pos disk]
      exact (Nat.min_eq_right free).symm
  · intro disk mem
    rw [attach_disks] at mem
    rcases List.mem_append.mp mem with before | new
    · exact ⟨Nat.lt_succ_of_lt (init.disks disk before).1, (init.disks disk before).2⟩
    · split at new
      · cases new
      next some' =>
        rw [List.mem_singleton.mp new]
        exact ⟨Nat.lt_succ_self n, probed, probed.1, some'⟩
  · rw [attach_disks, List.pairwise_append]
    refine ⟨init.sorted, by split; exacts [List.Pairwise.nil, List.pairwise_singleton _ _], fun old mem new mem' => ?_⟩
    split at mem'
    · cases mem'
    · rw [List.mem_singleton.mp mem']
      exact (init.disks old mem).1
  · intro p below probed'
    rw [clb]
    rcases Nat.lt_succ_iff_lt_or_eq.mp below with before | rfl
    · rw [Function.update_of_ne (Nat.ne_of_lt before)]
      exact init.clb p before probed'
    · exact Function.update_self _ _ _
  · intro c
    rw [identified, List.mem_append, List.mem_singleton, init.identified, Nat.exists_lt_succ_right]
    exact or_congr Iff.rfl ⟨fun new => ⟨probed, new⟩, fun here => here.2⟩
  · rw [issues, init.issues]

theorem inited (n : Nat) : Inited S hba n (probeTo S hba n) := by
  induction n with
  | zero => exact Inited.start
  | succ n ih =>
      have next : probeTo S hba (n + 1) = (probeTo S hba n).probe S hba n := by
        rw [probeTo, List.range_succ, List.foldl_append]
        rfl
      rw [next, Driver.probe]
      by_cases probed : hba.Probed n
      · rw [if_pos (ih.probed.mpr probed)]
        exact ih.attach probed
      · rw [if_neg (mt ih.probed.mp probed)]
        exact ih.skip probed

end

/-! Runs -/

section

variable {S : Statics} {hba : Hba} {calls : List Call} {d : Driver} {c : Call} {i : Issue}

/-- Calls change nothing but the commands. -/
theorem calls_issues (calls : List Call) (d : Driver) :
    calls.foldl (Driver.call S) d = { d with issues := d.issues ++ calls.flatMap (d.send S) } := by
  induction calls generalizing d with
  | nil => rw [List.flatMap_nil, List.append_nil, List.foldl_nil]
  | cons c rest ih =>
      have same : (d.call S c).send S = d.send S := rfl
      rw [List.foldl_cons, ih, same, List.flatMap_cons, ← List.append_assoc]
      rfl

theorem run_issues (calls : List Call) : (run S hba calls).issues = calls.flatMap ((ahciInit S hba).send S) := by
  have none : (ahciInit S hba).issues = [] := (inited 32).issues
  rw [run, calls_issues, none]
  exact List.nil_append _

theorem run_disks (calls : List Call) : (run S hba calls).disks = (ahciInit S hba).disks := by
  rw [run, calls_issues]

theorem run_clb (calls : List Call) : (run S hba calls).clb = (ahciInit S hba).clb := by
  rw [run, calls_issues]

theorem run_commands (calls : List Call) : (run S hba calls).commands =
    (ahciInit S hba).identified ++ (calls.flatMap ((ahciInit S hba).send S)).map Issue.command := by
  rw [Driver.commands, run_issues, run, calls_issues]

/-- A command of a call is one on the port of a disk. -/
theorem send_mem (sent : i ∈ d.send S c) : ∃ disk ∈ d.disks, ∃ write lba n buf a,
    i = ahciIssue S disk.port (d.clb disk.port) write lba n buf a := by
  rw [Driver.send] at sent
  cases found : (if c.slot < slotBase then none else d.disks[c.slot - slotBase]?) with
  | none =>
      rw [found] at sent
      cases sent
  | some disk =>
      rw [found] at sent
      obtain ⟨lba, n, buf, a, same⟩ := transfer_mem c.count.toNat sent
      refine ⟨disk, ?_, c.write, lba, n, buf, a, same⟩
      split at found
      · cases found
      · exact List.mem_of_getElem? found

theorem Call.sends_iff (k : Nat) : c.Sends k ↔ 127 * k < c.count.toNat ∧ ∀ j < k, (c.answers j).ok := by
  simp only [Sends, Answers.ok_iff]

theorem send_forall_iff {P : Answers → Prop} : (∀ i ∈ (ahciInit S hba).send S c, P i.answers) ↔
    (hba.HasDisk c.slot → ∀ k, c.Sends k → P (c.answers k)) := by
  have slots : (ahciInit S hba).disks.length = min slotMax (Nat.count hba.Identifies 32) := (inited 32).slots
  have each (disk : Disk) : (∀ i ∈ (transfer S disk.port ((ahciInit S hba).clb disk.port) c.write c.answers 0 c.lba
      c.count.toNat c.buf).2, P i.answers) ↔ ∀ k, c.Sends k → P (c.answers k) := by
    rw [transfer_forall_iff]
    simp only [Call.sends_iff, Nat.zero_add, and_imp]
  rw [Driver.send, Hba.HasDisk, ← slots]
  by_cases low : c.slot < slotBase
  · rw [if_pos low]
    exact iff_of_true (List.forall_mem_nil _) fun has => absurd low (Nat.not_lt.mpr has.1)
  · rw [if_neg low]
    cases found : (ahciInit S hba).disks[c.slot - slotBase]? with
    | none =>
        have beyond := List.getElem?_eq_none_iff.mp found
        exact iff_of_true (List.forall_mem_nil _) fun has => absurd has.2 (Nat.not_lt.mpr beyond)
    | some disk =>
        obtain ⟨inside, _⟩ := List.getElem?_eq_some_iff.mp found
        refine (each disk).trans ⟨fun all _ => all, fun all => all ⟨Nat.not_lt.mp low, inside⟩⟩

/-- A list is programmed into its own port alone if all ports below have disks. -/
theorem placed_iff {p : Nat} (below : p < 32) (probed : hba.Probed p) :
    (S.list p = S.list (Nat.count hba.Identifies p) ∧ p < slotMax) ↔ ∀ q < p, hba.Identifies q := by
  have small : Nat.count hba.Identifies p ≤ 32 := (Nat.count_le _).trans below.le
  have slot : Nat.count hba.Identifies p = p → p < slotMax := fun packed => by
    have free := probed.2
    rwa [packed] at free
  calc S.list p = S.list (Nat.count hba.Identifies p) ∧ p < slotMax
      ↔ Nat.count hba.Identifies p = p ∧ p < slotMax := by rw [Statics.list_inj below.le small, eq_comm]
    _ ↔ Nat.count hba.Identifies p = p := and_iff_left_of_imp slot
    _ ↔ ∀ q < p, hba.Identifies q := Nat.count_iff_forall

theorem issue_placed {p clb : Nat} {write : Bool} {lba buf : UInt32} {n : UInt16} {a : Answers} :
    (S.list (ahciIssue S p clb write lba n buf a).command.list = (ahciIssue S p clb write lba n buf a).command.clb ∧
      (ahciIssue S p clb write lba n buf a).command.table < slotMax) ↔ S.list p = clb ∧ p < slotMax :=
  Iff.rfl

theorem run_placed_iff : (∀ c ∈ (run S hba calls).commands, S.list c.list = c.clb ∧ c.table < slotMax) ↔ hba.Packed := by
  have init : Inited S hba 32 (ahciInit S hba) := inited 32
  rw [run_commands, List.forall_mem_append]
  constructor
  · rintro ⟨asked, _⟩ p below probed
    exact (placed_iff below probed).mp (asked _ ((init.identified _).mpr ⟨p, below, probed, rfl⟩))
  · intro packed
    constructor
    · intro c mem
      obtain ⟨p, below, probed, rfl⟩ := (init.identified c).mp mem
      exact (placed_iff below probed).mpr (packed p below probed)
    · intro c ofCalls
      obtain ⟨i, ofCall, rfl⟩ := List.mem_map.mp ofCalls
      obtain ⟨call, _, sent⟩ := List.mem_flatMap.mp ofCall
      obtain ⟨disk, registered, write, lba, n, buf, a, rfl⟩ := send_mem sent
      have ⟨below, probed, _⟩ := init.disks disk registered
      have fetched := (placed_iff (S := S) below probed).mpr (packed disk.port below probed)
      rw [← init.clb disk.port below probed] at fetched
      exact issue_placed.mpr fetched

/-- Registered disks never share a list, neither where it is programmed nor where it is written. -/
theorem run_apart : (run S hba calls).disks.Pairwise fun a b =>
    (run S hba calls).clb a.port ≠ (run S hba calls).clb b.port ∧ S.list a.port ≠ S.list b.port := by
  have init : Inited S hba 32 (ahciInit S hba) := inited 32
  rw [run_disks, run_clb]
  apply init.sorted.imp_of_mem
  intro a b ina inb less
  obtain ⟨belowA, probedA, diskA⟩ := init.disks a ina
  obtain ⟨belowB, probedB, _⟩ := init.disks b inb
  rw [init.clb a.port belowA probedA, init.clb b.port belowB probedB]
  have lists := Nat.count_strict_mono diskA less
  constructor
  · rw [Ne, Statics.list_inj ((Nat.count_le _).trans belowA.le) ((Nat.count_le _).trans belowB.le)]
    exact lists.ne
  · rw [Ne, Statics.list_inj belowA.le belowB.le]
    exact less.ne

theorem issue_ok (sent : i ∈ d.send S c) : i.ok = i.answers.ok := by
  obtain ⟨disk, _, write, lba, n, buf, a, rfl⟩ := send_mem sent
  rfl

theorem run_cleared_iff : (∀ i ∈ (run S hba calls).issues, i.ok → i.answers.Cleared) ↔
    ∀ c ∈ calls, hba.HasDisk c.slot → ∀ k, c.Sends k → ¬(c.answers k).Silent := by
  rw [run_issues, List.forall_mem_flatMap]
  apply forall_congr'
  intro c
  apply imp_congr_right
  intro _
  simp only [← Answers.ok_cleared_iff]
  rw [← send_forall_iff (S := S) (P := fun a => a.ok → a.Cleared)]
  apply forall_congr'
  intro i
  apply imp_congr_right
  intro sent
  rw [issue_ok sent]

end

/-- A run is sound exactly when every port below one with a device has a disk, and the controller
leaves no command of it pending without an error. -/
theorem ahci_sound_iff (S : Statics) (hba : Hba) (calls : List Call) : Sound S (run S hba calls) ↔
    hba.Packed ∧ ∀ c ∈ calls, hba.HasDisk c.slot → ∀ k, c.Sends k → ¬(c.answers k).Silent := by
  rw [← @run_placed_iff S hba calls, ← run_cleared_iff (S := S)]
  exact ⟨fun sound => ⟨sound.placed, sound.cleared⟩, fun both => ⟨both.1, run_apart, both.2⟩⟩

/-- A disk of 2048 sectors on port 1 alone. -/
def onPortOne : Hba where
  pi := 0x3F
  port p := { ssts := if p = 1 then 0x123 else 0, tfd := 0x50, word60 := 2048, word61 := 0 }

def lowStatics : Statics := ⟨0x200000, 0x201000, 0x201400, 0x201800⟩

/-- IDENTIFY is written into list 1, and port 1 fetches it from list 0. -/
theorem ahci_onPortOne : ¬Sound lowStatics (run lowStatics onPortOne []) := by
  intro sound
  have packed : onPortOne.Packed := run_placed_iff.mp sound.placed
  have probed : onPortOne.Probed 1 := ⟨by decide, (Nat.count_le _).trans_lt (by decide)⟩
  have below : onPortOne.Identifies 0 := packed 1 (by decide) probed 0 (by decide)
  exact absurd below.1 (by decide)

end Zenbite.Ahci
