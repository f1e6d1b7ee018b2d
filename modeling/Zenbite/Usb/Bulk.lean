import Mathlib.Tactic.Common
import Zenbite.Lib.Spans

/-! Bulk transfers over UHCI (usb.c): the descriptors that one transfer puts into the pool. -/

namespace Zenbite.Usb

open Memory Spans

/-- BULK_MAX_TDS -/
def bulkMaxTds : Nat := 64

def pidIn : Nat := 0x69

def pidOut : Nat := 0xE1

/-- `TD_CS_ERRCNT(3) | ls_bit | TD_CS_ACTIVE` -/
def activeStatus (ls : Bool) : Nat := 3 <<< 27 ||| (if ls then 1 <<< 26 else 0) ||| 1 <<< 23

/-- `struct uhci_td`. A link is the place of the next descriptor in the pool, or none for
LP_TERMINATE. -/
structure Td where
  link : Option Nat
  ctlsts : Nat
  token : Nat
  buffer : Nat
  deriving DecidableEq

/-- `make_token` -/
def makeToken (pid addr ep tog len : Nat) : Nat :=
  let maxlen := if len = 0 then 0x7FF else len - 1
  u32 (pid ||| addr <<< 8 ||| ep <<< 15 ||| tog <<< 19 ||| maxlen <<< 21)

namespace Td

variable (td : Td)

/-- The length that the controller finds in the token, where 0x7FF stands for none. -/
def length : Nat := if td.token >>> 21 = 0x7FF then 0 else td.token >>> 21 + 1

def toggle : Bool := td.token.testBit 19

def span : Span := ⟨td.buffer, td.length⟩

@[simp] theorem span_start : td.span.start = td.buffer := rfl

@[simp] theorem span_length : td.span.length = td.length := rfl

end Td

/-- `struct msc_dev` -/
structure Msc where
  addr : Fin 128
  epIn : Fin 16
  epOut : Fin 16
  maxpIn : UInt16
  maxpOut : UInt16
  togIn : Bool
  togOut : Bool
  ls : Bool
  blockCount : UInt32
  blockSize : UInt32

/-- What bulk_transfer takes from the device for one direction. -/
structure Pipe where
  pid : Nat
  addr : Fin 128
  ep : Fin 16
  ls : Bool
  maxp : Nat

namespace Pipe

variable (p : Pipe) (data len : Nat)

def chunk (off : Nat) : Nat := if p.maxp < len - off then p.maxp else len - off

/-- The descriptor for the bytes from `off` on, when `left` places of the pool are behind it. -/
def td (left off : Nat) (tog : Bool) : Td :=
  { link := some (bulkMaxTds - left), ctlsts := activeStatus p.ls
    token := makeToken p.pid p.addr p.ep tog.toNat (p.chunk len off % 2 ^ 16), buffer := u32 (data + off) }

/-- The loop, from `off` on, with the places of the pool that are left; the descriptors and
the toggle behind them. -/
def fillPool : Nat → Nat → Bool → List Td × Bool
  | 0, _, tog => ([], tog)
  | left + 1, off, tog =>
    let td := p.td data len left off tog
    if left = 0 ∨ len = 0 ∨ len ≤ off + p.chunk len off then ([td], !tog)
    else
      let rest := fillPool left (off + p.chunk len off) (!tog)
      (td :: rest.1, rest.2)

end Pipe

/-- `g_bulk_td[ntds - 1].link = LP_TERMINATE` -/
def terminate : List Td → List Td
  | [] => []
  | [td] => [{ td with link := none }]
  | td :: rest => td :: terminate rest

namespace Msc

variable (m : Msc)

def pipe (dirIn : Bool) : Pipe :=
  let maxp := (if dirIn then m.maxpIn else m.maxpOut).toNat
  { pid := if dirIn then pidIn else pidOut, addr := m.addr, ep := if dirIn then m.epIn else m.epOut
    ls := m.ls, maxp := if maxp = 0 then 64 else maxp }

def toggle (dirIn : Bool) : Bool := if dirIn then m.togIn else m.togOut

def setToggle (dirIn tog : Bool) : Msc := if dirIn then { m with togIn := tog } else { m with togOut := tog }

/-- The pool that bulk_transfer gives to the controller, and the device behind it. -/
def bulkQueue (dirIn : Bool) (data len : UInt32) : List Td × Msc :=
  let filled := (m.pipe dirIn).fillPool data.toNat len.toNat bulkMaxTds 0 (m.toggle dirIn)
  (terminate filled.1, m.setToggle dirIn filled.2)

/-- `bulk_transfer`, where `wait i` is what td_wait finds of the i-th descriptor. -/
def bulkTransfer (dirIn : Bool) (data len : UInt32) (wait : Nat → Bool) : Bool × List Td × Msc :=
  let queue := m.bulkQueue dirIn data len
  ((List.range queue.1.length).all wait, queue)

end Msc

/-- The descriptors that the controller runs from one on, along the links of the pool. -/
def ranFrom (pool : List Td) : Nat → Option Nat → List Td
  | 0, _ => []
  | _ + 1, none => []
  | fuel + 1, some i => (pool[i]?).elim [] fun td => td :: ranFrom pool fuel td.link

def ran (pool : List Td) : List Td := ranFrom pool bulkMaxTds (some 0)

/-- The toggles take turns. -/
def Alternate : Bool → List Bool → Prop
  | _, [] => True
  | tog, t :: rest => t = tog ∧ Alternate (!tog) rest

/-- What a whole transfer is, with the descriptors that ran and the device behind it. -/
structure Whole (m : Msc) (dirIn : Bool) (data len : UInt32) (tds : List Td) (m' : Msc) : Prop where
  inOrder : Follow (2 ^ 32) data.toNat (tds.map Td.span)
  covers : total (tds.map Td.span) = len.toNat
  packets : ∀ td ∈ tds, td.length ≤ (m.pipe dirIn).maxp
  toggles : Alternate (m.toggle dirIn) (tds.map Td.toggle)
  stored : (m'.toggle dirIn).toNat = ((m.toggle dirIn).toNat + tds.length) % 2

/-- The pool has room for all packets, and a descriptor for the longest one. -/
def Fits (maxp len : Nat) : Prop := len ≤ bulkMaxTds * maxp ∧ min len maxp ≤ 2047

instance (maxp len : Nat) : Decidable (Fits maxp len) := inferInstanceAs (Decidable (_ ∧ _))

/-! Tokens -/

private theorem or_shifted (low high k : Nat) (below : low < 2 ^ k) : low ||| high <<< k = low + high * 2 ^ k := by
  rw [Nat.or_comm, ← Nat.shiftLeft_add_eq_or_of_lt below, Nat.shiftLeft_eq, Nat.add_comm]

/-- The fields of a token do not overlap. -/
theorem makeToken_eq {pid addr ep tog : Nat} (len : Nat) (hpid : pid < 2 ^ 8) (haddr : addr < 2 ^ 7) (hep : ep < 2 ^ 4)
    (htog : tog < 2) : makeToken pid addr ep tog len =
      u32 (pid + addr * 2 ^ 8 + ep * 2 ^ 15 + tog * 2 ^ 19 + (if len = 0 then 0x7FF else len - 1) * 2 ^ 21) := by
  rw [makeToken, or_shifted pid addr 8 hpid, or_shifted (pid + addr * 2 ^ 8) ep 15 (by omega),
    or_shifted (pid + addr * 2 ^ 8 + ep * 2 ^ 15) tog 19 (by omega),
    or_shifted (pid + addr * 2 ^ 8 + ep * 2 ^ 15 + tog * 2 ^ 19) _ 21 (by omega)]

theorem Td.length_le (td : Td) (word : td.token < 2 ^ 32) : td.length ≤ 2047 := by
  rw [Td.length, Nat.shiftRight_eq_div_pow]
  split_ifs <;> omega

namespace Pipe

variable {p : Pipe} {data len left off : Nat} {tog : Bool}

/-- The pid is one of the two. -/
def Known (p : Pipe) : Prop := p.pid < 2 ^ 8 ∧ 0 < p.maxp ∧ p.maxp < 2 ^ 16

theorem chunk_le : p.chunk len off ≤ p.maxp := by
  rw [chunk]
  split_ifs <;> omega

theorem td_token (known : p.Known) : (p.td data len left off tog).token =
    u32 (p.pid + p.addr.val * 2 ^ 8 + p.ep.val * 2 ^ 15 + tog.toNat * 2 ^ 19 +
      (if p.chunk len off = 0 then 0x7FF else p.chunk len off - 1) * 2 ^ 21) := by
  have word : p.chunk len off % 2 ^ 16 = p.chunk len off := Nat.mod_eq_of_lt (chunk_le.trans_lt known.2.2)
  have bit : tog.toNat < 2 := Bool.toNat_lt tog
  rw [td, word]
  exact makeToken_eq _ known.1 p.addr.isLt p.ep.isLt bit

/-- The length field has eleven bits. -/
theorem td_maxlen (known : p.Known) : (p.td data len left off tog).token >>> 21 =
    (if p.chunk len off = 0 then 0x7FF else p.chunk len off - 1) % 2 ^ 11 := by
  have haddr := p.addr.isLt
  have hep := p.ep.isLt
  have hpid := known.1
  have bit : tog.toNat < 2 := Bool.toNat_lt tog
  rw [td_token known, u32, Nat.shiftRight_eq_div_pow]
  omega

theorem td_length (known : p.Known) (small : p.chunk len off ≤ 2047) :
    (p.td data len left off tog).length = p.chunk len off := by
  rw [Td.length, td_maxlen known]
  split_ifs <;> omega

theorem td_length_le (known : p.Known) : (p.td data len left off tog).length ≤ p.chunk len off := by
  rw [Td.length, td_maxlen known]
  split_ifs <;> omega

theorem td_toggle (known : p.Known) : (p.td data len left off tog).toggle = tog := by
  have haddr := p.addr.isLt
  have hep := p.ep.isLt
  have hpid := known.1
  rw [Td.toggle, td_token known, u32, Nat.testBit_eq_decide_div_mod_eq]
  generalize (if p.chunk len off = 0 then 0x7FF else p.chunk len off - 1) = maxlen
  cases tog with
  | false => exact decide_eq_false (by rw [Bool.toNat_false]; omega)
  | true => exact decide_eq_true (by rw [Bool.toNat_true]; omega)

/-! The loop -/

theorem fillPool_cons : (p.fillPool data len (left + 1) off tog).1 = p.td data len left off tog ::
    if left = 0 ∨ len = 0 ∨ len ≤ off + p.chunk len off then []
    else (p.fillPool data len left (off + p.chunk len off) (!tog)).1 := by
  rw [fillPool]
  split_ifs <;> rfl

theorem chunk_pos (known : p.Known) (more : off < len) : 0 < p.chunk len off := by
  have packet := known.2.1
  rw [chunk]
  split_ifs <;> omega

theorem chunk_inside (inside : off ≤ len) : off + p.chunk len off ≤ len := by
  rw [chunk]
  split_ifs <;> omega

theorem chunk_short (small : min len p.maxp ≤ 2047) : p.chunk len off ≤ 2047 := by
  rw [chunk]
  split_ifs <;> omega

theorem fillPool_packets (known : p.Known) (small : min len p.maxp ≤ 2047) :
    ∀ td ∈ (p.fillPool data len left off tog).1, td.length ≤ p.maxp := by
  induction left generalizing off tog with
  | zero =>
      intro td member
      cases member
  | succ left ih =>
      have here : (p.td data len left off tog).length ≤ p.maxp := by
        rw [td_length known (chunk_short small)]
        exact chunk_le
      intro td member
      rw [fillPool] at member
      split_ifs at member with last
      · exact List.mem_singleton.mp member ▸ here
      · rcases List.mem_cons.mp member with rfl | member
        · exact here
        · exact ih td member

/-- The descriptors follow each other, as far as their lengths are right. -/
theorem fillPool_inOrder (known : p.Known) (small : min len p.maxp ≤ 2047) :
    Follow (2 ^ 32) (data + off) ((p.fillPool data len left off tog).1.map Td.span) := by
  induction left generalizing off tog with
  | zero => exact follow_nil _ _
  | succ left ih =>
      rw [fillPool]
      split_ifs with last
      · exact ⟨rfl, trivial⟩
      · have next := @ih (off + p.chunk len off) (!tog)
        rw [← Nat.add_assoc] at next
        apply follow_cons.mpr
        exact ⟨rfl, (td_length known (chunk_short small)).symm ▸ next⟩

/-- They end where the length does, or where the pool does. -/
theorem fillPool_total (known : p.Known) (small : min len p.maxp ≤ 2047) (room : 0 < left) (inside : off ≤ len)
    (more : off < len ∨ len = 0) :
    off + total ((p.fillPool data len left off tog).1.map Td.span) = min len (off + left * p.maxp) := by
  induction left generalizing off tog with
  | zero => cases room
  | succ left ih =>
      have length := @td_length p data len left off tog known (chunk_short small)
      have bound := @chunk_inside p len off inside
      have product : (left + 1) * p.maxp = p.maxp + left * p.maxp := by
        rw [Nat.succ_mul, Nat.add_comm]
      rw [fillPool, product]
      split_ifs with last
      · rw [List.map_cons, List.map_nil, total_cons, total_nil, Td.span_length, length]
        rcases last with none | empty | all
        · subst none
          rw [Nat.zero_mul, chunk]
          split_ifs <;> omega
        · omega
        · have packet := @chunk_le p len off
          omega
      · have behind := @ih (off + p.chunk len off) (!tog) (by omega) bound (Or.inl (by omega))
        have whole : p.chunk len off = p.maxp := by
          rw [chunk] at last ⊢
          split_ifs at last ⊢ <;> omega
        rw [List.map_cons, total_cons, Td.span_length, length]
        rw [whole] at behind ⊢
        omega

theorem fillPool_toggles (known : p.Known) :
    Alternate tog ((p.fillPool data len left off tog).1.map Td.toggle) := by
  induction left generalizing off tog with
  | zero => trivial
  | succ left ih =>
      rw [fillPool]
      split_ifs with last
      · exact ⟨td_toggle known, trivial⟩
      · exact ⟨td_toggle known, ih⟩

theorem fillPool_stored : (p.fillPool data len left off tog).2.toNat =
    (tog.toNat + (p.fillPool data len left off tog).1.length) % 2 := by
  induction left generalizing off tog with
  | zero => cases tog <;> rfl
  | succ left ih =>
      have flip : (!tog).toNat = (tog.toNat + 1) % 2 := by
        cases tog <;> rfl
      rw [fillPool]
      split_ifs with last
      · exact flip
      · calc (p.fillPool data len left (off + p.chunk len off) (!tog)).2.toNat
            = ((!tog).toNat + (p.fillPool data len left (off + p.chunk len off) (!tog)).1.length) % 2 := ih
          _ = (tog.toNat + ((p.fillPool data len left (off + p.chunk len off) (!tog)).1.length + 1)) % 2 := by
            rw [flip]
            omega

theorem fillPool_total_le (known : p.Known) (inside : off ≤ len) :
    off + total ((p.fillPool data len left off tog).1.map Td.span) ≤ len := by
  induction left generalizing off tog with
  | zero => exact inside
  | succ left ih =>
      have here := @td_length_le p data len left off tog known
      have bound := @chunk_inside p len off inside
      have behind := @ih (off + p.chunk len off) (!tog) bound
      rw [fillPool_cons, List.map_cons, total_cons, Td.span_length]
      split_ifs with last
      · rw [List.map_nil, total_nil]
        omega
      · omega

/-- A descriptor for a longer packet says less than its packet has. -/
theorem fillPool_short (known : p.Known) (long : 2047 < min len p.maxp) :
    total ((p.fillPool data len bulkMaxTds 0 tog).1.map Td.span) < len := by
  have word : (p.td data len 63 0 tog).token < 2 ^ 32 := td_token known ▸ u32_lt _
  have short := Td.length_le _ word
  have packet : p.chunk len 0 = min len p.maxp := by
    rw [chunk]
    split_ifs <;> omega
  have behind := @fillPool_total_le p data len 63 (0 + p.chunk len 0) (!tog) known (by omega)
  rw [bulkMaxTds, @fillPool_cons p data len 63, List.map_cons, total_cons, Td.span_length]
  by_cases last : 63 = 0 ∨ len = 0 ∨ len ≤ 0 + p.chunk len 0
  · rw [if_pos last, List.map_nil, total_nil]
    omega
  · rw [if_neg last]
    omega

theorem fillPool_length : (p.fillPool data len left off tog).1.length ≤ left := by
  induction left generalizing off tog with
  | zero => exact Nat.le_refl 0
  | succ left ih =>
      rw [fillPool_cons, List.length_cons]
      split_ifs with last
      · exact Nat.succ_le_succ (Nat.zero_le left)
      · exact Nat.succ_le_succ ih

theorem fillPool_some (room : left ≠ 0) : (p.fillPool data len left off tog).1 ≠ [] := by
  cases left with
  | zero => exact absurd rfl room
  | succ left =>
      rw [fillPool_cons]
      exact List.cons_ne_nil _ _

end Pipe

/-! The run of the controller -/

/-- Each link leads to the next place, and the last one ends the queue. -/
def Linked : Nat → List Td → Prop
  | _, [] => True
  | i, td :: rest => td.link = (if rest = [] then none else some (i + 1)) ∧ Linked (i + 1) rest

theorem ranFrom_linked {rest : List Td} : ∀ (front : List Td) {fuel : Nat}, Linked front.length rest → rest ≠ [] →
    rest.length ≤ fuel → ranFrom (front ++ rest) fuel (some front.length) = rest := by
  induction rest with
  | nil =>
      intro front fuel linked some' enough
      exact absurd rfl some'
  | cons td rest ih =>
      intro front fuel linked some' enough
      cases fuel with
      | zero => cases enough
      | succ fuel =>
          have here : (front ++ td :: rest)[front.length]? = some td := by
            rw [List.getElem?_append_right (Nat.le_refl _), Nat.sub_self, List.getElem?_cons_zero]
          have moved : front ++ td :: rest = (front ++ [td]) ++ rest := by
            rw [List.append_assoc, List.singleton_append]
          have place : (front ++ [td]).length = front.length + 1 := by
            rw [List.length_append, List.length_singleton]
          rw [ranFrom, here, Option.elim_some, linked.1]
          apply congrArg (td :: ·)
          split_ifs with last
          · rw [last]
            cases fuel <;> rfl
          · rw [moved, ← place]
            exact ih (front ++ [td]) (place ▸ linked.2) last (Nat.le_of_succ_le_succ enough)

theorem terminate_cons (td : Td) {rest : List Td} (more : rest ≠ []) : terminate (td :: rest) = td :: terminate rest := by
  cases rest with
  | nil => exact absurd rfl more
  | cons next rest => rfl

theorem terminate_map {α : Type} {f : Td → α} (blind : ∀ td : Td, f { td with link := none } = f td) (tds : List Td) :
    (terminate tds).map f = tds.map f := by
  induction tds with
  | nil => rfl
  | cons td rest ih =>
      by_cases last : rest = []
      · rw [last]
        exact congrArg (· :: []) (blind td)
      · rw [terminate_cons td last, List.map_cons, ih, List.map_cons]

theorem terminate_length (tds : List Td) : (terminate tds).length = tds.length := by
  have same := congrArg List.length (terminate_map (f := fun _ => ()) (fun _ => rfl) tds)
  rwa [List.length_map, List.length_map] at same

theorem terminate_eq_nil {tds : List Td} : terminate tds = [] ↔ tds = [] := by
  rw [← List.length_eq_zero_iff, terminate_length, List.length_eq_zero_iff]

theorem Pipe.fillPool_linked {p : Pipe} {data len left off : Nat} {tog : Bool} (places : left ≤ bulkMaxTds) :
    Linked (bulkMaxTds - left) (terminate (p.fillPool data len left off tog).1) := by
  induction left generalizing off tog with
  | zero => trivial
  | succ left ih =>
      have next : bulkMaxTds - (left + 1) + 1 = bulkMaxTds - left := by omega
      rw [fillPool_cons]
      split_ifs with last
      · exact ⟨rfl, trivial⟩
      · have more := @fillPool_some p data len left (off + p.chunk len off) (!tog) (fun none => last (Or.inl none))
        rw [terminate_cons _ more, Linked, if_neg (fun none => more (terminate_eq_nil.mp none)), next]
        exact ⟨rfl, ih (Nat.le_of_succ_le places)⟩

namespace Msc

variable {m : Msc} {dirIn : Bool} {data len : UInt32}

theorem pipe_known : (m.pipe dirIn).Known := by
  have word := (if dirIn then m.maxpIn else m.maxpOut).toNat_lt
  have pid : (if dirIn then pidIn else pidOut) < 2 ^ 8 := by
    cases dirIn <;> decide
  have packet : 0 < (m.pipe dirIn).maxp ∧ (m.pipe dirIn).maxp < 2 ^ 16 := by
    rw [pipe]
    dsimp only
    by_cases zero : (if dirIn then m.maxpIn else m.maxpOut).toNat = 0
    · rw [if_pos zero]
      decide
    · rw [if_neg zero]
      exact ⟨Nat.pos_of_ne_zero zero, word⟩
  exact ⟨pid, packet⟩

theorem ran_bulkQueue : ran (m.bulkQueue dirIn data len).1 = (m.bulkQueue dirIn data len).1 := by
  have linked := @Pipe.fillPool_linked (m.pipe dirIn) data.toNat len.toNat bulkMaxTds 0 (m.toggle dirIn) (Nat.le_refl _)
  have more := @Pipe.fillPool_some (m.pipe dirIn) data.toNat len.toNat bulkMaxTds 0 (m.toggle dirIn) (by decide)
  apply ranFrom_linked [] linked (fun none => more (terminate_eq_nil.mp none))
  exact (terminate_length _).trans_le Pipe.fillPool_length

theorem toggle_setToggle (tog : Bool) : (m.setToggle dirIn tog).toggle dirIn = tog := by
  cases dirIn <;> rfl

theorem spans_bulkQueue : (m.bulkQueue dirIn data len).1.map Td.span =
    ((m.pipe dirIn).fillPool data.toNat len.toNat bulkMaxTds 0 (m.toggle dirIn)).1.map Td.span :=
  terminate_map (fun _ => rfl) _

/-- The descriptors end with the length, or where the pool does. -/
theorem total_iff : total ((m.bulkQueue dirIn data len).1.map Td.span) = len.toNat ↔
    Fits (m.pipe dirIn).maxp len.toNat := by
  have known := @pipe_known m dirIn
  have reaches := fun small => @Pipe.fillPool_total (m.pipe dirIn) data.toNat len.toNat bulkMaxTds 0 (m.toggle dirIn) known
    small (by decide) (Nat.zero_le _) (Nat.eq_zero_or_pos _).symm
  rw [spans_bulkQueue]
  constructor
  · intro covers
    have small : min len.toNat (m.pipe dirIn).maxp ≤ 2047 := by
      apply Nat.le_of_not_lt
      intro long
      exact Nat.ne_of_lt (Pipe.fillPool_short known long) covers
    have ends := reaches small
    rw [covers] at ends
    exact ⟨by omega, small⟩
  · intro fits
    have ends := reaches fits.2
    have room := fits.1
    omega

theorem follow_bulkQueue (fits : Fits (m.pipe dirIn).maxp len.toNat) :
    Follow (2 ^ 32) data.toNat ((m.bulkQueue dirIn data len).1.map Td.span) := by
  rw [spans_bulkQueue]
  exact @Pipe.fillPool_inOrder (m.pipe dirIn) data.toNat len.toNat bulkMaxTds 0 (m.toggle dirIn) pipe_known fits.2

theorem whole_iff : Whole m dirIn data len (m.bulkQueue dirIn data len).1 (m.bulkQueue dirIn data len).2 ↔
    Fits (m.pipe dirIn).maxp len.toNat := by
  have known := @pipe_known m dirIn
  have toggles : (m.bulkQueue dirIn data len).1.map Td.toggle = _ := terminate_map (fun _ => rfl) _
  have lengths : (m.bulkQueue dirIn data len).1.map Td.length = _ := terminate_map (fun _ => rfl) _
  constructor
  · intro whole
    exact total_iff.mp whole.covers
  · intro fits
    constructor
    case inOrder => exact follow_bulkQueue fits
    case covers => exact total_iff.mpr fits
    case packets =>
      intro td member
      have inside : td.length ∈ ((m.pipe dirIn).fillPool data.toNat len.toNat bulkMaxTds 0 (m.toggle dirIn)).1.map Td.length :=
        lengths ▸ List.mem_map_of_mem member
      obtain ⟨filled, place, same⟩ := List.mem_map.mp inside
      exact same ▸ Pipe.fillPool_packets known fits.2 filled place
    case toggles =>
      rw [toggles]
      exact Pipe.fillPool_toggles known
    case stored =>
      have count := terminate_length ((m.pipe dirIn).fillPool data.toNat len.toNat bulkMaxTds 0 (m.toggle dirIn)).1
      exact (toggle_setToggle _).symm ▸ count.symm ▸ Pipe.fillPool_stored

end Msc

/-- Whatever the bus does, a transfer that returns 1 is whole. -/
def TransfersWhole (m : Msc) (dirIn : Bool) (data len : UInt32) : Prop :=
  ∀ wait, (m.bulkTransfer dirIn data len wait).1 = true →
    Whole m dirIn data len (ran (m.bulkTransfer dirIn data len wait).2.1) (m.bulkTransfer dirIn data len wait).2.2

/-- Transfers are whole where the pool has room for all packets and a descriptor has room for
the longest one. -/
theorem transfers_whole_iff (m : Msc) (dirIn : Bool) (data len : UInt32) :
    TransfersWhole m dirIn data len ↔ Fits (m.pipe dirIn).maxp len.toNat := by
  constructor
  · intro whole
    have returned : (m.bulkTransfer dirIn data len fun _ => true).1 = true := List.all_eq_true.mpr fun _ _ => rfl
    have ranAll := whole _ returned
    exact Msc.whole_iff.mp (Msc.ran_bulkQueue ▸ ranAll)
  · intro fits wait _
    have queue := (@Msc.whole_iff m dirIn data len).mpr fits
    exact Msc.ran_bulkQueue.symm ▸ queue

/-- A stick with packets of eight bytes, and a read of four sectors: only 512 bytes of them. -/
theorem pool_full : ¬ TransfersWhole ⟨1, 1, 2, 8, 8, false, false, false, 1000, 512⟩ true 0x10000 2048 := by
  intro whole
  have covers := (whole (fun _ => true) (by decide +kernel)).covers
  revert covers
  decide +kernel

end Zenbite.Usb
