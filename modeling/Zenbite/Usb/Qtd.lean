import Mathlib.Tactic.Common
import Zenbite.Lib.Spans

/-! Bulk transfers over EHCI (ehci.c): the chain of descriptors of one transfer. -/

namespace Zenbite.Usb

open Memory Spans

/-- EHCI_MAX_QTDS -/
def ehciMaxQtds : Nat := 96

/-- `struct ehci_qtd`. A link is the place of the next descriptor, or none for
QH_LP_TERMINATE. -/
structure Qtd where
  next : Option Nat
  token : Nat
  bufs : List Nat

/-- The pages behind the first one; `slots` of the pointers are left. -/
def nextPages : Nat → Nat → Nat → List Nat
  | 0, _, _ => []
  | slots + 1, page, left =>
    (if 0 < left then u32 (page + 0x1000) else 0) :: nextPages slots (u32 (page + 0x1000)) (left - 0x1000)

/-- `qtd_fill_bufs` -/
def qtdFillBufs (phys len : Nat) : List Nat :=
  if len = 0 then [0, 0, 0, 0, 0]
  else phys :: nextPages 4 (phys - phys % 0x1000) (len - (0x1000 - phys % 0x1000))

/-- `tok` of ehci_bulk_transfer. -/
def qtdBase (dirIn tog last : Bool) : Nat :=
  1 <<< 7 ||| 3 <<< 10 ||| tog.toNat <<< 31 ||| (if dirIn then 1 <<< 8 else 0) ||| if last then 1 <<< 15 else 0

/-- `qtd_make` -/
def qtdMake (next : Option Nat) (base phys len : Nat) : Qtd :=
  { next := next, token := base ||| (len % 2 ^ 15) <<< 16, bufs := qtdFillBufs phys len }

/-- The parts of the pages that the controller goes through. -/
def pieces : Nat → List Nat → List Span
  | _, [] => []
  | left, page :: rest => if left = 0 then [] else ⟨page, min left 0x1000⟩ :: pieces (left - 0x1000) rest

namespace Qtd

variable (q : Qtd)

/-- The bytes of the descriptor. -/
def length : Nat := q.token >>> 16 % 2 ^ 15

def spans : List Span :=
  let buf := q.bufs.headD 0
  let first := min q.length (0x1000 - buf % 0x1000)
  ⟨buf, first⟩ :: pieces (q.length - first) q.bufs.tail

end Qtd

/-- The bytes of the next descriptor: the pages that it can point to, cut to whole packets
where more is to come. -/
def qtdChunk (maxp phys len off : Nat) : Nat :=
  let maxSpan := 0x1000 - phys % 0x1000 + 4 * 0x1000
  let chunk := if maxSpan < len - off then maxSpan else len - off
  if off + chunk < len then if chunk - chunk % maxp = 0 then maxp else chunk - chunk % maxp else chunk

/-- The loop of ehci_bulk_transfer, from `off` on, with the places that are left; the
descriptors and the toggle behind them. -/
def fillQtds (dirIn : Bool) (maxp data len : Nat) : Nat → Nat → Bool → List Qtd × Bool
  | 0, _, tog => ([], tog)
  | left + 1, off, tog =>
    if off < len then
      let phys := u32 (data + off)
      let chunk := qtdChunk maxp phys len off
      let more := u32 (off + chunk) < len
      let qtd := qtdMake (if more then some (ehciMaxQtds - left) else none) (qtdBase dirIn tog (¬ more)) phys chunk
      let packets := u32 (chunk + maxp - 1) / maxp
      let rest := fillQtds dirIn maxp data len left (u32 (off + chunk)) (if packets % 2 = 1 then !tog else tog)
      (qtd :: rest.1, rest.2)
    else ([], tog)

/-- `struct ehci_msc`. With a packet size of 0 the first transfer would have been a divide
fault, and the stick not been attached. -/
structure EhciMsc where
  addr : Fin 128
  epIn : Fin 16
  epOut : Fin 16
  maxpIn : UInt16
  maxpOut : UInt16
  maxpIn_pos : maxpIn ≠ 0
  maxpOut_pos : maxpOut ≠ 0
  togIn : Bool
  togOut : Bool
  eps : Fin 4
  blockCount : UInt32
  blockSize : UInt32

namespace EhciMsc

variable (m : EhciMsc)

def toggle (dirIn : Bool) : Bool := if dirIn then m.togIn else m.togOut

def setToggle (dirIn tog : Bool) : EhciMsc := if dirIn then { m with togIn := tog } else { m with togOut := tog }

def maxp (dirIn : Bool) : Nat := (if dirIn then m.maxpIn else m.maxpOut).toNat

/-- `ep_chars` of qh_setup_bulk: the endpoint, its speed and its packets. -/
def epChars (dirIn : Bool) : Nat :=
  m.addr.val ||| (if dirIn then m.epIn else m.epOut).val <<< 8 ||| m.eps.val <<< 12 ||| 1 <<< 15 |||
    (m.maxp dirIn % 2 ^ 11) <<< 16 ||| 3 <<< 28

/-- The descriptors of a transfer, each with the queue head that it is run from. -/
def bulkChain (dirIn : Bool) (data len : Nat) : List (Nat × Qtd) × EhciMsc :=
  let filled := fillQtds dirIn (m.maxp dirIn) data len ehciMaxQtds 0 (m.toggle dirIn)
  (filled.1.map fun q => (m.epChars dirIn, q), m.setToggle dirIn filled.2)

end EhciMsc

/-! A transfer of up to four pages takes one descriptor. -/

theorem pieces_zero (pages : List Nat) : pieces 0 pages = [] := by
  cases pages with
  | nil => rfl
  | cons page rest => exact if_pos rfl

/-- The pages follow each other from the end of the first one. -/
theorem nextPages_covers {slots a page left : Nat} (place : (page + 0x1000) % 2 ^ 32 = a % 2 ^ 32) :
    Covers (2 ^ 32) a (min left (0x1000 * slots)) (pieces left (nextPages slots page left)) := by
  induction slots generalizing a page left with
  | zero =>
      rw [Nat.mul_zero, Nat.min_zero]
      exact ⟨follow_nil _ _, rfl⟩
  | succ slots ih =>
      rcases Nat.eq_zero_or_pos left with none | some'
      · rw [none, Nat.zero_min, pieces_zero]
        exact ⟨follow_nil _ _, rfl⟩
      · rw [nextPages, pieces, if_pos some', if_neg (Nat.ne_of_gt some')]
        rcases Nat.lt_or_ge 0x1000 left with more | last
        · have wrapped : (u32 (page + 0x1000) + 0x1000) % 2 ^ 32 = (a + 0x1000) % 2 ^ 32 := by
            rw [u32]
            omega
          have whole : min left 0x1000 = 0x1000 := Nat.min_eq_right more.le
          have behind := @ih (a + 0x1000) (u32 (page + 0x1000)) (left - 0x1000) wrapped
          rw [whole, Nat.mul_succ]
          constructor
          · exact ⟨place, behind.1⟩
          · obtain ⟨rest, rfl⟩ := Nat.exists_eq_add_of_le more.le
            rw [total_cons, behind.2, Nat.add_sub_cancel_left, Nat.add_comm (0x1000 * slots), Nat.add_min_add_left]
        · have none : left - 0x1000 = 0 := Nat.sub_eq_zero_of_le last
          rw [none, pieces_zero]
          constructor
          · exact ⟨place, follow_nil _ _⟩
          · rw [total_cons, total_nil, Nat.mul_succ]
            generalize 0x1000 * slots = room
            dsimp only
            omega

theorem qtdBase_low (dirIn tog last : Bool) : qtdBase dirIn tog last >>> 16 % 2 ^ 15 = 0 := by
  cases dirIn <;> cases tog <;> cases last <;> decide

theorem qtdMake_length (next : Option Nat) (dirIn tog last : Bool) (phys len : Nat) :
    (qtdMake next (qtdBase dirIn tog last) phys len).length = len % 2 ^ 15 := by
  rw [Qtd.length, qtdMake, Nat.shiftRight_or_distrib, Nat.or_mod_two_pow, qtdBase_low, Nat.zero_or,
    Nat.shiftLeft_shiftRight, Nat.mod_mod]

/-- A descriptor covers what it was made for, up to five pages. -/
theorem qtdMake_covers {next : Option Nat} {dirIn tog last : Bool} {a len : Nat} (some' : 0 < len) (small : len ≤ 0x4000) :
    Covers (2 ^ 32) a len (qtdMake next (qtdBase dirIn tog last) (u32 a) len).spans := by
  have length : (qtdMake next (qtdBase dirIn tog last) (u32 a) len).length = len :=
    (qtdMake_length next dirIn tog last (u32 a) len).trans (Nat.mod_eq_of_lt (by omega))
  have bufs : (qtdMake next (qtdBase dirIn tog last) (u32 a) len).bufs =
      u32 a :: nextPages 4 (u32 a - u32 a % 0x1000) (len - (0x1000 - u32 a % 0x1000)) := if_neg (Nat.ne_of_gt some')
  have rest : len - min len (0x1000 - u32 a % 0x1000) = len - (0x1000 - u32 a % 0x1000) := by omega
  rw [Qtd.spans, length, bufs, List.headD_cons, List.tail_cons, rest]
  rcases Nat.lt_or_ge (0x1000 - u32 a % 0x1000) len with more | last'
  · have place : (u32 a - u32 a % 0x1000 + 0x1000) % 2 ^ 32 = (a + (0x1000 - u32 a % 0x1000)) % 2 ^ 32 := by
      rw [u32]
      omega
    have behind := @nextPages_covers 4 _ _ (len - (0x1000 - u32 a % 0x1000)) place
    have first : min len (0x1000 - u32 a % 0x1000) = 0x1000 - u32 a % 0x1000 := Nat.min_eq_right more.le
    rw [first]
    constructor
    · exact ⟨rfl, behind.1⟩
    · rw [total_cons, behind.2]
      dsimp only
      omega
  · rw [Nat.sub_eq_zero_of_le last', pieces_zero, Nat.min_eq_left last']
    exact ⟨⟨rfl, follow_nil _ _⟩, rfl⟩

theorem fillQtds_covers {dirIn tog : Bool} {maxp data len : Nat} (small : len ≤ 0x4000) :
    Covers (2 ^ 32) data len ((fillQtds dirIn maxp data len ehciMaxQtds 0 tog).1.flatMap Qtd.spans) := by
  rcases Nat.eq_zero_or_pos len with none | some'
  · subst none
    exact ⟨follow_nil _ _, rfl⟩
  · have chunk : qtdChunk maxp (u32 data) len 0 = len := by
      have span : ¬ 0x1000 - u32 data % 0x1000 + 4 * 0x1000 < len := by omega
      rw [qtdChunk, Nat.sub_zero, if_neg span, if_neg (by omega)]
    have first : fillQtds dirIn maxp data len ehciMaxQtds 0 tog = fillQtds dirIn maxp data len (95 + 1) 0 tog := rfl
    have word : u32 len = len := u32_of_lt (by omega)
    have done : ∀ left tog, fillQtds dirIn maxp data len left len tog = ([], tog) := by
      intro left tog
      cases left with
      | zero => rfl
      | succ left => rw [fillQtds, if_neg (Nat.lt_irrefl len)]
    rw [first, fillQtds, if_pos some', Nat.add_zero]
    dsimp only
    rw [chunk, Nat.zero_add, word, done, List.flatMap_cons, List.flatMap_nil, List.append_nil]
    exact qtdMake_covers some' small

end Zenbite.Usb
