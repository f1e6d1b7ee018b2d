import Mathlib.Data.List.Basic
import Mathlib.Tactic.Common

/-! Texts in which a byte is written as itself or as a percent sign and two hexadecimal
digits, and a blank as a plus sign. -/

namespace Zenbite.Percent

/-- "0123456789ABCDEF"[v] -/
def hexDigit (v : Nat) : UInt8 :=
  [48, 49, 50, 51, 52, 53, 54, 55, 56, 57, 65, 66, 67, 68, 69, 70].getD v 0

def hexValue (c : UInt8) : Option Nat :=
  if 48 ≤ c ∧ c ≤ 57 then some (c.toNat - 48)
  else if 65 ≤ c ∧ c ≤ 70 then some (c.toNat - 55)
  else none

/-- The byte with this value as a percent sign and two digits. -/
def escape (c : UInt8) : List UInt8 := [37, hexDigit (c.toNat / 16), hexDigit (c.toNat % 16)]

def hexByte (h l : UInt8) : Option UInt8 :=
  (hexValue h).bind fun high => (hexValue l).map fun low => UInt8.ofNat (16 * high + low)

/-- A percent sign that two digits do not follow is an error. -/
def decode : List UInt8 → Option (List UInt8)
  | [] => some []
  | c :: rest =>
    if c = 37 then
      match rest with
      | h :: l :: rest => (hexByte h l).bind fun byte => (decode rest).map (byte :: ·)
      | _ => none
    else (decode rest).map ((if c = 43 then 32 else c) :: ·)

/-- The text is made of characters that stand for themselves and whole escapes. -/
inductive Escaped (plain : UInt8 → Prop) : List UInt8 → Prop where
  | nil : Escaped plain []
  | plain {c : UInt8} {rest : List UInt8} : plain c → Escaped plain rest → Escaped plain (c :: rest)
  | escape {h l : UInt8} {rest : List UInt8} : (hexValue h).isSome → (hexValue l).isSome →
      Escaped plain rest → Escaped plain (37 :: h :: l :: rest)

theorem hexValue_hexDigit : ∀ v < 16, hexValue (hexDigit v) = some v := by decide

theorem Escaped.append {p : UInt8 → Prop} {first second : List UInt8} (left : Escaped p first)
    (right : Escaped p second) : Escaped p (first ++ second) := by
  induction left with
  | nil => exact right
  | plain here _ ih => exact .plain here ih
  | escape high low _ ih => exact .escape high low ih

theorem escaped_escape {p : UInt8 → Prop} (c : UInt8) : Escaped p (escape c) := by
  have bound := c.toNat_lt
  have high := hexValue_hexDigit (c.toNat / 16) (by omega)
  have low := hexValue_hexDigit (c.toNat % 16) (by omega)
  exact .escape (high ▸ rfl) (low ▸ rfl) .nil

/-- The two digits of an escape are those of its byte. -/
theorem hexByte_escape (c : UInt8) : hexByte (hexDigit (c.toNat / 16)) (hexDigit (c.toNat % 16)) = some c := by
  have bound := c.toNat_lt
  have high := hexValue_hexDigit (c.toNat / 16) (by omega)
  have low := hexValue_hexDigit (c.toNat % 16) (by omega)
  rw [hexByte, high, low, Option.bind_some, Option.map_some, Nat.div_add_mod]
  exact congrArg some UInt8.ofNat_toNat

/-- An escape stands for its byte. -/
theorem decode_escape (c : UInt8) (rest : List UInt8) :
    decode (escape c ++ rest) = (decode rest).map (c :: ·) := by
  rw [escape, List.cons_append, List.cons_append, List.cons_append, List.nil_append, decode.eq_def]
  dsimp only
  rw [if_pos rfl, hexByte_escape, Option.bind_some]

theorem decode_plus (rest : List UInt8) : decode (43 :: rest) = (decode rest).map (32 :: ·) := by
  rw [decode.eq_def]
  rfl

/-- Any other character stands for itself. -/
theorem decode_plain {c : UInt8} (notPercent : c ≠ 37) (notPlus : c ≠ 43) (rest : List UInt8) :
    decode (c :: rest) = (decode rest).map (c :: ·) := by
  rw [decode.eq_def]
  dsimp only
  rw [if_neg notPercent, if_neg notPlus]

end Zenbite.Percent
