import Mathlib.Algebra.Ring.Nat
import Mathlib.Tactic.Common
import Zenbite.Zbc.CSem
import Zenbite.Zbc.Eval

/-! Where C gives an operator a meaning, the evaluator computes it. -/

namespace Zenbite.Zbc

theorem fit_toInt {v : Int} {w : Word} (fits : fit v = some w) : w.toInt = v ∧ -2 ^ 31 ≤ v ∧ v < 2 ^ 31 := by
  rw [fit] at fits
  split at fits
  next bounds =>
    obtain rfl := Option.some.inj fits
    refine ⟨?_, bounds⟩
    rw [BitVec.toInt_ofInt]
    exact Int.bmod_eq_of_le (by omega) (by omega)
  next _ => exact nomatch fits

/-- A word whose value is right up to 2^32 is the one that fits. -/
theorem fit_eq {v : Int} {w x : Word} (fits : fit v = some w) (same : x.toInt = v.bmod (2 ^ 32)) : x = w := by
  obtain ⟨value, low, high⟩ := fit_toInt fits
  apply BitVec.eq_of_toInt_eq
  rw [same, value]
  exact Int.bmod_eq_of_le (by omega) (by omega)

theorem truth_eq {b : Bool} {q : Prop} [Decidable q] {w : Word} (holds : b = true ↔ q) (meaning : cTruth q = some w) :
    truth b = w := by
  rw [cTruth] at meaning
  obtain rfl := Option.some.inj meaning
  rw [truth]
  by_cases yes : q
  · rw [if_pos yes, if_pos (holds.mpr yes)]
  · rw [if_neg yes, if_neg (mt holds.mp yes)]

theorem divide_meaning {a b v : Word} (meaning : BinOp.slash.meaning a b = some v) : divide a b = .ok v := by
  rw [BinOp.meaning] at meaning
  split at meaning
  · exact nomatch meaning
  next some_ =>
    obtain ⟨-, -, high⟩ := fit_toInt meaning
    have quiet : ¬ (a = intMin ∧ b = -1) := by
      rintro ⟨rfl, rfl⟩
      revert high
      decide
    rw [divide, if_neg some_, if_neg quiet, fit_eq meaning (BitVec.toInt_sdiv a b)]

theorem remainder_meaning {a b v : Word} (meaning : BinOp.pct.meaning a b = some v) : remainder a b = .ok v := by
  rw [BinOp.meaning] at meaning
  split at meaning
  · exact nomatch meaning
  next some_ =>
    obtain ⟨q, quotient, rest⟩ := Option.bind_eq_some_iff.mp meaning
    obtain ⟨-, -, high⟩ := fit_toInt quotient
    obtain ⟨value, -⟩ := fit_toInt rest
    have quiet : ¬ (a = intMin ∧ b = -1) := by
      rintro ⟨rfl, rfl⟩
      revert high
      decide
    have same : a.srem b = v := BitVec.eq_of_toInt_eq ((BitVec.toInt_srem a b).trans value.symm)
    rw [remainder, if_neg some_, if_neg quiet, same]

/-- A shift count that C allows. -/
theorem count_toNat {b : Word} (low : ¬ b.toInt < 0) (high : ¬ 32 ≤ b.toInt) : b.toNat % 32 = b.toNat := by
  rw [BitVec.toInt_eq_toNat_cond] at low high
  have bound := b.isLt
  split at low <;> split at high <;> omega

theorem shl_meaning {a b v : Word} (meaning : BinOp.shl.meaning a b = some v) :
    a <<< (b.toNat % 32) = v := by
  rw [BinOp.meaning] at meaning
  split at meaning
  · exact nomatch meaning
  next allowed =>
    simp only [not_or] at allowed
    obtain ⟨positive, low, high⟩ := allowed
    rw [count_toNat low high]
    apply fit_eq meaning
    have same : a.toInt = a.toNat := by
      rw [BitVec.toInt_eq_toNat_cond] at positive ⊢
      have bound := a.isLt
      split at positive <;> split <;> omega
    rw [BitVec.toInt_shiftLeft, same, Nat.shiftLeft_eq]
    push_cast
    rfl

theorem shr_meaning {a b v : Word} (meaning : BinOp.shr.meaning a b = some v) :
    a.sshiftRight (b.toNat % 32) = v := by
  rw [BinOp.meaning] at meaning
  split at meaning
  · exact nomatch meaning
  next allowed =>
    simp only [not_or] at allowed
    obtain ⟨value, -⟩ := fit_toInt meaning
    rw [count_toNat allowed.1 allowed.2]
    apply BitVec.eq_of_toInt_eq
    rw [value, BitVec.toInt_sshiftRight, Int.shiftRight_eq_div_pow]
    push_cast
    rfl

theorem BinOp.apply_meaning {op : BinOp} {a b v : Word} (meaning : op.meaning a b = some v) :
    op.apply a b = .ok v := by
  cases op with
  | plus => rw [BinOp.apply, fit_eq meaning (BitVec.toInt_add a b)]
  | minus => rw [BinOp.apply, fit_eq meaning BitVec.toInt_sub]
  | star => rw [BinOp.apply, fit_eq meaning (BitVec.toInt_mul a b)]
  | slash => exact divide_meaning meaning
  | pct => exact remainder_meaning meaning
  | eq => rw [BinOp.apply, truth_eq (beq_iff_eq.trans BitVec.toInt_inj.symm) meaning]
  | neq => rw [BinOp.apply, truth_eq (bne_iff_ne.trans (not_congr BitVec.toInt_inj.symm)) meaning]
  | lt => rw [BinOp.apply, truth_eq BitVec.slt_iff_toInt_lt meaning]
  | gt => rw [BinOp.apply, truth_eq BitVec.slt_iff_toInt_lt meaning]
  | le => rw [BinOp.apply, truth_eq BitVec.sle_iff_toInt_le meaning]
  | ge => rw [BinOp.apply, truth_eq BitVec.sle_iff_toInt_le meaning]
  | band => exact congrArg Except.ok (Option.some.inj meaning)
  | bor => exact congrArg Except.ok (Option.some.inj meaning)
  | bxor => exact congrArg Except.ok (Option.some.inj meaning)
  | shl => rw [BinOp.apply, shl_meaning meaning]
  | shr => rw [BinOp.apply, shr_meaning meaning]
  | and => exact nomatch meaning
  | or => exact nomatch meaning

theorem AssignOp.apply_meaning {op : AssignOp} {old rv v : Word} (meaning : op.meaning old rv = some v) :
    op.apply old rv = .ok v := by
  cases op with
  | set => exact congrArg Except.ok (Option.some.inj meaning)
  | plus => exact (BinOp.apply_meaning meaning : BinOp.plus.apply old rv = .ok v)
  | minus => exact (BinOp.apply_meaning meaning : BinOp.minus.apply old rv = .ok v)
  | star => exact (BinOp.apply_meaning meaning : BinOp.star.apply old rv = .ok v)
  | slash => exact divide_meaning meaning

theorem UnOp.apply_meaning {op : UnOp} {a v : Word} (meaning : op.meaning a = some v) : op.apply a = v := by
  cases op with
  | minus => exact fit_eq meaning BitVec.toInt_neg
  | not => exact truth_eq beq_iff_eq meaning

end Zenbite.Zbc
