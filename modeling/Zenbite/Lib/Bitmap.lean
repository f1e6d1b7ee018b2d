import Mathlib.Data.Finset.Card
import Mathlib.Data.Nat.Bitwise
import Zenbite.Lib.Memory

/-! Bits in a byte memory, bit `i` in byte `i / 8`, and how many of the first ones are
clear. -/

namespace Zenbite.Bitmap

open Memory

/-- `(map[i / 8] >> (i & 7)) & 1` -/
def test (m : Buffer) (i : Nat) : Bool := (m (i / 8)).toNat.testBit (i % 8)

/-- `1u << (i & 7)` in a byte. -/
def mask (i : Nat) : UInt8 := UInt8.ofNat (2 ^ (i % 8))

def set (m : Buffer) (i : Nat) : Buffer := Function.update m (i / 8) (m (i / 8) ||| mask i)

def clear (m : Buffer) (i : Nat) : Buffer := Function.update m (i / 8) (m (i / 8) &&& ~~~mask i)

/-- The clear bits below `n`. -/
def clears (m : Buffer) (n : Nat) : Finset Nat := (Finset.range n).filter fun i => test m i = false

variable {m : Buffer} {i n : Nat}

theorem testBit_eq (b : UInt8) (k : Nat) : b.toNat.testBit k = b.toBitVec.getLsbD k := rfl

theorem mask_testBit {k : Nat} (low : k < 8) : (mask i).toBitVec.getLsbD k = decide (i % 8 = k) := by
  change (BitVec.ofNat 8 (2 ^ (i % 8))).getLsbD k = _
  rw [BitVec.getLsbD_ofNat, Nat.testBit_two_pow, decide_eq_true low, Bool.true_and]

theorem test_set (m : Buffer) (i j : Nat) : test (set m i) j = (decide (j = i) || test m j) := by
  have low : j % 8 < 8 := Nat.mod_lt _ (by decide)
  rw [test, set, Function.update_apply]
  split
  next same =>
    rw [testBit_eq, UInt8.toBitVec_or, BitVec.getLsbD_or, mask_testBit low, Bool.or_comm, ← same]
    congr 1
    exact decide_eq_decide.mpr (by omega)
  next other =>
    have apart : j ≠ i := fun same => other (congrArg (· / 8) same)
    rw [decide_eq_false apart, Bool.false_or]
    rfl

theorem test_clear (m : Buffer) (i j : Nat) : test (clear m i) j = (decide (j ≠ i) && test m j) := by
  have low : j % 8 < 8 := Nat.mod_lt _ (by decide)
  rw [test, clear, Function.update_apply]
  split
  next same =>
    rw [testBit_eq, UInt8.toBitVec_and, UInt8.toBitVec_not, BitVec.getLsbD_and, BitVec.getLsbD_not,
      mask_testBit low, decide_eq_true low, Bool.true_and, Bool.and_comm, ← same, ← decide_not]
    congr 1
    exact decide_eq_decide.mpr (by omega)
  next other =>
    have apart : j ≠ i := fun same => other (congrArg (· / 8) same)
    rw [decide_eq_true apart, Bool.true_and]
    rfl

theorem mem_clears : i ∈ clears m n ↔ i < n ∧ test m i = false := by
  rw [clears, Finset.mem_filter, Finset.mem_range]

theorem clears_set (m : Buffer) (i n : Nat) : clears (set m i) n = (clears m n).erase i := by
  ext j
  rw [Finset.mem_erase, mem_clears, mem_clears, test_set, Bool.or_eq_false_iff, decide_eq_false_iff_not]
  exact and_left_comm

theorem clears_clear (inside : i < n) : clears (clear m i) n = insert i (clears m n) := by
  ext j
  rw [Finset.mem_insert, mem_clears, mem_clears, test_clear, Bool.and_eq_false_iff, decide_eq_false_iff_not,
    not_not]
  constructor
  · intro here
    exact here.2.imp id fun free => ⟨here.1, free⟩
  · intro here
    cases here with
    | inl same => exact ⟨same ▸ inside, Or.inl same⟩
    | inr free => exact ⟨free.1, Or.inr free.2⟩

/-- Setting a clear bit takes one from the count. -/
theorem card_clears_set (free : i ∈ clears m n) : (clears (set m i) n).card = (clears m n).card - 1 := by
  rw [clears_set]
  exact Finset.card_erase_of_mem free

/-- Clearing a set bit adds one to the count. -/
theorem card_clears_clear (inside : i < n) (used : test m i = true) :
    (clears (clear m i) n).card = (clears m n).card + 1 := by
  have absent : i ∉ clears m n := fun free => Bool.false_ne_true ((mem_clears.mp free).2.symm.trans used)
  rw [clears_clear inside]
  exact Finset.card_insert_of_notMem absent

end Zenbite.Bitmap
