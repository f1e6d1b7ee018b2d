import Mathlib.Data.List.GetD
import Zenbite.Edit.Keys
import Zenbite.Libk

/-! The lines of the editor in memory: memmove makes the room of an inserted character and
closes that of a deleted one. -/

namespace Zenbite.Edit

open Memory Libk

/-- The characters of a line from `a` on, and the NUL behind them. -/
def LineAt (m : Buffer) (a : Nat) (line : Text) : Prop := ∀ i, i ≤ line.length → m (a + i) = line.getD i 0

/-- insert_char on the buffer. -/
def storeInsert (a len col : Nat) (c : UInt8) (m : Buffer) : Buffer :=
  Function.update (memmove (len + 1 - col) (a + col + 1) (a + col) m) (a + col) c

/-- delete_char on the buffer, of the characters from `c1` to `c2`. -/
def storeCut (a len c1 c2 : Nat) (m : Buffer) : Buffer := memmove (len - c2) (a + c1) (a + c2 + 1) m

variable {m : Buffer} {a : Nat} {line next : Text}

theorem storeInsert_line {col : Nat} {c : UInt8} (room : a + line.length + 2 ≤ 2 ^ 32) (here : LineAt m a line)
    (done : insertAt line col c = some next) : LineAt (storeInsert a line.length col c m) a next := by
  rw [insertAt] at done
  split_ifs at done with far last
  · obtain rfl := Option.some.inj done
    have none : line.length + 1 - col = 0 := by omega
    intro i inside
    rw [storeInsert, none, memmove, if_pos (Or.inr rfl), Function.update_of_ne (by omega)]
    exact here i inside
  · obtain rfl := Option.some.inj done
    rw [Int.toNat_natCast]
    have short : col ≤ line.length := by omega
    have front : (line.take col).length = col := List.length_take_of_le short
    intro i inside
    rw [List.length_append, List.length_cons, List.length_drop, front] at inside
    rw [storeInsert, memmove_moves m (by omega) (by omega), Function.update_apply, splice, window]
    rcases Nat.lt_trichotomy i col with below | rfl | above
    · rw [if_neg (by omega), if_neg (by omega), here i (by omega), List.getD_append _ _ _ _ (by omega),
        List.getD_eq_getElem?_getD, List.getD_eq_getElem?_getD, List.getElem?_take_of_lt below]
    · rw [if_pos rfl, List.getD_append_right _ _ _ _ (by omega), front, Nat.sub_self, List.getD_cons_zero]
    · obtain ⟨k, rfl⟩ := Nat.exists_eq_add_of_lt above
      have source : a + col + (a + (col + k + 1) - (a + col + 1)) = a + (col + k) := by omega
      have place : col + k + 1 - col = k + 1 := by omega
      rw [if_neg (by omega), if_pos (by omega), source, here _ (by omega), List.getD_append_right _ _ _ _ (by omega), front,
        place, List.getD_cons_succ, List.getD_eq_getElem?_getD, List.getD_eq_getElem?_getD, List.getElem?_drop]

theorem storeCut_line {c1 c2 : Nat} (room : a + line.length + 1 ≤ 2 ^ 32) (order : c1 ≤ c2) (here : LineAt m a line)
    (done : cut line c1 c2 = some next) : LineAt (storeCut a line.length c1 c2 m) a next := by
  rw [cut] at done
  split_ifs at done with far last
  · obtain rfl := Option.some.inj done
    have none : line.length - c2 = 0 := by omega
    rw [storeCut, none, memmove, if_pos (Or.inr rfl)]
    exact here
  · obtain rfl := Option.some.inj done
    have behind : ((c2 : Int) + 1).toNat = c2 + 1 := by omega
    rw [Int.toNat_natCast, behind]
    have front : (line.take c1).length = c1 := List.length_take_of_le (by omega)
    intro i inside
    rw [List.length_append, List.length_drop, front] at inside
    rw [storeCut, memmove_moves m (by omega) (by omega), splice, window]
    rcases Nat.lt_or_ge i c1 with below | above
    · rw [if_neg (by omega), here i (by omega), List.getD_append _ _ _ _ (by omega), List.getD_eq_getElem?_getD,
        List.getD_eq_getElem?_getD, List.getElem?_take_of_lt below]
    · obtain ⟨k, rfl⟩ := Nat.exists_eq_add_of_le above
      have source : a + c2 + 1 + (a + (c1 + k) - (a + c1)) = a + (c2 + 1 + k) := by omega
      rw [if_pos (by omega), source, here _ (by omega), List.getD_append_right _ _ _ _ (by omega), front,
        Nat.add_sub_cancel_left, List.getD_eq_getElem?_getD, List.getD_eq_getElem?_getD, List.getElem?_drop]

end Zenbite.Edit
