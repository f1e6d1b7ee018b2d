import Mathlib.Data.List.Basic
import Mathlib.Tactic.Common

/-! A queue in an array of `size` cells between a tail, where it is read, and a
head, where it grows. One cell stays free, so equal ends mean an empty queue. -/

namespace Zenbite.Ring

variable {α : Type}

def next (size i : Nat) : Nat := (i + 1) % size

/-- The number of cells in use. -/
def used (size head tail : Nat) : Nat := (head + size - tail) % size

/-- The queue, oldest first. -/
def contents (size : Nat) (cells : Nat → α) (head tail : Nat) : List α :=
  (List.range (used size head tail)).map fun i => cells ((tail + i) % size)

variable {size head tail : Nat}

theorem used_lt (pos : 0 < size) : used size head tail < size := Nat.mod_lt _ pos

@[simp] theorem contents_length (size : Nat) (cells : Nat → α) (head tail : Nat) :
    (contents size cells head tail).length = used size head tail := by
  simp [contents]

theorem next_lt (pos : 0 < size) (i : Nat) : next size i < size := Nat.mod_lt _ pos

theorem used_eq (inH : head < size) (inT : tail < size) : used size head tail =
    if tail ≤ head then head - tail else head + size - tail := by
  rw [used]
  split
  next le =>
    rw [show head + size - tail = head - tail + size by omega, Nat.add_mod_right,
      Nat.mod_eq_of_lt (by omega)]
  next gt => exact Nat.mod_eq_of_lt (by omega)

theorem next_eq (inside : head < size) : next size head = if head + 1 = size then 0 else head + 1 := by
  rw [next]
  split
  next last => rw [last, Nat.mod_self]
  next more => exact Nat.mod_eq_of_lt (by omega)

/-- The head runs into the tail when all cells but one are in use. -/
theorem full_iff (inH : head < size) (inT : tail < size) :
    next size head = tail ↔ used size head tail + 1 = size := by
  rw [next_eq inH, used_eq inH inT]
  split <;> split <;> omega

theorem empty_iff (inH : head < size) (inT : tail < size) :
    tail = head ↔ used size head tail = 0 := by
  rw [used_eq inH inT]
  split <;> omega

/-- Where the next element goes. -/
theorem head_place (inH : head < size) (inT : tail < size) :
    (tail + used size head tail) % size = head := by
  rw [used_eq inH inT]
  split
  next le => rw [show tail + (head - tail) = head by omega, Nat.mod_eq_of_lt inH]
  next gt =>
    rw [show tail + (head + size - tail) = head + size by omega, Nat.add_mod_right, Nat.mod_eq_of_lt inH]

theorem used_push (inH : head < size) (inT : tail < size) (room : next size head ≠ tail) :
    used size (next size head) tail = used size head tail + 1 := by
  rw [used_eq (next_lt (Nat.zero_lt_of_lt inH) head) inT, used_eq inH inT]
  by_cases last : head + 1 = size
  · rw [next_eq inH, if_pos last] at room ⊢
    split <;> split <;> omega
  · rw [next_eq inH, if_neg last] at room ⊢
    split <;> split <;> omega

/-- Two places less than `size` apart are the same only at the same distance. -/
theorem place_ne (inT : tail < size) {i j : Nat} (lowI : i < size) (lowJ : j < size) (other : i ≠ j) :
    (tail + i) % size ≠ (tail + j) % size := by
  intro same
  rcases Nat.lt_or_ge (tail + i) size with a | a <;> rcases Nat.lt_or_ge (tail + j) size with b | b
  · rw [Nat.mod_eq_of_lt a, Nat.mod_eq_of_lt b] at same
    omega
  · rw [Nat.mod_eq_of_lt a, Nat.mod_eq_sub_mod b, Nat.mod_eq_of_lt (by omega)] at same
    omega
  · rw [Nat.mod_eq_of_lt b, Nat.mod_eq_sub_mod a, Nat.mod_eq_of_lt (by omega)] at same
    omega
  · rw [Nat.mod_eq_sub_mod b, Nat.mod_eq_sub_mod a, Nat.mod_eq_of_lt (by omega),
      Nat.mod_eq_of_lt (by omega)] at same
    omega

/-- An element put at the head comes last. -/
theorem contents_push (cells : Nat → α) (x : α) (inH : head < size) (inT : tail < size)
    (room : next size head ≠ tail) :
    contents size (fun i => if i = head then x else cells i) (next size head) tail =
      contents size cells head tail ++ [x] := by
  have pos := Nat.zero_lt_of_lt inH
  have low : used size head tail < size := used_lt pos
  simp only [contents, used_push inH inT room, List.range_succ, List.map_append, List.map_cons,
    List.map_nil, head_place inH inT, if_true]
  congr 1
  apply List.map_congr_left
  intro i member
  have inside := List.mem_range.mp member
  refine if_neg fun same => ?_
  rw [← head_place inH inT] at same
  exact place_ne inT (by omega) low (by omega) same

theorem used_pop (inH : head < size) (inT : tail < size) (some : tail ≠ head) :
    used size head tail = used size head (next size tail) + 1 := by
  rw [used_eq inH inT, used_eq inH (next_lt (Nat.zero_lt_of_lt inH) tail), next_eq inT]
  split <;> split <;> split <;> omega

/-- The oldest element and the rest. -/
theorem contents_pop (cells : Nat → α) (inH : head < size) (inT : tail < size) (some : tail ≠ head) :
    contents size cells head tail = cells tail :: contents size cells head (next size tail) := by
  have count := used_pop inH inT some
  simp only [contents, count, List.range_succ_eq_map, List.map_cons, List.map_map, Nat.add_zero,
    Nat.mod_eq_of_lt inT]
  congr 1
  apply List.map_congr_left
  intro i _
  simp only [Function.comp_apply, next, Nat.succ_eq_add_one, Nat.mod_add_mod,
    show tail + (i + 1) = tail + 1 + i by omega]

theorem contents_empty (cells : Nat → α) (inT : tail < size) : contents size cells tail tail = [] := by
  simp [contents, (empty_iff inT inT).mp rfl]

end Zenbite.Ring
