import Mathlib.Logic.Function.Basic

/-! Tables of numbered slots filled first-fit: what registering a list into a
cleared table leaves in each slot. -/

namespace Zenbite.Slots

variable {α : Type}

/-- The first free slot among `i, i+1, ..`; `n` of them are left. -/
def firstFree (t : Nat → Option α) : Nat → Nat → Option Nat
  | 0, _ => none
  | n + 1, i =>
    match t i with
    | none => some i
    | some _ => firstFree t n (i + 1)

def clear : Nat → Option α := fun _ => none

/-- A full table drops the entry. -/
def register (cap : Nat) (t : Nat → Option α) (a : α) : Nat → Option α :=
  match firstFree t cap 0 with
  | none => t
  | some i => Function.update t i (some a)

/-- The table holds the first `cap` entries of the list, in order. -/
def Holds (cap : Nat) (t : Nat → Option α) (l : List α) : Prop :=
  ∀ i, t i = if i < cap then l[i]? else none

theorem holds_clear (cap : Nat) : Holds cap (clear : Nat → Option α) [] := by
  intro i
  simp [clear]

theorem firstFree_holds {cap : Nat} {t : Nat → Option α} {l : List α} (holds : Holds cap t l) :
    ∀ n i, i + n = cap → i ≤ l.length →
      firstFree t n i = if l.length < cap then some l.length else none := by
  intro n
  induction n with
  | zero =>
      intro i full short
      rw [if_neg (by omega), firstFree]
  | succ n ih =>
      intro i rest short
      have here := holds i
      rw [if_pos (by omega)] at here
      rcases Nat.eq_or_lt_of_le short with rfl | inside
      · rw [List.getElem?_eq_none (Nat.le_refl _)] at here
        rw [firstFree, here, if_pos (by omega)]
      · rw [List.getElem?_eq_getElem inside] at here
        rw [firstFree, here]
        exact ih (i + 1) (by omega) inside

theorem register_holds {cap : Nat} {t : Nat → Option α} {l : List α} (holds : Holds cap t l)
    (a : α) : Holds cap (register cap t a) (l ++ [a]) := by
  intro i
  rw [register, firstFree_holds holds cap 0 (Nat.zero_add cap) (Nat.zero_le _)]
  by_cases room : l.length < cap
  · rw [if_pos room]
    by_cases here : i = l.length
    · subst here
      rw [if_pos room, List.getElem?_append_right (Nat.le_refl _), Nat.sub_self]
      exact Function.update_self _ _ _
    · change Function.update t l.length (some a) i = _
      rw [Function.update_of_ne here, holds i]
      congr 1
      rcases Nat.lt_or_ge i l.length with low | high
      · rw [List.getElem?_append_left low]
      · rw [List.getElem?_eq_none high, List.getElem?_eq_none (by simp; omega)]
  · rw [if_neg room]
    change t i = _
    rw [holds i]
    split
    · rw [List.getElem?_append_left (by omega)]
    · rfl

/-- Registering a list appends it to what the table holds. -/
theorem foldl_register_holds {cap : Nat} (entries : List α) :
    ∀ {t : Nat → Option α} {l : List α}, Holds cap t l →
      Holds cap (entries.foldl (register cap) t) (l ++ entries) := by
  induction entries with
  | nil => exact fun holds => by rwa [List.append_nil]
  | cons a entries ih =>
      intro t l holds
      have := ih (register_holds holds a)
      rwa [List.append_assoc] at this

end Zenbite.Slots
