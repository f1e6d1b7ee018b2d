import Zenbite.Lib.Memory

/-! memcpy, memmove and memset (libk/string.c) on a memory with 32-bit addresses. -/

namespace Zenbite.Libk

open Memory

/-- memcpy goes upwards, byte by byte. -/
def memcpy : Nat → Nat → Nat → Buffer → Buffer
  | 0, _, _, m => m
  | n + 1, d, s, m => memcpy n (u32 (d + 1)) (u32 (s + 1)) (Function.update m d (m s))

def memset : Nat → Nat → UInt8 → Buffer → Buffer
  | 0, _, _, m => m
  | n + 1, d, v, m => memset n (u32 (d + 1)) v (Function.update m d v)

/-- `*--d = *--s`, from the last byte on. -/
def copyDown : Nat → Nat → Nat → Buffer → Buffer
  | 0, _, _, m => m
  | n + 1, d, s, m =>
    let d := u32 (d + (2 ^ 32 - 1))
    let s := u32 (s + (2 ^ 32 - 1))
    copyDown n d s (Function.update m d (m s))

/-- `memmove`; the loop upwards is that of memcpy. -/
def memmove (n d s : Nat) (m : Buffer) : Buffer :=
  if d = s ∨ n = 0 then m
  else if d < s then memcpy n d s m
  else copyDown n (u32 (d + n)) (u32 (s + n)) m

/-- Upwards the source is read as it was, unless its end is behind the start of a copy
that lies above it. -/
theorem memcpy_up (n : Nat) : ∀ {d s : Nat} (m : Buffer), d + n ≤ 2 ^ 32 → s + n ≤ 2 ^ 32 →
    d ≤ s ∨ s + n ≤ d → memcpy n d s m = splice m d n (window m s) := by
  induction n with
  | zero =>
      intro d s m _ _ _
      exact (splice_zero m _ d).symm
  | succ n ih =>
      intro d s m endD endS apart
      rcases Nat.eq_zero_or_pos n with rfl | more
      · funext a
        simp only [memcpy, splice, window, Function.update_apply]
        by_cases here : a = d
        · subst here
          simp
        · rw [if_neg here, if_neg (by omega)]
      · rw [memcpy, u32_of_lt (by omega), u32_of_lt (by omega), ih _ (by omega) (by omega) (by omega)]
        funext a
        simp only [splice, window, Function.update_apply]
        by_cases here : a = d
        · rw [if_neg (by omega), if_pos here, if_pos (by omega), here, Nat.sub_self, Nat.add_zero]
        · by_cases inside : d ≤ a ∧ a < d + (n + 1)
          · rw [if_pos (by omega), if_pos inside, if_neg (by omega)]
            congr 1
            omega
          · rw [if_neg (by omega), if_neg inside, if_neg here]

/-- Between places that do not meet, memcpy copies the source as it was. -/
theorem memcpy_apart (n : Nat) {d s : Nat} (m : Buffer) (endD : d + n ≤ 2 ^ 32) (endS : s + n ≤ 2 ^ 32)
    (apart : d + n ≤ s ∨ s + n ≤ d) : memcpy n d s m = splice m d n (window m s) :=
  memcpy_up n m endD endS (apart.imp_left fun below => by omega)

theorem u32_back {a : Nat} (bound : a < 2 ^ 32) : u32 (u32 (a + 1) + (2 ^ 32 - 1)) = a := by
  rw [u32, u32]
  omega

/-- Downwards the bytes below the copied ones are still as they were. -/
theorem copyDown_moves (n : Nat) : ∀ {d s : Nat} (m : Buffer), d + n ≤ 2 ^ 32 → s + n ≤ 2 ^ 32 → s ≤ d →
    copyDown n (u32 (d + n)) (u32 (s + n)) m = splice m d n (window m s) := by
  induction n with
  | zero =>
      intro d s m _ _ _
      exact (splice_zero m _ d).symm
  | succ n ih =>
      intro d s m endD endS above
      have lastD : u32 (u32 (d + (n + 1)) + (2 ^ 32 - 1)) = d + n := u32_back (a := d + n) (by omega)
      have lastS : u32 (u32 (s + (n + 1)) + (2 ^ 32 - 1)) = s + n := u32_back (a := s + n) (by omega)
      have placeD : u32 (d + n) = d + n := u32_of_lt (by omega)
      have placeS : u32 (s + n) = s + n := u32_of_lt (by omega)
      have rest := @ih d s (Function.update m (d + n) (m (s + n))) (by omega) (by omega) above
      rw [placeD, placeS] at rest
      rw [copyDown, lastD, lastS, rest]
      funext a
      simp only [splice, window, Function.update_apply]
      by_cases last : a = d + n
      · rw [if_neg (by omega), if_pos last, if_pos (by omega), last, Nat.add_sub_cancel_left]
      · by_cases inside : d ≤ a ∧ a < d + (n + 1)
        · rw [if_pos (by omega), if_pos inside, if_neg (by omega)]
        · rw [if_neg (by omega), if_neg inside, if_neg last]

theorem memmove_moves {n d s : Nat} (m : Buffer) (endD : d + n ≤ 2 ^ 32) (endS : s + n ≤ 2 ^ 32) :
    memmove n d s m = splice m d n (window m s) := by
  rw [memmove]
  split_ifs with still below
  · rcases still with same | none
    · funext a
      rw [splice, same]
      split_ifs with inside
      · rw [window, Nat.add_sub_cancel' inside.1]
      · rfl
    · rw [none, splice_zero]
  · exact memcpy_up n m endD endS (Or.inl below.le)
  · exact copyDown_moves n m endD endS (Nat.le_of_not_lt below)

/-- `n` bytes of the address space. -/
structure Range (n : Nat) where
  start : Nat
  inside : start + n ≤ 2 ^ 32

/-- However the ranges lie, the destination gets the bytes that the source had. -/
theorem memmove_overlap {n : Nat} (dst src : Range n) (m : Buffer) (a : Nat) :
    memmove n dst.start src.start m a =
      if dst.start ≤ a ∧ a < dst.start + n then m (src.start + (a - dst.start)) else m a := by
  rw [memmove_moves m dst.inside src.inside]
  rfl

theorem memset_inside (n : Nat) : ∀ {d : Nat} (v : UInt8) (m : Buffer), d + n ≤ 2 ^ 32 →
    memset n d v m = splice m d n fun _ => v := by
  induction n with
  | zero =>
      intro d v m _
      exact (splice_zero m _ d).symm
  | succ n ih =>
      intro d v m endD
      rcases Nat.eq_zero_or_pos n with rfl | more
      · funext a
        simp only [memset, splice, Function.update_apply]
        by_cases here : a = d
        · rw [if_pos here, if_pos (by omega)]
        · rw [if_neg here, if_neg (by omega)]
      · rw [memset, u32_of_lt (by omega), ih _ _ (by omega)]
        funext a
        simp only [splice, Function.update_apply]
        by_cases here : a = d
        · rw [if_neg (by omega), if_pos here, if_pos (by omega)]
        · by_cases inside : d ≤ a ∧ a < d + (n + 1)
          · rw [if_pos (by omega), if_pos inside]
          · rw [if_neg (by omega), if_neg inside, if_neg here]

end Zenbite.Libk
