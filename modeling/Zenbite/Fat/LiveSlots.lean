import Zenbite.Fat.DirView
import Zenbite.Fat.File

/-! The live slots of a directory up to its end mark: lookup, listing and the
choice of a free slot in terms of them. -/

namespace Zenbite.Fat

open Memory

variable {buf : Buffer}

theorem liveFrom_live : ∀ {n i j : Nat}, j ∈ liveFrom buf n i → Dirent.Live (slot buf j) := by
  intro n
  induction n with
  | zero => exact fun member => by simp [liveFrom] at member
  | succ n ih =>
      intro i j member
      simp only [liveFrom] at member
      split at member
      · cases member
      · split at member
        next live =>
          rcases List.mem_cons.mp member with rfl | member
          · exact live
          · exact ih member
        · exact ih member

/-- find_in_dir takes the first live slot of the name. -/
theorem findFrom_live (buf : Buffer) (name83 : List UInt8) : ∀ n i,
    findFrom buf name83 n i = (liveFrom buf n i).find? fun j => Dirent.name (slot buf j) = name83 := by
  intro n
  induction n with
  | zero => exact fun _ => rfl
  | succ n ih =>
      intro i
      simp only [findFrom, liveFrom]
      split
      · rfl
      next used =>
        by_cases skip : slot buf i 0 = deletedMark ∨ Dirent.hasAttr (slot buf i) attrVol = true
        · have dead : ¬ Dirent.Live (slot buf i) := fun live =>
            skip.elim live.2.1 fun label => absurd live.2.2 (by simp [label])
          rw [if_pos skip, if_neg dead, ih]
        · rw [not_or, Bool.not_eq_true] at skip
          have live : Dirent.Live (slot buf i) := ⟨used, skip.1, skip.2⟩
          rw [if_neg (by simp [skip]), if_pos live, List.find?_cons, ih]
          split <;> simp_all

/-- fs_readdir goes from one live slot to the next. -/
theorem nextFrom_live (buf : Buffer) : ∀ n i, (nextFrom buf n i).1 = (liveFrom buf n i).head? ∧
    ∀ j, (nextFrom buf n i).1 = some j → (nextFrom buf n i).2 = j + 1 ∧
      liveFrom buf n i = j :: liveFrom buf (i + n - (j + 1)) (j + 1) := by
  intro n
  induction n with
  | zero => exact fun _ => ⟨rfl, fun _ none => by cases none⟩
  | succ n ih =>
      intro i
      obtain ⟨head, step⟩ := ih (i + 1)
      simp only [nextFrom, liveFrom]
      split
      · exact ⟨rfl, fun _ none => by cases none⟩
      next used =>
        by_cases skip : slot buf i 0 = deletedMark ∨ Dirent.hasAttr (slot buf i) attrVol = true
        · have dead : ¬ Dirent.Live (slot buf i) := fun live =>
            skip.elim live.2.1 fun label => absurd live.2.2 (by simp [label])
          rw [if_pos skip, if_neg dead]
          refine ⟨head, fun j found => ?_⟩
          rw [show i + (n + 1) = i + 1 + n by omega]
          exact step j found
        · rw [not_or, Bool.not_eq_true] at skip
          have live : Dirent.Live (slot buf i) := ⟨used, skip.1, skip.2⟩
          rw [if_neg (by simp [skip]), if_pos live]
          refine ⟨rfl, fun j found => ?_⟩
          obtain rfl := Option.some.inj found
          rw [show i + (n + 1) - (i + 1) = n by omega]
          exact ⟨rfl, rfl⟩

/-- Where no end mark stands in between, the slots before and after. -/
theorem liveFrom_split (m n : Nat) : ∀ i, (∀ k, i ≤ k → k < i + m → slot buf k 0 ≠ 0) →
    liveFrom buf (m + n) i = liveFrom buf m i ++ liveFrom buf n (i + m) := by
  induction m with
  | zero =>
      intro i _
      rw [Nat.zero_add, liveFrom, List.nil_append, Nat.add_zero]
  | succ m ih =>
      intro i used
      have here := used i (Nat.le_refl i) (by omega)
      have rest := ih (i + 1) fun k low high => used k (by omega) (by omega)
      rw [Nat.succ_add, liveFrom, if_neg here, liveFrom, if_neg here, rest, show i + 1 + m = i + (m + 1) by omega]
      split
      · rw [List.cons_append]
      · rfl

theorem freeFromSlot_some : ∀ {n i j}, freeFromSlot buf n i = some j → i ≤ j ∧ j < i + n ∧
    (slot buf j 0 = 0 ∨ slot buf j 0 = deletedMark) ∧
    ∀ k, i ≤ k → k < j → slot buf k 0 ≠ 0 ∧ slot buf k 0 ≠ deletedMark := by
  intro n
  induction n with
  | zero => exact fun none => by cases none
  | succ n ih =>
      intro i j found
      simp only [freeFromSlot] at found
      split at found
      next free =>
        obtain rfl := Option.some.inj found
        exact ⟨Nat.le_refl i, by omega, free, fun k low high => absurd low (by omega)⟩
      next taken =>
        obtain ⟨low, high, free, before⟩ := ih found
        refine ⟨by omega, by omega, free, fun k from_ below => ?_⟩
        rcases Nat.eq_or_lt_of_le from_ with rfl | later
        · exact not_or.mp taken
        · exact before k later below

/-- The live slots where a slot without end mark before it has been taken: the
ones before, itself, and the ones behind. -/
theorem liveFrom_around {n i : Nat} (inside : i < n) (used : ∀ k, k < i → slot buf k 0 ≠ 0) :
    liveFrom buf n 0 = liveFrom buf i 0 ++ if slot buf i 0 = 0 then [] else
      (if Dirent.Live (slot buf i) then [i] else []) ++ liveFrom buf (n - (i + 1)) (i + 1) := by
  obtain ⟨m, rfl⟩ : ∃ m, n = i + (m + 1) := ⟨n - (i + 1), by omega⟩
  rw [liveFrom_split i (m + 1) 0 fun k _ high => used k (by omega), Nat.zero_add,
    show i + (m + 1) - (i + 1) = m by omega]
  congr 1
  rw [liveFrom]
  split
  · rfl
  · split
    · rfl
    · rfl

end Zenbite.Fat
