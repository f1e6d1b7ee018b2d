import Mathlib.Data.List.TakeWhile
import Zenbite.CString

/-! Words of a command line, and how much of the line they need. -/

namespace Zenbite.Shell

/-- tokenize of shell.c, with room for `n` arguments. 34 is the quotation mark. -/
def tokenize : Nat → List UInt8 → List (List UInt8)
  | 0, _ => []
  | n + 1, line =>
    match line.dropWhile isspace with
    | [] => []
    | c :: rest =>
      if c = 34 then rest.takeWhile (· ≠ 34) :: tokenize n ((rest.dropWhile (· ≠ 34)).drop 1)
      else
        (c :: rest).takeWhile (fun d => !isspace d) ::
          tokenize n (((c :: rest).dropWhile fun d => !isspace d).drop 1)

/-- How far a word reaches, and what is read behind it. -/
def scanReach (p : UInt8 → Bool) (later : List UInt8 → Nat) (text : List UInt8) : Nat :=
  (text.takeWhile p).length +
    if later ((text.dropWhile p).drop 1) = 0 then 0 else 1 + later ((text.dropWhile p).drop 1)

/-- How far into the text its first `n` arguments reach. -/
def reach : Nat → List UInt8 → Nat
  | 0, _ => 0
  | n + 1, line =>
    match line.dropWhile isspace with
    | [] => 0
    | c :: rest =>
      (line.takeWhile isspace).length +
        if c = 34 then 1 + scanReach (· ≠ 34) (reach n) rest else scanReach (fun d => !isspace d) (reach n) (c :: rest)

section Cuts
variable {p : UInt8 → Bool}

theorem takeWhile_take (k : Nat) (s : List UInt8) : (s.take k).takeWhile p = (s.takeWhile p).take k := by
  induction s generalizing k with
  | nil => simp
  | cons c s ih =>
      cases k with
      | zero => rfl
      | succ k =>
          rw [List.take_succ_cons, List.takeWhile_cons, List.takeWhile_cons]
          split
          next => rw [ih, List.take_succ_cons]
          next => rfl

theorem drop_takeWhile (s : List UInt8) : s.drop (s.takeWhile p).length = s.dropWhile p := by
  induction s with
  | nil => rfl
  | cons c s ih =>
      rw [List.takeWhile_cons, List.dropWhile_cons]
      split
      next => rw [List.length_cons, List.drop_succ_cons, ih]
      next => rfl

/-- Behind a word that is whole the rest is cut by what is left. -/
theorem dropWhile_take {k : Nat} {s : List UInt8} (whole : (s.takeWhile p).length ≤ k) :
    (s.take k).dropWhile p = (s.dropWhile p).take (k - (s.takeWhile p).length) := by
  rw [← drop_takeWhile, ← drop_takeWhile, takeWhile_take, List.length_take, Nat.min_eq_right whole, List.drop_take]

theorem dropWhile_take_front {k : Nat} {s : List UInt8} (front : k ≤ (s.takeWhile p).length) : (s.take k).dropWhile p = [] := by
  have whole : ((s.take k).takeWhile p).length = (s.take k).length := by
    rw [takeWhile_take, List.length_take, List.length_take, Nat.min_eq_left front,
      Nat.min_eq_left (front.trans (List.takeWhile_prefix p).length_le)]
  rw [← drop_takeWhile, whole, List.drop_length]

end Cuts

/-- A word and what comes behind it. -/
def scan (p : UInt8 → Bool) (n : Nat) (text : List UInt8) : List (List UInt8) :=
  text.takeWhile p :: tokenize n ((text.dropWhile p).drop 1)

section Scans
variable {n : Nat} (ih : ∀ (m : Nat) (s : List UInt8), tokenize n (s.take m) = tokenize n s ↔ reach n s ≤ m)
include ih

theorem scan_take {p : UInt8 → Bool} (k : Nat) (text : List UInt8) :
    scan p n (text.take k) = scan p n text ↔ scanReach p (reach n) text ≤ k := by
  rw [scan, scan, takeWhile_take, List.cons.injEq, scanReach]
  by_cases whole : (text.takeWhile p).length ≤ k
  · rw [List.take_of_length_le whole, and_iff_right rfl, dropWhile_take whole, List.drop_take, ih]
    split
    · omega
    · omega
  · refine iff_of_false (fun both => whole ?_) (by omega)
    rw [← both.1, List.length_take]
    exact Nat.min_le_left _ _

end Scans

theorem tokenize_succ (n : Nat) (line : List UInt8) : tokenize (n + 1) line =
    match line.dropWhile isspace with
    | [] => []
    | c :: rest => if c = 34 then scan (· ≠ 34) n rest else scan (fun d => !isspace d) n (c :: rest) := rfl

theorem tokenize_none {n : Nat} {line : List UInt8} (blank : line.dropWhile isspace = []) : tokenize n line = [] := by
  cases n with
  | zero => rfl
  | succ n => rw [tokenize_succ, blank]

theorem tokenize_some {n : Nat} {line : List UInt8} (word : line.dropWhile isspace ≠ []) : tokenize (n + 1) line ≠ [] := by
  rw [tokenize_succ]
  split
  next blank => exact absurd blank word
  next =>
    split
    · exact List.cons_ne_nil _ _
    · exact List.cons_ne_nil _ _

/-- A word that is not quoted has a character at least. -/
theorem scanReach_pos {p : UInt8 → Bool} {later : List UInt8 → Nat} {c : UInt8} {rest : List UInt8} (first : p c = true) :
    0 < scanReach p later (c :: rest) := by
  rw [scanReach, List.takeWhile_cons_of_pos first, List.length_cons]
  omega

theorem dropWhile_head {p : UInt8 → Bool} {s rest : List UInt8} {c : UInt8} (found : s.dropWhile p = c :: rest) :
    p c = false := by
  have first := List.head?_dropWhile_not p s
  rw [found] at first
  exact first

/-- The first `m` characters of a text have the same arguments as all of it exactly if the
arguments reach no further. -/
theorem tokenize_take (n m : Nat) (line : List UInt8) :
    tokenize n (line.take m) = tokenize n line ↔ reach n line ≤ m := by
  induction n generalizing m line with
  | zero => exact iff_of_true rfl (Nat.zero_le m)
  | succ n ih =>
      cases found : line.dropWhile isspace with
      | nil =>
          have all : (line.take m).dropWhile isspace = [] := by
            by_cases front : m ≤ (line.takeWhile isspace).length
            · exact dropWhile_take_front front
            · rw [dropWhile_take (by omega), found, List.take_nil]
          rw [tokenize_none all, tokenize_none found, reach, found]
          exact iff_of_true rfl (Nat.zero_le m)
      | cons c rest =>
          have letter : (!isspace c) = true := by rw [dropWhile_head found]; rfl
          have far : (line.takeWhile isspace).length < reach (n + 1) line := by
            rw [reach, found]
            dsimp only
            split
            · omega
            · exact Nat.lt_add_of_pos_right (scanReach_pos letter)
          by_cases blanks : m ≤ (line.takeWhile isspace).length
          · rw [tokenize_none (dropWhile_take_front blanks)]
            refine iff_of_false (fun same => ?_) (Nat.not_le.mpr (Nat.lt_of_le_of_lt blanks far))
            exact tokenize_some (by rw [found]; exact List.cons_ne_nil _ _) same.symm
          · obtain ⟨k, rfl⟩ : ∃ k, m = (line.takeWhile isspace).length + (k + 1) :=
              ⟨m - (line.takeWhile isspace).length - 1, by omega⟩
            have cut : (line.take ((line.takeWhile isspace).length + (k + 1))).dropWhile isspace = c :: rest.take k := by
              rw [dropWhile_take (Nat.le_add_right _ _), found, Nat.add_sub_cancel_left, List.take_succ_cons]
            rw [tokenize_succ, tokenize_succ, reach, cut, found]
            dsimp only
            split
            · rw [scan_take ih]
              omega
            · rw [← List.take_succ_cons, scan_take ih]
              omega

/-- No argument begins with a quotation mark. -/
theorem tokenize_head (n : Nat) (line : List UInt8) : ∀ arg ∈ tokenize n line, arg.head? ≠ some 34 := by
  induction n generalizing line with
  | zero => exact fun _ absent => absurd absent List.not_mem_nil
  | succ n ih =>
      intro arg member
      rw [tokenize_succ] at member
      split at member
      next => exact absurd member List.not_mem_nil
      next c rest _ =>
        split at member
        next =>
          rcases List.mem_cons.mp member with rfl | later
          · intro first
            exact absurd (List.mem_takeWhile_imp (List.mem_of_mem_head? first)) (by decide)
          · exact ih _ arg later
        next plain =>
          rcases List.mem_cons.mp member with rfl | later
          · intro first
            have blank : isspace c = false := dropWhile_head ‹_›
            rw [List.takeWhile_cons_of_pos (by rw [blank]; rfl), List.head?_cons, Option.some.injEq] at first
            exact plain first
          · exact ih _ arg later

end Zenbite.Shell
