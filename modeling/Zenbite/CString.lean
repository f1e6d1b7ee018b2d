import Mathlib.Data.List.Basic
import Mathlib.Tactic.Ring

/-! Ints and C strings, and what libk/string.c does with the latter. -/

namespace Zenbite

/-- The int that `x` wraps to. -/
def wrapInt (x : Int) : Int := x.bmod (2 ^ 32)

theorem wrapInt_of_small {x : Int} (low : 0 ≤ x) (high : x < 2 ^ 31) : wrapInt x = x := by
  rw [wrapInt, Int.bmod_def]
  omega

/-- The characters before the NUL. -/
structure CString where
  chars : List UInt8
  noNul : ∀ c ∈ chars, c ≠ 0
  deriving DecidableEq

def toupper (c : UInt8) : UInt8 := if 97 ≤ c ∧ c ≤ 122 then c - 32 else c

def tolower (c : UInt8) : UInt8 := if 65 ≤ c ∧ c ≤ 90 then c + 32 else c

def isspace (c : UInt8) : Bool := c == 32 || c == 9 || c == 10 || c == 13

theorem toupper_toNat (c : UInt8) :
    (toupper c).toNat = if 97 ≤ c.toNat ∧ c.toNat ≤ 122 then c.toNat - 32 else c.toNat := by
  simp only [toupper, UInt8.le_iff_toNat_le, UInt8.toNat_ofNat]
  split
  next lower => exact UInt8.toNat_sub_of_le c 32 (UInt8.le_iff_toNat_le.mpr (by simpa using Nat.le_trans (by decide) lower.1))
  next => rfl

theorem tolower_toNat (c : UInt8) :
    (tolower c).toNat = if 65 ≤ c.toNat ∧ c.toNat ≤ 90 then c.toNat + 32 else c.toNat := by
  simp only [tolower, UInt8.le_iff_toNat_le, UInt8.toNat_ofNat]
  split
  next upper =>
    rw [UInt8.toNat_add]
    exact Nat.mod_eq_of_lt (Nat.lt_of_le_of_lt (Nat.add_le_add_right upper.2 32) (by decide))
  next => rfl

theorem tolower_eq_zero {c : UInt8} : tolower c = 0 ↔ c = 0 := by
  rw [← UInt8.toNat_inj, ← UInt8.toNat_inj, tolower_toNat, UInt8.toNat_zero]
  split <;> omega

/-- The two ways to leave case out are the same. -/
theorem toupper_eq_iff {c d : UInt8} : toupper c = toupper d ↔ tolower c = tolower d := by
  rw [← UInt8.toNat_inj, ← UInt8.toNat_inj, toupper_toNat, toupper_toNat, tolower_toNat, tolower_toNat]
  split <;> split <;> split <;> split <;> omega

namespace CString

@[ext] theorem ext {a b : CString} (chars : a.chars = b.chars) : a = b := by
  cases a
  cases b
  congr

def empty : CString := ⟨[], fun _ absent => absurd absent List.not_mem_nil⟩

/-- What a buffer holds up to its first NUL. -/
def read (buf : List UInt8) : CString := ⟨buf.takeWhile (· ≠ 0), fun c member zero => by
  have test := List.all_eq_true.mp List.all_takeWhile c member
  rw [zero] at test
  exact absurd test (by decide)⟩

/-- What a buffer of `n + 1` bytes can hold. -/
abbrev Field (n : Nat) := { s : CString // s.chars.length ≤ n }

/-- The first `n` characters. -/
def take (n : Nat) (s : CString) : CString := ⟨s.chars.take n, fun c member => s.noNul c (List.mem_of_mem_take member)⟩

theorem take_chars (n : Nat) (s : CString) : (s.take n).chars = s.chars.take n := rfl

theorem take_of_le {n : Nat} {s : CString} (short : s.chars.length ≤ n) : s.take n = s :=
  ext (List.take_of_length_le short)

/-- strncpy and the NUL behind it. -/
def store (n : Nat) (s : CString) : Field n := ⟨s.take n, by
  rw [take_chars, List.length_take]
  exact Nat.min_le_left _ _⟩

theorem store_val (n : Nat) (s : CString) : (s.store n).val = s.take n := rfl

/-- The loop of strcmp, up to the first difference. -/
def strcmp : List UInt8 → List UInt8 → Int
  | [], [] => 0
  | [], d :: _ => 0 - d.toNat
  | c :: _, [] => c.toNat - 0
  | c :: a, d :: b => if c = d then strcmp a b else (c.toNat : Int) - d.toNat

/-- The loop of strcasecmp. -/
def strcasecmp : List UInt8 → List UInt8 → Int
  | [], [] => 0
  | [], d :: _ => 0 - (tolower d).toNat
  | c :: _, [] => (tolower c).toNat - 0
  | c :: a, d :: b =>
    if tolower c = tolower d then strcasecmp a b else ((tolower c).toNat : Int) - (tolower d).toNat

/-- Up to the case of ASCII letters. -/
def fold (s : CString) : List UInt8 := s.chars.map tolower

theorem toNat_sub_eq_zero {c d : UInt8} : (c.toNat : Int) - d.toNat = 0 ↔ c = d := by
  rw [Int.sub_eq_zero, Int.natCast_inj, UInt8.toNat_inj]

theorem strcmp_eq_zero {a b : List UInt8} (left : ∀ c ∈ a, c ≠ 0) (right : ∀ c ∈ b, c ≠ 0) :
    strcmp a b = 0 ↔ a = b := by
  induction a generalizing b with
  | nil =>
      cases b with
      | nil => exact iff_of_true rfl rfl
      | cons d b =>
          refine iff_of_false (fun same => right d List.mem_cons_self ?_) (List.cons_ne_nil _ _).symm
          exact (toNat_sub_eq_zero (c := 0).mp same).symm
  | cons c a ih =>
      cases b with
      | nil =>
          refine iff_of_false (fun same => left c List.mem_cons_self ?_) (List.cons_ne_nil _ _)
          exact toNat_sub_eq_zero (d := 0).mp same
      | cons d b =>
          rw [strcmp, List.cons.injEq]
          split
          next same =>
            rw [and_iff_right same]
            exact ih (fun x member => left x (List.mem_cons_of_mem c member))
              fun x member => right x (List.mem_cons_of_mem d member)
          next other => exact iff_of_false (fun same => other (toNat_sub_eq_zero.mp same)) fun same => other same.1

theorem strcasecmp_eq_strcmp (a b : List UInt8) : strcasecmp a b = strcmp (a.map tolower) (b.map tolower) := by
  induction a generalizing b with
  | nil =>
      cases b with
      | nil => rfl
      | cons d b => rfl
  | cons c a ih =>
      cases b with
      | nil => rfl
      | cons d b => rw [strcasecmp, ih, List.map_cons, List.map_cons, strcmp]

theorem fold_noNul (s : CString) : ∀ c ∈ s.fold, c ≠ 0 := by
  intro c member
  obtain ⟨d, inside, rfl⟩ := List.mem_map.mp member
  exact fun zero => s.noNul d inside (tolower_eq_zero.mp zero)

theorem strcmp_iff {a b : CString} : strcmp a.chars b.chars = 0 ↔ a = b := by
  rw [strcmp_eq_zero a.noNul b.noNul]
  exact ⟨ext, congrArg chars⟩

theorem strcasecmp_iff {a b : CString} : strcasecmp a.chars b.chars = 0 ↔ a.fold = b.fold := by
  rw [strcasecmp_eq_strcmp]
  exact strcmp_eq_zero a.fold_noNul b.fold_noNul

theorem fold_length (s : CString) : s.fold.length = s.chars.length := List.length_map _

end CString

end Zenbite
