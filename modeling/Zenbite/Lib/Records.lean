import Mathlib.Tactic.Common

/-! Buffers of records that start with their own length, and loops over them. -/

namespace Records

variable {σ : Type} (len : Nat → Nat) (total : Nat)

/-- The record at `p` has its two bytes of header and lies before the end. -/
def Whole (p : Nat) : Prop := 2 ≤ len p ∧ p + len p ≤ total

instance (p : Nat) : Decidable (Whole len total p) := inferInstanceAs (Decidable (_ ∧ _))

/-- The whole records from byte `p` on, one behind the other. -/
def recordsFrom : Nat → Nat → List Nat
  | 0, _ => []
  | fuel + 1, p => if Whole len total p then p :: recordsFrom fuel (p + len p) else []

def records : List Nat := recordsFrom len total (total + 1) 0

/-- Behind the whole records a single byte is left. -/
def LoneByte : Prop := total = 1 ∨ ∃ p ∈ records len total, p + len p + 1 = total

instance : Decidable (LoneByte len total) := inferInstanceAs (Decidable (_ ∨ _))

/-- A loop from byte `p` on that reads both bytes of the header before it looks whether the
record is whole: the bytes that it reads, in order, and the state behind it. -/
def walk (visit : Nat → σ → List Nat × σ) : Nat → Nat → σ → Option (List Nat × σ)
  | 0, _, _ => none
  | fuel + 1, p, s =>
    if p < total then
      if len p < 2 ∨ total < p + len p then some ([p, p + 1], s)
      else (walk visit fuel (p + len p) (visit p s).2).map fun rest => (p :: (p + 1) :: ((visit p s).1 ++ rest.1), rest.2)
    else some ([], s)

variable {len total} {visit : Nat → σ → List Nat × σ} {p fuel : Nat} {s : σ}

theorem Whole.shorter (whole : Whole len total p) (enough : total - p < fuel + 1) : total - (p + len p) < fuel := by
  have header : 2 ≤ len p := whole.1
  have fits : p + len p ≤ total := whole.2
  omega

theorem not_whole : ¬Whole len total p ↔ len p < 2 ∨ total < p + len p := by
  rw [Whole, not_and_or, Nat.not_le, Nat.not_le]

theorem walk_whole (whole : Whole len total p) : walk len total visit (fuel + 1) p s =
    (walk len total visit fuel (p + len p) (visit p s).2).map fun rest =>
      (p :: (p + 1) :: ((visit p s).1 ++ rest.1), rest.2) := by
  have inside : p < total := by
    have header := whole.1
    have fits := whole.2
    omega
  rw [walk, if_pos inside, if_neg (fun broken => not_whole.mpr broken whole)]

/-- The loop ends, in the state that the whole records leave. -/
theorem walk_ends (enough : total - p < fuel) : ∃ reads, walk len total visit fuel p s =
    some (reads, (recordsFrom len total fuel p).foldl (fun s q => (visit q s).2) s) := by
  induction fuel generalizing p s with
  | zero => exact absurd enough (Nat.not_lt_zero _)
  | succ fuel ih =>
      by_cases whole : Whole len total p
      · have ⟨reads, rest⟩ := ih (s := (visit p s).2) (whole.shorter enough)
        rw [walk_whole whole, rest, recordsFrom, if_pos whole]
        exact ⟨_, rfl⟩
      · rw [walk, recordsFrom, if_neg whole, if_pos (not_whole.mp whole)]
        split <;> exact ⟨_, rfl⟩

/-- The loop reads nothing behind the end unless a record would start at the last byte. -/
theorem walk_inside_iff (own : ∀ q s, Whole len total q → ∀ i ∈ (visit q s).1, i < total) {reads : List Nat} {s' : σ}
    (done : walk len total visit fuel p s = some (reads, s')) :
    (∀ i ∈ reads, i < total) ↔ p + 1 ≠ total ∧ ∀ q ∈ recordsFrom len total fuel p, q + len q + 1 ≠ total := by
  induction fuel generalizing p s reads with
  | zero => cases done
  | succ fuel ih =>
      by_cases whole : Whole len total p
      · rw [walk_whole whole] at done
        obtain ⟨⟨later, last⟩, rest, same⟩ := Option.map_eq_some_iff.mp done
        cases same
        have header : 2 ≤ len p := whole.1
        have fits : p + len p ≤ total := whole.2
        rw [recordsFrom, if_pos whole, List.forall_mem_cons, List.forall_mem_cons, List.forall_mem_cons,
          List.forall_mem_append, ih rest]
        have first : p < total := by omega
        have second : p + 1 < total := by omega
        have notLast : p + 1 ≠ total := Nat.ne_of_lt second
        tauto
      · rw [walk, if_pos (not_whole.mp whole)] at done
        rw [recordsFrom, if_neg whole]
        have none : ∀ q ∈ ([] : List Nat), q + len q + 1 ≠ total := List.forall_mem_nil _
        split at done
        next inside =>
          cases done
          rw [List.forall_mem_cons, List.forall_mem_singleton]
          exact ⟨fun both => ⟨Nat.ne_of_lt both.2, none⟩, fun apart => ⟨inside, by have := apart.1; omega⟩⟩
        next outside =>
          cases done
          exact ⟨fun _ => ⟨by omega, none⟩, fun _ => List.forall_mem_nil _⟩

theorem not_loneByte : ¬LoneByte len total ↔ 0 + 1 ≠ total ∧ ∀ q ∈ records len total, q + len q + 1 ≠ total := by
  rw [LoneByte, not_or, not_exists, Nat.zero_add, ne_comm, forall_congr']
  exact fun q => not_and

end Records
