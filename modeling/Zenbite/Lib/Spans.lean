import Zenbite.Lib.Memory

/-! Spans of addresses that a controller reads or writes one after the other. Addresses wrap
around at `size`. -/

namespace Zenbite.Spans

open Memory

structure Span where
  start : Nat
  length : Nat

def total (spans : List Span) : Nat := (spans.map Span.length).sum

/-- Each span starts where the one before it ends, and the first one at `a`. -/
def Follow (size : Nat) : Nat → List Span → Prop
  | _, [] => True
  | a, s :: rest => s.start = a % size ∧ Follow size (a + s.length) rest

@[simp] theorem total_nil : total [] = 0 := rfl

@[simp] theorem total_cons (s : Span) (rest : List Span) : total (s :: rest) = s.length + total rest := by
  simp only [total, List.map_cons, List.sum_cons]

@[simp] theorem follow_nil (size a : Nat) : Follow size a [] := trivial

theorem follow_cons {size a : Nat} {s : Span} {rest : List Span} :
    Follow size a (s :: rest) ↔ s.start = a % size ∧ Follow size (a + s.length) rest := Iff.rfl

theorem follow_congr {size a b : Nat} {spans : List Span} (same : a % size = b % size) :
    Follow size a spans ↔ Follow size b spans := by
  induction spans generalizing a b with
  | nil => exact Iff.rfl
  | cons s rest ih =>
      have next : (a + s.length) % size = (b + s.length) % size := by
        rw [Nat.add_mod, same, ← Nat.add_mod]
      rw [follow_cons, follow_cons, same, ih next]

/-- The spans are the `len` addresses from `a` on, in order. -/
def Covers (size a len : Nat) (spans : List Span) : Prop := Follow size a spans ∧ total spans = len

/-! Reading and writing along spans -/

section Access
variable {α : Type}

def gather (spans : List Span) (m : Nat → α) : List α :=
  spans.flatMap fun s => (List.range s.length).map fun i => m (s.start + i)

/-- One span of a transfer; some of the bytes may not come. -/
def put (s : Span) (bytes : Nat → Option α) (m : Nat → α) : Nat → α :=
  fun a => if s.start ≤ a ∧ a < s.start + s.length then (bytes (a - s.start)).getD (m a) else m a

def fill : List Span → (Nat → Option α) → (Nat → α) → Nat → α
  | [], _, m => m
  | s :: rest, bytes, m => fill rest (fun k => bytes (s.length + k)) (put s bytes m)

variable {size a len x : Nat} {spans : List Span} {bytes : Nat → Option α} {m : Nat → α}

theorem put_outside {s : Span} (outside : x < s.start ∨ s.start + s.length ≤ x) : put s bytes m x = m x :=
  if_neg (by omega)

theorem put_inside {s : Span} {k : Nat} (inside : k < s.length) :
    put s bytes m (s.start + k) = (bytes k).getD (m (s.start + k)) := by
  rw [put, if_pos ⟨Nat.le_add_right _ _, by omega⟩, Nat.add_sub_cancel_left]

/-- Every value is an old one or one of the bytes. -/
theorem fill_from : fill spans bytes m x = m x ∨ ∃ k, bytes k = some (fill spans bytes m x) := by
  induction spans generalizing bytes m with
  | nil => exact Or.inl rfl
  | cons s rest ih =>
      rw [fill]
      rcases @ih (fun k => bytes (s.length + k)) (put s bytes m) with same | ⟨k, here⟩
      · rw [same, put]
        split_ifs
        · cases byte : bytes (x - s.start) with
          | none => exact Or.inl rfl
          | some v => exact Or.inr ⟨x - s.start, byte⟩
        · exact Or.inl rfl
      · exact Or.inr ⟨s.length + k, here⟩

/-- A span that is not empty starts where it should, as long as the addresses do not wrap. -/
private theorem start_eq {s : Span} (start : s.start = a % size) (fits : a + s.length ≤ size) (some' : 0 < s.length) :
    s.start = a := by
  rw [start, Nat.mod_eq_of_lt (by omega)]

theorem Covers.cons {s : Span} {rest : List Span} (covers : Covers size a len (s :: rest)) (fits : a + len ≤ size) :
    (0 < s.length → s.start = a) ∧ ∃ k, len = s.length + k ∧ Covers size (a + s.length) k rest := by
  have start := (follow_cons.mp covers.1).1
  have behind := (follow_cons.mp covers.1).2
  have length : s.length + total rest = len := (total_cons s rest).symm.trans covers.2
  exact ⟨start_eq start (by omega), total rest, length.symm, behind, rfl⟩

theorem Covers.fill_outside (covers : Covers size a len spans) (fits : a + len ≤ size)
    (outside : x < a ∨ a + len ≤ x) : fill spans bytes m x = m x := by
  induction spans generalizing a len bytes m with
  | nil => rfl
  | cons s rest ih =>
      obtain ⟨start, k, length, behind⟩ := covers.cons fits
      rw [fill, ih behind (by omega) (by omega)]
      rcases Nat.eq_zero_or_pos s.length with empty | some'
      · exact put_outside (by omega)
      · have here := start some'
        exact put_outside (by omega)

theorem Covers.fill_inside (covers : Covers size a len spans) (fits : a + len ≤ size) {k : Nat} (inside : k < len) :
    fill spans bytes m (a + k) = (bytes k).getD (m (a + k)) := by
  induction spans generalizing a len k bytes m with
  | nil =>
      have none : 0 = len := covers.2
      omega
  | cons s rest ih =>
      obtain ⟨start, l, length, behind⟩ := covers.cons fits
      rw [fill]
      rcases Nat.lt_or_ge k s.length with here | later
      · rw [behind.fill_outside (by omega) (by omega), ← start (by omega), put_inside here]
      · obtain ⟨j, rfl⟩ := Nat.exists_eq_add_of_le later
        have next := @ih (a + s.length) l (fun k => bytes (s.length + k)) (put s bytes m) behind (by omega) j (by omega)
        have kept : put s bytes m (a + s.length + j) = m (a + s.length + j) := by
          rcases Nat.eq_zero_or_pos s.length with empty | some'
          · exact put_outside (by omega)
          · have here := start some'
            exact put_outside (by omega)
        rw [← Nat.add_assoc, next, kept]

theorem Covers.gather_eq (covers : Covers size a len spans) (fits : a + len ≤ size) :
    gather spans m = (List.range len).map fun k => m (a + k) := by
  induction spans generalizing a len with
  | nil =>
      have none : 0 = len := covers.2
      rw [← none]
      rfl
  | cons s rest ih =>
      obtain ⟨start, k, length, behind⟩ := covers.cons fits
      have tail := ih behind (by omega)
      have head : (List.range s.length).map (fun i => m (s.start + i)) = (List.range s.length).map fun i => m (a + i) := by
        apply List.map_congr_left
        intro i member
        have inside := List.mem_range.mp member
        rw [start (by omega)]
      rw [gather] at tail ⊢
      rw [List.flatMap_cons, tail, head, length, List.range_add, List.map_append, List.map_map]
      apply congrArg
      apply List.map_congr_left
      intro i _
      exact congrArg m (Nat.add_assoc a s.length i)

end Access

end Zenbite.Spans
