import Zenbite.Lib.Memory

/-! Code that reads a byte memory, with the spans it touches in order. A rule for
each way to build it turns "everything is inside" into arithmetic. -/

namespace Zenbite.Reads

open Memory

structure Span where
  start : Nat
  size : Nat
  deriving DecidableEq, Repr

/-- The span lies in the first `len` bytes. -/
def Span.Within (len : Nat) (s : Span) : Prop := s.start + s.size ≤ len

instance (len : Nat) (s : Span) : Decidable (s.Within len) := inferInstanceAs (Decidable (_ ≤ _))

def Look (α : Type) := Buffer → α × List Span

instance : Monad Look where
  pure a := fun _ => (a, [])
  bind look next := fun m =>
    let found := look m
    let rest := next found.1 m
    (rest.1, found.2 ++ rest.2)

namespace Look

/-- A value computed from the bytes of one span. -/
def field {α : Type} (start size : Nat) (value : Buffer → α) : Look α :=
  fun m => (value m, [⟨start, size⟩])

def byte (off : Nat) : Look Nat := field off 1 fun m => (m off).toNat

/-- Two bytes in network order. -/
def net16 (off : Nat) : Look Nat := field off 2 fun m => (m off).toNat * 2 ^ 8 + (m (off + 1)).toNat

/-- Four bytes in network order. -/
def net32 (off : Nat) : Look Nat :=
  field off 4 fun m =>
    ((m off).toNat * 2 ^ 8 + (m (off + 1)).toNat) * 2 ^ 16 +
      ((m (off + 2)).toNat * 2 ^ 8 + (m (off + 3)).toNat)

/-- Four bytes as they stand, in the order of the machine. -/
def raw32 (off : Nat) : Look Nat := field off 4 fun m => readLe32 m off

def bytes (start size : Nat) : Look (List UInt8) :=
  field start size fun m => (List.range size).map fun i => m (start + i)

/-- Everything touched lies in the first `len` bytes. -/
def Inside (len : Nat) (m : Buffer) {α : Type} (look : Look α) : Prop :=
  ∀ s ∈ (look m).2, s.Within len

instance (len : Nat) (m : Buffer) {α : Type} (look : Look α) : Decidable (look.Inside len m) :=
  inferInstanceAs (Decidable (∀ s ∈ _, _))

section Values
variable {α β : Type} (m : Buffer)

@[simp] theorem value_pure (a : α) : ((pure a : Look α) m).1 = a := rfl

@[simp] theorem value_bind (look : Look α) (next : α → Look β) :
    ((look >>= next) m).1 = (next (look m).1 m).1 := rfl

@[simp] theorem spans_pure (a : α) : ((pure a : Look α) m).2 = [] := rfl

@[simp] theorem spans_bind (look : Look α) (next : α → Look β) :
    ((look >>= next) m).2 = (look m).2 ++ (next (look m).1 m).2 := rfl

theorem spans_ite (c : Prop) [Decidable c] (yes no : Look α) :
    ((if c then yes else no : Look α) m).2 = if c then (yes m).2 else (no m).2 := by
  split <;> rfl

theorem value_ite (c : Prop) [Decidable c] (yes no : Look α) :
    ((if c then yes else no : Look α) m).1 = if c then (yes m).1 else (no m).1 := by
  split <;> rfl

end Values

section Rules
variable {α β : Type} (len : Nat) (m : Buffer)

@[simp] theorem inside_pure (a : α) : (pure a : Look α).Inside len m ↔ True :=
  iff_true_intro fun _ member => absurd member List.not_mem_nil

@[simp] theorem inside_bind (look : Look α) (next : α → Look β) :
    (look >>= next).Inside len m ↔ look.Inside len m ∧ (next (look m).1).Inside len m := by
  constructor
  · intro inside
    constructor
    · exact fun s member => inside s (List.mem_append_left _ member)
    · exact fun s member => inside s (List.mem_append_right _ member)
  · rintro ⟨first, rest⟩ s member
    rcases List.mem_append.mp member with member | member
    · exact first s member
    · exact rest s member

@[simp] theorem inside_field (start size : Nat) (value : Buffer → α) :
    (field start size value).Inside len m ↔ start + size ≤ len := by
  constructor
  · exact fun inside => inside _ (List.mem_singleton_self _)
  · rintro within s member
    rw [List.mem_singleton.mp member]
    exact within

@[simp] theorem inside_ite (c : Prop) [Decidable c] (yes no : Look α) :
    (if c then yes else no).Inside len m ↔ if c then yes.Inside len m else no.Inside len m := by
  split <;> rfl

@[simp] theorem inside_byte (off : Nat) : (byte off).Inside len m ↔ off + 1 ≤ len :=
  inside_field len m off 1 _

@[simp] theorem inside_net16 (off : Nat) : (net16 off).Inside len m ↔ off + 2 ≤ len :=
  inside_field len m off 2 _

@[simp] theorem inside_net32 (off : Nat) : (net32 off).Inside len m ↔ off + 4 ≤ len :=
  inside_field len m off 4 _

@[simp] theorem inside_raw32 (off : Nat) : (raw32 off).Inside len m ↔ off + 4 ≤ len :=
  inside_field len m off 4 _

@[simp] theorem inside_bytes (start size : Nat) :
    (bytes start size).Inside len m ↔ start + size ≤ len :=
  inside_field len m start size _

end Rules

end Look

end Zenbite.Reads
