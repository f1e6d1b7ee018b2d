import Zenbite.Lib.Memory
import Zenbite.Lib.Runs

/-! The kernel heap (kheap.c): kmalloc moves a pointer up and nothing comes back. -/

namespace Zenbite.Mm

open Memory

def heapSize : Nat := 64 * 1024

/-- Where the array `heap` lies: it is aligned to 8, and not at the null pointer. -/
structure Heap where
  base : Nat
  aligned : base % 8 = 0
  notNull : 0 < base
  fits : base + heapSize ≤ 2 ^ 32

/-- `(n + 7) & ~7u` -/
def roundUp (n : Nat) : Nat := u32 (n + 7) / 8 * 8

/-- `kmalloc`, on `next`: the block, or NULL, and `next` afterwards. -/
def kmalloc (heap : Heap) (n : UInt32) (next : Nat) : Option Nat × Nat :=
  let n := roundUp n.toNat
  if heapSize < u32 (next + n) then (none, next) else (some (heap.base + next), u32 (next + n))

/-- A block that was returned for `size` bytes. -/
structure Block where
  start : Nat
  size : Nat

def Block.Has (b : Block) (x : Nat) : Prop := b.start ≤ x ∧ x < b.start + b.size

/-- `next`, and the blocks returned so far. -/
structure Bump where
  next : Nat
  blocks : List Block

def request (heap : Heap) (n : UInt32) (s : Bump) : Bump :=
  match kmalloc heap n s.next with
  | (some start, next) => ⟨next, ⟨start, n.toNat⟩ :: s.blocks⟩
  | (none, next) => ⟨next, s.blocks⟩

/-- kheap_init -/
def empty : Bump := ⟨0, []⟩

section Owed
variable (heap : Heap)

/-- What a request owes: unless it fails, an aligned block inside the heap that shares no
byte with an earlier one. -/
def Fresh (n : UInt32) (s : Bump) : Prop :=
  ∀ start, (kmalloc heap n s.next).1 = some start →
    start % 8 = 0 ∧ (heap.base ≤ start ∧ start + n.toNat ≤ heap.base + heapSize) ∧
      ∀ b ∈ s.blocks, ∀ x, b.Has x → ¬ Block.Has ⟨start, n.toNat⟩ x

/-- The size, rounded up without wrapping, brings `next` to less than 2^32. -/
def Unwrapped (n : UInt32) (s : Bump) : Prop := s.next + (n.toNat + 7) / 8 * 8 < 2 ^ 32

/-- Everything returned lies below `next`. -/
structure Filled (s : Bump) : Prop where
  aligned : s.next % 8 = 0
  inside : s.next ≤ heapSize
  below : ∀ b ∈ s.blocks, b.start + b.size ≤ heap.base + s.next

end Owed

section Steps
variable {heap : Heap} {n : UInt32} {s : Bump}

theorem roundUp_eq (low : n.toNat + 7 < 2 ^ 32) : roundUp n.toNat = (n.toNat + 7) / 8 * 8 := by
  rw [roundUp, u32_of_lt low]

/-- A request that does not wrap returns what lies between the old and the new `next`. -/
theorem kmalloc_eq (unwrapped : Unwrapped n s) : kmalloc heap n s.next =
    if heapSize < s.next + (n.toNat + 7) / 8 * 8 then (none, s.next)
    else (some (heap.base + s.next), s.next + (n.toNat + 7) / 8 * 8) := by
  rw [Unwrapped] at unwrapped
  rw [kmalloc, roundUp_eq (by omega), u32_of_lt unwrapped]

/-- A request that wraps does not fail, and brings `next` no further up. -/
theorem kmalloc_wraps (filled : Filled heap s) (wrapped : ¬ Unwrapped n s) :
    (kmalloc heap n s.next).1 = some (heap.base + s.next) := by
  have inside := filled.inside
  have bound : n.toNat < 2 ^ 32 := n.toNat_lt
  have low : u32 (s.next + roundUp n.toNat) ≤ heapSize := by
    simp only [Unwrapped, heapSize, roundUp, u32] at wrapped inside ⊢
    omega
  rw [kmalloc]
  rw [if_neg (Nat.not_lt.mpr low)]

theorem Filled.fresh (filled : Filled heap s) (unwrapped : Unwrapped n s) : Fresh heap n s := by
  intro start returned
  rw [kmalloc_eq unwrapped] at returned
  split_ifs at returned with full
  have here : heap.base + s.next = start := Option.some.inj returned
  refine ⟨?_, ⟨?_, ?_⟩, ?_⟩
  · rw [← here, Nat.add_mod, heap.aligned, filled.aligned]
  · exact here ▸ Nat.le_add_right _ _
  · omega
  · intro b member x old new
    have below := filled.below b member
    exact absurd (Nat.lt_of_lt_of_le old.2 below) (Nat.not_lt.mpr (here ▸ new.1))

theorem Filled.request (filled : Filled heap s) (unwrapped : Unwrapped n s) :
    Filled heap (request heap n s) := by
  rw [Mm.request, kmalloc_eq unwrapped]
  by_cases full : heapSize < s.next + (n.toNat + 7) / 8 * 8
  · rw [if_pos full]
    exact filled
  · rw [if_neg full]
    constructor
    · have aligned := filled.aligned
      change (s.next + (n.toNat + 7) / 8 * 8) % 8 = 0
      omega
    · exact Nat.not_lt.mp full
    · intro b member
      change b.start + b.size ≤ heap.base + (s.next + (n.toNat + 7) / 8 * 8)
      cases List.mem_cons.mp member with
      | inl new =>
          rw [new]
          change heap.base + s.next + n.toNat ≤ _
          omega
      | inr old => exact (filled.below b old).trans (by omega)

/-- A request that wraps returns a block that is no part of the heap. -/
theorem Filled.fresh_iff (filled : Filled heap s) : Fresh heap n s ↔ Unwrapped n s := by
  constructor
  · intro fresh
    by_contra wrapped
    have inside := (fresh _ (kmalloc_wraps filled wrapped)).2.1.2
    have low := filled.inside
    have bound : n.toNat < 2 ^ 32 := n.toNat_lt
    simp only [Unwrapped, heapSize] at wrapped inside low
    omega
  · exact filled.fresh

end Steps

/-- The blocks are what they should be as long as the sizes do not wrap. -/
theorem blocks_disjoint_iff (heap : Heap) (sizes : List UInt32) :
    Runs.Each (request heap) (Fresh heap) sizes empty ↔ Runs.Each (request heap) Unwrapped sizes empty := by
  have start : Filled heap empty := ⟨rfl, Nat.zero_le _, fun _ none => absurd none List.not_mem_nil⟩
  have same : ∀ n s, Filled heap s → True → (Fresh heap n s ↔ Unwrapped n s) := fun _ _ filled _ => filled.fresh_iff
  have keeps : ∀ n s, Filled heap s → True → Unwrapped n s → Filled heap (request heap n s) :=
    fun _ _ filled _ unwrapped => filled.request unwrapped
  exact Runs.Each.iff (Filled heap) same keeps (Runs.Each.of_forall (fun _ _ _ => trivial) _) start

/-- Almost 4 GiB are asked for, and `next` is back at 0. -/
theorem request_wraps :
    ¬ Runs.Each (request ⟨0x200000, by decide, by decide, by decide⟩)
      (Fresh ⟨0x200000, by decide, by decide, by decide⟩) [16, 0xFFFFFFF0] empty := by
  intro fresh
  have inside := (fresh.2.1 0x200010 (by decide)).2.1.2
  exact absurd inside (by decide)

end Zenbite.Mm
