import Mathlib.Data.List.Find
import Mathlib.Tactic.Common
import Zenbite.Lib.Bitmap
import Zenbite.Lib.Runs

/-! The physical memory manager (pmm.c): pmm_init over the size the loader found, and
the calls that hand out frames and take them back. -/

namespace Zenbite.Mm

open Memory Bitmap

def frameSize : Nat := 4096

/-- The number of frames in 16 MiB. -/
@[irreducible] def frameMax : Nat := 4096

/-- The image is linked at 1 MiB, and there is an address behind its last page. -/
structure Kernel where
  kernelEnd : Nat
  low : 0x100000 ≤ kernelEnd
  high : kernelEnd + (frameSize - 1) < 2 ^ 32

/-- `struct boot_info`, as far as pmm_init reads it. -/
structure BootInfo where
  magic : UInt32
  memUpperKib : UInt32

/-- BOOT_INFO_MAGIC -/
def bootInfoMagic : UInt32 := 0x5A454E42

/-- The counters stay at or below FRAME_MAX, so they do not wrap. -/
structure Pmm where
  bitmap : Buffer
  frameTotal : Nat
  frameFree : Nat

namespace Pmm

variable (p : Pmm)

def isUsed (f : Nat) : Bool := test p.bitmap f

def markUsed (f : Nat) : Pmm := { p with bitmap := set p.bitmap f }

def markFree (f : Nat) : Pmm := { p with bitmap := clear p.bitmap f }

/-- The loop of pmm_init from the address `a` on. Behind `left` rounds the frame is not
below FRAME_MAX; `a` stays below 16 MiB + FRAME_SIZE. -/
def addFrames (memTop : Nat) : Nat → Nat → Pmm → Pmm
  | 0, _, p => p
  | left + 1, a, p =>
    if a < memTop then
      if frameMax ≤ a / frameSize then p
      else
        let p := p.markFree (a / frameSize)
        addFrames memTop left (a + frameSize)
          { p with frameTotal := p.frameTotal + 1, frameFree := p.frameFree + 1 }
    else p

/-- Where the loop of pmm_alloc_frame ends early. -/
def firstFree : Option Nat := (List.range frameMax).find? fun f => !p.isUsed f

/-- `pmm_alloc_frame`, with the frame in place of its address. -/
def allocFrame : Option Nat × Pmm :=
  match p.firstFree with
  | some f => (some f, { p.markUsed f with frameFree := p.frameFree - 1 })
  | none => (none, p)

/-- `pmm_free_frame` -/
def freeFrame (ptr : UInt32) : Pmm :=
  let f := ptr.toNat / frameSize
  if frameMax ≤ f then p
  else if p.isUsed f = false then p
  else { p.markFree f with frameFree := p.frameFree + 1 }

end Pmm

section Boot
variable (k : Kernel) (bi : Option BootInfo)

def upperKib : Nat :=
  match bi with
  | some b => if b.magic = bootInfoMagic then b.memUpperKib.toNat else 3 * 1024
  | none => 3 * 1024

def memTop : Nat := min (u32 (0x00100000 + u32 (upperKib bi * 1024))) 0x01000000

/-- `kernel_end`: the first address above the image that starts a frame. -/
def poolStart : Nat := u32 (k.kernelEnd + (frameSize - 1)) / frameSize * frameSize

def pmmInit : Pmm :=
  Pmm.addFrames (memTop bi) frameMax (poolStart k) ⟨fun _ => 0xFF, 0, 0⟩

/-- Where RAM ends, by the size that was found or assumed. -/
def ramTop : Nat := 0x00100000 + upperKib bi * 1024

end Boot

/-- The allocator, and the frames that are handed out and not freed yet. -/
structure Track where
  pmm : Pmm
  held : Finset Nat

inductive Call where
  | alloc
  | free (ptr : UInt32)

/-- The frame that starts at this address. -/
def frameAt (ptr : UInt32) : Option Nat :=
  if ptr.toNat % frameSize = 0 then some (ptr.toNat / frameSize) else none

def Call.step : Call → Track → Track
  | .alloc, t =>
    match t.pmm.allocFrame with
    | (some f, pmm) => ⟨pmm, insert f t.held⟩
    | (none, pmm) => ⟨pmm, t.held⟩
  | .free ptr, t => ⟨t.pmm.freeFrame ptr, t.held.filter fun f => frameAt ptr ≠ some f⟩

def boot (k : Kernel) (bi : Option BootInfo) : Track := ⟨pmmInit k bi, ∅⟩

/-- The number of free frames is the number of clear bits, and no more than there are. -/
def Counted (p : Pmm) : Prop := p.frameFree = (clears p.bitmap frameMax).card ∧ p.frameFree ≤ p.frameTotal

section Owed
variable (k : Kernel) (bi : Option BootInfo)

/-- What a call owes: a frame handed out was not handed out before, and is RAM above the
image, all of it; an address that is not one of a held frame frees nothing. -/
def Call.Sound : Call → Track → Prop
  | .alloc, t =>
    (∀ f, t.pmm.allocFrame.1 = some f →
      f ∉ t.held ∧ k.kernelEnd ≤ f * frameSize ∧ f * frameSize + frameSize ≤ ramTop bi) ∧
    Counted (Call.alloc.step t).pmm
  | .free ptr, t =>
    ((∃ f ∈ t.held, frameAt ptr = some f) ∨ t.pmm.freeFrame ptr = t.pmm) ∧
    Counted ((Call.free ptr).step t).pmm

/-- A run from the boot on, with every call as it is owed. -/
def SoundRun (calls : List Call) : Prop :=
  Counted (boot k bi).pmm ∧ Runs.Each Call.step (Call.Sound k bi) calls (boot k bi)

/-- RAM ends inside the frame. -/
def Partial (f : Nat) : Prop := f * frameSize < ramTop bi ∧ ramTop bi < f * frameSize + frameSize

/-- A frame is asked for while the one that RAM ends in is used or has a free one below
it; and what is given back starts a frame between the image and the top, or lies in a
frame that is free, or above 16 MiB. -/
def Call.Careful : Call → Track → Prop
  | .alloc, t => ∀ f < frameMax, Partial bi f → t.pmm.isUsed f = true ∨ ∃ g < f, t.pmm.isUsed g = false
  | .free ptr, t =>
    frameMax ≤ ptr.toNat / frameSize ∨ t.pmm.isUsed (ptr.toNat / frameSize) = false ∨
      ptr.toNat % frameSize = 0 ∧ k.kernelEnd ≤ ptr.toNat ∧ ptr.toNat < memTop bi

end Owed

/-! What the loop of pmm_init does -/

section Loop
variable {top : Nat}

theorem frameSize_div (g : Nat) : g * frameSize / frameSize = g := Nat.mul_div_cancel g (by decide)

/-- From the frame `g` on, the loop frees what lies below the top and below 16 MiB. -/
theorem addFrames_used {f : Nat} (inside : f < frameMax) :
    ∀ {left g : Nat} (p : Pmm), frameMax ≤ g + left →
      ((Pmm.addFrames top left (g * frameSize) p).isUsed f = false ↔
        p.isUsed f = false ∨ g ≤ f ∧ f * frameSize < top) := by
  intro left
  induction left with
  | zero =>
      intro g p enough
      rw [Pmm.addFrames, or_iff_left (by omega)]
  | succ left ih =>
      intro g p enough
      rw [Pmm.addFrames, frameSize_div]
      have split : g ≤ f ↔ f = g ∨ g + 1 ≤ f := by omega
      split_ifs with below above
      · rw [or_iff_left (by omega)]
      · rw [← Nat.succ_mul, ih _ (by omega), Pmm.isUsed, Pmm.markFree, test_clear, Bool.and_eq_false_iff,
          decide_eq_false_iff_not, not_not, split, or_and_right, Pmm.isUsed, or_assoc, or_left_comm]
        exact or_congr_right (or_congr_left (iff_self_and.mpr fun same => same ▸ below))
      · have past : g ≤ f → top ≤ f * frameSize := fun le =>
          (Nat.not_lt.mp below).trans (Nat.mul_le_mul_right _ le)
        rw [or_iff_left (fun here => absurd here.2 (Nat.not_lt.mpr (past here.1)))]

/-- Both counters are the number of clear bits. -/
def Level (p : Pmm) : Prop :=
  p.frameTotal = (clears p.bitmap frameMax).card ∧ p.frameFree = (clears p.bitmap frameMax).card

theorem addFrames_level : ∀ {left g : Nat} {p : Pmm}, (∀ f, g ≤ f → p.isUsed f = true) → Level p →
    Level (Pmm.addFrames top left (g * frameSize) p) := by
  intro left
  induction left with
  | zero => exact fun _ level => level
  | succ left ih =>
      intro g p used level
      rw [Pmm.addFrames, frameSize_div]
      split_ifs with below above
      · exact level
      · rw [← Nat.succ_mul]
        have more := card_clears_clear (Nat.not_le.mp above) (used g (Nat.le_refl g))
        apply ih
        · intro f past
          rw [Pmm.isUsed, Pmm.markFree, test_clear, decide_eq_true (by omega), Bool.true_and]
          exact used f (by omega)
        · exact ⟨(congrArg (· + 1) level.1).trans more.symm, (congrArg (· + 1) level.2).trans more.symm⟩
      · exact level

end Loop

/-! What every careful run keeps -/

/-- The frame is one that pmm_init frees. -/
def Pooled (k : Kernel) (bi : Option BootInfo) (f : Nat) : Prop :=
  poolStart k ≤ f * frameSize ∧ f * frameSize < memTop bi

/-- The clear bits are the frames of the pool that are not held. -/
structure Kept (k : Kernel) (bi : Option BootInfo) (t : Track) : Prop where
  free : t.pmm.frameFree = (clears t.pmm.bitmap frameMax).card
  total : t.pmm.frameTotal = (clears (pmmInit k bi).bitmap frameMax).card
  bits : ∀ f < frameMax, t.pmm.isUsed f = false ↔ Pooled k bi f ∧ f ∉ t.held
  held : ∀ f ∈ t.held, Pooled k bi f

section Frames
variable {k : Kernel} {bi : Option BootInfo} {f : Nat} {t : Track}

theorem poolStart_above (k : Kernel) : k.kernelEnd ≤ poolStart k := by
  have high := k.high
  rw [poolStart, u32_of_lt high]
  simp only [frameSize]
  omega

theorem poolStart_least (aligned : k.kernelEnd ≤ f * frameSize) : poolStart k ≤ f * frameSize := by
  have high := k.high
  rw [poolStart, u32_of_lt high]
  simp only [frameSize] at aligned ⊢
  omega

theorem memTop_le_ramTop (bi : Option BootInfo) : memTop bi ≤ ramTop bi :=
  calc
    memTop bi ≤ u32 (0x00100000 + u32 (upperKib bi * 1024)) := Nat.min_le_left _ _
    _ ≤ 0x00100000 + u32 (upperKib bi * 1024) := u32_le _
    _ ≤ ramTop bi := Nat.add_le_add_left (u32_le _) _

theorem Pooled.inside (pooled : Pooled k bi f) : f < frameMax := by
  have below : f * frameSize < 0x01000000 := Nat.lt_of_lt_of_le pooled.2 (Nat.min_le_right _ _)
  simp only [frameSize] at below
  simp only [frameMax]
  omega

/-- A frame of the pool is RAM above the image, unless RAM ends in it. -/
theorem Pooled.in_ram (pooled : Pooled k bi f) : ¬ Partial bi f ↔
    k.kernelEnd ≤ f * frameSize ∧ f * frameSize + frameSize ≤ ramTop bi := by
  have above := (poolStart_above k).trans pooled.1
  have below := Nat.lt_of_lt_of_le pooled.2 (memTop_le_ramTop bi)
  rw [Partial, and_iff_right below, Nat.not_lt, and_iff_right above]

/-- After the boot the clear bits are the pool. -/
theorem boot_bits (inside : f < frameMax) : (pmmInit k bi).isUsed f = false ↔ Pooled k bi f := by
  have start : poolStart k = poolStart k / frameSize * frameSize := by
    rw [poolStart, frameSize_div]
  have fresh : (⟨fun _ => 0xFF, 0, 0⟩ : Pmm).isUsed f = true := by
    have all : ∀ j < 8, (0xFF : UInt8).toNat.testBit j = true := by decide
    exact all (f % 8) (Nat.mod_lt _ (by decide))
  rw [pmmInit, start, addFrames_used inside _ (Nat.le_add_left _ _), fresh, Pooled]
  have le : poolStart k / frameSize ≤ f ↔ poolStart k ≤ f * frameSize := by
    rw [Nat.div_le_iff_le_mul_add_pred (by decide)]
    simp only [frameSize] at start ⊢
    omega
  rw [le]
  exact or_iff_right Bool.noConfusion

theorem boot_level (k : Kernel) (bi : Option BootInfo) : Level (pmmInit k bi) := by
  have start : poolStart k = poolStart k / frameSize * frameSize := by
    rw [poolStart, frameSize_div]
  have all : ∀ j < 8, (0xFF : UInt8).toNat.testBit j = true := by decide
  have used : ∀ f, (⟨fun _ => 0xFF, 0, 0⟩ : Pmm).isUsed f = true := fun f => all (f % 8) (Nat.mod_lt _ (by decide))
  have none : (clears (fun _ => 0xFF) frameMax).card = 0 := by
    rw [Finset.card_eq_zero, Finset.eq_empty_iff_forall_notMem]
    intro f free
    exact Bool.false_ne_true ((mem_clears.mp free).2.symm.trans (used f))
  rw [pmmInit, start]
  exact addFrames_level (fun f _ => used f) ⟨none.symm, none.symm⟩

theorem boot_kept (k : Kernel) (bi : Option BootInfo) : Kept k bi (boot k bi) where
  free := (boot_level k bi).2
  total := (boot_level k bi).1
  bits f inside := by
    rw [boot, boot_bits inside]
    exact (and_iff_left (Finset.notMem_empty f)).symm
  held f member := absurd member (Finset.notMem_empty f)

/-- What is free was free at the boot. -/
theorem Kept.counted (kept : Kept k bi t) : Counted t.pmm := by
  have less : clears t.pmm.bitmap frameMax ⊆ clears (pmmInit k bi).bitmap frameMax := by
    intro f free
    obtain ⟨inside, clear⟩ := mem_clears.mp free
    exact mem_clears.mpr ⟨inside, (boot_bits inside).mpr ((kept.bits f inside).mp clear).1⟩
  refine ⟨kept.free, ?_⟩
  rw [kept.free, kept.total]
  exact Finset.card_le_card less

theorem firstFree_iff {p : Pmm} : p.firstFree = some f ↔
    f < frameMax ∧ p.isUsed f = false ∧ ∀ g < f, p.isUsed g = true := by
  rw [Pmm.firstFree, List.find?_range_eq_some, List.mem_range, Bool.not_eq_true', and_left_comm]
  simp only [Bool.not_not]

theorem alloc_some (found : t.pmm.firstFree = some f) : Call.alloc.step t =
    ⟨{ t.pmm.markUsed f with frameFree := t.pmm.frameFree - 1 }, insert f t.held⟩ := by
  rw [Call.step, Pmm.allocFrame, found]

theorem alloc_none (full : t.pmm.firstFree = none) : Call.alloc.step t = t := by
  rw [Call.step, Pmm.allocFrame, full]

/-- What is handed out is the first free frame. -/
theorem allocFrame_fst (p : Pmm) : p.allocFrame.1 = p.firstFree := by
  rw [Pmm.allocFrame]
  cases p.firstFree with
  | none => rfl
  | some f => rfl

theorem frameAt_some {ptr : UInt32} : frameAt ptr = some f ↔ ptr.toNat = f * frameSize := by
  rw [frameAt]
  split_ifs with aligned
  · rw [Option.some.injEq]
    simp only [frameSize] at aligned ⊢
    omega
  · refine iff_of_false nofun fun same => aligned ?_
    rw [same]
    exact Nat.mul_mod_left f frameSize

/-- What pmm_free_frame does: nothing, or one bit and the counter. -/
theorem freeFrame_eq (p : Pmm) (ptr : UInt32) : p.freeFrame ptr =
    if ptr.toNat / frameSize < frameMax ∧ p.isUsed (ptr.toNat / frameSize) = true then
      { p.markFree (ptr.toNat / frameSize) with frameFree := p.frameFree + 1 }
    else p := by
  rw [Pmm.freeFrame]
  dsimp only
  by_cases outside : frameMax ≤ ptr.toNat / frameSize
  · rw [if_pos outside, if_neg fun both => absurd both.1 (Nat.not_lt.mpr outside)]
  · rw [if_neg outside]
    cases p.isUsed (ptr.toNat / frameSize) with
    | false => rw [if_pos rfl, if_neg fun both => Bool.false_ne_true both.2]
    | true => rw [if_neg Bool.true_eq_false.mp, if_pos ⟨Nat.not_le.mp outside, rfl⟩]

/-- Only with a set bit below 16 MiB does it change anything. -/
theorem freeFrame_same (p : Pmm) (ptr : UInt32) : p.freeFrame ptr = p ↔
    ¬ (ptr.toNat / frameSize < frameMax ∧ p.isUsed (ptr.toNat / frameSize) = true) := by
  rw [freeFrame_eq]
  constructor
  · intro same both
    rw [if_pos both] at same
    exact absurd (congrArg Pmm.frameFree same) (Nat.succ_ne_self _)
  · exact fun neither => if_neg neither

/-- No call parts the counter from the clear bits. -/
theorem step_counts (a : Call) (counts : t.pmm.frameFree = (clears t.pmm.bitmap frameMax).card) :
    (a.step t).pmm.frameFree = (clears (a.step t).pmm.bitmap frameMax).card := by
  cases a with
  | alloc =>
      cases found : t.pmm.firstFree with
      | none => rwa [alloc_none found]
      | some f =>
          obtain ⟨inside, free, _⟩ := firstFree_iff.mp found
          rw [alloc_some found]
          exact (congrArg (· - 1) counts).trans (card_clears_set (mem_clears.mpr ⟨inside, free⟩)).symm
  | free ptr =>
      rw [Call.step, freeFrame_eq]
      split_ifs with both
      · exact (congrArg (· + 1) counts).trans (card_clears_clear both.1 both.2).symm
      · exact counts

theorem Kept.alloc (kept : Kept k bi t) : Kept k bi (Call.alloc.step t) := by
  cases found : t.pmm.firstFree with
  | none => exact (alloc_none found).symm ▸ kept
  | some f =>
      obtain ⟨inside, free, _⟩ := firstFree_iff.mp found
      have counts := step_counts .alloc kept.free
      rw [alloc_some found] at counts ⊢
      constructor
      · exact counts
      · exact kept.total
      · intro g below
        have before := kept.bits g below
        rw [Pmm.isUsed] at before
        rw [Pmm.isUsed, Pmm.markUsed, test_set, Bool.or_eq_false_iff, decide_eq_false_iff_not, before,
          Finset.mem_insert, not_or]
        exact and_left_comm
      · intro g member
        cases Finset.mem_insert.mp member with
        | inl here => exact here ▸ ((kept.bits f inside).mp free).1
        | inr before => exact kept.held g before

/-- With the careful call, what pmm_free_frame takes back was held. -/
theorem Kept.held_of_careful (kept : Kept k bi t) {ptr : UInt32}
    (aligned : ptr.toNat % frameSize = 0) (above : k.kernelEnd ≤ ptr.toNat) (below : ptr.toNat < memTop bi)
    (used : t.pmm.isUsed (ptr.toNat / frameSize) = true) : ptr.toNat / frameSize ∈ t.held := by
  have whole : ptr.toNat / frameSize * frameSize = ptr.toNat := Nat.div_mul_cancel (Nat.dvd_of_mod_eq_zero aligned)
  have pooled : Pooled k bi (ptr.toNat / frameSize) := by
    constructor
    · exact poolStart_least (whole.symm ▸ above)
    · exact whole.symm ▸ below
  by_contra absent
  have free := (kept.bits _ pooled.inside).mpr ⟨pooled, absent⟩
  exact Bool.false_ne_true (free.symm.trans used)

theorem Kept.free_held (kept : Kept k bi t) {ptr : UInt32} (held : f ∈ t.held) (here : frameAt ptr = some f) :
    Kept k bi ((Call.free ptr).step t) := by
  have place : ptr.toNat / frameSize = f := by
    rw [frameAt_some.mp here, frameSize_div]
  have inside := (kept.held f held).inside
  have used : t.pmm.isUsed f = true := by
    by_contra clear
    exact ((kept.bits f inside).mp (Bool.not_eq_true _ ▸ clear)).2 held
  have others : ∀ g, g ∈ t.held.filter (fun g => frameAt ptr ≠ some g) ↔ g ∈ t.held ∧ g ≠ f := by
    intro g
    rw [Finset.mem_filter, here, ne_eq, Option.some.injEq, ne_comm]
  have counts := step_counts (.free ptr) kept.free
  rw [Call.step, freeFrame_eq, place, if_pos ⟨inside, used⟩] at counts ⊢
  constructor
  · exact counts
  · exact kept.total
  · intro g below
    have before := kept.bits g below
    rw [Pmm.isUsed] at before
    rw [Pmm.isUsed, Pmm.markFree, test_clear, Bool.and_eq_false_iff, decide_eq_false_iff_not, not_not, before,
      others, not_and, not_not]
    constructor
    · intro now
      cases now with
      | inl same => exact ⟨same ▸ kept.held f held, fun _ => same⟩
      | inr free => exact ⟨free.1, fun member => absurd member free.2⟩
    · exact fun now => or_iff_not_imp_right.mpr fun held => now.2 (by_contra fun absent => held ⟨now.1, absent⟩)
  · exact fun g member => kept.held g ((others g).mp member).1

theorem free_same {ptr : UInt32} (absent : ¬ ∃ f ∈ t.held, frameAt ptr = some f)
    (same : t.pmm.freeFrame ptr = t.pmm) : (Call.free ptr).step t = t := by
  have all : t.held.filter (fun f => frameAt ptr ≠ some f) = t.held :=
    Finset.filter_true_of_mem fun f member here => absent ⟨f, member, here⟩
  rw [Call.step, same, all]

/-- Where a free is owed nothing more, it is a careful one. -/
theorem Kept.free_iff (kept : Kept k bi t) (ptr : UInt32) :
    (∃ f ∈ t.held, frameAt ptr = some f) ∨ t.pmm.freeFrame ptr = t.pmm ↔ (Call.free ptr).Careful k bi t := by
  rw [freeFrame_same, not_and_or, Nat.not_lt, Bool.not_eq_true, Call.Careful]
  constructor
  · intro owed
    rcases owed with held | outside | clear
    · obtain ⟨f, member, here⟩ := held
      have place := frameAt_some.mp here
      have pooled := kept.held f member
      refine Or.inr (Or.inr ⟨?_, ?_, ?_⟩)
      · rw [place]
        exact Nat.mul_mod_left f frameSize
      · exact place ▸ (poolStart_above k).trans pooled.1
      · exact place ▸ pooled.2
    · exact Or.inl outside
    · exact Or.inr (Or.inl clear)
  · intro careful
    rcases careful with outside | clear | ⟨aligned, above, below⟩
    · exact Or.inr (Or.inl outside)
    · exact Or.inr (Or.inr clear)
    · cases used : t.pmm.isUsed (ptr.toNat / frameSize) with
      | false => exact Or.inr (Or.inr rfl)
      | true =>
          have held := kept.held_of_careful aligned above below used
          refine Or.inl ⟨_, held, frameAt_some.mpr ?_⟩
          exact (Nat.div_mul_cancel (Nat.dvd_of_mod_eq_zero aligned)).symm

theorem Kept.freed (kept : Kept k bi t) {ptr : UInt32} (careful : (Call.free ptr).Careful k bi t) :
    Kept k bi ((Call.free ptr).step t) := by
  by_cases held : ∃ f ∈ t.held, frameAt ptr = some f
  · obtain ⟨f, member, here⟩ := held
    exact kept.free_held member here
  · have same := ((kept.free_iff ptr).mpr careful).resolve_left held
    rw [free_same held same]
    exact kept

/-- The frame handed out is as it is owed, unless RAM ends in it. -/
theorem Kept.alloc_iff (kept : Kept k bi t) :
    (∀ f, t.pmm.allocFrame.1 = some f →
      f ∉ t.held ∧ k.kernelEnd ≤ f * frameSize ∧ f * frameSize + frameSize ≤ ramTop bi) ↔
    Call.alloc.Careful k bi t := by
  rw [allocFrame_fst, Call.Careful]
  constructor
  · intro owed f inside part
    by_contra first
    rw [not_or, Bool.not_eq_true] at first
    have least : ∀ g < f, t.pmm.isUsed g = true := by
      intro g below
      by_contra clear
      exact first.2 ⟨g, below, Bool.not_eq_true _ ▸ clear⟩
    have room := (owed f (firstFree_iff.mpr ⟨inside, first.1, least⟩)).2.2
    exact absurd room (Nat.not_le.mpr part.2)
  · intro careful f found
    obtain ⟨inside, free, least⟩ := firstFree_iff.mp found
    have state := (kept.bits f inside).mp free
    refine ⟨state.2, state.1.in_ram.mp fun part => ?_⟩
    rcases careful f inside part with used | ⟨g, below, clear⟩
    · exact Bool.false_ne_true (free.symm.trans used)
    · exact Bool.false_ne_true (clear.symm.trans (least g below))

end Frames

/-- What the calls owe, they owe to careful callers only. -/
theorem frames_sound_iff (k : Kernel) (bi : Option BootInfo) (calls : List Call) :
    SoundRun k bi calls ↔ Runs.Each Call.step (Call.Careful k bi) calls (boot k bi) := by
  have start := boot_kept k bi
  have same : ∀ a t, Kept k bi t → True → (Call.Sound k bi a t ↔ Call.Careful k bi a t) := by
    intro a t kept _
    cases a with
    | alloc =>
        rw [Call.Sound, kept.alloc_iff]
        exact and_iff_left kept.alloc.counted
    | free ptr =>
        rw [Call.Sound, kept.free_iff]
        exact and_iff_left_of_imp fun careful => (kept.freed careful).counted
  have keeps : ∀ a t, Kept k bi t → True → Call.Careful k bi a t → Kept k bi (a.step t) := by
    intro a t kept _ careful
    cases a with
    | alloc => exact kept.alloc
    | free ptr => exact kept.freed careful
  rw [SoundRun, and_iff_right start.counted]
  exact Runs.Each.iff (Kept k bi) same keeps (Runs.Each.of_forall (fun _ _ _ => trivial) _) start

/-- The null pointer is in frame 0, which was never handed out; pmm_free_frame gives it
to the free frames. -/
theorem null_freed : ¬ SoundRun ⟨0x101000, by decide, by decide⟩ none [.free 0] := by
  intro sound
  have used : (pmmInit ⟨0x101000, by decide, by decide⟩ none).isUsed 0 = true := by
    by_contra clear
    have first : (0 : Nat) < frameMax := by
      simp only [frameMax]
      decide
    have pooled := (boot_bits first).mp (Bool.not_eq_true _ ▸ clear)
    exact absurd ((poolStart_above _).trans pooled.1) (by decide)
  cases sound.2.1.1 with
  | inl held =>
      obtain ⟨f, member, _⟩ := held
      exact Finset.notMem_empty f member
  | inr same =>
      have neither := (freeFrame_same _ _).mp same
      refine neither ⟨?_, used⟩
      simp only [frameMax]
      decide

/-- Whatever is passed, the counter is the number of clear bits. -/
theorem counter_exact (k : Kernel) (bi : Option BootInfo) (calls : List Call) :
    (Runs.run Call.step calls (boot k bi)).pmm.frameFree =
      (clears (Runs.run Call.step calls (boot k bi)).pmm.bitmap frameMax).card := by
  have keeps : ∀ a (t : Track), t.pmm.frameFree = (clears t.pmm.bitmap frameMax).card →
      (Call.step a t).pmm.frameFree = (clears (Call.step a t).pmm.bitmap frameMax).card :=
    fun a _ counts => step_counts a counts
  exact Runs.run_keeps keeps calls (boot_level k bi).2

end Zenbite.Mm
