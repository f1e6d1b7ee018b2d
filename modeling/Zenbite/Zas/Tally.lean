import Mathlib.Data.Finset.Dedup
import Mathlib.Data.Finset.Card
import Mathlib.Data.Finset.Lattice.Lemmas
import Zenbite.Zas.Trace

/-! What the operations of a pass add up to: bytes, fixups, labels and reserved bytes, and
how far the bounds of zas.c let them. -/

namespace Zenbite.Zas

open Memory

/-- The fixups that an operation adds. -/
def Op.patches : Op → Nat
  | patch _ _ _ _ => 1
  | _ => 0

/-- A property of each operation of a run, in the state that it is carried out in. -/
def Along (pass : Pass) (p : Asm → Op → Prop) : Asm → List Op → Prop
  | _, [] => True
  | st, op :: ops => p st op ∧ Along pass p (op.run pass st) ops

theorem along_append {pass : Pass} {p : Asm → Op → Prop} (front back : List Op) : ∀ st : Asm,
    Along pass p st (front ++ back) ↔ Along pass p st front ∧ Along pass p (runOps pass st front) back := by
  induction front with
  | nil => exact fun _ => ⟨fun all => ⟨trivial, all⟩, fun both => both.2⟩
  | cons op front ih =>
      intro st
      rw [List.cons_append, Along, ih, Along, runOps_cons, and_assoc]

def bytesOfOps (ops : List Op) : Nat := (ops.map Op.bytes).sum

def patchesOf (ops : List Op) : Nat := (ops.map Op.patches).sum

/-- The labels that are defined, each once. -/
def namesOf (ops : List Op) : Finset Text := (ops.filterMap Op.defines).toFinset

def refersOf (ops : List Op) : List Text := ops.filterMap Op.refers

theorem bytesOfOps_cons (op : Op) (ops : List Op) : bytesOfOps (op :: ops) = op.bytes + bytesOfOps ops := List.sum_cons

theorem bytesOfOps_append (front back : List Op) : bytesOfOps (front ++ back) = bytesOfOps front + bytesOfOps back := by
  rw [bytesOfOps, List.map_append, List.sum_append, bytesOfOps, bytesOfOps]

section Frames
variable {pass : Pass} {st : Asm}

theorem addFixup_frame (off : Nat) (name : Text) (base : U32) (isRel : Bool) :
    st.addFixup off name base isRel = { st with fixups := (st.addFixup off name base isRel).fixups } := by
  rw [Asm.addFixup]
  split <;> rfl

theorem enter_frame (target : Section) :
    st.enter pass target = { st with
      curSec := target, textSize := (st.enter pass target).textSize, dataSize := (st.enter pass target).dataSize } := by
  cases target with
  | text => rfl
  | data =>
      rw [Asm.enter]
      split <;> rfl
  | bss =>
      rw [Asm.enter]
      split
      · cases st.curSec <;> rfl
      · rfl

theorem labelDefine_frame (name : Text) (addr : U32) :
    st.labelDefine name addr = { st with labels := (st.labelDefine name addr).labels } := by
  rw [Asm.labelDefine]
  split
  · rfl
  · split <;> rfl

theorem labelLine_frame (name : Text) :
    st.labelLine pass name = { st with
      lexP := (st.labelLine pass name).lexP, labels := (st.labelLine pass name).labels,
      entry := (st.labelLine pass name).entry, entrySet := (st.labelLine pass name).entrySet } := by
  rw [Asm.labelLine]
  dsimp only
  split
  · rw [labelDefine_frame]
    split <;> split <;> rfl
  · rfl

theorem defineLine_frame :
    st.defineLine pass = { st with lexP := (st.defineLine pass).lexP, defs := (st.defineLine pass).defs } := by
  cases st
  rw [Asm.defineLine]
  split <;> rfl

theorem emit32_text (v : U32) :
    st.emit32 v = st.emitText [byteOf v.toNat 0, byteOf v.toNat 1, byteOf v.toNat 2, byteOf v.toNat 3] := rfl

theorem emitTimes_text (count : Nat) (b : UInt8) : st.emitTimes count b = st.emitText (List.replicate count b) := by
  rw [Asm.emitTimes, Asm.emitText]
  induction count with
  | zero => rfl
  | succ count ih => rw [Nat.repeat, ih, List.replicate_succ', List.foldl_append, List.foldl_cons, List.foldl_nil]

/-- A branch emits a word, whatever it is. -/
theorem run_branch (pass : Pass) (st : Asm) (name : Text) : ∃ v, (Op.branch name).run pass st = st.emit32 v := by
  cases pass with
  | one => exact ⟨0, rfl⟩
  | two =>
      cases found : st.labelFind name with
      | none => exact ⟨0, by simp only [Op.run, found]⟩
      | some addr => exact ⟨addr - (st.curVma + 4), by simp only [Op.run, found]⟩

theorem emit32_frame (v : U32) : st.emit32 v = { st with out := (st.emit32 v).out, outPos := (st.emit32 v).outPos } := by
  rw [emit32_text]
  exact emitText_frame _ st

theorem patch_frame (code : List UInt8) (name : Text) (isRel : Bool) (v : U32) :
    (Op.patch code name isRel v).run pass st = { st with
      out := ((Op.patch code name isRel v).run pass st).out
      outPos := ((Op.patch code name isRel v).run pass st).outPos
      fixups := ((Op.patch code name isRel v).run pass st).fixups } := by
  rw [Op.run, emit32_frame, emitText_frame, addFixup_frame]

theorem close_frame (st : Asm) : st.close = { st with textSize := st.close.textSize, dataSize := st.close.dataSize } := by
  rw [Asm.close]
  split <;> rfl

end Frames

/-! The output. -/

section Output
variable {pass : Pass} {st : Asm}

theorem emitText_outPos (text : Text) : ∀ {st : Asm}, st.outPos ≤ outMax →
    (st.emitText text).outPos = min outMax (st.outPos + text.length) := by
  induction text with
  | nil => exact fun inside => (Nat.min_eq_right inside).symm
  | cons b text ih =>
      intro st inside
      have here := st.emit8_outPos b
      rw [Asm.emitText_cons, ih (by split at here <;> omega), here, List.length_cons]
      split <;> omega

theorem emit32_outPos (v : U32) (inside : st.outPos ≤ outMax) : (st.emit32 v).outPos = min outMax (st.outPos + 4) := by
  rw [emit32_text]
  exact emitText_outPos _ inside

theorem code_outPos (code : Text) (v : U32) (inside : st.outPos ≤ outMax) :
    ((st.emitText code).emit32 v).outPos = min outMax (st.outPos + (code.length + 4)) := by
  have first := emitText_outPos code inside
  rw [emit32_outPos v (by omega), first]
  omega

/-- The output goes on by the bytes of an operation, up to its end. -/
theorem run_outPos (op : Op) (inside : st.outPos ≤ outMax) :
    (op.run pass st).outPos = min outMax (st.outPos + op.bytes) := by
  have still : st.outPos = min outMax (st.outPos + 0) := (Nat.min_eq_right inside).symm
  cases op with
  | emit bytes => exact emitText_outPos bytes inside
  | word code v => exact code_outPos code v inside
  | patch code name isRel v =>
      have same (off : Nat) (base : U32) : (st.addFixup off name base isRel).outPos = st.outPos := by
        rw [addFixup_frame]
      rw [Op.run, code_outPos code v (by rw [same]; exact inside), same, Op.bytes]
  | rel addr => exact emit32_outPos _ inside
  | branch name =>
      obtain ⟨v, run⟩ := run_branch pass st name
      rw [run]
      exact emit32_outPos v inside
  | times count b =>
      rw [Op.run, emitTimes_text, emitText_outPos _ inside, List.length_replicate, Op.bytes]
  | enter target => exact (congrArg Asm.outPos (enter_frame target)).trans still
  | label name => exact (congrArg Asm.outPos (labelLine_frame name)).trans still
  | define => exact (congrArg Asm.outPos defineLine_frame).trans still
  | _ => exact still

theorem run_inside (op : Op) (inside : st.outPos ≤ outMax) : (op.run pass st).outPos ≤ outMax := by
  rw [run_outPos op inside]
  exact Nat.min_le_left _ _

theorem runOps_outPos (ops : List Op) : ∀ {st : Asm}, st.outPos ≤ outMax →
    (runOps pass st ops).outPos = min outMax (st.outPos + bytesOfOps ops) := by
  induction ops with
  | nil => exact fun inside => (Nat.min_eq_right inside).symm
  | cons op ops ih =>
      intro st inside
      rw [runOps_cons, ih (run_inside op inside), run_outPos op inside, bytesOfOps_cons]
      omega

/-- Every byte is stored when there is room for all of them. -/
theorem along_stored (ops : List Op) : ∀ {st : Asm}, st.outPos ≤ outMax →
    (Along pass (fun st op => (op.run pass st).outPos = st.outPos + op.bytes) st ops ↔
      st.outPos + bytesOfOps ops ≤ outMax) := by
  induction ops with
  | nil => exact fun inside => ⟨fun _ => inside, fun _ => trivial⟩
  | cons op ops ih =>
      intro st inside
      have here : (op.run pass st).outPos = min outMax (st.outPos + op.bytes) := run_outPos op inside
      rw [Along, ih (run_inside op inside), bytesOfOps_cons]
      omega

end Output

end Zenbite.Zas
