import Zenbite.Zas.Cursor
import Zenbite.Zas.Run

/-! What the lines of a pass leave alone. -/

namespace Zenbite.Zas

open Memory

namespace Asm

/-! How far the output gets. -/

section Output
variable (st : Asm)

@[simp] theorem lex_lexP : st.lex.lexP = next st.lexP := rfl
@[simp] theorem lex_outPos : st.lex.outPos = st.outPos := rfl
@[simp] theorem lex_curSec : st.lex.curSec = st.curSec := rfl
@[simp] theorem lex_labels : st.lex.labels = st.labels := rfl
@[simp] theorem lex_out : st.lex.out = st.out := rfl

theorem emit8_outPos (b : UInt8) : (st.emit8 b).outPos = if st.outPos < outMax then st.outPos + 1 else st.outPos := by
  rw [emit8]
  split <;> rfl

theorem emit8_room {b : UInt8} (room : st.outPos < outMax) : (st.emit8 b).outPos = st.outPos + 1 := by
  rw [emit8_outPos, if_pos room]

theorem emit32_room {v : U32} (room : st.outPos + 4 ≤ outMax) : (st.emit32 v).outPos = st.outPos + 4 := by
  have one := emit8_room st (b := byteOf v.toNat 0) (by omega)
  have two := emit8_room (st.emit8 (byteOf v.toNat 0)) (b := byteOf v.toNat 1) (by omega)
  have three := emit8_room ((st.emit8 (byteOf v.toNat 0)).emit8 (byteOf v.toNat 1)) (b := byteOf v.toNat 2) (by omega)
  rw [emit32, emit8_room _ (by omega), three, two, one]

theorem emit8_addFixup (b : UInt8) (off : Nat) (name : Text) (base : U32) (isRel : Bool) :
    (st.addFixup off name base isRel).emit8 b = (st.emit8 b).addFixup off name base isRel := by
  by_cases room : st.outPos < outMax <;> by_cases full : fixupMax ≤ st.fixups.length <;>
    simp only [emit8, addFixup, room, full, if_true, if_false]

theorem emit32_addFixup (v : U32) (off : Nat) (name : Text) (base : U32) (isRel : Bool) :
    (st.addFixup off name base isRel).emit32 v = (st.emit32 v).addFixup off name base isRel := by
  simp only [emit32, emit8_addFixup]

theorem movImm_addFixup (r : Reg) (v : U32) (off : Nat) (name : Text) (base : U32) (isRel : Bool) :
    (st.addFixup off name base isRel).movImm r v = (st.movImm r v).addFixup off name base isRel := by
  simp only [movImm, emit8_addFixup, emit32_addFixup]

end Output

end Asm

/-- The patch of a fixup, where it is made, lies in the output from `a` to `b`. -/
def Fixup.Within (fx : Fixup) (a b : Nat) : Prop :=
  a ≤ fx.outOffset ∧ (fx.outOffset + 4 ≤ outMax → fx.outOffset + 4 ≤ b)

theorem Fixup.Within.wider {fx : Fixup} {a b a' b' : Nat} (within : fx.Within a b) (low : a' ≤ a) (high : b ≤ b') :
    fx.Within a' b' :=
  ⟨low.trans within.1, fun room => (within.2 room).trans high⟩

/-- The cursor goes on from token to token; output and fixups are added; the labels and
the sizes of the sections stay. -/
structure Emits (st st' : Asm) : Prop where
  moves : Reaches st.lexP st'.lexP
  pos : st.outPos ≤ st'.outPos
  inside : st.outPos ≤ outMax → st'.outPos ≤ outMax
  kept : ∀ i < st.outPos, st'.out i = st.out i
  fixups : ∃ more, st'.fixups = st.fixups ++ more ∧ ∀ fx ∈ more, fx.Within st.outPos st'.outPos
  labels : st'.labels = st.labels
  sizes : st'.textSize = st.textSize ∧ st'.dataSize = st.dataSize ∧ st'.dataOutStart = st.dataOutStart

namespace Emits

open Asm

variable {st st₁ st' : Asm}

theorem refl (st : Asm) : Emits st st where
  moves := .refl
  pos := le_refl _
  inside := id
  kept := fun _ _ => rfl
  fixups := ⟨[], (List.append_nil _).symm, fun _ member => absurd member List.not_mem_nil⟩
  labels := rfl
  sizes := ⟨rfl, rfl, rfl⟩

theorem trans (first : Emits st st₁) (second : Emits st₁ st') : Emits st st' where
  moves := first.moves.trans second.moves
  pos := first.pos.trans second.pos
  inside := fun bound => second.inside (first.inside bound)
  kept := fun i low => (second.kept i (Nat.lt_of_lt_of_le low first.pos)).trans (first.kept i low)
  fixups := by
    obtain ⟨more, added, within⟩ := first.fixups
    obtain ⟨more', added', within'⟩ := second.fixups
    refine ⟨more ++ more', by rw [added', added, List.append_assoc], fun fx member => ?_⟩
    rcases List.mem_append.mp member with member | member
    · exact (within fx member).wider (le_refl _) second.pos
    · exact (within' fx member).wider first.pos (le_refl _)
  labels := second.labels.trans first.labels
  sizes := ⟨second.sizes.1.trans first.sizes.1, second.sizes.2.1.trans first.sizes.2.1,
    second.sizes.2.2.trans first.sizes.2.2⟩

/-- A change of the other variables. -/
theorem other (emits : Emits st st₁) (lexP : st'.lexP = st₁.lexP) (out : st'.out = st₁.out)
    (outPos : st'.outPos = st₁.outPos) (fixups : st'.fixups = st₁.fixups) (labels : st'.labels = st₁.labels)
    (sizes : st'.textSize = st₁.textSize ∧ st'.dataSize = st₁.dataSize ∧ st'.dataOutStart = st₁.dataOutStart) :
    Emits st st' where
  moves := lexP ▸ emits.moves
  pos := outPos ▸ emits.pos
  inside := outPos ▸ emits.inside
  kept := out ▸ emits.kept
  fixups := by
    rw [fixups, outPos]
    exact emits.fixups
  labels := labels.trans emits.labels
  sizes := by
    rw [sizes.1, sizes.2.1, sizes.2.2]
    exact emits.sizes

theorem lex (emits : Emits st st₁) : Emits st st₁.lex where
  moves := emits.moves.next
  pos := emits.pos
  inside := emits.inside
  kept := emits.kept
  fixups := emits.fixups
  labels := emits.labels
  sizes := emits.sizes

theorem emit8 (emits : Emits st st₁) (b : UInt8) : Emits st (st₁.emit8 b) := by
  refine emits.trans ?_
  rw [Asm.emit8]
  split
  next room =>
    exact {
      moves := .refl
      pos := Nat.le_succ _
      inside := fun _ => room
      kept := fun i low => Function.update_of_ne (Nat.ne_of_lt low) _ _
      fixups := ⟨[], (List.append_nil _).symm, fun _ member => absurd member List.not_mem_nil⟩
      labels := rfl
      sizes := ⟨rfl, rfl, rfl⟩ }
  next _ => exact refl st₁

theorem emit32 (emits : Emits st st₁) (v : U32) : Emits st (st₁.emit32 v) :=
  (((emits.emit8 _).emit8 _).emit8 _).emit8 _

theorem emitText (emits : Emits st st₁) (text : Text) : Emits st (st₁.emitText text) := by
  rw [Asm.emitText]
  induction text generalizing st₁ with
  | nil => exact emits
  | cons b text ih => exact ih (emits.emit8 b)

theorem emitTimes (emits : Emits st st₁) (count : Nat) (b : UInt8) : Emits st (st₁.emitTimes count b) := by
  rw [Asm.emitTimes]
  induction count with
  | zero => exact emits
  | succ count ih => exact ih.emit8 b

theorem emitModrmRr (emits : Emits st st₁) (opcode : UInt8) (reg rm : Reg) : Emits st (st₁.emitModrmRr opcode reg rm) :=
  (emits.emit8 _).emit8 _

theorem emitModrmMem (emits : Emits st st₁) (opcode : UInt8) (reg : Reg) (op : MemOp) :
    Emits st (st₁.emitModrmMem opcode reg op) := by
  have first := emits.emit8 opcode
  rw [Asm.emitModrmMem]
  cases op.disp with
  | none =>
      dsimp only
      split
      · exact (first.emit8 _).emit8 _
      · exact first.emit8 _
  | some disp =>
      dsimp only
      split
      · exact (first.emit8 _).emit8 _
      · exact (first.emit8 _).emit32 _

theorem movImm (emits : Emits st st₁) (r : Reg) (v : U32) : Emits st (st₁.movImm r v) := (emits.emit8 _).emit32 _

theorem arithImm8 (emits : Emits st st₁) (digit r : Reg) (v : U32) : Emits st (st₁.arithImm8 digit r v) :=
  ((emits.emit8 _).emit8 _).emit8 _

theorem arithImm32 (emits : Emits st st₁) (digit r : Reg) (v : U32) : Emits st (st₁.arithImm32 digit r v) :=
  ((emits.emit8 _).emit8 _).emit32 _

/-- A fixup for what has been emitted. -/
theorem addFixup (emits : Emits st st₁) {off : Nat} {name : Text} {base : U32} {isRel : Bool} (low : st.outPos ≤ off)
    (high : off + 4 ≤ outMax → off + 4 ≤ st₁.outPos) : Emits st (st₁.addFixup off name base isRel) := by
  rw [Asm.addFixup]
  split
  · exact emits
  · obtain ⟨more, added, within⟩ := emits.fixups
    refine { emits with fixups := ⟨more ++ [⟨off, name, base, isRel⟩], ?_, fun fx member => ?_⟩ }
    · dsimp only
      rw [added, List.append_assoc]
    · rcases List.mem_append.mp member with member | member
      · exact within fx member
      · rw [List.mem_singleton.mp member]
        exact ⟨low, high⟩

end Emits

namespace Asm

variable {st st' : Asm} {pass : Pass}

theorem parseExpr_emits (st : Asm) : Emits st st.parseExpr.2 := by
  have one := (Emits.refl st).lex
  rw [parseExpr]
  dsimp only
  split
  · exact one
  · split <;> exact one.lex
  · split
    · exact one
    · split <;> exact one
  · exact Emits.refl st

theorem parseDisp_emits (st : Asm) : Emits st st.parseDisp.2 := by
  have two := (Emits.refl st).lex.lex
  rw [parseDisp]
  split
  · exact two
  · split
    · exact two
    · exact Emits.refl st

theorem parseMemOp_emits (st : Asm) : Emits st st.parseMemOp.2 := by
  have disp := (Emits.refl st).lex.trans (parseDisp_emits st.lex)
  rw [parseMemOp]
  dsimp only
  split
  · exact disp.lex
  · exact disp

theorem defineLine_emits : Emits st (st.defineLine pass) := by
  apply (Emits.refl st).lex.lex.other
  all_goals
    rw [defineLine]
    split <;> first | rfl | exact ⟨rfl, rfl, rfl⟩

theorem timesLine_emits : Emits st st.timesLine := by
  have count := (parseExpr_emits st).lex
  rw [timesLine]
  dsimp only
  split
  · exact (count.trans (parseExpr_emits _)).emitTimes _ _
  · exact count

theorem dbItem_emits : Emits st st.dbItem := by
  rw [dbItem]
  split
  · exact (Emits.refl st).lex.emitText _
  · exact (parseExpr_emits st).emit8 _

theorem dwLine_emits : Emits st st.dwLine := ((parseExpr_emits st).emit8 _).emit8 _

theorem ddLine_emits : Emits st (st.ddLine pass) := by
  have emitted (v : U32) := (parseExpr_emits st).emit32 v
  rw [ddLine]
  dsimp only
  split
  · rw [emit32_addFixup]
    apply (emitted _).addFixup (parseExpr_emits st).pos
    exact fun room => (emit32_room _ room).ge
  · exact emitted _

theorem resbLine_emits : Emits st st.resbLine := by
  rw [resbLine]
  dsimp only
  split
  · exact (parseExpr_emits st).other rfl rfl rfl rfl rfl ⟨rfl, rfl, rfl⟩
  · exact (parseExpr_emits st).emitTimes _ _

theorem intLine_emits : Emits st st.intLine := ((Emits.refl st).lex.emit8 _).emit8 _

theorem pushLine_emits : Emits st st.pushLine := by
  have one := (Emits.refl st).lex
  rw [pushLine]
  dsimp only
  split
  · split
    · exact one.emit8 _
    · exact (one.emit8 _).emit32 _
  · split
    · exact (one.emit8 _).emit8 _
    · exact (one.emit8 _).emit32 _
  · exact (one.lex.emit8 _).emit32 _
  · exact Emits.refl st

theorem regLine_emits {opcode : UInt8} : Emits st (st.regLine opcode) := by
  rw [regLine]
  split
  · exact (Emits.refl st).lex.emit8 _
  · exact (Emits.refl st).lex

theorem unaryLine_emits {digit : Reg} : Emits st (st.unaryLine digit) := by
  rw [unaryLine]
  split
  · exact (Emits.refl st).lex.emitModrmRr _ _ _
  · exact (Emits.refl st).lex

theorem xchgLine_emits : Emits st st.xchgLine := by
  have three := (Emits.refl st).lex.lex.lex
  rw [xchgLine]
  split
  · exact three.emitModrmRr _ _ _
  · exact three

theorem movLine_emits : Emits st (st.movLine pass) := by
  have two := (Emits.refl st).lex.lex
  rw [movLine]
  dsimp only
  split
  · have source := (two.trans (parseMemOp_emits _)).lex
    split
    · exact source.emitModrmMem _ _ _
    · exact source
  split
  · exact two
  split
  · exact (two.lex.trans (parseMemOp_emits _)).emitModrmMem _ _ _
  · split
    · exact two.lex.emitModrmRr _ _ _
    split
    · exact two.lex.movImm _ _
    split
    · exact two.lex.movImm _ _
    split
    · rw [movImm_addFixup]
      have low : st.outPos ≤ st.lex.lex.lex.outPos + 1 := by
        rw [lex_outPos, lex_outPos, lex_outPos]
        exact Nat.le_succ _
      apply (two.lex.movImm _ _).addFixup low
      intro room
      rw [Asm.movImm, emit32_room _ (by rw [emit8_room _ (by omega)]; exact room), emit8_room _ (by omega)]
    · exact two.lex.movImm _ _
  · exact two.lex.movImm _ _
  · exact two.lex.lex.movImm _ _
  · exact two

theorem leaLine_emits : Emits st st.leaLine := by
  have three := (Emits.refl st).lex.lex.lex
  rw [leaLine]
  dsimp only
  split
  · have loaded := three.trans (parseMemOp_emits _)
    split
    · exact loaded.emitModrmMem _ _ _
    · exact loaded
  · exact three

theorem arithLine_emits {opRm : UInt8} {digit : Reg} : Emits st (st.arithLine opRm digit) := by
  have two := (Emits.refl st).lex.lex
  rw [arithLine]
  dsimp only
  split
  · exact two
  split
  · split
    · exact two.lex.emitModrmRr _ _ _
    · exact two.lex
  · split
    · exact two.lex.arithImm8 _ _ _
    · exact two.lex.arithImm32 _ _ _
  · split
    · exact two.lex.lex.arithImm8 _ _ _
    · exact two.lex.lex.arithImm32 _ _ _
  · exact two

theorem branchTo_emits {opcode : List UInt8} {name : Text} (first : Emits st st') :
    Emits st (st'.branchTo pass opcode name) := by
  have code := first.emitText opcode
  rw [branchTo.eq_def]
  dsimp only
  split
  · exact code.emit32 _
  · rw [emit32_addFixup]
    exact (code.emit32 _).addFixup code.pos fun room => (emit32_room _ room).ge
  · exact code.emit32 _

theorem jmpLine_emits : Emits st (st.jmpLine pass) := by
  have one := (Emits.refl st).lex
  rw [jmpLine]
  dsimp only
  split
  · exact branchTo_emits one
  · exact (one.emit8 _).emit32 _
  · exact one

theorem callLine_emits : Emits st (st.callLine pass) := by
  rw [callLine]
  split
  · exact branchTo_emits (Emits.refl st).lex
  · exact (Emits.refl st).lex

theorem jccLine_emits {cc : UInt8} : Emits st (st.jccLine pass cc) := by
  rw [jccLine]
  split
  · exact branchTo_emits (Emits.refl st).lex
  · exact (Emits.refl st).lex

theorem instrLine_emits {mne : Text} : Emits st (st.instrLine pass mne) := by
  rw [instrLine]
  split
  · exact (Emits.refl st).emit8 _
  split
  · exact intLine_emits
  split
  · exact pushLine_emits
  split
  · exact regLine_emits
  split
  · exact unaryLine_emits
  split
  · exact xchgLine_emits
  split
  · exact movLine_emits
  split
  · exact leaLine_emits
  split
  · exact arithLine_emits
  split
  · exact jmpLine_emits
  split
  · exact callLine_emits
  split
  · exact jccLine_emits
  · exact Emits.refl st

/-! The loops. -/

theorem skipLine_emits (n : Nat) : ∀ {st st' : Asm}, skipLine n st = some st' → Emits st st' := by
  induction n with
  | zero =>
      intro st st' ran
      cases ran
  | succ n ih =>
      intro st st' ran
      rw [skipLine] at ran
      split at ran
      · obtain rfl := Option.some.inj ran
        exact Emits.refl st
      · exact (Emits.refl st).lex.trans (ih ran)

theorem skipNewlines_emits (n : Nat) : ∀ {st st' : Asm}, skipNewlines n st = some st' → Emits st st' := by
  induction n with
  | zero =>
      intro st st' ran
      cases ran
  | succ n ih =>
      intro st st' ran
      rw [skipNewlines] at ran
      split at ran
      · exact (Emits.refl st).lex.trans (ih ran)
      · obtain rfl := Option.some.inj ran
        exact Emits.refl st

theorem dbLoop_emits (n : Nat) : ∀ {st st' : Asm}, dbLoop n st = some st' → Emits st st' := by
  induction n with
  | zero =>
      intro st st' ran
      cases ran
  | succ n ih =>
      intro st st' ran
      rw [dbLoop] at ran
      dsimp only at ran
      split at ran
      · obtain rfl := Option.some.inj ran
        exact Emits.refl st
      split at ran
      · exact dbItem_emits.lex.trans (ih ran)
      · obtain rfl := Option.some.inj ran
        exact dbItem_emits

/-- A line emits something, or it switches the section. -/
theorem bodyLine_emits {n : Nat} {t : Token} (ran : st.bodyLine pass n t = some st') :
    Emits st st' ∨ st' = st.sectionLine pass := by
  rw [bodyLine] at ran
  split at ran
  · exact .inl (Option.some.inj ran ▸ defineLine_emits)
  split at ran
  · exact .inr (Option.some.inj ran).symm
  left
  split at ran
  · exact Option.some.inj ran ▸ Emits.refl st
  split at ran
  · exact Option.some.inj ran ▸ timesLine_emits
  split at ran
  · exact dbLoop_emits n ran
  split at ran
  · exact Option.some.inj ran ▸ dwLine_emits
  split at ran
  · exact Option.some.inj ran ▸ ddLine_emits
  split at ran
  · exact Option.some.inj ran ▸ resbLine_emits
  · exact Option.some.inj ran ▸ instrLine_emits

end Asm

end Zenbite.Zas
