import Zenbite.Zas.Tally

/-! The two passes go through the source alike (zas.c): what a line emits in a pass has the
same length in the other, where the counts of times and resb are literals. -/

namespace Zenbite.Zas

/-- The states agree in the variables that decide how a line goes on. -/
structure Alike (st st' : Asm) : Prop where
  lexP : st'.lexP = st.lexP
  curSec : st'.curSec = st.curSec
  outPos : st'.outPos = st.outPos

namespace Alike

open Asm

variable {st st' : Asm}

theorem refl (st : Asm) : Alike st st := ⟨rfl, rfl, rfl⟩

theorem symm (alike : Alike st st') : Alike st' st := ⟨alike.lexP.symm, alike.curSec.symm, alike.outPos.symm⟩

theorem trans {st₁ : Asm} (first : Alike st st₁) (second : Alike st₁ st') : Alike st st' :=
  ⟨second.lexP.trans first.lexP, second.curSec.trans first.curSec, second.outPos.trans first.outPos⟩

theorem peek (alike : Alike st st') : st'.peek = st.peek := by rw [Asm.peek, alike.lexP, Asm.peek]

theorem lex (alike : Alike st st') : Alike st.lex st'.lex where
  lexP := congrArg next alike.lexP
  curSec := alike.curSec
  outPos := alike.outPos

theorem emit8 (alike : Alike st st') (b b' : UInt8) : Alike (st.emit8 b) (st'.emit8 b') where
  lexP := by
    rw [emit8_frame st b, emit8_frame st' b']
    exact alike.lexP
  curSec := by
    rw [emit8_frame st b, emit8_frame st' b']
    exact alike.curSec
  outPos := by rw [emit8_outPos, emit8_outPos, alike.outPos]

theorem emit32 (alike : Alike st st') (v v' : U32) : Alike (st.emit32 v) (st'.emit32 v') :=
  (((alike.emit8 _ _).emit8 _ _).emit8 _ _).emit8 _ _

theorem emitText (alike : Alike st st') (text : Text) : Alike (st.emitText text) (st'.emitText text) := by
  induction text generalizing st st' with
  | nil => exact alike
  | cons b text ih => exact ih (alike.emit8 b b)

theorem emitTimes (alike : Alike st st') (count : Nat) (b b' : UInt8) :
    Alike (st.emitTimes count b) (st'.emitTimes count b') := by
  rw [Asm.emitTimes, Asm.emitTimes]
  induction count with
  | zero => exact alike
  | succ count ih => exact ih.emit8 b b'

theorem addFixup (alike : Alike st st') (off : Nat) (name : Text) (base : U32) (isRel : Bool) :
    Alike st (st'.addFixup off name base isRel) := by
  rw [Asm.addFixup]
  split
  · exact alike
  · exact ⟨alike.lexP, alike.curSec, alike.outPos⟩

theorem emitModrmRr (alike : Alike st st') (opcode : UInt8) (reg rm : Reg) :
    Alike (st.emitModrmRr opcode reg rm) (st'.emitModrmRr opcode reg rm) :=
  (alike.emit8 _ _).emit8 _ _

theorem emitModrmMem (alike : Alike st st') (opcode : UInt8) (reg : Reg) (op : MemOp) :
    Alike (st.emitModrmMem opcode reg op) (st'.emitModrmMem opcode reg op) := by
  have first := alike.emit8 opcode opcode
  rw [Asm.emitModrmMem, Asm.emitModrmMem]
  cases op.disp with
  | none =>
      dsimp only
      split
      · exact (first.emit8 _ _).emit8 _ _
      · exact first.emit8 _ _
  | some disp =>
      dsimp only
      split
      · exact (first.emit8 _ _).emit8 _ _
      · exact (first.emit8 _ _).emit32 _ _

theorem movImm (alike : Alike st st') (r : Reg) (v v' : U32) : Alike (st.movImm r v) (st'.movImm r v') :=
  (alike.emit8 _ _).emit32 _ _

theorem arithImm8 (alike : Alike st st') (digit r : Reg) (v : U32) : Alike (st.arithImm8 digit r v) (st'.arithImm8 digit r v) :=
  ((alike.emit8 _ _).emit8 _ _).emit8 _ _

theorem arithImm32 (alike : Alike st st') (digit r : Reg) (v : U32) :
    Alike (st.arithImm32 digit r v) (st'.arithImm32 digit r v) :=
  ((alike.emit8 _ _).emit8 _ _).emit32 _ _

end Alike

namespace Asm

/-- A numeric literal is next. -/
def Literal (st : Asm) : Prop := st.peek.type = .number ∨ st.peek.type = .minus ∧ st.lex.peek.type = .number

instance (st : Asm) : Decidable st.Literal := inferInstanceAs (Decidable (_ ∨ _))

variable {st st' : Asm}

/-- A value takes the same tokens, whatever is known of it. -/
theorem parseExpr_alike (alike : Alike st st') : Alike st.parseExpr.2 st'.parseExpr.2 := by
  have cursor (st : Asm) : st.parseExpr.2 = runOps .one st st.parseOps := parseExpr_ops
  rw [cursor st, cursor st', parseOps, parseOps, alike.peek]
  cases st.peek.type with
  | number | ident => exact alike.lex
  | minus => exact alike.lex.lex
  | _ => exact alike

/-- A literal has the same value. -/
theorem parseExpr_literal (alike : Alike st st') (literal : st.Literal) : st'.parseExpr.1 = st.parseExpr.1 := by
  rw [parseExpr, parseExpr, alike.peek]
  rcases literal with number | ⟨minus, number⟩
  · rw [number]
  · rw [minus]
    dsimp only
    rw [alike.lex.peek, if_pos number, if_pos number]

theorem parseDisp_alike (alike : Alike st st') : st'.parseDisp.1 = st.parseDisp.1 ∧ Alike st.parseDisp.2 st'.parseDisp.2 := by
  rw [parseDisp, parseDisp, alike.peek, alike.lex.peek]
  by_cases plus : st.peek.type = .plus
  · rw [if_pos plus, if_pos plus]
    exact ⟨rfl, alike.lex.lex⟩
  rw [if_neg plus, if_neg plus]
  by_cases minus : st.peek.type = .minus
  · rw [if_pos minus, if_pos minus]
    exact ⟨rfl, alike.lex.lex⟩
  · rw [if_neg minus, if_neg minus]
    exact ⟨rfl, alike⟩

theorem parseMemOp_alike (alike : Alike st st') :
    st'.parseMemOp.1 = st.parseMemOp.1 ∧ Alike st.parseMemOp.2 st'.parseMemOp.2 := by
  obtain ⟨disp, behind⟩ := parseDisp_alike alike.lex
  rw [parseMemOp, parseMemOp, alike.peek]
  dsimp only
  rw [disp, behind.peek]
  refine ⟨rfl, ?_⟩
  by_cases bracket : st.lex.parseDisp.2.peek.type = .rbracket
  · rw [if_pos bracket, if_pos bracket]
    exact behind.lex
  · rw [if_neg bracket, if_neg bracket]
    exact behind

/-! The lines. -/

theorem defineLine_alike (alike : Alike st st') : Alike (st.defineLine .one) (st'.defineLine .two) := by
  have two := alike.lex.lex
  rw [defineLine, defineLine, if_neg fun both : Pass.two = .one ∧ _ => Pass.noConfusion both.1]
  generalize st.lex.lex = s at two ⊢
  generalize st'.lex.lex = s' at two ⊢
  split
  · exact ⟨two.lexP, two.curSec, two.outPos⟩
  · exact two

theorem enter_alike (alike : Alike st st') (target : Section) : Alike (st.enter .one target) (st'.enter .two target) := by
  cases target with
  | text => exact ⟨alike.lexP, rfl, alike.outPos⟩
  | data =>
      rw [enter, enter, if_neg fun both : Pass.two = .one ∧ _ => Pass.noConfusion both.1]
      split <;> exact ⟨alike.lexP, rfl, alike.outPos⟩
  | bss =>
      rw [enter, enter, if_neg fun one : Pass.two = .one => Pass.noConfusion one]
      cases st.curSec <;> exact ⟨alike.lexP, rfl, alike.outPos⟩

theorem sectionLine_alike (alike : Alike st st') : Alike (st.sectionLine .one) (st'.sectionLine .two) := by
  have one := alike.lex
  rw [sectionLine_ops, sectionLine_ops, sectionOps, sectionOps, runOps_cons, runOps_cons, Op.run, Op.run, alike.peek]
  cases sectionOf st.peek.text with
  | none => exact one
  | some target => exact enter_alike one target

theorem timesLine_alike (alike : Alike st st') (literal : st.Literal) : Alike st.timesLine st'.timesLine := by
  have count := parseExpr_alike alike
  have value := parseExpr_alike count.lex
  rw [timesLine, timesLine]
  dsimp only
  rw [parseExpr_literal alike literal, count.peek]
  split
  · exact value.emitTimes _ _ _
  · exact count.lex

theorem dbItem_alike (alike : Alike st st') : Alike st.dbItem st'.dbItem := by
  rw [dbItem, dbItem, alike.peek]
  dsimp only
  split
  · exact alike.lex.emitText _
  · exact (parseExpr_alike alike).emit8 _ _

theorem dwLine_alike (alike : Alike st st') : Alike st.dwLine st'.dwLine :=
  ((parseExpr_alike alike).emit8 _ _).emit8 _ _

theorem ddLine_alike (alike : Alike st st') : Alike (st.ddLine .one) (st'.ddLine .two) := by
  have value := parseExpr_alike alike
  rw [ddLine, ddLine]
  dsimp only
  rw [if_neg fun both : _ ∧ Pass.one = .two => Pass.noConfusion both.2]
  split
  · exact (value.addFixup _ _ _ _).emit32 _ _
  · exact value.emit32 _ _

theorem resbLine_alike (alike : Alike st st') (literal : st.Literal) : Alike st.resbLine st'.resbLine := by
  have count := parseExpr_alike alike
  rw [resbLine, resbLine]
  dsimp only
  rw [parseExpr_literal alike literal]
  by_cases bss : st.parseExpr.2.curSec = .bss
  · rw [if_pos bss, if_pos (count.curSec.trans bss)]
    exact ⟨count.lexP, count.curSec, count.outPos⟩
  · rw [if_neg bss, if_neg fun h => bss (count.curSec.symm.trans h)]
    exact count.emitTimes _ _ _

theorem labelLine_alike (alike : Alike st st') (name : Text) : Alike (st.labelLine .one name) (st'.labelLine .two name) := by
  have moved (pass : Pass) (st : Asm) : Alike st.lex (st.labelLine pass name) := by
    rw [labelLine]
    dsimp only
    rw [labelDefine_frame]
    split
    · split <;> split <;> exact ⟨rfl, rfl, rfl⟩
    · exact ⟨rfl, rfl, rfl⟩
  exact (moved .one st).symm.trans (alike.lex.trans (moved .two st'))

theorem intLine_alike (alike : Alike st st') : Alike st.intLine st'.intLine := (alike.lex.emit8 _ _).emit8 _ _

theorem pushLine_alike (alike : Alike st st') : Alike st.pushLine st'.pushLine := by
  have one := alike.lex
  rw [pushLine, pushLine, alike.peek]
  dsimp only
  cases st.peek.type with
  | ident =>
      dsimp only
      cases reg32 st.peek.text with
      | none => exact (one.emit8 _ _).emit32 _ _
      | some rd => exact one.emit8 _ _
  | number =>
      dsimp only
      split
      · exact (one.emit8 _ _).emit8 _ _
      · exact (one.emit8 _ _).emit32 _ _
  | minus => exact (one.lex.emit8 _ _).emit32 _ _
  | _ => exact alike

theorem regLine_alike (alike : Alike st st') (opcode : UInt8) : Alike (st.regLine opcode) (st'.regLine opcode) := by
  rw [regLine, regLine, alike.peek]
  cases reg32 st.peek.text with
  | none => exact alike.lex
  | some rd => exact alike.lex.emit8 _ _

theorem unaryLine_alike (alike : Alike st st') (digit : Reg) : Alike (st.unaryLine digit) (st'.unaryLine digit) := by
  rw [unaryLine, unaryLine, alike.peek]
  cases reg32 st.peek.text with
  | none => exact alike.lex
  | some rm => exact alike.lex.emitModrmRr _ _ _

theorem xchgLine_alike (alike : Alike st st') : Alike st.xchgLine st'.xchgLine := by
  have three := alike.lex.lex.lex
  rw [xchgLine, xchgLine, alike.peek, alike.lex.lex.peek]
  cases reg32 st.peek.text with
  | none => exact three
  | some r1 =>
      cases reg32 st.lex.lex.peek.text with
      | none => exact three
      | some r2 => exact three.emitModrmRr _ _ _

theorem movLine_alike (alike : Alike st st') : Alike (st.movLine .one) (st'.movLine .two) := by
  have two := alike.lex.lex
  have three := two.lex
  rw [movLine, movLine]
  dsimp only
  rw [alike.peek, two.peek]
  by_cases bracket : st.peek.type = .lbracket
  · obtain ⟨op, behind⟩ := parseMemOp_alike two
    rw [if_pos bracket, if_pos bracket, op, behind.peek]
    cases reg32 st.lex.lex.parseMemOp.2.peek.text with
    | none => exact behind.lex
    | some rs => exact behind.lex.emitModrmMem _ _ _
  rw [if_neg bracket, if_neg bracket]
  cases reg32 st.peek.text with
  | none => exact two
  | some r1 =>
      dsimp only
      cases st.lex.lex.peek.type with
      | lbracket =>
          obtain ⟨op, behind⟩ := parseMemOp_alike three
          dsimp only
          rw [op]
          exact behind.emitModrmMem _ _ _
      | ident =>
          dsimp only
          cases reg32 st.lex.lex.peek.text with
          | some r2 => exact three.emitModrmRr _ _ _
          | none =>
              -- a definition, a label or a fixup: five bytes each
              dsimp only
              rw [if_pos rfl, if_neg Pass.noConfusion]
              have first : Alike (st.lex.lex.lex.movImm r1 0) (st'.lex.lex.lex.movImm r1 0) := three.movImm _ _ _
              refine Alike.trans ?_ (first.trans ?_)
              · cases st.lex.lex.lex.defLookup st.lex.lex.peek.text with
                | some dv => exact (Alike.refl _).movImm _ _ _
                | none => cases st.lex.lex.lex.labelFind st.lex.lex.peek.text <;> exact (Alike.refl _).movImm _ _ _
              · cases st'.lex.lex.lex.defLookup st.lex.lex.peek.text with
                | some dv => exact (Alike.refl _).movImm _ _ _
                | none =>
                    cases st'.lex.lex.lex.labelFind st.lex.lex.peek.text with
                    | some addr => exact (Alike.refl _).movImm _ _ _
                    | none => exact ((Alike.refl _).addFixup _ _ _ _).movImm _ _ _
      | number => exact three.movImm _ _ _
      | minus => exact three.lex.movImm _ _ _
      | _ => exact two

theorem leaLine_alike (alike : Alike st st') : Alike st.leaLine st'.leaLine := by
  have three := alike.lex.lex.lex
  obtain ⟨op, behind⟩ := parseMemOp_alike three
  rw [leaLine, leaLine]
  dsimp only
  rw [alike.peek, alike.lex.lex.peek, op]
  by_cases bracket : st.lex.lex.peek.type = .lbracket
  · rw [if_pos bracket, if_pos bracket]
    cases reg32 st.peek.text with
    | none => exact behind
    | some r1 => exact behind.emitModrmMem _ _ _
  · rw [if_neg bracket, if_neg bracket]
    exact three

theorem arithLine_alike (alike : Alike st st') (opRm : UInt8) (digit : Reg) :
    Alike (st.arithLine opRm digit) (st'.arithLine opRm digit) := by
  have two := alike.lex.lex
  have three := two.lex
  rw [arithLine, arithLine]
  dsimp only
  rw [alike.peek, two.peek, three.peek]
  cases reg32 st.peek.text with
  | none => exact two
  | some r1 =>
      dsimp only
      cases st.lex.lex.peek.type with
      | ident =>
          dsimp only
          cases reg32 st.lex.lex.peek.text with
          | none => exact three
          | some r2 => exact three.emitModrmRr _ _ _
      | number =>
          dsimp only
          split
          · exact three.arithImm8 _ _ _
          · exact three.arithImm32 _ _ _
      | minus =>
          dsimp only
          split
          · exact three.lex.arithImm8 _ _ _
          · exact three.lex.arithImm32 _ _ _
      | _ => exact two

/-- A branch has its four bytes, with a known label, a fixup or none of them. -/
theorem branchTo_alike (alike : Alike st st') (opcode : List UInt8) (name : Text) :
    Alike (st.branchTo .one opcode name) (st'.branchTo .two opcode name) := by
  have code := alike.emitText opcode
  have first : st.branchTo .one opcode name = (st.emitText opcode).emit32 0 := by rw [branchTo.eq_def]
  rw [first, branchTo.eq_def]
  cases st'.labelFind name with
  | some addr => exact code.emit32 _ _
  | none => exact (code.addFixup _ _ _ _).emit32 _ _

theorem jmpLine_alike (alike : Alike st st') : Alike (st.jmpLine .one) (st'.jmpLine .two) := by
  have one := alike.lex
  rw [jmpLine, jmpLine, alike.peek]
  dsimp only
  cases st.peek.type with
  | ident => exact branchTo_alike one _ _
  | number => exact (one.emit8 _ _).emit32 _ _
  | _ => exact one

theorem callLine_alike (alike : Alike st st') : Alike (st.callLine .one) (st'.callLine .two) := by
  rw [callLine, callLine, alike.peek]
  split
  · exact branchTo_alike alike.lex _ _
  · exact alike.lex

theorem jccLine_alike (alike : Alike st st') (cc : UInt8) : Alike (st.jccLine .one cc) (st'.jccLine .two cc) := by
  rw [jccLine, jccLine, alike.peek]
  split
  · exact branchTo_alike alike.lex _ _
  · exact alike.lex

theorem instrLine_alike (alike : Alike st st') (mne : Text) : Alike (st.instrLine .one mne) (st'.instrLine .two mne) := by
  rw [instrLine, instrLine]
  cases opOf simpleOps mne with
  | some opcode => exact alike.emit8 _ _
  | none =>
  dsimp only
  split
  · exact intLine_alike alike
  split
  · exact pushLine_alike alike
  cases opOf regOps mne with
  | some opcode => exact regLine_alike alike opcode
  | none =>
  cases opOf unaryOps mne with
  | some digit => exact unaryLine_alike alike digit
  | none =>
  dsimp only
  split
  · exact xchgLine_alike alike
  split
  · exact movLine_alike alike
  split
  · exact leaLine_alike alike
  cases opOf arithOps mne with
  | some op => exact arithLine_alike alike op.1 op.2
  | none =>
  dsimp only
  split
  · exact jmpLine_alike alike
  split
  · exact callLine_alike alike
  cases opOf jccOps mne with
  | some cc => exact jccLine_alike alike cc
  | none => exact alike

/-! The loops. -/

theorem dbLoop_alike (n : Nat) : ∀ {st st' : Asm}, Alike st st' → Option.Rel Alike (dbLoop n st) (dbLoop n st') := by
  induction n with
  | zero => exact fun _ => .none
  | succ n ih =>
      intro st st' alike
      have item := dbItem_alike alike
      rw [dbLoop, dbLoop]
      dsimp only
      rw [alike.peek, item.peek]
      split
      · exact .some alike
      split
      · exact ih item.lex
      · exact .some item

theorem skipLine_alike (n : Nat) : ∀ {st st' : Asm}, Alike st st' → Option.Rel Alike (skipLine n st) (skipLine n st') := by
  induction n with
  | zero => exact fun _ => .none
  | succ n ih =>
      intro st st' alike
      rw [skipLine, skipLine, alike.peek]
      split
      · exact .some alike
      · exact ih alike.lex

theorem skipNewlines_alike (n : Nat) : ∀ {st st' : Asm}, Alike st st' →
    Option.Rel Alike (skipNewlines n st) (skipNewlines n st') := by
  induction n with
  | zero => exact fun _ => .none
  | succ n ih =>
      intro st st' alike
      rw [skipNewlines, skipNewlines, alike.peek]
      split
      · exact ih alike.lex
      · exact .some alike

/-- Two programs go on alike. -/
theorem rel_bind {α β γ δ : Type} {r : α → β → Prop} {s : γ → δ → Prop} {a : Option α} {b : Option β} {f : α → Option γ}
    {g : β → Option δ} (first : Option.Rel r a b) (rest : ∀ x y, a = some x → r x y → Option.Rel s (f x) (g y)) :
    Option.Rel s (a.bind f) (b.bind g) := by
  cases first with
  | none => exact .none
  | some related => exact rest _ _ rfl related

def timesName : Text := ascii ['t', 'i', 'm', 'e', 's']
def resbName : Text := ascii ['r', 'e', 's', 'b']

/-- Where the next line is times or resb, its count is a numeric literal. -/
def LiteralCount (k : Nat) (st : Asm) : Prop :=
  ∀ start ∈ skipNewlines k st,
    sameNoCase start.peek.text timesName = true ∨ sameNoCase start.peek.text resbName = true → start.lex.Literal

instance (k : Nat) (st : Asm) : Decidable (LiteralCount k st) :=
  inferInstanceAs (Decidable (∀ start ∈ skipNewlines k st,
    sameNoCase start.peek.text timesName = true ∨ sameNoCase start.peek.text resbName = true → start.lex.Literal))

theorem bodyLine_alike {n : Nat} {t : Token} (alike : Alike st st')
    (literal : sameNoCase t.text timesName = true ∨ sameNoCase t.text resbName = true → st.Literal) :
    Option.Rel Alike (st.bodyLine .one n t) (st'.bodyLine .two n t) := by
  rw [bodyLine, bodyLine]
  split
  · exact .some (defineLine_alike alike)
  split
  · exact .some (sectionLine_alike alike)
  split
  · exact .some alike
  split
  next times => exact .some (timesLine_alike alike (literal (.inl times)))
  split
  · exact dbLoop_alike n alike
  split
  · exact .some (dwLine_alike alike)
  split
  · exact .some (ddLine_alike alike)
  split
  next resb => exact .some (resbLine_alike alike (literal (.inr resb)))
  · exact .some (instrLine_alike alike _)

/-- Both passes find the same line. -/
theorem assembleLine_alike {k : Nat} (alike : Alike st st') (literal : LiteralCount k st) :
    Option.Rel (fun a b => b.1 = a.1 ∧ Alike a.2 b.2) (st.assembleLine .one k) (st'.assembleLine .two k) := by
  apply rel_bind (skipNewlines_alike k alike)
  intro start start' skipped behind
  have one := behind.lex
  dsimp only
  rw [behind.peek, one.peek]
  split
  · exact .some ⟨rfl, behind⟩
  split
  · exact .some ⟨rfl, labelLine_alike one _⟩
  apply rel_bind (bodyLine_alike one (literal start skipped))
  intro body body' _ done
  apply rel_bind (skipLine_alike k done)
  exact fun last last' _ ends => .some ⟨rfl, ends⟩

end Asm

end Zenbite.Zas
