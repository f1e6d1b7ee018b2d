import Zenbite.Zas.Steps

/-! What a line of the source asks for, as a list of operations, and that
assemble_line (zas.c) carries out just these. -/

namespace Zenbite.Zas

open Memory

/-! Emitting changes the output only. -/

theorem emit8_frame (st : Asm) (b : UInt8) : st.emit8 b = { st with out := (st.emit8 b).out, outPos := (st.emit8 b).outPos } := by
  rw [Asm.emit8]
  split <;> rfl

theorem emitText_frame (text : Text) : ∀ st : Asm,
    st.emitText text = { st with out := (st.emitText text).out, outPos := (st.emitText text).outPos } := by
  induction text with
  | nil => exact fun _ => rfl
  | cons b text ih =>
      intro st
      have first : st.emit8 b = { st with out := (st.emit8 b).out, outPos := (st.emit8 b).outPos } := emit8_frame st b
      have behind := congrArg (fun s : Asm => { s with
        out := (st.emitText (b :: text)).out, outPos := (st.emitText (b :: text)).outPos }) first
      exact (ih (st.emit8 b)).trans behind

/-- The section that a name stands for. -/
def sectionOf (name : Text) : Option Section :=
  if name = ascii ['.', 't', 'e', 'x', 't'] then some .text
  else if name = ascii ['.', 'd', 'a', 't', 'a'] then some .data
  else if name = ascii ['.', 'b', 's', 's'] then some .bss
  else none

/-- The change to a section; only the first pass notes the sizes. -/
def Asm.enter (pass : Pass) (st : Asm) : Section → Asm
  | .text => { st with curSec := .text }
  | .data =>
    let st := if pass = .one ∧ st.curSec = .text then { st with textSize := st.pos } else st
    { st with curSec := .data }
  | .bss =>
    let st :=
      if pass = .one then
        match st.curSec with
        | .text => { st with textSize := st.pos }
        | .data => { st with dataSize := st.pos - st.dataOutStart }
        | .bss => st
      else st
    { st with curSec := .bss }

/-- The operations that a line is made of. -/
inductive Op where
  | lex
  | goto (s : Text)
  | emit (bytes : List UInt8)
  /-- An opcode and a word. -/
  | word (code : List UInt8) (v : U32)
  /-- The same, with a fixup for the word. -/
  | patch (code : List UInt8) (name : Text) (isRel : Bool) (v : U32)
  /-- The distance to an address from behind its own four bytes. -/
  | rel (addr : U32)
  | times (count : Nat) (b : UInt8)
  /-- The distance to a label. -/
  | branch (name : Text)
  /-- A label that is looked up for an instruction or dd. -/
  | refer (name : Text)
  | reserve (count : U32)
  | enter (target : Section)
  | label (name : Text)
  | define
  /-- A line that is nothing known. -/
  | unknown
  deriving DecidableEq

namespace Op

@[simp] def run (pass : Pass) (st : Asm) : Op → Asm
  | lex => st.lex
  | goto s => { st with lexP := s }
  | emit bytes => st.emitText bytes
  | word code v => (st.emitText code).emit32 v
  | patch code name isRel v =>
    ((st.addFixup (st.outPos + code.length) name (if isRel then st.curVma + 4 else 0) isRel).emitText code).emit32 v
  | rel addr => st.emit32 (addr - (st.curVma + 4))
  | times count b => st.emitTimes count b
  | branch name =>
    match pass, st.labelFind name with
    | .two, some addr => st.emit32 (addr - (st.curVma + 4))
    | _, _ => st.emit32 0
  | reserve count => { st with bssSize := st.bssSize + count }
  | enter target => st.enter pass target
  | label name => st.labelLine pass name
  | define => st.defineLine pass
  | refer _ | unknown => st

/-- The bytes that an operation emits. -/
def bytes : Op → Nat
  | emit bytes => bytes.length
  | word code _ | patch code _ _ _ => code.length + 4
  | rel _ | branch _ => 4
  | times count _ => count
  | _ => 0

def defines : Op → Option Text
  | label name => some name
  | _ => none

def refers : Op → Option Text
  | refer name => some name
  | _ => none

end Op

def runOps (pass : Pass) (st : Asm) (ops : List Op) : Asm := ops.foldl (Op.run pass) st

theorem runOps_cons (pass : Pass) (st : Asm) (op : Op) (ops : List Op) :
    runOps pass st (op :: ops) = runOps pass (op.run pass st) ops := rfl

theorem runOps_nil (pass : Pass) (st : Asm) : runOps pass st [] = st := rfl

theorem runOps_append (pass : Pass) (st : Asm) (first second : List Op) :
    runOps pass st (first ++ second) = runOps pass (runOps pass st first) second :=
  List.foldl_append

namespace Asm

theorem emitText_cons (st : Asm) (b : UInt8) (text : Text) : st.emitText (b :: text) = (st.emit8 b).emitText text := rfl

theorem emitText_nil (st : Asm) : st.emitText [] = st := rfl

variable (pass : Pass) (st : Asm)

def parseOps : List Op :=
  match st.peek.type with
  | .number | .ident => [.lex]
  | .minus => [.lex, .lex]
  | _ => []

def sectionOps : List Op :=
  .lex ::
    match sectionOf st.peek.text with
    | some target => [.enter target]
    | none => []

def timesOps : List Op :=
  let count := st.parseExpr
  let ahead := count.2.lex
  st.parseOps ++ .lex :: if sameNoCase count.2.peek.text dbName then
      ahead.parseOps ++ [.times count.1.val.toNat (byteOf ahead.parseExpr.1.val.toNat 0)]
    else []

def dbItemOps : List Op :=
  if st.peek.type = .string then [.lex, .emit st.peek.text]
  else st.parseOps ++ [.emit [byteOf st.parseExpr.1.val.toNat 0]]

def dbOps : Nat → Asm → List Op
  | 0, _ => []
  | n + 1, st =>
    if st.peek.type = .newline ∨ st.peek.type = .eof then []
    else st.dbItemOps ++ if st.dbItem.peek.type = .comma then .lex :: dbOps n st.dbItem.lex else []

def dwOps : List Op :=
  let v := st.parseExpr.1.val.toNat
  st.parseOps ++ [.emit [byteOf v 0, byteOf v 1]]

/-- The label that the operand of dd names; one that is no operand names the label
without a name. -/
def ddRefers : List Op :=
  if st.peek.type = .ident ∧ st.defLookup st.peek.text = none then [.refer st.peek.text]
  else if st.parseExpr.1.known = false then [.refer []]
  else []

def ddOps : List Op :=
  let val := st.parseExpr.1
  st.parseOps ++ st.ddRefers ++
    [if val.known = false ∧ pass = .two then .patch [] val.label false val.val else .word [] val.val]

def resbOps : List Op :=
  let count := st.parseExpr.1.val
  st.parseOps ++ if st.curSec = .bss then [.reserve count] else [.times count.toNat 0]

def intOps : List Op := [.lex, .emit [0xCD, byteOf st.peek.num.toNat 0]]

def pushOps : List Op :=
  let op := st.peek
  match op.type with
  | .ident =>
    match reg32 op.text with
    | some rd => [.lex, .emit [UInt8.ofNat (0x50 + rd.val)]]
    | none => [.lex, .refer op.text, .word [0x68] ((st.labelFind op.text).getD 0)]
  | .number => if op.num ≤ 127 then [.lex, .emit [0x6A, byteOf op.num.toNat 0]] else [.lex, .word [0x68] op.num]
  | .minus => [.lex, .lex, .word [0x68] (-st.lex.peek.num)]
  | _ => []

def regOpOps (opcode : UInt8) : List Op :=
  match reg32 st.peek.text with
  | some rd => [.lex, .emit [opcode + UInt8.ofNat rd.val]]
  | none => [.lex]

/-- `emit_modrm_rr`. -/
def modrmRr (opcode : UInt8) (reg rm : Reg) : Op := .emit [opcode, UInt8.ofNat (0xC0 ||| reg.val <<< 3 ||| rm.val)]

/-- `emit_modrm_mem`. -/
def modrmMem (opcode : UInt8) (reg : Reg) (op : MemOp) : List Op :=
  match op.disp with
  | none =>
    .emit [opcode, UInt8.ofNat (reg.val <<< 3 ||| op.base.val)] :: if op.base = 5 then [.emit [0]] else []
  | some disp =>
    if -128 ≤ disp.toInt ∧ disp.toInt ≤ 127 then
      [.emit [opcode, UInt8.ofNat (0x40 ||| reg.val <<< 3 ||| op.base.val), byteOf disp.toNat 0]]
    else [.word [opcode, UInt8.ofNat (0x80 ||| reg.val <<< 3 ||| op.base.val)] disp]

def unaryOpOps (digit : Reg) : List Op :=
  match reg32 st.peek.text with
  | some rm => [.lex, modrmRr 0xF7 digit rm]
  | none => [.lex]

def xchgOps : List Op :=
  match reg32 st.peek.text, reg32 st.lex.lex.peek.text with
  | some r1, some r2 => [.lex, .lex, .lex, modrmRr 0x87 r1 r2]
  | _, _ => [.lex, .lex, .lex]

def movImmOps (r : Reg) (v : U32) : List Op := [.word [UInt8.ofNat (0xB8 + r.val)] v]

/-- A memory operand moves the cursor only. -/
def memOps : List Op := [.goto st.parseMemOp.2.lexP]

def movOps : List Op :=
  let op1 := st.peek
  let op2 := st.lex.lex.peek
  if op1.type = .lbracket then
    let mem := st.lex.lex.parseMemOp
    [.lex, .lex] ++ st.lex.lex.memOps ++ .lex ::
      match reg32 mem.2.peek.text with
      | some rs => modrmMem 0x89 rs mem.1
      | none => []
  else
    match reg32 op1.text with
    | none => [.lex, .lex]
    | some r1 =>
      match op2.type with
      | .lbracket => [.lex, .lex, .lex] ++ st.lex.lex.lex.memOps ++ modrmMem 0x8B r1 st.lex.lex.lex.parseMemOp.1
      | .ident =>
        match reg32 op2.text with
        | some r2 => [.lex, .lex, .lex, modrmRr 0x8B r1 r2]
        | none =>
          match st.defLookup op2.text with
          | some dv => [.lex, .lex, .lex] ++ movImmOps r1 (defValue dv)
          | none =>
            match st.labelFind op2.text with
            | some addr => [.lex, .lex, .lex, .refer op2.text] ++ movImmOps r1 addr
            | none =>
              [.lex, .lex, .lex, .refer op2.text] ++
                if pass = .two then [.patch [UInt8.ofNat (0xB8 + r1.val)] op2.text false 0] else movImmOps r1 0
      | .number => [.lex, .lex, .lex] ++ movImmOps r1 op2.num
      | .minus => [.lex, .lex, .lex, .lex] ++ movImmOps r1 (-st.lex.lex.lex.peek.num)
      | _ => [.lex, .lex]

def leaOps : List Op :=
  let bracket := st.lex.lex.peek
  if bracket.type = .lbracket then
    let mem := st.lex.lex.lex.parseMemOp
    [.lex, .lex, .lex] ++ st.lex.lex.lex.memOps ++
      match reg32 st.peek.text with
      | some r1 => modrmMem 0x8D r1 mem.1
      | none => []
  else [.lex, .lex, .lex]

def imm8Ops (digit r : Reg) (v : U32) : List Op :=
  [.emit [0x83, UInt8.ofNat (0xC0 ||| digit.val <<< 3 ||| r.val), byteOf v.toNat 0]]

def imm32Ops (digit r : Reg) (v : U32) : List Op :=
  [.word [0x81, UInt8.ofNat (0xC0 ||| digit.val <<< 3 ||| r.val)] v]

def arithOpOps (opRm : UInt8) (digit : Reg) : List Op :=
  let op2 := st.lex.lex.peek
  match reg32 st.peek.text with
  | none => [.lex, .lex]
  | some r1 =>
    match op2.type with
    | .ident =>
      match reg32 op2.text with
      | some r2 => [.lex, .lex, .lex, modrmRr opRm r1 r2]
      | none => [.lex, .lex, .lex]
    | .number =>
      [.lex, .lex, .lex] ++ if op2.num ≤ 127 then imm8Ops digit r1 op2.num else imm32Ops digit r1 op2.num
    | .minus =>
      let v := -st.lex.lex.lex.peek.num
      [.lex, .lex, .lex, .lex] ++ if -128 ≤ v.toInt then imm8Ops digit r1 v else imm32Ops digit r1 v
    | _ => [.lex, .lex]

/-- A branch to a label, behind its operand. -/
def branchOps (opcode : List UInt8) (name : Text) : List Op :=
  [.refer name, .emit opcode] ++
    match pass, st.labelFind name with
    | .two, none => [.patch [] name true 0]
    | _, _ => [.branch name]

def jmpOps : List Op :=
  let op := st.peek
  match op.type with
  | .ident => .lex :: st.branchOps pass [0xE9] op.text
  | .number => [.lex, .emit [0xE9], .rel op.num]
  | _ => [.lex]

def callOps : List Op :=
  let op := st.peek
  .lex :: if op.type = .ident then st.branchOps pass [0xE8] op.text else []

def jccOpOps (cc : UInt8) : List Op :=
  let op := st.peek
  .lex :: if op.type = .ident then st.branchOps pass [0x0F, cc] op.text else []

/-- The instructions, by their mnemonic. -/
def instrOps (mne : Text) : List Op :=
  match opOf simpleOps mne with
  | some opcode => [.emit [opcode]]
  | none =>
  if sameNoCase mne (ascii ['i', 'n', 't']) then st.intOps
  else if sameNoCase mne (ascii ['p', 'u', 's', 'h']) then st.pushOps
  else
  match opOf regOps mne with
  | some opcode => st.regOpOps opcode
  | none =>
  match opOf unaryOps mne with
  | some digit => st.unaryOpOps digit
  | none =>
  if sameNoCase mne (ascii ['x', 'c', 'h', 'g']) then st.xchgOps
  else if sameNoCase mne (ascii ['m', 'o', 'v']) then st.movOps pass
  else if sameNoCase mne (ascii ['l', 'e', 'a']) then st.leaOps
  else
  match opOf arithOps mne with
  | some (opRm, digit) => st.arithOpOps opRm digit
  | none =>
  if sameNoCase mne (ascii ['j', 'm', 'p']) then st.jmpOps pass
  else if sameNoCase mne (ascii ['c', 'a', 'l', 'l']) then st.callOps pass
  else
  match opOf jccOps mne with
  | some cc => st.jccOpOps pass cc
  | none => [.unknown]

def bodyOps (n : Nat) (t : Token) : List Op :=
  if t.text = ascii ['%', 'd', 'e', 'f', 'i', 'n', 'e'] then [.define]
  else if sameNoCase t.text (ascii ['s', 'e', 'c', 't', 'i', 'o', 'n']) then st.sectionOps
  else if sameNoCase t.text (ascii ['g', 'l', 'o', 'b', 'a', 'l']) then []
  else if sameNoCase t.text (ascii ['t', 'i', 'm', 'e', 's']) then st.timesOps
  else if sameNoCase t.text dbName then dbOps n st
  else if sameNoCase t.text (ascii ['d', 'w']) then st.dwOps
  else if sameNoCase t.text (ascii ['d', 'd']) then st.ddOps pass
  else if sameNoCase t.text (ascii ['r', 'e', 's', 'b']) then st.resbOps
  else st.instrOps pass t.text

/-- A jump of the cursor to where a loop has left it. -/
def gotoOps : Option Asm → List Op
  | none => []
  | some st => [.goto st.lexP]

/-- What a line asks for, behind the empty lines. -/
def firstOps (k : Nat) : List Op :=
  let t := st.peek
  if t.type = .eof then []
  else if isDirective t.text = false ∧ st.lex.peek.type = .colon then [.lex, .label t.text]
  else
    let body := st.lex.bodyOps pass k t
    .lex :: body ++ gotoOps (skipLine k (runOps pass st.lex body))

/-- What a call of assemble_line asks for. -/
def lineOps (k : Nat) : List Op :=
  match skipNewlines k st with
  | none => []
  | some start => .goto start.lexP :: start.firstOps pass k

/-- What the lines from here on ask for. -/
def linesOps (k : Nat) (pass : Pass) : Nat → Asm → List Op
  | 0, _ => []
  | n + 1, st =>
    if cur st.lexP = 0 then []
    else
      st.lineOps pass k ++
        match st.assembleLine pass k with
        | some (true, st') => linesOps k pass n st'
        | _ => []

/-! The lines carry their operations out. -/

section Lines
variable {pass : Pass} {st : Asm}

theorem parseExpr_ops : st.parseExpr.2 = runOps pass st st.parseOps := by
  rw [parseExpr, parseOps]
  cases st.peek.type with
  | number => rfl
  | minus =>
      dsimp only
      split <;> rfl
  | ident =>
      dsimp only
      split
      · rfl
      · split <;> rfl
  | _ => rfl

/-- The same, in front of more. -/
theorem parseOps_run (ops : List Op) :
    runOps pass st (st.parseOps ++ ops) = runOps pass st.parseExpr.2 ops := by
  rw [runOps_append, ← parseExpr_ops]

theorem sectionLine_ops : st.sectionLine pass = runOps pass st st.sectionOps := by
  rw [sectionLine, sectionOps, sectionOf, runOps_cons, Op.run]
  dsimp only
  by_cases text : st.peek.text = ascii ['.', 't', 'e', 'x', 't']
  · rw [if_pos text, if_pos text]
    rfl
  rw [if_neg text, if_neg text]
  by_cases data : st.peek.text = ascii ['.', 'd', 'a', 't', 'a']
  · rw [if_pos data, if_pos data]
    rfl
  rw [if_neg data, if_neg data]
  by_cases bss : st.peek.text = ascii ['.', 'b', 's', 's']
  · rw [if_pos bss, if_pos bss]
    rfl
  · rw [if_neg bss, if_neg bss]
    rfl

theorem timesLine_ops : st.timesLine = runOps pass st st.timesOps := by
  rw [timesLine, timesOps, parseOps_run, runOps_cons, Op.run]
  dsimp only
  split
  · rw [parseOps_run, runOps_cons, Op.run]
    rfl
  · rfl

theorem dbItem_ops : st.dbItem = runOps pass st st.dbItemOps := by
  rw [dbItem, dbItemOps]
  split
  · rfl
  · rw [parseOps_run]
    rfl

theorem dbLoop_ops (n : Nat) : ∀ {st st' : Asm}, dbLoop n st = some st' → st' = runOps pass st (dbOps n st) := by
  induction n with
  | zero =>
      intro st st' ran
      cases ran
  | succ n ih =>
      intro st st' ran
      rw [dbLoop] at ran
      rw [dbOps]
      dsimp only at ran
      split at ran
      next ends =>
        rw [if_pos ends]
        exact (Option.some.inj ran).symm
      next goes =>
      rw [if_neg goes, runOps_append, ← dbItem_ops]
      split at ran
      next comma =>
        rw [if_pos comma, runOps_cons, Op.run]
        exact ih ran
      next last =>
        rw [if_neg last]
        exact (Option.some.inj ran).symm

theorem dwLine_ops : st.dwLine = runOps pass st st.dwOps := by
  rw [dwLine, dwOps, parseOps_run]
  simp only [runOps_cons, runOps_nil, Op.run, emitText_cons, emitText_nil]

/-- A value that is not known yet names its label. -/
theorem ddLine_ops : st.ddLine pass = runOps pass st (st.ddOps pass) := by
  have refers (st : Asm) (ops : List Op) (named : Asm) : runOps pass named (st.ddRefers ++ ops) = runOps pass named ops := by
    rw [ddRefers]
    split
    · rfl
    · split <;> rfl
  rw [ddLine, ddOps, List.append_assoc, parseOps_run, refers]
  dsimp only
  by_cases patched : st.parseExpr.1.known = false ∧ pass = .two
  · rw [if_pos patched, if_pos patched, runOps_cons, Op.run, runOps_nil, List.length_nil, Nat.add_zero,
      if_neg Bool.false_ne_true, emitText_nil]
  · rw [if_neg patched, if_neg patched, runOps_cons, Op.run, runOps_nil, emitText_nil]

/-- Only the cursor has moved. -/
def Still (st st' : Asm) : Prop := st' = { st with lexP := st'.lexP }

theorem Still.refl (st : Asm) : Still st st := rfl

theorem Still.lex {st st' : Asm} (still : Still st st') : Still st st'.lex := by
  have moved := congrArg (fun s : Asm => { s with lexP := next st'.lexP }) still
  exact moved

theorem Still.trans {st st₁ st' : Asm} (first : Still st st₁) (second : Still st₁ st') : Still st st' := by
  have moved := congrArg (fun s : Asm => { s with lexP := st'.lexP }) first
  exact Eq.trans second moved

theorem Still.sameSec {st st' : Asm} (still : Still st st') : st'.curSec = st.curSec := by
  rw [Still] at still
  rw [still]

theorem parseExpr_still : Still st st.parseExpr.2 := by
  have one := (Still.refl st).lex
  rw [parseExpr]
  dsimp only
  split
  · exact one
  · split <;> exact one.lex
  · split
    · exact one
    · split <;> exact one
  · exact Still.refl st

theorem resbLine_ops : st.resbLine = runOps pass st st.resbOps := by
  rw [resbLine, resbOps, parseOps_run]
  have same : st.parseExpr.2.curSec = st.curSec := parseExpr_still.sameSec
  dsimp only
  by_cases bss : st.curSec = .bss
  · rw [if_pos bss, if_pos (same.trans bss)]
    simp only [runOps_cons, runOps_nil, Op.run]
  · rw [if_neg bss, if_neg fun h => bss (same.symm.trans h)]
    simp only [runOps_cons, runOps_nil, Op.run]

theorem intLine_ops : st.intLine = runOps pass st st.intOps := rfl

theorem pushLine_ops : st.pushLine = runOps pass st st.pushOps := by
  rw [pushLine, pushOps]
  dsimp only
  cases st.peek.type with
  | ident =>
      dsimp only
      cases reg32 st.peek.text with
      | none => rfl
      | some rd => rfl
  | number =>
      dsimp only
      split <;> simp only [runOps_cons, runOps_nil, Op.run, emitText_cons, emitText_nil]
  | minus => simp only [runOps_cons, runOps_nil, Op.run, emitText_cons, emitText_nil]
  | _ => rfl

theorem regLine_ops (opcode : UInt8) : st.regLine opcode = runOps pass st (st.regOpOps opcode) := by
  rw [regLine, regOpOps]
  cases reg32 st.peek.text <;> rfl

theorem unaryLine_ops (digit : Reg) : st.unaryLine digit = runOps pass st (st.unaryOpOps digit) := by
  rw [unaryLine, unaryOpOps]
  cases reg32 st.peek.text <;> rfl

theorem xchgLine_ops : st.xchgLine = runOps pass st st.xchgOps := by
  rw [xchgLine, xchgOps]
  cases reg32 st.peek.text with
  | none => rfl
  | some r1 => cases reg32 st.lex.lex.peek.text <;> rfl

theorem emitModrmMem_ops (opcode : UInt8) (reg : Reg) (op : MemOp) :
    st.emitModrmMem opcode reg op = runOps pass st (modrmMem opcode reg op) := by
  rw [emitModrmMem, modrmMem]
  cases op.disp with
  | none =>
      dsimp only
      split <;> simp only [runOps_cons, runOps_nil, Op.run, emitText_cons, emitText_nil]
  | some disp =>
      dsimp only
      split <;> simp only [runOps_cons, runOps_nil, Op.run, emitText_cons, emitText_nil]

theorem parseDisp_still : Still st st.parseDisp.2 := by
  have two := (Still.refl st).lex.lex
  rw [parseDisp]
  split
  · exact two
  · split
    · exact two
    · exact Still.refl st

theorem parseMemOp_still : Still st st.parseMemOp.2 := by
  have disp := (Still.refl st).lex.trans parseDisp_still
  rw [parseMemOp]
  dsimp only
  split
  · exact disp.lex
  · exact disp

/-- The same, in front of more. -/
theorem memOps_run (ops : List Op) :
    runOps pass st (st.memOps ++ ops) = runOps pass st.parseMemOp.2 ops := by
  rw [runOps_append, memOps, runOps_cons, Op.run, ← parseMemOp_still]
  rfl

theorem three_lexes (ops : List Op) :
    runOps pass st ([.lex, .lex, .lex] ++ ops) = runOps pass st.lex.lex.lex ops := by
  rw [runOps_append, runOps_cons, runOps_cons, runOps_cons, runOps_nil, Op.run, Op.run, Op.run]

theorem four_lexes (ops : List Op) :
    runOps pass st ([.lex, .lex, .lex, .lex] ++ ops) = runOps pass st.lex.lex.lex.lex ops := by
  rw [← List.singleton_append, List.append_assoc, runOps_append, three_lexes, runOps_cons, runOps_nil, Op.run]

theorem lexes_refer (name : Text) (ops : List Op) :
    runOps pass st ([.lex, .lex, .lex, .refer name] ++ ops) = runOps pass st.lex.lex.lex ops := by
  rw [runOps_append, runOps_cons, runOps_cons, runOps_cons, runOps_cons, runOps_nil, Op.run, Op.run, Op.run, Op.run]

theorem leaLine_ops : st.leaLine = runOps pass st st.leaOps := by
  rw [leaLine, leaOps]
  dsimp only
  split
  · rw [List.append_assoc, three_lexes, memOps_run]
    cases reg32 st.peek.text with
    | none => rfl
    | some r1 => exact emitModrmMem_ops _ _ _
  · rfl

theorem arithImm8_ops (digit r : Reg) (v : U32) : st.arithImm8 digit r v = runOps pass st (imm8Ops digit r v) := by
  simp only [arithImm8, imm8Ops, runOps_cons, runOps_nil, Op.run, emitText_cons, emitText_nil]

theorem arithImm32_ops (digit r : Reg) (v : U32) : st.arithImm32 digit r v = runOps pass st (imm32Ops digit r v) := by
  simp only [arithImm32, imm32Ops, runOps_cons, runOps_nil, Op.run, emitText_cons, emitText_nil]

theorem movImm_ops (r : Reg) (v : U32) : st.movImm r v = runOps pass st (movImmOps r v) := by
  simp only [movImm, movImmOps, runOps_cons, runOps_nil, Op.run, emitText_cons, emitText_nil]

theorem arithLine_ops (opRm : UInt8) (digit : Reg) : st.arithLine opRm digit = runOps pass st (st.arithOpOps opRm digit) := by
  rw [arithLine, arithOpOps]
  dsimp only
  cases reg32 st.peek.text with
  | none => rfl
  | some r1 =>
      dsimp only
      cases st.lex.lex.peek.type with
      | ident =>
          dsimp only
          cases reg32 st.lex.lex.peek.text <;> rfl
      | number =>
          dsimp only
          rw [three_lexes]
          by_cases small : st.lex.lex.peek.num ≤ 127
          · rw [if_pos small, if_pos small]
            exact arithImm8_ops _ _ _
          · rw [if_neg small, if_neg small]
            exact arithImm32_ops _ _ _
      | minus =>
          dsimp only
          rw [four_lexes]
          by_cases small : -128 ≤ (-st.lex.lex.lex.peek.num).toInt
          · rw [if_pos small, if_pos small]
            exact arithImm8_ops _ _ _
          · rw [if_neg small, if_neg small]
            exact arithImm32_ops _ _ _
      | _ => rfl

theorem lex_labelFind (name : Text) : st.lex.labelFind name = st.labelFind name := by
  rw [labelFind, lex_labels, labelFind]

theorem lex_defLookup (name : Text) : st.lex.defLookup name = st.defLookup name := by
  rw [defLookup, defLookup, lex]

theorem movLine_ops : st.movLine pass = runOps pass st (st.movOps pass) := by
  rw [movLine, movOps]
  dsimp only
  by_cases bracket : st.peek.type = .lbracket
  · rw [if_pos bracket, if_pos bracket, List.append_assoc, runOps_append, runOps_cons, runOps_cons, runOps_nil, Op.run,
      Op.run, memOps_run, runOps_cons, Op.run]
    cases reg32 st.lex.lex.parseMemOp.2.peek.text with
    | none => rfl
    | some rs => exact emitModrmMem_ops _ _ _
  rw [if_neg bracket, if_neg bracket]
  cases reg32 st.peek.text with
  | none => rfl
  | some r1 =>
      dsimp only
      cases st.lex.lex.peek.type with
      | lbracket =>
          dsimp only
          rw [List.append_assoc, three_lexes, memOps_run]
          exact emitModrmMem_ops _ _ _
      | ident =>
          dsimp only
          cases reg32 st.lex.lex.peek.text with
          | some r2 => rfl
          | none =>
              dsimp only
              rw [lex_defLookup, lex_defLookup, lex_defLookup, lex_labelFind, lex_labelFind, lex_labelFind]
              cases st.defLookup st.lex.lex.peek.text with
              | some dv =>
                  dsimp only
                  rw [three_lexes]
                  exact movImm_ops _ _
              | none =>
                  cases st.labelFind st.lex.lex.peek.text with
                  | some addr =>
                      dsimp only
                      rw [lexes_refer]
                      exact movImm_ops _ _
                  | none =>
                      dsimp only
                      rw [lexes_refer]
                      by_cases patched : pass = .two
                      · rw [if_pos patched, if_pos patched, runOps_cons, Op.run, runOps_nil, if_neg Bool.false_ne_true,
                          movImm, emitText_cons, emitText_nil, List.length_singleton]
                      · rw [if_neg patched, if_neg patched]
                        exact movImm_ops _ _
      | number =>
          dsimp only
          rw [three_lexes]
          exact movImm_ops _ _
      | minus =>
          dsimp only
          rw [four_lexes]
          exact movImm_ops _ _
      | _ => rfl

theorem branchTo_ops (opcode : List UInt8) (name : Text) :
    st.branchTo pass opcode name = runOps pass st (st.branchOps pass opcode name) := by
  have found : (st.emitText opcode).labelFind name = st.labelFind name := by
    rw [labelFind, labelFind, emitText_frame]
  rw [branchTo.eq_def, branchOps.eq_def]
  cases pass with
  | one =>
      cases st.labelFind name <;>
        simp only [List.cons_append, List.nil_append, runOps_cons, runOps_nil, Op.run]
  | two =>
      cases known : st.labelFind name <;>
        simp only [List.cons_append, List.nil_append, runOps_cons, runOps_nil, Op.run, found, known, emitText_nil,
          List.length_nil, Nat.add_zero, if_true]

theorem jmpLine_ops : st.jmpLine pass = runOps pass st (st.jmpOps pass) := by
  rw [jmpLine, jmpOps]
  dsimp only
  cases st.peek.type with
  | ident => exact branchTo_ops _ _
  | number => simp only [runOps_cons, runOps_nil, Op.run, emitText_cons, emitText_nil]
  | _ => rfl

theorem callLine_ops : st.callLine pass = runOps pass st (st.callOps pass) := by
  rw [callLine, callOps]
  split
  · exact branchTo_ops _ _
  · rfl

theorem jccLine_ops (cc : UInt8) : st.jccLine pass cc = runOps pass st (st.jccOpOps pass cc) := by
  rw [jccLine, jccOpOps]
  split
  · exact branchTo_ops _ _
  · rfl

theorem instrLine_ops (mne : Text) : st.instrLine pass mne = runOps pass st (st.instrOps pass mne) := by
  rw [instrLine, instrOps]
  cases opOf simpleOps mne with
  | some opcode => rfl
  | none =>
  dsimp only
  split
  · exact intLine_ops
  split
  · exact pushLine_ops
  cases opOf regOps mne with
  | some opcode => exact regLine_ops opcode
  | none =>
  cases opOf unaryOps mne with
  | some digit => exact unaryLine_ops digit
  | none =>
  dsimp only
  split
  · exact xchgLine_ops
  split
  · exact movLine_ops
  split
  · exact leaLine_ops
  cases opOf arithOps mne with
  | some op => exact arithLine_ops op.1 op.2
  | none =>
  dsimp only
  split
  · exact jmpLine_ops
  split
  · exact callLine_ops
  cases opOf jccOps mne with
  | some cc => exact jccLine_ops cc
  | none => rfl

theorem bodyLine_ops {n : Nat} {t : Token} {st' : Asm} (ran : st.bodyLine pass n t = some st') :
    st' = runOps pass st (st.bodyOps pass n t) := by
  rw [bodyLine] at ran
  rw [bodyOps]
  split at ran
  next named =>
    rw [if_pos named]
    exact (Option.some.inj ran).symm
  next other =>
  rw [if_neg other]
  split at ran
  next named =>
    rw [if_pos named, ← sectionLine_ops]
    exact (Option.some.inj ran).symm
  next other =>
  rw [if_neg other]
  split at ran
  next named =>
    rw [if_pos named]
    exact (Option.some.inj ran).symm
  next other =>
  rw [if_neg other]
  split at ran
  next named =>
    rw [if_pos named, ← timesLine_ops]
    exact (Option.some.inj ran).symm
  next other =>
  rw [if_neg other]
  split at ran
  next named =>
    rw [if_pos named]
    exact dbLoop_ops n ran
  next other =>
  rw [if_neg other]
  split at ran
  next named =>
    rw [if_pos named, ← dwLine_ops]
    exact (Option.some.inj ran).symm
  next other =>
  rw [if_neg other]
  split at ran
  next named =>
    rw [if_pos named, ← ddLine_ops]
    exact (Option.some.inj ran).symm
  next other =>
  rw [if_neg other]
  split at ran
  next named =>
    rw [if_pos named, ← resbLine_ops]
    exact (Option.some.inj ran).symm
  next other =>
    rw [if_neg other, ← instrLine_ops]
    exact (Option.some.inj ran).symm

theorem skipLine_still (n : Nat) : ∀ {st st' : Asm}, skipLine n st = some st' → Still st st' := by
  induction n with
  | zero =>
      intro st st' ran
      cases ran
  | succ n ih =>
      intro st st' ran
      rw [skipLine] at ran
      split at ran
      · obtain rfl := Option.some.inj ran
        exact Still.refl st
      · exact (Still.refl st).lex.trans (ih ran)

theorem skipNewlines_still (n : Nat) : ∀ {st st' : Asm}, skipNewlines n st = some st' → Still st st' := by
  induction n with
  | zero =>
      intro st st' ran
      cases ran
  | succ n ih =>
      intro st st' ran
      rw [skipNewlines] at ran
      split at ran
      · exact (Still.refl st).lex.trans (ih ran)
      · obtain rfl := Option.some.inj ran
        exact Still.refl st

/-- A call of assemble_line carries out what its line asks for. -/
theorem assembleLine_ops {k : Nat} {more : Bool} {st' : Asm} (ran : st.assembleLine pass k = some (more, st')) :
    st' = runOps pass st (st.lineOps pass k) := by
  obtain ⟨start, skipped, ran⟩ := Option.bind_eq_some_iff.mp ran
  have first : { st with lexP := start.lexP } = start := (skipNewlines_still k skipped).symm
  rw [lineOps, skipped]
  dsimp only
  rw [runOps_cons, Op.run, first, firstOps]
  dsimp only at ran ⊢
  split at ran
  next eof =>
    obtain ⟨-, rfl⟩ := Prod.mk.inj (Option.some.inj ran)
    rw [if_pos eof, runOps_nil]
  next present =>
  rw [if_neg present]
  split at ran
  next labelled =>
    obtain ⟨-, rfl⟩ := Prod.mk.inj (Option.some.inj ran)
    rw [if_pos labelled, runOps_cons, runOps_cons, runOps_nil, Op.run, Op.run]
  next other =>
  rw [if_neg other, List.cons_append, runOps_cons, Op.run, runOps_append]
  obtain ⟨done, body, ran⟩ := Option.bind_eq_some_iff.mp ran
  obtain ⟨rest, last, ran⟩ := Option.bind_eq_some_iff.mp ran
  obtain ⟨-, rfl⟩ := Prod.mk.inj (Option.some.inj ran)
  rw [← bodyLine_ops body, last, gotoOps, runOps_cons, runOps_nil, Op.run]
  exact skipLine_still k last

end Lines

/-- What a pass asks for. -/
def passOps (st : Asm) (n : Nat) (pass : Pass) (src : Text) : List Op := linesOps n pass n (st.begin pass src)

/-- The state at the end of a pass. -/
def passed (st : Asm) (n : Nat) (pass : Pass) (src : Text) : Asm :=
  (runOps pass (st.begin pass src) (st.passOps n pass src)).close

/-- What the second pass starts from. -/
def second (n : Nat) (mem : Buffer) (src : Text) : Asm := { (start mem).passed n .one src with fixups := [] }

end Asm

/-- What zas_assemble is asked for in its passes. -/
def onesOf (n : Nat) (mem : Buffer) (src : Text) : List Op := (Asm.start mem).passOps n .one src

end Zenbite.Zas
