import Zenbite.Zas.Asm

/-! Directives, labels and instructions: one call of assemble_line (zas.c). -/

namespace Zenbite.Zas

open Memory

def dbName : Text := ascii ['d', 'b']

/-- The mnemonics without operands. -/
def simpleOps : List (Text × UInt8) :=
  [(ascii ['n', 'o', 'p'], 0x90), (ascii ['h', 'l', 't'], 0xF4), (ascii ['r', 'e', 't'], 0xC3),
    (ascii ['l', 'e', 'a', 'v', 'e'], 0xC9), (ascii ['p', 'u', 's', 'h', 'a'], 0x60),
    (ascii ['p', 'o', 'p', 'a'], 0x61), (ascii ['p', 'u', 's', 'h', 'f'], 0x9C), (ascii ['p', 'o', 'p', 'f'], 0x9D),
    (ascii ['s', 't', 'i'], 0xFB), (ascii ['c', 'l', 'i'], 0xFA), (ascii ['c', 'l', 'd'], 0xFC),
    (ascii ['s', 't', 'd'], 0xFD)]

/-- The mnemonics whose register is added to the opcode. -/
def regOps : List (Text × UInt8) :=
  [(ascii ['p', 'o', 'p'], 0x58), (ascii ['i', 'n', 'c'], 0x40), (ascii ['d', 'e', 'c'], 0x48)]

/-- The mnemonics of opcode F7 and their digits. -/
def unaryOps : List (Text × Reg) :=
  [(ascii ['n', 'e', 'g'], 3), (ascii ['n', 'o', 't'], 2), (ascii ['m', 'u', 'l'], 4),
    (ascii ['i', 'm', 'u', 'l'], 5), (ascii ['i', 'd', 'i', 'v'], 7), (ascii ['d', 'i', 'v'], 6)]

/-- `arith_ops`: the opcode for registers and the digit for immediates. -/
def arithOps : List (Text × UInt8 × Reg) :=
  [(ascii ['a', 'd', 'd'], 0x03, 0), (ascii ['s', 'u', 'b'], 0x2B, 5), (ascii ['x', 'o', 'r'], 0x33, 6),
    (ascii ['a', 'n', 'd'], 0x23, 4), (ascii ['o', 'r'], 0x0B, 1), (ascii ['c', 'm', 'p'], 0x3B, 7)]

/-- `jcc`. -/
def jccOps : List (Text × UInt8) :=
  [(ascii ['j', 'e'], 0x84), (ascii ['j', 'z'], 0x84), (ascii ['j', 'n', 'e'], 0x85), (ascii ['j', 'n', 'z'], 0x85),
    (ascii ['j', 'l'], 0x8C), (ascii ['j', 'n', 'g', 'e'], 0x8C), (ascii ['j', 'l', 'e'], 0x8E),
    (ascii ['j', 'n', 'g'], 0x8E), (ascii ['j', 'g'], 0x8F), (ascii ['j', 'n', 'l', 'e'], 0x8F),
    (ascii ['j', 'g', 'e'], 0x8D), (ascii ['j', 'n', 'l'], 0x8D), (ascii ['j', 'a'], 0x87), (ascii ['j', 'b'], 0x82),
    (ascii ['j', 'a', 'e'], 0x83), (ascii ['j', 'b', 'e'], 0x86)]

/-- The entry of a table that a mnemonic names. -/
def opOf {α : Type} (ops : List (Text × α)) (mne : Text) : Option α :=
  (ops.find? fun o => sameNoCase mne o.1).map (·.2)

namespace Asm

variable (pass : Pass) (st : Asm)

/-- The emitted bytes are counted from the start of the output. -/
def pos : U32 := BitVec.ofNat 32 st.outPos

/-- `%define`; only a string literal can spell it. -/
def defineLine : Asm :=
  let name := st.peek
  let st := st.lex
  let val := st.peek
  let st := st.lex
  if pass = .one ∧ st.defs.length < defMax then { st with defs := st.defs ++ [(name.text, val.text)] } else st

def sectionLine : Asm :=
  let sec := st.peek
  let st := st.lex
  if sec.text = ascii ['.', 't', 'e', 'x', 't'] then { st with curSec := .text }
  else if sec.text = ascii ['.', 'd', 'a', 't', 'a'] then
    let st := if pass = .one ∧ st.curSec = .text then { st with textSize := st.pos } else st
    { st with curSec := .data }
  else if sec.text = ascii ['.', 'b', 's', 's'] then
    let st :=
      if pass = .one then
        match st.curSec with
        | .text => { st with textSize := st.pos }
        | .data => { st with dataSize := st.pos - st.dataOutStart }
        | .bss => st
      else st
    { st with curSec := .bss }
  else st

def timesLine : Asm :=
  let (count, st) := st.parseExpr
  let dir := st.peek
  let st := st.lex
  if sameNoCase dir.text dbName then
    let (val, st) := st.parseExpr
    st.emitTimes count.val.toNat (byteOf val.val.toNat 0)
  else st

/-- One item of db. -/
def dbItem : Asm :=
  let item := st.peek
  if item.type = .string then st.lex.emitText item.text
  else
    let (val, st) := st.parseExpr
    st.emit8 (byteOf val.val.toNat 0)

/-- The loop of db. -/
def dbLoop : Nat → Asm → Option Asm
  | 0, _ => none
  | n + 1, st =>
    if st.peek.type = .newline ∨ st.peek.type = .eof then some st
    else
      let st := st.dbItem
      if st.peek.type = .comma then dbLoop n st.lex else some st

def dwLine : Asm :=
  let (val, st) := st.parseExpr
  (st.emit8 (byteOf val.val.toNat 0)).emit8 (byteOf val.val.toNat 1)

def ddLine : Asm :=
  let (val, st) := st.parseExpr
  let st := if val.known = false ∧ pass = .two then st.addFixup st.outPos val.label 0 false else st
  st.emit32 val.val

def resbLine : Asm :=
  let (count, st) := st.parseExpr
  if st.curSec = .bss then { st with bssSize := st.bssSize + count.val } else st.emitTimes count.val.toNat 0

/-- A label, its colon still ahead. -/
def labelLine (name : Text) : Asm :=
  let st := st.lex
  let addr := st.curVma
  if pass = .one then
    let st := st.labelDefine name addr
    let st :=
      if name = ascii ['_', 's', 't', 'a', 'r', 't'] then { st with entry := addr, entrySet := true } else st
    if st.entrySet then st else { st with entry := addr, entrySet := true }
  else st

def intLine : Asm :=
  let num := st.peek.num
  (st.lex.emit8 0xCD).emit8 (byteOf num.toNat 0)

def pushLine : Asm :=
  let op := st.peek
  match op.type with
  | .ident =>
    let st := st.lex
    match reg32 op.text with
    | some rd => st.emit8 (UInt8.ofNat (0x50 + rd.val))
    | none => (st.emit8 0x68).emit32 ((st.labelFind op.text).getD 0)
  | .number =>
    let v := op.num
    if v ≤ 127 then (st.lex.emit8 0x6A).emit8 (byteOf v.toNat 0) else (st.lex.emit8 0x68).emit32 v
  | .minus =>
    let neg := st.lex.peek
    (st.lex.lex.emit8 0x68).emit32 (-neg.num)
  | _ => st

def regLine (opcode : UInt8) : Asm :=
  match reg32 st.peek.text with
  | some rd => st.lex.emit8 (opcode + UInt8.ofNat rd.val)
  | none => st.lex

def unaryLine (digit : Reg) : Asm :=
  match reg32 st.peek.text with
  | some rm => st.lex.emitModrmRr 0xF7 digit rm
  | none => st.lex

def xchgLine : Asm :=
  let op1 := st.peek
  let st := st.lex.lex
  let op2 := st.peek
  let st := st.lex
  match reg32 op1.text, reg32 op2.text with
  | some r1, some r2 => st.emitModrmRr 0x87 r1 r2
  | _, _ => st

/-- `B8+r imm32`. -/
def movImm (r : Reg) (v : U32) : Asm := (st.emit8 (UInt8.ofNat (0xB8 + r.val))).emit32 v

/-- mov; with a bracket first the token behind it passes for the comma. -/
def movLine : Asm :=
  let op1 := st.peek
  let st := st.lex.lex
  let op2 := st.peek
  if op1.type = .lbracket then
    let (op, st) := st.parseMemOp
    let src := st.peek
    let st := st.lex
    match reg32 src.text with
    | some rs => st.emitModrmMem 0x89 rs op
    | none => st
  else
    match reg32 op1.text with
    | none => st
    | some r1 =>
      match op2.type with
      | .lbracket =>
        let (op, st) := st.lex.parseMemOp
        st.emitModrmMem 0x8B r1 op
      | .ident =>
        let st := st.lex
        match reg32 op2.text with
        | some r2 => st.emitModrmRr 0x8B r1 r2
        | none =>
          match st.defLookup op2.text with
          | some dv => st.movImm r1 (defValue dv)
          | none =>
            match st.labelFind op2.text with
            | some addr => st.movImm r1 addr
            | none =>
              let st := if pass = .two then st.addFixup (st.outPos + 1) op2.text 0 false else st
              st.movImm r1 0
      | .number => st.lex.movImm r1 op2.num
      | .minus =>
        let neg := st.lex.peek
        st.lex.lex.movImm r1 (-neg.num)
      | _ => st

def leaLine : Asm :=
  let dst := st.peek
  let st := st.lex.lex
  let bracket := st.peek
  let st := st.lex
  if bracket.type = .lbracket then
    let (op, st) := st.parseMemOp
    match reg32 dst.text with
    | some r1 => st.emitModrmMem 0x8D r1 op
    | none => st
  else st

/-- `83 /digit imm8`. -/
def arithImm8 (digit r : Reg) (v : U32) : Asm :=
  ((st.emit8 0x83).emit8 (UInt8.ofNat (0xC0 ||| digit.val <<< 3 ||| r.val))).emit8 (byteOf v.toNat 0)

/-- `81 /digit imm32`. -/
def arithImm32 (digit r : Reg) (v : U32) : Asm :=
  ((st.emit8 0x81).emit8 (UInt8.ofNat (0xC0 ||| digit.val <<< 3 ||| r.val))).emit32 v

def arithLine (opRm : UInt8) (digit : Reg) : Asm :=
  let op1 := st.peek
  let st := st.lex.lex
  let op2 := st.peek
  match reg32 op1.text with
  | none => st
  | some r1 =>
    match op2.type with
    | .ident =>
      match reg32 op2.text with
      | some r2 => st.lex.emitModrmRr opRm r1 r2
      | none => st.lex
    | .number =>
      if op2.num ≤ 127 then st.lex.arithImm8 digit r1 op2.num else st.lex.arithImm32 digit r1 op2.num
    | .minus =>
      let v := -st.lex.peek.num
      if -128 ≤ v.toInt then st.lex.lex.arithImm8 digit r1 v else st.lex.lex.arithImm32 digit r1 v
    | _ => st

/-- A branch to a label, behind its operand. -/
def branchTo (opcode : List UInt8) (name : Text) : Asm :=
  let known := st.labelFind name
  let st := st.emitText opcode
  match pass, known with
  | .two, some addr => st.emit32 (addr - (st.curVma + 4))
  | .two, none => (st.addFixup st.outPos name (st.curVma + 4) true).emit32 0
  | .one, _ => st.emit32 0

def jmpLine : Asm :=
  let op := st.peek
  let st := st.lex
  match op.type with
  | .ident => st.branchTo pass [0xE9] op.text
  | .number =>
    let st := st.emit8 0xE9
    st.emit32 (op.num - (st.curVma + 4))
  | _ => st

def callLine : Asm :=
  let op := st.peek
  let st := st.lex
  if op.type = .ident then st.branchTo pass [0xE8] op.text else st

def jccLine (cc : UInt8) : Asm :=
  let op := st.peek
  let st := st.lex
  if op.type = .ident then st.branchTo pass [0x0F, cc] op.text else st

/-- The instructions, by their mnemonic; an unknown one emits nothing. -/
def instrLine (mne : Text) : Asm :=
  match opOf simpleOps mne with
  | some opcode => st.emit8 opcode
  | none =>
  if sameNoCase mne (ascii ['i', 'n', 't']) then st.intLine
  else if sameNoCase mne (ascii ['p', 'u', 's', 'h']) then st.pushLine
  else
  match opOf regOps mne with
  | some opcode => st.regLine opcode
  | none =>
  match opOf unaryOps mne with
  | some digit => st.unaryLine digit
  | none =>
  if sameNoCase mne (ascii ['x', 'c', 'h', 'g']) then st.xchgLine
  else if sameNoCase mne (ascii ['m', 'o', 'v']) then st.movLine pass
  else if sameNoCase mne (ascii ['l', 'e', 'a']) then st.leaLine
  else
  match opOf arithOps mne with
  | some (opRm, digit) => st.arithLine opRm digit
  | none =>
  if sameNoCase mne (ascii ['j', 'm', 'p']) then st.jmpLine pass
  else if sameNoCase mne (ascii ['c', 'a', 'l', 'l']) then st.callLine pass
  else
  match opOf jccOps mne with
  | some cc => st.jccLine pass cc
  | none => st

/-- What a line is for, up to its skip_line, by its first token; db has a loop of its own. -/
def bodyLine (n : Nat) (t : Token) : Option Asm :=
  if t.text = ascii ['%', 'd', 'e', 'f', 'i', 'n', 'e'] then some (st.defineLine pass)
  else if sameNoCase t.text (ascii ['s', 'e', 'c', 't', 'i', 'o', 'n']) then some (st.sectionLine pass)
  else if sameNoCase t.text (ascii ['g', 'l', 'o', 'b', 'a', 'l']) then some st
  else if sameNoCase t.text (ascii ['t', 'i', 'm', 'e', 's']) then some st.timesLine
  else if sameNoCase t.text dbName then st.dbLoop n
  else if sameNoCase t.text (ascii ['d', 'w']) then some st.dwLine
  else if sameNoCase t.text (ascii ['d', 'd']) then some (st.ddLine pass)
  else if sameNoCase t.text (ascii ['r', 'e', 's', 'b']) then some st.resbLine
  else some (st.instrLine pass t.text)

/-- A directive goes before a label of its name. -/
def isDirective (name : Text) : Bool :=
  name == ascii ['%', 'd', 'e', 'f', 'i', 'n', 'e'] ||
    [ascii ['s', 'e', 'c', 't', 'i', 'o', 'n'], ascii ['g', 'l', 'o', 'b', 'a', 'l'], ascii ['t', 'i', 'm', 'e', 's'], dbName,
      ascii ['d', 'w'], ascii ['d', 'd'], ascii ['r', 'e', 's', 'b']].any (sameNoCase name)

/-- `assemble_line`: is there more, and the state; `n` is the fuel of its loops. -/
def assembleLine (n : Nat) : Option (Bool × Asm) := do
  let st ← skipNewlines n st
  let t := st.peek
  if t.type = .eof then some (false, st)
  else
    let st := st.lex
    if isDirective t.text = false ∧ st.peek.type = .colon then some (true, st.labelLine pass t.text)
    else do
      let st ← st.bodyLine pass n t
      let st ← skipLine n st
      some (true, st)

end Asm

end Zenbite.Zas
