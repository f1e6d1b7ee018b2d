import Zenbite.Lib.Memory
import Zenbite.Zas.Lex

/-! The assembler's state and how each line changes it (zas.c). -/

namespace Zenbite.Zas

open Memory

def outMax : Nat := 16384
def labelMax : Nat := 128
def fixupMax : Nat := 256
def defMax : Nat := 32

def textVma : U32 := 0x00800000

inductive Section where
  | text | data | bss
  deriving DecidableEq

inductive Pass where
  | one | two
  deriving DecidableEq

structure Fixup where
  outOffset : Nat
  name : Text
  base : U32
  isRel : Bool
  deriving DecidableEq

/-- The static variables; text_out_start is 0 in both passes. -/
structure Asm where
  lexP : Text
  out : Buffer
  outPos : Nat
  labels : List (Text × U32)
  fixups : List Fixup
  curSec : Section
  textSize : U32
  dataSize : U32
  bssSize : U32
  dataOutStart : U32
  entry : U32
  entrySet : Bool
  defs : List (Text × Text)

abbrev Reg := Fin 8

instance regCount_ne : NeZero (8 : Nat) := ⟨by decide⟩

/-- `strcasecmp` is 0. -/
def sameNoCase (a b : Text) : Bool := a.map lower == b.map lower
where
  lower (c : UInt8) : UInt8 := if 65 ≤ c ∧ c ≤ 90 then c + 32 else c

def regNames : List Text :=
  [ascii ['e', 'a', 'x'], ascii ['e', 'c', 'x'], ascii ['e', 'd', 'x'], ascii ['e', 'b', 'x'],
    ascii ['e', 's', 'p'], ascii ['e', 'b', 'p'], ascii ['e', 's', 'i'], ascii ['e', 'd', 'i']]

/-- `reg32_encode`. -/
def reg32 (s : Text) : Option Reg :=
  let lo := (s.take 7).map (· ||| 0x20)
  (List.finRange 8).find? fun i => regNames[i.val]? = some lo

/-- A base register, and a displacement if there is one. -/
structure MemOp where
  base : Reg
  disp : Option U32
  deriving DecidableEq

namespace Asm

variable (st : Asm)

/-- The token that lex_peek and lex_next give. -/
def peek : Token := (lexNext st.lexP).1

/-- lex_next moves on. -/
def lex : Asm := { st with lexP := (lexNext st.lexP).2 }

/-- `label_find`, and the address there. -/
def labelFind (name : Text) : Option U32 := (st.labels.find? (·.1 = name)).map (·.2)

def labelDefine (name : Text) (addr : U32) : Asm :=
  if (st.labelFind name).isSome then { st with labels := setFirst st.labels }
  else if labelMax ≤ st.labels.length then st
  else { st with labels := st.labels ++ [(name, addr)] }
where
  setFirst : List (Text × U32) → List (Text × U32)
    | [] => []
    | l :: ls => if l.1 = name then (name, addr) :: ls else l :: setFirst ls

def addFixup (outOffset : Nat) (name : Text) (base : U32) (isRel : Bool) : Asm :=
  if fixupMax ≤ st.fixups.length then st else { st with fixups := st.fixups ++ [⟨outOffset, name, base, isRel⟩] }

def emit8 (b : UInt8) : Asm :=
  if st.outPos < outMax then { st with out := Function.update st.out st.outPos b, outPos := st.outPos + 1 } else st

def emit32 (v : U32) : Asm :=
  (((st.emit8 (byteOf v.toNat 0)).emit8 (byteOf v.toNat 1)).emit8 (byteOf v.toNat 2)).emit8 (byteOf v.toNat 3)

def align4 (v : U32) : U32 := (v + 3) &&& ~~~3

def curVma : U32 :=
  match st.curSec with
  | .text => textVma + BitVec.ofNat 32 st.outPos
  | .data => align4 (textVma + st.textSize) + (BitVec.ofNat 32 st.outPos - st.dataOutStart)
  | .bss => align4 (textVma + st.textSize) + st.dataSize

def emitModrmRr (opcode : UInt8) (reg rm : Reg) : Asm :=
  (st.emit8 opcode).emit8 (UInt8.ofNat (0xC0 ||| reg.val <<< 3 ||| rm.val))

def emitModrmMem (opcode : UInt8) (reg : Reg) (op : MemOp) : Asm :=
  let st := st.emit8 opcode
  match op.disp with
  | none =>
    let st := st.emit8 (UInt8.ofNat (reg.val <<< 3 ||| op.base.val))
    if op.base = 5 then st.emit8 0 else st
  | some disp =>
    if -128 ≤ disp.toInt ∧ disp.toInt ≤ 127 then
      (st.emit8 (UInt8.ofNat (0x40 ||| reg.val <<< 3 ||| op.base.val))).emit8 (byteOf disp.toNat 0)
    else (st.emit8 (UInt8.ofNat (0x80 ||| reg.val <<< 3 ||| op.base.val))).emit32 disp

/-- `def_lookup`. -/
def defLookup (name : Text) : Option Text := (st.defs.find? (·.1 = name)).map (·.2)

/-- The number that a definition stands for: hexadecimal digits with anything between
them, or decimal digits up to anything else. -/
def defValue (p : Text) : U32 :=
  if cur p = 48 ∧ (cur p.tail = 120 ∨ cur p.tail = 88) then numberOf 16 (p.tail.tail.filter isHexDigit)
  else numberOf 10 (p.takeWhile isDigit)

/-- What parse_expr leaves in `*out_val` and `out_label`, and its result. -/
structure Value where
  known : Bool
  val : U32
  label : Text

def parseExpr : Value × Asm :=
  let t := st.peek
  match t.type with
  | .number => (⟨true, t.num, []⟩, st.lex)
  | .minus =>
    let t2 := st.lex.peek
    if t2.type = .number then (⟨true, -t2.num, []⟩, st.lex.lex) else (⟨false, 0, []⟩, st.lex.lex)
  | .ident =>
    match st.defLookup t.text with
    | some dv => (⟨true, defValue dv, []⟩, st.lex)
    | none =>
      match st.labelFind t.text with
      | some addr => (⟨true, addr, []⟩, st.lex)
      | none => (⟨false, 0, t.text⟩, st.lex)
  | _ => (⟨false, 0, []⟩, st)

/-- The displacement of a memory operand. -/
def parseDisp : Option U32 × Asm :=
  if st.peek.type = .plus then
    let t3 := st.lex.peek
    (if t3.type = .number then some t3.num else none, st.lex.lex)
  else if st.peek.type = .minus then
    let t3 := st.lex.peek
    (if t3.type = .number then some (-t3.num) else none, st.lex.lex)
  else (none, st)

/-- `parse_mem_op`, behind the bracket. -/
def parseMemOp : MemOp × Asm :=
  let base := (reg32 st.peek.text).getD 0
  let (disp, st) := st.lex.parseDisp
  (⟨base, disp⟩, if st.peek.type = .rbracket then st.lex else st)

/-- The loop of skip_line; without enough fuel it has not come back yet. -/
def skipLine : Nat → Asm → Option Asm
  | 0, _ => none
  | n + 1, st => if st.peek.type = .newline ∨ st.peek.type = .eof then some st else skipLine n st.lex

def skipNewlines : Nat → Asm → Option Asm
  | 0, _ => none
  | n + 1, st => if st.peek.type = .newline then skipNewlines n st.lex else some st

/-- The same byte so many times. -/
def emitTimes (count : Nat) (b : UInt8) : Asm := count.repeat (fun st => st.emit8 b) st

def emitText (text : Text) : Asm := text.foldl emit8 st

end Asm

end Zenbite.Zas
