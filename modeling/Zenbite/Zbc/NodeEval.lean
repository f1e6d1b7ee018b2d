import Zenbite.Zbc.Eval
import Zenbite.Zbc.Parser

/-! `eval` of zbc.c as it is: on node indices, in the tables that the parser has filled. -/

namespace Zenbite.Zbc

/-- `nodes`, `funcs` and `strtab`. -/
structure Tables where
  nodes : List Node
  funcs : List FuncEntry
  strtab : List UInt8

def BinOp.ofToken : TokenKind → Option BinOp
  | .plus => some .plus | .minus => some .minus | .star => some .star | .slash => some .slash | .pct => some .pct
  | .eq => some .eq | .neq => some .neq | .lt => some .lt | .gt => some .gt | .le => some .le | .ge => some .ge
  | .and => some .and | .or => some .or | .band => some .band | .bor => some .bor | .bxor => some .bxor
  | .shl => some .shl | .shr => some .shr | _ => none

def AssignOp.ofToken : TokenKind → Option AssignOp
  | .assign => some .set | .plusEq => some .plus | .minusEq => some .minus | .starEq => some .star
  | .slashEq => some .slash | _ => none

/-- The value of a unary node; an operator that there is not changes nothing. -/
def unValue (op : TokenKind) (a : Word) : Word :=
  match op with
  | .minus => UnOp.minus.apply a
  | .not => UnOp.not.apply a
  | _ => a

namespace Tables
variable (t : Tables)

def literal (off : Nat) : List UInt8 := (t.strtab.drop off).takeWhile (· ≠ 0)

/-- `nodes[i].next`. -/
def next (i : Nat) : Option Nat := t.nodes[i]?.bind (·.next)

/-- A string node's offset. -/
def strAt (i : Option Nat) : Option Nat :=
  match i.bind (t.nodes[·]?) with
  | some d => if d.kind = .str then some d.strOff else none
  | none => none

section Loops
variable (ev : Nat → ZState → Except Stop (Word × ZState))

/-- `eval` of a child; an index of -1 is worth 0. -/
def evalChild : Option Nat → ZState → Except Stop (Word × ZState)
  | none, z => .ok (0, z)
  | some i, z => ev i z

/-- The arguments along `next`, with room for `n` more. -/
def nodeArgs : Nat → Option Nat → ZState → Except Stop (List Word × ZState)
  | 0, _, z => .ok ([], z)
  | _ + 1, none, z => .ok ([], z)
  | n + 1, some c, z => do
    let (v, z) ← ev c z
    let (vs, z) ← nodeArgs n (t.next c) z
    .ok (v :: vs, z)

/-- The loop of printf, with the argument that comes next. -/
def nodePrintf : List UInt8 → Option Nat → ZState → Except Stop ZState
  | [], _, z => .ok z
  | c :: s, arg, z =>
    if c = 0 then .ok z
    else if c ≠ 37 then nodePrintf s arg (z.print [c])
    else
      match s with
      | [] => do
        let (_, z) ← evalChild ev arg z
        .ok (z.print (convText 0 0))
      | d :: s =>
        if d = 37 then nodePrintf s arg (z.print [37])
        else if d = 115 then
          match t.strAt arg with
          | some off => nodePrintf s (arg.bind t.next) (z.print (t.literal off))
          | none => nodePrintf s arg z
        else do
          let (v, z) ← evalChild ev arg z
          nodePrintf s (arg.bind t.next) (z.print (convText d v))

/-- The loop over the statements of a block. No chain is longer than the table, so its
length is fuel enough. -/
def nodeBlock : Nat → Option Nat → ZState → Except Stop ZState
  | _, none, z => .ok z
  | 0, some _, _ => .error .fuel
  | k + 1, some c, z =>
    if z.hadReturn || z.hadBreak || z.hadContinue || z.hadError then .ok z
    else do
      let (_, z) ← ev c z
      nodeBlock k (t.next c) z

/-- `call_function`. -/
def nodeCall (f : Name) (args : List Word) (z : ZState) : Except Stop (Word × ZState) :=
  if f = Name.print then
    match args with
    | [] => .ok (0, z)
    | a :: _ => .ok (0, z.print (emitInt a ++ [10]))
  else if f = Name.putchar then
    match args with
    | [] => .ok (0, z)
    | a :: _ => .ok (0, z.print [charOf a])
  else if f = Name.getchar then
    match z.keys with
    | [] => .error .waiting
    | k :: ks => .ok (k, { z with keys := ks })
  else if f = Name.puts then .ok (0, z)
  else
    match t.funcs.find? (·.name = f) with
    | none => .ok (0, (z.err "undefined function").named "       (called: " f)
    | some fn =>
      if maxCall ≤ z.scopes.length then .ok (0, z.err "call too deep")
      else do
        let (_, z) ← ev fn.body (z.enter (bindParams fn.params args))
        .ok (z.returnValue, z.leave)

/-- `N_CALL`. -/
def nodeCallExpr (d : Node) (z : ZState) : Except Stop (Word × ZState) :=
  if d.name = Name.puts then
    match t.strAt d.child0 with
    | some off => .ok (0, z.print (t.literal off ++ [10]))
    | none => .ok (0, z.err "puts needs a string")
  else if d.name = Name.printf then
    match t.strAt d.child0 with
    | some off => do
      let z ← t.nodePrintf ev (t.strtab.drop off) (d.child0.bind t.next) z
      .ok (0, z)
    | none => .ok (0, z.err "printf needs a format string")
  else do
    let (vs, z) ← t.nodeArgs ev maxArgs d.child0 z
    t.nodeCall ev d.name vs z

/-- `N_ASSIGN`. -/
def nodeAssign (d : Node) (z : ZState) : Except Stop (Word × ZState) :=
  match d.child0.bind (t.nodes[·]?) with
  | none => .ok (0, z)
  | some lhs => do
    let (rv, z) ← evalChild ev d.child1 z
    match z.findVar lhs.name with
    | none =>
      if lhs.ival = 1 then .ok (rv, z.setLocal lhs.name rv)
      else .ok (rv, (z.err "assign to undefined variable").named "       (" lhs.name)
    | some old =>
      match AssignOp.ofToken d.op with
      | none => .ok (old, z)
      | some op => do
        let v ← op.apply old rv
        .ok (v, z.putVar lhs.name v)

/-- `N_BIN`. -/
def nodeBin (d : Node) (z : ZState) : Except Stop (Word × ZState) := do
  let (a, z) ← evalChild ev d.child0 z
  if d.op = .and then
    if a = 0 then .ok (0, z)
    else do
      let (b, z) ← evalChild ev d.child1 z
      .ok (truth (b != 0), z)
  else if d.op = .or then
    if a ≠ 0 then .ok (1, z)
    else do
      let (b, z) ← evalChild ev d.child1 z
      .ok (truth (b != 0), z)
  else do
    let (b, z) ← evalChild ev d.child1 z
    match BinOp.ofToken d.op with
    | none => .ok (0, z)
    | some op => do
      let v ← op.apply a b
      .ok (v, z)

/-- `N_IF`. -/
def nodeIf (d : Node) (z : ZState) : Except Stop (Word × ZState) := do
  let (v, z) ← evalChild ev d.child0 z
  let (_, z) ← evalChild ev (if v ≠ 0 then d.child1 else d.child2) z
  .ok (0, z)

/-- `N_RETURN`. -/
def nodeReturn (d : Node) (z : ZState) : Except Stop (Word × ZState) :=
  match d.child0 with
  | none => .ok (z.returnValue, { z with hadReturn := true })
  | some i => do
    let (v, z) ← ev i z
    .ok (v, { z.note (.returned z.scopes.length v) with returnValue := v, hadReturn := true })

/-- The switch over the kinds; `loop` and `steps` are the loops of `N_WHILE` and `N_FOR`. -/
def nodeSwitch (loop steps : Node → ZState → Except Stop ZState) (d : Node) (z : ZState) : Except Stop (Word × ZState) :=
  match d.kind with
  | .num => .ok (d.ival, z)
  | .str => .ok (BitVec.ofNat 32 d.strOff, z)
  | .var =>
    match z.findVar d.name with
    | some v => .ok (v, z)
    | none => .ok (0, (z.err "undefined variable").named "       (" d.name)
  | .assign => t.nodeAssign ev d z
  | .bin => nodeBin ev d z
  | .un => do
    let (a, z) ← evalChild ev d.child0 z
    .ok (unValue d.op a, z)
  | .call => t.nodeCallExpr ev d z
  | .ifStmt => nodeIf ev d z
  | .whileStmt => do
    let z ← loop d z
    .ok (0, { z.note (.ended z.hadContinue) with hadBreak := false })
  | .forStmt => do
    let (_, z) ← evalChild ev d.child0 z
    let z ← steps d z
    .ok (0, { z with hadBreak := false })
  | .block => do
    let z ← t.nodeBlock ev t.nodes.length d.child0 z
    .ok (0, z)
  | .ret => nodeReturn ev d z
  | .brk => .ok (0, { z with hadBreak := true })
  | .cont => .ok (0, { z with hadContinue := true })
  | .exprStmt => evalChild ev d.child0 z
  | .func => .ok (0, z)

end Loops

mutual

/-- `eval`. No index is outside the table. -/
def evalNode : Nat → Nat → ZState → Except Stop (Word × ZState)
  | 0, _, _ => .error .fuel
  | n + 1, i, z =>
    if z.hadError then .ok (0, z)
    else
      match t.nodes[i]? with
      | none => .ok (0, z)
      | some d => t.nodeSwitch (evalNode n) (nodeWhile n) (nodeFor n) d z

/-- The loop of `N_WHILE`. -/
def nodeWhile : Nat → Node → ZState → Except Stop ZState
  | 0, _, _ => .error .fuel
  | n + 1, d, z =>
    if z.hadReturn || z.hadBreak || z.hadError then .ok z
    else do
      let (v, z) ← evalChild (evalNode n) d.child0 z
      if v = 0 then .ok z
      else do
        let (_, z) ← evalChild (evalNode n) d.child1 { z with hadContinue := false }
        nodeWhile n d z

/-- The loop of `N_FOR`. -/
def nodeFor : Nat → Node → ZState → Except Stop ZState
  | 0, _, _ => .error .fuel
  | n + 1, d, z =>
    if z.hadReturn || z.hadBreak || z.hadError then .ok z
    else do
      let (v, z) ← match d.child1 with
        | none => .ok (1, z)
        | some c => evalNode n c z
      if v = 0 then .ok z
      else do
        let (_, z) ← evalChild (evalNode n) d.child3 { z with hadContinue := false }
        let (_, z) ← evalChild (evalNode n) d.child2 { z with hadContinue := false }
        nodeFor n d z

end

end Tables

end Zenbite.Zbc
