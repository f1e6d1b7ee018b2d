import Zenbite.Lib.Acts
import Zenbite.Zbc.Tokens

/-! The parser of zbc.c and the loop of zbc_run over the functions of a program. Every
production is a function of the ones it calls, which have less fuel. -/

namespace Zenbite.Zbc

open Acts

def maxNodes : Nat := 512

def maxFuncs : Nat := 16

/-- `enum nkind`. -/
inductive NodeKind where
  | num | var | str | assign | bin | un | call
  | ifStmt | whileStmt | forStmt | block | ret | brk | cont | exprStmt
  | func
  deriving DecidableEq

/-- `struct node`; an index of -1 is `none`. -/
structure Node where
  kind : NodeKind
  op : TokenKind
  ival : Word
  strOff : Nat
  name : Name
  child0 : Option Nat
  child1 : Option Nat
  child2 : Option Nat
  child3 : Option Nat
  next : Option Nat
  deriving DecidableEq

/-- A node as new_node leaves it. -/
def Node.fresh (kind : NodeKind) : Node := ⟨kind, .eof, 0, 0, [], none, none, none, none, none⟩

/-- `struct func` as the parser fills it; `body` is a node. -/
structure FuncEntry where
  name : Name
  body : Nat
  params : List Name
  isVoid : Bool
  deriving DecidableEq

/-- The state of the parser. `error` is the message that zbc_err printed. Beside what the
code keeps, `far` is the last index of toks that was read, `named` are the positions where a
name was taken whatever stood there, and `stuck` says that the fuel was used up. -/
structure Parser where
  pos : Nat
  nodes : List Node
  funcs : List FuncEntry
  error : Option String
  far : Nat
  named : List Nat
  stuck : Bool
  deriving DecidableEq

abbrev Parse := Act Parser

def hadError : Parse Bool := look (·.error.isSome)

/-- zbc_err keeps to the first message. -/
def zbcErr (msg : String) : Parse Unit := update fun s => { s with error := s.error.or (some msg) }

/-- new_node; a full table gives the first node again. -/
def newNode (kind : NodeKind) : Parse Nat := fun s =>
  if s.nodes.length < maxNodes then
    (s.nodes.length, { s with nodes := s.nodes ++ [Node.fresh kind] })
  else (0, { s with error := s.error.or (some "too many AST nodes") })

def setNode (i : Nat) (change : Node → Node) : Parse Unit :=
  update fun s => { s with nodes := s.nodes.modify i change }

/-- `nodes[i].kind`. -/
def nodeKind (i : Nat) : Parse (Option NodeKind) := look fun s => s.nodes[i]?.map (·.kind)

/-- A list goes on with `i`: as the first under `parent`, or behind `last`. -/
def link (parent : Nat) (last : Option Nat) (i : Nat) : Parse Unit :=
  match last with
  | none => setNode parent fun d => { d with child0 := some i }
  | some p => setNode p fun d => { d with next := some i }

/-- `strncpy(.., 31)` into a cleared array. -/
def copyName (name : Name) : Name := name.take 31

def binPrec : TokenKind → Nat
  | .or => 1
  | .and => 2
  | .bor => 3
  | .bxor => 4
  | .band => 5
  | .eq | .neq => 6
  | .lt | .gt | .le | .ge => 7
  | .shl | .shr => 8
  | .plus | .minus => 9
  | .star | .slash | .pct => 10
  | _ => 0

def isAssign (k : TokenKind) : Prop :=
  k = .assign ∨ k = .plusEq ∨ k = .minusEq ∨ k = .starEq ∨ k = .slashEq

instance : DecidablePred isAssign := fun k =>
  inferInstanceAs (Decidable (k = .assign ∨ k = .plusEq ∨ k = .minusEq ∨ k = .starEq ∨ k = .slashEq))

/-- The productions and their loops. -/
structure Grammar where
  primary : Parse Nat
  args (call : Nat) (prev : Option Nat) (argi : Nat) : Parse Nat
  binop (prec : Nat) : Parse Nat
  climb (prec lhs : Nat) : Parse Nat
  expr : Parse Nat
  stmt : Parse Nat
  stmts (b : Nat) (last : Option Nat) : Parse Nat
  block : Parse Nat
  params (f : Nat) : Parse Bool
  func (isVoid : Bool) : Parse Unit
  program : Parse Unit

variable (toks : Nat → Token)

def peek : Parse Token := fun s => (toks s.pos, { s with far := max s.far s.pos })

def advance : Parse Token := fun s =>
  (toks s.pos, { s with pos := s.pos + 1, far := max s.far s.pos })

/-- An advance for a name, whose kind is looked at afterwards. -/
def takeName : Parse Token := fun s =>
  (toks s.pos, { s with pos := s.pos + 1, far := max s.far s.pos, named := s.pos :: s.named })

def accept (t : TokenKind) : Parse Bool := do
  let u ← peek toks
  if u.kind = t then
    let _ ← advance toks
    pure true
  else pure false

def expect (t : TokenKind) (what : String) : Parse Unit := do
  let here ← accept toks t
  if here then pure () else zbcErr what

section Productions
variable (g : Grammar)

/-- The loop over the arguments; the result is their number. -/
def parseArgs (call : Nat) (prev : Option Nat) (argi : Nat) : Parse Nat := do
  let t ← peek toks
  let e ← hadError
  if t.kind ≠ .rpar ∧ e = false then
    let a ← g.expr
    link call prev a
    let comma ← accept toks .comma
    if comma then g.args call (some a) (argi + 1) else pure (argi + 1)
  else pure argi

def parseCall (id : Token) : Parse Nat := do
  let i ← newNode .call
  setNode i fun d => { d with name := copyName id.sval }
  let argi ← g.args i none 0
  expect toks .rpar "expected )"
  setNode i fun d => { d with ival := BitVec.ofNat 32 argi }
  pure i

def parsePrimary : Parse Nat := do
  let t ← peek toks
  if t.kind = .int then
    let i ← newNode .num
    let u ← advance toks
    setNode i fun d => { d with ival := u.ival }
    pure i
  else if t.kind = .str then
    let i ← newNode .str
    let u ← advance toks
    setNode i fun d => { d with strOff := u.strOff }
    pure i
  else if t.kind = .ident then
    let id ← advance toks
    let u ← peek toks
    if u.kind = .lpar then
      let _ ← advance toks
      parseCall toks g id
    else
      let i ← newNode .var
      setNode i fun d => { d with name := copyName id.sval }
      pure i
  else
    let paren ← accept toks .lpar
    if paren then
      let i ← g.expr
      expect toks .rpar "expected )"
      pure i
    else if t.kind = .minus ∨ t.kind = .not then
      let op ← advance toks
      let i ← newNode .un
      setNode i fun d => { d with op := op.kind }
      let a ← g.primary
      setNode i fun d => { d with child0 := some a }
      pure i
    else
      zbcErr "expected expression"
      newNode .num

/-- The loop of parse_binop. -/
def climbBinop (prec lhs : Nat) : Parse Nat := do
  let t ← peek toks
  if prec ≤ binPrec t.kind then
    let op ← advance toks
    let rhs ← g.binop (binPrec op.kind + 1)
    let i ← newNode .bin
    setNode i fun d => { d with op := op.kind, child0 := some lhs, child1 := some rhs }
    g.climb prec i
  else pure lhs

def parseBinop (prec : Nat) : Parse Nat := do
  let lhs ← g.primary
  g.climb prec lhs

def parseExpr : Parse Nat := do
  let lhs ← g.binop 1
  let t ← peek toks
  if isAssign t.kind then
    let kind ← nodeKind lhs
    if kind = some .var then
      let _ ← advance toks
      let rhs ← g.expr
      let i ← newNode .assign
      setNode i fun d => { d with op := t.kind, child0 := some lhs, child1 := some rhs }
      pure i
    else
      zbcErr "assign to non-variable"
      pure lhs
  else pure lhs

/-- The nodes of a declaration; without an initial value it is 0. -/
def declare (id : Token) (rhs : Option Nat) : Parse Nat := do
  let i ← newNode .assign
  setNode i fun d => { d with op := .assign }
  let v ← newNode .var
  setNode v fun d => { d with name := copyName id.sval, ival := 1 }
  match rhs with
  | some r =>
    setNode i fun d => { d with child0 := some v, child1 := some r }
    pure i
  | none =>
    let r ← newNode .num
    setNode i fun d => { d with child0 := some v, child1 := some r }
    pure i

/-- `int x = e;`, from behind the `int`. -/
def parseDecl : Parse Nat := do
  let id ← takeName toks
  if id.kind = .ident then
    let assign ← accept toks .assign
    let rhs ← optionally assign g.expr
    expect toks .semi ";"
    declare id rhs
  else
    zbcErr "expected name"
    newNode .num

def parseIf : Parse Nat := do
  expect toks .lpar "("
  let cond ← g.expr
  expect toks .rpar ")"
  let thenB ← g.stmt
  let more ← accept toks .kwElse
  let elseB ← optionally more g.stmt
  let i ← newNode .ifStmt
  setNode i fun d => { d with child0 := some cond, child1 := some thenB, child2 := elseB }
  pure i

def parseWhile : Parse Nat := do
  expect toks .lpar "("
  let cond ← g.expr
  expect toks .rpar ")"
  let body ← g.stmt
  let i ← newNode .whileStmt
  setNode i fun d => { d with child0 := some cond, child1 := some body }
  pure i

/-- A for statement from behind its init. -/
def parseForRest (init : Option Nat) : Parse Nat := do
  expect toks .semi ";"
  let t ← peek toks
  let cond ← optionally (t.kind ≠ .semi) g.expr
  expect toks .semi ";"
  let u ← peek toks
  let post ← optionally (u.kind ≠ .rpar) g.expr
  expect toks .rpar ")"
  let body ← g.stmt
  let i ← newNode .forStmt
  setNode i fun d => { d with child0 := init, child1 := cond, child2 := post, child3 := some body }
  pure i

/-- The init may be a declaration, which ends with its initial value. -/
def parseFor : Parse Nat := do
  expect toks .lpar "("
  let decl ← accept toks .kwInt
  if decl then
    let id ← takeName toks
    if id.kind = .ident then
      let assign ← accept toks .assign
      let rhs ← optionally assign g.expr
      let init ← declare id rhs
      parseForRest toks g (some init)
    else
      zbcErr "expected name"
      newNode .num
  else
    let t ← peek toks
    let init ← optionally (t.kind ≠ .semi) g.expr
    parseForRest toks g init

def parseReturn : Parse Nat := do
  let i ← newNode .ret
  let bare ← accept toks .semi
  if bare then pure i
  else
    let e ← g.expr
    setNode i fun d => { d with child0 := some e }
    expect toks .semi ";"
    pure i

/-- break and continue. -/
def parseJump (kind : NodeKind) : Parse Nat := do
  expect toks .semi ";"
  newNode kind

def parseExprStmt : Parse Nat := do
  let e ← g.expr
  expect toks .semi ";"
  let i ← newNode .exprStmt
  setNode i fun d => { d with child0 := some e }
  pure i

/-- The alternatives of parse_stmt, in order. -/
def starts : List (TokenKind × Parse Nat) :=
  [(.lbrace, g.block), (.kwIf, parseIf toks g), (.kwWhile, parseWhile toks g), (.kwFor, parseFor toks g),
    (.kwReturn, parseReturn toks g), (.kwBreak, parseJump toks .brk), (.kwCont, parseJump toks .cont),
    (.kwInt, parseDecl toks g)]

/-- The production behind the first token of `alts` that stands here, else `other`. -/
def choose (other : Parse Nat) : List (TokenKind × Parse Nat) → Parse Nat
  | [] => other
  | alt :: alts => do
    let here ← accept toks alt.1
    if here then alt.2 else choose other alts

def parseStmt : Parse Nat := choose toks (parseExprStmt toks g) (starts toks g)

/-- The loop of parse_block. -/
def parseStmts (b : Nat) (last : Option Nat) : Parse Nat := do
  let t ← peek toks
  if t.kind ≠ .rbrace ∧ t.kind ≠ .eof then
    let i ← g.stmt
    link b last i
    let e ← hadError
    if e then pure b else g.stmts b (some i)
  else
    expect toks .rbrace "\x7d"
    pure b

def parseBlock : Parse Nat := do
  let b ← newNode .block
  g.stmts b none

def setFunc (f : Nat) (change : FuncEntry → FuncEntry) : Parse Unit :=
  update fun s => { s with funcs := s.funcs.modify f change }

/-- The loop over the parameters; `false` after a bad one. Those behind the eighth are
read and left out. -/
def parseParams (f : Nat) : Parse Bool := do
  let t ← peek toks
  let e ← hadError
  if t.kind ≠ .rpar ∧ e = false then
    let _ ← accept toks .kwInt
    let pid ← takeName toks
    if pid.kind = .ident then
      setFunc f fun d => if d.params.length < 8 then { d with params := d.params ++ [copyName pid.sval] } else d
      let comma ← accept toks .comma
      if comma then g.params f else pure true
    else
      zbcErr "param name"
      pure false
  else pure true

def parseFuncAt (f : Nat) : Parse Unit := do
  let id ← takeName toks
  if id.kind = .ident then
    setFunc f fun d => { d with name := copyName id.sval }
    expect toks .lpar "("
    let ok ← g.params f
    if ok then
      expect toks .rpar ")"
      expect toks .lbrace "\x7b"
      let body ← g.block
      setFunc f fun d => { d with body := body }
    else pure ()
  else zbcErr "function name"

def parseFunc (isVoid : Bool) : Parse Unit := do
  let count ← look (·.funcs.length)
  if count < maxFuncs then
    update fun s => { s with funcs := s.funcs ++ [⟨[], 0, [], isVoid⟩] }
    parseFuncAt toks g count
  else zbcErr "too many functions"

/-- The top level of zbc_run. -/
def parseProgram : Parse Unit := do
  let t ← peek toks
  let e ← hadError
  if t.kind ≠ .eof ∧ e = false then
    let int ← accept toks .kwInt
    if int then
      g.func false
      g.program
    else
      let void ← accept toks .kwVoid
      if void then
        g.func true
        g.program
      else zbcErr "expected function definition"
  else pure ()

end Productions

/-- Out of fuel. -/
def giveUp {α : Type} (a : α) : Parse α := fun s => (a, { s with stuck := true })

/-- The parser with fuel for calls and rounds that deep. -/
def grammar : Nat → Grammar
  | 0 =>
    { primary := giveUp 0, args := fun _ _ _ => giveUp 0, binop := fun _ => giveUp 0,
      climb := fun _ _ => giveUp 0, expr := giveUp 0, stmt := giveUp 0, stmts := fun _ _ => giveUp 0,
      block := giveUp 0, params := fun _ => giveUp false, func := fun _ => giveUp (),
      program := giveUp () }
  | n + 1 =>
    { primary := parsePrimary toks (grammar n), args := parseArgs toks (grammar n),
      binop := parseBinop (grammar n), climb := climbBinop toks (grammar n),
      expr := parseExpr toks (grammar n), stmt := parseStmt toks (grammar n),
      stmts := parseStmts toks (grammar n), block := parseBlock (grammar n),
      params := parseParams toks (grammar n), func := parseFunc toks (grammar n),
      program := parseProgram toks (grammar n) }

/-- The state that zbc_run starts the parser in. -/
def Parser.start (error : Option String) : Parser := ⟨0, [], [], error, 0, [], false⟩

/-- The token array with `ts` in front. -/
def tokensOf (ts : List Token) (i : Nat) : Token := ts.getD i (Token.plain .eof)

end Zenbite.Zbc
