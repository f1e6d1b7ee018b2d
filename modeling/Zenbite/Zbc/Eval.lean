import Zenbite.Zbc.Ast

/-! The evaluator (zbc.c): eval and call_function with their global flags. -/

namespace Zenbite.Zbc

def maxCall : Nat := 8
def maxVars : Nat := 32
def maxArgs : Nat := 8

/-- What properties of a run speak about; the evaluator does not read it. Depths are
those of the call that is active then. -/
inductive Note where
  /-- A function is entered; is a return pending. -/
  | called (pending : Bool)
  /-- A call made at that depth comes back with a value. -/
  | back (depth : Nat) (v : Word)
  /-- A return statement with a value. -/
  | returned (depth : Nat) (v : Word)
  /-- A while loop is left; is a continue pending. -/
  | ended (pending : Bool)
  deriving DecidableEq

/-- The global state of a run; `scopes` holds the scopes of the active calls, the
innermost first, `keys` the keys still to be pressed, and `notes` what has happened. -/
structure ZState where
  scopes : List Scope
  hadError : Bool
  hadReturn : Bool
  hadBreak : Bool
  hadContinue : Bool
  returnValue : Word
  out : List UInt8
  keys : List Word
  notes : List Note
  deriving DecidableEq

/-- Why a run stops short: the fuel of the model is used up, the processor traps, or
getchar waits for a key. -/
inductive Stop where
  | fuel | trap | waiting
  deriving DecidableEq

def textOf (s : String) : List UInt8 := s.toUTF8.toList

namespace ZState

def print (z : ZState) (text : List UInt8) : ZState := { z with out := z.out ++ text }

def note (z : ZState) (n : Note) : ZState := { z with notes := z.notes ++ [n] }

/-- `zbc_err`. -/
def err (z : ZState) (msg : String) : ZState :=
  { (if z.hadError then z else z.print (textOf "ZBC error: " ++ textOf msg ++ [10])) with hadError := true }

/-- The name that is printed behind an error. -/
def named (z : ZState) (front : String) (x : Name) : ZState :=
  z.print (textOf front ++ x ++ textOf ")\n")

/-- `find_var`; there are no global variables. -/
def findVar (z : ZState) (x : Name) : Option Word :=
  match z.scopes with
  | [] => none
  | s :: _ => s.find x

/-- An assignment through the pointer that find_var returned. -/
def putVar (z : ZState) (x : Name) (v : Word) : ZState :=
  match z.scopes with
  | [] => z
  | s :: rest => { z with scopes := s.put x v :: rest }

/-- `set_local`, inside a call. -/
def setLocal (z : ZState) (x : Name) (v : Word) : ZState :=
  match z.scopes with
  | [] => z
  | s :: rest => if maxVars ≤ s.length then z.err "too many locals" else { z with scopes := ((x, v) :: s) :: rest }

/-- The first half of a call: a scope of its own, and no return pending. -/
def enter (z : ZState) (s : Scope) : ZState :=
  { z.note (.called z.hadReturn) with scopes := s :: z.scopes, hadReturn := false, returnValue := 0 }

/-- The second half. -/
def leave (z : ZState) : ZState :=
  { z.note (.back z.scopes.tail.length z.returnValue) with scopes := z.scopes.tail, hadReturn := false }

end ZState

/-- The lowest int, whose quotient by -1 traps. -/
def intMin : Word := BitVec.intMin 32

def divide (a b : Word) : Except Stop Word :=
  if b = 0 then .ok 0 else if a = intMin ∧ b = -1 then .error .trap else .ok (a.sdiv b)

def remainder (a b : Word) : Except Stop Word :=
  if b = 0 then .ok 0 else if a = intMin ∧ b = -1 then .error .trap else .ok (a.srem b)

def truth (b : Bool) : Word := if b then 1 else 0

/-- The binary operators that evaluate both sides; shift counts are masked as the
processor does. -/
@[simp] def BinOp.apply (op : BinOp) (a b : Word) : Except Stop Word :=
  match op with
  | .plus => .ok (a + b)
  | .minus => .ok (a - b)
  | .star => .ok (a * b)
  | .slash => divide a b
  | .pct => remainder a b
  | .eq => .ok (truth (a == b))
  | .neq => .ok (truth (a != b))
  | .lt => .ok (truth (a.slt b))
  | .gt => .ok (truth (b.slt a))
  | .le => .ok (truth (a.sle b))
  | .ge => .ok (truth (b.sle a))
  | .band => .ok (a &&& b)
  | .bor => .ok (a ||| b)
  | .bxor => .ok (a ^^^ b)
  | .shl => .ok (a <<< (b.toNat % 32))
  | .shr => .ok (a.sshiftRight (b.toNat % 32))
  | .and | .or => .ok 0

def AssignOp.apply (op : AssignOp) (old rv : Word) : Except Stop Word :=
  match op with
  | .set => .ok rv
  | .plus => .ok (old + rv)
  | .minus => .ok (old - rv)
  | .star => .ok (old * rv)
  | .slash => divide old rv

def UnOp.apply (op : UnOp) (a : Word) : Word :=
  match op with
  | .minus => -a
  | .not => truth (a == 0)

/-- The argument values, left to right. -/
def evalArgs (ev : Expr → ZState → Except Stop (Word × ZState)) :
    List Expr → ZState → Except Stop (List Word × ZState)
  | [], z => .ok ([], z)
  | e :: es, z => do
    let (v, z) ← ev e z
    let (vs, z) ← evalArgs ev es z
    .ok (v :: vs, z)

/-- The loop of printf over the string table from the format on; it reads its
arguments as their conversions come. -/
def printfFrom (p : Prog) (ev : Expr → ZState → Except Stop (Word × ZState)) :
    List UInt8 → List Expr → ZState → Except Stop ZState
  | [], _, z => .ok z
  | c :: s, args, z =>
    if c = 0 then .ok z
    else if c ≠ 37 then printfFrom p ev s args (z.print [c])
    else
      match s with
      | [] => do
        let (_, z) ← match args with | [] => .ok (0, z) | e :: _ => ev e z
        .ok (z.print (convText 0 0))
      | d :: s =>
        if d = 37 then printfFrom p ev s args (z.print [37])
        else if d = 115 then
          match args with
          | .str off :: rest => printfFrom p ev s rest (z.print (p.literal off))
          | _ => printfFrom p ev s args z
        else do
          let (v, z) ← match args with | [] => .ok (0, z) | e :: _ => ev e z
          printfFrom p ev s args.tail (z.print (convText d v))

/-- `call_function`; `run` evaluates a statement. -/
def callFunction (p : Prog) (run : Stmt → ZState → Except Stop ZState) (f : Name) (args : List Word) (z : ZState) :
    Except Stop (Word × ZState) :=
  if f = Name.print then
    match args with
    | [] => .ok (0, z)
    | a :: _ => .ok (0, z.print (emitInt a ++ [10]))
  else if f = Name.putchar then
    match args with
    | [] => .ok (0, z)
    | a :: _ => .ok (0, z.print [charOf a])
  else if f = Name.getchar then
    match z.keys with
    | [] => .error .waiting
    | k :: ks => .ok (k, { z with keys := ks })
  else if f = Name.puts then .ok (0, z)
  else
    match p.find f with
    | none => .ok (0, (z.err "undefined function").named "       (called: " f)
    | some fn =>
      if maxCall ≤ z.scopes.length then .ok (0, z.err "call too deep")
      else do
        let z ← run (.block fn.body) (z.enter (bindParams fn.params args))
        .ok (z.returnValue, z.leave)

/-- An init or post expression, if there is one. -/
def evalOptional (ev : Expr → ZState → Except Stop (Word × ZState)) : Option Expr → ZState → Except Stop ZState
  | none, z => .ok z
  | some e, z => do
    let (_, z) ← ev e z
    .ok z

/-- The condition of a for loop; without one the loop goes on. -/
def evalCond (ev : Expr → ZState → Except Stop (Word × ZState)) :
    Option Expr → ZState → Except Stop (Word × ZState)
  | none, z => .ok (1, z)
  | some e, z => ev e z

/-- The loop of a block. -/
def evalBlock (run : Stmt → ZState → Except Stop ZState) : List Stmt → ZState → Except Stop ZState
  | [], z => .ok z
  | s :: ss, z =>
    if z.hadReturn || z.hadBreak || z.hadContinue || z.hadError then .ok z
    else do
      let z ← run s z
      evalBlock run ss z

mutual

/-- `eval` on an expression. -/
def evalExpr (p : Prog) : Nat → Expr → ZState → Except Stop (Word × ZState)
  | 0, _, _ => .error .fuel
  | n + 1, e, z =>
    if z.hadError then .ok (0, z)
    else
      match e with
      | .num v => .ok (v, z)
      | .str off => .ok (BitVec.ofNat 32 off, z)
      | .var x =>
        match z.findVar x with
        | some v => .ok (v, z)
        | none => .ok (0, (z.err "undefined variable").named "       (" x)
      | .assign decl op x rhs => do
        let (rv, z) ← evalExpr p n rhs z
        match z.findVar x with
        | none =>
          if decl then .ok (rv, z.setLocal x rv)
          else .ok (rv, (z.err "assign to undefined variable").named "       (" x)
        | some old => do
          let v ← op.apply old rv
          .ok (v, z.putVar x v)
      | .bin op a b => do
        let (va, z) ← evalExpr p n a z
        if op = .and then
          if va = 0 then .ok (0, z)
          else do
            let (vb, z) ← evalExpr p n b z
            .ok (truth (vb != 0), z)
        else if op = .or then
          if va ≠ 0 then .ok (1, z)
          else do
            let (vb, z) ← evalExpr p n b z
            .ok (truth (vb != 0), z)
        else do
          let (vb, z) ← evalExpr p n b z
          let v ← op.apply va vb
          .ok (v, z)
      | .un op a => do
        let (va, z) ← evalExpr p n a z
        .ok (op.apply va, z)
      | .call f args =>
        if f = Name.puts then
          match args with
          | .str off :: _ => .ok (0, z.print (p.literal off ++ [10]))
          | _ => .ok (0, z.err "puts needs a string")
        else if f = Name.printf then
          match args with
          | .str off :: rest => do
            let z ← printfFrom p (evalExpr p n) (p.strtab.drop off) rest z
            .ok (0, z)
          | _ => .ok (0, z.err "printf needs a format string")
        else do
          let (vs, z) ← evalArgs (evalExpr p n) (args.take maxArgs) z
          callFunction p (evalStmt p n) f vs z

/-- `eval` on a statement. -/
def evalStmt (p : Prog) : Nat → Stmt → ZState → Except Stop ZState
  | 0, _, _ => .error .fuel
  | n + 1, s, z =>
    if z.hadError then .ok z
    else
      match s with
      | .expr e => do
        let (_, z) ← evalExpr p n e z
        .ok z
      | .ite cond then_ else_ => do
        let (v, z) ← evalExpr p n cond z
        if v ≠ 0 then evalStmt p n then_ z
        else
          match else_ with
          | none => .ok z
          | some s => evalStmt p n s z
      | .while cond body => do
        let z ← evalWhile p n cond body z
        .ok { z.note (.ended z.hadContinue) with hadBreak := false }
      | .for init cond post body => do
        let z ← evalOptional (evalExpr p n) init z
        let z ← evalFor p n cond post body z
        .ok { z with hadBreak := false }
      | .block ss => evalBlock (evalStmt p n) ss z
      | .ret e =>
        match e with
        | none => .ok { z with hadReturn := true }
        | some e => do
          let (v, z) ← evalExpr p n e z
          .ok { z.note (.returned z.scopes.length v) with returnValue := v, hadReturn := true }
      | .brk => .ok { z with hadBreak := true }
      | .cont => .ok { z with hadContinue := true }

/-- The loop of `N_WHILE`. -/
def evalWhile (p : Prog) : Nat → Expr → Stmt → ZState → Except Stop ZState
  | 0, _, _, _ => .error .fuel
  | n + 1, cond, body, z =>
    if z.hadReturn || z.hadBreak || z.hadError then .ok z
    else do
      let (v, z) ← evalExpr p n cond z
      if v = 0 then .ok z
      else do
        let z ← evalStmt p n body { z with hadContinue := false }
        evalWhile p n cond body z

/-- The loop of `N_FOR`: the post expression is evaluated after every round, however
the body ended. -/
def evalFor (p : Prog) : Nat → Option Expr → Option Expr → Stmt → ZState → Except Stop ZState
  | 0, _, _, _, _ => .error .fuel
  | n + 1, cond, post, body, z =>
    if z.hadReturn || z.hadBreak || z.hadError then .ok z
    else do
      let (v, z) ← evalCond (evalExpr p n) cond z
      if v = 0 then .ok z
      else do
        let z ← evalStmt p n body { z with hadContinue := false }
        let z ← evalOptional (evalExpr p n) post { z with hadContinue := false }
        evalFor p n cond post body z

end

/-- The state in which zbc_run calls main. -/
def ZState.start (keys : List Word) : ZState := ⟨[], false, false, false, false, 0, [], keys, []⟩

/-- The last step of zbc_run. -/
def runMain (p : Prog) (fuel : Nat) (keys : List Word) : Except Stop (Word × ZState) :=
  callFunction p (evalStmt p fuel) Name.main [] (ZState.start keys)

end Zenbite.Zbc
