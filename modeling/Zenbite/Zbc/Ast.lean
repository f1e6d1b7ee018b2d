import Mathlib.Data.List.Basic
import Mathlib.Algebra.Ring.Int.Defs
import Mathlib.Tactic.Common

/-! Programs as the parser of zbc.c leaves them, and what printing makes of numbers. -/

namespace Zenbite.Zbc

abbrev Word := BitVec 32

abbrev Name := List UInt8

def Name.print : Name := [112, 114, 105, 110, 116]
def Name.putchar : Name := [112, 117, 116, 99, 104, 97, 114]
def Name.getchar : Name := [103, 101, 116, 99, 104, 97, 114]
def Name.puts : Name := [112, 117, 116, 115]
def Name.printf : Name := [112, 114, 105, 110, 116, 102]
def Name.main : Name := [109, 97, 105, 110]

/-- The functions of the run time that call_function knows. -/
def isBuiltin (f : Name) : Prop := f = Name.print ∨ f = Name.putchar ∨ f = Name.getchar

instance : DecidablePred isBuiltin := fun f =>
  inferInstanceAs (Decidable (f = Name.print ∨ f = Name.putchar ∨ f = Name.getchar))

/-- `T_ASSIGN`, `T_PLUSEQ`, `T_MINUSEQ`, `T_STAREQ`, `T_SLASHEQ`. -/
inductive AssignOp where
  | set | plus | minus | star | slash
  deriving DecidableEq

inductive BinOp where
  | plus | minus | star | slash | pct | eq | neq | lt | gt | le | ge
  | and | or | band | bor | bxor | shl | shr
  deriving DecidableEq

inductive UnOp where
  | minus | not
  deriving DecidableEq

/-- Expression nodes. A string is its offset in the string table; an assignment is a
declaration when `lhs->ival` is 1. -/
inductive Expr where
  | num (v : Word)
  | str (off : Nat)
  | var (x : Name)
  | assign (decl : Bool) (op : AssignOp) (x : Name) (rhs : Expr)
  | bin (op : BinOp) (a b : Expr)
  | un (op : UnOp) (a : Expr)
  | call (f : Name) (args : List Expr)

/-- Statement nodes. -/
inductive Stmt where
  | expr (e : Expr)
  | ite (cond : Expr) (then_ : Stmt) (else_ : Option Stmt)
  | while (cond : Expr) (body : Stmt)
  | for (init cond post : Option Expr) (body : Stmt)
  | block (ss : List Stmt)
  | ret (e : Option Expr)
  | brk
  | cont

/-- `struct func`; the parser keeps at most eight parameters. -/
structure Func where
  name : Name
  params : List Name
  body : List Stmt
  few : params.length ≤ 8

structure Prog where
  funcs : List Func
  strtab : List UInt8

/-- The first function of that name. -/
def Prog.find (p : Prog) (f : Name) : Option Func := p.funcs.find? (·.name = f)

/-- The literal at an offset, up to its NUL. -/
def Prog.literal (p : Prog) (off : Nat) : List UInt8 := (p.strtab.drop off).takeWhile (· ≠ 0)

/-- The variables of one call, latest first. -/
abbrev Scope := List (Name × Word)

def Scope.find (s : Scope) (x : Name) : Option Word := (List.find? (·.1 = x) s).map (·.2)

/-- The variable that find returns gets a new value. -/
def Scope.put (x : Name) (v : Word) : Scope → Scope
  | [] => []
  | y :: s => if y.1 = x then (x, v) :: s else y :: Scope.put x v s

/-- The parameters of a call as its first variables. -/
def bindParams (params : List Name) (args : List Word) : Scope := (params.zip args).reverse

/-- Digits of a number in a base up to 16, `emit_uint`. -/
def emitUint (base v : Nat) : List UInt8 :=
  (Nat.toDigits base v).map fun c => c.toNat.toUInt8

/-- `%d`. -/
def emitInt (v : Word) : List UInt8 :=
  if v.toInt < 0 then 45 :: emitUint 10 (-v).toNat else emitUint 10 v.toNat

/-- The byte that kputc gets from an int. -/
def charOf (v : Word) : UInt8 := UInt8.ofNat v.toNat

/-- What a conversion other than `%s` and `%%` prints. -/
def convText (d : UInt8) (v : Word) : List UInt8 :=
  if d = 100 ∨ d = 105 then emitInt v
  else if d = 117 then emitUint 10 v.toNat
  else if d = 120 then emitUint 16 v.toNat
  else if d = 99 then [charOf v]
  else [37, d]

end Zenbite.Zbc
