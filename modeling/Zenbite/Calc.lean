import Mathlib.Tactic.Common
import Zenbite.CString

/-! The evaluator of the Mini-Calc window (desktop.c), and the expressions that it is for. -/

namespace Zenbite.Calc

/-- Where an evaluation stops: at a divide fault, or, in the model only, for want of fuel. -/
inductive Stop where
  | divideFault
  | fuel
  deriving DecidableEq

/-- A value, and the text that `g_calc_p` is at behind it. -/
abbrev Read := Except Stop (Int × List UInt8)

def intMin : Int := -2 ^ 31

/-- `a / b` of the machine. -/
def machineDiv (a b : Int) : Except Stop Int :=
  if b = 0 ∨ a = intMin ∧ b = -1 then .error .divideFault else .ok (a.tdiv b)

/-- The digits of calc_atom. -/
def number : Int → List UInt8 → Int × List UInt8
  | v, [] => (v, [])
  | v, c :: rest => if 48 ≤ c ∧ c ≤ 57 then number (wrapInt (v * 10 + (c.toNat - 48))) rest else (v, c :: rest)

/-- The loop of calc_term and calc_expr: while `apply` takes the next character for an operator,
an operand follows it. -/
def chain (operand : List UInt8 → Read) (apply : UInt8 → Option (Int → Int → Except Stop Int)) :
    Nat → Int → List UInt8 → Read
  | 0, _, _ => .error .fuel
  | fuel + 1, v, s =>
    (s.head?.bind apply).elim (.ok (v, s)) fun op => do
      let rhs ← operand s.tail
      let v ← op v rhs.1
      chain operand apply fuel v rhs.2

/-- `*` and `/` in calc_term. -/
def termOp (c : UInt8) : Option (Int → Int → Except Stop Int) :=
  if c = 42 then some fun v rhs => .ok (wrapInt (v * rhs))
  else if c = 47 then some fun v rhs => if rhs ≠ 0 then machineDiv v rhs else .ok 0
  else none

/-- `+` and `-` in calc_expr. -/
def exprOp (c : UInt8) : Option (Int → Int → Except Stop Int) :=
  if c = 43 then some fun v rhs => .ok (wrapInt (v + rhs))
  else if c = 45 then some fun v rhs => .ok (wrapInt (v - rhs))
  else none

/-- `calc_term`, over calc_atom. -/
def termOf (atom : List UInt8 → Read) (fuel : Nat) (s : List UInt8) : Read := do
  let v ← atom s
  chain atom termOp fuel v.1 v.2

/-- `calc_expr`, over calc_atom. -/
def exprOf (atom : List UInt8 → Read) (fuel : Nat) (s : List UInt8) : Read := do
  let v ← termOf atom fuel s
  chain (termOf atom fuel) exprOp fuel v.1 v.2

/-- calc_atom behind the blanks. -/
def atomAt (expr : List UInt8 → Read) (s : List UInt8) : Read :=
  if s.head? = some 40 then do
    let v ← expr s.tail
    .ok (v.1, if v.2.head? = some 41 then v.2.tail else v.2)
  else if s.head? = some 45 then .ok (wrapInt (-1 * (number 0 s.tail).1), (number 0 s.tail).2)
  else .ok (wrapInt (1 * (number 0 s).1), (number 0 s).2)

/-- `calc_atom` -/
def calcAtom : Nat → List UInt8 → Read
  | 0, _ => .error .fuel
  | fuel + 1, s => atomAt (exprOf (calcAtom fuel) fuel) (s.dropWhile (· = 32))

/-- `calc_expr` on a text, with as much fuel as it may take. -/
def calcExpr (s : List UInt8) : Read := exprOf (calcAtom (s.length + 1)) (s.length + 1) s

/-! Expressions with the blanks between their tokens. Operators group to the left. -/

inductive Level where
  | factor
  | term
  | sum

inductive MulOp where
  | mul
  | div
  deriving DecidableEq

inductive AddOp where
  | add
  | sub
  deriving DecidableEq

inductive Syn : Level → Type where
  | num (d : Fin 10) (ds : List (Fin 10)) : Syn .factor
  | neg (gap : Nat) (e : Syn .factor) : Syn .factor
  | paren (before : Nat) (e : Syn .sum) (after : Nat) : Syn .factor
  | ofFactor (e : Syn .factor) : Syn .term
  | times (l : Syn .term) (before : Nat) (op : MulOp) (after : Nat) (r : Syn .factor) : Syn .term
  | ofTerm (e : Syn .term) : Syn .sum
  | plus (l : Syn .sum) (before : Nat) (op : AddOp) (after : Nat) (r : Syn .term) : Syn .sum

def blanks (n : Nat) : List UInt8 := List.replicate n 32

def digit (d : Fin 10) : UInt8 := UInt8.ofNat (48 + d.val)

def MulOp.char : MulOp → UInt8
  | .mul => 42
  | .div => 47

def AddOp.char : AddOp → UInt8
  | .add => 43
  | .sub => 45

/-- 32-bit arithmetic, where a quotient by zero is zero. -/
def MulOp.value (a b : Int) : MulOp → Int
  | .mul => wrapInt (a * b)
  | .div => if b = 0 then 0 else wrapInt (a.tdiv b)

def AddOp.value (a b : Int) : AddOp → Int
  | .add => wrapInt (a + b)
  | .sub => wrapInt (a - b)

def decimal (ds : List (Fin 10)) : Int := ds.foldl (fun v d => v * 10 + d.val) 0

namespace Syn

@[simp] def text {l : Level} : Syn l → List UInt8
  | .num d ds => (d :: ds).map digit
  | .neg gap e => 45 :: (blanks gap ++ e.text)
  | .paren before e after => 40 :: (blanks before ++ e.text ++ blanks after ++ [41])
  | .ofFactor e => e.text
  | .times l before op after r => l.text ++ blanks before ++ op.char :: (blanks after ++ r.text)
  | .ofTerm e => e.text
  | .plus l before op after r => l.text ++ blanks before ++ op.char :: (blanks after ++ r.text)

@[simp] def value {l : Level} : Syn l → Int
  | .num d ds => wrapInt (decimal (d :: ds))
  | .neg _ e => wrapInt (-e.value)
  | .paren _ e _ => e.value
  | .ofFactor e => e.value
  | .times l _ op _ r => op.value l.value r.value
  | .ofTerm e => e.value
  | .plus l _ op _ r => op.value l.value r.value

/-- Nowhere is -2147483648 divided by -1. -/
@[simp] def Divides {l : Level} : Syn l → Prop
  | .num _ _ => True
  | .neg _ e => e.Divides
  | .paren _ e _ => e.Divides
  | .ofFactor e => e.Divides
  | .times l _ op _ r => (l.Divides ∧ r.Divides) ∧ ¬ (op = .div ∧ l.value = intMin ∧ r.value = -1)
  | .ofTerm e => e.Divides
  | .plus l _ _ _ r => l.Divides ∧ r.Divides

def IsNum {l : Level} : Syn l → Prop
  | .num _ _ => True
  | _ => False

/-- No blank is before an operator, and none before a closing parenthesis unless only such and
blanks are behind it (`closed`); a unary minus is directly before a digit. -/
@[simp] def Tight {l : Level} : Syn l → Bool → Prop
  | .num _ _, _ => True
  | .neg gap e, _ => gap = 0 ∧ e.IsNum
  | .paren _ e after, closed => e.Tight closed ∧ (after = 0 ∨ closed = true)
  | .ofFactor e, closed => e.Tight closed
  | .times l before _ _ r, closed => before = 0 ∧ l.Tight false ∧ r.Tight closed
  | .ofTerm e, closed => e.Tight closed
  | .plus l before _ _ r, closed => before = 0 ∧ l.Tight false ∧ r.Tight closed

instance decidableDivides {l : Level} : (e : Syn l) → Decidable e.Divides
  | .num _ _ => isTrue trivial
  | .neg _ e => decidableDivides e
  | .paren _ e _ => decidableDivides e
  | .ofFactor e => decidableDivides e
  | .times l _ _ _ r =>
    have := decidableDivides l
    have := decidableDivides r
    instDecidableAnd
  | .ofTerm e => decidableDivides e
  | .plus l _ _ _ r =>
    have := decidableDivides l
    have := decidableDivides r
    instDecidableAnd

instance decidableIsNum {l : Level} : (e : Syn l) → Decidable e.IsNum
  | .num _ _ => isTrue trivial
  | .neg _ _ | .paren _ _ _ | .ofFactor _ | .times _ _ _ _ _ | .ofTerm _ | .plus _ _ _ _ _ => isFalse id

instance decidableTight {l : Level} : (e : Syn l) → (closed : Bool) → Decidable (e.Tight closed)
  | .num _ _, _ => isTrue trivial
  | .neg _ _, _ => instDecidableAnd
  | .paren _ e _, closed =>
    have := decidableTight e closed
    instDecidableAnd
  | .ofFactor e, closed => decidableTight e closed
  | .times l _ _ _ r, closed =>
    have := decidableTight l false
    have := decidableTight r closed
    instDecidableAnd
  | .ofTerm e, closed => decidableTight e closed
  | .plus l _ _ _ r, closed =>
    have := decidableTight l false
    have := decidableTight r closed
    instDecidableAnd

end Syn

/-- `calc_expr` returns the value of an expression, for any blanks around it. -/
def Right (lead trail : Nat) (e : Syn .sum) : Prop :=
  (calcExpr (blanks lead ++ e.text ++ blanks trail)).map Prod.fst = .ok e.value

end Zenbite.Calc
