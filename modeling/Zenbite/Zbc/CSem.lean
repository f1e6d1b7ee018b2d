import Zenbite.Zbc.Ast

/-! The C meaning of a program tree, as a big-step semantics: statements end
normally or by break, continue or return. What C leaves undefined has no result. A
strict run has none either where it comes to something that the evaluator does not do
as C does. -/

namespace Zenbite.Zbc

/-- The variables of the current call, and the keys still to be pressed. As no name
is declared twice in a function, its blocks share one scope. -/
structure CState where
  frame : Scope
  keys : List Word
  deriving DecidableEq

inductive Flow where
  | normal | brk | cont
  | ret (v : Option Word)
  deriving DecidableEq

/-- How a run is watched: whether it is strict, how many calls are active, and
whether functions may be called. -/
structure Mode where
  strict : Bool
  depth : Nat
  calls : Bool

/-- A result, the state it leaves, and the output on the way. -/
abbrev Out (α : Type) := α × CState × List UInt8

/-- A value that an int can hold. -/
def fit (v : Int) : Option Word := if -2 ^ 31 ≤ v ∧ v < 2 ^ 31 then some (BitVec.ofInt 32 v) else none

def cTruth (b : Prop) [Decidable b] : Option Word := some (if b then 1 else 0)

/-- The binary operators that evaluate both sides. -/
@[simp] def BinOp.meaning (op : BinOp) (a b : Word) : Option Word :=
  match op with
  | .plus => fit (a.toInt + b.toInt)
  | .minus => fit (a.toInt - b.toInt)
  | .star => fit (a.toInt * b.toInt)
  | .slash => if b = 0 then none else fit (a.toInt.tdiv b.toInt)
  | .pct => if b = 0 then none else (fit (a.toInt.tdiv b.toInt)).bind fun _ => fit (a.toInt.tmod b.toInt)
  | .eq => cTruth (a.toInt = b.toInt)
  | .neq => cTruth (a.toInt ≠ b.toInt)
  | .lt => cTruth (a.toInt < b.toInt)
  | .gt => cTruth (b.toInt < a.toInt)
  | .le => cTruth (a.toInt ≤ b.toInt)
  | .ge => cTruth (b.toInt ≤ a.toInt)
  | .band => some (a &&& b)
  | .bor => some (a ||| b)
  | .bxor => some (a ^^^ b)
  | .shl => if a.toInt < 0 ∨ b.toInt < 0 ∨ 32 ≤ b.toInt then none else fit (a.toInt * 2 ^ b.toNat)
  | .shr => if b.toInt < 0 ∨ 32 ≤ b.toInt then none else fit (a.toInt / 2 ^ b.toNat)
  | .and | .or => none

def AssignOp.meaning (op : AssignOp) (old rv : Word) : Option Word :=
  match op with
  | .set => some rv
  | .plus => BinOp.plus.meaning old rv
  | .minus => BinOp.minus.meaning old rv
  | .star => BinOp.star.meaning old rv
  | .slash => BinOp.slash.meaning old rv

def UnOp.meaning (op : UnOp) (a : Word) : Option Word :=
  match op with
  | .minus => fit (-a.toInt)
  | .not => cTruth (a = 0)

/-- The conversions that take an int. -/
def isIntConv (d : UInt8) : Prop := d = 100 ∨ d = 105 ∨ d = 117 ∨ d = 120 ∨ d = 99

instance : DecidablePred isIntConv := fun d =>
  inferInstanceAs (Decidable (d = 100 ∨ d = 105 ∨ d = 117 ∨ d = 120 ∨ d = 99))

section Args
variable (p : Prog) (m : Mode) (ev : Expr → CState → Option (Out (Option Word)))

/-- An expression whose value is used. -/
def cValue (e : Expr) (σ : CState) : Option (Out Word) := do
  let (v, σ, o) ← ev e σ
  let v ← v
  some (v, σ, o)

/-- Arguments, left to right. -/
def cArgs : List Expr → CState → Option (Out (List Word))
  | [], σ => some ([], σ, [])
  | e :: es, σ => do
    let (v, σ, o) ← cValue ev e σ
    let (vs, σ, o') ← cArgs es σ
    some (v :: vs, σ, o ++ o')

/-- An init or post expression, if there is one. -/
def cOptional : Option Expr → CState → Option (Out (Option Word))
  | none, σ => some (none, σ, [])
  | some e, σ => ev e σ

/-- The condition of a for loop; without one the loop goes on. -/
def cCond : Option Expr → CState → Option (Out Word)
  | none, σ => some (1, σ, [])
  | some e, σ => cValue ev e σ

/-- The arguments that no conversion takes. -/
def cUnused : List Expr → CState → Option (Out Unit)
  | [], σ => some ((), σ, [])
  | .str _ :: rest, σ => cUnused rest σ
  | e :: rest, σ => do
    let (_, σ, o) ← cValue ev e σ
    let (_, σ, o') ← cUnused rest σ
    some ((), σ, o ++ o')

/-- printf evaluates all its arguments before it prints: the arguments' output comes
first, the text last. A strict run does not let an argument print behind text, and
leaves no argument over. -/
def cPrintf : List UInt8 → List Expr → CState → List UInt8 → Option (Out (List UInt8))
  | [], args, σ, text =>
    if m.strict ∧ args ≠ [] then none
    else do
      let (_, σ, o) ← cUnused ev args σ
      some (text, σ, o)
  | c :: s, args, σ, text =>
    if c ≠ 37 then cPrintf s args σ (text ++ [c])
    else
      match s with
      | [] => none
      | d :: s =>
        if d = 37 then cPrintf s args σ (text ++ [37])
        else if d = 115 then
          match args with
          | .str off :: rest => cPrintf s rest σ (text ++ p.literal off)
          | _ => none
        else
          match args with
          | [] => none
          | e :: rest => do
            let (v, σ, o) ← if isIntConv d then cValue ev e σ else none
            let (text, σ, o') ←
              if m.strict ∧ text ≠ [] ∧ o ≠ [] then none else cPrintf s rest σ (text ++ convText d v)
            some (text, σ, o ++ o')

/-- The functions of the run time, which return nothing but for getchar. -/
def cBuiltin (f : Name) (args : List Word) (σ : CState) : Option (Out (Option Word)) :=
  match args with
  | [a] =>
    if f = Name.print then some (none, σ, emitInt a ++ [10])
    else if f = Name.putchar then some (none, σ, [charOf a])
    else none
  | [] =>
    if f = Name.getchar then
      match σ.keys with
      | [] => none
      | k :: ks => some (some k, { σ with keys := ks }, [])
    else none
  | _ => none

/-- A function's body runs in a scope of its own; `run` runs a statement. -/
def cFunction (run : Mode → Stmt → CState → Option (Out Flow)) (f : Name) (args : List Word) (σ : CState) :
    Option (Out (Option Word)) := do
  let fn ← p.find f
  if args.length ≠ fn.params.length ∨ m.calls = false ∨ m.strict ∧ 8 ≤ m.depth then none
  else
    let (flow, σ', o) ← run { m with depth := m.depth + 1 } (.block fn.body) ⟨bindParams fn.params args, σ.keys⟩
    match flow with
    | .normal => some (none, { σ with keys := σ'.keys }, o)
    | .ret v => some (v, { σ with keys := σ'.keys }, o)
    | .brk | .cont => none

end Args

/-- Statements one after the other, until one does not end normally. -/
def cBlock (run : Stmt → CState → Option (Out Flow)) : List Stmt → CState → Option (Out Flow)
  | [], σ => some (.normal, σ, [])
  | s :: ss, σ => do
    let (flow, σ, o) ← run s σ
    if flow = .normal then
      let (flow, σ, o') ← cBlock run ss σ
      some (flow, σ, o ++ o')
    else some (flow, σ, o)

mutual

/-- The value of an expression, if it has one. -/
def cExpr (p : Prog) : Nat → Mode → Expr → CState → Option (Out (Option Word))
  | 0, _, _, _ => none
  | n + 1, m, e, σ =>
    match e with
    | .num v => some (some v, σ, [])
    | .str _ => none
    | .var x => do
      let v ← σ.frame.find x
      some (some v, σ, [])
    | .assign decl op x rhs => do
      let (rv, σ, o) ← cValue (cExpr p n m) rhs σ
      match σ.frame.find x with
      | none =>
        if decl = false ∨ m.strict ∧ 32 ≤ σ.frame.length then none
        else some (some rv, { σ with frame := (x, rv) :: σ.frame }, o)
      | some old => do
        let v ← op.meaning old rv
        some (some v, { σ with frame := σ.frame.put x v }, o)
    | .bin op a b => do
      let (va, σ, o) ← cValue (cExpr p n m) a σ
      if op = .and ∧ va = 0 then some (some 0, σ, o)
      else if op = .or ∧ va ≠ 0 then some (some 1, σ, o)
      else do
        let (vb, σ, o') ← cValue (cExpr p n m) b σ
        let v ← if op = .and ∨ op = .or then cTruth (vb ≠ 0) else op.meaning va vb
        some (some v, σ, o ++ o')
    | .un op a => do
      let (va, σ, o) ← cValue (cExpr p n m) a σ
      let v ← op.meaning va
      some (some v, σ, o)
    | .call f args =>
      if f = Name.puts then
        match args with
        | [.str off] => some (none, σ, p.literal off ++ [10])
        | _ => none
      else if f = Name.printf then
        match args with
        | .str off :: rest => do
          let (text, σ, o) ← cPrintf p m (cExpr p n m) (p.literal off) rest σ []
          some (none, σ, o ++ text)
        | _ => none
      else do
        let (vs, σ, o) ← cArgs (cExpr p n m) args σ
        let (v, σ, o') ← if isBuiltin f then cBuiltin f vs σ else cFunction p m (cStmt p n) f vs σ
        some (v, σ, o ++ o')

/-- How a statement ends. -/
def cStmt (p : Prog) : Nat → Mode → Stmt → CState → Option (Out Flow)
  | 0, _, _, _ => none
  | n + 1, m, s, σ =>
    match s with
    | .expr e => do
      let (_, σ, o) ← cExpr p n m e σ
      some (.normal, σ, o)
    | .ite cond then_ else_ => do
      let (v, σ, o) ← cValue (cExpr p n m) cond σ
      let (flow, σ, o') ←
        if v ≠ 0 then cStmt p n m then_ σ
        else
          match else_ with
          | none => some (.normal, σ, [])
          | some s => cStmt p n m s σ
      some (flow, σ, o ++ o')
    | .while cond body => cWhile p n m false cond body σ
    | .for init cond post body => do
      let (_, σ, o) ← cOptional (cExpr p n m) init σ
      let (flow, σ, o') ← cFor p n m cond post body σ
      some (flow, σ, o ++ o')
    | .block ss => cBlock (cStmt p n m) ss σ
    | .ret none => some (.ret none, σ, [])
    | .ret (some e) => do
      let (v, σ, o) ← cValue (cExpr p n m) e σ
      some (.ret (some v), σ, o)
    | .brk => some (.brk, σ, [])
    | .cont => some (.cont, σ, [])

/-- A while loop; `again` says that the last round ended by continue. Then a strict run
neither calls a function in the condition nor ends the loop there. -/
def cWhile (p : Prog) : Nat → Mode → Bool → Expr → Stmt → CState → Option (Out Flow)
  | 0, _, _, _, _, _ => none
  | n + 1, m, again, cond, body, σ => do
    let (v, σ, o) ← cValue (cExpr p n { m with calls := m.calls && !(m.strict && again) }) cond σ
    if v = 0 then if m.strict ∧ again then none else some (.normal, σ, o)
    else
      let (flow, σ, o') ← cStmt p n m body σ
      match flow with
      | .brk => some (.normal, σ, o ++ o')
      | .ret v => some (.ret v, σ, o ++ o')
      | .normal => do
        let (flow, σ, o'') ← cWhile p n m false cond body σ
        some (flow, σ, o ++ (o' ++ o''))
      | .cont => do
        let (flow, σ, o'') ← cWhile p n m true cond body σ
        some (flow, σ, o ++ (o' ++ o''))

/-- A for loop; the post expression follows a round that ends normally or by continue.
A strict run does not leave a loop with a post expression by break or return. -/
def cFor (p : Prog) : Nat → Mode → Option Expr → Option Expr → Stmt → CState → Option (Out Flow)
  | 0, _, _, _, _, _ => none
  | n + 1, m, cond, post, body, σ => do
    let (v, σ, o) ← cCond (cExpr p n m) cond σ
    if v = 0 then some (.normal, σ, o)
    else
      let (flow, σ, o') ← cStmt p n m body σ
      match flow with
      | .brk => if m.strict ∧ post.isSome then none else some (.normal, σ, o ++ o')
      | .ret v => if m.strict ∧ post.isSome then none else some (.ret v, σ, o ++ o')
      | .normal | .cont => do
        let (_, σ, o'') ← cOptional (cExpr p n m) post σ
        let (flow, σ, o₃) ← cFor p n m cond post body σ
        some (flow, σ, o ++ (o' ++ (o'' ++ o₃)))

end

end Zenbite.Zbc
