import Zenbite.Zbc.Parser

/-! Expressions as token sequences and as nodes. The sequences have the parentheses that C
asks for, and more wherever one likes. -/

namespace Zenbite.Zbc

def BinOp.token : BinOp → TokenKind
  | .plus => .plus | .minus => .minus | .star => .star | .slash => .slash | .pct => .pct
  | .eq => .eq | .neq => .neq | .lt => .lt | .gt => .gt | .le => .le | .ge => .ge
  | .and => .and | .or => .or | .band => .band | .bor => .bor | .bxor => .bxor
  | .shl => .shl | .shr => .shr

def AssignOp.token : AssignOp → TokenKind
  | .set => .assign | .plus => .plusEq | .minus => .minusEq | .star => .starEq | .slash => .slashEq

def UnOp.token : UnOp → TokenKind
  | .minus => .minus | .not => .not

/-- How tightly C binds an operator, from 1 for `||` to 10 for `*`. -/
def BinOp.prec : BinOp → Nat
  | .or => 1 | .and => 2 | .bor => 3 | .bxor => 4 | .band => 5
  | .eq => 6 | .neq => 6 | .lt => 7 | .gt => 7 | .le => 7 | .ge => 7
  | .shl => 8 | .shr => 8 | .plus => 9 | .minus => 9 | .star => 10 | .slash => 10 | .pct => 10

/-- How tightly an expression binds as a whole. -/
def Expr.level : Expr → Nat
  | .assign .. => 0
  | .bin op _ _ => op.prec
  | _ => 11

/-- Case by case, with every argument of a call at once. -/
theorem Expr.induct {P : Expr → Prop} (num : ∀ v, P (.num v)) (str : ∀ off, P (.str off)) (var : ∀ x, P (.var x))
    (assign : ∀ decl op x rhs, P rhs → P (.assign decl op x rhs))
    (bin : ∀ op a b, P a → P b → P (.bin op a b)) (un : ∀ op a, P a → P (.un op a))
    (call : ∀ f args, (∀ e ∈ args, P e) → P (.call f args)) (e : Expr) : P e :=
  @Expr.rec P (fun args => ∀ e ∈ args, P e) num str var assign bin un call
    (fun _ member => absurd member List.not_mem_nil)
    (fun _ _ head tail => List.forall_mem_cons.mpr ⟨head, tail⟩) e

/-- The trees of the language: a declaration is a statement, and a name fits its array. -/
inductive Expr.Plain : Expr → Prop where
  | num {v : Word} : Expr.Plain (.num v)
  | str {off : Nat} : Expr.Plain (.str off)
  | var {x : Name} (fits : x.length ≤ 31) : Expr.Plain (.var x)
  | assign {op : AssignOp} {x : Name} {rhs : Expr} (fits : x.length ≤ 31) (value : Expr.Plain rhs) :
      Expr.Plain (.assign false op x rhs)
  | bin {op : BinOp} {a b : Expr} (left : Expr.Plain a) (right : Expr.Plain b) : Expr.Plain (.bin op a b)
  | un {op : UnOp} {a : Expr} (operand : Expr.Plain a) : Expr.Plain (.un op a)
  | call {f : Name} {args : List Expr} (fits : f.length ≤ 31) (each : ∀ e ∈ args, Expr.Plain e) :
      Expr.Plain (.call f args)

section Tokens

def Token.int (v : Word) : Token := { Token.plain .int with ival := v }

def Token.str (off : Nat) : Token := { Token.plain .str with strOff := off }

def Token.ident (x : Name) : Token := { Token.plain .ident with sval := x }

def wrapIf (c : Bool) (ts : List Token) : List Token :=
  if c then Token.plain .lpar :: (ts ++ [Token.plain .rpar]) else ts

variable (extra : Expr → Bool)

/-- What stands for `e`, whose tokens are `ts`, where level `k` is asked for: in parentheses
when it binds less, and when `extra` says so. -/
def inPlace (k : Nat) (e : Expr) (ts : List Token) : List Token := wrapIf (extra e || decide (e.level < k)) ts

mutual

/-- An expression without parentheses around it. Binary operators group to the left, and
assignment to the right. -/
def Expr.tokens : Expr → List Token
  | .num v => [Token.int v]
  | .str off => [Token.str off]
  | .var x => [Token.ident x]
  | .assign _ op x rhs =>
    inPlace extra 11 (.var x) [Token.ident x] ++ Token.plain op.token :: inPlace extra 0 rhs rhs.tokens
  | .bin op a b =>
    inPlace extra op.prec a a.tokens ++ Token.plain op.token :: inPlace extra (op.prec + 1) b b.tokens
  | .un op a => Token.plain op.token :: inPlace extra 11 a a.tokens
  | .call f args => Token.ident f :: Token.plain .lpar :: (argTokens args ++ [Token.plain .rpar])

/-- The arguments, and the commas between them. -/
def argTokens : List Expr → List Token
  | [] => []
  | e :: es => inPlace extra 0 e e.tokens ++ moreTokens es

def moreTokens : List Expr → List Token
  | [] => []
  | e :: es => Token.plain .comma :: (inPlace extra 0 e e.tokens ++ moreTokens es)

end

def Expr.print (k : Nat) (e : Expr) : List Token := inPlace extra k e (e.tokens extra)

end Tokens

/-- No parentheses but those that are needed. -/
def minimal (_ : Expr) : Bool := false

/-- Parentheses around everything that is no token. -/
def full : Expr → Bool
  | .num _ => false
  | .str _ => false
  | .var _ => false
  | _ => true

/-- `a-(b-c)*-d` and `x=y+=f(1,2)`. -/
example : ((Expr.bin .minus (.var [97]) (.bin .star (.bin .minus (.var [98]) (.var [99])) (.un .minus (.var [100])))).print
      minimal 0).map (·.kind) =
    [.ident, .minus, .lpar, .ident, .minus, .ident, .rpar, .star, .minus, .ident] := by decide +kernel

example : ((Expr.assign false .set [120] (.assign false .plus [121] (.call [102] [.num 1, .num 2]))).print
      minimal 0).map (·.kind) =
    [.ident, .assign, .ident, .plusEq, .ident, .lpar, .int, .comma, .int, .rpar] := by decide +kernel

section Nodes
variable (nodes : List Node)

mutual

/-- The tree that evaluation meets at a node. -/
inductive Reads : Nat → Expr → Prop where
  | num {i : Nat} {d : Node} (at_ : nodes[i]? = some d) (kind : d.kind = .num) : Reads i (.num d.ival)
  | str {i : Nat} {d : Node} (at_ : nodes[i]? = some d) (kind : d.kind = .str) : Reads i (.str d.strOff)
  | var {i : Nat} {d : Node} (at_ : nodes[i]? = some d) (kind : d.kind = .var) : Reads i (.var d.name)
  | assign {i v r : Nat} {d x : Node} {op : AssignOp} {rhs : Expr} (at_ : nodes[i]? = some d)
      (kind : d.kind = .assign) (operator : d.op = op.token) (left : d.child0 = some v) (var : nodes[v]? = some x)
      (varKind : x.kind = .var) (right : d.child1 = some r) (value : Reads r rhs) :
      Reads i (.assign (decide (x.ival = 1)) op x.name rhs)
  | bin {i l r : Nat} {d : Node} {op : BinOp} {a b : Expr} (at_ : nodes[i]? = some d) (kind : d.kind = .bin)
      (operator : d.op = op.token) (left : d.child0 = some l) (leftTree : Reads l a) (right : d.child1 = some r)
      (rightTree : Reads r b) : Reads i (.bin op a b)
  | un {i j : Nat} {d : Node} {op : UnOp} {a : Expr} (at_ : nodes[i]? = some d) (kind : d.kind = .un)
      (operator : d.op = op.token) (child : d.child0 = some j) (operand : Reads j a) : Reads i (.un op a)
  | call {i : Nat} {d : Node} {args : List Expr} (at_ : nodes[i]? = some d) (kind : d.kind = .call)
      (count : d.ival = BitVec.ofNat 32 args.length) (chain : ReadsArgs d.child0 args) : Reads i (.call d.name args)

/-- The arguments along `next`. -/
inductive ReadsArgs : Option Nat → List Expr → Prop where
  | nil : ReadsArgs none []
  | cons {i : Nat} {d : Node} {e : Expr} {es : List Expr} (at_ : nodes[i]? = some d) (tree : Reads i e)
      (rest : ReadsArgs d.next es) : ReadsArgs (some i) (e :: es)

end

end Nodes

section Unique
variable {nodes : List Node}

theorem BinOp.token_inj {op op' : BinOp} (same : op.token = op'.token) : op = op' := by
  cases op <;> cases op' <;> first | rfl | cases same

theorem AssignOp.token_inj {op op' : AssignOp} (same : op.token = op'.token) : op = op' := by
  cases op <;> cases op' <;> first | rfl | cases same

theorem UnOp.token_inj {op op' : UnOp} (same : op.token = op'.token) : op = op' := by
  cases op <;> cases op' <;> first | rfl | cases same

theorem ReadsArgs.unique {args : List Expr} (each : ∀ e ∈ args, ∀ i e', Reads nodes i e → Reads nodes i e' → e = e') :
    ∀ {first : Option Nat} {args' : List Expr}, ReadsArgs nodes first args → ReadsArgs nodes first args' → args = args' := by
  induction args with
  | nil =>
      intro first args' reads reads'
      cases reads
      cases reads'
      rfl
  | cons e es ih =>
      intro first args' reads reads'
      rw [List.forall_mem_cons] at each
      cases reads with
      | cons at_ tree rest =>
          cases reads' with
          | cons at' tree' rest' =>
              obtain rfl := Option.some.inj (at_.symm.trans at')
              rw [each.1 _ _ tree tree', ih each.2 rest rest']

/-- A node is read as one tree only. -/
theorem Reads.unique (e : Expr) : ∀ (i : Nat) (e' : Expr), Reads nodes i e → Reads nodes i e' → e = e' := by
  induction e using Expr.induct with
  | num v =>
      intro i e' reads reads'
      cases reads with
      | num at_ kind => cases reads' <;> grind
  | str off =>
      intro i e' reads reads'
      cases reads with
      | str at_ kind => cases reads' <;> grind
  | var x =>
      intro i e' reads reads'
      cases reads with
      | var at_ kind => cases reads' <;> grind
  | assign decl op x rhs ih =>
      intro i e' reads reads'
      cases reads with
      | assign at_ kind operator left var varKind right value =>
          cases reads' with
          | assign at' kind' operator' left' var' varKind' right' value' =>
              obtain rfl := Option.some.inj (at_.symm.trans at')
              obtain rfl := Option.some.inj (left.symm.trans left')
              obtain rfl := Option.some.inj (right.symm.trans right')
              obtain rfl := Option.some.inj (var.symm.trans var')
              rw [AssignOp.token_inj (operator.symm.trans operator'), ih _ _ value value']
          | _ => grind
  | bin op a b ihA ihB =>
      intro i e' reads reads'
      cases reads with
      | bin at_ kind operator left leftTree right rightTree =>
          cases reads' with
          | bin at' kind' operator' left' leftTree' right' rightTree' =>
              obtain rfl := Option.some.inj (at_.symm.trans at')
              obtain rfl := Option.some.inj (left.symm.trans left')
              obtain rfl := Option.some.inj (right.symm.trans right')
              rw [BinOp.token_inj (operator.symm.trans operator'), ihA _ _ leftTree leftTree',
                ihB _ _ rightTree rightTree']
          | _ => grind
  | un op a ih =>
      intro i e' reads reads'
      cases reads with
      | un at_ kind operator child operand =>
          cases reads' with
          | un at' kind' operator' child' operand' =>
              obtain rfl := Option.some.inj (at_.symm.trans at')
              obtain rfl := Option.some.inj (child.symm.trans child')
              rw [UnOp.token_inj (operator.symm.trans operator'), ih _ _ operand operand']
          | _ => grind
  | call f args ih =>
      intro i e' reads reads'
      cases reads with
      | call at_ kind count chain =>
          cases reads' with
          | call at' kind' count' chain' =>
              obtain rfl := Option.some.inj (at_.symm.trans at')
              rw [ReadsArgs.unique ih chain chain']
          | _ => grind

end Unique

mutual

/-- The nodes that an expression takes. -/
def Expr.size : Expr → Nat
  | .assign _ _ _ rhs => 1 + rhs.size + 1
  | .bin _ a b => a.size + b.size + 1
  | .un _ a => 1 + a.size
  | .call _ args => 1 + argsSize args
  | _ => 1

def argsSize : List Expr → Nat
  | [] => 0
  | e :: es => e.size + argsSize es

end

/-- The root of an expression whose nodes begin at `base`. -/
def Expr.root (base : Nat) : Expr → Nat
  | .assign _ _ _ rhs => base + 1 + rhs.size
  | .bin _ a b => base + a.size + b.size
  | _ => base

def firstRoot (base : Nat) : List Expr → Option Nat
  | [] => none
  | e :: _ => some (e.root base)

mutual

/-- The nodes of an expression from `base` on, in the order in which the parser makes them. -/
def Expr.lay (next : Option Nat) (base : Nat) : Expr → List Node
  | .num v => [{ Node.fresh .num with ival := v, next := next }]
  | .str off => [{ Node.fresh .str with strOff := off, next := next }]
  | .var x => [{ Node.fresh .var with name := x, next := next }]
  | .assign _ op x rhs =>
    { Node.fresh .var with name := x } :: (rhs.lay none (base + 1) ++
      [{ Node.fresh .assign with
          op := op.token, child0 := some base, child1 := some (rhs.root (base + 1)), next := next }])
  | .bin op a b =>
    a.lay none base ++ (b.lay none (base + a.size) ++
      [{ Node.fresh .bin with
          op := op.token, child0 := some (a.root base), child1 := some (b.root (base + a.size)), next := next }])
  | .un op a =>
    { Node.fresh .un with op := op.token, child0 := some (a.root (base + 1)), next := next } ::
      a.lay none (base + 1)
  | .call f args =>
    { Node.fresh .call with
        name := f, ival := BitVec.ofNat 32 args.length, child0 := firstRoot (base + 1) args, next := next } ::
      layArgs (base + 1) args

def layArgs (base : Nat) : List Expr → List Node
  | [] => []
  | e :: es => e.lay (firstRoot (base + e.size) es) base ++ layArgs (base + e.size) es

end

theorem layArgs_length {args : List Expr} (each : ∀ e ∈ args, ∀ next base, (e.lay next base).length = e.size) :
    ∀ base, (layArgs base args).length = argsSize args := by
  induction args with
  | nil => exact fun _ => rfl
  | cons e es ih =>
      intro base
      rw [List.forall_mem_cons] at each
      rw [layArgs, List.length_append, each.1, ih each.2, argsSize]

theorem Expr.lay_length (e : Expr) : ∀ next base, (e.lay next base).length = e.size := by
  induction e using Expr.induct with
  | num v => exact fun _ _ => rfl
  | str off => exact fun _ _ => rfl
  | var x => exact fun _ _ => rfl
  | assign decl op x rhs ih =>
      intro next base
      rw [Expr.lay, List.length_cons, List.length_append, ih, Expr.size, List.length_singleton]
      omega
  | bin op a b ihA ihB =>
      intro next base
      rw [Expr.lay, List.length_append, List.length_append, ihA, ihB, Expr.size, List.length_singleton]
      omega
  | un op a ih =>
      intro next base
      rw [Expr.lay, List.length_cons, ih, Expr.size]
      omega
  | call f args ih =>
      intro next base
      rw [Expr.lay, List.length_cons, layArgs_length ih, Expr.size]
      omega

theorem Expr.root_lt (e : Expr) (base : Nat) : base ≤ e.root base ∧ e.root base < base + e.size := by
  cases e with
  | num v => exact ⟨Nat.le_refl _, Nat.lt_succ_self _⟩
  | str off => exact ⟨Nat.le_refl _, Nat.lt_succ_self _⟩
  | var x => exact ⟨Nat.le_refl _, Nat.lt_succ_self _⟩
  | assign decl op x rhs =>
      rw [Expr.root, Expr.size]
      omega
  | bin op a b =>
      rw [Expr.root, Expr.size]
      omega
  | un op a =>
      change base ≤ base ∧ base < base + (1 + a.size)
      omega
  | call f args =>
      change base ≤ base ∧ base < base + (1 + argsSize args)
      omega

section Modify
variable {α : Type}

theorem modify_behind (l r : List α) (i : Nat) (f : α → α) :
    (l ++ r).modify (l.length + i) f = l ++ r.modify i f := List.modifyTailIdx_add _ i l r

theorem modify_last (l : List α) (d : α) (f : α → α) : (l ++ [d]).modify l.length f = l ++ [f d] :=
  modify_behind l [d] 0 f

theorem modify_before {l : List α} (r : List α) {i : Nat} (inside : i < l.length) (f : α → α) :
    (l ++ r).modify i f = l.modify i f ++ r := by
  induction l generalizing i with
  | nil => exact absurd inside (Nat.not_lt_zero i)
  | cons d l ih =>
      cases i with
      | zero => rfl
      | succ i => exact congrArg (d :: ·) (ih (Nat.lt_of_succ_lt_succ inside))

end Modify

/-- Linking an expression to what follows it changes its root. -/
theorem Expr.lay_linked (e : Expr) (ns : List Node) (i : Nat) :
    (ns ++ e.lay none ns.length).modify (e.root ns.length) (fun d => { d with next := some i }) =
      ns ++ e.lay (some i) ns.length := by
  cases e with
  | num v => exact modify_last ns _ _
  | str off => exact modify_last ns _ _
  | var x => exact modify_last ns _ _
  | assign decl op x rhs =>
      rw [Expr.root, Nat.add_assoc, modify_behind, Expr.lay, Expr.lay, Nat.add_comm 1,
        List.modify_succ_cons, ← rhs.lay_length none (ns.length + 1), modify_last]
  | bin op a b =>
      rw [Expr.root, Nat.add_assoc, modify_behind, Expr.lay, Expr.lay, ← a.lay_length none ns.length, modify_behind,
        ← b.lay_length none (ns.length + (a.lay none ns.length).length), modify_last]
  | un op a => exact modify_behind ns _ 0 _
  | call f args => exact modify_behind ns _ 0 _

section Placed
variable {nodes : List Node}

/-- The table holds `l` from `base` on. -/
def Placed (nodes : List Node) (base : Nat) (l : List Node) : Prop := l <+: nodes.drop base

theorem Placed.left {base : Nat} {l r : List Node} (placed : Placed nodes base (l ++ r)) : Placed nodes base l :=
  (List.prefix_append l r).trans placed

theorem Placed.right {base : Nat} {l r : List Node} (placed : Placed nodes base (l ++ r)) :
    Placed nodes (base + l.length) r := by
  obtain ⟨rest, same⟩ := placed
  refine ⟨rest, ?_⟩
  rw [← List.drop_drop, ← same, List.append_assoc, List.drop_left]

theorem Placed.head {base : Nat} {d : Node} {l : List Node} (placed : Placed nodes base (d :: l)) :
    nodes[base]? = some d := by
  obtain ⟨rest, same⟩ := placed
  rw [← List.head?_drop, ← same]
  rfl

theorem Placed.tail {base : Nat} {d : Node} {l : List Node} (placed : Placed nodes base (d :: l)) :
    Placed nodes (base + 1) l := Placed.right (l := [d]) placed

/-- The root carries the link. -/
theorem Placed.root {e : Expr} {next : Option Nat} {base : Nat} (placed : Placed nodes base (e.lay next base)) :
    ∃ d, nodes[e.root base]? = some d ∧ d.next = next := by
  cases e with
  | num v => exact ⟨_, Placed.head placed, rfl⟩
  | str off => exact ⟨_, Placed.head placed, rfl⟩
  | var x => exact ⟨_, Placed.head placed, rfl⟩
  | assign decl op x rhs =>
      rw [Expr.lay] at placed
      have last := placed.tail.right
      rw [Expr.lay_length] at last
      exact ⟨_, last.head, rfl⟩
  | bin op a b =>
      rw [Expr.lay] at placed
      have last := placed.right.right
      rw [Expr.lay_length, Expr.lay_length] at last
      exact ⟨_, last.head, rfl⟩
  | un op a => exact ⟨_, Placed.head placed, rfl⟩
  | call f args => exact ⟨_, Placed.head placed, rfl⟩

theorem layArgs_reads {args : List Expr} (each : ∀ e ∈ args, ∀ next base, Placed nodes base (e.lay next base) →
    Reads nodes (e.root base) e) : ∀ base, Placed nodes base (layArgs base args) →
      ReadsArgs nodes (firstRoot base args) args := by
  induction args with
  | nil => exact fun _ _ => .nil
  | cons e es ih =>
      intro base placed
      rw [List.forall_mem_cons] at each
      rw [layArgs] at placed
      have rest := placed.right
      rw [Expr.lay_length] at rest
      obtain ⟨d, at_, next⟩ := placed.left.root
      exact .cons at_ (each.1 _ _ placed.left) (next ▸ ih each.2 _ rest)

/-- Laid out nodes read as the tree. -/
theorem Expr.lay_reads {e : Expr} (plain : e.Plain) : ∀ next base, Placed nodes base (e.lay next base) →
    Reads nodes (e.root base) e := by
  induction e using Expr.induct with
  | num v => exact fun _ _ placed => .num (Placed.head placed) rfl
  | str off => exact fun _ _ placed => .str (Placed.head placed) rfl
  | var x => exact fun _ _ placed => .var (Placed.head placed) rfl
  | assign decl op x rhs ih =>
      intro next base placed
      cases plain with
      | assign fits value =>
          rw [Expr.lay] at placed
          have last := placed.tail.right
          rw [Expr.lay_length] at last
          exact .assign last.head rfl rfl rfl placed.head rfl rfl (ih value _ _ placed.tail.left)
  | bin op a b ihA ihB =>
      intro next base placed
      cases plain with
      | bin left right =>
          rw [Expr.lay] at placed
          have behind := placed.right
          rw [Expr.lay_length] at behind
          have last := behind.right
          rw [Expr.lay_length] at last
          exact .bin last.head rfl rfl rfl (ihA left _ _ placed.left) rfl (ihB right _ _ behind.left)
  | un op a ih =>
      intro next base placed
      cases plain with
      | un operand =>
          rw [Expr.lay] at placed
          exact .un placed.head rfl rfl rfl (ih operand _ _ placed.tail)
  | call f args ih =>
      intro next base placed
      cases plain with
      | call fits each =>
          rw [Expr.lay] at placed
          exact .call placed.head rfl rfl
            (layArgs_reads (fun e member => ih e member (each e member)) _ placed.tail)

end Placed

end Zenbite.Zbc
