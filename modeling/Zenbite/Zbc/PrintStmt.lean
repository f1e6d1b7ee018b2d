import Zenbite.Zbc.Print

/-! Statements as token sequences and as nodes. A declaration is a statement of its own
and no expression statement, and it may leave out the value 0. -/

namespace Zenbite.Zbc

/-- Case by case, with both parts of an if and all statements of a block at once. -/
theorem Stmt.induct {P : Stmt → Prop} (expr : ∀ e, P (.expr e))
    (ite : ∀ c s other, P s → (∀ t ∈ other, P t) → P (.ite c s other)) (while_ : ∀ c s, P s → P (.while c s))
    (for_ : ∀ init c post s, P s → P (.for init c post s)) (block : ∀ ss, (∀ s ∈ ss, P s) → P (.block ss))
    (ret : ∀ e, P (.ret e)) (brk : P .brk) (cont : P .cont) (s : Stmt) : P s :=
  @Stmt.rec P (fun other => ∀ t ∈ other, P t) (fun ss => ∀ s ∈ ss, P s) expr ite while_ for_ block ret brk cont
    (fun _ member => by cases member) (fun _ holds t member => Option.some.inj member ▸ holds)
    (fun _ member => absurd member List.not_mem_nil) (fun _ _ head tail => List.forall_mem_cons.mpr ⟨head, tail⟩) s

/-- An else behind the statement would become its own. -/
def Stmt.dangles : Stmt → Bool
  | .ite _ _ none => true
  | .ite _ _ (some s) => s.dangles
  | .while _ s => s.dangles
  | .for _ _ _ s => s.dangles
  | _ => false

/-- What may stand before a semicolon. -/
inductive Expr.Simple : Expr → Prop where
  | value {e : Expr} (plain : e.Plain) : Expr.Simple e
  | decl {x : Name} {rhs : Expr} (fits : x.length ≤ 31) (value : rhs.Plain) : Expr.Simple (.assign true .set x rhs)

/-- The statements of the language: an else belongs to the nearest if. -/
inductive Stmt.Plain : Stmt → Prop where
  | expr {e : Expr} (simple : e.Simple) : Stmt.Plain (.expr e)
  | ifThen {c : Expr} {s : Stmt} (cond : c.Plain) (yes : Stmt.Plain s) : Stmt.Plain (.ite c s none)
  | ifElse {c : Expr} {s t : Stmt} (cond : c.Plain) (yes : Stmt.Plain s) (closed : s.dangles = false)
      (no : Stmt.Plain t) : Stmt.Plain (.ite c s (some t))
  | while {c : Expr} {s : Stmt} (cond : c.Plain) (body : Stmt.Plain s) : Stmt.Plain (.while c s)
  | for {init c post : Option Expr} {s : Stmt} (first : ∀ e ∈ init, e.Simple) (cond : ∀ e ∈ c, e.Plain)
      (after : ∀ e ∈ post, e.Plain) (body : Stmt.Plain s) : Stmt.Plain (.for init c post s)
  | block {ss : List Stmt} (all : ∀ s ∈ ss, Stmt.Plain s) : Stmt.Plain (.block ss)
  | ret {value : Option Expr} (plain : ∀ e ∈ value, e.Plain) : Stmt.Plain (.ret value)
  | brk : Stmt.Plain .brk
  | cont : Stmt.Plain .cont

def Expr.isZero : Expr → Bool
  | .num v => v == 0
  | _ => false

/-- A declaration's name and value. -/
def Expr.decl : Expr → Option (Name × Expr)
  | .assign true .set x rhs => some (x, rhs)
  | _ => none

section Tokens
variable (extra : Expr → Bool) (short : Bool)

/-- `int x = e`, or `int x`. -/
def declTokens (x : Name) (rhs : Expr) : List Token :=
  Token.plain .kwInt :: Token.ident x ::
    (if short && rhs.isZero then [] else Token.plain .assign :: rhs.print extra 0)

def Expr.simpleTokens (e : Expr) : List Token :=
  match e.decl with
  | some (x, rhs) => declTokens extra short x rhs
  | none => e.print extra 0

def optTokens (tokens : Expr → List Token) : Option Expr → List Token
  | none => []
  | some e => tokens e

mutual

def Stmt.tokens : Stmt → List Token
  | .expr e => e.simpleTokens extra short ++ [Token.plain .semi]
  | .ite c s other =>
    Token.plain .kwIf :: Token.plain .lpar ::
      (c.print extra 0 ++ Token.plain .rpar :: (s.tokens ++ elseTokens other))
  | .while c s =>
    Token.plain .kwWhile :: Token.plain .lpar :: (c.print extra 0 ++ Token.plain .rpar :: s.tokens)
  | .for init c post s =>
    Token.plain .kwFor :: Token.plain .lpar :: (optTokens (Expr.simpleTokens extra short) init ++
      Token.plain .semi :: (optTokens (Expr.print extra 0) c ++
        Token.plain .semi :: (optTokens (Expr.print extra 0) post ++ Token.plain .rpar :: s.tokens)))
  | .block ss => Token.plain .lbrace :: (stmtsTokens ss ++ [Token.plain .rbrace])
  | .ret e => Token.plain .kwReturn :: (optTokens (Expr.print extra 0) e ++ [Token.plain .semi])
  | .brk => [Token.plain .kwBreak, Token.plain .semi]
  | .cont => [Token.plain .kwCont, Token.plain .semi]

def elseTokens : Option Stmt → List Token
  | none => []
  | some s => Token.plain .kwElse :: s.tokens

def stmtsTokens : List Stmt → List Token
  | [] => []
  | s :: ss => s.tokens ++ stmtsTokens ss

end

end Tokens

section Nodes
variable (nodes : List Node)

/-- A child that may be missing. -/
inductive ReadsOpt : Option Nat → Option Expr → Prop where
  | none : ReadsOpt none none
  | some {i : Nat} {e : Expr} (tree : Reads nodes i e) : ReadsOpt (some i) (some e)

mutual

/-- The statement that evaluation meets at a node. -/
inductive ReadsStmt : Nat → Stmt → Prop where
  | bare {i : Nat} {e : Expr} (tree : Reads nodes i e) : ReadsStmt i (.expr e)
  | expr {i j : Nat} {d : Node} {e : Expr} (at_ : nodes[i]? = some d) (kind : d.kind = .exprStmt)
      (child : d.child0 = some j) (tree : Reads nodes j e) : ReadsStmt i (.expr e)
  | ite {i j k : Nat} {d : Node} {c : Expr} {s : Stmt} {other : Option Stmt} (at_ : nodes[i]? = some d)
      (kind : d.kind = .ifStmt) (cond : d.child0 = some j) (condTree : Reads nodes j c) (yes : d.child1 = some k)
      (yesTree : ReadsStmt k s) (no : ReadsElse d.child2 other) : ReadsStmt i (.ite c s other)
  | while {i j k : Nat} {d : Node} {c : Expr} {s : Stmt} (at_ : nodes[i]? = some d) (kind : d.kind = .whileStmt)
      (cond : d.child0 = some j) (condTree : Reads nodes j c) (child : d.child1 = some k) (body : ReadsStmt k s) :
      ReadsStmt i (.while c s)
  | for {i k : Nat} {d : Node} {init c post : Option Expr} {s : Stmt} (at_ : nodes[i]? = some d)
      (kind : d.kind = .forStmt) (first : ReadsOpt nodes d.child0 init) (cond : ReadsOpt nodes d.child1 c)
      (after : ReadsOpt nodes d.child2 post) (child : d.child3 = some k) (body : ReadsStmt k s) :
      ReadsStmt i (.for init c post s)
  | block {i : Nat} {d : Node} {ss : List Stmt} (at_ : nodes[i]? = some d) (kind : d.kind = .block)
      (chain : ReadsStmts d.child0 ss) : ReadsStmt i (.block ss)
  | ret {i : Nat} {d : Node} {value : Option Expr} (at_ : nodes[i]? = some d) (kind : d.kind = .ret)
      (tree : ReadsOpt nodes d.child0 value) : ReadsStmt i (.ret value)
  | brk {i : Nat} {d : Node} (at_ : nodes[i]? = some d) (kind : d.kind = .brk) : ReadsStmt i .brk
  | cont {i : Nat} {d : Node} (at_ : nodes[i]? = some d) (kind : d.kind = .cont) : ReadsStmt i .cont

/-- The part behind else, if there is one. -/
inductive ReadsElse : Option Nat → Option Stmt → Prop where
  | none : ReadsElse none none
  | some {i : Nat} {s : Stmt} (tree : ReadsStmt i s) : ReadsElse (some i) (some s)

/-- The statements along `next`. -/
inductive ReadsStmts : Option Nat → List Stmt → Prop where
  | nil : ReadsStmts none []
  | cons {i : Nat} {d : Node} {s : Stmt} {ss : List Stmt} (at_ : nodes[i]? = some d) (tree : ReadsStmt i s)
      (rest : ReadsStmts d.next ss) : ReadsStmts (some i) (s :: ss)

end

end Nodes

def optSize : Option Expr → Nat
  | none => 0
  | some e => e.size

def optLay (lay : Expr → List Node) : Option Expr → List Node
  | none => []
  | some e => lay e

/-- A declaration is a node of its own, other expressions are below one. -/
def Expr.stmtSize (e : Expr) : Nat := if e.decl.isSome then e.size else e.size + 1

mutual

/-- The nodes that a statement takes. -/
def Stmt.size : Stmt → Nat
  | .expr e => e.stmtSize
  | .ite c s other => c.size + (s.size + (elseSize other + 1))
  | .while c s => c.size + (s.size + 1)
  | .for init c post s => optSize init + (optSize c + (optSize post + (s.size + 1)))
  | .block ss => 1 + stmtsSize ss
  | .ret e => 1 + optSize e
  | .brk => 1
  | .cont => 1

def elseSize : Option Stmt → Nat
  | none => 0
  | some s => s.size

def stmtsSize : List Stmt → Nat
  | [] => 0
  | s :: ss => s.size + stmtsSize ss

end

section Layout
variable (short : Bool)

def declRoot (base : Nat) (rhs : Expr) : Nat := if short && rhs.isZero then base else base + rhs.size

/-- The node of the value comes first, or last when it is left out. -/
def declLay (x : Name) (rhs : Expr) (next : Option Nat) (base : Nat) : List Node :=
  if short && rhs.isZero then
    [{ Node.fresh .assign with op := .assign, child0 := some (base + 1), child1 := some (base + 2), next := next },
      { Node.fresh .var with name := x, ival := 1 }, Node.fresh .num]
  else
    rhs.lay none base ++
      [{ Node.fresh .assign with
          op := .assign, child0 := some (base + rhs.size + 1), child1 := some (rhs.root base), next := next },
        { Node.fresh .var with name := x, ival := 1 }]

def Expr.simpleRoot (base : Nat) (e : Expr) : Nat :=
  match e.decl with
  | some (_, rhs) => declRoot short base rhs
  | none => e.root base

def Expr.simpleLay (base : Nat) (e : Expr) : List Node :=
  match e.decl with
  | some (x, rhs) => declLay short x rhs none base
  | none => e.lay none base

def Expr.stmtRoot (base : Nat) (e : Expr) : Nat :=
  match e.decl with
  | some (_, rhs) => declRoot short base rhs
  | none => base + e.size

def Expr.stmtLay (next : Option Nat) (base : Nat) (e : Expr) : List Node :=
  match e.decl with
  | some (x, rhs) => declLay short x rhs next base
  | none => e.lay none base ++ [{ Node.fresh .exprStmt with child0 := some (e.root base), next := next }]

/-- The root of a statement whose nodes begin at `base`. -/
def Stmt.root (base : Nat) : Stmt → Nat
  | .expr e => e.stmtRoot short base
  | .ite c s other => base + c.size + s.size + elseSize other
  | .while c s => base + c.size + s.size
  | .for init c post s => base + optSize init + optSize c + optSize post + s.size
  | _ => base

def elseRoot (base : Nat) (other : Option Stmt) : Option Nat := other.map (·.root short base)

def firstStmt (base : Nat) : List Stmt → Option Nat
  | [] => none
  | s :: _ => some (s.root short base)

mutual

/-- The nodes of a statement from `base` on, in the order in which the parser makes them. -/
def Stmt.lay (next : Option Nat) (base : Nat) : Stmt → List Node
  | .expr e => e.stmtLay short next base
  | .ite c s other =>
    c.lay none base ++ (s.lay none (base + c.size) ++ (elseLay (base + c.size + s.size) other ++
      [{ Node.fresh .ifStmt with
          child0 := some (c.root base), child1 := some (s.root short (base + c.size)),
          child2 := elseRoot short (base + c.size + s.size) other, next := next }]))
  | .while c s =>
    c.lay none base ++ (s.lay none (base + c.size) ++
      [{ Node.fresh .whileStmt with
          child0 := some (c.root base), child1 := some (s.root short (base + c.size)), next := next }])
  | .for init c post s =>
    optLay (Expr.simpleLay short base) init ++ (optLay (Expr.lay none (base + optSize init)) c ++
      (optLay (Expr.lay none (base + optSize init + optSize c)) post ++
        (s.lay none (base + optSize init + optSize c + optSize post) ++
          [{ Node.fresh .forStmt with
              child0 := init.map (Expr.simpleRoot short base), child1 := c.map (Expr.root (base + optSize init)),
              child2 := post.map (Expr.root (base + optSize init + optSize c)),
              child3 := some (s.root short (base + optSize init + optSize c + optSize post)), next := next }])))
  | .block ss => { Node.fresh .block with child0 := firstStmt short (base + 1) ss, next := next } :: stmtsLay (base + 1) ss
  | .ret e =>
    { Node.fresh .ret with child0 := e.map (Expr.root (base + 1)), next := next } ::
      optLay (Expr.lay none (base + 1)) e
  | .brk => [{ Node.fresh .brk with next := next }]
  | .cont => [{ Node.fresh .cont with next := next }]

def elseLay (base : Nat) : Option Stmt → List Node
  | none => []
  | some s => s.lay none base

def stmtsLay (base : Nat) : List Stmt → List Node
  | [] => []
  | s :: ss => s.lay (firstStmt short (base + s.size) ss) base ++ stmtsLay (base + s.size) ss

end

end Layout

theorem Expr.decl_eq {e : Expr} {x : Name} {rhs : Expr} (decl : e.decl = some (x, rhs)) : e = .assign true .set x rhs := by
  unfold Expr.decl at decl
  split at decl
  · cases decl
    rfl
  · cases decl

/-- An expression as such is no declaration. -/
theorem Expr.Plain.decl {e : Expr} (plain : e.Plain) : e.decl = none := by cases plain <;> rfl

section Lengths
variable (short : Bool)

theorem declLay_length (x : Name) (rhs : Expr) (next : Option Nat) (base : Nat) :
    (declLay short x rhs next base).length = (Expr.assign true .set x rhs).size := by
  rw [declLay]
  split
  next zero =>
      rw [Bool.and_eq_true] at zero
      cases rhs with
      | num v => rfl
      | _ => cases zero.2
  next =>
      rw [List.length_append, Expr.lay_length, Expr.size]
      change rhs.size + 2 = _
      omega

theorem Expr.simpleLay_length (e : Expr) (base : Nat) : (e.simpleLay short base).length = e.size := by
  rw [Expr.simpleLay]
  split
  next x rhs decl =>
      rw [declLay_length]
      exact congrArg Expr.size (Expr.decl_eq decl).symm
  next => exact e.lay_length none base

theorem Expr.stmtLay_length (e : Expr) (next : Option Nat) (base : Nat) :
    (e.stmtLay short next base).length = e.stmtSize := by
  rw [Expr.stmtLay, Expr.stmtSize]
  split
  next x rhs decl =>
      rw [declLay_length, if_pos (decl ▸ rfl)]
      exact congrArg Expr.size (Expr.decl_eq decl).symm
  next decl =>
      rw [List.length_append, Expr.lay_length, List.length_singleton, if_neg]
      rw [decl]
      exact Bool.false_ne_true

theorem optLay_length {lay : Expr → List Node} {e : Option Expr} (each : ∀ e, (lay e).length = e.size) :
    (optLay lay e).length = optSize e := by
  cases e with
  | none => rfl
  | some e => exact each e

theorem stmtsLay_length {ss : List Stmt} (each : ∀ s ∈ ss, ∀ next base, (s.lay short next base).length = s.size) :
    ∀ base, (stmtsLay short base ss).length = stmtsSize ss := by
  induction ss with
  | nil => exact fun _ => rfl
  | cons s ss ih =>
      intro base
      rw [List.forall_mem_cons] at each
      rw [stmtsLay, List.length_append, each.1, ih each.2, stmtsSize]

theorem Stmt.lay_length (s : Stmt) : ∀ next base, (s.lay short next base).length = s.size := by
  induction s using Stmt.induct with
  | expr e => exact fun next base => e.stmtLay_length short next base
  | ite c s other ih ihElse =>
      intro next base
      have elseLength : (elseLay short (base + c.size + s.size) other).length = elseSize other := by
        cases other with
        | none => rfl
        | some t => exact ihElse t rfl none _
      rw [Stmt.lay, List.length_append, List.length_append, List.length_append, Expr.lay_length, ih, elseLength]
      rfl
  | while_ c s ih =>
      intro next base
      rw [Stmt.lay, List.length_append, List.length_append, Expr.lay_length, ih]
      rfl
  | for_ init c post s ih =>
      intro next base
      have first := optLay_length (e := init) fun e => e.simpleLay_length short base
      have cond := optLay_length (e := c) fun e => e.lay_length none (base + optSize init)
      have after := optLay_length (e := post) fun e => e.lay_length none (base + optSize init + optSize c)
      rw [Stmt.lay, List.length_append, List.length_append, List.length_append, List.length_append, first, cond, after, ih]
      rfl
  | block ss ih =>
      intro next base
      rw [Stmt.lay, List.length_cons, stmtsLay_length short ih, Stmt.size, Nat.add_comm]
  | ret e =>
      intro next base
      rw [Stmt.lay, List.length_cons, optLay_length fun e => e.lay_length none (base + 1), Stmt.size, Nat.add_comm]
  | brk => exact fun _ _ => rfl
  | cont => exact fun _ _ => rfl

end Lengths

/-- The root stands among the nodes, and it alone carries the link. -/
def Carries (lay : Option Nat → List Node) (base root : Nat) : Prop :=
  ∃ (front : List Node) (d : Node) (back : List Node), (∀ next, lay next = front ++ { d with next := next } :: back) ∧ root = base + front.length

section Carries
variable {lay : Option Nat → List Node} {base root : Nat}

theorem Carries.inside (carries : Carries lay base root) (next : Option Nat) : root < base + (lay next).length := by
  obtain ⟨front, d, back, same, rfl⟩ := carries
  rw [same, List.length_append, List.length_cons]
  omega

/-- Linking it to what follows. -/
theorem Carries.linked {ns : List Node} (carries : Carries lay ns.length root) (i : Nat) :
    (ns ++ lay none).modify root (fun d => { d with next := some i }) = ns ++ lay (some i) := by
  obtain ⟨front, d, back, same, rfl⟩ := carries
  rw [modify_behind, same, same]
  exact congrArg (ns ++ ·) (modify_behind front _ 0 _)

theorem Carries.placed {nodes : List Node} (carries : Carries lay base root) {next : Option Nat}
    (placed : Placed nodes base (lay next)) : ∃ d, nodes[root]? = some d ∧ d.next = next := by
  obtain ⟨front, d, back, same, rfl⟩ := carries
  rw [same] at placed
  exact ⟨_, placed.right.head, rfl⟩

/-- The last node. -/
theorem Carries.last {front : List Node} {d : Node} (there : root = base + front.length) :
    Carries (fun next => front ++ [{ d with next := next }]) base root := ⟨front, d, [], fun _ => rfl, there⟩

end Carries

theorem declLay_carries (short : Bool) (x : Name) (rhs : Expr) (base : Nat) :
    Carries (fun next => declLay short x rhs next base) base (declRoot short base rhs) := by
  unfold declLay declRoot
  split
  · exact ⟨[], { Node.fresh .assign with op := .assign, child0 := some (base + 1), child1 := some (base + 2) },
      [{ Node.fresh .var with name := x, ival := 1 }, Node.fresh .num], fun _ => rfl, rfl⟩
  · refine ⟨rhs.lay none base, { Node.fresh .assign with op := .assign, child0 := some (base + rhs.size + 1), child1 := some (rhs.root base) },
      [{ Node.fresh .var with name := x, ival := 1 }], fun _ => rfl, ?_⟩
    rw [Expr.lay_length]

/-- Every statement can be linked at its root. -/
theorem Stmt.lay_carries (short : Bool) (s : Stmt) (base : Nat) :
    Carries (fun next => s.lay short next base) base (s.root short base) := by
  cases s with
  | expr e =>
      change Carries (fun next => e.stmtLay short next base) base (e.stmtRoot short base)
      unfold Expr.stmtLay Expr.stmtRoot
      split
      next x rhs _ => exact declLay_carries short x rhs base
      next => exact Carries.last (d := { Node.fresh .exprStmt with child0 := some (e.root base) }) (by rw [Expr.lay_length])
  | ite c s other =>
      have elseLength : (elseLay short (base + c.size + s.size) other).length = elseSize other := by
        cases other with
        | none => rfl
        | some t => exact t.lay_length short none _
      refine ⟨c.lay none base ++ (s.lay short none (base + c.size) ++ elseLay short (base + c.size + s.size) other),
        { Node.fresh .ifStmt with
          child0 := some (c.root base), child1 := some (s.root short (base + c.size)),
          child2 := elseRoot short (base + c.size + s.size) other }, [], fun next => ?_, ?_⟩
      · simp only [Stmt.lay, List.append_assoc]
      · rw [Stmt.root, List.length_append, List.length_append, Expr.lay_length, Stmt.lay_length, elseLength]
        omega
  | «while» c s =>
      refine ⟨c.lay none base ++ s.lay short none (base + c.size), { Node.fresh .whileStmt with
        child0 := some (c.root base), child1 := some (s.root short (base + c.size)) }, [], fun next => ?_, ?_⟩
      · simp only [Stmt.lay, List.append_assoc]
      · rw [Stmt.root, List.length_append, Expr.lay_length, Stmt.lay_length, Nat.add_assoc]
  | «for» init c post s =>
      have first := optLay_length (e := init) fun e => e.simpleLay_length short base
      have cond := optLay_length (e := c) fun e => e.lay_length none (base + optSize init)
      have after := optLay_length (e := post) fun e => e.lay_length none (base + optSize init + optSize c)
      refine ⟨optLay (Expr.simpleLay short base) init ++ (optLay (Expr.lay none (base + optSize init)) c ++
          (optLay (Expr.lay none (base + optSize init + optSize c)) post ++
            s.lay short none (base + optSize init + optSize c + optSize post))),
        { Node.fresh .forStmt with
          child0 := init.map (Expr.simpleRoot short base), child1 := c.map (Expr.root (base + optSize init)),
          child2 := post.map (Expr.root (base + optSize init + optSize c)),
          child3 := some (s.root short (base + optSize init + optSize c + optSize post)) }, [], fun next => ?_, ?_⟩
      · simp only [Stmt.lay, List.append_assoc]
      · rw [Stmt.root, List.length_append, List.length_append, List.length_append, first, cond, after, Stmt.lay_length]
        omega
  | block ss =>
      exact ⟨[], { Node.fresh .block with child0 := firstStmt short (base + 1) ss }, stmtsLay short (base + 1) ss, fun _ => rfl, rfl⟩
  | ret e =>
      exact ⟨[], { Node.fresh .ret with child0 := e.map (Expr.root (base + 1)) }, optLay (Expr.lay none (base + 1)) e, fun _ => rfl, rfl⟩
  | brk => exact ⟨[], Node.fresh .brk, [], fun _ => rfl, rfl⟩
  | cont => exact ⟨[], Node.fresh .cont, [], fun _ => rfl, rfl⟩

section Reads
variable {nodes : List Node} {short : Bool}

theorem declLay_reads {x : Name} {rhs : Expr} (plain : rhs.Plain) {next : Option Nat} {base : Nat}
    (placed : Placed nodes base (declLay short x rhs next base)) :
    Reads nodes (declRoot short base rhs) (.assign true .set x rhs) := by
  unfold declRoot
  unfold declLay at placed
  split at placed
  next zero =>
      rw [if_pos zero]
      rw [Bool.and_eq_true] at zero
      cases rhs with
      | num v =>
          obtain rfl : v = 0 := eq_of_beq zero.2
          exact .assign placed.head rfl rfl rfl placed.tail.head rfl rfl (.num placed.tail.tail.head rfl)
      | _ => cases zero.2
  next some_ =>
      rw [if_neg some_]
      have last := placed.right
      rw [Expr.lay_length] at last
      exact .assign last.head rfl rfl rfl last.tail.head rfl rfl (Expr.lay_reads plain none base placed.left)

theorem Expr.Simple.lay_reads {e : Expr} (simple : e.Simple) {base : Nat}
    (placed : Placed nodes base (e.simpleLay short base)) : Reads nodes (e.simpleRoot short base) e := by
  cases simple with
  | value plain =>
      rw [Expr.simpleLay, plain.decl] at placed
      rw [Expr.simpleRoot, plain.decl]
      exact Expr.lay_reads plain none base placed
  | decl fits plain => exact declLay_reads plain placed

theorem Expr.Simple.stmt_reads {e : Expr} (simple : e.Simple) {next : Option Nat} {base : Nat}
    (placed : Placed nodes base (e.stmtLay short next base)) : ReadsStmt nodes (e.stmtRoot short base) (.expr e) := by
  cases simple with
  | value plain =>
      rw [Expr.stmtLay, plain.decl] at placed
      rw [Expr.stmtRoot, plain.decl]
      have last := placed.right
      rw [Expr.lay_length] at last
      exact .expr last.head rfl rfl (Expr.lay_reads plain none base placed.left)
  | decl fits plain => exact .bare (declLay_reads plain placed)

/-- A part that may be missing. -/
theorem optLay_reads {lay : Expr → List Node} {root : Expr → Nat} {e : Option Expr} {base : Nat}
    (placed : Placed nodes base (optLay lay e))
    (each : ∀ x ∈ e, Placed nodes base (lay x) → Reads nodes (root x) x) : ReadsOpt nodes (e.map root) e := by
  cases e with
  | none => exact .none
  | some x => exact .some (each x rfl placed)

theorem stmtsLay_reads {ss : List Stmt} (each : ∀ s ∈ ss, ∀ next base, Placed nodes base (s.lay short next base) →
    ReadsStmt nodes (s.root short base) s) : ∀ base, Placed nodes base (stmtsLay short base ss) →
      ReadsStmts nodes (firstStmt short base ss) ss := by
  induction ss with
  | nil => exact fun _ _ => .nil
  | cons s ss ih =>
      intro base placed
      rw [List.forall_mem_cons] at each
      rw [stmtsLay] at placed
      have rest := placed.right
      rw [Stmt.lay_length] at rest
      obtain ⟨d, at_, next⟩ := (s.lay_carries short base).placed placed.left
      exact .cons at_ (each.1 _ _ placed.left) (next ▸ ih each.2 _ rest)

/-- Laid out nodes read as the statement. -/
theorem Stmt.lay_reads {s : Stmt} (plain : s.Plain) : ∀ next base, Placed nodes base (s.lay short next base) →
    ReadsStmt nodes (s.root short base) s := by
  induction s using Stmt.induct with
  | expr e =>
      intro next base placed
      cases plain with
      | expr simple => exact simple.stmt_reads placed
  | ite c s other ih ihElse =>
      intro next base placed
      rw [Stmt.lay] at placed
      have behind := placed.right
      rw [Expr.lay_length] at behind
      have more := behind.right
      rw [Stmt.lay_length] at more
      cases plain with
      | ifThen cond yes =>
          exact .ite more.head rfl rfl (Expr.lay_reads cond none base placed.left) rfl (ih yes none _ behind.left) .none
      | ifElse cond yes closed no =>
          have last := more.right
          rw [elseLay, Stmt.lay_length] at last
          exact .ite last.head rfl rfl (Expr.lay_reads cond none base placed.left) rfl (ih yes none _ behind.left)
            (.some (ihElse _ rfl no none _ more.left))
  | while_ c s ih =>
      intro next base placed
      rw [Stmt.lay] at placed
      have behind := placed.right
      rw [Expr.lay_length] at behind
      have last := behind.right
      rw [Stmt.lay_length] at last
      cases plain with
      | «while» cond body =>
          exact .while last.head rfl rfl (Expr.lay_reads cond none base placed.left) rfl (ih body none _ behind.left)
  | for_ init c post s ih =>
      intro next base placed
      rw [Stmt.lay] at placed
      have second := placed.right
      rw [optLay_length fun e => e.simpleLay_length short base] at second
      have third := second.right
      rw [optLay_length fun e => e.lay_length none (base + optSize init)] at third
      have fourth := third.right
      rw [optLay_length fun e => e.lay_length none (base + optSize init + optSize c)] at fourth
      have last := fourth.right
      rw [Stmt.lay_length] at last
      cases plain with
      | «for» first cond after body =>
          exact .for last.head rfl (optLay_reads placed.left fun e member there => (first e member).lay_reads there)
            (optLay_reads second.left fun e member there => Expr.lay_reads (cond e member) none _ there)
            (optLay_reads third.left fun e member there => Expr.lay_reads (after e member) none _ there)
            rfl (ih body none _ fourth.left)
  | block ss ih =>
      intro next base placed
      rw [Stmt.lay] at placed
      cases plain with
      | block all => exact .block placed.head rfl (stmtsLay_reads (fun s member => ih s member (all s member)) _ placed.tail)
  | ret e =>
      intro next base placed
      rw [Stmt.lay] at placed
      cases plain with
      | ret value =>
          exact .ret placed.head rfl (optLay_reads placed.tail fun e member there => Expr.lay_reads (value e member) none _ there)
  | brk => exact fun next base placed => .brk (Placed.head placed) rfl
  | cont => exact fun next base placed => .cont (Placed.head placed) rfl

end Reads

section Unique
variable {nodes : List Node}

/-- The kinds that stand for expressions. -/
def NodeKind.IsExpr (k : NodeKind) : Prop :=
  k = .num ∨ k = .var ∨ k = .str ∨ k = .assign ∨ k = .bin ∨ k = .un ∨ k = .call

theorem Reads.isExpr {i : Nat} {e : Expr} (reads : Reads nodes i e) : ∃ d, nodes[i]? = some d ∧ d.kind.IsExpr := by
  cases reads with
  | num at_ kind => exact ⟨_, at_, kind ▸ by simp [NodeKind.IsExpr]⟩
  | str at_ kind => exact ⟨_, at_, kind ▸ by simp [NodeKind.IsExpr]⟩
  | var at_ kind => exact ⟨_, at_, kind ▸ by simp [NodeKind.IsExpr]⟩
  | assign at_ kind => exact ⟨_, at_, kind ▸ by simp [NodeKind.IsExpr]⟩
  | bin at_ kind => exact ⟨_, at_, kind ▸ by simp [NodeKind.IsExpr]⟩
  | un at_ kind => exact ⟨_, at_, kind ▸ by simp [NodeKind.IsExpr]⟩
  | call at_ kind => exact ⟨_, at_, kind ▸ by simp [NodeKind.IsExpr]⟩

/-- The kind of node that a statement is read from. -/
def Stmt.Kind : Stmt → NodeKind → Prop
  | .expr _, k => k = .exprStmt ∨ k.IsExpr
  | .ite .., k => k = .ifStmt
  | .while .., k => k = .whileStmt
  | .for .., k => k = .forStmt
  | .block _, k => k = .block
  | .ret _, k => k = .ret
  | .brk, k => k = .brk
  | .cont, k => k = .cont

theorem ReadsStmt.kind {i : Nat} {s : Stmt} (reads : ReadsStmt nodes i s) : ∃ d, nodes[i]? = some d ∧ s.Kind d.kind := by
  cases reads with
  | bare tree =>
      obtain ⟨d, at_, kind⟩ := tree.isExpr
      exact ⟨d, at_, Or.inr kind⟩
  | expr at_ kind => exact ⟨_, at_, Or.inl kind⟩
  | ite at_ kind => exact ⟨_, at_, kind⟩
  | «while» at_ kind => exact ⟨_, at_, kind⟩
  | «for» at_ kind => exact ⟨_, at_, kind⟩
  | block at_ kind => exact ⟨_, at_, kind⟩
  | ret at_ kind => exact ⟨_, at_, kind⟩
  | brk at_ kind => exact ⟨_, at_, kind⟩
  | cont at_ kind => exact ⟨_, at_, kind⟩

/-- Two readings of a node meet the same kind. -/
theorem ReadsStmt.same_kind {i : Nat} {s t : Stmt} (reads : ReadsStmt nodes i s) (reads' : ReadsStmt nodes i t) :
    ∃ k, s.Kind k ∧ t.Kind k := by
  obtain ⟨d, at_, kind⟩ := reads.kind
  obtain ⟨d', at', kind'⟩ := reads'.kind
  obtain rfl := Option.some.inj (at_.symm.trans at')
  exact ⟨_, kind, kind'⟩

theorem ReadsOpt.unique {i : Option Nat} {e e' : Option Expr} (reads : ReadsOpt nodes i e)
    (reads' : ReadsOpt nodes i e') : e = e' := by
  cases reads with
  | none =>
      cases reads'
      rfl
  | some tree =>
      cases reads' with
      | some tree' => rw [Reads.unique _ _ _ tree tree']

theorem ReadsElse.unique {i : Option Nat} {other : Option Stmt} (reads : ReadsElse nodes i other)
    (each : ∀ s ∈ other, ∀ i t, ReadsStmt nodes i s → ReadsStmt nodes i t → s = t)
    {other' : Option Stmt} (reads' : ReadsElse nodes i other') : other = other' := by
  cases reads with
  | none =>
      cases reads'
      rfl
  | some tree =>
      cases reads' with
      | some tree' => rw [each _ rfl _ _ tree tree']

theorem ReadsStmts.unique {first : Option Nat} {ss : List Stmt} (reads : ReadsStmts nodes first ss)
    (each : ∀ s ∈ ss, ∀ i t, ReadsStmt nodes i s → ReadsStmt nodes i t → s = t) {ts : List Stmt}
    (reads' : ReadsStmts nodes first ts) : ss = ts := by
  induction ss generalizing first ts with
  | nil =>
      cases reads
      cases reads'
      rfl
  | cons s ss ih =>
      rw [List.forall_mem_cons] at each
      cases reads with
      | cons at_ tree rest =>
          cases reads' with
          | cons at' tree' rest' =>
              obtain rfl := Option.some.inj (at_.symm.trans at')
              rw [each.1 _ _ tree tree', ih rest each.2 rest']

/-- A node is read as one statement only. -/
theorem ReadsStmt.unique (s : Stmt) : ∀ (i : Nat) (t : Stmt), ReadsStmt nodes i s → ReadsStmt nodes i t → s = t := by
  induction s using Stmt.induct with
  | expr e =>
      intro i t reads reads'
      obtain ⟨k, kind, kind'⟩ := reads.same_kind reads'
      cases t with
      | expr e' =>
          cases reads with
          | bare tree =>
              cases reads' with
              | bare tree' => rw [Reads.unique _ _ _ tree tree']
              | expr at' other child' tree' =>
                  obtain ⟨d, at_, isExpr⟩ := tree.isExpr
                  obtain rfl := Option.some.inj (at_.symm.trans at')
                  simp [NodeKind.IsExpr, other] at isExpr
          | expr at_ here child tree =>
              cases reads' with
              | bare tree' =>
                  obtain ⟨d, at', isExpr⟩ := tree'.isExpr
                  obtain rfl := Option.some.inj (at_.symm.trans at')
                  simp [NodeKind.IsExpr, here] at isExpr
              | expr at' other child' tree' =>
                  obtain rfl := Option.some.inj (at_.symm.trans at')
                  obtain rfl := Option.some.inj (child.symm.trans child')
                  rw [Reads.unique _ _ _ tree tree']
      | _ => simp_all [Stmt.Kind, NodeKind.IsExpr]
  | ite c s other ih ihElse =>
      intro i t reads reads'
      obtain ⟨k, kind, kind'⟩ := reads.same_kind reads'
      cases t with
      | ite c' s' other' =>
          cases reads with
          | ite at_ _ cond condTree yes yesTree no =>
              cases reads' with
              | ite at' _ cond' condTree' yes' yesTree' no' =>
                  obtain rfl := Option.some.inj (at_.symm.trans at')
                  obtain rfl := Option.some.inj (cond.symm.trans cond')
                  obtain rfl := Option.some.inj (yes.symm.trans yes')
                  rw [Reads.unique _ _ _ condTree condTree', ih _ _ yesTree yesTree', no.unique ihElse no']
      | _ => simp_all [Stmt.Kind, NodeKind.IsExpr]
  | while_ c s ih =>
      intro i t reads reads'
      obtain ⟨k, kind, kind'⟩ := reads.same_kind reads'
      cases t with
      | «while» c' s' =>
          cases reads with
          | «while» at_ _ cond condTree child body =>
              cases reads' with
              | «while» at' _ cond' condTree' child' body' =>
                  obtain rfl := Option.some.inj (at_.symm.trans at')
                  obtain rfl := Option.some.inj (cond.symm.trans cond')
                  obtain rfl := Option.some.inj (child.symm.trans child')
                  rw [Reads.unique _ _ _ condTree condTree', ih _ _ body body']
      | _ => simp_all [Stmt.Kind, NodeKind.IsExpr]
  | for_ init c post s ih =>
      intro i t reads reads'
      obtain ⟨k, kind, kind'⟩ := reads.same_kind reads'
      cases t with
      | «for» init' c' post' s' =>
          cases reads with
          | «for» at_ _ first cond after child body =>
              cases reads' with
              | «for» at' _ first' cond' after' child' body' =>
                  obtain rfl := Option.some.inj (at_.symm.trans at')
                  obtain rfl := Option.some.inj (child.symm.trans child')
                  rw [first.unique first', cond.unique cond', after.unique after', ih _ _ body body']
      | _ => simp_all [Stmt.Kind, NodeKind.IsExpr]
  | block ss ih =>
      intro i t reads reads'
      obtain ⟨k, kind, kind'⟩ := reads.same_kind reads'
      cases t with
      | block ts =>
          cases reads with
          | block at_ _ chain =>
              cases reads' with
              | block at' _ chain' =>
                  obtain rfl := Option.some.inj (at_.symm.trans at')
                  rw [chain.unique ih chain']
      | _ => simp_all [Stmt.Kind, NodeKind.IsExpr]
  | ret e =>
      intro i t reads reads'
      obtain ⟨k, kind, kind'⟩ := reads.same_kind reads'
      cases t with
      | ret e' =>
          cases reads with
          | ret at_ _ tree =>
              cases reads' with
              | ret at' _ tree' =>
                  obtain rfl := Option.some.inj (at_.symm.trans at')
                  rw [tree.unique tree']
      | _ => simp_all [Stmt.Kind, NodeKind.IsExpr]
  | brk =>
      intro i t reads reads'
      obtain ⟨k, kind, kind'⟩ := reads.same_kind reads'
      cases t with
      | brk => rfl
      | _ => simp_all [Stmt.Kind, NodeKind.IsExpr]
  | cont =>
      intro i t reads reads'
      obtain ⟨k, kind, kind'⟩ := reads.same_kind reads'
      cases t with
      | cont => rfl
      | _ => simp_all [Stmt.Kind, NodeKind.IsExpr]

end Unique

end Zenbite.Zbc
