import Mathlib.Data.List.Perm.Subperm
import Zenbite.Zbc.NodeEval
import Zenbite.Zbc.ParseProgram

/-! Evaluation in the tables is evaluation of the trees that stand in them. Neither side
spends its fuel as the other does, so both are compared up to fuel. -/

namespace Zenbite.Zbc

/-- The program in the tables. -/
structure Holds (t : Tables) (p : Prog) : Prop where
  funcs : List.Forall₂ (ReadsFunc t.nodes) t.funcs p.funcs
  strtab : t.strtab = p.strtab

/-- A relation between results that goes through sequencing. -/
structure Agreement (R : ∀ {α : Type}, Except Stop α → Except Stop α → Prop) : Prop where
  refl : ∀ {α : Type} (x : Except Stop α), R x x
  bind : ∀ {α β : Type} {x y : Except Stop α} {f g : α → Except Stop β}, R x y → (∀ a, R (f a) (g a)) →
    R (x >>= f) (y >>= g)

/-- The value is not used. -/
def stateOf (x : Except Stop (Word × ZState)) : Except Stop ZState := x >>= fun r => .ok r.2

theorem stateOf_bind {α : Type} (x : Except Stop (Word × ZState)) (f : ZState → Except Stop α) :
    (x >>= fun r => f r.2) = stateOf x >>= f := by cases x <;> rfl

theorem stateOf_comp {α : Type} (x : Except Stop α) (f : α → Except Stop (Word × ZState)) :
    stateOf (x >>= f) = x >>= fun a => stateOf (f a) := by cases x <;> rfl

/-- One value in the place of another. -/
theorem stateOf_value (x : Except Stop (Word × ZState)) (v : Word) : stateOf (x >>= fun r => .ok (v, r.2)) = stateOf x := by
  cases x <;> rfl

theorem stateOf_ok (x : Except Stop ZState) (v : Word) : stateOf (x >>= fun z => .ok (v, z)) = x := by cases x <;> rfl

section Tables
variable {t : Tables} {p : Prog}

theorem binOp_ofToken (op : BinOp) : BinOp.ofToken op.token = some op := by cases op <;> rfl

theorem binOp_and (op : BinOp) : op.token = .and ↔ op = .and := by cases op <;> decide

theorem binOp_or (op : BinOp) : op.token = .or ↔ op = .or := by cases op <;> decide

theorem assignOp_ofToken (op : AssignOp) : AssignOp.ofToken op.token = some op := by cases op <;> rfl

theorem unValue_token (op : UnOp) (a : Word) : unValue op.token a = op.apply a := by cases op <;> rfl

theorem Holds.literal (holds : Holds t p) (off : Nat) : t.literal off = p.literal off := by
  rw [Tables.literal, Prog.literal, holds.strtab]

/-- Both find a function of that name, or neither does. -/
theorem Holds.find (holds : Holds t p) (f : Name) : (t.funcs.find? (·.name = f) = none ∧ p.find f = none) ∨
    ∃ entry fn, t.funcs.find? (·.name = f) = some entry ∧ p.find f = some fn ∧ ReadsFunc t.nodes entry fn := by
  have funcs := holds.funcs
  rw [Prog.find]
  generalize t.funcs = entries at funcs
  generalize p.funcs = fns at funcs
  induction funcs with
  | nil => exact Or.inl ⟨rfl, rfl⟩
  | @cons entry fn entries fns head tail ih =>
      rw [List.find?_cons, List.find?_cons, head.name]
      by_cases same : fn.name = f
      · rw [decide_eq_true same]
        exact Or.inr ⟨entry, fn, rfl, rfl, head⟩
      · rw [decide_eq_false same]
        exact ih

/-- The first argument is a string, or is not. -/
theorem strAt_cases {first : Option Nat} {args : List Expr} (chain : ReadsArgs t.nodes first args) :
    (∃ off rest, args = Expr.str off :: rest ∧ t.strAt first = some off) ∨
      (∀ off rest, args ≠ Expr.str off :: rest) ∧ t.strAt first = none := by
  cases chain with
  | nil => exact Or.inr ⟨fun off rest => List.cons_ne_nil _ _ |>.symm, rfl⟩
  | @cons i d e es at_ tree rest =>
      have str : t.strAt (some i) = if d.kind = NodeKind.str then some d.strOff else none := by
        rw [Tables.strAt, Option.bind_some, at_]
      rw [str]
      cases tree with
      | str there kind =>
          obtain rfl := Option.some.inj (at_.symm.trans there)
          rw [if_pos kind]
          exact Or.inl ⟨_, _, rfl, rfl⟩
      | num there kind | var there kind | assign there kind | bin there kind | un there kind | call there kind =>
          obtain rfl := Option.some.inj (at_.symm.trans there)
          refine Or.inr ⟨fun off rest same => ?_, if_neg ?_⟩
          · cases same
          · rw [kind]
            exact NodeKind.noConfusion

/-- The list behind an argument. -/
theorem ReadsArgs.next {first : Option Nat} {args : List Expr} (chain : ReadsArgs t.nodes first args) :
    ReadsArgs t.nodes (first.bind t.next) args.tail := by
  cases chain with
  | nil => exact .nil
  | @cons i d e es at_ tree rest =>
      have next : (some i).bind t.next = d.next := by
        change (t.nodes[i]?).bind (·.next) = _
        rw [at_]
        rfl
      rw [next]
      exact rest

end Tables

namespace Agreement
variable {R : ∀ {α : Type}, Except Stop α → Except Stop α → Prop} (agreement : Agreement @R)

theorem ite {α : Type} {c : Prop} [Decidable c] {x x' y y' : Except Stop α} (yes : c → R x y) (no : ¬ c → R x' y') :
    R (if c then x else x') (if c then y else y') := by
  by_cases holds : c
  · rw [if_pos holds, if_pos holds]
    exact yes holds
  · rw [if_neg holds, if_neg holds]
    exact no holds

/-- The conditions may be spelled in two ways. -/
theorem ite_iff {α : Type} {c d : Prop} [Decidable c] [Decidable d] {x x' y y' : Except Stop α} (same : c ↔ d)
    (yes : R x y) (no : R x' y') : R (if c then x else x') (if d then y else y') := by
  by_cases holds : d
  · rw [if_pos holds, if_pos (same.mpr holds)]
    exact yes
  · rw [if_neg holds, if_neg fun c => holds (same.mp c)]
    exact no

section Exprs
variable {t : Tables} {p : Prog} {node : Nat → ZState → Except Stop (Word × ZState)}
  {tree : Expr → ZState → Except Stop (Word × ZState)} (exprs : ∀ i e z, Reads t.nodes i e → R (node i z) (tree e z))
include agreement exprs

theorem args (es : List Expr) : ∀ (n : Nat) (first : Option Nat) (z : ZState), ReadsArgs t.nodes first es →
    R (t.nodeArgs node n first z) (evalArgs tree (es.take n) z) := by
  induction es with
  | nil =>
      intro n first z chain
      cases chain
      cases n <;> exact agreement.refl _
  | cons e es ih =>
      intro n first z chain
      cases n with
      | zero =>
          cases chain
          exact agreement.refl _
      | succ n =>
          have next := chain.next
          cases chain with
          | cons at_ reads rest =>
              apply agreement.bind (exprs _ e z reads)
              intro a
              exact agreement.bind (ih n _ a.2 next) fun _ => agreement.refl _

theorem optional {i : Option Nat} {e : Option Expr} (z : ZState) (reads : ReadsOpt t.nodes i e) :
    R (stateOf (Tables.evalChild node i z)) (evalOptional tree e z) := by
  cases reads with
  | none => exact agreement.refl _
  | some reads => exact agreement.bind (exprs _ _ z reads) fun _ => agreement.refl _

theorem printf (holds : Holds t p) (l : List UInt8) : ∀ (first : Option Nat) (args : List Expr) (z : ZState),
    ReadsArgs t.nodes first args → R (t.nodePrintf node l first z) (printfFrom p tree l args z) := by
  induction length : l.length using Nat.strongRecOn generalizing l with
  | _ k ih =>
      intro first args z chain
      rw [Tables.nodePrintf.eq_def, printfFrom.eq_def]
      cases l with
      | nil => exact agreement.refl _
      | cons c s =>
          dsimp only
          apply ite fun _ => agreement.refl _
          intro _
          apply ite fun _ => ih s.length (by rw [← length]; simp) s rfl _ _ _ chain
          intro _
          cases s with
          | nil =>
              cases chain with
              | nil => exact agreement.refl _
              | cons at_ reads rest => exact agreement.bind (exprs _ _ z reads) fun _ => agreement.refl _
          | cons d s =>
              have again : ∀ first args z, ReadsArgs t.nodes first args →
                  R (t.nodePrintf node s first z) (printfFrom p tree s args z) :=
                ih s.length (by rw [← length, List.length_cons, List.length_cons]; omega) s rfl
              dsimp only
              apply ite fun _ => again _ _ _ chain
              intro _
              apply ite
              · intro _
                rcases strAt_cases chain with ⟨off, rest, rfl, str⟩ | ⟨other, str⟩
                · rw [str]
                  dsimp only
                  rw [holds.literal]
                  exact again _ _ _ chain.next
                · rw [str]
                  dsimp only
                  split
                  next off rest => exact absurd rfl (other off rest)
                  next => exact again _ _ _ chain
              · intro _
                have next := chain.next
                cases chain with
                | nil => exact again _ _ _ next
                | cons at_ reads rest => exact agreement.bind (exprs _ _ z reads) fun _ => again _ _ _ next

end Exprs

section Stmts
variable {t : Tables} {p : Prog} {node : Nat → ZState → Except Stop (Word × ZState)}
  {run : Stmt → ZState → Except Stop ZState}
  (stmts : ∀ i s z, ReadsStmt t.nodes i s → R (stateOf (node i z)) (run s z))
include agreement stmts

/-- Going on with the state after a statement. -/
theorem after {i : Nat} {s : Stmt} (z : ZState) (reads : ReadsStmt t.nodes i s) {α : Type}
    {f g : ZState → Except Stop α} (more : ∀ z, R (f z) (g z)) :
    R (node i z >>= fun r => f r.2) (run s z >>= g) := by
  rw [stateOf_bind]
  exact agreement.bind (stmts i s z reads) more

theorem block (ss : List Stmt) : ∀ (k : Nat) (first : Option Nat) (z : ZState), ReadsStmts t.nodes first ss →
    ss.length ≤ k → R (t.nodeBlock node k first z) (evalBlock run ss z) := by
  induction ss with
  | nil =>
      intro k first z chain _
      cases chain
      cases k <;> exact agreement.refl _
  | cons s ss ih =>
      intro k first z chain enough
      cases chain with
      | @cons i d _ _ at_ reads rest =>
          obtain ⟨k, rfl⟩ : ∃ j, k = j + 1 := ⟨k - 1, by rw [List.length_cons] at enough; omega⟩
          have next : t.next i = d.next := by
            rw [Tables.next, at_]
            rfl
          apply ite fun _ => agreement.refl _
          intro _
          apply agreement.after stmts z reads
          intro z
          rw [next]
          exact ih k d.next z rest (Nat.le_of_succ_le_succ enough)

theorem call (holds : Holds t p) (f : Name) (vs : List Word) (z : ZState) :
    R (t.nodeCall node f vs z) (callFunction p run f vs z) := by
  apply ite fun _ => agreement.refl _
  intro _
  apply ite fun _ => agreement.refl _
  intro _
  apply ite fun _ => agreement.refl _
  intro _
  apply ite fun _ => agreement.refl _
  intro _
  rcases holds.find f with ⟨none_, none'⟩ | ⟨entry, fn, found, found', reads⟩
  · rw [none_, none']
    exact agreement.refl _
  · rw [found, found']
    apply ite fun _ => agreement.refl _
    intro _
    rw [reads.params]
    exact agreement.after stmts (f := fun z => .ok (z.returnValue, z.leave)) _ reads.body fun _ => agreement.refl _

end Stmts

end Agreement

/-- A chain of statements visits no node twice, so it is no longer than the table. -/
theorem ReadsStmts.short {nodes : List Node} {first : Option Nat} {ss : List Stmt} (chain : ReadsStmts nodes first ss) :
    ss.length ≤ nodes.length := by
  have visited : ∀ {first : Option Nat}, ReadsStmts nodes first ss → ∃ ids : List Nat, ids.length = ss.length ∧ ids.Nodup ∧
      ∀ i ∈ ids, i < nodes.length ∧ ∃ ts, ReadsStmts nodes (some i) ts ∧ ts.length ≤ ss.length := by
    clear chain
    induction ss with
    | nil => exact fun _ => ⟨[], rfl, List.nodup_nil, fun i member => absurd member List.not_mem_nil⟩
    | cons s ss ih =>
        intro first chain
        cases chain with
        | @cons i d _ _ at_ tree rest =>
            obtain ⟨ids, length, nodup, inside⟩ := ih rest
            have whole : ReadsStmts nodes (some i) (s :: ss) := .cons at_ tree rest
            have new : i ∉ ids := by
              intro member
              obtain ⟨-, ts, again, shorter⟩ := inside i member
              have same := whole.unique (fun s _ => ReadsStmt.unique s) again
              rw [← same, List.length_cons] at shorter
              exact Nat.not_succ_le_self _ shorter
            refine ⟨i :: ids, by rw [List.length_cons, List.length_cons, length], List.nodup_cons.mpr ⟨new, nodup⟩, ?_⟩
            intro j member
            rcases List.mem_cons.mp member with rfl | member
            · exact ⟨(List.getElem?_eq_some_iff.mp at_).1, _, whole, Nat.le_refl _⟩
            · obtain ⟨low, ts, reads, shorter⟩ := inside j member
              exact ⟨low, ts, reads, Nat.le_succ_of_le shorter⟩
  obtain ⟨ids, length, nodup, inside⟩ := visited chain
  have below : ids ⊆ List.range nodes.length := fun i member => List.mem_range.mpr (inside i member).1
  calc
    ss.length = ids.length := length.symm
    _ ≤ (List.range nodes.length).length := (nodup.subperm below).length_le
    _ = nodes.length := List.length_range

section Step
variable {t : Tables} {z : ZState}

theorem evalNode_failed (n i : Nat) (failed : z.hadError = true) : t.evalNode (n + 1) i z = .ok (0, z) := by
  rw [Tables.evalNode, if_pos failed]

theorem evalNode_at {n i : Nat} {d : Node} (at_ : t.nodes[i]? = some d) (fine : ¬ z.hadError = true) :
    t.evalNode (n + 1) i z = t.nodeSwitch (t.evalNode n) (t.nodeWhile n) (t.nodeFor n) d z := by
  rw [Tables.evalNode, if_neg fine, at_]

end Step

section Steps
variable {R : ∀ {α : Type}, Except Stop α → Except Stop α → Prop} (agreement : Agreement @R) {t : Tables} {p : Prog}

/-- With fuel `n` for the nodes and `k` for the trees, expressions agree. -/
def ExprsAgree (R : ∀ {α : Type}, Except Stop α → Except Stop α → Prop) (t : Tables) (p : Prog) (n k : Nat) : Prop :=
  ∀ i e z, Reads t.nodes i e → R (t.evalNode n i z) (evalExpr p k e z)

def StmtsAgree (R : ∀ {α : Type}, Except Stop α → Except Stop α → Prop) (t : Tables) (p : Prog) (n k : Nat) : Prop :=
  ∀ i s z, ReadsStmt t.nodes i s → R (stateOf (t.evalNode n i z)) (evalStmt p k s z)

def WhilesAgree (R : ∀ {α : Type}, Except Stop α → Except Stop α → Prop) (t : Tables) (p : Prog) (n k : Nat) : Prop :=
  ∀ d i j c s z, d.child0 = some i → Reads t.nodes i c → d.child1 = some j → ReadsStmt t.nodes j s →
    R (t.nodeWhile n d z) (evalWhile p k c s z)

def ForsAgree (R : ∀ {α : Type}, Except Stop α → Except Stop α → Prop) (t : Tables) (p : Prog) (n k : Nat) : Prop :=
  ∀ d j c post s z, ReadsOpt t.nodes d.child1 c → ReadsOpt t.nodes d.child2 post → d.child3 = some j →
    ReadsStmt t.nodes j s → R (t.nodeFor n d z) (evalFor p k c post s z)

variable {n k : Nat} (exprs : ExprsAgree @R t p n k) (stmts : StmtsAgree @R t p n k)
include agreement exprs stmts

theorem exprs_agree_step (holds : Holds t p) : ExprsAgree @R t p (n + 1) (k + 1) := by
  intro i e z reads
  rw [evalExpr.eq_def]
  by_cases failed : z.hadError = true
  · rw [evalNode_failed n i failed]
    dsimp only
    rw [if_pos failed]
    exact agreement.refl _
  dsimp only
  rw [if_neg failed]
  cases reads with
  | num at_ kind | str at_ kind | var at_ kind =>
      rw [evalNode_at at_ failed, Tables.nodeSwitch, kind]
      exact agreement.refl _
  | @assign _ v _ d x op rhs at_ kind operator left var varKind right value =>
      have target : d.child0.bind (t.nodes[·]?) = some x := by
        rw [left]
        exact var
      rw [evalNode_at at_ failed, Tables.nodeSwitch, kind]
      dsimp only
      rw [Tables.nodeAssign, target, right]
      apply agreement.bind (exprs _ _ z value)
      intro a
      dsimp only
      cases a.2.findVar x.name with
      | none =>
          simp only [decide_eq_true_eq]
          exact agreement.refl _
      | some old =>
          dsimp only
          rw [operator, assignOp_ofToken]
          exact agreement.refl _
  | @bin _ _ _ _ op a b at_ kind operator left leftTree right rightTree =>
      have rightAgrees {r r' : Word × ZState → Except Stop (Word × ZState)} (z : ZState) (same : ∀ a, r a = r' a) :
          R (t.evalNode n _ z >>= r) (evalExpr p k b z >>= r') :=
        agreement.bind (exprs _ _ z rightTree) fun a => same a ▸ agreement.refl _
      rw [evalNode_at at_ failed, Tables.nodeSwitch, kind]
      dsimp only
      rw [Tables.nodeBin, left, right, operator]
      apply agreement.bind (exprs _ _ z leftTree)
      intro x
      apply Agreement.ite_iff (binOp_and op)
      · exact Agreement.ite (fun _ => agreement.refl _) fun _ => rightAgrees _ fun _ => rfl
      · apply Agreement.ite_iff (binOp_or op)
        · exact Agreement.ite (fun _ => agreement.refl _) fun _ => rightAgrees _ fun _ => rfl
        · rw [binOp_ofToken]
          exact rightAgrees _ fun _ => rfl
  | un at_ kind operator child operand =>
      rw [evalNode_at at_ failed, Tables.nodeSwitch, kind]
      dsimp only
      rw [child]
      apply agreement.bind (exprs _ _ z operand)
      intro a
      rw [operator, unValue_token]
      exact agreement.refl _
  | call at_ kind count chain =>
      rw [evalNode_at at_ failed, Tables.nodeSwitch, kind]
      dsimp only
      rw [Tables.nodeCallExpr]
      apply Agreement.ite
      · intro _
        rcases strAt_cases chain with ⟨off, rest, rfl, str⟩ | ⟨other, str⟩
        · rw [str]
          dsimp only
          rw [holds.literal]
          exact agreement.refl _
        · rw [str]
          dsimp only
          split
          next off rest => exact absurd rfl (other off rest)
          next => exact agreement.refl _
      · intro _
        apply Agreement.ite
        · intro _
          have next := chain.next
          rcases strAt_cases chain with ⟨off, rest, rfl, str⟩ | ⟨other, str⟩
          · rw [str]
            dsimp only
            rw [holds.strtab]
            exact agreement.bind (agreement.printf exprs holds _ _ _ z next) fun _ => agreement.refl _
          · rw [str]
            dsimp only
            split
            next off rest => exact absurd rfl (other off rest)
            next => exact agreement.refl _
        · intro _
          apply agreement.bind (agreement.args exprs _ maxArgs _ z chain)
          intro a
          exact agreement.call stmts holds _ _ _

theorem whiles_agree_step (whiles : WhilesAgree @R t p n k) : WhilesAgree @R t p (n + 1) (k + 1) := by
  intro d i j c s z cond condTree child body
  rw [Tables.nodeWhile, evalWhile]
  apply Agreement.ite fun _ => agreement.refl _
  intro _
  rw [cond]
  apply agreement.bind (exprs _ _ z condTree)
  intro a
  apply Agreement.ite fun _ => agreement.refl _
  intro _
  rw [child]
  exact agreement.after stmts (f := fun z => t.nodeWhile n d z) _ body fun z =>
    whiles d i j c s z cond condTree child body

theorem fors_agree_step (fors : ForsAgree @R t p n k) : ForsAgree @R t p (n + 1) (k + 1) := by
  intro d j c post s z cond after child body
  rw [Tables.nodeFor, evalFor]
  apply Agreement.ite fun _ => agreement.refl _
  intro _
  have rest (a : Word × ZState) : R (if a.1 = 0 then .ok a.2 else do
      let ran ← Tables.evalChild (t.evalNode n) d.child3 { a.2 with hadContinue := false }
      let next ← Tables.evalChild (t.evalNode n) d.child2 { ran.2 with hadContinue := false }
      t.nodeFor n d next.2)
      (if a.1 = 0 then .ok a.2 else do
      let z ← evalStmt p k s { a.2 with hadContinue := false }
      let z ← evalOptional (evalExpr p k) post { z with hadContinue := false }
      evalFor p k c post s z) := by
    apply Agreement.ite fun _ => agreement.refl _
    intro _
    rw [child]
    apply agreement.after stmts (f := fun z => Tables.evalChild (t.evalNode n) d.child2 { z with hadContinue := false } >>=
      fun r => t.nodeFor n d r.2) _ body
    intro z
    rw [stateOf_bind]
    exact agreement.bind (agreement.optional exprs _ after) fun z => fors d j c post s z cond after child body
  have cond' := cond
  revert cond'
  generalize d.child1 = first
  intro cond'
  cases cond' with
  | none => exact agreement.bind (agreement.refl (.ok (1, z))) rest
  | some tree => exact agreement.bind (exprs _ _ z tree) rest

theorem stmts_agree_step (bare : ExprsAgree @R t p (n + 1) k) (whiles : WhilesAgree @R t p n k)
    (fors : ForsAgree @R t p n k) : StmtsAgree @R t p (n + 1) (k + 1) := by
  intro i s z reads
  rw [evalStmt.eq_def]
  by_cases failed : z.hadError = true
  · rw [evalNode_failed n i failed]
    dsimp only
    rw [if_pos failed]
    exact agreement.refl _
  dsimp only
  rw [if_neg failed]
  cases reads with
  | bare tree => exact agreement.bind (bare _ _ z tree) fun _ => agreement.refl _
  | expr at_ kind child tree =>
      rw [evalNode_at at_ failed, Tables.nodeSwitch, kind]
      dsimp only
      rw [child]
      exact agreement.bind (exprs _ _ z tree) fun _ => agreement.refl _
  | @ite _ _ _ d _ _ _ at_ kind cond condTree yes yesTree no =>
      rw [evalNode_at at_ failed, Tables.nodeSwitch, kind]
      dsimp only
      rw [Tables.nodeIf, cond, yes, stateOf_comp]
      apply agreement.bind (exprs _ _ z condTree)
      intro a
      rw [stateOf_value]
      by_cases zero : a.1 = 0
      · rw [if_neg (not_not.mpr zero), if_neg (not_not.mpr zero)]
        revert no
        generalize d.child2 = other
        intro no
        cases no with
        | none => exact agreement.refl _
        | some tree => exact stmts _ _ a.2 tree
      · rw [if_pos zero, if_pos zero]
        exact stmts _ _ a.2 yesTree
  | «while» at_ kind cond condTree child body =>
      rw [evalNode_at at_ failed, Tables.nodeSwitch, kind]
      dsimp only
      rw [stateOf_comp]
      exact agreement.bind (whiles _ _ _ _ _ z cond condTree child body) fun _ => agreement.refl _
  | «for» at_ kind first cond after child body =>
      rw [evalNode_at at_ failed, Tables.nodeSwitch, kind]
      dsimp only
      rw [stateOf_comp]
      have rest (z : ZState) := agreement.bind (fors _ _ _ _ _ z cond after child body)
        (f := fun z => .ok { z with hadBreak := false }) fun _ => agreement.refl _
      have whole := agreement.bind (agreement.optional exprs z first) rest
      rw [← stateOf_bind] at whole
      simp only [stateOf_comp]
      exact whole
  | block at_ kind chain =>
      rw [evalNode_at at_ failed, Tables.nodeSwitch, kind]
      dsimp only
      rw [stateOf_ok]
      exact agreement.block stmts _ _ _ z chain chain.short
  | @ret _ d _ at_ kind tree =>
      rw [evalNode_at at_ failed, Tables.nodeSwitch, kind]
      dsimp only
      rw [Tables.nodeReturn]
      revert tree
      generalize d.child0 = value
      intro tree
      cases tree with
      | none => exact agreement.refl _
      | some tree =>
          dsimp only
          rw [stateOf_comp]
          exact agreement.bind (exprs _ _ z tree) fun _ => agreement.refl _
  | brk at_ kind | cont at_ kind =>
      rw [evalNode_at at_ failed, Tables.nodeSwitch, kind]
      exact agreement.refl _

end Steps

/-- `y` is what `x` comes to, unless the fuel for `x` is used up. -/
def Upto {α : Type} (x y : Except Stop α) : Prop := x = .error .fuel ∨ x = y

theorem Upto.bind {α β : Type} {x y : Except Stop α} {f g : α → Except Stop β} (first : Upto x y)
    (more : ∀ a, Upto (f a) (g a)) : Upto (x >>= f) (y >>= g) := by
  rcases first with rfl | rfl
  · exact Or.inl rfl
  · cases x with
    | error e => exact Or.inr rfl
    | ok a => exact more a

theorem upto_agreement : Agreement @Upto := ⟨fun _ => Or.inr rfl, Upto.bind⟩

theorem upto_agreement' : Agreement fun {_} x y => Upto y x :=
  ⟨fun _ => Or.inr rfl, fun first more => Upto.bind first more⟩

theorem Upto.result {α : Type} {x y r : Except Stop α} (upto : Upto x y) (done : r ≠ .error .fuel) (ran : x = r) : y = r := by
  rcases upto with short | same
  · exact absurd (ran.symm.trans short) done
  · exact same.symm.trans ran

structure Agree (R : ∀ {α : Type}, Except Stop α → Except Stop α → Prop) (t : Tables) (p : Prog) (n k : Nat) : Prop where
  exprs : ExprsAgree @R t p n k
  stmts : StmtsAgree @R t p n k
  whiles : WhilesAgree @R t p n k
  fors : ForsAgree @R t p n k

section Directions
variable {t : Tables} {p : Prog} (holds : Holds t p)
include holds

/-- The fuel of the tree is enough for the nodes. -/
theorem trees_agree (k : Nat) : ∀ n, k ≤ n → Agree (fun {_} x y => Upto y x) t p n k := by
  induction k with
  | zero =>
      intro n _
      constructor
      · exact fun _ _ _ _ => Or.inl rfl
      · exact fun _ _ _ _ => Or.inl rfl
      · exact fun _ _ _ _ _ _ _ _ _ _ => Or.inl rfl
      · exact fun _ _ _ _ _ _ _ _ _ _ => Or.inl rfl
  | succ k ih =>
      intro n enough
      obtain ⟨m, rfl⟩ : ∃ m, n = m + 1 := ⟨n - 1, by omega⟩
      have below := ih m (by omega)
      constructor
      · exact exprs_agree_step upto_agreement' below.exprs below.stmts holds
      · exact stmts_agree_step upto_agreement' below.exprs below.stmts (ih (m + 1) (by omega)).exprs below.whiles below.fors
      · exact whiles_agree_step upto_agreement' below.exprs below.stmts below.whiles
      · exact fors_agree_step upto_agreement' below.exprs below.stmts below.fors

/-- The other way the trees want twice as much: a declaration is a statement around an expression. -/
theorem nodes_agree (n : Nat) : ∀ k, 2 * n ≤ k → Agree @Upto t p n k := by
  induction n with
  | zero =>
      intro k _
      constructor
      · exact fun _ _ _ _ => Or.inl rfl
      · exact fun _ _ _ _ => Or.inl rfl
      · exact fun _ _ _ _ _ _ _ _ _ _ => Or.inl rfl
      · exact fun _ _ _ _ _ _ _ _ _ _ => Or.inl rfl
  | succ n ih =>
      intro k enough
      obtain ⟨j, rfl⟩ : ∃ j, k = j + 1 + 1 := ⟨k - 2, by omega⟩
      have below := ih (j + 1) (by omega)
      have lower := ih j (by omega)
      constructor
      · exact exprs_agree_step upto_agreement below.exprs below.stmts holds
      · exact stmts_agree_step upto_agreement below.exprs below.stmts
          (exprs_agree_step upto_agreement lower.exprs lower.stmts holds) below.whiles below.fors
      · exact whiles_agree_step upto_agreement below.exprs below.stmts below.whiles
      · exact fors_agree_step upto_agreement below.exprs below.stmts below.fors

end Directions

/-- A call of any function in any state does the same in the tables as on the trees that stand
in them, whether it returns, traps or waits for a key. -/
theorem tables_run_as_trees {t : Tables} {p : Prog} (holds : Holds t p) (f : Name) (vs : List Word) (z : ZState)
    {r : Except Stop (Word × ZState)} (done : r ≠ .error .fuel) :
    (∃ n, t.nodeCall (t.evalNode n) f vs z = r) ↔ ∃ n, callFunction p (evalStmt p n) f vs z = r := by
  constructor
  · intro ⟨n, ran⟩
    have stmts := (nodes_agree holds n (2 * n) (Nat.le_refl _)).stmts
    exact ⟨2 * n, (upto_agreement.call stmts holds f vs z).result done ran⟩
  · intro ⟨n, ran⟩
    have stmts := (trees_agree holds n n (Nat.le_refl n)).stmts
    exact ⟨n, (upto_agreement'.call stmts holds f vs z).result done ran⟩

/-- The tables of `countProg`. -/
def countTables : Tables := ⟨funcsLay false 0 countProg.funcs, funcEntries (fun _ => true) 0 countProg.funcs, []⟩

theorem countTables_holds : Holds countTables countProg := ⟨funcs_read countProg_fits false fun _ => true, rfl⟩

/-- The state behind its main. -/
def afterCount : ZState :=
  { ZState.start [] with out := [48, 10, 50, 10], notes := [.called false, .back 0 0] }

theorem tables_run_as_trees_count :
    ∃ n, countTables.nodeCall (countTables.evalNode n) Name.main [] (ZState.start []) = .ok (0, afterCount) :=
  (tables_run_as_trees countTables_holds Name.main [] (ZState.start []) (by simp)).mpr ⟨30, by rfl⟩

end Zenbite.Zbc
