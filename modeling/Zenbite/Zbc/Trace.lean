import Zenbite.Zbc.Eval

/-! What the evaluator does on the way: its arithmetic and its reads of the string
table, in order. The trace follows the evaluator, whose results it uses between steps. -/

namespace Zenbite.Zbc

inductive Event where
  | bin (op : BinOp) (a b : Word)
  | assign (op : AssignOp) (old rv : Word)
  | un (op : UnOp) (a : Word)
  /-- A printf with the format at `off`; do all the arguments that it evaluates come back. -/
  | format (off : Nat) (through : Bool)
  /-- A byte of the string table, looked at for the literal at `start`. -/
  | read (start pos : Nat)
  deriving DecidableEq

/-- A function without parameters. -/
theorem noParams_few : ([] : List Name).length ≤ 8 := Nat.zero_le 8

/-- What happens behind a step, if that comes back. -/
def after {α : Type} (r : Except Stop α) (next : α → List Event) : List Event :=
  match r with
  | .ok a => next a
  | .error _ => []

def isOk {α : Type} : Except Stop α → Bool
  | .ok _ => true
  | .error _ => false

/-- kputs on the literal at an offset. -/
def textReads (p : Prog) (off : Nat) : List Event :=
  (List.range ((p.literal off).length + 1)).map fun i => .read off (off + i)

/-- An argument of printf that is not there counts as 0. -/
def evalFirst (ev : Expr → ZState → Except Stop (Word × ZState)) :
    List Expr → ZState → Except Stop (Word × ZState)
  | [], z => .ok (0, z)
  | e :: _, z => ev e z

section Parts
variable (p : Prog) (ev : Expr → ZState → Except Stop (Word × ZState)) (trace : Expr → ZState → List Event)

def traceArgs : List Expr → ZState → List Event
  | [], _ => []
  | e :: es, z => trace e z ++ after (ev e z) fun r => traceArgs es r.2

def traceOptional : Option Expr → ZState → List Event
  | none, _ => []
  | some e, z => trace e z

/-- The loop of printf over the string table from position `pos` on. -/
def traceFormat (start : Nat) : Nat → List UInt8 → List Expr → ZState → List Event
  | pos, [], _, _ => [.read start pos]
  | pos, c :: s, args, z =>
    .read start pos ::
      if c = 0 then []
      else if c ≠ 37 then traceFormat start (pos + 1) s args (z.print [c])
      else
        .read start (pos + 1) ::
          match s with
          | [] =>
            traceOptional trace args.head? z ++ after (evalFirst ev args z) fun _ => [.read start (pos + 2)]
          | d :: s =>
            if d = 37 then traceFormat start (pos + 2) s args (z.print [37])
            else if d = 115 then
              match args with
              | .str off :: rest =>
                textReads p off ++ traceFormat start (pos + 2) s rest (z.print (p.literal off))
              | _ => traceFormat start (pos + 2) s args z
            else
              traceOptional trace args.head? z ++ after (evalFirst ev args z) fun r =>
                traceFormat start (pos + 2) s args.tail (r.2.print (convText d r.1))

end Parts

def traceCall (p : Prog) (trace : Stmt → ZState → List Event) (f : Name) (vs : List Word) (z : ZState) :
    List Event :=
  if isBuiltin f ∨ f = Name.puts then []
  else
    match p.find f with
    | none => []
    | some fn =>
      if maxCall ≤ z.scopes.length then [] else trace (.block fn.body) (z.enter (bindParams fn.params vs))

def traceBlock (run : Stmt → ZState → Except Stop ZState) (trace : Stmt → ZState → List Event) :
    List Stmt → ZState → List Event
  | [], _ => []
  | s :: ss, z =>
    if z.hadReturn || z.hadBreak || z.hadContinue || z.hadError then []
    else trace s z ++ after (run s z) fun z => traceBlock run trace ss z

mutual

def traceExpr (p : Prog) : Nat → Expr → ZState → List Event
  | 0, _, _ => []
  | n + 1, e, z =>
    if z.hadError then []
    else
      match e with
      | .num _ => []
      | .str _ => []
      | .var _ => []
      | .assign _ op x rhs =>
        traceExpr p n rhs z ++ after (evalExpr p n rhs z) fun r =>
          match r.2.findVar x with
          | none => []
          | some old => [.assign op old r.1]
      | .bin op a b =>
        traceExpr p n a z ++ after (evalExpr p n a z) fun r =>
          if op = .and then if r.1 = 0 then [] else traceExpr p n b r.2
          else if op = .or then if r.1 ≠ 0 then [] else traceExpr p n b r.2
          else traceExpr p n b r.2 ++ after (evalExpr p n b r.2) fun s => [.bin op r.1 s.1]
      | .un op a => traceExpr p n a z ++ after (evalExpr p n a z) fun r => [.un op r.1]
      | .call f args =>
        if f = Name.puts then
          match args with
          | .str off :: _ => textReads p off
          | _ => []
        else if f = Name.printf then
          match args with
          | .str off :: rest =>
            .format off (isOk (printfFrom p (evalExpr p n) (p.literal off) rest z)) ::
              traceFormat p (evalExpr p n) (traceExpr p n) off off (p.strtab.drop off) rest z
          | _ => []
        else
          traceArgs (evalExpr p n) (traceExpr p n) (args.take maxArgs) z ++
            after (evalArgs (evalExpr p n) (args.take maxArgs) z) fun r =>
              traceCall p (traceStmt p n) f r.1 r.2

def traceStmt (p : Prog) : Nat → Stmt → ZState → List Event
  | 0, _, _ => []
  | n + 1, s, z =>
    if z.hadError then []
    else
      match s with
      | .expr e => traceExpr p n e z
      | .ite cond then_ else_ =>
        traceExpr p n cond z ++ after (evalExpr p n cond z) fun r =>
          if r.1 ≠ 0 then traceStmt p n then_ r.2
          else
            match else_ with
            | none => []
            | some s => traceStmt p n s r.2
      | .while cond body => traceWhile p n cond body z
      | .for init cond post body =>
        traceOptional (traceExpr p n) init z ++ after (evalOptional (evalExpr p n) init z) fun z =>
          traceFor p n cond post body z
      | .block ss => traceBlock (evalStmt p n) (traceStmt p n) ss z
      | .ret e => traceOptional (traceExpr p n) e z
      | .brk => []
      | .cont => []

def traceWhile (p : Prog) : Nat → Expr → Stmt → ZState → List Event
  | 0, _, _, _ => []
  | n + 1, cond, body, z =>
    if z.hadReturn || z.hadBreak || z.hadError then []
    else
      traceExpr p n cond z ++ after (evalExpr p n cond z) fun r =>
        if r.1 = 0 then []
        else
          traceStmt p n body { r.2 with hadContinue := false } ++
            after (evalStmt p n body { r.2 with hadContinue := false }) fun z => traceWhile p n cond body z

def traceFor (p : Prog) : Nat → Option Expr → Option Expr → Stmt → ZState → List Event
  | 0, _, _, _, _ => []
  | n + 1, cond, post, body, z =>
    if z.hadReturn || z.hadBreak || z.hadError then []
    else
      traceOptional (traceExpr p n) cond z ++ after (evalCond (evalExpr p n) cond z) fun r =>
        if r.1 = 0 then []
        else
          traceStmt p n body { r.2 with hadContinue := false } ++
            after (evalStmt p n body { r.2 with hadContinue := false }) fun z =>
              traceOptional (traceExpr p n) post { z with hadContinue := false } ++
                after (evalOptional (evalExpr p n) post { z with hadContinue := false }) fun z =>
                  traceFor p n cond post body z

end

/-- The run of main. -/
def traceMain (p : Prog) (fuel : Nat) (keys : List Word) : List Event :=
  traceCall p (traceStmt p fuel) Name.main [] (ZState.start keys)

/-! A relation between results and traces that every way to build a run keeps. -/

structure Tracks (p : Prog) (R : ∀ {α : Type}, Except Stop α → List Event → Prop) : Prop where
  ok : ∀ {α : Type} (a : α), R (.ok a) []
  fuel : ∀ {α : Type}, R (.error .fuel : Except Stop α) []
  waiting : ∀ {α : Type}, R (.error .waiting : Except Stop α) []
  bind : ∀ {α β : Type} {x : Except Stop α} {f : α → Except Stop β} {t : List Event} {g : α → List Event},
    R x t → (∀ a, x = .ok a → R (f a) (g a)) → R (x >>= f) (t ++ after x g)
  bin : ∀ (op : BinOp) (a b : Word), R (op.apply a b) [.bin op a b]
  assign : ∀ (op : AssignOp) (old rv : Word), R (op.apply old rv) [.assign op old rv]
  un : ∀ {α : Type} (op : UnOp) (a : Word) (r : α), R (.ok r) [.un op a]
  puts : ∀ {α : Type} (off : Nat) (r : α), R (.ok r) (textReads p off)
  printf : ∀ {ev : Expr → ZState → Except Stop (Word × ZState)} {trace : Expr → ZState → List Event},
    (∀ e z, R (ev e z) (trace e z)) → ∀ off args z,
      R (printfFrom p ev (p.strtab.drop off) args z)
        (.format off (isOk (printfFrom p ev (p.literal off) args z)) ::
          traceFormat p ev trace off off (p.strtab.drop off) args z)

theorem after_nil {α : Type} (r : Except Stop α) : (after r fun _ => []) = [] := by
  cases r <;> rfl

namespace Tracks
variable {p : Prog} {R : ∀ {α : Type}, Except Stop α → List Event → Prop} (tracks : Tracks p @R)
include tracks

/-- A last step that only hands on a value. -/
theorem map {α β : Type} {x : Except Stop α} {t : List Event} (first : R x t) (f : α → β) :
    R (x >>= fun a => .ok (f a)) t := by
  have whole := tracks.bind first (g := fun _ => []) fun a _ => tracks.ok (f a)
  rwa [after_nil, List.append_nil] at whole

omit tracks in
theorem ite {α : Type} {c : Prop} [Decidable c] {x y : Except Stop α} {s t : List Event}
    (yes : c → R x s) (no : ¬c → R y t) : R (if c then x else y) (if c then s else t) := by
  by_cases holds : c
  · rw [if_pos holds, if_pos holds]
    exact yes holds
  · rw [if_neg holds, if_neg holds]
    exact no holds

section Exprs
variable {ev : Expr → ZState → Except Stop (Word × ZState)} {trace : Expr → ZState → List Event}
  (exprs : ∀ e z, R (ev e z) (trace e z))
include exprs

theorem args (es : List Expr) : ∀ z, R (evalArgs ev es z) (traceArgs ev trace es z) := by
  induction es with
  | nil => exact fun _ => tracks.ok _
  | cons e es ih =>
      intro z
      exact tracks.bind (exprs e z) fun a _ => tracks.map (ih a.2) _

theorem optional (e : Option Expr) (z : ZState) :
    R (evalOptional ev e z) (traceOptional trace e z) := by
  cases e with
  | none => exact tracks.ok _
  | some e => exact tracks.map (exprs e z) _

theorem cond (e : Option Expr) (z : ZState) : R (evalCond ev e z) (traceOptional trace e z) := by
  cases e with
  | none => exact tracks.ok _
  | some e => exact exprs e z

end Exprs

section Stmts
variable {run : Stmt → ZState → Except Stop ZState} {trace : Stmt → ZState → List Event}
  (stmts : ∀ s z, R (run s z) (trace s z))
include stmts

theorem block (ss : List Stmt) : ∀ z, R (evalBlock run ss z) (traceBlock run trace ss z) := by
  induction ss with
  | nil => exact fun _ => tracks.ok _
  | cons s ss ih =>
      intro z
      apply ite fun _ => tracks.ok _
      intro _
      exact tracks.bind (stmts s z) fun z' _ => ih z'

theorem call (f : Name) (vs : List Word) (z : ZState) :
    R (callFunction p run f vs z) (traceCall p trace f vs z) := by
  have builtin : ∀ {r : Except Stop (Word × ZState)} {t : List Event}, isBuiltin f ∨ f = Name.puts →
      R r [] → R r (if isBuiltin f ∨ f = Name.puts then [] else t) := by
    intro r t own none
    rwa [if_pos own]
  rw [callFunction.eq_def, traceCall]
  by_cases print : f = Name.print
  · rw [if_pos print]
    refine builtin (Or.inl (Or.inl print)) ?_
    cases vs <;> exact tracks.ok _
  by_cases putchar : f = Name.putchar
  · rw [if_neg print, if_pos putchar]
    refine builtin (Or.inl (Or.inr (Or.inl putchar))) ?_
    cases vs <;> exact tracks.ok _
  by_cases getchar : f = Name.getchar
  · rw [if_neg print, if_neg putchar, if_pos getchar]
    refine builtin (Or.inl (Or.inr (Or.inr getchar))) ?_
    cases z.keys with
    | nil => exact tracks.waiting
    | cons => exact tracks.ok _
  by_cases puts : f = Name.puts
  · rw [if_neg print, if_neg putchar, if_neg getchar, if_pos puts]
    exact builtin (Or.inr puts) (tracks.ok _)
  have own : ¬(isBuiltin f ∨ f = Name.puts) := by
    rintro ((is | is | is) | is)
    · exact print is
    · exact putchar is
    · exact getchar is
    · exact puts is
  rw [if_neg print, if_neg putchar, if_neg getchar, if_neg puts, if_neg own]
  cases p.find f with
  | none => exact tracks.ok _
  | some fn =>
    apply ite fun _ => tracks.ok _
    intro _
    exact tracks.map (stmts _ _) _

end Stmts

/-- The relation between a run with fuel `n` and its trace. -/
structure At (p : Prog) (R : ∀ {α : Type}, Except Stop α → List Event → Prop) (n : Nat) : Prop where
  expr : ∀ e z, R (evalExpr p n e z) (traceExpr p n e z)
  stmt : ∀ s z, R (evalStmt p n s z) (traceStmt p n s z)
  loop : ∀ cond body z, R (evalWhile p n cond body z) (traceWhile p n cond body z)
  steps : ∀ cond post body z, R (evalFor p n cond post body z) (traceFor p n cond post body z)

section Step
variable {n : Nat} (less : At p @R n)
include less

theorem expr_step (e : Expr) (z : ZState) : R (evalExpr p (n + 1) e z) (traceExpr p (n + 1) e z) := by
  rw [evalExpr.eq_def, traceExpr.eq_def]
  apply ite fun _ => tracks.ok _
  intro _
  cases e with
  | num v => exact tracks.ok _
  | str off => exact tracks.ok _
  | var x =>
      dsimp only
      cases z.findVar x <;> exact tracks.ok _
  | assign decl op x rhs =>
      apply tracks.bind (less.expr rhs z)
      intro r _
      dsimp only
      cases r.2.findVar x with
      | none =>
          dsimp only
          split <;> exact tracks.ok _
      | some old => exact tracks.map (tracks.assign op old r.1) _
  | un op a =>
      apply tracks.bind (less.expr a z)
      intro r _
      exact tracks.un op r.1 _
  | bin op a b =>
      apply tracks.bind (less.expr a z)
      intro r _
      apply ite
      · intro _
        apply ite fun _ => tracks.ok _
        intro _
        exact tracks.map (less.expr b r.2) _
      · intro _
        apply ite
        · intro _
          apply ite fun _ => tracks.ok _
          intro _
          exact tracks.map (less.expr b r.2) _
        · intro _
          apply tracks.bind (less.expr b r.2)
          intro s _
          exact tracks.map (tracks.bin op r.1 s.1) _
  | call f args =>
      apply ite
      · intro _
        cases args with
        | nil => exact tracks.ok _
        | cons e rest =>
            cases e with
            | str off => exact tracks.puts off _
            | _ => exact tracks.ok _
      · intro _
        apply ite
        · intro _
          cases args with
          | nil => exact tracks.ok _
          | cons e rest =>
              cases e with
              | str off => exact tracks.map (tracks.printf less.expr off rest z) _
              | _ => exact tracks.ok _
        · intro _
          apply tracks.bind (tracks.args less.expr _ z)
          intro r _
          exact tracks.call less.stmt f r.1 r.2

theorem stmt_step (s : Stmt) (z : ZState) : R (evalStmt p (n + 1) s z) (traceStmt p (n + 1) s z) := by
  rw [evalStmt.eq_def, traceStmt.eq_def]
  apply ite fun _ => tracks.ok _
  intro _
  cases s with
  | expr e => exact tracks.map (less.expr e z) _
  | ite cond then_ else_ =>
      apply tracks.bind (less.expr cond z)
      intro r _
      apply ite fun _ => less.stmt _ _
      intro _
      cases else_ with
      | none => exact tracks.ok _
      | some s => exact less.stmt _ _
  | «while» cond body => exact tracks.map (less.loop cond body z) _
  | «for» init cond post body =>
      apply tracks.bind (tracks.optional less.expr init z)
      intro z' _
      exact tracks.map (less.steps cond post body z') _
  | block ss => exact tracks.block less.stmt ss z
  | ret e =>
      cases e with
      | none => exact tracks.ok _
      | some e => exact tracks.map (less.expr e z) _
  | brk => exact tracks.ok _
  | cont => exact tracks.ok _

theorem while_step (cond : Expr) (body : Stmt) (z : ZState) :
    R (evalWhile p (n + 1) cond body z) (traceWhile p (n + 1) cond body z) := by
  rw [evalWhile, traceWhile]
  apply ite fun _ => tracks.ok _
  intro _
  apply tracks.bind (less.expr cond z)
  intro r _
  apply ite fun _ => tracks.ok _
  intro _
  exact tracks.bind (less.stmt body _) fun z' _ => less.loop cond body z'

theorem for_step (cond post : Option Expr) (body : Stmt) (z : ZState) :
    R (evalFor p (n + 1) cond post body z) (traceFor p (n + 1) cond post body z) := by
  rw [evalFor, traceFor]
  apply ite fun _ => tracks.ok _
  intro _
  apply tracks.bind (tracks.cond less.expr cond z)
  intro r _
  apply ite fun _ => tracks.ok _
  intro _
  apply tracks.bind (less.stmt body _)
  intro z' _
  exact tracks.bind (tracks.optional less.expr post _) fun z'' _ => less.steps cond post body z''

end Step

theorem all (n : Nat) : At p @R n := by
  induction n with
  | zero => exact ⟨fun _ _ => tracks.fuel, fun _ _ => tracks.fuel, fun _ _ _ => tracks.fuel,
      fun _ _ _ _ => tracks.fuel⟩
  | succ n ih => exact ⟨tracks.expr_step ih, tracks.stmt_step ih, tracks.while_step ih, tracks.for_step ih⟩

/-- A relation that every step keeps holds of a whole run. -/
theorem main (fuel : Nat) (keys : List Word) : R (runMain p fuel keys) (traceMain p fuel keys) :=
  tracks.call (tracks.all fuel).stmt Name.main [] (ZState.start keys)

end Tracks

end Zenbite.Zbc
