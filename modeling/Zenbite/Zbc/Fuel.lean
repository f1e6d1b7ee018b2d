import Mathlib.Tactic.Common
import Zenbite.Zbc.Eval

/-! What the evaluator computes does not depend on the fuel. -/

namespace Zenbite.Zbc

/-- What `x` ends with, `y` ends with as well. -/
def Ends {α : Type} (x y : Except Stop α) : Prop := ∀ r, x = .ok r → y = .ok r

namespace Ends
variable {α β : Type} {x y : Except Stop α} {f g : α → Except Stop β}

theorem refl (x : Except Stop α) : Ends x x := fun _ same => same

theorem bind (first : Ends x y) (more : ∀ a, Ends (f a) (g a)) : Ends (x >>= f) (y >>= g) := by
  intro r ran
  cases x with
  | error _ => exact nomatch ran
  | ok a =>
      rw [first a rfl]
      exact more a r ran

theorem ite {c : Prop} [Decidable c] {x' y' : Except Stop α} (yes : c → Ends x y) (no : ¬ c → Ends x' y') :
    Ends (if c then x else x') (if c then y else y') := by
  by_cases holds : c
  · rw [if_pos holds, if_pos holds]
    exact yes holds
  · rw [if_neg holds, if_neg holds]
    exact no holds

end Ends

variable {p : Prog}

section Exprs
variable {ev ev' : Expr → ZState → Except Stop (Word × ZState)} (exprs : ∀ e z, Ends (ev e z) (ev' e z))

include exprs in
theorem evalArgs_ends (es : List Expr) : ∀ z, Ends (evalArgs ev es z) (evalArgs ev' es z) := by
  induction es with
  | nil => exact fun _ => Ends.refl _
  | cons e es ih =>
      intro z
      apply Ends.bind (exprs e z)
      intro a
      exact Ends.bind (ih _) fun _ => Ends.refl _

include exprs in
theorem evalOptional_ends (e : Option Expr) (z : ZState) : Ends (evalOptional ev e z) (evalOptional ev' e z) := by
  cases e with
  | none => exact Ends.refl _
  | some e => exact Ends.bind (exprs e z) fun _ => Ends.refl _

include exprs in
theorem evalCond_ends (e : Option Expr) (z : ZState) : Ends (evalCond ev e z) (evalCond ev' e z) := by
  cases e with
  | none => exact Ends.refl _
  | some e => exact exprs e z

include exprs in
theorem printfFrom_ends (l : List UInt8) : ∀ args z, Ends (printfFrom p ev l args z) (printfFrom p ev' l args z) := by
  induction length : l.length using Nat.strongRecOn generalizing l with
  | _ k ih =>
      intro args z
      rw [printfFrom.eq_def, printfFrom.eq_def]
      cases l with
      | nil => exact Ends.refl _
      | cons c s =>
          dsimp only
          apply Ends.ite fun _ => Ends.refl _
          intro _
          apply Ends.ite fun _ => ih s.length (by rw [← length]; simp) s rfl _ _
          intro _
          cases s with
          | nil =>
              cases args with
              | nil => exact Ends.refl _
              | cons e others => exact Ends.bind (exprs e z) fun _ => Ends.refl _
          | cons d s =>
              have again : ∀ args z, Ends (printfFrom p ev s args z) (printfFrom p ev' s args z) :=
                ih s.length (by rw [← length, List.length_cons, List.length_cons]; omega) s rfl
              dsimp only
              apply Ends.ite fun _ => again _ _
              intro _
              apply Ends.ite
              · intro _
                split
                · exact again _ _
                · exact again _ _
              · intro _
                cases args with
                | nil => exact again _ _
                | cons e others => exact Ends.bind (exprs e z) fun _ => again _ _

end Exprs

section Stmts
variable {run run' : Stmt → ZState → Except Stop ZState} (stmts : ∀ s z, Ends (run s z) (run' s z))

include stmts in
theorem evalBlock_ends (ss : List Stmt) : ∀ z, Ends (evalBlock run ss z) (evalBlock run' ss z) := by
  induction ss with
  | nil => exact fun _ => Ends.refl _
  | cons s ss ih =>
      intro z
      apply Ends.ite fun _ => Ends.refl _
      intro _
      exact Ends.bind (stmts s z) fun _ => ih _

include stmts in
theorem callFunction_ends (f : Name) (vs : List Word) (z : ZState) :
    Ends (callFunction p run f vs z) (callFunction p run' f vs z) := by
  apply Ends.ite fun _ => Ends.refl _
  intro _
  apply Ends.ite fun _ => Ends.refl _
  intro _
  apply Ends.ite fun _ => Ends.refl _
  intro _
  apply Ends.ite fun _ => Ends.refl _
  intro _
  split
  · exact Ends.refl _
  · apply Ends.ite fun _ => Ends.refl _
    intro _
    exact Ends.bind (stmts _ _) fun _ => Ends.refl _

end Stmts

/-- Fuel `k` does what fuel `n` does. -/
structure FuelEnds (p : Prog) (n k : Nat) : Prop where
  expr : ∀ e z, Ends (evalExpr p n e z) (evalExpr p k e z)
  stmt : ∀ s z, Ends (evalStmt p n s z) (evalStmt p k s z)
  loop : ∀ cond body z, Ends (evalWhile p n cond body z) (evalWhile p k cond body z)
  steps : ∀ cond post body z, Ends (evalFor p n cond post body z) (evalFor p k cond post body z)

section Step
variable {n k : Nat} (less : FuelEnds p n k)
include less

theorem evalExpr_step (e : Expr) (z : ZState) : Ends (evalExpr p (n + 1) e z) (evalExpr p (k + 1) e z) := by
  rw [evalExpr.eq_def, evalExpr.eq_def]
  apply Ends.ite fun _ => Ends.refl _
  intro _
  cases e with
  | num v => exact Ends.refl _
  | str off => exact Ends.refl _
  | var x => exact Ends.refl _
  | assign decl op x rhs => exact Ends.bind (less.expr rhs z) fun _ => Ends.refl _
  | un op a => exact Ends.bind (less.expr a z) fun _ => Ends.refl _
  | bin op a b =>
      apply Ends.bind (less.expr a z)
      intro x
      have right {r : Word × ZState → Except Stop (Word × ZState)} (z : ZState) :
          Ends (evalExpr p n b z >>= r) (evalExpr p k b z >>= r) :=
        Ends.bind (less.expr b z) fun _ => Ends.refl _
      apply Ends.ite
      · intro _
        exact Ends.ite (fun _ => Ends.refl _) fun _ => right _
      · intro _
        apply Ends.ite
        · intro _
          exact Ends.ite (fun _ => Ends.refl _) fun _ => right _
        · intro _
          exact right _
  | call f args =>
      apply Ends.ite fun _ => Ends.refl _
      intro _
      apply Ends.ite
      · intro _
        split
        · exact Ends.bind (printfFrom_ends less.expr _ _ z) fun _ => Ends.refl _
        · exact Ends.refl _
      · intro _
        apply Ends.bind (evalArgs_ends less.expr _ z)
        intro x
        exact callFunction_ends less.stmt f _ _

theorem evalStmt_step (s : Stmt) (z : ZState) : Ends (evalStmt p (n + 1) s z) (evalStmt p (k + 1) s z) := by
  rw [evalStmt.eq_def, evalStmt.eq_def]
  apply Ends.ite fun _ => Ends.refl _
  intro _
  cases s with
  | expr e => exact Ends.bind (less.expr e z) fun _ => Ends.refl _
  | ite cond then_ else_ =>
      apply Ends.bind (less.expr cond z)
      intro a
      apply Ends.ite fun _ => less.stmt _ _
      intro _
      cases else_ with
      | none => exact Ends.refl _
      | some s => exact less.stmt _ _
  | «while» cond body => exact Ends.bind (less.loop cond body z) fun _ => Ends.refl _
  | «for» init cond post body =>
      apply Ends.bind (evalOptional_ends less.expr init z)
      intro a
      exact Ends.bind (less.steps cond post body a) fun _ => Ends.refl _
  | block ss => exact evalBlock_ends less.stmt ss z
  | ret e =>
      cases e with
      | none => exact Ends.refl _
      | some e => exact Ends.bind (less.expr e z) fun _ => Ends.refl _
  | brk => exact Ends.refl _
  | cont => exact Ends.refl _

theorem evalWhile_step (cond : Expr) (body : Stmt) (z : ZState) :
    Ends (evalWhile p (n + 1) cond body z) (evalWhile p (k + 1) cond body z) := by
  rw [evalWhile, evalWhile]
  apply Ends.ite fun _ => Ends.refl _
  intro _
  apply Ends.bind (less.expr cond z)
  intro a
  apply Ends.ite fun _ => Ends.refl _
  intro _
  exact Ends.bind (less.stmt body _) fun _ => less.loop cond body _

theorem evalFor_step (cond post : Option Expr) (body : Stmt) (z : ZState) :
    Ends (evalFor p (n + 1) cond post body z) (evalFor p (k + 1) cond post body z) := by
  rw [evalFor, evalFor]
  apply Ends.ite fun _ => Ends.refl _
  intro _
  apply Ends.bind (evalCond_ends less.expr cond z)
  intro a
  apply Ends.ite fun _ => Ends.refl _
  intro _
  apply Ends.bind (less.stmt body _)
  intro b
  exact Ends.bind (evalOptional_ends less.expr post _) fun _ => less.steps cond post body _

end Step

theorem fuelEnds {n : Nat} : ∀ {k : Nat}, n ≤ k → FuelEnds p n k := by
  induction n with
  | zero =>
      intro k _
      constructor
      · exact fun _ _ => nofun
      · exact fun _ _ => nofun
      · exact fun _ _ _ => nofun
      · exact fun _ _ _ _ => nofun
  | succ n ih =>
      intro k more
      obtain ⟨k, rfl⟩ := Nat.exists_eq_succ_of_ne_zero (Nat.ne_of_gt (Nat.lt_of_lt_of_le (Nat.succ_pos n) more))
      have less := ih (Nat.le_of_succ_le_succ more)
      constructor
      · exact evalExpr_step less
      · exact evalStmt_step less
      · exact evalWhile_step less
      · exact evalFor_step less

/-- `eval` on a statement comes back, leaving `z'`. -/
def Evals (p : Prog) (s : Stmt) (z z' : ZState) : Prop := ∃ n, evalStmt p n s z = .ok z'

theorem Evals.unique {s : Stmt} {z z₁ z₂ : ZState} (run : Evals p s z z₁) (run' : Evals p s z z₂) : z₁ = z₂ := by
  obtain ⟨n, ran⟩ := run
  obtain ⟨n', ran'⟩ := run'
  have left := (fuelEnds (Nat.le_max_left n n')).stmt s z z₁ ran
  have right := (fuelEnds (Nat.le_max_right n n')).stmt s z z₂ ran'
  exact Except.ok.inj (left.symm.trans right)

end Zenbite.Zbc
