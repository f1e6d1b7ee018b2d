import Mathlib.Tactic.Common
import Zenbite.Zbc.CSem

/-! A result of the C meaning stays with more fuel and under a looser watch. -/

namespace Zenbite.Zbc

/-- What `x` gives, `y` gives as well. -/
def Below {α : Type} (x y : Option α) : Prop := ∀ r, x = some r → y = some r

namespace Below
variable {α β : Type} {x y : Option α} {f g : α → Option β}

theorem refl (x : Option α) : Below x x := fun _ same => same

theorem none (y : Option α) : Below Option.none y := nofun

theorem bind (first : Below x y) (more : ∀ a, Below (f a) (g a)) : Below (x >>= f) (y >>= g) := by
  intro r ran
  obtain ⟨a, left, right⟩ := Option.bind_eq_some_iff.mp ran
  exact Option.bind_eq_some_iff.mpr ⟨a, first a left, more a r right⟩

theorem ite {c : Prop} [Decidable c] {x' y' : Option α} (yes : c → Below x y) (no : ¬ c → Below x' y') :
    Below (if c then x else x') (if c then y else y') := by
  by_cases holds : c
  · rw [if_pos holds, if_pos holds]
    exact yes holds
  · rw [if_neg holds, if_neg holds]
    exact no holds

/-- A guard that lets through what a stricter one did. -/
theorem guard {c d : Prop} [Decidable c] [Decidable d] (weaker : d → c) (more : Below x y) :
    Below (if c then Option.none else x) (if d then Option.none else y) := by
  by_cases strict : c
  · rw [if_pos strict]
    exact none _
  · rw [if_neg strict, if_neg (mt weaker strict)]
    exact more

end Below

/-- A watch that allows whatever the other one does. -/
structure Looser (m m' : Mode) : Prop where
  strict : m'.strict = true → m.strict = true
  depth : m'.strict = true → m'.depth ≤ m.depth
  calls : m'.calls = false → m.calls = false

namespace Looser
variable {m m' : Mode}

theorem refl (m : Mode) : Looser m m := ⟨id, fun _ => Nat.le_refl _, id⟩

theorem deep (looser : Looser m m') (held : m'.strict = true ∧ 8 ≤ m'.depth) : m.strict = true ∧ 8 ≤ m.depth :=
  ⟨looser.strict held.1, Nat.le_trans held.2 (looser.depth held.1)⟩

theorem deeper (looser : Looser m m') :
    Looser { m with depth := m.depth + 1 } { m' with depth := m'.depth + 1 } :=
  ⟨looser.strict, fun held => Nat.succ_le_succ (looser.depth held), looser.calls⟩

/-- The condition of a while loop. -/
theorem again (looser : Looser m m') {after after' : Bool} (less : after' = true → after = true) :
    Looser { m with calls := m.calls && !(m.strict && after) }
      { m' with calls := m'.calls && !(m'.strict && after') } := by
  refine ⟨looser.strict, looser.depth, ?_⟩
  dsimp only
  intro none_
  rw [Bool.and_eq_false_iff] at none_ ⊢
  rcases none_ with none_ | held
  · exact .inl (looser.calls none_)
  · right
    simp only [Bool.not_eq_eq_eq_not, Bool.not_false, Bool.and_eq_true] at held ⊢
    exact ⟨looser.strict held.1, less held.2⟩

end Looser

variable {p : Prog} {m m' : Mode}

section Exprs
variable {ev ev' : Expr → CState → Option (Out (Option Word))} (exprs : ∀ e σ, Below (ev e σ) (ev' e σ))

include exprs in
theorem cValue_below (e : Expr) (σ : CState) : Below (cValue ev e σ) (cValue ev' e σ) :=
  Below.bind (exprs e σ) fun _ => Below.refl _

include exprs in
theorem cArgs_below (es : List Expr) : ∀ σ, Below (cArgs ev es σ) (cArgs ev' es σ) := by
  induction es with
  | nil => exact fun _ => Below.refl _
  | cons e es ih =>
      intro σ
      apply Below.bind (cValue_below exprs e σ)
      intro a
      exact Below.bind (ih _) fun _ => Below.refl _

include exprs in
theorem cOptional_below (e : Option Expr) (σ : CState) : Below (cOptional ev e σ) (cOptional ev' e σ) := by
  cases e with
  | none => exact Below.refl _
  | some e => exact exprs e σ

include exprs in
theorem cCond_below (e : Option Expr) (σ : CState) : Below (cCond ev e σ) (cCond ev' e σ) := by
  cases e with
  | none => exact Below.refl _
  | some e => exact cValue_below exprs e σ

include exprs in
theorem cUnused_below (es : List Expr) : ∀ σ, Below (cUnused ev es σ) (cUnused ev' es σ) := by
  induction es with
  | nil => exact fun _ => Below.refl _
  | cons e es ih =>
      intro σ
      rw [cUnused.eq_def, cUnused.eq_def]
      cases e with
      | str off => exact ih σ
      | _ =>
          apply Below.bind (cValue_below exprs _ σ)
          intro a
          exact Below.bind (ih _) fun _ => Below.refl _

include exprs in
theorem cPrintf_below (looser : Looser m m') (l : List UInt8) : ∀ args σ text,
    Below (cPrintf p m ev l args σ text) (cPrintf p m' ev' l args σ text) := by
  induction length : l.length using Nat.strongRecOn generalizing l with
  | _ k ih =>
      intro args σ text
      rw [cPrintf.eq_def, cPrintf.eq_def]
      cases l with
      | nil =>
          apply Below.guard fun held => ⟨looser.strict held.1, held.2⟩
          exact Below.bind (cUnused_below exprs args σ) fun _ => Below.refl _
      | cons c s =>
          dsimp only
          apply Below.ite
          · intro _
            exact ih s.length (by rw [← length]; simp) s rfl _ _ _
          · intro _
            cases s with
            | nil => exact Below.none _
            | cons d s =>
                have again : ∀ args σ text, Below (cPrintf p m ev s args σ text) (cPrintf p m' ev' s args σ text) :=
                  ih s.length (by rw [← length, List.length_cons, List.length_cons]; omega) s rfl
                dsimp only
                apply Below.ite
                · intro _
                  exact again _ _ _
                · intro _
                  apply Below.ite
                  · intro _
                    split
                    · exact again _ _ _
                    · exact Below.none _
                  · intro _
                    cases args with
                    | nil => exact Below.none _
                    | cons e others =>
                        apply Below.ite
                        · intro _
                          apply Below.bind (cValue_below exprs e σ)
                          intro a
                          apply Below.guard fun held => ⟨looser.strict held.1, held.2⟩
                          exact Below.bind (again _ _ _) fun _ => Below.refl _
                        · intro _
                          exact Below.refl _

end Exprs

section Stmts
variable {run run' : Mode → Stmt → CState → Option (Out Flow)}

theorem cFunction_below (looser : Looser m m')
    (stmts : ∀ m m' s σ, Looser m m' → Below (run m s σ) (run' m' s σ)) (f : Name) (vs : List Word) (σ : CState) :
    Below (cFunction p m run f vs σ) (cFunction p m' run' f vs σ) := by
  apply Below.bind (Below.refl _)
  intro fn
  apply Below.guard
  · rintro (arity | none_ | deep)
    · exact .inl arity
    · exact .inr (.inl (looser.calls none_))
    · exact .inr (.inr (looser.deep deep))
  · exact Below.bind (stmts _ _ _ _ looser.deeper) fun _ => Below.refl _

theorem cBlock_below {run run' : Stmt → CState → Option (Out Flow)} (stmts : ∀ s σ, Below (run s σ) (run' s σ))
    (ss : List Stmt) : ∀ σ, Below (cBlock run ss σ) (cBlock run' ss σ) := by
  induction ss with
  | nil => exact fun _ => Below.refl _
  | cons s ss ih =>
      intro σ
      apply Below.bind (stmts s σ)
      intro a
      apply Below.ite
      · intro _
        exact Below.bind (ih _) fun _ => Below.refl _
      · intro _
        exact Below.refl _

end Stmts

/-- Fuel `k` does what fuel `n` does. -/
structure FuelBelow (p : Prog) (n k : Nat) : Prop where
  expr : ∀ m m' e σ, Looser m m' → Below (cExpr p n m e σ) (cExpr p k m' e σ)
  stmt : ∀ m m' s σ, Looser m m' → Below (cStmt p n m s σ) (cStmt p k m' s σ)
  loop : ∀ m m' again cond body σ, Looser m m' →
    Below (cWhile p n m again cond body σ) (cWhile p k m' again cond body σ)
  steps : ∀ m m' cond post body σ, Looser m m' →
    Below (cFor p n m cond post body σ) (cFor p k m' cond post body σ)

section Step
variable {n k : Nat} (less : FuelBelow p n k) (looser : Looser m m')
include less looser

theorem cExpr_step (e : Expr) (σ : CState) : Below (cExpr p (n + 1) m e σ) (cExpr p (k + 1) m' e σ) := by
  have exprs : ∀ e σ, Below (cExpr p n m e σ) (cExpr p k m' e σ) := fun e σ => less.expr m m' e σ looser
  rw [cExpr.eq_def, cExpr.eq_def]
  cases e with
  | num v => exact Below.refl _
  | str off => exact Below.refl _
  | var x => exact Below.refl _
  | un op a => exact Below.bind (cValue_below exprs a σ) fun _ => Below.refl _
  | assign decl op x rhs =>
      apply Below.bind (cValue_below exprs rhs σ)
      intro a
      dsimp only
      split
      · apply Below.guard _ (Below.refl _)
        rintro (assigned | full)
        · exact .inl assigned
        · exact .inr ⟨looser.strict full.1, full.2⟩
      · exact Below.refl _
  | bin op a b =>
      apply Below.bind (cValue_below exprs a σ)
      intro x
      apply Below.ite fun _ => Below.refl _
      intro _
      apply Below.ite fun _ => Below.refl _
      intro _
      exact Below.bind (cValue_below exprs b _) fun _ => Below.refl _
  | call f args =>
      apply Below.ite fun _ => Below.refl _
      intro _
      apply Below.ite
      · intro _
        split
        · exact Below.bind (cPrintf_below exprs looser _ _ _ _) fun _ => Below.refl _
        · exact Below.none _
      · intro _
        apply Below.bind (cArgs_below exprs args σ)
        intro a
        apply Below.ite fun _ => Below.refl _
        intro _
        exact Below.bind (cFunction_below looser less.stmt f _ _) fun _ => Below.refl _

theorem cStmt_step (s : Stmt) (σ : CState) : Below (cStmt p (n + 1) m s σ) (cStmt p (k + 1) m' s σ) := by
  have exprs : ∀ e σ, Below (cExpr p n m e σ) (cExpr p k m' e σ) := fun e σ => less.expr m m' e σ looser
  have stmts : ∀ s σ, Below (cStmt p n m s σ) (cStmt p k m' s σ) := fun s σ => less.stmt m m' s σ looser
  rw [cStmt.eq_def, cStmt.eq_def]
  cases s with
  | expr e => exact Below.bind (exprs e σ) fun _ => Below.refl _
  | ite cond then_ else_ =>
      apply Below.bind (cValue_below exprs cond σ)
      intro a
      apply Below.ite
      · intro _
        exact Below.bind (stmts _ _) fun _ => Below.refl _
      · intro _
        cases else_ with
        | none => exact Below.refl _
        | some s => exact Below.bind (stmts _ _) fun _ => Below.refl _
  | «while» cond body => exact less.loop m m' false cond body σ looser
  | «for» init cond post body =>
      apply Below.bind (cOptional_below exprs init σ)
      intro a
      exact Below.bind (less.steps m m' cond post body _ looser) fun _ => Below.refl _
  | block ss => exact cBlock_below stmts ss σ
  | ret e =>
      cases e with
      | none => exact Below.refl _
      | some e => exact Below.bind (cValue_below exprs e σ) fun _ => Below.refl _
  | brk => exact Below.refl _
  | cont => exact Below.refl _

theorem cWhile_step (again : Bool) (cond : Expr) (body : Stmt) (σ : CState) :
    Below (cWhile p (n + 1) m again cond body σ) (cWhile p (k + 1) m' again cond body σ) := by
  rw [cWhile, cWhile]
  apply Below.bind (cValue_below (fun e σ => less.expr _ _ e σ (looser.again id)) cond σ)
  intro a
  apply Below.ite
  · intro _
    exact Below.guard (fun held => ⟨looser.strict held.1, held.2⟩) (Below.refl _)
  · intro _
    apply Below.bind (less.stmt m m' body _ looser)
    intro b
    dsimp only
    split
    · exact Below.refl _
    · exact Below.refl _
    · exact Below.bind (less.loop m m' false cond body _ looser) fun _ => Below.refl _
    · exact Below.bind (less.loop m m' true cond body _ looser) fun _ => Below.refl _

theorem cFor_step (cond post : Option Expr) (body : Stmt) (σ : CState) :
    Below (cFor p (n + 1) m cond post body σ) (cFor p (k + 1) m' cond post body σ) := by
  have exprs : ∀ e σ, Below (cExpr p n m e σ) (cExpr p k m' e σ) := fun e σ => less.expr m m' e σ looser
  rw [cFor, cFor]
  apply Below.bind (cCond_below exprs cond σ)
  intro a
  apply Below.ite fun _ => Below.refl _
  intro _
  apply Below.bind (less.stmt m m' body _ looser)
  intro b
  have left {r : Out Flow} : Below (if m.strict = true ∧ post.isSome = true then none else some r)
      (if m'.strict = true ∧ post.isSome = true then none else some r) :=
    Below.guard (fun held => ⟨looser.strict held.1, held.2⟩) (Below.refl _)
  have goes {r : Out (Option Word) → Out Flow → Option (Out Flow)} (τ : CState) :
      Below (cOptional (cExpr p n m) post τ >>= fun x => cFor p n m cond post body x.2.1 >>= r x)
        (cOptional (cExpr p k m') post τ >>= fun x => cFor p k m' cond post body x.2.1 >>= r x) := by
    apply Below.bind (cOptional_below exprs post τ)
    intro c
    exact Below.bind (less.steps m m' cond post body _ looser) fun _ => Below.refl _
  dsimp only
  split
  · exact left
  · exact left
  · exact goes b.2.1
  · exact goes b.2.1

end Step

theorem fuelBelow {n : Nat} : ∀ {k : Nat}, n ≤ k → FuelBelow p n k := by
  induction n with
  | zero =>
      intro k _
      constructor
      · exact fun _ _ _ _ _ => Below.none _
      · exact fun _ _ _ _ _ => Below.none _
      · exact fun _ _ _ _ _ _ _ => Below.none _
      · exact fun _ _ _ _ _ _ _ => Below.none _
  | succ n ih =>
      intro k more
      obtain ⟨k, rfl⟩ := Nat.exists_eq_succ_of_ne_zero (Nat.ne_of_gt (Nat.lt_of_lt_of_le (Nat.succ_pos n) more))
      have less := ih (Nat.le_of_succ_le_succ more)
      constructor
      · exact fun _ _ e σ looser => cExpr_step less looser e σ
      · exact fun _ _ s σ looser => cStmt_step less looser s σ
      · exact fun _ _ again cond body σ looser => cWhile_step less looser again cond body σ
      · exact fun _ _ cond post body σ looser => cFor_step less looser cond post body σ

/-- A while loop is the for loop without init and post expressions. -/
theorem cWhile_for {n : Nat} (looser : Looser m m') (cond : Expr) (body : Stmt) : ∀ again σ,
    Below (cWhile p n m again cond body σ) (cFor p n m' (some cond) none body σ) := by
  induction n with
  | zero => exact fun _ _ => Below.none _
  | succ n ih =>
      intro again σ
      have same : FuelBelow p n n := fuelBelow (Nat.le_refl n)
      have free : Looser { m with calls := m.calls && !(m.strict && again) } m' :=
        ⟨looser.strict, looser.depth, fun none_ => by simp [looser.calls none_]⟩
      rw [cWhile, cFor]
      apply Below.bind (cValue_below (fun e σ => same.expr _ _ e σ free) cond σ)
      intro a
      apply Below.ite
      · intro _ r ran
        split at ran
        · exact nomatch ran
        · exact ran
      · intro _
        apply Below.bind (same.stmt m m' body _ looser)
        intro b
        dsimp only
        split
        · rw [if_neg (fun held => nomatch held.2)]
          exact Below.refl _
        · rw [if_neg (fun held => nomatch held.2)]
          exact Below.refl _
        · exact Below.bind (ih false _) fun _ => Below.refl _
        · exact Below.bind (ih true _) fun _ => Below.refl _

theorem while_for {n : Nat} (looser : Looser m m') (cond : Expr) (body : Stmt) (σ : CState) :
    Below (cStmt p n m (.while cond body) σ) (cStmt p n m' (.for none (some cond) none body) σ) := by
  cases n with
  | zero => exact Below.none _
  | succ n =>
      intro r ran
      rw [cStmt] at ran
      rw [cStmt]
      exact Option.bind_eq_some_iff.mpr ⟨_, rfl, Option.bind_eq_some_iff.mpr
        ⟨r, cWhile_for looser cond body false σ r ran, rfl⟩⟩

/-- The C meaning of a statement: it comes to an end so. -/
def CRuns (p : Prog) (s : Stmt) (σ : CState) (r : Out Flow) : Prop := ∃ n, cStmt p n ⟨false, 0, true⟩ s σ = some r

/-- The run of a statement comes to nothing that the evaluator does in its own way. -/
def Tame (p : Prog) (depth : Nat) (s : Stmt) (σ : CState) : Prop :=
  ∃ n r, cStmt p n ⟨true, depth, true⟩ s σ = some r

theorem free_looser (m : Mode) : Looser m ⟨false, 0, true⟩ := ⟨nofun, nofun, nofun⟩

theorem CRuns.unique {s : Stmt} {σ : CState} {r r' : Out Flow} (run : CRuns p s σ r) (run' : CRuns p s σ r') :
    r = r' := by
  obtain ⟨n, ran⟩ := run
  obtain ⟨n', ran'⟩ := run'
  have left := (fuelBelow (Nat.le_max_left n n')).stmt _ _ s σ (Looser.refl _) r ran
  have right := (fuelBelow (Nat.le_max_right n n')).stmt _ _ s σ (Looser.refl _) r' ran'
  exact Option.some.inj (left.symm.trans right)

/-- A tame run is the run, from some fuel on. -/
theorem CRuns.strict {s : Stmt} {σ : CState} {r : Out Flow} {depth : Nat} (run : CRuns p s σ r)
    (tame : Tame p depth s σ) : ∃ n, ∀ k ≥ n, cStmt p k ⟨true, depth, true⟩ s σ = some r := by
  obtain ⟨n, r', ran⟩ := tame
  have plain := (fuelBelow (Nat.le_refl n)).stmt _ _ s σ (free_looser _) r' ran
  obtain rfl := run.unique ⟨n, plain⟩
  exact ⟨n, fun k more => (fuelBelow more).stmt _ _ s σ (Looser.refl _) r ran⟩

theorem Tame.for_ {cond : Expr} {body : Stmt} {σ : CState} {depth : Nat} (tame : Tame p depth (.while cond body) σ) :
    Tame p depth (.for none (some cond) none body) σ := by
  obtain ⟨n, r, ran⟩ := tame
  exact ⟨n, r, while_for (Looser.refl _) cond body σ r ran⟩

theorem CRuns.for_ {cond : Expr} {body : Stmt} {σ : CState} {r : Out Flow} (run : CRuns p (.while cond body) σ r) :
    CRuns p (.for none (some cond) none body) σ r := by
  obtain ⟨n, ran⟩ := run
  exact ⟨n, while_for (Looser.refl _) cond body σ r ran⟩

end Zenbite.Zbc
