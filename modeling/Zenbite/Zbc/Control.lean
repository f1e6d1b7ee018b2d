import Zenbite.Zbc.Arith
import Zenbite.Zbc.Fuel
import Zenbite.Zbc.Watch

/-! The evaluator follows the C meaning in every strict run. -/

namespace Zenbite.Zbc

@[simp] theorem ok_bind {α β : Type} (x : α) (f : α → Except Stop β) : (Except.ok x >>= f) = f x := rfl

/-- The evaluator's state next to the C state: the innermost scope is the frame, and
the flags say how the last statement ended. -/
structure At (rest : List Scope) (flow : Flow) (σ : CState) (z : ZState) : Prop where
  scopes : z.scopes = σ.frame :: rest
  keys : z.keys = σ.keys
  error : z.hadError = false
  ret : z.hadReturn = true ↔ ∃ v, flow = .ret v
  brk : z.hadBreak = true ↔ flow = .brk
  cont : z.hadContinue = true ↔ flow = .cont
  value : ∀ v, flow = .ret (some v) → z.returnValue = v

variable {p : Prog} {rest : List Scope} {flow : Flow} {σ σ' : CState} {z : ZState} {m : Mode}

theorem At.hadReturn (at_ : At rest flow σ z) (open_ : ∀ v, flow ≠ .ret v) : z.hadReturn = false := by
  rw [← Bool.not_eq_true, at_.ret]
  exact fun ⟨v, same⟩ => open_ v same

theorem At.hadBreak (at_ : At rest flow σ z) (open_ : flow ≠ .brk) : z.hadBreak = false := by
  rw [← Bool.not_eq_true, at_.brk]
  exact open_

theorem At.hadContinue (at_ : At rest flow σ z) (open_ : flow ≠ .cont) : z.hadContinue = false := by
  rw [← Bool.not_eq_true, at_.cont]
  exact open_

theorem At.find (at_ : At rest flow σ z) (x : Name) : z.findVar x = σ.frame.find x := by
  rw [ZState.findVar, at_.scopes]

theorem At.print (at_ : At rest flow σ z) (text : List UInt8) : At rest flow σ (z.print text) :=
  ⟨at_.scopes, at_.keys, at_.error, at_.ret, at_.brk, at_.cont, at_.value⟩

theorem At.putVar (at_ : At rest flow σ z) (x : Name) (v : Word) :
    At rest flow { σ with frame := σ.frame.put x v } (z.putVar x v) ∧ (z.putVar x v).out = z.out := by
  rw [ZState.putVar, at_.scopes]
  exact ⟨⟨rfl, at_.keys, at_.error, at_.ret, at_.brk, at_.cont, at_.value⟩, rfl⟩

theorem At.setLocal (at_ : At rest flow σ z) (x : Name) (v : Word) (room : σ.frame.length < maxVars) :
    At rest flow { σ with frame := (x, v) :: σ.frame } (z.setLocal x v) ∧ (z.setLocal x v).out = z.out := by
  rw [ZState.setLocal, at_.scopes]
  dsimp only
  rw [if_neg (Nat.not_le_of_lt room)]
  exact ⟨⟨rfl, at_.keys, at_.error, at_.ret, at_.brk, at_.cont, at_.value⟩, rfl⟩

theorem At.note (at_ : At rest flow σ z) (n : Note) : At rest flow σ (z.note n) :=
  ⟨at_.scopes, at_.keys, at_.error, at_.ret, at_.brk, at_.cont, at_.value⟩

theorem At.returns (at_ : At rest .normal σ z) (u : Word) (v : Option Word) (value : ∀ x, v = some x → u = x) :
    At rest (.ret v) σ { z with returnValue := u, hadReturn := true } := by
  constructor
  · exact at_.scopes
  · exact at_.keys
  · exact at_.error
  · simp
  · simp [at_.hadBreak Flow.noConfusion]
  · simp [at_.hadContinue Flow.noConfusion]
  · rintro x same
    exact value x (Flow.ret.inj same)

theorem At.breaks (at_ : At rest .normal σ z) : At rest .brk σ { z with hadBreak := true } := by
  constructor
  · exact at_.scopes
  · exact at_.keys
  · exact at_.error
  · simp [at_.hadReturn fun _ => Flow.noConfusion]
  · simp
  · simp [at_.hadContinue Flow.noConfusion]
  · simp

theorem At.continues (at_ : At rest .normal σ z) : At rest .cont σ { z with hadContinue := true } := by
  constructor
  · exact at_.scopes
  · exact at_.keys
  · exact at_.error
  · simp [at_.hadReturn fun _ => Flow.noConfusion]
  · simp [at_.hadBreak Flow.noConfusion]
  · simp
  · simp

/-- How expressions may meet the flags: none is set, or a continue is pending and no
function may be called. -/
def Allowed (m : Mode) (flow : Flow) : Prop := flow = .normal ∨ flow = .cont ∧ m.calls = false

theorem Allowed.noReturn (allowed : Allowed m flow) (v : Option Word) : flow ≠ .ret v := by
  rcases allowed with rfl | ⟨rfl, -⟩ <;> exact Flow.noConfusion

theorem Allowed.noBreak (allowed : Allowed m flow) : flow ≠ .brk := by
  rcases allowed with rfl | ⟨rfl, -⟩ <;> exact Flow.noConfusion

/-- An evaluation does what its C meaning says: it gives the value, if there is one,
leaves the state and prints the output. -/
def Follows (ev : ZState → Except Stop (Word × ZState)) (rest : List Scope) (flow : Flow) (σ : CState)
    (r : Out (Option Word)) : Prop :=
  ∀ z, At rest flow σ z → ∃ w z', ev z = .ok (w, z') ∧ (∀ x, r.1 = some x → w = x) ∧
    At rest flow r.2.1 z' ∧ z'.out = z.out ++ r.2.2

/-- The same for statements, which set the flags. -/
def Runs (run : ZState → Except Stop ZState) (rest : List Scope) (σ : CState) (r : Out Flow) : Prop :=
  ∀ z, At rest .normal σ z → ∃ z', run z = .ok z' ∧ At rest r.1 r.2.1 z' ∧ z'.out = z.out ++ r.2.2

def ExprFollows (p : Prog) (n : Nat) : Prop :=
  ∀ (m : Mode) (e : Expr) (σ : CState) (r : Out (Option Word)) (rest : List Scope) (flow : Flow),
    m.strict = true → m.depth = rest.length + 1 → Allowed m flow → cExpr p n m e σ = some r →
    Follows (evalExpr p n e) rest flow σ r

def StmtRuns (p : Prog) (n : Nat) : Prop :=
  ∀ (m : Mode) (s : Stmt) (σ : CState) (r : Out Flow) (rest : List Scope),
    m.strict = true → m.depth = rest.length + 1 → cStmt p n m s σ = some r →
    Runs (evalStmt p n s) rest σ r

/-- An expression without a value has any. -/
theorem none_value {w : Word} : ∀ x, none = some x → w = x := fun _ => nofun

section Expr
variable {n : Nat} (exprs : ExprFollows p n)

include exprs in
theorem value_follows {e : Expr} {v : Word} {o : List UInt8} (strict : m.strict = true)
    (depth : m.depth = rest.length + 1) (allowed : Allowed m flow)
    (run : cValue (cExpr p n m) e σ = some (v, σ', o)) (at_ : At rest flow σ z) :
    ∃ z', evalExpr p n e z = .ok (v, z') ∧ At rest flow σ' z' ∧ z'.out = z.out ++ o := by
  obtain ⟨⟨u, σ₁, o₁⟩, ran, rest_⟩ := Option.bind_eq_some_iff.mp run
  obtain ⟨v₁, value, same⟩ := Option.bind_eq_some_iff.mp rest_
  obtain ⟨rfl, rfl, rfl⟩ := by simpa using same
  obtain ⟨w, z', ok, agrees, after, out⟩ := exprs m e σ _ rest flow strict depth allowed ran z at_
  obtain rfl := agrees v₁ value
  exact ⟨z', ok, after, out⟩

include exprs in
theorem args_follow {es : List Expr} : ∀ {σ : CState} {z : ZState} {vs : List Word} {o : List UInt8},
    m.strict = true → m.depth = rest.length + 1 → Allowed m flow →
    cArgs (cExpr p n m) es σ = some (vs, σ', o) → At rest flow σ z →
    vs.length = es.length ∧ ∃ z', evalArgs (evalExpr p n) es z = .ok (vs, z') ∧ At rest flow σ' z' ∧
      z'.out = z.out ++ o := by
  induction es with
  | nil =>
      intro σ z vs o _ _ _ run at_
      obtain ⟨rfl, rfl, rfl⟩ := by simpa [cArgs] using run
      exact ⟨rfl, z, rfl, at_, (List.append_nil _).symm⟩
  | cons e es ih =>
      intro σ z vs o strict depth allowed run at_
      obtain ⟨⟨v, σ₁, o₁⟩, first, more⟩ := Option.bind_eq_some_iff.mp run
      obtain ⟨⟨vs', σ₂, o₂⟩, others, same⟩ := Option.bind_eq_some_iff.mp more
      obtain ⟨rfl, rfl, rfl⟩ := by simpa using same
      obtain ⟨z₁, ok, at₁, out₁⟩ := value_follows exprs strict depth allowed first at_
      obtain ⟨length, z₂, oks, at₂, out₂⟩ := ih strict depth allowed others at₁
      refine ⟨by rw [List.length_cons, List.length_cons, length], z₂, ?_, at₂, ?_⟩
      · rw [evalArgs, ok, ok_bind]
        dsimp only
        rw [oks, ok_bind]
      · rw [out₂, out₁, List.append_assoc]

include exprs in
/-- Printing as the conversions come is printing last, when no argument prints behind
text. `base` is what the arguments before have printed. -/
theorem printf_follows (l : List UInt8) : ∀ {args : List Expr} {σ : CState} {z : ZState} {text text' o base : List UInt8},
    m.strict = true → m.depth = rest.length + 1 → Allowed m flow →
    cPrintf p m (cExpr p n m) (l.takeWhile (· ≠ 0)) args σ text = some (text', σ', o) → At rest flow σ z →
    z.out = base ++ text →
    ∃ z', printfFrom p (evalExpr p n) l args z = .ok z' ∧ At rest flow σ' z' ∧ z'.out = base ++ (o ++ text') := by
  induction length : l.length using Nat.strongRecOn generalizing l with
  | _ k ih =>
      intro args σ z text text' o base strict depth allowed run at_ out
      have ended : (l.takeWhile (· ≠ 0)) = [] → σ' = σ ∧ o ++ text' = text := by
        intro none_
        rw [none_, cPrintf] at run
        split at run
        · cases run
        next all =>
          have nothing : args = [] := by
            by_contra some_
            exact all ⟨strict, some_⟩
          subst nothing
          obtain ⟨rfl, rfl, rfl⟩ := by simpa [cUnused] using run
          exact ⟨rfl, rfl⟩
      cases l with
      | nil =>
          obtain ⟨rfl, same⟩ := ended rfl
          exact ⟨z, rfl, at_, by rw [same, out]⟩
      | cons c s =>
          rw [printfFrom.eq_def]
          dsimp only
          split
          next nul =>
            obtain ⟨rfl, same⟩ := ended (by simp [nul])
            exact ⟨z, rfl, at_, by rw [same, out]⟩
          next some_ =>
            rw [List.takeWhile_cons_of_pos (by simpa using some_)] at run
            rw [cPrintf.eq_def] at run
            dsimp only at run
            split
            next plain =>
              rw [if_pos plain] at run
              exact ih s.length (by rw [← length]; simp) s rfl strict depth allowed run (at_.print [c])
                (by rw [ZState.print, out, List.append_assoc])
            next percent =>
              rw [if_neg percent] at run
              cases s with
              | nil => cases run
              | cons d s =>
                  have shorter : s.length < k := by
                    rw [List.length_cons, List.length_cons] at length
                    omega
                  by_cases zero : d = 0
                  · rw [List.takeWhile_cons_of_neg (by simp [zero])] at run
                    cases run
                  rw [List.takeWhile_cons_of_pos (by simpa using zero)] at run
                  dsimp only at run ⊢
                  split
                  next double =>
                    rw [if_pos double] at run
                    exact ih s.length shorter s rfl strict depth allowed run (at_.print [37])
                      (by rw [ZState.print, out, List.append_assoc])
                  next single =>
                    rw [if_neg single] at run
                    split
                    next string =>
                      rw [if_pos string] at run
                      split at run
                      next off others =>
                        exact ih s.length shorter s rfl strict depth allowed run (at_.print (p.literal off))
                          (by rw [ZState.print, out, List.append_assoc])
                      next _ => cases run
                    next number =>
                      rw [if_neg number] at run
                      cases args with
                      | nil => cases run
                      | cons e others =>
                          dsimp only at run
                          split at run
                          case isFalse => cases run
                          obtain ⟨⟨v, σ₁, o₁⟩, value, run⟩ := Option.bind_eq_some_iff.mp run
                          dsimp only at run
                          split at run
                          · cases run
                          next early =>
                            obtain ⟨⟨t, σ₂, o₂⟩, ran, same⟩ := Option.bind_eq_some_iff.mp run
                            obtain ⟨rfl, rfl, rfl⟩ := by simpa using same
                            obtain ⟨z₁, ok, at₁, out₁⟩ := value_follows exprs (by exact strict) (by exact depth) allowed value at_
                            have first : text = [] ∨ o₁ = [] := by
                              by_contra both
                              exact early ⟨strict, fun none_ => both (.inl none_), fun none_ => both (.inr none_)⟩
                            have moved : text ++ o₁ = o₁ ++ text := by
                              rcases first with rfl | rfl
                              · rw [List.append_nil, List.nil_append]
                              · rw [List.append_nil, List.nil_append]
                            have printed : (z₁.print (convText d v)).out = (base ++ o₁) ++ (text ++ convText d v) := by
                              rw [ZState.print, out₁, out]
                              simp only [List.append_assoc]
                              rw [← List.append_assoc text, moved, List.append_assoc]
                            obtain ⟨z₂, oks, at₂, out₂⟩ := ih s.length shorter s rfl strict depth allowed ran
                              (at₁.print (convText d v)) printed
                            refine ⟨z₂, ?_, at₂, ?_⟩
                            · dsimp only
                              rw [ok, ok_bind]
                              exact oks
                            · rw [out₂, List.append_assoc, List.append_assoc]

end Expr

section Call
variable {n : Nat} (stmts : StmtRuns p n)

/-- Coming back from a function: its scope is gone, and no return is pending. -/
theorem At.back {τ : CState} {z' : ZState} {frame : Scope} {flow' : Flow}
    (scopes : rest = frame :: rest.tail) (inner : At rest flow' τ z') (ended : flow' = .normal ∨ ∃ v, flow' = .ret v) :
    At rest.tail .normal ⟨frame, τ.keys⟩ z'.leave := by
  have noBreak : flow' ≠ .brk := by
    rcases ended with rfl | ⟨v, rfl⟩ <;> exact Flow.noConfusion
  have noCont : flow' ≠ .cont := by
    rcases ended with rfl | ⟨v, rfl⟩ <;> exact Flow.noConfusion
  constructor
  · change z'.scopes.tail = _
    rw [inner.scopes]
    exact scopes
  · exact inner.keys
  · exact inner.error
  · simp [ZState.leave]
  · simp [ZState.leave, ZState.note, inner.hadBreak noBreak]
  · simp [ZState.leave, ZState.note, inner.hadContinue noCont]
  · simp

include stmts in
theorem function_follows {f : Name} {vs : List Word} {v : Option Word} {o : List UInt8} (strict : m.strict = true)
    (depth : m.depth = rest.length + 1) (allowed : Allowed m flow)
    (own : ¬ isBuiltin f) (notPuts : f ≠ Name.puts)
    (run : cFunction p m (cStmt p n) f vs σ = some (v, σ', o)) (at_ : At rest flow σ z) :
    ∃ w z', callFunction p (evalStmt p n) f vs z = .ok (w, z') ∧ (∀ x, v = some x → w = x) ∧
      At rest flow σ' z' ∧ z'.out = z.out ++ o := by
  obtain ⟨fn, found, run⟩ := Option.bind_eq_some_iff.mp run
  dsimp only at run
  split at run
  · cases run
  next fits =>
    simp only [not_or, not_and] at fits
    obtain ⟨arity, calls, deep⟩ := fits
    obtain rfl : flow = .normal := by
      rcases allowed with same | ⟨-, none_⟩
      · exact same
      · exact absurd none_ calls
    obtain ⟨⟨ended, τ, o'⟩, body, same⟩ := Option.bind_eq_some_iff.mp run
    have inside : At (σ.frame :: rest) .normal ⟨bindParams fn.params vs, σ.keys⟩ (z.enter (bindParams fn.params vs)) := by
      constructor
      · rw [ZState.enter, at_.scopes]
      · exact at_.keys
      · exact at_.error
      · simp [ZState.enter]
      · exact at_.brk
      · exact at_.cont
      · simp
    have room : ¬ maxCall ≤ z.scopes.length := by
      have shallow := deep strict
      rw [at_.scopes, List.length_cons, ← depth]
      exact shallow
    obtain ⟨z₁, ok, at₁, out⟩ := stmts { m with depth := m.depth + 1 } (.block fn.body) _ _ (σ.frame :: rest) strict
      (by rw [List.length_cons, depth]) body _ inside
    have call : callFunction p (evalStmt p n) f vs z = .ok (z₁.returnValue, z₁.leave) := by
      simp only [isBuiltin, not_or] at own
      rw [callFunction.eq_def, if_neg own.1, if_neg own.2.1, if_neg own.2.2, if_neg notPuts, found]
      dsimp only
      rw [if_neg room, ok, ok_bind]
    cases ended with
    | normal =>
        obtain ⟨rfl, rfl, rfl⟩ := by simpa using same
        exact ⟨_, _, call, none_value, At.back rfl at₁ (.inl rfl), out⟩
    | ret u =>
        obtain ⟨rfl, rfl, rfl⟩ := by simpa using same
        refine ⟨_, _, call, ?_, At.back rfl at₁ (.inr ⟨u, rfl⟩), out⟩
        rintro x rfl
        exact at₁.value x rfl
    | brk => cases same
    | cont => cases same

/-- The run time's own functions. -/
theorem builtin_follows {f : Name} {vs : List Word} {v : Option Word} {o : List UInt8}
    (run' : Stmt → ZState → Except Stop ZState) (run : cBuiltin f vs σ = some (v, σ', o)) (at_ : At rest flow σ z) :
    ∃ w z', callFunction p run' f vs z = .ok (w, z') ∧ (∀ x, v = some x → w = x) ∧
      At rest flow σ' z' ∧ z'.out = z.out ++ o := by
  cases vs with
  | nil =>
      by_cases getchar : f = Name.getchar
      · subst getchar
        rw [cBuiltin.eq_def] at run
        dsimp only at run
        rw [if_pos rfl] at run
        cases keys : σ.keys with
        | nil =>
            rw [keys] at run
            cases run
        | cons k ks =>
            rw [keys] at run
            obtain ⟨rfl, rfl, rfl⟩ := by simpa using run
            refine ⟨k, { z with keys := ks }, ?_, fun x same => Option.some.inj same, ?_, (List.append_nil _).symm⟩
            · rw [callFunction.eq_def, if_neg (by decide), if_neg (by decide), if_pos rfl, at_.keys, keys]
            · exact ⟨at_.scopes, rfl, at_.error, at_.ret, at_.brk, at_.cont, at_.value⟩
      · rw [cBuiltin.eq_def] at run
        dsimp only at run
        rw [if_neg getchar] at run
        cases run
  | cons a more =>
      cases more with
      | cons _ _ => cases run
      | nil =>
          rw [cBuiltin.eq_def] at run
          dsimp only at run
          by_cases print : f = Name.print
          · rw [if_pos print] at run
            obtain ⟨rfl, rfl, rfl⟩ := by simpa using run
            have call : callFunction p run' f [a] z = .ok (0, z.print (emitInt a ++ [10])) := by
              rw [callFunction.eq_def, if_pos print]
            exact ⟨_, _, call, none_value, at_.print _, rfl⟩
          · rw [if_neg print] at run
            by_cases putchar : f = Name.putchar
            · rw [if_pos putchar] at run
              obtain ⟨rfl, rfl, rfl⟩ := by simpa using run
              have call : callFunction p run' f [a] z = .ok (0, z.print [charOf a]) := by
                rw [callFunction.eq_def, if_neg print, if_pos putchar]
              exact ⟨_, _, call, none_value, at_.print _, rfl⟩
            · rw [if_neg putchar] at run
              cases run

end Call

section Loops
variable {n : Nat} (exprs : ExprFollows p n) (stmts : StmtRuns p n)

/-- A round starts with no continue pending. -/
theorem At.round (at_ : At rest flow σ z) (open_ : flow = .normal ∨ flow = .cont) :
    At rest .normal σ { z with hadContinue := false } := by
  have noReturn : ∀ v, flow ≠ .ret v := by
    rcases open_ with rfl | rfl <;> exact fun _ => Flow.noConfusion
  have noBreak : flow ≠ .brk := by
    rcases open_ with rfl | rfl <;> exact Flow.noConfusion
  constructor
  · exact at_.scopes
  · exact at_.keys
  · exact at_.error
  · simp [at_.hadReturn noReturn]
  · simp [at_.hadBreak noBreak]
  · simp
  · simp

/-- Behind a loop no break is pending. -/
theorem At.leave (at_ : At rest flow σ z) {flow' : Flow} (ended : flow' = flow ∧ flow ≠ .brk ∨ flow' = .normal ∧ flow = .brk) :
    At rest flow' σ { z with hadBreak := false } := by
  rcases ended with ⟨rfl, noBreak⟩ | ⟨rfl, rfl⟩
  · constructor
    · exact at_.scopes
    · exact at_.keys
    · exact at_.error
    · exact at_.ret
    · simp [noBreak]
    · exact at_.cont
    · exact at_.value
  · constructor
    · exact at_.scopes
    · exact at_.keys
    · exact at_.error
    · simp [at_.hadReturn fun _ => Flow.noConfusion]
    · simp
    · simp [at_.hadContinue Flow.noConfusion]
    · simp

/-- A loop that has been left does not go on. -/
theorem evalWhile_left {cond : Expr} {body : Stmt} (some_ : n ≠ 0) (left : z.hadReturn = true ∨ z.hadBreak = true) :
    evalWhile p n cond body z = .ok z := by
  obtain ⟨k, rfl⟩ := Nat.exists_eq_succ_of_ne_zero some_
  rw [evalWhile, if_pos (by simp; tauto)]

theorem evalFor_left {cond post : Option Expr} {body : Stmt} (some_ : n ≠ 0)
    (left : z.hadReturn = true ∨ z.hadBreak = true) : evalFor p n cond post body z = .ok z := by
  obtain ⟨k, rfl⟩ := Nat.exists_eq_succ_of_ne_zero some_
  rw [evalFor, if_pos (by simp; tauto)]

theorem fuel_pos {s : Stmt} {r : Out Flow} (run : cStmt p n m s σ = some r) : n ≠ 0 := by
  rintro rfl
  cases run

def WhileRuns (p : Prog) (n : Nat) : Prop :=
  ∀ (m : Mode) (again : Bool) (cond : Expr) (body : Stmt) (σ : CState) (r : Out Flow) (rest : List Scope) (z : ZState),
    m.strict = true → m.depth = rest.length + 1 → cWhile p n m again cond body σ = some r →
    At rest (if again then .cont else .normal) σ z →
    ∃ z', evalWhile p n cond body z = .ok z' ∧ At rest r.1 r.2.1 { z' with hadBreak := false } ∧
      z'.out = z.out ++ r.2.2

def ForRuns (p : Prog) (n : Nat) : Prop :=
  ∀ (m : Mode) (cond post : Option Expr) (body : Stmt) (σ : CState) (r : Out Flow) (rest : List Scope) (z : ZState),
    m.strict = true → m.depth = rest.length + 1 → cFor p n m cond post body σ = some r →
    At rest .normal σ z →
    ∃ z', evalFor p n cond post body z = .ok z' ∧ At rest r.1 r.2.1 { z' with hadBreak := false } ∧
      z'.out = z.out ++ r.2.2

include exprs stmts in
theorem while_step (whiles : WhileRuns p n) : WhileRuns p (n + 1) := by
  intro m again cond body σ r rest z strict depth run at_
  rw [cWhile] at run
  obtain ⟨⟨v, σ₁, o₁⟩, value, run⟩ := Option.bind_eq_some_iff.mp run
  have noReturn : z.hadReturn = false := at_.hadReturn (by cases again <;> exact fun _ => Flow.noConfusion)
  have noBreak : z.hadBreak = false := at_.hadBreak (by cases again <;> exact Flow.noConfusion)
  have allowed : Allowed { m with calls := m.calls && !(m.strict && again) } (if again then .cont else .normal) := by
    cases again with
    | false => exact .inl rfl
    | true => exact .inr ⟨rfl, by simp [strict]⟩
  obtain ⟨z₁, ok₁, at₁, out₁⟩ := value_follows exprs (by exact strict) (by exact depth) allowed value at_
  rw [evalWhile, if_neg (by simp [noReturn, noBreak, at_.error]), ok₁, ok_bind]
  dsimp only at run ⊢
  split at run
  next zero =>
    rw [if_pos zero]
    split at run
    · cases run
    next early =>
      obtain rfl := Option.some.inj run
      have first : again = false := by
        rw [← Bool.not_eq_true]
        exact fun yes => early ⟨strict, yes⟩
      subst first
      exact ⟨z₁, rfl, at₁.leave (.inl ⟨rfl, Flow.noConfusion⟩), out₁⟩
  next more =>
    rw [if_neg more]
    obtain ⟨⟨ended, σ₂, o₂⟩, ran, run⟩ := Option.bind_eq_some_iff.mp run
    have some_ := fuel_pos ran
    have fresh := at₁.round (by cases again <;> simp)
    obtain ⟨z₂, ok₂, at₂, out₂⟩ := stmts m body _ _ rest strict depth ran _ fresh
    rw [ok₂, ok_bind]
    have printed : z₂.out = z.out ++ (o₁ ++ o₂) := by
      rw [out₂]
      change z₁.out ++ o₂ = _
      rw [out₁, List.append_assoc]
    cases ended with
    | brk =>
        obtain rfl := Option.some.inj run
        rw [evalWhile_left some_ (.inr (at₂.brk.mpr rfl))]
        exact ⟨z₂, rfl, at₂.leave (.inr ⟨rfl, rfl⟩), printed⟩
    | ret u =>
        obtain rfl := Option.some.inj run
        rw [evalWhile_left some_ (.inl (at₂.ret.mpr ⟨u, rfl⟩))]
        exact ⟨z₂, rfl, at₂.leave (.inl ⟨rfl, Flow.noConfusion⟩), printed⟩
    | normal =>
        obtain ⟨⟨last, σ₃, o₃⟩, rounds, same⟩ := Option.bind_eq_some_iff.mp run
        obtain rfl := Option.some.inj same
        obtain ⟨z₃, ok₃, at₃, out₃⟩ := whiles m false cond body _ _ rest z₂ strict depth rounds at₂
        exact ⟨z₃, ok₃, at₃, by rw [out₃, printed]; simp only [List.append_assoc]⟩
    | cont =>
        obtain ⟨⟨last, σ₃, o₃⟩, rounds, same⟩ := Option.bind_eq_some_iff.mp run
        obtain rfl := Option.some.inj same
        obtain ⟨z₃, ok₃, at₃, out₃⟩ := whiles m true cond body _ _ rest z₂ strict depth rounds at₂
        exact ⟨z₃, ok₃, at₃, by rw [out₃, printed]; simp only [List.append_assoc]⟩

include exprs in
/-- A post or init expression; its value is not used. -/
theorem optional_follows {e : Option Expr} {v : Option Word} {o : List UInt8} (strict : m.strict = true)
    (depth : m.depth = rest.length + 1) (run : cOptional (cExpr p n m) e σ = some (v, σ', o))
    (at_ : At rest .normal σ z) :
    ∃ z', evalOptional (evalExpr p n) e z = .ok z' ∧ At rest .normal σ' z' ∧ z'.out = z.out ++ o := by
  cases e with
  | none =>
      obtain ⟨rfl, rfl, rfl⟩ := by simpa [cOptional] using run
      exact ⟨z, rfl, at_, (List.append_nil _).symm⟩
  | some e =>
      obtain ⟨w, z', ok, -, after, out⟩ := exprs m e σ _ rest .normal strict depth (.inl rfl) run z at_
      exact ⟨z', by rw [evalOptional, ok]; rfl, after, out⟩

include exprs in
theorem cond_follows {e : Option Expr} {v : Word} {o : List UInt8} (strict : m.strict = true)
    (depth : m.depth = rest.length + 1) (run : cCond (cExpr p n m) e σ = some (v, σ', o))
    (at_ : At rest .normal σ z) :
    ∃ z', evalCond (evalExpr p n) e z = .ok (v, z') ∧ At rest .normal σ' z' ∧ z'.out = z.out ++ o := by
  cases e with
  | none =>
      obtain ⟨rfl, rfl, rfl⟩ := by simpa [cCond] using run
      exact ⟨z, rfl, at_, (List.append_nil _).symm⟩
  | some e => exact value_follows exprs strict depth (.inl rfl) run at_

/-- A for loop that is left has no post expression to evaluate. -/
theorem evalFor_leaves {cond post : Option Expr} {body : Stmt} (some_ : n ≠ 0)
    (left : z.hadReturn = true ∨ z.hadBreak = true) (calm : z.hadContinue = false)
    (noPost : ¬ (m.strict = true ∧ post.isSome = true)) (strict : m.strict = true) :
    (do
      let z ← evalOptional (evalExpr p n) post { z with hadContinue := false }
      evalFor p n cond post body z) = (.ok z : Except Stop ZState) := by
  have same : { z with hadContinue := false } = z := by
    rw [← calm]
  cases post with
  | some _ => exact absurd ⟨strict, rfl⟩ noPost
  | none =>
      rw [same, evalOptional, ok_bind]
      exact evalFor_left some_ left

include exprs stmts in
theorem for_step (fors : ForRuns p n) : ForRuns p (n + 1) := by
  intro m cond post body σ r rest z strict depth run at_
  rw [cFor] at run
  obtain ⟨⟨v, σ₁, o₁⟩, value, run⟩ := Option.bind_eq_some_iff.mp run
  have noReturn := at_.hadReturn fun _ => Flow.noConfusion
  have noBreak := at_.hadBreak Flow.noConfusion
  obtain ⟨z₁, ok₁, at₁, out₁⟩ := cond_follows exprs strict depth value at_
  rw [evalFor, if_neg (by simp [noReturn, noBreak, at_.error]), ok₁, ok_bind]
  dsimp only at run ⊢
  split at run
  next zero =>
    rw [if_pos zero]
    obtain rfl := Option.some.inj run
    exact ⟨z₁, rfl, at₁.leave (.inl ⟨rfl, Flow.noConfusion⟩), out₁⟩
  next more =>
    rw [if_neg more]
    obtain ⟨⟨ended, σ₂, o₂⟩, ran, run⟩ := Option.bind_eq_some_iff.mp run
    have some_ := fuel_pos ran
    obtain ⟨z₂, ok₂, at₂, out₂⟩ := stmts m body _ _ rest strict depth ran _ (at₁.round (.inl rfl))
    rw [ok₂, ok_bind]
    have printed : z₂.out = z.out ++ (o₁ ++ o₂) := by
      rw [out₂]
      change z₁.out ++ o₂ = _
      rw [out₁, List.append_assoc]
    -- a round that goes on: the post expression and the rounds behind it
    have goes (open_ : ended = .normal ∨ ended = .cont)
        (run : ((cOptional (cExpr p n m) post σ₂).bind fun x => (cFor p n m cond post body x.2.1).bind fun y =>
            some (y.1, y.2.1, o₁ ++ (o₂ ++ (x.2.2 ++ y.2.2)))) = some r) :
        ∃ z', (do
          let z ← evalOptional (evalExpr p n) post { z₂ with hadContinue := false }
          evalFor p n cond post body z) = (.ok z' : Except Stop ZState) ∧
          At rest r.1 r.2.1 { z' with hadBreak := false } ∧ z'.out = z.out ++ r.2.2 := by
      obtain ⟨⟨u, σ₃, o₃⟩, after, run⟩ := Option.bind_eq_some_iff.mp run
      obtain ⟨⟨last, σ₄, o₄⟩, rounds, same⟩ := Option.bind_eq_some_iff.mp run
      obtain rfl := Option.some.inj same
      obtain ⟨z₃, ok₃, at₃, out₃⟩ := optional_follows exprs strict depth after (at₂.round open_)
      obtain ⟨z₄, ok₄, at₄, out₄⟩ := fors m cond post body _ _ rest z₃ strict depth rounds at₃
      refine ⟨z₄, ?_, at₄, ?_⟩
      · rw [ok₃, ok_bind, ok₄]
      · rw [out₄, out₃]
        change z₂.out ++ o₃ ++ o₄ = _
        rw [printed]
        simp only [List.append_assoc]
    cases ended with
    | normal => exact goes (.inl rfl) run
    | cont => exact goes (.inr rfl) run
    | brk =>
        dsimp only at run
        split at run
        · cases run
        next noPost =>
          obtain rfl := Option.some.inj run
          exact ⟨_, evalFor_leaves some_ (.inr (at₂.brk.mpr rfl)) (at₂.hadContinue Flow.noConfusion) noPost strict,
            at₂.leave (.inr ⟨rfl, rfl⟩), printed⟩
    | ret u =>
        dsimp only at run
        split at run
        · cases run
        next noPost =>
          obtain rfl := Option.some.inj run
          exact ⟨_, evalFor_leaves some_ (.inl (at₂.ret.mpr ⟨u, rfl⟩)) (at₂.hadContinue Flow.noConfusion) noPost strict,
            at₂.leave (.inl ⟨rfl, Flow.noConfusion⟩), printed⟩

include stmts in
theorem block_runs {ss : List Stmt} : ∀ {σ : CState} {r : Out Flow}, m.strict = true → m.depth = rest.length + 1 →
    cBlock (cStmt p n m) ss σ = some r → Runs (evalBlock (evalStmt p n) ss) rest σ r := by
  induction ss with
  | nil =>
      intro σ r _ _ run z at_
      obtain rfl := Option.some.inj run
      exact ⟨z, rfl, at_, (List.append_nil _).symm⟩
  | cons s ss ih =>
      intro σ r strict depth run z at_
      obtain ⟨⟨ended, σ₁, o₁⟩, ran, run⟩ := Option.bind_eq_some_iff.mp run
      obtain ⟨z₁, ok₁, at₁, out₁⟩ := stmts m s _ _ rest strict depth ran z at_
      rw [evalBlock, if_neg (by simp [at_.hadReturn fun _ => Flow.noConfusion, at_.hadBreak Flow.noConfusion,
        at_.hadContinue Flow.noConfusion, at_.error]), ok₁, ok_bind]
      dsimp only at run
      split at run
      next goes =>
        subst goes
        obtain ⟨⟨last, σ₂, o₂⟩, others, same⟩ := Option.bind_eq_some_iff.mp run
        obtain rfl := Option.some.inj same
        obtain ⟨z₂, ok₂, at₂, out₂⟩ := ih strict depth others z₁ at₁
        exact ⟨z₂, ok₂, at₂, by rw [out₂, out₁, List.append_assoc]⟩
      next stops =>
        obtain rfl := Option.some.inj run
        refine ⟨z₁, ?_, at₁, out₁⟩
        cases ss with
        | nil => rfl
        | cons _ _ =>
            rw [evalBlock, if_pos]
            cases ended with
            | normal => exact absurd rfl stops
            | brk => simp [at₁.brk.mpr rfl]
            | cont => simp [at₁.cont.mpr rfl]
            | ret u => simp [at₁.ret.mpr ⟨u, rfl⟩]

end Loops

section Step
variable {n : Nat} (exprs : ExprFollows p n) (stmts : StmtRuns p n)

theorem cFunction_few {run : Mode → Stmt → CState → Option (Out Flow)} {f : Name} {vs : List Word}
    {r : Out (Option Word)} (ran : cFunction p m run f vs σ = some r) : vs.length ≤ maxArgs := by
  obtain ⟨fn, -, ran⟩ := Option.bind_eq_some_iff.mp ran
  dsimp only at ran
  split at ran
  · cases ran
  next fits =>
    simp only [not_or, not_not] at fits
    rw [fits.1]
    exact fn.few

theorem cBuiltin_few {f : Name} {vs : List Word} {r : Out (Option Word)} (ran : cBuiltin f vs σ = some r) :
    vs.length ≤ maxArgs := by
  cases vs with
  | nil => exact Nat.zero_le _
  | cons a more =>
      cases more with
      | nil => exact Nat.le_add_left 1 7
      | cons _ _ => cases ran

include exprs stmts in
theorem call_follows {f : Name} {args : List Expr} {r : Out (Option Word)} (strict : m.strict = true)
    (depth : m.depth = rest.length + 1) (allowed : Allowed m flow)
    (run : cExpr p (n + 1) m (.call f args) σ = some r) (at_ : At rest flow σ z) :
    ∃ w z', evalExpr p (n + 1) (.call f args) z = .ok (w, z') ∧ (∀ x, r.1 = some x → w = x) ∧
      At rest flow r.2.1 z' ∧ z'.out = z.out ++ r.2.2 := by
  rw [cExpr.eq_def] at run
  rw [evalExpr.eq_def]
  dsimp only at run ⊢
  rw [if_neg (by simp [at_.error])]
  by_cases puts : f = Name.puts
  · rw [if_pos puts] at run ⊢
    split at run
    next off =>
      obtain rfl := Option.some.inj run
      exact ⟨0, _, rfl, none_value, at_.print _, rfl⟩
    next _ => cases run
  rw [if_neg puts] at run ⊢
  by_cases printf : f = Name.printf
  · rw [if_pos printf] at run ⊢
    split at run
    next off others =>
      obtain ⟨⟨text, σ', o⟩, ran, same⟩ := Option.bind_eq_some_iff.mp run
      obtain rfl := Option.some.inj same
      obtain ⟨z', ok, after, out⟩ := printf_follows exprs (p.strtab.drop off) strict depth allowed ran at_
        (List.append_nil z.out).symm
      have prints : (printfFrom p (evalExpr p n) (p.strtab.drop off) others z >>= fun z => .ok (0, z)) =
          (.ok (0, z') : Except Stop (Word × ZState)) := by rw [ok, ok_bind]
      exact ⟨0, z', prints, none_value, after, out⟩
    next _ => cases run
  rw [if_neg printf] at run ⊢
  obtain ⟨⟨vs, σ₁, o₁⟩, values, run⟩ := Option.bind_eq_some_iff.mp run
  obtain ⟨length, z₁, ok₁, at₁, out₁⟩ := args_follow exprs strict depth allowed values at_
  have called : ∃ v σ₂ o₂, r = (v, σ₂, o₁ ++ o₂) ∧ vs.length ≤ maxArgs ∧
      ∃ w z₂, callFunction p (evalStmt p n) f vs z₁ = .ok (w, z₂) ∧ (∀ x, v = some x → w = x) ∧
        At rest flow σ₂ z₂ ∧ z₂.out = z₁.out ++ o₂ := by
    dsimp only at run
    split at run
    next _ =>
      obtain ⟨⟨v, σ₂, o₂⟩, ran, same⟩ := Option.bind_eq_some_iff.mp run
      obtain rfl := Option.some.inj same
      exact ⟨v, σ₂, o₂, rfl, cBuiltin_few ran, builtin_follows _ ran at₁⟩
    next own =>
      obtain ⟨⟨v, σ₂, o₂⟩, ran, same⟩ := Option.bind_eq_some_iff.mp run
      obtain rfl := Option.some.inj same
      exact ⟨v, σ₂, o₂, rfl, cFunction_few ran, function_follows stmts strict depth allowed own puts ran at₁⟩
  obtain ⟨v, σ₂, o₂, rfl, few, w, z₂, ok₂, agrees, at₂, out₂⟩ := called
  refine ⟨w, z₂, ?_, agrees, at₂, ?_⟩
  · rw [List.take_of_length_le (length ▸ few), ok₁, ok_bind]
    exact ok₂
  · rw [out₂, out₁, List.append_assoc]

include exprs in
theorem bin_follows {op : BinOp} {a b : Expr} {r : Out (Option Word)} (strict : m.strict = true)
    (depth : m.depth = rest.length + 1) (allowed : Allowed m flow)
    (run : cExpr p (n + 1) m (.bin op a b) σ = some r) (at_ : At rest flow σ z) :
    ∃ w z', evalExpr p (n + 1) (.bin op a b) z = .ok (w, z') ∧ (∀ x, r.1 = some x → w = x) ∧
      At rest flow r.2.1 z' ∧ z'.out = z.out ++ r.2.2 := by
  rw [cExpr] at run
  rw [evalExpr, if_neg (by simp [at_.error])]
  obtain ⟨⟨va, σ₁, o₁⟩, left, run⟩ := Option.bind_eq_some_iff.mp run
  obtain ⟨z₁, ok₁, at₁, out₁⟩ := value_follows exprs strict depth allowed left at_
  dsimp only
  rw [ok₁, ok_bind]
  dsimp only at run ⊢
  -- both sides are evaluated, and the value is computed from theirs
  have both {w : Word → Option Word} {f : Word × ZState → Except Stop (Word × ZState)}
      (computes : ∀ vb v z, w vb = some v → f (vb, z) = .ok (v, z))
      (run : ((cValue (cExpr p n m) b σ₁).bind fun x => (w x.1).bind fun v =>
        some (some v, x.2.1, o₁ ++ x.2.2)) = some r) :
      ∃ u z', (evalExpr p n b z₁ >>= f) = .ok (u, z') ∧ (∀ x, r.1 = some x → u = x) ∧
        At rest flow r.2.1 z' ∧ z'.out = z.out ++ r.2.2 := by
    obtain ⟨⟨vb, σ₂, o₂⟩, right, run⟩ := Option.bind_eq_some_iff.mp run
    obtain ⟨v, meaning, same⟩ := Option.bind_eq_some_iff.mp run
    obtain rfl := Option.some.inj same
    obtain ⟨z₂, ok₂, at₂, out₂⟩ := value_follows exprs strict depth allowed right at₁
    refine ⟨v, z₂, ?_, fun x same => Option.some.inj same, at₂, by rw [out₂, out₁, List.append_assoc]⟩
    rw [ok₂, ok_bind]
    exact computes vb v z₂ meaning
  have logical {vb v : Word} (meaning : cTruth (vb ≠ 0) = some v) : truth (vb != 0) = v :=
    truth_eq bne_iff_ne meaning
  by_cases and : op = .and
  · rw [if_pos and]
    simp only [and, true_and, reduceCtorEq, false_and, if_false, true_or, if_true] at run
    by_cases zero : va = 0
    · rw [if_pos zero] at run ⊢
      obtain rfl := Option.some.inj run
      exact ⟨0, z₁, rfl, fun x same => Option.some.inj same, at₁, out₁⟩
    · rw [if_neg zero] at run ⊢
      exact both (fun vb v z meaning => by rw [logical meaning]) run
  rw [if_neg and]
  by_cases or : op = .or
  · rw [if_pos or]
    simp only [or, true_and, reduceCtorEq, false_and, if_false, or_true, if_true] at run
    by_cases some_ : va ≠ 0
    · rw [if_pos some_] at run ⊢
      obtain rfl := Option.some.inj run
      exact ⟨1, z₁, rfl, fun x same => Option.some.inj same, at₁, out₁⟩
    · rw [if_neg some_] at run ⊢
      exact both (fun vb v z meaning => by rw [logical meaning]) run
  rw [if_neg or]
  simp only [and, or, false_and, if_false, or_self] at run
  exact both (fun vb v z meaning => by dsimp only; rw [BinOp.apply_meaning meaning, ok_bind]) run

include exprs stmts in
theorem expr_step : ExprFollows p (n + 1) := by
  intro m e σ r rest flow strict depth allowed run z at_
  cases e with
  | bin op a b => exact bin_follows exprs strict depth allowed run at_
  | call f args => exact call_follows exprs stmts strict depth allowed run at_
  | num v =>
      rw [cExpr] at run
      obtain rfl := Option.some.inj run
      rw [evalExpr, if_neg (by simp [at_.error])]
      exact ⟨v, z, rfl, fun x same => Option.some.inj same, at_, (List.append_nil _).symm⟩
  | str off => cases run
  | var x =>
      rw [cExpr] at run
      obtain ⟨v, found, same⟩ := Option.bind_eq_some_iff.mp run
      obtain rfl := Option.some.inj same
      rw [evalExpr, if_neg (by simp [at_.error]), at_.find, found]
      exact ⟨v, z, rfl, fun x same => Option.some.inj same, at_, (List.append_nil _).symm⟩
  | un op a =>
      rw [cExpr] at run
      rw [evalExpr, if_neg (by simp [at_.error])]
      obtain ⟨⟨va, σ₁, o₁⟩, value, run⟩ := Option.bind_eq_some_iff.mp run
      obtain ⟨v, meaning, same⟩ := Option.bind_eq_some_iff.mp run
      obtain rfl := Option.some.inj same
      obtain ⟨z₁, ok₁, at₁, out₁⟩ := value_follows exprs strict depth allowed value at_
      have result : op.apply va = v := UnOp.apply_meaning meaning
      exact ⟨v, z₁, by rw [ok₁, ok_bind]; dsimp only; rw [result], fun x same => Option.some.inj same, at₁, out₁⟩
  | assign decl op x rhs =>
      rw [cExpr] at run
      rw [evalExpr, if_neg (by simp [at_.error])]
      obtain ⟨⟨rv, σ₁, o₁⟩, value, run⟩ := Option.bind_eq_some_iff.mp run
      obtain ⟨z₁, ok₁, at₁, out₁⟩ := value_follows exprs strict depth allowed value at_
      dsimp only
      rw [ok₁, ok_bind]
      dsimp only at run ⊢
      rw [at₁.find]
      cases found : σ₁.frame.find x with
      | none =>
          rw [found] at run
          dsimp only at run ⊢
          split at run
          · cases run
          next allowed =>
            simp only [not_or, not_and] at allowed
            obtain rfl := Option.some.inj run
            obtain ⟨at₂, out₂⟩ := at₁.setLocal x rv (Nat.lt_of_not_le (allowed.2 strict))
            rw [if_pos (by simpa using allowed.1)]
            exact ⟨rv, _, rfl, fun x same => Option.some.inj same, at₂, out₂.trans out₁⟩
      | some old =>
          rw [found] at run
          obtain ⟨v, meaning, same⟩ := Option.bind_eq_some_iff.mp run
          obtain rfl := Option.some.inj same
          obtain ⟨at₂, out₂⟩ := at₁.putVar x v
          dsimp only
          rw [AssignOp.apply_meaning meaning, ok_bind]
          exact ⟨v, _, rfl, fun x same => Option.some.inj same, at₂, out₂.trans out₁⟩

include exprs stmts in
theorem stmt_step (whiles : WhileRuns p n) (fors : ForRuns p n) : StmtRuns p (n + 1) := by
  intro m s σ r rest strict depth run z at_
  have open_ : ¬ z.hadError = true := by simp [at_.error]
  cases s with
  | expr e =>
      rw [cStmt] at run
      rw [evalStmt, if_neg open_]
      obtain ⟨⟨v, σ₁, o₁⟩, value, same⟩ := Option.bind_eq_some_iff.mp run
      obtain rfl := Option.some.inj same
      obtain ⟨w, z₁, ok₁, -, at₁, out₁⟩ := exprs m e σ _ rest .normal strict depth (.inl rfl) value z at_
      exact ⟨z₁, by rw [ok₁, ok_bind], at₁, out₁⟩
  | ite cond then_ else_ =>
      rw [cStmt] at run
      rw [evalStmt, if_neg open_]
      obtain ⟨⟨v, σ₁, o₁⟩, value, run⟩ := Option.bind_eq_some_iff.mp run
      obtain ⟨z₁, ok₁, at₁, out₁⟩ := value_follows exprs strict depth (.inl rfl) value at_
      dsimp only
      rw [ok₁, ok_bind]
      dsimp only at run ⊢
      -- the branch taken, with the condition's output before it
      have branch {s : Stmt} (run : ((cStmt p n m s σ₁).bind fun x => some (x.1, x.2.1, o₁ ++ x.2.2)) = some r) :
          ∃ z', evalStmt p n s z₁ = .ok z' ∧ At rest r.1 r.2.1 z' ∧ z'.out = z.out ++ r.2.2 := by
        obtain ⟨⟨ended, σ₂, o₂⟩, ran, same⟩ := Option.bind_eq_some_iff.mp run
        obtain rfl := Option.some.inj same
        obtain ⟨z₂, ok₂, at₂, out₂⟩ := stmts m s _ _ rest strict depth ran z₁ at₁
        exact ⟨z₂, ok₂, at₂, by rw [out₂, out₁, List.append_assoc]⟩
      split at run
      next yes =>
        rw [if_pos yes]
        exact branch run
      next no =>
        rw [if_neg no]
        cases else_ with
        | none =>
            obtain rfl := Option.some.inj run
            exact ⟨z₁, rfl, at₁, by rw [out₁, List.append_nil]⟩
        | some s => exact branch run
  | «while» cond body =>
      rw [cStmt] at run
      rw [evalStmt, if_neg open_]
      obtain ⟨z₁, ok₁, at₁, out₁⟩ := whiles m false cond body σ r rest z strict depth run at_
      exact ⟨_, by rw [ok₁, ok_bind]; rfl, at₁.note (.ended z₁.hadContinue), out₁⟩
  | «for» init cond post body =>
      rw [cStmt] at run
      rw [evalStmt, if_neg open_]
      obtain ⟨⟨v, σ₁, o₁⟩, first, run⟩ := Option.bind_eq_some_iff.mp run
      obtain ⟨⟨ended, σ₂, o₂⟩, rounds, same⟩ := Option.bind_eq_some_iff.mp run
      obtain rfl := Option.some.inj same
      obtain ⟨z₁, ok₁, at₁, out₁⟩ := optional_follows exprs strict depth first at_
      obtain ⟨z₂, ok₂, at₂, out₂⟩ := fors m cond post body _ _ rest z₁ strict depth rounds at₁
      refine ⟨{ z₂ with hadBreak := false }, ?_, at₂, ?_⟩
      · rw [ok₁, ok_bind, ok₂, ok_bind]
      · change z₂.out = _
        rw [out₂, out₁, List.append_assoc]
  | block ss =>
      rw [cStmt] at run
      rw [evalStmt, if_neg open_]
      exact block_runs stmts strict depth run z at_
  | ret e =>
      cases e with
      | none =>
          rw [cStmt] at run
          rw [evalStmt, if_neg open_]
          obtain rfl := Option.some.inj run
          exact ⟨_, rfl, at_.returns z.returnValue none none_value, (List.append_nil _).symm⟩
      | some e =>
          rw [cStmt] at run
          rw [evalStmt, if_neg open_]
          obtain ⟨⟨v, σ₁, o₁⟩, value, same⟩ := Option.bind_eq_some_iff.mp run
          obtain rfl := Option.some.inj same
          obtain ⟨z₁, ok₁, at₁, out₁⟩ := value_follows exprs strict depth (.inl rfl) value at_
          exact ⟨_, by rw [ok₁, ok_bind], (at₁.note _).returns v (some v) fun x same => Option.some.inj same, out₁⟩
  | brk =>
      rw [cStmt] at run
      rw [evalStmt, if_neg open_]
      obtain rfl := Option.some.inj run
      exact ⟨_, rfl, at_.breaks, (List.append_nil _).symm⟩
  | cont =>
      rw [cStmt] at run
      rw [evalStmt, if_neg open_]
      obtain rfl := Option.some.inj run
      exact ⟨_, rfl, at_.continues, (List.append_nil _).symm⟩

end Step

/-- What the evaluator does for one unit of fuel. -/
structure Follow (p : Prog) (n : Nat) : Prop where
  exprs : ExprFollows p n
  stmts : StmtRuns p n
  whiles : WhileRuns p n
  fors : ForRuns p n

theorem follow (p : Prog) (n : Nat) : Follow p n := by
  induction n with
  | zero =>
      constructor
      · exact fun _ _ _ _ _ _ _ _ _ run => nomatch run
      · exact fun _ _ _ _ _ _ _ run => nomatch run
      · exact fun _ _ _ _ _ _ _ _ _ _ run => nomatch run
      · exact fun _ _ _ _ _ _ _ _ _ _ run => nomatch run
  | succ n ih =>
      constructor
      · exact expr_step ih.exprs ih.stmts
      · exact stmt_step ih.exprs ih.stmts ih.whiles ih.fors
      · exact while_step ih.exprs ih.stmts ih.whiles
      · exact for_step ih.exprs ih.stmts ih.fors

section Samples

/-- A state in which a call to a function without parameters runs its body. -/
def fresh : ZState := { ZState.start [] with scopes := [[]] }

end Samples

end Zenbite.Zbc
