import Mathlib.Tactic.Common
import Zenbite.Zbc.Fuel

/-! What a call leaves behind: its value, the scopes and the flags. -/

namespace Zenbite.Zbc

/-- Break and continue stand only inside loops. -/
inductive Stmt.Closed : Bool → Stmt → Prop where
  | expr {loop : Bool} (e : Expr) : Stmt.Closed loop (.expr e)
  | ifThen {loop : Bool} (c : Expr) {s : Stmt} (yes : s.Closed loop) : Stmt.Closed loop (.ite c s none)
  | ifElse {loop : Bool} (c : Expr) {s s' : Stmt} (yes : s.Closed loop) (no : s'.Closed loop) :
      Stmt.Closed loop (.ite c s (some s'))
  | while {loop : Bool} (c : Expr) {s : Stmt} (body : s.Closed true) : Stmt.Closed loop (.while c s)
  | for {loop : Bool} (init c post : Option Expr) {s : Stmt} (body : s.Closed true) :
      Stmt.Closed loop (.for init c post s)
  | block {loop : Bool} {ss : List Stmt} (all : ∀ s ∈ ss, s.Closed loop) : Stmt.Closed loop (.block ss)
  | ret {loop : Bool} (e : Option Expr) : Stmt.Closed loop (.ret e)
  | brk : Stmt.Closed true .brk
  | cont : Stmt.Closed true .cont

def Prog.Closed (p : Prog) : Prop := ∀ fn ∈ p.funcs, ∀ s ∈ fn.body, s.Closed false

/-- No function is entered with a return pending, and no while loop is left with a
continue pending. -/
def Fair (t : List Note) : Prop := ∀ note ∈ t, note ≠ .called true ∧ note ≠ .ended true

theorem Fair.left {s t : List Note} (fair : Fair (s ++ t)) : Fair s :=
  fun note member => fair note (List.mem_append_left t member)

theorem Fair.right {s t : List Note} (fair : Fair (s ++ t)) : Fair t :=
  fun note member => fair note (List.mem_append_right s member)

/-- The value of the last `return e` of the call at that depth. -/
def Note.keep (d : Nat) (last : Option Word) : Note → Option Word
  | .returned d' v => if d' = d then some v else last
  | _ => last

def lastReturned (d : Nat) (t : List Note) (last : Option Word) : Option Word := t.foldl (Note.keep d) last

/-- The last value that the call at that depth has returned itself or got back from a
call. -/
def Note.write (d : Nat) (value : Word) : Note → Word
  | .returned d' v => if d' = d then v else value
  | .back d' v => if d' = d then v else value
  | _ => value

def lastWritten (d : Nat) (t : List Note) (value : Word) : Word := t.foldl (Note.write d) value

/-- The note is about a call at that depth or inside it. -/
def Note.Deep (d : Nat) : Note → Prop
  | .returned d' _ => d ≤ d'
  | .back d' _ => d ≤ d'
  | _ => True

section Notes
variable {d : Nat} {s t : List Note}

theorem lastReturned_append (last : Option Word) :
    lastReturned d (s ++ t) last = lastReturned d t (lastReturned d s last) := List.foldl_append

theorem lastWritten_append (value : Word) :
    lastWritten d (s ++ t) value = lastWritten d t (lastWritten d s value) := List.foldl_append

theorem Note.Deep.mono {d' : Nat} {note : Note} (deep : note.Deep d') (less : d ≤ d') : note.Deep d := by
  cases note with
  | called _ => trivial
  | ended _ => trivial
  | back _ _ => exact Nat.le_trans less deep
  | returned _ _ => exact Nat.le_trans less deep

/-- Deeper calls do not count. -/
theorem lastReturned_deep (deep : ∀ note ∈ t, note.Deep (d + 1)) (last : Option Word) : lastReturned d t last = last := by
  induction t generalizing last with
  | nil => rfl
  | cons note t ih =>
      have same : Note.keep d last note = last := by
        cases note with
        | called _ => rfl
        | ended _ => rfl
        | back _ _ => rfl
        | returned d' v => exact if_neg (Nat.ne_of_gt (deep _ List.mem_cons_self))
      rw [lastReturned, List.foldl_cons, same]
      exact ih (fun note member => deep note (List.mem_cons_of_mem _ member)) last

/-- How the notes of a statement end: no value has been returned, or one has, and then
a return is pending and nothing is written behind it. -/
def Outcome (d : Nat) (t : List Note) (pending : Bool) : Prop :=
  (∀ last, lastReturned d t last = last) ∨
    ∃ v, pending = true ∧ (∀ last, lastReturned d t last = some v) ∧ ∀ x, lastWritten d t x = v

theorem Outcome.after {pending : Bool} (open_ : ∀ last, lastReturned d s last = last) (more : Outcome d t pending) :
    Outcome d (s ++ t) pending := by
  rcases more with none_ | ⟨v, set, value, written⟩
  · left
    intro last
    rw [lastReturned_append, open_, none_]
  · right
    refine ⟨v, set, ?_, ?_⟩
    · intro last
      rw [lastReturned_append, value]
    · intro x
      rw [lastWritten_append, written]

theorem Outcome.quiet {pending : Bool} (done : Outcome d s pending) (open_ : ∀ last, lastReturned d t last = last)
    (still : pending = true → ∀ x, lastWritten d t x = x) : Outcome d (s ++ t) pending := by
  rcases done with none_ | ⟨v, set, value, written⟩
  · left
    intro last
    rw [lastReturned_append, none_, open_]
  · right
    refine ⟨v, set, ?_, ?_⟩
    · intro last
      rw [lastReturned_append, open_, value]
    · intro x
      rw [lastWritten_append, still set, written]

end Notes

/-- The scopes of the callers stay, and the notes `t` tell what becomes of
return_value. -/
structure Kept (z z' : ZState) (t : List Note) : Prop where
  notes : z'.notes = z.notes ++ t
  length : z'.scopes.length = z.scopes.length
  tail : z'.scopes.tail = z.scopes.tail
  deep : ∀ note ∈ t, note.Deep z.scopes.length
  value : z'.returnValue = lastWritten z.scopes.length t z.returnValue

section Kept
variable {z z₁ z₂ z' : ZState} {s t : List Note}

theorem Kept.same (notes : z'.notes = z.notes) (length : z'.scopes.length = z.scopes.length)
    (tail : z'.scopes.tail = z.scopes.tail) (value : z'.returnValue = z.returnValue) : Kept z z' [] :=
  ⟨by rw [notes, List.append_nil], length, tail, nofun, value⟩

theorem Kept.refl (z : ZState) : Kept z z [] := Kept.same rfl rfl rfl rfl

theorem Kept.nil (kept : Kept z z t) : t = [] := List.self_eq_append_right.mp kept.notes

theorem Kept.trans (first : Kept z z₁ s) (second : Kept z₁ z₂ t) : Kept z z₂ (s ++ t) := by
  constructor
  · rw [second.notes, first.notes, List.append_assoc]
  · exact second.length.trans first.length
  · exact second.tail.trans first.tail
  · intro note member
    rcases List.mem_append.mp member with member | member
    · exact first.deep note member
    · rw [← first.length]
      exact second.deep note member
  · rw [second.value, first.value, first.length, lastWritten_append]

def SameFlags (z z' : ZState) : Prop :=
  z'.hadReturn = z.hadReturn ∧ z'.hadBreak = z.hadBreak ∧ z'.hadContinue = z.hadContinue

theorem SameFlags.trans (first : SameFlags z z₁) (second : SameFlags z₁ z₂) : SameFlags z z₂ :=
  ⟨second.1.trans first.1, second.2.1.trans first.2.1, second.2.2.trans first.2.2⟩

/-- An expression returns nothing itself and keeps the flags; with a return pending it
writes nothing. -/
structure ExprKept (z z' : ZState) (t : List Note) : Prop extends Kept z z' t where
  open_ : ∀ last, lastReturned z.scopes.length t last = last
  flags : Fair t → SameFlags z z'
  still : Fair t → z.hadReturn = true → ∀ x, lastWritten z.scopes.length t x = x

theorem ExprKept.same (kept : Kept z z' []) (flags : SameFlags z z') : ExprKept z z' [] :=
  ⟨kept, fun _ => rfl, fun _ => flags, fun _ _ _ => rfl⟩

theorem ExprKept.refl (z : ZState) : ExprKept z z [] := ExprKept.same (Kept.refl z) ⟨rfl, rfl, rfl⟩

theorem ExprKept.trans (first : ExprKept z z₁ s) (second : ExprKept z₁ z₂ t) : ExprKept z z₂ (s ++ t) := by
  have open_ := second.open_
  have still := second.still
  rw [first.length] at open_ still
  constructor
  · exact first.toKept.trans second.toKept
  · intro last
    rw [lastReturned_append, first.open_, open_]
  · exact fun fair => (first.flags fair.left).trans (second.flags fair.right)
  · intro fair pending x
    rw [lastWritten_append, first.still fair.left pending]
    exact still fair.right ((first.flags fair.left).1.trans pending) x

/-- No flag is set. -/
structure Calm (z : ZState) : Prop where
  ret : z.hadReturn = false
  brk : z.hadBreak = false
  cont : z.hadContinue = false

theorem Calm.keep (calm : Calm z) (same : SameFlags z z') : Calm z' :=
  ⟨same.1.trans calm.ret, same.2.1.trans calm.brk, same.2.2.trans calm.cont⟩

/-- What a statement leaves behind; outside loops neither a break nor a continue. -/
structure StmtKept (loop : Bool) (z z' : ZState) (t : List Note) : Prop extends Kept z z' t where
  ended : Fair t → Calm z → Outcome z.scopes.length t z'.hadReturn
  closed : Fair t → Calm z → loop = false → z'.hadBreak = false ∧ z'.hadContinue = false

theorem ExprKept.stmt {loop : Bool} (kept : ExprKept z z' t) : StmtKept loop z z' t := by
  constructor
  · exact kept.toKept
  · exact fun _ _ => .inl kept.open_
  · intro fair calm _
    have after := calm.keep (kept.flags fair)
    exact ⟨after.brk, after.cont⟩

/-- An expression before a statement. -/
theorem ExprKept.before {loop : Bool} (first : ExprKept z z₁ s) (second : StmtKept loop z₁ z₂ t) :
    StmtKept loop z z₂ (s ++ t) := by
  constructor
  · exact first.toKept.trans second.toKept
  · intro fair calm
    have ended := second.ended fair.right (calm.keep (first.flags fair.left))
    rw [first.length] at ended
    exact ended.after first.open_
  · exact fun fair calm => second.closed fair.right (calm.keep (first.flags fair.left))

end Kept

theorem bind_ok {α β : Type} {x : Except Stop α} {f : α → Except Stop β} {r : β} (ran : (x >>= f) = .ok r) :
    ∃ a, x = .ok a ∧ f a = .ok r := by
  cases x with
  | error _ => exact nomatch ran
  | ok a => exact ⟨a, rfl, ran⟩

variable {p : Prog} {z z' : ZState}

section Printing

theorem err_kept (z : ZState) (msg : String) : ExprKept z (z.err msg) [] := by
  rw [ZState.err]
  split
  · exact ExprKept.same (Kept.same rfl rfl rfl rfl) ⟨rfl, rfl, rfl⟩
  · exact ExprKept.same (Kept.same rfl rfl rfl rfl) ⟨rfl, rfl, rfl⟩

theorem print_kept (z : ZState) (text : List UInt8) : ExprKept z (z.print text) [] :=
  ExprKept.same (Kept.same rfl rfl rfl rfl) ⟨rfl, rfl, rfl⟩

theorem named_kept (z : ZState) (msg front : String) (x : Name) : ExprKept z ((z.err msg).named front x) [] :=
  (err_kept z msg).trans (print_kept _ _)

theorem putVar_kept (z : ZState) (x : Name) (v : Word) : ExprKept z (z.putVar x v) [] := by
  rw [ZState.putVar]
  split
  · exact ExprKept.refl z
  next scopes =>
    have length (s : Scope) : (s.put x v).length = s.length := by
      induction s with
      | nil => rfl
      | cons y s ih =>
          rw [Scope.put]
          split
          · rfl
          · rw [List.length_cons, ih, List.length_cons]
    refine ExprKept.same (Kept.same rfl ?_ ?_ rfl) ⟨rfl, rfl, rfl⟩
    · rw [scopes, List.length_cons, List.length_cons]
    · rw [scopes, List.tail_cons, List.tail_cons]

theorem setLocal_kept (z : ZState) (x : Name) (v : Word) : ExprKept z (z.setLocal x v) [] := by
  rw [ZState.setLocal]
  split
  · exact ExprKept.refl z
  next scopes =>
    split
    · exact err_kept z _
    · refine ExprKept.same (Kept.same rfl ?_ ?_ rfl) ⟨rfl, rfl, rfl⟩
      · rw [scopes, List.length_cons, List.length_cons]
      · rw [scopes, List.tail_cons, List.tail_cons]

end Printing

/-- Expressions keep what they should. -/
def ExprsKeep (p : Prog) (n : Nat) : Prop :=
  ∀ e z r, evalExpr p n e z = .ok r → ∃ t, ExprKept z r.2 t

def StmtsKeep (p : Prog) (n : Nat) : Prop :=
  ∀ loop s z z', s.Closed loop → evalStmt p n s z = .ok z' → ∃ t, StmtKept loop z z' t

section Exprs
variable {n : Nat} (exprs : ExprsKeep p n)
include exprs

theorem args_keep (es : List Expr) : ∀ {z : ZState} {r : List Word × ZState},
    evalArgs (evalExpr p n) es z = .ok r → ∃ t, ExprKept z r.2 t := by
  induction es with
  | nil =>
      intro z r ran
      obtain rfl := Except.ok.inj ran
      exact ⟨[], ExprKept.refl z⟩
  | cons e es ih =>
      intro z r ran
      obtain ⟨⟨v, z₁⟩, first, ran⟩ := bind_ok ran
      obtain ⟨⟨vs, z₂⟩, more, ran⟩ := bind_ok ran
      obtain rfl := Except.ok.inj ran
      obtain ⟨s, kept⟩ := exprs e z _ first
      obtain ⟨t, others⟩ := ih more
      exact ⟨s ++ t, kept.trans others⟩

theorem optional_keeps {e : Option Expr} (ran : evalOptional (evalExpr p n) e z = .ok z') : ∃ t, ExprKept z z' t := by
  cases e with
  | none =>
      obtain rfl := Except.ok.inj ran
      exact ⟨[], ExprKept.refl z⟩
  | some e =>
      obtain ⟨⟨v, z₁⟩, first, ran⟩ := bind_ok ran
      obtain rfl := Except.ok.inj ran
      exact exprs e z _ first

theorem cond_keeps {e : Option Expr} {r : Word × ZState} (ran : evalCond (evalExpr p n) e z = .ok r) :
    ∃ t, ExprKept z r.2 t := by
  cases e with
  | none =>
      obtain rfl := Except.ok.inj ran
      exact ⟨[], ExprKept.refl z⟩
  | some e => exact exprs e z r ran

theorem printf_keeps (l : List UInt8) : ∀ {args : List Expr} {z z' : ZState},
    printfFrom p (evalExpr p n) l args z = .ok z' → ∃ t, ExprKept z z' t := by
  induction length : l.length using Nat.strongRecOn generalizing l with
  | _ k ih =>
      intro args z z' ran
      -- text first, then the rest of the format
      have printed {s : List UInt8} {args : List Expr} {z : ZState} {text : List UInt8} (less : s.length < k)
          (ran : printfFrom p (evalExpr p n) s args (z.print text) = .ok z') : ∃ t, ExprKept z z' t := by
        obtain ⟨t, kept⟩ := ih s.length less s rfl ran
        exact ⟨[] ++ t, (print_kept z text).trans kept⟩
      rw [printfFrom.eq_def] at ran
      cases l with
      | nil =>
          obtain rfl := Except.ok.inj ran
          exact ⟨[], ExprKept.refl z⟩
      | cons c s =>
          have shorter : s.length < k := by
            rw [← length]
            exact Nat.lt_succ_self _
          dsimp only at ran
          split at ran
          · obtain rfl := Except.ok.inj ran
            exact ⟨[], ExprKept.refl z⟩
          split at ran
          · exact printed shorter ran
          cases s with
          | nil =>
              cases args with
              | nil =>
                  obtain rfl := Except.ok.inj ran
                  exact ⟨[], print_kept z _⟩
              | cons e others =>
                  obtain ⟨⟨v, z₁⟩, first, ran⟩ := bind_ok ran
                  obtain rfl := Except.ok.inj ran
                  obtain ⟨t, kept⟩ := exprs e z _ first
                  exact ⟨t ++ [], kept.trans (print_kept z₁ _)⟩
          | cons d s =>
              have less : s.length < k := Nat.lt_trans (Nat.lt_succ_self _) shorter
              dsimp only at ran
              split at ran
              · exact printed less ran
              split at ran
              · split at ran
                · exact printed less ran
                · exact ih s.length less s rfl ran
              cases args with
              | nil => exact printed less ran
              | cons e others =>
                  obtain ⟨⟨v, z₁⟩, first, ran⟩ := bind_ok ran
                  obtain ⟨t, kept⟩ := exprs e z _ first
                  obtain ⟨t', more⟩ := printed less ran
                  exact ⟨t ++ t', kept.trans more⟩

end Exprs

/-- A block does nothing while a flag is set. -/
theorem evalBlock_pending {run : Stmt → ZState → Except Stop ZState} {ss : List Stmt} (pending : ¬ Calm z) :
    evalBlock run ss z = .ok z := by
  cases ss with
  | nil => rfl
  | cons s ss =>
      rw [evalBlock, if_pos]
      by_contra open_
      simp only [Bool.or_eq_true, not_or, Bool.not_eq_true] at open_
      exact pending ⟨open_.1.1.1, open_.1.1.2, open_.1.2⟩

section Call
variable {n : Nat} (stmts : StmtsKeep p n) (closed : p.Closed)

/-- The body of a function between entering and leaving it. -/
structure Body (z z₁ : ZState) (t : List Note) : Prop extends Kept z z₁ t where
  flags : Fair t → z₁.hadBreak = z.hadBreak ∧ z₁.hadContinue = z.hadContinue
  ended : Fair t → Outcome z.scopes.length t z₁.hadReturn

include stmts closed in
/-- A call of a function of the program, step by step. -/
theorem call_body {f : Name} {vs : List Word} {v : Word} {fn : Func} (own : ¬ isBuiltin f) (notPuts : f ≠ Name.puts)
    (found : p.find f = some fn) (room : z.scopes.length < maxCall)
    (ran : callFunction p (evalStmt p n) f vs z = .ok (v, z')) :
    ∃ z₁ t, v = z₁.returnValue ∧ z' = z₁.leave ∧ Body (z.enter (bindParams fn.params vs)) z₁ t := by
  simp only [isBuiltin, not_or] at own
  rw [callFunction.eq_def, if_neg own.1, if_neg own.2.1, if_neg own.2.2, if_neg notPuts, found] at ran
  dsimp only at ran
  rw [if_neg (Nat.not_le_of_lt room)] at ran
  obtain ⟨z₁, body, ran⟩ := bind_ok ran
  obtain ⟨rfl, rfl⟩ := Prod.mk.inj (Except.ok.inj ran)
  refine ⟨z₁, ?_⟩
  have inside : (Stmt.block fn.body).Closed false := .block (closed fn (List.mem_of_find?_eq_some found))
  by_cases calm : Calm (z.enter (bindParams fn.params vs))
  · obtain ⟨t, kept⟩ := stmts false _ _ _ inside body
    refine ⟨t, rfl, rfl, kept.toKept, ?_, fun fair => kept.ended fair calm⟩
    intro fair
    obtain ⟨brk, cont⟩ := kept.closed fair calm rfl
    exact ⟨brk.trans calm.brk.symm, cont.trans calm.cont.symm⟩
  · have same : z₁ = z.enter (bindParams fn.params vs) := by
      cases n with
      | zero => exact nomatch body
      | succ n =>
          rw [evalStmt] at body
          split at body
          · exact (Except.ok.inj body).symm
          · rw [evalBlock_pending calm] at body
            exact (Except.ok.inj body).symm
    subst same
    exact ⟨[], rfl, rfl, Kept.refl _, fun _ => ⟨rfl, rfl⟩, fun _ => .inl fun _ => rfl⟩

/-- The whole call, with the notes of its two halves. -/
theorem Body.call {z₁ : ZState} {s : Scope} {t : List Note} (body : Body (z.enter s) z₁ t) :
    ExprKept z z₁.leave (.called z.hadReturn :: (t ++ [.back z.scopes.length z₁.returnValue])) := by
  have tail : z₁.scopes.tail = z.scopes := body.tail
  have deep : ∀ note ∈ t, note.Deep (z.scopes.length + 1) := body.deep
  have entered {t' : List Note} (fair : Fair (.called z.hadReturn :: t')) : z.hadReturn = false := by
    rw [← Bool.not_eq_true]
    intro pending
    exact (fair _ List.mem_cons_self).1 (by rw [pending])
  constructor
  · constructor
    · rw [ZState.leave]
      change z₁.notes ++ [.back z₁.scopes.tail.length z₁.returnValue] = _
      rw [body.notes, tail, ZState.enter]
      change z.notes ++ [.called z.hadReturn] ++ t ++ _ = _
      simp only [List.append_assoc, List.cons_append, List.nil_append]
    · exact congrArg List.length tail
    · exact congrArg List.tail tail
    · intro note member
      rcases List.mem_cons.mp member with rfl | member
      · trivial
      rcases List.mem_append.mp member with member | member
      · exact (deep note member).mono (Nat.le_succ _)
      · rw [List.mem_singleton.mp member]
        exact Nat.le_refl _
    · rw [← List.cons_append, lastWritten_append]
      exact (if_pos rfl).symm
  · intro last
    rw [← List.cons_append, lastReturned_append]
    change lastReturned _ t last = last
    exact lastReturned_deep deep last
  · intro fair
    have flags := body.flags (fair.right (s := [.called z.hadReturn])).left
    exact ⟨(entered fair).symm, flags⟩
  · intro fair pending
    rw [entered fair] at pending
    cases pending

include stmts closed in
theorem call_keeps {f : Name} {vs : List Word} {r : Word × ZState}
    (ran : callFunction p (evalStmt p n) f vs z = .ok r) : ∃ t, ExprKept z r.2 t := by
  have whole := ran
  rw [callFunction.eq_def] at ran
  split at ran
  · cases vs with
    | nil =>
        obtain rfl := Except.ok.inj ran
        exact ⟨[], ExprKept.refl z⟩
    | cons a _ =>
        obtain rfl := Except.ok.inj ran
        exact ⟨[], print_kept z _⟩
  next notPrint =>
  split at ran
  · cases vs with
    | nil =>
        obtain rfl := Except.ok.inj ran
        exact ⟨[], ExprKept.refl z⟩
    | cons a _ =>
        obtain rfl := Except.ok.inj ran
        exact ⟨[], print_kept z _⟩
  next notPutchar =>
  split at ran
  · split at ran
    · exact nomatch ran
    · obtain rfl := Except.ok.inj ran
      exact ⟨[], ExprKept.same (Kept.same rfl rfl rfl rfl) ⟨rfl, rfl, rfl⟩⟩
  next notGetchar =>
  split at ran
  · obtain rfl := Except.ok.inj ran
    exact ⟨[], ExprKept.refl z⟩
  next notPuts =>
  cases found : p.find f with
  | none =>
      rw [found] at ran
      obtain rfl := Except.ok.inj ran
      exact ⟨[], named_kept z _ _ _⟩
  | some fn =>
      rw [found] at ran
      dsimp only at ran
      split at ran
      · obtain rfl := Except.ok.inj ran
        exact ⟨[], err_kept z _⟩
      next room =>
        have own : ¬ isBuiltin f := fun builtin => builtin.elim notPrint fun rest => rest.elim notPutchar notGetchar
        obtain ⟨v, z'⟩ := r
        obtain ⟨z₁, t, rfl, rfl, body⟩ := call_body stmts closed own notPuts found (Nat.lt_of_not_le room) whole
        exact ⟨_, body.call⟩

end Call

section Steps
variable {n : Nat} (exprs : ExprsKeep p n) (stmts : StmtsKeep p n) (closed : p.Closed)

include exprs stmts closed in
theorem exprs_step : ExprsKeep p (n + 1) := by
  intro e z r ran
  rw [evalExpr.eq_def] at ran
  dsimp only at ran
  split at ran
  · obtain rfl := Except.ok.inj ran
    exact ⟨[], ExprKept.refl z⟩
  cases e with
  | num v =>
      obtain rfl := Except.ok.inj ran
      exact ⟨[], ExprKept.refl z⟩
  | str off =>
      obtain rfl := Except.ok.inj ran
      exact ⟨[], ExprKept.refl z⟩
  | var x =>
      dsimp only at ran
      split at ran
      · obtain rfl := Except.ok.inj ran
        exact ⟨[], ExprKept.refl z⟩
      · obtain rfl := Except.ok.inj ran
        exact ⟨[], named_kept z _ _ _⟩
  | assign decl op x rhs =>
      obtain ⟨⟨rv, z₁⟩, first, ran⟩ := bind_ok ran
      obtain ⟨t, kept⟩ := exprs rhs z _ first
      refine ⟨t ++ [], kept.trans ?_⟩
      dsimp only at ran
      split at ran
      · split at ran
        · obtain rfl := Except.ok.inj ran
          exact setLocal_kept z₁ x rv
        · obtain rfl := Except.ok.inj ran
          exact named_kept z₁ _ _ _
      · obtain ⟨v, -, ran⟩ := bind_ok ran
        obtain rfl := Except.ok.inj ran
        exact putVar_kept z₁ x v
  | un op a =>
      obtain ⟨⟨va, z₁⟩, first, ran⟩ := bind_ok ran
      obtain rfl := Except.ok.inj ran
      exact exprs a z (va, z₁) first
  | bin op a b =>
      obtain ⟨⟨va, z₁⟩, first, ran⟩ := bind_ok ran
      obtain ⟨t, kept⟩ := exprs a z _ first
      -- the left side alone, or both sides
      have both {f : Word × ZState → Except Stop (Word × ZState)} (pure_ : ∀ x r, f x = .ok r → r.2 = x.2)
          (ran : (evalExpr p n b z₁ >>= f) = .ok r) : ∃ t, ExprKept z r.2 t := by
        obtain ⟨⟨vb, z₂⟩, second, ran⟩ := bind_ok ran
        obtain ⟨t', kept'⟩ := exprs b z₁ _ second
        rw [pure_ _ _ ran]
        exact ⟨t ++ t', kept.trans kept'⟩
      have value {w : Word × ZState → Word} : ∀ x r, (.ok (w x, x.2) : Except Stop (Word × ZState)) = .ok r → r.2 = x.2 := by
        rintro x r same
        rw [← Except.ok.inj same]
      dsimp only at ran
      split at ran
      · split at ran
        · obtain rfl := Except.ok.inj ran
          exact ⟨t, kept⟩
        · exact both value ran
      split at ran
      · split at ran
        · obtain rfl := Except.ok.inj ran
          exact ⟨t, kept⟩
        · exact both value ran
      · apply both _ ran
        intro x r ran
        obtain ⟨v, -, ran⟩ := bind_ok ran
        rw [← Except.ok.inj ran]
  | call f args =>
      dsimp only at ran
      split at ran
      · split at ran
        · obtain rfl := Except.ok.inj ran
          exact ⟨[], print_kept z _⟩
        · obtain rfl := Except.ok.inj ran
          exact ⟨[], err_kept z _⟩
      split at ran
      · split at ran
        · obtain ⟨z₁, first, ran⟩ := bind_ok ran
          obtain rfl := Except.ok.inj ran
          exact printf_keeps exprs _ first
        · obtain rfl := Except.ok.inj ran
          exact ⟨[], err_kept z _⟩
      · obtain ⟨⟨vs, z₁⟩, first, ran⟩ := bind_ok ran
        obtain ⟨t, kept⟩ := args_keep exprs _ first
        obtain ⟨t', called⟩ := call_keeps stmts closed ran
        exact ⟨t ++ t', kept.trans called⟩

/-- The rounds of a while loop; what it leaves pending is noted behind it. -/
def WhilesKeep (p : Prog) (n : Nat) : Prop :=
  ∀ cond body z z', body.Closed true → evalWhile p n cond body z = .ok z' → ∃ t, Kept z z' t ∧
    (Fair t → z.hadReturn = false → z.hadBreak = false → Outcome z.scopes.length t z'.hadReturn)

/-- The rounds of a for loop. -/
def ForsKeep (p : Prog) (n : Nat) : Prop :=
  ∀ cond post body z z', body.Closed true → evalFor p n cond post body z = .ok z' → ∃ t, Kept z z' t ∧
    (Fair t → Calm z → Outcome z.scopes.length t z'.hadReturn ∧ z'.hadContinue = false)

theorem evalWhile_stays {cond : Expr} {body : Stmt} (left : z.hadReturn = true ∨ z.hadBreak = true)
    (ran : evalWhile p n cond body z = .ok z') : z' = z := by
  cases n with
  | zero => exact nomatch ran
  | succ n =>
      rw [evalWhile, if_pos (by simp; tauto)] at ran
      exact (Except.ok.inj ran).symm

theorem evalFor_stays {cond post : Option Expr} {body : Stmt} (left : z.hadReturn = true ∨ z.hadBreak = true)
    (ran : evalFor p n cond post body z = .ok z') : z' = z := by
  cases n with
  | zero => exact nomatch ran
  | succ n =>
      rw [evalFor, if_pos (by simp; tauto)] at ran
      exact (Except.ok.inj ran).symm

/-- A round begins with had_continue cleared. -/
theorem Kept.round (z : ZState) : Kept z { z with hadContinue := false } [] := Kept.same rfl rfl rfl rfl

include exprs stmts in
theorem whiles_step (whiles : WhilesKeep p n) : WhilesKeep p (n + 1) := by
  intro cond body z z' inside ran
  rw [evalWhile] at ran
  split at ran
  · obtain rfl := Except.ok.inj ran
    exact ⟨[], Kept.refl z, fun _ _ _ => .inl fun _ => rfl⟩
  obtain ⟨⟨v, z₁⟩, first, ran⟩ := bind_ok ran
  obtain ⟨t₁, tested⟩ := exprs cond z _ first
  dsimp only at ran
  split at ran
  · obtain rfl := Except.ok.inj ran
    exact ⟨t₁, tested.toKept, fun _ _ _ => .inl tested.open_⟩
  obtain ⟨z₂, second, ran⟩ := bind_ok ran
  obtain ⟨t₂, round⟩ := stmts true body _ _ inside second
  obtain ⟨t₃, others, ends⟩ := whiles cond body z₂ z' inside ran
  have kept : Kept z z₂ (t₁ ++ t₂) := tested.toKept.trans ((Kept.round z₁).trans round.toKept)
  refine ⟨t₁ ++ t₂ ++ t₃, kept.trans others, ?_⟩
  intro fair noReturn noBreak
  have same := tested.flags fair.left.left
  have begun : Calm { z₁ with hadContinue := false } := ⟨same.1.trans noReturn, same.2.1.trans noBreak, rfl⟩
  have outcome : Outcome z.scopes.length (t₁ ++ t₂) z₂.hadReturn := by
    apply Outcome.after tested.open_
    rw [← tested.length]
    exact round.ended fair.left.right begun
  by_cases left : z₂.hadReturn = true ∨ z₂.hadBreak = true
  · obtain rfl := evalWhile_stays left ran
    rw [others.nil, List.append_nil]
    exact outcome
  · simp only [not_or, Bool.not_eq_true] at left
    have rest := ends fair.right left.1 left.2
    rw [kept.length] at rest
    rcases outcome with open_ | ⟨v, set, -⟩
    · exact rest.after open_
    · rw [left.1] at set
      cases set

include exprs stmts in
theorem fors_step (fors : ForsKeep p n) : ForsKeep p (n + 1) := by
  intro cond post body z z' inside ran
  rw [evalFor] at ran
  split at ran
  · obtain rfl := Except.ok.inj ran
    exact ⟨[], Kept.refl z, fun _ calm => ⟨.inl fun _ => rfl, calm.cont⟩⟩
  obtain ⟨⟨v, z₁⟩, first, ran⟩ := bind_ok ran
  obtain ⟨t₁, tested⟩ := cond_keeps exprs first
  dsimp only at ran
  split at ran
  · obtain rfl := Except.ok.inj ran
    exact ⟨t₁, tested.toKept, fun fair calm => ⟨.inl tested.open_, (tested.flags fair).2.2.trans calm.cont⟩⟩
  obtain ⟨z₂, second, ran⟩ := bind_ok ran
  obtain ⟨t₂, round⟩ := stmts true body _ _ inside second
  obtain ⟨z₃, third, ran⟩ := bind_ok ran
  obtain ⟨t₃, after⟩ := optional_keeps exprs third
  obtain ⟨t₄, others, ends⟩ := fors cond post body z₃ z' inside ran
  have front : Kept z z₂ (t₁ ++ t₂) := tested.toKept.trans ((Kept.round z₁).trans round.toKept)
  have kept : Kept z z₃ (t₁ ++ t₂ ++ t₃) := front.trans ((Kept.round z₂).trans after.toKept)
  refine ⟨t₁ ++ t₂ ++ t₃ ++ t₄, kept.trans others, ?_⟩
  intro fair calm
  have begun : Calm { z₁ with hadContinue := false } := by
    have same := tested.flags fair.left.left.left
    exact ⟨same.1.trans calm.ret, same.2.1.trans calm.brk, rfl⟩
  have same := after.flags fair.left.right
  have outcome : Outcome z.scopes.length (t₁ ++ t₂ ++ t₃) z₃.hadReturn := by
    have open_ := after.open_
    have still := after.still fair.left.right
    rw [show ({ z₂ with hadContinue := false } : ZState).scopes.length = z.scopes.length from front.length] at open_ still
    rw [same.1]
    apply Outcome.quiet _ open_ still
    apply Outcome.after tested.open_
    rw [← tested.length]
    exact round.ended fair.left.left.right begun
  by_cases left : z₃.hadReturn = true ∨ z₃.hadBreak = true
  · obtain rfl := evalFor_stays left ran
    rw [others.nil, List.append_nil]
    exact ⟨outcome, same.2.2⟩
  · simp only [not_or, Bool.not_eq_true] at left
    obtain ⟨rest, cont⟩ := ends fair.right ⟨left.1, left.2, same.2.2⟩
    rw [kept.length] at rest
    refine ⟨?_, cont⟩
    rcases outcome with open_ | ⟨v, set, -⟩
    · exact rest.after open_
    · rw [left.1] at set
      cases set

include stmts in
theorem block_keeps {loop : Bool} {ss : List Stmt} : ∀ {z : ZState}, (∀ s ∈ ss, s.Closed loop) →
    evalBlock (evalStmt p n) ss z = .ok z' → ∃ t, StmtKept loop z z' t := by
  induction ss with
  | nil =>
      intro z _ ran
      obtain rfl := Except.ok.inj ran
      exact ⟨[], (ExprKept.refl z).stmt⟩
  | cons s ss ih =>
      intro z inside ran
      rw [evalBlock] at ran
      split at ran
      · obtain rfl := Except.ok.inj ran
        exact ⟨[], (ExprKept.refl z).stmt⟩
      obtain ⟨z₁, first, ran⟩ := bind_ok ran
      obtain ⟨t₁, kept⟩ := stmts loop s z z₁ (inside s List.mem_cons_self) first
      by_cases calm₁ : Calm z₁
      · obtain ⟨t₂, others⟩ := ih (fun s member => inside s (List.mem_cons_of_mem _ member)) ran
        refine ⟨t₁ ++ t₂, kept.toKept.trans others.toKept, ?_, fun fair _ => others.closed fair.right calm₁⟩
        intro fair calm
        have rest := others.ended fair.right calm₁
        rw [kept.length] at rest
        rcases kept.ended fair.left calm with open_ | ⟨v, set, -⟩
        · exact rest.after open_
        · rw [calm₁.ret] at set
          cases set
      · rw [evalBlock_pending calm₁] at ran
        obtain rfl := Except.ok.inj ran
        exact ⟨t₁, kept⟩

include exprs stmts in
theorem stmts_step (whiles : WhilesKeep p n) (fors : ForsKeep p n) : StmtsKeep p (n + 1) := by
  intro loop s z z' inside ran
  rw [evalStmt.eq_def] at ran
  dsimp only at ran
  split at ran
  · obtain rfl := Except.ok.inj ran
    exact ⟨[], (ExprKept.refl z).stmt⟩
  cases inside with
  | expr e =>
      obtain ⟨⟨v, z₁⟩, first, ran⟩ := bind_ok ran
      obtain rfl := Except.ok.inj ran
      obtain ⟨t, kept⟩ := exprs e z _ first
      exact ⟨t, kept.stmt⟩
  | ifThen c yes =>
      obtain ⟨⟨v, z₁⟩, first, ran⟩ := bind_ok ran
      obtain ⟨t, kept⟩ := exprs c z _ first
      dsimp only at ran
      split at ran
      · obtain ⟨t', then_⟩ := stmts loop _ z₁ z' yes ran
        exact ⟨t ++ t', kept.before then_⟩
      · obtain rfl := Except.ok.inj ran
        exact ⟨t, kept.stmt⟩
  | ifElse c yes no =>
      obtain ⟨⟨v, z₁⟩, first, ran⟩ := bind_ok ran
      obtain ⟨t, kept⟩ := exprs c z _ first
      dsimp only at ran
      split at ran
      · obtain ⟨t', then_⟩ := stmts loop _ z₁ z' yes ran
        exact ⟨t ++ t', kept.before then_⟩
      · obtain ⟨t', else_⟩ := stmts loop _ z₁ z' no ran
        exact ⟨t ++ t', kept.before else_⟩
  | «while» c body =>
      obtain ⟨z₁, rounds, ran⟩ := bind_ok ran
      obtain rfl := Except.ok.inj ran
      obtain ⟨t, kept, ends⟩ := whiles c _ z z₁ body rounds
      have noted : Kept z₁ { z₁.note (.ended z₁.hadContinue) with hadBreak := false } [.ended z₁.hadContinue] := by
        refine ⟨rfl, rfl, rfl, ?_, rfl⟩
        intro note member
        rw [List.mem_singleton.mp member]
        trivial
      refine ⟨t ++ [.ended z₁.hadContinue], kept.trans noted, ?_, ?_⟩
      · intro fair calm
        exact (ends fair.left calm.ret calm.brk).quiet (fun _ => rfl) fun _ _ => rfl
      · intro fair _ _
        refine ⟨rfl, ?_⟩
        change z₁.hadContinue = false
        rw [← Bool.not_eq_true]
        intro pending
        exact (fair.right _ List.mem_cons_self).2 (by rw [pending])
  | «for» init c post body =>
      obtain ⟨z₁, first, ran⟩ := bind_ok ran
      obtain ⟨z₂, rounds, ran⟩ := bind_ok ran
      obtain rfl := Except.ok.inj ran
      obtain ⟨t, begun⟩ := optional_keeps exprs first
      obtain ⟨t', kept, ends⟩ := fors c post _ z₁ z₂ body rounds
      have left : Kept z₂ { z₂ with hadBreak := false } [] := Kept.same rfl rfl rfl rfl
      have loops : StmtKept loop z₁ { z₂ with hadBreak := false } (t' ++ []) := by
        refine ⟨kept.trans left, ?_, ?_⟩
        · intro fair calm
          rw [List.append_nil]
          exact (ends fair.left calm).1
        · intro fair calm _
          exact ⟨rfl, (ends fair.left calm).2⟩
      exact ⟨t ++ (t' ++ []), begun.before loops⟩
  | block all => exact block_keeps stmts all ran
  | ret e =>
      cases e with
      | none =>
          obtain rfl := Except.ok.inj ran
          refine ⟨[], Kept.same rfl rfl rfl rfl, fun _ _ => .inl fun _ => rfl, ?_⟩
          exact fun _ calm _ => ⟨calm.brk, calm.cont⟩
      | some e =>
          obtain ⟨⟨v, z₁⟩, first, ran⟩ := bind_ok ran
          obtain rfl := Except.ok.inj ran
          obtain ⟨t, kept⟩ := exprs e z _ first
          have returned : StmtKept loop z₁
              { z₁.note (.returned z₁.scopes.length v) with returnValue := v, hadReturn := true }
              [.returned z₁.scopes.length v] := by
            refine ⟨⟨rfl, rfl, rfl, ?_, (if_pos rfl).symm⟩, ?_, ?_⟩
            · intro note member
              rw [List.mem_singleton.mp member]
              exact Nat.le_refl _
            · exact fun _ _ => .inr ⟨v, rfl, fun _ => if_pos rfl, fun _ => if_pos rfl⟩
            · exact fun _ calm _ => ⟨calm.brk, calm.cont⟩
          exact ⟨t ++ [.returned z₁.scopes.length v], kept.before returned⟩
  | brk =>
      obtain rfl := Except.ok.inj ran
      exact ⟨[], Kept.same rfl rfl rfl rfl, fun _ _ => .inl fun _ => rfl, fun _ _ => Bool.noConfusion⟩
  | cont =>
      obtain rfl := Except.ok.inj ran
      exact ⟨[], Kept.same rfl rfl rfl rfl, fun _ _ => .inl fun _ => rfl, fun _ _ => Bool.noConfusion⟩

end Steps

/-- What one unit of fuel keeps. -/
structure Keep (p : Prog) (n : Nat) : Prop where
  exprs : ExprsKeep p n
  stmts : StmtsKeep p n
  whiles : WhilesKeep p n
  fors : ForsKeep p n

theorem keep (closed : p.Closed) (n : Nat) : Keep p n := by
  induction n with
  | zero =>
      constructor
      · exact fun _ _ _ ran => nomatch ran
      · exact fun _ _ _ _ _ ran => nomatch ran
      · exact fun _ _ _ _ _ ran => nomatch ran
      · exact fun _ _ _ _ _ _ ran => nomatch ran
  | succ n ih =>
      constructor
      · exact exprs_step ih.exprs ih.stmts closed
      · exact stmts_step ih.exprs ih.stmts ih.whiles ih.fors
      · exact whiles_step ih.exprs ih.stmts ih.whiles
      · exact fors_step ih.exprs ih.stmts ih.fors

section Samples

def nameF : Name := [102]
def nameG : Name := [103]
def nameX : Name := [120]

/-- `int g(int x) { return x + 1; } int f(int x) { return g(x) + g(x); }` -/
def twice : Prog where
  funcs := [⟨nameG, [nameX], [.ret (some (.bin .plus (.var nameX) (.num 1)))], by decide⟩,
    ⟨nameF, [nameX], [.ret (some (.bin .plus (.call nameG [.var nameX]) (.call nameG [.var nameX])))], by decide⟩]
  strtab := []

end Samples

end Zenbite.Zbc
