import Zenbite.Zbc.Trace

/-! Which arithmetic traps: the guards of the three division sites look at the divisor
alone. -/

namespace Zenbite.Zbc

/-- What an arithmetic step gives. -/
def Event.result : Event → Option (Except Stop Word)
  | .bin op a b => some (op.apply a b)
  | .assign op old rv => some (op.apply old rv)
  | .un op a => some (.ok (op.apply a))
  | .format _ _ => none
  | .read _ _ => none

/-- The quotient is 2^31. -/
def Event.Overflows : Event → Prop
  | .bin op a b => (op = .slash ∨ op = .pct) ∧ a = intMin ∧ b = -1
  | .assign op old rv => op = .slash ∧ old = intMin ∧ rv = -1
  | .un _ _ => False
  | .format _ _ => False
  | .read _ _ => False

instance : DecidablePred Event.Overflows
  | .bin _ _ _ => inferInstanceAs (Decidable (_ ∧ _ ∧ _))
  | .assign _ _ _ => inferInstanceAs (Decidable (_ ∧ _ ∧ _))
  | .un _ _ => inferInstanceAs (Decidable False)
  | .format _ _ => inferInstanceAs (Decidable False)
  | .read _ _ => inferInstanceAs (Decidable False)

/-- A division site that guards against 0 alone. -/
theorem guarded_eq {a b : Word} {f : Word → Word → Word} {r : Except Stop Word}
    (is : r = if b = 0 then .ok 0 else if a = intMin ∧ b = -1 then .error .trap else .ok (f a b)) :
    (∃ v, r = .ok v) ∧ ¬(a = intMin ∧ b = -1) ∨ r = .error .trap ∧ a = intMin ∧ b = -1 := by
  subst is
  by_cases zero : b = 0
  · rw [if_pos zero]
    refine Or.inl ⟨⟨0, rfl⟩, fun bad => ?_⟩
    rw [bad.2] at zero
    exact absurd zero (by decide)
  · rw [if_neg zero]
    by_cases bad : a = intMin ∧ b = -1
    · rw [if_pos bad]
      exact Or.inr ⟨rfl, bad⟩
    · rw [if_neg bad]
      exact Or.inl ⟨⟨f a b, rfl⟩, bad⟩

theorem divide_cases (a b : Word) : (∃ v, divide a b = .ok v) ∧ ¬(a = intMin ∧ b = -1) ∨
    divide a b = .error .trap ∧ a = intMin ∧ b = -1 := guarded_eq (f := BitVec.sdiv) rfl

theorem remainder_cases (a b : Word) : (∃ v, remainder a b = .ok v) ∧ ¬(a = intMin ∧ b = -1) ∨
    remainder a b = .error .trap ∧ a = intMin ∧ b = -1 := guarded_eq (f := BitVec.srem) rfl

/-- A step gives a word, or it traps and overflows. -/
theorem Event.result_cases {e : Event} {r : Except Stop Word} (is : e.result = some r) :
    (∃ v, r = .ok v) ∧ ¬e.Overflows ∨ r = .error .trap ∧ e.Overflows := by
  cases e with
  | bin op a b =>
      cases Option.some.inj is
      by_cases slash : op = .slash
      · subst slash
        rcases divide_cases a b with ⟨fine, quiet⟩ | ⟨bad, operands⟩
        · exact Or.inl ⟨fine, fun high => quiet high.2⟩
        · exact Or.inr ⟨bad, Or.inl rfl, operands⟩
      by_cases pct : op = .pct
      · subst pct
        rcases remainder_cases a b with ⟨fine, quiet⟩ | ⟨bad, operands⟩
        · exact Or.inl ⟨fine, fun high => quiet high.2⟩
        · exact Or.inr ⟨bad, Or.inr rfl, operands⟩
      refine Or.inl ⟨?_, fun high => high.1.elim slash pct⟩
      cases op <;> first | exact ⟨_, rfl⟩ | exact absurd rfl slash | exact absurd rfl pct
  | assign op old rv =>
      cases Option.some.inj is
      by_cases slash : op = .slash
      · subst slash
        rcases divide_cases old rv with ⟨fine, quiet⟩ | ⟨bad, operands⟩
        · exact Or.inl ⟨fine, fun high => quiet high.2⟩
        · exact Or.inr ⟨bad, rfl, operands⟩
      refine Or.inl ⟨?_, fun high => slash high.1⟩
      cases op <;> first | exact ⟨_, rfl⟩ | exact absurd rfl slash
  | un op a =>
      cases Option.some.inj is
      exact Or.inl ⟨⟨_, rfl⟩, id⟩
  | format off through => cases is
  | read start pos => cases is

theorem ok_ne {α : Type} (a : α) (s : Stop) : (.ok a : Except Stop α) ≠ .error s := fun same => by cases same

/-- The run traps exactly where one of its steps overflows. -/
def TrapsBy {α : Type} (r : Except Stop α) (t : List Event) : Prop :=
  r = .error .trap ↔ ∃ e ∈ t, e.Overflows

theorem trapsBy_quiet {α : Type} {r : Except Stop α} {t : List Event} (fine : r ≠ .error .trap)
    (quiet : ∀ e ∈ t, ¬e.Overflows) : TrapsBy r t :=
  iff_of_false fine fun high => by
    obtain ⟨e, member, high⟩ := high
    exact quiet e member high

theorem trapsBy_step {e : Event} {r : Except Stop Word} (is : e.result = some r) : TrapsBy r [e] := by
  rcases Event.result_cases is with ⟨⟨v, rfl⟩, quiet⟩ | ⟨rfl, high⟩
  · exact trapsBy_quiet (ok_ne _ _) fun e' member => List.mem_singleton.mp member ▸ quiet
  · exact iff_of_true rfl ⟨e, List.mem_singleton_self e, high⟩

theorem trapsBy_bind {α β : Type} {x : Except Stop α} {f : α → Except Stop β} {t : List Event}
    {g : α → List Event} (first : TrapsBy x t) (rest : ∀ a, x = .ok a → TrapsBy (f a) (g a)) :
    TrapsBy (x >>= f) (t ++ after x g) := by
  cases x with
  | error s =>
      have same : ((.error s : Except Stop α) >>= f) = .error s := rfl
      have before : (.error s : Except Stop α) = .error .trap ↔ ∃ e ∈ t, e.Overflows := first
      rw [TrapsBy, same, after, List.append_nil, ← before]
      simp only [Except.error.injEq]
  | ok a =>
      have same : ((.ok a : Except Stop α) >>= f) = f a := rfl
      have quiet : ¬∃ e ∈ t, e.Overflows := fun high => by cases first.mpr high
      have behind : f a = .error .trap ↔ ∃ e ∈ g a, e.Overflows := rest a rfl
      rw [TrapsBy, same, after, behind]
      constructor
      · rintro ⟨e, member, high⟩
        exact ⟨e, List.mem_append_right _ member, high⟩
      · rintro ⟨e, member, high⟩
        rcases List.mem_append.mp member with early | late
        · exact absurd ⟨e, early, high⟩ quiet
        · exact ⟨e, late, high⟩

/-- Events in front that are no arithmetic. -/
theorem TrapsBy.cons {α : Type} {r : Except Stop α} {t : List Event} (rest : TrapsBy r t) {e : Event}
    (quiet : ¬e.Overflows) : TrapsBy r (e :: t) := by
  have behind : r = .error .trap ↔ ∃ e ∈ t, e.Overflows := rest
  rw [TrapsBy, behind]
  simp only [List.exists_mem_cons_iff, quiet, false_or]

theorem textReads_quiet (p : Prog) (off : Nat) : ∀ e ∈ textReads p off, ¬e.Overflows := by
  intro e member
  obtain ⟨i, -, rfl⟩ := List.mem_map.mp member
  exact id

theorem TrapsBy.text {α : Type} {r : Except Stop α} {t : List Event} (rest : TrapsBy r t) (p : Prog)
    (off : Nat) : TrapsBy r (textReads p off ++ t) := by
  have behind : r = .error .trap ↔ ∃ e ∈ t, e.Overflows := rest
  rw [TrapsBy, behind]
  constructor
  · rintro ⟨e, member, high⟩
    exact ⟨e, List.mem_append_right _ member, high⟩
  · rintro ⟨e, member, high⟩
    rcases List.mem_append.mp member with early | late
    · exact absurd high (textReads_quiet p off e early)
    · exact ⟨e, late, high⟩

section Format
variable {p : Prog} {ev : Expr → ZState → Except Stop (Word × ZState)} {trace : Expr → ZState → List Event}
  (exprs : ∀ e z, TrapsBy (ev e z) (trace e z))
include exprs

theorem evalFirst_traps (args : List Expr) (z : ZState) :
    TrapsBy (evalFirst ev args z) (traceOptional trace args.head? z) := by
  cases args with
  | nil => exact trapsBy_quiet (ok_ne _ _) fun _ none => absurd none List.not_mem_nil
  | cons e rest => exact exprs e z

theorem printfFrom_traps (start : Nat) (l : List UInt8) : ∀ pos args z,
    TrapsBy (printfFrom p ev l args z) (traceFormat p ev trace start pos l args z) := by
  have quiet : ∀ {pos : Nat}, ¬(Event.read start pos).Overflows := id
  have done : ∀ {z : ZState}, TrapsBy (.ok z : Except Stop ZState) [] :=
    trapsBy_quiet (ok_ne _ _) fun _ none => absurd none List.not_mem_nil
  induction length : l.length using Nat.strongRecOn generalizing l with
  | _ k ih =>
      intro pos args z
      cases l with
      | nil =>
          rw [printfFrom, traceFormat]
          exact done.cons quiet
      | cons c s =>
          rw [printfFrom.eq_def, traceFormat.eq_def]
          dsimp only
          refine TrapsBy.cons ?_ quiet
          apply Tracks.ite fun _ => done
          intro _
          apply Tracks.ite
          · exact fun _ => ih s.length (by rw [← length]; simp) s rfl _ _ _
          intro _
          refine TrapsBy.cons ?_ quiet
          cases s with
          | nil =>
              have first := evalFirst_traps exprs args z
              cases args with
              | nil => exact trapsBy_bind first fun r _ => done.cons quiet
              | cons e rest => exact trapsBy_bind first fun r _ => done.cons quiet
          | cons d s =>
              have again : ∀ pos args z, TrapsBy (printfFrom p ev s args z) (traceFormat p ev trace start pos s args z) :=
                ih s.length (by rw [← length, List.length_cons, List.length_cons]; omega) s rfl
              dsimp only
              apply Tracks.ite fun _ => again _ _ _
              intro _
              apply Tracks.ite
              · intro _
                cases args with
                | nil => exact again _ _ _
                | cons e rest =>
                    cases e with
                    | str off => exact (again _ _ _).text p off
                    | _ => exact again _ _ _
              · intro _
                have first := evalFirst_traps exprs args z
                cases args with
                | nil => exact trapsBy_bind first fun r _ => again _ _ _
                | cons e rest => exact trapsBy_bind first fun r _ => again _ _ _

end Format

theorem trapsBy_tracks (p : Prog) : Tracks p @TrapsBy where
  ok _ := trapsBy_quiet (ok_ne _ _) fun _ none => absurd none List.not_mem_nil
  fuel := trapsBy_quiet (fun same => by cases same) fun _ none => absurd none List.not_mem_nil
  waiting := trapsBy_quiet (fun same => by cases same) fun _ none => absurd none List.not_mem_nil
  bind := trapsBy_bind
  bin _ _ _ := trapsBy_step rfl
  assign _ _ _ := trapsBy_step rfl
  un op a _ := trapsBy_quiet (ok_ne _ _) fun e member => List.mem_singleton.mp member ▸ id
  puts off _ := trapsBy_quiet (ok_ne _ _) (textReads_quiet p off)
  printf exprs off args z := (printfFrom_traps exprs off _ off args z).cons id

/-- Every arithmetic step of a run gives a word, and the processor does not trap,
exactly if none of the divisions has the operands -2^31 and -1. -/
theorem arithmetic_safe_iff (p : Prog) (fuel : Nat) (keys : List Word) :
    ((∀ e ∈ traceMain p fuel keys, ∀ r, e.result = some r → ∃ v, r = .ok v) ∧
        runMain p fuel keys ≠ .error .trap) ↔
      ∀ e ∈ traceMain p fuel keys, ¬e.Overflows := by
  have whole : runMain p fuel keys = .error .trap ↔ ∃ e ∈ traceMain p fuel keys, e.Overflows :=
    (trapsBy_tracks p).main fuel keys
  constructor
  · rintro ⟨-, runs⟩ e member high
    exact runs (whole.mpr ⟨e, member, high⟩)
  · intro quiet
    constructor
    · intro e member r is
      rcases Event.result_cases is with ⟨fine, -⟩ | ⟨-, high⟩
      · exact fine
      · exact absurd high (quiet e member)
    · intro traps
      obtain ⟨e, member, high⟩ := whole.mp traps
      exact quiet e member high

/-- int main() { return (-2147483647 - 1) / -1; } -/
def lowest : Prog where
  funcs := [⟨Name.main, [], [.ret (some (.bin .slash
    (.bin .minus (.un .minus (.num 2147483647)) (.num 1)) (.un .minus (.num 1))))], noParams_few⟩]
  strtab := []

theorem lowest_traps : runMain lowest 10 [] = .error .trap ∧
    Event.bin .slash intMin (-1) ∈ traceMain lowest 10 [] ∧
      (Event.bin .slash intMin (-1)).result = some (.error .trap) := by
  decide +kernel

end Zenbite.Zbc
