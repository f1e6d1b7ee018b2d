import Zenbite.Zas.Agree
import Zenbite.Zas.Silent

/-! The calls of assemble_line in a pass (zas.c), as the states before and after each. -/

namespace Zenbite.Zas

open Memory

structure Call where
  before : Asm
  after : Asm

/-- The bytes that a line emits. -/
def Call.emitted (c : Call) : Nat := c.after.outPos - c.before.outPos

namespace Asm

/-- The calls in the while loop of run_pass. -/
def calls (k : Nat) (pass : Pass) : Nat → Asm → List Call
  | 0, _ => []
  | n + 1, st =>
    if cur st.lexP = 0 then []
    else
      match st.assembleLine pass k with
      | none => []
      | some (more, st') => ⟨st, st'⟩ :: if more then calls k pass n st' else []

/-- The label that the next line defines. -/
def labelAt (k : Nat) (st : Asm) : Option Text :=
  (skipNewlines k st).bind fun start =>
    if start.peek.type ≠ .eof ∧ isDirective start.peek.text = false ∧ start.lex.peek.type = .colon then
      some start.peek.text
    else none

/-- The labels that some calls define, in their order. -/
def definedBy (k : Nat) (cs : List Call) : List Text := cs.filterMap fun c => c.before.labelAt k

variable {st st' : Asm} {k : Nat}

theorem calls_cons {pass : Pass} {n : Nat} {more : Bool} (goes : cur st.lexP ≠ 0)
    (line : st.assembleLine pass k = some (more, st')) :
    calls k pass (n + 1) st = ⟨st, st'⟩ :: if more then calls k pass n st' else [] := by
  rw [calls, if_neg goes, line]

/-- Induction over the lines of a pass that ends. -/
theorem lines_induction {pass : Pass} {last : Asm} {p : Asm → List Call → Prop} (ends : p last [])
    (line : ∀ {st mid : Asm} {more : Bool} {rest : List Call}, cur st.lexP ≠ 0 →
      st.assembleLine pass k = some (more, mid) → p mid rest → p st (⟨st, mid⟩ :: rest)) (n : Nat) :
    ∀ {st : Asm}, lines k pass n st = some last → p st (calls k pass n st) := by
  induction n with
  | zero =>
      intro st ran
      cases ran
  | succ n ih =>
      intro st ran
      rw [lines] at ran
      split at ran
      next done =>
        rw [calls, if_pos done, Option.some.inj ran]
        exact ends
      next goes =>
      obtain ⟨⟨more, mid⟩, first, ran⟩ := Option.bind_eq_some_iff.mp ran
      rw [calls_cons goes first]
      cases more with
      | false =>
          obtain rfl := Option.some.inj ran
          exact line goes first ends
      | true => exact line goes first (ih ran)

/-! The passes make the same calls. -/

theorem calls_alike {last : Asm} (n : Nat) : ∀ {st st' : Asm}, lines k .one n st = some last → Alike st st' →
    (∀ c ∈ calls k .one n st, LiteralCount k c.before) →
    List.Forall₂ (fun c c' => Alike c.before c'.before ∧ Alike c.after c'.after) (calls k .one n st) (calls k .two n st') := by
  induction n with
  | zero => exact fun _ _ _ => .nil
  | succ n ih =>
      intro st st' ran alike literal
      rw [lines] at ran
      split at ran
      next done =>
        rw [calls, calls, alike.lexP, if_pos done, if_pos done]
        exact .nil
      next goes =>
      obtain ⟨⟨more, mid⟩, line, ran⟩ := Option.bind_eq_some_iff.mp ran
      rw [calls_cons goes line] at literal ⊢
      obtain ⟨first, rest⟩ := List.forall_mem_cons.mp literal
      have related := assembleLine_alike alike first
      rw [line] at related
      cases line' : st'.assembleLine .two k with
      | none =>
          rw [line'] at related
          cases related
      | some r =>
          rw [line', Option.rel_some_some] at related
          obtain ⟨more', mid'⟩ := r
          obtain ⟨same, behind⟩ := related
          obtain rfl : more = more' := Eq.symm same
          have goes' : cur st'.lexP ≠ 0 := by
            rw [alike.lexP]
            exact goes
          rw [calls_cons goes' line']
          cases more with
          | false => exact .cons ⟨alike, behind⟩ .nil
          | true => exact .cons ⟨alike, behind⟩ (ih ran behind rest)

theorem calls_run {pass : Pass} {last : Asm} (n : Nat) (ran : lines k pass n st = some last) :
    ∀ c ∈ calls k pass n st, ∃ more, c.before.assembleLine pass k = some (more, c.after) := by
  refine lines_induction (p := fun _ cs => ∀ c ∈ cs, ∃ more, c.before.assembleLine pass k = some (more, c.after))
    (fun _ absent => absurd absent List.not_mem_nil) ?_ n ran
  intro st mid more rest _ line all
  exact List.forall_mem_cons.mpr ⟨⟨more, line⟩, all⟩

/-! What a label line does, and what no other line does. -/

/-- A line defines a label, or it is one for bodyLine, or there is none. -/
theorem assembleLine_cases {pass : Pass} {more : Bool} (ran : st.assembleLine pass k = some (more, st')) :
    ∃ start, skipNewlines k st = some start ∧
      ((st.labelAt k = none ∧ st' = start) ∨
        (st.labelAt k = some start.peek.text ∧ st' = start.lex.labelLine pass start.peek.text) ∨
        (st.labelAt k = none ∧ ∃ body, start.lex.bodyLine pass k start.peek = some body ∧ skipLine k body = some st')) := by
  obtain ⟨start, skipped, ran⟩ := Option.bind_eq_some_iff.mp ran
  refine ⟨start, skipped, ?_⟩
  rw [labelAt, skipped, Option.bind_some]
  dsimp only at ran
  split at ran
  next eof =>
    obtain ⟨-, rfl⟩ := Prod.mk.inj (Option.some.inj ran)
    exact .inl ⟨if_neg fun all => all.1 eof, rfl⟩
  next present =>
  split at ran
  next labelled =>
    obtain ⟨-, rfl⟩ := Prod.mk.inj (Option.some.inj ran)
    exact .inr (.inl ⟨if_pos ⟨present, labelled⟩, rfl⟩)
  next other =>
    obtain ⟨body, done, ran⟩ := Option.bind_eq_some_iff.mp ran
    obtain ⟨last, skips, ran⟩ := Option.bind_eq_some_iff.mp ran
    obtain ⟨-, rfl⟩ := Prod.mk.inj (Option.some.inj ran)
    exact .inr (.inr ⟨if_neg fun all => other all.2, body, done, skips⟩)

theorem sectionLine_labels (pass : Pass) : (st.sectionLine pass).labels = st.labels := by
  rw [sectionLine_ops, sectionOps, runOps_cons, Op.run]
  cases sectionOf st.peek.text with
  | none => rfl
  | some target =>
      rw [runOps_cons, runOps_nil, Op.run, enter_frame]
      rfl

theorem unlabelled_labels {pass : Pass} {more : Bool} (ran : st.assembleLine pass k = some (more, st'))
    (unlabelled : st.labelAt k = none) : st'.labels = st.labels := by
  obtain ⟨start, skipped, cases⟩ := assembleLine_cases ran
  have first : start.labels = st.labels := (skipNewlines_emits k skipped).labels
  rcases cases with ⟨-, rfl⟩ | ⟨labelled, -⟩ | ⟨-, body, done, skips⟩
  · exact first
  · rw [unlabelled] at labelled
    cases labelled
  · rw [(skipLine_emits k skips).labels]
    rcases bodyLine_emits done with emits | section'
    · exact emits.labels.trans first
    · rw [section', sectionLine_labels]
      exact first

/-- The second pass only emits. -/
theorem assembleLine_emits {more : Bool} (ran : st.assembleLine .two k = some (more, st')) : Emits st st' := by
  obtain ⟨start, skipped, cases⟩ := assembleLine_cases ran
  have first := skipNewlines_emits k skipped
  rcases cases with ⟨-, rfl⟩ | ⟨-, rfl⟩ | ⟨-, body, done, skips⟩
  · exact first
  · rw [labelLine, if_neg fun one => Pass.noConfusion one]
    exact first.lex.lex
  · refine Emits.trans ?_ (skipLine_emits k skips)
    rcases bodyLine_emits done with emits | section'
    · exact first.lex.trans emits
    · rw [section', sectionLine_ops, sectionOps, runOps_cons, Op.run]
      cases sectionOf start.lex.peek.text with
      | none => exact first.lex.lex
      | some target =>
          rw [runOps_cons, runOps_nil, Op.run, enter_two]
          exact first.lex.lex.other rfl rfl rfl rfl rfl ⟨rfl, rfl, rfl⟩

/-- What the second pass emits before a call and after it. -/
theorem calls_emit {last : Asm} (n : Nat) (ran : lines k .two n st = some last) :
    Emits st last ∧ ∀ c ∈ calls k .two n st, Emits st c.before ∧ Emits c.after last := by
  refine lines_induction (p := fun st cs => Emits st last ∧ ∀ c ∈ cs, Emits st c.before ∧ Emits c.after last)
    ⟨Emits.refl last, fun _ absent => absurd absent List.not_mem_nil⟩ ?_ n ran
  intro st mid more rest _ line ih
  obtain ⟨whole, each⟩ := ih
  have first := assembleLine_emits line
  refine ⟨first.trans whole, List.forall_mem_cons.mpr ⟨⟨Emits.refl st, whole⟩, fun c member => ?_⟩⟩
  obtain ⟨before, after⟩ := each c member
  exact ⟨first.trans before, after⟩

end Asm

end Zenbite.Zas
