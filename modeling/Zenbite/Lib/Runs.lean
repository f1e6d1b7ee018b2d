import Mathlib.Data.List.Basic

/-! Runs of a deterministic system whose steps meet a condition: what every such
step preserves, every such run preserves. -/

namespace Zenbite.Runs

variable {α σ : Type}

def run (step : α → σ → σ) (acts : List α) (s : σ) : σ := acts.foldl (fun s a => step a s) s

/-- Every step of the run meets its condition in the state it starts from. -/
def Each (step : α → σ → σ) (ok : α → σ → Prop) : List α → σ → Prop
  | [], _ => True
  | a :: acts, s => ok a s ∧ Each step ok acts (step a s)

instance Each.decidable (step : α → σ → σ) (ok : α → σ → Prop) [∀ a s, Decidable (ok a s)] :
    ∀ acts s, Decidable (Each step ok acts s)
  | [], _ => inferInstanceAs (Decidable True)
  | a :: acts, s =>
    have := Each.decidable step ok acts (step a s)
    inferInstanceAs (Decidable (ok a s ∧ Each step ok acts (step a s)))

variable {step : α → σ → σ} {ok : α → σ → Prop}

theorem Each.run {inv : σ → Prop} (keeps : ∀ a s, inv s → ok a s → inv (step a s)) :
    ∀ {acts : List α} {s : σ}, Each step ok acts s → inv s → inv (run step acts s) := by
  intro acts
  induction acts with
  | nil => exact fun _ start => start
  | cons a acts ih => exact fun each start => ih each.2 (keeps a _ start each.1)

theorem Each.append {first second : List α} {s : σ} : Each step ok (first ++ second) s ↔
    Each step ok first s ∧ Each step ok second (Runs.run step first s) := by
  induction first generalizing s with
  | nil =>
      rw [Each, true_and]
      rfl
  | cons a acts ih =>
      rw [List.cons_append, Each, Each, ih, and_assoc]
      rfl

theorem Each.of_forall {acts : List α} (all : ∀ a ∈ acts, ∀ s, ok a s) (s : σ) : Each step ok acts s := by
  induction acts generalizing s with
  | nil => trivial
  | cons a acts ih =>
      exact ⟨all a List.mem_cons_self s, ih (fun b member => all b (List.mem_cons_of_mem a member)) _⟩

/-- Two conditions that agree in the states that the second one leads to agree
over whole runs. -/
theorem Each.iff (inv : σ → Prop) {guard other : α → σ → Prop}
    (same : ∀ a s, inv s → guard a s → (ok a s ↔ other a s))
    (keeps : ∀ a s, inv s → guard a s → other a s → inv (step a s)) :
    ∀ {acts : List α} {s : σ}, Each step guard acts s → inv s →
      (Each step ok acts s ↔ Each step other acts s) := by
  intro acts
  induction acts with
  | nil => exact fun _ _ => Iff.rfl
  | cons a acts ih =>
      intro s guarded start
      constructor
      · intro each
        have first := (same a s start guarded.1).mp each.1
        exact ⟨first, (ih guarded.2 (keeps a s start guarded.1 first)).mp each.2⟩
      · intro each
        exact ⟨(same a s start guarded.1).mpr each.1,
          (ih guarded.2 (keeps a s start guarded.1 each.1)).mpr each.2⟩

/-- What every step keeps, every run keeps. -/
theorem run_keeps {inv : σ → Prop} (keeps : ∀ a s, inv s → inv (step a s)) (acts : List α) {s : σ}
    (start : inv s) : inv (run step acts s) := by
  induction acts generalizing s with
  | nil => exact start
  | cons a acts ih => exact ih (keeps a s start)

/-- Two step functions agree after every part of a run if they agree in each step. -/
theorem agree_iff {f g : α → σ → σ} : ∀ {acts : List α} {s : σ},
    (∀ part, part <+: acts → run f part s = run g part s) ↔ Each g (fun a s => f a s = g a s) acts s := by
  intro acts
  induction acts with
  | nil =>
      intro s
      refine iff_of_true (fun part front => ?_) trivial
      rw [List.prefix_nil.mp front]
      rfl
  | cons a acts ih =>
      intro s
      rw [Each, ← ih]
      constructor
      · intro all
        have first : f a s = g a s := all [a] (List.prefix_append [a] acts)
        refine ⟨first, fun part front => ?_⟩
        have more : run f part (f a s) = run g part (g a s) := all (a :: part) (List.prefix_cons_inj a |>.mpr front)
        rwa [first] at more
      · rintro ⟨first, rest⟩ part front
        cases part with
        | nil => rfl
        | cons b part =>
            obtain ⟨rfl, tail⟩ := List.cons_prefix_cons.mp front
            change run f part (f b s) = run g part (g b s)
            rw [first]
            exact rest part tail

/-! The same where a step may have no defined result. -/

section Partial
variable (step : α → σ → Option σ)

def runSome : List α → σ → Option σ
  | [], s => some s
  | a :: acts, s => (step a s).bind (runSome acts)

def EachSome (ok : α → σ → Prop) : List α → σ → Prop
  | [], _ => True
  | a :: acts, s => ok a s ∧ ∀ t, step a s = some t → EachSome ok acts t

variable {step} {ok : α → σ → Prop}

theorem runSome_append (first second : List α) (s : σ) :
    runSome step (first ++ second) s = (runSome step first s).bind (runSome step second) := by
  induction first generalizing s with
  | nil => rfl
  | cons a acts ih =>
      rw [List.cons_append, runSome, runSome, Option.bind_assoc]
      exact congrArg _ (funext ih)

theorem EachSome.run {inv : σ → Prop}
    (keeps : ∀ a s, inv s → ok a s → ∃ t, step a s = some t ∧ inv t) :
    ∀ {acts : List α} {s : σ}, EachSome step ok acts s → inv s →
      ∃ t, runSome step acts s = some t ∧ inv t := by
  intro acts
  induction acts with
  | nil => exact fun _ start => ⟨_, rfl, start⟩
  | cons a acts ih =>
      intro s each start
      obtain ⟨t, stepped, kept⟩ := keeps a s start each.1
      obtain ⟨u, ran, last⟩ := ih (each.2 t stepped) kept
      exact ⟨u, by rw [runSome, stepped]; exact ran, last⟩

/-- Two conditions that agree in the states reached agree over whole runs. -/
theorem EachSome.iff (inv : σ → Prop) {other : α → σ → Prop} (same : ∀ a s, inv s → (ok a s ↔ other a s))
    (keeps : ∀ a s t, inv s → other a s → step a s = some t → inv t) :
    ∀ {acts : List α} {s : σ}, inv s → (EachSome step ok acts s ↔ EachSome step other acts s) := by
  intro acts
  induction acts with
  | nil => exact fun _ => Iff.rfl
  | cons a acts ih =>
      intro s start
      rw [EachSome, EachSome, same a s start]
      exact and_congr_right fun here => forall_congr' fun t => imp_congr_right fun stepped =>
        ih (keeps a s t start here stepped)

/-- A run ends if each of its steps has a result, when the condition says which ones have. -/
theorem EachSome.runs_iff (inv : σ → Prop) (same : ∀ a s, inv s → ((∃ t, step a s = some t) ↔ ok a s))
    (keeps : ∀ a s t, inv s → step a s = some t → inv t) :
    ∀ {acts : List α} {s : σ}, inv s → ((∃ t, runSome step acts s = some t) ↔ EachSome step ok acts s) := by
  intro acts
  induction acts with
  | nil => exact fun {s} _ => iff_of_true ⟨s, rfl⟩ trivial
  | cons a acts ih =>
      intro s start
      rw [EachSome, ← same a s start, runSome]
      cases stepped : step a s with
      | none => exact iff_of_false (fun ⟨_, ran⟩ => by cases ran) (fun both => by cases both.1.choose_spec)
      | some t =>
          rw [Option.bind_some, ih (keeps a s t start stepped)]
          constructor
          · intro rest
            refine ⟨⟨t, rfl⟩, fun u equal => ?_⟩
            cases equal
            exact rest
          · exact fun both => both.2 t rfl

end Partial

end Zenbite.Runs
