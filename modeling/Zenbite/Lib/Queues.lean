import Zenbite.Lib.Runs

/-! Runs of a system around a queue that may lose what it is offered. The steps say
what is offered to the queue and what comes out of it. -/

namespace Zenbite.Queues

open Runs

variable {α β σ : Type}

/-- What the steps of a run put out, in order. -/
def outputs (step : α → σ → σ) (out : α → σ → List β) : List α → σ → List β
  | [], _ => []
  | a :: acts, s => out a s ++ outputs step out acts (step a s)

/-- A step hands on the oldest elements and takes what it is offered; where `ok` fails
it loses some of them. -/
structure Lawful (step : α → σ → σ) (offers hands : α → σ → List β) (pending : σ → List β)
    (inv : σ → Prop) (ok : α → σ → Prop) : Prop where
  keeps : ∀ a s, inv s → inv (step a s)
  right : ∀ a s, inv s → ok a s → hands a s ++ pending (step a s) = pending s ++ offers a s
  wrong : ∀ a s, inv s → ¬ ok a s → (hands a s).length + (pending (step a s)).length <
    (pending s).length + (offers a s).length

variable {step : α → σ → σ} {offers hands : α → σ → List β} {pending : σ → List β}
  {inv : σ → Prop} {ok : α → σ → Prop}

theorem Lawful.handed_le (lawful : Lawful step offers hands pending inv ok) (acts : List α) (s : σ)
    (start : inv s) : (outputs step hands acts s).length + (pending (run step acts s)).length ≤
      (pending s).length + (outputs step offers acts s).length := by
  induction acts generalizing s with
  | nil => exact Nat.le_of_eq (Nat.add_comm _ _)
  | cons a acts ih =>
      have rest := ih (step a s) (lawful.keeps a s start)
      have here : (hands a s).length + (pending (step a s)).length ≤
          (pending s).length + (offers a s).length := by
        by_cases fits : ok a s
        · have same := congrArg List.length (lawful.right a s start fits)
          rw [List.length_append, List.length_append] at same
          exact Nat.le_of_eq same
        · exact Nat.le_of_lt (lawful.wrong a s start fits)
      rw [outputs, outputs, List.length_append, List.length_append]
      change _ + (pending (run step acts (step a s))).length ≤ _
      omega

/-- What was offered comes out, all of it and in order, if no step loses anything. -/
theorem Lawful.in_order_iff (lawful : Lawful step offers hands pending inv ok) (acts : List α) (s : σ)
    (start : inv s) :
    outputs step hands acts s ++ pending (run step acts s) = pending s ++ outputs step offers acts s ↔
      Each step ok acts s := by
  induction acts generalizing s with
  | nil =>
      rw [outputs, outputs, List.nil_append, List.append_nil]
      exact iff_of_true rfl trivial
  | cons a acts ih =>
      have kept := lawful.keeps a s start
      rw [Each, outputs, outputs]
      change hands a s ++ outputs step hands acts (step a s) ++ pending (run step acts (step a s)) = _ ↔ _
      by_cases fits : ok a s
      · have moved : pending s ++ (offers a s ++ outputs step offers acts (step a s)) =
            hands a s ++ (pending (step a s) ++ outputs step offers acts (step a s)) := by
          rw [← List.append_assoc, ← lawful.right a s start fits, List.append_assoc]
        rw [moved, List.append_assoc, List.append_cancel_left_eq, ih (step a s) kept, and_iff_right fits]
      · have short := lawful.wrong a s start fits
        have rest := lawful.handed_le acts (step a s) kept
        apply iff_of_false
        · intro equal
          have count := congrArg List.length equal
          simp only [List.length_append] at count
          omega
        · exact fun both => fits both.1

end Zenbite.Queues
