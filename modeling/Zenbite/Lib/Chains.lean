import Mathlib.Data.List.Nodup
import Mathlib.Logic.Function.Basic

/-! Singly linked chains in a table of successors: the elements from a first one
on, and what linking a fresh element behind the last one does to them. -/

namespace Zenbite.Chains

variable {α : Type} {next other : α → Option α}

/-- The elements from `a` on, to one without a successor. -/
inductive Chain (next : α → Option α) : α → List α → Prop
  | last {a : α} (stop : next a = none) : Chain next a [a]
  | link {a b : α} {l : List α} (step : next a = some b) (rest : Chain next b l) : Chain next a (a :: l)

/-- `n` steps from `a`; behind the end, the elements of `spare` in order. -/
def reach (next : α → Option α) (spare : List α) : Nat → α → Option α
  | 0, a => some a
  | n + 1, a =>
    match next a with
    | some b => reach next spare n b
    | none => spare[n]?

/-- `b` behind `c`, and nothing behind `b`. -/
def append [DecidableEq α] (next : α → Option α) (c b : α) : α → Option α :=
  Function.update (Function.update next c (some b)) b none

theorem Chain.head {a : α} {l : List α} (chain : Chain next a l) : l.head? = some a := by
  cases chain <;> rfl

theorem Chain.mem {a : α} {l : List α} (chain : Chain next a l) : a ∈ l := by
  cases chain <;> exact List.mem_cons_self

/-- What follows the first element. -/
theorem Chain.tail {a x : α} {l : List α} (chain : Chain next a (x :: l)) :
    a = x ∧ (l = [] ∧ next a = none ∨ ∃ b, next a = some b ∧ Chain next b l) := by
  cases chain with
  | last stop => exact ⟨rfl, .inl ⟨rfl, stop⟩⟩
  | link step rest => exact ⟨rfl, .inr ⟨_, step, rest⟩⟩

theorem Chain.unique {a : α} {l m : List α} (first : Chain next a l) (second : Chain next a m) :
    l = m := by
  induction first generalizing m with
  | last stop =>
      cases second with
      | last => rfl
      | link step => rw [stop] at step; cases step
  | link step _ ih =>
      cases second with
      | last stop => rw [stop] at step; cases step
      | link step' rest =>
          obtain rfl := Option.some.inj (step.symm.trans step')
          rw [ih rest]

/-- Every element starts the chain of what follows it. -/
theorem Chain.behind {a x : α} {l : List α} (chain : Chain next a l) (member : x ∈ l) :
    ∃ m, Chain next x m ∧ m <:+ l := by
  induction chain with
  | @last a stop =>
      obtain rfl := List.mem_singleton.mp member
      exact ⟨[x], .last stop, List.suffix_rfl⟩
  | @link a b l step rest ih =>
      rcases List.mem_cons.mp member with rfl | member
      · exact ⟨x :: l, .link step rest, List.suffix_rfl⟩
      · obtain ⟨m, chain, suffix⟩ := ih member
        exact ⟨m, chain, suffix.trans (List.suffix_cons a l)⟩

/-- A finite chain runs through no element twice. -/
theorem Chain.nodup {a : α} {l : List α} (chain : Chain next a l) : l.Nodup := by
  induction chain with
  | last stop => exact List.nodup_singleton _
  | @link a b l step rest ih =>
      apply List.nodup_cons.mpr
      refine ⟨fun member => ?_, ih⟩
      obtain ⟨m, again, suffix⟩ := rest.behind member
      have longer := congrArg List.length (again.unique (.link step rest))
      have shorter := suffix.length_le
      rw [List.length_cons] at longer
      omega

theorem Chain.congr {a : α} {l : List α} (chain : Chain next a l)
    (agree : ∀ x ∈ l, other x = next x) : Chain other a l := by
  induction chain with
  | last stop => exact .last ((agree _ List.mem_cons_self).trans stop)
  | link step _ ih =>
      apply Chain.link ((agree _ List.mem_cons_self).trans step)
      exact ih fun x member => agree x (List.mem_cons_of_mem _ member)

/-- The `n`-th element is `n` steps from the first. -/
theorem Chain.reach {a : α} {l spare : List α} (chain : Chain next a l) :
    ∀ n, Chains.reach next spare n a = (l ++ spare)[n]? := by
  induction chain with
  | last stop =>
      intro n
      cases n with
      | zero => rfl
      | succ n =>
          rw [Chains.reach, stop]
          rfl
  | link step _ ih =>
      intro n
      cases n with
      | zero => rfl
      | succ n =>
          rw [Chains.reach, step]
          exact ih n

theorem reach_add {a c : α} {spare : List α} {j : Nat} (walked : reach next [] j a = some c) (n : Nat) :
    reach next spare (j + n) a = reach next spare n c := by
  induction j generalizing a with
  | zero =>
      obtain rfl := Option.some.inj walked
      rw [Nat.zero_add]
  | succ j ih =>
      rw [Nat.succ_add, reach]
      cases step : next a with
      | none =>
          rw [reach, step] at walked
          cases walked
      | some b =>
          rw [reach, step] at walked
          exact ih walked

theorem reach_of_walk {a c : α} {spare : List α} {j : Nat} (walked : reach next [] j a = some c) :
    reach next spare j a = some c := reach_add walked 0

section Append
variable [DecidableEq α] {a b c x : α}

theorem append_end (next : α → Option α) (c b : α) : append next c b b = none :=
  Function.update_self _ _ _

theorem append_link (apart : c ≠ b) : append next c b c = some b := by
  rw [append, Function.update_of_ne apart, Function.update_self]

theorem append_ne (after : x ≠ c) (fresh : x ≠ b) : append next c b x = next x := by
  rw [append, Function.update_of_ne fresh, Function.update_of_ne after]

theorem Chain.append {l : List α} (chain : Chain next a (l ++ [c])) (fresh : b ∉ l ++ [c]) :
    Chain (append next c b) a (l ++ [c] ++ [b]) := by
  induction l generalizing a with
  | nil =>
      obtain ⟨rfl, -⟩ := chain.tail
      have apart : a ≠ b := fun same => fresh (by rw [same]; exact List.mem_cons_self)
      exact .link (append_link apart) (.last (append_end next a b))
  | cons x l ih =>
      have twice := chain.nodup
      obtain ⟨rfl, ⟨stop, -⟩ | ⟨d, step, rest⟩⟩ := chain.tail
      · exact absurd stop (List.append_ne_nil_of_right_ne_nil l (List.cons_ne_nil c []))
      · have new : a ≠ b := fun same => fresh (by rw [same]; exact List.mem_cons_self)
        have before : a ≠ c := by
          intro same
          rw [List.cons_append, List.nodup_cons, same] at twice
          exact twice.1 (List.mem_append_right l List.mem_cons_self)
        apply Chain.link ((append_ne before new).trans step)
        exact ih rest fun member => fresh (List.mem_cons_of_mem a member)

/-- Appending the first spare element where the walk ends moves no step of it. -/
theorem reach_append {spare : List α} : ∀ {j : Nat} {a : α},
    reach next [] j a = some c → next c = none →
    (∀ i, i ≤ j → reach next [] i a ≠ some b) →
    ∀ n, reach (append next c b) spare n a = reach next (b :: spare) n a := by
  have behind (c : α) (apart : c ≠ b) (stop : next c = none) (n : Nat) :
      reach (append next c b) spare n c = reach next (b :: spare) n c := by
    cases n with
    | zero => rfl
    | succ n =>
        simp only [reach, append_link apart, stop]
        cases n with
        | zero => rfl
        | succ n => simp only [reach, append_end, List.getElem?_cons_succ]
  intro j
  induction j with
  | zero =>
      intro a reached stop fresh
      obtain rfl := Option.some.inj reached
      exact behind a (fun same => fresh 0 (Nat.le_refl 0) (by rw [same, reach])) stop
  | succ j ih =>
      intro a reached stop fresh n
      have new : a ≠ b := fun same => fresh 0 (Nat.zero_le _) (by rw [same, reach])
      by_cases here : a = c
      · rw [here]
        exact behind c (by rw [← here]; exact new) stop n
      · cases n with
        | zero => rfl
        | succ n =>
            cases step : next a with
            | none =>
                rw [reach, step] at reached
                cases reached
            | some d =>
                simp only [reach, step, append_ne here new] at reached ⊢
                refine ih reached stop (fun i low => ?_) n
                have later := fresh (i + 1) (Nat.succ_le_succ low)
                rwa [reach, step] at later

end Append

end Zenbite.Chains
