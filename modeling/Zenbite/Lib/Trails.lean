import Mathlib.Data.Finset.Card
import Mathlib.Logic.Function.Basic
import Mathlib.Logic.Relation

/-! Following a map for as long as a condition holds, while every place that is left
is cleared: what is met on the way, and how often that can go on. -/

namespace Zenbite.Trails

variable {α : Type} {on : α → Prop} {f : α → α} {a b z : α}

/-- Following `f` from `a` meets `b`, and `on` holds all the way. -/
def Trail (on : α → Prop) (f : α → α) (a b : α) : Prop :=
  on a ∧ Relation.ReflTransGen (fun x y => f x = y ∧ on y) a b

theorem Trail.first (trail : Trail on f a b) : on a := trail.1

section Clear
variable [DecidableEq α]

/-- Clearing the first place loses nothing that is met behind it: a way back to it
ends there. -/
theorem trail_iff (off : ¬ on z) :
    Trail on f a b ↔ on a ∧ (b = a ∨ Trail on (Function.update f a z) (f a) b) := by
  constructor
  · rintro ⟨first, path⟩
    refine ⟨first, ?_⟩
    induction path with
    | refl => exact .inl rfl
    | @tail b d _ link ih =>
        obtain ⟨step, next⟩ := link
        right
        by_cases back : b = a
        · rw [back] at step
          rw [step]
          exact ⟨next, .refl⟩
        · obtain ⟨start, path⟩ := ih.resolve_left back
          exact ⟨start, path.tail ⟨by rw [Function.update_of_ne back]; exact step, next⟩⟩
  · rintro ⟨first, rfl | ⟨next, path⟩⟩
    · exact ⟨first, .refl⟩
    · refine ⟨first, ?_⟩
      induction path with
      | refl => exact .single ⟨rfl, next⟩
      | @tail b d _ link ih =>
          obtain ⟨step, last⟩ := link
          have other : b ≠ a := fun here => by
            rw [here, Function.update_self] at step
            exact off (step ▸ last)
          rw [Function.update_of_ne other] at step
          exact ih.tail ⟨step, last⟩

/-- Each place that is cleared makes the work left smaller. -/
theorem card_clear_lt {s : Finset α} (member : a ∈ s) (busy : f a ≠ z) :
    (s.filter fun x => Function.update f a z x ≠ z).card < (s.filter fun x => f x ≠ z).card := by
  apply Finset.card_lt_card
  refine ⟨fun x here => ?_, fun back => ?_⟩
  · obtain ⟨inside, left⟩ := Finset.mem_filter.mp here
    have other : x ≠ a := fun same => left (by rw [same, Function.update_self])
    rw [Function.update_of_ne other] at left
    exact Finset.mem_filter.mpr ⟨inside, left⟩
  · have again := (Finset.mem_filter.mp (back (Finset.mem_filter.mpr ⟨member, busy⟩))).2
    exact again (Function.update_self a z f)

end Clear

end Zenbite.Trails
