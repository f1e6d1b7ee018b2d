import Mathlib.Tactic.Common

/-! Computations that pass a state along, and what holds before and after them. -/

namespace Zenbite.Acts

def Act (σ α : Type) := σ → α × σ

variable {σ α β : Type}

instance : Monad (Act σ) where
  pure a := fun s => (a, s)
  bind act next := fun s => next (act s).1 (act s).2

/-- What `view` shows of the state. -/
def look (view : σ → α) : Act σ α := fun s => (view s, s)

def update (change : σ → σ) : Act σ Unit := fun s => ((), change s)

/-- The act when `c` is true. -/
def optionally (c : Bool) (act : Act σ α) : Act σ (Option α) :=
  if c then do
    let a ← act
    pure (some a)
  else pure none

/-- Run where `pre` holds, the act leaves `post` of its result and the state. -/
def Triple (pre : σ → Prop) (act : Act σ α) (post : α → σ → Prop) : Prop :=
  ∀ s, pre s → post (act s).1 (act s).2

namespace Triple
variable {pre pre' : σ → Prop} {act : Act σ α} {next : α → Act σ β} {post post' : α → σ → Prop}

theorem pure (a : α) : Triple (post a) (Pure.pure a : Act σ α) post := fun _ holds => holds

theorem done (a : α) : Triple pre (Pure.pure a : Act σ α) fun _ => pre := fun _ holds => holds

theorem bind {mid : α → σ → Prop} {post : β → σ → Prop} (first : Triple pre act mid)
    (rest : ∀ a, Triple (mid a) (next a) post) : Triple pre (act >>= next) post :=
  fun s holds => rest _ _ (first s holds)

theorem look (view : σ → α) : Triple (fun s => post (view s) s) (Acts.look view) post :=
  fun _ holds => holds

theorem update {post : Unit → σ → Prop} (change : σ → σ) :
    Triple (fun s => post () (change s)) (Acts.update change) post := fun _ holds => holds

theorem weaken (triple : Triple pre' act post) (less : ∀ s, pre s → pre' s) : Triple pre act post :=
  fun s holds => triple s (less s holds)

theorem strengthen (triple : Triple pre act post') (more : ∀ a s, post' a s → post a s) :
    Triple pre act post := fun s holds => more _ _ (triple s holds)

/-- One of two acts by a value known before. -/
theorem branch {c : Bool} {yes no : Act σ α} (taken : Triple pre yes post) (left : Triple pre' no post) :
    Triple (fun s => if c then pre s else pre' s) (if c then yes else no) post := by
  cases c with
  | true => exact taken
  | false => exact left

theorem ite {c : Prop} [Decidable c] {no : Act σ α} (yes : c → Triple pre act post)
    (other : ¬ c → Triple pre no post) : Triple pre (if c then act else no) post := by
  by_cases holds : c
  · rw [if_pos holds]
    exact yes holds
  · rw [if_neg holds]
    exact other holds

/-- A fact that does not depend on the state. -/
theorem assume {fact : Prop} (triple : fact → Triple pre act post) :
    Triple (fun s => fact ∧ pre s) act post := fun s holds => triple holds.1 s holds.2

theorem optionally {c : Bool} {post : Option α → σ → Prop} (yes : c = true → Triple pre act fun a => post (some a))
    (no : c = false → ∀ s, pre s → post none s) : Triple pre (Acts.optionally c act) post := by
  cases c with
  | false => exact no rfl
  | true => exact (yes rfl).bind fun a => Triple.pure (some a)

end Triple

end Zenbite.Acts
