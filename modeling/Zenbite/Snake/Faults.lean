import Zenbite.Snake

/-! The moduli of the Snake window: which runs take none by zero. -/

namespace Zenbite.Snake

/-- A frame that resets the game finds more than the five rows of the border. -/
def Op.Tall : Op → Widget → Prop
  | .play (.frame _), s => s.contentLen = 0 → s.h ≠ 5
  | _, _ => True

/-- The window is on the screen, and not too small for its borders. -/
structure OnScreen (s : Widget) : Prop where
  wide : 16 ≤ s.w
  right : 0 ≤ s.c ∧ s.c + s.w ≤ vgaCols
  tall : 5 ≤ s.h
  low : 1 ≤ s.r ∧ s.r + s.h ≤ vgaRows - 1

/-! Where the moduli come from -/

/-- A field with these sizes divides by neither of them being zero. -/
def Divides (cols rows : Int) : Prop := (0 < cols ∧ cols < 2 ^ 32) ∧ 0 < rows ∧ rows < 2 ^ 32

section Moduli
variable {cols rows : Int}

theorem remainder_some (x : UInt32) {n : Int} (positive : 0 < n) (bound : n < 2 ^ 32) :
    ∃ k, remainder x n = some k := by
  have same : n % 2 ^ 32 = n := Int.emod_eq_of_lt (Int.le_of_lt positive) bound
  have divisor : n.toNat ≠ 0 := by omega
  rw [remainder, same]
  exact ⟨_, if_neg divisor⟩

theorem drawApple_some (divides : Divides cols rows) (x : UInt32) : ∃ t, drawApple cols rows x = some t := by
  obtain ⟨ax, first⟩ := remainder_some (quickRand x) divides.1.1 divides.1.2
  obtain ⟨ay, second⟩ := remainder_some (quickRand (quickRand x)) divides.2.1 divides.2.2
  refine ⟨(ax, ay, quickRand (quickRand x)), ?_⟩
  rw [drawApple, first, Option.bind_eq_bind, Option.bind_some, second]
  rfl

/-- With no rows the second modulus is a fault. -/
theorem drawApple_none (cols : Int) (x : UInt32) : drawApple cols 0 x = none := by
  rw [drawApple]
  cases remainder (quickRand x) cols with
  | none => rfl
  | some ax => rfl

theorem moveApple_some (divides : Divides cols rows) (body : List (Int × Int)) :
    ∀ (left : Nat) (x : UInt32), ∃ t, moveApple cols rows body left x = some t := by
  intro left
  induction left with
  | zero => exact drawApple_some divides
  | succ left ih =>
      intro x
      obtain ⟨⟨ax, ay, next⟩, drawn⟩ := drawApple_some divides x
      rw [moveApple, drawn, Option.bind_eq_bind, Option.bind_some]
      dsimp only
      split_ifs
      · exact ih next
      · exact ⟨_, rfl⟩

/-- The tick takes a modulus only when the head is inside the field, which then has a
column and a row. -/
theorem tick_some (wide : cols < 2 ^ 32) (tall : rows < 2 ^ 32) (s : Widget) : ∃ t, s.tick cols rows = some t := by
  rw [Widget.tick]
  by_cases blocked : s.Blocked cols rows
  · exact ⟨_, if_pos blocked⟩
  · have inside : ¬ (s.head.1 < 0 ∨ cols ≤ s.head.1 ∨ s.head.2 < 0 ∨ rows ≤ s.head.2) :=
      fun outside => blocked (Or.inl outside)
    rw [if_neg blocked]
    split_ifs with grow
    · dsimp only
      have divides : Divides cols rows := by
        rw [Divides]
        omega
      obtain ⟨⟨ax, ay, rng⟩, drawn⟩ := moveApple_some divides
        ({ s with content := s.moved, contentLen := s.contentLen + 2, sel := s.sel + 1 } : Widget).body 49 s.rng
      rw [drawn]
      exact ⟨_, rfl⟩
    · exact ⟨_, rfl⟩

/-- A reset keeps the window. -/
theorem reset_window {s t : Widget} (reset : s.reset cols rows = some t) :
    (t.w = s.w ∧ t.h = s.h ∧ t.c = s.c ∧ t.r = s.r) ∧ t.contentLen = 6 := by
  rw [Widget.reset] at reset
  cases drawn : drawApple cols rows s.rng with
  | none =>
      rw [drawn] at reset
      cases reset
  | some apple =>
      rw [drawn] at reset
      cases reset
      exact ⟨⟨rfl, rfl, rfl, rfl⟩, rfl⟩

theorem reset_some (divides : Divides cols rows) (s : Widget) : ∃ t, s.reset cols rows = some t := by
  obtain ⟨⟨ax, ay, rng⟩, drawn⟩ := drawApple_some divides s.rng
  rw [Widget.reset, drawn]
  exact ⟨_, rfl⟩

theorem reset_none (cols : Int) (s : Widget) : s.reset cols 0 = none := by
  rw [Widget.reset, drawApple_none]
  rfl

end Moduli

section Window
variable {s t : Widget}

/-- A tick leaves the window where it is. -/
theorem tick_window {cols rows : Int} (ticked : s.tick cols rows = some t) :
    t.w = s.w ∧ t.h = s.h ∧ t.c = s.c ∧ t.r = s.r := by
  rw [Widget.tick] at ticked
  split_ifs at ticked with blocked grow
  · cases ticked
    exact ⟨rfl, rfl, rfl, rfl⟩
  · dsimp only at ticked
    obtain ⟨apple, _, equal⟩ := Option.bind_eq_some_iff.mp ticked
    cases equal
    exact ⟨rfl, rfl, rfl, rfl⟩
  · cases ticked
    exact ⟨rfl, rfl, rfl, rfl⟩

theorem OnScreen.same (onScreen : OnScreen s) (window : t.w = s.w ∧ t.h = s.h ∧ t.c = s.c ∧ t.r = s.r) :
    OnScreen t := by
  obtain ⟨w, h, c, r⟩ := window
  constructor
  · exact w ▸ onScreen.wide
  · rw [w, c]
    exact onScreen.right
  · exact h ▸ onScreen.tall
  · rw [h, r]
    exact onScreen.low

theorem OnScreen.advance_some (onScreen : OnScreen s) (now : UInt32) : ∃ t, s.advance now = some t := by
  have right := onScreen.right
  have low := onScreen.low
  simp only [vgaCols, vgaRows] at right low
  rw [Widget.advance]
  split_ifs
  · exact tick_some (by rw [Widget.playCols]; omega) (by rw [Widget.playRows]; omega) _
  · exact ⟨s, rfl⟩

theorem OnScreen.started (onScreen : OnScreen s) (started : s.started = some t) : OnScreen t := by
  rw [Widget.started] at started
  split_ifs at started with fresh
  · exact onScreen.same (reset_window started).1
  · cases started
    exact onScreen

/-- Only a reset with no rows is a fault. -/
theorem started_iff (onScreen : OnScreen s) : (∃ t, s.started = some t) ↔ (s.contentLen = 0 → s.h ≠ 5) := by
  have right := onScreen.right
  have low := onScreen.low
  have wide := onScreen.wide
  have tall := onScreen.tall
  simp only [vgaCols, vgaRows] at right low
  rw [Widget.started]
  by_cases fresh : s.contentLen = 0
  · rw [if_pos fresh, imp_iff_right fresh]
    by_cases flat : s.h = 5
    · have none : s.playRows = 0 := by
        rw [Widget.playRows, flat]
        rfl
      rw [none, reset_none]
      exact iff_of_false (fun ⟨t, ran⟩ => by cases ran) fun other => other flat
    · have divides : Divides s.playCols s.playRows := by
        rw [Divides, Widget.playCols, Widget.playRows]
        omega
      exact iff_of_true (reset_some divides s) flat
  · rw [if_neg fresh]
    exact iff_of_true ⟨s, rfl⟩ fun empty => absurd empty fresh

theorem render_iff (onScreen : OnScreen s) (now : UInt32) :
    (∃ t, s.render now = some t) ↔ (s.contentLen = 0 → s.h ≠ 5) := by
  rw [← started_iff onScreen, Widget.render]
  cases started : s.started with
  | none => exact iff_of_false (fun ⟨t, ran⟩ => by cases ran) fun ⟨t, ran⟩ => by cases ran
  | some u => exact iff_of_true ((onScreen.started started).advance_some now) ⟨u, rfl⟩

theorem OnScreen.render (onScreen : OnScreen s) {now : UInt32} (rendered : s.render now = some t) : OnScreen t := by
  obtain ⟨u, started, shown⟩ := Option.bind_eq_some_iff.mp rendered
  have window := onScreen.started started
  rw [Widget.advance] at shown
  split_ifs at shown with ticks
  · have same := tick_window shown
    exact window.same same
  · cases shown
    exact window

theorem OnScreen.steer (onScreen : OnScreen s) (k : Key) : OnScreen (s.steer k) := by
  cases k <;> rw [Widget.steer] <;> split_ifs <;> exact ⟨onScreen.1, onScreen.2, onScreen.3, onScreen.4⟩

/-- Both clamps of a drag can be met, as the window is no larger than the screen. -/
theorem OnScreen.drag (onScreen : OnScreen s) (nc nr : Int) : OnScreen (s.drag nc nr) := by
  have right := onScreen.right
  have low := onScreen.low
  have wide := onScreen.wide
  have tall := onScreen.tall
  simp only [vgaCols, vgaRows] at right low
  constructor
  · exact wide
  · simp only [Widget.drag, vgaCols]
    split_ifs <;> omega
  · exact tall
  · simp only [Widget.drag, vgaRows]
    split_ifs <;> omega

/-- The upper clamp of a resize does not undo the lower one, as the window was on the
screen before. -/
theorem OnScreen.resize (onScreen : OnScreen s) (mc mr : Int) : OnScreen (s.resize mc mr) := by
  have right := onScreen.right
  have low := onScreen.low
  have wide := onScreen.wide
  have tall := onScreen.tall
  simp only [vgaCols, vgaRows] at right low
  constructor
  · simp only [Widget.resize, vgaCols]
    split_ifs <;> omega
  · simp only [Widget.resize, vgaCols]
    split_ifs <;> omega
  · simp only [Widget.resize, vgaRows]
    split_ifs <;> omega
  · simp only [Widget.resize, vgaRows]
    split_ifs <;> omega

theorem spawn_onScreen (s : Widget) : OnScreen s.spawn where
  wide := show (16 : Int) ≤ 52 by decide
  right := show (0 : Int) ≤ 14 ∧ (14 : Int) + 52 ≤ 80 by decide
  tall := show (5 : Int) ≤ 18 by decide
  low := show (1 : Int) ≤ 3 ∧ (3 : Int) + 18 ≤ 25 - 1 by decide

theorem OnScreen.step (onScreen : OnScreen s) {a : Op} (stepped : a.step s = some t) : OnScreen t := by
  cases a with
  | play p =>
      cases p with
      | frame now => exact onScreen.render stepped
      | key k =>
          cases stepped
          exact onScreen.steer k
  | drag nc nr =>
      cases stepped
      exact onScreen.drag nc nr
  | resize mc mr =>
      cases stepped
      exact onScreen.resize mc mr
  | spawn =>
      cases stepped
      exact spawn_onScreen s
  | restart | focus | drawn =>
      cases stepped
      exact ⟨onScreen.1, onScreen.2, onScreen.3, onScreen.4⟩

/-- The steps that are not frames divide by nothing. -/
theorem step_iff (onScreen : OnScreen s) (a : Op) : (∃ t, a.step s = some t) ↔ a.Tall s := by
  cases a with
  | play p =>
      cases p with
      | frame now => exact render_iff onScreen now
      | key k => exact iff_of_true ⟨_, rfl⟩ trivial
  | restart | drag | resize | spawn | focus | drawn => exact iff_of_true ⟨_, rfl⟩ trivial

end Window

/-- The game never divides by zero, as long as it is not reset in a window without rows. -/
theorem no_divide_fault_iff (w : Widget) (ops : List Op) :
    (∃ t, Runs.runSome Op.step ops w.spawn = some t) ↔ Runs.EachSome Op.step Op.Tall ops w.spawn := by
  have same : ∀ a s, OnScreen s → ((∃ t, Op.step a s = some t) ↔ Op.Tall a s) := fun a _ onScreen => step_iff onScreen a
  have keeps : ∀ a s t, OnScreen s → Op.step a s = some t → OnScreen t := fun _ _ _ onScreen stepped => onScreen.step stepped
  exact Runs.EachSome.runs_iff OnScreen same keeps (spawn_onScreen w)

/-- A frame, the corner of the window dragged up to its title bar, and R. -/
theorem flat_restart : Runs.runSome Op.step [.play (.frame 0), .resize 65 3, .restart, .play (.frame 1)]
    (Widget.spawn ⟨0, 0, 0, 0, 0, fun _ => 0, 0, 0, 0, 0, false, 0xC0FFEE01⟩) = none := by decide +kernel

end Zenbite.Snake
