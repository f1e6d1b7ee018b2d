import Mathlib.Data.List.Nodup
import Zenbite.Snake

/-! The body of the snake from tick to tick: render_snake moves the bytes of the cells by
one, where a cell has two. -/

namespace Zenbite.Snake

open Memory

namespace Widget

variable (s : Widget)

/-- The cells are pairwise distinct and inside the field. -/
def Placed : Prop :=
  s.body.Nodup ∧ ∀ cell ∈ s.body, (0 ≤ cell.1 ∧ cell.1 < s.playCols) ∧ 0 ≤ cell.2 ∧ cell.2 < s.playRows

/-- The body behind a tick that does not end the game. -/
def nextBody : List (Int × Int) := if s.head = s.apple then s.head :: s.body else s.head :: s.body.dropLast

end Widget

/-- What a step owes: a tick moves the body, and while the game runs the body is in its
place. -/
def Play.Sound (a : Play) (s : Widget) : Prop :=
  ∃ t, a.step s = some t ∧ (t.row = 0 → t.Placed) ∧
    ∀ now, a = .frame now → s.Ticks now → t.row = 0 → t.body = s.nextBody

/-- A game between two resets, with every step as it is owed. -/
def SoundGame (plays : List Play) (s : Widget) : Prop := s.Placed ∧ Runs.EachSome Play.step Play.Sound plays s

/-- A tick ends the game. -/
def Play.Stuck : Play → Widget → Prop
  | .frame now, s => s.Ticks now → s.Blocked s.playCols s.playRows
  | .key _, _ => True

/-- The three cells that a reset lays out, in a field of these sizes. -/
structure Fresh (cols rows : Int) (s : Widget) : Prop where
  sizes : s.playCols = cols ∧ s.playRows = rows
  length : s.contentLen = 6
  cells : ∃ x y, (2 ≤ x ∧ x < cols ∧ 0 ≤ y ∧ y < rows) ∧
    s.cell 0 = (x, y) ∧ s.cell 1 = (x - 1, y) ∧ s.cell 2 = (x - 2, y)

section Reset
variable {s t : Widget} {cols rows : Int}

theorem toByte_toNat {n : Int} (low : 0 ≤ n) (high : n < 256) : ((toByte n).toNat : Int) = n := by
  rw [toByte, UInt8.toNat_ofNat']
  omega

theorem Fresh.body (fresh : Fresh cols rows s) : s.body = [s.cell 0, s.cell 1, s.cell 2] := by
  rw [Widget.body, fresh.length]
  rfl

theorem Fresh.placed (fresh : Fresh cols rows s) : s.Placed := by
  obtain ⟨x, y, inside, c0, c1, c2⟩ := fresh.cells
  rw [Widget.Placed, fresh.body, fresh.sizes.1, fresh.sizes.2, c0, c1, c2]
  constructor
  · simp only [List.nodup_cons, List.mem_cons, Prod.mk.injEq, List.not_mem_nil, List.nodup_nil, or_false,
      not_false_eq_true, and_true]
    omega
  · intro cell member
    simp only [List.mem_cons, List.not_mem_nil, or_false] at member
    rcases member with rfl | rfl | rfl
    · dsimp only
      omega
    · dsimp only
      omega
    · dsimp only
      omega

theorem putApple_below (content : Buffer) (ax ay : Nat) {i : Nat} (below : i < appleAt) :
    putApple content ax ay i = content i := poke_below content _ below

/-- A reset lays out three cells in a row. -/
theorem reset_fresh (wide : 4 ≤ cols ∧ cols ≤ 256) (tall : 1 ≤ rows ∧ rows ≤ 256)
    (sizes : s.playCols = cols ∧ s.playRows = rows) (reset : s.reset cols rows = some t) :
    Fresh cols rows t ∧ t.row = 0 := by
  rw [Widget.reset] at reset
  obtain ⟨⟨ax, ay, rng⟩, _, equal⟩ := Option.bind_eq_some_iff.mp reset
  cases equal
  have half : cols.tdiv 2 = cols / 2 := Int.tdiv_eq_ediv_of_nonneg (by omega)
  have middle : rows.tdiv 2 = rows / 2 := Int.tdiv_eq_ediv_of_nonneg (by omega)
  have laid : ∀ i (bound : i < 6), putApple (poke s.content 0 [toByte (cols / 2), toByte (rows / 2),
      toByte (cols / 2 - 1), toByte (rows / 2), toByte (cols / 2 - 2), toByte (rows / 2)]) ax ay i =
      [toByte (cols / 2), toByte (rows / 2), toByte (cols / 2 - 1), toByte (rows / 2), toByte (cols / 2 - 2),
        toByte (rows / 2)].getD i 0 := by
    intro i bound
    rw [putApple_below _ _ _ (Nat.lt_trans bound (by decide))]
    exact poke_start s.content bound
  refine ⟨⟨sizes, rfl, cols / 2, rows / 2, by omega, ?_, ?_, ?_⟩, rfl⟩
  · simp only [Widget.cell, half, middle, laid 0 (by decide), laid 1 (by decide)]
    exact Prod.ext (toByte_toNat (by omega) (by omega)) (toByte_toNat (by omega) (by omega))
  · simp only [Widget.cell, half, middle, laid 2 (by decide), laid 3 (by decide)]
    exact Prod.ext (toByte_toNat (by omega) (by omega)) (toByte_toNat (by omega) (by omega))
  · simp only [Widget.cell, half, middle, laid 4 (by decide), laid 5 (by decide)]
    exact Prod.ext (toByte_toNat (by omega) (by omega)) (toByte_toNat (by omega) (by omega))

end Reset

section Ticks
variable {s t : Widget} {cols rows : Int}

theorem moved_behind (s : Widget) {i : Nat} (low : 2 ≤ i) (high : i ≤ s.contentLen) :
    s.moved i = s.content (i - 1) := by
  rw [Widget.moved, poke, splice_outside _ _ (Or.inr low), Widget.shifted, if_pos ⟨by omega, high⟩]

/-- A tick that does not end the game moves the bytes behind the head by one place. -/
theorem tick_shifts (free : ¬ s.Blocked cols rows) (ticked : s.tick cols rows = some t) :
    t.row = s.row ∧ s.contentLen ≤ t.contentLen ∧
      ∀ i, 2 ≤ i → i ≤ s.contentLen → i < appleAt → t.content i = s.content (i - 1) := by
  rw [Widget.tick, if_neg free] at ticked
  split_ifs at ticked with grow
  · dsimp only at ticked
    obtain ⟨⟨ax, ay, rng⟩, _, equal⟩ := Option.bind_eq_some_iff.mp ticked
    cases equal
    refine ⟨rfl, Nat.le_add_right _ 2, fun i low high below => ?_⟩
    exact (putApple_below _ _ _ below).trans (moved_behind s low high)
  · cases ticked
    exact ⟨rfl, Nat.le_refl _, fun i low high _ => moved_behind s low high⟩

/-- Not even the second cell is then the old head, with three cells in a row. -/
theorem Fresh.breaks (fresh : Fresh cols rows s) (free : ¬ s.Blocked cols rows)
    (ticked : s.tick cols rows = some t) : t.body ≠ s.nextBody := by
  obtain ⟨_, longer, shifted⟩ := tick_shifts free ticked
  obtain ⟨x, y, _, c0, c1, c2⟩ := fresh.cells
  have six := fresh.length
  intro same
  have second : t.body[1]? = some (t.cell 1) := by
    have inside : 1 < t.contentLen / 2 := by omega
    rw [Widget.body, List.getElem?_map, List.getElem?_range inside]
    rfl
  have old : s.nextBody[1]? = some (s.cell 0) := by
    rw [Widget.nextBody, fresh.body]
    split_ifs
    · rfl
    · rfl
  have cell : t.cell 1 = ((s.cell 0).2, (s.cell 1).1) := by
    have first := shifted 2 (Nat.le_refl 2) (by omega) (by decide)
    have next := shifted 3 (by decide) (by omega) (by decide)
    simp only [Widget.cell]
    rw [first, next]
  rw [same, old, cell, c0, c1, Option.some.injEq, Prod.mk.injEq] at second
  omega

theorem Fresh.started (fresh : Fresh cols rows s) : s.started = some s := by
  have some : s.contentLen ≠ 0 := by
    rw [fresh.length]
    decide
  rw [Widget.started, if_neg some]

/-- Nothing but the state of the game and the clock changes in a frame in which the snake
does not move. -/
theorem Fresh.stuck (fresh : Fresh cols rows s) {now : UInt32} (stuck : Play.Stuck (.frame now) s) :
    ∃ t, s.render now = some t ∧ Fresh cols rows t ∧ (s.Ticks now → t.row = 1) := by
  rw [Widget.render, fresh.started, Option.bind_some, Widget.advance]
  by_cases ticks : s.Ticks now
  · have blocked : ({ s with prevSec := now } : Widget).Blocked s.playCols s.playRows := stuck ticks
    rw [if_pos ticks, Widget.tick, if_pos blocked]
    exact ⟨_, rfl, ⟨fresh.sizes, fresh.length, fresh.cells⟩, fun _ => rfl⟩
  · rw [if_neg ticks]
    exact ⟨s, rfl, fresh, fun on => absurd on ticks⟩

theorem Fresh.steer (fresh : Fresh cols rows s) (k : Key) : Fresh cols rows (s.steer k) := by
  cases k <;> rw [Widget.steer] <;> split_ifs <;> exact ⟨fresh.sizes, fresh.length, fresh.cells⟩

/-- Of a snake as it was laid out, only a tick that ends the game is as it should be. -/
theorem Fresh.sound_iff (fresh : Fresh cols rows s) (a : Play) : a.Sound s ↔ a.Stuck s := by
  cases a with
  | frame now =>
      constructor
      · intro sound ticks
        obtain ⟨t, rendered, _, moves⟩ := sound
        by_contra free
        have run : s.render now = Widget.tick { s with prevSec := now } s.playCols s.playRows := by
          rw [Widget.render, fresh.started, Option.bind_some, Widget.advance, if_pos ticks]
        have frame : s.render now = some t := rendered
        rw [run] at frame
        have here : Fresh cols rows { s with prevSec := now } := ⟨fresh.sizes, fresh.length, fresh.cells⟩
        have notBlocked : ¬ ({ s with prevSec := now } : Widget).Blocked cols rows := by
          rw [← fresh.sizes.1, ← fresh.sizes.2]
          exact free
        rw [fresh.sizes.1, fresh.sizes.2] at frame
        have running : t.row = 0 := (tick_shifts notBlocked frame).1.trans ticks.1
        exact here.breaks notBlocked frame (moves now rfl ticks running)
      · intro stuck
        obtain ⟨t, rendered, still, ended⟩ := fresh.stuck stuck
        refine ⟨t, rendered, fun _ => still.placed, fun other equal ticks running => ?_⟩
        cases equal
        rw [ended ticks] at running
        exact absurd running (by decide)
  | key k =>
      refine iff_of_true ⟨s.steer k, rfl, fun _ => (fresh.steer k).placed, fun now equal => ?_⟩ trivial
      cases equal

end Ticks

/-- In every window with a field of at least four columns and a row, the game goes as it
should exactly as long as the snake does not move. -/
theorem snake_steps_iff (w s : Widget) (wide : 4 ≤ w.playCols ∧ w.w ≤ vgaCols)
    (tall : 1 ≤ w.playRows ∧ w.h ≤ vgaRows) (reset : w.reset w.playCols w.playRows = some s) (plays : List Play) :
    SoundGame plays s ↔ Runs.EachSome Play.step Play.Stuck plays s := by
  have cols : w.playCols ≤ 256 := by
    have fits := wide.2
    simp only [vgaCols] at fits
    rw [Widget.playCols]
    omega
  have rows : w.playRows ≤ 256 := by
    have fits := tall.2
    simp only [vgaRows] at fits
    rw [Widget.playRows]
    omega
  have fresh := (reset_fresh ⟨wide.1, cols⟩ ⟨tall.1, rows⟩ ⟨rfl, rfl⟩ reset).1
  have same : ∀ a s, Fresh w.playCols w.playRows s → (Play.Sound a s ↔ Play.Stuck a s) := fun a _ here => here.sound_iff a
  have keeps : ∀ a s t, Fresh w.playCols w.playRows s → Play.Stuck a s → Play.step a s = some t →
      Fresh w.playCols w.playRows t := by
    intro a s t here stuck stepped
    cases a with
    | frame now =>
        obtain ⟨u, rendered, still, _⟩ := here.stuck stuck
        have equal := Option.some.inj (rendered.symm.trans stepped)
        exact equal ▸ still
    | key k =>
        cases stepped
        exact here.steer k
  rw [SoundGame, and_iff_right fresh.placed]
  exact Runs.EachSome.iff (Fresh w.playCols w.playRows) same keeps fresh

/-- A window that was just opened. -/
def opened : Widget := Widget.spawn ⟨0, 0, 0, 0, 0, fun _ => 0, 0, 0, 0, 0, false, 0xC0FFEE01⟩

def firstGame : Widget := (opened.reset opened.playCols opened.playRows).getD opened

theorem opened_reset : opened.reset opened.playCols opened.playRows = some firstGame := by
  have some : (opened.reset opened.playCols opened.playRows).isSome = true := by decide +kernel
  obtain ⟨s, reset⟩ := Option.isSome_iff_exists.mp some
  rw [firstGame, reset]
  rfl

theorem snake_steps_opened : SoundGame [.key .up, .frame 14] firstGame ↔
    Runs.EachSome Play.step Play.Stuck [.key .up, .frame 14] firstGame :=
  snake_steps_iff opened firstGame (by decide) (by decide) opened_reset [.key .up, .frame 14]

/-- The first tick in that window: (24, 6), (23, 6), (22, 6) becomes (25, 6), (6, 23), (6, 22). -/
theorem body_torn : ¬ SoundGame [.frame 14] firstGame := by
  intro game
  obtain ⟨t, rendered, _, moves⟩ := game.2.1
  have ticks : firstGame.Ticks 14 := by decide +kernel
  have running : (firstGame.render 14).map Widget.row = some 0 := by decide +kernel
  have torn : (firstGame.render 14).map Widget.body ≠ some firstGame.nextBody := by decide +kernel
  have frame : firstGame.render 14 = some t := rendered
  rw [frame] at running torn
  exact torn (congrArg some (moves 14 rfl ticks (Option.some.inj running)))

end Zenbite.Snake
