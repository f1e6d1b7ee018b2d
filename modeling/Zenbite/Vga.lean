import Zenbite.Lib.Memory
import Zenbite.Lib.Runs

/-! The text screen and its shadow buffer (vga.c). -/

namespace Zenbite.Vga

open Memory

abbrev Cell := UInt16

def vgaCols : Nat := 80
def vgaRows : Nat := 25
def cells : Nat := vgaCols * vgaRows

/-- Output redirection: the buffer, its capacity and the length behind the pointer. -/
structure Redir where
  buf : Buffer
  cap : Nat
  len : Option Nat

/-- The static variables; `screen` is the memory at VGA_BUF. -/
structure Display where
  screen : Nat → Cell
  shadow : Nat → Cell
  prev : Nat → Cell
  shadowMode : Bool
  row : UInt16
  col : UInt16
  fg : UInt8
  bg : UInt8
  redir : Option Redir

def attr (fg bg : UInt8) : Cell := (bg <<< 4 ||| (fg &&& 0x0F)).toUInt16 <<< 8

/-- `entry`: a char is signed, so one from 0x80 on sets every bit of the attribute. -/
def entry (c fg bg : UInt8) : Cell := c.toInt8.toInt16.toUInt16 ||| attr fg bg

namespace Display

variable (v : Display)

/-- `vga_shadow_enable`. -/
def shadowEnable : Display :=
  { v with
    shadowMode := true
    shadow := splice v.shadow 0 cells v.screen
    prev := splice v.prev 0 cells v.screen }

/-- `vga_shadow_flush`. -/
def shadowFlush : Display :=
  { v with
    screen := splice v.screen 0 cells v.shadow
    prev := splice v.prev 0 cells v.shadow
    shadowMode := false }

/-- One round of vga_present. -/
def presentCell (i : Nat) : Display :=
  if v.shadow i ≠ v.prev i then
    { v with screen := Function.update v.screen i (v.shadow i), prev := Function.update v.prev i (v.shadow i) }
  else v

/-- `vga_present`, behind the wait for the retrace. -/
def present : Display := if v.shadowMode then (List.range cells).foldl presentCell v else v

/-- `vga_clear`. -/
def clear : Display :=
  { v with screen := splice v.screen 0 cells fun _ => entry 32 v.fg v.bg, row := 0, col := 0 }

/-- `VGA_BUF[cursor_row * VGA_COLS + cursor_col] = entry(..)`. -/
def putAt (c : UInt8) : Display :=
  { v with screen := Function.update v.screen (v.row.toNat * vgaCols + v.col.toNat) (entry c v.fg v.bg) }

/-- `if (cursor_col >= VGA_COLS) { cursor_col = 0; cursor_row++; }`. -/
def wrapCol : Display := if vgaCols ≤ v.col.toNat then { v with col := 0, row := v.row + 1 } else v

/-- `scroll_if_needed`; each row is read before it is written. -/
def scrollIfNeeded : Display :=
  if v.row.toNat < vgaRows then v
  else
    let screen := splice v.screen 0 ((vgaRows - 1) * vgaCols) (window v.screen vgaCols)
    { v with
      screen := splice screen ((vgaRows - 1) * vgaCols) vgaCols fun _ => entry 32 v.fg v.bg
      row := 24 }

/-- `vga_putc`. -/
def putc (ch : UInt8) : Display :=
  match v.redir with
  | some r =>
    match r.len with
    | some len =>
      if len < r.cap then
        { v with redir := some { r with buf := Function.update r.buf len ch, len := some (len + 1) } }
      else v
    | none => v
  | none =>
    let v :=
      if ch = 10 then { v with col := 0, row := v.row + 1 }
      else if ch = 13 then { v with col := 0 }
      else if ch = 8 then (if v.col ≠ 0 then { v with col := v.col - 1 } else v).putAt 32
      else if ch = 9 then { v with col := (v.col + 8) &&& ~~~7 }.wrapCol
      else
        let v := v.putAt ch
        { v with col := v.col + 1 }.wrapCol
    v.scrollIfNeeded

/-- The cell that vga_put_cell writes. -/
def cellAt (row col : Int) : Option Nat :=
  if row < 0 ∨ vgaRows ≤ row ∨ col < 0 ∨ vgaCols ≤ col then none else some (row * vgaCols + col).toNat

/-- `vga_put_cell`. -/
def putCell (row col : Int) (c fg bg : UInt8) : Display :=
  match cellAt row col with
  | none => v
  | some i =>
    let value := c.toUInt16 ||| attr fg bg
    if v.shadowMode then { v with shadow := Function.update v.shadow i value }
    else { v with screen := Function.update v.screen i value }

/-- `vga_fill`. -/
def fill (row col w h : Int) (c fg bg : UInt8) : Display :=
  (List.range h.toNat).foldl
    (fun v r => (List.range w.toNat).foldl (fun v x => v.putCell (row + r) (col + x) c fg bg) v) v

/-- `vga_write`. -/
def write (row : Int) : List UInt8 → Int → UInt8 → UInt8 → Display → Display
  | [], _, _, _, v => v
  | c :: s, col, fg, bg, v =>
    if c ≠ 0 ∧ col < vgaCols then write row s (col + 1) fg bg (v.putCell row col c fg bg) else v

end Display

/-- The calls that draw, and those that change what text is drawn with. -/
inductive Call where
  | putCell (row col : Int) (c fg bg : UInt8)
  | fill (row col w h : Int) (c fg bg : UInt8)
  | write (row col : Int) (s : List UInt8) (fg bg : UInt8)
  | putc (ch : UInt8)
  | clear
  | present
  | setColour (fg bg : UInt8)
  | setCursor (row col : UInt16)
  | redirect (r : Option Redir)

def Call.step : Call → Display → Display
  | .putCell row col c fg bg, v => v.putCell row col c fg bg
  | .fill row col w h c fg bg, v => v.fill row col w h c fg bg
  | .write row col s fg bg, v => v.write row s col fg bg
  | .putc ch, v => v.putc ch
  | .clear, v => v.clear
  | .present, v => v.present
  | .setColour fg bg, v => { v with fg := fg &&& 0x0F, bg := bg &&& 0x0F }
  | .setCursor row col, v => { v with row := row, col := col }
  | .redirect r, v => { v with redir := r }

/-- Text that goes straight to the screen changes it. -/
def Call.Redraws : Call → Display → Prop
  | .putc ch, v => ∃ i < cells, (v.putc ch).screen i ≠ v.screen i
  | .clear, v => ∃ i < cells, v.clear.screen i ≠ v.screen i
  | _, _ => False

variable {v : Display}

/-! What a present leaves. -/

theorem presentCell_shadow (i : Nat) : (v.presentCell i).shadow = v.shadow := by
  rw [Display.presentCell]
  split <;> rfl

theorem presentCell_screen (i j : Nat) :
    (v.presentCell i).screen j = if j = i ∧ v.shadow i ≠ v.prev i then v.shadow i else v.screen j := by
  rw [Display.presentCell]
  by_cases changed : v.shadow i = v.prev i
  · rw [if_neg (not_not.mpr changed), if_neg fun both => both.2 changed]
  · rw [if_pos changed]
    dsimp only
    rw [Function.update_apply]
    exact if_congr (by tauto) rfl rfl

theorem presentCell_prev (i j : Nat) : (v.presentCell i).prev j = if j = i then v.shadow i else v.prev j := by
  rw [Display.presentCell]
  split
  · exact Function.update_apply _ _ _ _
  next same =>
    split
    next here => rw [here, not_not.mp same]
    next _ => rfl

/-- After `n` rounds the first `n` cells are up to date with what prev_buf knew. -/
theorem presentCells (n : Nat) : ∀ v : Display,
    let v' := (List.range n).foldl Display.presentCell v
    v'.shadow = v.shadow ∧ v'.shadowMode = v.shadowMode ∧
      (∀ j, v'.prev j = if j < n then v.shadow j else v.prev j) ∧
      ∀ j, v'.screen j = if j < n ∧ v.shadow j ≠ v.prev j then v.shadow j else v.screen j := by
  induction n with
  | zero => simp
  | succ n ih =>
      intro v
      obtain ⟨shadow, mode, prev, screen⟩ := ih v
      dsimp only
      rw [List.range_succ, List.foldl_append, List.foldl_cons, List.foldl_nil]
      refine ⟨(presentCell_shadow n).trans shadow, ?_, fun j => ?_, fun j => ?_⟩
      · rw [Display.presentCell]
        split <;> exact mode
      · rw [presentCell_prev, shadow, prev]
        by_cases here : j = n
        · rw [if_pos here, if_pos (by omega), here]
        · rw [if_neg here]
          exact if_congr (by omega) rfl rfl
      · rw [presentCell_screen, shadow, prev, screen, if_neg (Nat.lt_irrefl n)]
        by_cases here : j = n
        · subst here
          simp
        · rw [if_neg fun both => here both.1]
          exact if_congr (and_congr (by omega) Iff.rfl) rfl rfl

/-- prev_buf mirrors the screen. -/
structure Mirrors (v : Display) : Prop where
  mode : v.shadowMode = true
  same : ∀ i < cells, v.screen i = v.prev i

/-- The present is as good as a full copy exactly where prev_buf is right about the
cells that it takes for unchanged. -/
theorem present_iff (mode : v.shadowMode = true) :
    v.present.screen = v.shadowFlush.screen ↔ ∀ i < cells, v.shadow i = v.prev i → v.screen i = v.prev i := by
  obtain ⟨-, -, -, screen⟩ := presentCells cells v
  have presented : v.present = (List.range cells).foldl Display.presentCell v := if_pos mode
  constructor
  · intro same i inside known
    have here := congrFun same i
    rw [presented, screen, if_neg fun both => both.2 known] at here
    exact (here.trans (splice_inside _ _ (Nat.zero_le _) (by omega))).trans known
  · intro right
    funext i
    rw [presented, screen]
    by_cases inside : i < cells
    · have copied : v.shadowFlush.screen i = v.shadow i := splice_inside _ _ (Nat.zero_le _) (by omega)
      rw [copied]
      by_cases known : v.shadow i = v.prev i
      · rw [if_neg fun both => both.2 known, right i inside known, known]
      · rw [if_pos ⟨inside, known⟩]
    · rw [if_neg fun both => inside both.1]
      exact (splice_outside _ _ (by omega)).symm

theorem shadowEnable_mirrors (v : Display) : Mirrors v.shadowEnable where
  mode := rfl
  same := fun _ inside => (splice_inside v.prev v.screen (Nat.zero_le _) (by omega)).symm

theorem Mirrors.present (mirrors : Mirrors v) : Mirrors v.present := by
  obtain ⟨-, mode, prev, screen⟩ := presentCells cells v
  have presented : v.present = (List.range cells).foldl Display.presentCell v := if_pos mirrors.mode
  rw [presented]
  refine ⟨mode.trans mirrors.mode, fun i inside => ?_⟩
  rw [prev, screen, if_pos inside]
  split
  · rfl
  next unchanged =>
    have known : v.shadow i = v.prev i := by
      by_contra changed
      exact unchanged ⟨inside, changed⟩
    rw [mirrors.same i inside, known]

/-- The cell calls draw into the shadow buffer only. -/
theorem Mirrors.putCell (mirrors : Mirrors v) (row col : Int) (c fg bg : UInt8) :
    Mirrors (v.putCell row col c fg bg) := by
  rw [Display.putCell]
  split
  · exact mirrors
  · dsimp only
    rw [if_pos mirrors.mode]
    exact ⟨mirrors.mode, mirrors.same⟩

theorem Mirrors.foldl {α : Type} {f : Display → α → Display} (keeps : ∀ v a, Mirrors v → Mirrors (f v a)) (l : List α) :
    ∀ {v : Display}, Mirrors v → Mirrors (l.foldl f v) := by
  induction l with
  | nil => exact fun mirrors => mirrors
  | cons a l ih => exact fun mirrors => ih (keeps _ a mirrors)

theorem Mirrors.write (s : List UInt8) (fg bg : UInt8) :
    ∀ {v : Display} {row col : Int}, Mirrors v → Mirrors (v.write row s col fg bg) := by
  induction s with
  | nil => exact fun mirrors => mirrors
  | cons c s ih =>
      intro v row col mirrors
      rw [Display.write]
      split
      · exact ih (mirrors.putCell row col c fg bg)
      · exact mirrors

theorem putc_frame (v : Display) (ch : UInt8) :
    (v.putc ch).shadowMode = v.shadowMode ∧ (v.putc ch).prev = v.prev := by
  have scrolled (v : Display) : v.scrollIfNeeded.shadowMode = v.shadowMode ∧ v.scrollIfNeeded.prev = v.prev := by
    rw [Display.scrollIfNeeded]
    split <;> exact ⟨rfl, rfl⟩
  have wrapped (v : Display) : v.wrapCol.shadowMode = v.shadowMode ∧ v.wrapCol.prev = v.prev := by
    rw [Display.wrapCol]
    split <;> exact ⟨rfl, rfl⟩
  rw [Display.putc]
  split
  · split
    · split <;> exact ⟨rfl, rfl⟩
    · exact ⟨rfl, rfl⟩
  · dsimp only
    rw [(scrolled _).1, (scrolled _).2]
    split
    · exact ⟨rfl, rfl⟩
    split
    · exact ⟨rfl, rfl⟩
    split
    · rw [Display.putAt]
      split <;> exact ⟨rfl, rfl⟩
    split
    · exact wrapped _
    · exact wrapped _

/-- A step that does not redraw the screen keeps the mirror. -/
theorem Mirrors.step {a : Call} (mirrors : Mirrors v) (quiet : ¬ a.Redraws v) : Mirrors (a.step v) := by
  cases a with
  | putCell row col c fg bg => exact mirrors.putCell row col c fg bg
  | fill row col w h c fg bg =>
      exact mirrors.foldl (fun _ r each => each.foldl (fun _ x inner => inner.putCell _ _ c fg bg) _) _
  | write row col s fg bg => exact Mirrors.write s fg bg mirrors
  | putc ch =>
      obtain ⟨mode, prev⟩ := putc_frame v ch
      refine ⟨mode.trans mirrors.mode, fun i inside => ?_⟩
      change (v.putc ch).screen i = (v.putc ch).prev i
      rw [prev, ← mirrors.same i inside]
      by_contra changed
      exact quiet ⟨i, inside, changed⟩
  | clear =>
      refine ⟨mirrors.mode, fun i inside => ?_⟩
      change v.clear.screen i = v.prev i
      rw [← mirrors.same i inside]
      by_contra changed
      exact quiet ⟨i, inside, changed⟩
  | present => exact mirrors.present
  | setColour fg bg => exact ⟨mirrors.mode, mirrors.same⟩
  | setCursor row col => exact ⟨mirrors.mode, mirrors.same⟩
  | redirect r => exact ⟨mirrors.mode, mirrors.same⟩

/-- From vga_shadow_enable on, as long as no text redraws the screen, a present does what
a copy of the whole shadow buffer would. -/
theorem present_refines (v : Display) {calls : List Call}
    (quiet : Runs.Each Call.step (fun a v => ¬ a.Redraws v) calls v.shadowEnable) :
    let v' := Runs.run Call.step calls v.shadowEnable
    v'.present.screen = v'.shadowFlush.screen := by
  intro v'
  have mirrors : Mirrors v' := quiet.run (fun _ _ mirrors quiet => Mirrors.step mirrors quiet) (shadowEnable_mirrors v)
  exact (present_iff mirrors.mode).mpr fun i inside _ => mirrors.same i inside

/-- A black screen, and the cursor at home. -/
def blackScreen : Display := ⟨fun _ => 0, fun _ => 0, fun _ => 0, false, 0, 0, 7, 0, none⟩

theorem present_refines_cell :
    let v' := Runs.run Call.step [.putCell 0 0 65 7 0] blackScreen.shadowEnable
    v'.present.screen = v'.shadowFlush.screen :=
  present_refines blackScreen ⟨id, trivial⟩

/-- A letter that vga_putc has written stays on the screen. -/
theorem present_keeps_text :
    let v' := Runs.run Call.step [.putc 65] blackScreen.shadowEnable
    v'.present.screen ≠ v'.shadowFlush.screen := by
  intro v' same
  have right := (present_iff (v := v') rfl).mp same 0 (by decide) (by decide)
  revert right
  decide

end Zenbite.Vga
