import Zenbite.Edit.Modes

/-! The invariant of the editor's buffer: which keys keep it, and in which states. -/

namespace Zenbite.Edit

/-- The text fits its row with a NUL behind it, and holds neither NUL nor newline. -/
def Fine (text : Text) : Prop := text.length ≤ lineMax ∧ ∀ b ∈ text, b ≠ 0 ∧ b ≠ 10

/-- The invariant of the buffer and the cursor. -/
structure Inv (s : Ed) : Prop where
  low : 1 ≤ s.lineCount
  high : s.lineCount ≤ maxLines
  rowLow : 0 ≤ s.curRow
  rowHigh : s.curRow < s.lineCount
  colLow : 0 ≤ s.curCol
  colHigh : s.curCol ≤ s.len s.curRow
  fine : ∀ i, 0 ≤ i → i < s.lineCount → Fine (s.lines i)

/-- The entries of the undo stack hold what can stand in the buffer. -/
structure UndoTidy (s : Ed) : Prop where
  entries : ∀ u ∈ s.undo, 0 ≤ u.row ∧ Fine u.old ∧ Fine u.new
  pos : s.undopos ≤ s.undo.length

/-- The invariant with what it rests on from key to key. -/
structure Body (s : Ed) : Prop extends Inv s, UndoTidy s where
  view : 0 ≤ s.viewOff

/-- What the mode keeps: the saved row of insert mode, the anchor of visual mode. -/
def ModeTidy (s : Ed) : Prop :=
  match s.mode with
  | .insert _ row0Save => Fine row0Save
  | .visual | .visualG => 0 ≤ s.vArow ∧ s.vArow < s.lineCount ∧ 0 ≤ s.vAcol ∧ s.vAcol ≤ s.len s.vArow
  | _ => True

structure Tidy (s : Ed) : Prop extends Body s where
  mode : ModeTidy s

/-! Texts. -/

theorem Fine.nil : Fine [] := ⟨Nat.zero_le _, fun _ member => absurd member List.not_mem_nil⟩

theorem Fine.sublist {a b : Text} (fine : Fine b) (sub : a.Sublist b) : Fine a :=
  ⟨Nat.le_trans sub.length_le fine.1, fun c member => fine.2 c (sub.subset member)⟩

theorem Fine.take {text : Text} (fine : Fine text) (n : Nat) : Fine (text.take n) :=
  fine.sublist (List.take_sublist n text)

theorem Fine.drop {text : Text} (fine : Fine text) (n : Nat) : Fine (text.drop n) :=
  fine.sublist (List.drop_sublist n text)

theorem Fine.append {a b : Text} (first : Fine a) (second : Fine b)
    (short : a.length + b.length ≤ lineMax) : Fine (a ++ b) := by
  constructor
  · rwa [List.length_append]
  · intro c member
    rcases List.mem_append.mp member with member | member
    · exact first.2 c member
    · exact second.2 c member

theorem Fine.take_all {text : Text} (fine : Fine text) : text.take lineMax = text :=
  List.take_of_length_le fine.1

/-- What cut does inside a line. -/
theorem cut_inside {line : Text} {c1 c2 : Int} (high : c2 < line.length) :
    cut line c1 c2 = some (line.take c1.toNat ++ line.drop (c2 + 1).toNat) := by
  rw [cut, if_neg (by omega), if_neg (by omega)]

theorem Fine.cut_parts {line : Text} (fine : Fine line) {a b : Nat} (order : a ≤ b) :
    Fine (line.take a ++ line.drop b) := by
  refine (fine.take a).append (fine.drop b) ?_
  have bound := fine.1
  rw [List.length_take, List.length_drop]
  omega

theorem insertAt_inside {line : Text} {col : Int} (high : col ≤ line.length) (c : UInt8) :
    insertAt line col c = some (line.take col.toNat ++ c :: line.drop col.toNat) := by
  rw [insertAt, if_neg (by omega), if_neg (by omega)]

/-! Rows. -/

section Rows
variable {lines : Int → Text} {count row n : Int}

theorem closedRows_fine (fine : ∀ i, 0 ≤ i → i < count → Fine (lines i)) (some_ : 0 ≤ n) :
    ∀ i, 0 ≤ i → i < count - n → Fine (Ed.closedRows lines row n count i) := by
  intro i low high
  rw [Ed.closedRows]
  split
  · exact fine _ (by omega) (by omega)
  · exact fine i low (by omega)

theorem openedRows_fine (fine : ∀ i, 0 ≤ i → i < count → Fine (lines i)) {text : Text}
    (new : Fine text) (first : 0 ≤ row) (last : row ≤ count) :
    ∀ i, 0 ≤ i → i < count + 1 → Fine (Function.update (Ed.openedRows lines row count) row text i) := by
  intro i low high
  by_cases here : i = row
  · rw [here, Function.update_self]
    exact new
  · rw [Function.update_of_ne here, Ed.openedRows]
    split
    · exact fine _ (by omega) (by omega)
    · exact fine i low (by omega)

theorem setLine_fine {s : Ed} (fine : ∀ i, 0 ≤ i → i < count → Fine (s.lines i)) {text : Text}
    (new : Fine text) : ∀ i, 0 ≤ i → i < count → Fine ((s.setLine row text).lines i) := by
  intro i low high
  by_cases here : i = row
  · subst here
    simp only [Ed.setLine, Function.update_self]
    exact new
  · simp only [Ed.setLine, Function.update_of_ne here]
    exact fine i low high

end Rows

/-! Movement changes the cursor and the view. -/

/-- The cursor is in the buffer. -/
def OnPage (s : Ed) : Prop :=
  0 ≤ s.curRow ∧ s.curRow < s.lineCount ∧ 0 ≤ s.curCol ∧ s.curCol ≤ s.len s.curRow

structure Moved (s t : Ed) : Prop where
  lines : t.lines = s.lines
  lineCount : t.lineCount = s.lineCount
  undo : t.undo = s.undo
  undopos : t.undopos = s.undopos
  mode : t.mode = s.mode
  vArow : t.vArow = s.vArow
  vAcol : t.vAcol = s.vAcol

theorem Moved.refl (s : Ed) : Moved s s := ⟨rfl, rfl, rfl, rfl, rfl, rfl, rfl⟩

theorem Inv.onPage {s : Ed} (inv : Inv s) : OnPage s :=
  ⟨inv.rowLow, inv.rowHigh, inv.colLow, inv.colHigh⟩

theorem Moved.body {s t : Ed} (moved : Moved s t) (body : Body s) (cursor : OnPage t)
    (view : 0 ≤ t.viewOff) : Body t where
  low := moved.lineCount ▸ body.low
  high := moved.lineCount ▸ body.high
  rowLow := cursor.1
  rowHigh := cursor.2.1
  colLow := cursor.2.2.1
  colHigh := cursor.2.2.2
  fine := by
    rw [moved.lines, moved.lineCount]
    exact body.fine
  entries := moved.undo ▸ body.entries
  pos := by
    rw [moved.undopos, moved.undo]
    exact body.pos
  view := view

theorem Moved.modeTidy {s t : Ed} (moved : Moved s t) (tidy : ModeTidy s) : ModeTidy t := by
  rw [ModeTidy] at tidy ⊢
  rw [moved.mode, moved.vArow, moved.vAcol, moved.lineCount, Ed.len, moved.lines]
  exact tidy

/-- A step of the cursor: what it leaves alone, and that it stays in the buffer. -/
structure Steps (s t : Ed) : Prop extends Moved s t where
  cursor : OnPage t
  view : 0 ≤ t.viewOff

theorem Steps.tidy {s t : Ed} (steps : Steps s t) (tidy : Tidy s) : Tidy t where
  toBody := steps.toMoved.body tidy.toBody steps.cursor steps.view
  mode := steps.toMoved.modeTidy tidy.mode

theorem Body.stays {s : Ed} (body : Body s) : Steps s s := ⟨.refl s, body.onPage, body.view⟩

theorem Steps.visible {s t : Ed} (steps : Steps s t) : Steps s t.ensureVisible where
  toMoved := ⟨steps.lines, steps.lineCount, steps.undo, steps.undopos, steps.mode, steps.vArow, steps.vAcol⟩
  cursor := steps.cursor
  view := by
    simp only [Ed.ensureVisible]
    omega

theorem Steps.saveCol {s t : Ed} (steps : Steps s t) : Steps s t.saveCol where
  toMoved := ⟨steps.lines, steps.lineCount, steps.undo, steps.undopos, steps.mode, steps.vArow, steps.vAcol⟩
  cursor := steps.cursor
  view := steps.view

section Motions
variable {s : Ed}

/-- The cursor goes to a place in the buffer. -/
theorem Body.goTo (body : Body s) (row col : Int) (place : 0 ≤ row ∧ row < s.lineCount)
    (column : 0 ≤ col ∧ col ≤ s.len row) : Steps s { s with curRow := row, curCol := col } where
  toMoved := ⟨rfl, rfl, rfl, rfl, rfl, rfl, rfl⟩
  cursor := ⟨place.1, place.2, column.1, column.2⟩
  view := body.view

theorem len_nonneg (s : Ed) (row : Int) : 0 ≤ s.len row := Int.natCast_nonneg _

theorem moveLeft_steps (body : Body s) : Steps s s.moveLeft := by
  have low := body.rowLow
  have high := body.rowHigh
  have colHigh := body.colHigh
  rw [Ed.moveLeft]
  refine Steps.visible (Steps.saveCol ?_)
  by_cases inLine : 0 < s.curCol
  · rw [if_pos inLine, if_neg (by dsimp only; omega)]
    exact body.goTo _ _ ⟨low, high⟩ ⟨by omega, by omega⟩
  · rw [if_neg inLine]
    by_cases below : 0 < s.curRow
    · rw [if_pos below, if_neg (by dsimp only; omega)]
      exact body.goTo _ _ ⟨by omega, by omega⟩ ⟨len_nonneg s _, Int.le_refl _⟩
    · rw [if_neg below, if_neg (by omega)]
      exact body.stays

theorem moveRight_steps (body : Body s) : Steps s s.moveRight := by
  have low := body.rowLow
  have high := body.rowHigh
  have colLow := body.colLow
  rw [Ed.moveRight]
  refine Steps.visible (Steps.saveCol ?_)
  by_cases inLine : s.curCol < s.len s.curRow
  · rw [if_pos inLine]
    exact body.goTo _ _ ⟨low, high⟩ ⟨by omega, by omega⟩
  · rw [if_neg inLine]
    by_cases above : s.curRow + 1 < s.lineCount
    · rw [if_pos above]
      exact body.goTo _ _ ⟨by omega, above⟩ ⟨Int.le_refl _, len_nonneg s _⟩
    · rw [if_neg above]
      exact body.stays

theorem landOn_steps (body : Body s) {row : Int} (place : 0 ≤ row ∧ row < s.lineCount) :
    Steps s (s.landOn row) := by
  have column : 0 ≤ s.screenToCol row s.vColSave := Int.natCast_nonneg _
  have line := len_nonneg s row
  exact (body.goTo row _ place ⟨by omega, by omega⟩).visible

theorem moveUp_steps (body : Body s) : Steps s s.moveUp := by
  have high := body.rowHigh
  rw [Ed.moveUp]
  split
  · exact body.stays
  · exact landOn_steps body ⟨by omega, by omega⟩

theorem moveDown_steps (body : Body s) : Steps s s.moveDown := by
  have low := body.rowLow
  rw [Ed.moveDown]
  split
  · exact body.stays
  · exact landOn_steps body ⟨by omega, by omega⟩

theorem moveWordFwd_steps (body : Body s) : Steps s s.moveWordFwd := by
  have low := body.rowLow
  have high := body.rowHigh
  have colLow := body.colLow
  rw [Ed.moveWordFwd]
  split
  · split
    · exact body.goTo _ _ ⟨by omega, by omega⟩ ⟨Int.le_refl _, len_nonneg s _⟩
    · exact body.stays
  next inLine =>
    dsimp only
    refine Steps.visible (Steps.saveCol (body.goTo _ _ ⟨low, high⟩ ⟨by omega, ?_⟩))
    generalize hrest : (s.lines s.curRow).drop s.curCol.toNat = rest
    have whole : rest.length = (s.lines s.curRow).length - s.curCol.toNat := by
      rw [← hrest, List.length_drop]
    have parts := congrArg List.length (List.takeWhile_append_dropWhile (p := (!Ed.isBlank ·)) (l := rest))
    rw [List.length_append] at parts
    have blanks : ((rest.dropWhile (!Ed.isBlank ·)).takeWhile Ed.isBlank).length ≤
        (rest.dropWhile (!Ed.isBlank ·)).length := (List.takeWhile_sublist _).length_le
    rw [Ed.len] at inLine ⊢
    omega

theorem backBlanks_le (line : Text) (n : Nat) : Ed.backBlanks line n ≤ n := by
  induction n with
  | zero => exact Nat.le_refl 0
  | succ n ih =>
      rw [Ed.backBlanks]
      split
      · exact Nat.le_succ_of_le ih
      · exact Nat.le_refl _

theorem backWord_le (line : Text) (n : Nat) : Ed.backWord line n ≤ n := by
  induction n with
  | zero => exact Nat.le_refl 0
  | succ n ih =>
      rw [Ed.backWord]
      split
      · exact Nat.le_succ_of_le ih
      · exact Nat.le_refl _

theorem moveWordBwd_steps (body : Body s) : Steps s s.moveWordBwd := by
  have low := body.rowLow
  have high := body.rowHigh
  have colHigh := body.colHigh
  rw [Ed.moveWordBwd]
  split
  · split
    · exact body.goTo _ _ ⟨by omega, by omega⟩ ⟨len_nonneg s _, Int.le_refl _⟩
    · exact body.stays
  next inLine =>
    have blanks := backBlanks_le (s.lines s.curRow) (s.curCol - 1).toNat
    have word := backWord_le (s.lines s.curRow)
      (Ed.backBlanks (s.lines s.curRow) (s.curCol - 1).toNat)
    exact (body.goTo _ _ ⟨low, high⟩ ⟨Int.natCast_nonneg _, by omega⟩).saveCol.visible

theorem moveLineStart_steps (body : Body s) : Steps s s.moveLineStart where
  toMoved := ⟨rfl, rfl, rfl, rfl, rfl, rfl, rfl⟩
  cursor := ⟨body.rowLow, body.rowHigh, Int.le_refl 0, len_nonneg s _⟩
  view := body.view

theorem moveLineEnd_steps (body : Body s) : Steps s s.moveLineEnd :=
  (body.goTo _ _ ⟨body.rowLow, body.rowHigh⟩ ⟨len_nonneg s _, Int.le_refl _⟩).saveCol

theorem moveFileStart_steps (body : Body s) : Steps s s.moveFileStart where
  toMoved := ⟨rfl, rfl, rfl, rfl, rfl, rfl, rfl⟩
  cursor := ⟨Int.le_refl 0, body.low, Int.le_refl 0, len_nonneg s _⟩
  view := Int.le_refl 0

theorem moveFileEnd_steps (body : Body s) : Steps s s.moveFileEnd := by
  have low := body.low
  rw [Ed.moveFileEnd, if_neg (by omega)]
  exact (body.goTo _ _ ⟨by omega, by omega⟩ ⟨len_nonneg s _, Int.le_refl _⟩).visible.saveCol

/-- PgUp leaves the column alone: the row that it goes to must exist and reach that far. -/
def PageUpFits (s : Ed) : Prop :=
  s.viewOff - 22 < s.lineCount ∧ s.curCol ≤ s.len (max 0 (s.viewOff - 22))

/-- The same of PgDn, which stays in the buffer. -/
def PageDownFits (s : Ed) : Prop := s.curCol ≤ s.len (min (s.viewOff + 44) (s.lineCount - 1))

theorem pageUp_steps (body : Body s) (fits : PageUpFits s) : Steps s s.pageUp := by
  have low := body.low
  have view := body.view
  have row : (if s.viewOff - 22 < 0 then 0 else s.viewOff - 22) = max 0 (s.viewOff - 22) := by omega
  rw [Ed.pageUp, row]
  exact ⟨⟨rfl, rfl, rfl, rfl, rfl, rfl, rfl⟩,
    ⟨by dsimp only; omega, by have := fits.1; dsimp only; omega, body.colLow, fits.2⟩,
    by dsimp only; omega⟩

theorem pageDown_steps (body : Body s) (fits : PageDownFits s) : Steps s s.pageDown := by
  have low := body.low
  have view := body.view
  generalize seen : (if s.lineCount - 1 < s.viewOff + 22 then max 0 (s.lineCount - 1)
    else s.viewOff + 22) = off
  have row : min (off + 22) (s.lineCount - 1) = min (s.viewOff + 44) (s.lineCount - 1) := by omega
  rw [Ed.pageDown, seen, row]
  exact ⟨⟨rfl, rfl, rfl, rfl, rfl, rfl, rfl⟩,
    ⟨by dsimp only; omega, by dsimp only; omega, body.colLow, fits⟩, by dsimp only; omega⟩

/-- What a movement asks for. -/
def Motion.Fits (s : Ed) : Motion → Prop
  | .pageUp => PageUpFits s
  | .pageDown => PageDownFits s
  | _ => True

theorem Motion.apply_steps (body : Body s) (motion : Motion) (fits : motion.Fits s) :
    Steps s (motion.apply s) := by
  cases motion with
  | left => exact moveLeft_steps body
  | down => exact moveDown_steps body
  | up => exact moveUp_steps body
  | right => exact moveRight_steps body
  | wordFwd => exact moveWordFwd_steps body
  | wordBwd => exact moveWordBwd_steps body
  | lineStart => exact moveLineStart_steps body
  | lineEnd => exact moveLineEnd_steps body
  | fileEnd => exact moveFileEnd_steps body
  | pageUp => exact (pageUp_steps body fits).visible
  | pageDown => exact (pageDown_steps body fits).visible

end Motions

end Zenbite.Edit
