import Zenbite.Edit.Inv

/-! The editing primitives on a tidy buffer. -/

namespace Zenbite.Edit

/-- A step that leaves a tidy buffer and the mode it was in. -/
structure Edited (s t : Ed) : Prop extends Body t where
  mode : t.mode = s.mode

theorem Steps.edited {s t : Ed} (steps : Steps s t) (body : Body s) : Edited s t :=
  ⟨steps.toMoved.body body steps.cursor steps.view, steps.mode⟩

theorem Edited.trans {s t u : Ed} (first : Edited s t) (second : Edited t u) : Edited s u :=
  ⟨second.toBody, second.mode.trans first.mode⟩

theorem Body.edited {s : Ed} (body : Body s) : Edited s s := ⟨body, rfl⟩

section
variable {s t : Ed}

/-- The fields that the invariant does not read. -/
theorem Edited.touch (edited : Edited s t) (dirty : Bool) (vColSave : Int) :
    Edited s { t with dirty := dirty, vColSave := vColSave } where
  toBody := Moved.body (s := t) ⟨rfl, rfl, rfl, rfl, rfl, rfl, rfl⟩ edited.toBody edited.onPage
    edited.view
  mode := edited.mode

theorem Edited.visible (edited : Edited s t) : Edited s t.ensureVisible :=
  edited.trans (edited.stays.visible.edited edited.toBody)

theorem Edited.saveCol (edited : Edited s t) : Edited s t.saveCol :=
  edited.trans (edited.stays.saveCol.edited edited.toBody)

theorem UndoTidy.pushed (tidy : UndoTidy s) {row : Int} (place : 0 ≤ row) {old new : Text}
    (before : Fine old) (after : Fine new) (op : UndoOp) : UndoTidy (s.pushUndo op row old new) where
  entries := by
    intro u member
    have old : u ∈ s.undo → 0 ≤ u.row ∧ Fine u.old ∧ Fine u.new := tidy.entries u
    rcases List.mem_append.mp member with member | member
    · refine old (List.mem_of_mem_take (i := s.undopos) ?_)
      split at member
      · exact List.mem_of_mem_drop member
      · exact member
    · rw [List.mem_singleton.mp member]
      exact ⟨place, before.take lineMax, after.take lineMax⟩
  pos := by
    show _ ≤ (_ ++ [_]).length
    rw [List.length_append]
    exact Nat.le_refl _

theorem Edited.pushed (edited : Edited s t) {row : Int} (place : 0 ≤ row) {old new : Text}
    (before : Fine old) (after : Fine new) (op : UndoOp) :
    Edited s (t.pushUndo op row old new) where
  toUndoTidy := edited.toUndoTidy.pushed place before after op
  low := edited.low
  high := edited.high
  rowLow := edited.rowLow
  rowHigh := edited.rowHigh
  colLow := edited.colLow
  colHigh := edited.colHigh
  fine := edited.fine
  view := edited.view
  mode := edited.mode

theorem Inv.here (inv : Inv s) : Fine (s.lines s.curRow) :=
  inv.fine s.curRow inv.rowLow inv.rowHigh

/-- A line gets a new text and the cursor a place in it. -/
theorem Body.rewritten (body : Body s) (row col : Int) (place : 0 ≤ row ∧ row < s.lineCount)
    {line : Text} (fine : Fine line) (column : 0 ≤ col ∧ col ≤ line.length) :
    Edited s { s.setLine row line with curRow := row, curCol := col } where
  low := body.low
  high := body.high
  rowLow := place.1
  rowHigh := place.2
  colLow := column.1
  colHigh := by
    show col ≤ ((Function.update s.lines row line row).length : Int)
    rw [Function.update_self]
    exact column.2
  fine := setLine_fine body.fine fine
  entries := body.entries
  pos := body.pos
  view := body.view
  mode := rfl

/-- A row comes in at `row` and the cursor goes to its start. -/
theorem Body.opened (body : Body s) (row : Int) (place : 0 ≤ row ∧ row ≤ s.lineCount)
    (room : s.lineCount < maxLines) {text : Text} (fine : Fine text) :
    Edited s { s with
      lines := Function.update (Ed.openedRows s.lines row s.lineCount) row text
      lineCount := s.lineCount + 1, curRow := row, curCol := 0 } where
  low := by have := body.low; dsimp only; omega
  high := by dsimp only; omega
  rowLow := place.1
  rowHigh := by have := place.2; dsimp only; omega
  colLow := Int.le_refl 0
  colHigh := len_nonneg _ _
  fine := openedRows_fine body.fine fine place.1 place.2
  entries := body.entries
  pos := body.pos
  view := body.view
  mode := rfl

/-- `n` rows go, not all of them, and the cursor goes to a row that is left. -/
theorem Body.closed (body : Body s) (row n cursor col : Int) (taken : 0 ≤ n)
    (left : n < s.lineCount) (place : 0 ≤ cursor ∧ cursor < s.lineCount - n)
    (column : 0 ≤ col ∧ col ≤ (Ed.closedRows s.lines row n s.lineCount cursor).length) :
    Edited s { s with
      lines := Ed.closedRows s.lines row n s.lineCount
      lineCount := s.lineCount - n, curRow := cursor, curCol := col } where
  low := by dsimp only; omega
  high := by have := body.high; dsimp only; omega
  rowLow := place.1
  rowHigh := place.2
  colLow := column.1
  colHigh := column.2
  fine := closedRows_fine body.fine taken
  entries := body.entries
  pos := body.pos
  view := body.view
  mode := rfl

/-- The empty line that takes the place of the last row. -/
theorem Body.emptied (body : Body s) (lines : Int → Text) (row : Int) (first : row = 0) :
    Edited s { s with
      lines := Function.update lines 0 [], lineCount := 1, curRow := row, curCol := 0 } where
  low := Int.le_refl 1
  high := show (1 : Int) ≤ maxLines by decide
  rowLow := Int.le_of_eq first.symm
  rowHigh := first ▸ Int.zero_lt_one
  colLow := Int.le_refl 0
  colHigh := len_nonneg _ _
  fine := by
    intro i low high
    have only : i = 0 := by dsimp only at high; omega
    rw [only]
    show Fine (Function.update lines 0 [] 0)
    rw [Function.update_self]
    exact Fine.nil
  entries := body.entries
  pos := body.pos
  view := body.view
  mode := rfl

/-! The primitives. -/

/-- One character of a line goes. -/
theorem Fine.cutAt {line : Text} (fine : Fine line) (c1 c2 : Int) (low : 0 ≤ c1) (order : c1 ≤ c2)
    (high : c2 < line.length) :
    ∃ rest, cut line c1 c2 = some rest ∧ Fine rest ∧ c1 ≤ rest.length := by
  refine ⟨_, cut_inside high, fine.cut_parts (by omega), ?_⟩
  rw [List.length_append, List.length_take]
  omega

/-- One character comes in. -/
theorem Fine.insertedAt {line : Text} (fine : Fine line) {col : Int}
    (high : col ≤ line.length) (room : (line.length : Int) < 118) {c : UInt8} (text : c ≠ 0 ∧ c ≠ 10) :
    ∃ longer, insertAt line col c = some longer ∧ Fine longer ∧ col + 1 ≤ longer.length := by
  have length : (line.take col.toNat ++ c :: line.drop col.toNat).length = line.length + 1 := by
    rw [List.length_append, List.length_cons, List.length_take, List.length_drop]
    omega
  refine ⟨_, insertAt_inside high c, ⟨?_, ?_⟩, by omega⟩
  · rw [length, lineMax]
    omega
  · intro b member
    rcases List.mem_append.mp member with member | member
    · exact (fine.take _).2 b member
    · rcases List.mem_cons.mp member with here | member
      · exact here ▸ text
      · exact (fine.drop _).2 b member

theorem insertChar_edited (body : Body s) {c : UInt8} (text : c ≠ 0 ∧ c ≠ 10) :
    ∃ t, s.insertChar c = some t ∧ Edited s t := by
  have colLow := body.colLow
  rw [Ed.insertChar]
  split
  · exact ⟨s, rfl, body.edited⟩
  next room =>
    rw [Ed.len] at room
    obtain ⟨longer, done, fine, long⟩ :=
      body.here.insertedAt body.colHigh (by omega) text
    have rewritten := body.rewritten s.curRow (s.curCol + 1) ⟨body.rowLow, body.rowHigh⟩ fine
      ⟨by omega, long⟩
    rw [done]
    exact ⟨_, rfl, (rewritten.touch true s.vColSave).saveCol.visible⟩

theorem deleteChar_edited (body : Body s) : ∃ t, s.deleteChar = some t ∧ Edited s t := by
  have rowLow := body.rowLow
  have colLow := body.colLow
  have colHigh := body.colHigh
  rw [Ed.deleteChar]
  dsimp only
  split
  · split
    · exact ⟨s, rfl, body.edited⟩
    next below =>
      split
      · exact ⟨s, rfl, body.edited⟩
      next short =>
        rw [Ed.len, Ed.len] at short
        have next_ := body.fine (s.curRow + 1) (by omega) (by omega)
        have joined := body.here.append next_ (by rw [lineMax]; omega)
        have rewritten := body.rewritten s.curRow s.curCol ⟨rowLow, body.rowHigh⟩ joined
          ⟨colLow, by rw [Ed.len] at colHigh; rw [List.length_append]; omega⟩
        have closed := rewritten.trans (rewritten.closed (s.curRow + 1) 1 s.curRow s.curCol (by decide)
           (by dsimp only [Ed.setLine]; omega)
          ⟨rowLow, by dsimp only [Ed.setLine]; omega⟩ ?_)
        · exact ⟨_, rfl, (closed.pushed (by omega) body.here closed.here .insertLine).touch true s.vColSave⟩
        · refine ⟨colLow, ?_⟩
          rw [Ed.closedRows, if_neg (by omega)]
          exact rewritten.colHigh
  next inLine =>
    obtain ⟨rest, done, fine, long⟩ := body.here.cutAt s.curCol s.curCol colLow (Int.le_refl s.curCol)
      (by rw [Ed.len] at inLine; omega)
    rw [done]
    have rewritten := body.rewritten s.curRow s.curCol ⟨rowLow, body.rowHigh⟩ fine ⟨colLow, long⟩
    exact ⟨_, rfl, (rewritten.pushed rowLow body.here fine .modify).touch true s.vColSave⟩

theorem backspaceChar_edited (body : Body s) : ∃ t, s.backspaceChar = some t ∧ Edited s t := by
  have rowHigh := body.rowHigh
  have colLow := body.colLow
  have colHigh := body.colHigh
  rw [Ed.backspaceChar]
  dsimp only
  split
  · split
    · exact ⟨s, rfl, body.edited⟩
    next above =>
      split
      · exact ⟨s, rfl, body.edited⟩
      next short =>
        rw [Ed.len, Ed.len] at short
        have before := body.fine (s.curRow - 1) (by omega) (by omega)
        have joined := before.append body.here (by rw [lineMax]; omega)
        have rewritten := body.rewritten (s.curRow - 1) (s.len (s.curRow - 1)) ⟨by omega, by omega⟩ joined
          ⟨len_nonneg s _, by rw [Ed.len, List.length_append]; omega⟩
        have closed := rewritten.trans (rewritten.closed s.curRow 1 (s.curRow - 1)
          (s.len (s.curRow - 1)) (by decide)
          (by dsimp only [Ed.setLine]; omega) ⟨by omega, by dsimp only [Ed.setLine]; omega⟩ ?_)
        · exact ⟨_, rfl, (closed.touch true s.vColSave).saveCol.visible⟩
        · refine ⟨len_nonneg s _, ?_⟩
          rw [Ed.closedRows, if_neg (by omega)]
          exact rewritten.colHigh
  next inLine =>
    rw [Ed.len] at colHigh
    obtain ⟨rest, done, fine, long⟩ := body.here.cutAt (s.curCol - 1) (s.curCol - 1) (by omega)
      (Int.le_refl _) (by omega)
    rw [done]
    have rewritten := body.rewritten s.curRow (s.curCol - 1) ⟨body.rowLow, rowHigh⟩ fine ⟨by omega, long⟩
    exact ⟨_, rfl, ((rewritten.pushed body.rowLow body.here fine .modify).touch true s.vColSave).saveCol⟩

theorem splitLine_edited (body : Body s) (room : s.lineCount < maxLines) :
    ∃ t, s.splitLine = some t ∧ Edited s t := by
  have rowLow := body.rowLow
  have rowHigh := body.rowHigh
  have colHigh := body.colHigh
  rw [Ed.splitLine, if_neg (by omega)]
  have first := body.rewritten s.curRow 0 ⟨rowLow, rowHigh⟩ (body.here.take s.curCol.toNat)
    ⟨Int.le_refl 0, Int.natCast_nonneg _⟩
  have rest := body.here.drop s.curCol.toNat
  have opened := first.trans (first.opened (s.curRow + 1) ⟨by omega, by dsimp only [Ed.setLine]; omega⟩
    room rest)
  exact ⟨_, rfl, ((opened.pushed (by omega) body.here rest .insertLine).touch true 0).visible⟩

theorem deleteLine_edited (body : Body s) : Edited s s.deleteLine := by
  have low := body.low
  have rowLow := body.rowLow
  have rowHigh := body.rowHigh
  have pushed := body.edited.pushed rowLow body.here Fine.nil .deleteLine
  rw [Ed.deleteLine, if_neg (by omega)]
  refine Edited.visible ?_
  by_cases last : (s.pushUndo .deleteLine s.curRow (s.lines s.curRow) []).lineCount - 1 = 0
  · have emptied := pushed.trans (pushed.emptied
      (Ed.closedRows s.lines s.curRow 1 s.lineCount) s.curRow (by dsimp only [Ed.pushUndo] at last; omega))
    rw [if_pos last]
    exact emptied.touch true 0
  · have closed := pushed.trans (pushed.closed s.curRow 1
      (if s.lineCount - 1 ≤ s.curRow then s.lineCount - 1 - 1 else s.curRow) 0 (by decide) (show 1 < s.lineCount by dsimp only [Ed.pushUndo] at last; omega)
      ⟨by dsimp only [Ed.pushUndo] at last; omega, show _ < s.lineCount - 1 by omega⟩
      ⟨Int.le_refl 0, Int.natCast_nonneg _⟩)
    rw [if_neg last]
    exact closed.touch true 0

theorem deleteToEol_edited (body : Body s) : Edited s s.deleteToEol := by
  have colHigh := body.colHigh
  rw [Ed.deleteToEol]
  split
  · exact body.edited
  next inLine =>
    have fine := body.here.take s.curCol.toNat
    have rewritten := body.rewritten s.curRow s.curCol ⟨body.rowLow, body.rowHigh⟩ fine
      ⟨body.colLow, by rw [Ed.len] at inLine; rw [List.length_take]; omega⟩
    exact (rewritten.pushed body.rowLow body.here fine .modify).touch true s.vColSave

theorem openLine_edited (body : Body s) {row : Int} (place : 0 ≤ row ∧ row ≤ s.lineCount)
    (room : s.lineCount < maxLines) : Edited s (s.openLine row) :=
  ((body.opened row place room Fine.nil).touch s.dirty 0).visible

/-- Of the selection: the rows are in order and in the buffer. -/
theorem selection_rows (body : Body s) (anchor : 0 ≤ s.vArow ∧ s.vArow < s.lineCount) :
    0 ≤ s.selection.1 ∧ s.selection.1 ≤ s.selection.2 ∧ s.selection.2 < s.lineCount := by
  have rowLow := body.rowLow
  have rowHigh := body.rowHigh
  rw [Ed.selection]
  split <;> dsimp only <;> omega

/-- A selection in one row is one of the current row. -/
theorem selection_single (single : s.selection.1 = s.selection.2) :
    s.vArow = s.curRow ∧ s.selection.1 = s.curRow := by
  rw [Ed.selection] at single ⊢
  split at single
  next forward =>
    rw [if_pos forward]
    exact ⟨single, single⟩
  next backward =>
    rw [if_neg backward]
    exact ⟨single.symm, rfl⟩

/-- The text from one column to the other goes; at the NUL nothing does. -/
theorem Fine.cutBetween {line : Text} (fine : Fine line) (c1 c2 : Int) (low : 0 ≤ c1) (order : c1 ≤ c2)
    (high : c2 ≤ line.length) :
    ∃ rest, cut line c1 c2 = some rest ∧ Fine rest ∧ c1 ≤ rest.length := by
  by_cases inside : c2 < line.length
  · exact fine.cutAt c1 c2 low order inside
  · have all : cut line c1 c2 = some line := by
      rw [cut, if_neg (by omega), if_pos (by omega)]
    exact ⟨line, all, fine, by omega⟩

theorem visualDelete_edited (body : Body s)
    (anchor : 0 ≤ s.vArow ∧ s.vArow < s.lineCount ∧ 0 ≤ s.vAcol ∧ s.vAcol ≤ s.len s.vArow) :
    ∃ t, s.visualDelete = some t ∧ Edited s t := by
  have rows := selection_rows body ⟨anchor.1, anchor.2.1⟩
  have single := selection_single (s := s)
  have rowHigh := body.rowHigh
  have colLow := body.colLow
  have colHigh := body.colHigh
  rw [Ed.visualDelete]
  generalize s.selection = sel at rows single
  obtain ⟨r1, r2⟩ := sel
  dsimp only at rows single ⊢
  split
  next same =>
    have here := single same
    rw [here.1] at anchor
    rw [here.2]
    split
    · rw [Ed.len] at anchor colHigh
      obtain ⟨rest, done, fine, long⟩ := body.here.cutBetween (min s.vAcol s.curCol)
        (max s.vAcol s.curCol) (by omega) (by omega) (by omega)
      have rewritten := body.rewritten s.curRow (min s.vAcol s.curCol) ⟨body.rowLow, rowHigh⟩ fine ⟨by omega, long⟩
      have pushed := (rewritten.pushed body.rowLow body.here fine .modify).touch true 0
      rw [done]
      exact ⟨_, rfl, Edited.visible (by rw [if_neg (by dsimp only [Ed.pushUndo, Ed.setLine]; omega)]; exact pushed)⟩
    · exact ⟨_, rfl, Edited.visible (by rw [if_neg (by omega)]; exact body.edited.touch s.dirty 0)⟩
  next several =>
    have pushed := body.edited.pushed rows.1 (body.fine r1 rows.1 (by omega)) Fine.nil .deleteLine
    refine ⟨_, rfl, Edited.visible ?_⟩
    by_cases all : s.lineCount - (r2 - r1 + 1) = 0
    · have emptied := pushed.trans (pushed.emptied
        (Ed.closedRows s.lines r1 (r2 - r1 + 1) s.lineCount)
        (if 1 ≤ r1 then 1 - 1 else r1) (by omega))
      rw [if_pos all]
      exact emptied.touch true 0
    · have closed := pushed.trans (pushed.closed r1 (r2 - r1 + 1)
        (if s.lineCount - (r2 - r1 + 1) ≤ r1 then s.lineCount - (r2 - r1 + 1) - 1 else r1) 0
        (by omega) (show _ < s.lineCount by omega) ⟨by omega, show _ < s.lineCount - _ by omega⟩
        ⟨Int.le_refl 0, Int.natCast_nonneg _⟩)
      rw [if_neg all]
      exact closed.touch true 0

end

end Zenbite.Edit
