import Mathlib.Data.List.GetD
import Mathlib.Data.List.TakeWhile
import Zenbite.Edit.Primitives

/-! Which keys keep the buffer tidy: undo and redo, files, and the step of one key. -/

namespace Zenbite.Edit

section
variable {s t : Ed}

/-- The invariant does not read the other fields. -/
theorem Body.same (body : Body s) (lines : t.lines = s.lines) (count : t.lineCount = s.lineCount)
    (row : t.curRow = s.curRow) (col : t.curCol = s.curCol) (undo : t.undo = s.undo)
    (pos : t.undopos = s.undopos) (view : t.viewOff = s.viewOff) : Body t where
  low := count ▸ body.low
  high := count ▸ body.high
  rowLow := row ▸ body.rowLow
  rowHigh := by rw [row, count]; exact body.rowHigh
  colLow := col ▸ body.colLow
  colHigh := by rw [col, row, Ed.len, lines]; exact body.colHigh
  fine := by rw [lines, count]; exact body.fine
  entries := undo ▸ body.entries
  pos := by rw [pos, undo]; exact body.pos
  view := view ▸ body.view

theorem Body.setMode (body : Body s) (mode : Mode) : Body (s.setMode mode) :=
  body.same rfl rfl rfl rfl rfl rfl rfl

/-! Undo and redo. -/

theorem swapLine_edited (body : Body s) {row : Int} (place : 0 ≤ row ∧ row < s.lineCount)
    {text : Text} (fine : Fine text) : Edited s (s.swapLine row text) :=
  (body.rewritten row 0 place (fine.take lineMax) ⟨Int.le_refl 0, Int.natCast_nonneg _⟩).touch true s.vColSave

theorem dropLine_edited (body : Body s) (row : Int) (left : 1 < s.lineCount) :
    Edited s (s.dropLine row) := by
  have rowLow := body.rowLow
  have rowHigh := body.rowHigh
  exact body.closed row 1 _ 0 (by decide) left ⟨by omega, by omega⟩
    ⟨Int.le_refl 0, Int.natCast_nonneg _⟩

theorem bringLine_edited (body : Body s) {row : Int} (place : 0 ≤ row ∧ row ≤ s.lineCount)
    (room : s.lineCount < maxLines) {text : Text} (fine : Fine text) :
    Edited s (s.bringLine row text) :=
  body.opened row place room (fine.take lineMax)

theorem settle_edited (body : Body s) : Edited s s.settle := by
  have rowLow := body.rowLow
  rw [Ed.settle, if_neg (by omega)]
  exact body.edited.visible

/-- An entry goes on or off the stack, with a side of it exchanged or not. -/
theorem Body.restacked (body : Body s) (pos slot : Nat) (entry : Undo)
    (high : pos ≤ s.undo.length) (tidy : 0 ≤ entry.row ∧ Fine entry.old ∧ Fine entry.new) :
    Edited s { s with undopos := pos, undo := s.undo.set slot entry } where
  toInv := ⟨body.low, body.high, body.rowLow, body.rowHigh, body.colLow, body.colHigh, body.fine⟩
  entries := by
    intro u member
    rcases List.mem_or_eq_of_mem_set member with old | new
    · exact body.entries u old
    · exact new ▸ tidy
  pos := by
    dsimp only
    rwa [List.length_set]
  view := body.view
  mode := rfl

theorem Body.repositioned (body : Body s) {pos : Nat} (high : pos ≤ s.undo.length) :
    Edited s { s with undopos := pos } where
  toInv := ⟨body.low, body.high, body.rowLow, body.rowHigh, body.colLow, body.colHigh, body.fine⟩
  entries := body.entries
  pos := high
  view := body.view
  mode := rfl

/-- A row comes back: there is room for it, and no gap before it. -/
def BringFits (s : Ed) (row : Int) : Prop := s.lineCount < maxLines ∧ row ≤ s.lineCount

/-- What undo asks for. -/
def UndoFits (s : Ed) : Prop :=
  ∀ pos u, s.undopos = pos + 1 → s.undo[pos]? = some u →
    match u.op with
    | .modify => u.row < s.lineCount
    | .insertLine => 1 < s.lineCount
    | .deleteLine => BringFits s u.row

/-- What redo asks for. -/
def RedoFits (s : Ed) : Prop :=
  ∀ u, s.undo[s.undopos]? = some u →
    match u.op with
    | .modify => u.row < s.lineCount
    | .insertLine => BringFits s u.row
    | .deleteLine => 1 < s.lineCount

theorem doUndo_edited (body : Body s) (fits : UndoFits s) : Edited s s.doUndo := by
  rw [Ed.doUndo]
  split
  · exact body.edited
  next pos last =>
    split
    · exact body.edited
    next u found =>
      have tidy := body.entries u (List.mem_of_getElem? found)
      have bound := body.pos
      have back : Edited s { s with undopos := pos } := body.repositioned (by omega)
      have fits := fits pos u last found
      obtain ⟨op, row, old, new⟩ := u
      cases op with
      | modify =>
          have here := (body.fine row tidy.1 fits).take lineMax
          have swapped := body.restacked pos pos ⟨.modify, row, (s.lines row).take lineMax, new⟩
            (by omega) ⟨tidy.1, here, tidy.2.2⟩
          have rewritten := swapped.trans (swapLine_edited swapped.toBody ⟨tidy.1, fits⟩ tidy.2.1)
          exact rewritten.trans (settle_edited rewritten.toBody)
      | insertLine =>
          have dropped := back.trans (dropLine_edited back.toBody row fits)
          exact dropped.trans (settle_edited dropped.toBody)
      | deleteLine =>
          have brought := back.trans (bringLine_edited back.toBody ⟨tidy.1, fits.2⟩ fits.1 tidy.2.1)
          exact brought.trans (settle_edited brought.toBody)

theorem doRedo_edited (body : Body s) (fits : RedoFits s) : Edited s s.doRedo := by
  rw [Ed.doRedo]
  split
  · exact body.edited
  next u found =>
    have tidy := body.entries u (List.mem_of_getElem? found)
    have inside := (List.getElem?_eq_some_iff.mp found).1
    have onward : Edited s { s with undopos := s.undopos + 1 } := body.repositioned inside
    have fits := fits u found
    obtain ⟨op, row, old, new⟩ := u
    cases op with
    | modify =>
        have here := (body.fine row tidy.1 fits).take lineMax
        have swapped := body.restacked (s.undopos + 1) s.undopos
          ⟨.modify, row, old, (s.lines row).take lineMax⟩ inside ⟨tidy.1, tidy.2.1, here⟩
        have rewritten := swapped.trans (swapLine_edited swapped.toBody ⟨tidy.1, fits⟩ tidy.2.2)
        exact rewritten.trans (settle_edited rewritten.toBody)
    | insertLine =>
        have brought := onward.trans
          (bringLine_edited onward.toBody ⟨tidy.1, fits.2⟩ fits.1 tidy.2.2)
        exact brought.trans (settle_edited brought.toBody)
    | deleteLine =>
        have dropped := onward.trans (dropLine_edited onward.toBody row fits)
        exact dropped.trans (settle_edited dropped.toBody)

/-! The clipboard, the search and files. -/

/-- `p` takes the clipboard for one line. -/
def PasteFits (s : Ed) : Prop :=
  s.clip ≠ [] → s.lineCount < maxLines → 10 ∉ Ed.pastedLine s.clip

theorem pastedLine_fine {clip : Text} (single : 10 ∉ Ed.pastedLine clip) :
    Fine (Ed.pastedLine clip) := by
  constructor
  · exact Nat.le_trans (List.takeWhile_sublist _).length_le (List.length_take_le _ _)
  · intro b member
    refine ⟨?_, fun newline => single (newline ▸ member)⟩
    simpa using List.mem_takeWhile_imp member

theorem paste_edited (body : Body s) (fits : PasteFits s) : Edited s s.paste := by
  have rowLow := body.rowLow
  have rowHigh := body.rowHigh
  rw [Ed.paste]
  split
  · exact body.edited
  next full =>
    split
    next room =>
      have opened := body.opened (s.curRow + 1) ⟨by omega, by omega⟩ room
        (pastedLine_fine (fits full room))
      exact (opened.touch true s.vColSave).visible
    · exact body.edited

theorem findIn_lt {pat line : Text} {col : Nat} (found : findIn pat line = some col) :
    col < line.length := by
  induction line generalizing col with
  | nil => cases found
  | cons c rest ih =>
      rw [findIn] at found
      split at found
      · cases found
        exact Nat.zero_lt_succ _
      · obtain ⟨k, later, rfl⟩ := Option.map_eq_some_iff.mp found
        exact Nat.succ_lt_succ (ih later)

theorem searchRow_inside (body : Body s) {k : Nat} (round : (k : Int) < s.lineCount) :
    0 ≤ s.searchRow k ∧ s.searchRow k < s.lineCount := by
  have low := body.low
  have rowLow := body.rowLow
  rw [Ed.searchRow]
  have sum : 0 ≤ s.curRow + (k + 1) * (if s.searchForward then 1 else -1) + s.lineCount := by
    split <;> omega
  exact ⟨Int.tmod_nonneg _ sum, Int.tmod_lt_of_pos _ (by omega)⟩

theorem searchNext_edited (body : Body s) : Edited s s.searchNext := by
  rw [Ed.searchNext]
  split
  · exact body.edited
  · dsimp only
    split
    · exact body.edited
    next row col hit =>
      obtain ⟨k, round, found⟩ := List.exists_of_findSome?_eq_some hit
      obtain ⟨col', inside, same⟩ := Option.map_eq_some_iff.mp found
      obtain ⟨rfl, rfl⟩ := Prod.mk.inj same
      have high := findIn_lt inside
      have rows := searchRow_inside body (k := k) (by rw [List.mem_range] at round; omega)
      have went := body.goTo _ (col' : Int) rows ⟨Int.natCast_nonneg _, by rw [Ed.len]; omega⟩
      exact went.saveCol.visible.edited body

theorem loadRow_fine (room : Nat) (data : List UInt8) :
    (loadRow room data).1.length ≤ room ∧ 10 ∉ (loadRow room data).1 := by
  induction data generalizing room with
  | nil =>
      rw [loadRow]
      exact ⟨Nat.zero_le _, List.not_mem_nil⟩
  | cons c rest ih =>
      rw [loadRow]
      split
      · exact ⟨Nat.zero_le _, List.not_mem_nil⟩
      next stop =>
        split
        · exact ih room
        · have later := ih (room - 1)
          refine ⟨?_, ?_⟩
          · rw [List.length_cons]
            omega
          · rw [List.mem_cons]
            rintro (newline | member)
            · exact stop (.inr newline.symm)
            · exact later.2 member

theorem loadRows_fine {n : Nat} {data : List UInt8} : ∀ row ∈ loadRows n data, Fine row := by
  induction n generalizing data with
  | zero => exact fun _ member => absurd member List.not_mem_nil
  | succ n ih =>
      intro row member
      rw [loadRows] at member
      split at member
      · exact absurd member List.not_mem_nil
      · have first := loadRow_fine lineMax data
        rcases List.mem_cons.mp member with here | later
        · rw [here]
          refine ⟨Nat.le_trans (List.takeWhile_sublist _).length_le first.1, ?_⟩
          intro b inside
          refine ⟨by simpa using List.mem_takeWhile_imp inside, ?_⟩
          exact fun newline => first.2 (newline ▸ (List.takeWhile_sublist _).subset inside)
        · exact ih row later

theorem loadRows_length (n : Nat) (data : List UInt8) : (loadRows n data).length ≤ n := by
  induction n generalizing data with
  | zero => exact Nat.le_refl 0
  | succ n ih =>
      rw [loadRows]
      split
      · exact Nat.zero_le _
      · exact Nat.succ_le_succ (ih _)

theorem loadRows_some {n : Nat} {data : List UInt8} (rows : 0 < n) (bytes : data ≠ []) :
    0 < (loadRows n data).length := by
  cases n with
  | zero => cases rows
  | succ n =>
      rw [loadRows, if_neg bytes]
      exact Nat.zero_lt_succ _

/-- A file that has bytes. -/
def Loaded.Holds (load : Loaded) : Prop :=
  match load with
  | .bytes data => data ≠ []
  | _ => False

theorem editFile_edited (path : Text) {load : Loaded} (holds : load.Holds) (s : Ed) :
    Edited s (s.editFile path load) := by
  cases load with
  | missing => exact holds.elim
  | unreadable => exact holds.elim
  | bytes data =>
      have length := loadRows_length maxLines.toNat (data.take scratchMax)
      have bytes : data.take scratchMax ≠ [] := by
        intro none
        rcases List.take_eq_nil_iff.mp none with zero | empty
        · exact absurd zero (by decide)
        · exact holds empty
      have rows := loadRows_some (n := maxLines.toNat) (by decide) bytes
      refine ⟨⟨⟨?_, ?_, Int.le_refl 0, ?_, Int.le_refl 0, len_nonneg _ _, ?_⟩, ⟨?_, Nat.le_refl 0⟩,
        Int.le_refl 0⟩, rfl⟩
      · show 1 ≤ ((loadRows _ _).length : Int)
        omega
      · show ((loadRows _ _).length : Int) ≤ maxLines
        have limit : (maxLines.toNat : Int) = maxLines := by decide
        omega
      · show 0 < ((loadRows _ _).length : Int)
        omega
      · intro i low high
        dsimp only [Ed.editFile, Ed.loadFile] at high ⊢
        rw [if_pos ⟨low, high⟩, List.getD_eq_getElem _ _ (by omega)]
        exact loadRows_fine _ (List.getElem_mem _)
      · exact fun _ member => absurd member List.not_mem_nil

/-! One key. -/

/-- What the commands ask for. -/
def Command.Fits (s : Ed) : Command → Prop
  | .openBelow | .openAbove => s.lineCount < maxLines
  | .undo => UndoFits s
  | .redo => RedoFits s
  | .paste => PasteFits s
  | _ => True

/-- `:e` is refused or finds a file that has bytes. -/
def ExecFits (disk : Disk) (cmd : ExCmd) (s : Ed) : Prop :=
  ∀ file, cmd.file = some file → file ≠ [] → (s.dirty = true → cmd.force = true) → disk.load.Holds

/-- The keys that keep the buffer tidy: no row comes into a full buffer or beyond its end,
the last row does not go, a page is turned to a row that reaches as far as the cursor's
column, the clipboard is one line, and `:e` finds a file that has bytes. -/
def Careful (disk : Disk) (c : Nat) (s : Ed) : Prop :=
  match s.mode with
  | .normal =>
    match Motion.ofKey c with
    | some motion => motion.Fits s
    | none => (Command.ofKey c).Fits s
  | .insert _ _ =>
    (isEnter c → s.lineCount < maxLines) ∧ (c = kbPgUp → PageUpFits s) ∧ (c = kbPgDn → PageDownFits s)
  | .visual => ∀ motion, Motion.ofKey c = some motion → motion.Fits s
  | .cmdline typed => isEnter c → ExecFits disk (ExCmd.parse typed) s
  | _ => True

theorem Edited.tidyNormal (edited : Edited s t) (normal : s.mode = .normal) : Tidy t where
  toBody := edited.toBody
  mode := by
    rw [ModeTidy, edited.mode, normal]
    trivial

theorem Edited.tidyInsert (edited : Edited s t) {row0 : Int} {save : Text}
    (insert : s.mode = .insert row0 save) (fine : Fine save) : Tidy t where
  toBody := edited.toBody
  mode := by
    rw [ModeTidy, edited.mode, insert]
    exact fine

theorem enterInsert_tidy (body : Body s) : Tidy s.enterInsert where
  toBody := body.setMode _
  mode := body.here.take lineMax

theorem command_tidy (body : Body s) (normal : s.mode = .normal) {cmd : Command}
    (fits : cmd.Fits s) : ∃ t, s.command cmd = some t ∧ Tidy t := by
  have low := body.low
  have rowLow := body.rowLow
  have rowHigh := body.rowHigh
  cases cmd with
  | waitG => exact ⟨_, rfl, body.setMode .normalG, trivial⟩
  | lineStart => exact ⟨_, rfl, ((moveLineStart_steps body).edited body).tidyNormal normal⟩
  | lineEnd => exact ⟨_, rfl, ((moveLineEnd_steps body).edited body).tidyNormal normal⟩
  | insert => exact ⟨_, rfl, enterInsert_tidy body⟩
  | append =>
      refine ⟨_, rfl, enterInsert_tidy ?_⟩
      split
      next moves =>
        have stepped := body.goTo s.curRow (s.curCol + 1) ⟨rowLow, rowHigh⟩
          ⟨by have := body.colLow; omega, by omega⟩
        exact (stepped.edited body).toBody
      · exact body
  | insertStart => exact ⟨_, rfl, enterInsert_tidy ((moveLineStart_steps body).edited body).toBody⟩
  | appendEnd => exact ⟨_, rfl, enterInsert_tidy ((moveLineEnd_steps body).edited body).toBody⟩
  | openBelow => exact ⟨_, rfl, enterInsert_tidy (openLine_edited body ⟨by omega, by omega⟩ fits).toBody⟩
  | openAbove => exact ⟨_, rfl, enterInsert_tidy (openLine_edited body ⟨rowLow, by omega⟩ fits).toBody⟩
  | deleteChar =>
      obtain ⟨t, done, edited⟩ := deleteChar_edited body
      exact ⟨t, by rw [Ed.command, if_pos (by omega), done], edited.tidyNormal normal⟩
  | backspace =>
      obtain ⟨t, done, edited⟩ := backspaceChar_edited body
      exact ⟨t, by rw [Ed.command, if_pos (by omega), done], edited.tidyNormal normal⟩
  | waitD => exact ⟨_, rfl, body.setMode .normalD, trivial⟩
  | deleteToEol =>
      exact ⟨_, by rw [Ed.command, if_pos (by omega)], (deleteToEol_edited body).tidyNormal normal⟩
  | undo => exact ⟨_, rfl, (doUndo_edited body fits).tidyNormal normal⟩
  | redo => exact ⟨_, rfl, (doRedo_edited body fits).tidyNormal normal⟩
  | visual =>
      exact ⟨_, rfl, body.same rfl rfl rfl rfl rfl rfl rfl, rowLow, rowHigh, body.colLow, body.colHigh⟩
  | cmdline => exact ⟨_, rfl, body.setMode (.cmdline []), trivial⟩
  | search forward => exact ⟨_, rfl, body.same rfl rfl rfl rfl rfl rfl rfl, trivial⟩
  | searchNext => exact ⟨_, rfl, (searchNext_edited body).tidyNormal normal⟩
  | waitY => exact ⟨_, rfl, body.setMode .normalY, trivial⟩
  | yankToEol =>
      refine ⟨_, rfl, Edited.tidyNormal (s := s) ?_ normal⟩
      rw [Ed.yankToEol, if_pos (by omega)]
      exact ⟨body.same rfl rfl rfl rfl rfl rfl rfl, rfl⟩
  | paste => exact ⟨_, rfl, (paste_edited body fits).tidyNormal normal⟩
  | enter => exact ⟨_, rfl, ((moveDown_steps body).edited body).tidyNormal normal⟩
  | nothing => exact ⟨_, rfl, body.edited.tidyNormal normal⟩

theorem leaveInsert_tidy (body : Body s) {row0 : Int} {save : Text} (fine : Fine save) :
    Tidy (s.leaveInsert row0 save) where
  toBody := by
    rw [Ed.leaveInsert]
    refine Body.setMode ?_ .normal
    split
    next place =>
      exact (body.edited.pushed place.1 fine (body.fine row0 place.1 place.2) .modify).toBody
    · exact body
  mode := trivial

theorem printable_text {c : Nat} (printable : isPrintable c) :
    UInt8.ofNat c ≠ 0 ∧ UInt8.ofNat c ≠ 10 := by
  have value : (UInt8.ofNat c).toNat = c := by
    have high := printable.2
    rw [UInt8.toNat_ofNat']
    omega
  have low := printable.1
  constructor
  · intro zero
    rw [zero] at value
    have : (0 : UInt8).toNat = 0 := rfl
    omega
  · intro newline
    rw [newline] at value
    have : (10 : UInt8).toNat = 10 := rfl
    omega

/-- A branch of a key's chain of tests. -/
theorem branch_tidy {p : Prop} [Decidable p] {a b : Option Ed}
    (yes : p → ∃ t, a = some t ∧ Tidy t) (no : ∃ t, b = some t ∧ Tidy t) :
    ∃ t, (if p then a else b) = some t ∧ Tidy t := by
  by_cases h : p
  · rw [if_pos h]
    exact yes h
  · rw [if_neg h]
    exact no

theorem insertKey_tidy (body : Body s) {row0 : Int} {save : Text}
    (insert : s.mode = .insert row0 save) (fine : Fine save) {c : Nat}
    (room : isEnter c → s.lineCount < maxLines) (up : c = kbPgUp → PageUpFits s)
    (down : c = kbPgDn → PageDownFits s) : ∃ t, s.insertKey row0 save c = some t ∧ Tidy t := by
  have moved : ∀ {t}, Steps s t → ∃ u, some t = some u ∧ Tidy u :=
    fun steps => ⟨_, rfl, (steps.edited body).tidyInsert insert fine⟩
  have edited : ∀ {r : Option Ed}, (∃ t, r = some t ∧ Edited s t) → ∃ t, r = some t ∧ Tidy t :=
    fun ⟨t, done, edited⟩ => ⟨t, done, edited.tidyInsert insert fine⟩
  unfold Ed.insertKey
  apply branch_tidy fun _ => ⟨_, rfl, leaveInsert_tidy body fine⟩
  apply branch_tidy
  · intro enter
    obtain ⟨t, done, split⟩ := splitLine_edited body (room enter)
    exact ⟨_, by rw [done]; rfl, split.toBody.setMode (.insert t.curRow save), fine⟩
  apply branch_tidy fun _ => edited (backspaceChar_edited body)
  apply branch_tidy fun _ => moved (moveLeft_steps body)
  apply branch_tidy fun _ => moved (moveRight_steps body)
  apply branch_tidy fun _ => moved (moveUp_steps body)
  apply branch_tidy fun _ => moved (moveDown_steps body)
  apply branch_tidy fun _ => moved (moveLineStart_steps body)
  apply branch_tidy fun _ => moved (moveLineEnd_steps body)
  apply branch_tidy fun _ => edited (deleteChar_edited body)
  apply branch_tidy fun pgUp => moved (pageUp_steps body (up pgUp))
  apply branch_tidy fun pgDn => moved (pageDown_steps body (down pgDn))
  apply branch_tidy fun printable => edited (insertChar_edited body (printable_text printable))
  exact ⟨s, rfl, body.edited.tidyInsert insert fine⟩

theorem visualKey_tidy (tidy : Tidy s) (visual : s.mode = .visual) {c : Nat}
    (fits : ∀ motion, Motion.ofKey c = some motion → motion.Fits s) :
    ∃ t, s.visualKey c = some t ∧ Tidy t := by
  have body := tidy.toBody
  have anchor : 0 ≤ s.vArow ∧ s.vArow < s.lineCount ∧ 0 ≤ s.vAcol ∧ s.vAcol ≤ s.len s.vArow := by
    have mode := tidy.mode
    rwa [ModeTidy, visual] at mode
  unfold Ed.visualKey
  split
  next motion moves => exact ⟨_, rfl, (motion.apply_steps body (fits motion moves)).tidy tidy⟩
  · apply branch_tidy fun _ => ⟨_, rfl, body.setMode .visualG, anchor⟩
    apply branch_tidy
    · intro _
      obtain ⟨t, done, edited⟩ := visualDelete_edited body anchor
      exact ⟨_, by rw [done]; rfl, edited.toBody.setMode .normal, trivial⟩
    apply branch_tidy fun _ => ⟨_, rfl, body.setMode .normal, trivial⟩
    exact ⟨s, rfl, tidy⟩

theorem exec_tidy (body : Body s) (normal : s.mode = .normal) {disk : Disk} {cmd : ExCmd}
    (fits : ExecFits disk cmd s) : Tidy (s.exec disk cmd) := by
  have stays := body.edited.tidyNormal normal
  rw [Ed.exec]
  split
  next file named =>
    split
    · exact stays
    next goes =>
      have forced : s.dirty = true → cmd.force = true := by
        intro dirty
        by_contra no
        exact goes (.inr ⟨dirty, by simpa using no⟩)
      have holds := fits file named (fun empty => goes (.inl empty)) forced
      exact (editFile_edited file holds s).tidyNormal normal
  · split
    · exact stays
    have written : Edited s (if cmd.write then { s with dirty := false } else s) := by
      split
      · exact body.edited.touch false s.vColSave
      · exact body.edited
    generalize (if cmd.write then { s with dirty := false } else s) = saved at written
    dsimp only
    split
    · exact written.tidyNormal normal
    · exact ⟨written.toBody.setMode .done, trivial⟩

theorem key_tidy (disk : Disk) (c : Nat) (s : Ed) (tidy : Tidy s) (careful : Careful disk c s) :
    ∃ t, s.key disk c = some t ∧ Tidy t := by
  have body := tidy.toBody
  have mode := tidy.mode
  unfold Careful at careful
  unfold Ed.key
  unfold ModeTidy at mode
  cases at_ : s.mode with
  | normal =>
      rw [at_] at careful
      unfold Ed.normalKey
      cases motion : Motion.ofKey c with
      | some motion_ =>
          dsimp only at careful
          rw [motion] at careful
          exact ⟨_, rfl, (motion_.apply_steps body careful).tidy tidy⟩
      | none =>
          dsimp only at careful
          rw [motion] at careful
          exact command_tidy body at_ careful
  | normalG =>
      refine ⟨_, rfl, Body.setMode ?_ .normal, trivial⟩
      split
      · exact ((moveFileStart_steps body).edited body).toBody
      · exact body
  | normalD =>
      refine ⟨_, rfl, Body.setMode ?_ .normal, trivial⟩
      split
      · exact (deleteLine_edited body).toBody
      · exact body
  | normalY =>
      refine ⟨_, rfl, Body.setMode ?_ .normal, trivial⟩
      split
      · rw [Ed.yankLine, if_pos (by have := body.low; omega)]
        exact body.same rfl rfl rfl rfl rfl rfl rfl
      · exact body
  | insert row0 save =>
      rw [at_] at careful mode
      exact insertKey_tidy body at_ mode careful.1 careful.2.1 careful.2.2
  | visual =>
      rw [at_] at careful
      exact visualKey_tidy tidy at_ careful
  | visualG =>
      rw [at_] at mode
      refine ⟨_, rfl, Body.setMode ?_ .visual, ?_⟩
      · split
        · exact ((moveFileStart_steps body).edited body).toBody
        · exact body
      · split <;> exact mode
  | cmdline typed =>
      rw [at_] at careful
      dsimp only
      split
      · exact ⟨_, rfl, body.setMode .normal, trivial⟩
      split
      next enter =>
        exact ⟨_, rfl, exec_tidy (body.setMode .normal) rfl (careful enter)⟩
      · exact ⟨_, rfl, body.setMode _, trivial⟩
  | search typed =>
      dsimp only
      split
      · exact ⟨_, rfl, body.setMode .normal, trivial⟩
      split
      · have found : Body { s with searchPat := typed, mode := .normal } :=
          body.same rfl rfl rfl rfl rfl rfl rfl
        exact ⟨_, rfl, (searchNext_edited found).tidyNormal rfl⟩
      · exact ⟨_, rfl, body.setMode _, trivial⟩
  | done => exact ⟨s, rfl, tidy⟩

/-- The empty line that edit_main gives to an empty buffer. -/
theorem blank_body (top : s.curRow = 0 ∧ s.curCol = 0 ∧ s.viewOff = 0)
    (fresh : s.undo = [] ∧ s.undopos = 0) : Body { s.setLine 0 [] with lineCount := 1 } where
  low := Int.le_refl 1
  high := show (1 : Int) ≤ maxLines by decide
  rowLow := Int.le_of_eq top.1.symm
  rowHigh := show s.curRow < 1 by omega
  colLow := Int.le_of_eq top.2.1.symm
  colHigh := top.2.1 ▸ len_nonneg _ _
  fine := by
    intro i low high
    have only : i = 0 := by dsimp only at high; omega
    rw [only]
    show Fine (Function.update s.lines 0 [] 0)
    rw [Function.update_self]
    exact Fine.nil
  entries := by
    show ∀ u ∈ s.undo, _
    rw [fresh.1]
    exact fun _ member => absurd member List.not_mem_nil
  pos := show s.undopos ≤ s.undo.length by omega
  view := Int.le_of_eq top.2.2.symm

/-- The editor starts on a tidy buffer, whatever file it opens. -/
theorem editMain_tidy {path : Text} {load : Loaded} {prev s : Ed}
    (opened : Ed.editMain path load prev = some s) : Tidy s := by
  have start : ∀ t : Ed, t.curRow = 0 ∧ t.curCol = 0 ∧ t.viewOff = 0 → t.undo = [] ∧ t.undopos = 0 →
      (t.lineCount ≠ 0 → Body t) →
      Tidy ((if t.lineCount = 0 then { t.setLine 0 [] with lineCount := 1 } else t).setMode .normal) := by
    intro t top fresh loaded
    refine ⟨Body.setMode ?_ .normal, trivial⟩
    split
    · exact blank_body top fresh
    next rows => exact loaded rows
  cases load with
  | unreadable => cases opened
  | missing =>
      obtain rfl := Option.some.inj opened
      exact start _ ⟨rfl, rfl, rfl⟩ ⟨rfl, rfl⟩ fun rows => absurd rfl rows
  | bytes data =>
      obtain rfl := Option.some.inj opened
      refine start _ ⟨rfl, rfl, rfl⟩ ⟨rfl, rfl⟩ fun rows => ?_
      have holds : (Loaded.bytes data).Holds := by
        rintro rfl
        exact rows rfl
      exact (editFile_edited path holds _).toBody

/-- A key with the answers of the file system to it. -/
abbrev Key := Disk × Nat

def press (key : Key) (s : Ed) : Option Ed := s.key key.1 key.2

/-- From the opened file on, careful keys keep the invariant. -/
theorem keys_keep_inv {path : Text} {load : Loaded} {prev s : Ed}
    (opened : Ed.editMain path load prev = some s) (keys : List Key)
    (careful : Runs.EachSome press (fun key => Careful key.1 key.2) keys s) :
    ∃ t, Runs.runSome press keys s = some t ∧ Inv t := by
  have keeps : ∀ (key : Key) (s : Ed), Tidy s → Careful key.1 key.2 s →
      ∃ t, press key s = some t ∧ Tidy t := fun key s => key_tidy key.1 key.2 s
  have run := careful.run keeps (editMain_tidy opened)
  obtain ⟨t, ran, tidy⟩ := run
  exact ⟨t, ran, tidy.toInv⟩

end

/-- The editor before it runs. -/
def Ed.initial : Ed where
  lines := fun _ => []
  lineCount := 0
  dirty := false
  filepath := []
  curRow := 0
  curCol := 0
  viewOff := 0
  vColSave := 0
  mode := .normal
  vArow := 0
  vAcol := 0
  undo := []
  undopos := 0
  searchPat := []
  searchForward := false
  clip := []

def noDisk : Disk := ⟨.missing, false⟩

/-- `o` and ESC in a new file. -/
theorem keys_keep_inv_open : ∃ t, (Ed.editMain [97] .missing .initial).bind
    (Runs.runSome press [(noDisk, 'o'.toNat), (noDisk, esc)]) = some t ∧ Inv t := by
  have opened : Ed.editMain [97] .missing .initial = some _ := rfl
  refine keys_keep_inv opened [(noDisk, 'o'.toNat), (noDisk, esc)] ⟨?_, ?_⟩
  · show (1 : Int) < maxLines
    decide
  · intro t stepped
    obtain rfl := Option.some.inj stepped
    exact ⟨⟨fun enter => absurd enter (by decide), fun up => absurd up (by decide),
      fun down => absurd down (by decide)⟩, fun _ _ => trivial⟩

/-- On the lines "ab" and "", `$` and PgDn leave the cursor behind the end of the second. -/
theorem pageDown_past_end : ¬ ∀ (path : Text) (load : Loaded) (prev s : Ed),
    Ed.editMain path load prev = some s → ∀ keys : List Key,
    ∃ t, Runs.runSome press keys s = some t ∧ Inv t := by
  intro claim
  obtain ⟨t, ran, inv⟩ := claim [97] (.bytes [97, 98, 10, 10]) .initial _ rfl
    [(noDisk, '$'.toNat), (noDisk, kbPgDn)]
  obtain rfl := Option.some.inj ran
  exact absurd inv.colHigh (by decide)

end Zenbite.Edit
