import Mathlib.Tactic.Common
import Zenbite.Lib.Runs

/-! The editor (edit.c): its statics, movement and the editing primitives. A row of
`lines` is the text before its NUL. -/

namespace Zenbite.Edit

abbrev Text := List UInt8

def maxLines : Int := 256
/-- MAX_LINE - 1: what fits before the NUL -/
def lineMax : Nat := 119
def maxUndo : Nat := 32
def tabStop : Int := 4

inductive UndoOp where
  | modify | insertLine | deleteLine
  deriving DecidableEq, Repr

/-- `struct undo`. -/
structure Undo where
  op : UndoOp
  row : Int
  old : Text
  new : Text
  deriving DecidableEq, Repr

/-- Where the next key is read: `mode`, and the loops and second keys of the commands
with their locals. -/
inductive Mode where
  | normal | normalG | normalD | normalY
  | insert (row0 : Int) (row0Save : Text)
  | visual | visualG
  | cmdline (typed : Text)
  | search (typed : Text)
  | done
  deriving DecidableEq, Repr

/-- The statics. `undo` is undostk up to undolen, `searchForward` says that search_dir is
1 and not -1, `clip` is the system clipboard. -/
structure Ed where
  lines : Int → Text
  lineCount : Int
  dirty : Bool
  filepath : Text
  curRow : Int
  curCol : Int
  viewOff : Int
  vColSave : Int
  mode : Mode
  vArow : Int
  vAcol : Int
  undo : List Undo
  undopos : Nat
  searchPat : Text
  searchForward : Bool
  clip : Text

namespace Ed

/-- strlen(lines[row]) -/
def len (s : Ed) (row : Int) : Int := (s.lines row).length

/-- The screen column behind a text that starts at `sc`. -/
def screenOf (text : Text) : Int :=
  text.foldl (fun sc c => if c = 9 then sc + (tabStop - sc % tabStop) else sc + 1) 0

def colToScreen (s : Ed) (row col : Int) : Int := screenOf ((s.lines row).take col.toNat)

/-- The loop of screen_to_col from screen column `sc` on. -/
def scanCol (sCol : Int) : Int → Text → Nat
  | _, [] => 0
  | sc, c :: rest =>
    if c = 9 then
      if sCol < sc + (tabStop - sc % tabStop) then 0
      else scanCol sCol (sc + (tabStop - sc % tabStop)) rest + 1
    else if sCol ≤ sc then 0
    else scanCol sCol (sc + 1) rest + 1

def screenToCol (s : Ed) (row sCol : Int) : Int := scanCol sCol 0 (s.lines row)

def ensureVisible (s : Ed) : Ed :=
  let off := if s.curRow < s.viewOff then s.curRow
    else if s.viewOff + 23 ≤ s.curRow then s.curRow - 22
    else s.viewOff
  { s with viewOff := if off < 0 then 0 else off }

/-- `v_col_save = col_to_screen(cur_row, cur_col);` -/
def saveCol (s : Ed) : Ed := { s with vColSave := s.colToScreen s.curRow s.curCol }

/-! Movement. -/

def moveLeft (s : Ed) : Ed :=
  let s := if 0 < s.curCol then { s with curCol := s.curCol - 1 }
    else if 0 < s.curRow then { s with curRow := s.curRow - 1, curCol := s.len (s.curRow - 1) }
    else s
  let s := if s.curRow < 0 then { s with curRow := 0 } else s
  s.saveCol.ensureVisible

def moveRight (s : Ed) : Ed :=
  let s := if s.curCol < s.len s.curRow then { s with curCol := s.curCol + 1 }
    else if s.curRow + 1 < s.lineCount then { s with curRow := s.curRow + 1, curCol := 0 }
    else s
  s.saveCol.ensureVisible

/-- The part that move_up and move_down share. -/
def landOn (s : Ed) (row : Int) : Ed :=
  { s with curRow := row, curCol := min (s.screenToCol row s.vColSave) (s.len row) }.ensureVisible

def moveUp (s : Ed) : Ed := if s.curRow ≤ 0 then s else s.landOn (s.curRow - 1)

def moveDown (s : Ed) : Ed :=
  if s.lineCount ≤ s.curRow + 1 then s else s.landOn (s.curRow + 1)

def isBlank (c : UInt8) : Bool := c == 32

def moveWordFwd (s : Ed) : Ed :=
  if s.len s.curRow ≤ s.curCol then
    if s.curRow + 1 < s.lineCount then { s with curRow := s.curRow + 1, curCol := 0 } else s
  else
    let rest := (s.lines s.curRow).drop s.curCol.toNat
    let word := (rest.takeWhile (!isBlank ·)).length
    let blanks := ((rest.dropWhile (!isBlank ·)).takeWhile isBlank).length
    { s with curCol := s.curCol + word + blanks }.saveCol.ensureVisible

/-- `while (cur_col > 0 && line[cur_col] == ' ') cur_col--;` -/
def backBlanks (line : Text) : Nat → Nat
  | 0 => 0
  | n + 1 => if isBlank (line.getD (n + 1) 0) then backBlanks line n else n + 1

/-- `while (cur_col > 0 && line[cur_col - 1] != ' ') cur_col--;` -/
def backWord (line : Text) : Nat → Nat
  | 0 => 0
  | n + 1 => if !isBlank (line.getD n 0) then backWord line n else n + 1

def moveWordBwd (s : Ed) : Ed :=
  if s.curCol ≤ 0 then
    if 0 < s.curRow then { s with curRow := s.curRow - 1, curCol := s.len (s.curRow - 1) } else s
  else
    let line := s.lines s.curRow
    { s with curCol := backWord line (backBlanks line (s.curCol - 1).toNat) }.saveCol.ensureVisible

def moveLineStart (s : Ed) : Ed := { s with curCol := 0, vColSave := 0 }

def moveLineEnd (s : Ed) : Ed := { s with curCol := s.len s.curRow }.saveCol

def moveFileStart (s : Ed) : Ed := { s with curRow := 0, curCol := 0, viewOff := 0, vColSave := 0 }

def moveFileEnd (s : Ed) : Ed :=
  let row := if s.lineCount - 1 < 0 then 0 else s.lineCount - 1
  { s with curRow := row, curCol := s.len row }.ensureVisible.saveCol

/-- KB_PGUP; insert mode leaves out ensure_visible. -/
def pageUp (s : Ed) : Ed :=
  let off := if s.viewOff - 22 < 0 then 0 else s.viewOff - 22
  { s with viewOff := off, curRow := off }

/-- KB_PGDN. -/
def pageDown (s : Ed) : Ed :=
  let off := if s.lineCount - 1 < s.viewOff + 22 then max 0 (s.lineCount - 1) else s.viewOff + 22
  { s with viewOff := off, curRow := min (off + 22) (s.lineCount - 1) }

/-! Undo. -/

def setLine (s : Ed) (row : Int) (text : Text) : Ed :=
  { s with lines := Function.update s.lines row text }

/-- The loop that moves the rows from `row` on down by one. -/
def openedRows (lines : Int → Text) (row count : Int) : Int → Text :=
  fun i => if row < i ∧ i ≤ count then lines (i - 1) else lines i

/-- The loop that moves the rows behind `row .. row + n - 1` up by `n`. -/
def closedRows (lines : Int → Text) (row n count : Int) : Int → Text :=
  fun i => if row ≤ i ∧ i + n < count then lines (i + n) else lines i

def pushUndo (op : UndoOp) (row : Int) (old new : Text) (s : Ed) : Ed :=
  let kept := s.undo.take s.undopos
  let kept := if maxUndo ≤ kept.length then kept.drop 1 else kept
  { s with
    undo := kept ++ [⟨op, row, old.take lineMax, new.take lineMax⟩]
    undopos := kept.length + 1 }

/-- An entry that swaps a row: the row takes `text`, the entry takes what was there. -/
def swapLine (s : Ed) (row : Int) (text : Text) : Ed :=
  { s.setLine row (text.take lineMax) with curRow := row, curCol := 0, dirty := true }

/-- The line of `row` goes, in do_undo and in do_redo. -/
def dropLine (s : Ed) (row : Int) : Ed :=
  let count := s.lineCount - 1
  { s with
    lines := closedRows s.lines row 1 s.lineCount
    lineCount := count
    curRow := if count ≤ s.curRow then count - 1 else s.curRow
    curCol := 0 }

/-- A line comes in at `row`, in do_undo and in do_redo. -/
def bringLine (s : Ed) (row : Int) (text : Text) : Ed :=
  { s with
    lines := Function.update (openedRows s.lines row s.lineCount) row (text.take lineMax)
    lineCount := s.lineCount + 1
    curRow := row
    curCol := 0 }

/-- The end of do_undo and do_redo. -/
def settle (s : Ed) : Ed := { s with curRow := if s.curRow < 0 then 0 else s.curRow }.ensureVisible

def doUndo (s : Ed) : Ed :=
  match s.undopos with
  | 0 => s
  | pos + 1 =>
    match s.undo[pos]? with
    | none => s
    | some u =>
      match u.op with
      | .modify =>
        let entry := { u with old := (s.lines u.row).take lineMax }
        ({ s with undopos := pos, undo := s.undo.set pos entry }.swapLine u.row u.old).settle
      | .insertLine => ({ s with undopos := pos }.dropLine u.row).settle
      | .deleteLine => ({ s with undopos := pos }.bringLine u.row u.old).settle

def doRedo (s : Ed) : Ed :=
  match s.undo[s.undopos]? with
  | none => s
  | some u =>
    let pos := s.undopos + 1
    match u.op with
    | .modify =>
      let entry := { u with new := (s.lines u.row).take lineMax }
      ({ s with undopos := pos, undo := s.undo.set s.undopos entry }.swapLine u.row u.new).settle
    | .insertLine => ({ s with undopos := pos }.bringLine u.row u.new).settle
    | .deleteLine => ({ s with undopos := pos }.dropLine u.row).settle

end Ed

end Zenbite.Edit
