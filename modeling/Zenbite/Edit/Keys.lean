import Zenbite.Edit.State

/-! The editor (edit.c): the editing primitives, the commands and the modes. A step
reads one key. Where the C code would call memmove or strncpy with a negative length
there is no next state. -/

namespace Zenbite.Edit

/-- What load_file finds: fs_open fails, a later call fails, or the bytes that fs_read
gave. -/
inductive Loaded where
  | missing
  | unreadable
  | bytes (data : List UInt8)

/-- The answers of the file system to one key: what a load finds, and whether
save_file goes through. -/
structure Disk where
  load : Loaded
  saved : Bool

def esc : Nat := 27
def kbUp : Nat := 0x80
def kbDown : Nat := 0x81
def kbLeft : Nat := 0x82
def kbRight : Nat := 0x83
def kbDel : Nat := 0x84
def kbHome : Nat := 0x85
def kbEnd : Nat := 0x86
def kbPgUp : Nat := 0x87
def kbPgDn : Nat := 0x88

def isEnter (c : Nat) : Prop := c = 10 ∨ c = 13
def isPrintable (c : Nat) : Prop := 32 ≤ c ∧ c ≤ 126

instance (c : Nat) : Decidable (isEnter c) := inferInstanceAs (Decidable (_ ∨ _))
instance (c : Nat) : Decidable (isPrintable c) := inferInstanceAs (Decidable (_ ∧ _))

/-- memmove(line + col + 1, line + col, len - col + 1), then line[col] = c. One past
the NUL nothing moves and the text stays. -/
def insertAt (line : Text) (col : Int) (c : UInt8) : Option Text :=
  if (line.length : Int) + 1 < col then none
  else if col = line.length + 1 then some line
  else some (line.take col.toNat ++ c :: line.drop col.toNat)

/-- memmove(line + c1, line + c2 + 1, len - c2). -/
def cut (line : Text) (c1 c2 : Int) : Option Text :=
  if (line.length : Int) < c2 then none
  else if c2 = line.length then some line
  else some (line.take c1.toNat ++ line.drop (c2 + 1).toNat)

namespace Ed

/-- insert_char; the key is printable, so never a tab. -/
def insertChar (c : UInt8) (s : Ed) : Option Ed :=
  if 118 ≤ s.len s.curRow then some s
  else
    (insertAt (s.lines s.curRow) s.curCol c).map fun line =>
      { s.setLine s.curRow line with curCol := s.curCol + 1, dirty := true }.saveCol.ensureVisible

/-- delete_char -/
def deleteChar (s : Ed) : Option Ed :=
  let old := s.lines s.curRow
  if s.len s.curRow ≤ s.curCol then
    if s.lineCount ≤ s.curRow + 1 then some s
    else if 119 ≤ s.len s.curRow + s.len (s.curRow + 1) then some s
    else
      let joined := s.setLine s.curRow (old ++ s.lines (s.curRow + 1))
      let joined := { joined with
        lines := closedRows joined.lines (s.curRow + 1) 1 s.lineCount
        lineCount := s.lineCount - 1 }
      some { joined.pushUndo .insertLine (s.curRow + 1) old (joined.lines s.curRow) with dirty := true }
  else
    (cut old s.curCol s.curCol).map fun line =>
      { (s.setLine s.curRow line).pushUndo .modify s.curRow old line with dirty := true }

/-- backspace_char -/
def backspaceChar (s : Ed) : Option Ed :=
  if s.curCol ≤ 0 then
    if s.curRow ≤ 0 then some s
    else if 119 ≤ s.len (s.curRow - 1) + s.len s.curRow then some s
    else
      let joined := s.setLine (s.curRow - 1) (s.lines (s.curRow - 1) ++ s.lines s.curRow)
      some { joined with
        lines := closedRows joined.lines s.curRow 1 s.lineCount
        lineCount := s.lineCount - 1
        curRow := s.curRow - 1
        curCol := s.len (s.curRow - 1)
        dirty := true }.saveCol.ensureVisible
  else
    let old := s.lines s.curRow
    (cut old (s.curCol - 1) (s.curCol - 1)).map fun line =>
      { (s.setLine s.curRow line).pushUndo .modify s.curRow old line with
        curCol := s.curCol - 1, dirty := true }.saveCol

/-- split_line -/
def splitLine (s : Ed) : Option Ed :=
  let old := s.lines s.curRow
  if s.len s.curRow < s.curCol then none
  else
    let rest := old.drop s.curCol.toNat
    let cutOff := s.setLine s.curRow (old.take s.curCol.toNat)
    let opened := { cutOff with
      lines := Function.update (openedRows cutOff.lines (s.curRow + 1) s.lineCount) (s.curRow + 1) rest
      lineCount := s.lineCount + 1
      curRow := s.curRow + 1
      curCol := 0
      vColSave := 0 }
    some { opened.pushUndo .insertLine (s.curRow + 1) old rest with dirty := true }.ensureVisible

/-- delete_line -/
def deleteLine (s : Ed) : Ed :=
  if s.lineCount = 0 then s
  else
    let s := s.pushUndo .deleteLine s.curRow (s.lines s.curRow) []
    let count := s.lineCount - 1
    let s := { s with lines := closedRows s.lines s.curRow 1 s.lineCount, lineCount := count }
    let s := if count = 0 then { s.setLine 0 [] with lineCount := 1, curCol := 0 }
      else { s with curRow := if count ≤ s.curRow then count - 1 else s.curRow, curCol := 0 }
    { s with dirty := true, vColSave := 0 }.ensureVisible

/-- delete_to_eol -/
def deleteToEol (s : Ed) : Ed :=
  if s.len s.curRow ≤ s.curCol then s
  else
    let old := s.lines s.curRow
    let line := old.take s.curCol.toNat
    { (s.setLine s.curRow line).pushUndo .modify s.curRow old line with dirty := true }

/-- A new empty row at `row`, with the cursor on it. -/
def openLine (row : Int) (s : Ed) : Ed :=
  { s with
    lines := Function.update (openedRows s.lines row s.lineCount) row []
    lineCount := s.lineCount + 1
    curRow := row
    curCol := 0
    vColSave := 0 }.ensureVisible

def openLineBelow (s : Ed) : Ed := s.openLine (s.curRow + 1)

def openLineAbove (s : Ed) : Ed := s.openLine s.curRow

/-- The start of do_insert_mode. -/
def enterInsert (s : Ed) : Ed :=
  { s with mode := .insert s.curRow ((s.lines s.curRow).take lineMax) }

/-! Visual mode. -/

/-- The rows of the selection, from top to bottom. -/
def selection (s : Ed) : Int × Int :=
  if s.vArow < s.curRow ∨ s.vArow = s.curRow ∧ s.vAcol ≤ s.curCol then (s.vArow, s.curRow)
  else (s.curRow, s.vArow)

/-- do_visual_delete -/
def visualDelete (s : Ed) : Option Ed :=
  let (r1, r2) := s.selection
  let deleted : Option Ed :=
    if r1 = r2 then
      let c1 := min s.vAcol s.curCol
      let c2 := max s.vAcol s.curCol
      let old := s.lines r1
      if c1 < s.len r1 then
        (cut old c1 c2).map fun line =>
          { (s.setLine r1 line).pushUndo .modify r1 old line with dirty := true, curCol := c1 }
      else some s
    else
      let n := r2 - r1 + 1
      let pushed := s.pushUndo .deleteLine r1 (s.lines r1) []
      let closed : Ed := { pushed with
        lines := closedRows s.lines r1 n s.lineCount, lineCount := s.lineCount - n }
      let closed : Ed :=
        if closed.lineCount = 0 then { closed.setLine 0 [] with lineCount := 1 } else closed
      some { closed with curRow := r1, curCol := 0, dirty := true }
  deleted.map fun s =>
    { s with
      curRow := if s.lineCount ≤ s.curRow then s.lineCount - 1 else s.curRow
      vColSave := 0 }.ensureVisible

/-! The clipboard. -/

/-- CLIP_MAX -/
def clipMax : Nat := 2048

def clipboardSet (text : Text) (s : Ed) : Ed := { s with clip := text.take clipMax }

def yankLine (s : Ed) : Ed :=
  if 0 < s.lineCount then s.clipboardSet (s.lines s.curRow ++ [10]) else s

def yankToEol (s : Ed) : Ed :=
  if 0 < s.lineCount then s.clipboardSet ((s.lines s.curRow).drop s.curCol.toNat) else s

/-- The row that `p` makes of the clipboard: at most MAX_LINE bytes are fetched, one
final newline goes, and the row ends at its first NUL. -/
def pastedLine (clip : Text) : Text :=
  let buf := clip.take 120
  let buf := if buf.getLast? = some 10 then buf.dropLast else buf
  (buf.take lineMax).takeWhile (· != 0)

def paste (s : Ed) : Ed :=
  if s.clip = [] then s
  else if s.lineCount < maxLines then
    { s with
      lines := Function.update (openedRows s.lines (s.curRow + 1) s.lineCount) (s.curRow + 1)
        (pastedLine s.clip)
      lineCount := s.lineCount + 1
      curRow := s.curRow + 1
      curCol := 0
      dirty := true }.ensureVisible
  else s

end Ed

end Zenbite.Edit
