import Zenbite.Edit.Keys

/-! The editor (edit.c): files, the commands of the modes, and the step of one key. -/

namespace Zenbite.Edit

/-- sizeof load_scratch - 1 -/
def scratchMax : Nat := 16383

/-- FS_PATH_MAX - 1 -/
def pathMax : Nat := 127

/-- The inner loop of load_file, with the room that is left in the row: the text, and
what follows in the file. -/
def loadRow : Nat → List UInt8 → Text × List UInt8
  | _, [] => ([], [])
  | room, c :: rest =>
    if room = 0 ∨ c = 10 then ([], c :: rest)
    else if c = 13 then loadRow room rest
    else (c :: (loadRow (room - 1) rest).1, (loadRow (room - 1) rest).2)

/-- The loop of load_file with the rows that are left; a row ends at its first NUL. -/
def loadRows : Nat → List UInt8 → List Text
  | 0, _ => []
  | rows + 1, data =>
    if data = [] then []
    else
      let row := loadRow lineMax data
      row.1.takeWhile (· != 0) :: loadRows rows ((row.2.dropWhile (· != 10)).drop 1)

namespace Ed

/-- load_file, up to its return value. -/
def loadFile (load : Loaded) (s : Ed) : Ed :=
  match load with
  | .missing => { s with lineCount := 0 }
  | .unreadable => s
  | .bytes data =>
    let rows := loadRows maxLines.toNat (data.take scratchMax)
    { s with
      lines := fun i => if 0 ≤ i ∧ i < rows.length then rows.getD i.toNat [] else s.lines i
      lineCount := rows.length }

/-- edit_file -/
def editFile (path : Text) (load : Loaded) (s : Ed) : Ed :=
  { s with
    filepath := path.take pathMax
    lineCount := 0
    dirty := false
    undo := []
    undopos := 0
    curRow := 0
    curCol := 0
    viewOff := 0 }.loadFile load

/-- edit_main up to its first key; it gives up on a file that it cannot read. -/
def editMain (path : Text) (load : Loaded) (s : Ed) : Option Ed :=
  match load with
  | .unreadable => none
  | _ =>
    let s : Ed := { s with vColSave := 0, searchPat := [] }.editFile path load
    let s : Ed := if s.lineCount = 0 then { s.setLine 0 [] with lineCount := 1 } else s
    some { s with mode := .normal }

end Ed

/-! Ex commands. -/

/-- What do_cmdline makes of a command; `file` is what stands behind an `e`. -/
structure ExCmd where
  write : Bool
  quit : Bool
  force : Bool
  file : Option Text
  deriving DecidableEq, Repr

def ExCmd.scan (cmd : ExCmd) : Text → ExCmd
  | [] => cmd
  | c :: rest =>
    if c = 119 ∨ c = 87 then { cmd with write := true }.scan rest
    else if c = 113 ∨ c = 81 then { cmd with quit := true }.scan rest
    else if c = 33 then { cmd with force := true }.scan rest
    else if c = 101 ∨ c = 69 then { cmd with file := some (rest.dropWhile Ed.isBlank) }
    else cmd.scan rest

def ExCmd.parse (typed : Text) : ExCmd :=
  (⟨false, false, false, none⟩ : ExCmd).scan (typed.dropWhile Ed.isBlank)

/-- The bound of the command and the search buffer on what is typed. -/
def typedMax : Nat := 77

/-- A key in the loops of do_cmdline and do_search, apart from ESC and Enter. -/
def typeKey (c : Nat) (typed : Text) : Text :=
  if c = 8 then typed.dropLast
  else if isPrintable c ∧ typed.length < typedMax then typed ++ [UInt8.ofNat c]
  else typed

/-- The first place where the pattern stands in the line. -/
def findIn (pat : Text) : Text → Option Nat
  | [] => none
  | c :: rest => if pat.isPrefixOf (c :: rest) then some 0 else (findIn pat rest).map (· + 1)

namespace Ed

/-- do_cmdline behind Enter. -/
def exec (disk : Disk) (cmd : ExCmd) (s : Ed) : Ed :=
  match cmd.file with
  | some file => if file = [] ∨ s.dirty ∧ !cmd.force then s else s.editFile file disk.load
  | none =>
    if cmd.write ∧ !disk.saved then s
    else
      let s := if cmd.write then { s with dirty := false } else s
      if !cmd.quit ∨ s.dirty ∧ !cmd.force then s else { s with mode := .done }

/-- The row that round `k` of search_next looks at. -/
def searchRow (s : Ed) (k : Nat) : Int :=
  let dir : Int := if s.searchForward then 1 else -1
  (s.curRow + (k + 1) * dir + s.lineCount).tmod s.lineCount

/-- search_next -/
def searchNext (s : Ed) : Ed :=
  if s.searchPat = [] then s
  else
    let hit := (List.range s.lineCount.toNat).findSome? fun k =>
      (findIn s.searchPat (s.lines (s.searchRow k))).map fun col => (s.searchRow k, col)
    match hit with
    | none => s
    | some (row, col) => { s with curRow := row, curCol := (col : Int) }.saveCol.ensureVisible

end Ed

/-! Keys. -/

/-- The movements that normal and visual mode share. -/
inductive Motion where
  | left | down | up | right | wordFwd | wordBwd | lineStart | lineEnd | fileEnd | pageUp | pageDown
  deriving DecidableEq, Repr

def Motion.ofKey (c : Nat) : Option Motion :=
  if c = 'h'.toNat ∨ c = kbLeft then some .left
  else if c = 'j'.toNat ∨ c = kbDown then some .down
  else if c = 'k'.toNat ∨ c = kbUp then some .up
  else if c = 'l'.toNat ∨ c = kbRight then some .right
  else if c = 'w'.toNat then some .wordFwd
  else if c = 'b'.toNat then some .wordBwd
  else if c = '0'.toNat then some .lineStart
  else if c = '$'.toNat then some .lineEnd
  else if c = 'G'.toNat then some .fileEnd
  else if c = kbPgUp then some .pageUp
  else if c = kbPgDn then some .pageDown
  else none

def Motion.apply (s : Ed) : Motion → Ed
  | .left => s.moveLeft
  | .down => s.moveDown
  | .up => s.moveUp
  | .right => s.moveRight
  | .wordFwd => s.moveWordFwd
  | .wordBwd => s.moveWordBwd
  | .lineStart => s.moveLineStart
  | .lineEnd => s.moveLineEnd
  | .fileEnd => s.moveFileEnd
  | .pageUp => s.pageUp.ensureVisible
  | .pageDown => s.pageDown.ensureVisible

/-- The other commands of normal mode. -/
inductive Command where
  | waitG | lineStart | lineEnd
  | insert | append | insertStart | appendEnd | openBelow | openAbove
  | deleteChar | backspace | waitD | deleteToEol
  | undo | redo | visual | cmdline | search (forward : Bool) | searchNext
  | waitY | yankToEol | paste | enter | nothing
  deriving DecidableEq, Repr

def Command.ofKey (c : Nat) : Command :=
  if c = 'g'.toNat then .waitG
  else if c = kbHome then .lineStart
  else if c = kbEnd then .lineEnd
  else if c = 'i'.toNat then .insert
  else if c = 'a'.toNat then .append
  else if c = 'I'.toNat then .insertStart
  else if c = 'A'.toNat then .appendEnd
  else if c = 'o'.toNat then .openBelow
  else if c = 'O'.toNat then .openAbove
  else if c = 'x'.toNat then .deleteChar
  else if c = 'X'.toNat then .backspace
  else if c = 'd'.toNat then .waitD
  else if c = 'D'.toNat then .deleteToEol
  else if c = 'u'.toNat then .undo
  else if c = 18 then .redo
  else if c = 'v'.toNat then .visual
  else if c = ':'.toNat then .cmdline
  else if c = '/'.toNat then .search true
  else if c = '?'.toNat then .search false
  else if c = 'n'.toNat then .searchNext
  else if c = 'y'.toNat then .waitY
  else if c = 'Y'.toNat then .yankToEol
  else if c = 'p'.toNat then .paste
  else if isEnter c then .enter
  else .nothing

namespace Ed

def setMode (s : Ed) (mode : Mode) : Ed := { s with mode := mode }

/-- handle_normal for a key that is no movement. -/
def command (s : Ed) : Command → Option Ed
  | .waitG => some (s.setMode .normalG)
  | .lineStart => some s.moveLineStart
  | .lineEnd => some s.moveLineEnd
  | .insert => some s.enterInsert
  | .append =>
    let moves := 0 < s.lineCount ∧ s.curCol < s.len s.curRow
    some (if moves then { s with curCol := s.curCol + 1 } else s).enterInsert
  | .insertStart => some s.moveLineStart.enterInsert
  | .appendEnd => some s.moveLineEnd.enterInsert
  | .openBelow => some s.openLineBelow.enterInsert
  | .openAbove => some s.openLineAbove.enterInsert
  | .deleteChar => if 0 < s.lineCount then s.deleteChar else some s
  | .backspace => if 0 < s.lineCount then s.backspaceChar else some s
  | .waitD => some (s.setMode .normalD)
  | .deleteToEol => some (if 0 < s.lineCount then s.deleteToEol else s)
  | .undo => some s.doUndo
  | .redo => some s.doRedo
  | .visual => some { s with vArow := s.curRow, vAcol := s.curCol, mode := .visual }
  | .cmdline => some (s.setMode (.cmdline []))
  | .search forward => some { s with searchForward := forward, mode := .search [] }
  | .searchNext => some s.searchNext
  | .waitY => some (s.setMode .normalY)
  | .yankToEol => some s.yankToEol
  | .paste => some s.paste
  | .enter => some s.moveDown
  | .nothing => some s

def normalKey (c : Nat) (s : Ed) : Option Ed :=
  match Motion.ofKey c with
  | some motion => some (motion.apply s)
  | none => s.command (Command.ofKey c)

/-- handle_visual -/
def visualKey (c : Nat) (s : Ed) : Option Ed :=
  match Motion.ofKey c with
  | some motion => some (motion.apply s)
  | none =>
    if c = 'g'.toNat then some (s.setMode .visualG)
    else if c = 'd'.toNat ∨ c = 'x'.toNat then s.visualDelete.map (·.setMode .normal)
    else if c = esc then some (s.setMode .normal)
    else some s

/-- ESC in the loop of do_insert_mode. -/
def leaveInsert (row0 : Int) (row0Save : Text) (s : Ed) : Ed :=
  let s := if 0 ≤ row0 ∧ row0 < s.lineCount then s.pushUndo .modify row0 row0Save (s.lines row0) else s
  s.setMode .normal

/-- The loop of do_insert_mode. A split moves row0, not what was saved of it. -/
def insertKey (row0 : Int) (row0Save : Text) (c : Nat) (s : Ed) : Option Ed :=
  if c = esc then some (s.leaveInsert row0 row0Save)
  else if isEnter c then s.splitLine.map fun s => s.setMode (.insert s.curRow row0Save)
  else if c = 8 then s.backspaceChar
  else if c = kbLeft then some s.moveLeft
  else if c = kbRight then some s.moveRight
  else if c = kbUp then some s.moveUp
  else if c = kbDown then some s.moveDown
  else if c = kbHome then some s.moveLineStart
  else if c = kbEnd then some s.moveLineEnd
  else if c = kbDel then s.deleteChar
  else if c = kbPgUp then some s.pageUp
  else if c = kbPgDn then some s.pageDown
  else if isPrintable c then s.insertChar (UInt8.ofNat c)
  else some s

/-- One key, with the answers of the file system to it. -/
def key (disk : Disk) (c : Nat) (s : Ed) : Option Ed :=
  match s.mode with
  | .normal => s.normalKey c
  | .normalG => some ((if c = 'g'.toNat then s.moveFileStart else s).setMode .normal)
  | .normalD => some ((if c = 'd'.toNat then s.deleteLine else s).setMode .normal)
  | .normalY => some ((if c = 'y'.toNat then s.yankLine else s).setMode .normal)
  | .insert row0 row0Save => s.insertKey row0 row0Save c
  | .visual => s.visualKey c
  | .visualG => some ((if c = 'g'.toNat then s.moveFileStart else s).setMode .visual)
  | .cmdline typed =>
    if c = esc then some (s.setMode .normal)
    else if isEnter c then some ((s.setMode .normal).exec disk (ExCmd.parse typed))
    else some (s.setMode (.cmdline (typeKey c typed)))
  | .search typed =>
    if c = esc then some (s.setMode .normal)
    else if isEnter c then some ({ s with searchPat := typed, mode := .normal }.searchNext)
    else some (s.setMode (.search (typeKey c typed)))
  | .done => some s

end Ed

end Zenbite.Edit
