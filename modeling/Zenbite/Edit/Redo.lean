import Mathlib.Data.List.Induction
import Zenbite.Edit.Undo

/-! `u` and Ctrl-R back and forth over edits of single rows. -/

namespace Zenbite.Edit

/-- Entries 0..undopos-1, which are applied. -/
def Ed.applied (s : Ed) : List Undo := s.undo.take s.undopos

/-- An edit of row `row` alone, with the entry that records it. -/
structure LineEdit (row : Int) (s t : Ed) : Prop where
  place : 0 ≤ row ∧ row < s.lineCount
  fine : Fine (s.lines row) ∧ Fine (t.lines row)
  lines : t.lines = Function.update s.lines row (t.lines row)
  count : t.lineCount = s.lineCount
  undo : t.undo = (s.pushUndo .modify row (s.lines row) (t.lines row)).undo
  undopos : t.undopos = (s.pushUndo .modify row (s.lines row) (t.lines row)).undopos

/-- `n` edits of single rows: `s i` is the editor behind the first `i` of them, edit `i`
is in row `row i`. -/
structure LineEdits (n : Nat) (row : Nat → Int) (s : Nat → Ed) : Prop where
  edit : ∀ i < n, LineEdit (row i) (s i) (s (i + 1))
  normal : (s n).mode = .normal

/-! The keys that make such edits. -/

section Keys
variable {s t : Ed}

theorem Body.lineEdit (body : Body s) (after : Body t) {line : Text}
    (lines : t.lines = Function.update s.lines s.curRow line) (count : t.lineCount = s.lineCount)
    (undo : t.undo = (s.pushUndo .modify s.curRow (s.lines s.curRow) line).undo)
    (undopos : t.undopos = (s.pushUndo .modify s.curRow (s.lines s.curRow) line).undopos) :
    LineEdit s.curRow s t := by
  have place : 0 ≤ s.curRow ∧ s.curRow < s.lineCount := ⟨body.rowLow, body.rowHigh⟩
  have here : t.lines s.curRow = line := by rw [lines, Function.update_self]
  exact ⟨place, ⟨body.here, after.fine _ place.1 (count ▸ place.2)⟩, by rw [here, lines], count,
    by rw [here, undo], by rw [here, undopos]⟩

theorem deleteChar_lineEdit (body : Body s) (inside : s.curCol < s.len s.curRow)
    (done : s.deleteChar = some t) : LineEdit s.curRow s t := by
  obtain ⟨t', done', edited⟩ := deleteChar_edited body
  obtain rfl := Option.some.inj (done'.symm.trans done)
  rw [Ed.deleteChar, if_neg (by omega)] at done
  obtain ⟨line, -, rfl⟩ := Option.map_eq_some_iff.mp done
  exact body.lineEdit edited.toBody rfl rfl rfl rfl

theorem backspaceChar_lineEdit (body : Body s) (inside : 0 < s.curCol)
    (done : s.backspaceChar = some t) : LineEdit s.curRow s t := by
  obtain ⟨t', done', edited⟩ := backspaceChar_edited body
  obtain rfl := Option.some.inj (done'.symm.trans done)
  rw [Ed.backspaceChar, if_neg (by omega)] at done
  obtain ⟨line, -, rfl⟩ := Option.map_eq_some_iff.mp done
  exact body.lineEdit edited.toBody rfl rfl rfl rfl

theorem deleteToEol_lineEdit (body : Body s) (inside : s.curCol < s.len s.curRow) :
    LineEdit s.curRow s s.deleteToEol := by
  have edited := deleteToEol_edited body
  rw [Ed.deleteToEol, if_neg (by omega)] at edited ⊢
  exact body.lineEdit edited.toBody rfl rfl rfl rfl

theorem visualDelete_lineEdit (body : Body s) (anchor : s.vArow = s.curRow)
    (column : 0 ≤ s.vAcol ∧ s.vAcol ≤ s.len s.vArow) (inside : min s.vAcol s.curCol < s.len s.curRow)
    (done : s.visualDelete = some t) : LineEdit s.curRow s t := by
  have rows : s.selection = (s.curRow, s.curRow) := by
    rw [Ed.selection, anchor]
    split <;> rfl
  have place : 0 ≤ s.vArow ∧ s.vArow < s.lineCount := by
    rw [anchor]
    exact ⟨body.rowLow, body.rowHigh⟩
  obtain ⟨t', done', edited⟩ := visualDelete_edited body ⟨place.1, place.2, column.1, column.2⟩
  obtain rfl := Option.some.inj (done'.symm.trans done)
  rw [Ed.visualDelete, rows] at done
  dsimp only at done
  rw [if_pos rfl, if_pos inside] at done
  obtain ⟨_, found, rfl⟩ := Option.map_eq_some_iff.mp done
  obtain ⟨line, -, rfl⟩ := Option.map_eq_some_iff.mp found
  exact body.lineEdit edited.toBody rfl rfl rfl rfl

/-- Insert mode so far: nothing but the row that it began in has changed. -/
structure Typing (s t : Ed) : Prop extends Body t where
  mode : t.mode = .insert s.curRow (s.lines s.curRow)
  lines : t.lines = Function.update s.lines s.curRow (t.lines s.curRow)
  count : t.lineCount = s.lineCount
  row : t.curRow = s.curRow
  undo : t.undo = s.undo
  undopos : t.undopos = s.undopos

theorem Typing.start (body : Body s) : Typing s s.enterInsert where
  toBody := body.setMode (.insert s.curRow ((s.lines s.curRow).take lineMax))
  mode := by rw [Ed.enterInsert, body.here.take_all]
  lines := (Function.update_eq_self _ _).symm
  count := rfl
  row := rfl
  undo := rfl
  undopos := rfl

theorem Typing.char (typing : Typing s t) {c : Nat} (printable : isPrintable c) (disk : Disk) :
    ∃ u, press (disk, c) t = some u ∧ Typing s u := by
  obtain ⟨u, done, edited⟩ := insertChar_edited typing.toBody (printable_text printable)
  have kept : u.lines = Function.update s.lines s.curRow (u.lines s.curRow) ∧
      u.lineCount = s.lineCount ∧ u.curRow = s.curRow ∧ u.undo = s.undo ∧ u.undopos = s.undopos := by
    rw [Ed.insertChar] at done
    split at done
    · obtain rfl := Option.some.inj done
      exact ⟨typing.lines, typing.count, typing.row, typing.undo, typing.undopos⟩
    · obtain ⟨line, -, rfl⟩ := Option.map_eq_some_iff.mp done
      refine ⟨?_, typing.count, typing.row, typing.undo, typing.undopos⟩
      show Function.update t.lines t.curRow line =
        Function.update s.lines s.curRow (Function.update t.lines t.curRow line s.curRow)
      rw [typing.row, Function.update_self, typing.lines, Function.update_idem]
  exact ⟨u, (press_typed disk typing.mode printable).trans done, edited.toBody,
    edited.mode.trans typing.mode, kept.1, kept.2.1, kept.2.2.1, kept.2.2.2.1, kept.2.2.2.2⟩

theorem pushUndo_same (undo : t.undo = s.undo) (undopos : t.undopos = s.undopos) (op : UndoOp) (row : Int)
    (old new : Text) : (t.pushUndo op row old new).undo = (s.pushUndo op row old new).undo ∧
      (t.pushUndo op row old new).undopos = (s.pushUndo op row old new).undopos := by
  rw [Ed.pushUndo, Ed.pushUndo, undo, undopos]
  exact ⟨rfl, rfl⟩

/-- Any number of characters typed in one visit to insert mode. -/
theorem typed_lineEdit (body : Body s) (keys : List Nat) (printable : ∀ c ∈ keys, isPrintable c)
    (disk : Disk) : ∃ t, Runs.runSome press ((keys ++ [esc]).map (disk, ·)) s.enterInsert = some t ∧
      LineEdit s.curRow s t ∧ t.mode = .normal := by
  have ran : ∀ u, Typing s u → ∃ t, Runs.runSome press (keys.map (disk, ·)) u = some t ∧ Typing s t := by
    induction keys with
    | nil => exact fun u typing => ⟨u, rfl, typing⟩
    | cons c keys ih =>
        intro u typing
        obtain ⟨v, pressed, next⟩ := typing.char (printable c List.mem_cons_self) disk
        obtain ⟨t, rest, last⟩ := ih (fun d member => printable d (List.mem_cons_of_mem c member)) v next
        exact ⟨t, by rw [List.map, Runs.runSome, pressed]; exact rest, last⟩
  obtain ⟨t, typed, typing⟩ := ran s.enterInsert (.start body)
  have place : 0 ≤ s.curRow ∧ s.curRow < t.lineCount := by
    rw [typing.count]
    exact ⟨body.rowLow, body.rowHigh⟩
  refine ⟨t.leaveInsert s.curRow (s.lines s.curRow), ?_, ?_, leaveInsert_mode _ _⟩
  · rw [List.map_append, Runs.runSome_append, typed]
    exact ran_one (press_esc disk typing.mode)
  · have pushed := pushUndo_same typing.undo typing.undopos .modify s.curRow (s.lines s.curRow)
      (t.lines s.curRow)
    rw [Ed.leaveInsert, if_pos place]
    exact ⟨⟨place.1, typing.count ▸ place.2⟩, ⟨body.here, typing.fine _ place.1 place.2⟩, typing.lines,
      typing.count, pushed.1, pushed.2⟩

end Keys

/-! The stack behind the edits. -/

section Stack
variable (s : Ed) (op : UndoOp) (row : Int) (old new : Text)

/-- The entries that push_undo keeps: those that are applied, without the oldest of a full stack. -/
theorem pushUndo_applied : ∃ kept, (s.pushUndo op row old new).undo =
      kept ++ [⟨op, row, old.take lineMax, new.take lineMax⟩] ∧
    (s.pushUndo op row old new).undopos = kept.length + 1 ∧
    (kept = s.applied ∧ s.applied.length < maxUndo ∨
      kept = s.applied.drop 1 ∧ maxUndo ≤ s.applied.length) := by
  refine ⟨if maxUndo ≤ s.applied.length then s.applied.drop 1 else s.applied, rfl, rfl, ?_⟩
  by_cases full : maxUndo ≤ s.applied.length
  · exact .inr ⟨if_pos full, full⟩
  · exact .inl ⟨if_neg full, Nat.lt_of_not_le full⟩

end Stack

section Walk
variable {n : Nat} {row : Nat → Int} {s : Nat → Ed}

/-- The row that edit `i` finds, and the row that it leaves. -/
def before (row : Nat → Int) (s : Nat → Ed) (i : Nat) : Text := (s i).lines (row i)
def after (row : Nat → Int) (s : Nat → Ed) (i : Nat) : Text := (s (i + 1)).lines (row i)

/-- The last edits, up to 32 of them, lie on top of the stack. -/
theorem LineEdits.stacked (edits : LineEdits n row s) (m : Nat) : m ≤ n →
    min m maxUndo ≤ (s m).applied.length ∧ ∀ i < m, m ≤ i + maxUndo →
      (s m).applied[(s m).applied.length - (m - i)]? = some ⟨.modify, row i, before row s i, after row s i⟩ := by
  induction m with
  | zero => exact fun _ => ⟨by omega, fun i low => absurd low (Nat.not_lt_zero i)⟩
  | succ m ih =>
      intro high
      obtain ⟨deep, entries⟩ := ih (by omega)
      have edit := edits.edit m (by omega)
      obtain ⟨kept, pushed, pos, from_⟩ := pushUndo_applied (s m) .modify (row m) ((s m).lines (row m))
        ((s (m + 1)).lines (row m))
      rw [edit.fine.1.take_all, edit.fine.2.take_all] at pushed
      have applied : (s (m + 1)).applied = kept ++ [⟨.modify, row m, before row s m, after row s m⟩] := by
        rw [Ed.applied, edit.undo, edit.undopos, pushed, pos]
        exact List.take_of_length_le (by rw [List.length_append]; exact Nat.le_refl _)
      have long : kept.length = (s m).applied.length ∧ (s m).applied.length < maxUndo ∨
          kept.length + 1 = (s m).applied.length ∧ maxUndo ≤ (s m).applied.length := by
        rcases from_ with ⟨rfl, room⟩ | ⟨rfl, full⟩
        · exact .inl ⟨rfl, room⟩
        · rw [maxUndo] at full ⊢
          refine .inr ⟨?_, full⟩
          rw [List.length_drop]
          omega
      have length : (s (m + 1)).applied.length = kept.length + 1 := by
        rw [applied, List.length_append]
        rfl
      rw [length]
      rw [maxUndo] at long deep entries ⊢
      refine ⟨by omega, fun i low near => ?_⟩
      rw [applied]
      by_cases last : i = m
      · rw [last, show kept.length + 1 - (m + 1 - m) = kept.length by omega]
        exact List.getElem?_concat_length
      · rw [List.getElem?_append_left (by omega), ← entries i (by omega) (by omega)]
        rcases from_ with ⟨rfl, room⟩ | ⟨rfl, full⟩
        · exact congrArg ((s m).applied[·]?) (by omega)
        · rw [List.getElem?_drop]
          exact congrArg ((s m).applied[·]?) (by rw [maxUndo] at full; omega)

/-- Nothing is left to redo. -/
theorem LineEdits.full (edits : LineEdits n row s) (some_ : 0 < n) :
    (s n).undopos = (s n).undo.length ∧ (s n).applied = (s n).undo := by
  obtain ⟨m, rfl⟩ := Nat.exists_eq_succ_of_ne_zero (Nat.ne_of_gt some_)
  have edit := edits.edit m (Nat.lt_succ_self m)
  obtain ⟨kept, pushed, pos, -⟩ := pushUndo_applied (s m) .modify (row m) ((s m).lines (row m))
    ((s (m + 1)).lines (row m))
  have full : (s (m + 1)).undopos = (s (m + 1)).undo.length := by
    rw [edit.undo, edit.undopos, pushed, pos, List.length_append]
    rfl
  exact ⟨full, List.take_of_length_le (Nat.le_of_eq full.symm)⟩

/-! The walk. -/

inductive Visit where
  | undo | redo
  deriving DecidableEq, Repr

def Visit.key : Visit → Nat
  | .undo => 'u'.toNat
  | .redo => 18

/-- `k`: n minus the number of undos plus the number of redos. -/
def textAt (n : Nat) (walk : List Visit) : Nat := n + walk.count .redo - walk.count .undo

/-- The walk stays within the undo depth. -/
def Within (n : Nat) (walk : List Visit) : Prop :=
  ∀ part, part <+: walk →
    part.count .redo ≤ part.count .undo ∧ part.count .undo ≤ part.count .redo + min n maxUndo

def walked (disk : Disk) (walk : List Visit) (s : Ed) : Option Ed :=
  Runs.runSome press (walk.map fun visit => (disk, visit.key)) s

/-- After each key of the walk the buffer is the text that the number of undos and redos
calls for. -/
def Alternates (n : Nat) (s : Nat → Ed) (disk : Disk) (walk : List Visit) : Prop :=
  ∀ part, part <+: walk → ∃ t, walked disk part (s n) = some t ∧ Restored (s (textAt n part)) t

/-- The walk takes edit `k`, counted from one, back. -/
def Undoes (n : Nat) (walk : List Visit) (k : Nat) : Prop :=
  ∃ part, part ++ [.undo] <+: walk ∧ textAt n part = k

/-- An edit that is taken back a second time has not changed the text. -/
def UndoneOnce (n : Nat) (s : Nat → Ed) (walk : List Visit) : Prop :=
  ∀ part, part ++ [.undo] <+: walk → Undoes n part (textAt n part) →
    Restored (s (textAt n part - 1)) (s (textAt n part))

theorem textAt_undo (walk : List Visit) : textAt n (walk ++ [.undo]) = textAt n walk - 1 := by
  rw [textAt, textAt, List.count_append, List.count_append, List.count_singleton_self,
    List.count_singleton]
  exact (Nat.sub_sub _ _ _).symm

theorem textAt_redo {walk : List Visit} (within : Within n walk) :
    textAt n (walk ++ [.redo]) = textAt n walk + 1 := by
  have bound := (within walk List.prefix_rfl).2
  rw [textAt, textAt, List.count_append, List.count_append, List.count_singleton_self,
    List.count_singleton]
  show n + (_ + 1) - (_ + 0) = _
  omega

theorem Within.part {walk : List Visit} {visit : Visit} (within : Within n (walk ++ [visit])) : Within n walk :=
  fun part inside => within part (inside.trans (List.prefix_append walk [visit]))

/-- Where the walk is, in terms of the edits. -/
theorem Within.place {walk : List Visit} (within : Within n walk) :
    textAt n walk ≤ n ∧ n ≤ textAt n walk + min n maxUndo := by
  have bounds := within walk List.prefix_rfl
  rw [textAt]
  omega

theorem prefix_concat_cases {walk part : List Visit} {visit last : Visit} :
    part ++ [last] <+: walk ++ [visit] ↔ part = walk ∧ last = visit ∨ part ++ [last] <+: walk := by
  rw [List.prefix_concat_iff]
  apply or_congr_left
  constructor
  · intro same
    have parts := List.append_inj' same rfl
    exact ⟨parts.1, List.singleton_inj.mp parts.2⟩
  · rintro ⟨rfl, rfl⟩
    rfl

theorem undoes_concat {walk : List Visit} {visit : Visit} {k : Nat} :
    Undoes n (walk ++ [visit]) k ↔ visit = .undo ∧ textAt n walk = k ∨ Undoes n walk k := by
  constructor
  · rintro ⟨part, inside, here⟩
    rcases prefix_concat_cases.mp inside with ⟨rfl, last⟩ | inside
    · exact .inl ⟨last.symm, here⟩
    · exact .inr ⟨part, inside, here⟩
  · rintro (⟨rfl, here⟩ | ⟨part, inside, here⟩)
    · exact ⟨walk, List.prefix_rfl, here⟩
    · exact ⟨part, prefix_concat_cases.mpr (.inr inside), here⟩

theorem alternates_concat {disk : Disk} {walk : List Visit} {visit : Visit} :
    Alternates n s disk (walk ++ [visit]) ↔ Alternates n s disk walk ∧
      ∃ t, walked disk (walk ++ [visit]) (s n) = some t ∧ Restored (s (textAt n (walk ++ [visit]))) t := by
  constructor
  · intro all
    exact ⟨fun part inside => all part (inside.trans (List.prefix_append walk [visit])), all _ List.prefix_rfl⟩
  · rintro ⟨all, last⟩ part inside
    rcases List.prefix_concat_iff.mp inside with rfl | inside
    · exact last
    · exact all part inside

theorem undoneOnce_concat {walk : List Visit} {visit : Visit} :
    UndoneOnce n s (walk ++ [visit]) ↔ UndoneOnce n s walk ∧
      (visit = .undo → Undoes n walk (textAt n walk) →
        Restored (s (textAt n walk - 1)) (s (textAt n walk))) := by
  constructor
  · intro once
    refine ⟨fun part inside => once part (prefix_concat_cases.mpr (.inr inside)), ?_⟩
    rintro rfl again
    exact once walk List.prefix_rfl again
  · rintro ⟨once, last⟩ part inside again
    rcases prefix_concat_cases.mp inside with ⟨rfl, here⟩ | inside
    · exact last here.symm again
    · exact once part inside again

theorem walked_concat {disk : Disk} {walk : List Visit} {visit : Visit} {start t : Ed}
    (ran : walked disk walk start = some t) :
    walked disk (walk ++ [visit]) start = press (disk, visit.key) t := by
  rw [walked] at ran ⊢
  rw [List.map_append, Runs.runSome_append, ran]
  show (press (disk, visit.key) t).bind some = _
  exact Option.bind_fun_some _

/-- Where the entry of edit `i` lies on a stack of `length` entries. -/
def slot (n length i : Nat) : Nat := length - (n - i)

/-- The editor behind a walk that has gone right. An edit that was not taken back yet has
its entry as it was pushed; one that is taken back has what it left on both sides, and one
that was made again has the two sides exchanged. -/
structure Walked (n : Nat) (row : Nat → Int) (s : Nat → Ed) (walk : List Visit) (t : Ed) : Prop where
  lines : t.lines = (s (textAt n walk)).lines
  count : t.lineCount = (s (textAt n walk)).lineCount
  normal : t.mode = .normal
  undopos : t.undopos = slot n t.undo.length (textAt n walk)
  deep : min n maxUndo ≤ t.undo.length
  fresh : ∀ i < textAt n walk, n ≤ i + maxUndo → ¬ Undoes n walk (i + 1) →
    t.undo[slot n t.undo.length i]? = some ⟨.modify, row i, before row s i, after row s i⟩
  again : ∀ i < textAt n walk, n ≤ i + maxUndo → Undoes n walk (i + 1) →
    t.undo[slot n t.undo.length i]? = some ⟨.modify, row i, after row s i, before row s i⟩
  away : ∀ i < n, textAt n walk ≤ i →
    Undoes n walk (i + 1) ∧
      t.undo[slot n t.undo.length i]? = some ⟨.modify, row i, after row s i, after row s i⟩

theorem Walked.start (edits : LineEdits n row s) (some_ : 0 < n) : Walked n row s [] (s n) := by
  have full := edits.full some_
  have stacked := edits.stacked n (Nat.le_refl n)
  rw [full.2] at stacked
  have never : ∀ k, ¬ Undoes n [] k := by
    rintro k ⟨part, inside, -⟩
    exact absurd (List.prefix_nil.mp inside) (List.append_ne_nil_of_right_ne_nil part (List.cons_ne_nil _ _))
  refine ⟨rfl, rfl, edits.normal, ?_, stacked.1, fun i low near _ => stacked.2 i low near,
    fun i _ _ undone => absurd undone (never _), fun i low high => absurd low (Nat.not_lt.mpr high)⟩
  rw [full.1, slot, textAt]
  show _ = _ - (n - n)
  omega

/-- What `u` makes of an entry for a row. -/
theorem doUndo_entry {t : Ed} {pos : Nat} {r : Int} {old new : Text} (last : t.undopos = pos + 1)
    (entry : t.undo[pos]? = some ⟨.modify, r, old, new⟩) :
    t.doUndo.lines = Function.update t.lines r (old.take lineMax) ∧ t.doUndo.lineCount = t.lineCount ∧
    t.doUndo.mode = t.mode ∧ t.doUndo.undopos = pos ∧
    t.doUndo.undo = t.undo.set pos ⟨.modify, r, (t.lines r).take lineMax, new⟩ := by
  rw [Ed.doUndo, last]
  dsimp only
  rw [entry]
  exact ⟨rfl, rfl, rfl, rfl, rfl⟩

/-- What Ctrl-R makes of it. -/
theorem doRedo_entry {t : Ed} {r : Int} {old new : Text}
    (entry : t.undo[t.undopos]? = some ⟨.modify, r, old, new⟩) :
    t.doRedo.lines = Function.update t.lines r (new.take lineMax) ∧ t.doRedo.lineCount = t.lineCount ∧
    t.doRedo.mode = t.mode ∧ t.doRedo.undopos = t.undopos + 1 ∧
    t.doRedo.undo = t.undo.set t.undopos ⟨.modify, r, old, (t.lines r).take lineMax⟩ := by
  rw [Ed.doRedo, entry]
  exact ⟨rfl, rfl, rfl, rfl, rfl⟩

theorem press_redo (disk : Disk) {t : Ed} (normal : t.mode = .normal) :
    press (disk, Visit.key .redo) t = some t.doRedo :=
  press_command disk normal (by decide) (show Command.ofKey 18 = .redo by decide)

/-- The edit between the texts `i` and `i + 1`. -/
theorem LineEdits.between (edits : LineEdits n row s) {i : Nat} (low : i < n) :
    Function.update (s i).lines (row i) (after row s i) = (s (i + 1)).lines ∧
    Function.update (s (i + 1)).lines (row i) (before row s i) = (s i).lines ∧
    (s (i + 1)).lineCount = (s i).lineCount ∧
    (before row s i).take lineMax = before row s i ∧ (after row s i).take lineMax = after row s i := by
  have edit := edits.edit i low
  refine ⟨edit.lines.symm, ?_, edit.count, edit.fine.1.take_all, edit.fine.2.take_all⟩
  rw [edit.lines, Function.update_idem]
  exact Function.update_eq_self (row i) (s i).lines

/-- Another slot of the stack is left alone. -/
theorem set_other {stack : List Undo} {i j : Nat} (entry : Undo) (deep : min n maxUndo ≤ stack.length)
    (inside : i < n ∧ j < n) (near : n ≤ i + maxUndo ∧ n ≤ j + maxUndo) (other : i ≠ j) :
    (stack.set (slot n stack.length i) entry)[slot n stack.length j]? = stack[slot n stack.length j]? := by
  rw [slot, slot]
  exact List.getElem?_set_ne (by omega)

theorem set_same {stack : List Undo} {i : Nat} (entry : Undo) (deep : min n maxUndo ≤ stack.length)
    (inside : i < n) (near : n ≤ i + maxUndo) :
    (stack.set (slot n stack.length i) entry)[slot n stack.length i]? = some entry := by
  rw [slot]
  exact List.getElem?_set_self (by omega)

/-- Ctrl-R: right as long as the walk was. -/
theorem Walked.redo (edits : LineEdits n row s) {walk : List Visit} {t : Ed}
    (walked : Walked n row s walk t) (within : Within n (walk ++ [.redo])) :
    Walked n row s (walk ++ [.redo]) t.doRedo := by
  have place := within.part.place
  have place' := within.place
  have next := textAt_redo within.part
  generalize here : textAt n walk = k at place next
  rw [next] at place'
  have low : k < n := place'.1
  have between := edits.between low
  obtain ⟨undone, entry⟩ := walked.away k low (Nat.le_of_eq here)
  have pos : t.undopos = slot n t.undo.length k := by rw [walked.undopos, here]
  rw [← pos] at entry
  obtain ⟨lines, count, mode, undopos, undo⟩ := doRedo_entry entry
  rw [walked.lines, here] at lines undo
  rw [pos] at undo undopos
  have length : t.doRedo.undo.length = t.undo.length := by rw [undo, List.length_set]
  have undoes : ∀ i, Undoes n (walk ++ [.redo]) i ↔ Undoes n walk i := fun i => by
    rw [undoes_concat]
    exact ⟨fun both => both.resolve_left fun first => Visit.noConfusion first.1, .inr⟩
  have deep := walked.deep
  refine ⟨?_, ?_, mode.trans walked.normal, ?_, length ▸ deep, ?_, ?_, ?_⟩
  · rw [lines, next, between.2.2.2.2, between.1]
  · rw [count, walked.count, here, next, between.2.2.1]
  · rw [undopos, length, next, slot, slot]
    omega
  all_goals
    intro i
    rw [length, next, undo, undoes]
  · intro inside near first
    have other : k ≠ i := fun same => first (same ▸ undone)
    rw [set_other _ deep ⟨low, by omega⟩ ⟨by omega, near⟩ other]
    exact walked.fresh i (by omega) near first
  · intro inside near again
    by_cases same : k = i
    · rw [← same, set_same _ deep low (by omega)]
      exact congrArg (fun text => some (⟨.modify, row k, after row s k, text⟩ : Undo)) between.2.2.2.1
    · rw [set_other _ deep ⟨low, by omega⟩ ⟨by omega, near⟩ same]
      exact walked.again i (by omega) near again
  · intro inside high
    rw [set_other _ deep ⟨low, inside⟩ ⟨by omega, by omega⟩ (by omega)]
    exact walked.away i inside (by omega)

/-- `u` on an entry that still has the old row. -/
theorem Walked.undo (edits : LineEdits n row s) {walk : List Visit} {t : Ed}
    (walked : Walked n row s walk t) (within : Within n (walk ++ [.undo])) {i : Nat}
    (here : textAt n walk = i + 1) (entry : t.undo[slot n t.undo.length i]? =
      some ⟨.modify, row i, before row s i, after row s i⟩) :
    Walked n row s (walk ++ [.undo]) t.doUndo := by
  have place := within.part.place
  have place' := within.place
  have next : textAt n (walk ++ [.undo]) = i := by rw [textAt_undo, here, Nat.add_sub_cancel]
  rw [here] at place
  rw [next] at place'
  have deep := walked.deep
  have between := edits.between place.1
  have pos : t.undopos = slot n t.undo.length i + 1 := by
    rw [walked.undopos, here, slot, slot]
    omega
  obtain ⟨lines, count, mode, undopos, undo⟩ := doUndo_entry pos entry
  rw [walked.lines, here] at lines undo
  have length : t.doUndo.undo.length = t.undo.length := by rw [undo, List.length_set]
  have undoes : ∀ k, Undoes n (walk ++ [.undo]) k ↔ k = i + 1 ∨ Undoes n walk k := fun k => by
    rw [undoes_concat, here]
    constructor
    · exact fun both => both.imp (·.2.symm) id
    · exact fun both => both.imp (⟨rfl, ·.symm⟩) id
  refine ⟨?_, ?_, mode.trans walked.normal, ?_, length ▸ deep, ?_, ?_, ?_⟩
  · rw [lines, next, between.2.2.2.1, between.2.1]
  · rw [count, walked.count, here, next, between.2.2.1]
  · rw [undopos, length, next]
  all_goals
    intro j
    rw [length, next, undo, undoes]
  · intro inside near first
    rw [set_other _ deep ⟨place.1, by omega⟩ ⟨by omega, near⟩ (by omega)]
    exact walked.fresh j (by omega) near fun undone => first (.inr undone)
  · intro inside near again
    rw [set_other _ deep ⟨place.1, by omega⟩ ⟨by omega, near⟩ (by omega)]
    exact walked.again j (by omega) near (again.resolve_left (by omega))
  · intro inside high
    by_cases same : i = j
    · rw [← same, set_same _ deep place.1 (by omega)]
      refine ⟨.inl rfl, ?_⟩
      exact congrArg (fun text => some (⟨.modify, row i, text, after row s i⟩ : Undo)) between.2.2.2.2
    · rw [set_other _ deep ⟨place.1, inside⟩ ⟨by omega, by omega⟩ same]
      have away := walked.away j inside (by omega)
      exact ⟨.inr away.1, away.2⟩

theorem Walked.restored {walk : List Visit} {t : Ed} (walked : Walked n row s walk t) :
    Restored (s (textAt n walk)) t :=
  ⟨walked.count, fun i _ _ => congrFun walked.lines i⟩

theorem Within.undo {walk : List Visit} (within : Within n (walk ++ [.undo])) :
    ∃ i, textAt n walk = i + 1 ∧ n ≤ i + maxUndo := by
  have bound : walk.count .undo + 1 ≤ walk.count .redo + min n maxUndo := by
    have whole := (within _ List.prefix_rfl).2
    rwa [List.count_append, List.count_append] at whole
  refine ⟨textAt n walk - 1, ?_, ?_⟩
  · rw [textAt]
    omega
  · rw [textAt]
    omega

/-- `u` on an entry whose sides were exchanged: the text stays as it is. -/
theorem Walked.undo_again (edits : LineEdits n row s) {walk : List Visit} {t : Ed}
    (walked : Walked n row s walk t) {i : Nat} (here : textAt n walk = i + 1) (low : i < n)
    (near : n ≤ i + maxUndo) (undone : Undoes n walk (i + 1)) :
    Restored (s i) t.doUndo ↔ Restored (s i) (s (i + 1)) := by
  have deep := walked.deep
  have between := edits.between low
  have pos : t.undopos = slot n t.undo.length i + 1 := by
    rw [walked.undopos, here, slot, slot]
    omega
  obtain ⟨lines, count, -⟩ := doUndo_entry pos (walked.again i (by omega) near undone)
  have stays : t.doUndo.lines = (s (i + 1)).lines := by
    rw [lines, walked.lines, here, between.2.2.2.2]
    exact Function.update_eq_self (row i) (s (i + 1)).lines
  rw [Restored, Restored, stays, count, walked.count, here]

/-- One more key: when the text is right behind it. -/
theorem Walked.step (edits : LineEdits n row s) (disk : Disk) {walk : List Visit} {t : Ed}
    (walked : Walked n row s walk t) {visit : Visit} (within : Within n (walk ++ [visit])) :
    ∃ u, press (disk, visit.key) t = some u ∧
      (Restored (s (textAt n (walk ++ [visit]))) u ↔ (visit = .undo → Undoes n walk (textAt n walk) →
        Restored (s (textAt n walk - 1)) (s (textAt n walk)))) ∧
      (Restored (s (textAt n (walk ++ [visit]))) u → Walked n row s (walk ++ [visit]) u) := by
  cases visit with
  | redo =>
      have next := walked.redo edits within
      exact ⟨t.doRedo, press_redo disk walked.normal,
        ⟨fun _ visit => Visit.noConfusion visit, fun _ => next.restored⟩, fun _ => next⟩
  | undo =>
      refine ⟨t.doUndo, press_undo disk walked.normal, ?_⟩
      obtain ⟨i, here, near⟩ := within.undo
      have low : i < n := by
        have place := within.part.place
        omega
      have next : textAt n (walk ++ [.undo]) = i := by rw [textAt_undo, here, Nat.add_sub_cancel]
      by_cases undone : Undoes n walk (i + 1)
      · have again := walked.undo_again edits here low near undone
        rw [next, here, Nat.add_sub_cancel, again]
        refine ⟨⟨fun same _ _ => same, fun same => same rfl undone⟩, fun same => ?_⟩
        have edit := edits.edit i low
        have unchanged : after row s i = before row s i := same.2 (row i) edit.place.1 edit.place.2
        have entry := walked.again i (by omega) near undone
        refine walked.undo edits within here ?_
        rw [entry, unchanged]
      · have right := walked.undo edits within here (walked.fresh i (by omega) near undone)
        refine ⟨⟨fun _ _ again => ?_, fun _ => right.restored⟩, fun _ => right⟩
        exact absurd (here ▸ again) undone

theorem alternates_nil (disk : Disk) : Alternates n s disk [] := by
  intro part inside
  rw [List.prefix_nil.mp inside]
  exact ⟨s n, rfl, rfl, fun _ _ _ => rfl⟩

theorem undoneOnce_nil : UndoneOnce n s [] :=
  fun part inside => absurd (List.prefix_nil.mp inside)
    (List.append_ne_nil_of_right_ne_nil part (List.cons_ne_nil _ _))

/-- The walk as a whole, and the editor behind it. -/
theorem alternates_walked (edits : LineEdits n row s) (some_ : 0 < n) (disk : Disk) (walk : List Visit)
    (within : Within n walk) : (Alternates n s disk walk ↔ UndoneOnce n s walk) ∧
      (UndoneOnce n s walk → ∃ t, walked disk walk (s n) = some t ∧ Walked n row s walk t) := by
  induction walk using List.reverseRecOn with
  | nil =>
      exact ⟨iff_of_true (alternates_nil disk) undoneOnce_nil,
        fun _ => ⟨s n, rfl, Walked.start edits some_⟩⟩
  | append_singleton walk visit ih =>
      obtain ⟨same, reached⟩ := ih within.part
      rw [alternates_concat, undoneOnce_concat, same]
      by_cases once : UndoneOnce n s walk
      · obtain ⟨t, ran, right⟩ := reached once
        obtain ⟨u, pressed, right_iff, next⟩ := right.step edits disk within
        have concat : walked disk (walk ++ [visit]) (s n) = press (disk, visit.key) t := walked_concat ran
        have whole := concat.trans pressed
        rw [whole]
        constructor
        · apply and_congr_right
          intro _
          constructor
          · rintro ⟨_, ⟨⟩, restored⟩
            exact right_iff.mp restored
          · exact fun last => ⟨u, rfl, right_iff.mpr last⟩
        · exact fun both => ⟨u, rfl, next (right_iff.mpr both.2)⟩
      · exact ⟨⟨fun both => absurd both.1 once, fun both => absurd both.1 once⟩, fun both => absurd both.1 once⟩

/-- Where `u` and Ctrl-R give the texts in turn: over walks that take no edit back a
second time, unless it left the text as it was. -/
theorem undo_redo_alternate_iff (edits : LineEdits n row s) (disk : Disk) (walk : List Visit)
    (within : Within n walk) : Alternates n s disk walk ↔ UndoneOnce n s walk := by
  by_cases some_ : 0 < n
  · exact (alternates_walked edits some_ disk walk within).1
  · obtain rfl : n = 0 := Nat.eq_zero_of_not_pos some_
    cases walk with
    | nil => exact iff_of_true (alternates_nil disk) undoneOnce_nil
    | cons visit walk =>
        have bounds := within [visit] ((List.prefix_append [visit] walk))
        cases visit with
        | undo => exact absurd bounds.2 (by decide)
        | redo => exact absurd bounds.1 (by decide)

end Walk

/-! `x` on the line "ab", and then `u` and Ctrl-R. -/

def crossed : Ed := ((opened [97, 98]).deleteChar).getD (opened [97, 98])

theorem crossed_edits : LineEdits 1 (fun _ => 0) fun i => if i = 0 then opened [97, 98] else crossed where
  edit := by
    intro i low
    obtain rfl : i = 0 := Nat.lt_one_iff.mp low
    exact deleteChar_lineEdit (opened_tidy [97, 98]).toBody
      (show (opened [97, 98]).curCol < (opened [97, 98]).len (opened [97, 98]).curRow by decide)
      (show (opened [97, 98]).deleteChar = some crossed from rfl)
  normal := rfl

theorem within_of_depths {n : Nat} {walk : List Visit} (depths : ∀ i ≤ walk.length,
    (walk.take i).count .redo ≤ (walk.take i).count .undo ∧
      (walk.take i).count .undo ≤ (walk.take i).count .redo + min n maxUndo) : Within n walk := by
  intro part inside
  rw [List.prefix_iff_eq_take.mp inside]
  exact depths part.length inside.length_le

/-- Once back and forth. -/
theorem undo_redo_alternate_iff_once : Alternates 1
    (fun i => if i = 0 then opened [97, 98] else crossed) noDisk [.undo, .redo] := by
  refine (undo_redo_alternate_iff crossed_edits noDisk [.undo, .redo]
    (within_of_depths (by decide))).mpr fun part inside again => ?_
  obtain ⟨first, before, -⟩ := again
  have short := before.length_le
  have long := inside.length_le
  rw [List.length_append] at short long
  obtain ⟨visit, rfl⟩ : ∃ visit, part = [visit] := List.length_eq_one_iff.mp (by
    simp only [List.length_cons, List.length_nil] at short long
    omega)
  exact absurd inside (by cases visit <;> decide)

/-- A second `u` leaves the "b" of the edit. -/
theorem second_undo_stays : ¬ ∀ (n : Nat) (row : Nat → Int) (s : Nat → Ed), LineEdits n row s →
    ∀ (disk : Disk) (walk : List Visit), Within n walk → Alternates n s disk walk := by
  intro claim
  obtain ⟨t, ran, same⟩ := claim 1 _ _ crossed_edits noDisk [.undo, .redo, .undo]
    (within_of_depths (by decide)) _ List.prefix_rfl
  obtain rfl := Option.some.inj ran
  exact absurd (same.2 0 (by decide) (by decide)) (by decide)

end Zenbite.Edit
