import Mathlib.Data.Int.Init
import Zenbite.Edit.Careful

/-! `u` right after an editing command: when it gives back the rows that the command
found. -/

namespace Zenbite.Edit

/-! What the loops that move rows undo of each other. -/

section Rows
variable {lines : Int → Text} {count : Int}

theorem rows_alike {a b : Int} (step : ∀ i, a ≤ i → i < b → lines (i + 1) = lines i) :
    ∀ i, a ≤ i → i ≤ b → lines i = lines a := by
  intro i low
  induction i, low using Int.leInduction with
  | base => exact fun _ => rfl
  | succ i low ih =>
      intro high
      rw [step i low (by omega)]
      exact ih (by omega)

/-- A line that went comes back where it was. -/
theorem bring_closed {row : Int} (i : Int) :
    i < count → Function.update
      (Ed.openedRows (Ed.closedRows lines row 1 count) row (count - 1)) row (lines row) i = lines i := by
  intro high
  by_cases here : i = row
  · rw [here, Function.update_self]
  · rw [Function.update_of_ne here, Ed.openedRows]
    by_cases behind : row < i ∧ i ≤ count - 1
    · rw [if_pos behind, Ed.closedRows, if_pos (by omega)]
      exact congrArg lines (by omega)
    · rw [if_neg behind, Ed.closedRows, if_neg (by omega)]

/-- The rows when row `row` joins the one before it. -/
def joinedRows (lines : Int → Text) (row count : Int) : Int → Text :=
  Ed.closedRows (Function.update lines (row - 1) (lines (row - 1) ++ lines row)) row 1 count

/-- A deleted-line entry for row `slot` with the text `old` undoes the join of `row`: the
rows from the one to the other are empty, and so is its text where it shows. -/
def Rejoins (lines : Int → Text) (row count slot : Int) (old : Text) : Prop :=
  if slot < row then old = [] ∧ ∀ i, slot ≤ i → i < row → lines i = []
  else (slot < count → old = []) ∧ ∀ i, row ≤ i → i ≤ slot → i < count → lines i = []

theorem joinedRows_before {row i : Int} (before : i < row - 1) : joinedRows lines row count i = lines i := by
  rw [joinedRows, Ed.closedRows, if_neg (by omega), Function.update_of_ne (by omega)]

theorem joinedRows_joined {row : Int} :
    joinedRows lines row count (row - 1) = lines (row - 1) ++ lines row := by
  rw [joinedRows, Ed.closedRows, if_neg (by omega), Function.update_self]

theorem joinedRows_behind {row i : Int} (behind : row ≤ i) (inside : i + 1 < count) :
    joinedRows lines row count i = lines (i + 1) := by
  rw [joinedRows, Ed.closedRows, if_pos ⟨behind, inside⟩, Function.update_of_ne (by omega)]

/-- What lay in the last row stays there. -/
theorem joinedRows_last {row i : Int} (behind : row ≤ i) (outside : count ≤ i + 1) :
    joinedRows lines row count i = lines i := by
  rw [joinedRows, Ed.closedRows, if_neg (by omega), Function.update_of_ne (by omega)]

theorem bring_joined_iff {row slot : Int} {old : Text} (place : 0 < row ∧ row < count) (low : 0 ≤ slot) :
    (∀ i, 0 ≤ i → i < count → Function.update
      (Ed.openedRows (joinedRows lines row count) slot (count - 1)) slot old i = lines i) ↔
    Rejoins lines row count slot old := by
  have opened : ∀ i, i ≠ slot → i < count → Function.update
      (Ed.openedRows (joinedRows lines row count) slot (count - 1)) slot old i =
      joinedRows lines row count (if slot < i then i - 1 else i) := by
    intro i other high
    rw [Function.update_of_ne other, Ed.openedRows]
    by_cases behind : slot < i
    · rw [if_pos ⟨behind, by omega⟩, if_pos behind]
    · rw [if_neg (by omega), if_neg behind]
  rw [Rejoins]
  constructor
  · intro same
    split
    next above =>
      have joined := same row (by omega) place.2
      rw [opened row (by omega) place.2, if_pos above, joinedRows_joined] at joined
      have empty : lines (row - 1) = [] := List.append_left_eq_self.mp joined
      have step : ∀ i, slot ≤ i → i < row - 1 → lines (i + 1) = lines i := by
        intro i first last
        have moved := same (i + 1) (by omega) (by omega)
        rw [opened (i + 1) (by omega) (by omega), if_pos (by omega), joinedRows_before (by omega)] at moved
        rw [← moved]
        exact congrArg lines (by omega)
      have alike := rows_alike step
      have all : ∀ i, slot ≤ i → i < row → lines i = [] := fun i first last => by
        rw [alike i first (by omega), ← alike (row - 1) (by omega) (Int.le_refl _), empty]
      refine ⟨?_, all⟩
      have here := same slot low (by omega)
      rw [Function.update_self] at here
      rw [here, all slot (Int.le_refl _) above]
    next below =>
      have joined := same (row - 1) (by omega) (by omega)
      rw [opened (row - 1) (by omega) (by omega), if_neg (by omega), joinedRows_joined] at joined
      have empty : lines row = [] := List.append_right_eq_self.mp joined
      have step : ∀ i, row ≤ i → i < min slot (count - 1) → lines (i + 1) = lines i := by
        intro i first last
        have moved := same i (by omega) (by omega)
        rwa [opened i (by omega) (by omega), if_neg (by omega), joinedRows_behind first (by omega)] at moved
      have all : ∀ i, row ≤ i → i ≤ slot → i < count → lines i = [] := fun i first last high => by
        rw [rows_alike step i first (by omega), empty]
      refine ⟨fun inside => ?_, all⟩
      have here := same slot low inside
      rw [Function.update_self] at here
      rw [here, all slot (by omega) (Int.le_refl _) inside]
  · intro empty i first last
    by_cases here : i = slot
    · rw [here, Function.update_self]
      split at empty
      next above => rw [empty.1, empty.2 slot (Int.le_refl _) above]
      next below => rw [empty.1 (by omega), empty.2 slot (by omega) (Int.le_refl _) (by omega)]
    · rw [opened i here last]
      split at empty
      next above =>
        by_cases after : row < i
        · rw [if_pos (by omega), joinedRows_behind (by omega) (by omega)]
          exact congrArg lines (by omega)
        by_cases joined : i = row
        · rw [if_pos (by omega), joined, joinedRows_joined, empty.2 (row - 1) (by omega) (by omega)]
          rfl
        by_cases between : slot < i
        · rw [if_pos between, joinedRows_before (by omega), empty.2 (i - 1) (by omega) (by omega),
            empty.2 i (by omega) (by omega)]
        · rw [if_neg between, joinedRows_before (by omega)]
      next below =>
        by_cases before : i < row - 1
        · rw [if_neg (by omega), joinedRows_before before]
        by_cases joined : i = row - 1
        · rw [if_neg (by omega), joined, joinedRows_joined,
            empty.2 row (Int.le_refl _) (by omega) place.2, List.append_nil]
        by_cases between : i < slot
        · rw [if_neg (by omega)]
          by_cases inside : i + 1 < count
          · rw [joinedRows_behind (by omega) inside, empty.2 (i + 1) (by omega) (by omega) inside,
              empty.2 i (by omega) (by omega) last]
          · rw [joinedRows_last (by omega) (by omega)]
        · rw [if_pos (by omega), joinedRows_behind (by omega) (by omega)]
          exact congrArg lines (by omega)

/-- An inserted-line entry for row `slot` takes out the row that came in at `row`: the rows
between the two are its copies. -/
theorem drop_opened_iff {row slot : Int} {text : Text} (place : 0 < row ∧ row ≤ count) (low : 0 ≤ slot) :
    (∀ i, 0 ≤ i → i < count → Ed.closedRows
      (Function.update (Ed.openedRows lines row count) row text) slot 1 (count + 1) i = lines i) ↔
    ∀ i, (slot ≤ i ∧ i < row ∨ row ≤ i ∧ i < slot) → i < count → lines i = text := by
  have closed : ∀ i, i < count → Ed.closedRows
      (Function.update (Ed.openedRows lines row count) row text) slot 1 (count + 1) i =
      Function.update (Ed.openedRows lines row count) row text (if slot ≤ i then i + 1 else i) := by
    intro i high
    rw [Ed.closedRows]
    by_cases behind : slot ≤ i
    · rw [if_pos ⟨behind, by omega⟩, if_pos behind]
    · rw [if_neg (by omega), if_neg behind]
  have before : ∀ i, i < row → Function.update (Ed.openedRows lines row count) row text i = lines i := by
    intro i first
    rw [Function.update_of_ne (by omega), Ed.openedRows, if_neg (by omega)]
  have after : ∀ i, row ≤ i → i < count →
      Function.update (Ed.openedRows lines row count) row text (i + 1) = lines i := by
    intro i first last
    rw [Function.update_of_ne (by omega), Ed.openedRows, if_pos (by omega)]
    exact congrArg lines (by omega)
  constructor
  · intro same i between high
    rcases between with between | between
    · have step : ∀ j, slot ≤ j → j < row - 1 → lines (j + 1) = lines j := by
        intro j first last
        have moved := same j (by omega) (by omega)
        rwa [closed j (by omega), if_pos first, before (j + 1) (by omega)] at moved
      have last := same (row - 1) (by omega) (by omega)
      rw [closed (row - 1) (by omega), if_pos (by omega), Int.sub_add_cancel, Function.update_self] at last
      have alike := rows_alike step
      rw [last, alike i between.1 (by omega), alike (row - 1) (by omega) (Int.le_refl _)]
    · have step : ∀ j, row ≤ j → j < min (slot - 1) (count - 1) → lines (j + 1) = lines j := by
        intro j first last
        have moved := same (j + 1) (by omega) (by omega)
        rw [closed (j + 1) (by omega), if_neg (by omega), after j first (by omega)] at moved
        exact moved.symm
      have first := same row (by omega) (by omega)
      rw [closed row (by omega), if_neg (by omega), Function.update_self] at first
      rw [rows_alike step i between.1 (by omega), first]
  · intro copies i nonneg high
    rw [closed i high]
    by_cases behind : slot ≤ i
    · rw [if_pos behind]
      by_cases last : i < row - 1
      · rw [before (i + 1) (by omega), copies (i + 1) (by omega) (by omega), copies i (by omega) high]
      by_cases here : i = row - 1
      · rw [here, Int.sub_add_cancel, Function.update_self, copies (row - 1) (by omega) (by omega)]
      · rw [after i (by omega) high]
    · rw [if_neg behind]
      by_cases first : i < row
      · exact before i first
      by_cases here : i = row
      · rw [here, Function.update_self, copies row (by omega) (by omega)]
      · have moved := after (i - 1) (by omega) (by omega)
        rw [Int.sub_add_cancel] at moved
        rw [moved, copies (i - 1) (by omega) (by omega), copies i (by omega) high]

end Rows

/-! `u`. -/

/-- These rows are those of `s`. -/
def SameRows (s : Ed) (lines : Int → Text) (count : Int) : Prop :=
  count = s.lineCount ∧ ∀ i, 0 ≤ i → i < s.lineCount → lines i = s.lines i

/-- The buffer's lines and line count are those of `s`. -/
def Restored (s t : Ed) : Prop := SameRows s t.lines t.lineCount

/-- The entry that `u` applies. -/
def Ed.top (s : Ed) : Option Undo :=
  match s.undopos with
  | 0 => none
  | pos + 1 => s.undo[pos]?

section Undo
variable {s t : Ed}

theorem undo_none (top : t.top = none) : Restored s t.doUndo ↔ SameRows s t.lines t.lineCount := by
  have stays : t.doUndo = t := by
    rw [Ed.top] at top
    rw [Ed.doUndo]
    cases pos : t.undopos with
    | zero => rfl
    | succ k =>
        rw [pos] at top
        simp only [top]
  rw [stays]
  rfl

theorem doUndo_top {u : Undo} (top : t.top = some u) :
    ∃ pos, t.undopos = pos + 1 ∧ t.undo[pos]? = some u := by
  rw [Ed.top] at top
  split at top
  · cases top
  next pos last => exact ⟨pos, last, top⟩

theorem undo_modify {row : Int} {old new : Text} (top : t.top = some ⟨.modify, row, old, new⟩) :
    Restored s t.doUndo ↔
      SameRows s (Function.update t.lines row (old.take lineMax)) t.lineCount := by
  obtain ⟨pos, last, found⟩ := doUndo_top top
  rw [Ed.doUndo, last]
  dsimp only
  rw [found]
  rfl

theorem undo_insertLine {row : Int} {old new : Text} (top : t.top = some ⟨.insertLine, row, old, new⟩) :
    Restored s t.doUndo ↔
      SameRows s (Ed.closedRows t.lines row 1 t.lineCount) (t.lineCount - 1) := by
  obtain ⟨pos, last, found⟩ := doUndo_top top
  rw [Ed.doUndo, last]
  dsimp only
  rw [found]
  rfl

theorem undo_deleteLine {row : Int} {old new : Text} (top : t.top = some ⟨.deleteLine, row, old, new⟩) :
    Restored s t.doUndo ↔ SameRows s (Function.update (Ed.openedRows t.lines row t.lineCount) row
      (old.take lineMax)) (t.lineCount + 1) := by
  obtain ⟨pos, last, found⟩ := doUndo_top top
  rw [Ed.doUndo, last]
  dsimp only
  rw [found]
  rfl

@[simp]
theorem top_pushUndo (s : Ed) (op : UndoOp) (row : Int) (old new : Text) :
    (s.pushUndo op row old new).top = some ⟨op, row, old.take lineMax, new.take lineMax⟩ :=
  List.getElem?_concat_length

/-- `u` leaves these rows alone. -/
def TopIdle (s : Ed) : Prop :=
  ∀ u, s.top = some u → u.op = .modify ∧ (u.row < s.lineCount → s.lines u.row = u.old)

theorem top_tidy (tidy : UndoTidy s) {u : Undo} (top : s.top = some u) :
    0 ≤ u.row ∧ Fine u.old ∧ Fine u.new := by
  obtain ⟨pos, last, found⟩ := doUndo_top top
  exact tidy.entries u (List.mem_of_getElem? found)

theorem sameRows_rfl (s : Ed) : SameRows s s.lines s.lineCount := ⟨rfl, fun _ _ _ => rfl⟩

/-- A command that changes no row and pushes nothing. -/
theorem idle_iff (tidy : UndoTidy s) (lines : t.lines = s.lines) (count : t.lineCount = s.lineCount)
    (stack : t.top = s.top) : Restored s t.doUndo ↔ TopIdle s := by
  cases top : s.top with
  | none =>
      rw [undo_none (stack.trans top), lines, count]
      constructor
      · intro _ u found
        rw [top] at found
        cases found
      · exact fun _ => sameRows_rfl s
  | some u =>
      have entry := top_tidy tidy top
      have only : TopIdle s ↔ u.op = .modify ∧ (u.row < s.lineCount → s.lines u.row = u.old) := by
        rw [TopIdle, top]
        constructor
        · exact fun idle => idle u rfl
        · rintro idle _ ⟨⟩
          exact idle
      rw [only]
      obtain ⟨op, row, old, new⟩ := u
      cases op with
      | modify =>
          rw [undo_modify (stack.trans top), lines, count, entry.2.1.take_all]
          constructor
          · intro same
            refine ⟨rfl, fun inside => ?_⟩
            have here := same.2 row entry.1 inside
            rw [Function.update_self] at here
            exact here.symm
          · intro idle
            refine ⟨rfl, fun i low high => ?_⟩
            by_cases here : i = row
            · rw [here, Function.update_self]
              exact (idle.2 (here ▸ high)).symm
            · rw [Function.update_of_ne here]
      | insertLine =>
          rw [undo_insertLine (stack.trans top), count]
          constructor
          · intro same
            have := same.1
            omega
          · exact fun idle => UndoOp.noConfusion idle.1
      | deleteLine =>
          rw [undo_deleteLine (stack.trans top), count]
          constructor
          · intro same
            have := same.1
            omega
          · exact fun idle => UndoOp.noConfusion idle.1

/-! The commands. -/

/-- A line got another text, and the entry has the old one. -/
theorem rewrite_undone (row : Int) (text : Text) {old new : Text}
    (lines : t.lines = Function.update s.lines row text)
    (count : t.lineCount = s.lineCount) (top : t.top = some ⟨.modify, row, old, new⟩)
    (kept : old.take lineMax = s.lines row) : Restored s t.doUndo := by
  rw [undo_modify top, lines, count, kept]
  refine ⟨rfl, fun i _ _ => ?_⟩
  rw [Function.update_idem, Function.update_eq_self]

/-- The line below joins the current one. -/
def JoinsBelow (s : Ed) : Prop :=
  s.curRow + 1 < s.lineCount ∧ s.len s.curRow + s.len (s.curRow + 1) < 119

/-- The current line joins the one above. -/
def JoinsAbove (s : Ed) : Prop := 0 < s.curRow ∧ s.len (s.curRow - 1) + s.len s.curRow < 119

theorem Fine.taken_twice {text : Text} (fine : Fine text) : (text.take lineMax).take lineMax = text := by
  rw [fine.take_all, fine.take_all]

theorem deleteChar_undone (body : Body s) (done : s.deleteChar = some t) :
    Restored s t.doUndo ↔ s.curCol < s.len s.curRow ∨ ¬ JoinsBelow s ∧ TopIdle s := by
  rw [Ed.deleteChar] at done
  dsimp only at done
  split at done
  next atEnd =>
    have inLine : ¬ s.curCol < s.len s.curRow := by omega
    have idle : ¬ JoinsBelow s → some s = some t →
        (Restored s t.doUndo ↔ s.curCol < s.len s.curRow ∨ ¬ JoinsBelow s ∧ TopIdle s) := by
      intro stays same
      obtain rfl := Option.some.inj same
      rw [idle_iff body.toUndoTidy rfl rfl rfl]
      exact ⟨fun idle => .inr ⟨stays, idle⟩, fun undone => (undone.resolve_left inLine).2⟩
    split at done
    next last => exact idle (fun joins => by have := joins.1; omega) done
    next below =>
      split at done
      next long => exact idle (fun joins => by have := joins.2; omega) done
      next short =>
        have count : t.lineCount = s.lineCount - 1 := by
          rw [← Option.some.inj done]
          rfl
        obtain ⟨old, new, top⟩ : ∃ old new, t.top = some ⟨.insertLine, s.curRow + 1, old, new⟩ := by
          rw [← Option.some.inj done]
          exact ⟨_, _, top_pushUndo _ _ _ _ _⟩
        rw [undo_insertLine top]
        constructor
        · intro same
          have := same.1
          omega
        · rintro (inside | ⟨stays, -⟩)
          · exact absurd inside inLine
          · exact absurd ⟨by omega, by omega⟩ stays
  next inLine =>
    obtain ⟨line, -, rfl⟩ := Option.map_eq_some_iff.mp done
    have undone := rewrite_undone (s := s) s.curRow line (t := { (s.setLine s.curRow line).pushUndo .modify s.curRow
      (s.lines s.curRow) line with dirty := true }) rfl rfl (top_pushUndo _ _ _ _ _) body.here.taken_twice
    exact ⟨fun _ => .inl (by omega), fun _ => undone⟩

/-- A row less than before: only a deleted-line entry gives the number back. -/
theorem undo_shrunk (count : t.lineCount = s.lineCount - 1) : Restored s t.doUndo ↔
    ∃ u, t.top = some u ∧ u.op = .deleteLine ∧ ∀ i, 0 ≤ i → i < s.lineCount → Function.update
      (Ed.openedRows t.lines u.row (s.lineCount - 1)) u.row (u.old.take lineMax) i = s.lines i := by
  constructor
  · intro same
    cases top : t.top with
    | none =>
        have rows := ((undo_none top).mp same).1
        omega
    | some u =>
        obtain ⟨op, row, old, new⟩ := u
        cases op with
        | modify =>
            have rows := ((undo_modify top).mp same).1
            omega
        | insertLine =>
            have rows := ((undo_insertLine top).mp same).1
            omega
        | deleteLine =>
            have rows := ((undo_deleteLine top).mp same).2
            rw [count] at rows
            exact ⟨_, rfl, rfl, rows⟩
  · rintro ⟨⟨op, row, old, new⟩, top, rfl, rows⟩
    apply (undo_deleteLine top).mpr
    rw [count]
    exact ⟨by omega, rows⟩

/-- A row more than before: only an inserted-line entry gives the number back. -/
theorem undo_grown (count : t.lineCount = s.lineCount + 1) : Restored s t.doUndo ↔
    ∃ u, t.top = some u ∧ u.op = .insertLine ∧ ∀ i, 0 ≤ i → i < s.lineCount →
      Ed.closedRows t.lines u.row 1 (s.lineCount + 1) i = s.lines i := by
  constructor
  · intro same
    cases top : t.top with
    | none =>
        have rows := ((undo_none top).mp same).1
        omega
    | some u =>
        obtain ⟨op, row, old, new⟩ := u
        cases op with
        | modify =>
            have rows := ((undo_modify top).mp same).1
            omega
        | insertLine =>
            have rows := ((undo_insertLine top).mp same).2
            rw [count] at rows
            exact ⟨_, rfl, rfl, rows⟩
        | deleteLine =>
            have rows := ((undo_deleteLine top).mp same).1
            omega
  · rintro ⟨⟨op, row, old, new⟩, top, rfl, rows⟩
    apply (undo_insertLine top).mpr
    rw [count]
    exact ⟨by omega, rows⟩

/-- The last entry brings a line back that undoes the join of the current row with the
one above. -/
def TopRejoins (s : Ed) : Prop :=
  ∃ u, s.top = some u ∧ u.op = .deleteLine ∧ Rejoins s.lines s.curRow s.lineCount u.row u.old

/-- The join leaves no entry of its own, so `u` applies the one from before. -/
theorem join_undone (body : Body s) (above : 0 < s.curRow)
    (lines : t.lines = joinedRows s.lines s.curRow s.lineCount) (count : t.lineCount = s.lineCount - 1)
    (stack : t.top = s.top) : Restored s t.doUndo ↔ TopRejoins s := by
  rw [undo_shrunk count, stack, lines, TopRejoins]
  apply exists_congr
  intro u
  apply and_congr_right
  intro top
  have entry := top_tidy body.toUndoTidy top
  rw [entry.2.1.take_all]
  exact and_congr_right fun _ => bring_joined_iff ⟨above, body.rowHigh⟩ entry.1

/-- What a backspace does to the rows and the stack. -/
theorem backspaceChar_cases (done : s.backspaceChar = some t) :
    (0 < s.curCol ∧ ∃ line new, t.lines = Function.update s.lines s.curRow line ∧
      t.lineCount = s.lineCount ∧
      t.top = some ⟨.modify, s.curRow, (s.lines s.curRow).take lineMax, new⟩) ∨
    (s.curCol ≤ 0 ∧ ¬ JoinsAbove s ∧ t = s) ∨
    (s.curCol ≤ 0 ∧ JoinsAbove s ∧ t.lines = joinedRows s.lines s.curRow s.lineCount ∧
      t.lineCount = s.lineCount - 1 ∧ t.undo = s.undo ∧ t.undopos = s.undopos) := by
  rw [Ed.backspaceChar] at done
  dsimp only at done
  split at done
  next atStart =>
    split at done
    next first =>
      exact .inr (.inl ⟨atStart, fun joins => by have := joins.1; omega, (Option.some.inj done).symm⟩)
    split at done
    next long =>
      exact .inr (.inl ⟨atStart, fun joins => by have := joins.2; omega, (Option.some.inj done).symm⟩)
    next above short =>
      refine .inr (.inr ⟨atStart, ⟨by omega, by omega⟩, ?_⟩)
      rw [← Option.some.inj done]
      exact ⟨rfl, rfl, rfl, rfl⟩
  next inLine =>
    obtain ⟨line, -, same⟩ := Option.map_eq_some_iff.mp done
    refine .inl ⟨by omega, line, line.take lineMax, ?_⟩
    rw [← same]
    exact ⟨rfl, rfl, top_pushUndo _ _ _ _ _⟩

theorem top_same (undo : t.undo = s.undo) (pos : t.undopos = s.undopos) : t.top = s.top := by
  rw [Ed.top, Ed.top, undo, pos]

theorem backspaceChar_undone (body : Body s) (done : s.backspaceChar = some t) :
    Restored s t.doUndo ↔ 0 < s.curCol ∨
      s.curCol ≤ 0 ∧ JoinsAbove s ∧ TopRejoins s ∨ ¬ JoinsAbove s ∧ TopIdle s := by
  rcases backspaceChar_cases done with ⟨inside, line, new, lines, count, top⟩ |
    ⟨atStart, stays, rfl⟩ | ⟨atStart, joins, lines, count, undo, pos⟩
  · exact ⟨fun _ => .inl inside, fun _ => rewrite_undone s.curRow line lines count top body.here.taken_twice⟩
  · rw [idle_iff body.toUndoTidy rfl rfl rfl]
    constructor
    · exact fun idle => .inr (.inr ⟨stays, idle⟩)
    · rintro (inside | ⟨-, joins, -⟩ | ⟨-, idle⟩)
      · omega
      · exact absurd joins stays
      · exact idle
  · rw [join_undone body joins.1 lines count (top_same undo pos)]
    constructor
    · exact fun same => .inr (.inl ⟨atStart, joins, same⟩)
    · rintro (inside | ⟨-, -, same⟩ | ⟨stays, -⟩)
      · omega
      · exact same
      · exact absurd joins stays

theorem deleteLine_undone (body : Body s) : Restored s s.deleteLine.doUndo ↔ 1 < s.lineCount := by
  have low := body.low
  have top : s.deleteLine.top = some ⟨.deleteLine, s.curRow, (s.lines s.curRow).take lineMax, []⟩ := by
    rw [Ed.deleteLine, if_neg (by omega)]
    dsimp only
    split <;> exact top_pushUndo s .deleteLine _ _ _
  rw [undo_deleteLine top]
  constructor
  · intro same
    by_contra last
    have one : s.deleteLine.lineCount = 1 := by
      rw [Ed.deleteLine, if_neg (by omega)]
      dsimp only
      rw [if_pos (by dsimp only [Ed.pushUndo]; omega)]
      rfl
    have := same.1
    omega
  · intro several
    have rows : s.deleteLine.lines = Ed.closedRows s.lines s.curRow 1 s.lineCount ∧
        s.deleteLine.lineCount = s.lineCount - 1 := by
      rw [Ed.deleteLine, if_neg (by omega)]
      dsimp only
      rw [if_neg (by dsimp only [Ed.pushUndo]; omega)]
      exact ⟨rfl, rfl⟩
    rw [rows.1, rows.2, body.here.taken_twice]
    exact ⟨by omega, fun i _ high => bring_closed i high⟩

theorem deleteToEol_undone (body : Body s) :
    Restored s s.deleteToEol.doUndo ↔ s.curCol < s.len s.curRow ∨ TopIdle s := by
  rw [Ed.deleteToEol]
  split
  next atEnd =>
    rw [idle_iff body.toUndoTidy rfl rfl rfl]
    exact ⟨.inr, fun undone => undone.resolve_left (by omega)⟩
  next inLine =>
    refine ⟨fun _ => .inl (by omega), fun _ => ?_⟩
    exact rewrite_undone s.curRow ((s.lines s.curRow).take s.curCol.toNat) rfl rfl
      (top_pushUndo _ _ _ _ _) body.here.taken_twice

/-- What visual mode must find so that `u` gives its rows back. -/
def VisualUndoable (s : Ed) : Prop :=
  s.vArow = s.curRow ∧ (min s.vAcol s.curCol < s.len s.curRow ∨ TopIdle s) ∨
  s.vArow ≠ s.curRow ∧ s.lineCount = 2 ∧ s.lines 1 = []

theorem visualDelete_undone (body : Body s) (anchor : 0 ≤ s.vArow ∧ s.vArow < s.lineCount)
    (done : s.visualDelete = some t) : Restored s t.doUndo ↔ VisualUndoable s := by
  have rows := selection_rows body anchor
  have single := selection_single (s := s)
  have several : s.selection.1 ≠ s.selection.2 → s.vArow ≠ s.curRow := by
    intro differ same
    rw [Ed.selection] at differ
    split at differ <;> simp_all
  rw [Ed.visualDelete] at done
  generalize s.selection = sel at rows single several done
  obtain ⟨r1, r2⟩ := sel
  dsimp only at rows single several done
  rw [VisualUndoable]
  split at done
  next same =>
    have here := single same
    rw [here.2] at done
    split at done
    next inside =>
      obtain ⟨edited, found, result⟩ := Option.map_eq_some_iff.mp done
      obtain ⟨line, -, change⟩ := Option.map_eq_some_iff.mp found
      obtain ⟨new, top⟩ : ∃ new, t.top = some ⟨.modify, s.curRow, (s.lines s.curRow).take lineMax, new⟩ := by
        rw [← result, ← change]
        exact ⟨_, top_pushUndo _ _ _ _ _⟩
      have undone := rewrite_undone (s := s) s.curRow line (by rw [← result, ← change]; rfl)
        (by rw [← result, ← change]; rfl) top body.here.taken_twice
      exact ⟨fun _ => .inl ⟨here.1, .inl inside⟩, fun _ => undone⟩
    next outside =>
      have result := Option.some.inj done
      rw [idle_iff body.toUndoTidy (by rw [← result]; rfl) (by rw [← result]; rfl) (by rw [← result]; rfl)]
      constructor
      · exact fun idle => .inl ⟨here.1, .inr idle⟩
      · rintro (⟨-, inside | idle⟩ | ⟨other, -⟩)
        · exact absurd inside outside
        · exact idle
        · exact absurd here.1 other
  next differ =>
    have other := several differ
    have result := Option.some.inj done
    have top : t.top = some ⟨.deleteLine, r1, (s.lines r1).take lineMax, []⟩ := by
      rw [← result]
      dsimp only
      split <;> exact top_pushUndo s .deleteLine _ _ _
    have fine := body.fine r1 rows.1 (by omega)
    rw [undo_deleteLine top, fine.taken_twice]
    by_cases all : s.lineCount - (r2 - r1 + 1) = 0
    · have after : t.lines = Function.update
          (Ed.closedRows s.lines r1 (r2 - r1 + 1) s.lineCount) 0 [] ∧ t.lineCount = 1 := by
        rw [← result, if_pos all]
        exact ⟨rfl, rfl⟩
      have first : r1 = 0 := by omega
      rw [after.1, after.2, first]
      constructor
      · intro same
        have two : s.lineCount = 2 := same.1.symm
        have second := same.2 1 (by decide) (by omega)
        rw [Function.update_of_ne (by decide), Ed.openedRows, if_pos (by decide), Int.sub_self,
          Function.update_self] at second
        exact .inr ⟨other, two, second.symm⟩
      · rintro (⟨same, -⟩ | ⟨-, two, empty⟩)
        · exact absurd same other
        · refine ⟨two.symm, fun i low high => ?_⟩
          by_cases here : i = 0
          · rw [here, Function.update_self]
          · have second : i = 1 := by omega
            rw [second, Function.update_of_ne (by decide), Ed.openedRows, if_pos (by decide), Int.sub_self,
              Function.update_self, empty]
    · have count : t.lineCount = s.lineCount - (r2 - r1 + 1) := by
        rw [← result, if_neg all]
        rfl
      constructor
      · intro same
        have := same.1
        omega
      · rintro (⟨same, -⟩ | ⟨-, two, -⟩)
        · exact absurd same other
        · omega

/-! Rows that come in. -/

theorem leaveInsert_top {row0 : Int} (save : Text) (place : 0 ≤ row0 ∧ row0 < t.lineCount) :
    (t.leaveInsert row0 save).top =
      some ⟨.modify, row0, save.take lineMax, (t.lines row0).take lineMax⟩ := by
  rw [Ed.leaveInsert, if_pos place]
  exact top_pushUndo _ _ _ _ _

theorem leaveInsert_rows (row0 : Int) (save : Text) :
    (t.leaveInsert row0 save).lines = t.lines ∧ (t.leaveInsert row0 save).lineCount = t.lineCount := by
  rw [Ed.leaveInsert]
  split <;> exact ⟨rfl, rfl⟩

theorem leaveInsert_mode (row0 : Int) (save : Text) : (t.leaveInsert row0 save).mode = .normal := rfl

/-- A row more than before, and ESC that saves the row it is on: `u` only puts that row back. -/
theorem grown_not_undone (row0 : Int) (save : Text) (place : 0 ≤ row0 ∧ row0 < t.lineCount)
    (grown : t.lineCount = s.lineCount + 1) : ¬ Restored s (t.leaveInsert row0 save).doUndo := by
  rw [undo_modify (leaveInsert_top save place), (leaveInsert_rows row0 save).2]
  intro same
  have := same.1
  omega

/-- The last entry takes the pasted row out again. -/
def TopUnpastes (s : Ed) : Prop :=
  ∃ u, s.top = some u ∧ u.op = .insertLine ∧
    ∀ i, (u.row ≤ i ∧ i ≤ s.curRow ∨ s.curRow < i ∧ i < u.row) → i < s.lineCount →
      s.lines i = Ed.pastedLine s.clip

/-- `p` makes a row. -/
def Pastes (s : Ed) : Prop := s.clip ≠ [] ∧ s.lineCount < maxLines

theorem pasted_undone (body : Body s)
    (lines : t.lines = Function.update (Ed.openedRows s.lines (s.curRow + 1) s.lineCount) (s.curRow + 1)
      (Ed.pastedLine s.clip))
    (count : t.lineCount = s.lineCount + 1) (stack : t.top = s.top) :
    Restored s t.doUndo ↔ TopUnpastes s := by
  have rowLow := body.rowLow
  have rowHigh := body.rowHigh
  rw [undo_grown count, stack, lines, TopUnpastes]
  apply exists_congr
  intro u
  apply and_congr_right
  intro top
  apply and_congr_right
  intro _
  have entry := top_tidy body.toUndoTidy top
  have place : 0 < s.curRow + 1 ∧ s.curRow + 1 ≤ s.lineCount := ⟨by omega, by omega⟩
  rw [drop_opened_iff place entry.1]
  constructor
  · exact fun copies i between => copies i (by omega)
  · exact fun copies i between => copies i (by omega)

theorem paste_undone (body : Body s) : Restored s s.paste.doUndo ↔
    Pastes s ∧ TopUnpastes s ∨ ¬ Pastes s ∧ TopIdle s := by
  by_cases pastes : Pastes s
  · have pasted := pasted_undone (t := s.paste) body
      (by rw [Ed.paste, if_neg pastes.1, if_pos pastes.2]; rfl)
      (by rw [Ed.paste, if_neg pastes.1, if_pos pastes.2]; rfl)
      (by rw [Ed.paste, if_neg pastes.1, if_pos pastes.2]; rfl)
    rw [pasted]
    exact ⟨fun same => .inl ⟨pastes, same⟩, fun undone => (undone.resolve_right fun h => h.1 pastes).2⟩
  · have stays : s.paste = s := by
      rw [Ed.paste]
      split
      · rfl
      next full =>
        rw [if_neg fun room => pastes ⟨full, room⟩]
    rw [stays, idle_iff body.toUndoTidy rfl rfl rfl]
    exact ⟨fun idle => .inr ⟨pastes, idle⟩, fun undone => (undone.resolve_left fun h => pastes h.1).2⟩

/-! Insert sessions. -/

/-- A character that is typed. -/
theorem typed_undone (body : Body s) {c : UInt8} (done : s.insertChar c = some t) :
    Restored s (t.leaveInsert s.curRow ((s.lines s.curRow).take lineMax)).doUndo := by
  have rowLow := body.rowLow
  have rowHigh := body.rowHigh
  obtain ⟨line, lines, count⟩ : ∃ line, t.lines = Function.update s.lines s.curRow line ∧
      t.lineCount = s.lineCount := by
    rw [Ed.insertChar] at done
    split at done
    · obtain rfl := Option.some.inj done
      exact ⟨s.lines s.curRow, (Function.update_eq_self _ _).symm, rfl⟩
    · obtain ⟨line, -, same⟩ := Option.map_eq_some_iff.mp done
      rw [← same]
      exact ⟨line, rfl, rfl⟩
  have rows := leaveInsert_rows (t := t) s.curRow ((s.lines s.curRow).take lineMax)
  refine rewrite_undone s.curRow line (by rw [rows.1, lines]) (by rw [rows.2, count])
    (leaveInsert_top _ (by omega)) ?_
  rw [body.here.take_all, body.here.taken_twice]

theorem newline_not_undone (body : Body s) (done : s.splitLine = some t) (mode : Mode) :
    ¬ Restored s ((t.setMode mode).leaveInsert t.curRow ((s.lines s.curRow).take lineMax)).doUndo := by
  have rowLow := body.rowLow
  have rowHigh := body.rowHigh
  rw [Ed.splitLine] at done
  dsimp only at done
  split at done
  · cases done
  · have row : t.curRow = s.curRow + 1 := by
      rw [← Option.some.inj done]
      rfl
    have count : t.lineCount = s.lineCount + 1 := by
      rw [← Option.some.inj done]
      rfl
    exact grown_not_undone (t := t.setMode mode) t.curRow _ (show 0 ≤ t.curRow ∧ t.curRow < t.lineCount by omega) count

theorem splitLine_some (body : Body s) : ∃ t, s.splitLine = some t := by
  have colHigh := body.colHigh
  rw [Ed.splitLine, if_neg (by omega)]
  exact ⟨_, rfl⟩

/-- A backspace. Where it joins rows, ESC finds another line in the row that it saved, or
no row. -/
theorem erased_undone (body : Body s) (done : s.backspaceChar = some t) :
    Restored s (t.leaveInsert s.curRow ((s.lines s.curRow).take lineMax)).doUndo ↔
      0 < s.curCol ∨ ¬ JoinsAbove s ∨ s.curRow + 1 = s.lineCount ∧ TopRejoins s := by
  have rowLow := body.rowLow
  have rowHigh := body.rowHigh
  have rows := leaveInsert_rows (t := t) s.curRow ((s.lines s.curRow).take lineMax)
  have rewritten : ∀ line, t.lines = Function.update s.lines s.curRow line → t.lineCount = s.lineCount →
      Restored s (t.leaveInsert s.curRow ((s.lines s.curRow).take lineMax)).doUndo := by
    intro line lines count
    refine rewrite_undone s.curRow line (by rw [rows.1, lines]) (by rw [rows.2, count])
      (leaveInsert_top _ (by omega)) ?_
    rw [body.here.take_all, body.here.taken_twice]
  rcases backspaceChar_cases done with ⟨inside, line, new, lines, count, -⟩ |
    ⟨atStart, stays, rfl⟩ | ⟨atStart, joins, lines, count, undo, pos⟩
  · exact ⟨fun _ => .inl inside, fun _ => rewritten line lines count⟩
  · exact ⟨fun _ => .inr (.inl stays),
      fun _ => rewritten (t.lines t.curRow) (Function.update_eq_self _ _).symm rfl⟩
  · by_cases last : s.curRow + 1 = s.lineCount
    · have left : t.leaveInsert s.curRow ((s.lines s.curRow).take lineMax) = t.setMode .normal := by
        rw [Ed.leaveInsert, if_neg (by omega)]
      rw [left, join_undone (t := t.setMode .normal) body joins.1 lines count (top_same undo pos)]
      constructor
      · exact fun same => .inr (.inr ⟨last, same⟩)
      · rintro (inside | stays | same)
        · omega
        · exact absurd joins stays
        · exact same.2
    · rw [undo_modify (leaveInsert_top _ (by omega)), rows.2]
      constructor
      · intro same
        have := same.1
        omega
      · rintro (inside | stays | same)
        · omega
        · exact absurd joins stays
        · exact absurd same.1 last

/-! A command and `u`. -/

/-- The keys that enter insert mode on a row that is there. -/
inductive Entry where
  | insert | append | insertStart | appendEnd
  deriving DecidableEq, Repr

def Entry.key : Entry → Nat
  | .insert => 'i'.toNat
  | .append => 'a'.toNat
  | .insertStart => 'I'.toNat
  | .appendEnd => 'A'.toNat

/-- Where they put the cursor. -/
def Entry.place (s : Ed) : Entry → Ed
  | .insert => s
  | .append => if 0 < s.lineCount ∧ s.curCol < s.len s.curRow then { s with curCol := s.curCol + 1 } else s
  | .insertStart => s.moveLineStart
  | .appendEnd => s.moveLineEnd

/-- A single editing command. -/
inductive Change where
  | deleteChar | backspace | deleteLine | deleteToEol | visualDelete | openBelow | openAbove | paste
  | typed (entry : Entry) (c : Nat) (printable : isPrintable c)
  | newline (entry : Entry)
  | erase (entry : Entry)

def Change.keys : Change → List Nat
  | .deleteChar => ['x'.toNat]
  | .backspace => ['X'.toNat]
  | .deleteLine => ['d'.toNat, 'd'.toNat]
  | .deleteToEol => ['D'.toNat]
  | .visualDelete => ['d'.toNat]
  | .openBelow => ['o'.toNat, esc]
  | .openAbove => ['O'.toNat, esc]
  | .paste => ['p'.toNat]
  | .typed entry c _ => [entry.key, c, esc]
  | .newline entry => [entry.key, 10, esc]
  | .erase entry => [entry.key, 8, esc]

/-- The mode that the command is for. -/
def Change.mode : Change → Mode
  | .visualDelete => .visual
  | _ => .normal

/-- When `u` gives back the rows. A join in normal mode is undone only by an entry from
before it that happens to fit, a command that does nothing only if the last entry does
nothing either; a line that is split or opened stays. -/
def Change.Undoable (s : Ed) : Change → Prop
  | .deleteChar => s.curCol < s.len s.curRow ∨ ¬ JoinsBelow s ∧ TopIdle s
  | .backspace =>
    0 < s.curCol ∨ s.curCol ≤ 0 ∧ JoinsAbove s ∧ TopRejoins s ∨ ¬ JoinsAbove s ∧ TopIdle s
  | .deleteLine => 1 < s.lineCount
  | .deleteToEol => s.curCol < s.len s.curRow ∨ TopIdle s
  | .visualDelete => VisualUndoable s
  | .openBelow | .openAbove => False
  | .paste => Pastes s ∧ TopUnpastes s ∨ ¬ Pastes s ∧ TopIdle s
  | .typed _ _ _ => True
  | .newline _ => False
  | .erase entry =>
    let s := entry.place s
    0 < s.curCol ∨ ¬ JoinsAbove s ∨ s.curRow + 1 = s.lineCount ∧ TopRejoins s

theorem doUndo_setMode (t : Ed) (mode : Mode) : (t.setMode mode).doUndo = t.doUndo.setMode mode := by
  unfold Ed.doUndo
  show (match t.undopos with | 0 => _ | pos + 1 => _) = _
  cases t.undopos with
  | zero => rfl
  | succ pos =>
      dsimp only [Ed.setMode]
      cases t.undo[pos]? with
      | none => rfl
      | some u =>
          obtain ⟨op, row, old, new⟩ := u
          cases op <;> rfl

theorem restored_setMode (mode : Mode) : Restored s (t.setMode mode).doUndo ↔ Restored s t.doUndo := by
  rw [doUndo_setMode]
  rfl

/-- The same buffer under another cursor. -/
theorem restored_moved {place : Ed} (moved : Moved s place) : Restored s t ↔ Restored place t := by
  rw [Restored, Restored, SameRows, SameRows, moved.lines, moved.lineCount]

theorem press_command (disk : Disk) (normal : s.mode = .normal) {c : Nat} {cmd : Command}
    (still : Motion.ofKey c = none) (known : Command.ofKey c = cmd) : press (disk, c) s = s.command cmd := by
  rw [press, Ed.key, normal]
  dsimp only
  rw [Ed.normalKey, still, known]

theorem press_undo (disk : Disk) (normal : s.mode = .normal) :
    press (disk, 'u'.toNat) s = some s.doUndo :=
  press_command disk normal (by decide) (show Command.ofKey 'u'.toNat = .undo by decide)

theorem press_esc (disk : Disk) {row0 : Int} {save : Text} (insert : s.mode = .insert row0 save) :
    press (disk, esc) s = some (s.leaveInsert row0 save) := by
  rw [press, Ed.key, insert]
  dsimp only
  rw [Ed.insertKey, if_pos rfl]

/-- A command that ran to its end, and `u`. -/
theorem then_undo (disk : Disk) {keys : List Nat}
    (ran : Runs.runSome press (keys.map (disk, ·)) s = some t) (normal : t.mode = .normal) :
    (∃ u, Runs.runSome press ((keys ++ ['u'.toNat]).map (disk, ·)) s = some u ∧ Restored s u) ↔
      Restored s t.doUndo := by
  have whole : Runs.runSome press ((keys ++ ['u'.toNat]).map (disk, ·)) s = some t.doUndo := by
    rw [List.map_append, Runs.runSome_append, ran]
    show (press (disk, 'u'.toNat) t).bind _ = _
    rw [press_undo disk normal]
    rfl
  rw [whole]
  constructor
  · rintro ⟨_, ⟨⟩, same⟩
    exact same
  · exact fun same => ⟨_, rfl, same⟩

theorem ran_one {disk : Disk} {c : Nat} (pressed : press (disk, c) s = some t) :
    Runs.runSome press ([c].map (disk, ·)) s = some t := by
  rw [List.map, Runs.runSome, pressed]
  rfl

theorem ran_two {disk : Disk} {c d : Nat} {u : Ed} (first : press (disk, c) s = some t)
    (second : press (disk, d) t = some u) : Runs.runSome press ([c, d].map (disk, ·)) s = some u := by
  rw [List.map, Runs.runSome, first]
  exact ran_one second

theorem press_entry (disk : Disk) (normal : s.mode = .normal) (entry : Entry) :
    press (disk, entry.key) s = some (entry.place s).enterInsert := by
  cases entry with
  | insert => exact press_command disk normal (by decide) (show Command.ofKey 'i'.toNat = .insert by decide)
  | append => exact press_command disk normal (by decide) (show Command.ofKey 'a'.toNat = .append by decide)
  | insertStart =>
      exact press_command disk normal (by decide) (show Command.ofKey 'I'.toNat = .insertStart by decide)
  | appendEnd =>
      exact press_command disk normal (by decide) (show Command.ofKey 'A'.toNat = .appendEnd by decide)

theorem Entry.place_steps (body : Body s) (entry : Entry) : Steps s (entry.place s) := by
  cases entry with
  | insert => exact body.stays
  | append =>
      have colLow := body.colLow
      rw [Entry.place]
      split
      next moves => exact body.goTo _ _ ⟨body.rowLow, body.rowHigh⟩ ⟨by omega, by omega⟩
      · exact body.stays
  | insertStart => exact moveLineStart_steps body
  | appendEnd => exact moveLineEnd_steps body

/-- A session: the key that enters insert mode, one key in it, and ESC. -/
theorem press_session (disk : Disk) (normal : s.mode = .normal) (entry : Entry) {c : Nat} {u : Ed}
    {row0 : Int} {save : Text} (stroke : press (disk, c) (entry.place s).enterInsert = some u)
    (insert : u.mode = .insert row0 save) :
    Runs.runSome press ([entry.key, c, esc].map (disk, ·)) s = some (u.leaveInsert row0 save) := by
  rw [List.map, Runs.runSome, press_entry disk normal]
  exact ran_two stroke (press_esc disk insert)

theorem press_typed (disk : Disk) {row0 : Int} {save : Text} (insert : s.mode = .insert row0 save)
    {c : Nat} (printable : isPrintable c) : press (disk, c) s = s.insertChar (UInt8.ofNat c) := by
  have low := printable.1
  have high := printable.2
  have enter : ¬ isEnter c := fun enter => by rcases enter with enter | enter <;> omega
  rw [press, Ed.key, insert]
  dsimp only
  rw [Ed.insertKey, if_neg (by rw [esc]; omega), if_neg enter, if_neg (by omega),
    if_neg (by rw [kbLeft]; omega), if_neg (by rw [kbRight]; omega), if_neg (by rw [kbUp]; omega),
    if_neg (by rw [kbDown]; omega), if_neg (by rw [kbHome]; omega), if_neg (by rw [kbEnd]; omega),
    if_neg (by rw [kbDel]; omega), if_neg (by rw [kbPgUp]; omega), if_neg (by rw [kbPgDn]; omega),
    if_pos printable]

/-- When `u` right after an editing command gives back the rows that it found. -/
theorem undo_restores_iff (tidy : Tidy s) (change : Change) (ready : s.mode = change.mode) (disk : Disk) :
    (∃ t, Runs.runSome press ((change.keys ++ ['u'.toNat]).map (disk, ·)) s = some t ∧ Restored s t) ↔
      change.Undoable s := by
  have body := tidy.toBody
  have low := body.low
  have rowLow := body.rowLow
  have rowHigh := body.rowHigh
  cases change with
  | deleteChar =>
      obtain ⟨t, done, edited⟩ := deleteChar_edited body
      have pressed : press (disk, 'x'.toNat) s = some t := by
        rw [press_command disk ready (by decide) (show Command.ofKey 'x'.toNat = .deleteChar by decide),
          Ed.command, if_pos (by omega), done]
      exact (then_undo disk (ran_one pressed) (edited.mode.trans ready)).trans
        (deleteChar_undone body done)
  | backspace =>
      obtain ⟨t, done, edited⟩ := backspaceChar_edited body
      have pressed : press (disk, 'X'.toNat) s = some t := by
        rw [press_command disk ready (by decide) (show Command.ofKey 'X'.toNat = .backspace by decide),
          Ed.command, if_pos (by omega), done]
      exact (then_undo disk (ran_one pressed) (edited.mode.trans ready)).trans
        (backspaceChar_undone body done)
  | deleteLine =>
      have waits : press (disk, 'd'.toNat) s = some (s.setMode .normalD) :=
        press_command disk ready (by decide) (show Command.ofKey 'd'.toNat = .waitD by decide)
      have pressed : press (disk, 'd'.toNat) (s.setMode .normalD) =
          some ((s.setMode .normalD).deleteLine.setMode .normal) := rfl
      exact (then_undo disk (ran_two waits pressed) rfl).trans
        ((restored_setMode .normal).trans (deleteLine_undone (body.setMode .normalD)))
  | deleteToEol =>
      have pressed : press (disk, 'D'.toNat) s = some s.deleteToEol := by
        rw [press_command disk ready (by decide) (show Command.ofKey 'D'.toNat = .deleteToEol by decide),
          Ed.command, if_pos (by omega)]
      exact (then_undo disk (ran_one pressed) ((deleteToEol_edited body).mode.trans ready)).trans
        (deleteToEol_undone body)
  | visualDelete =>
      have anchor : 0 ≤ s.vArow ∧ s.vArow < s.lineCount ∧ 0 ≤ s.vAcol ∧ s.vAcol ≤ s.len s.vArow := by
        have mode := tidy.mode
        rwa [ModeTidy, ready] at mode
      obtain ⟨t, done, edited⟩ := visualDelete_edited body anchor
      have pressed : press (disk, 'd'.toNat) s = some (t.setMode .normal) := by
        rw [press, Ed.key, ready]
        show s.visualKey 'd'.toNat = _
        rw [Ed.visualKey, show Motion.ofKey 'd'.toNat = none by decide]
        dsimp only
        rw [if_neg (by decide), if_pos (by decide), done]
        rfl
      exact (then_undo disk (ran_one pressed) rfl).trans
        ((restored_setMode .normal).trans (visualDelete_undone body ⟨anchor.1, anchor.2.1⟩ done))
  | openBelow =>
      have opens : press (disk, 'o'.toNat) s = some s.openLineBelow.enterInsert :=
        press_command disk ready (by decide) (show Command.ofKey 'o'.toNat = .openBelow by decide)
      have grown := grown_not_undone (s := s) (t := s.openLineBelow.enterInsert) (s.curRow + 1)
        ((s.openLineBelow.lines (s.curRow + 1)).take lineMax)
        ⟨by omega, show s.curRow + 1 < s.lineCount + 1 by omega⟩ rfl
      exact (then_undo disk (ran_two opens (press_esc disk rfl)) rfl).trans ⟨grown, False.elim⟩
  | openAbove =>
      have opens : press (disk, 'O'.toNat) s = some s.openLineAbove.enterInsert :=
        press_command disk ready (by decide) (show Command.ofKey 'O'.toNat = .openAbove by decide)
      have grown := grown_not_undone (s := s) (t := s.openLineAbove.enterInsert) s.curRow
        ((s.openLineAbove.lines s.curRow).take lineMax)
        ⟨rowLow, show s.curRow < s.lineCount + 1 by omega⟩ rfl
      exact (then_undo disk (ran_two opens (press_esc disk rfl)) rfl).trans ⟨grown, False.elim⟩
  | paste =>
      have pressed : press (disk, 'p'.toNat) s = some s.paste :=
        press_command disk ready (by decide) (show Command.ofKey 'p'.toNat = .paste by decide)
      have mode : s.paste.mode = s.mode := by
        rw [Ed.paste]
        split
        · rfl
        · split <;> rfl
      exact (then_undo disk (ran_one pressed) (mode.trans ready)).trans (paste_undone body)
  | typed entry c printable =>
      have steps := entry.place_steps body
      have placed : Body (entry.place s).enterInsert := (steps.edited body).toBody.setMode _
      obtain ⟨t, done, edited⟩ := insertChar_edited placed (printable_text printable)
      have ran := press_session disk ready entry ((press_typed disk rfl printable).trans done) edited.mode
      refine (then_undo disk ran (leaveInsert_mode _ _)).trans ?_
      exact ⟨fun _ => trivial, fun _ => (restored_moved steps.toMoved).mpr
        (typed_undone (s := (entry.place s).enterInsert) placed done)⟩
  | newline entry =>
      have steps := entry.place_steps body
      have placed : Body (entry.place s).enterInsert := (steps.edited body).toBody.setMode _
      obtain ⟨t, done⟩ := splitLine_some placed
      have stroke : press (disk, 10) (entry.place s).enterInsert = some (t.setMode (.insert t.curRow
          (((entry.place s).lines (entry.place s).curRow).take lineMax))) :=
        congrArg (Option.map _) done
      have ran := press_session disk ready entry stroke rfl
      refine (then_undo disk ran (leaveInsert_mode _ _)).trans ((restored_moved steps.toMoved).trans ?_)
      exact ⟨newline_not_undone (s := (entry.place s).enterInsert) placed done _, False.elim⟩
  | erase entry =>
      have steps := entry.place_steps body
      have placed : Body (entry.place s).enterInsert := (steps.edited body).toBody.setMode _
      obtain ⟨t, done, edited⟩ := backspaceChar_edited placed
      have stroke : press (disk, 8) (entry.place s).enterInsert = some t := done
      have ran := press_session disk ready entry stroke edited.mode
      refine (then_undo disk ran (leaveInsert_mode _ _)).trans ((restored_moved steps.toMoved).trans ?_)
      exact erased_undone (s := (entry.place s).enterInsert) placed done

end Undo

/-- The editor on a file with these bytes. -/
def opened (data : List UInt8) : Ed := (Ed.editMain [97] (.bytes data) .initial).getD .initial

theorem opened_tidy (data : List UInt8) : Tidy (opened data) :=
  editMain_tidy (show Ed.editMain [97] (.bytes data) .initial = some (opened data) from rfl)

/-- `dd` and `u` on the lines "a" and "b". -/
theorem undo_restores_iff_dd : ∃ t, Runs.runSome press
    (['d'.toNat, 'd'.toNat, 'u'.toNat].map (noDisk, ·)) (opened [97, 10, 98, 10]) = some t ∧
    Restored (opened [97, 10, 98, 10]) t :=
  (undo_restores_iff (opened_tidy [97, 10, 98, 10]) .deleteLine rfl noDisk).mpr
    (show 1 < (opened [97, 10, 98, 10]).lineCount by decide)

/-- On the lines "a", "b" and "c", `$`, `x` and `u` leave the one line "ab". -/
theorem joined_not_undone : ¬ ∀ s : Ed, Tidy s → ∀ change : Change, s.mode = change.mode → ∀ disk : Disk,
    ∃ t, Runs.runSome press ((change.keys ++ ['u'.toNat]).map (disk, ·)) s = some t ∧ Restored s t := by
  intro claim
  have tidy := opened_tidy [97, 10, 98, 10, 99, 10]
  obtain ⟨t, ran, same⟩ := claim _ ((moveLineEnd_steps tidy.toBody).tidy tidy) .deleteChar rfl noDisk
  obtain rfl := Option.some.inj ran
  exact absurd same.1 (by decide)

end Zenbite.Edit
