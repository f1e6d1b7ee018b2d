import Zenbite.Edit.Careful
import Zenbite.Shell.Store

/-! Opening a file in the editor and writing it with `:w`: load_file and save_file on the
files as fs_* present them. -/

namespace Zenbite.Edit

open Shell

/-! Text files. -/

/-- The bytes of lines that each end in one LF. -/
def joined (rows : List Text) : List UInt8 := rows.flatMap (· ++ [10])

@[simp] theorem joined_nil : joined [] = [] := rfl

theorem joined_cons (row : Text) (rows : List Text) : joined (row :: rows) = row ++ 10 :: joined rows := by
  rw [joined, List.flatMap_cons, List.append_assoc]
  rfl

theorem joined_append (first second : List Text) :
    joined (first ++ second) = joined first ++ joined second := List.flatMap_append

theorem takeWhile_line {row : Text} (line : 10 ∉ row) (rest : List UInt8) :
    (row ++ 10 :: rest).takeWhile (· != 10) = row := by
  have all : ∀ b ∈ row, (b != 10) = true := by
    intro b member
    rw [bne_iff_ne]
    exact fun newline => line (newline ▸ member)
  rw [List.takeWhile_append_of_pos all, List.takeWhile_cons_of_neg (by decide), List.append_nil]

theorem joined_injective {a b : List Text} (first : ∀ row ∈ a, 10 ∉ row) (second : ∀ row ∈ b, 10 ∉ row)
    (same : joined a = joined b) : a = b := by
  induction a generalizing b with
  | nil =>
      cases b with
      | nil => rfl
      | cons row rows =>
          rw [joined_cons] at same
          exact absurd same.symm (by simp)
  | cons row rows ih =>
      cases b with
      | nil =>
          rw [joined_cons] at same
          exact absurd same (by simp)
      | cons other others =>
          rw [joined_cons, joined_cons] at same
          have head := congrArg (List.takeWhile (· != 10)) same
          rw [takeWhile_line (first row List.mem_cons_self), takeWhile_line (second other List.mem_cons_self)]
            at head
          subst head
          have tail := List.append_cancel_left same
          rw [ih (fun r member => first r (List.mem_cons_of_mem _ member))
            (fun r member => second r (List.mem_cons_of_mem _ member)) (List.cons_injective tail)]

/-! What load_file makes of them. -/

/-- The loader keeps this line as it is. -/
def Keeps (row : Text) : Prop := row.length ≤ lineMax ∧ ∀ b ∈ row, b ≠ 0 ∧ b ≠ 13

theorem loadRow_line {room : Nat} {row : Text} (fits : row.length ≤ room) (line : 10 ∉ row)
    (plain : ∀ b ∈ row, b ≠ 13) {rest : List UInt8} (ends : rest = [] ∨ rest.head? = some 10) :
    loadRow room (row ++ rest) = (row, rest) := by
  induction row generalizing room with
  | nil =>
      rw [List.nil_append]
      cases rest with
      | nil => rw [loadRow]
      | cons c rest =>
          rcases ends with none | newline
          · cases none
          · rw [loadRow, if_pos (.inr (Option.some.inj newline))]
  | cons c row ih =>
      rw [List.length_cons] at fits
      have notLine : c ≠ 10 := fun newline => line (newline ▸ List.mem_cons_self)
      have less : row.length ≤ room - 1 := by omega
      have later := ih less (fun member => line (List.mem_cons_of_mem _ member))
        (fun b member => plain b (List.mem_cons_of_mem _ member))
      have goes : ¬(room = 0 ∨ c = 10) := by
        rintro (full | newline)
        · omega
        · exact notLine newline
      rw [List.cons_append, loadRow, if_neg goes, if_neg (plain c List.mem_cons_self), later]

/-- Whatever a line holds, the row that it makes is no longer, and what is left of it ends
in its LF. -/
theorem loadRow_stops {row : Text} (line : 10 ∉ row) (rest : List UInt8) (room : Nat) :
    (loadRow room (row ++ 10 :: rest)).1.length ≤ row.length ∧
    ∃ left : Text, 10 ∉ left ∧ (loadRow room (row ++ 10 :: rest)).2 = left ++ 10 :: rest := by
  induction row generalizing room with
  | nil =>
      rw [List.nil_append, loadRow, if_pos (.inr rfl)]
      exact ⟨Nat.le_refl 0, [], List.not_mem_nil, rfl⟩
  | cons c row ih =>
      have later := ih (fun member => line (List.mem_cons_of_mem _ member))
      rw [List.cons_append, loadRow, List.length_cons]
      split
      · exact ⟨Nat.zero_le _, c :: row, line, rfl⟩
      · split
        · obtain ⟨short, left⟩ := later room
          exact ⟨by omega, left⟩
        · obtain ⟨short, left⟩ := later (room - 1)
          rw [List.length_cons]
          exact ⟨by omega, left⟩

theorem loadRow_length (room : Nat) (data : List UInt8) :
    (loadRow room data).1.length + (loadRow room data).2.length ≤ data.length := by
  induction data generalizing room with
  | nil =>
      rw [loadRow]
      exact Nat.le_refl 0
  | cons c rest ih =>
      rw [loadRow]
      have whole := ih room
      have less := ih (room - 1)
      split
      · exact Nat.le_of_eq (Nat.zero_add _)
      · rw [List.length_cons]
        split
        · omega
        · dsimp only
          rw [List.length_cons]
          omega

theorem dropWhile_line {left : Text} (line : 10 ∉ left) (rest : List UInt8) :
    ((left ++ 10 :: rest).dropWhile (· != 10)).drop 1 = rest := by
  have all : ∀ b ∈ left, (b != 10) = true := by
    intro b member
    rw [bne_iff_ne]
    exact fun newline => line (newline ▸ member)
  rw [List.dropWhile_append_of_pos all, List.dropWhile_cons_of_neg (by decide), List.drop_one,
    List.tail_cons]

theorem Keeps.text {row : Text} (keeps : Keeps row) : row.takeWhile (· != 0) = row := by
  refine List.takeWhile_eq_self_iff.mpr fun b member => ?_
  rw [bne_iff_ne]
  exact (keeps.2 b member).1

/-- A line that the loader keeps, and the rows behind it. -/
theorem loadRows_line (n : Nat) {row : Text} (line : 10 ∉ row) (keeps : Keeps row) (rest : List UInt8) :
    loadRows (n + 1) (row ++ 10 :: rest) = row :: loadRows n rest := by
  have first : loadRow lineMax (row ++ 10 :: rest) = (row, 10 :: rest) :=
    loadRow_line keeps.1 line (fun b member => (keeps.2 b member).2) (.inr rfl)
  have behind := dropWhile_line List.not_mem_nil rest
  rw [List.nil_append] at behind
  rw [loadRows, if_neg (by simp), first]
  dsimp only
  rw [keeps.text, behind]

theorem loadRows_joined {rows : List Text} (lines : ∀ row ∈ rows, 10 ∉ row ∧ Keeps row) (n : Nat)
    (rest : List UInt8) : loadRows (rows.length + n) (joined rows ++ rest) = rows ++ loadRows n rest := by
  induction rows with
  | nil => rw [List.length_nil, Nat.zero_add, joined_nil, List.nil_append, List.nil_append]
  | cons row rows ih =>
      have here := lines row List.mem_cons_self
      rw [List.length_cons, Nat.succ_add_eq_add_succ, Nat.add_succ, joined_cons, List.append_assoc, List.cons_append,
        loadRows_line _ here.1 here.2, ih fun r member => lines r (List.mem_cons_of_mem _ member),
        List.cons_append]

/-- A last line without its LF. -/
theorem loadRows_last {n : Nat} {last : Text} (line : 10 ∉ last) (keeps : Keeps last) (some_ : last ≠ []) :
    loadRows (n + 1) last = [last] := by
  have whole : loadRow lineMax (last ++ []) = (last, []) :=
    loadRow_line keeps.1 line (fun b member => (keeps.2 b member).2) (.inl rfl)
  rw [List.append_nil] at whole
  rw [loadRows, if_neg some_, whole]
  dsimp only
  rw [keeps.text]
  cases n with
  | zero => rfl
  | succ n => rfl

/-- No line gets longer, so the bytes do not get more. -/
theorem loadRows_lines_length {rows : List Text} (lines : ∀ row ∈ rows, 10 ∉ row) (n : Nat) :
    (joined (loadRows n (joined rows))).length ≤ (joined rows).length := by
  induction n generalizing rows with
  | zero => exact Nat.zero_le _
  | succ n ih =>
      cases rows with
      | nil =>
          rw [joined_nil, loadRows, if_pos rfl]
          exact Nat.le_refl 0
      | cons row rows =>
          obtain ⟨short, left, rest, stopped⟩ :=
            loadRow_stops (lines row List.mem_cons_self) (joined rows) lineMax
          have behind : ∀ r ∈ rows, 10 ∉ r := fun r member => lines r (List.mem_cons_of_mem _ member)
          have later := ih behind
          have text := (List.takeWhile_sublist (· != 0)
            (l := (loadRow lineMax (row ++ 10 :: joined rows)).1)).length_le
          rw [joined_cons, loadRows, if_neg (by simp)]
          dsimp only
          rw [stopped, dropWhile_line rest, joined_cons]
          simp only [List.length_append, List.length_cons]
          omega

/-- A last line may get an LF that it did not have. -/
theorem loadRows_length_le (n : Nat) (data : List UInt8) :
    (joined (loadRows n data)).length ≤ data.length + 1 := by
  induction n generalizing data with
  | zero => exact Nat.zero_le _
  | succ n ih =>
      rw [loadRows]
      split
      · exact Nat.zero_le _
      · have parts := loadRow_length lineMax data
        have text := (List.takeWhile_sublist (· != 0) (l := (loadRow lineMax data).1)).length_le
        have skipped := (List.dropWhile_sublist (· != 10) (l := (loadRow lineMax data).2)).length_le
        have later := ih (((loadRow lineMax data).2.dropWhile (· != 10)).drop 1)
        dsimp only
        rw [joined_cons]
        simp only [List.length_append, List.length_cons, List.length_drop] at later ⊢
        by_cases none : ((loadRow lineMax data).2.dropWhile (· != 10)).length = 0
        · have empty : ((loadRow lineMax data).2.dropWhile (· != 10)).drop 1 = [] := by
            rw [List.length_eq_zero_iff.mp none]
            rfl
          rw [empty]
          have ends : loadRows n [] = [] := by
            cases n with
            | zero => rfl
            | succ n => rfl
          rw [ends, joined_nil, List.length_nil]
          omega
        · omega

theorem loadRow_plain (room : Nat) (data : List UInt8) : 13 ∉ (loadRow room data).1 := by
  induction data generalizing room with
  | nil =>
      rw [loadRow]
      exact List.not_mem_nil
  | cons c rest ih =>
      rw [loadRow]
      split
      · exact List.not_mem_nil
      · split
        · exact ih room
        next kept =>
          rw [List.mem_cons]
          rintro (here | member)
          · exact kept here.symm
          · exact ih (room - 1) member

theorem loadRows_keeps {n : Nat} {data : List UInt8} : ∀ row ∈ loadRows n data, Keeps row := by
  intro row member
  have fine := loadRows_fine row member
  have plain : 13 ∉ row := by
    induction n generalizing data with
    | zero => exact absurd member List.not_mem_nil
    | succ n ih =>
        rw [loadRows] at member
        split at member
        · exact absurd member List.not_mem_nil
        · rcases List.mem_cons.mp member with here | later
          · rw [here]
            exact fun inside => loadRow_plain lineMax data ((List.takeWhile_sublist _).subset inside)
          · exact ih later
  exact ⟨fine.1, fun b inside => ⟨(fine.2 b inside).1, fun cr => plain (cr ▸ inside)⟩⟩

/-! Opening and saving. -/

/-- What fs_open, fs_size and fs_read answer for a file that is there. -/
inductive Opening where
  | missing
  | unreadable
  | gives (n : Nat)

/-- How the calls of one open and one save go: what fs_unlink leaves of the file, how
fs_create goes, whether fs_open finds the new file, and how many bytes each fs_write
puts into it. -/
structure Going where
  opening : Opening
  left : Option (List UInt8)
  create : Luck
  reopens : Bool
  puts : Nat → Nat

/-- What load_file finds under a path. -/
def load (opening : Opening) (path : Text) (s : Store Text) : Loaded :=
  match s.fileAt path with
  | none => .missing
  | some (_, bytes) =>
    match opening with
    | .missing => .missing
    | .unreadable => .unreadable
    | .gives n => .bytes (bytes.take n)

def Ed.rows (s : Ed) : List Text := (List.range s.lineCount.toNat).map fun i : Nat => s.lines i

/-- The calls to fs_write of save_file. -/
def chunks (rows : List Text) : List Text :=
  rows.flatMap fun row => if row = [] then [[10]] else [row, [10]]

/-- The new file after these calls; their results are not looked at. -/
def written (puts : Nat → Nat) : List Text → List UInt8
  | [] => []
  | chunk :: rest => chunk.take (puts 0) ++ written (fun i => puts (i + 1)) rest

/-- Every call puts in all that it was given. -/
def AllPut (puts : Nat → Nat) : List Text → Prop
  | [] => True
  | chunk :: rest => chunk.length ≤ puts 0 ∧ AllPut (fun i => puts (i + 1)) rest

/-- save_file -/
def saveFile (going : Going) (path : Text) (rows : List Text) (s : Store Text) : Int × Store Text :=
  let created := ((s.unlink going.left path).2).create going.create path
  if created.1 < 0 ∨ !going.reopens then (-1, created.2)
  else
    match created.2.fileAt path with
    | none => (-1, created.2)
    | some (p, _) => (0, created.2.put p (some (.file (written going.puts (chunks rows)))))

/-- edit_main and `:w`, up to the end of save_file; a negative result is a refusal. -/
def openWrite (going : Going) (path : Text) (prev : Ed) (s : Store Text) : Int × Store Text :=
  match (Ed.editMain path (load going.opening path s) prev).bind
      (Runs.runSome press [(noDisk, ':'.toNat), (noDisk, 'w'.toNat)]) with
  | none => (-1, s)
  | some ed => saveFile going ed.filepath ed.rows s

/-- The rows of a buffer that was loaded. -/
def loadedRows (data : List UInt8) : List Text :=
  if loadRows maxLines.toNat (data.take scratchMax) = [] then [[]]
  else loadRows maxLines.toNat (data.take scratchMax)

theorem rows_eq {s : Ed} {rows : List Text} (count : s.lineCount = rows.length)
    (lines : ∀ i : Nat, i < rows.length → s.lines i = rows.getD i []) : s.rows = rows := by
  have length : s.lineCount.toNat = rows.length := by omega
  rw [Ed.rows, length]
  refine List.ext_getElem (by rw [List.length_map, List.length_range]) fun i _ inside => ?_
  rw [List.getElem_map, List.getElem_range, lines i inside, List.getD_eq_getElem]

/-- The buffer that is saved, whatever it was opened from. -/
theorem editMain_rows (path : Text) {load : Loaded} {data : List UInt8} (prev : Ed)
    (found : load = .bytes data ∨ load = .missing ∧ data = []) :
    ∃ ed, (Ed.editMain path load prev).bind
      (Runs.runSome press [(noDisk, ':'.toNat), (noDisk, 'w'.toNat)]) = some ed ∧
      ed.filepath = path.take pathMax ∧ ed.rows = loadedRows data := by
  have start : ∀ t : Ed, t.filepath = path.take pathMax →
      t.lineCount = (loadRows maxLines.toNat (data.take scratchMax)).length →
      (∀ i : Nat, i < (loadRows maxLines.toNat (data.take scratchMax)).length →
        t.lines i = (loadRows maxLines.toNat (data.take scratchMax)).getD i []) →
      ∀ mode, ((if t.lineCount = 0 then { t.setLine 0 [] with lineCount := 1 } else t : Ed).setMode mode).filepath =
        path.take pathMax ∧
      ((if t.lineCount = 0 then { t.setLine 0 [] with lineCount := 1 } else t : Ed).setMode mode).rows =
        loadedRows data := by
    intro t file count lines mode
    rw [loadedRows]
    generalize loadRows maxLines.toNat (data.take scratchMax) = rows at count lines
    by_cases empty : rows = []
    · rw [if_pos empty, if_pos (by rw [count, empty]; rfl)]
      refine ⟨file, rows_eq rfl fun i inside => ?_⟩
      have first : i = 0 := by
        rw [List.length_singleton] at inside
        omega
      rw [first]
      show Function.update t.lines 0 [] 0 = []
      rw [Function.update_self]
    · have some_ : t.lineCount ≠ 0 := by
        have := List.length_pos_iff.mpr empty
        omega
      rw [if_neg empty, if_neg some_]
      exact ⟨file, rows_eq count lines⟩
  rcases found with rfl | ⟨rfl, rfl⟩
  · refine ⟨_, rfl, start (Ed.editFile path (.bytes data) { prev with vColSave := 0, searchPat := [] })
      rfl rfl (fun i inside => ?_) (.cmdline [119])⟩
    exact if_pos ⟨Int.natCast_nonneg i, by omega⟩
  · exact ⟨_, rfl, start (Ed.editFile path .missing { prev with vColSave := 0, searchPat := [] })
      rfl rfl (fun i inside => absurd inside (Nat.not_lt_zero i)) (.cmdline [119])⟩

/-! What is saved of a file. -/

theorem chunks_flatten (rows : List Text) : (chunks rows).flatten = joined rows := by
  induction rows with
  | nil => rfl
  | cons row rows ih =>
      rw [joined_cons, ← ih, chunks, List.flatMap_cons, List.flatten_append]
      split
      next empty =>
        rw [empty]
        rfl
      · rw [List.flatten_cons, List.flatten_singleton, List.append_assoc]
        rfl

theorem written_whole {puts : Nat → Nat} {chunks : List Text} (all : AllPut puts chunks) :
    written puts chunks = chunks.flatten := by
  induction chunks generalizing puts with
  | nil => rfl
  | cons chunk rest ih => rw [written, List.take_of_length_le all.1, ih all.2, List.flatten_cons]

theorem written_length (puts : Nat → Nat) (chunks : List Text) :
    (written puts chunks).length ≤ chunks.flatten.length := by
  induction chunks generalizing puts with
  | nil => exact Nat.le_refl 0
  | cons chunk rest ih =>
      have later := ih fun i => puts (i + 1)
      have short : (chunk.take (puts 0)).length ≤ chunk.length := List.length_take_le' _ _
      rw [written, List.flatten_cons, List.length_append, List.length_append]
      omega

/-- A file as long as all the chunks together has all of them. -/
theorem allPut_of_length {puts : Nat → Nat} {chunks : List Text}
    (long : chunks.flatten.length ≤ (written puts chunks).length) : AllPut puts chunks := by
  induction chunks generalizing puts with
  | nil => trivial
  | cons chunk rest ih =>
      have later := written_length (fun i => puts (i + 1)) rest
      rw [written, List.flatten_cons, List.length_append, List.length_append, List.length_take] at long
      exact ⟨by omega, ih (by omega)⟩

/-- The loader keeps the file when it sees this many bytes of it: the line that the end of
the bytes cuts off may lack its LF, but no more. -/
def LoadedWhole (rows : List Text) (seen : Nat) : Prop :=
  rows.length ≤ maxLines.toNat ∧ (∀ row ∈ rows, Keeps row) ∧
  ((joined rows).length ≤ seen ∨
    (joined rows).length = seen + 1 ∧ (rows.getLast? ≠ some [] ∨ rows = [[]]))

section Whole
variable {rows : List Text} {seen : Nat}

theorem joined_length_pos (some_ : rows ≠ []) : 1 ≤ (joined rows).length := by
  cases rows with
  | nil => exact absurd rfl some_
  | cons row rows =>
      rw [joined_cons, List.length_append, List.length_cons]
      omega

/-- The rows that are saved of the first `seen` bytes. -/
def savedRows (rows : List Text) (seen : Nat) : List Text :=
  if loadRows maxLines.toNat ((joined rows).take seen) = [] then [[]]
  else loadRows maxLines.toNat ((joined rows).take seen)

theorem savedRows_lines : ∀ row ∈ savedRows rows seen, 10 ∉ row := by
  intro row member
  rw [savedRows] at member
  split at member
  · rw [List.mem_singleton.mp member]
    exact List.not_mem_nil
  · exact fun newline => ((loadRows_fine row member).2 10 newline).2 rfl

theorem savedRows_length (some_ : rows ≠ []) (lines : ∀ row ∈ rows, 10 ∉ row) :
    (joined (savedRows rows seen)).length ≤ (joined rows).length := by
  rw [savedRows]
  split
  · exact joined_length_pos some_
  · by_cases whole : (joined rows).length ≤ seen
    · rw [List.take_of_length_le whole]
      exact loadRows_lines_length lines _
    · have bound := loadRows_length_le maxLines.toNat ((joined rows).take seen)
      rw [List.length_take] at bound
      omega

theorem savedRows_whole (some_ : rows ≠ []) (lines : ∀ row ∈ rows, 10 ∉ row) (whole : LoadedWhole rows seen) :
    savedRows rows seen = rows := by
  obtain ⟨few, keeps, size⟩ := whole
  have both : ∀ row ∈ rows, 10 ∉ row ∧ Keeps row := fun row member => ⟨lines row member, keeps row member⟩
  have empty : ∀ n, loadRows n [] = [] := fun n => by cases n <;> rfl
  rw [savedRows]
  rcases size with size | ⟨size, last⟩
  · have loaded := loadRows_joined both (maxLines.toNat - rows.length) []
    rw [Nat.add_sub_cancel' few, List.append_nil, empty, List.append_nil] at loaded
    rw [List.take_of_length_le size, loaded, if_neg some_]
  · rcases List.eq_nil_or_concat' rows with none | ⟨first, row, rfl⟩
    · exact absurd none some_
    · have bytes : (joined (first ++ [row])).take seen = joined first ++ row := by
        have parts : joined (first ++ [row]) = joined first ++ row ++ [10] := by
          rw [joined_append, joined_cons, joined_nil, List.append_assoc]
        rw [parts, List.length_append, List.length_singleton] at size
        rw [parts, ← Nat.add_right_cancel size, List.take_left]
      rw [bytes]
      by_cases blank : row = []
      · have alone : first ++ [row] = [[]] := by
          refine last.resolve_left fun other => other ?_
          rw [List.getLast?_concat, blank]
        have none : first = [] := by
          cases first with
          | nil => rfl
          | cons a as => exact absurd (List.cons.inj alone).2 (by simp)
        rw [alone, none, blank]
        rfl
      · have here := both row (by simp)
        have room : first.length + (maxLines.toNat - first.length - 1 + 1) = maxLines.toNat := by
          rw [List.length_append, List.length_singleton] at few
          omega
        have before : ∀ r ∈ first, 10 ∉ r ∧ Keeps r := fun r member => both r (List.mem_append_left _ member)
        have loaded := loadRows_joined before (maxLines.toNat - first.length - 1 + 1) row
        rw [room, loadRows_last here.1 here.2 blank] at loaded
        rw [loaded, if_neg some_]

theorem whole_of_savedRows (some_ : rows ≠ []) (lines : ∀ row ∈ rows, 10 ∉ row)
    (same : savedRows rows seen = rows) : LoadedWhole rows seen := by
  rw [savedRows] at same
  split at same
  next none =>
    rw [← same]
    refine ⟨by decide, fun row member => ?_, ?_⟩
    · rw [List.mem_singleton.mp member]
      exact ⟨Nat.zero_le _, fun _ inside => absurd inside List.not_mem_nil⟩
    · have one : (joined [[]]).length = 1 := rfl
      rw [one]
      by_cases zero : seen = 0
      · exact .inr ⟨by omega, .inr rfl⟩
      · exact .inl (by omega)
  next loaded =>
    refine ⟨?_, ?_, ?_⟩
    · rw [← same]
      exact loadRows_length _ _
    · intro row member
      rw [← same] at member
      exact loadRows_keeps row member
    · by_cases whole : (joined rows).length ≤ seen
      · exact .inl whole
      · have bound := loadRows_length_le maxLines.toNat ((joined rows).take seen)
        rw [same, List.length_take] at bound
        refine .inr ⟨by omega, .inl fun blank => ?_⟩
        rcases List.eq_nil_or_concat' rows with none | ⟨first, row, rfl⟩
        · exact some_ none
        · rw [List.getLast?_concat, Option.some.injEq] at blank
          have parts : joined (first ++ [row]) = joined first ++ [10] := by
            rw [joined_append, blank]
            rfl
          rw [parts, List.length_append, List.length_singleton] at bound whole
          have size : seen = (joined first).length := by omega
          have before : ∀ r ∈ first, 10 ∉ r := fun r member => lines r (List.mem_append_left _ member)
          have short := loadRows_lines_length before maxLines.toNat
          rw [parts, size, List.take_left] at same
          rw [same, parts, List.length_append, List.length_singleton] at short
          omega

/-- What comes out of the file when it is written from the first `seen` bytes of it. An
empty file gets a line. -/
theorem written_same_iff (lines : ∀ row ∈ rows, 10 ∉ row) (puts : Nat → Nat) :
    written puts (chunks (savedRows rows seen)) = joined rows ↔
      if rows = [] then puts 0 = 0 else LoadedWhole rows seen ∧ AllPut puts (chunks rows) := by
  split
  next none =>
    have blank : savedRows rows seen = [[]] := by
      rw [savedRows, none, joined_nil, List.take_nil]
      rfl
    rw [blank, none, joined_nil]
    show [10].take (puts 0) ++ [] = [] ↔ puts 0 = 0
    rw [List.append_nil, List.take_eq_nil_iff]
    exact ⟨fun h => h.resolve_right (by simp), .inl⟩
  next some_ =>
    constructor
    · intro same
      have most := written_length puts (chunks (savedRows rows seen))
      have bytes : (joined (savedRows rows seen)).length ≤ (joined rows).length :=
        savedRows_length some_ lines
      have size := congrArg List.length same
      rw [chunks_flatten] at most
      have all : AllPut puts (chunks (savedRows rows seen)) :=
        allPut_of_length (by rw [chunks_flatten]; omega)
      rw [written_whole all, chunks_flatten] at same
      have rows_ := joined_injective savedRows_lines lines same
      exact ⟨whole_of_savedRows some_ lines rows_, rows_ ▸ all⟩
    · rintro ⟨whole, all⟩
      rw [savedRows_whole some_ lines whole, written_whole all, chunks_flatten]

end Whole

/-! Where it is saved. -/

section Place
variable {going : Going} {path : Text} {s : Store Text}

/-- save_file gets to write, and writes here. -/
def Saves (going : Going) (path : Text) (s : Store Text) (q : Place) : Prop :=
  s.target path = .leaf q ∧
  (s.entry q = none ∨ (∃ bytes, s.entry q = some (.file bytes)) ∧ going.left = none) ∧
  going.create = .works ∧ going.reopens = true

/-- fs_unlink of a name that goes, or was not there. -/
theorem unlink_gone {left : Option (List UInt8)} {q : Place} (target : s.target path = .leaf q)
    (gone : s.entry q = none ∨ (∃ bytes, s.entry q = some (.file bytes)) ∧ left = none) :
    (s.unlink left path).2 = s.put q none := by
  rcases gone with absent | ⟨⟨bytes, there⟩, rfl⟩
  · have missing : s.fileAt path = none := by
      simp only [Store.fileAt, target, absent]
    have same : s.put q none = s := by
      rw [Store.put, ← absent, Function.update_eq_self]
    rw [Store.unlink, missing, same]
  · rw [Store.unlink, Store.fileAt_eq_some.mpr ⟨target, there⟩]

/-- fs_unlink of a name that stays. -/
theorem unlink_stays {left : Option (List UInt8)} {q : Place} (target : s.target path = .leaf q)
    (stays : ¬(s.entry q = none ∨ (∃ bytes, s.entry q = some (.file bytes)) ∧ left = none)) :
    (s.unlink left path).2.target path = .leaf q ∧ (s.unlink left path).2.entry q ≠ none := by
  rw [Store.unlink]
  split
  · exact ⟨target, fun absent => stays (.inl absent)⟩
  next found =>
    obtain ⟨same, there⟩ := Store.fileAt_eq_some.mp found
    rw [target, Target.leaf.injEq] at same
    subst same
    split
    · exact absurd (.inr ⟨⟨_, there⟩, rfl⟩) stays
    · exact ⟨target, by rw [Store.put_same]; exact Option.some_ne_none _⟩

theorem saveFile_cases (going : Going) (path : Text) (rows : List Text) (s : Store Text) :
    (saveFile going path rows s).1 < 0 ∧ (∀ q, ¬ Saves going path s q) ∨
    ∃ q, Saves going path s q ∧ (saveFile going path rows s).1 = 0 ∧
      (saveFile going path rows s).2.target = s.target ∧
      (saveFile going path rows s).2.entry =
        Function.update s.entry q (some (.file (written going.puts (chunks rows)))) := by
  have refused : ((s.unlink going.left path).2.create going.create path).1 < 0 ∨ going.reopens = false →
      (saveFile going path rows s).1 < 0 := by
    intro fails
    rw [saveFile, if_pos (by simpa using fails)]
    exact (show (-1 : Int) < 0 by decide)
  by_cases leaf : ∃ q, s.target path = .leaf q
  · obtain ⟨q, target⟩ := leaf
    have only : ∀ r, Saves going path s r → Saves going path s q := by
      intro r saves
      have same := saves.1
      rw [target, Target.leaf.injEq] at same
      rwa [same]
    by_cases gone : s.entry q = none ∨ (∃ bytes, s.entry q = some (.file bytes)) ∧ going.left = none
    · have unlinked := unlink_gone target gone
      have created := Store.create_free going.create (s := s.put q none) target
        (Store.put_same s q none)
      by_cases works : going.create = .works ∧ going.reopens = true
      · refine .inr ⟨q, ⟨target, gone, works⟩, ?_⟩
        have found := Store.fileAt_put (s := s.put q none) target []
        rw [works.1, if_pos rfl, if_neg (by decide)] at created
        have goes : ¬((0 : Int) < 0 ∨ (!true) = true) := by decide
        rw [saveFile, unlinked, works.1, works.2, created, if_neg goes]
        dsimp only
        rw [found]
        refine ⟨rfl, rfl, ?_⟩
        simp only [Store.put, Function.update_idem]
      · refine .inl ⟨refused ?_, fun r saves => works (only r saves).2.2⟩
        rw [unlinked, created]
        by_cases create : going.create = .works
        · exact .inr (by simpa [create] using works)
        · exact .inl (by rw [if_neg create]; exact (show (-1 : Int) < 0 by decide))
    · obtain ⟨there, used⟩ := unlink_stays target gone
      refine .inl ⟨refused (.inl ?_), fun r saves => gone (only r saves).2.1⟩
      have full : ∀ p, (s.unlink going.left path).2.target path = .leaf p →
          (s.unlink going.left path).2.entry p ≠ none := by
        intro p same
        rw [there, Target.leaf.injEq] at same
        rwa [← same]
      have fails := Store.create_used going.create full
      rw [fails]
      exact (show (-1 : Int) < 0 by decide)
  · have nowhere : s.fileAt path = none := by
      rw [Store.fileAt]
      split
      next q target => exact absurd ⟨q, target⟩ leaf
      · rfl
    have full : ∀ q, s.target path = .leaf q → s.entry q ≠ none :=
      fun q target => absurd ⟨q, target⟩ leaf
    have fails := Store.create_used going.create full
    refine .inl ⟨refused (.inl ?_), fun q saves => leaf ⟨q, saves.1⟩⟩
    rw [Store.unlink, nowhere]
    dsimp only
    rw [fails]
    exact (show (-1 : Int) < 0 by decide)

/-- How many bytes load_file sees. -/
def Opening.seen : Opening → Nat
  | .gives n => min scratchMax n
  | _ => 0

/-- When an open and a save leave the file as it was or refuse: fs_open gives an error, the
save does not get to write or writes elsewhere, or the loader keeps the lines and the
writes all go through. -/
def Survives (going : Going) (path : Text) (p : Place) (rows : List Text) (s : Store Text) : Prop :=
  going.opening = .unreadable ∨ ¬ Saves going (path.take pathMax) s p ∨
  if rows = [] then going.puts 0 = 0
  else LoadedWhole rows going.opening.seen ∧ AllPut going.puts (chunks rows)

/-- An open and a save: refused, or with the file as it was. -/
theorem open_write_keeps_iff {p : Place} {rows : List Text} (lines : ∀ row ∈ rows, 10 ∉ row)
    (held : s.fileAt path = some (p, joined rows)) (going : Going) (prev : Ed) :
    (openWrite going path prev s).1 < 0 ∨ (openWrite going path prev s).2.fileAt path = some (p, joined rows) ↔
      Survives going path p rows s := by
  obtain ⟨target, there⟩ := Store.fileAt_eq_some.mp held
  rw [Survives]
  by_cases unreadable : going.opening = .unreadable
  · have fails : openWrite going path prev s = (-1, s) := by
      rw [openWrite, load, held]
      dsimp only
      rw [unreadable]
      rfl
    rw [fails]
    exact ⟨fun _ => .inl unreadable, fun _ => .inl (show (-1 : Int) < 0 by decide)⟩
  · obtain ⟨data, found, seen⟩ : ∃ data, (load going.opening path s = .bytes data ∨
        load going.opening path s = .missing ∧ data = []) ∧
        loadedRows data = savedRows rows going.opening.seen := by
      rw [load, held]
      cases opening : going.opening with
      | missing => exact ⟨[], .inr ⟨rfl, rfl⟩, rfl⟩
      | unreadable => exact absurd opening unreadable
      | gives n =>
          refine ⟨(joined rows).take n, .inl rfl, ?_⟩
          rw [loadedRows, savedRows, List.take_take, Opening.seen]
    obtain ⟨ed, ran, file, saved⟩ := editMain_rows path prev found
    have whole : openWrite going path prev s =
        saveFile going (path.take pathMax) (savedRows rows going.opening.seen) s := by
      rw [openWrite, ran]
      dsimp only
      rw [file, saved, seen]
    rw [whole]
    rcases saveFile_cases going (path.take pathMax) (savedRows rows going.opening.seen) s with
      ⟨refused, nowhere⟩ | ⟨q, saves, done, targets, entries⟩
    · exact ⟨fun _ => .inr (.inl (nowhere p)), fun _ => .inl refused⟩
    · rw [Store.fileAt_eq_some, targets, entries, done]
      by_cases here : q = p
      · subst here
        rw [Function.update_self, Option.some.injEq, Entry.file.injEq, written_same_iff lines]
        constructor
        · rintro (fails | same)
          · exact absurd fails (by decide)
          · exact .inr (.inr same.2)
        · rintro (error | elsewhere | same)
          · exact absurd error unreadable
          · exact absurd saves elsewhere
          · exact .inr ⟨target, same⟩
      · rw [Function.update_of_ne (Ne.symm here)]
        refine ⟨fun _ => .inr (.inl fun other => ?_), fun _ => .inr ⟨target, there⟩⟩
        have same := other.1
        rw [saves.1, Target.leaf.injEq] at same
        exact here same

end Place

/-! One directory with one file. -/

def onePlace : Place := ⟨0, 0⟩

def oneFile (bytes : List UInt8) : Store Text where
  target := fun path => if path = [97] then .leaf onePlace else .nowhere
  entry := fun q => if q = onePlace then some (.file bytes) else none

/-- Every call goes through. -/
def allWorks : Going := ⟨.gives 1000, none, .works, true, fun _ => 1000⟩

theorem open_write_keeps_iff_line :
    (openWrite allWorks [97] .initial (oneFile (joined [[104, 105]]))).1 < 0 ∨
    (openWrite allWorks [97] .initial (oneFile (joined [[104, 105]]))).2.fileAt [97] =
      some (onePlace, joined [[104, 105]]) := by
  have kept : Survives allWorks [97] onePlace [[104, 105]] (oneFile (joined [[104, 105]])) := by
    refine .inr (.inr ?_)
    rw [if_neg (by decide)]
    have keeps : ∀ row ∈ [[104, 105]], Keeps row := by
      intro row member
      rw [List.mem_singleton.mp member]
      refine ⟨by decide, fun b inside => ?_⟩
      simp only [List.mem_cons, List.not_mem_nil, or_false] at inside
      rcases inside with rfl | rfl <;> decide
    exact ⟨⟨by decide, keeps, by decide⟩, by decide, by decide, trivial⟩
  exact (open_write_keeps_iff (by decide) rfl allWorks .initial).mpr kept

/-- A line of 120 characters loses the last one. -/
theorem long_line_cut : ¬ ∀ (rows : List Text) (path : Text) (p : Place) (s : Store Text) (going : Going)
    (prev : Ed), (∀ row ∈ rows, 10 ∉ row) → s.fileAt path = some (p, joined rows) →
    (openWrite going path prev s).1 < 0 ∨
      (openWrite going path prev s).2.fileAt path = some (p, joined rows) := by
  intro claim
  have kept := claim [List.replicate 120 97] [97] onePlace (oneFile (joined [List.replicate 120 97]))
    allWorks .initial (by decide) rfl
  revert kept
  decide +kernel

end Zenbite.Edit
