import Mathlib.Data.List.Infix
import Zenbite.CString

/-! grep: which lines of a file it reports. Lines are gathered in a buffer of 256 bytes. -/

namespace Zenbite.Shell

/-- sizeof line - 1 -/
def bufferMax : Nat := 255

/-- The inner loop of the search. -/
def hasAt : List UInt8 → List UInt8 → Bool
  | [], _ => true
  | _ :: _, [] => false
  | d :: needle, c :: line => if toupper c ≠ toupper d then false else hasAt needle line

/-- The outer loop of the search. -/
def search (needle : List UInt8) : List UInt8 → Bool
  | [] => if needle.length ≤ 0 then hasAt needle [] else false
  | c :: line =>
    if needle.length ≤ line.length + 1 then
      if hasAt needle (c :: line) then true else search needle line
    else false

structure Grep where
  line : List UInt8
  lineno : Int
  /-- What was printed: the number and the text. -/
  reports : List (Int × List UInt8)

namespace Grep

/-- The search in what the buffer holds. -/
def report (needle : List UInt8) (g : Grep) : Grep :=
  if search needle g.line then { g with reports := g.reports ++ [(g.lineno, g.line)] } else g

/-- One byte: 13 is the carriage return, 10 the line feed. -/
def step (needle : List UInt8) (g : Grep) (c : UInt8) : Grep :=
  if c = 13 then g
  else if c = 10 ∨ bufferMax ≤ g.line.length then
    { g.report needle with line := [], lineno := if c = 10 then wrapInt (g.lineno + 1) else g.lineno }
  else { g with line := g.line ++ [c] }

end Grep

/-- cmd_grep on a file that fs_read returns in these parts. -/
def cmdGrep (needle : List UInt8) (reads : List (List UInt8)) : List (Int × List UInt8) :=
  (reads.foldl (List.foldl (Grep.step needle)) (⟨[], 1, []⟩ : Grep)).reports

/-! What is looked for, and in which lines. -/

/-- The lines of a file, without carriage returns. -/
def linesOf (content : List UInt8) : List (List UInt8) := (content.filter (· ≠ 13)).splitOn 10

/-- The text is in the line, up to case. -/
def Contains (needle line : List UInt8) : Prop := needle.map tolower <:+: line.map tolower

/-- The text stands there in the line. -/
def OccursAt (needle line : List UInt8) (s : Nat) : Prop := needle.map tolower <+: (line.drop s).map tolower

/-- The numbers that are reported are those of the lines with the text. -/
def GrepRight (needle : List UInt8) (reads : List (List UInt8)) : Prop :=
  ∀ v : Int, (∃ text, (v, text) ∈ cmdGrep needle reads) ↔
    ∃ (i : Nat) (line : List UInt8), (linesOf reads.flatten)[i]? = some line ∧ Contains needle line ∧ v = i + 1

/-- One of the places of the text lies in one filling of the buffer, which takes 255 of
256 bytes; what is in the buffer at the end of the file is not looked at. -/
def Seen (needle line : List UInt8) (ended : Prop) : Prop :=
  ∃ s, OccursAt needle line s ∧ s % 256 + needle.length ≤ bufferMax ∧ (ended ∨ s / 256 * 256 + 256 ≤ line.length)

theorem hasAt_iff (needle line : List UInt8) : hasAt needle line = true ↔ needle.map tolower <+: line.map tolower := by
  induction needle generalizing line with
  | nil => exact iff_of_true rfl List.nil_prefix
  | cons d needle ih =>
      cases line with
      | nil =>
          refine iff_of_false Bool.false_ne_true fun first => ?_
          exact List.cons_ne_nil _ _ (List.prefix_nil.mp first)
      | cons c line =>
          rw [hasAt, List.map_cons, List.map_cons, List.cons_prefix_cons, ← ih]
          split
          next other => exact iff_of_false Bool.false_ne_true fun both => other (toupper_eq_iff.mpr both.1.symm)
          next same => rw [and_iff_right (toupper_eq_iff.mp (not_not.mp same)).symm]

theorem contains_iff {needle line : List UInt8} : Contains needle line ↔ ∃ s, OccursAt needle line s := by
  rw [Contains, List.infix_iff_prefix_suffix]
  constructor
  · rintro ⟨rest, first, last⟩
    refine ⟨(line.map tolower).length - rest.length, ?_⟩
    rw [OccursAt, List.map_drop, ← List.suffix_iff_eq_drop.mp last]
    exact first
  · rintro ⟨s, here⟩
    refine ⟨_, here, ?_⟩
    rw [List.map_drop]
    exact List.drop_suffix s _

theorem OccursAt.short {needle line : List UInt8} {s : Nat} (here : OccursAt needle line s) :
    needle.length ≤ line.length - s := by
  have bound := here.length_le
  rwa [List.length_map, List.length_map, List.length_drop] at bound

theorem search_iff (needle line : List UInt8) : search needle line = true ↔ ∃ s, OccursAt needle line s := by
  induction line with
  | nil =>
      rw [search]
      constructor
      · intro found
        split at found
        next => exact ⟨0, (hasAt_iff needle []).mp found⟩
        next => exact absurd found Bool.false_ne_true
      · rintro ⟨s, here⟩
        have short : needle.length ≤ 0 := by simpa using here.short
        rw [OccursAt, List.drop_nil] at here
        rw [if_pos short]
        exact (hasAt_iff needle []).mpr here
  | cons c line ih =>
      rw [search]
      constructor
      · intro found
        split at found
        next =>
          split at found
          next first => exact ⟨0, (hasAt_iff needle _).mp first⟩
          next =>
            obtain ⟨s, here⟩ := ih.mp found
            exact ⟨s + 1, here⟩
        next => exact absurd found Bool.false_ne_true
      · rintro ⟨s, here⟩
        have short := here.short
        rw [List.length_cons] at short
        rw [if_pos (by omega)]
        cases s with
        | zero => exact if_pos ((hasAt_iff needle _).mpr here)
        | succ s =>
            split
            next => rfl
            next => exact ih.mpr ⟨s, here⟩

/-- In a part of the line the text stands where it stands in the line. -/
theorem occursAt_part {needle line : List UInt8} {start s n : Nat} :
    OccursAt needle ((line.drop start).take n) s ↔ OccursAt needle line (start + s) ∧ needle.length ≤ n - s := by
  rw [OccursAt, OccursAt, List.drop_take, List.drop_drop, List.map_take, List.prefix_take_iff, List.length_map]

namespace Grep

variable {needle : List UInt8}

/-- What the buffer was full of on the way through a line. -/
def fillings (line : List UInt8) : List (List UInt8) :=
  (List.range (line.length / 256)).map fun k => (line.drop (256 * k)).take bufferMax

/-- What is in the buffer behind a line. -/
def leftOver (line : List UInt8) : List UInt8 := line.drop (256 * (line.length / 256))

/-- What the search reports of these texts. -/
def found (needle : List UInt8) (lineno : Int) (texts : List (List UInt8)) : List (Int × List UInt8) :=
  (texts.filter (search needle)).map fun text => (lineno, text)

theorem found_append (lineno : Int) (first second : List (List UInt8)) :
    found needle lineno (first ++ second) = found needle lineno first ++ found needle lineno second := by
  rw [found, List.filter_append, List.map_append]
  rfl

theorem report_found (g : Grep) : g.report needle = { g with reports := g.reports ++ found needle g.lineno [g.line] } := by
  rw [report, found, List.filter_cons, List.filter_nil]
  split
  next yes => rfl
  next no => simp only [List.map_nil, List.append_nil]

theorem step_plain {g : Grep} {c : UInt8} (noCr : c ≠ 13) (noLf : c ≠ 10) (room : g.line.length < bufferMax) :
    step needle g c = { g with line := g.line ++ [c] } := by
  rw [step, if_neg noCr, if_neg]
  exact fun stop => stop.elim noLf (Nat.not_le.mpr room)

/-- The byte that finds the buffer full is lost. -/
theorem step_full {g : Grep} {c : UInt8} (noCr : c ≠ 13) (noLf : c ≠ 10) (full : g.line.length = bufferMax) :
    step needle g c = ⟨[], g.lineno, g.reports ++ found needle g.lineno [g.line]⟩ := by
  rw [step, if_neg noCr, if_pos (Or.inr (Nat.le_of_eq full.symm)), if_neg noLf, report_found]

theorem step_lf (g : Grep) :
    step needle g 10 = ⟨[], wrapInt (g.lineno + 1), g.reports ++ found needle g.lineno [g.line]⟩ := by
  rw [step, if_neg (by decide), if_pos (Or.inl rfl), if_pos rfl, report_found]

theorem run_short {line : List UInt8} (plain : ∀ c ∈ line, c ≠ 13 ∧ c ≠ 10) : ∀ (g : Grep),
    g.line.length + line.length ≤ bufferMax → line.foldl (step needle) g = { g with line := g.line ++ line } := by
  induction line with
  | nil =>
      intro g _
      rw [List.foldl_nil, List.append_nil]
  | cons c line ih =>
      intro g room
      rw [List.length_cons] at room
      obtain ⟨noCr, noLf⟩ := plain c List.mem_cons_self
      rw [List.foldl_cons, step_plain noCr noLf (by omega), ih fun d member => plain d (List.mem_cons_of_mem c member)]
      · rw [List.append_assoc, List.singleton_append]
      · rw [List.length_append, List.length_singleton]
        omega

theorem fillings_cons {a : List UInt8} (full : a.length = bufferMax) (c : UInt8) (rest : List UInt8) :
    fillings (a ++ c :: rest) = a :: fillings rest ∧ leftOver (a ++ c :: rest) = leftOver rest := by
  have length : (a ++ c :: rest).length = rest.length + 256 := by
    rw [List.length_append, List.length_cons, full, bufferMax]
    omega
  have blocks : (rest.length + 256) / 256 = rest.length / 256 + 1 := by omega
  have shift (k : Nat) : (a ++ c :: rest).drop (256 * (k + 1)) = rest.drop (256 * k) := by
    rw [show 256 * (k + 1) = a.length + 1 + 256 * k by rw [full, bufferMax]; omega, ← List.drop_drop, ← List.drop_drop,
      List.drop_left, List.drop_one, List.tail_cons]
  constructor
  · rw [fillings, length, blocks, List.range_succ_eq_map, List.map_cons, List.map_map, Nat.mul_zero, List.drop_zero, ← full,
      List.take_left, fillings]
    congr 1
    apply List.map_congr_left
    intro k _
    rw [Function.comp_apply, shift, full]
  · rw [leftOver, length, blocks, shift, leftOver]

/-- A line without its line feed. -/
theorem run_line {line : List UInt8} (plain : ∀ c ∈ line, c ≠ 13 ∧ c ≠ 10) (lineno : Int) (reports : List (Int × List UInt8)) :
    line.foldl (step needle) ⟨[], lineno, reports⟩ =
      ⟨leftOver line, lineno, reports ++ found needle lineno (fillings line)⟩ := by
  induction length : line.length using Nat.strongRecOn generalizing line reports with
  | _ n ih =>
      by_cases short : line.length ≤ bufferMax
      · have none : line.length / 256 = 0 := Nat.div_eq_of_lt (Nat.lt_succ_of_le short)
        rw [run_short plain _ (by simpa using short), leftOver, fillings, none]
        simp [found]
      · obtain ⟨a, c, rest, full, rfl⟩ : ∃ a c rest, a.length = bufferMax ∧ line = a ++ c :: rest := by
          obtain ⟨c, rest, tail⟩ := List.exists_cons_of_ne_nil (l := line.drop bufferMax)
            (by rw [ne_eq, List.drop_eq_nil_iff]; exact short)
          refine ⟨line.take bufferMax, c, rest, ?_, ?_⟩
          · rw [List.length_take]
            omega
          · rw [← tail, List.take_append_drop]
        obtain ⟨front, back⟩ := fillings_cons full c rest
        obtain ⟨noCr, noLf⟩ := plain c (List.mem_append_right a List.mem_cons_self)
        have first : a.foldl (step needle) ⟨[], lineno, reports⟩ = ⟨a, lineno, reports⟩ :=
          run_short (fun d member => plain d (List.mem_append_left _ member)) _ (by simpa using Nat.le_of_eq full)
        rw [List.foldl_append, first, List.foldl_cons, step_full noCr noLf full, ih rest.length ?_ ?_ _ rfl, front, back]
        · rw [List.append_assoc, ← found_append, List.singleton_append]
        · rw [← length, List.length_append, List.length_cons]
          omega
        · exact fun d member => plain d (List.mem_append_right a (List.mem_cons_of_mem c member))

/-- What is searched of a line: what is left over when the file ends is not. -/
def searched (line : List UInt8) (ended : Bool) : List (List UInt8) :=
  fillings line ++ if ended then [leftOver line] else []

/-- What is reported of these lines, which follow `k` others; the last one has no line feed. -/
def listing (needle : List UInt8) (k : Int) : List (List UInt8) → List (Int × List UInt8)
  | [] => []
  | line :: rest =>
    found needle (wrapInt (k + 1)) (searched line (decide (rest ≠ []))) ++ listing needle (k + 1) rest

theorem run_file {content : List UInt8} (noCr : ∀ c ∈ content, c ≠ 13) : ∀ (k : Int) (reports : List (Int × List UInt8)),
    (content.foldl (step needle) ⟨[], wrapInt (k + 1), reports⟩).reports =
      reports ++ listing needle k (content.splitOn 10) := by
  induction length : content.length using Nat.strongRecOn generalizing content with
  | _ n ih =>
      intro k reports
      by_cases more : 10 ∈ content
      · obtain ⟨line, rest, rfl, first⟩ := List.eq_append_cons_of_mem more
        have plain : ∀ c ∈ line, c ≠ 13 ∧ c ≠ 10 := fun c member =>
          ⟨noCr c (List.mem_append_left _ member), fun lf => first (lf ▸ member)⟩
        have wrap : wrapInt (wrapInt (k + 1) + 1) = wrapInt (k + 1 + 1) := Int.bmod_add_bmod
        rw [List.foldl_append, run_line plain, List.foldl_cons, step_lf, List.splitOn_append_cons_self_of_not_mem first, wrap,
          ih rest.length ?_ ?_ rfl, listing, searched, if_pos (decide_eq_true (List.splitOn_ne_nil _ _)), found_append]
        · simp only [List.append_assoc]
        · rw [← length, List.length_append, List.length_cons]
          omega
        · exact fun c member => noCr c (List.mem_append_right _ (List.mem_cons_of_mem _ member))
      · have plain : ∀ c ∈ content, c ≠ 13 ∧ c ≠ 10 := fun c member =>
          ⟨noCr c member, fun lf => more (lf ▸ member)⟩
        rw [run_line plain, List.splitOn_eq_singleton more, listing, listing, List.append_nil, searched,
          if_neg (by simp), List.append_nil]

theorem run_noCr (content : List UInt8) (g : Grep) :
    content.foldl (step needle) g = (content.filter (· ≠ 13)).foldl (step needle) g := by
  induction content generalizing g with
  | nil => rfl
  | cons c content ih =>
      rw [List.foldl_cons, List.filter_cons, ih]
      split
      next => rw [List.foldl_cons]
      next cr =>
        have same : c = 13 := by simpa using cr
        rw [step, if_pos same]

theorem cmdGrep_listing (reads : List (List UInt8)) : cmdGrep needle reads = listing needle 0 (linesOf reads.flatten) := by
  have noCr : ∀ c ∈ reads.flatten.filter (· ≠ 13), c ≠ 13 := fun c member => by simpa using (List.mem_filter.mp member).2
  rw [cmdGrep, ← List.foldl_flatten, run_noCr, linesOf]
  exact (run_file noCr 0 []).trans (List.nil_append _)

theorem found_mem {v lineno : Int} {texts : List (List UInt8)} : (∃ text, (v, text) ∈ found needle lineno texts) ↔
    v = lineno ∧ ∃ text ∈ texts, search needle text = true := by
  simp only [found, List.mem_map, List.mem_filter, Prod.mk.injEq]
  constructor
  · rintro ⟨_, text, inside, rfl, rfl⟩
    exact ⟨rfl, text, inside⟩
  · rintro ⟨rfl, text, inside⟩
    exact ⟨text, text, inside, rfl, rfl⟩

theorem listing_mem {v k : Int} {lines : List (List UInt8)} : (∃ text, (v, text) ∈ listing needle k lines) ↔
    ∃ (i : Nat) (line : List UInt8), lines[i]? = some line ∧ v = wrapInt (k + i + 1) ∧
      ∃ text ∈ searched line (decide (i + 1 < lines.length)), search needle text = true := by
  induction lines generalizing k with
  | nil =>
      refine iff_of_false ?_ ?_
      · rintro ⟨text, absent⟩
        exact absurd absent List.not_mem_nil
      · rintro ⟨i, line, absent, -⟩
        exact absurd absent (by simp)
  | cons line rest ih =>
      have ended : decide (rest ≠ []) = decide (0 + 1 < (line :: rest).length) := by
        rw [decide_eq_decide, List.length_cons, Nat.add_lt_add_iff_right, List.length_pos_iff]
      have split : (∃ text, (v, text) ∈ listing needle k (line :: rest)) ↔
          (∃ text, (v, text) ∈ found needle (wrapInt (k + 1)) (searched line (decide (rest ≠ [])))) ∨
            ∃ text, (v, text) ∈ listing needle (k + 1) rest := by
        simp only [listing, List.mem_append, exists_or]
      have first : k + ((0 : Nat) : Int) + 1 = k + 1 := by omega
      have next (i : Nat) : k + ((i + 1 : Nat) : Int) + 1 = k + 1 + i + 1 := by omega
      rw [split, found_mem, ih, ended]
      constructor
      · rintro (⟨number, here⟩ | ⟨i, later, there, number, here⟩)
        · exact ⟨0, line, rfl, by rw [number, first], here⟩
        · refine ⟨i + 1, later, there, by rw [number, next], ?_⟩
          simpa only [List.length_cons, Nat.add_lt_add_iff_right] using here
      · rintro ⟨i, later, there, number, here⟩
        cases i with
        | zero =>
            obtain rfl : line = later := Option.some.inj there
            exact Or.inl ⟨by rw [number, first], here⟩
        | succ i =>
            refine Or.inr ⟨i, later, there, by rw [number, next], ?_⟩
            simpa only [List.length_cons, Nat.add_lt_add_iff_right] using here

theorem searched_iff (some' : needle ≠ []) {line : List UInt8} {ended : Bool} :
    (∃ text ∈ searched line ended, search needle text = true) ↔ Seen needle line (ended = true) := by
  have one : 0 < needle.length := List.length_pos_iff.mpr some'
  simp only [search_iff]
  constructor
  · rintro ⟨text, inside, s, here⟩
    rcases List.mem_append.mp inside with filling | last
    · obtain ⟨k, low, rfl⟩ := List.mem_map.mp filling
      have full := List.mem_range.mp low
      obtain ⟨there, room⟩ := occursAt_part.mp here
      rw [bufferMax] at room
      refine ⟨256 * k + s, there, ?_, Or.inr ?_⟩
      · rw [bufferMax]
        omega
      · omega
    · cases ended with
      | false => exact absurd last List.not_mem_nil
      | true =>
          obtain rfl := List.mem_singleton.mp last
          have bound := here.short
          rw [leftOver, OccursAt, List.drop_drop] at here
          rw [leftOver, List.length_drop] at bound
          refine ⟨_, here, ?_, Or.inl rfl⟩
          rw [bufferMax]
          omega
  · rintro ⟨s, here, room, reached⟩
    have bound := here.short
    rw [bufferMax] at room
    by_cases full : s / 256 * 256 + 256 ≤ line.length
    · refine ⟨(line.drop (256 * (s / 256))).take bufferMax, ?_, s % 256, ?_⟩
      · refine List.mem_append_left _ (List.mem_map_of_mem (List.mem_range.mpr ?_))
        omega
      · refine occursAt_part.mpr ⟨?_, by rw [bufferMax]; omega⟩
        rwa [Nat.div_add_mod]
    · have last : ended = true := reached.resolve_right full
      refine ⟨leftOver line, ?_, s % 256, ?_⟩
      · rw [searched, last, if_pos rfl]
        exact List.mem_append_right _ (List.mem_singleton_self _)
      · have same : s / 256 = line.length / 256 := by omega
        rw [leftOver, OccursAt, List.drop_drop, ← same, Nat.div_add_mod]
        exact here

end Grep

theorem Seen.contains {needle line : List UInt8} {ended : Prop} (seen : Seen needle line ended) : Contains needle line := by
  obtain ⟨s, here, -⟩ := seen
  exact contains_iff.mpr ⟨s, here⟩

theorem splitOn_length (content : List UInt8) : (content.splitOn 10).length ≤ content.length + 1 := by
  induction content with
  | nil => exact Nat.le_refl 1
  | cons c content ih =>
      rw [List.splitOn_cons_eq_if_modifyHead, List.length_cons]
      split
      next => exact Nat.succ_le_succ ih
      next =>
        rw [List.length_modifyHead]
        exact Nat.le_succ_of_le ih

theorem linesOf_length (content : List UInt8) : (linesOf content).length ≤ content.length + 1 :=
  (splitOn_length _).trans (Nat.succ_le_succ (List.length_filter_le _ _))

/-- The numbers of the lines with the text are reported, exactly if each of these lines has
it where the search sees it, and a number that is an int. -/
theorem grep_complete_iff {needle : List UInt8} {reads : List (List UInt8)} (some' : needle ≠ [])
    (size : reads.flatten.length < 2 ^ 32) : GrepRight needle reads ↔
      ∀ (i : Nat) (line : List UInt8), (linesOf reads.flatten)[i]? = some line → Contains needle line →
        i + 1 < 2 ^ 31 ∧ Seen needle line (i + 1 < (linesOf reads.flatten).length) := by
  have reported (v : Int) : (∃ text, (v, text) ∈ cmdGrep needle reads) ↔
      ∃ (i : Nat) (line : List UInt8), (linesOf reads.flatten)[i]? = some line ∧ v = wrapInt (i + 1) ∧
        Seen needle line (i + 1 < (linesOf reads.flatten).length) := by
    simp only [Grep.cmdGrep_listing, Grep.listing_mem, Grep.searched_iff some', Int.zero_add, decide_eq_true_eq]
  have small {i : Nat} {line : List UInt8} (there : (linesOf reads.flatten)[i]? = some line) : i < 2 ^ 32 := by
    obtain ⟨inside, -⟩ := List.getElem?_eq_some_iff.mp there
    have lines := linesOf_length reads.flatten
    omega
  constructor
  · intro right i line there text
    obtain ⟨j, other, found, number, seen⟩ := (reported (i + 1)).mp ((right (i + 1)).mpr ⟨i, line, there, text, rfl⟩)
    have one := small there
    have two := small found
    -- the numbers of two lines are less than 2^32 apart
    have same : j = i ∧ i + 1 < 2 ^ 31 := by
      rw [wrapInt, Int.bmod_def] at number
      omega
    obtain ⟨rfl, low⟩ := same
    obtain rfl := Option.some.inj (there.symm.trans found)
    exact ⟨low, seen⟩
  · intro whole v
    rw [reported]
    constructor
    · rintro ⟨i, line, there, number, seen⟩
      have low := (whole i line there seen.contains).1
      exact ⟨i, line, there, seen.contains, number.trans (wrapInt_of_small (by omega) (by omega))⟩
    · rintro ⟨i, line, there, text, number⟩
      obtain ⟨low, seen⟩ := whole i line there text
      exact ⟨i, line, there, number.trans (wrapInt_of_small (by omega) (by omega)).symm, seen⟩

/-- `b` in the lines `ab` and `B`. -/
theorem grep_complete_iff_two : GrepRight [98] [[97, 98, 13, 10], [66, 10]] := by
  refine (grep_complete_iff (by decide) (by decide)).mpr ?_
  have lines : linesOf [[97, 98, 13, 10], [66, 10]].flatten = [[97, 98], [66], []] := by decide
  rw [lines]
  intro i line there text
  rcases i with _ | _ | _ | i
  · obtain rfl := Option.some.inj there
    exact ⟨by decide, 1, ⟨[], rfl⟩, by decide, Or.inl (by decide)⟩
  · obtain rfl := Option.some.inj there
    exact ⟨by decide, 0, ⟨[], rfl⟩, by decide, Or.inl (by decide)⟩
  · obtain rfl := Option.some.inj there
    exact absurd text.length_le (by decide)
  · exact absurd there (by simp)

/-- A file of one line without a line feed: `b` is in it and is not found. -/
theorem lastLine_missed : ¬GrepRight [98] [[97, 98]] ∧ cmdGrep [98] [[97, 98]] = [] := by
  have nothing : cmdGrep [98] [[97, 98]] = [] := by decide
  refine ⟨fun right => ?_, nothing⟩
  obtain ⟨text, there⟩ := (right 1).mpr ⟨0, [97, 98], by decide, ⟨[97], [], by decide⟩, rfl⟩
  rw [nothing] at there
  exact absurd there List.not_mem_nil

end Zenbite.Shell
