import Mathlib.Data.List.Basic
import Mathlib.Logic.Function.Basic
import Mathlib.Tactic.Common
import Zenbite.CString
import Zenbite.Lib.Runs

/-! The command history: a ring of 32 entries of up to 127 characters and a counter of
all that were ever put in. -/

namespace Zenbite.Shell

open CString

/-- HIST_MAX -/
def histMax : Nat := 32

/-- The characters of an entry. -/
def entryMax : Nat := 127

structure History where
  entries : Fin histMax → Field entryMax
  count : Int

namespace History

/-- An index into g_hist. -/
def place (i : Int) : Option (Fin histMax) :=
  if inside : 0 ≤ i ∧ i < 32 then some ⟨i.toNat, by unfold histMax; omega⟩ else none

/-- The line is the previous entry; none is an index outside g_hist. -/
def isPrev (line : CString) (h : History) : Option Bool :=
  if 0 < h.count then
    (place ((h.count - 1).tmod 32)).map fun prev => strcmp (h.entries prev).val.chars line.chars == 0
  else some false

def push (line : CString) (h : History) : Option History :=
  (place (h.count.tmod 32)).map fun i =>
    { entries := Function.update h.entries i (line.store entryMax)
      count := wrapInt (h.count + 1) }

def shellHistoryAdd (line : CString) (h : History) : Option History :=
  if line.chars = [] then some h
  else (h.isPrev line).bind fun same => if same then some h else h.push line

/-- The entry, or NULL. -/
def shellHistoryGet (back : Int) (h : History) : Option (Option CString) :=
  if back < 0 ∨ 32 ≤ back ∨ h.count ≤ back then some none
  else (place ((wrapInt (h.count - 1 - back + 32 * 100)).tmod 32)).map fun i => some (h.entries i).val

/-- The place of the entry that is `back` steps behind the last of `n`. -/
def cell (n back : Nat) : Fin histMax := ⟨(n - 1 - back) % 32, Nat.mod_lt _ (by decide)⟩

/-- The entries in use, the latest first. -/
def shown (h : History) : List CString :=
  (List.range (min h.count.toNat 32)).map fun back => (h.entries (cell h.count.toNat back)).val

/-- With 3200 added, the counter still is an int; one more is no harm, for it is 0 modulo 32
on both sides of the wrap. -/
def countMax : Int := 2 ^ 31 - 3199

/-- The counter before it can overflow. -/
def InRange (h : History) : Prop := 0 ≤ h.count ∧ h.count ≤ countMax

theorem place_of_mod {i : Int} {n : Nat} (same : i.tmod 32 = (n % 32 : Nat)) :
    place (i.tmod 32) = some ⟨n % 32, Nat.mod_lt _ (by decide)⟩ := by
  rw [same, place, dif_pos (by omega)]
  rfl

variable {h : History}

theorem shown_length (h : History) : h.shown.length = min h.count.toNat 32 := by
  rw [shown, List.length_map, List.length_range]

theorem shown_at (h : History) {back : Nat} (inside : back < 32) :
    h.shown[back]? = if back < h.count.toNat then some (h.entries (cell h.count.toNat back)).val else none := by
  rw [shown, List.getElem?_map]
  split
  next here => rw [List.getElem?_range (Nat.lt_min.mpr ⟨here, inside⟩), Option.map_some]
  next beyond =>
    rw [List.getElem?_eq_none (by rw [List.length_range]; omega), Option.map_none]

theorem shown_head (h : History) :
    h.shown.head? = if 0 < h.count then some (h.entries (cell h.count.toNat 0)).val else none := by
  rw [List.head?_eq_getElem?, shown_at h (by decide)]
  exact ite_congr (propext Int.lt_toNat) (fun _ => rfl) fun _ => rfl

/-- What is found for an entry in use. -/
theorem place_back (range : h.InRange) {back : Nat} (inside : back < 32) (used : back < h.count.toNat) :
    place ((wrapInt (h.count - 1 - back + 32 * 100)).tmod 32) = some (cell h.count.toNat back) := by
  obtain ⟨low, high⟩ := range
  rw [countMax] at high
  rcases Int.lt_or_le (h.count - 1 - back + 32 * 100) (2 ^ 31) with small | last
  · apply place_of_mod
    rw [wrapInt_of_small (by omega) small, Int.tmod_eq_emod_of_nonneg (by omega)]
    omega
  · have count : h.count = 2 ^ 31 - 3199 := by omega
    obtain rfl : back = 0 := by omega
    rw [count]
    rfl

theorem get_shown (range : h.InRange) {back : Int} (low : 0 ≤ back) (high : back < 32) :
    h.shellHistoryGet back = some h.shown[back.toNat]? := by
  obtain ⟨back, rfl⟩ := Int.eq_ofNat_of_zero_le low
  rw [shellHistoryGet, Int.toNat_natCast, shown_at h (by omega)]
  by_cases used : back < h.count.toNat
  · rw [if_neg (by omega), if_pos used, place_back range (by omega) used, Option.map_some]
  · rw [if_pos (by omega), if_neg used]

theorem isPrev_shown (range : h.InRange) (line : CString) : h.isPrev line = some (h.shown.head? == some line) := by
  obtain ⟨low, high⟩ := range
  rw [isPrev, shown_head]
  split
  next some' =>
    have here : place ((h.count - 1).tmod 32) = some (cell h.count.toNat 0) := by
      apply place_of_mod
      rw [Int.tmod_eq_emod_of_nonneg (by omega)]
      omega
    rw [here, Option.map_some, Option.some.injEq, Bool.eq_iff_iff, beq_iff_eq, beq_iff_eq, strcmp_iff, Option.some.injEq]
  next none' => rfl

/-- A line that is put in comes first, and the entry 32 lines back is gone. -/
theorem push_shown (range : h.InRange) (line : CString) : ∃ h', h.push line = some h' ∧
    h'.count = h.count + 1 ∧ h'.shown = (line.take entryMax :: h.shown).take 32 := by
  obtain ⟨low, high⟩ := range
  rw [countMax] at high
  have here : place (h.count.tmod 32) = some (cell (h.count.toNat + 1) 0) := by
    apply place_of_mod
    rw [Int.tmod_eq_emod_of_nonneg low]
    omega
  rw [push, here, Option.map_some, wrapInt_of_small (by omega) (by omega)]
  refine ⟨_, rfl, rfl, List.ext_getElem? fun back => ?_⟩
  have count : (h.count + 1).toNat = h.count.toNat + 1 := by omega
  by_cases inside : back < 32
  · rw [List.getElem?_take_of_lt inside, shown_at _ inside]
    dsimp only
    rw [count]
    cases back with
    | zero => rw [if_pos (Nat.succ_pos _), Function.update_self, store_val, List.getElem?_cons_zero]
    | succ back =>
        rw [List.getElem?_cons_succ, shown_at h (by omega)]
        by_cases used : back < h.count.toNat
        · have same : cell (h.count.toNat + 1) (back + 1) = cell h.count.toNat back := Fin.ext (by
            simp only [cell]
            omega)
          have other : cell h.count.toNat back ≠ cell (h.count.toNat + 1) 0 := fun equal => by
            have places := congrArg Fin.val equal
            simp only [cell] at places
            omega
          rw [if_pos used, if_pos (Nat.succ_lt_succ used), same, Function.update_of_ne other]
        · rw [if_neg used, if_neg (by omega)]
  · rw [List.getElem?_eq_none (by rw [shown_length]; omega), List.getElem?_take_eq_none (by omega)]

end History

/-! The list of the lines, and when the ring shows it. -/

/-- The lines without the empty ones and repetitions, the latest first. -/
def keep (line : CString) (kept : List CString) : List CString :=
  if line.chars = [] ∨ kept.head? = some line then kept else line :: kept

/-- The lines as they are to be shown. -/
def listed (kept : List CString) : List CString := kept.map (CString.take entryMax)

structure Session where
  hist : Option History
  kept : List CString

namespace Session

def step (line : CString) (s : Session) : Session := ⟨s.hist.bind (History.shellHistoryAdd line), keep line s.kept⟩

def boot : Session := ⟨some ⟨fun _ => CString.empty.store _, 0⟩, []⟩

/-- shell_history_get shows the list. -/
def Right (s : Session) : Prop :=
  ∃ h, s.hist = some h ∧ ∀ back : Int, 0 ≤ back → back < 32 → h.shellHistoryGet back = some (listed s.kept)[back.toNat]?

/-- A line that repeats one of more than 127 characters, or is the part of it that was kept. -/
def Repeats (line : CString) (kept : List CString) : Prop :=
  ∃ prev, kept.head? = some prev ∧ entryMax < prev.chars.length ∧ (line = prev ∨ line = prev.take entryMax)

/-- How often the ring has taken a line. -/
def taken (s : Session) : Int := (s.hist.map History.count).getD 0

/-- A line goes right if it is no such repetition, or all 32 entries show it already, and if
the counter does not overflow. -/
def Fits (line : CString) (s : Session) : Prop :=
  line.chars = [] ∨
    (Repeats line s.kept → (listed s.kept).take 32 = List.replicate 32 (line.take entryMax)) ∧
      ((listed s.kept).head? = some line ∨ s.taken < History.countMax)

/-- What the ring of the session holds. -/
structure Holds (s : Session) (h : History) : Prop where
  hist : s.hist = some h
  range : h.InRange
  shown : h.shown = (listed s.kept).take 32

theorem take_cons_iff {α : Type} (n : Nat) {x : α} {l : List α} :
    (x :: l).take n = l.take n ↔ l.take n = List.replicate n x := by
  induction n generalizing x l with
  | zero => exact iff_of_true rfl rfl
  | succ n ih =>
      cases l with
      | nil => exact iff_of_false (List.cons_ne_nil _ _) (List.cons_ne_nil _ _).symm
      | cons y l =>
          rw [List.take_succ_cons, List.take_succ_cons, List.replicate_succ, List.cons.injEq, List.cons.injEq]
          constructor
          · rintro ⟨rfl, same⟩
            exact ⟨rfl, ih.mp same⟩
          · rintro ⟨rfl, same⟩
            exact ⟨rfl, ih.mpr same⟩

variable {s : Session} {h : History}

/-- A ring whose counter has just run over is read outside. -/
theorem get_overflown (over' : h.count = History.countMax + 1) : h.shellHistoryGet 0 = none := by
  rw [History.shellHistoryGet, over']
  rfl

theorem right_iff (hist : s.hist = some h) (low : 0 ≤ h.count) (high : h.count ≤ History.countMax + 1) :
    s.Right ↔ h.count ≤ History.countMax ∧ h.shown = (listed s.kept).take 32 := by
  constructor
  · rintro ⟨h', same, gets⟩
    obtain rfl : h = h' := Option.some.inj (hist.symm.trans same)
    have range : h.count ≤ History.countMax := by
      by_contra beyond
      have first := gets 0 (by decide) (by decide)
      rw [get_overflown (by omega)] at first
      exact absurd first (Option.some_ne_none _).symm
    refine ⟨range, List.ext_getElem? fun back => ?_⟩
    by_cases inside : back < 32
    · have here := gets back (by omega) (by omega)
      rw [History.get_shown ⟨low, range⟩ (by omega) (by omega), Option.some.injEq, Int.toNat_natCast] at here
      rw [here, List.getElem?_take_of_lt inside]
    · rw [List.getElem?_eq_none (by rw [History.shown_length]; omega), List.getElem?_take_eq_none (by omega)]
  · rintro ⟨range, shown⟩
    refine ⟨h, hist, fun back inside below => ?_⟩
    rw [History.get_shown ⟨low, range⟩ inside below, shown, List.getElem?_take_of_lt (by omega)]

theorem Holds.right (holds : s.Holds h) : s.Right :=
  (right_iff holds.hist holds.range.1 (by have := holds.range.2; omega)).mpr ⟨holds.range.2, holds.shown⟩

theorem listed_head (kept : List CString) : (listed kept).head? = kept.head?.map (CString.take entryMax) := by
  rw [listed, List.head?_map]

theorem listed_cons (line : CString) (kept : List CString) :
    listed (line :: kept) = line.take entryMax :: listed kept := rfl

/-- What the ring does with a line: it drops the one that it shows last, and takes every other. -/
theorem Holds.added (holds : s.Holds h) {line : CString} (some' : line.chars ≠ []) :
    if (listed s.kept).head? = some line then h.shellHistoryAdd line = some h
    else ∃ h', h.shellHistoryAdd line = some h' ∧ h'.count = h.count + 1 ∧
      h'.shown = (line.take entryMax :: listed s.kept).take 32 := by
  have head : h.shown.head? = (listed s.kept).head? := by
    rw [holds.shown]
    cases listed s.kept <;> rfl
  rw [History.shellHistoryAdd, if_neg some', History.isPrev_shown holds.range, head, Option.bind_some]
  split
  next same => rw [same, beq_self_eq_true, if_pos rfl]
  next other =>
    rw [if_neg (by rwa [beq_iff_eq])]
    obtain ⟨h', pushed, count, shown⟩ := History.push_shown holds.range line
    refine ⟨h', pushed, count, ?_⟩
    rw [shown, holds.shown, List.take_cons (by decide), List.take_cons (by decide), List.take_take]
    rfl

theorem take_of_short {line : CString} (short : ¬entryMax < line.chars.length) : line.take entryMax = line :=
  CString.take_of_le (Nat.not_lt.mp short)

/-- A line that the ring drops and the list keeps, or the other way round, repeats a long one. -/
theorem repeats_of_unlike {line : CString} {kept : List CString}
    (unlike : ¬((listed kept).head? = some line ↔ kept.head? = some line)) : Repeats line kept := by
  rw [listed_head] at unlike
  cases last : kept.head? with
  | none =>
      rw [last] at unlike
      exact absurd Iff.rfl unlike
  | some prev =>
      rw [last, Option.map_some, Option.some.injEq, Option.some.injEq] at unlike
      have long : entryMax < prev.chars.length := by
        by_contra short
        rw [take_of_short short] at unlike
        exact unlike Iff.rfl
      refine ⟨prev, last, long, ?_⟩
      by_cases cut : prev.take entryMax = line
      · exact Or.inr cut.symm
      · by_cases whole : prev = line
        · exact Or.inl whole.symm
        · exact absurd (iff_of_false cut whole) unlike

theorem not_repeats {line : CString} {kept : List CString}
    (alike : (listed kept).head? = some line ↔ kept.head? = some line) : ¬Repeats line kept := by
  rintro ⟨prev, last, long, which⟩
  have short : (prev.take entryMax).chars.length ≤ entryMax := (prev.store entryMax).property
  rw [listed_head, last, Option.map_some, Option.some.injEq, Option.some.injEq] at alike
  rcases which with rfl | rfl
  · rw [alike.mpr rfl] at short
    exact Nat.not_lt.mpr short long
  · rw [← alike.mp rfl] at short
    exact Nat.not_lt.mpr short long

/-- After one line the ring shows the list exactly if the line goes right. -/
theorem step_right_iff (holds : s.Holds h) (line : CString) : (s.step line).Right ↔ Fits line s := by
  by_cases blank : line.chars = []
  · have same : s.step line = s := by
      rw [step, holds.hist, Option.bind_some, History.shellHistoryAdd, if_pos blank, keep, if_pos (Or.inl blank), ← holds.hist]
    exact iff_of_true (by rw [same]; exact holds.right) (Or.inl blank)
  have taken' : s.taken = h.count := by rw [taken, holds.hist]; rfl
  have hist : (s.step line).hist = h.shellHistoryAdd line := by rw [step, holds.hist, Option.bind_some]
  have kept : (s.step line).kept = if s.kept.head? = some line then s.kept else line :: s.kept := by
    rw [step, keep]
    exact if_congr (or_iff_right blank) rfl rfl
  obtain ⟨low, high⟩ := holds.range
  have added := holds.added blank
  rw [Fits, or_iff_right blank, taken']
  by_cases drops : (listed s.kept).head? = some line
  · rw [if_pos drops] at added
    rw [right_iff (hist.trans added) low (by omega), kept, holds.shown, and_iff_right high, or_iff_left_of_imp fun _ => drops,
      and_iff_left drops]
    by_cases last : s.kept.head? = some line
    · rw [if_pos last]
      exact iff_of_true rfl fun repeats => absurd repeats (not_repeats (iff_of_true drops last))
    · rw [if_neg last, listed_cons, eq_comm]
      refine (take_cons_iff 32).trans (imp_iff_right ?_).symm
      exact repeats_of_unlike fun alike => last (alike.mp drops)
  · rw [if_neg drops] at added
    obtain ⟨h', pushed, count, shown⟩ := added
    rw [right_iff (hist.trans pushed) (by omega) (by omega), kept, shown, count, or_iff_right drops, and_comm,
      Int.add_one_le_iff]
    refine and_congr_left fun _ => ?_
    by_cases last : s.kept.head? = some line
    · rw [if_pos last]
      refine (take_cons_iff 32).trans (imp_iff_right ?_).symm
      exact repeats_of_unlike fun alike => drops (alike.mpr last)
    · rw [if_neg last]
      exact iff_of_true rfl fun repeats => absurd repeats (not_repeats (iff_of_false drops last))

/-- A session that goes right goes on in a ring that holds its list. -/
theorem Holds.step (holds : s.Holds h) {line : CString} (right : (s.step line).Right) : ∃ h', (s.step line).Holds h' := by
  obtain ⟨h', hist, -⟩ := id right
  have hist' : (s.step line).hist = h.shellHistoryAdd line := by rw [Session.step, holds.hist, Option.bind_some]
  obtain ⟨low, high⟩ := holds.range
  have counts : h'.count = h.count ∨ h'.count = h.count + 1 := by
    by_cases blank : line.chars = []
    · rw [hist', History.shellHistoryAdd, if_pos blank, Option.some.injEq] at hist
      exact Or.inl (hist ▸ rfl)
    · have added := holds.added blank
      split at added
      next =>
        rw [hist', added, Option.some.injEq] at hist
        exact Or.inl (hist ▸ rfl)
      next =>
        obtain ⟨h₁, pushed, count, -⟩ := added
        rw [hist', pushed, Option.some.injEq] at hist
        exact Or.inr (hist ▸ count)
  obtain ⟨range, shown⟩ := (right_iff hist (by omega) (by omega)).mp right
  exact ⟨h', hist, ⟨by omega, range⟩, shown⟩

theorem boot_holds : ∃ h, boot.Holds h :=
  ⟨_, rfl, ⟨Int.le_refl 0, by decide⟩, rfl⟩

end Session

/-- In a session the ring shows the list of the lines after every line exactly if every line
goes right. -/
theorem history_list_iff (lines : List CString) :
    Runs.Each Session.step (fun line s => (s.step line).Right) lines Session.boot ↔
      Runs.Each Session.step Session.Fits lines Session.boot := by
  have same (line : CString) (s : Session) (shows : ∃ h, s.Holds h) (_ : True) :
      (s.step line).Right ↔ s.Fits line := by
    obtain ⟨h, holds⟩ := shows
    exact Session.step_right_iff holds line
  have keeps (line : CString) (s : Session) (shows : ∃ h, s.Holds h) (always : True) (fits : s.Fits line) :
      ∃ h, (s.step line).Holds h := by
    have right := (same line s shows always).mpr fits
    obtain ⟨h, holds⟩ := shows
    exact holds.step right
  exact Runs.Each.iff (fun s => ∃ h, s.Holds h) same keeps (Runs.Each.of_forall (fun _ _ _ => trivial) _)
    Session.boot_holds

/-- 128 times the letter a. -/
def longLine : CString := ⟨List.replicate 128 97, fun c member => by rw [List.eq_of_mem_replicate member]; decide⟩

/-- Entered twice, the line is in the ring twice. -/
theorem longLine_repeated :
    ¬Runs.Each Session.step (fun line s => (s.step line).Right) [longLine, longLine] Session.boot ∧
    ((Session.boot.step longLine).step longLine).kept = [longLine] ∧
    ((Session.boot.step longLine).step longLine).hist.map (fun h => (h.shellHistoryGet 1).map Option.isSome) =
      some (some true) := by
  have twice : ((Session.boot.step longLine).step longLine).hist.map
      (fun h => (h.shellHistoryGet 1).map Option.isSome) = some (some true) := by decide +kernel
  have once : ((Session.boot.step longLine).step longLine).kept = [longLine] := by decide +kernel
  refine ⟨fun each => ?_, once, twice⟩
  obtain ⟨h, hist, gets⟩ := each.2.1
  have second := gets 1 (by decide) (by decide)
  rw [once] at second
  rw [hist, Option.map_some, second] at twice
  exact absurd twice (by decide)

end Zenbite.Shell
