import Mathlib.Data.List.FinRange
import Mathlib.Logic.Function.Basic
import Zenbite.Lib.Runs
import Zenbite.Shell.Tokenize

/-! Aliases: the table, the commands that change it, and what becomes of a command line
before it is dispatched. -/

namespace Zenbite.Shell

open CString

/-- An entry of g_alias; one without a name is free. -/
structure AliasSlot where
  name : Field 15
  value : Field 63

abbrev AliasTable := Fin 16 → AliasSlot

namespace AliasTable

def boot : AliasTable := fun _ => ⟨CString.empty.store _, CString.empty.store _⟩

/-- The loops over the table that look for a name. -/
def find (name : List UInt8) (t : AliasTable) : Option (Fin 16) :=
  (List.finRange 16).find? fun i => decide ((t i).name.val.chars ≠ [] ∧ strcasecmp (t i).name.val.chars name = 0)

def free (t : AliasTable) : Option (Fin 16) := (List.finRange 16).find? fun i => decide ((t i).name.val.chars = [])

end AliasTable

def shellAliasLookup (name : List UInt8) (t : AliasTable) : Option CString := (t.find name).map fun i => (t i).value.val

/-- LINE_MAX - 1 -/
def lineMax : Nat := 255

/-- expand_alias into a buffer of LINE_MAX bytes. -/
def expandAlias (t : AliasTable) (line : List UInt8) : List UInt8 :=
  let word := (line.takeWhile fun c => !isspace c).take 64
  if word = [] then []
  else
    match shellAliasLookup (word.take 31) t with
    | none => line.take lineMax
    | some value => (value.chars ++ line.drop word.length).take lineMax

/-- The arguments that shell_run_line dispatches; without any it does nothing. -/
def shellRunLine (t : AliasTable) (line : List UInt8) : List (List UInt8) := tokenize 16 ((expandAlias t line).take lineMax)

/-- The arguments that shell_main dispatches. -/
def shellMain (t : AliasTable) (line : List UInt8) : List (List UInt8) :=
  if line = [] then [] else tokenize 16 (expandAlias t line)

/-! The commands. -/

/-- The arguments in one buffer of 82 bytes. -/
def aliasText (args : List (List UInt8)) : List UInt8 := ([32].intercalate args).take 81

def isQuote (c : UInt8) : Bool := c == 34 || c == 39

def unquoteFront : List UInt8 → List UInt8
  | [] => []
  | c :: text => if isQuote c then text else c :: text

def unquoteBack (text : List UInt8) : List UInt8 := if text.getLast?.any isQuote then text.dropLast else text

/-- cmd_alias; 61 is the equals sign. -/
def cmdAlias (argv : List (List UInt8)) (t : AliasTable) : AliasTable :=
  if argv.length < 2 then t
  else
    let arg := aliasText (argv.drop 1)
    if 61 ∈ arg then
      let name := arg.takeWhile (· ≠ 61)
      let value := unquoteBack ((unquoteFront ((arg.dropWhile (· ≠ 61)).drop 1)).take 63)
      match (t.find name).or t.free with
      | none => t
      | some i => Function.update t i ⟨(CString.read name).store 15, (CString.read value).store 63⟩
    else t

def cmdUnalias (argv : List (List UInt8)) (t : AliasTable) : AliasTable :=
  match argv with
  | _ :: name :: _ =>
    match t.find name with
    | none => t
    | some i => Function.update t i { t i with name := CString.empty.store 15 }
  | _ => t

/-- shell_dispatch, as far as it changes the table: "alias" and "unalias". -/
def shellDispatch (argv : List (List UInt8)) (t : AliasTable) : AliasTable :=
  match argv with
  | [] => t
  | command :: _ =>
    if strcasecmp command [97, 108, 105, 97, 115] = 0 then cmdAlias argv t
    else if strcasecmp command [117, 110, 97, 108, 105, 97, 115] = 0 then cmdUnalias argv t
    else t

/-! What the arguments are to be. -/

/-- The first argument of a line, and the text behind it. -/
def firstArg (line : List UInt8) : Option (List UInt8 × List UInt8) :=
  match line.dropWhile isspace with
  | [] => none
  | c :: rest =>
    if c = 34 then some (rest.takeWhile (· ≠ 34), (rest.dropWhile (· ≠ 34)).drop 1)
    else some ((c :: rest).takeWhile (fun d => !isspace d), (c :: rest).dropWhile fun d => !isspace d)

/-- The line itself, or the value of the alias that it begins with and the rest. -/
def wantedText (t : AliasTable) (line : List UInt8) : List UInt8 :=
  match firstArg line with
  | none => line
  | some (word, rest) =>
    match shellAliasLookup word t with
    | none => line
    | some value => value.chars ++ rest

/-- Both ways to run a line dispatch the arguments that are wanted. -/
def ExpandsRight (t : AliasTable) (line : List UInt8) : Prop :=
  shellRunLine t line = tokenize 16 (wantedText t line) ∧ shellMain t line = tokenize 16 (wantedText t line)

/-- Of a line that begins with a blank nothing is dispatched, a quoted word is never
expanded, and an expanded line is cut. -/
def Expandable (t : AliasTable) (line : List UInt8) : Prop :=
  match line with
  | [] => True
  | c :: _ =>
    if isspace c then tokenize 16 (wantedText t line) = []
    else if c = 34 then tokenize 16 line = tokenize 16 (wantedText t line)
    else reach 16 (wantedText t line) ≤ lineMax

instance (t : AliasTable) : ∀ line, Decidable (Expandable t line)
  | [] => inferInstanceAs (Decidable True)
  | c :: rest =>
    inferInstanceAs (Decidable (if isspace c then tokenize 16 (wantedText t (c :: rest)) = []
      else if c = 34 then tokenize 16 (c :: rest) = tokenize 16 (wantedText t (c :: rest))
      else reach 16 (wantedText t (c :: rest)) ≤ lineMax))

/-- No name begins with a quotation mark. -/
def AliasTable.Plain (t : AliasTable) : Prop := ∀ i, (t i).name.val.chars.head? ≠ some 34

section Lookups
variable {t : AliasTable} {word : List UInt8}

theorem strcasecmp_name {name word : List UInt8} (left : ∀ c ∈ name, c ≠ 0) (right : ∀ c ∈ word, c ≠ 0) :
    strcasecmp name word = 0 ↔ name.map tolower = word.map tolower := by
  have folded {s : List UInt8} (noNul : ∀ c ∈ s, c ≠ 0) : ∀ c ∈ s.map tolower, c ≠ 0 :=
    CString.fold_noNul ⟨s, noNul⟩
  rw [strcasecmp_eq_strcmp, strcmp_eq_zero (folded left) (folded right)]

theorem find_named {i : Fin 16} (noNul : ∀ c ∈ word, c ≠ 0) (found : t.find word = some i) :
    (t i).name.val.fold = word.map tolower := by
  have test := List.find?_some found
  rw [decide_eq_true_eq] at test
  exact (strcasecmp_name (t i).name.val.noNul noNul).mp test.2

theorem find_short (noNul : ∀ c ∈ word, c ≠ 0) {i : Fin 16} (found : t.find word = some i) : word.length ≤ 15 := by
  have same := congrArg List.length (find_named noNul found)
  rw [fold_length, List.length_map] at same
  exact same ▸ (t i).name.property

/-- A word that is cut to 31 characters is no longer found, nor was it before. -/
theorem find_cut (noNul : ∀ c ∈ word, c ≠ 0) : t.find ((word.take 64).take 31) = t.find word := by
  rw [List.take_take, Nat.min_eq_left (by decide)]
  by_cases short : word.length ≤ 31
  · rw [List.take_of_length_le short]
  · have cut : t.find (word.take 31) = none := by
      cases found : t.find (word.take 31) with
      | none => rfl
      | some i =>
          have bound := find_short (fun c member => noNul c (List.mem_of_mem_take member)) found
          rw [List.length_take] at bound
          omega
    have whole : t.find word = none := by
      cases found : t.find word with
      | none => rfl
      | some i =>
          have bound := find_short noNul found
          omega
    rw [cut, whole]

theorem tolower_quote {c : UInt8} (same : tolower c = 34) : c = 34 := by
  rw [← UInt8.toNat_inj, tolower_toNat] at same
  rw [← UInt8.toNat_inj]
  have quote : (34 : UInt8).toNat = 34 := rfl
  rw [quote] at same ⊢
  split at same
  · omega
  · exact same

/-- What begins with a quotation mark is no alias. -/
theorem find_quoted (plain : t.Plain) (noNul : ∀ c ∈ word, c ≠ 0) (quoted : word.head? = some 34) : t.find word = none := by
  cases found : t.find word with
  | none => rfl
  | some i =>
      have same := congrArg List.head? (find_named noNul found)
      rw [fold, List.head?_map, List.head?_map, quoted, Option.map_some] at same
      obtain ⟨c, first, lower⟩ := Option.map_eq_some_iff.mp same
      exact absurd (first.trans (congrArg some (tolower_quote lower))) (plain i)

end Lookups

section Lines
variable {t : AliasTable} {line : List UInt8}

theorem expandAlias_length (t : AliasTable) (line : List UInt8) : (expandAlias t line).length ≤ lineMax := by
  rw [expandAlias]
  split
  next => exact Nat.zero_le _
  next =>
    split
    next => exact List.length_take_le _ _
    next => exact List.length_take_le _ _

theorem shellRunLine_eq (t : AliasTable) (line : List UInt8) : shellRunLine t line = tokenize 16 (expandAlias t line) := by
  rw [shellRunLine, List.take_of_length_le (expandAlias_length t line)]

theorem shellMain_eq (t : AliasTable) (line : List UInt8) : shellMain t line = tokenize 16 (expandAlias t line) := by
  rw [shellMain]
  split
  next empty =>
    subst empty
    rfl
  next => rfl

theorem expandsRight_iff : ExpandsRight t line ↔ tokenize 16 (expandAlias t line) = tokenize 16 (wantedText t line) := by
  rw [ExpandsRight, shellRunLine_eq, shellMain_eq, and_self]

/-- A line that begins with a blank is expanded to nothing. -/
theorem expandAlias_blank {c : UInt8} {rest : List UInt8} (blank : isspace c = true) : expandAlias t (c :: rest) = [] := by
  rw [expandAlias, List.takeWhile_cons_of_neg (by rw [blank]; decide)]
  rfl

theorem expandAlias_word {c : UInt8} {rest : List UInt8} (noNul : ∀ d ∈ c :: rest, d ≠ 0) (letter : isspace c = false) :
    let word := (c :: rest).takeWhile fun d => !isspace d
    expandAlias t (c :: rest) =
      match shellAliasLookup word t with
      | none => (c :: rest).take lineMax
      | some value => (value.chars ++ (c :: rest).dropWhile fun d => !isspace d).take lineMax := by
  intro word
  have some' : word.take 64 ≠ [] := by
    rw [show word = c :: rest.takeWhile fun d => !isspace d from List.takeWhile_cons_of_pos (by rw [letter]; rfl),
      List.take_succ_cons]
    exact List.cons_ne_nil _ _
  have clean : ∀ d ∈ word, d ≠ 0 := fun d member => noNul d ((List.takeWhile_prefix _).subset member)
  rw [expandAlias, if_neg some', shellAliasLookup, find_cut clean, shellAliasLookup]
  cases found : t.find word with
  | none => rfl
  | some i =>
      have short := find_short clean found
      have whole : (word.take 64).length = word.length := by
        rw [List.length_take]
        omega
      rw [Option.map_some, whole, drop_takeWhile]

theorem firstArg_plain {c : UInt8} {rest : List UInt8} (letter : isspace c = false) (plain : c ≠ 34) :
    firstArg (c :: rest) =
      some ((c :: rest).takeWhile (fun d => !isspace d), (c :: rest).dropWhile fun d => !isspace d) := by
  rw [firstArg, List.dropWhile_cons_of_neg (by rw [letter]; decide)]
  exact if_neg plain

theorem expandAlias_plain {c : UInt8} {rest : List UInt8} (noNul : ∀ d ∈ c :: rest, d ≠ 0) (letter : isspace c = false)
    (plain : c ≠ 34) : expandAlias t (c :: rest) = (wantedText t (c :: rest)).take lineMax := by
  rw [expandAlias_word noNul letter, wantedText, firstArg_plain letter plain]
  dsimp only
  cases shellAliasLookup ((c :: rest).takeWhile fun d => !isspace d) t with
  | none => rfl
  | some value => rfl

/-- A line is dispatched as wanted exactly if it is expandable. -/
theorem alias_transparent_iff (plain : t.Plain) {line : CString} (fits : line.chars.length ≤ lineMax) :
    ExpandsRight t line.chars ↔ Expandable t line.chars := by
  rw [expandsRight_iff]
  obtain ⟨line, noNul⟩ := line
  dsimp only at fits ⊢
  cases line with
  | nil => exact iff_of_true rfl trivial
  | cons c rest =>
      rw [Expandable]
      split
      next blank =>
        rw [expandAlias_blank blank, eq_comm]
        rfl
      next letter =>
        have letter : isspace c = false := Bool.eq_false_iff.mpr letter
        split
        next quote =>
          have quoted : ((c :: rest).takeWhile fun d => !isspace d).head? = some 34 := by
            rw [List.takeWhile_cons_of_pos (by rw [letter]; rfl), List.head?_cons, quote]
          have none := find_quoted plain (fun d member => noNul d ((List.takeWhile_prefix _).subset member)) quoted
          rw [expandAlias_word noNul letter, shellAliasLookup, none, Option.map_none, List.take_of_length_le fits]
        next other => rw [expandAlias_plain noNul letter other, tokenize_take]

end Lines

/-! The table over a session: its names stay plain, for no argument begins with a quotation
mark. -/

section Sessions
variable {t : AliasTable}

theorem head_takeWhile {p : UInt8 → Bool} {s : List UInt8} {c : UInt8} (first : (s.takeWhile p).head? = some c) :
    s.head? = some c := by
  cases s with
  | nil => exact first
  | cons d s =>
      rw [List.takeWhile_cons] at first
      split at first
      next => exact first
      next => exact absurd first (Option.some_ne_none c).symm

theorem head_take {n : Nat} {s : List UInt8} {c : UInt8} (first : (s.take n).head? = some c) : s.head? = some c := by
  cases s with
  | nil => rwa [List.take_nil] at first
  | cons d s =>
      cases n with
      | zero => exact absurd first (Option.some_ne_none c).symm
      | succ n => exact first

theorem aliasText_head {args : List (List UInt8)} (heads : ∀ arg ∈ args, arg.head? ≠ some 34) :
    (aliasText args).head? ≠ some 34 := by
  intro first
  have first := head_take first
  cases args with
  | nil => exact absurd first (by decide)
  | cons arg rest =>
      have here := heads arg List.mem_cons_self
      cases rest with
      | nil => exact here (by simpa [List.intercalate] using first)
      | cons next rest =>
          cases arg with
          | nil => exact absurd first (by simp [List.intercalate])
          | cons c arg => exact here (by simpa [List.intercalate] using first)

theorem AliasTable.boot_plain : AliasTable.boot.Plain := fun _ => (Option.some_ne_none 34).symm

theorem AliasTable.Plain.update (plain : t.Plain) (i : Fin 16) {slot : AliasSlot}
    (head : slot.name.val.chars.head? ≠ some 34) : AliasTable.Plain (Function.update t i slot) := by
  intro j
  by_cases here : j = i
  · subst here
    rwa [Function.update_self]
  · rw [Function.update_of_ne here]
    exact plain j

theorem cmdAlias_plain (plain : t.Plain) {argv : List (List UInt8)} (heads : ∀ arg ∈ argv, arg.head? ≠ some 34) :
    (cmdAlias argv t).Plain := by
  rw [cmdAlias]
  split
  next => exact plain
  next =>
    have text : (aliasText (argv.drop 1)).head? ≠ some 34 :=
      aliasText_head fun arg member => heads arg (List.mem_of_mem_drop member)
    dsimp only
    split
    next =>
      split
      next => exact plain
      next i _ =>
        apply plain.update i
        exact fun first => text (head_takeWhile (head_takeWhile (head_take first)))
    next => exact plain

theorem cmdUnalias_plain (plain : t.Plain) (argv : List (List UInt8)) : (cmdUnalias argv t).Plain := by
  rw [cmdUnalias.eq_def]
  split
  next =>
    split
    next => exact plain
    next i _ => exact plain.update i (Option.some_ne_none 34).symm
  next => exact plain

theorem shellDispatch_plain (plain : t.Plain) {argv : List (List UInt8)} (heads : ∀ arg ∈ argv, arg.head? ≠ some 34) :
    (shellDispatch argv t).Plain := by
  rw [shellDispatch.eq_def]
  split
  next => exact plain
  next =>
    split
    · exact cmdAlias_plain plain heads
    · split
      · exact cmdUnalias_plain plain _
      · exact plain

/-- Whatever lines are run, the table stays plain. -/
theorem session_plain (lines : List (List UInt8)) :
    (Runs.run (fun line t => shellDispatch (shellRunLine t line) t) lines AliasTable.boot).Plain := by
  refine Runs.run_keeps (fun line t (plain : t.Plain) => ?_) lines AliasTable.boot_plain
  exact shellDispatch_plain plain (tokenize_head 16 _)

end Sessions

/-- `dir`, with `ll` for `ls`. -/
def oneAlias : AliasTable := Function.update AliasTable.boot 0
  ⟨(CString.read [108, 108]).store 15, (CString.read [108, 115]).store 63⟩

theorem oneAlias_plain : oneAlias.Plain := AliasTable.boot_plain.update 0 (by decide)

/-- `ll x` is `ls x`. -/
theorem alias_transparent_iff_short : ExpandsRight oneAlias (CString.read [108, 108, 32, 120]).chars :=
  (alias_transparent_iff oneAlias_plain (by decide)).mpr (by decide)

/-- ` ls`: of a line with a leading blank nothing is dispatched. -/
theorem leadingBlank_dropped : ¬ExpandsRight AliasTable.boot [32, 108, 115] ∧
    shellMain AliasTable.boot [32, 108, 115] = [] ∧ tokenize 16 [32, 108, 115] = [[108, 115]] := by
  refine ⟨fun right => ?_, by decide, by decide⟩
  exact absurd right.2 (by decide)

end Zenbite.Shell
