import Mathlib.Data.List.TakeWhile
import Zenbite.Fat.Path

/-! Path strings: the components of a path that is put together, the part that
names the directory, and 8.3 names there and back. -/

namespace Zenbite.Fat

/-! Components. -/

theorem splitNext_separator {c : UInt8} (sep : isSeparator c = true) (path : List UInt8) :
    splitNext (c :: path) = splitNext path := by
  simp only [splitNext, List.dropWhile_cons, sep, if_true]

theorem splitNext_word {word rest : List UInt8} (solid : word ≠ [])
    (plain : ∀ c ∈ word, isSeparator c = false) (ends : ∀ c, rest.head? = some c → isSeparator c = true) :
    splitNext (word ++ rest) = some (word.take 12, rest) := by
  obtain ⟨c, tail, rfl⟩ := List.exists_cons_of_ne_nil solid
  have start : ((c :: tail) ++ rest).dropWhile isSeparator = (c :: tail) ++ rest := by
    rw [List.cons_append, List.dropWhile_cons, if_neg (by simp [plain c List.mem_cons_self])]
  have all : ∀ x ∈ c :: tail, (!isSeparator x) = true := fun x member => by simp [plain x member]
  have stop : rest.takeWhile (!isSeparator ·) = [] ∧ rest.dropWhile (!isSeparator ·) = rest := by
    cases rest with
    | nil => exact ⟨rfl, rfl⟩
    | cons d rest => simp [ends d rfl]
  simp only [splitNext, start, List.takeWhile_append_of_pos all, List.dropWhile_append_of_pos all,
    stop, List.append_nil]
  rfl

/-- The rest of the path is shorter. -/
theorem splitNext_rest {path comp rest : List UInt8} (split : splitNext path = some (comp, rest)) :
    rest.length < path.length := by
  simp only [splitNext] at split
  split at split
  · cases split
  next word =>
    obtain ⟨-, rfl⟩ := Prod.mk.inj (Option.some.inj split)
    obtain ⟨c, tail, start⟩ := List.exists_cons_of_ne_nil word
    have plain : isSeparator c = false := by
      have := List.head?_dropWhile_not isSeparator path
      rw [start, List.head?_cons] at this
      exact this
    have shorter := (List.dropWhile_suffix isSeparator (l := path)).length_le
    rw [start, List.dropWhile_cons, if_pos (by simp [plain])]
    rw [start, List.length_cons] at shorter
    exact ((List.dropWhile_suffix _).length_le).trans_lt (Nat.lt_of_succ_le shorter)

theorem componentsFrom_enough : ∀ n m path, path.length ≤ n → path.length ≤ m →
    componentsFrom n path = componentsFrom m path := by
  intro n
  induction n with
  | zero =>
      intro m path short _
      obtain rfl := List.length_eq_zero_iff.mp (Nat.le_zero.mp short)
      cases m <;> rfl
  | succ n ih =>
      intro m path short long
      cases m with
      | zero =>
          obtain rfl := List.length_eq_zero_iff.mp (Nat.le_zero.mp long)
          rfl
      | succ m =>
          simp only [componentsFrom]
          cases split : splitNext path with
          | none => rfl
          | some next =>
              have shorter := splitNext_rest split
              simp only [ih m next.2 (by omega) (by omega)]

theorem components_none {path : List UInt8} (split : splitNext path = none) : components path = [] := by
  cases path with
  | nil => rfl
  | cons c path => simp only [components, List.length_cons, componentsFrom, split]

theorem components_some {path comp rest : List UInt8} (split : splitNext path = some (comp, rest)) :
    components path = comp :: components rest := by
  have shorter := splitNext_rest split
  cases path with
  | nil => exact absurd shorter (Nat.not_lt_zero _)
  | cons c path =>
      rw [List.length_cons] at shorter
      simp only [components, List.length_cons, componentsFrom, split]
      rw [componentsFrom_enough path.length rest.length rest (Nat.le_of_lt_succ shorter) (Nat.le_refl _)]

theorem components_separator {c : UInt8} (sep : isSeparator c = true) (path : List UInt8) :
    components (c :: path) = components path := by
  have skip := splitNext_separator sep path
  cases split : splitNext path with
  | none => rw [components_none split, components_none (skip.trans split)]
  | some next => rw [components_some split, components_some (skip.trans split)]

theorem components_word {word rest : List UInt8} (solid : word ≠ [])
    (plain : ∀ c ∈ word, isSeparator c = false) (ends : ∀ c, rest.head? = some c → isSeparator c = true) :
    components (word ++ rest) = word.take 12 :: components rest :=
  components_some (splitNext_word solid plain ends)

theorem components_separators (seps path : List UInt8) (all : ∀ c ∈ seps, isSeparator c = true) :
    components (seps ++ path) = components path := by
  induction seps with
  | nil => rfl
  | cons c seps ih =>
      rw [List.cons_append, components_separator (all c List.mem_cons_self)]
      exact ih fun x member => all x (List.mem_cons_of_mem c member)

theorem cut_word (path : List UInt8) : ∃ word rest, path = word ++ rest ∧
    (∀ c ∈ word, isSeparator c = false) ∧ ∀ c, rest.head? = some c → isSeparator c = true := by
  refine ⟨path.takeWhile (!isSeparator ·), path.dropWhile (!isSeparator ·),
    List.takeWhile_append_dropWhile.symm, fun c member => ?_, fun c head => ?_⟩
  · simpa using List.mem_takeWhile_imp member
  · have := List.head?_dropWhile_not (!isSeparator ·) path
    rw [head] at this
    simpa using this

/-- A path that ends where a component ends. -/
def Closed (path : List UInt8) : Prop := ∀ c, path.getLast? = some c → isSeparator c = true

theorem Closed.behind {front rest : List UInt8} (closed : Closed (front ++ rest)) : Closed rest := by
  intro c last
  exact closed c (by rw [List.getLast?_append, last, Option.some_or])

theorem components_append {front : List UInt8} (closed : Closed front) (rest : List UInt8) :
    components (front ++ rest) = components front ++ components rest := by
  induction size : front.length using Nat.strong_induction_on generalizing front with
  | _ n ih =>
      obtain ⟨word, after, rfl, plain, ends⟩ := cut_word front
      cases after with
      | nil =>
          have none : word = [] := by
            cases last : word.getLast? with
            | none => exact List.getLast?_eq_none_iff.mp last
            | some c =>
                have sep := closed c (by rw [List.append_nil, last])
                rw [plain c (List.mem_of_getLast? last)] at sep
                cases sep
          rw [none]
          rfl
      | cons sep after =>
          have mark := ends sep rfl
          have smaller : after.length < n := by
            rw [List.length_append, List.length_cons] at size
            omega
          have split : word ++ sep :: after = (word ++ [sep]) ++ after := by simp
          rw [split] at closed
          have next := ih after.length smaller closed.behind rfl
          by_cases some : word = []
          · rw [some, List.nil_append, List.cons_append, components_separator mark,
              components_separator mark, next]
          · rw [List.append_assoc, components_word some plain ends, List.cons_append,
              components_word some plain (by simpa using mark), components_separator mark,
              components_separator mark, next]
            rfl

/-- The part of a path before its last component. -/
def dirPart (path : List UInt8) : List UInt8 :=
  ((path.reverse.dropWhile isSeparator).dropWhile (!isSeparator ·)).reverse

/-- A path is its directory part, a component and separators. -/
theorem dirPart_cut (path : List UInt8) : ∃ word seps, path = dirPart path ++ (word ++ seps) ∧
    Closed (dirPart path) ∧ (∀ c ∈ word, isSeparator c = false) ∧ (∀ c ∈ seps, isSeparator c = true) ∧
    (word = [] → dirPart path = []) := by
  have back := List.takeWhile_append_dropWhile (p := isSeparator) (l := path.reverse)
  have front := List.takeWhile_append_dropWhile (p := (!isSeparator ·))
    (l := path.reverse.dropWhile isSeparator)
  refine ⟨((path.reverse.dropWhile isSeparator).takeWhile (!isSeparator ·)).reverse,
    (path.reverse.takeWhile isSeparator).reverse, ?_, fun c last => ?_, fun c member => ?_,
    fun c member => ?_, fun none => ?_⟩
  · rw [← List.reverse_append, dirPart, ← List.reverse_append, List.append_assoc, front, back,
      List.reverse_reverse]
  · have := List.head?_dropWhile_not (!isSeparator ·) (path.reverse.dropWhile isSeparator)
    rw [dirPart, List.getLast?_reverse] at last
    rw [last] at this
    simpa using this
  · simpa using List.mem_takeWhile_imp (List.mem_reverse.mp member)
  · exact List.mem_takeWhile_imp (List.mem_reverse.mp member)
  · rw [List.reverse_eq_nil_iff] at none
    have start := List.head?_dropWhile_not isSeparator path.reverse
    cases rest : path.reverse.dropWhile isSeparator with
    | nil => simp [dirPart, rest]
    | cons c tail => simp [rest] at none start; simp [none] at start

/-- Separators at the end of a path add nothing. -/
theorem components_trailing (path : List UInt8) {sep : UInt8} (mark : isSeparator sep = true) :
    components (path ++ [sep]) = components path := by
  obtain ⟨word, seps, cut, closed, plain, all, -⟩ := dirPart_cut path
  have more : ∀ c ∈ seps ++ [sep], isSeparator c = true := fun c member =>
    (List.mem_append.mp member).elim (all c) fun last => by rwa [List.mem_singleton.mp last]
  -- the last word and the separators behind it, however many there are
  have ends (tail : List UInt8) (seps : ∀ c ∈ tail, isSeparator c = true) : components (word ++ tail) =
      if word = [] then [] else [word.take 12] := by
    have blank := components_separators tail [] seps
    rw [List.append_nil] at blank
    split
    next none => rw [none]; exact blank
    next some =>
      rw [components_word some plain fun c head => seps c (List.mem_of_mem_head? head), blank]
      rfl
  calc components (path ++ [sep])
    _ = components (dirPart path ++ (word ++ (seps ++ [sep]))) := by
      conv_lhs => rw [cut]
      rw [List.append_assoc, List.append_assoc]
    _ = components (dirPart path) ++ components (word ++ seps) := by
      rw [components_append closed, ends _ more, ends _ all]
    _ = components path := by rw [← components_append closed, ← cut]

theorem components_dirPart {path : List UInt8} (some : components path ≠ []) :
    ∃ word seps, path = dirPart path ++ (word ++ seps) ∧ Closed (dirPart path) ∧ word ≠ [] ∧
      (∀ c ∈ word, isSeparator c = false) ∧
      components path = components (dirPart path) ++ [word.take 12] := by
  obtain ⟨word, seps, cut, closed, plain, all, none⟩ := dirPart_cut path
  have blank := components_separators seps [] all
  rw [List.append_nil] at blank
  have solid : word ≠ [] := by
    intro empty
    apply some
    rw [cut, none empty, empty]
    exact blank
  refine ⟨word, seps, cut, closed, solid, plain, ?_⟩
  have last : components (word ++ seps) = word.take 12 :: components seps :=
    components_word solid plain fun c head => all c (List.mem_of_mem_head? head)
  calc components path
    _ = components (dirPart path ++ (word ++ seps)) := by rw [← cut]
    _ = components (dirPart path) ++ components (word ++ seps) := components_append closed _
    _ = components (dirPart path) ++ [word.take 12] := by
      rw [last, blank]
      rfl

theorem components_join {front word : List UInt8} (closed : Closed front) (solid : word ≠ [])
    (plain : ∀ c ∈ word, isSeparator c = false) (short : word.length ≤ 12) :
    components (front ++ word) = components front ++ [word] := by
  have last : components (word ++ []) = word.take 12 :: components [] := components_word solid plain nofun
  rw [List.append_nil, List.take_of_length_le short] at last
  rw [components_append closed, last]
  rfl

theorem components_length {path comp : List UInt8} (member : comp ∈ components path) :
    comp.length ≤ path.length := by
  induction size : path.length using Nat.strong_induction_on generalizing path with
  | _ n ih =>
      cases split : splitNext path with
      | none =>
          rw [components_none split] at member
          cases member
      | some next =>
          have shorter := splitNext_rest split
          rw [components_some split] at member
          rcases List.mem_cons.mp member with rfl | member
          · simp only [splitNext] at split
            split at split
            · cases split
            · obtain rfl := Option.some.inj split
              have start := (List.dropWhile_suffix isSeparator (l := path)).length_le
              have word := (List.takeWhile_prefix (!isSeparator ·)
                (l := path.dropWhile isSeparator)).length_le
              rw [List.length_take]
              omega
          · have := ih next.2.length (by omega) member rfl
            omega

/-- What is joined to a directory leaves open where the path starts. -/
theorem isAbsolute_join (front : List UInt8) {tail : List UInt8}
    (plain : ∀ c, tail.head? = some c → isSeparator c = false) :
    isAbsolute (front ++ tail) = isAbsolute front := by
  cases front with
  | nil =>
      cases tail with
      | nil => rfl
      | cons c tail => exact plain c rfl
  | cons c front => rfl

/-! Drive prefixes. -/

/-- Without a prefix the path is the rest. -/
theorem parseDrive_plain {path : List UInt8} (plain : path.getD 1 0 ≠ 58) :
    parseDrive path = some (none, path) := by
  cases path with
  | nil => rfl
  | cons c path =>
      cases path with
      | nil => rfl
      | cons d path =>
          change d ≠ 58 at plain
          simp only [parseDrive]
          split
          next same => exact absurd (List.cons.inj (List.cons.inj same).2).1 plain
          · rfl

theorem parseDrive_prefix {path : List UInt8} (drive : path.getD 1 0 = 58) : ∃ letter rest,
    path = letter :: 58 :: rest ∧ parseDrive path = (driveIdx letter).map fun d => (some d, rest) := by
  cases path with
  | nil => cases drive
  | cons c path =>
      cases path with
      | nil => cases drive
      | cons d path =>
          change d = 58 at drive
          subst drive
          exact ⟨c, path, rfl, rfl⟩

/-- The directory of a path: its drive prefix and the directory part of the rest. -/
def parentPath (path : List UInt8) : List UInt8 :=
  match path with
  | letter :: 58 :: rest => letter :: 58 :: dirPart rest
  | _ => dirPart path

theorem parentPath_plain {path : List UInt8} (plain : path.getD 1 0 ≠ 58) :
    parentPath path = dirPart path := by
  simp only [parentPath]
  split
  · exact absurd rfl plain
  · rfl

theorem dirPart_prefix (path : List UInt8) : dirPart path <+: path := by
  obtain ⟨word, seps, cut, -⟩ := dirPart_cut path
  exact ⟨word ++ seps, cut.symm⟩

theorem dirPart_plain {path : List UInt8} (plain : path.getD 1 0 ≠ 58) : (dirPart path).getD 1 0 ≠ 58 := by
  obtain ⟨rest, cut⟩ := dirPart_prefix path
  rw [← cut] at plain
  cases front : dirPart path with
  | nil => exact nofun
  | cons c tail =>
      rw [front] at plain
      cases tail with
      | nil => exact nofun
      | cons d tail => exact plain

/-- The directory of a path is on the same drive, and what is joined to it too,
unless a drive prefix comes about. -/
theorem parseDrive_join {path rest name : List UInt8} {drive : Option Nat}
    (parsed : parseDrive path = some (drive, rest))
    (plain : path.getD 1 0 = 58 ∨ (parentPath path ++ name).getD 1 0 ≠ 58) :
    parseDrive (parentPath path ++ name) = some (drive, dirPart rest ++ name) := by
  by_cases here : path.getD 1 0 = 58
  · obtain ⟨letter, rest', rfl, parse⟩ := parseDrive_prefix here
    rw [parsed] at parse
    obtain ⟨d, found, same⟩ := Option.map_eq_some_iff.mp parse.symm
    obtain ⟨rfl, rfl⟩ := Prod.mk.inj same
    change (driveIdx letter).map _ = _
    rw [found]
    rfl
  · obtain ⟨rfl, rfl⟩ := Prod.mk.inj (Option.some.inj ((parseDrive_plain here).symm.trans parsed))
    rw [parseDrive_plain (plain.resolve_left here), parentPath_plain here]

theorem parseDrive_parent {path rest : List UInt8} {drive : Option Nat}
    (parsed : parseDrive path = some (drive, rest)) :
    parseDrive (parentPath path) = some (drive, dirPart rest) := by
  have join : parseDrive (parentPath path ++ []) = some (drive, dirPart rest ++ []) := parseDrive_join parsed (by
    by_cases here : path.getD 1 0 = 58
    · exact .inl here
    · right
      rw [List.append_nil, parentPath_plain here]
      exact dirPart_plain here)
  rwa [List.append_nil, List.append_nil] at join

/-- A drive prefix comes about only in a relative path without a directory part. -/
theorem parseDrive_mistaken {path name : List UInt8} (plain : path.getD 1 0 ≠ 58)
    (mistaken : (parentPath path ++ name).getD 1 0 = 58) :
    dirPart path = [] ∨ parseDrive (parentPath path ++ name) = none := by
  rw [parentPath_plain plain] at mistaken ⊢
  obtain ⟨word, seps, -, closed, -⟩ := dirPart_cut path
  have before := dirPart_plain plain
  cases front : dirPart path with
  | nil => exact .inl rfl
  | cons c tail =>
      right
      rw [front] at closed mistaken before
      cases tail with
      | cons d tail => exact absurd mistaken before
      | nil =>
          have sep := closed c rfl
          obtain ⟨letter, rest, same, parse⟩ := parseDrive_prefix mistaken
          obtain rfl := (List.cons.inj same).1
          have none : driveIdx c = none := by
            rw [isSeparator, Bool.or_eq_true, beq_iff_eq, beq_iff_eq] at sep
            rcases sep with rfl | rfl <;> decide
          rw [parse, none]
          rfl

/-! 8.3 names. -/

theorem toUpper_cases (c : UInt8) : toUpper c = c ∨ 65 ≤ toUpper c ∧ toUpper c ≤ 90 := by
  simp only [toUpper]
  split
  next small =>
    right
    rw [UInt8.le_iff_toNat_le, UInt8.le_iff_toNat_le] at small
    have low : (97 : UInt8).toNat = 97 := rfl
    have high : (122 : UInt8).toNat = 122 := rfl
    have step := UInt8.toNat_sub_of_le c 32 (UInt8.le_iff_toNat_le.mpr (by
      change 32 ≤ c.toNat
      omega))
    rw [UInt8.le_iff_toNat_le, UInt8.le_iff_toNat_le, step]
    change 65 ≤ c.toNat - 32 ∧ c.toNat - 32 ≤ 90
    omega
  · exact .inl rfl

/-- A byte that is no capital letter comes from itself. -/
theorem toUpper_eq {c x : UInt8} (upper : toUpper c = x) (other : x < 65 ∨ 90 < x) : c = x := by
  rcases toUpper_cases c with same | ⟨low, high⟩
  · exact same.symm.trans upper
  · rw [upper] at low high
    exact (other.elim (UInt8.not_lt.mpr low) (UInt8.not_lt.mpr high)).elim

theorem isSeparator_toUpper {c : UInt8} (plain : isSeparator c = false) :
    isSeparator (toUpper c) = false := by
  by_contra sep
  rw [Bool.not_eq_false, isSeparator, Bool.or_eq_true, beq_iff_eq, beq_iff_eq] at sep
  have same : toUpper c = c := by
    rcases sep with sep | sep
    · exact sep.trans (toUpper_eq sep (by decide)).symm
    · exact sep.trans (toUpper_eq sep (by decide)).symm
  rw [← same] at plain
  rcases sep with sep | sep
  · rw [sep] at plain
    cases plain
  · rw [sep] at plain
    cases plain

theorem padTo_length {n : Nat} {bytes : List UInt8} (short : bytes.length ≤ n) :
    (padTo n bytes).length = n := by
  simp only [padTo, List.length_append, List.length_replicate]
  omega

theorem mem_padTo {n : Nat} {bytes : List UInt8} {c : UInt8} (member : c ∈ padTo n bytes) :
    c ∈ bytes ∨ c = 32 :=
  (List.mem_append.mp member).imp_right List.eq_of_mem_replicate

theorem padTo_trim (n : Nat) (bytes : List UInt8) :
    (padTo n bytes).takeWhile (· != 32) = bytes.takeWhile (· != 32) := by
  have spaces (k : Nat) : (List.replicate k (32 : UInt8)).takeWhile (· != 32) = [] := by
    cases k with
    | zero => rfl
    | succ k => simp [List.replicate_succ]
  rw [padTo, List.takeWhile_append]
  split
  next whole =>
    rw [spaces, List.append_nil]
    exact ((List.takeWhile_prefix _).eq_of_length whole).symm
  · rfl

/-- Base and extension of a name, before they are padded. -/
theorem nameTo83_parts (name : List UInt8) : ∃ base ext, nameTo83 name = padTo 8 base ++ padTo 3 ext ∧
    base.length ≤ 8 ∧ ext.length ≤ 3 ∧ base.length + (if ext = [] then 0 else ext.length + 1) ≤ name.length ∧
    (∀ c ∈ base, ∃ x ∈ name, x ≠ 46 ∧ c = toUpper x) ∧ ∀ c ∈ ext, ∃ x ∈ name, c = toUpper x := by
  simp only [nameTo83]
  have rest := List.dropWhile_suffix (· == 32) (l := name)
  generalize name.dropWhile (· == 32) = body at rest
  have halves := congrArg List.length (List.takeWhile_append_dropWhile (p := (· != 46)) (l := body))
  rw [List.length_append] at halves
  have inside := rest.length_le
  refine ⟨((body.takeWhile (· != 46)).take 8).map toUpper,
    (((body.dropWhile (· != 46)).drop 1).take 3).map toUpper, rfl, ?_, ?_, ?_, ?_, ?_⟩
  · simp only [List.length_map, List.length_take]
    exact Nat.min_le_left _ _
  · simp only [List.length_map, List.length_take]
    exact Nat.min_le_left _ _
  · simp only [List.length_map, List.length_take, List.length_drop, List.map_eq_nil_iff]
    split
    · omega
    next ext =>
      have : (body.dropWhile (· != 46)).drop 1 ≠ [] := fun none => ext (by rw [none]; rfl)
      have := List.length_pos_iff.mpr this
      rw [List.length_drop] at this
      omega
  · intro c member
    obtain ⟨x, here, rfl⟩ := List.mem_map.mp member
    have word := List.mem_of_mem_take here
    exact ⟨x, rest.subset ((List.takeWhile_prefix _).subset word), by simpa using List.mem_takeWhile_imp word, rfl⟩
  · intro c member
    obtain ⟨x, here, rfl⟩ := List.mem_map.mp member
    exact ⟨x, rest.subset ((List.dropWhile_suffix _).subset
      (List.mem_of_mem_drop (List.mem_of_mem_take here))), rfl⟩

theorem nameTo83_length (name : List UInt8) : (nameTo83 name).length = 11 := by
  obtain ⟨base, ext, shape, low, high, -⟩ := nameTo83_parts name
  rw [shape, List.length_append, padTo_length low, padTo_length high]

theorem mem_nameTo83 {name : List UInt8} {c : UInt8} (member : c ∈ nameTo83 name) :
    c = 32 ∨ ∃ x ∈ name, c = toUpper x := by
  obtain ⟨base, ext, shape, -, -, -, left, right⟩ := nameTo83_parts name
  rw [shape] at member
  rcases List.mem_append.mp member with member | member
  · rcases mem_padTo member with member | space
    · obtain ⟨x, here, -, upper⟩ := left c member
      exact .inr ⟨x, here, upper⟩
    · exact .inl space
  · rcases mem_padTo member with member | space
    · exact .inr (right c member)
    · exact .inl space

/-- What fs_readdir makes of it. -/
theorem nameFrom83_parts {base ext : List UInt8} (low : base.length ≤ 8) (high : ext.length ≤ 3) :
    nameFrom83 (padTo 8 base ++ padTo 3 ext) = base.takeWhile (· != 32) ++
      if ext.headD 32 ≠ 32 then 46 :: ext.takeWhile (· != 32) else [] := by
  have front := padTo_length low
  have back := padTo_length high
  have head : (padTo 8 base ++ padTo 3 ext).getD 8 0 = ext.headD 32 := by
    rw [List.getD_eq_getElem?_getD, List.getElem?_append_right (by omega), front, Nat.sub_self]
    cases ext <;> rfl
  have name : (padTo 8 base ++ padTo 3 ext).take 8 = padTo 8 base := List.take_left' front
  have tail : ((padTo 8 base ++ padTo 3 ext).drop 8).take 3 = padTo 3 ext := by
    rw [List.drop_left' front]
    exact List.take_of_length_le (Nat.le_of_eq back)
  simp only [nameFrom83, head, name, tail, padTo_trim]
  split
  · rfl
  · rw [List.append_nil]

/-- Nothing is added on the way to the 8.3 form and back. -/
theorem nameFrom83_nameTo83_length (name : List UInt8) :
    (nameFrom83 (nameTo83 name)).length ≤ name.length := by
  obtain ⟨base, ext, shape, low, high, short, -⟩ := nameTo83_parts name
  have left := (List.takeWhile_prefix (p := (· != 32)) (l := base)).length_le
  have right := (List.takeWhile_prefix (p := (· != 32)) (l := ext)).length_le
  rw [shape, nameFrom83_parts low high, List.length_append]
  split
  next kept =>
    have some : ext ≠ [] := fun none => kept (by rw [none]; rfl)
    rw [if_neg some] at short
    rw [List.length_cons]
    omega
  · rw [List.length_nil]
    omega

/-- A name that fs_create takes is listed under a name that is one component. -/
theorem nameFrom83_word {name : List UInt8} (plain : ∀ c ∈ name, isSeparator c = false)
    (some : (nameTo83 name).getD 0 0 ≠ 32) : ∃ first rest, nameFrom83 (nameTo83 name) = first :: rest ∧
      first = (nameTo83 name).getD 0 0 ∧ first ≠ 46 ∧ (first :: rest).length ≤ 12 ∧
      ∀ c ∈ first :: rest, isSeparator c = false := by
  obtain ⟨base, ext, shape, low, high, -, left, right⟩ := nameTo83_parts name
  have left' := (List.takeWhile_prefix (p := (· != 32)) (l := base)).length_le
  have right' := (List.takeWhile_prefix (p := (· != 32)) (l := ext)).length_le
  have upper {x : UInt8} (member : x ∈ name) : isSeparator (toUpper x) = false :=
    isSeparator_toUpper (plain x member)
  rw [shape] at some ⊢
  cases base with
  | nil => exact absurd rfl some
  | cons c base =>
      change c ≠ 32 at some
      obtain ⟨x, member, dot, rfl⟩ := left c List.mem_cons_self
      have start : ((toUpper x :: base).takeWhile (· != 32)) = toUpper x :: base.takeWhile (· != 32) := by
        rw [List.takeWhile_cons, if_pos (by simpa using some)]
      rw [nameFrom83_parts low high, start, List.cons_append]
      refine ⟨_, _, rfl, rfl, fun here => dot (toUpper_eq here (by decide)), ?_, fun d member' => ?_⟩
      · rw [start, List.length_cons] at left'
        simp only [List.length_cons, List.length_append] at left' low ⊢
        split
        · rw [List.length_cons]
          omega
        · rw [List.length_nil]
          omega
      · have letter {d : UInt8} (above : ∃ y ∈ name, d = toUpper y) : isSeparator d = false := by
          obtain ⟨y, member, rfl⟩ := above
          exact upper member
        rw [← List.cons_append] at member'
        rcases List.mem_append.mp member' with front | back
        · rw [← start] at front
          obtain ⟨y, member, -, same⟩ := left d ((List.takeWhile_prefix _).subset front)
          exact letter ⟨y, member, same⟩
        · split at back
          · rcases List.mem_cons.mp back with rfl | back
            · rfl
            · exact letter (right d ((List.takeWhile_prefix _).subset back))
          · cases back

end Zenbite.Fat
