import Mathlib.Data.List.Basic
import Zenbite.Fat.Names

/-! The names under which a path is looked up, whatever the lookups answer. -/

namespace Zenbite.Fat

open Memory VolState

/-- A lookup of an 8.3 name in a directory: the entry and its offset. -/
abbrev Find (σ : Type) := Nat → List UInt8 → σ → Option (Buffer × Nat) × σ

namespace Find
variable {σ : Type} (find : Find σ) (kind : FatKind)

/-- Of `parentOf`. -/
def up (cluster : Nat) (s : σ) : Nat × σ :=
  if cluster = 0 then (cluster, s)
  else
    let r := find cluster dotdotName s
    match r.1 with
    | none => (cluster, r.2)
    | some (e, _) => (Dirent.cluster kind e, r.2)

/-- Of `enterDir`. -/
def enter (comp : List UInt8) (cluster : Nat) (s : σ) : Option Nat × σ :=
  if comp = [46] then (some cluster, s)
  else if comp = [46, 46] then
    let r := find.up kind cluster s
    (some r.1, r.2)
  else
    let r := find cluster (nameTo83 comp) s
    match r.1 with
    | none => (none, r.2)
    | some (e, _) =>
      if Dirent.hasAttr e attrDir then (some (Dirent.cluster kind e), r.2) else (none, r.2)

/-- Of `enterDirs`. -/
def enters : List (List UInt8) → Nat → σ → Option Nat × σ
  | [], cluster, s => (some cluster, s)
  | comp :: comps, cluster, s =>
    let r := find.enter kind comp cluster s
    match r.1 with
    | none => (none, r.2)
    | some next => enters comps next r.2

/-- Of `walkLeaf`. -/
def leaf (comp : List UInt8) (allowMissing : Bool) (cluster : Nat) (s : σ) : Option Leaf × σ :=
  if comp = [46] then (some ⟨cluster, dotName, none⟩, s)
  else if comp = [46, 46] then
    let r := find.up kind cluster s
    (some ⟨r.1, dotdotName, none⟩, r.2)
  else
    let r := find cluster (nameTo83 comp) s
    match r.1 with
    | none => (if allowMissing then some ⟨cluster, nameTo83 comp, none⟩ else none, r.2)
    | some found => (some ⟨cluster, nameTo83 comp, some found⟩, r.2)

/-- Of `walkVolume`. -/
def walk (comps : List (List UInt8)) (allowMissing : Bool) (start : Nat) (s : σ) : Option Leaf × σ :=
  match comps.getLast? with
  | none => (some ⟨start, padTo 11 [], none⟩, s)
  | some last =>
    let r := find.enters kind comps.dropLast start s
    match r.1 with
    | none => (none, r.2)
    | some cluster => find.leaf kind last allowMissing cluster r.2

end Find

/-! walk_path is the walk by find_in_dir. -/

section Code
variable {δ : Type} [Device δ]

theorem findInDir_kind (d : Nat) (name83 : List UInt8) (s : VolState δ) :
    (findInDir d name83 s).2.vol.kind = s.vol.kind := by
  rw [(findInDir_reads d name83 s).vol]

theorem parentOf_by (cluster : Nat) (s : VolState δ) :
    parentOf cluster s = Find.up findInDir s.vol.kind cluster s := by
  have step : parentOf cluster s =
      Find.up findInDir (findInDir cluster dotdotName s).2.vol.kind cluster s := rfl
  rw [step, findInDir_kind]

theorem enterDir_by (comp : List UInt8) (cluster : Nat) (s : VolState δ) :
    enterDir comp cluster s = Find.enter findInDir s.vol.kind comp cluster s := by
  by_cases dot : comp = [46]
  · rw [enterDir, Find.enter, if_pos dot, if_pos dot]
  by_cases dots : comp = [46, 46]
  · rw [enterDir, Find.enter, if_neg dot, if_neg dot, if_pos dots, if_pos dots, parentOf_by]
  · have step : enterDir comp cluster s =
        Find.enter findInDir (findInDir cluster (nameTo83 comp) s).2.vol.kind comp cluster s :=
      ((if_neg dot).trans (if_neg dots)).trans ((if_neg dot).trans (if_neg dots)).symm
    rw [step, findInDir_kind]

theorem enterDirs_by (comps : List (List UInt8)) : ∀ (cluster : Nat) (s : VolState δ),
    enterDirs comps cluster s = Find.enters findInDir s.vol.kind comps cluster s := by
  induction comps with
  | nil => exact fun _ _ => rfl
  | cons comp comps ih =>
      intro cluster s
      have kind : (Find.enter findInDir s.vol.kind comp cluster s).2.vol.kind = s.vol.kind := by
        rw [← enterDir_by, (enterDir_reads comp cluster s).vol]
      cases next : (Find.enter findInDir s.vol.kind comp cluster s).1 with
      | none => simp only [enterDirs, Find.enters, enterDir_by, next]
      | some d => simp only [enterDirs, Find.enters, enterDir_by, next, ih, kind]

theorem walkLeaf_by (comp : List UInt8) (allowMissing : Bool) (cluster : Nat) (s : VolState δ) :
    walkLeaf comp allowMissing cluster s =
      Find.leaf findInDir s.vol.kind comp allowMissing cluster s := by
  by_cases dot : comp = [46]
  · rw [walkLeaf, Find.leaf, if_pos dot, if_pos dot]
  by_cases dots : comp = [46, 46]
  · rw [walkLeaf, Find.leaf, if_neg dot, if_neg dot, if_pos dots, if_pos dots, parentOf_by]
  · exact ((if_neg dot).trans (if_neg dots)).trans ((if_neg dot).trans (if_neg dots)).symm

theorem walkVolume_by (path : List UInt8) (allowMissing : Bool) (s : VolState δ) :
    walkVolume path allowMissing s =
      Find.walk findInDir s.vol.kind (components path) allowMissing (s.vol.startDir (isAbsolute path)) s := by
  cases final : (components path).getLast? with
  | none => simp only [walkVolume, Find.walk, final]
  | some last =>
      have before := enterDirs_by (components path).dropLast (s.vol.startDir (isAbsolute path)) s
      have kind := (enterDirs_reads (components path).dropLast (s.vol.startDir (isAbsolute path)) s).vol
      rw [before] at kind
      cases entered : (Find.enters findInDir s.vol.kind (components path).dropLast
          (s.vol.startDir (isAbsolute path)) s).1 with
      | none => simp only [walkVolume, Find.walk, final, before, entered]
      | some d => simp only [walkVolume, Find.walk, final, before, entered, walkLeaf_by, kind]

end Code

/-! Whole components. -/

/-- The maximal runs of bytes that are no separators. -/
def words (path : List UInt8) : List (List UInt8) := (path.splitOnP isSeparator).filter (· ≠ [])

/-- The walk sees the first twelve bytes of each. -/
theorem components_words (path : List UInt8) : components path = (words path).map (·.take 12) := by
  induction size : path.length using Nat.strong_induction_on generalizing path with
  | _ n ih =>
      obtain ⟨word, rest, rfl, plain, ends⟩ := cut_word path
      cases rest with
      | nil =>
          have whole : (word ++ []).splitOnP isSeparator = [word] := by
            rw [List.append_nil]
            exact List.splitOnP_eq_singleton plain
          by_cases some : word = []
          · rw [some]
            rfl
          · rw [components_word some plain ends, words, whole, List.filter_cons_of_pos (by simpa using some)]
            rfl
      | cons sep rest =>
          have mark := ends sep rfl
          have next := ih rest.length (by rw [← size, List.length_append, List.length_cons]; omega) rest rfl
          have cut := List.splitOnP_append_cons_of_forall_mem plain sep mark rest
          by_cases some : word = []
          · subst some
            rw [List.nil_append] at cut ⊢
            rw [components_separator mark, next, words, words, cut, List.filter_cons_of_neg (by simp)]
          · rw [components_word some plain ends, components_separator mark, next, words, words, cut,
              List.filter_cons_of_pos (by simpa using some), List.map_cons]

/-- A path is looked up under the 8.3 names of its whole components. -/
structure LooksUpWhole (path : List UInt8) : Prop where
  /-- The walk of the code is the one over the whole components. -/
  code : ∀ (s : VolState Disk) allowMissing, walkVolume path allowMissing s =
    Find.walk findInDir s.vol.kind (words path) allowMissing (s.vol.startDir (isAbsolute path)) s
  /-- Every lookup is for the whole component, whatever came of those before. -/
  whole : ∀ (σ : Type) (find : Find σ) kind allowMissing start s,
    find.walk kind (components path) allowMissing start s =
      find.walk kind (words path) allowMissing start s
  /-- Calls that need the leaf and calls that may do without it mean the same one. -/
  agree : ∀ (σ : Type) (find : Find σ) kind start s found wanted,
    (find.walk kind (components path) false start s).1 = some found →
    (find.walk kind (components path) true start s).1 = some wanted → found = wanted

theorem Find.leaf_agree {σ : Type} {find : Find σ} {kind : FatKind} {comp : List UInt8} {d : Nat} {s : σ}
    {found : Leaf} (here : (find.leaf kind comp false d s).1 = some found) :
    (find.leaf kind comp true d s).1 = some found := by
  rw [leaf] at here ⊢
  split
  next dot => rwa [if_pos dot] at here
  next dot =>
    rw [if_neg dot] at here
    split
    next dots => rwa [if_pos dots] at here
    next dots =>
      rw [if_neg dots] at here
      dsimp only at here ⊢
      split
      next missing =>
        rw [missing] at here
        cases here
      next entry => rwa [entry] at here

theorem Find.walk_agree {σ : Type} {find : Find σ} {kind : FatKind} {comps : List (List UInt8)} {start : Nat}
    {s : σ} {found : Leaf} (here : (find.walk kind comps false start s).1 = some found) :
    (find.walk kind comps true start s).1 = some found := by
  rw [walk] at here ⊢
  split
  next none => rwa [none] at here
  next last some =>
    rw [some] at here
    dsimp only at here ⊢
    split
    next stuck =>
      rw [stuck] at here
      cases here
    next entered =>
      rw [entered] at here
      exact leaf_agree here

/-! Cutting a component whose name stays. -/

theorem take_dots {word : List UInt8} (dots : List UInt8) (short : dots.length < 12) : word.take 12 = dots ↔ word = dots := by
  constructor
  · intro same
    have length := congrArg List.length same
    rw [List.length_take] at length
    rwa [List.take_of_length_le (by omega)] at same
  · rintro rfl
    exact List.take_of_length_le (by omega)

section Cut
variable {σ : Type} (find : Find σ) (kind : FatKind) {word : List UInt8}

theorem Find.enter_cut (same : nameTo83 (word.take 12) = nameTo83 word) (d : Nat) (s : σ) :
    find.enter kind (word.take 12) d s = find.enter kind word d s := by
  simp only [enter, take_dots [46] (by decide), take_dots [46, 46] (by decide), same]

theorem Find.leaf_cut (same : nameTo83 (word.take 12) = nameTo83 word) (allowMissing : Bool) (d : Nat)
    (s : σ) : find.leaf kind (word.take 12) allowMissing d s = find.leaf kind word allowMissing d s := by
  simp only [leaf, take_dots [46] (by decide), take_dots [46, 46] (by decide), same]

theorem Find.enters_cut {list : List (List UInt8)}
    (same : ∀ word ∈ list, nameTo83 (word.take 12) = nameTo83 word) : ∀ (d : Nat) (s : σ),
      find.enters kind (list.map (·.take 12)) d s = find.enters kind list d s := by
  induction list with
  | nil => exact fun _ _ => rfl
  | cons word list ih =>
      intro d s
      have first := same word List.mem_cons_self
      simp only [List.map_cons, enters, find.enter_cut kind first,
        ih fun x member => same x (List.mem_cons_of_mem word member)]

theorem Find.walk_cut {list : List (List UInt8)}
    (same : ∀ word ∈ list, nameTo83 (word.take 12) = nameTo83 word) (allowMissing : Bool) (start : Nat)
    (s : σ) : find.walk kind (list.map (·.take 12)) allowMissing start s =
      find.walk kind list allowMissing start s := by
  rcases List.eq_nil_or_concat' list with rfl | ⟨front, last, rfl⟩
  · rfl
  · have whole : ∀ x ∈ front, nameTo83 (x.take 12) = nameTo83 x :=
      fun x member => same x (List.mem_append_left [last] member)
    have before := find.enters_cut kind whole
    have final := same last (List.mem_append_right front List.mem_cons_self)
    simp only [walk, List.map_append, List.map_cons, List.map_nil, List.getLast?_concat,
      List.dropLast_concat, before, find.leaf_cut kind final]

end Cut

/-! A log of the names: every lookup finds a directory that leads to the root. -/

/-- Not "." and not "..". -/
def Sought (comp : List UInt8) : Bool := comp != [46] && comp != [46, 46]

def logged : Find (List (List UInt8)) := fun _ name83 log =>
  (some (Dirent.make name83 attrDir, 0), log ++ [name83])

theorem logged_cluster (kind : FatKind) (name : List UInt8) :
    Dirent.cluster kind (Dirent.make name attrDir) = 0 := by
  cases kind <;> simp [Dirent.cluster, readLe16, Dirent.make]

theorem logged_enter (kind : FatKind) (comp : List UInt8) (log : List (List UInt8)) :
    logged.enter kind comp 0 log = (some 0, log ++ if Sought comp then [nameTo83 comp] else []) := by
  rw [Find.enter]
  split
  next dot =>
    subst dot
    exact congrArg _ (List.append_nil log).symm
  next dot =>
    split
    next dots =>
      subst dots
      exact congrArg _ (List.append_nil log).symm
    next dots =>
      have sought : Sought comp = true := by simp [Sought, dot, dots]
      have dir : Dirent.hasAttr (Dirent.make (nameTo83 comp) attrDir) attrDir = true :=
        show (attrDir &&& attrDir != 0) = true by decide
      simp only [logged, dir, if_true, logged_cluster, sought]

theorem logged_enters (kind : FatKind) (comps : List (List UInt8)) : ∀ log,
    logged.enters kind comps 0 log = (some 0, log ++ (comps.filter Sought).map nameTo83) := by
  induction comps with
  | nil => exact fun log => congrArg _ (List.append_nil log).symm
  | cons comp comps ih =>
      intro log
      simp only [Find.enters, logged_enter, ih, List.filter_cons, List.append_assoc]
      split <;> rfl

theorem logged_walk (kind : FatKind) (comps : List (List UInt8)) :
    (logged.walk kind comps true 0 []).2 = (comps.filter Sought).map nameTo83 := by
  rcases List.eq_nil_or_concat' comps with rfl | ⟨front, last, rfl⟩
  · rfl
  · have entered := logged_enters kind front []
    rw [List.nil_append] at entered
    simp only [Find.walk, List.getLast?_concat, List.dropLast_concat, entered, List.filter_append,
      List.map_append]
    rw [Find.leaf]
    split
    next dot =>
      subst dot
      exact (List.append_nil _).symm
    next dot =>
      split
      next dots =>
        subst dots
        exact (List.append_nil _).symm
      next dots =>
        have sought : Sought last = true := by simp [Sought, dot, dots]
        rw [List.filter_cons_of_pos sought]
        rfl

/-- A path is looked up under its whole components exactly when the first twelve
bytes of each have the 8.3 name of all of them. -/
theorem looks_up_whole_iff (path : List UInt8) : LooksUpWhole path ↔
    ∀ word ∈ words path, nameTo83 (word.take 12) = nameTo83 word := by
  constructor
  · intro looks word member
    have log := congrArg Prod.snd (looks.whole _ logged .fat16 true 0 [])
    rw [logged_walk, logged_walk, components_words, List.filter_map] at log
    have sought : Sought ∘ (List.take 12 : List UInt8 → List UInt8) = Sought := by
      funext x
      simp only [Function.comp, Sought, bne, beq_eq_decide, take_dots [46] (by decide),
        take_dots [46, 46] (by decide)]
    rw [sought, List.map_map] at log
    by_cases here : Sought word = true
    · exact List.map_inj_left.mp log word (List.mem_filter.mpr ⟨member, here⟩)
    · have short : word = [46] ∨ word = [46, 46] := by
        simpa [Sought, Classical.or_iff_not_imp_left] using here
      rcases short with rfl | rfl <;> rfl
  · intro same
    have whole (σ : Type) (find : Find σ) (kind : FatKind) (allowMissing : Bool) (start : Nat) (s : σ) :
        find.walk kind (components path) allowMissing start s =
          find.walk kind (words path) allowMissing start s := by
      rw [components_words]
      exact find.walk_cut kind same allowMissing start s
    refine ⟨fun s allowMissing => ?_, whole, fun σ find kind start s found wanted here there => ?_⟩
    · rw [walkVolume_by, whole]
    · exact Option.some.inj ((Find.walk_agree here).symm.trans there)

/-- "ABCDEFGHIJKL.TXT": the dot is behind the cut. -/
def longText : List UInt8 := [65, 66, 67, 68, 69, 70, 71, 72, 73, 74, 75, 76, 46, 84, 88, 84]

/-- The extension is lost: the name is that of "ABCDEFGH". -/
theorem long_text_cut : ¬ LooksUpWhole longText := by
  intro looks
  have log := congrArg Prod.snd (looks.whole _ logged .fat16 true 0 [])
  rw [logged_walk, logged_walk] at log
  exact absurd log (by decide)

end Zenbite.Fat
