import Mathlib.Data.List.FinRange
import Mathlib.Logic.Function.Basic
import Zenbite.CString
import Zenbite.Lib.Runs

/-! The environment (kernel/env.c): a table of 32 names of up to 31 characters, compared
up to case. -/

namespace Zenbite.Env

open CString

/-- ENV_MAX -/
abbrev Idx := Fin 32

/-- ENV_NAME_MAX - 1 -/
def nameMax : Nat := 31

/-- ENV_VAL_MAX - 1 -/
def valMax : Nat := 255

structure Table where
  names : Idx → Field nameMax
  vals : Idx → Field valMax
  used : Idx → Bool

namespace Table

/-- The loop that looks for a name. -/
def find (name : CString) (t : Table) : Option Idx :=
  (List.finRange 32).find? fun i => t.used i && strcasecmp (t.names i).val.chars name.chars == 0

/-- The loop that looks for a free slot. -/
def free (t : Table) : Option Idx := (List.finRange 32).find? fun i => !t.used i

def envSet (name val : CString) (t : Table) : Int × Table :=
  match t.find name with
  | some i => (0, { t with vals := Function.update t.vals i (val.store valMax) })
  | none =>
    match t.free with
    | some i =>
      (0, { names := Function.update t.names i (name.store nameMax)
            vals := Function.update t.vals i (val.store valMax)
            used := Function.update t.used i true })
    | none => (-1, t)

def envGet (name : CString) (t : Table) : Option CString := (t.find name).map fun i => (t.vals i).val

def envDel (name : CString) (t : Table) : Table :=
  match t.find name with
  | some i => { t with used := Function.update t.used i false }
  | none => t

/-- No two used slots hold the same name. -/
def Apart (t : Table) : Prop :=
  ∀ i j, t.used i = true → t.used j = true → (t.names i).val.fold = (t.names j).val.fold → i = j

/-- The slot is in use for the name. -/
def Holds (t : Table) (name : CString) (i : Idx) : Prop := t.used i = true ∧ (t.names i).val.fold = name.fold

variable {t : Table} {name other : CString}

theorem Apart.unique (apart : t.Apart) {i j : Idx} (left : t.Holds name i) (right : t.Holds name j) : i = j :=
  apart i j left.1 right.1 (left.2.trans right.2.symm)

theorem apart_of_unique (unique : ∀ n i j, t.Holds n i → t.Holds n j → i = j) : t.Apart :=
  fun i j left right same => unique (t.names i).val i j ⟨left, rfl⟩ ⟨right, same.symm⟩

theorem find_some {i : Idx} (found : t.find name = some i) : t.Holds name i := by
  have test := List.find?_some found
  rw [Bool.and_eq_true, beq_iff_eq] at test
  exact ⟨test.1, strcasecmp_iff.mp test.2⟩

theorem find_none (absent : t.find name = none) (i : Idx) : ¬t.Holds name i := by
  rintro ⟨used, same⟩
  have test := List.find?_eq_none.mp absent i (List.mem_finRange i)
  apply test
  rw [Bool.and_eq_true, beq_iff_eq]
  exact ⟨used, strcasecmp_iff.mpr same⟩

theorem find_eq_some (apart : t.Apart) {i : Idx} (holds : t.Holds name i) : t.find name = some i := by
  cases found : t.find name with
  | none => exact absurd holds (find_none found i)
  | some j => exact congrArg some (apart.unique (find_some found) holds)

theorem find_eq_none (absent : ∀ i, ¬t.Holds name i) : t.find name = none := by
  cases found : t.find name with
  | none => rfl
  | some i => exact absurd (find_some found) (absent i)

theorem free_some {i : Idx} (free : t.free = some i) : t.used i = false := by
  have test := List.find?_some free
  exact Bool.not_eq_true' _ ▸ test

/-- Only the slots count: tables in which the name is held alike find it alike. -/
theorem find_congr {u : Table} (alike : ∀ i, u.Holds name i ↔ t.Holds name i) : u.find name = t.find name := by
  apply congrArg (fun p => List.find? p (List.finRange 32))
  funext i
  have same := alike i
  rw [Bool.eq_iff_iff, Bool.and_eq_true, Bool.and_eq_true, beq_iff_eq, beq_iff_eq, strcasecmp_iff, strcasecmp_iff]
  exact same

/-! What a call changes for a name. -/

section Calls
variable {val : CString}

theorem envGet_held (apart : t.Apart) {i : Idx} (holds : t.Holds name i) : t.envGet name = some (t.vals i).val := by
  rw [envGet, find_eq_some apart holds, Option.map_some]

theorem envSet_known {i : Idx} (found : t.find name = some i) :
    t.envSet name val = (0, { t with vals := Function.update t.vals i (val.store valMax) }) := by
  rw [envSet, found]

theorem envGet_known (apart : t.Apart) {i : Idx} (found : t.find name = some i) (n : CString) :
    envGet n { t with vals := Function.update t.vals i (val.store valMax) } =
      if name.fold = n.fold then some (val.take valMax) else t.envGet n := by
  have here := find_some found
  have same : find n { t with vals := Function.update t.vals i (val.store valMax) } = t.find n := rfl
  rw [envGet, same]
  split
  next equal =>
    rw [find_eq_some apart ⟨here.1, here.2.trans equal⟩, Option.map_some]
    dsimp only
    rw [Function.update_self, store_val]
  next differ =>
    rw [envGet]
    apply Option.map_congr
    intro j there
    have other : j ≠ i := by
      rintro rfl
      exact differ (here.2.symm.trans (find_some there).2)
    exact congrArg Subtype.val (Function.update_of_ne other _ _)

/-- The table with a new name in a slot. -/
def entered (t : Table) (i : Idx) (name val : CString) : Table where
  names := Function.update t.names i (name.store nameMax)
  vals := Function.update t.vals i (val.store valMax)
  used := Function.update t.used i true

theorem envSet_new {i : Idx} (absent : t.find name = none) (free : t.free = some i) :
    t.envSet name val = (0, t.entered i name val) := by
  rw [envSet, absent, free]
  rfl

theorem envSet_full (absent : t.find name = none) (full : t.free = none) : t.envSet name val = (-1, t) := by
  rw [envSet, absent, full]

theorem entered_holds {i : Idx} (short : name.chars.length ≤ nameMax) (n : CString) (j : Idx) :
    (t.entered i name val).Holds n j ↔ if j = i then name.fold = n.fold else t.Holds n j := by
  rw [Holds, entered]
  dsimp only
  split
  next here =>
    subst here
    rw [Function.update_self, Function.update_self, store_val, take_of_le short, and_iff_right rfl]
  next other => rw [Function.update_of_ne other, Function.update_of_ne other, Holds]

theorem Apart.entered {i : Idx} (apart : t.Apart) (absent : t.find name = none)
    (short : name.chars.length ≤ nameMax) : (t.entered i name val).Apart := by
  have strange {n : CString} {j : Idx} (same : name.fold = n.fold) : ¬t.Holds n j := fun holds =>
    find_none absent j ⟨holds.1, holds.2.trans same.symm⟩
  apply apart_of_unique
  intro n j k left right
  rw [entered_holds short] at left right
  by_cases first : j = i <;> by_cases second : k = i
  · exact first.trans second.symm
  · rw [if_pos first] at left
    rw [if_neg second] at right
    exact absurd right (strange left)
  · rw [if_neg first] at left
    rw [if_pos second] at right
    exact absurd left (strange right)
  · rw [if_neg first] at left
    rw [if_neg second] at right
    exact apart.unique left right

theorem envGet_entered {i : Idx} (apart : t.Apart) (absent : t.find name = none) (free : t.free = some i)
    (short : name.chars.length ≤ nameMax) (n : CString) :
    envGet n (t.entered i name val) = if name.fold = n.fold then some (val.take valMax) else t.envGet n := by
  split
  next equal =>
    have holds : (t.entered i name val).Holds n i := (entered_holds short n i).mpr (by rwa [if_pos rfl])
    rw [envGet_held (apart.entered absent short) holds, entered]
    dsimp only
    rw [Function.update_self, store_val]
  next differ =>
    have alike : find n (t.entered i name val) = t.find n := by
      apply find_congr
      intro j
      rw [entered_holds short]
      split
      next here =>
        subst here
        refine iff_of_false differ fun holds => ?_
        exact Bool.false_ne_true ((free_some free).symm.trans holds.1)
      next => rfl
    rw [envGet, alike, envGet]
    apply Option.map_congr
    intro j there
    have other : j ≠ i := by
      rintro rfl
      exact Bool.false_ne_true ((free_some free).symm.trans (find_some there).1)
    exact congrArg Subtype.val (Function.update_of_ne other _ _)

theorem envDel_unknown (absent : t.find name = none) : t.envDel name = t := by
  rw [envDel, absent]

theorem envDel_holds {i : Idx} (found : t.find name = some i) (n : CString) (j : Idx) :
    (t.envDel name).Holds n j ↔ j ≠ i ∧ t.Holds n j := by
  rw [envDel, found, Holds]
  dsimp only
  by_cases here : j = i
  · subst here
    rw [Function.update_self]
    exact iff_of_false (fun holds => Bool.false_ne_true holds.1) fun holds => holds.1 rfl
  · rw [Function.update_of_ne here, and_iff_right here, Holds]

theorem Apart.deleted (apart : t.Apart) (name : CString) : (t.envDel name).Apart := by
  cases found : t.find name with
  | none => rwa [envDel_unknown found]
  | some i =>
      apply apart_of_unique
      intro n j k left right
      exact apart.unique ((envDel_holds found n j).mp left).2 ((envDel_holds found n k).mp right).2

theorem envGet_envDel (apart : t.Apart) (name n : CString) :
    envGet n (t.envDel name) = if name.fold = n.fold then none else t.envGet n := by
  cases found : t.find name with
  | none =>
      rw [envDel_unknown found]
      split
      next equal =>
        have absent : t.find n = none := find_eq_none fun i holds =>
          find_none found i ⟨holds.1, holds.2.trans equal.symm⟩
        rw [envGet, absent, Option.map_none]
      next => rfl
  | some i =>
      have here := find_some found
      split
      next equal =>
        have absent : find n (t.envDel name) = none := find_eq_none fun j holds => by
          obtain ⟨other, there⟩ := (envDel_holds found n j).mp holds
          exact other (apart.unique there ⟨here.1, here.2.trans equal⟩)
        rw [envGet, absent, Option.map_none]
      next differ =>
        have alike : find n (t.envDel name) = t.find n := by
          apply find_congr
          intro j
          rw [envDel_holds found, and_iff_right_iff_imp]
          rintro there rfl
          exact differ (here.2.symm.trans there.2)
        have vals : (t.envDel name).vals = t.vals := by rw [envDel, found]
        rw [envGet, alike, vals, envGet]

end Calls

end Table

/-! Runs of calls. -/

inductive Op where
  | set (name val : CString)
  | get (name : CString)
  | del (name : CString)

/-- The value of a name after the calls, the latest first, each with what it returned. -/
def latest (n : CString) : List (Op × Int) → Option CString
  | [] => none
  | (.set name val, rc) :: past =>
    if rc = 0 ∧ name.fold = n.fold then some (val.take valMax) else latest n past
  | (.get _, _) :: past => latest n past
  | (.del name, _) :: past => if name.fold = n.fold then none else latest n past

/-- The table and the calls that led to it. -/
structure Watched where
  table : Table
  past : List (Op × Int)

namespace Watched

open Table

def step : Op → Watched → Watched
  | .set name val, w =>
    let set := w.table.envSet name val
    ⟨set.2, (.set name val, set.1) :: w.past⟩
  | .get name, w => ⟨w.table, (.get name, 0) :: w.past⟩
  | .del name, w => ⟨w.table.envDel name, (.del name, 0) :: w.past⟩

/-- The static arrays, before env_init. -/
def boot : Watched := ⟨⟨fun _ => CString.empty.store _, fun _ => CString.empty.store _, fun _ => false⟩, []⟩

/-- The table is the map of its past. -/
structure IsMap (w : Watched) : Prop where
  gets : ∀ n, w.table.envGet n = latest n w.past
  apart : w.table.Apart

/-- A call leads to the map of the longer past, and an env_set that succeeds leaves the
other names alone. -/
structure StepsRight (op : Op) (w : Watched) : Prop where
  after : (w.step op).IsMap
  others : ∀ name val, op = .set name val → (w.table.envSet name val).1 = 0 →
    ∀ n, name.fold ≠ n.fold → (w.step op).table.envGet n = w.table.envGet n

/-- A long name comes when no slot is free. -/
def Fits : Op → Watched → Prop
  | .set name _, w => name.chars.length ≤ nameMax ∨ w.table.free = none
  | .get _, _ => True
  | .del _, _ => True

variable {w : Watched}

/-- A long name is never found. -/
theorem find_long {t : Table} {name : CString} (long : ¬name.chars.length ≤ nameMax) : t.find name = none := by
  apply find_eq_none
  rintro i ⟨-, same⟩
  have length := congrArg List.length same
  rw [fold_length, fold_length] at length
  exact long (length ▸ (t.names i).property)

theorem IsMap.get (map : w.IsMap) (name : CString) : w.StepsRight (.get name) where
  after := ⟨map.gets, map.apart⟩
  others := by
    intro _ _ same
    cases same

theorem IsMap.del (map : w.IsMap) (name : CString) : w.StepsRight (.del name) where
  after := by
    refine ⟨fun n => ?_, map.apart.deleted name⟩
    change envGet n (w.table.envDel name) = if name.fold = n.fold then none else latest n w.past
    rw [envGet_envDel map.apart, map.gets]
  others := by
    intro _ _ same
    cases same

theorem IsMap.set (map : w.IsMap) {name : CString} (val : CString)
    (fits : name.chars.length ≤ nameMax ∨ w.table.free = none) : w.StepsRight (.set name val) := by
  -- a set that changes the table changes it for its own name only
  have changed {t : Table} (set : w.table.envSet name val = (0, t)) (apart : t.Apart)
      (gets : ∀ n, t.envGet n = if name.fold = n.fold then some (val.take valMax) else w.table.envGet n) :
      w.StepsRight (.set name val) := by
    have table : (w.step (.set name val)).table = t := congrArg Prod.snd set
    have past : (w.step (.set name val)).past = (.set name val, 0) :: w.past := by rw [step, set]
    refine ⟨⟨fun n => ?_, table ▸ apart⟩, ?_⟩
    · rw [table, past, latest, gets, map.gets]
      simp only [true_and]
    · rintro _ _ ⟨⟩ - n differ
      rw [table, gets, if_neg differ]
  cases found : w.table.find name with
  | some i => exact changed (envSet_known found) map.apart (envGet_known map.apart found)
  | none =>
      cases free : w.table.free with
      | some i =>
          have short := fits.resolve_right (by rw [free]; exact Option.some_ne_none i)
          exact changed (envSet_new found free) (map.apart.entered found short) (envGet_entered map.apart found free short)
      | none =>
          have full : w.table.envSet name val = (-1, w.table) := envSet_full found free
          have table : (w.step (.set name val)).table = w.table := congrArg Prod.snd full
          have past : (w.step (.set name val)).past = (.set name val, -1) :: w.past := by rw [step, full]
          refine ⟨⟨fun n => ?_, table ▸ map.apart⟩, ?_⟩
          · rw [table, past, latest, map.gets, if_neg (fun both => absurd both.1 (by decide))]
          · intro _ _ _ _ n _
            rw [table]

/-- A long name that gets a slot is not found again. -/
theorem not_stepsRight {name val : CString} (misfit : ¬Fits (.set name val) w) : ¬w.StepsRight (.set name val) := by
  rw [Fits, not_or] at misfit
  obtain ⟨long, room⟩ := misfit
  obtain ⟨i, free⟩ := Option.ne_none_iff_exists'.mp room
  intro right
  have set : w.table.envSet name val = (0, w.table.entered i name val) := envSet_new (find_long long) free
  have past : (w.step (.set name val)).past = (.set name val, 0) :: w.past := by rw [step, set]
  have value := right.after.gets name
  rw [envGet, find_long long, past, latest, if_pos ⟨rfl, rfl⟩] at value
  exact absurd value (Option.some_ne_none _).symm

theorem stepsRight_iff (map : w.IsMap) (op : Op) : w.StepsRight op ↔ Fits op w := by
  cases op with
  | set name val =>
      constructor
      · intro right
        by_contra misfit
        exact not_stepsRight misfit right
      · exact map.set val
  | get name => exact iff_of_true (map.get name) trivial
  | del name => exact iff_of_true (map.del name) trivial

theorem boot_isMap : boot.IsMap where
  gets n := by
    have absent : boot.table.find n = none := find_eq_none fun i holds => Bool.false_ne_true holds.1
    rw [envGet, absent]
    rfl
  apart _ _ used := absurd used Bool.false_ne_true

end Watched

/-- The calls of a run all go right exactly if none of them gives a slot to a name of more
than 31 characters. -/
theorem environment_map_iff (ops : List Op) :
    Runs.Each Watched.step (fun op w => w.StepsRight op) ops Watched.boot ↔
      Runs.Each Watched.step Watched.Fits ops Watched.boot := by
  have same (op : Op) (w : Watched) (map : w.IsMap) (_ : True) : w.StepsRight op ↔ w.Fits op :=
    Watched.stepsRight_iff map op
  have keeps (op : Op) (w : Watched) (map : w.IsMap) (always : True) (fits : w.Fits op) : (w.step op).IsMap :=
    ((same op w map always).mpr fits).after
  exact Runs.Each.iff Watched.IsMap same keeps (Runs.Each.of_forall (fun _ _ _ => trivial) _) Watched.boot_isMap

/-- 32 times the letter A. -/
def longName : CString := ⟨List.replicate 32 65, fun c member => by rw [List.eq_of_mem_replicate member]; decide⟩

/-- The name is set, and not found. -/
theorem longName_lost :
    ((Watched.boot.step (.set longName longName)).past.map Prod.snd = [0] ∧
      (Watched.boot.step (.set longName longName)).table.envGet longName = none) ∧
    ¬Runs.Each Watched.step (fun op w => w.StepsRight op) [.set longName longName] Watched.boot := by
  have free : Watched.boot.table.free = some 0 := rfl
  have long : ¬longName.chars.length ≤ nameMax := by decide
  refine ⟨⟨rfl, ?_⟩, fun each => ?_⟩
  · rw [Table.envGet, Watched.find_long long, Option.map_none]
  · refine Watched.not_stepsRight (fun fits => ?_) each.1
    exact fits.elim long fun full => Option.some_ne_none 0 (free.symm.trans full)

end Zenbite.Env
