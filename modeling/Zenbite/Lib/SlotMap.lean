import Mathlib.Data.List.Basic
import Mathlib.Tactic.Common

/-! Maps in a table of slots: a slot is free or has a key and its value. As long as no key
has two slots, overwriting one slot changes the map at its old and its new key only. -/

namespace Zenbite.SlotMap

variable {κ α : Type} [DecidableEq κ]

abbrev Table (κ α : Type) := List (Option (κ × α))

/-- The first slot of the key. -/
def slotOf (t : Table κ α) (k : κ) : Option Nat := t.findIdx? fun slot => slot.any fun e => e.1 = k

def lookup (t : Table κ α) (k : κ) : Option α :=
  t.findSome? fun slot => slot.bind fun e => if e.1 = k then some e.2 else none

/-- No key has two slots. -/
def Unique (t : Table κ α) : Prop :=
  ∀ (i j : Nat) (a b : κ × α), t[i]? = some (some a) → t[j]? = some (some b) → a.1 = b.1 → i = j

variable {t : Table κ α} {k q : κ} {i : Nat}

omit [DecidableEq κ] in
theorem unique_free (n : Nat) : Unique (List.replicate n none : Table κ α) := by
  intro i j a b first
  rw [List.getElem?_replicate] at first
  split_ifs at first
  cases first

theorem slotOf_some (found : slotOf t k = some i) : ∃ v, t[i]? = some (some (k, v)) := by
  obtain ⟨inside, holds, _⟩ := List.findIdx?_eq_some_iff_getElem.mp found
  have here : t[i]? = some t[i] := List.getElem?_eq_getElem inside
  cases slot : t[i] with
  | none =>
      rw [slot] at holds
      cases holds
  | some e =>
      rw [slot] at holds here
      have same : e.1 = k := of_decide_eq_true holds
      exact ⟨e.2, here.trans (congrArg (fun q => some (some (q, e.2))) same)⟩

theorem slotOf_none (missing : slotOf t k = none) (v : α) : t[i]? ≠ some (some (k, v)) := by
  intro slot
  have other := List.findIdx?_eq_none_iff.mp missing _ (List.mem_of_getElem? slot)
  rw [Option.any_some, decide_eq_false_iff_not] at other
  exact other rfl

theorem lookup_some {v : α} (found : lookup t k = some v) : ∃ i : Nat, t[i]? = some (some (k, v)) := by
  obtain ⟨slot, member, here⟩ := List.exists_of_findSome?_eq_some found
  obtain ⟨⟨key, w⟩, rfl, value⟩ := Option.bind_eq_some_iff.mp here
  split_ifs at value with same
  obtain rfl := Option.some.inj value
  obtain ⟨i, slot⟩ := List.mem_iff_getElem?.mp member
  subst same
  exact ⟨i, slot⟩

/-- With one slot for a key, that slot has the answer. -/
theorem lookup_iff (unique : Unique t) {v : α} : lookup t k = some v ↔ ∃ i : Nat, t[i]? = some (some (k, v)) := by
  constructor
  · exact lookup_some
  · rintro ⟨i, slot⟩
    cases found : lookup t k with
    | none =>
        have none := List.findSome?_eq_none_iff.mp found _ (List.mem_of_getElem? slot)
        rw [Option.bind_some, if_pos rfl] at none
        cases none
    | some w =>
        obtain ⟨j, other⟩ := lookup_some found
        obtain rfl := unique i j _ _ slot other rfl
        rw [slot] at other
        exact (congrArg (Option.map Prod.snd) (Option.some.inj other)).symm

theorem lookup_none (unique : Unique t) : lookup t k = none ↔ ∀ (i : Nat) v, t[i]? ≠ some (some (k, v)) := by
  rw [Option.eq_none_iff_forall_ne_some]
  constructor
  · exact fun none i v slot => none v ((lookup_iff unique).mpr ⟨i, slot⟩)
  · exact fun none v found => (lookup_some found).elim fun i slot => none i v slot

theorem slotOf_none_iff (unique : Unique t) : slotOf t k = none ↔ lookup t k = none := by
  rw [lookup_none unique]
  constructor
  · exact fun missing i v => slotOf_none missing v
  · intro none
    cases found : slotOf t k with
    | none => rfl
    | some i =>
        obtain ⟨v, slot⟩ := slotOf_some found
        exact absurd slot (none i v)

/-! One slot overwritten -/

section Set

variable {v : α}

omit [DecidableEq κ] in
theorem set_unique (unique : Unique t) (alone : ∀ (j : Nat) w, j ≠ i → t[j]? ≠ some (some (k, w))) :
    Unique (t.set i (some (k, v))) := by
  intro a b x y first second same
  rw [List.getElem?_set] at first second
  split_ifs at first second with here _ there _
  · exact here.symm.trans there
  · obtain rfl := Option.some.inj (Option.some.inj first)
    have taken : t[b]? = some (some (k, y.2)) := second.trans (congrArg (fun q => some (some (q, y.2))) same.symm)
    exact absurd taken (alone b y.2 (Ne.symm there))
  · obtain rfl := Option.some.inj (Option.some.inj second)
    have taken : t[a]? = some (some (k, x.2)) := first.trans (congrArg (fun q => some (some (q, x.2))) same)
    exact absurd taken (alone a x.2 (Ne.symm here))
  · exact unique a b x y first second same

theorem lookup_set_self (unique : Unique (t.set i (some (k, v)))) (inside : i < t.length) :
    lookup (t.set i (some (k, v))) k = some v :=
  (lookup_iff unique).mpr ⟨i, List.getElem?_set_self inside⟩

/-- Another key loses its value if the slot was its own. -/
theorem lookup_set_other (unique : Unique t) (after : Unique (t.set i (some (k, v)))) (other : q ≠ k) :
    lookup (t.set i (some (k, v))) q = if slotOf t q = some i then none else lookup t q := by
  split_ifs with own
  · rw [lookup_none after]
    intro j w slot
    rw [List.getElem?_set] at slot
    split_ifs at slot with here
    · exact other (congrArg Prod.fst (Option.some.inj (Option.some.inj slot))).symm
    · obtain ⟨x, mine⟩ := slotOf_some own
      exact here (unique i j _ _ mine slot rfl)
  · apply Option.ext
    intro w
    rw [lookup_iff after, lookup_iff unique]
    constructor
    · rintro ⟨j, slot⟩
      rw [List.getElem?_set] at slot
      split_ifs at slot with here
      · exact absurd (congrArg Prod.fst (Option.some.inj (Option.some.inj slot))).symm other
      · exact ⟨j, slot⟩
    · rintro ⟨j, slot⟩
      have elsewhere : i ≠ j := by
        rintro rfl
        cases found : slotOf t q with
        | none => exact slotOf_none found w slot
        | some m =>
            obtain ⟨x, mine⟩ := slotOf_some found
            obtain rfl := unique m i _ _ mine slot rfl
            exact own found
      exact ⟨j, by rw [List.getElem?_set_ne elsewhere, slot]⟩

end Set

end Zenbite.SlotMap
