import Mathlib.Algebra.GroupWithZero.Nat
import Mathlib.Data.List.Basic

/-! A sequence kept in a memory at scattered places: item `p` lies at `place p`.
Storing a run of items, and collecting a run of them. Addresses that are `loose`
may change in passing; no item lies there. -/

namespace Zenbite.Scatter

variable {α : Type} {place : Nat → Nat} {loose : Nat → Prop} {m n o : Nat → α}

/-- Between `m` and `n`, `data` was stored as the items from `pos` on. -/
structure Puts (place : Nat → Nat) (loose : Nat → Prop) (pos : Nat) (data : List α)
    (m n : Nat → α) : Prop where
  inside : ∀ k x, data[k]? = some x → n (place (pos + k)) = x
  outside : ∀ a, ¬ loose a → (∀ k, k < data.length → place (pos + k) ≠ a) → n a = m a

/-- The `count` items from `pos` on. -/
def collect (place : Nat → Nat) (m : Nat → α) (pos count : Nat) : List α :=
  (List.range count).map fun k => m (place (pos + k))

/-- The items below `size` lie at different places, none of them loose. -/
structure Apart (place : Nat → Nat) (loose : Nat → Prop) (size : Nat) : Prop where
  firm : ∀ p, p < size → ¬ loose (place p)
  inj : ∀ p q, p < size → q < size → place p = place q → p = q

theorem Apart.shorter {size less : Nat} (apart : Apart place loose size) (le : less ≤ size) :
    Apart place loose less :=
  ⟨fun p low => apart.firm p (Nat.lt_of_lt_of_le low le),
    fun p q low low' => apart.inj p q (Nat.lt_of_lt_of_le low le) (Nat.lt_of_lt_of_le low' le)⟩

@[simp] theorem collect_length (m : Nat → α) (pos count : Nat) :
    (collect place m pos count).length = count := by
  rw [collect, List.length_map, List.length_range]

theorem collect_getElem? (m : Nat → α) (pos : Nat) {count k : Nat} (low : k < count) :
    (collect place m pos count)[k]? = some (m (place (pos + k))) := by
  rw [collect, List.getElem?_map, List.getElem?_range low]
  rfl

theorem collect_append (place : Nat → Nat) (m : Nat → α) (pos first second : Nat) :
    collect place m pos first ++ collect place m (pos + first) second =
      collect place m pos (first + second) := by
  simp only [collect, List.range_add, List.map_append, List.map_map, Nat.add_assoc]
  rfl

theorem collect_congr {pos count : Nat} (same : ∀ k, k < count → n (place (pos + k)) = m (place (pos + k))) :
    collect place n pos count = collect place m pos count :=
  List.map_congr_left fun k member => same k (List.mem_range.mp member)

theorem collect_take (m : Nat → α) (pos size count : Nat) :
    (collect place m pos size).take count = collect place m pos (min count size) := by
  rw [collect, ← List.map_take, List.take_range, collect]

theorem collect_drop (m : Nat → α) (pos size count : Nat) :
    (collect place m pos size).drop count = collect place m (pos + count) (size - count) := by
  rcases Nat.le_total count size with le | le
  · have split := collect_append place m pos count (size - count)
    rw [Nat.add_sub_cancel' le] at split
    rw [← split, List.drop_left' (collect_length m pos count)]
  · rw [Nat.sub_eq_zero_of_le le, List.drop_eq_nil_of_le (by rw [collect_length]; exact le)]
    rfl

namespace Puts
variable {pos : Nat} {data more : List α}

/-- Changes at loose addresses store nothing. -/
theorem of_loose (same : ∀ a, ¬ loose a → n a = m a) : Puts place loose pos [] m n where
  inside := fun k x found => absurd found (by simp)
  outside := fun a firm _ => same a firm

theorem mono {wide : Nat → Prop} (puts : Puts place loose pos data m n) (le : ∀ a, loose a → wide a) :
    Puts place wide pos data m n :=
  ⟨puts.inside, fun a firm => puts.outside a fun here => firm (le a here)⟩

/-- The items before and behind a run stay. -/
theorem other {size q : Nat} (puts : Puts place loose pos data m n) (apart : Apart place loose size)
    (fits : pos + data.length ≤ size) (low : q < size) (outside : q < pos ∨ pos + data.length ≤ q) :
    n (place q) = m (place q) := by
  apply puts.outside _ (apart.firm q low)
  intro k inside same
  have here := apart.inj _ _ (by omega) low same
  omega

theorem append {size : Nat} (apart : Apart place loose size)
    (fits : pos + data.length + more.length ≤ size) (first : Puts place loose pos data m n)
    (second : Puts place loose (pos + data.length) more n o) :
    Puts place loose pos (data ++ more) m o where
  inside := by
    intro k x found
    rcases Nat.lt_or_ge k data.length with early | late
    · rw [List.getElem?_append_left early] at found
      exact (second.other apart fits (by omega) (.inl (by omega))).trans (first.inside k x found)
    · rw [List.getElem?_append_right late] at found
      have here : pos + data.length + (k - data.length) = pos + k := by omega
      exact here ▸ second.inside _ x found
  outside := by
    intro a firm other
    rw [List.length_append] at other
    have behind (k : Nat) (low : k < more.length) : place (pos + data.length + k) ≠ a := by
      rw [Nat.add_assoc]
      exact other _ (by omega)
    calc
      o a = n a := second.outside a firm behind
      _ = m a := first.outside a firm fun k low => other k (by omega)

/-- Collecting the stored run. -/
theorem collect_run (puts : Puts place loose pos data m n) : collect place n pos data.length = data := by
  apply List.ext_getElem?
  intro k
  rcases Nat.lt_or_ge k data.length with low | high
  · rw [collect_getElem? n pos low, List.getElem?_eq_getElem low]
    exact congrArg some (puts.inside k _ (List.getElem?_eq_getElem low))
  · rw [List.getElem?_eq_none (by rwa [collect_length]), List.getElem?_eq_none high]

/-- Storing at the front of a sequence replaces as many items, or makes it longer. -/
theorem collect_front {size : Nat} (puts : Puts place loose 0 data m n)
    (apart : Apart place loose (max size data.length)) :
    collect place n 0 (max size data.length) = data ++ (collect place m 0 size).drop data.length := by
  have rest : collect place n data.length (size - data.length) =
      collect place m data.length (size - data.length) := by
    apply collect_congr
    intro k low
    exact puts.other apart (by omega) (by omega) (.inr (by omega))
  calc
    collect place n 0 (max size data.length)
      = collect place n 0 data.length ++ collect place n data.length (size - data.length) := by
        have split := collect_append place n 0 data.length (size - data.length)
        rw [Nat.zero_add, show data.length + (size - data.length) = max size data.length by omega] at split
        exact split.symm
    _ = data ++ (collect place m 0 size).drop data.length := by
        rw [puts.collect_run, rest, collect_drop, Nat.zero_add]

end Puts

/-- The pieces that a list is taken in. -/
def pieces : List α → List Nat → List (List α)
  | _, [] => []
  | items, count :: counts => items.take count :: pieces (items.drop count) counts

theorem pieces_flatten (counts : List Nat) : ∀ items : List α,
    (pieces items counts).flatten = items.take counts.sum := by
  induction counts with
  | nil => exact fun items => by simp [pieces]
  | cons count counts ih =>
      intro items
      rw [pieces, List.flatten_cons, ih, List.sum_cons, List.take_add]

end Zenbite.Scatter
