import Zenbite.MbrEdit

/-! mbr_largest_free: on a table of disjoint partitions inside the disk, the gap
that the walk ends with is free. -/

namespace Zenbite

/-- Half-open spans `[start, end)` that share no sector. -/
def SpanApart (a b : Nat × Nat) : Prop := a.2 ≤ b.1 ∨ b.2 ≤ a.1

theorem insertSpan_perm (sorted : List (Nat × Nat)) (span : Nat × Nat) :
    (insertSpan sorted span).Perm (span :: sorted) := by
  induction sorted with
  | nil => exact .refl _
  | cons s rest ih =>
      simp only [insertSpan]
      split
      · exact .refl _
      · exact (ih.cons s).trans (.swap span s rest)

theorem insertSpan_sorted {sorted : List (Nat × Nat)} (span : Nat × Nat)
    (order : sorted.Pairwise fun a b => a.1 ≤ b.1) :
    (insertSpan sorted span).Pairwise fun a b => a.1 ≤ b.1 := by
  induction sorted with
  | nil => exact List.pairwise_singleton _ _
  | cons s rest ih =>
      obtain ⟨first, order⟩ := List.pairwise_cons.mp order
      simp only [insertSpan]
      split
      next before =>
        refine List.pairwise_cons.mpr ⟨fun t member => ?_, List.pairwise_cons.mpr ⟨first, order⟩⟩
        rcases List.mem_cons.mp member with rfl | member
        · exact Nat.le_of_lt before
        · exact Nat.le_trans (Nat.le_of_lt before) (first t member)
      next behind =>
        refine List.pairwise_cons.mpr ⟨fun t member => ?_, ih order⟩
        rcases List.mem_cons.mp ((insertSpan_perm rest span).mem_iff.mp member) with rfl | member
        · exact Nat.le_of_not_lt behind
        · exact first t member

theorem sortSpans (spans : List (Nat × Nat)) :
    (spans.foldl insertSpan []).Pairwise (fun a b => a.1 ≤ b.1) ∧
      ∀ span, span ∈ spans.foldl insertSpan [] ↔ span ∈ spans := by
  suffices grow : ∀ (spans sorted : List (Nat × Nat)), sorted.Pairwise (fun a b => a.1 ≤ b.1) →
      (spans.foldl insertSpan sorted).Pairwise (fun a b => a.1 ≤ b.1) ∧
        ∀ span, span ∈ spans.foldl insertSpan sorted ↔ span ∈ sorted ∨ span ∈ spans by
    obtain ⟨order, members⟩ := grow spans [] List.Pairwise.nil
    exact ⟨order, fun span => by rw [members, or_iff_right List.not_mem_nil]⟩
  intro spans
  induction spans with
  | nil => exact fun sorted order => ⟨order, fun span => (or_iff_left List.not_mem_nil).symm⟩
  | cons s spans ih =>
      intro sorted order
      obtain ⟨order, members⟩ := ih _ (insertSpan_sorted s order)
      refine ⟨order, fun span => ?_⟩
      rw [List.foldl_cons, members, (insertSpan_perm sorted s).mem_iff, List.mem_cons, List.mem_cons]
      exact ⟨fun found => by tauto, fun found => by tauto⟩

namespace Gap

/-- The walk has passed the spans `done`: the cursor is behind all of them, and
the best gap so far meets none of them and ends where the next ones may start. -/
structure Passed (size : Nat) (g : Gap) (done rest : List (Nat × Nat)) : Prop where
  cursor : ∀ span ∈ done, span.2 ≤ g.cursor
  free : 0 < g.count → ∀ span ∈ done, SpanApart (g.start, g.start + g.count) span
  next : 0 < g.count → ∀ span ∈ rest, g.start + g.count ≤ span.1
  fits : 0 < g.count → g.start + g.count ≤ size

theorem Passed.step {size : Nat} {g : Gap} {done rest : List (Nat × Nat)} {span : Nat × Nat}
    (passed : g.Passed size done (span :: rest)) (first : ∀ t ∈ rest, span.1 ≤ t.1)
    (inside : span.1 ≤ size) : (g.walk span).Passed size (done ++ [span]) rest := by
  have cursor : ∀ t ∈ done ++ [span], t.2 ≤ (g.walk span).cursor := fun t member => by
    rcases List.mem_append.mp member with member | member
    · exact Nat.le_trans (passed.cursor t member) (Nat.le_max_left _ _)
    · rw [List.mem_singleton.mp member]
      exact Nat.le_max_right _ _
  by_cases better : g.cursor < span.1 ∧ g.count < span.1 - g.cursor
  · have walk : g.walk span = ⟨max g.cursor span.2, g.cursor, span.1 - g.cursor⟩ := by
      simp only [Gap.walk, upTo, if_pos better]
    have ends : g.cursor + (span.1 - g.cursor) = span.1 := by omega
    rw [walk] at cursor ⊢
    refine ⟨cursor, fun _ t member => ?_, fun _ t member => ?_, fun _ => ?_⟩
    · rcases List.mem_append.mp member with member | member
      · exact .inr (passed.cursor t member)
      · rw [List.mem_singleton.mp member]
        exact .inl (Nat.le_of_eq ends)
    · exact Nat.le_trans (Nat.le_of_eq ends) (first t member)
    · exact Nat.le_trans (Nat.le_of_eq ends) inside
  · have walk : g.walk span = ⟨max g.cursor span.2, g.start, g.count⟩ := by
      simp only [Gap.walk, upTo, if_neg better]
    rw [walk] at cursor ⊢
    refine ⟨cursor, fun some t member => ?_, fun some t member => ?_, passed.fits⟩
    · rcases List.mem_append.mp member with member | member
      · exact passed.free some t member
      · rw [List.mem_singleton.mp member]
        exact .inl (passed.next some span List.mem_cons_self)
    · exact passed.next some t (List.mem_cons_of_mem _ member)

theorem Passed.walk {size : Nat} {rest : List (Nat × Nat)} : ∀ {g : Gap} {done : List (Nat × Nat)},
    g.Passed size done rest → rest.Pairwise (fun a b => a.1 ≤ b.1) → (∀ t ∈ rest, t.1 ≤ size) →
      (rest.foldl Gap.walk g).Passed size (done ++ rest) [] := by
  induction rest with
  | nil =>
      intro g done passed _ _
      rwa [List.append_nil]
  | cons span rest ih =>
      intro g done passed order inside
      obtain ⟨first, order⟩ := List.pairwise_cons.mp order
      have next := ih (passed.step first (inside span List.mem_cons_self)) order
        fun t member => inside t (List.mem_cons_of_mem _ member)
      rwa [List.append_assoc] at next

/-- The end of the disk closes the last gap. -/
theorem Passed.finish {size : Nat} {g : Gap} {done : List (Nat × Nat)}
    (passed : g.Passed size done []) : (g.upTo size).Passed size done [] := by
  by_cases better : g.cursor < size ∧ g.count < size - g.cursor
  · have last : g.upTo size = ⟨g.cursor, g.cursor, size - g.cursor⟩ := if_pos better
    rw [last]
    exact ⟨passed.cursor, fun _ t member => .inr (passed.cursor t member),
      fun _ t member => absurd member List.not_mem_nil, fun _ => by
        simp only
        omega⟩
  · have last : g.upTo size = g := if_neg better
    rwa [last]

end Gap

/-- Partitions that share no sector. -/
def MbrPart.Apart (e f : MbrPart) : Prop :=
  e.startLba + e.sectors ≤ f.startLba ∨ f.startLba + f.sectors ≤ e.startLba

instance MbrPart.decidableApart (e f : MbrPart) : Decidable (e.Apart f) := inferInstanceAs (Decidable (_ ∨ _))

/-- Disjoint partitions in the sectors `[1, size)`. -/
structure Parted (size : Nat) (entry : Nat → MbrPart) : Prop where
  inside : ∀ i, i < mbrPartMax → (entry i).Used →
    1 ≤ (entry i).startLba ∧ (entry i).startLba + (entry i).sectors ≤ size
  apart : ∀ i, i < mbrPartMax → ∀ j, j < mbrPartMax → i ≠ j → (entry i).Used → (entry j).Used →
    (entry i).Apart (entry j)

instance (size : Nat) (entry : Nat → MbrPart) : Decidable (Parted size entry) :=
  decidable_of_iff (_ ∧ _) ⟨fun parts => ⟨parts.1, parts.2⟩, fun parted => ⟨parted.inside, parted.apart⟩⟩

/-- A span in the sectors `[1, size)` that meets no partition but that of `slot`. -/
structure FreeSpan (size : Nat) (entry : Nat → MbrPart) (slot start count : Nat) : Prop where
  positive : 1 ≤ start
  ends : start + count ≤ size
  apart : ∀ i, i < mbrPartMax → i ≠ slot → (entry i).Used →
    start + count ≤ (entry i).startLba ∨ (entry i).startLba + (entry i).sectors ≤ start

/-- The table on a raw disk. -/
def Disk.entry (d : Disk) (i : Nat) : MbrPart := .ofSector d.bytes i

theorem Blk.present_raw {id : Nat} (raw : id < diskRawMax) (b : Blk) :
    b.present id = (b.raws id).present := if_pos raw

/-- What mbr_largest_free finds if it reads the table. -/
theorem largestFree_free {id : Nat} (raw : id < diskRawMax) {b : Blk}
    (parted : Parted (b.raws id).sectors (b.raws id).entry) (size : (b.raws id).sectors < 2 ^ 32)
    {start count : Nat}
    (found : (mbrLargestFree id b).1 = some (start, count))
    (listed : (∃ i, i < mbrPartMax ∧ ((b.raws id).entry i).Used) → (tableOn (b.raws id)).isSome = true)
    (slot : Nat) : FreeSpan (b.raws id).sectors (b.raws id).entry slot start count := by
  simp only [mbrLargestFree, Blk.present_raw raw, mbrRead_raw raw] at found
  split at found
  · cases found
  next present =>
    cases table : tableOn (b.raws id) with
    | none =>
        simp only [table] at found
        split at found
        · obtain ⟨rfl, rfl⟩ := Prod.mk.inj (Option.some.inj found)
          refine ⟨by omega, by omega, fun i bound _ used => ?_⟩
          have := listed ⟨i, bound, used⟩
          rw [table] at this
          cases this
        · cases found
    | some entries =>
        simp only [table] at found
        have entry := (tableOn_sector table).2
        have length := tableOn_length table
        generalize spansDef : ((0, 2048) :: (entries.filter fun e => decide e.Used).map fun e =>
          (e.startLba, Memory.u32 (e.startLba + e.sectors))) = spans at found
        obtain ⟨order, members⟩ := sortSpans spans
        -- entry `i` of the table, as a span of the list
        have span (i : Nat) (bound : i < mbrPartMax) (used : ((b.raws id).entry i).Used) :
            (((b.raws id).entry i).startLba,
              ((b.raws id).entry i).startLba + ((b.raws id).entry i).sectors) ∈ spans := by
          have inside := (parted.inside i bound used).2
          have here : (b.raws id).entry i ∈ entries := by
            have low : i < entries.length := by rwa [length]
            have get := entry i bound
            rw [List.getD_eq_getElem?_getD, List.getElem?_eq_getElem low, Option.getD_some] at get
            rw [Disk.entry, ← get]
            exact List.getElem_mem low
          rw [← spansDef]
          refine List.mem_cons_of_mem _ (List.mem_map.mpr ⟨_, List.mem_filter.mpr
            ⟨here, decide_eq_true used⟩, ?_⟩)
          rw [Memory.u32_of_lt (by omega)]
        have starts : ∀ t ∈ spans.foldl insertSpan [], t.1 ≤ (b.raws id).sectors := fun t member => by
          rw [members, ← spansDef] at member
          rcases List.mem_cons.mp member with rfl | member
          · exact Nat.zero_le _
          · obtain ⟨e, listed, rfl⟩ := List.mem_map.mp member
            obtain ⟨kept, used⟩ := List.mem_filter.mp listed
            obtain ⟨i, low, here⟩ := List.mem_iff_getElem.mp kept
            have bound : i < mbrPartMax := by rwa [length] at low
            have get := entry i bound
            rw [List.getD_eq_getElem?_getD, List.getElem?_eq_getElem low, Option.getD_some, here] at get
            have inside := (parted.inside i bound (by rw [Disk.entry, ← get]; exact of_decide_eq_true used)).2
            rw [Disk.entry, ← get] at inside
            simp only
            omega
        have begin : Gap.Passed (b.raws id).sectors ⟨0, 0, 0⟩ [] (spans.foldl insertSpan []) :=
          ⟨fun _ member => absurd member List.not_mem_nil, fun some => absurd some (Nat.lt_irrefl 0),
            fun some => absurd some (Nat.lt_irrefl 0), fun some => absurd some (Nat.lt_irrefl 0)⟩
        have passed := (begin.walk order starts).finish
        rw [List.nil_append] at passed
        split at found
        next some =>
          obtain ⟨rfl, rfl⟩ := Prod.mk.inj (Option.some.inj found)
          have free (t : Nat × Nat) (member : t ∈ spans) :=
            passed.free some t ((members t).mpr member)
          refine ⟨?_, passed.fits some, fun i bound _ used => free _ (span i bound used)⟩
          have first := free (0, 2048) (by rw [← spansDef]; exact List.mem_cons_self)
          simp only [SpanApart] at first
          omega
        · cases found

end Zenbite
