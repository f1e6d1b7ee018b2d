import Zenbite.FreeSpan

/-! mbr_largest_free on any table. The walk ends with the first of the longest
runs that it takes for free; ends are taken modulo 2^32, and only the last gap is
held against the end of the disk. -/

namespace Zenbite

open Memory

namespace Gap

/-- A run of `n` sectors that meets no span and ends at or before a stop. -/
structure Seen (stops : List Nat) (spans : List (Nat × Nat)) (a n : Nat) : Prop where
  some : 0 < n
  stop : ∃ s ∈ stops, a + n ≤ s
  apart : ∀ t ∈ spans, SpanApart (a, a + n) t

/-- After the spans `done`, the best gap is the first of the longest runs up to the stops. -/
structure Best (g : Gap) (stops : List Nat) (done : List (Nat × Nat)) : Prop where
  cursor : ∀ a, g.cursor ≤ a ↔ ∀ t ∈ done, t.2 ≤ a
  starts : ∀ t ∈ done, t.1 ∈ stops
  first : g.start ≤ g.cursor
  stop : 0 < g.count → ∃ s ∈ stops, g.start + g.count ≤ s
  leads : ∀ a n, Seen stops done a n → n < g.count ∨ n = g.count ∧ g.start ≤ a

theorem Best.upTo {g : Gap} {stops : List Nat} {done : List (Nat × Nat)} (best : g.Best stops done)
    (n : Nat) : (g.upTo n).Best (stops ++ [n]) done := by
  -- a run up to the new stop starts behind the cursor, or ends at an old stop
  have fresh {a m : Nat} (seen : Seen (stops ++ [n]) done a m) :
      Seen stops done a m ∨ a + m ≤ n ∧ g.cursor ≤ a := by
    obtain ⟨s, member, ends⟩ := seen.stop
    rcases List.mem_append.mp member with old | new
    · exact .inl ⟨seen.some, ⟨s, old, ends⟩, seen.apart⟩
    · rw [List.mem_singleton.mp new] at ends
      by_cases before : ∃ t ∈ done, a + m ≤ t.1
      · obtain ⟨t, passed, ends⟩ := before
        exact .inl ⟨seen.some, ⟨t.1, best.starts t passed, ends⟩, seen.apart⟩
      · refine .inr ⟨ends, (best.cursor a).mpr fun t passed => ?_⟩
        exact (seen.apart t passed).resolve_left fun ends => before ⟨t, passed, ends⟩
  have starts : ∀ t ∈ done, t.1 ∈ stops ++ [n] := fun t passed =>
    List.mem_append_left _ (best.starts t passed)
  by_cases better : g.cursor < n ∧ g.count < n - g.cursor
  · have run : g.upTo n = ⟨g.cursor, g.cursor, n - g.cursor⟩ := if_pos better
    rw [run]
    refine ⟨best.cursor, starts, Nat.le_refl _, fun _ => ⟨n, by simp, by simp only; omega⟩, ?_⟩
    intro a m seen
    simp only
    rcases fresh seen with old | ⟨ends, behind⟩
    · rcases best.leads a m old with less | ⟨same, -⟩ <;> omega
    · omega
  · have run : g.upTo n = g := if_neg better
    rw [run]
    refine ⟨best.cursor, starts, best.first, fun some => ?_, fun a m seen => ?_⟩
    · obtain ⟨s, member, ends⟩ := best.stop some
      exact ⟨s, List.mem_append_left _ member, ends⟩
    · rcases fresh seen with old | ⟨ends, behind⟩
      · exact best.leads a m old
      · have some := seen.some
        have first := best.first
        omega

theorem Best.step {g : Gap} {stops : List Nat} {done : List (Nat × Nat)} (best : g.Best stops done)
    (span : Nat × Nat) : (g.walk span).Best (stops ++ [span.1]) (done ++ [span]) := by
  have next := best.upTo span.1
  have kept : (g.upTo span.1).cursor = g.cursor := by
    simp only [Gap.upTo]
    split <;> rfl
  have moved : (g.walk span).cursor = max g.cursor span.2 := rfl
  refine ⟨fun a => ?_, fun t member => ?_, ?_, next.stop, fun a n seen => ?_⟩
  · rw [moved, Nat.max_le, best.cursor, List.forall_mem_append, List.forall_mem_singleton]
  · rcases List.mem_append.mp member with old | new
    · exact next.starts t old
    · rw [List.mem_singleton.mp new]
      exact List.mem_append_right _ List.mem_cons_self
  · rw [moved]
    have first := next.first
    rw [kept] at first
    exact Nat.le_trans first (Nat.le_max_left _ _)
  · exact next.leads a n ⟨seen.some, seen.stop, fun t passed =>
      seen.apart t (List.mem_append_left _ passed)⟩

theorem Best.walk {rest : List (Nat × Nat)} : ∀ {g : Gap} {stops : List Nat} {done : List (Nat × Nat)},
    g.Best stops done → (rest.foldl Gap.walk g).Best (stops ++ rest.map Prod.fst) (done ++ rest) := by
  induction rest with
  | nil =>
      intro g stops done best
      rwa [List.map_nil, List.append_nil, List.append_nil]
  | cons span rest ih =>
      intro g stops done best
      have next := ih (best.step span)
      rwa [List.append_assoc, List.append_assoc] at next

theorem best_start : Best ⟨0, 0, 0⟩ [] [] where
  cursor _ := ⟨fun _ _ member => absurd member List.not_mem_nil, fun _ => Nat.zero_le _⟩
  starts _ member := absurd member List.not_mem_nil
  first := Nat.le_refl 0
  stop some := absurd some (Nat.lt_irrefl 0)
  leads _ _ seen := by
    obtain ⟨s, member, -⟩ := seen.stop
    cases member

theorem exists_bound (spans : List (Nat × Nat)) : ∃ size, ∀ t ∈ spans, t.1 ≤ size := by
  induction spans with
  | nil => exact ⟨0, fun t member => absurd member List.not_mem_nil⟩
  | cons s spans ih =>
      obtain ⟨size, inside⟩ := ih
      refine ⟨max s.1 size, List.forall_mem_cons.mpr ⟨Nat.le_max_left _ _, fun t member => ?_⟩⟩
      exact Nat.le_trans (inside t member) (Nat.le_max_right _ _)

/-- The gap that the walk over sorted spans ends with meets none of them. -/
theorem walk_apart {spans : List (Nat × Nat)} (order : spans.Pairwise fun a b => a.1 ≤ b.1) (n : Nat)
    (some : 0 < ((spans.foldl Gap.walk ⟨0, 0, 0⟩).upTo n).count) : ∀ t ∈ spans, SpanApart
      (((spans.foldl Gap.walk ⟨0, 0, 0⟩).upTo n).start, ((spans.foldl Gap.walk ⟨0, 0, 0⟩).upTo n).start +
        ((spans.foldl Gap.walk ⟨0, 0, 0⟩).upTo n).count) t := by
  obtain ⟨size, inside⟩ := exists_bound spans
  have begin : Gap.Passed size ⟨0, 0, 0⟩ [] spans :=
    ⟨fun _ member => absurd member List.not_mem_nil, fun some => absurd some (Nat.lt_irrefl 0),
      fun some => absurd some (Nat.lt_irrefl 0), fun some => absurd some (Nat.lt_irrefl 0)⟩
  have passed := begin.walk order inside
  rw [List.nil_append] at passed
  intro t member
  generalize spans.foldl Gap.walk ⟨0, 0, 0⟩ = g at passed some ⊢
  by_cases better : g.cursor < n ∧ g.count < n - g.cursor
  · have run : g.upTo n = ⟨g.cursor, g.cursor, n - g.cursor⟩ := if_pos better
    rw [run]
    exact .inr (passed.cursor t member)
  · have run : g.upTo n = g := if_neg better
    rw [run] at some ⊢
    exact passed.free some t member

end Gap

/-- A run behind the first 2048 sectors, on the disk and clear of all partitions. -/
structure FreeRun (size : Nat) (table : List MbrPart) (start count : Nat) : Prop where
  some : 0 < count
  aligned : 2048 ≤ start
  ends : start + count ≤ size
  apart : ∀ e ∈ table, e.Used → start + count ≤ e.startLba ∨ e.startLba + e.sectors ≤ start

/-- What mbr_largest_free is to return. -/
def LongestFree (size : Nat) (table : List MbrPart) : Option (Nat × Nat) → Prop
  | some (start, count) => FreeRun size table start count ∧ ∀ a n, FreeRun size table a n → n ≤ count
  | none => ∀ a n, ¬ FreeRun size table a n

/-- A run that ends at or before the end of the disk or the start of a partition,
and is clear of the partitions when their ends are taken modulo 2^32. -/
structure CountedRun (size : Nat) (table : List MbrPart) (start count : Nat) : Prop where
  some : 0 < count
  aligned : 2048 ≤ start
  ends : start + count ≤ size ∨ ∃ e ∈ table, e.Used ∧ start + count ≤ e.startLba
  apart : ∀ e ∈ table, e.Used → start + count ≤ e.startLba ∨ u32 (e.startLba + e.sectors) ≤ start

/-- Every counted run is free, or a free one is longer, or as long and before it. -/
def FreeRunsLead (size : Nat) (table : List MbrPart) : Prop := ∀ a n, CountedRun size table a n →
  FreeRun size table a n ∨ ∃ b m, FreeRun size table b m ∧ (n < m ∨ n = m ∧ b < a)

theorem FreeRun.counted {size : Nat} {table : List MbrPart} {a n : Nat} (free : FreeRun size table a n) :
    CountedRun size table a n :=
  ⟨free.some, free.aligned, .inl free.ends, fun e member used =>
    (free.apart e member used).imp id fun behind => Nat.le_trans (u32_le _) behind⟩

/-- The spans of the walk. -/
def tableSpans (table : List MbrPart) : List (Nat × Nat) :=
  (0, 2048) :: (table.filter fun e => decide e.Used).map fun e => (e.startLba, u32 (e.startLba + e.sectors))

theorem mem_tableSpans {table : List MbrPart} {t : Nat × Nat} : t ∈ tableSpans table ↔
    t = (0, 2048) ∨ ∃ e ∈ table, e.Used ∧ t = (e.startLba, u32 (e.startLba + e.sectors)) := by
  simp only [tableSpans, List.mem_cons, List.mem_map, List.mem_filter, decide_eq_true_eq, and_assoc,
    eq_comm (b := t)]

/-- The runs that the walk over the sorted spans sees. -/
theorem seen_iff_counted {size : Nat} {table : List MbrPart} {spans : List (Nat × Nat)} {a n : Nat}
    (members : ∀ t, t ∈ spans ↔ t ∈ tableSpans table) :
    Gap.Seen (spans.map Prod.fst ++ [size]) spans a n ↔ CountedRun size table a n := by
  constructor
  · intro seen
    have span (e : MbrPart) (member : e ∈ table) (used : e.Used) :
        (e.startLba, u32 (e.startLba + e.sectors)) ∈ spans :=
      (members _).mpr (mem_tableSpans.mpr (.inr ⟨e, member, used, rfl⟩))
    have some := seen.some
    refine ⟨some, ?_, ?_, fun e member used => seen.apart _ (span e member used)⟩
    · have first := seen.apart (0, 2048) ((members _).mpr (mem_tableSpans.mpr (.inl rfl)))
      simp only [SpanApart] at first
      omega
    · obtain ⟨s, stop, ends⟩ := seen.stop
      rcases List.mem_append.mp stop with start | last
      · obtain ⟨t, member, rfl⟩ := List.mem_map.mp start
        rcases mem_tableSpans.mp ((members t).mp member) with rfl | ⟨e, listed, used, rfl⟩
        · simp only at ends
          omega
        · exact .inr ⟨e, listed, used, ends⟩
      · rw [List.mem_singleton.mp last] at ends
        exact .inl ends
  · intro run
    refine ⟨run.some, ?_, fun t member => ?_⟩
    · rcases run.ends with ends | ⟨e, listed, used, ends⟩
      · exact ⟨size, by simp, ends⟩
      · exact ⟨e.startLba, List.mem_append_left _ (List.mem_map.mpr
          ⟨_, (members _).mpr (mem_tableSpans.mpr (.inr ⟨e, listed, used, rfl⟩)), rfl⟩), ends⟩
    · rcases mem_tableSpans.mp ((members t).mp member) with rfl | ⟨e, listed, used, rfl⟩
      · exact .inr run.aligned
      · exact run.apart e listed used

/-- mbr_largest_free finds the first of the longest counted runs. -/
theorem largestFree_counted {id : Nat} (raw : id < diskRawMax) {b : Blk} {table : List MbrPart}
    (read : tableOn (b.raws id) = some table) :
    (∃ start count, (mbrLargestFree id b).1 = some (start, count) ∧
      CountedRun (b.raws id).sectors table start count ∧
      ∀ a n, CountedRun (b.raws id).sectors table a n → n < count ∨ n = count ∧ start ≤ a) ∨
    (mbrLargestFree id b).1 = none ∧ ∀ a n, ¬ CountedRun (b.raws id).sectors table a n := by
  have present : (b.raws id).present = true := by
    by_contra absent
    have failed : ((b.raws id).read 0 1 fun _ => 0).1 < 0 := by
      simp only [Disk.read, if_neg absent]
      decide
    rw [tableOn, if_pos failed] at read
    cases read
  obtain ⟨order, members⟩ := sortSpans (tableSpans table)
  have walked : (((tableSpans table).foldl insertSpan []).foldl Gap.walk ⟨0, 0, 0⟩).Best _ _ := Gap.best_start.walk
  have best := walked.upTo (b.raws id).sectors
  rw [List.nil_append, List.nil_append] at best
  have apart := Gap.walk_apart order (b.raws id).sectors
  have result : (mbrLargestFree id b).1 =
      let g := (((tableSpans table).foldl insertSpan []).foldl Gap.walk ⟨0, 0, 0⟩).upTo (b.raws id).sectors
      if 0 < g.count then some (g.start, g.count) else none := by
    simp only [mbrLargestFree, Blk.present_raw raw, mbrRead_raw raw, read, present, Bool.true_eq_false,
      if_false]
    rfl
  generalize (((tableSpans table).foldl insertSpan []).foldl Gap.walk ⟨0, 0, 0⟩).upTo
    (b.raws id).sectors = g at best apart result
  have leads (a n : Nat) (run : CountedRun (b.raws id).sectors table a n) :=
    best.leads a n ((seen_iff_counted members).mpr run)
  by_cases found : 0 < g.count
  · refine .inl ⟨g.start, g.count, result.trans (if_pos found), ?_, leads⟩
    exact (seen_iff_counted members).mp ⟨found, best.stop found, apart found⟩
  · refine .inr ⟨result.trans (if_neg found), fun a n run => ?_⟩
    have some := run.some
    have := leads a n run
    omega

/-- mbr_largest_free returns a longest free run exactly when no run that it
counts by mistake comes first. -/
theorem largestFree_longest_iff {id : Nat} (raw : id < diskRawMax) {b : Blk} {table : List MbrPart}
    (read : tableOn (b.raws id) = some table) :
    LongestFree (b.raws id).sectors table (mbrLargestFree id b).1 ↔
      FreeRunsLead (b.raws id).sectors table := by
  rcases largestFree_counted raw read with ⟨start, count, result, found, leads⟩ | ⟨result, full⟩
  · rw [result]
    constructor
    · intro longest a n run
      obtain ⟨free, -⟩ := longest
      rcases leads a n run with less | ⟨same, before⟩
      · exact .inr ⟨start, count, free, .inl less⟩
      · rcases Nat.eq_or_lt_of_le before with rfl | before
        · rw [same]
          exact .inl free
        · exact .inr ⟨start, count, free, .inr ⟨same, before⟩⟩
    · intro lead
      rcases lead start count found with free | ⟨b', m, free, beats⟩
      · refine ⟨free, fun a n run => ?_⟩
        have := leads a n run.counted
        omega
      · exfalso
        have := leads b' m free.counted
        omega
  · rw [result]
    exact ⟨fun _ a n run => absurd run (full a n), fun _ a n free => full a n free.counted⟩

/-- Two partitions with a gap of 960 sectors between them. -/
theorem largestFree_between :
    LongestFree 4096 [⟨0, 0x0E, 2048, 40⟩, ⟨0, 0x0E, 3048, 1048⟩, .empty, .empty]
      (mbrLargestFree 0 (tabled [⟨0, 0x0E, 2048, 40⟩, ⟨0, 0x0E, 3048, 1048⟩])).1 := by
  apply (largestFree_longest_iff (b := tabled [⟨0, 0x0E, 2048, 40⟩, ⟨0, 0x0E, 3048, 1048⟩]) (by decide)
    (by decide +kernel)).mpr
  intro a n run
  refine .inl ⟨run.some, run.aligned, ?_, ?_⟩
  · rcases run.ends with ends | ⟨e, member, -, ends⟩
    · exact ends
    · have starts : ∀ e ∈ [⟨0, 0x0E, 2048, 40⟩, ⟨0, 0x0E, 3048, 1048⟩, MbrPart.empty, .empty],
          e.startLba ≤ 4096 := by decide
      exact Nat.le_trans ends (starts e member)
  · intro e member used
    have whole : ∀ e ∈ [⟨0, 0x0E, 2048, 40⟩, ⟨0, 0x0E, 3048, 1048⟩, MbrPart.empty, .empty],
        u32 (e.startLba + e.sectors) = e.startLba + e.sectors := by decide
    rw [← whole e member]
    exact run.apart e member used

/-- The second partition starts at 5000 on a disk of 4096 sectors: the gap before
it is taken whole. -/
theorem largestFree_leaves_disk :
    let table : List MbrPart := [⟨0, 0x0E, 3000, 40⟩, ⟨0, 0x0E, 5000, 40⟩, .empty, .empty]
    tableOn ((tabled table).raws 0) = some table ∧ ((tabled table).raws 0).sectors = 4096 ∧
      (mbrLargestFree 0 (tabled table)).1 = some (3040, 1960) ∧
      ¬ LongestFree 4096 table (mbrLargestFree 0 (tabled table)).1 := by
  have result : (mbrLargestFree 0 (tabled [⟨0, 0x0E, 3000, 40⟩, ⟨0, 0x0E, 5000, 40⟩, .empty, .empty])).1 =
      some (3040, 1960) := by decide +kernel
  refine ⟨by decide +kernel, rfl, result, fun longest => ?_⟩
  rw [result] at longest
  exact absurd longest.1.ends (by decide)

end Zenbite
