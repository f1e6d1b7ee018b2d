import Zenbite.Fat.Confine

/-! fs_write: the walk that grows the chain, on a disk that answers and on one that
may fail, and what each data access asks of the volume. -/

namespace Zenbite.Fat

open Memory VolState Chains

/-! Writing on a disk that answers. -/

/-- The `k`-th cluster that a write goes to, counted from the file's first. -/
def Layout.target (l : Layout) (f : Nat → Nat) (first k : Nat) : Option Nat :=
  if first = 0 then (l.free f)[k]? else reach (l.next f) (l.free f) k first

/-- A cluster of the data area that has an entry and can be linked to. -/
structure Layout.InData (l : Layout) (c : Nat) : Prop extends l.Proper c where
  onVolume : l.OnVolume c

/-- The first copy of the table is not under the second one or under data. -/
structure Layout.Regular (l : Layout) : Prop where
  separate : l.Separate
  below : l.fatLba + l.tableSectors ≤ l.dataLba

section Write
variable {l : Layout} {first : Nat}

theorem Layout.OnVolume.keeps {f : Nat → Nat} {s : VolState Disk} {c : Nat} (regular : l.Regular)
    (h : Tabled l f s) (on : l.OnVolume c) (buf data : Buffer) :
    Tabled l f (readCluster c buf s).2.2 ∧ (readCluster c buf s).1 = 0 ∧
      Tabled l f (writeCluster c data s).2 ∧ (writeCluster c data s).1 = 0 := by
  have used := h.useBuffer s.vol.clusterBytes clusterBuf
  have lba : l.fatLba + l.tableSectors ≤ s.vol.clusterToLba c := by
    rw [h.layout]
    exact regular.below.trans on.1
  refine ⟨used.read _ _ _, ?_, used.write lba _ _, ?_⟩
  · exact congrArg Prod.fst (Disk.read_faultless h.good _ _ _)
  · exact congrArg Prod.fst (Disk.write_faultless h.good _ _ _)

end Write

/-! Writing on a disk that may fail: a failed lookup ends the chain early, and any
free cluster may be linked in there. -/

/-- From `c`, at most `n` steps lead to clusters of the data area only. -/
def Layout.Within (l : Layout) (g : Nat → Nat) (n c : Nat) : Prop :=
  ∀ k d, k ≤ n → reach (l.next g) [] k c = some d → l.InData d

/-- A table whose free clusters are clusters of the data area. -/
structure Stocked (l : Layout) (g : Nat → Nat) (s : VolState Disk) : Prop extends Mapped l g s where
  free : ∀ a ∈ l.free g, l.InData a

/-- What linking in `a` may do to a table: chains end, or go on to `a` and end there. -/
structure Layout.Relinked (l : Layout) (g h : Nat → Nat) (a : Nat) : Prop where
  next : ∀ x, l.next h x = l.next g x ∨ l.next h x = none ∨ l.next h x = some a
  ends : l.next h a = none
  free : ∀ x ∈ l.free h, x ∈ l.free g

section Faults
variable {l : Layout} {g h : Nat → Nat} {a c n : Nat} {s : VolState Disk}

theorem Layout.Within.relinked (within : l.Within g n c) (relinked : l.Relinked g h a)
    (data : l.InData a) : l.Within h n c := by
  intro k
  induction k generalizing n c with
  | zero => exact fun d le met => within 0 d le met
  | succ k ih =>
      intro d le met
      rw [reach] at met
      rcases relinked.next c with same | stop | on
      · cases step : l.next g c with
        | none =>
            rw [same, step] at met
            cases met
        | some b =>
            rw [same, step] at met
            refine ih (n := n - 1) (fun j e low found => ?_) d (by omega) met
            exact within (j + 1) e (by omega) (by rw [reach, step]; exact found)
      · rw [stop] at met
        cases met
      · rw [on] at met
        cases k with
        | zero => exact Option.some.inj met ▸ data
        | succ k =>
            simp only [reach, relinked.ends] at met
            cases met

theorem Layout.Within.last (data : l.InData a) (ends : l.next g a = none) (n : Nat) :
    l.Within g n a := by
  intro k d _ met
  cases k with
  | zero => exact Option.some.inj met ▸ data
  | succ k =>
      simp only [reach, ends] at met
      cases met

theorem Mapped.alloc (held : Mapped l g s) :
    (allocCluster s).1 = 0 ∧ Mapped l g (allocCluster s).2 ∨
      ∃ a ∈ l.free g, (allocCluster s).1 = a ∧
        Mapped l (Function.update g a l.fatEof) (allocCluster s).2 := by
  have noted {h : Nat → Nat} {u : VolState Disk} (held : Mapped l h u) (x : List Nat) :
      Mapped l h { u with taken := x } := held.spared rfl rfl rfl rfl rfl fun _ _ => rfl
  obtain rfl := held.layout
  rcases Nat.lt_or_ge s.vol.maxCluster 2 with none | some
  · have run : allocFrom (s.vol.maxCluster - 2) 2 s = (0, s) := by
      rw [Nat.sub_eq_zero_of_le none.le]
      rfl
    simp only [allocCluster, run]
    exact .inl ⟨trivial, noted held _⟩
  · rcases allocFrom_rule s.vol.maxCluster (fun c s bound held => (held.get bound).1)
      (s.vol.maxCluster - 2) 2 s (by omega) held with ⟨a, u, low, high, kept, zero, run, -⟩ |
      ⟨u, kept, run, -⟩
    · have entry : a < s.vol.maxCluster := by omega
      obtain ⟨got, -, value⟩ := kept.get entry
      have value := value.resolve_right fun fault => by
        have := s.vol.fatEof_pos
        omega
      have filled := (got.set entry s.vol.fatEof_bits).2.resolve_right fun fault => fault.2.1 value.2
      simp only [allocCluster, run, got.layout]
      refine .inr ⟨a, Layout.mem_free.mpr ⟨low, entry, value.1.symm.trans zero⟩, rfl, ?_⟩
      exact noted filled _
    · simp only [allocCluster, run]
      exact .inl ⟨trivial, noted kept _⟩

/-- The body of the walk where the chain ends or cannot be followed. -/
theorem Stocked.grow (stocked : Stocked l g s) (entry : c < l.maxCluster)
    (used : g c ≠ 0) (past : l.fatEof ≤ (fatGet c s).1) (n : Nat) :
    (walkExtend (n + 1) c s).1 = none ∧ Stocked l g (walkExtend (n + 1) c s).2 ∨
      ∃ a h t, l.InData a ∧ walkExtend (n + 1) c s = walkExtend n a t ∧ Stocked l h t ∧
        l.Relinked g h a := by
  obtain ⟨got, -, -⟩ := stocked.toMapped.get entry
  have past' : (fatGet c s).2.vol.fatEof ≤ (fatGet c s).1 := by rw [got.layout]; exact past
  rcases got.alloc with ⟨zero, kept⟩ | ⟨a, free, taken, kept⟩
  · have run : Fat.walkExtend (n + 1) c s = (none, (allocCluster (fatGet c s).2).2) :=
      (if_pos past').trans (if_pos zero)
    rw [run]
    exact .inl ⟨rfl, kept, stocked.free⟩
  · right
    have data := stocked.free a free
    have apart : c ≠ a := fun same => used (same ▸ (Layout.mem_free.mp free).2.2)
    have some := l.fatEof_pos
    have run : Fat.walkExtend (n + 1) c s = Fat.walkExtend n a
        (fatSet a l.fatEof (fatSet c a (allocCluster (fatGet c s).2).2)) := by
      have layout := ((kept.set entry (data.link.trans l.fatEof_bits)).1.layout).trans kept.layout
      have run : Fat.walkExtend (n + 1) c s = _ := (if_pos past').trans (if_neg (by have := data.low; omega))
      rw [run, taken]
      dsimp only
      rw [layout]
    -- the link from `c` may be missing
    have linked : ∃ h, Mapped l h (fatSet c a (allocCluster (fatGet c s).2).2) ∧ h a = l.fatEof ∧
        ∀ x, x ≠ a → h x = g x ∨ x = c ∧ h x = a := by
      rcases (kept.set entry (data.link.trans l.fatEof_bits)).2 with linked | ⟨-, -, unlinked⟩
      · refine ⟨_, linked, by rw [Function.update_of_ne apart.symm, Function.update_self], fun x other => ?_⟩
        by_cases here : x = c
        · exact .inr ⟨here, by rw [here, Function.update_self]⟩
        · exact .inl (by rw [Function.update_of_ne here, Function.update_of_ne other])
      · exact ⟨_, unlinked, Function.update_self _ _ _, fun x other => .inl (Function.update_of_ne other _ _)⟩
    obtain ⟨h, held, ends, others⟩ := linked
    have again : Mapped l h (fatSet a l.fatEof (fatSet c a (allocCluster (fatGet c s).2).2)) := by
      rcases (held.set data.entry l.fatEof_bits).2 with set | ⟨-, -, same⟩
      · rw [← ends, Function.update_eq_self] at set
        rwa [ends] at set
      · exact same
    have free (x : Nat) (member : x ∈ l.free h) : x ∈ l.free g := by
      obtain ⟨low, high, zero⟩ := Layout.mem_free.mp member
      have other : x ≠ a := by
        rintro rfl
        omega
      rcases others x other with same | ⟨-, link⟩
      · exact Layout.mem_free.mpr ⟨low, high, same ▸ zero⟩
      · have := data.low
        omega
    refine ⟨a, h, _, data, run, ⟨again, fun x member => stocked.free x (free x member)⟩, ?_, ?_, free⟩
    · intro x
      by_cases here : x = a
      · exact .inr (.inl (Layout.next_none (by rw [here, ends])))
      · rcases others x here with same | ⟨-, link⟩
        · exact .inl (by rw [Layout.next, Layout.next, same])
        · exact .inr (.inr (by rw [Layout.next_some (by rw [link]; exact data.link), link]))
    · exact Layout.next_none ends.ge

theorem Stocked.walkExtend : ∀ n c g s, Stocked l g s → l.Within g n c →
    ∃ h, Stocked l h (walkExtend n c s).2 ∧
      (∀ first m, l.Within g m first → l.Within h m first) ∧
      ∀ d, (Fat.walkExtend n c s).1 = some d → l.InData d := by
  intro n
  induction n with
  | zero =>
      intro c g s stocked within
      refine ⟨g, stocked, fun _ _ same => same, fun d met => ?_⟩
      exact within 0 d le_rfl met
  | succ n ih =>
      intro c g s stocked within
      have here := within 0 c (Nat.zero_le _) rfl
      have used : g c ≠ 0 := by
        intro zero
        have step : l.next g c = some 0 := Layout.next_eq_some.mpr ⟨zero ▸ l.fatEof_pos, zero⟩
        have bad := within 1 0 (by omega) (by rw [reach, step]; rfl)
        exact absurd bad.low (by decide)
      obtain ⟨held, -, value⟩ := stocked.toMapped.get here.entry
      by_cases past : l.fatEof ≤ (fatGet c s).1
      · rcases stocked.grow here.entry used past n with ⟨none, kept⟩ | ⟨a, h, t, data, run, more, relinked⟩
        · rw [none]
          exact ⟨g, kept, fun _ _ same => same, fun d met => by cases met⟩
        · obtain ⟨k, after, keeps, result⟩ := ih a h t more (.last data relinked.ends n)
          rw [run]
          exact ⟨k, after, fun first m same => keeps first m (same.relinked relinked data), result⟩
      · have on := value.resolve_right fun fault => past fault.2
        have run : Fat.walkExtend (n + 1) c s = Fat.walkExtend n (g c) (fatGet c s).2 := by
          rw [← on.1]
          exact if_neg (by rw [held.layout]; exact past)
        rw [on.1] at past
        have step : l.next g c = some (g c) := Layout.next_some (Nat.not_le.mp past)
        rw [run]
        refine ih (g c) g _ ⟨held, stocked.free⟩ fun k d le met => ?_
        exact within (k + 1) d (by omega) (by rw [reach, step]; exact met)

theorem Stocked.write (stocked : Stocked l g s) (regular : l.Regular) (on : l.OnVolume c)
    (buf : Buffer) : Stocked l g (writeCluster c buf s).2 := by
  have lba : l.fatLba + l.tableSectors ≤ s.vol.clusterToLba c := by
    rw [stocked.layout]
    exact regular.below.trans on.1
  refine ⟨stocked.spared (t := (writeCluster c buf s).2) rfl rfl rfl rfl rfl fun a low => ?_, stocked.free⟩
  exact Disk.write_outside _ _ _ _ (.inl (low.trans_le (Nat.mul_le_mul_right _ lba)))

theorem Stocked.read (stocked : Stocked l g s) (c : Nat) (buf : Buffer) :
    Stocked l g (readCluster c buf s).2.2 :=
  ⟨stocked.spared (t := (readCluster c buf s).2.2) rfl rfl rfl rfl rfl
    fun a _ => congrFun (s.disk.read_keeps _ _ _).2.2.2 a, stocked.free⟩

end Faults

/-! Each call on a volume with nothing to write back. -/

/-- A volume whose table can be read and whose cache is clean. -/
structure AtRest (s : VolState Disk) : Prop extends TableRead s where
  clean : s.vol.fatCdirty = false
  present : s.disk.present = true

theorem Mounted.atRest {s : VolState Disk} (mounted : Mounted s) (present : s.disk.present = true) :
    AtRest s := ⟨mounted.tableRead, mounted.cdirty, present⟩

section Calls
variable {l : Layout} {s : VolState Disk}

theorem AtRest.settled (rest : AtRest s) : Settled s :=
  ⟨rest.accepted, rest.clean, rest.coherent.clean rest.clean⟩

theorem AtRest.mapped (rest : AtRest s) (separate : s.vol.Separate) : Mapped s.vol.toLayout s.fatMap s :=
  ⟨rfl, ⟨rest.toTableRead, separate⟩, fun _ _ => rfl⟩

theorem firstFor_some {first : Nat} (some : first ≠ 0) : firstFor first s = (first, s) := if_neg some

/-- Where there is no first cluster yet, the free ones are the targets in order. -/
theorem Tabled.first {f : Nat → Nat} (h : Tabled l f s) (first : Nat) :
    l.target f first 0 = none ∧ (firstFor first s).1 = 0 ∨
      ∃ a g, l.target f first 0 = some a ∧ (firstFor first s).1 = a ∧ a ≠ 0 ∧
        Tabled l g (firstFor first s).2 ∧
        ∀ k, reach (l.next g) (l.free g) k a = l.target f first k := by
  by_cases empty : first = 0
  · subst empty
    have run : firstFor 0 s = allocCluster s := rfl
    rw [run]
    simp only [Layout.target, if_true]
    rcases h.alloc with ⟨none, zero, -⟩ | ⟨a, rest, some, taken, tabled, -⟩
    · exact .inl ⟨by rw [none]; rfl, zero⟩
    · have low := (Layout.mem_free.mp (some ▸ List.mem_cons_self : a ∈ l.free f)).1
      have free := Layout.free_take some (g := Function.update f a l.fatEof)
        (by rw [Function.update_self]; exact l.fatEof_pos.ne') fun x other => by
          rw [Function.update_of_ne other]
      refine .inr ⟨a, _, by rw [some]; rfl, taken, by omega, tabled, fun k => ?_⟩
      rw [free, some]
      cases k with
      | zero => rfl
      | succ k =>
          rw [reach, Layout.next_none (Function.update_self a l.fatEof f).ge]
          rfl
  · rw [firstFor_some empty]
    simp only [Layout.target, if_neg empty]
    exact .inr ⟨first, f, rfl, rfl, empty, h, fun _ => rfl⟩

end Calls

end Zenbite.Fat
