import Zenbite.Lib.Chains
import Zenbite.Fat.Alloc
import Zenbite.Fat.File

/-! The table on a disk that answers, as a plain map of the entries below
max_cluster: looking up, setting, allocating, freeing and walking a chain. -/

namespace Zenbite.Fat

open Memory VolState Chains

/-- What work on the table and its two copies leaves alone. -/
structure TableOnly (s t : VolState Disk) : Prop where
  layout : t.vol.toLayout = s.vol.toLayout
  diskId : t.vol.diskId = s.vol.diskId
  root : t.vol.root = s.vol.root
  cwdIsRoot : t.vol.cwdIsRoot = s.vol.cwdIsRoot
  cwdCluster : t.vol.cwdCluster = s.vol.cwdCluster
  cwdPath : t.vol.cwdPath = s.vol.cwdPath
  bytes : ∀ a, ¬ s.vol.TableSector (a / sectorSize) → t.disk.bytes a = s.disk.bytes a

theorem TableOnly.refl (s : VolState Disk) : TableOnly s s :=
  ⟨rfl, rfl, rfl, rfl, rfl, rfl, fun _ _ => rfl⟩

theorem TableOnly.trans {s t u : VolState Disk} (first : TableOnly s t) (second : TableOnly t u) :
    TableOnly s u where
  layout := second.layout.trans first.layout
  diskId := second.diskId.trans first.diskId
  root := second.root.trans first.root
  cwdIsRoot := second.cwdIsRoot.trans first.cwdIsRoot
  cwdCluster := second.cwdCluster.trans first.cwdCluster
  cwdPath := second.cwdPath.trans first.cwdPath
  bytes := fun a outside =>
    (second.bytes a (by rw [first.layout]; exact outside)).trans (first.bytes a outside)

theorem TableFrame.only {s t : VolState Disk} (frame : TableFrame s t) : TableOnly s t :=
  ⟨frame.layout, frame.diskId, frame.root, frame.cwdIsRoot, frame.cwdCluster, frame.cwdPath,
    frame.bytes⟩

/-- A state of a volume whose table holds `f`. -/
structure Mapped (l : Layout) (f : Nat → Nat) (s : VolState Disk) : Prop where
  layout : s.vol.toLayout = l
  ok : TableOk s
  map : ∀ c, c < l.maxCluster → s.fatMap c = f c

/-- The same on a disk that answers. -/
structure Tabled (l : Layout) (f : Nat → Nat) (s : VolState Disk) : Prop extends Mapped l f s where
  good : s.disk.Faultless

/-- A cluster with an entry of its own, whose number can be linked to. -/
structure Layout.Proper (l : Layout) (c : Nat) : Prop where
  low : 2 ≤ c
  entry : c < l.maxCluster
  link : c < l.fatEof

/-- The successor of a cluster. -/
def Layout.next (l : Layout) (f : Nat → Nat) (c : Nat) : Option Nat :=
  if l.fatEof ≤ f c then none else some (f c)

/-- The free clusters in the order in which alloc_cluster takes them. -/
def Layout.free (l : Layout) (f : Nat → Nat) : List Nat :=
  (List.range' 2 (l.maxCluster - 2)).filter fun c => f c = 0

namespace Layout
variable {l : Layout} {f : Nat → Nat} {a b c x : Nat}

theorem next_none (stop : l.fatEof ≤ f c) : l.next f c = none := if_pos stop

theorem next_some (on : f c < l.fatEof) : l.next f c = some (f c) := if_neg (Nat.not_le.mpr on)

theorem next_eq_none : l.next f c = none ↔ l.fatEof ≤ f c := by
  simp only [next, ite_eq_left_iff, reduceCtorEq, imp_false, Decidable.not_not]

theorem next_eq_some : l.next f c = some x ↔ f c < l.fatEof ∧ f c = x := by
  rw [next, Option.ite_none_left_eq_some, Nat.not_le, Option.some_inj]

theorem fatEof_pos (l : Layout) : 0 < l.fatEof := by
  simp only [fatEof]
  split <;> decide

theorem fatEof_bits (l : Layout) : l.fatEof < 2 ^ valueBits l.kind := by
  simp only [fatEof]
  cases l.kind <;> decide

theorem mem_free : a ∈ l.free f ↔ 2 ≤ a ∧ a < l.maxCluster ∧ f a = 0 := by
  simp only [free, List.mem_filter, List.mem_range'_1, decide_eq_true_eq]
  omega

/-- Linking a fresh cluster in the map links it in the chains. -/
theorem next_append (low : b < l.fatEof) :
    l.next (Function.update (Function.update f c b) b l.fatEof) = append (l.next f) c b := by
  funext x
  simp only [append, next, Function.update_apply]
  split
  · rw [if_pos (Nat.le_refl _)]
  · split
    · rw [if_neg (Nat.not_le.mpr low)]
    · rfl

/-- Filling the first free entry leaves the others. -/
theorem free_take {rest : List Nat} {g : Nat → Nat} (first : l.free f = a :: rest) (full : g a ≠ 0)
    (others : ∀ x, x ≠ a → (g x = 0 ↔ f x = 0)) : l.free g = rest := by
  have distinct : (l.free f).Nodup := List.Nodup.filter _ List.nodup_range'
  have same : l.free g = (l.free f).filter fun x => x ≠ a := by
    rw [free, free, List.filter_filter]
    apply List.filter_congr
    intro x _
    by_cases here : x = a
    · simp [here, full]
    · simp [here, others x here]
  rw [first, List.nodup_cons] at distinct
  rw [same, first, List.filter_cons_of_neg (by simp)]
  apply List.filter_eq_self.mpr
  intro x member
  simpa using fun same : x = a => distinct.1 (same ▸ member)

end Layout

/-- Changes that spare the cache and the first copy leave the map. -/
theorem Mapped.spared {l : Layout} {f : Nat → Nat} {s t : VolState Disk} (h : Mapped l f s)
    (layout : t.vol.toLayout = s.vol.toLayout) (fat : t.vol.fat = s.vol.fat) (cbuf : t.vol.fatCbuf = s.vol.fatCbuf)
    (csec : t.vol.fatCsec = s.vol.fatCsec) (cdirty : t.vol.fatCdirty = s.vol.fatCdirty)
    (bytes : ∀ a, a < (l.fatLba + l.tableSectors) * sectorSize → t.disk.bytes a = s.disk.bytes a) :
    Mapped l f t := by
  have sector (sec : Nat) (low : sec < s.vol.tableSectors) (i : Nat) (inside : i < sectorSize) :
      t.disk.bytes (u32 (s.vol.fatLba + sec) * sectorSize + i) =
        s.disk.bytes (u32 (s.vol.fatLba + sec) * sectorSize + i) := by
    apply bytes
    rw [u32_of_lt (h.ok.accepted.lba_lt low)]
    rw [h.layout] at low ⊢
    simp only [sectorSize] at inside ⊢
    omega
  have cached : t.CacheBound := by
    have old := h.ok.coherent.cached
    rwa [CacheBound, ← csec, ← cdirty, ← layout] at old
  have coherent : t.Coherent := by
    refine ⟨cached, fun clean held i inside => ?_⟩
    rw [cdirty] at clean
    rw [csec] at held
    have low := h.ok.coherent.cached.resolve_left fun empty => held empty.1
    rw [cbuf, csec, layout, sector _ low i inside]
    exact h.ok.coherent.clean clean held i inside
  refine ⟨layout.trans h.layout, h.ok.next layout coherent fun kind => ?_, fun c bound => ?_⟩
  · rw [csec]
    exact h.ok.idle kind
  · rw [← h.map c bound, fatMap, fatMap, rawFat, rawFat, fat, layout]
    congr 1
    rw [← h.layout] at bound
    refine rawEntry_congr h.ok.accepted bound (fun _ _ _ => rfl) fun _ sec low i inside => ?_
    by_cases held : s.vol.fatCsec = sec
    · rw [fatSector_held held, fatSector_held (csec.trans held), cbuf]
    · rw [fatSector_stored held, fatSector_stored (by rw [csec]; exact held), layout]
      exact sector sec low i inside

namespace Mapped
variable {l : Layout} {g : Nat → Nat} {c : Nat} {s : VolState Disk}

/-- A failed lookup reads as the end of the chain. -/
theorem get (held : Mapped l g s) (bound : c < l.maxCluster) : Mapped l g (fatGet c s).2 ∧
    TableFrame s (fatGet c s).2 ∧ ((fatGet c s).1 = g c ∧ Held c (fatGet c s).2 ∨
      ¬ s.disk.Faultless ∧ l.fatEof ≤ (fatGet c s).1) := by
  have inside : c < s.vol.maxCluster := by rw [held.layout]; exact bound
  obtain ⟨frame, ok, same, value⟩ := fatGet_spec held.ok inside
  have map (d : Nat) (low : d < l.maxCluster) : (fatGet c s).2.fatMap d = g d := by
    rw [fatMap, same d (by rw [held.layout]; exact low), frame.layout]
    exact held.map d low
  rw [held.layout] at value
  exact ⟨⟨frame.layout.trans held.layout, ok, map⟩, frame,
    value.imp_left fun value => ⟨value.1.trans (held.map c bound), value.2⟩⟩

/-- A set takes effect or, where the sector cannot be loaded, does nothing. -/
theorem set (held : Mapped l g s) (bound : c < l.maxCluster) {x : Nat}
    (low : x < 2 ^ valueBits l.kind) : TableFrame s (fatSet c x s) ∧
      (Mapped l (Function.update g c x) (fatSet c x s) ∨
        ¬ s.disk.Faultless ∧ ¬ Held c s ∧ Mapped l g (fatSet c x s)) := by
  have inside : c < s.vol.maxCluster := by rw [held.layout]; exact bound
  obtain ⟨frame, ok, others, value⟩ := fatSet_spec held.ok inside x
  have other (d : Nat) (low : d < l.maxCluster) (apart : d ≠ c) : (fatSet c x s).fatMap d = g d := by
    rw [fatMap, frame.layout, others d (by rw [held.layout]; exact low) apart]
    exact held.map d low
  refine ⟨frame, ?_⟩
  rcases value with value | ⟨faulty, unheld, value⟩
  · refine .inl ⟨frame.layout.trans held.layout, ok, fun d small => ?_⟩
    by_cases here : d = c
    · rw [here, Function.update_self, fatMap, frame.layout, value, storeRaw_value, held.layout,
        Nat.mod_eq_of_lt low]
    · rw [Function.update_of_ne here]
      exact other d small here
  · refine .inr ⟨faulty, unheld, frame.layout.trans held.layout, ok, fun d small => ?_⟩
    by_cases here : d = c
    · rw [here, fatMap, frame.layout, value]
      exact held.map c bound
    · exact other d small here

end Mapped

namespace Tabled
variable {l : Layout} {f : Nat → Nat} {s t : VolState Disk} {c : Nat}

theorem get (h : Tabled l f s) (bound : c < l.maxCluster) :
    (fatGet c s).1 = f c ∧ Tabled l f (fatGet c s).2 ∧ TableOnly s (fatGet c s).2 := by
  obtain ⟨held, frame, value⟩ := h.toMapped.get bound
  exact ⟨(value.resolve_right fun fault => fault.1 h.good).1, ⟨held, frame.faultless h.good⟩, frame.only⟩

theorem set (h : Tabled l f s) (bound : c < l.maxCluster) {x : Nat} (low : x < 2 ^ valueBits l.kind) :
    Tabled l (Function.update f c x) (fatSet c x s) ∧ TableOnly s (fatSet c x s) := by
  obtain ⟨frame, stored⟩ := h.toMapped.set bound low
  exact ⟨⟨stored.resolve_right fun fault => fault.1 h.good, frame.faultless h.good⟩, frame.only⟩

theorem flush (h : Tabled l f s) : Tabled l f (flushFat s).2 ∧ TableOnly s (flushFat s).2 := by
  obtain ⟨frame, ok, same⟩ := flushFat_spec h.ok
  refine ⟨⟨⟨frame.layout.trans h.layout, ok, fun d low => ?_⟩, frame.faultless h.good⟩, frame.only⟩
  rw [fatMap, same d (by rw [h.layout]; exact low), frame.layout]
  exact h.map d low

theorem spared (h : Tabled l f s) (layout : t.vol.toLayout = s.vol.toLayout)
    (fat : t.vol.fat = s.vol.fat) (cbuf : t.vol.fatCbuf = s.vol.fatCbuf)
    (csec : t.vol.fatCsec = s.vol.fatCsec) (cdirty : t.vol.fatCdirty = s.vol.fatCdirty)
    (good : t.disk.Faultless)
    (bytes : ∀ a, a < (l.fatLba + l.tableSectors) * sectorSize → t.disk.bytes a = s.disk.bytes a) :
    Tabled l f t :=
  ⟨h.toMapped.spared layout fat cbuf csec cdirty bytes, good⟩

/-- A disk write behind the first copy. -/
theorem write (h : Tabled l f s) {lba : Nat} (behind : l.fatLba + l.tableSectors ≤ lba) (count : Nat)
    (buf : Buffer) : Tabled l f (s.diskWrite lba count buf).2 := by
  apply h.spared (t := (s.diskWrite lba count buf).2) rfl rfl rfl rfl rfl (h.good.write lba count buf)
  intro a low
  apply Disk.write_outside
  left
  exact lt_of_lt_of_le low (Nat.mul_le_mul_right _ behind)

theorem read (h : Tabled l f s) (lba count : Nat) (buf : Buffer) :
    Tabled l f (s.diskRead lba count buf).2.2 := by
  apply h.spared (t := (s.diskRead lba count buf).2.2) rfl rfl rfl rfl rfl
    (h.good.read lba count buf)
  intro a _
  exact congrFun (s.disk.read_keeps lba count buf).2.2.2 a

theorem useBuffer (h : Tabled l f s) (n size : Nat) : Tabled l f (s.useBuffer n size) :=
  h.spared rfl rfl rfl rfl rfl h.good fun _ _ => rfl

/-! alloc_cluster. -/

theorem allocFrom : ∀ n c, (∀ d, c ≤ d → d < c + n → d < l.maxCluster) → ∀ s, Tabled l f s →
    (((List.range' c n).filter fun d => f d = 0) = [] ∧ (allocFrom n c s).1 = 0 ∧
        Tabled l f (Fat.allocFrom n c s).2 ∧ TableOnly s (Fat.allocFrom n c s).2) ∨
      ∃ a rest, ((List.range' c n).filter fun d => f d = 0) = a :: rest ∧
        (Fat.allocFrom n c s).1 = a ∧
        Tabled l (Function.update f a l.fatEof) (Fat.allocFrom n c s).2 ∧
        TableOnly s (Fat.allocFrom n c s).2 := by
  intro n
  induction n with
  | zero => exact fun c _ s h => .inl ⟨rfl, rfl, h, .refl s⟩
  | succ n ih =>
      intro c bound s h
      obtain ⟨value, got, only⟩ := h.get (bound c le_rfl (by omega))
      by_cases free : f c = 0
      · right
        have run : Fat.allocFrom (n + 1) c s =
            (c, fatSet c (fatGet c s).2.vol.fatEof (fatGet c s).2) := if_pos (value.trans free)
        rw [got.layout] at run
        have inside := bound c le_rfl (by omega)
        obtain ⟨filled, stored⟩ := got.set inside l.fatEof_bits
        refine ⟨c, _, List.filter_cons_of_pos (by simpa using free), ?_⟩
        rw [run]
        exact ⟨rfl, filled, only.trans stored⟩
      · have run : Fat.allocFrom (n + 1) c s = Fat.allocFrom n (c + 1) (fatGet c s).2 :=
          if_neg (by rw [value]; exact free)
        rw [run, List.range'_succ, List.filter_cons_of_neg (by simpa using free)]
        rcases ih (c + 1) (fun d low high => bound d (by omega) (by omega)) _ got with ⟨none, zero, tabled, rest⟩ |
          ⟨a, others, some, taken, tabled, rest⟩
        · exact .inl ⟨none, zero, tabled, only.trans rest⟩
        · exact .inr ⟨a, others, some, taken, tabled, only.trans rest⟩

theorem alloc (h : Tabled l f s) :
    (l.free f = [] ∧ (allocCluster s).1 = 0 ∧ Tabled l f (allocCluster s).2 ∧
        TableOnly s (allocCluster s).2) ∨
      ∃ a rest, l.free f = a :: rest ∧ (allocCluster s).1 = a ∧
        Tabled l (Function.update f a l.fatEof) (allocCluster s).2 ∧
        TableOnly s (allocCluster s).2 := by
  obtain rfl := h.layout
  have noted {g : Nat → Nat} {u : VolState Disk} (held : Tabled s.vol.toLayout g u) (x : List Nat) :
      Tabled s.vol.toLayout g { u with taken := x } :=
    held.spared rfl rfl rfl rfl rfl held.good fun _ _ => rfl
  have only (u : VolState Disk) (left : TableOnly s u) (x : List Nat) :
      TableOnly s { u with taken := x } :=
    ⟨left.layout, left.diskId, left.root, left.cwdIsRoot, left.cwdCluster, left.cwdPath, left.bytes⟩
  rcases allocFrom (s.vol.maxCluster - 2) 2 (fun _ _ _ => by omega) s h with
    ⟨none, zero, tabled, left⟩ | ⟨a, rest, some, taken, tabled, left⟩
  · exact .inl ⟨none, zero, noted tabled _, only _ left _⟩
  · exact .inr ⟨a, rest, some, taken, noted tabled _, only _ left _⟩

/-! free_chain. -/

theorem freeFrom {first : Nat} {chain : List Nat} (linked : Chain (l.next f) first chain) :
    (∀ c ∈ chain, l.Proper c) → ∀ n, chain.length ≤ n → ∀ g s, (∀ c ∈ chain, g c = f c) →
      Tabled l g s → Tabled l (fun c => if c ∈ chain then 0 else g c) (Fat.freeFrom n first s) ∧
        TableOnly s (Fat.freeFrom n first s) := by
  have erase {c : Nat} (proper : l.Proper c) (n : Nat) {g : Nat → Nat} {s : VolState Disk}
      (h : Tabled l g s) : Fat.freeFrom (n + 1) c s = Fat.freeFrom n (g c) (fatSet c 0 (fatGet c s).2) ∧
        Tabled l (Function.update g c 0) (fatSet c 0 (fatGet c s).2) ∧
        TableOnly s (fatSet c 0 (fatGet c s).2) := by
    obtain ⟨value, got, only⟩ := h.get proper.entry
    obtain ⟨erased, stored⟩ := got.set proper.entry (x := 0) (Nat.two_pow_pos _)
    refine ⟨?_, erased, only.trans stored⟩
    rw [← value]
    exact if_pos ⟨proper.low, by rw [h.layout]; exact proper.link⟩
  induction linked with
  | @last c stop =>
      intro proper n long g s same h
      obtain ⟨n, rfl⟩ : ∃ k, n = k + 1 := ⟨n - 1, by rw [List.length_singleton] at long; omega⟩
      obtain ⟨run, erased, only⟩ := erase (proper c List.mem_cons_self) n h
      have ends : l.fatEof ≤ g c := by
        rw [same c List.mem_cons_self]
        exact Layout.next_eq_none.mp stop
      have done : Fat.freeFrom n (g c) (fatSet c 0 (fatGet c s).2) = fatSet c 0 (fatGet c s).2 := by
        cases n with
        | zero => rfl
        | succ n => exact if_neg fun on => absurd on.2 (by rw [erased.layout]; exact Nat.not_lt.mpr ends)
      rw [run, done]
      refine ⟨?_, only⟩
      convert erased using 2 with x
      simp only [List.mem_singleton, Function.update_apply]
  | @link c d rest step chain ih =>
      intro proper n long g s same h
      obtain ⟨n, rfl⟩ : ∃ k, n = k + 1 := ⟨n - 1, by rw [List.length_cons] at long; omega⟩
      obtain ⟨run, erased, only⟩ := erase (proper c List.mem_cons_self) n h
      have next : g c = d := (same c List.mem_cons_self).trans (Layout.next_eq_some.mp step).2
      have distinct := (Chain.link step chain).nodup
      rw [List.nodup_cons] at distinct
      obtain ⟨freed, after⟩ := ih (fun x member => proper x (List.mem_cons_of_mem c member)) n
        (by rw [List.length_cons] at long; omega) _ _ (fun x member => by
          have other : x ≠ c := fun here => distinct.1 (here ▸ member)
          rw [Function.update_of_ne other]
          exact same x (List.mem_cons_of_mem c member)) erased
      rw [run, next]
      refine ⟨?_, only.trans after⟩
      convert freed using 2 with x
      by_cases here : x = c
      · simp [here]
      · simp [here, Function.update_of_ne]

/-! Walking along a chain that grows at its end. -/

/-- The body of the walk where the chain ends: a free cluster is linked in, or
there is none. -/
theorem grow (h : Tabled l f s) (entry : c < l.maxCluster) (stop : l.fatEof ≤ f c) (n : Nat)
    (links : ∀ a, (l.free f).head? = some a → a < l.fatEof) :
    (l.free f = [] ∧ (walkExtend (n + 1) c s).1 = none ∧ Tabled l f (walkExtend (n + 1) c s).2 ∧
        TableOnly s (walkExtend (n + 1) c s).2) ∨
      ∃ a rest t, l.free f = a :: rest ∧ walkExtend (n + 1) c s = walkExtend n a t ∧
        Tabled l (Function.update (Function.update f c a) a l.fatEof) t ∧ TableOnly s t := by
  obtain ⟨value, got, only⟩ := h.get entry
  have ends : (fatGet c s).2.vol.fatEof ≤ (fatGet c s).1 := by
    rw [value, got.layout]
    exact stop
  rcases got.alloc with ⟨full, zero, tabled, left⟩ | ⟨a, rest, some, taken, tabled, left⟩
  · left
    have run : walkExtend (n + 1) c s = (none, (allocCluster (fatGet c s).2).2) :=
      (if_pos ends).trans (if_pos zero)
    rw [run]
    exact ⟨full, rfl, tabled, only.trans left⟩
  · right
    obtain ⟨low, inside, -⟩ := Layout.mem_free.mp (some ▸ List.mem_cons_self : a ∈ l.free f)
    have small := links a (by rw [some, List.head?_cons])
    obtain ⟨linked, left'⟩ := tabled.set entry (small.trans l.fatEof_bits)
    obtain ⟨ended, left''⟩ := linked.set inside l.fatEof_bits
    refine ⟨a, rest, fatSet a l.fatEof (fatSet c a (allocCluster (fatGet c s).2).2), some, ?_, ?_,
      ((only.trans left).trans left').trans left''⟩
    · have run : walkExtend (n + 1) c s = _ := (if_pos ends).trans (if_neg (by omega))
      rw [run, taken]
      dsimp only
      rw [linked.layout]
    · convert ended using 1
      funext x
      simp only [Function.update_apply]
      split <;> rfl

/-- Below its last step the walk meets clusters with entries only; what it links in
can be linked to. -/
theorem walkExtend {first : Nat} : ∀ n j c f s, Tabled l f s →
    reach (l.next f) [] j first = some c →
    (∀ i d, i < j + n → reach (l.next f) (l.free f) i first = some d → l.Proper d) →
    (∀ d, reach (l.next f) (l.free f) (j + n) first = some d → d < l.fatEof) →
    (walkExtend n c s).1 = reach (l.next f) (l.free f) (j + n) first ∧
      TableOnly s (Fat.walkExtend n c s).2 ∧ ∃ g, Tabled l g (Fat.walkExtend n c s).2 ∧
        ∀ m, reach (l.next g) (l.free g) m first = reach (l.next f) (l.free f) m first := by
  intro n
  induction n with
  | zero =>
      intro j c f s h walked _ _
      refine ⟨?_, .refl s, f, h, fun _ => rfl⟩
      rw [Nat.add_zero, reach_of_walk walked]
      rfl
  | succ n ih =>
      intro j c f s h walked proper last
      have here := proper j c (by omega) (reach_of_walk walked)
      have link (i : Nat) (d : Nat) (le : i ≤ j + (n + 1))
          (met : reach (l.next f) (l.free f) i first = some d) : d < l.fatEof := by
        rcases Nat.eq_or_lt_of_le le with rfl | lt
        · exact last d met
        · exact (proper i d lt met).link
      by_cases stop : l.fatEof ≤ f c
      · have at_end (m : Nat) : reach (l.next f) (l.free f) (j + (m + 1)) first = (l.free f)[m]? := by
          rw [reach_add walked, reach, Layout.next_none stop]
        have links (a : Nat) (head : (l.free f).head? = some a) : a < l.fatEof :=
          link (j + 1) a (by omega) (by rw [at_end, ← head, List.head?_eq_getElem?])
        rcases h.grow here.entry stop n links with ⟨full, none, tabled, only⟩ |
          ⟨a, rest, t, some, run, tabled, only⟩
        · refine ⟨?_, only, f, tabled, fun _ => rfl⟩
          rw [none, at_end, full]
          rfl
        · obtain ⟨two, -, zero⟩ := Layout.mem_free.mp (some ▸ List.mem_cons_self : a ∈ l.free f)
          have low := links a (by rw [some, List.head?_cons])
          have fresh (i : Nat) (before : i ≤ j) : reach (l.next f) [] i first ≠ Option.some a := by
            intro met
            rcases Nat.eq_or_lt_of_le before with rfl | before
            · obtain rfl := Option.some.inj (met.symm.trans walked)
              have := l.fatEof_pos
              omega
            · have next : reach (l.next f) (l.free f) (i + 1) first = Option.some 0 := by
                rw [reach_add met, reach, Layout.next_some (by rw [zero]; exact l.fatEof_pos), zero]
                rfl
              exact absurd (proper (i + 1) 0 (by omega) next).low (by decide)
          have kept (m : Nat) (spare : List Nat) : reach (append (l.next f) c a) spare m first =
              reach (l.next f) (a :: spare) m first :=
            reach_append walked (Layout.next_none stop) fresh m
          have free := l.free_take some (g := Function.update (Function.update f c a) a l.fatEof)
            (by rw [Function.update_self]; exact l.fatEof_pos.ne') fun x other => by
              rw [Function.update_of_ne other]
              by_cases here : x = c
              · have := l.fatEof_pos
                rw [here, Function.update_self]
                omega
              · rw [Function.update_of_ne here]
          have same (m : Nat) := kept m rest
          rw [← Layout.next_append low, ← some] at same
          have step : reach (l.next (Function.update (Function.update f c a) a l.fatEof)) [] (j + 1)
              first = Option.some a := by
            rw [Layout.next_append low, kept, reach_add walked, reach, Layout.next_none stop]
            rfl
          obtain ⟨value, left, g, held, after⟩ := ih (j + 1) a _ t tabled step
            (fun i d before => by
              rw [free, same]
              exact proper i d (by omega))
            (fun d => by
              rw [free, same]
              exact link _ d (by omega))
          rw [free] at value after
          rw [run, value, same, Nat.add_right_comm, Nat.add_assoc]
          exact ⟨rfl, only.trans left, g, held, fun m => (after m).trans (same m)⟩
      · obtain ⟨value, got, only⟩ := h.get here.entry
        have run : Fat.walkExtend (n + 1) c s = Fat.walkExtend n (f c) (fatGet c s).2 := by
          rw [← value]
          exact if_neg (by rw [value, got.layout]; exact stop)
        have step : reach (l.next f) [] (j + 1) first = some (f c) := by
          rw [reach_add walked, reach, Layout.next_some (Nat.not_le.mp stop)]
          rfl
        obtain ⟨result, left, rest⟩ := ih (j + 1) (f c) f _ got step
          (fun i d before => proper i d (by omega)) fun d => link _ d (by omega)
        rw [run, result]
        refine ⟨?_, only.trans left, rest⟩
        rw [Nat.add_right_comm, Nat.add_assoc]

end Tabled

end Zenbite.Fat
