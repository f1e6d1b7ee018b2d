import Zenbite.Fat.Tabled

/-! Which clusters reading and writing ask the disk for. Nothing on the way checks
a chain value: only the end mark stops the walk. -/

namespace Zenbite.Fat

open Memory VolState Chains

/-! The clusters that each function reads or writes, in order. -/

section Visits
variable {δ : Type} [Device δ]

/-- Of `readLoop`. -/
def readVisits (first size : Nat) : Nat → Nat → Nat → VolState δ → List Nat
  | 0, _, _, _ => []
  | fuel + 1, pos, n, s =>
    if n = 0 ∨ size ≤ pos then []
    else
      let c := clusterAfter (pos / s.vol.clusterBytes) first s
      if c.2.vol.fatEof ≤ c.1 then []
      else
        let r := readCluster c.1 (fun _ => 0) c.2
        let avail := min (min (s.vol.clusterBytes - pos % s.vol.clusterBytes) (size - pos)) n
        c.1 :: if r.1 < 0 then [] else readVisits first size fuel (pos + avail) (n - avail) r.2.2

/-- Of `writeLoop`. -/
def writeVisits (first : Nat) : Nat → Nat → List UInt8 → VolState δ → List Nat
  | 0, _, _, _ => []
  | fuel + 1, pos, data, s =>
    if data = [] then []
    else
      let w := walkExtend (pos / s.vol.clusterBytes) first s
      match w.1 with
      | none => []
      | some c =>
        let r := readCluster c (fun _ => 0) w.2
        let inCluster := pos % s.vol.clusterBytes
        let chunk := min (s.vol.clusterBytes - inCluster) data.length
        let put := writeCluster c (poke r.2.1 inCluster (data.take chunk)) r.2.2
        c :: if r.1 < 0 ∨ put.1 < 0 then []
          else writeVisits first fuel (u32 (pos + chunk)) (data.drop chunk) put.2

/-- Of load_dir and store_dir; the fixed root is no cluster. -/
def FatVolume.dirVisits (v : FatVolume) (d : Nat) : List Nat :=
  if v.FixedRoot d then [] else [v.dirCluster d]

end Visits

/-! The log of the disk shows these clusters, and single sectors of the table. -/

/-- Between two states the disk was asked for the clusters `visits` and otherwise for
single sectors. -/
structure Asks (visits : List Nat) (s t : VolState Disk) : Prop where
  layout : t.vol.toLayout = s.vol.toLayout
  present : t.disk.present = s.disk.present
  log : ∃ new, t.disk.log = new ++ s.disk.log ∧
    (∀ c ∈ visits, ∃ a ∈ new, a.lba = s.vol.clusterToLba c ∧ a.count = s.vol.secPerCluster) ∧
    ∀ a ∈ new, a.count = 1 ∨
      ∃ c ∈ visits, a.lba = s.vol.clusterToLba c ∧ a.count = s.vol.secPerCluster

namespace Asks
variable {s t u : VolState Disk} {v w : List Nat}

theorem refl (s : VolState Disk) : Asks [] s s := ⟨rfl, rfl, [], rfl, by simp, by simp⟩

theorem trans (first : Asks v s t) (second : Asks w t u) : Asks (v ++ w) s u := by
  obtain ⟨new, log, found, only⟩ := first.log
  obtain ⟨more, grown, found', only'⟩ := second.log
  rw [first.layout] at found' only'
  refine ⟨second.layout.trans first.layout, second.present.trans first.present, more ++ new,
    by rw [grown, log, List.append_assoc], fun c member => ?_, fun a member => ?_⟩
  · rcases List.mem_append.mp member with member | member
    · obtain ⟨a, inside, asked⟩ := found c member
      exact ⟨a, List.mem_append_right more inside, asked⟩
    · obtain ⟨a, inside, asked⟩ := found' c member
      exact ⟨a, List.mem_append_left new inside, asked⟩
  · rcases List.mem_append.mp member with member | member
    · exact (only' a member).imp_right fun ⟨c, inside, asked⟩ =>
        ⟨c, List.mem_append_right v inside, asked⟩
    · exact (only a member).imp_right fun ⟨c, inside, asked⟩ =>
        ⟨c, List.mem_append_left w inside, asked⟩

theorem mod (s : VolState Disk) (f : FatVolume → FatVolume) (layout : (f s.vol).toLayout = s.vol.toLayout) :
    Asks [] s (s.modVol f) := ⟨layout, rfl, [], rfl, by simp, by simp⟩

theorem read (s : VolState Disk) (lba : Nat) (buf : Buffer) : Asks [] s (s.diskRead lba 1 buf).2.2 := by
  obtain ⟨new, log, all⟩ := s.disk.read_log lba 1 buf
  exact ⟨rfl, (s.disk.read_keeps lba 1 buf).1, new, log, by simp, fun a member => .inl (by rw [all a member])⟩

theorem write (s : VolState Disk) (lba : Nat) (buf : Buffer) : Asks [] s (s.diskWrite lba 1 buf).2 := by
  obtain ⟨new, log, all⟩ := s.disk.write_log lba 1 buf
  exact ⟨rfl, (s.disk.write_keeps lba 1 buf).1, new, log, by simp, fun a member => .inl (by rw [all a member])⟩

theorem flush (s : VolState Disk) : Asks [] s (fatCacheFlush s).2 := by
  have first := write s (u32 (s.vol.fatLba + s.vol.fatCsec)) s.vol.fatCbuf
  rcases fatCacheFlush_cases s with ⟨-, run⟩ | ⟨-, -, ⟨-, run⟩ | ⟨-, run⟩⟩ <;> rw [run]
  · exact .refl s
  · exact first
  · exact (first.trans (write _ _ _)).trans (mod _ _ rfl)

theorem load (sec : Nat) (s : VolState Disk) : Asks [] s (fatCacheLoad sec s).2 := by
  simp only [fatCacheLoad]
  split
  · exact .refl s
  · split
    · exact flush s
    · have asked := (flush s).trans (read (fatCacheFlush s).2
        (u32 ((fatCacheFlush s).2.vol.fatLba + sec)) (fatCacheFlush s).2.vol.fatCbuf)
      split <;> exact ⟨asked.layout, asked.present, asked.log⟩

theorem get (c : Nat) (s : VolState Disk) : Asks [] s (fatGet c s).2 := by
  simp only [fatGet]
  split
  · exact ⟨rfl, rfl, [], rfl, by simp, by simp⟩
  · split <;> exact load _ s
  · split <;> exact load _ s

theorem set (c x : Nat) (s : VolState Disk) : Asks [] s (fatSet c x s) := by
  simp only [fatSet]
  split
  · exact ⟨rfl, rfl, [], rfl, by simp, by simp⟩
  · split
    · exact load _ s
    · exact (load _ s).trans (mod _ _ rfl)
  · split
    · exact load _ s
    · exact (load _ s).trans (mod _ _ rfl)

theorem allocFrom (n : Nat) : ∀ c s, Asks [] s (allocFrom n c s).2 := by
  induction n with
  | zero => exact fun c s => .refl s
  | succ n ih =>
      intro c s
      simp only [Fat.allocFrom]
      split
      · exact (get c s).trans (set _ _ _)
      · exact (get c s).trans (ih _ _)

theorem alloc (s : VolState Disk) : Asks [] s (allocCluster s).2 := by
  have scan := allocFrom (s.vol.maxCluster - 2) 2 s
  exact ⟨scan.layout, scan.present, scan.log⟩

theorem clusterAfter (n : Nat) : ∀ c s, Asks [] s (clusterAfter n c s).2 := by
  induction n with
  | zero => exact fun c s => .refl s
  | succ n ih =>
      intro c s
      simp only [Fat.clusterAfter]
      split
      · exact (get c s).trans (ih _ _)
      · exact .refl s

theorem walkExtend (n : Nat) : ∀ c s, Asks [] s (walkExtend n c s).2 := by
  induction n with
  | zero => exact fun c s => .refl s
  | succ n ih =>
      intro c s
      simp only [Fat.walkExtend]
      split
      · split
        · exact (get c s).trans (alloc _)
        · exact ((((get c s).trans (alloc _)).trans (set _ _ _)).trans (set _ _ _)).trans (ih _ _)
      · exact (get c s).trans (ih _ _)

theorem cluster {a : Access} {c : Nat} (layout : t.vol.toLayout = s.vol.toLayout)
    (present : t.disk.present = s.disk.present) (log : t.disk.log = a :: s.disk.log)
    (lba : a.lba = s.vol.clusterToLba c) (count : a.count = s.vol.secPerCluster) : Asks [c] s t := by
  refine ⟨layout, present, [a], log, fun d member => ?_, fun b member => .inr ⟨c, List.mem_cons_self, ?_⟩⟩
  · obtain rfl := List.mem_singleton.mp member
    exact ⟨a, List.mem_cons_self, lba, count⟩
  · obtain rfl := List.mem_singleton.mp member
    exact ⟨lba, count⟩

theorem readCluster (present : s.disk.present = true) (c : Nat) (buf : Buffer) :
    Asks [c] s (readCluster c buf s).2.2 := by
  have log : (s.disk.read (s.vol.clusterToLba c) s.vol.secPerCluster buf).2.2.log =
      ⟨false, s.vol.clusterToLba c, s.vol.secPerCluster⟩ :: s.disk.log := by
    simp only [Disk.read, present, if_true]
    rfl
  exact cluster rfl (s.disk.read_keeps _ _ buf).1 log rfl rfl

theorem writeCluster (present : s.disk.present = true) (c : Nat) (buf : Buffer) :
    Asks [c] s (writeCluster c buf s).2 := by
  have log : (s.disk.write (s.vol.clusterToLba c) s.vol.secPerCluster buf).2.log =
      ⟨true, s.vol.clusterToLba c, s.vol.secPerCluster⟩ :: s.disk.log := by
    simp only [Disk.write, present, if_true]
    rfl
  exact cluster rfl (s.disk.write_keeps _ _ buf).1 log rfl rfl

/-- Asking for a cluster twice asks for it. -/
theorem again {c : Nat} (asks : Asks (c :: c :: v) s t) : Asks (c :: v) s t := by
  obtain ⟨new, log, found, only⟩ := asks.log
  refine ⟨asks.layout, asks.present, new, log, fun d member => found d (List.mem_cons_of_mem c member), ?_⟩
  intro a member
  exact (only a member).imp_right fun ⟨d, inside, asked⟩ => ⟨d, by simpa using inside, asked⟩

end Asks

/-- The loop of fs_read asks for the clusters it visits. -/
theorem readLoop_asks (first size : Nat) : ∀ fuel pos n s, s.disk.present = true →
    Asks (readVisits first size fuel pos n s) s (readLoop first size fuel pos n s).2 := by
  intro fuel
  induction fuel with
  | zero => exact fun _ _ s _ => .refl s
  | succ fuel ih =>
      intro pos n s present
      simp only [readVisits, readLoop]
      split
      · exact .refl s
      · have walk := Asks.clusterAfter (pos / s.vol.clusterBytes) first s
        split
        · exact walk
        · have read := walk.trans (.readCluster (walk.present.trans present)
            (clusterAfter (pos / s.vol.clusterBytes) first s).1 fun _ => 0)
          split
          · exact read
          · exact read.trans (ih _ _ _ (read.present.trans present))

/-- So does the loop of fs_write. -/
theorem writeLoop_asks (first : Nat) : ∀ fuel pos data s, s.disk.present = true →
    Asks (writeVisits first fuel pos data s) s (writeLoop first fuel pos data s).2 := by
  intro fuel
  induction fuel with
  | zero => exact fun _ _ s _ => .refl s
  | succ fuel ih =>
      intro pos data s present
      simp only [writeVisits, writeLoop]
      split
      · exact .refl s
      · have walk := Asks.walkExtend (pos / s.vol.clusterBytes) first s
        cases (Fat.walkExtend (pos / s.vol.clusterBytes) first s).1 with
        | none => exact walk
        | some c =>
          have read := walk.trans (.readCluster (walk.present.trans present) c fun _ => 0)
          dsimp only
          by_cases failed : (readCluster c (fun _ => 0)
              (walkExtend (pos / s.vol.clusterBytes) first s).2).1 < 0
          · simp only [failed, true_or, if_true]
            exact read
          · simp only [failed, false_or, if_false]
            generalize poke _ _ _ = data'
            have put := (read.trans (.writeCluster (read.present.trans present) c data')).again
            by_cases short : (writeCluster c data' (readCluster c (fun _ => 0)
                (walkExtend (pos / s.vol.clusterBytes) first s).2).2.2).1 < 0
            · simp only [short, if_true]
              exact put
            · simp only [short, if_false]
              exact put.trans (ih _ _ _ (put.present.trans present))

/-- A directory that is no fixed root is loaded and stored through its cluster. -/
theorem dir_asks {d : Nat} {s : VolState Disk} (chain : ¬ s.vol.FixedRoot d) (present : s.disk.present = true)
    (buf : Buffer) : Asks (s.vol.dirVisits d) s (loadDir d s).2 ∧
      Asks (s.vol.dirVisits d) s (storeDir d buf s).2 := by
  have read := Asks.readCluster present (s.vol.dirCluster d) fun _ => 0
  have write := Asks.writeCluster present (s.vol.dirCluster d) buf
  simp only [FatVolume.dirVisits, loadDir, storeDir, if_neg chain]
  constructor
  · split <;> exact read
  · exact write

/-- Of fs_read. -/
def Handle.readVisits (x : Handle) (n : Nat) (s : VolState Disk) : List Nat :=
  Fat.readVisits x.firstCluster x.size n x.pos n s

/-- Of fs_write, the directory entry at its end included. -/
def Handle.writeVisits (x : Handle) (data : List UInt8) (s : VolState Disk) : List Nat :=
  let a := firstFor x.firstCluster s
  if a.1 = 0 then []
  else Fat.writeVisits a.1 data.length x.pos data a.2 ++ s.vol.dirVisits x.parentDirCluster

/-- Every sector of these clusters lies in `[data_lba, total_sectors)`. -/
def Layout.Confines (l : Layout) (visits : List Nat) : Prop := ∀ c ∈ visits, l.OnVolume c

instance (l : Layout) (c : Nat) : Decidable (l.OnVolume c) := inferInstanceAs (Decidable (_ ∧ _))

instance (l : Layout) (visits : List Nat) : Decidable (l.Confines visits) :=
  inferInstanceAs (Decidable (∀ c ∈ visits, _))

/-! Looking up any cluster number, in the table or not, with nothing to write back. -/

/-- The cache is clean and holds what the disk holds. -/
structure Settled (s : VolState Disk) : Prop where
  accepted : s.vol.toLayout.Accepted
  clean : s.vol.fatCdirty = false
  cached : s.vol.fatCsec ≠ fatCacheNone → ∀ i, i < sectorSize →
    s.vol.fatCbuf i = s.disk.bytes (u32 (s.vol.fatLba + s.vol.fatCsec) * sectorSize + i)

/-- `t` is `s` after looking things up. -/
structure LooksUp (s t : VolState Disk) : Prop where
  settled : Settled t
  layout : t.vol.toLayout = s.vol.toLayout
  fat : t.vol.fat = s.vol.fat
  disk : s.disk.Same t.disk

theorem LooksUp.refl {s : VolState Disk} (settled : Settled s) : LooksUp s s :=
  ⟨settled, rfl, rfl, .refl _⟩

theorem LooksUp.trans {s t u : VolState Disk} (first : LooksUp s t) (second : LooksUp t u) :
    LooksUp s u :=
  ⟨second.settled, second.layout.trans first.layout, second.fat.trans first.fat,
    first.disk.trans second.disk⟩

namespace Settled
variable {s t : VolState Disk}

/-- Every sector below the marker of the empty cache shows what the disk holds. -/
theorem sector (settled : Settled s) {sec i : Nat} (bound : sec < 2 ^ 23) (inside : i < sectorSize) :
    s.fatSector sec i = s.disk.bytes (u32 (s.vol.fatLba + sec) * sectorSize + i) := by
  by_cases held : s.vol.fatCsec = sec
  · have none : sec ≠ fatCacheNone := by simp only [fatCacheNone]; omega
    rw [fatSector_held held, settled.cached (by rw [held]; exact none) i inside, held]
  · rw [fatSector_stored held]
    rfl

theorem load (settled : Settled s) {sec : Nat} (bound : sec < 2 ^ 23) :
    LooksUp s (fatCacheLoad sec s).2 ∧
      (¬ s.disk.Faultless ∧ (fatCacheLoad sec s).1 < 0 ∨ ¬ (fatCacheLoad sec s).1 < 0 ∧
        ∀ i, i < sectorSize → (fatCacheLoad sec s).2.vol.fatCbuf i = s.fatSector sec i) := by
  have flush : fatCacheFlush s = (0, s) := if_pos (.inl settled.clean)
  have same := s.disk.read_same (u32 (s.vol.fatLba + sec)) 1 s.vol.fatCbuf
  have none : sec ≠ fatCacheNone := by simp only [fatCacheNone]; omega
  by_cases held : s.vol.fatCsec = sec
  · have run : fatCacheLoad sec s = (0, s) := if_pos held
    rw [run]
    refine ⟨.refl settled, .inr ⟨lt_irrefl 0, fun i _ => ?_⟩⟩
    rw [fatSector_held held]
  · have answer := s.disk.read_ok (u32 (s.vol.fatLba + sec)) 1 s.vol.fatCbuf
    have good (good : s.disk.Faultless) := Disk.read_faultless good (u32 (s.vol.fatLba + sec)) 1
      s.vol.fatCbuf
    simp only [fatCacheLoad, if_neg held, flush, lt_irrefl, if_false, diskRead_fst]
    split
    next failed =>
      refine ⟨⟨⟨settled.accepted, settled.clean, fun held => absurd rfl held⟩, rfl, rfl, same⟩,
        .inl ⟨fun faultless => ?_, show (-1 : Int) < 0 by decide⟩⟩
      rw [good faultless] at failed
      exact lt_irrefl 0 failed
    next ok =>
      obtain ⟨bytes, buf⟩ := answer ok
      have loaded (i : Nat) (inside : i < sectorSize) :
          (s.disk.read (u32 (s.vol.fatLba + sec)) 1 s.vol.fatCbuf).2.1 i =
            s.disk.bytes (u32 (s.vol.fatLba + sec) * sectorSize + i) := by
        rw [buf, splice_inside _ _ (Nat.zero_le i) (by omega)]
        rfl
      refine ⟨⟨⟨settled.accepted, settled.clean, fun _ i inside => ?_⟩, rfl, rfl, same⟩,
        .inr ⟨lt_irrefl 0, fun i inside => ?_⟩⟩
      · exact (loaded i inside).trans (congrFun bytes _).symm
      · rw [settled.sector bound inside]
        exact loaded i inside

/-- A failed lookup reads as the end of the chain. -/
theorem get (settled : Settled s) (c : Nat) : LooksUp s (fatGet c s).2 ∧
    ((fatGet c s).1 = s.fatMap c ∨ ¬ s.disk.Faultless ∧ s.vol.fatEof ≤ (fatGet c s).1) := by
  have small := u32_lt (c * 2)
  have small' := u32_lt (c * 4)
  rcases settled.accepted.kind_cases with kind | kind | kind
  · have value : s.fatMap c = get12 s.vol.fat c := by
      rw [fatMap, rawFat_fat12 kind, kind]
      exact Nat.mod_eq_of_lt (get12_lt _ _)
    simp only [fatGet, kind, value]
    exact ⟨⟨⟨settled.accepted, settled.clean, settled.cached⟩, rfl, rfl, .refl _⟩, .inl trivial⟩
  · have even : u32 (c * 2) % 2 = 0 := by simp only [u32]; omega
    have bound : u32 (c * 2) / sectorSize < 2 ^ 23 := by simp only [sectorSize]; omega
    obtain ⟨looks, ⟨faulty, failed⟩ | ⟨ok, loaded⟩⟩ := settled.load bound
    · simp only [fatGet, kind, if_pos failed]
      refine ⟨looks, .inr ⟨faulty, ?_⟩⟩
      simp only [Layout.fatEof, kind]
      decide
    · simp only [fatGet, kind, if_neg ok]
      refine ⟨looks, .inl ?_⟩
      rw [fatMap, rawFat_fat16 kind, kind, valueBits, Nat.mod_eq_of_lt (readLe16_lt _ _)]
      exact readLe16_congr fun k inside => loaded _ (by simp only [sectorSize]; omega)
  · have even : u32 (c * 4) % 4 = 0 := by simp only [u32]; omega
    have bound : u32 (c * 4) / sectorSize < 2 ^ 23 := by simp only [sectorSize]; omega
    obtain ⟨looks, ⟨faulty, failed⟩ | ⟨ok, loaded⟩⟩ := settled.load bound
    · simp only [fatGet, kind, if_pos failed]
      refine ⟨looks, .inr ⟨faulty, ?_⟩⟩
      simp only [Layout.fatEof, kind]
      decide
    · simp only [fatGet, kind, if_neg ok]
      refine ⟨looks, .inl ?_⟩
      have word := readLe32_congr (i := u32 (c * 4) % sectorSize) (j := u32 (c * 4) % sectorSize)
        fun k inside => loaded _ (by simp only [sectorSize]; omega)
      rw [fatMap, rawFat_fat32 kind, kind, word]
      rfl

theorem readCluster (settled : Settled s) (c : Nat) (buf : Buffer) :
    LooksUp s (readCluster c buf s).2.2 := by
  have same := s.disk.read_same (s.vol.clusterToLba c) s.vol.secPerCluster buf
  refine ⟨⟨settled.accepted, settled.clean, fun held i inside => ?_⟩, rfl, rfl, same⟩
  exact (settled.cached held i inside).trans (congrFun same.bytes _).symm

end Settled

/-- Where cluster_after gets to on a table `f`: it stops at numbers below 2 too. -/
def Layout.follow (l : Layout) (f : Nat → Nat) : Nat → Nat → Nat
  | 0, c => c
  | n + 1, c => if 2 ≤ c ∧ c < l.fatEof then l.follow f n (f c) else c

section Read
variable {s : VolState Disk} {l : Layout} {f : Nat → Nat}

theorem Layout.Accepted.cluster_pos (accepted : l.Accepted) : 0 < l.clusterBytes :=
  Nat.mul_pos accepted.header.spc_pos (by decide)

/-- The part of a transfer from `pos` on that lies in one cluster. -/
theorem chunk_place {cb p n : Nat} (pos_cb : 0 < cb) (some : 0 < n) :
    0 < min (cb - p % cb) n ∧ p / cb ≤ (p + min (cb - p % cb) n) / cb ∧
      p + min (cb - p % cb) n ≤ (p / cb + 1) * cb := by
  have rest := Nat.mod_lt p pos_cb
  have split := Nat.div_add_mod' p cb
  refine ⟨by omega, Nat.div_le_div_right (Nat.le_add_right _ _), ?_⟩
  rw [Nat.add_mul, Nat.one_mul]
  omega

variable {first size : Nat}

end Read

end Zenbite.Fat
