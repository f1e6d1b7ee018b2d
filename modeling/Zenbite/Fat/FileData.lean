import Zenbite.Lib.Scatter
import Zenbite.Fat.ConfineWrite
import Zenbite.Fat.FlushArea

/-! What a file holds: byte `p` lies in cluster `p / cluster_bytes` of its chain.
The loops of fs_write and fs_read on a disk that answers, as storing and collecting
bytes at these places. -/

namespace Zenbite.Fat

open Memory VolState Chains Scatter

/-- The two copies of the table lie before the data. -/
structure Layout.Laid (l : Layout) : Prop extends l.Regular where
  copies : ∀ n, l.TableSector n → n < l.dataLba

/-- A cluster with an entry that lies in the volume, where no number wraps. -/
structure Layout.Placed (l : Layout) (c : Nat) : Prop extends l.Proper c where
  inside : l.dataLba + (c - 2 + 1) * l.secPerCluster ≤ l.totalSectors

/-- Where byte `p` of the file with the clusters `c 0, c 1, ..` lies on the disk. -/
def Layout.place (l : Layout) (c : Nat → Nat) (p : Nat) : Nat :=
  l.clusterToLba (c (p / l.clusterBytes)) * sectorSize + p % l.clusterBytes

/-- What writing the table back may change. -/
def Layout.Loose (l : Layout) (a : Nat) : Prop := l.TableSector (a / sectorSize)

/-- The clusters for `size` bytes are different clusters of the volume. -/
structure Layout.Holds (l : Layout) (c : Nat → Nat) (size : Nat) : Prop where
  placed : ∀ k, k * l.clusterBytes < size → l.Placed (c k)
  distinct : ∀ j k, j * l.clusterBytes < size → k * l.clusterBytes < size → c j = c k → j = k

section Places
variable {l : Layout} {c : Nat → Nat} {size : Nat}

theorem Layout.Placed.lba {x : Nat} (placed : l.Placed x) (accepted : l.Accepted) :
    l.clusterToLba x = l.dataLba + (x - 2) * l.secPerCluster ∧ l.clusterToLba x < 2 ^ 32 := by
  have inside := placed.inside
  have total := accepted.header.total_lt
  have pos := accepted.header.spc_pos
  rw [Nat.add_mul, Nat.one_mul] at inside
  have lba := Layout.clusterToLba_eq placed.low (l := l) (by omega) pos
  exact ⟨lba, by omega⟩

theorem Layout.Placed.onVolume {x : Nat} (placed : l.Placed x) (accepted : l.Accepted) : l.OnVolume x := by
  have lba := (placed.lba accepted).1
  have inside := placed.inside
  rw [Nat.add_mul, Nat.one_mul] at inside
  rw [Layout.OnVolume, lba]
  omega

/-- Two clusters lie apart. -/
theorem Layout.Placed.apart {x y : Nat} (first : l.Placed x) (second : l.Placed y) (accepted : l.Accepted)
    (less : x < y) : l.clusterToLba x + l.secPerCluster ≤ l.clusterToLba y := by
  have low := first.low
  have step : (x - 2 + 1) * l.secPerCluster ≤ (y - 2) * l.secPerCluster :=
    Nat.mul_le_mul_right _ (by omega)
  rw [Nat.add_mul, Nat.one_mul] at step
  rw [(first.lba accepted).1, (second.lba accepted).1]
  omega

/-- Byte `k` of a cluster, and the sector that it is in. -/
theorem Layout.clusterSector (l : Layout) (lba : Nat) {k : Nat} (inside : k < l.clusterBytes) :
    (lba * sectorSize + k) / sectorSize < lba + l.secPerCluster ∧
      lba ≤ (lba * sectorSize + k) / sectorSize := by
  simp only [clusterBytes, sectorSize] at inside ⊢
  omega

theorem Layout.Placed.firm {x k : Nat} (placed : l.Placed x) (accepted : l.Accepted) (laid : l.Laid)
    (inside : k < l.clusterBytes) : ¬ l.Loose (l.clusterToLba x * sectorSize + k) := by
  intro table
  have before := laid.copies _ table
  have behind := (l.clusterSector (l.clusterToLba x) inside).2
  have data := (placed.onVolume accepted).1
  omega

/-- The start of the cluster that byte `p` is in. -/
theorem cluster_start {p cb size : Nat} (low : p < size) : p / cb * cb < size :=
  Nat.lt_of_le_of_lt (Nat.div_mul_le_self p cb) low

theorem Layout.Holds.apart (holds : l.Holds c size) (accepted : l.Accepted) (laid : l.Laid) :
    Apart (l.place c) l.Loose size where
  firm := fun p low => (holds.placed _ (cluster_start low)).firm accepted laid
    (Nat.mod_lt p accepted.cluster_pos)
  inj := by
    intro p q low low' same
    have first := holds.placed _ (cluster_start low)
    have second := holds.placed _ (cluster_start low')
    have rest := Nat.mod_lt p accepted.cluster_pos
    have rest' := Nat.mod_lt q accepted.cluster_pos
    simp only [Layout.place] at same
    have bytes : l.clusterBytes = l.secPerCluster * sectorSize := rfl
    have near {x y r t : Nat} (before : x + l.secPerCluster ≤ y) (inside : r < l.clusterBytes) :
        x * sectorSize + r ≠ y * sectorSize + t := by
      have scaled := Nat.mul_le_mul_right sectorSize before
      rw [Nat.add_mul] at scaled
      omega
    rcases Nat.lt_trichotomy (c (p / l.clusterBytes)) (c (q / l.clusterBytes)) with less | equal | more
    · exact absurd same (near (first.apart second accepted less) rest)
    · have index := holds.distinct _ _ (cluster_start low) (cluster_start low') equal
      rw [equal] at same
      calc
        p = p / l.clusterBytes * l.clusterBytes + p % l.clusterBytes := (Nat.div_add_mod' _ _).symm
        _ = q / l.clusterBytes * l.clusterBytes + q % l.clusterBytes := by
          rw [index]
          omega
        _ = q := Nat.div_add_mod' _ _
    · exact absurd same.symm (near (second.apart first accepted more) rest')

theorem Layout.Holds.shorter {less : Nat} (holds : l.Holds c size) (le : less ≤ size) : l.Holds c less :=
  ⟨fun k low => holds.placed k (low.trans_le le),
    fun j k low low' => holds.distinct j k (low.trans_le le) (low'.trans_le le)⟩

end Places

/-! Walking to a cluster of the file. -/

/-- The chain from `first` on, then the free clusters in order, are the clusters for
`size` bytes. -/
def Layout.Leads (l : Layout) (f : Nat → Nat) (first : Nat) (c : Nat → Nat) (size : Nat) : Prop :=
  ∀ k, k * l.clusterBytes < size → reach (l.next f) (l.free f) k first = some (c k)

/-- The chain from `first` on alone is. -/
def Layout.Links (l : Layout) (f : Nat → Nat) (first : Nat) (c : Nat → Nat) (size : Nat) : Prop :=
  ∀ k, k * l.clusterBytes < size → reach (l.next f) [] k first = some (c k)

/-- The table `g` came from `f` by linking free clusters behind the end of the chain. -/
structure Layout.Grown (l : Layout) (first : Nat) (f g : Nat → Nat) : Prop where
  walks : ∀ m, reach (l.next g) (l.free g) m first = reach (l.next f) (l.free f) m first
  kept : ∀ i x, reach (l.next f) [] i first = some x → reach (l.next g) [] i first = some x

section Walk
variable {l : Layout} {f g : Nat → Nat} {first : Nat} {c : Nat → Nat} {s : VolState Disk}

theorem Layout.Grown.refl (l : Layout) (first : Nat) (f : Nat → Nat) : l.Grown first f f :=
  ⟨fun _ => rfl, fun _ _ found => found⟩

theorem Layout.Grown.trans {e : Nat → Nat} (one : l.Grown first f g) (two : l.Grown first g e) :
    l.Grown first f e :=
  ⟨fun m => (two.walks m).trans (one.walks m), fun i x found => two.kept i x (one.kept i x found)⟩

theorem Layout.Links.leads {size : Nat} (links : l.Links f first c size) : l.Leads f first c size :=
  fun k low => reach_of_walk (links k low)

theorem Layout.Grown.leads {size : Nat} (grown : l.Grown first f g) (leads : l.Leads f first c size) :
    l.Leads g first c size :=
  fun k low => (grown.walks k).trans (leads k low)

theorem Layout.Grown.links {size : Nat} (grown : l.Grown first f g) (links : l.Links f first c size) :
    l.Links g first c size :=
  fun k low => grown.kept k _ (links k low)

/-- One step of the walk from the `j`-th cluster: along the chain, or a free cluster
is linked in. -/
theorem Tabled.step {j : Nat} (h : Tabled l f s) (walked : reach (l.next f) [] j first = some (c j))
    (next : reach (l.next f) (l.free f) (j + 1) first = some (c (j + 1)))
    (proper : ∀ i, i ≤ j + 1 → reach (l.next f) (l.free f) i first = some (c i) ∧ l.Proper (c i)) (n : Nat) :
    ∃ g t, Fat.walkExtend (n + 1) (c j) s = Fat.walkExtend n (c (j + 1)) t ∧ Tabled l g t ∧ TableOnly s t ∧
      l.Grown first f g ∧ reach (l.next g) [] (j + 1) first = some (c (j + 1)) := by
  have here := (proper j (Nat.le_succ j)).2
  by_cases stop : l.fatEof ≤ f (c j)
  · have at_end (m : Nat) : reach (l.next f) (l.free f) (j + (m + 1)) first = (l.free f)[m]? := by
      rw [reach_add walked, reach, Layout.next_none stop]
    have head : (l.free f).head? = some (c (j + 1)) := by
      rw [List.head?_eq_getElem?, ← at_end 0]
      exact next
    have small := (proper (j + 1) le_rfl).2
    rcases h.grow here.entry stop n (fun a found => Option.some.inj (head.symm.trans found) ▸ small.link) with
      ⟨full, -⟩ | ⟨a, rest, t, some, run, tabled, only⟩
    · rw [full] at head
      cases head
    · rw [some, List.head?_cons] at head
      obtain rfl := Option.some.inj head
      obtain ⟨low, -, zero⟩ := Layout.mem_free.mp (some ▸ List.mem_cons_self : c (j + 1) ∈ l.free f)
      have pos := l.fatEof_pos
      -- a free cluster on the chain would end it at once
      have fresh (i : Nat) (before : i ≤ j) : reach (l.next f) [] i first ≠ Option.some (c (j + 1)) := by
        intro met
        have shown := Option.some.inj ((reach_of_walk met).symm.trans (proper i (by omega)).1)
        rcases Nat.eq_or_lt_of_le before with rfl | before
        · rw [← shown] at stop
          omega
        · have after : reach (l.next f) (l.free f) (i + 1) first = Option.some 0 := by
            rw [reach_add met, reach, Layout.next_some (by omega), zero]
            rfl
          have second := Option.some.inj (after.symm.trans (proper (i + 1) (by omega)).1)
          have big := (proper (i + 1) (by omega)).2.low
          omega
      have kept (m : Nat) (spare : List Nat) : reach (append (l.next f) (c j) (c (j + 1))) spare m first =
          reach (l.next f) (c (j + 1) :: spare) m first :=
        reach_append walked (Layout.next_none stop) fresh m
      rw [← Layout.next_append small.link] at kept
      have free := l.free_take some (g := Function.update (Function.update f (c j) (c (j + 1))) (c (j + 1)) l.fatEof)
        (by rw [Function.update_self]; omega) fun x other => by
          rw [Function.update_of_ne other]
          by_cases here : x = c j
          · rw [here, Function.update_self]
            omega
          · rw [Function.update_of_ne here]
      refine ⟨_, t, run, tabled, only, ⟨fun m => ?_, fun i x found => ?_⟩, ?_⟩
      · rw [free, kept, some]
      · rw [kept]
        exact reach_of_walk found
      · rw [kept, reach_add walked, reach, Layout.next_none stop]
        rfl
  · obtain ⟨value, got, only⟩ := h.get here.entry
    have step : reach (l.next f) [] (j + 1) first = some (f (c j)) := by
      rw [reach_add walked, reach, Layout.next_some (Nat.not_le.mp stop)]
      rfl
    have same : f (c j) = c (j + 1) := Option.some.inj ((reach_of_walk step).symm.trans next)
    rw [same] at step value
    refine ⟨f, (fatGet (c j) s).2, ?_, got, only, .refl l first f, step⟩
    calc
      Fat.walkExtend (n + 1) (c j) s = Fat.walkExtend n (fatGet (c j) s).1 (fatGet (c j) s).2 :=
        if_neg (by rw [value, got.layout, ← same]; exact stop)
      _ = Fat.walkExtend n (c (j + 1)) (fatGet (c j) s).2 := by rw [value]

/-- The walk from the `j`-th cluster to one `n` further on, which is linked then. -/
theorem Tabled.walkTo (n : Nat) : ∀ {j : Nat} {f : Nat → Nat} {s : VolState Disk}, Tabled l f s →
    reach (l.next f) [] j first = some (c j) →
    (∀ i, i ≤ j + n → reach (l.next f) (l.free f) i first = some (c i) ∧ l.Proper (c i)) →
    ∃ g t, Fat.walkExtend n (c j) s = (some (c (j + n)), t) ∧ Tabled l g t ∧ TableOnly s t ∧
      l.Grown first f g ∧ reach (l.next g) [] (j + n) first = some (c (j + n)) := by
  induction n with
  | zero => exact fun h walked _ => ⟨_, _, rfl, h, .refl _, .refl l first _, walked⟩
  | succ n ih =>
      intro j f s h walked proper
      obtain ⟨g, t, run, tabled, only, grown, linked⟩ := h.step walked (proper (j + 1) (by omega)).1
        (fun i le => proper i (by omega)) n
      have behind : j + (n + 1) = j + 1 + n := by omega
      have later (i : Nat) (le : i ≤ j + 1 + n) :
          reach (l.next g) (l.free g) i first = some (c i) ∧ l.Proper (c i) :=
        (proper i (by omega)).imp_left (grown.walks i).trans
      obtain ⟨e, u, rest, tabled', only', grown', linked'⟩ := ih tabled linked later
      rw [behind]
      exact ⟨e, u, run.trans rest, tabled', only.trans only', grown.trans grown', linked'⟩

end Walk

/-! The loop of fs_write. -/

/-- The parts of `*v` that work on files leaves alone. -/
structure Aside (s t : VolState Disk) : Prop where
  layout : t.vol.toLayout = s.vol.toLayout
  diskId : t.vol.diskId = s.vol.diskId
  root : t.vol.root = s.vol.root
  cwdIsRoot : t.vol.cwdIsRoot = s.vol.cwdIsRoot
  cwdCluster : t.vol.cwdCluster = s.vol.cwdCluster
  cwdPath : t.vol.cwdPath = s.vol.cwdPath

theorem Aside.of_vol {s t : VolState Disk} (same : t.vol = s.vol) : Aside s t := by
  refine ⟨?_, ?_, ?_, ?_, ?_, ?_⟩ <;> rw [same]

theorem Aside.trans {s t u : VolState Disk} (first : Aside s t) (second : Aside t u) : Aside s u :=
  ⟨second.layout.trans first.layout, second.diskId.trans first.diskId, second.root.trans first.root,
    second.cwdIsRoot.trans first.cwdIsRoot, second.cwdCluster.trans first.cwdCluster,
    second.cwdPath.trans first.cwdPath⟩

theorem TableOnly.aside {s t : VolState Disk} (only : TableOnly s t) : Aside s t :=
  ⟨only.layout, only.diskId, only.root, only.cwdIsRoot, only.cwdCluster, only.cwdPath⟩

section Loops
variable {l : Layout} {f : Nat → Nat} {first : Nat} {c : Nat → Nat} {s t : VolState Disk}

theorem TableOnly.puts (only : TableOnly s t) (layout : s.vol.toLayout = l) (place : Nat → Nat) (pos : Nat) :
    Puts place l.Loose pos [] s.disk.bytes t.disk.bytes :=
  .of_loose fun a firm => only.bytes a (by rw [layout]; exact firm)

/-- Part of a cluster is read, changed and written back. -/
theorem Layout.Placed.store {x inCluster : Nat} {chunk : List UInt8} (placed : l.Placed x)
    (accepted : l.Accepted) (laid : l.Laid) (h : Tabled l f s) (fits : inCluster + chunk.length ≤ l.clusterBytes) :
    (readCluster x (fun _ => 0) s).1 = 0 ∧
      (writeCluster x (poke (readCluster x (fun _ => 0) s).2.1 inCluster chunk)
        (readCluster x (fun _ => 0) s).2.2).1 = 0 ∧
      Tabled l f (writeCluster x (poke (readCluster x (fun _ => 0) s).2.1 inCluster chunk)
        (readCluster x (fun _ => 0) s).2.2).2 ∧
      Aside s (writeCluster x (poke (readCluster x (fun _ => 0) s).2.1 inCluster chunk)
        (readCluster x (fun _ => 0) s).2.2).2 ∧
      (writeCluster x (poke (readCluster x (fun _ => 0) s).2.1 inCluster chunk)
        (readCluster x (fun _ => 0) s).2.2).2.disk.bytes =
          poke s.disk.bytes (l.clusterToLba x * sectorSize + inCluster) chunk := by
  have on := placed.onVolume accepted
  have read := on.keeps laid.toRegular h (fun _ => 0) fun _ => 0
  have buf : (readCluster x (fun _ => 0) s).2.1 = splice (fun _ => 0) 0 (l.secPerCluster * sectorSize)
      (window s.disk.bytes (l.clusterToLba x * sectorSize)) := by
    simp only [readCluster, diskRead_buf, useBuffer_disk, Disk.read_faultless h.good, h.layout]
  have same : (readCluster x (fun _ => 0) s).2.2.disk.bytes = s.disk.bytes :=
    (s.disk.read_keeps _ _ _).2.2.2
  have good : (readCluster x (fun _ => 0) s).2.2.disk.Faultless := read.1.good
  rw [buf]
  generalize data : poke (splice (fun _ => 0) 0 _ _) inCluster chunk = out
  have write := on.keeps laid.toRegular read.1 (fun _ => 0) out
  refine ⟨read.2.1, write.2.2.2, write.2.2.1, .of_vol rfl, ?_⟩
  have bytes : (writeCluster x out (readCluster x (fun _ => 0) s).2.2).2.disk.bytes =
      splice s.disk.bytes (l.clusterToLba x * sectorSize) (l.secPerCluster * sectorSize) out := by
    rw [writeCluster, diskWrite_disk, useBuffer_disk, Disk.write_bytes good, same]
    change splice _ (s.vol.clusterToLba x * sectorSize) (s.vol.secPerCluster * sectorSize) _ = _
    rw [h.layout]
  rw [bytes, ← data]
  change inCluster + chunk.length ≤ l.secPerCluster * sectorSize at fits
  funext a
  simp only [poke, splice, window]
  split
  next inside =>
    by_cases part : inCluster ≤ a - l.clusterToLba x * sectorSize ∧
        a - l.clusterToLba x * sectorSize < inCluster + chunk.length
    · rw [if_pos part, if_pos (by omega), Nat.sub_add_eq]
    · rw [if_neg part, if_pos (by omega), if_neg (by omega), Nat.sub_zero, Nat.add_sub_cancel' inside.1]
  next outside => rw [if_neg (by omega)]

/-- Bytes of one cluster of a file. -/
theorem Layout.place_add {pos k : Nat} (fits : pos % l.clusterBytes + k < l.clusterBytes) :
    l.place c (pos + k) = l.clusterToLba (c (pos / l.clusterBytes)) * sectorSize + pos % l.clusterBytes + k := by
  have split := Nat.div_add_mod' pos l.clusterBytes
  have here : pos + k = pos / l.clusterBytes * l.clusterBytes + (pos % l.clusterBytes + k) := by omega
  have index : (pos + k) / l.clusterBytes = pos / l.clusterBytes := by
    rw [here, Nat.mul_comm, Nat.mul_add_div (by omega), Nat.div_eq_of_lt fits, Nat.add_zero]
  have rest : (pos + k) % l.clusterBytes = pos % l.clusterBytes + k := by
    rw [here, Nat.mul_comm, Nat.mul_add_mod, Nat.mod_eq_of_lt fits]
  rw [Layout.place, index, rest, Nat.add_assoc]

theorem Layout.puts_poke {pos : Nat} {chunk : List UInt8} (m : Buffer)
    (fits : pos % l.clusterBytes + chunk.length ≤ l.clusterBytes) :
    Puts (l.place c) l.Loose pos chunk m
      (poke m (l.clusterToLba (c (pos / l.clusterBytes)) * sectorSize + pos % l.clusterBytes) chunk) where
  inside := by
    intro k x found
    have low : k < chunk.length := (List.getElem?_eq_some_iff.mp found).1
    rw [Layout.place_add (by omega), poke_at m low, List.getD_eq_getElem?_getD, found]
    rfl
  outside := by
    intro a _ other
    apply splice_outside
    by_contra inside
    obtain ⟨k, rfl⟩ : ∃ k, a = l.clusterToLba (c (pos / l.clusterBytes)) * sectorSize + pos % l.clusterBytes + k :=
      ⟨a - (l.clusterToLba (c (pos / l.clusterBytes)) * sectorSize + pos % l.clusterBytes), by omega⟩
    have low : k < chunk.length := by omega
    exact other k low (Layout.place_add (by omega))

/-- What the loop of fs_write leaves. -/
structure Wrote (l : Layout) (first : Nat) (c : Nat → Nat) (pos : Nat) (data : List UInt8) (f g : Nat → Nat)
    (s t : VolState Disk) : Prop where
  tabled : Tabled l g t
  grown : l.Grown first f g
  links : l.Links g first c (pos + data.length)
  aside : Aside s t
  puts : Puts (l.place c) l.Loose pos data s.disk.bytes t.disk.bytes

/-- One round: a part of one cluster is written. -/
theorem writeLoop_round (laid : l.Laid) (h : Tabled l f s) {pos : Nat} {data : List UInt8} (more : data ≠ [])
    (holds : l.Holds c (pos + data.length)) (leads : l.Leads f first c (pos + data.length))
    (links : l.Links f first c pos) (small : pos + data.length < 2 ^ 32) (fuel : Nat) :
    ∃ chunk g t, 0 < chunk ∧ chunk ≤ data.length ∧ Wrote l first c pos (data.take chunk) f g s t ∧
      writeLoop first (fuel + 1) pos data s =
        (((writeLoop first fuel (pos + chunk) (data.drop chunk) t).1.1,
          chunk + (writeLoop first fuel (pos + chunk) (data.drop chunk) t).1.2),
          (writeLoop first fuel (pos + chunk) (data.drop chunk) t).2) := by
  have accepted : l.Accepted := h.layout ▸ h.ok.accepted
  have length := List.length_pos_iff.mpr more
  have start : first = c 0 := Option.some.inj (leads 0 (by omega))
  obtain ⟨some, -, room⟩ := chunk_place (p := pos) accepted.cluster_pos length
  have fits : pos % l.clusterBytes + min (l.clusterBytes - pos % l.clusterBytes) data.length ≤ l.clusterBytes := by
    have := Nat.mod_lt pos accepted.cluster_pos
    omega
  have before (i : Nat) (le : i ≤ pos / l.clusterBytes) : i * l.clusterBytes < pos + data.length :=
    lt_of_le_of_lt (Nat.mul_le_mul_right _ le) (cluster_start (by omega))
  obtain ⟨g, t, walk, tabled, only, grown, linked⟩ := h.walkTo (j := 0) (pos / l.clusterBytes)
    (congrArg Option.some start) fun i le => by
      have low := before i (by omega)
      exact ⟨leads i low, (holds.placed i low).toProper⟩
  rw [Nat.zero_add, ← start] at walk
  rw [Nat.zero_add] at linked
  generalize size : min (l.clusterBytes - pos % l.clusterBytes) data.length = chunk at some room fits
  have taken : (data.take chunk).length = chunk := List.length_take_of_le (by omega)
  rw [← taken] at fits
  obtain ⟨readOk, writeOk, kept, aside, bytes⟩ := (holds.placed _ (before _ le_rfl)).store accepted laid tabled fits
  refine ⟨chunk, g, _, some, by omega, ⟨kept, grown, fun k low => ?_, only.aside.trans aside, ?_⟩, ?_⟩
  · rw [taken] at low
    rcases Nat.lt_or_ge k (pos / l.clusterBytes) with less | ge
    · have step : (k + 1) * l.clusterBytes ≤ pos / l.clusterBytes * l.clusterBytes :=
        Nat.mul_le_mul_right _ less
      rw [Nat.add_mul, Nat.one_mul] at step
      have positive := accepted.cluster_pos
      have := Nat.div_mul_le_self pos l.clusterBytes
      exact grown.links links k (by omega)
    · rcases Nat.eq_or_lt_of_le ge with rfl | beyond
      · exact linked
      · have step : (pos / l.clusterBytes + 1) * l.clusterBytes ≤ k * l.clusterBytes :=
          Nat.mul_le_mul_right _ beyond
        have split := Nat.div_add_mod' pos l.clusterBytes
        rw [Nat.add_mul, Nat.one_mul] at step
        omega
  · rw [bytes]
    exact (only.puts h.layout _ pos).append (holds.apart accepted laid)
      (by rw [List.length_nil, taken]; omega) (Layout.puts_poke _ fits)
  · simp only [writeLoop, if_neg more, h.layout, walk, size, readOk, writeOk, lt_irrefl, if_false]
    rw [u32_of_lt (by omega)]

theorem writeLoop_wrote (laid : l.Laid) (fuel : Nat) : ∀ {pos : Nat} {data : List UInt8} {f : Nat → Nat}
    {s : VolState Disk}, data.length ≤ fuel → Tabled l f s → pos + data.length < 2 ^ 32 →
    l.Holds c (pos + data.length) → l.Leads f first c (pos + data.length) → l.Links f first c pos →
    (writeLoop first fuel pos data s).1 = (pos + data.length, data.length) ∧
      ∃ g, Wrote l first c pos data f g s (writeLoop first fuel pos data s).2 := by
  have nothing {pos : Nat} {f : Nat → Nat} {s : VolState Disk} (h : Tabled l f s) (links : l.Links f first c pos) :
      ∃ g, Wrote l first c pos [] f g s s :=
    ⟨f, h, .refl l first f, links, .of_vol rfl, .of_loose fun _ _ => rfl⟩
  induction fuel with
  | zero =>
      intro pos data f s long h _ _ _ links
      obtain rfl := List.length_eq_zero_iff.mp (Nat.le_zero.mp long)
      exact ⟨rfl, nothing h links⟩
  | succ fuel ih =>
      intro pos data f s long h small holds leads links
      by_cases done : data = []
      · subst done
        rw [writeLoop, if_pos rfl]
        exact ⟨rfl, nothing h links⟩
      · obtain ⟨chunk, g, t, some, le, wrote, run⟩ := writeLoop_round laid h done holds leads links small fuel
        have taken : (data.take chunk).length = chunk := List.length_take_of_le le
        have left : pos + chunk + (data.drop chunk).length = pos + data.length := by
          rw [List.length_drop]
          omega
        have linked := wrote.links
        rw [taken] at linked
        obtain ⟨value, e, rest⟩ := @ih (pos + chunk) (data.drop chunk) g t
          (by rw [List.length_drop]; omega) wrote.tabled (by rw [left]; exact small) (by rw [left]; exact holds)
          (by rw [left]; exact wrote.grown.leads leads) linked
        rw [run, value, left, List.length_drop, Nat.add_sub_cancel' le]
        refine ⟨rfl, e, rest.tabled, wrote.grown.trans rest.grown, ?_, wrote.aside.trans rest.aside, ?_⟩
        · exact left ▸ rest.links
        · have accepted : l.Accepted := h.layout ▸ h.ok.accepted
          have behind := rest.puts
          rw [← taken] at behind
          have whole := wrote.puts.append (holds.apart accepted laid) ?_ behind
          · rw [taken, List.take_append_drop] at whole
            exact whole
          · rw [taken, left]

/-! The loop of fs_read. -/

/-- `t` is `s` after looking at its files: only the table may have been written back. -/
structure Looked (l : Layout) (f : Nat → Nat) (s t : VolState Disk) : Prop where
  tabled : Tabled l f t
  aside : Aside s t
  bytes : ∀ a, ¬ l.Loose a → t.disk.bytes a = s.disk.bytes a

theorem Looked.refl (h : Tabled l f s) : Looked l f s s := ⟨h, .of_vol rfl, fun _ _ => rfl⟩

theorem Looked.trans {u : VolState Disk} (first : Looked l f s t) (second : Looked l f t u) : Looked l f s u :=
  ⟨second.tabled, first.aside.trans second.aside, fun a firm => (second.bytes a firm).trans (first.bytes a firm)⟩

theorem Looked.of_only (h : Tabled l f t) (layout : s.vol.toLayout = l) (only : TableOnly s t) : Looked l f s t :=
  ⟨h, only.aside, fun a firm => only.bytes a (by rw [layout]; exact firm)⟩

/-- cluster_after along a linked chain. -/
theorem Tabled.follow (n : Nat) : ∀ {j : Nat} {s : VolState Disk}, Tabled l f s →
    (∀ i, i ≤ j + n → reach (l.next f) [] i first = some (c i) ∧ l.Proper (c i)) →
    (Fat.clusterAfter n (c j) s).1 = c (j + n) ∧ Looked l f s (Fat.clusterAfter n (c j) s).2 := by
  induction n with
  | zero => exact fun h _ => ⟨rfl, .refl h⟩
  | succ n ih =>
      intro j s h chain
      have here := (chain j (by omega)).2
      obtain ⟨value, got, only⟩ := h.get here.entry
      have step : f (c j) = c (j + 1) := by
        have linked := (chain (j + 1) (by omega)).1
        rw [reach_add (chain j (by omega)).1, reach] at linked
        cases next : l.next f (c j) with
        | none =>
            rw [next] at linked
            cases linked
        | some b =>
            rw [next] at linked
            exact (Layout.next_eq_some.mp next).2.trans (Option.some.inj linked)
      have run : Fat.clusterAfter (n + 1) (c j) s = Fat.clusterAfter n (c (j + 1)) (fatGet (c j) s).2 := by
        rw [← step, ← value]
        exact if_pos ⟨here.low, by rw [h.layout]; exact here.link⟩
      have behind : j + (n + 1) = j + 1 + n := by omega
      rw [behind] at chain ⊢
      obtain ⟨last, looked⟩ := ih got chain
      rw [run]
      exact ⟨last, (Looked.of_only got h.layout only).trans looked⟩

/-- Bytes of a cluster as fs_read copies them. -/
theorem bytesFrom_collect {pos count : Nat} (m : Buffer) (fits : pos % l.clusterBytes + count ≤ l.clusterBytes) :
    bytesFrom (splice (fun _ => 0) 0 (l.secPerCluster * sectorSize)
      (window m (l.clusterToLba (c (pos / l.clusterBytes)) * sectorSize))) (pos % l.clusterBytes) count =
        collect (l.place c) m pos count := by
  apply List.map_congr_left
  intro k member
  have low := List.mem_range.mp member
  rw [Layout.place_add (by omega), window, splice_inside _ _ (Nat.zero_le _)]
  · rw [Nat.sub_zero, window, Nat.add_assoc]
  · change _ < 0 + l.clusterBytes
    omega

theorem readLoop_collect (laid : l.Laid) {size : Nat} (holds : l.Holds c size) (links : l.Links f first c size)
    (fuel : Nat) : ∀ {pos n : Nat} {s : VolState Disk}, n ≤ fuel → Tabled l f s →
    (readLoop first size fuel pos n s).1 = (pos + min n (size - pos),
        collect (l.place c) s.disk.bytes pos (min n (size - pos))) ∧
      Looked l f s (readLoop first size fuel pos n s).2 := by
  have ends {pos n : Nat} (s : VolState Disk) (done : n = 0 ∨ size ≤ pos) : (pos, []) =
      (pos + min n (size - pos), collect (l.place c) s.disk.bytes pos (min n (size - pos))) := by
    rw [show min n (size - pos) = 0 by omega]
    rfl
  induction fuel with
  | zero => exact fun low h => ⟨ends _ (.inl (Nat.le_zero.mp low)), .refl h⟩
  | succ fuel ih =>
      intro pos n s low h
      by_cases done : n = 0 ∨ size ≤ pos
      · rw [readLoop, if_pos done]
        exact ⟨ends s done, .refl h⟩
      · have accepted : l.Accepted := h.layout ▸ h.ok.accepted
        have rest := Nat.mod_lt pos accepted.cluster_pos
        have before (i : Nat) (le : i ≤ pos / l.clusterBytes) : i * l.clusterBytes < size :=
          lt_of_le_of_lt (Nat.mul_le_mul_right _ le) (cluster_start (by omega))
        have start : first = c 0 := Option.some.inj (links 0 (before 0 (Nat.zero_le _)))
        have placed := holds.placed _ (before _ le_rfl)
        obtain ⟨cluster, looked⟩ := @Tabled.follow l f first c (pos / l.clusterBytes) 0 s h fun i le => by
          have inside := before i (by omega)
          exact ⟨links i inside, (holds.placed i inside).toProper⟩
        rw [Nat.zero_add, ← start] at cluster
        rw [← start] at looked
        generalize walked : clusterAfter (pos / l.clusterBytes) first s = w at cluster looked
        have on := placed.onVolume accepted
        have read := on.keeps laid.toRegular looked.tabled (fun _ => 0) fun _ => 0
        have buf : (readCluster w.1 (fun _ => 0) w.2).2.1 = splice (fun _ => 0) 0 (l.secPerCluster * sectorSize)
            (window w.2.disk.bytes (l.clusterToLba (c (pos / l.clusterBytes)) * sectorSize)) := by
          rw [← cluster]
          simp only [readCluster, diskRead_buf, useBuffer_disk, Disk.read_faultless looked.tabled.good,
            looked.tabled.layout]
        have same : (readCluster w.1 (fun _ => 0) w.2).2.2.disk.bytes = w.2.disk.bytes :=
          (w.2.disk.read_keeps _ _ _).2.2.2
        rw [← cluster] at read
        have looked' : Looked l f s (readCluster w.1 (fun _ => 0) w.2).2.2 :=
          looked.trans ⟨read.1, .of_vol rfl, fun a _ => congrFun same a⟩
        generalize count : min (min (l.clusterBytes - pos % l.clusterBytes) (size - pos)) n = avail
        have left : min n (size - pos) = avail + min (n - avail) (size - (pos + avail)) := by omega
        obtain ⟨value, more⟩ := @ih (pos + avail) (n - avail) _ (by omega) looked'.tabled
        have link : ¬ l.fatEof ≤ w.1 := by
          rw [cluster]
          exact Nat.not_le.mpr placed.link
        have apart := holds.apart accepted laid
        have kept {from_ to_ : Nat} (inside : from_ + to_ ≤ size) :
            collect (l.place c) w.2.disk.bytes from_ to_ = collect (l.place c) s.disk.bytes from_ to_ :=
          collect_congr fun k low => looked.bytes _ (apart.firm _ (by omega))
        simp only [readLoop, if_neg done, h.layout, walked, looked.tabled.layout, if_neg link, read.2.1, lt_irrefl,
          if_false, count, value, buf, same]
        rw [bytesFrom_collect _ (by omega), kept (by omega), kept (by omega), collect_append, ← left, Nat.add_assoc,
          ← left]
        exact ⟨rfl, looked'.trans more⟩

end Loops

end Zenbite.Fat
