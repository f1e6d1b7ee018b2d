import Zenbite.Fat.Cwd
import Zenbite.Fat.LiveSlots

/-! Removing a directory: what fs_rmdir has looked at, against what the whole chain
of the directory holds. -/

namespace Zenbite.Fat

open Memory VolState

namespace VolState

/-- Block `k` of directory `c`: the fixed root, or the clusters of the chain. -/
def dirBlock (s : VolState Disk) (c : Nat) : Nat → Option Nat
  | 0 => some c
  | k + 1 => (s.dirBlock c k).bind fun d =>
    if s.vol.FixedRoot d then none
    else
      let next := s.fatMap (s.vol.dirCluster d)
      if 2 ≤ next ∧ next < s.vol.fatEof then some next else none

/-- A slot of the block is an end mark. -/
def Ended (s : VolState Disk) (d : Nat) : Prop := ∃ i, i < s.dirSlots d ∧ slot (s.dirBytes d) i 0 = 0

/-- Block `k` is in the chain, and no end mark stands in a block before it. -/
structure InDir (s : VolState Disk) (c k d : Nat) : Prop where
  block : s.dirBlock c k = some d
  before : ∀ j d', j < k → s.dirBlock c j = some d' → ¬ s.Ended d'

end VolState

/-- The names "." and "..". -/
def Dirent.IsDots (e : Buffer) : Prop := Dirent.name e = dotName ∨ Dirent.name e = dotdotName

instance (e : Buffer) : Decidable (Dirent.IsDots e) := inferInstanceAs (Decidable (_ ∨ _))

namespace VolState

/-- Nothing live but "." and ".." in any cluster of the chain. -/
def DirEmpty (s : VolState Disk) (c : Nat) : Prop :=
  ∀ k d, s.InDir c k d → ∀ i ∈ s.liveSlots d, Dirent.IsDots (slot (s.dirBytes d) i)

/-- The places that fs_rmdir does not look at hold nothing that counts. -/
structure RmdirSees (s : VolState Disk) (c : Nat) : Prop where
  head : ∀ i ∈ s.liveSlots c, i < 2 → Dirent.IsDots (slot (s.dirBytes c) i)
  tail : ∀ k d, 0 < k → s.InDir c k d → ∀ i ∈ s.liveSlots d, Dirent.IsDots (slot (s.dirBytes d) i)

end VolState

/-! The loop. -/

theorem emptyFrom_congr {a b : Buffer} : ∀ n i,
    (∀ k, i * 32 ≤ k → k < (i + n) * 32 → a k = b k) → emptyFrom a n i = emptyFrom b n i := by
  intro n
  induction n with
  | zero => exact fun i _ => rfl
  | succ n ih =>
      intro i agree
      have next := ih (i + 1) fun k low high => agree k (by omega) (by omega)
      have mark : slot a i 0 = slot b i 0 := agree (i * 32 + 0) (by omega) (by omega)
      simp only [emptyFrom, mark, next]

/-- The loop goes through to its end over dead slots only. -/
theorem emptyFrom_dead {buf : Buffer} : ∀ {n i : Nat}, emptyFrom buf n i = true → liveFrom buf n i = [] := by
  intro n
  induction n with
  | zero => exact fun _ => rfl
  | succ n ih =>
      intro i empty
      rw [emptyFrom] at empty
      rw [liveFrom]
      split
      · rfl
      next used =>
        rw [if_neg used] at empty
        split at empty
        next deleted =>
          rw [if_neg fun live : Dirent.Live (slot buf i) => live.2.1 deleted]
          exact ih empty
        · cases empty

/-- Behind slot 1 there is nothing live then. -/
theorem live_low {buf : Buffer} {n i : Nat} (empty : emptyFrom buf (n - 2) 2 = true)
    (live : i ∈ liveFrom buf n 0) : i < 2 := by
  by_cases small : n ≤ 2
  · have := liveFrom_lt live
    omega
  · obtain ⟨m, rfl⟩ : ∃ m, n = m + 1 + 1 := ⟨n - 2, by omega⟩
    have dead := emptyFrom_dead empty
    rw [Nat.add_assoc, Nat.add_sub_cancel] at dead
    have rest (start : liveFrom buf m 2 = []) (member : i ∈ liveFrom buf (m + 1) 1) : i < 2 := by
      rw [liveFrom] at member
      split at member
      · cases member
      · split at member
        · rw [start] at member
          obtain rfl := List.mem_singleton.mp member
          decide
        · rw [start] at member
          cases member
    rw [liveFrom] at live
    split at live
    · cases live
    · split at live
      · rcases List.mem_cons.mp live with rfl | live
        · decide
        · exact rest dead live
      · exact rest dead live

theorem removeDir_low {parent off c : Nat} {s : VolState Disk} (removed : (removeDir parent off c s).1 = 0) :
    ∀ i ∈ s.liveSlots c, i < 2 := by
  intro i live
  simp only [removeDir] at removed
  split at removed
  · cases removed
  next buf size loaded =>
    split at removed
    next empty =>
      obtain ⟨slots, shown⟩ := loadDir_some loaded
      have inside : s.dirSlots c * 32 ≤ size := by
        rw [← slots]
        exact Nat.div_mul_le_self size 32
      rw [slots, emptyFrom_congr (b := s.dirBytes c) _ _ fun k low high => shown k (by omega)] at empty
      exact live_low empty live
    · cases removed

/-- With what it looks at, fs_rmdir removes an empty directory exactly when the rest
is empty too. -/
theorem DirEmpty.iff_sees {s : VolState Disk} {c : Nat} (low : ∀ i ∈ s.liveSlots c, i < 2) :
    s.DirEmpty c ↔ s.RmdirSees c := by
  constructor
  · intro empty
    refine ⟨fun i live _ => ?_, fun k d _ inside => empty k d inside⟩
    exact empty 0 c ⟨rfl, fun _ _ none _ => absurd none (Nat.not_lt_zero _)⟩ i live
  · intro sees k d inside i live
    cases k with
    | zero =>
        obtain rfl := Option.some.inj inside.block
        exact sees.head i live (low i live)
    | succ k => exact sees.tail (k + 1) d (Nat.succ_pos k) inside i live

/-! The walk before it. -/

section Keeps
variable {s t : VolState Disk}

theorem Keeps.dirBytes (keeps : Keeps s t) : t.dirBytes = s.dirBytes := by
  funext d
  simp only [VolState.dirBytes, keeps.vol, keeps.disk.bytes]

theorem Keeps.dirSlots (keeps : Keeps s t) : t.dirSlots = s.dirSlots := by
  funext d
  simp only [VolState.dirSlots, keeps.vol]

theorem Keeps.liveSlots (keeps : Keeps s t) : t.liveSlots = s.liveSlots := by
  funext d
  simp only [VolState.liveSlots, keeps.dirBytes, keeps.dirSlots]

end Keeps

/-- fs_rmdir has removed a directory: then it was empty, whatever its chain, exactly
when its first two slots hold no more than "." and "..", and nothing live stands
behind the first cluster. -/
theorem rmdir_empty_iff {path : List UInt8} {f : Fs} {r : Walk} {e : Buffer} {off : Nat}
    (walk : (walkPath path false f).1 = some r) (entry : r.entry = some (e, off))
    (removed : (fsRmdir path f).1 = 0) :
    (f.vol r.drive).DirEmpty (Dirent.cluster (f.vols r.drive).kind e) ↔
      (f.vol r.drive).RmdirSees (Dirent.cluster (f.vols r.drive).kind e) := by
  have only := walkPath_only path false f
  have keeps := only.drive r.drive
  apply DirEmpty.iff_sees
  simp only [fsRmdir, walk, entry] at removed
  split at removed
  · rw [← only.vols, ← keeps.liveSlots]
    exact removeDir_low removed
  · cases removed

/-- An empty directory in its one cluster. -/
theorem rmdir_empty_one : (fsRmdir longName oneDir).1 = 0 ∧ ∃ r e off,
    (walkPath longName false oneDir).1 = some r ∧ r.entry = some (e, off) ∧
      (oneDir.vol r.drive).DirEmpty (Dirent.cluster (oneDir.vols r.drive).kind e) := by
  have removed : (fsRmdir longName oneDir).1 = 0 := by decide +kernel
  have drive : (walkPath longName false oneDir).1.map (·.drive) = some 0 := by decide +kernel
  have cluster : ((walkPath longName false oneDir).1.bind (·.entry)).map (fun x =>
      Dirent.cluster (oneDir.vols 0).kind x.1) = some 2 := by decide +kernel
  obtain ⟨⟨e, off⟩, found, place⟩ := Option.map_eq_some_iff.mp cluster
  obtain ⟨r, walk, entry⟩ := Option.bind_eq_some_iff.mp found
  have zero : r.drive = 0 := by simpa [walk] using drive
  dsimp only at place
  refine ⟨removed, r, e, off, walk, entry, (rmdir_empty_iff walk entry removed).mpr ?_⟩
  have last : (oneDir.vol 0).dirBlock 2 1 = none := by decide +kernel
  have none (k : Nat) : (oneDir.vol 0).dirBlock 2 (k + 1) = none := by
    induction k with
    | zero => exact last
    | succ k ih => rw [dirBlock, ih, Option.bind_none]
  have live : (oneDir.vol 0).liveSlots 2 = [0, 1] := by decide +kernel
  have dots : ∀ i ∈ [0, 1], Dirent.IsDots (slot ((oneDir.vol 0).dirBytes 2) i) := by decide +kernel
  rw [zero, place]
  refine ⟨fun i member _ => dots i (live ▸ member), fun k d behind inside => ?_⟩
  obtain ⟨k, rfl⟩ : ∃ n, k = n + 1 := ⟨k - 1, by omega⟩
  exact absurd (inside.block.symm.trans (none k)) (Option.some_ne_none d)

/-- A directory of two clusters: the first one full of deleted entries, a file in
the second one. -/
def twoBlocks : Fs :=
  let s := fatSet 3 0xFFF (fatSet 2 3 (oneDir.vol 0))
  let used := splice s.disk.bytes (s.vol.clusterToLba 2 * sectorSize + 64) 448 fun _ => deletedMark
  .single { s with disk := { s.disk with
    bytes := splice used (s.vol.clusterToLba 3 * sectorSize) 32 (Dirent.make (nameTo83 longName) attrArc) } }

theorem rmdir_not_empty : (fsRmdir longName twoBlocks).1 = 0 ∧ ∃ r e off,
    (walkPath longName false twoBlocks).1 = some r ∧ r.entry = some (e, off) ∧
      ¬ (twoBlocks.vol r.drive).DirEmpty (Dirent.cluster (twoBlocks.vols r.drive).kind e) := by
  have removed : (fsRmdir longName twoBlocks).1 = 0 := by decide +kernel
  have drive : (walkPath longName false twoBlocks).1.map (·.drive) = some 0 := by decide +kernel
  have cluster : ((walkPath longName false twoBlocks).1.bind (·.entry)).map (fun x =>
      Dirent.cluster (twoBlocks.vols 0).kind x.1) = some 2 := by decide +kernel
  obtain ⟨⟨e, off⟩, found, place⟩ := Option.map_eq_some_iff.mp cluster
  obtain ⟨r, walk, entry⟩ := Option.bind_eq_some_iff.mp found
  have zero : r.drive = 0 := by simpa [walk] using drive
  dsimp only at place
  refine ⟨removed, r, e, off, walk, entry, fun empty => ?_⟩
  have second : (twoBlocks.vol 0).dirBlock 2 1 = some 3 := by decide +kernel
  have full : ∀ i, i < (twoBlocks.vol 0).dirSlots 2 → slot ((twoBlocks.vol 0).dirBytes 2) i 0 ≠ 0 := by
    decide +kernel
  have file : 0 ∈ (twoBlocks.vol 0).liveSlots 3 ∧
      ¬ Dirent.IsDots (slot ((twoBlocks.vol 0).dirBytes 3) 0) := by decide +kernel
  rw [zero, place] at empty
  refine file.2 (empty 1 3 ⟨second, fun j d before first => ?_⟩ 0 file.1)
  obtain rfl : j = 0 := by omega
  obtain rfl := Option.some.inj first
  rintro ⟨i, inside, mark⟩
  exact full i inside mark

end Zenbite.Fat
