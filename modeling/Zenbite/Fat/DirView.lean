import Zenbite.Fat.Ops

/-! What the directories of a volume hold: the fixed root in its cache, every
other directory in the first cluster of its chain on the disk. -/

namespace Zenbite.Fat

open Memory VolState

namespace VolState

/-- The bytes that load_dir shows for directory `d`. -/
def dirBytes (s : VolState Disk) (d : Nat) : Buffer :=
  if s.vol.FixedRoot d then s.vol.root
  else window s.disk.bytes (s.vol.clusterToLba (s.vol.dirCluster d) * sectorSize)

/-- The number of its slots. -/
def dirSlots (s : VolState Disk) (d : Nat) : Nat :=
  (if s.vol.FixedRoot d then s.vol.rootSizeSec * sectorSize else s.vol.clusterBytes) / 32

end VolState

/-- The live slots among `i, i+1, ..` up to the end mark; `n` of them are left. -/
def liveFrom (buf : Buffer) : Nat → Nat → List Nat
  | 0, _ => []
  | n + 1, i =>
    if slot buf i 0 = 0 then []
    else if Dirent.Live (slot buf i) then i :: liveFrom buf n (i + 1)
    else liveFrom buf n (i + 1)

/-- The 32 bytes of an entry. -/
def Dirent.bytes (e : Buffer) : List UInt8 := (List.range 32).map e

namespace VolState

def liveSlots (s : VolState Disk) (d : Nat) : List Nat := liveFrom (s.dirBytes d) (s.dirSlots d) 0

def liveEntries (s : VolState Disk) (d : Nat) : List (List UInt8) :=
  (s.liveSlots d).map fun i => Dirent.bytes (slot (s.dirBytes d) i)

/-- The directories: the root and what live directory entries point to. -/
inductive IsDir (s : VolState Disk) : Nat → Prop
  | root : IsDir s 0
  | sub {d i : Nat} (dir : IsDir s d) (live : i ∈ s.liveSlots d)
      (attr : Dirent.hasAttr (slot (s.dirBytes d) i) attrDir = true) :
      IsDir s (Dirent.cluster s.vol.kind (slot (s.dirBytes d) i))

end VolState

theorem liveFrom_congr {a b : Buffer} : ∀ n i,
    (∀ k, i * 32 ≤ k → k < (i + n) * 32 → a k = b k) → liveFrom a n i = liveFrom b n i := by
  intro n
  induction n with
  | zero => exact fun i _ => rfl
  | succ n ih =>
      intro i agree
      have next := ih (i + 1) fun k low high => agree k (by omega) (by omega)
      have mark : slot a i 0 = slot b i 0 := agree (i * 32 + 0) (by omega) (by omega)
      have attr : slot a i 11 = slot b i 11 := agree (i * 32 + 11) (by omega) (by omega)
      have live : Dirent.Live (slot a i) ↔ Dirent.Live (slot b i) := by
        simp only [Dirent.Live, Dirent.hasAttr, mark, attr]
      simp only [liveFrom, mark, live, next]

theorem liveFrom_lt {buf : Buffer} : ∀ {n i j : Nat}, j ∈ liveFrom buf n i → i ≤ j ∧ j < i + n := by
  intro n
  induction n with
  | zero => exact fun member => by simp [liveFrom] at member
  | succ n ih =>
      intro i j member
      simp only [liveFrom] at member
      split at member
      · simp at member
      · split at member
        · rcases List.mem_cons.mp member with rfl | member
          · omega
          · have := ih member
            omega
        · have := ih member
          omega

/-- Directory `d` looks the same in both states. -/
structure SameDir (s t : VolState Disk) (d : Nat) : Prop where
  slots : t.dirSlots d = s.dirSlots d
  bytes : ∀ k, k < s.dirSlots d * 32 → t.dirBytes d k = s.dirBytes d k

theorem SameDir.live {s t : VolState Disk} {d : Nat} (same : SameDir s t d) :
    t.liveSlots d = s.liveSlots d := by
  simp only [VolState.liveSlots, same.slots]
  exact liveFrom_congr _ _ fun k _ high => same.bytes k (by omega)

theorem SameDir.slot_byte {s t : VolState Disk} {d i k : Nat} (same : SameDir s t d)
    (inside : i < s.dirSlots d) (low : k < 32) : slot (t.dirBytes d) i k = slot (s.dirBytes d) i k :=
  same.bytes _ (by omega)

theorem SameDir.entries {s t : VolState Disk} {d : Nat} (same : SameDir s t d) :
    t.liveEntries d = s.liveEntries d := by
  simp only [VolState.liveEntries, same.live]
  apply List.map_congr_left
  intro i member
  have inside := (liveFrom_lt member).2
  apply List.map_congr_left
  intro k bound
  exact same.slot_byte (by omega) (List.mem_range.mp bound)

/-- A directory is its part of the root cache, or its cluster on the disk. -/
theorem sameDir_of_bytes {s t : VolState Disk} {d : Nat}
    (layout : t.vol.toLayout = s.vol.toLayout) (root : t.vol.root = s.vol.root)
    (bytes : ¬ s.vol.FixedRoot d → ∀ k, k < s.vol.clusterBytes →
      t.disk.bytes (s.vol.clusterToLba (s.vol.dirCluster d) * sectorSize + k) =
        s.disk.bytes (s.vol.clusterToLba (s.vol.dirCluster d) * sectorSize + k)) :
    SameDir s t d := by
  have fixed : t.vol.FixedRoot d ↔ s.vol.FixedRoot d := by simp only [FatVolume.FixedRoot, layout]
  have cluster : t.vol.dirCluster d = s.vol.dirCluster d := by
    simp only [FatVolume.dirCluster, layout]
  refine ⟨by simp only [VolState.dirSlots, fixed, layout], fun k inside => ?_⟩
  simp only [VolState.dirBytes, fixed, cluster, layout, root]
  by_cases chain : s.vol.FixedRoot d
  · rw [if_pos chain, if_pos chain]
  · rw [VolState.dirSlots, if_neg chain] at inside
    rw [if_neg chain, if_neg chain]
    exact bytes chain k (by omega)

theorem rawFat_congr {s t : VolState Disk} (vol : t.vol = s.vol)
    (bytes : t.disk.bytes = s.disk.bytes) : t.rawFat = s.rawFat := by
  have sector : t.fatSector = s.fatSector := by
    funext sec
    simp only [fatSector, vol, bytes]
  funext c
  simp only [VolState.rawFat, vol, sector]

/-- Nothing of the volume and of the disk's contents has changed. -/
structure Keeps (s t : VolState Disk) : Prop where
  vol : t.vol = s.vol
  disk : s.disk.Same t.disk

theorem Keeps.refl (s : VolState Disk) : Keeps s s := ⟨rfl, .refl _⟩

theorem Keeps.trans {s t u : VolState Disk} (first : Keeps s t) (second : Keeps t u) : Keeps s u :=
  ⟨second.vol.trans first.vol, first.disk.trans second.disk⟩

theorem Reads.keeps {s t : VolState Disk} (reads : Reads s t) : Keeps s t :=
  ⟨reads.vol, reads.traffic.same⟩

theorem Keeps.sameDir {s t : VolState Disk} (keeps : Keeps s t) (d : Nat) : SameDir s t d :=
  sameDir_of_bytes (by rw [keeps.vol]) (by rw [keeps.vol]) fun _ _ _ => by rw [keeps.disk.bytes]

theorem Keeps.rawFat {s t : VolState Disk} (keeps : Keeps s t) (c : Nat) : t.rawFat c = s.rawFat c :=
  congrFun (rawFat_congr keeps.vol keeps.disk.bytes) c

theorem Keeps.isDir {s t : VolState Disk} (keeps : Keeps s t) {d : Nat} (here : s.IsDir d) :
    t.IsDir d := by
  induction here with
  | root => exact .root
  | @sub p i dir live attr ih =>
      have same := keeps.sameDir p
      have inside := (liveFrom_lt live).2
      have byte (k : Nat) (low : k < 32) := same.slot_byte (i := i) (by omega) low
      have next : t.IsDir (Dirent.cluster t.vol.kind (slot (t.dirBytes p) i)) :=
        .sub ih (by rw [same.live]; exact live) (by
          rw [Dirent.hasAttr, byte 11 (by decide)]
          exact attr)
      rwa [keeps.vol, Dirent.cluster_congr s.vol.kind byte] at next

/-- What load_dir shows, when it succeeds. -/
theorem loadDir_some {d : Nat} {s : VolState Disk} {buf : Buffer} {size : Nat}
    (loaded : (loadDir d s).1 = some (buf, size)) :
    size / 32 = s.dirSlots d ∧ ∀ k, k < size → buf k = s.dirBytes d k := by
  simp only [loadDir] at loaded
  split at loaded
  next fixed =>
    obtain ⟨rfl, rfl⟩ := Prod.mk.inj (Option.some.inj loaded)
    simp only [VolState.dirSlots, VolState.dirBytes, if_pos fixed]
    exact ⟨trivial, fun _ _ => trivial⟩
  next chain =>
    split at loaded
    · cases loaded
    next ok =>
      obtain ⟨rfl, rfl⟩ := Prod.mk.inj (Option.some.inj loaded)
      simp only [VolState.dirSlots, VolState.dirBytes, if_neg chain]
      refine ⟨trivial, fun k inside => ?_⟩
      have read := (Disk.read_ok s.disk _ _ _ ok).2
      change (s.disk.read _ _ _).2.1 k = _
      rw [read]
      exact splice_inside _ _ (Nat.zero_le k) (by rw [Nat.zero_add]; exact inside)

end Zenbite.Fat
