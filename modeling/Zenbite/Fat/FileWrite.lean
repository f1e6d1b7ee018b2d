import Zenbite.Fat.FileData
import Zenbite.Fat.Stored

/-! fs_write on one volume: the bytes go to the clusters of the file, first cluster
and size to its directory entry, and nothing else moves but the table. -/

namespace Zenbite.Fat

open Memory VolState Chains Scatter

/-- The table, the fixed root and the data lie in this order. -/
structure Layout.InOrder (l : Layout) : Prop extends l.Laid where
  root : l.kind ≠ .fat32 → (∀ n, l.TableSector n → n < l.rootLba) ∧ l.fatLba + l.tableSectors ≤ l.rootLba ∧
    l.rootLba + l.rootSizeSec ≤ l.dataLba

/-- Byte `a` of the disk belongs to what storing directory `p` writes. -/
def VolState.Storing (s : VolState Disk) (p a : Nat) : Prop :=
  (storeAccess p s).lba * sectorSize ≤ a ∧ a < ((storeAccess p s).lba + (storeAccess p s).count) * sectorSize

/-- Directory `d` lies in a cluster of the volume that is none of the file's. -/
def FatVolume.Aloof (v : FatVolume) (c : Nat → Nat) (size d : Nat) : Prop :=
  ¬ v.FixedRoot d → v.Placed (v.dirCluster d) ∧ ∀ k, k * v.clusterBytes < size → c k ≠ v.dirCluster d

/-- What fs_write may change besides the file's bytes. -/
def VolState.Slack (s : VolState Disk) (p a : Nat) : Prop := s.vol.Loose a ∨ s.Storing p a

section Begin
variable {l : Layout} {f : Nat → Nat} {c : Nat → Nat} {s : VolState Disk} {fc : Nat}

/-- An empty file takes the first free cluster. -/
theorem Tabled.begin (h : Tabled l f s) (target : l.target f fc 0 = some (c 0)) :
    (firstFor fc s).1 = c 0 ∧ ∃ g, Tabled l g (firstFor fc s).2 ∧ TableOnly s (firstFor fc s).2 ∧
      (∀ k, reach (l.next g) (l.free g) k (c 0) = l.target f fc k) ∧ (fc ≠ 0 → fc = c 0 ∧ g = f) := by
  by_cases empty : fc = 0
  · subst empty
    simp only [Layout.target, if_true] at target ⊢
    rcases h.alloc with ⟨none, -⟩ | ⟨a, rest, some, taken, tabled, only⟩
    · rw [none] at target
      cases target
    · rw [some] at target
      obtain rfl : a = c 0 := Option.some.inj target
      have free := Layout.free_take some (g := Function.update f (c 0) l.fatEof)
        (by rw [Function.update_self]; exact l.fatEof_pos.ne') fun x other => by
          rw [Function.update_of_ne other]
      refine ⟨taken, _, tabled, only, fun k => ?_, fun used => absurd rfl used⟩
      rw [free, some]
      cases k with
      | zero => rfl
      | succ k =>
          rw [reach, Layout.next_none (Function.update_self (c 0) l.fatEof f).ge]
          rfl
  · simp only [Layout.target, if_neg empty] at target ⊢
    have same : fc = c 0 := Option.some.inj target
    rw [firstFor, if_neg empty, ← same]
    exact ⟨rfl, f, h, .refl s, fun _ => rfl, fun _ => ⟨rfl, rfl⟩⟩

end Begin

/-! The directory. -/

section Directory
variable {l : Layout} {f : Nat → Nat} {c : Nat → Nat} {s t : VolState Disk} {size p : Nat}

/-- The sectors of a directory are behind the first copy of the table and not written
with it. -/
theorem FatVolume.Aloof.store (aloof : s.vol.Aloof c size p) (h : Tabled l f s) (order : l.InOrder) :
    l.fatLba + l.tableSectors ≤ (storeAccess p s).lba ∧ ∀ a, s.Storing p a → ¬ l.Loose a := by
  have accepted : l.Accepted := h.layout ▸ h.ok.accepted
  have layout := h.layout
  simp only [FatVolume.Aloof, layout] at aloof
  simp only [VolState.Storing, storeAccess]
  split
  next fixed =>
    obtain ⟨copies, behind, -⟩ := order.root (layout ▸ fixed.2)
    rw [layout]
    refine ⟨behind, fun a inside table => ?_⟩
    have before := copies _ table
    simp only [sectorSize] at inside before
    omega
  next chain =>
    have placed := (aloof chain).1
    have on := placed.onVolume accepted
    rw [layout]
    refine ⟨order.below.trans on.1, fun a inside table => ?_⟩
    have before := order.copies _ table
    have data := on.1
    simp only [sectorSize] at inside before
    omega

/-- No byte of the file is in the sectors of the directory. -/
theorem FatVolume.Aloof.places (aloof : s.vol.Aloof c size p) (h : Tabled l f s) (order : l.InOrder)
    (holds : l.Holds c size) {q : Nat} (low : q < size) : ¬ s.Storing p (l.place c q) := by
  have accepted : l.Accepted := h.layout ▸ h.ok.accepted
  have layout := h.layout
  have start : q / l.clusterBytes * l.clusterBytes < size := cluster_start low
  have file := holds.placed _ start
  have on := file.onVolume accepted
  have rest := Nat.mod_lt q accepted.cluster_pos
  simp only [FatVolume.Aloof, layout] at aloof
  simp only [VolState.Storing, storeAccess, Layout.place]
  have sector := l.clusterSector (l.clusterToLba (c (q / l.clusterBytes))) rest
  split
  next fixed =>
    obtain ⟨-, -, behind⟩ := order.root (layout ▸ fixed.2)
    have data := on.1
    rw [layout]
    simp only [sectorSize] at sector ⊢
    omega
  next chain =>
    obtain ⟨placed, other⟩ := aloof chain
    rw [layout]
    have apart := other _ start
    rcases Nat.lt_or_gt_of_ne apart with less | more
    · have far := file.apart placed accepted less
      simp only [sectorSize] at sector ⊢
      omega
    · have far := placed.apart file accepted more
      simp only [sectorSize] at sector ⊢
      omega

/-- Two directories lie in one place or apart. -/
theorem FatVolume.Aloof.twins_or_spares {d : Nat} (first : s.vol.Aloof c size p) (second : s.vol.Aloof c size d)
    (h : Tabled l f s) (order : l.InOrder) : s.Twins p d ∨ s.Spares p d := by
  have accepted : l.Accepted := h.layout ▸ h.ok.accepted
  have layout := h.layout
  simp only [FatVolume.Aloof, layout] at first second
  simp only [VolState.Twins, VolState.Spares, storeAccess, layout]
  by_cases root : s.vol.FixedRoot d
  · rw [if_pos root]
    by_cases fixed : s.vol.FixedRoot p
    · exact .inl (.inl (root.1.trans fixed.1.symm))
    · exact .inr fixed
  · rw [if_neg root]
    have here := (second root).1
    by_cases fixed : s.vol.FixedRoot p
    · rw [if_pos fixed]
      obtain ⟨-, -, behind⟩ := order.root (layout ▸ fixed.2)
      exact .inr (.inr (behind.trans (here.onVolume accepted).1))
    · rw [if_neg fixed]
      have there := (first fixed).1
      rcases Nat.lt_trichotomy (s.vol.dirCluster d) (s.vol.dirCluster p) with less | same | more
      · exact .inr (.inl (here.apart there accepted less))
      · exact .inl (.inr ⟨fixed, root, by rw [same]⟩)
      · exact .inr (.inr (there.apart here accepted more))

/-- A directory whose sectors stay loads as before. -/
theorem Aside.loaded {d : Nat} (aside : Aside s t)
    (bytes : ∀ a, s.Storing d a → t.disk.bytes a = s.disk.bytes a) : t.loaded d = s.loaded d := by
  have fixed : t.vol.FixedRoot d ↔ s.vol.FixedRoot d := by
    simp only [FatVolume.FixedRoot, aside.layout]
  simp only [VolState.loaded, fixed]
  split
  next root => exact aside.root
  next chain =>
    have cluster : t.vol.dirCluster d = s.vol.dirCluster d := by
      simp only [FatVolume.dirCluster, aside.layout]
    rw [cluster, aside.layout]
    funext k
    simp only [splice, window]
    split
    next inside =>
      apply bytes
      simp only [VolState.Storing, storeAccess, if_neg chain]
      change 0 ≤ k ∧ k < 0 + s.vol.secPerCluster * sectorSize at inside
      rw [Nat.add_mul]
      omega
    · rfl

/-- First cluster and size as fs_write puts them into an entry. -/
def Dirent.fill (kind : FatKind) (e : Buffer) (first size : Nat) : Buffer :=
  Dirent.setSize (Dirent.setCluster kind e first) size

/-- Between two states slot `i` of directory `p` got the entry `e`. -/
structure Entered (l : Layout) (c : Nat → Nat) (size : Nat) (p i : Nat) (e : Buffer) (s t : VolState Disk) : Prop where
  layout : t.vol.toLayout = s.vol.toLayout
  diskId : t.vol.diskId = s.vol.diskId
  cwdIsRoot : t.vol.cwdIsRoot = s.vol.cwdIsRoot
  cwdCluster : t.vol.cwdCluster = s.vol.cwdCluster
  here : ∀ k, k < s.dirSlots p * 32 → t.loaded p k = splice (s.loaded p) (i * 32) 32 e k
  elsewhere : ∀ d, s.vol.Aloof c size d → s.Twins p d ∨ t.loaded d = s.loaded d
  bytes : ∀ a, ¬ s.Slack p a → t.disk.bytes a = s.disk.bytes a

theorem storeAccess_layout (same : t.vol.toLayout = s.vol.toLayout) (p : Nat) :
    storeAccess p t = storeAccess p s := by
  have fixed : t.vol.FixedRoot p ↔ s.vol.FixedRoot p := by
    simp only [FatVolume.FixedRoot, same]
  have cluster : t.vol.dirCluster p = s.vol.dirCluster p := by
    simp only [FatVolume.dirCluster, same]
  by_cases root : s.vol.FixedRoot p
  · rw [storeAccess, storeAccess, if_pos root, if_pos (fixed.mpr root), same]
  · rw [storeAccess, storeAccess, if_neg root, if_neg (mt fixed.mp root), cluster, same]

theorem storing_layout (same : t.vol.toLayout = s.vol.toLayout) (p a : Nat) : t.Storing p a ↔ s.Storing p a := by
  rw [VolState.Storing, storeAccess_layout same, VolState.Storing]

theorem dirSlots_layout (same : t.vol.toLayout = s.vol.toLayout) (p : Nat) : t.dirSlots p = s.dirSlots p := by
  have fixed : t.vol.FixedRoot p ↔ s.vol.FixedRoot p := by
    simp only [FatVolume.FixedRoot, same]
  by_cases root : s.vol.FixedRoot p
  · rw [VolState.dirSlots, VolState.dirSlots, if_pos root, if_pos (fixed.mpr root), same]
  · rw [VolState.dirSlots, VolState.dirSlots, if_neg root, if_neg (mt fixed.mp root), same]

theorem VolState.Twins.same {d : Nat} (twins : s.Twins p d) :
    s.dirSlots d = s.dirSlots p ∧ s.loaded d = s.loaded p := by
  rcases twins with rfl | ⟨chain, other, place⟩
  · exact ⟨rfl, rfl⟩
  · rw [VolState.dirSlots, VolState.dirSlots, if_neg chain, if_neg other, VolState.loaded, VolState.loaded,
      if_neg chain, if_neg other, place]
    exact ⟨rfl, rfl⟩

theorem twins_layout (same : t.vol.toLayout = s.vol.toLayout) (p d : Nat) : t.Twins p d ↔ s.Twins p d := by
  simp only [VolState.Twins, FatVolume.FixedRoot, FatVolume.dirCluster, same]

theorem updateDirent_entered (h : Tabled l f s) (order : l.InOrder) (aloof : s.vol.Aloof c size p)
    (i first bytes : Nat) : Tabled l f (updateDirent p (i * 32) first bytes s) ∧
      Entered l c size p i (Dirent.fill l.kind (window (s.loaded p) (i * 32)) first bytes) s
        (updateDirent p (i * 32) first bytes s) := by
  obtain ⟨whole, -, load⟩ := loadDir_loaded h.good p
  have keeps := (loadDir_reads p s).keeps
  generalize read : (loadDir p s).2 = u at keeps
  have tabled : Tabled l f u :=
    h.spared (by rw [keeps.vol]) (by rw [keeps.vol]) (by rw [keeps.vol]) (by rw [keeps.vol]) (by rw [keeps.vol])
      (keeps.good h.good) fun a _ => congrFun keeps.disk.bytes a
  have kind : u.vol.kind = l.kind := by rw [keeps.vol, h.layout]
  have run : updateDirent p (i * 32) first bytes s = (flushFat (storeDir p
      (splice (s.loaded p) (i * 32) 32 (Dirent.fill l.kind (window (s.loaded p) (i * 32)) first bytes))
      (u.useBuffer (i * 32 + 32) (u.vol.dirBuf p))).2).2 := by
    simp only [updateDirent, load, read, Dirent.fill, kind]
  generalize content : splice (s.loaded p) (i * 32) 32 _ = buf at run
  have before := tabled.useBuffer (i * 32 + 32) (u.vol.dirBuf p)
  have vol : (u.useBuffer (i * 32 + 32) (u.vol.dirBuf p)).vol = s.vol := keeps.vol
  have same : ∀ a, (u.useBuffer (i * 32 + 32) (u.vol.dirBuf p)).disk.bytes a = s.disk.bytes a :=
    fun a => congrFun keeps.disk.bytes a
  generalize u.useBuffer (i * 32 + 32) (u.vol.dirBuf p) = b at run before vol same
  have aside : Aside s b := .of_vol vol
  obtain ⟨behind, firm⟩ := aloof.store h order
  obtain ⟨-, disk, after⟩ := storeDir_run before.good p buf
  obtain ⟨-, stored⟩ := storeDir_stored before.good p buf
  have access : storeAccess p b = storeAccess p s := by simp only [storeAccess, vol]
  generalize (storeDir p buf b).2 = v at run disk after stored
  have written (a : Nat) (outside : ¬ s.Storing p a) : v.disk.bytes a = s.disk.bytes a := by
    rw [disk, access, ← same a]
    apply Disk.write_outside
    simp only [VolState.Storing] at outside
    omega
  have held : Tabled l f v := by
    refine before.spared stored.layout ?_ ?_ ?_ ?_ stored.good fun a low => ?_
    · rw [after]; split <;> rfl
    · rw [after]; split <;> rfl
    · rw [after]; split <;> rfl
    · rw [after]; split <;> rfl
    · rw [same, written a]
      intro inside
      have scaled := Nat.mul_le_mul_right sectorSize behind
      have low' := inside.1
      omega
  obtain ⟨flushed, only⟩ := held.flush
  rw [← run] at flushed only
  generalize updateDirent p (i * 32) first bytes s = t at flushed only
  have layout : v.vol.toLayout = s.vol.toLayout := stored.layout.trans aside.layout
  have loaded (d : Nat) (far : ∀ a, s.Storing d a → ¬ l.Loose a) : t.loaded d = v.loaded d := by
    apply only.aside.loaded
    intro a inside
    apply only.bytes
    rw [layout, h.layout]
    exact far a ((storing_layout layout d a).mp inside)
  have original (d : Nat) : b.loaded d = s.loaded d :=
    aside.loaded fun a _ => same a
  refine ⟨flushed, only.layout.trans layout, only.diskId.trans (stored.diskId.trans aside.diskId),
    only.cwdIsRoot.trans (stored.cwdIsRoot.trans aside.cwdIsRoot),
    only.cwdCluster.trans (stored.cwdCluster.trans aside.cwdCluster), fun k low => ?_, fun d other => ?_, fun a firm' => ?_⟩
  · rw [loaded p firm, stored.here k (by rw [dirSlots_layout aside.layout]; exact low), content]
  · refine (aloof.twins_or_spares other h order).imp_right fun spares => ?_
    rw [loaded d (other.store h order).2, stored.spared d (by simpa only [VolState.Spares, access, vol] using spares),
      original]
  · rw [only.bytes a (by rw [layout, h.layout]; exact fun table => firm' (.inl (by rw [h.layout]; exact table)))]
    exact written a fun inside => firm' (.inr inside)

end Directory

/-! The entry. -/

section Entry
variable {kind : FatKind} {e : Buffer} {first size k : Nat}

theorem Dirent.fill_low (low : k < 12) : Dirent.fill kind e first size k = e k := by
  simp only [fill, setSize, setCluster]
  rw [writeLe32_outside _ _ (.inl (by omega)), writeLe16_outside _ _ (.inl (by omega)),
    writeLe16_outside _ _ (.inl (by omega))]

theorem Dirent.fill_size (small : size < 2 ^ 32) : Dirent.size (Dirent.fill kind e first size) = size := by
  rw [Dirent.size, fill, setSize, readLe32_write, Nat.mod_eq_of_lt small]

theorem Dirent.fill_cluster (small : first < 2 ^ valueBits kind) (table : kind ≠ .none) :
    Dirent.cluster kind (Dirent.fill kind e first size) = first := by
  have outside (b : Buffer) (j : Nat) (le : j + 2 ≤ 28) : readLe16 (setSize b size) j = readLe16 b j :=
    readLe16_congr fun k low => writeLe32_outside _ _ (.inl (by omega))
  rw [Dirent.cluster, fill, outside _ 20 (by decide), outside _ 26 (by decide), setCluster, readLe16_write,
    readLe16_write_ne _ _ (by decide), readLe16_write]
  cases kind with
  | none => exact absurd rfl table
  | fat32 =>
      have bound : first < 2 ^ 28 := small
      simp only [if_true]
      omega
  | fat12 =>
      have bound : first < 2 ^ 12 := small
      simp only [reduceCtorEq, if_false]
      omega
  | fat16 =>
      have bound : first < 2 ^ 16 := small
      simp only [reduceCtorEq, if_false]
      omega

end Entry

/-! A file between two calls. -/

/-- The volume holds a file of `size` bytes with the entry in slot `i` of directory `p`
and the first cluster `fc`, 0 for none yet; there is room for `room` bytes of it. -/
structure FileOn (l : Layout) (c : Nat → Nat) (room p i fc size : Nat) (s : VolState Disk) : Prop where
  table : ∃ g, Tabled l g s ∧ (∀ k, k * l.clusterBytes < room → l.target g fc k = some (c k)) ∧
    (fc ≠ 0 → l.Links g fc c size)
  empty : fc = 0 → size = 0
  cluster : Dirent.cluster l.kind (s.tree.entry p i) = fc
  bytes : Dirent.size (s.tree.entry p i) = size

/-- Of the directories that keep apart from the file, only the slot changed, and there
neither name nor attributes. -/
structure Kept (l : Layout) (c : Nat → Nat) (room p i : Nat) (s t : VolState Disk) : Prop where
  layout : t.vol.toLayout = s.vol.toLayout
  diskId : t.vol.diskId = s.vol.diskId
  cwdIsRoot : t.vol.cwdIsRoot = s.vol.cwdIsRoot
  cwdCluster : t.vol.cwdCluster = s.vol.cwdCluster
  entries : ∀ d, s.vol.Aloof c room d → ∀ j, j < s.dirSlots d → ∀ k, k < 32 →
    t.tree.entry d j k = s.tree.entry d j k ∨ s.Twins p d ∧ j = i ∧ 12 ≤ k

section Kept
variable {l : Layout} {c : Nat → Nat} {room p i : Nat} {s t u : VolState Disk}

theorem Kept.refl (l : Layout) (c : Nat → Nat) (room p i : Nat) (s : VolState Disk) : Kept l c room p i s s :=
  ⟨rfl, rfl, rfl, rfl, fun _ _ _ _ _ _ => .inl rfl⟩

theorem FatVolume.Aloof.of_layout {d : Nat} (same : t.vol.toLayout = s.vol.toLayout) (aloof : s.vol.Aloof c room d) :
    t.vol.Aloof c room d := by
  simpa only [FatVolume.Aloof, FatVolume.FixedRoot, FatVolume.dirCluster, same] using aloof

theorem Kept.trans (first : Kept l c room p i s t) (second : Kept l c room p i t u) : Kept l c room p i s u where
  layout := second.layout.trans first.layout
  diskId := second.diskId.trans first.diskId
  cwdIsRoot := second.cwdIsRoot.trans first.cwdIsRoot
  cwdCluster := second.cwdCluster.trans first.cwdCluster
  entries := by
    intro d aloof j inside k low
    have later := second.entries d (aloof.of_layout first.layout) j (by rw [dirSlots_layout first.layout]; exact inside)
      k low
    rcases later with same | ⟨twins, slot⟩
    · exact (first.entries d aloof j inside k low).imp_left same.trans
    · exact .inr ⟨(twins_layout first.layout p d).mp twins, slot⟩

/-- Work on the table and on the bytes of the file keeps the directories. -/
theorem Kept.of_aside {f : Nat → Nat} (h : Tabled l f s) (order : l.InOrder) (holds : l.Holds c room) (aside : Aside s t)
    (bytes : ∀ a, ¬ l.Loose a → (∀ q, q < room → l.place c q ≠ a) → t.disk.bytes a = s.disk.bytes a) :
    Kept l c room p i s t where
  layout := aside.layout
  diskId := aside.diskId
  cwdIsRoot := aside.cwdIsRoot
  cwdCluster := aside.cwdCluster
  entries := by
    intro d aloof j inside k low
    left
    have same : t.loaded d = s.loaded d := by
      apply aside.loaded
      intro a storing
      apply bytes a ((aloof.store h order).2 a storing)
      intro q less here
      exact aloof.places h order holds less (here ▸ storing)
    change t.loaded d _ = s.loaded d _
    rw [same]

theorem Entered.entry_new {e : Buffer} (entered : Entered l c room p i e s t) (inside : i < s.dirSlots p) {k : Nat}
    (low : k < 32) : t.tree.entry p i k = e k :=
  (entered.here _ (by omega)).trans (splice_add _ _ low)

theorem Entered.kept {first size : Nat} (entered : Entered l c room p i
    (Dirent.fill l.kind (window (s.loaded p) (i * 32)) first size) s t) (inside : i < s.dirSlots p) :
    Kept l c room p i s t where
  layout := entered.layout
  diskId := entered.diskId
  cwdIsRoot := entered.cwdIsRoot
  cwdCluster := entered.cwdCluster
  entries := by
    intro d aloof j low k bound
    rcases entered.elsewhere d aloof with twins | same
    · have before := twins.same
      have after := ((twins_layout entered.layout p d).mpr twins).same.2
      change t.loaded d (j * 32 + k) = s.loaded d (j * 32 + k) ∨ _
      rw [after, before.2, entered.here _ (by omega)]
      by_cases here : j = i
      · subst here
        rw [splice_add _ _ bound]
        by_cases name : k < 12
        · exact .inl (Dirent.fill_low name)
        · exact .inr ⟨twins, rfl, by omega⟩
      · left
        apply splice_outside
        omega
    · left
      change t.loaded d _ = s.loaded d _
      rw [same]

end Kept

section Step
variable {l : Layout} {c : Nat → Nat} {room p i fc size : Nat} {s t : VolState Disk}

/-- The bytes of the file keep out of what a write may change besides. -/
theorem FatVolume.Aloof.apart {f : Nat → Nat} (aloof : s.vol.Aloof c room p) (h : Tabled l f s) (order : l.InOrder)
    (holds : l.Holds c room) : Apart (l.place c) (s.Slack p) room := by
  have accepted : l.Accepted := h.layout ▸ h.ok.accepted
  have table := holds.apart accepted order.toLaid
  refine ⟨fun q low slack => ?_, table.inj⟩
  rcases slack with copies | storing
  · rw [h.layout] at copies
    exact table.firm q low copies
  · exact aloof.places h order holds low storing

theorem slack_layout (same : t.vol.toLayout = s.vol.toLayout) (p : Nat) : t.Slack p = s.Slack p := by
  funext a
  rw [VolState.Slack, VolState.Slack, same, propext (storing_layout same p a)]

/-- One call of fs_write, from a position inside the file. -/
theorem FileOn.write (file : FileOn l c room p i fc size s) (order : l.InOrder) (holds : l.Holds c room)
    (aloof : s.vol.Aloof c room p) (inside : i < s.dirSlots p) (some : 0 < room) (small : room < 2 ^ 32)
    {x : Handle} (long : x.size = size) (pos : x.pos ≤ size) (parent : x.parentDirCluster = p)
    (off : x.direntOffset = i * 32) {data : List UInt8} (fits : x.pos + data.length ≤ room) (short : size ≤ room) :
    (firstFor fc s).1 = c 0 ∧ 2 ≤ c 0 ∧ (firstFor fc s).2.vol.diskId = s.vol.diskId ∧
      (writeThrough { x with firstCluster := c 0 } data (firstFor fc s).2).1 = (data.length,
        { x with firstCluster := c 0, pos := x.pos + data.length, size := max size (x.pos + data.length) }) ∧
      FileOn l c room p i (c 0) (max size (x.pos + data.length))
        (writeThrough { x with firstCluster := c 0 } data (firstFor fc s).2).2 ∧
      Kept l c room p i s (writeThrough { x with firstCluster := c 0 } data (firstFor fc s).2).2 ∧
      Puts (l.place c) (s.Slack p) x.pos data s.disk.bytes
        (writeThrough { x with firstCluster := c 0 } data (firstFor fc s).2).2.disk.bytes := by
  obtain ⟨⟨g, h, target, links⟩, empty, -, -⟩ := file
  have accepted : l.Accepted := h.layout ▸ h.ok.accepted
  have placed := holds.placed 0 (by omega)
  have low := placed.low
  obtain ⟨taken, g1, h1, only, leads, used⟩ := h.begin (target 0 (by omega))
  refine ⟨taken, low, only.diskId, ?_⟩
  generalize (firstFor fc s).2 = s1 at h1 only
  have linked : l.Links g1 (c 0) c size := by
    by_cases none : fc = 0
    · rw [empty none]
      exact fun k low => absurd low (Nat.not_lt_zero _)
    · obtain ⟨same, rfl⟩ := used none
      exact same ▸ links none
  have lead : l.Leads g1 (c 0) c room := fun k low => (leads k).trans (target k low)
  obtain ⟨value, g2, wrote⟩ := @writeLoop_wrote l (c 0) c order.toLaid data.length x.pos data g1 s1 le_rfl h1
    (lt_of_le_of_lt fits small) (holds.shorter fits) (fun k low => lead k (low.trans_le fits))
    (fun k low => linked k (low.trans_le pos))
  have aside : Aside s (writeLoop (c 0) data.length x.pos data s1).2 := only.aside.trans wrote.aside
  have run : writeThrough { x with firstCluster := c 0 } data s1 = ((data.length,
      { x with firstCluster := c 0, pos := x.pos + data.length, size := max size (x.pos + data.length) }),
      updateDirent p (i * 32) (c 0) (max size (x.pos + data.length)) (writeLoop (c 0) data.length x.pos data s1).2) := by
    simp only [writeThrough, value, parent, off, long]
  generalize (writeLoop (c 0) data.length x.pos data s1).2 = s2 at wrote aside run
  obtain ⟨tabled, entered⟩ := updateDirent_entered wrote.tabled order (aloof.of_layout aside.layout) i (c 0)
    (max size (x.pos + data.length))
  rw [run]
  dsimp only
  generalize updateDirent p (i * 32) (c 0) (max size (x.pos + data.length)) s2 = s3 at tabled entered
  have inside' : i < s2.dirSlots p := by rw [dirSlots_layout aside.layout]; exact inside
  have kept := entered.kept inside'
  have apart := aloof.apart h order holds
  have loose (a : Nat) (table : l.Loose a) : s.Slack p a := .inl (by rw [h.layout]; exact table)
  have entry (k : Nat) (low : k < 32) := entered.entry_new inside' low
  refine ⟨rfl, ⟨⟨g2, tabled, fun k low => ?_, fun _ k low => ?_⟩, fun none => absurd low (by rw [none]; decide), ?_, ?_⟩, ?_, ?_⟩
  · rw [Layout.target, if_neg (by omega), wrote.grown.walks]
    exact lead k low
  · rcases Nat.lt_or_ge (k * l.clusterBytes) size with old | new
    · exact wrote.grown.links linked k old
    · exact wrote.links k (by omega)
  · rw [Dirent.cluster_congr _ entry]
    apply Dirent.fill_cluster (placed.link.trans l.fatEof_bits)
    rcases accepted.kind_cases with kind | kind | kind <;> rw [kind] <;> decide
  · calc
      _ = Dirent.size (Dirent.fill l.kind (window (s2.loaded p) (i * 32)) (c 0) (max size (x.pos + data.length))) :=
        readLe32_congr fun k low => entry (28 + k) (by omega)
      _ = max size (x.pos + data.length) := Dirent.fill_size (by omega)
  · refine (Kept.of_aside h order holds aside fun a firm other => ?_).trans kept
    have table := only.bytes a (by rw [h.layout]; exact firm)
    exact (wrote.puts.outside a firm fun k low => other _ (by omega)).trans table
  · have first : Puts (l.place c) (s.Slack p) x.pos [] s.disk.bytes s1.disk.bytes :=
      (only.puts h.layout _ _).mono loose
    have last : Puts (l.place c) (s.Slack p) (x.pos + data.length) [] s2.disk.bytes s3.disk.bytes := by
      apply Puts.of_loose
      intro a firm
      apply entered.bytes
      rintro (table | storing)
      · exact firm (.inl (by rw [← aside.layout]; exact table))
      · exact firm (.inr ((storing_layout aside.layout p a).mp storing))
    have both := first.append apart (by simpa using fits) (wrote.puts.mono loose)
    rw [List.nil_append] at both
    have whole := both.append apart (by simpa using fits) last
    rwa [List.append_nil] at whole

end Step

end Zenbite.Fat
