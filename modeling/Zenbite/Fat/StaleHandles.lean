import Zenbite.Fat.CallFrames

/-! Handles keep a drive index; unmounting and mounting change the volume under
them. What the calls through a handle do once its volume is gone. -/

namespace Zenbite.Fat

open Memory VolState

/-- A volume function that wrote no sector and keeps a clean FAT cache clean. -/
structure Idle (s t : VolState Disk) : Prop where
  disk : s.disk.Unwritten t.disk
  clean : t.vol.fatCdirty = false

namespace Idle
variable {s t : VolState Disk}

theorem cacheLoad (clean : s.vol.fatCdirty = false) (sec : Nat) : Idle s (fatCacheLoad sec s).2 := by
  have flush : fatCacheFlush s = (0, s) := if_pos (.inl clean)
  have read := s.disk.read_unwritten (u32 (s.vol.fatLba + sec)) 1 s.vol.fatCbuf
  simp only [fatCacheLoad, flush]
  split
  · exact ⟨.refl _, clean⟩
  · split
    · exact ⟨.refl _, clean⟩
    · split <;> exact ⟨read, clean⟩

theorem get (clean : s.vol.fatCdirty = false) (c : Nat) : Idle s (fatGet c s).2 := by
  simp only [fatGet]
  split
  · exact ⟨.refl _, clean⟩
  · split <;> exact cacheLoad clean _
  · split <;> exact cacheLoad clean _

theorem walk (n c : Nat) (clean : s.vol.fatCdirty = false) : Idle s (clusterAfter n c s).2 := by
  induction n generalizing c s with
  | zero => exact ⟨.refl _, clean⟩
  | succ n ih =>
      simp only [clusterAfter]
      split
      · have here := get clean c
        have rest := ih (fatGet c s).1 here.clean
        exact ⟨here.disk.trans rest.disk, rest.clean⟩
      · exact ⟨.refl _, clean⟩

/-- A scan of the table that finds nothing. -/
theorem alloc (clean : s.vol.fatCdirty = false) (full : (allocCluster s).1 = 0) :
    Idle s (allocCluster s).2 := by
  have start : Idle s s := ⟨.refl _, clean⟩
  have step (c : Nat) (t : VolState Disk) (_ : c < 2 + (s.vol.maxCluster - 2)) (idle : Idle s t) :
      Idle s (fatGet c t).2 :=
    ⟨idle.disk.trans (get idle.clean c).disk, (get idle.clean c).clean⟩
  rcases allocFrom_rule _ step (s.vol.maxCluster - 2) 2 s le_rfl start with
    ⟨d, u, low, -, -, -, run, -⟩ | ⟨u, idle, run, -⟩
  · simp only [allocCluster, run] at full
    omega
  · simp only [allocCluster, run]
    exact ⟨idle.disk, idle.clean⟩

end Idle

def Fs.Unwritten (f g : Fs) : Prop := ∀ id, (f.disks id).Unwritten (g.disks id)

theorem Fs.Unwritten.put {f : Fs} {d : Nat} {s : VolState Disk}
    (same : (f.vol d).disk.Unwritten s.disk) : f.Unwritten (f.putVol d s) := by
  intro id
  simp only [putVol, Function.update_apply]
  split
  next here =>
    rw [here]
    exact same
  · exact .refl _

/-! The ghosts. -/

/-- The system with a note for every file handle and every directory handle
whether its volume was unmounted or replaced since it was opened. -/
structure Watched extends FileSys where
  stale : Nat → Bool
  staleDir : Nat → Bool

namespace Watched

def start (disks : Nat → Disk) : Watched := ⟨.start disks, fun _ => false, fun _ => false⟩

def next (call : FsCall) (w : Watched) : Watched where
  toFileSys := call.next w.toFileSys
  stale h :=
    if call.opened w.toFileSys = some h then false
    else w.stale h || decide (call.clears w.toFileSys = some (w.handles h).drive)
  staleDir h :=
    if call.openedDir w.toFileSys = some h then false
    else w.staleDir h || decide (call.clears w.toFileSys = some (w.dirhs h).drive)

/-- No division by zero, and through a stale handle an error or the end of the file,
with nothing written. -/
def Obeys (w : Watched) : FsCall → Prop
  | .read h n => (fsRead h n w.toFs).1 ≠ none ∧ ((w.handle h).isSome → w.stale h = true →
      (∀ r ∈ (fsRead h n w.toFs).1, r.1 ≤ 0 ∧ r.2 = []) ∧ w.toFs.Unwritten (fsRead h n w.toFs).2)
  | .write h data => (fsWrite h data w.toFs).1 ≠ none ∧ ((w.handle h).isSome → w.stale h = true →
      (∀ rc ∈ (fsWrite h data w.toFs).1, rc ≤ 0) ∧ w.toFs.Unwritten (fsWrite h data w.toFs).2)
  | .readdir h => (w.dirhs (h - 1)).inUse = true → w.staleDir (h - 1) = true →
      (fsReaddir h w.toFileSys).1 = none ∧ w.toFs.Unwritten (fsReaddir h w.toFileSys).2.toFs
  | _ => True

end Watched

/-- Nothing is read: no bytes are wanted, the position is at the end, or the walk
along the table of the volume that is mounted now ends before it. -/
def Handle.ReadEnds (x : Handle) (n : Nat) (s : VolState Disk) : Prop :=
  n = 0 ∨ x.size ≤ x.pos ∨ s.vol.clusterBytes ≠ 0 ∧ s.vol.fatCdirty = false ∧
    s.vol.fatEof ≤ (clusterAfter (x.pos / s.vol.clusterBytes) x.firstCluster s).1

instance (x : Handle) (n : Nat) (s : VolState Disk) : Decidable (x.ReadEnds n s) :=
  inferInstanceAs (Decidable (_ ∨ _ ∨ _ ∧ _ ∧ _))

/-- The slot of a drive without a volume. -/
structure FatVolume.Vacant (v : FatVolume) : Prop where
  kind : v.kind = .none
  cluster : v.secPerCluster = 0
  root : v.rootSizeSec = 0
  clean : v.fatCdirty = false

instance (v : FatVolume) : Decidable v.Vacant :=
  decidable_of_iff (v.kind = .none ∧ v.secPerCluster = 0 ∧ v.rootSizeSec = 0 ∧ v.fatCdirty = false)
    ⟨fun h => ⟨h.1, h.2.1, h.2.2.1, h.2.2.2⟩, fun h => ⟨h.kind, h.cluster, h.root, h.clean⟩⟩

/-- Nothing is written: a first cluster is wanted and there is none, or nothing is
to be written on a drive without a volume. -/
def Handle.WriteEnds (x : Handle) (data : List UInt8) (s : VolState Disk) : Prop :=
  x.firstCluster = 0 ∧ (allocCluster s).1 = 0 ∧ s.vol.fatCdirty = false ∨
    x.firstCluster ≠ 0 ∧ data = [] ∧ s.vol.Vacant

instance (x : Handle) (data : List UInt8) (s : VolState Disk) : Decidable (x.WriteEnds data s) :=
  inferInstanceAs (Decidable (_ ∧ _ ∧ _ ∨ _ ∧ _ ∧ _))

/-- The directory that is there now has no entry from the position on. -/
def DirHandle.ListEnds (x : DirHandle) (s : VolState Disk) : Prop :=
  (nextFrom (s.dirBytes x.cluster) (s.dirSlots x.cluster - x.entryIndex) x.entryIndex).1 = none

instance (x : DirHandle) (s : VolState Disk) : Decidable (x.ListEnds s) :=
  inferInstanceAs (Decidable (_ = _))

/-- A stale handle is used only where the call comes to nothing. -/
def Watched.Cautious (call : FsCall) (w : Watched) : Prop :=
  match call with
  | .read h n => ∀ x ∈ w.handle h, w.stale h = true → x.ReadEnds n (w.vol x.drive)
  | .write h data => ∀ x ∈ w.handle h, w.stale h = true → x.WriteEnds data (w.vol x.drive)
  | .readdir h => (w.dirhs (h - 1)).inUse = true → w.staleDir (h - 1) = true →
      (w.dirhs (h - 1)).ListEnds (w.vol (w.dirhs (h - 1)).drive)
  | _ => True

instance (w : Watched) : ∀ call : FsCall, Decidable (w.Cautious call)
  | .read _ _ | .write _ _ => inferInstanceAs (Decidable (∀ x ∈ _, _ → _))
  | .readdir _ => inferInstanceAs (Decidable (_ → _ → _))
  | .mount _ _ | .unmount _ | .setDrive _ | .format _ _ _ | .chdir _ | .opens _ | .close _ | .tree _
  | .opendir _ | .closedir _ => inferInstanceAs (Decidable True)

section Ends
variable {f : Fs} {h : Nat} {x : Handle}

theorem fsRead_ends {n : Nat} (found : f.handle h = some x) (ends : x.ReadEnds n (f.vol x.drive)) :
    (∃ r, (fsRead h n f).1 = some r ∧ r.1 ≤ 0 ∧ r.2 = []) ∧ f.Unwritten (fsRead h n f).2 := by
  have stays : (x.size ≤ x.pos ∨ n = 0) → readLoop x.firstCluster x.size n x.pos n (f.vol x.drive) =
      ((x.pos, []), f.vol x.drive) := by
    intro idle
    cases n with
    | zero => rfl
    | succ n => exact if_pos idle.symm
  simp only [fsRead, found]
  rcases ends with none | past | ⟨whole, clean, ended⟩
  · rw [if_neg (by omega), Fs.on, stays (.inr none)]
    exact ⟨⟨_, rfl, show int32 0 ≤ 0 by decide, rfl⟩, Fs.Unwritten.put (.refl _)⟩
  · rw [if_neg (by omega), Fs.on, stays (.inl past)]
    exact ⟨⟨_, rfl, show int32 0 ≤ 0 by decide, rfl⟩, Fs.Unwritten.put (.refl _)⟩
  · rw [if_neg fun zero => whole zero.1]
    by_cases idle : x.size ≤ x.pos ∨ n = 0
    · rw [Fs.on, stays idle]
      exact ⟨⟨_, rfl, show int32 0 ≤ 0 by decide, rfl⟩, Fs.Unwritten.put (.refl _)⟩
    · obtain ⟨m, rfl⟩ := Nat.exists_eq_succ_of_ne_zero (show n ≠ 0 by omega)
      have walk := clusterAfter_quiet (x.pos / (f.vol x.drive).vol.clusterBytes) x.firstCluster
        (f.vol x.drive)
      have run : readLoop x.firstCluster x.size (m + 1) x.pos (m + 1) (f.vol x.drive) =
          ((x.pos, []), (clusterAfter (x.pos / (f.vol x.drive).vol.clusterBytes) x.firstCluster
            (f.vol x.drive)).2) := by
        rw [readLoop, if_neg (by omega)]
        exact if_pos (by rw [walk.layout]; exact ended)
      rw [Fs.on, Nat.succ_eq_add_one, run]
      exact ⟨⟨_, rfl, show int32 0 ≤ 0 by decide, rfl⟩, Fs.Unwritten.put (Idle.walk _ _ clean).disk⟩

theorem storeDir_vacant {s : VolState Disk} (vacant : s.vol.Vacant) (d : Nat) (buf : Buffer) :
    s.disk.Unwritten (storeDir d buf s).2.disk ∧ (storeDir d buf s).2.vol.Vacant := by
  obtain ⟨kind, cluster, root, clean⟩ := vacant
  simp only [storeDir]
  split
  · have dirty : ¬ (s.modVol (·.rootWrite buf)).vol.rootDirty = false := Bool.noConfusion
    have write := s.disk.write_unwritten s.vol.rootLba buf
    rw [← root] at write
    simp only [flushRoot, if_neg dirty]
    split <;> exact ⟨write, kind, cluster, root, clean⟩
  · have write := s.disk.write_unwritten (s.vol.clusterToLba (s.vol.dirCluster d)) buf
    rw [← cluster] at write
    exact ⟨write, kind, cluster, root, clean⟩

theorem flushFat_vacant {s : VolState Disk} (vacant : s.vol.Vacant) : flushFat s = (0, s) := by
  simp only [flushFat, fatCacheFlush, vacant.kind, vacant.clean, true_or, if_true]

theorem updateDirent_vacant {s : VolState Disk} (vacant : s.vol.Vacant) (dir off first size : Nat) :
    s.disk.Unwritten (updateDirent dir off first size s).disk := by
  have load := loadDir_reads dir s
  have there : (loadDir dir s).2.vol.Vacant := by rw [load.vol]; exact vacant
  simp only [updateDirent]
  split
  · rw [flushFat_vacant there]
    exact load.traffic.unwritten
  · have store (buf : Buffer) := storeDir_vacant (s := (loadDir dir s).2.useBuffer (off + 32)
      ((loadDir dir s).2.vol.dirBuf dir)) there dir buf
    rw [flushFat_vacant (store _).2]
    exact load.traffic.unwritten.trans (store _).1

theorem fsWrite_ends {data : List UInt8} (found : f.handle h = some x)
    (ends : x.WriteEnds data (f.vol x.drive)) :
    (∃ rc, (fsWrite h data f).1 = some rc ∧ rc ≤ 0) ∧ f.Unwritten (fsWrite h data f).2 := by
  simp only [fsWrite, found]
  rcases ends with ⟨empty, full, clean⟩ | ⟨old, rfl, vacant⟩
  · have first : firstFor x.firstCluster (f.vol x.drive) = allocCluster (f.vol x.drive) := if_pos empty
    rw [Fs.on, first, if_pos full]
    exact ⟨⟨-1, rfl, by decide⟩, Fs.Unwritten.put (Idle.alloc clean full).disk⟩
  · have first : firstFor x.firstCluster (f.vol x.drive) = (x.firstCluster, f.vol x.drive) :=
      if_neg old
    have back : (f.putVol x.drive (f.vol x.drive)).vol x.drive = f.vol x.drive := Fs.vol_putVol rfl
    have same := Fs.Unwritten.put (f := f) (d := x.drive) (.refl (f.vol x.drive).disk)
    simp only [Fs.on, first, if_neg old, ne_eq, not_true, and_false, if_false, back]
    refine ⟨⟨_, rfl, show int32 0 ≤ 0 by decide⟩, fun id => (same id).trans ?_⟩
    refine Fs.Unwritten.put (f := f.putVol x.drive (f.vol x.drive)) ?_ id
    rw [back]
    exact updateDirent_vacant vacant _ _ _ _

theorem nextFrom_congr {a b : Buffer} : ∀ n i, (∀ k, i * 32 ≤ k → k < (i + n) * 32 → a k = b k) →
    nextFrom a n i = nextFrom b n i := by
  intro n
  induction n with
  | zero => exact fun i _ => rfl
  | succ n ih =>
      intro i agree
      have next := ih (i + 1) fun k low high => agree k (by omega) (by omega)
      have mark : slot a i 0 = slot b i 0 := agree (i * 32 + 0) (by omega) (by omega)
      have byte : slot a i 11 = slot b i 11 := agree (i * 32 + 11) (by omega) (by omega)
      have attr : Dirent.hasAttr (slot a i) attrVol = Dirent.hasAttr (slot b i) attrVol := by
        rw [Dirent.hasAttr, byte, Dirent.hasAttr]
      simp only [nextFrom, mark, attr, next]

theorem fsReaddir_ends {s : FileSys} {h : Nat}
    (ends : (s.dirhs (h - 1)).ListEnds (s.vol (s.dirhs (h - 1)).drive)) :
    (fsReaddir h s).1 = none ∧ s.toFs.Unwritten (fsReaddir h s).2.toFs := by
  have load := loadDir_reads (s.dirhs (h - 1)).cluster (s.vol (s.dirhs (h - 1)).drive)
  have silent : s.toFs.Unwritten (s.putVol (s.dirhs (h - 1)).drive (loadDir (s.dirhs (h - 1)).cluster
      (s.vol (s.dirhs (h - 1)).drive)).2) := Fs.Unwritten.put load.traffic.unwritten
  simp only [fsReaddir, Fs.on]
  split
  · exact ⟨rfl, fun id => .refl _⟩
  · split
    · exact ⟨rfl, silent⟩
    next buf size loaded =>
      obtain ⟨slots, shown⟩ := loadDir_some loaded
      refine ⟨?_, silent⟩
      rw [nextFrom_congr (b := (s.vol (s.dirhs (h - 1)).drive).dirBytes (s.dirhs (h - 1)).cluster)
        _ _ fun k low high => shown k (by omega), slots]
      exact Option.map_eq_none_iff.mpr ends

end Ends

/-! A drive that looks mounted has a cluster size. -/

theorem Layout.left_sized {boot : Buffer} (mounted : (Layout.left boot).kind ≠ .none) :
    (Layout.left boot).secPerCluster ≠ 0 := by
  simp only [Layout.left] at mounted ⊢
  split
  next refused =>
    rw [if_pos refused] at mounted
    exact absurd rfl mounted
  next passed =>
    push Not at passed
    rw [(Layout.ofBoot_header boot).1]
    exact passed.2.2

namespace Watched

/-- A drive with a volume has a cluster size, and so has the drive of a handle
whose volume is still there. -/
structure Sized (w : Watched) : Prop where
  mounted : ∀ d, (w.vols d).kind ≠ .none → (w.vols d).secPerCluster ≠ 0
  live : ∀ h, (w.handles h).inUse = true → w.stale h = false →
    (w.vols (w.handles h).drive).secPerCluster ≠ 0

theorem Sized.start (disks : Nat → Disk) : (start disks).Sized :=
  ⟨fun _ mounted => absurd rfl mounted, fun _ used => Bool.noConfusion used⟩

/-- A handle that is not stale after a call was just opened, or was not stale
before it on a drive that the call left alone. -/
theorem fresh_before {call : FsCall} {w : Watched} {h : Nat} (fresh : (next call w).stale h = false) :
    call.opened w.toFileSys = some h ∨
      w.stale h = false ∧ call.clears w.toFileSys ≠ some (w.handles h).drive := by
  simp only [next] at fresh
  split at fresh
  next new => exact .inl new
  · rw [Bool.or_eq_false_iff, decide_eq_false_iff_not] at fresh
    exact .inr fresh

/-- A call that clears drive `idx` and leaves a layout that has a cluster size if
it has a kind. -/
theorem Sized.cleared {call : FsCall} {w : Watched} (sized : w.Sized) {idx : Nat}
    (clears : call.clears w.toFileSys = some idx) (opened : call.opened w.toFileSys = none)
    (handles : (call.next w.toFileSys).handles = w.handles)
    (others : ∀ d, d ≠ idx → (call.next w.toFileSys).vols d = w.vols d)
    (here : ((call.next w.toFileSys).vols idx).kind ≠ .none →
      ((call.next w.toFileSys).vols idx).secPerCluster ≠ 0) : (next call w).Sized := by
  refine ⟨fun d mounted => ?_, fun h used fresh => ?_⟩
  · change ((call.next w.toFileSys).vols d).kind ≠ .none at mounted
    change ((call.next w.toFileSys).vols d).secPerCluster ≠ 0
    by_cases same : d = idx
    · subst same
      exact here mounted
    · rw [others d same] at mounted ⊢
      exact sized.mounted d mounted
  · change ((call.next w.toFileSys).handles h).inUse = true at used
    change ((call.next w.toFileSys).vols ((call.next w.toFileSys).handles h).drive).secPerCluster ≠ 0
    obtain ⟨before, apart⟩ := (fresh_before fresh).resolve_left (by simp [opened])
    rw [handles] at used ⊢
    rw [clears] at apart
    rw [others _ fun same => apart (by rw [same])]
    exact sized.live h used before

theorem Sized.calm {call : FsCall} {w : Watched} {p : Prop} (sized : w.Sized)
    (calm : w.toFs.Calm p (call.next w.toFileSys).toFs) (opened : call.opened w.toFileSys = none) :
    (next call w).Sized := by
  refine ⟨fun d mounted => ?_, fun h used fresh => ?_⟩
  · have layout : ((next call w).vols d).toLayout = (w.vols d).toLayout := calm.layout d
    rw [layout] at mounted ⊢
    exact sized.mounted d mounted
  · obtain ⟨before, -⟩ := (fresh_before fresh).resolve_left (by simp [opened])
    obtain ⟨was, drive⟩ := calm.owned h used
    have layout : ((next call w).vols ((next call w).handles h).drive).toLayout =
        (w.vols ((next call w).handles h).drive).toLayout := calm.layout _
    have same : ((next call w).handles h).drive = (w.handles h).drive := drive
    rw [layout, same]
    exact sized.live h was before

theorem Sized.opens {w : Watched} (sized : w.Sized) (path : List UInt8) :
    (next (.opens path) w).Sized := by
  obtain ⟨g, calm, run | ⟨k, x, run, mounted⟩⟩ := fsOpen_cases path w.toFs
  · refine sized.calm (p := True) ?_ ?_
    · simpa only [FsCall.next, FileSys.setFs, run] using calm
    · simp only [FsCall.opened, run]
      rfl
  · have opened : (FsCall.opens path).opened w.toFileSys = some k := by
      simp only [FsCall.opened, run]
      exact if_neg (by omega)
    have after : (FsCall.next (.opens path) w.toFileSys).toFs = g.putHandle k x := by
      simp only [FsCall.next, FileSys.setFs, run]
    have layout (d : Nat) : ((next (.opens path) w).vols d).toLayout = (w.vols d).toLayout := by
      change ((FsCall.next (.opens path) w.toFileSys).toFs.vols d).toLayout = _
      rw [after]
      exact calm.layout d
    have handle (h : Nat) : (next (.opens path) w).handles h = Function.update g.handles k x h := by
      change (FsCall.next (.opens path) w.toFileSys).toFs.handles h = _
      rw [after]
      rfl
    refine ⟨fun d there => ?_, fun h used fresh => ?_⟩
    · rw [layout] at there ⊢
      exact sized.mounted d there
    · rw [layout]
      rw [handle] at used ⊢
      by_cases new : h = k
      · subst new
        rw [Function.update_self]
        exact sized.mounted _ mounted
      · rw [Function.update_of_ne new] at used ⊢
        obtain ⟨was, drive⟩ := calm.owned h used
        obtain ⟨before, -⟩ := (fresh_before fresh).resolve_left (by
          rw [opened, Option.some_inj]
          exact fun same => new same.symm)
        rw [drive]
        exact sized.live h was before

theorem Sized.next (call : FsCall) {w : Watched} (sized : w.Sized) : (next call w).Sized := by
  cases clears : call.clears w.toFileSys with
  | none =>
      cases call with
      | opens path => exact sized.opens path
      | _ => exact sized.calm (FsCall.next_calm clears rfl) rfl
  | some idx =>
      cases call with
      | mount letter id =>
          simp only [FsCall.clears] at clears
          split at clears
          next present =>
            have after : FsCall.next (.mount letter id) w.toFileSys =
                w.setFs (fsMountOn letter id w.toFs).2 := rfl
            simp only [fsMountOn, clears, present, Bool.true_eq_false, if_false] at after
            have cleared : (FsCall.mount letter id).clears w.toFileSys = some idx := by
              simp only [FsCall.clears, present, clears, if_true]
            refine sized.cleared cleared rfl ?_ ?_ ?_
            · rw [after]
              rfl
            · intro d other
              rw [after]
              exact Function.update_of_ne other _ _
            · rw [after]
              simp only [FileSys.setFs, Function.update_self]
              rcases mountVolume_left (s := ⟨w.disks id, w.vols idx, w.fault, w.taken⟩) id present with
                zero | ⟨-, left⟩
              · rw [zero]
                exact fun mounted => absurd rfl mounted
              · rw [left]
                exact Layout.left_sized
          · cases clears
      | unmount letter =>
          obtain ⟨drive, mounted⟩ := Option.filter_eq_some_iff.mp clears
          have after : FsCall.next (.unmount letter) w.toFileSys =
              w.setFs (fsUnmountOf letter w.toFs).2 := rfl
          simp only [fsUnmountOf, drive, if_neg (of_decide_eq_true mounted)] at after
          refine sized.cleared clears rfl ?_ ?_ ?_
          · rw [after]
            rfl
          · intro d other
            rw [after]
            exact Function.update_of_ne other _ _
          · rw [after]
            simp only [FileSys.setFs, Fs.putVol, Function.update_self, modVol_vol]
            exact fun mounted => absurd rfl mounted
      | _ => cases clears

/-- In a state where every handle's volume has a cluster size, a cautious call
obeys. -/
theorem obeys_of_cautious {call : FsCall} {w : Watched} (sized : w.Sized) (cautious : w.Cautious call) :
    w.Obeys call := by
  have whole {h : Nat} {x : Handle} (found : w.handle h = some x) (fresh : w.stale h ≠ true) :
      (w.vols x.drive).clusterBytes ≠ 0 := by
    obtain ⟨rfl, used⟩ := Fs.handle_used found
    have spc := sized.live h used (by simpa using fresh)
    exact Nat.mul_ne_zero spc (by decide)
  cases call with
  | read h n =>
      cases found : w.handle h with
      | none =>
          simp only [Obeys, fsRead, found]
          exact ⟨by simp, fun used => by simp at used⟩
      | some x =>
          by_cases stale : w.stale h = true
          · obtain ⟨⟨r, run, rc, bytes⟩, silent⟩ := fsRead_ends found (cautious x found stale)
            refine ⟨by rw [run]; simp, fun _ _ => ⟨fun r' same => ?_, silent⟩⟩
            obtain rfl := Option.some.inj (run.symm.trans same)
            exact ⟨rc, bytes⟩
          · refine ⟨?_, fun _ is => absurd is stale⟩
            have size := whole found stale
            simp [fsRead, found, size]
  | write h data =>
      cases found : w.handle h with
      | none =>
          simp only [Obeys, fsWrite, found]
          exact ⟨by simp, fun used => by simp at used⟩
      | some x =>
          by_cases stale : w.stale h = true
          · obtain ⟨⟨rc, run, low⟩, silent⟩ := fsWrite_ends found (cautious x found stale)
            refine ⟨by rw [run]; simp, fun _ _ => ⟨fun rc' same => ?_, silent⟩⟩
            obtain rfl := Option.some.inj (run.symm.trans same)
            exact low
          · refine ⟨?_, fun _ is => absurd is stale⟩
            have size := whole found stale
            simp only [fsWrite, found, size, false_and, if_false]
            split <;> simp
  | readdir h => exact fun used stale => fsReaddir_ends (cautious used stale)
  | _ => trivial

end Watched

/-- In every interleaving of calls that uses stale handles only where that comes to
nothing, no call divides by zero, and nothing is read, listed or written through
a handle whose volume is gone. -/
theorem stale_handles_end (disks : Nat → Disk) {calls : List FsCall} {call : FsCall}
    (each : Runs.Each Watched.next Watched.Cautious calls (Watched.start disks))
    (cautious : (Runs.run Watched.next calls (Watched.start disks)).Cautious call) :
    (Runs.run Watched.next calls (Watched.start disks)).Obeys call := by
  have sized := each.run (fun a w (held : w.Sized) _ => held.next a) (.start disks)
  exact Watched.obeys_of_cautious sized cautious

/-- A FAT12 volume with an empty file "A" in its root directory. -/
def withFile : Disk := .image 40 fun a =>
  if a / sectorSize = 3 ∧ a % sectorSize < 32 then Dirent.make (nameTo83 [65]) attrArc (a % sectorSize)
  else Header.bootSector ⟨512, 1, 1, 2, 16, 1, 40⟩ 0 a

/-- The file is written, its volume replaced by that of another disk, and the
handle then read at its end. -/
theorem replaced_read_ends : (Runs.run Watched.next
    [.mount 65 0, .opens [65], .write 0 [1, 2], .unmount 65, .mount 65 1]
      (Watched.start fun _ => withFile)).Obeys (.read 0 5) :=
  stale_handles_end (fun _ => withFile) (by decide +kernel) (by decide +kernel)

/-- After fs_unmount, fs_write divides by the cluster size zero. -/
theorem unmounted_write_faults : ¬ (Runs.run Watched.next
    [.mount 65 0, .opens [65], .write 0 [1, 2], .unmount 65]
      (Watched.start fun _ => withFile)).Obeys (.write 0 [3]) :=
  fun obeys => obeys.1 (by decide +kernel)

end Zenbite.Fat
