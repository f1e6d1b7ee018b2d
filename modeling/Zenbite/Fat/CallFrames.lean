import Zenbite.Fat.Buffers

/-! What every call but fs_mount and fs_unmount leaves alone: the layouts of the
drives, the handles that others hold and, if the volumes fit, the buffers. -/

namespace Zenbite.Fat

open Memory VolState

namespace Fs

def Fits (f : Fs) : Prop := ∀ d, (f.vols d).toLayout.Fits

/-- The layouts stay, a slot of the handle table in use was in use on the same
drive, and no buffer is left if `ok`. -/
structure Calm (ok : Prop) (f g : Fs) : Prop where
  layout : ∀ d, (g.vols d).toLayout = (f.vols d).toLayout
  owned : ∀ k, (g.handles k).inUse = true →
    (f.handles k).inUse = true ∧ (g.handles k).drive = (f.handles k).drive
  fault : f.Fits → ok → g.fault = f.fault

namespace Calm
variable {p q : Prop} {f g h : Fs}

theorem refl (f : Fs) : Calm p f f := ⟨fun _ => rfl, fun _ used => ⟨used, rfl⟩, fun _ _ => rfl⟩

theorem fits (calm : Calm p f g) (start : f.Fits) : g.Fits := fun d => by
  rw [calm.layout]
  exact start d

theorem trans (first : Calm p f g) (second : Calm q g h) (next : f.Fits → p → q) : Calm p f h := by
  refine ⟨fun d => (second.layout d).trans (first.layout d), fun k used => ?_, fun start ok => ?_⟩
  · obtain ⟨between, same⟩ := second.owned k used
    obtain ⟨before, drive⟩ := first.owned k between
    exact ⟨before, same.trans drive⟩
  · exact (second.fault (first.fits start) (next start ok)).trans (first.fault start ok)

theorem put {d : Nat} {s : VolState Disk} (quiet : Quiet p (f.vol d) s)
    (next : f.Fits → q → p) : Calm q f (f.putVol d s) := by
  refine ⟨fun e => ?_, fun _ used => ⟨used, rfl⟩, fun start ok => quiet.fault (next start ok)⟩
  simp only [putVol, Function.update_apply]
  split
  next same =>
    rw [same]
    exact quiet.layout
  · rfl

theorem on {α : Type} {d : Nat} {run : VolState Disk → α × VolState Disk}
    (quiet : Quiet (f.vol d).vol.toLayout.Fits (f.vol d) (run (f.vol d)).2) :
    Calm True f (f.on d run).2 := put quiet fun start _ => start d

theorem then_on {α : Type} {d : Nat} {run : VolState Disk → α × VolState Disk} (calm : Calm True f g)
    (quiet : Quiet (g.vol d).vol.toLayout.Fits (g.vol d) (run (g.vol d)).2) :
    Calm True f (g.on d run).2 := calm.trans (.on quiet) fun _ ok => ok

/-- A handle that was in use gets other contents. -/
theorem putHandle (calm : Calm p f g) {k : Nat} {x : Handle}
    (used : x.inUse = true → (f.handles k).inUse = true ∧ x.drive = (f.handles k).drive) :
    Calm p f (g.putHandle k x) := by
  refine ⟨calm.layout, fun j open_ => ?_, calm.fault⟩
  simp only [Fs.putHandle, Function.update_apply] at open_ ⊢
  split at open_
  next same =>
    rw [if_pos same, same]
    exact used open_
  next other =>
    rw [if_neg other]
    exact calm.owned j open_

end Calm

theorem handle_used {f : Fs} {h : Nat} {x : Handle} (found : f.handle h = some x) :
    f.handles h = x ∧ x.inUse = true := by
  simp only [handle] at found
  split at found
  next used =>
    obtain rfl := Option.some.inj found
    exact ⟨rfl, used.2⟩
  · cases found

end Fs

section Calls
variable {f : Fs}

open Fs (Calm)

theorem walkPath_calm (path : List UInt8) (allowMissing : Bool) (f : Fs) :
    Calm True f (walkPath path allowMissing f).2 := by
  simp only [walkPath]
  split
  · exact .refl f
  split
  · exact .refl f
  split
  · exact .refl f
  next d _ _ => exact .on (walkVolume_quiet _ _ (f.vol d))

theorem fsCreate_calm (path : List UInt8) (f : Fs) : Calm True f (fsCreate path f).2 := by
  have walk := walkPath_calm path true f
  simp only [fsCreate]
  split
  · exact walk
  · split
    · exact walk
    · split <;> exact walk.then_on (dirAddEntry_quiet _ _ _)

theorem fsUnlink_calm (path : List UInt8) (f : Fs) : Calm True f (fsUnlink path f).2 := by
  have walk := walkPath_calm path false f
  simp only [fsUnlink]
  split
  · exact walk
  · split
    · exact walk
    · split
      · exact walk
      · exact walk.then_on (removeEntry_quiet _ _ _ _)

theorem fsRename_calm (oldp newp : List UInt8) (f : Fs) :
    Calm True f (fsRename oldp newp f).2 := by
  have first := walkPath_calm oldp false f
  have second := first.trans (walkPath_calm newp true (walkPath oldp false f).2) fun _ ok => ok
  simp only [fsRename]
  split
  · exact first
  · split
    · exact first
    · split
      · exact second
      · split
        · exact second
        · exact second.then_on (dirUpdateEntry_quiet _ _ _ _)

theorem fsMkdir_calm (path : List UInt8) (f : Fs) : Calm True f (fsMkdir path f).2 := by
  have walk := walkPath_calm path true f
  simp only [fsMkdir]
  split
  · exact walk
  · split
    · exact walk
    · exact walk.then_on (addDir_quiet _ _ _)

theorem fsRmdir_calm (path : List UInt8) (f : Fs) : Calm True f (fsRmdir path f).2 := by
  have walk := walkPath_calm path false f
  simp only [fsRmdir]
  split
  · exact walk
  · split
    · exact walk
    · split
      · exact walk.then_on (removeDir_quiet _ _ _ _)
      · exact walk

theorem MetaCall.run_calm (call : MetaCall) (f : Fs) : Calm True f (call.run f).2 := by
  cases call with
  | create path => exact fsCreate_calm path f
  | unlink path => exact fsUnlink_calm path f
  | rename oldp newp => exact fsRename_calm oldp newp f
  | mkdir path => exact fsMkdir_calm path f
  | rmdir path => exact fsRmdir_calm path f

/-- fs_open takes a slot that was free, on a drive with a volume. -/
theorem fsOpen_cases (path : List UInt8) (f : Fs) :
    ∃ g, Calm True f g ∧ (fsOpen path f = (-1, g) ∨ ∃ (h : Nat) (x : Handle),
      fsOpen path f = ((h : Int), g.putHandle h x) ∧ (f.vols x.drive).kind ≠ .none) := by
  have walk := walkPath_calm path false f
  refine ⟨_, walk, ?_⟩
  simp only [fsOpen]
  split
  · exact .inl rfl
  next r found =>
    have drive : (f.vols r.drive).kind ≠ .none := by
      simp only [walkPath] at found
      split at found
      · cases found
      split at found
      · cases found
      split at found
      · cases found
      next d _ mounted =>
        obtain ⟨leaf, -, rfl⟩ := Option.map_eq_some_iff.mp found
        exact mounted
    split
    · exact .inl rfl
    · split
      · exact .inl rfl
      · split
        · exact .inl rfl
        next h _ => exact .inr ⟨h, _, rfl, drive⟩

theorem fsRead_calm (h n : Nat) (f : Fs) : Calm True f (fsRead h n f).2 := by
  simp only [fsRead]
  split
  · exact .refl f
  next x found =>
    obtain ⟨rfl, used⟩ := Fs.handle_used found
    split
    · exact .refl f
    · exact (Calm.on (readLoop_quiet _ _ _ _ _ _)).putHandle fun _ => ⟨used, rfl⟩

theorem fsWrite_calm (h : Nat) (data : List UInt8) (f : Fs) :
    Calm (∀ x ∈ f.handle h, x.WriteFits data.length (f.vols x.drive)) f (fsWrite h data f).2 := by
  simp only [fsWrite]
  split
  · exact .refl f
  next x found =>
    have first := firstFor_quiet x.firstCluster (f.vol x.drive)
    have after : Calm (∀ x ∈ f.handle h, x.WriteFits data.length (f.vols x.drive)) f
        (f.on x.drive (firstFor x.firstCluster)).2 := .put first fun start _ => start x.drive
    have layout : ((f.on x.drive (firstFor x.firstCluster)).2.vol x.drive).vol.toLayout =
        (f.vol x.drive).vol.toLayout := after.layout x.drive
    split
    · exact after
    next some =>
      split
      · exact after
      · obtain ⟨rfl, used⟩ := Fs.handle_used found
        refine (after.trans (.put (writeThrough_quiet _ _ _) fun _ ok => ok) fun start ok => ?_).putHandle
          fun _ => ⟨used, rfl⟩
        obtain ⟨chain, entry⟩ := ok _ found
        refine ⟨after.fits start _, ?_, ?_⟩
        · have room := firstFor_entry (start (f.handles h).drive) some chain
          simp only [FatVolume.HasEntry, layout]
          exact room
        · rw [FatVolume.dirBuf_layout layout]
          exact entry

theorem fsClose_calm (h : Nat) (f : Fs) : Calm True f (fsClose h f).2 := by
  simp only [fsClose]
  split
  · exact .refl f
  · exact (Calm.refl f).putHandle fun used => absurd used (by simp)

theorem fsChdir_calm (path : List UInt8) (f : Fs) : Calm True f (fsChdir path f).2 := by
  have walk := walkPath_calm path false f
  have moves (d target : Nat) (leaf : Leaf) : Calm True f ((walkPath path false f).2.putVol d
      (((walkPath path false f).2.vol d).modVol (·.chdir leaf target))) := by
    refine walk.trans (.put (p := True) ⟨?_, ?_, fun _ => rfl⟩ fun _ ok => ok) fun _ ok => ok
    all_goals
      simp only [modVol_vol, FatVolume.chdir]
      split <;> rfl
  simp only [fsChdir]
  split
  · exact walk
  · split
    · exact moves _ _ _
    · split
      · exact moves _ _ _
      · exact walk

theorem fsSetDrive_calm (letter : UInt8) (f : Fs) : Calm True f (fsSetDrive letter f).2 := by
  simp only [fsSetDrive]
  split
  · exact .refl f
  · split
    · exact .refl f
    · exact ⟨fun _ => rfl, fun _ used => ⟨used, rfl⟩, fun _ _ => rfl⟩

end Calls

theorem fsOpendir_calm (path : List UInt8) (s : FileSys) :
    s.toFs.Calm True (fsOpendir path s).2.toFs := by
  have walk := walkPath_calm path false s.toFs
  simp only [fsOpendir]
  split
  · exact walk
  · split
    · exact walk
    · split <;> exact walk

theorem fsReaddir_calm (h : Nat) (s : FileSys) : s.toFs.Calm True (fsReaddir h s).2.toFs := by
  have load := Fs.Calm.on (loadDir_quiet (s.dirhs (h - 1)).cluster (s.vol (s.dirhs (h - 1)).drive))
  simp only [fsReaddir]
  split
  · exact .refl s.toFs
  · split <;> exact load

/-- What a call needs so that no buffer is left: a boot sector that fits, a write
that fits. -/
def FsCall.Fits : FsCall → FileSys → Prop
  | .mount letter id, s => driveIdx letter ≠ none → (s.disks id).present = true →
      (s.disks id).answer ⟨false, 0, 1⟩ = .ok → (Layout.left (bootOf (s.disks id))).Fits
  | .write h data, s => ∀ x ∈ s.handle h, x.WriteFits data.length (s.vols x.drive)
  | _, _ => True

instance (call : FsCall) (s : FileSys) : Decidable (call.Fits s) := by
  cases call <;> simp only [FsCall.Fits] <;> infer_instance

/-- The drive whose slot a call clears. -/
def FsCall.clears : FsCall → FileSys → Option Nat
  | .mount letter id, s => if (s.disks id).present = true then driveIdx letter else none
  | .unmount letter, s => (driveIdx letter).filter fun d => decide ((s.vols d).kind ≠ .none)
  | _, _ => none

/-- The handle that a call opens. -/
def FsCall.opened : FsCall → FileSys → Option Nat
  | .opens path, s => let r := (fsOpen path s.toFs).1; if r < 0 then none else some r.toNat
  | _, _ => none

/-- The slot of `dirhs[]` that a call opens. -/
def FsCall.openedDir : FsCall → FileSys → Option Nat
  | .opendir path, s => let r := (fsOpendir path s).1; if r < 0 then none else some (r.toNat - 1)
  | _, _ => none

/-- A call that clears no drive and opens no file. -/
theorem FsCall.next_calm {call : FsCall} {s : FileSys} (clears : call.clears s = none)
    (opened : call.opened s = none) : s.toFs.Calm (call.Fits s) (call.next s).toFs := by
  cases call with
  | mount letter id =>
      simp only [FsCall.clears] at clears
      simp only [next, FileSys.setFs, fsMountOn]
      split
      · exact .refl s.toFs
      next idx drive =>
        split
        · exact .refl s.toFs
        next there =>
          rw [if_pos (by simpa using there), drive] at clears
          cases clears
  | unmount letter =>
      simp only [FsCall.clears] at clears
      simp only [next, FileSys.setFs, fsUnmountOf]
      split
      · exact .refl s.toFs
      next idx drive =>
        split
        · exact .refl s.toFs
        next mounted =>
          rw [drive, Option.filter_some, if_pos (by simpa using mounted)] at clears
          cases clears
  | opens path =>
      obtain ⟨g, calm, run | ⟨h, x, run, -⟩⟩ := fsOpen_cases path s.toFs
      · simp only [next, FileSys.setFs, run]
        exact ⟨calm.layout, calm.owned, fun fits _ => calm.fault fits trivial⟩
      · simp only [FsCall.opened, run, if_neg (show ¬ (h : Int) < 0 by omega)] at opened
        cases opened
  | setDrive letter => exact fsSetDrive_calm letter s.toFs
  | format id hidden label => exact ⟨fun _ => rfl, fun _ used => ⟨used, rfl⟩, fun _ _ => rfl⟩
  | chdir path => exact fsChdir_calm path s.toFs
  | close h => exact fsClose_calm h s.toFs
  | read h n => exact fsRead_calm h n s.toFs
  | write h data => exact fsWrite_calm h data s.toFs
  | tree call => exact call.run_calm s.toFs
  | opendir path => exact fsOpendir_calm path s
  | readdir h => exact fsReaddir_calm h s
  | closedir h =>
      simp only [next, fsClosedir]
      split <;> exact .refl s.toFs

end Zenbite.Fat
