import Zenbite.Fat.Atomic
import Zenbite.Fat.File

/-! Resolving a path on a disk that answers, as a plain function of what the
directories hold. -/

namespace Zenbite.Fat

open Memory VolState

/-- The directories of a volume as load_dir shows them. -/
structure Tree where
  kind : FatKind
  buf : Nat → Buffer
  slots : Nat → Nat

namespace Tree

def entry (t : Tree) (d i : Nat) : Buffer := slot (t.buf d) i

def cluster (t : Tree) (d i : Nat) : Nat := Dirent.cluster t.kind (t.entry d i)

/-- The slot that find_in_dir finds. -/
def find (t : Tree) (d : Nat) (name83 : List UInt8) : Option Nat :=
  findFrom (t.buf d) name83 (t.slots d) 0

/-- Of `parentOf`. -/
def up (t : Tree) (d : Nat) : Nat :=
  if d = 0 then d else ((t.find d dotdotName).map (t.cluster d)).getD d

/-- Of `enterDir`. -/
def enter (t : Tree) (comp : List UInt8) (d : Nat) : Option Nat :=
  if comp = [46] then some d
  else if comp = [46, 46] then some (t.up d)
  else (t.find d (nameTo83 comp)).bind fun i =>
    if Dirent.hasAttr (t.entry d i) attrDir then some (t.cluster d i) else none

/-- Of `enterDirs`. -/
def enters (t : Tree) : List (List UInt8) → Nat → Option Nat
  | [], d => some d
  | comp :: comps, d => (t.enter comp d).bind (t.enters comps)

/-- Of `walkLeaf`. -/
def leaf (t : Tree) (comp : List UInt8) (allowMissing : Bool) (d : Nat) : Option Leaf :=
  if comp = [46] then some ⟨d, dotName, none⟩
  else if comp = [46, 46] then some ⟨t.up d, dotdotName, none⟩
  else if (t.find d (nameTo83 comp)).isNone ∧ allowMissing = false then none
  else some ⟨d, nameTo83 comp, (t.find d (nameTo83 comp)).map fun i => (t.entry d i, i * 32)⟩

/-- Of `walkVolume`. -/
def walk (t : Tree) (comps : List (List UInt8)) (allowMissing : Bool) (start : Nat) : Option Leaf :=
  match comps.getLast? with
  | none => some ⟨start, padTo 11 [], none⟩
  | some last => (t.enters comps.dropLast start).bind (t.leaf last allowMissing)

end Tree

namespace VolState

/-- The buffer of load_dir. -/
def loaded (s : VolState Disk) (d : Nat) : Buffer :=
  if s.vol.FixedRoot d then s.vol.root
  else splice (fun _ => 0) 0 s.vol.clusterBytes
    (window s.disk.bytes (s.vol.clusterToLba (s.vol.dirCluster d) * sectorSize))

def tree (s : VolState Disk) : Tree := ⟨s.vol.kind, s.loaded, s.dirSlots⟩

end VolState

theorem Keeps.tree {s t : VolState Disk} (keeps : Keeps s t) : t.tree = s.tree := by
  have buf : t.loaded = s.loaded := by
    funext d
    simp only [VolState.loaded, keeps.vol, keeps.disk.bytes]
  have slots : t.dirSlots = s.dirSlots := by
    funext d
    simp only [VolState.dirSlots, keeps.vol]
  simp only [VolState.tree, keeps.vol, buf, slots]

theorem Keeps.good {s t : VolState Disk} (keeps : Keeps s t) (good : s.disk.Faultless) :
    t.disk.Faultless := keeps.disk.faultless good

section Volume
variable {s : VolState Disk}

theorem loadDir_loaded (good : s.disk.Faultless) (d : Nat) : ∃ size, size / 32 = s.dirSlots d ∧
    (loadDir d s).1 = some (s.loaded d, size) := by
  simp only [loadDir, VolState.loaded, VolState.dirSlots]
  split
  · exact ⟨_, rfl, rfl⟩
  · have read := Disk.read_faultless good (s.vol.clusterToLba (s.vol.dirCluster d))
      s.vol.secPerCluster (fun _ => 0)
    have rc : ¬ (readCluster (s.vol.dirCluster d) (fun _ => 0) s).1 < 0 := by
      simp only [readCluster, diskRead_fst, useBuffer_disk, read]
      exact lt_irrefl 0
    rw [if_neg rc]
    refine ⟨s.vol.clusterBytes, rfl, ?_⟩
    simp only [readCluster, diskRead_buf, useBuffer_disk, read]
    rfl

theorem findInDir_tree (good : s.disk.Faultless) (d : Nat) (name83 : List UInt8) :
    (findInDir d name83 s).1 = (s.tree.find d name83).map fun i => (s.tree.entry d i, i * 32) := by
  obtain ⟨size, slots, load⟩ := loadDir_loaded good d
  simp only [findInDir, load, slots]
  rfl

theorem parentOf_tree (good : s.disk.Faultless) (d : Nat) : (parentOf d s).1 = s.tree.up d := by
  have kept : (findInDir d dotdotName s).2.vol = s.vol := (findInDir_reads d dotdotName s).vol
  have found := findInDir_tree good d dotdotName
  simp only [parentOf, Tree.up]
  split
  · rfl
  · cases slot : s.tree.find d dotdotName with
    | none =>
        simp only [slot, Option.map_none] at found
        simp only [found]
        rfl
    | some i =>
        simp only [slot, Option.map_some] at found
        simp only [found, kept]
        rfl

theorem enterDir_tree (good : s.disk.Faultless) (comp : List UInt8) (d : Nat) :
    (enterDir comp d s).1 = s.tree.enter comp d := by
  have kept : (findInDir d (nameTo83 comp) s).2.vol = s.vol := (findInDir_reads d _ s).vol
  have found := findInDir_tree good d (nameTo83 comp)
  simp only [enterDir, Tree.enter]
  split
  · rfl
  split
  · rw [parentOf_tree good]
  · cases slot : s.tree.find d (nameTo83 comp) with
    | none =>
        simp only [slot, Option.map_none] at found
        simp only [found]
        rfl
    | some i =>
        simp only [slot, Option.map_some] at found
        simp only [found, kept, Option.bind_some]
        split <;> rfl

theorem enterDirs_tree (comps : List (List UInt8)) : ∀ {s : VolState Disk}, s.disk.Faultless →
    ∀ d, (enterDirs comps d s).1 = s.tree.enters comps d := by
  induction comps with
  | nil => exact fun _ _ => rfl
  | cons comp comps ih =>
      intro s good d
      have keeps := (enterDir_reads comp d s).keeps
      have entered := enterDir_tree good comp d
      simp only [enterDirs, Tree.enters, ← entered]
      split
      next none => simp only [none, Option.bind_none]
      next some =>
        rw [some, Option.bind_some, ih (keeps.good good), keeps.tree]

theorem walkLeaf_tree (good : s.disk.Faultless) (comp : List UInt8) (allowMissing : Bool) (d : Nat) :
    (walkLeaf comp allowMissing d s).1 = s.tree.leaf comp allowMissing d := by
  have found := findInDir_tree good d (nameTo83 comp)
  simp only [walkLeaf, Tree.leaf]
  split
  · rfl
  split
  · rw [parentOf_tree good]
  · cases slot : s.tree.find d (nameTo83 comp) with
    | none =>
        simp only [slot, Option.map_none] at found
        simp only [found]
        cases allowMissing <;> simp
    | some i =>
        simp only [slot, Option.map_some] at found
        simp [found]

/-- The walk sees the tree and nothing else. -/
theorem walkVolume_tree (good : s.disk.Faultless) (path : List UInt8) (allowMissing : Bool) :
    (walkVolume path allowMissing s).1 =
      s.tree.walk (components path) allowMissing (s.vol.startDir (isAbsolute path)) := by
  simp only [walkVolume, Tree.walk]
  cases final : (components path).getLast? with
  | none => rfl
  | some last =>
      have keeps := (enterDirs_reads (components path).dropLast (s.vol.startDir (isAbsolute path)) s).keeps
      have entered := enterDirs_tree (components path).dropLast good (s.vol.startDir (isAbsolute path))
      simp only [← entered]
      split
      next none => simp only [none, Option.bind_none]
      next some => rw [some, Option.bind_some, walkLeaf_tree (keeps.good good), keeps.tree]

end Volume

/-! Over the drives. -/

namespace Fs

def tree (f : Fs) (d : Nat) : Tree := (f.vol d).tree

/-- Where a path goes: the drive, the first directory and the components. -/
def route (f : Fs) (path : List UInt8) : Option (Nat × Nat × List (List UInt8)) :=
  (parseDrive path).bind fun parsed => (parsed.1.or f.currentDrive).bind fun d =>
    if (f.vols d).kind = .none then none
    else some (d, (f.vols d).startDir (isAbsolute parsed.2), components parsed.2)

/-- Of `walkPath`. -/
def walk (f : Fs) (path : List UInt8) (allowMissing : Bool) : Option Walk :=
  (f.route path).bind fun r =>
    ((f.tree r.1).walk r.2.2 allowMissing r.2.1).map fun leaf => ⟨leaf, r.1⟩

/-- Besides, the current drive and the handles are as they were. -/
structure Only (f g : Fs) : Prop extends Fs.Keeps f g where
  currentDrive : g.currentDrive = f.currentDrive
  handles : g.handles = f.handles

theorem Only.refl (f : Fs) : Only f f := ⟨.refl f, rfl, rfl⟩

theorem Only.trans {f g h : Fs} (first : Only f g) (second : Only g h) : Only f h :=
  ⟨first.toKeeps.trans second.toKeeps, second.currentDrive.trans first.currentDrive,
    second.handles.trans first.handles⟩

theorem Only.tree {f g : Fs} (only : Only f g) (d : Nat) : g.tree d = f.tree d := (only.drive d).tree

theorem Only.route {f g : Fs} (only : Only f g) (path : List UInt8) : g.route path = f.route path := by
  simp only [Fs.route, only.vols, only.currentDrive]

theorem Only.walk {f g : Fs} (only : Only f g) (path : List UInt8) (allowMissing : Bool) :
    g.walk path allowMissing = f.walk path allowMissing := by
  simp only [Fs.walk, only.route, only.tree]

/-- No disk fails. -/
def Faultless (f : Fs) : Prop := ∀ id, (f.disks id).Faultless

theorem Only.good {f g : Fs} (only : Only f g) (good : f.Faultless) : g.Faultless := fun id =>
  (only.disks id).faultless (good id)

end Fs

theorem walkPath_only (path : List UInt8) (allowMissing : Bool) (f : Fs) :
    Fs.Only f (walkPath path allowMissing f).2 := by
  refine ⟨walkPath_keeps path allowMissing f, ?_, ?_⟩
  all_goals
    simp only [walkPath]
    split
    · rfl
    split
    · rfl
    split <;> rfl

theorem walkPath_tree {f : Fs} (good : f.Faultless) (path : List UInt8) (allowMissing : Bool) :
    (walkPath path allowMissing f).1 = f.walk path allowMissing := by
  simp only [walkPath, Fs.walk, Fs.route]
  cases parseDrive path with
  | none => rfl
  | some parsed =>
      simp only [Option.bind_some]
      cases parsed.1.or f.currentDrive with
      | none => rfl
      | some d =>
          simp only [Option.bind_some]
          split
          · rfl
          · have walked := walkVolume_tree (good (f.vols d).diskId) (s := f.vol d) parsed.2 allowMissing
            simp only [Fs.on, walked]
            rfl

/-- Where a path leads: the walk over its components. -/
theorem Fs.walk_some {f : Fs} {path : List UInt8} {allowMissing : Bool} {w : Walk}
    (walk : f.walk path allowMissing = some w) : ∃ drive rest, parseDrive path = some (drive, rest) ∧
      drive.or f.currentDrive = some w.drive ∧ (f.vols w.drive).kind ≠ .none ∧
      (f.tree w.drive).walk (components rest) allowMissing
        ((f.vols w.drive).startDir (isAbsolute rest)) = some w.toLeaf := by
  simp only [Fs.walk, Fs.route] at walk
  obtain ⟨r, route, walk⟩ := Option.bind_eq_some_iff.mp walk
  obtain ⟨⟨drive, rest⟩, parsed, route⟩ := Option.bind_eq_some_iff.mp route
  obtain ⟨d, current, route⟩ := Option.bind_eq_some_iff.mp route
  split at route
  · cases route
  next mounted =>
    obtain rfl := Option.some.inj route
    obtain ⟨leaf, led, rfl⟩ := Option.map_eq_some_iff.mp walk
    exact ⟨drive, rest, parsed, current, mounted, led⟩

theorem Fs.walk_eq {f : Fs} {path rest : List UInt8} {drive : Option Nat} {d : Nat}
    (parsed : parseDrive path = some (drive, rest)) (current : drive.or f.currentDrive = some d)
    (mounted : (f.vols d).kind ≠ .none) (allowMissing : Bool) : f.walk path allowMissing =
      ((f.tree d).walk (components rest) allowMissing ((f.vols d).startDir (isAbsolute rest))).map
        fun leaf => ⟨leaf, d⟩ := by
  simp only [Fs.walk, Fs.route, parsed, Option.bind_some, current, if_neg mounted]

namespace Tree
variable {t : Tree} {allowMissing : Bool} {start : Nat} {leaf : Leaf}

theorem walk_snoc (t : Tree) (front : List (List UInt8)) (last : List UInt8) (allowMissing : Bool)
    (start : Nat) : t.walk (front ++ [last]) allowMissing start =
      (t.enters front start).bind (t.leaf last allowMissing) := by
  simp only [walk, List.getLast?_concat, List.dropLast_concat]

theorem leaf_plain (t : Tree) {comp : List UInt8} (dot : comp ≠ [46]) (dots : comp ≠ [46, 46])
    (allowMissing : Bool) (d : Nat) : t.leaf comp allowMissing d =
      if (t.find d (nameTo83 comp)).isNone ∧ allowMissing = false then none
      else some ⟨d, nameTo83 comp, (t.find d (nameTo83 comp)).map fun i => (t.entry d i, i * 32)⟩ := by
  rw [Tree.leaf, if_neg dot, if_neg dots]

/-- Only a last component that is a name is looked up. -/
theorem walk_cases {comps : List (List UInt8)} (walk : t.walk comps allowMissing start = some leaf) :
    (leaf.entry = none ∧ ¬ Creatable leaf.name) ∨ ∃ front last, comps = front ++ [last] ∧
      last ≠ [46] ∧ last ≠ [46, 46] ∧ t.enters front start = some leaf.parent ∧
      leaf.name = nameTo83 last ∧ leaf.entry =
        (t.find leaf.parent (nameTo83 last)).map fun i => (t.entry leaf.parent i, i * 32) := by
  rcases List.eq_nil_or_concat comps with rfl | ⟨front, last, split⟩
  · obtain rfl := Option.some.inj walk
    exact .inl ⟨rfl, show ¬ Creatable (padTo 11 []) by decide⟩
  · rw [List.concat_eq_append] at split
    rw [split, walk_snoc] at walk
    obtain ⟨p, entered, here⟩ := Option.bind_eq_some_iff.mp walk
    by_cases dot : last = [46]
    · rw [Tree.leaf, if_pos dot] at here
      obtain rfl := Option.some.inj here
      exact .inl ⟨rfl, by simp [Creatable]⟩
    by_cases dots : last = [46, 46]
    · rw [Tree.leaf, if_neg dot, if_pos dots] at here
      obtain rfl := Option.some.inj here
      exact .inl ⟨rfl, by simp [Creatable]⟩
    · rw [leaf_plain t dot dots] at here
      split at here
      · cases here
      · obtain rfl := Option.some.inj here
        exact .inr ⟨front, last, split, dot, dots, entered, rfl, rfl⟩

/-- A walk that finds its leaf. -/
theorem walk_entry {comps : List (List UInt8)} {e : Buffer} {off : Nat}
    (walk : t.walk comps allowMissing start = some leaf) (entry : leaf.entry = some (e, off)) :
    ∃ front last i, comps = front ++ [last] ∧ t.enters front start = some leaf.parent ∧
      t.find leaf.parent (nameTo83 last) = some i ∧ e = t.entry leaf.parent i ∧ off = i * 32 := by
  rcases walk_cases walk with ⟨none, -⟩ | ⟨front, last, split, -, -, entered, -, found⟩
  · exact absurd (none.symm.trans entry) nofun
  · rw [entry] at found
    obtain ⟨i, here, same⟩ := Option.map_eq_some_iff.mp found.symm
    obtain ⟨rfl, rfl⟩ := Prod.mk.inj same
    exact ⟨front, last, i, split, entered, here, rfl, rfl⟩

/-- A walk to a new name. -/
theorem walk_missing {comps : List (List UInt8)} (walk : t.walk comps allowMissing start = some leaf)
    (missing : leaf.entry = none) (creatable : Creatable leaf.name) :
    ∃ front last, comps = front ++ [last] ∧ last ≠ [46] ∧ last ≠ [46, 46] ∧
      t.enters front start = some leaf.parent ∧ leaf.name = nameTo83 last ∧
      t.find leaf.parent (nameTo83 last) = none := by
  rcases walk_cases walk with ⟨-, never⟩ | ⟨front, last, split, dot, dots, entered, name, found⟩
  · exact absurd creatable never
  · rw [missing] at found
    exact ⟨front, last, split, dot, dots, entered, name, Option.map_eq_none_iff.mp found.symm⟩

theorem walk_found {front : List (List UInt8)} {last : List UInt8} {p i : Nat}
    (entered : t.enters front start = some p) (dot : last ≠ [46]) (dots : last ≠ [46, 46])
    (found : t.find p (nameTo83 last) = some i) (allowMissing : Bool) :
    t.walk (front ++ [last]) allowMissing start =
      some ⟨p, nameTo83 last, some (t.entry p i, i * 32)⟩ := by
  rw [walk_snoc, entered, Option.bind_some, leaf_plain t dot dots, found]
  rfl

end Tree

end Zenbite.Fat
