import Zenbite.Lib.Queues
import Zenbite.Fat.Cwd
import Zenbite.Fat.FileWrite

/-! Opening a file, writing it in any parts, opening it again by its path and reading
it in any parts. -/

namespace Zenbite.Fat

open Memory VolState Chains Scatter Queues

/-! The path still leads to the file. -/

theorem findFrom_names {a b : Buffer} (name83 : List UInt8) : ∀ n i,
    (∀ j, i ≤ j → j < i + n → ∀ k, k < 12 → slot a j k = slot b j k) →
    findFrom a name83 n i = findFrom b name83 n i := by
  intro n
  induction n with
  | zero => exact fun _ _ => rfl
  | succ n ih =>
      intro i same
      have here := same i le_rfl (by omega)
      have attr : Dirent.hasAttr (slot a i) attrVol = Dirent.hasAttr (slot b i) attrVol := by
        rw [Dirent.hasAttr, here 11 (by decide), Dirent.hasAttr]
      have name : Dirent.name (slot a i) = Dirent.name (slot b i) :=
        List.map_congr_left fun k member => here k (by
          have := List.mem_range.mp member
          omega)
      have rest := ih (i + 1) fun j low high => same j (by omega) (by omega)
      simp only [findFrom, here 0 (by decide), attr, name, rest]

section Path
variable {l : Layout} {c : Nat → Nat} {room p i : Nat} {s t : VolState Disk}

namespace Kept

theorem find (kept : Kept l c room p i s t) {d : Nat} (aloof : s.vol.Aloof c room d) (name83 : List UInt8) :
    t.tree.find d name83 = s.tree.find d name83 := by
  have slots : t.tree.slots d = s.tree.slots d := dirSlots_layout kept.layout d
  rw [Tree.find, Tree.find, slots]
  apply findFrom_names
  intro j _ high k low
  rw [Nat.zero_add] at high
  have inside : j < s.dirSlots d := high
  exact (kept.entries d aloof j inside k (by omega)).resolve_right fun slot => by omega

/-- An entry other than the file's is what it was. -/
theorem cluster (kept : Kept l c room p i s t) {d j : Nat} (aloof : s.vol.Aloof c room d) (inside : j < s.dirSlots d)
    (other : ¬ (s.Twins p d ∧ j = i)) : t.tree.cluster d j = s.tree.cluster d j := by
  have kind : t.tree.kind = s.tree.kind := congrArg Layout.kind kept.layout
  rw [Tree.cluster, Tree.cluster, kind]
  apply Dirent.cluster_congr
  intro k low
  exact (kept.entries d aloof j inside k low).resolve_right fun slot => other ⟨slot.1, slot.2.1⟩

theorem find_inside {t : Tree} {d j : Nat} {name83 : List UInt8} (found : t.find d name83 = some j) :
    j < t.slots d := by
  have := liveFrom_lt (Tree.find_some found).1
  omega

/-- The file is no directory and not called "..". -/
structure Plain (e : Buffer) : Prop where
  file : Dirent.hasAttr e attrDir = false
  name : Dirent.name e ≠ dotdotName

theorem enter (kept : Kept l c room p i s t) (plain : Plain (s.tree.entry p i)) {d : Nat}
    (aloof : s.vol.Aloof c room d) (comp : List UInt8) : t.tree.enter comp d = s.tree.enter comp d := by
  have entry {j : Nat} (slot : s.Twins p d ∧ j = i) : s.tree.entry d j = s.tree.entry p i := by
    have same : s.tree.buf d = s.tree.buf p := slot.1.same.2
    rw [Tree.entry, Tree.entry, same, slot.2]
  have up : t.tree.up d = s.tree.up d := by
    simp only [Tree.up, kept.find aloof]
    split
    · rfl
    · cases found : s.tree.find d dotdotName with
      | none => rw [Option.map_none, Option.map_none]
      | some j =>
          rw [Option.map_some, Option.map_some, kept.cluster aloof (find_inside found)]
          intro slot
          have name := (Tree.find_some found).2
          rw [entry slot] at name
          exact plain.name name
  simp only [Tree.enter, kept.find aloof, up]
  split
  · rfl
  split
  · rfl
  · cases found : s.tree.find d (nameTo83 comp) with
    | none => rw [Option.bind_none, Option.bind_none]
    | some j =>
        have inside := find_inside found
        have attr : Dirent.hasAttr (t.tree.entry d j) attrDir = Dirent.hasAttr (s.tree.entry d j) attrDir := by
          have flags := (kept.entries d aloof j inside 11 (by decide)).resolve_right fun slot => by omega
          rw [Dirent.hasAttr, flags, Dirent.hasAttr]
        simp only [Option.bind_some, attr]
        split
        next dir =>
          rw [kept.cluster aloof inside]
          intro slot
          rw [entry slot, plain.file] at dir
          cases dir
        · rfl

theorem way (kept : Kept l c room p i s t) (plain : Plain (s.tree.entry p i)) :
    ∀ {comps : List (List UInt8)} {d : Nat}, (∀ x ∈ s.tree.way comps d, s.vol.Aloof c room x) →
      t.tree.way comps d = s.tree.way comps d := by
  intro comps
  induction comps with
  | nil =>
      intro d _
      rw [Tree.way, Tree.way]
  | cons comp comps ih =>
      intro d aloof
      rw [Tree.way, Tree.way, kept.enter plain (aloof d List.mem_cons_self)]
      cases entered : s.tree.enter comp d with
      | none => rw [Option.map_none, Option.map_none]
      | some next =>
          rw [Option.map_some, Option.map_some, ih]
          intro x member
          apply aloof x
          rw [Tree.way, entered]
          exact List.mem_cons_of_mem d member

theorem enters (kept : Kept l c room p i s t) (plain : Plain (s.tree.entry p i)) :
    ∀ {comps : List (List UInt8)} {d : Nat}, (∀ x ∈ s.tree.way comps d, s.vol.Aloof c room x) →
      t.tree.enters comps d = s.tree.enters comps d := by
  intro comps
  induction comps with
  | nil =>
      intro d _
      rw [Tree.enters, Tree.enters]
  | cons comp comps ih =>
      intro d aloof
      rw [Tree.enters, Tree.enters, kept.enter plain (aloof d List.mem_cons_self)]
      cases entered : s.tree.enter comp d with
      | none => rw [Option.bind_none, Option.bind_none]
      | some next =>
          rw [Option.bind_some, Option.bind_some]
          apply ih
          intro x member
          apply aloof x
          rw [Tree.way, entered]
          exact List.mem_cons_of_mem d member

end Kept

end Path

/-! The calls. -/

/-- Drive `d` holds a file with the entry in slot `i` of directory `p`, and handle `h`
is open on it at `pos`. -/
structure Fs.Working (l : Layout) (c : Nat → Nat) (room d p i h : Nat) (size pos : Nat) (f : Fs) : Prop where
  good : f.Faultless
  file : ∃ fc, FileOn l c room p i fc size (f.vol d) ∧ f.handle h = some ⟨true, d, fc, size, pos, p, i * 32⟩

/-- Of drive `d`, the file apart, nothing has changed, and nothing of the others. -/
structure Fs.Beside (l : Layout) (c : Nat → Nat) (room d p i : Nat) (f g : Fs) : Prop where
  kept : Kept l c room p i (f.vol d) (g.vol d)
  currentDrive : g.currentDrive = f.currentDrive
  others : ∀ e, e ≠ d → g.vols e = f.vols e
  disks : ∀ id, id ≠ (f.vols d).diskId → (g.disks id).bytes = (f.disks id).bytes

section Calls
variable {l : Layout} {c : Nat → Nat} {room d p i h : Nat} {f g : Fs}

theorem Fs.Beside.trans {k : Fs} (first : Fs.Beside l c room d p i f g) (second : Fs.Beside l c room d p i g k) :
    Fs.Beside l c room d p i f k :=
  ⟨first.kept.trans second.kept, second.currentDrive.trans first.currentDrive,
    fun e other => (second.others e other).trans (first.others e other),
    fun id other => (second.disks id (by rw [show (g.vols d).diskId = (f.vols d).diskId from first.kept.diskId]; exact other)).trans
      (first.disks id other)⟩

theorem Fs.handle_put {x : Handle} (low : h < maxHandles) (used : x.inUse = true) : (f.putHandle h x).handle h = some x := by
  simp only [Fs.handle, Fs.putHandle, Function.update_self, low, used, and_self, if_true]

theorem Fs.handle_low {x : Handle} (found : f.handle h = some x) : h < maxHandles ∧ x.inUse = true := by
  simp only [Fs.handle] at found
  split at found
  next used =>
    obtain rfl := Option.some.inj found
    exact used
  · cases found

/-- The other disks stay without faults. -/
theorem Fs.Faultless.put {s : VolState Disk} (good : f.Faultless) (here : s.disk.Faultless) :
    (f.putVol d s).Faultless := by
  intro id
  simp only [Fs.putVol, Function.update_apply]
  split
  · exact here
  · exact good id

theorem FileOn.good {fc size : Nat} {s : VolState Disk} (file : FileOn l c room p i fc size s) : s.disk.Faultless := by
  obtain ⟨g, h, -⟩ := file.table
  exact h.good

/-- The same file on a disk that was only read. -/
theorem FileOn.keeps {fc size : Nat} {s t : VolState Disk} (file : FileOn l c room p i fc size s) (keeps : Keeps s t) :
    FileOn l c room p i fc size t := by
  obtain ⟨⟨g, h, rest⟩, empty, cluster, bytes⟩ := file
  have tree := keeps.tree
  refine ⟨⟨g, h.spared (by rw [keeps.vol]) (by rw [keeps.vol]) (by rw [keeps.vol]) (by rw [keeps.vol])
    (by rw [keeps.vol]) (keeps.good h.good) fun a _ => congrFun keeps.disk.bytes a, rest⟩, empty, ?_, ?_⟩
  · rw [tree, cluster]
  · rw [tree, bytes]

theorem Kept.of_keeps {s t : VolState Disk} (keeps : Keeps s t) : Kept l c room p i s t where
  layout := by rw [keeps.vol]
  diskId := by rw [keeps.vol]
  cwdIsRoot := by rw [keeps.vol]
  cwdCluster := by rw [keeps.vol]
  entries := fun _ _ _ _ _ _ => .inl (by rw [keeps.tree])

/-- What every call works under: the areas in order, the clusters apart, the directory
of the entry none of them. -/
structure Fs.Room (l : Layout) (c : Nat → Nat) (room d p i : Nat) (f : Fs) : Prop where
  order : l.InOrder
  holds : l.Holds c room
  aloof : (f.vols d).Aloof c room p
  inside : i < (f.vol d).dirSlots p
  positive : 0 < room
  small : room < 2 ^ 31

theorem Fs.Room.after (room' : Fs.Room l c room d p i f) (beside : Fs.Beside l c room d p i f g) :
    Fs.Room l c room d p i g :=
  ⟨room'.order, room'.holds, room'.aloof.of_layout (s := f.vol d) (t := g.vol d) beside.kept.layout,
    by rw [dirSlots_layout beside.kept.layout]; exact room'.inside, room'.positive, room'.small⟩

theorem Fs.putVol_twice {s t : VolState Disk} (same : s.vol.diskId = (f.vols d).diskId) :
    (f.putVol d s).putVol d t = f.putVol d t := by
  simp only [Fs.putVol, Function.update_self, Function.update_idem, same]

theorem int32_small {n : Nat} (small : n < 2 ^ 31) : int32 n = n := by
  rw [int32, u32_of_lt (by omega), if_pos small]

/-- fs_write on the open file. -/
theorem Fs.Working.write {size pos : Nat} (work : Fs.Working l c room d p i h size pos f) (ground : Fs.Room l c room d p i f)
    {data : List UInt8} (before : pos ≤ size) (fits : pos + data.length ≤ room) (short : size ≤ room) :
    (fsWrite h data f).1 = some (data.length : Int) ∧
      Fs.Working l c room d p i h (max size (pos + data.length)) (pos + data.length) (fsWrite h data f).2 ∧
      Fs.Beside l c room d p i f (fsWrite h data f).2 ∧
      Puts (l.place c) ((f.vol d).Slack p) pos data (f.vol d).disk.bytes ((fsWrite h data f).2.vol d).disk.bytes := by
  obtain ⟨good, fc, file, found⟩ := work
  obtain ⟨order, holds, aloof, inside, full, small⟩ := ground
  have small' : room < 2 ^ 32 := by omega
  obtain ⟨taken, low, disk, value, file', kept, puts⟩ := file.write (x := ⟨true, d, fc, size, pos, p, i * 32⟩) order holds aloof
    inside full small' rfl before rfl rfl fits short
  have accepted : l.Accepted := by
    obtain ⟨⟨g, h, -⟩, -⟩ := file
    exact h.layout ▸ h.ok.accepted
  have layout : (f.vols d).toLayout = l := by
    obtain ⟨⟨g, h, -⟩, -⟩ := file
    exact h.layout
  have bytes : ¬ ((f.vols d).clusterBytes = 0 ∧ data ≠ []) := by
    rw [layout]
    exact fun zero => absurd zero.1 accepted.cluster_pos.ne'
  have length : int32 data.length = data.length := int32_small (by omega)
  have back : (f.putVol d (firstFor fc (f.vol d)).2).vol d = (firstFor fc (f.vol d)).2 := Fs.vol_putVol disk
  have run : fsWrite h data f = (some (data.length : Int),
      (f.putVol d (writeThrough ⟨true, d, c 0, size, pos, p, i * 32⟩ data (firstFor fc (f.vol d)).2).2).putHandle h
        ⟨true, d, c 0, max size (pos + data.length), pos + data.length, p, i * 32⟩) := by
    have begun : c 0 ≠ 0 := by omega
    simp only [fsWrite, found, Fs.on, taken, back, value, length, if_neg begun, if_neg bytes, Fs.putVol_twice disk]
  have vol : (fsWrite h data f).2.vol d =
      (writeThrough ⟨true, d, c 0, size, pos, p, i * 32⟩ data (firstFor fc (f.vol d)).2).2 := by
    rw [run]
    exact Fs.vol_putVol kept.diskId
  rw [vol]
  refine ⟨by rw [run], ⟨?_, c 0, by rw [vol]; exact file', ?_⟩, ⟨by rw [vol]; exact kept, ?_, fun e other => ?_,
    fun id other => congrArg Disk.bytes ?_⟩, puts⟩
  · rw [run]
    exact Fs.Faultless.put good file'.good
  · rw [run]
    exact Fs.handle_put (Fs.handle_low found).1 rfl
  · rw [run]
    rfl
  · rw [run]
    exact Function.update_of_ne other _ _
  · rw [run]
    exact Function.update_of_ne other _ _

end Calls

/-! Runs of calls. -/

/-- fs_write as a step, and what it returns. -/
def Fs.write (h : Nat) (data : List UInt8) (f : Fs) : Fs := (fsWrite h data f).2

def Fs.wrote (h : Nat) (data : List UInt8) (f : Fs) : List (Option Int) := [(fsWrite h data f).1]

/-- fs_read as a step, and what it returns. -/
def Fs.read (h : Nat) (n : Nat) (f : Fs) : Fs := (fsRead h n f).2

def Fs.gave (h : Nat) (n : Nat) (f : Fs) : List (Option (Int × List UInt8)) := [(fsRead h n f).1]

section Writes
variable {l : Layout} {c : Nat → Nat} {room d p i h : Nat}

theorem Fs.Working.writes : ∀ (parts : List (List UInt8)) {size pos : Nat} {f : Fs},
    Fs.Working l c room d p i h size pos f → Fs.Room l c room d p i f → pos ≤ size →
    pos + parts.flatten.length ≤ room → size ≤ room →
    outputs (Fs.write h) (Fs.wrote h) parts f = parts.map (fun data => some (data.length : Int)) ∧
      Fs.Working l c room d p i h (max size (pos + parts.flatten.length)) (pos + parts.flatten.length)
        (Runs.run (Fs.write h) parts f) ∧
      Fs.Beside l c room d p i f (Runs.run (Fs.write h) parts f) ∧
      Puts (l.place c) ((f.vol d).Slack p) pos parts.flatten (f.vol d).disk.bytes
        ((Runs.run (Fs.write h) parts f).vol d).disk.bytes := by
  intro parts
  induction parts with
  | nil =>
      intro size pos f work _ before _ _
      rw [List.flatten_nil, List.length_nil, Nat.add_zero, Nat.max_eq_left before]
      exact ⟨rfl, work, ⟨.refl l c room p i _, rfl, fun _ _ => rfl, fun _ _ => rfl⟩, .of_loose fun _ _ => rfl⟩
  | cons data parts ih =>
      intro size pos f work ground before fits short
      rw [List.flatten_cons, List.length_append] at fits
      obtain ⟨value, work', beside, puts⟩ := work.write ground before (by omega : pos + data.length ≤ room) short
      obtain ⟨values, work'', beside', puts'⟩ := ih work' (ground.after beside) (by omega) (by omega) (by omega)
      have size' : max (max size (pos + data.length)) (pos + data.length + parts.flatten.length) =
          max size (pos + (data ++ parts.flatten).length) := by
        rw [List.length_append]
        omega
      have pos' : pos + data.length + parts.flatten.length = pos + (data ++ parts.flatten).length := by
        rw [List.length_append, Nat.add_assoc]
      rw [size', pos'] at work''
      rw [slack_layout beside.kept.layout] at puts'
      have apart : Apart (l.place c) ((f.vol d).Slack p) room := by
        obtain ⟨-, -, ⟨⟨g, table, -⟩, -⟩, -⟩ := work
        exact FatVolume.Aloof.apart ground.aloof table ground.order ground.holds
      refine ⟨?_, work'', beside.trans beside', puts.append apart (by omega) puts'⟩
      rw [outputs, List.map_cons, Fs.wrote, value, List.singleton_append]
      exact congrArg _ values

end Writes

section Reads
variable {l : Layout} {c : Nat → Nat} {d h size : Nat}

/-- Handle `h` is open at `pos` on a file of drive `d`. -/
structure Fs.Reading (l : Layout) (c : Nat → Nat) (d h size pos : Nat) (f : Fs) : Prop where
  file : ∃ g fc p off, f.handle h = some ⟨true, d, fc, size, pos, p, off⟩ ∧ Tabled l g (f.vol d) ∧
    l.Links g fc c size

theorem Fs.Reading.read (laid : l.Laid) (holds : l.Holds c size) (small : size < 2 ^ 31) {pos : Nat} {f : Fs}
    (reading : Fs.Reading l c d h size pos f) (n : Nat) :
    (fsRead h n f).1 = some (((min n (size - pos) : Nat) : Int), collect (l.place c) (f.vol d).disk.bytes pos (min n (size - pos))) ∧
      Fs.Reading l c d h size (pos + min n (size - pos)) (fsRead h n f).2 ∧
      ∀ a, ¬ l.Loose a → ((fsRead h n f).2.vol d).disk.bytes a = (f.vol d).disk.bytes a := by
  obtain ⟨g, fc, p, off, found, table, links⟩ := reading
  have accepted : l.Accepted := table.layout ▸ table.ok.accepted
  have layout : (f.vols d).toLayout = l := table.layout
  have cluster : ¬ ((f.vols d).clusterBytes = 0 ∧ 0 < n ∧ pos < size) := by
    rw [layout]
    exact fun zero => absurd zero.1 accepted.cluster_pos.ne'
  obtain ⟨value, looked⟩ := readLoop_collect laid holds links n le_rfl table
  have back : (f.putVol d (readLoop fc size n pos n (f.vol d)).2).vol d = (readLoop fc size n pos n (f.vol d)).2 :=
    Fs.vol_putVol looked.aside.diskId
  have run : fsRead h n f = (some (((min n (size - pos) : Nat) : Int), collect (l.place c) (f.vol d).disk.bytes pos (min n (size - pos))),
      (f.putVol d (readLoop fc size n pos n (f.vol d)).2).putHandle h
        ⟨true, d, fc, size, pos + min n (size - pos), p, off⟩) := by
    have length : int32 (min n (size - pos)) = (min n (size - pos) : Nat) := int32_small (by omega)
    simp only [fsRead, found, Fs.on, value, collect_length, length, if_neg cluster]
  rw [run]
  exact ⟨rfl, ⟨g, fc, p, off, Fs.handle_put (Fs.handle_low found).1 rfl, back.symm ▸ looked.tabled, links⟩,
    fun a firm => (congrArg (fun s => s.disk.bytes a) back).trans (looked.bytes a firm)⟩

theorem Fs.Reading.reads (laid : l.Laid) (holds : l.Holds c size) (small : size < 2 ^ 31) :
    ∀ (counts : List Nat) {pos : Nat} {f : Fs}, Fs.Reading l c d h size pos f →
    outputs (Fs.read h) (Fs.gave h) counts f =
      (pieces (collect (l.place c) (f.vol d).disk.bytes pos (size - pos)) counts).map fun piece =>
        some ((piece.length : Int), piece) := by
  intro counts
  induction counts with
  | nil => exact fun _ => rfl
  | cons n counts ih =>
      intro pos f reading
      obtain ⟨value, next, bytes⟩ := reading.read laid holds small n
      have accepted : l.Accepted := by
        obtain ⟨g, fc, p, off, -, table, -⟩ := reading
        exact table.layout ▸ table.ok.accepted
      have apart := holds.apart accepted laid
      have same : collect (l.place c) ((fsRead h n f).2.vol d).disk.bytes (pos + min n (size - pos))
          (size - (pos + min n (size - pos))) =
            (collect (l.place c) (f.vol d).disk.bytes pos (size - pos)).drop n := by
        rw [collect_drop]
        rcases Nat.le_total n (size - pos) with le | le
        · rw [Nat.min_eq_left le, Nat.sub_add_eq]
          exact collect_congr fun k low => bytes _ (apart.firm _ (by omega))
        · have left : size - (pos + min n (size - pos)) = 0 ∧ size - pos - n = 0 := by omega
          rw [left.1, left.2]
          rfl
      rw [outputs, pieces, List.map_cons, Fs.gave, value, List.singleton_append, collect_take, collect_length, ← same]
      exact congrArg _ (ih next)

end Reads

/-! Opening by the path, before the writes and after them. -/

/-- The directories that a path leads through. -/
def Fs.way (f : Fs) (path : List UInt8) : List Nat :=
  match f.route path with
  | none => []
  | some (d, start, comps) => (f.tree d).way comps.dropLast start

section Opens
variable {path : List UInt8} {f g : Fs} {w : Walk} {e : Buffer} {off h : Nat}

theorem fsOpen_file (good : f.Faultless) (walk : f.walk path false = some w) (entry : w.entry = some (e, off))
    (file : Dirent.hasAttr e attrDir = false) (slot : allocHandle f = some h) :
    fsOpen path f = ((h : Int), (walkPath path false f).2.putHandle h
      ⟨true, w.drive, Dirent.cluster (f.vols w.drive).kind e, Dirent.size e, 0, w.parent, off⟩) := by
  have only := walkPath_only path false f
  have found := (walkPath_tree good path false).trans walk
  have free : allocHandle (walkPath path false f).2 = some h := by rwa [allocHandle, only.handles]
  have dir : ¬ Dirent.hasAttr e attrDir = true := by rw [file]; decide
  simp only [fsOpen, found, entry, if_neg dir, free, only.vols]

/-- A handle comes from a file and from a free slot. -/
theorem fsOpen_opened (good : f.Faultless) (walk : f.walk path false = some w) (entry : w.entry = some (e, off))
    (opened : (fsOpen path f).1 = (h : Int)) :
    Dirent.hasAttr e attrDir = false ∧ allocHandle f = some h := by
  have only := walkPath_only path false f
  have found := (walkPath_tree good path false).trans walk
  simp only [fsOpen, found, entry] at opened
  split at opened
  · exact absurd opened (by omega)
  next file =>
    have free : allocHandle (walkPath path false f).2 = allocHandle f := by rw [allocHandle, only.handles, allocHandle]
    rw [free] at opened
    refine ⟨Bool.eq_false_iff.mpr file, ?_⟩
    cases slot : allocHandle f with
    | none =>
        rw [slot] at opened
        exact absurd opened (by simp only; omega)
    | some k =>
        rw [slot] at opened
        exact congrArg some (Int.ofNat_inj.mp opened)

theorem nameTo83_dotdot (comp : List UInt8) : nameTo83 comp ≠ dotdotName := by
  intro same
  apply nameTo83_dot comp
  rw [same]
  decide

end Opens

/-- A path leads to a file of `size` bytes with the entry in slot `i` of directory `p` of drive `d`; a handle is
free. `c` are the clusters that the file has and would get next, as far as `room` bytes go; the directories on the
way lie in none of them. -/
structure Fs.Filed (l : Layout) (c : Nat → Nat) (room : Nat) (path : List UInt8) (d p i size : Nat) (f : Fs) :
    Prop where
  good : f.Faultless
  walk : ∃ name, f.walk path false = some ⟨⟨p, name, some ((f.tree d).entry p i, i * 32)⟩, d⟩
  file : Dirent.hasAttr ((f.tree d).entry p i) attrDir = false
  slot : allocHandle f ≠ none
  order : l.InOrder
  holds : l.Holds c room
  way : ∀ x ∈ f.way path, (f.vols d).Aloof c room x
  stored : ∃ fc, FileOn l c room p i fc size (f.vol d)
  short : size ≤ room
  positive : 0 < room
  small : room < 2 ^ 31

/-- How the path leads there. -/
structure Fs.Leading (path : List UInt8) (d p i : Nat) (f : Fs) (drive : Option Nat) (rest : List UInt8)
    (front : List (List UInt8)) (last : List UInt8) : Prop where
  parsed : parseDrive path = some (drive, rest)
  current : drive.or f.currentDrive = some d
  mounted : (f.vols d).kind ≠ .none
  comps : components rest = front ++ [last]
  dot : last ≠ [46]
  dots : last ≠ [46, 46]
  enters : (f.tree d).enters front ((f.vols d).startDir (isAbsolute rest)) = some p
  find : (f.tree d).find p (nameTo83 last) = some i

section Reopen
variable {l : Layout} {c : Nat → Nat} {room : Nat} {path : List UInt8} {d p i size : Nat} {f g : Fs}

namespace Fs
variable {drive : Option Nat} {rest last : List UInt8} {front : List (List UInt8)}

theorem Filed.leading (filed : Filed l c room path d p i size f) :
    ∃ drive rest front last, Leading path d p i f drive rest front last := by
  obtain ⟨name, walk⟩ := filed.walk
  obtain ⟨drive, rest, parsed, current, mounted, walked⟩ := Fs.walk_some walk
  rcases Tree.walk_cases walked with ⟨none, -⟩ | ⟨front, last, comps, dot, dots, enters, -, found⟩
  · cases none
  · obtain ⟨j, find, same⟩ := Option.map_eq_some_iff.mp found.symm
    obtain rfl : j = i := by
      have off := congrArg Prod.snd same
      simp only at off
      omega
    exact ⟨drive, rest, front, last, parsed, current, mounted, comps, dot, dots, enters, find⟩

theorem Leading.way (leading : Leading path d p i f drive rest front last) :
    f.way path = (f.tree d).way front ((f.vols d).startDir (isAbsolute rest)) := by
  simp only [Fs.way, Fs.route, leading.parsed, Option.bind_some, leading.current, if_neg leading.mounted,
    leading.comps, List.dropLast_concat]

theorem Leading.walk (leading : Leading path d p i f drive rest front last) :
    f.walk path false = some ⟨⟨p, nameTo83 last, some ((f.tree d).entry p i, i * 32)⟩, d⟩ := by
  rw [Fs.walk_eq leading.parsed leading.current leading.mounted, leading.comps,
    Tree.walk_found leading.enters leading.dot leading.dots leading.find, Option.map_some]

/-- Changes to the file leave the way to it. -/
theorem Leading.after (leading : Leading path d p i f drive rest front last)
    (file : Dirent.hasAttr ((f.tree d).entry p i) attrDir = false)
    (way : ∀ x ∈ f.way path, (f.vols d).Aloof c room x) (beside : Beside l c room d p i f g) :
    Leading path d p i g drive rest front last ∧ g.way path = f.way path := by
  have kept := beside.kept
  have start : (g.vols d).startDir (isAbsolute rest) = (f.vols d).startDir (isAbsolute rest) := by
    have root : (g.vols d).cwdIsRoot = (f.vols d).cwdIsRoot := kept.cwdIsRoot
    have cluster : (g.vols d).cwdCluster = (f.vols d).cwdCluster := kept.cwdCluster
    simp only [FatVolume.startDir, root, cluster]
  have layout : (g.vols d).toLayout = (f.vols d).toLayout := kept.layout
  have plain : Kept.Plain ((f.vol d).tree.entry p i) :=
    ⟨file, (Tree.find_some leading.find).2.symm ▸ nameTo83_dotdot last⟩
  rw [leading.way] at way
  have parent := way p (Tree.enters_way leading.enters)
  have after : Leading path d p i g drive rest front last :=
    { leading with
      current := by rw [beside.currentDrive]; exact leading.current
      mounted := by rw [layout]; exact leading.mounted
      enters := by
        rw [start]
        exact (kept.enters plain way).trans leading.enters
      find := (kept.find parent _).trans leading.find }
  refine ⟨after, ?_⟩
  rw [after.way, leading.way, start]
  exact kept.way plain way

/-- fs_open gives a handle at the start of the file. -/
theorem Filed.opens (filed : Filed l c room path d p i size f) : ∃ h : Nat, (fsOpen path f).1 = (h : Int) ∧
    Working l c room d p i h size 0 (fsOpen path f).2 ∧ Beside l c room d p i f (fsOpen path f).2 ∧
    ((fsOpen path f).2.vol d).disk.bytes = (f.vol d).disk.bytes := by
  obtain ⟨name, walk⟩ := filed.walk
  obtain ⟨h, slot⟩ := Option.ne_none_iff_exists'.mp filed.slot
  obtain ⟨fc, stored⟩ := filed.stored
  have opened := fsOpen_file filed.good walk rfl filed.file slot
  have only := walkPath_only path false f
  have low : h < maxHandles := List.mem_range.mp (List.mem_of_find?_eq_some slot)
  have kind : (f.vols d).kind = l.kind := by
    obtain ⟨g, table, -⟩ := stored.table
    exact congrArg Layout.kind table.layout
  have cluster : Dirent.cluster (f.vols d).kind ((f.tree d).entry p i) = fc := kind ▸ stored.cluster
  have bytes : Dirent.size ((f.tree d).entry p i) = size := stored.bytes
  simp only [cluster, bytes] at opened
  rw [opened]
  have keeps := only.drive d
  refine ⟨h, rfl, ⟨only.good filed.good, fc, stored.keeps keeps, handle_put low rfl⟩,
    ⟨.of_keeps keeps, only.currentDrive, fun e _ => congrFun only.vols e, fun id _ => (only.disks id).bytes⟩,
    keeps.disk.bytes⟩

/-- Closing frees the handle and does nothing else. -/
theorem Working.closes {h pos : Nat} (work : Working l c room d p i h size pos f) :
    allocHandle (fsClose h f).2 ≠ none ∧ (fsClose h f).2.disks = f.disks ∧ (fsClose h f).2.vols = f.vols ∧
      (fsClose h f).2.currentDrive = f.currentDrive ∧ (fsClose h f).2.vol d = f.vol d := by
  obtain ⟨-, fc, -, found⟩ := work
  obtain ⟨low, -⟩ := handle_low found
  simp only [fsClose, found]
  refine ⟨?_, rfl, rfl, rfl, rfl⟩
  rw [allocHandle, Ne, List.find?_eq_none]
  intro full
  exact full h (List.mem_range.mpr low) (by simp only [putHandle, Function.update_self, Bool.not_false])

end Fs

end Reopen

/-- Opening a file, writing it in parts and closing it. -/
def Fs.rewrite (path : List UInt8) (parts : List (List UInt8)) (f : Fs) : Fs :=
  let r := fsOpen path f
  if r.1 < 0 then r.2 else (fsClose r.1.toNat (Runs.run (Fs.write r.1.toNat) parts r.2)).2

/-- Storing at the front: what is behind stays. -/
def overwrite (old : List UInt8) (parts : List (List UInt8)) : List UInt8 :=
  parts.flatten ++ old.drop parts.flatten.length

/-- The bytes of the file. -/
def Fs.contents (l : Layout) (c : Nat → Nat) (d size : Nat) (f : Fs) : List UInt8 :=
  collect (l.place c) (f.vol d).disk.bytes 0 size

section Sessions
variable {l : Layout} {c : Nat → Nat} {room : Nat} {path : List UInt8} {d p i size : Nat} {f g : Fs}

namespace Fs

theorem Filed.ground (filed : Filed l c room path d p i size f) : Room l c room d p i f := by
  obtain ⟨drive, rest, front, last, leading⟩ := filed.leading
  refine ⟨filed.order, filed.holds, filed.way p ?_, Kept.find_inside leading.find, filed.positive, filed.small⟩
  rw [leading.way]
  exact Tree.enters_way leading.enters

/-- One session: every write takes all it is given, and the path leads to the longer file. -/
theorem Filed.session (filed : Filed l c room path d p i size f) {parts : List (List UInt8)}
    (fits : parts.flatten.length ≤ room) :
    (∃ h : Nat, (fsOpen path f).1 = (h : Int) ∧ outputs (Fs.write h) (Fs.wrote h) parts (fsOpen path f).2 =
      parts.map fun data => some (data.length : Int)) ∧
    Filed l c room path d p i (max size parts.flatten.length) (rewrite path parts f) ∧
    Beside l c room d p i f (rewrite path parts f) ∧
    Puts (l.place c) ((f.vol d).Slack p) 0 parts.flatten (f.vol d).disk.bytes
      ((rewrite path parts f).vol d).disk.bytes := by
  obtain ⟨h, opened, work, beside, bytes⟩ := filed.opens
  obtain ⟨values, work', beside', puts⟩ := work.writes parts (filed.ground.after beside) (Nat.zero_le _)
    (by rwa [Nat.zero_add]) filed.short
  rw [Nat.zero_add] at work'
  rw [slack_layout beside.kept.layout, bytes] at puts
  have whole := beside.trans beside'
  obtain ⟨slot, disks, vols, current, vol⟩ := work'.closes
  have run : rewrite path parts f = (fsClose h (Runs.run (Fs.write h) parts (fsOpen path f).2)).2 := by
    have number : ¬ ((h : Int) < 0) := by omega
    simp only [rewrite, opened, if_neg number, Int.toNat_natCast]
  rw [← run] at slot disks vols current vol
  have after : Beside l c room d p i f (rewrite path parts f) :=
    ⟨vol.symm ▸ whole.kept, current.trans whole.currentDrive, fun e other => by rw [vols]; exact whole.others e other,
      fun id other => by rw [disks]; exact whole.disks id other⟩
  obtain ⟨drive, rest, front, last, leading⟩ := filed.leading
  obtain ⟨leading', way⟩ := leading.after filed.file filed.way after
  obtain ⟨good, fc, file, -⟩ := work'
  refine ⟨⟨h, opened, values⟩, ?_, after, vol.symm ▸ puts⟩
  exact
    { filed with
      good := fun id => by rw [disks]; exact good id
      walk := ⟨_, leading'.walk⟩
      file := by
        have entry := after.kept.entries p filed.ground.aloof i filed.ground.inside 11 (by decide)
        have flags := entry.resolve_right fun slot => by omega
        exact (congrArg (fun b => b &&& attrDir != 0) flags).trans filed.file
      slot := slot
      way := by
        rw [way]
        exact fun x member => (filed.way x member).of_layout (s := f.vol d) (t := (rewrite path parts f).vol d) after.kept.layout
      stored := ⟨fc, vol.symm ▸ file⟩
      short := by
        have old := filed.short
        omega }

/-- What a session of a run must find: fs_open gives a handle, and every fs_write takes all bytes. -/
def Complete (path : List UInt8) (parts : List (List UInt8)) (f : Fs) : Prop :=
  ∃ h : Nat, (fsOpen path f).1 = (h : Int) ∧
    outputs (Fs.write h) (Fs.wrote h) parts (fsOpen path f).2 = parts.map fun data => some (data.length : Int)

theorem overwrite_length (old : List UInt8) (parts : List (List UInt8)) :
    (overwrite old parts).length = max old.length parts.flatten.length := by
  rw [overwrite, List.length_append, List.length_drop]
  omega

theorem foldl_overwrite_length (sessions : List (List (List UInt8))) : ∀ old : List UInt8,
    old.length ≤ (sessions.foldl overwrite old).length := by
  induction sessions with
  | nil => exact fun _ => le_rfl
  | cons parts sessions ih =>
      intro old
      calc
        old.length ≤ (overwrite old parts).length := by
          rw [overwrite_length]
          exact le_max_left _ _
        _ ≤ (sessions.foldl overwrite (overwrite old parts)).length := ih _

theorem contents_length (l : Layout) (c : Nat → Nat) (d size : Nat) (f : Fs) : (contents l c d size f).length = size :=
  collect_length _ _ _

theorem Filed.apart (filed : Filed l c room path d p i size f) : Apart (l.place c) ((f.vol d).Slack p) room := by
  obtain ⟨fc, ⟨m, table, -⟩, -⟩ := filed.stored
  exact FatVolume.Aloof.apart filed.ground.aloof table filed.order filed.holds

theorem Filed.sessions : ∀ (sessions : List (List (List UInt8))) {f : Fs} {old : List UInt8},
    Filed l c room path d p i old.length f → contents l c d old.length f = old →
    (∀ parts ∈ sessions, parts.flatten.length ≤ room) →
    Runs.Each (rewrite path) (Complete path) sessions f ∧
      Filed l c room path d p i (sessions.foldl overwrite old).length (Runs.run (rewrite path) sessions f) ∧
      contents l c d (sessions.foldl overwrite old).length (Runs.run (rewrite path) sessions f) =
        sessions.foldl overwrite old ∧
      Beside l c room d p i f (Runs.run (rewrite path) sessions f) ∧
      ∀ a, ¬ (f.vol d).Slack p a → (∀ q, q < (sessions.foldl overwrite old).length → l.place c q ≠ a) →
        ((Runs.run (rewrite path) sessions f).vol d).disk.bytes a = (f.vol d).disk.bytes a := by
  intro sessions
  induction sessions with
  | nil =>
      intro f old filed same _
      exact ⟨trivial, filed, same, ⟨.refl l c room p i _, rfl, fun _ _ => rfl, fun _ _ => rfl⟩, fun _ _ _ => rfl⟩
  | cons parts sessions ih =>
      intro f old filed same fits
      have fit := fits parts List.mem_cons_self
      obtain ⟨complete, filed', beside, puts⟩ := filed.session fit
      rw [← overwrite_length] at filed'
      have new : contents l c d (overwrite old parts).length (rewrite path parts f) = overwrite old parts := by
        have short := filed.short
        have front := puts.collect_front (filed.apart.shorter (max_le short fit))
        rw [overwrite_length]
        exact front.trans (congrArg (fun old => overwrite old parts) same)
      obtain ⟨each, filed'', new', beside', bytes⟩ := ih filed' new fun parts' member =>
        fits parts' (List.mem_cons_of_mem parts member)
      refine ⟨⟨complete, each⟩, filed'', new', beside.trans beside', ?_⟩
      intro a firm outside
      have longer := foldl_overwrite_length sessions (overwrite old parts)
      rw [overwrite_length] at longer
      calc
        _ = ((rewrite path parts f).vol d).disk.bytes a := by
          apply bytes a _ outside
          rwa [slack_layout beside.kept.layout]
        _ = (f.vol d).disk.bytes a := by
          apply puts.outside a firm
          intro k low
          rw [Nat.zero_add]
          exact outside k (by
            rw [List.foldl_cons]
            omega)

/-- A file that is opened by its path, written in parts and closed again, over and over, is read back through its
path in any pieces as what was written, each time from the front; nothing else on the disk moves but the table and
the slot of the file. -/
theorem Filed.reads_back {f : Fs} (filed : Filed l c room path d p i size f) (sessions : List (List (List UInt8)))
    (fits : ∀ parts ∈ sessions, parts.flatten.length ≤ room) :
    Runs.Each (rewrite path) (Complete path) sessions f ∧
      Beside l c room d p i f (Runs.run (rewrite path) sessions f) ∧
      (∀ a, ¬ (f.vol d).Slack p a →
        (∀ q, q < (sessions.foldl overwrite (contents l c d size f)).length → l.place c q ≠ a) →
        ((Runs.run (rewrite path) sessions f).vol d).disk.bytes a = (f.vol d).disk.bytes a) ∧
      ∃ h : Nat, (fsOpen path (Runs.run (rewrite path) sessions f)).1 = (h : Int) ∧
        fsSize h (fsOpen path (Runs.run (rewrite path) sessions f)).2 =
          (sessions.foldl overwrite (contents l c d size f)).length ∧
        ∀ counts, outputs (Fs.read h) (Fs.gave h) counts (fsOpen path (Runs.run (rewrite path) sessions f)).2 =
          (pieces (sessions.foldl overwrite (contents l c d size f)) counts).map fun piece =>
            some ((piece.length : Int), piece) := by
  have length := contents_length l c d size f
  rw [← length] at filed
  obtain ⟨each, filed', same, beside, bytes⟩ := filed.sessions sessions (by rw [length]) fits
  generalize sessions.foldl overwrite (contents l c d size f) = new at filed' same bytes
  obtain ⟨h, opened, work, -, kept⟩ := filed'.opens
  have long := filed'.short
  have small := filed'.small
  refine ⟨each, beside, bytes, h, opened, ?_, ?_⟩
  · obtain ⟨-, fc, -, found⟩ := work
    simp only [fsSize, found]
    exact int32_small (by omega)
  · intro counts
    obtain ⟨-, fc, ⟨⟨m, table, -, links⟩, empty, -, -⟩, found⟩ := work
    have linked : l.Links m fc c new.length := by
      by_cases none : fc = 0
      · rw [empty none]
        exact fun k low => absurd low (Nat.not_lt_zero _)
      · exact links none
    have reading : Reading l c d h new.length 0 (fsOpen path (Runs.run (rewrite path) sessions f)).2 :=
      ⟨m, fc, p, i * 32, found, table, linked⟩
    rw [reading.reads filed'.order.toLaid (filed'.holds.shorter long) (by omega) counts, kept, Nat.sub_zero]
    exact congrArg (fun whole => (pieces whole counts).map _) same

end Fs

end Sessions

/-! A small volume with one file. -/

/-- The root lists a file A of five bytes, `HELLO`, in cluster 2. -/
def greeting : Disk := .image 40 fun a =>
  if a / sectorSize = 3 then
    if a % sectorSize < 32 then
      Dirent.setSize (Dirent.setCluster .fat12 (Dirent.make (padTo 11 [65]) attrArc) 2) 5 (a % sectorSize)
    else 0
  else if a / sectorSize = 4 then [72, 69, 76, 76, 79].getD (a % sectorSize) 0
  else if a = 515 then 255
  else if a = 516 then 15
  else Header.bootSector ⟨512, 1, 1, 2, 16, 1, 40⟩ 0 a

def greetingVol : VolState Disk := (mountVolume 0 (.fresh greeting .zero)).2

/-- The clusters that the file can get. -/
def greetingCluster (k : Nat) : Nat := 2 + k

theorem greeting_leads : ∀ k, k < 2 →
    greetingVol.vol.toLayout.target greetingVol.fatMap 2 k = some (greetingCluster k) := by
  decide +kernel

theorem greeting_layout : (greetingVol.vol.kind = .fat12 ∧ greetingVol.vol.clusterBytes = 512 ∧
      greetingVol.vol.secPerCluster = 1) ∧
    (greetingVol.vol.fatLba = 1 ∧ greetingVol.vol.fatSectors = 1 ∧ greetingVol.vol.tableSectors = 1) ∧
    (greetingVol.vol.rootLba = 3 ∧ greetingVol.vol.rootSizeSec = 1 ∧ greetingVol.vol.dataLba = 4) ∧
    greetingVol.vol.totalSectors = 40 ∧ greetingVol.vol.maxCluster = 341 ∧ greetingVol.vol.fatEof = 0xFF8 := by
  decide +kernel

theorem greeting_order : greetingVol.vol.toLayout.InOrder := by
  obtain ⟨-, ⟨fat, size, table⟩, ⟨root, rootSize, data⟩, -⟩ := greeting_layout
  have copies (n : Nat) (sector : greetingVol.vol.TableSector n) : n < 3 := by
    obtain ⟨sec, low, here⟩ := sector
    rw [table] at low
    obtain rfl : sec = 0 := by omega
    rw [fat, size] at here
    simp only [u32] at here
    omega
  refine ⟨⟨⟨by decide +kernel, by rw [fat, table, data]; decide⟩, fun n sector => ?_⟩, fun _ => ⟨fun n sector => ?_, ?_, ?_⟩⟩
  · rw [data]
    exact (copies n sector).trans (by decide)
  · rw [root]
    exact copies n sector
  · rw [fat, table, root]
    decide
  · rw [root, rootSize, data]

theorem greeting_filed :
    (Fs.single greetingVol).Filed greetingVol.vol.toLayout greetingCluster 1000 [65] 0 0 0 5 := by
  have accepted : (mountVolume 0 (.fresh greeting .zero)).1 = 0 := by decide +kernel
  have mounted : Mounted greetingVol := (mountVolume_mounted (mountVolume_run accepted) (by decide +kernel)).1
  have good : greetingVol.disk.Faultless :=
    (mountVolume_traffic 0 (.fresh greeting .zero)).same.faultless (Disk.image_faultless _ _)
  have table := (mounted.atRest (by decide +kernel)).mapped greeting_order.separate
  obtain ⟨⟨kind, bytes, sectors⟩, -, ⟨-, -, data⟩, total, entries, last⟩ := greeting_layout
  have two {k : Nat} (low : k * greetingVol.vol.clusterBytes < 1000) : k < 2 := by
    rw [bytes] at low
    omega
  have enters : ((Fs.single greetingVol).tree 0).enters [] (((Fs.single greetingVol).vols 0).startDir false) = some 0 := by
    decide +kernel
  have find : ((Fs.single greetingVol).tree 0).find 0 (nameTo83 [65]) = some 0 := by decide +kernel
  have leading : Fs.Leading [65] 0 0 0 (Fs.single greetingVol) none [65] [] [65] :=
    ⟨by decide, by decide, by decide +kernel, by decide, by decide, by decide, enters, find⟩
  have holds : greetingVol.vol.toLayout.Holds greetingCluster 1000 := by
    refine ⟨fun k low => ?_, fun j k _ _ same => Nat.add_left_cancel same⟩
    have inside := two low
    refine ⟨⟨Nat.le_add_right 2 k, ?_, ?_⟩, ?_⟩
    · rw [entries, greetingCluster]
      omega
    · rw [last, greetingCluster]
      omega
    · rw [data, sectors, total, greetingCluster]
      omega
  have stored : FileOn greetingVol.vol.toLayout greetingCluster 1000 0 0 2 5 greetingVol := by
    refine ⟨⟨greetingVol.fatMap, ⟨table, good⟩, fun k low => greeting_leads k (two low), fun _ k low => ?_⟩, ?_, ?_, ?_⟩
    · rw [bytes] at low
      obtain rfl : k = 0 := by omega
      rfl
    · exact fun none => absurd none (by decide)
    · decide +kernel
    · decide +kernel
  have vol : (Fs.single greetingVol).vol 0 = greetingVol := by
    simp only [Fs.vol, Fs.single, if_true]
  refine
    { good := .single good
      walk := ⟨_, leading.walk⟩
      file := by decide +kernel
      slot := by decide +kernel
      order := greeting_order
      holds := holds
      way := ?_
      stored := ⟨2, by rw [vol]; exact stored⟩
      short := by decide
      positive := by decide
      small := by decide }
  rw [leading.way]
  intro x member
  have root : ((Fs.single greetingVol).vols 0).startDir (isAbsolute [65]) = 0 := by decide +kernel
  rw [root] at member
  obtain rfl := List.mem_singleton.mp member
  exact fun chain => absurd (by decide +kernel) chain

/-- `bye`, then a second session over it; what was behind stays. -/
theorem greeting_reads_back : ∃ h : Nat,
    (fsOpen [65] (Runs.run (Fs.rewrite [65]) [[[98, 121], [101]], [[66]]] (Fs.single greetingVol))).1 = (h : Int) ∧
      outputs (Fs.read h) (Fs.gave h) [2, 10]
        (fsOpen [65] (Runs.run (Fs.rewrite [65]) [[[98, 121], [101]], [[66]]] (Fs.single greetingVol))).2 =
          [some (2, [66, 121]), some (3, [101, 76, 79])] := by
  have before : Fs.contents greetingVol.vol.toLayout greetingCluster 0 5 (Fs.single greetingVol) =
      [72, 69, 76, 76, 79] := by
    decide +kernel
  obtain ⟨-, -, -, h, opened, -, reads⟩ := greeting_filed.reads_back [[[98, 121], [101]], [[66]]] (by decide)
  rw [before] at reads
  exact ⟨h, opened, reads [2, 10]⟩

end Zenbite.Fat
