import Zenbite.Fat.Cwd

/-! cwd_path as the bytes of a buffer: what fs_chdir stores into it. -/

namespace Zenbite.Fat

open Memory VolState

/-- Bytes that are stored one after the other, from `off` on. -/
structure Patch where
  off : Nat
  bytes : List UInt8

/-- `cwd_pop`: the new end of the string. -/
def popPatch (path : List UInt8) : Patch := ⟨max 1 (cwdPop path).length, [0]⟩

/-- `cwd_append`: the separator, the bytes that are copied and the end. -/
def appendPatch (path name : List UInt8) : Patch :=
  let sep := if 1 < path.length then [backslash] else []
  ⟨path.length, sep ++ name.take (fsPathMax - 1 - (path.length + sep.length)) ++ [0]⟩

/-- The stores of fs_chdir behind the walk. -/
def leafPatch (leaf : Leaf) (target : Nat) (path : List UInt8) : Patch :=
  if target = 0 then ⟨0, [backslash, 0]⟩
  else
    match leaf.entry with
    | none => if leaf.name = dotdotName then popPatch path else ⟨0, []⟩
    | some (e, _) =>
      let name := nameFrom83 (Dirent.name e)
      if name = [46, 46] then popPatch path
      else if name = [46] then ⟨0, []⟩
      else appendPatch path name

/-- The directory that fs_chdir goes to from a leaf. -/
def leafTarget (kind : FatKind) (leaf : Leaf) : Option Nat :=
  match leaf.entry with
  | none => some leaf.parent
  | some (e, _) => if Dirent.hasAttr e attrDir then some (Dirent.cluster kind e) else none

/-- The drive whose path a call changes, and the stores. -/
def chdirPatch (path : List UInt8) (f : Fs) : Option (Nat × Patch) :=
  (walkPath path false f).1.bind fun r =>
    (leafTarget (f.vols r.drive).kind r.toLeaf).map fun target =>
      (r.drive, leafPatch r.toLeaf target (f.vols r.drive).cwdPath)

/-- The file system and the buffers of `cwd_path`. -/
structure CwdMem where
  fs : Fs
  bufs : Nat → Buffer

def chdirMem (path : List UInt8) (m : CwdMem) : CwdMem where
  fs := (fsChdir path m.fs).2
  bufs := match chdirPatch path m.fs with
    | none => m.bufs
    | some (d, patch) => Function.update m.bufs d (poke (m.bufs d) patch.off patch.bytes)

/-- The buffer holds the string and its NUL. -/
structure HoldsString (buf : Buffer) (path : List UInt8) : Prop where
  short : path.length < fsPathMax
  bytes : ∀ i, i < path.length → buf i = path.getD i 0
  ends : buf path.length = 0
  whole : 0 ∉ path

/-- A call stays inside the buffer and leaves a string there. -/
structure StaysInside (path : List UInt8) (m : CwdMem) : Prop where
  stores : ∀ d patch, chdirPatch path m.fs = some (d, patch) → patch.off + patch.bytes.length ≤ fsPathMax
  strings : ∀ d, HoldsString ((chdirMem path m).bufs d) ((chdirMem path m).fs.vols d).cwdPath

/-- A call gets to cwd_append. -/
def Appends (path : List UInt8) (f : Fs) (d : Nat) : Prop :=
  ∃ r e off, (walkPath path false f).1 = some r ∧ r.drive = d ∧ r.entry = some (e, off) ∧
    Dirent.hasAttr e attrDir = true ∧ Dirent.cluster (f.vols d).kind e ≠ 0 ∧
    nameFrom83 (Dirent.name e) ≠ [46, 46] ∧ nameFrom83 (Dirent.name e) ≠ [46]

/-- No name is appended to a path that fills the buffer but for its NUL. -/
def HasRoom (path : List UInt8) (f : Fs) : Prop := ∀ d, Appends path f d →
  (f.vols d).cwdPath.length ≠ fsPathMax - 1

/-! The walk. -/

theorem components_subset {path comp : List UInt8} (member : comp ∈ components path) :
    ∀ c ∈ comp, c ∈ path := by
  induction size : path.length using Nat.strong_induction_on generalizing path with
  | _ n ih =>
      cases split : splitNext path with
      | none =>
          rw [components_none split] at member
          cases member
      | some next =>
          have shorter := splitNext_rest split
          have rest : next.2 ⊆ path ∧ next.1 ⊆ path := by
            simp only [splitNext] at split
            split at split
            · cases split
            · obtain rfl := Option.some.inj split
              have start := (List.dropWhile_suffix isSeparator (l := path)).subset
              exact ⟨fun c inside => start ((List.dropWhile_suffix _).subset inside), fun c inside =>
                start ((List.takeWhile_prefix _).subset (List.mem_of_mem_take inside))⟩
          rw [components_some split] at member
          rcases List.mem_cons.mp member with rfl | member
          · exact fun c inside => rest.2 inside
          · exact fun c inside => rest.1 (ih next.2.length (by omega) member rfl c inside)

theorem findInDir_name {d : Nat} {name : List UInt8} {s : VolState Disk} {e : Buffer} {off : Nat}
    (found : (findInDir d name s).1 = some (e, off)) : Dirent.name e = name := by
  simp only [findInDir] at found
  split at found
  · cases found
  · obtain ⟨i, here, same⟩ := Option.map_eq_some_iff.mp found
    obtain ⟨rfl, -⟩ := Prod.mk.inj same
    rw [findFrom_live] at here
    have holds := List.find?_some here
    exact of_decide_eq_true holds

/-- The entry that a walk finds has the 8.3 name of a part of the path. -/
theorem walkPath_entry {path : List UInt8} {f : Fs} {r : Walk} {e : Buffer} {off : Nat}
    (walk : (walkPath path false f).1 = some r) (found : r.entry = some (e, off)) :
    ∃ comp, Dirent.name e = nameTo83 comp ∧ ∀ c ∈ comp, c ∈ path := by
  have leaf {comp : List UInt8} {d : Nat} {s : VolState Disk} {l : Leaf}
      (walked : (walkLeaf comp false d s).1 = some l) (found : l.entry = some (e, off)) :
      Dirent.name e = nameTo83 comp := by
    simp only [walkLeaf] at walked
    split at walked
    · obtain rfl := Option.some.inj walked
      cases found
    split at walked
    · obtain rfl := Option.some.inj walked
      cases found
    · cases lookup : (findInDir d (nameTo83 comp) s).1 with
      | none =>
          rw [lookup] at walked
          cases walked
      | some entry =>
          rw [lookup] at walked
          obtain rfl := Option.some.inj walked
          obtain rfl := Option.some.inj found
          exact findInDir_name lookup
  simp only [walkPath] at walk
  split at walk
  · cases walk
  next drive rest parsed =>
    split at walk
    · cases walk
    · split at walk
      · cases walk
      · simp only [Fs.on, walkVolume] at walk
        obtain ⟨l, walked, rfl⟩ := Option.map_eq_some_iff.mp walk
        split at walked
        · obtain rfl := Option.some.inj walked
          cases found
        next last final =>
          split at walked
          · cases walked
          · refine ⟨last, leaf walked found, fun c inside => ?_⟩
            exact (parseDrive_suffix parsed).subset
              (components_subset (List.mem_of_getLast? final) c inside)

theorem fsChdir_vols (path : List UInt8) (f : Fs) : (fsChdir path f).2.vols =
    match (walkPath path false f).1 with
    | none => f.vols
    | some r =>
      match leafTarget (f.vols r.drive).kind r.toLeaf with
      | none => f.vols
      | some target => Function.update f.vols r.drive ((f.vols r.drive).chdir r.toLeaf target) := by
  have same := (walkPath_only path false f).vols
  simp only [fsChdir]
  cases (walkPath path false f).1 with
  | none => exact same
  | some r =>
      simp only [leafTarget]
      cases r.entry with
      | none => simp only [Fs.putVol, Fs.vol, modVol_vol, same]
      | some found =>
          obtain ⟨e, off⟩ := found
          simp only [same]
          split
          · simp only [Fs.putVol, Fs.vol, modVol_vol, same]
          · exact same

/-! Strings in the buffer. -/

/-- Stores that turn the string `path` with its NUL into the string `next`. -/
theorem HoldsString.poke {buf : Buffer} {path next bytes : List UInt8} {off : Nat}
    (holds : HoldsString buf path) (low : off ≤ path.length) (shape : path.take off ++ bytes = next ++ [0])
    (fits : off + bytes.length ≤ fsPathMax) (whole : 0 ∉ next) : HoldsString (poke buf off bytes) next := by
  have size := congrArg List.length shape
  rw [List.length_append, List.length_append, List.length_take, List.length_singleton,
    Nat.min_eq_left low] at size
  have byte (i : Nat) (inside : i < next.length + 1) : Memory.poke buf off bytes i = (next ++ [0]).getD i 0 := by
    rw [← shape, List.getD_eq_getElem?_getD]
    by_cases front : i < off
    · rw [Memory.poke, splice_outside _ _ (.inl front), List.getElem?_append_left (by
        rw [List.length_take]
        omega), List.getElem?_take_of_lt front, ← List.getD_eq_getElem?_getD]
      exact holds.bytes i (by omega)
    · obtain ⟨k, rfl⟩ := Nat.exists_eq_add_of_le (Nat.le_of_not_lt front)
      rw [poke_at _ (by omega), List.getElem?_append_right (by
        rw [List.length_take]
        omega), List.length_take, Nat.min_eq_left low, Nat.add_sub_cancel_left, List.getD_eq_getElem?_getD]
  refine ⟨by omega, fun i inside => ?_, ?_, whole⟩
  · rw [byte i (by omega), List.getD_eq_getElem?_getD, List.getElem?_append_left inside,
      List.getD_eq_getElem?_getD]
  · rw [byte _ (Nat.lt_succ_self _), List.getD_eq_getElem?_getD, List.getElem?_append_right (Nat.le_refl _),
      Nat.sub_self]
    rfl

theorem HoldsString.empty {buf : Buffer} (holds : HoldsString buf []) (bytes : List UInt8) :
    HoldsString (Memory.poke buf 1 bytes) [] := by
  refine ⟨by decide, fun i inside => absurd inside (Nat.not_lt_zero i), ?_, List.not_mem_nil⟩
  rw [List.length_nil, Memory.poke, splice_outside _ _ (.inl Nat.zero_lt_one)]
  exact holds.ends

theorem cwdPop_front (path : List UInt8) : cwdPop path <+: path := by
  have cut : (path.reverse.dropWhile (· != backslash)).reverse <+: path := by
    have suffix := List.reverse_prefix.mpr (List.dropWhile_suffix (· != backslash) (l := path.reverse))
    rwa [List.reverse_reverse] at suffix
  simp only [cwdPop]
  split
  · exact List.take_prefix 1 path
  · have last := List.dropLast_prefix (path.reverse.dropWhile (· != backslash)).reverse
    exact last.trans cut

theorem cwdPop_some {path : List UInt8} (some : path ≠ []) : 1 ≤ (cwdPop path).length := by
  have long := List.length_pos_iff.mpr some
  simp only [cwdPop]
  split
  · rw [List.length_take]
    omega
  · rw [List.length_dropLast]
    omega

/-- cwd_pop stays inside and leaves the shorter string. -/
theorem popPatch_holds {buf : Buffer} {path : List UInt8} (holds : HoldsString buf path) :
    (popPatch path).off + (popPatch path).bytes.length ≤ fsPathMax ∧
      HoldsString (poke buf (popPatch path).off (popPatch path).bytes) (cwdPop path) := by
  by_cases some : path = []
  · subst some
    exact ⟨by decide, holds.empty [0]⟩
  · have low := (cwdPop_front path).length_le
    have pos := cwdPop_some some
    have off : (popPatch path).off = (cwdPop path).length := Nat.max_eq_right pos
    have short := holds.short
    have fits : (popPatch path).off + (popPatch path).bytes.length ≤ fsPathMax := by
      rw [off]
      simp only [popPatch, List.length_singleton]
      omega
    refine ⟨fits, holds.poke (by rw [off]; exact low) ?_ fits fun member =>
      holds.whole ((cwdPop_front path).subset member)⟩
    rw [off, ← List.prefix_iff_eq_take.mp (cwdPop_front path)]
    rfl

theorem appendPatch_bytes (path name : List UInt8) :
    path ++ (appendPatch path name).bytes = cwdAppend path name ++ [0] := by
  simp only [appendPatch, cwdAppend]
  split
  · simp
  · simp

/-- cwd_append stays inside exactly when there is room for the separator. -/
theorem appendPatch_fits {path name : List UInt8} (short : path.length < fsPathMax) :
    (appendPatch path name).off + (appendPatch path name).bytes.length ≤ fsPathMax ↔
      path.length ≠ fsPathMax - 1 := by
  have bound : fsPathMax = 128 := rfl
  simp only [appendPatch, List.length_append, List.length_take, List.length_singleton]
  split
  · rw [List.length_singleton]
    omega
  · rw [List.length_nil]
    omega

theorem appendPatch_holds {buf : Buffer} {path name : List UInt8} (holds : HoldsString buf path)
    (room : path.length ≠ fsPathMax - 1) (clean : 0 ∉ name) :
    HoldsString (poke buf (appendPatch path name).off (appendPatch path name).bytes)
      (cwdAppend path name) := by
  refine holds.poke (Nat.le_refl _) ?_ ((appendPatch_fits holds.short).mpr room) ?_
  · rw [← appendPatch_bytes]
    exact congrArg (· ++ _) (List.take_of_length_le (Nat.le_refl _))
  · intro member
    simp only [cwdAppend] at member
    rcases List.mem_append.mp member with front | back
    · split at front
      · rcases List.mem_append.mp front with old | sep
        · exact holds.whole old
        · exact absurd (List.mem_singleton.mp sep) (by decide)
      · exact holds.whole front
    · exact clean (List.mem_of_mem_take back)

/-! One call, and runs. -/

theorem nameFrom83_clean {comp : List UInt8} (clean : 0 ∉ comp) : 0 ∉ nameFrom83 (nameTo83 comp) := by
  have raw : 0 ∉ nameTo83 comp := by
    intro member
    rcases mem_nameTo83 member with space | ⟨x, inside, upper⟩
    · exact absurd space (by decide)
    · have zero := toUpper_eq upper.symm (by decide)
      exact clean (zero ▸ inside)
  intro member
  have base {c : UInt8} (inside : c ∈ ((nameTo83 comp).take 8).takeWhile (· != 32)) : c ∈ nameTo83 comp :=
    List.mem_of_mem_take ((List.takeWhile_prefix _).subset inside)
  simp only [nameFrom83] at member
  split at member
  · rcases List.mem_append.mp member with front | back
    · exact raw (base front)
    · rcases List.mem_cons.mp back with dot | back
      · exact absurd dot (by decide)
      · exact raw (List.mem_of_mem_drop (List.mem_of_mem_take ((List.takeWhile_prefix _).subset back)))
  · exact raw (base member)

/-- What the patch of a leaf leaves, given room for a name that is appended. -/
theorem leafPatch_holds {buf : Buffer} {v : FatVolume} (holds : HoldsString buf v.cwdPath) (leaf : Leaf)
    (target : Nat)
    (clean : ∀ e off, leaf.entry = some (e, off) → 0 ∉ nameFrom83 (Dirent.name e))
    (room : ∀ e off, leaf.entry = some (e, off) → target ≠ 0 → nameFrom83 (Dirent.name e) ≠ [46, 46] →
      nameFrom83 (Dirent.name e) ≠ [46] → v.cwdPath.length ≠ fsPathMax - 1) :
    (leafPatch leaf target v.cwdPath).off + (leafPatch leaf target v.cwdPath).bytes.length ≤ fsPathMax ∧
      HoldsString (poke buf (leafPatch leaf target v.cwdPath).off (leafPatch leaf target v.cwdPath).bytes)
        (v.chdir leaf target).cwdPath := by
  have idle : HoldsString (poke buf 0 []) v.cwdPath := by
    have same : poke buf 0 [] = buf := splice_zero _ _ _
    rw [same]
    exact holds
  by_cases root : target = 0
  · rw [leafPatch, if_pos root, FatVolume.chdir, if_pos root]
    exact ⟨by decide, holds.poke (Nat.zero_le _) rfl (by decide) (show ¬ 0 ∈ [backslash] by decide)⟩
  · rw [leafPatch, if_neg root, FatVolume.chdir, if_neg root]
    have path : (v.setCwd false target (patchPath leaf v.cwdPath)).cwdPath = patchPath leaf v.cwdPath := rfl
    rw [path, patchPath]
    cases found : leaf.entry with
    | none =>
        simp only
        by_cases up : leaf.name = dotdotName
        · rw [if_pos up, if_pos up]
          exact popPatch_holds holds
        · rw [if_neg up, if_neg up]
          exact ⟨by decide, idle⟩
    | some entry =>
        obtain ⟨e, off⟩ := entry
        simp only
        by_cases dots : nameFrom83 (Dirent.name e) = [46, 46]
        · rw [if_pos dots, if_pos dots]
          exact popPatch_holds holds
        by_cases dot : nameFrom83 (Dirent.name e) = [46]
        · rw [if_neg dots, if_pos dot, if_neg dots, if_pos dot]
          exact ⟨by decide, idle⟩
        · rw [if_neg dots, if_neg dot, if_neg dots, if_neg dot]
          have room := room e off found root dots dot
          exact ⟨(appendPatch_fits holds.short).mpr room, appendPatch_holds holds room (clean e off found)⟩

/-- One call with a C string, where the buffers hold strings. -/
theorem staysInside_iff {path : List UInt8} (clean : 0 ∉ path) {m : CwdMem}
    (holds : ∀ d, HoldsString (m.bufs d) (m.fs.vols d).cwdPath) :
    StaysInside path m ↔ HasRoom path m.fs := by
  constructor
  · intro stays d appends
    obtain ⟨r, e, off, walk, rfl, found, dir, some, dots, dot⟩ := appends
    have target : leafTarget (m.fs.vols r.drive).kind r.toLeaf =
        Option.some (Dirent.cluster (m.fs.vols r.drive).kind e) := by
      simp only [leafTarget, found, if_pos dir]
    have patch : leafPatch r.toLeaf (Dirent.cluster (m.fs.vols r.drive).kind e) (m.fs.vols r.drive).cwdPath =
        appendPatch (m.fs.vols r.drive).cwdPath (nameFrom83 (Dirent.name e)) := by
      simp only [leafPatch, if_neg some, found, if_neg dots, if_neg dot]
    have stored := stays.stores r.drive _ (by
      rw [chdirPatch, walk, Option.bind_some, target, Option.map_some, patch])
    exact (appendPatch_fits (holds r.drive).short).mp stored
  · intro room
    have vols := fsChdir_vols path m.fs
    cases walk : (walkPath path false m.fs).1 with
    | none =>
        have none : chdirPatch path m.fs = none := by rw [chdirPatch, walk, Option.bind_none]
        rw [walk] at vols
        refine ⟨fun d patch stored => ?_, fun d => ?_⟩
        · rw [none] at stored
          cases stored
        · simp only [chdirMem, none, vols]
          exact holds d
    | some r =>
        rw [walk] at vols
        simp only at vols
        cases target : leafTarget (m.fs.vols r.drive).kind r.toLeaf with
        | none =>
            have none : chdirPatch path m.fs = none := by
              rw [chdirPatch, walk, Option.bind_some, target, Option.map_none]
            rw [target] at vols
            refine ⟨fun d patch stored => ?_, fun d => ?_⟩
            · rw [none] at stored
              cases stored
            · simp only [chdirMem, none, vols]
              exact holds d
        | some n =>
            have patched : chdirPatch path m.fs = Option.some
                (r.drive, leafPatch r.toLeaf n (m.fs.vols r.drive).cwdPath) := by
              rw [chdirPatch, walk, Option.bind_some, target, Option.map_some]
            rw [target] at vols
            have last := leafPatch_holds (holds r.drive) r.toLeaf n
              (fun e off found => by
                obtain ⟨comp, name, inside⟩ := walkPath_entry walk found
                rw [name]
                exact nameFrom83_clean fun member => clean (inside 0 member))
              (fun e off found some dots dot => by
                simp only [leafTarget, found] at target
                split at target
                next dir =>
                  obtain rfl := Option.some.inj target
                  exact room r.drive ⟨r, e, off, walk, rfl, found, dir, some, dots, dot⟩
                · cases target)
            refine ⟨fun d patch stored => ?_, fun d => ?_⟩
            · rw [patched] at stored
              obtain ⟨rfl, rfl⟩ := Prod.mk.inj (Option.some.inj stored)
              exact last.1
            · simp only [chdirMem, patched, vols]
              by_cases same : d = r.drive
              · rw [same, Function.update_self, Function.update_self]
                exact last.2
              · rw [Function.update_of_ne same, Function.update_of_ne same]
                exact holds d

/-- In every run of fs_chdir from buffers that hold their strings, every call stays
inside the buffer exactly when none appends to a path that fills it. -/
theorem cwd_inside_iff {m : CwdMem} (start : ∀ d, HoldsString (m.bufs d) (m.fs.vols d).cwdPath)
    {paths : List (List UInt8)} (strings : ∀ path ∈ paths, 0 ∉ path) :
    Runs.Each chdirMem StaysInside paths m ↔ Runs.Each chdirMem (fun path m => HasRoom path m.fs) paths m :=
  Runs.Each.iff (fun m => ∀ d, HoldsString (m.bufs d) (m.fs.vols d).cwdPath)
    (fun _ _ holds clean => staysInside_iff clean holds)
    (fun _ _ holds clean room => ((staysInside_iff clean holds).mpr room).strings)
    (Runs.Each.of_forall (fun path member _ => strings path member) m) start

/-- The volume with one directory, its path "\" in the buffer. -/
def oneDirMem : CwdMem where
  fs := oneDir
  bufs d := if d = 0 then poke (fun _ => 0) 0 [backslash] else fun _ => 0

theorem oneDirMem_holds (d : Nat) : HoldsString (oneDirMem.bufs d) (oneDirMem.fs.vols d).cwdPath := by
  by_cases first : d = 0
  · have path : (oneDirMem.fs.vols 0).cwdPath = [backslash] := oneDir_routes.1.2
    rw [first, path]
    exact ⟨by decide, by decide, by decide, by decide⟩
  · have volume : oneDirMem.fs.vols d = .zero := if_neg first
    have bytes : oneDirMem.bufs d = fun _ => 0 := if_neg first
    rw [volume, bytes]
    exact ⟨by decide, fun i inside => absurd inside (Nat.not_lt_zero i), rfl, List.not_mem_nil⟩

/-- Entering the directory once. -/
theorem cwd_inside_one : Runs.Each chdirMem StaysInside [longName] oneDirMem := by
  apply (cwd_inside_iff oneDirMem_holds (by decide)).mpr
  refine ⟨fun d _ => ?_, trivial⟩
  by_cases first : d = 0
  · rw [first]
    decide +kernel
  · have volume : oneDirMem.fs.vols d = .zero := if_neg first
    rw [volume]
    decide

/-- Entering it again and again from the root: the tenth call fills the buffer, and
the next one stores its NUL behind it. -/
theorem cwd_overflows : (∀ d, HoldsString (oneDirMem.bufs d) (oneDirMem.fs.vols d).cwdPath) ∧
    ¬ Runs.Each chdirMem StaysInside (List.replicate 10 (backslash :: longName) ++
      [backslash :: longName]) oneDirMem := by
  refine ⟨oneDirMem_holds, fun each => ?_⟩
  have stays := (Runs.Each.append.mp each).2.1
  have stored : (chdirPatch (backslash :: longName) (Runs.run chdirMem
      (List.replicate 10 (backslash :: longName)) oneDirMem).fs).map
        (fun p => (p.1, p.2.off, p.2.bytes)) = some (0, 127, [backslash, 0]) := by decide +kernel
  obtain ⟨⟨d, off, bytes⟩, patch, same⟩ := Option.map_eq_some_iff.mp stored
  obtain ⟨rfl, rest⟩ := Prod.mk.inj same
  obtain ⟨rfl, rfl⟩ := Prod.mk.inj rest
  exact absurd (stays.stores _ _ patch) (by decide)

end Zenbite.Fat
