import Zenbite.Fat.Stored

/-! Opening a file, and opening and reading a directory, on disks that answer. -/

namespace Zenbite.Fat

open Memory VolState

namespace FileSys

@[simp] theorem putDir_self (s : FileSys) (h : Nat) (x : DirHandle) : (s.putDir h x).dirhs h = x := by
  simp only [putDir, Function.update_self]

theorem putDir_of_ne (s : FileSys) (x : DirHandle) {h k : Nat} (other : k ≠ h) :
    (s.putDir h x).dirhs k = s.dirhs k := by
  simp only [putDir, Function.update_of_ne other]

end FileSys

/-- fs_readdir on handle `h` until it returns 0. -/
inductive Lists (h : Nat) : FileSys → List Listed → Prop
  | stop {s : FileSys} (none : (fsReaddir h s).1 = none) : Lists h s []
  | entry {s : FileSys} {x : Listed} {xs : List Listed} (some : (fsReaddir h s).1 = some x)
      (rest : Lists h (fsReaddir h s).2 xs) : Lists h s (x :: xs)

theorem Lists.unique {h : Nat} {s : FileSys} {xs ys : List Listed} (first : Lists h s xs)
    (second : Lists h s ys) : xs = ys := by
  induction first generalizing ys with
  | stop none =>
      cases second with
      | stop => rfl
      | entry some => exact absurd (none.symm.trans some) nofun
  | entry some _ ih =>
      cases second with
      | stop none => exact absurd (none.symm.trans some) nofun
      | entry some' rest =>
          obtain rfl := Option.some.inj (some.symm.trans some')
          rw [ih rest]

/-- fs_opendir opens directory `p` of drive `d`, and reading it lists `xs`. -/
def ListsDir (path : List UInt8) (d p : Nat) (s : FileSys) (xs : List Listed) : Prop :=
  ∃ h : Nat, (fsOpendir path s).1 = h + 1 ∧ (fsOpendir path s).2.dirhs h = ⟨true, d, p, 0⟩ ∧
    h < maxHandles ∧ Lists (h + 1) (fsOpendir path s).2 xs

/-- fs_open opens the entry at slot `i` of directory `p` of drive `d`. -/
def OpensAt (path : List UInt8) (d p i : Nat) (f : Fs) : Prop :=
  ∃ h x, (fsOpen path f).1 = (h : Nat) ∧ (fsOpen path f).2.handle h = some x ∧
    x.drive = d ∧ x.parentDirCluster = p ∧ x.direntOffset = i * 32

/-- What fs_readdir reports of a slot. -/
def Tree.listed (t : Tree) (d i : Nat) : Listed :=
  ⟨nameFrom83 (Dirent.name (t.entry d i)), Dirent.size (t.entry d i), t.entry d i 11, t.cluster d i⟩

section Readdir
variable {s : FileSys} {h d p k : Nat}

/-- One call goes to the next live slot. -/
theorem fsReaddir_live (good : s.toFs.Faultless) (low : h < maxHandles)
    (open_ : s.dirhs h = ⟨true, d, p, k⟩) :
    ∃ g, Fs.Only s.toFs g ∧ ∃ next, (fsReaddir (h + 1) s).2 = (s.setFs g).putDir h ⟨true, d, p, next⟩ ∧
      (fsReaddir (h + 1) s).1 =
        (liveFrom ((s.tree d).buf p) ((s.tree d).slots p - k) k).head?.map ((s.tree d).listed p) ∧
      ∀ i rest, liveFrom ((s.tree d).buf p) ((s.tree d).slots p - k) k = i :: rest →
        liveFrom ((s.tree d).buf p) ((s.tree d).slots p - next) next = rest := by
  have reads := loadDir_reads p (s.vol d)
  obtain ⟨size, slots, load⟩ := loadDir_loaded (good (s.vols d).diskId) (s := s.vol d) p
  have only : Fs.Only s.toFs (s.putVol d (loadDir p (s.vol d)).2) := ⟨.put reads.keeps, rfl, rfl⟩
  have kind : ((s.putVol d (loadDir p (s.vol d)).2).vols d).kind = (s.tree d).kind := by
    rw [only.vols]
    rfl
  have running : ¬ (h + 1 = 0 ∨ maxHandles < h + 1 ∨ (s.dirhs (h + 1 - 1)).inUse = false) := by
    rw [Nat.add_sub_cancel, open_]
    simp only [Bool.true_eq_false, or_false]
    omega
  obtain ⟨head, step⟩ := nextFrom_live ((s.tree d).buf p) ((s.tree d).slots p - k) k
  refine ⟨_, only, (nextFrom ((s.tree d).buf p) ((s.tree d).slots p - k) k).2, ?_, ?_, fun i rest live => ?_⟩
  · rw [fsReaddir, if_neg running]
    simp only [Nat.add_sub_cancel, open_, Fs.on, load, slots]
    rfl
  · rw [← head, fsReaddir, if_neg running]
    simp only [Nat.add_sub_cancel, open_, Fs.on, load, slots, kind]
    rfl
  · obtain ⟨low, high⟩ := liveFrom_lt (live ▸ List.mem_cons_self : i ∈ _)
    rw [live, List.head?_cons] at head
    obtain ⟨next, tail⟩ := step i head
    rw [live, List.cons.injEq] at tail
    rw [next, tail.2, show k + ((s.tree d).slots p - k) - (i + 1) = (s.tree d).slots p - (i + 1) by omega]

theorem lists_live : ∀ {l : List Nat} {s : FileSys} {k : Nat}, s.toFs.Faultless → h < maxHandles →
    s.dirhs h = ⟨true, d, p, k⟩ →
    liveFrom ((s.tree d).buf p) ((s.tree d).slots p - k) k = l →
    Lists (h + 1) s (l.map ((s.tree d).listed p)) := by
  intro l
  induction l with
  | nil =>
      intro s k good low open_ live
      obtain ⟨g, -, next, -, found, -⟩ := fsReaddir_live good low open_
      rw [live] at found
      exact .stop found
  | cons j l ih =>
      intro s k good low open_ live
      obtain ⟨g, only, next, after, found, tail⟩ := fsReaddir_live good low open_
      rw [live] at found
      refine .entry found ?_
      have same : (fsReaddir (h + 1) s).2.tree d = s.tree d := by
        rw [after]
        exact only.tree d
      have rest := ih (s := (fsReaddir (h + 1) s).2) (k := next)
        (by rw [after]; exact only.good good) low
        (by rw [after, FileSys.putDir_self]) (by rw [same]; exact tail j l live)
      rwa [same] at rest

end Readdir

/-- The slot that fs_opendir takes. -/
def freeDir (s : FileSys) : Option Nat := (List.range maxHandles).find? fun h => !(s.dirhs h).inUse

/-- The drive and the directory that fs_opendir opens for a path. -/
def Fs.opens (f : Fs) (path : List UInt8) : Option (Nat × Nat) :=
  (f.walk path false).bind fun w => (listedDir (f.tree w.drive).kind w.toLeaf).map fun p => (w.drive, p)

theorem Fs.opens_some {f : Fs} {path : List UInt8} {d p : Nat} : f.opens path = some (d, p) ↔
    ∃ w, f.walk path false = some w ∧ w.drive = d ∧ listedDir (f.tree d).kind w.toLeaf = some p := by
  simp only [Fs.opens, Option.bind_eq_some_iff, Option.map_eq_some_iff, Prod.mk.injEq]
  constructor
  · rintro ⟨w, walk, _, dir, rfl, rfl⟩
    exact ⟨w, walk, rfl, dir⟩
  · rintro ⟨w, walk, rfl, dir⟩
    exact ⟨w, walk, p, dir, rfl, rfl⟩

theorem Fs.Only.opens {f g : Fs} (only : Fs.Only f g) (path : List UInt8) : g.opens path = f.opens path := by
  simp only [Fs.opens, only.walk, only.tree]

theorem freeDir_lt {s : FileSys} {h : Nat} (free : freeDir s = some h) : h < maxHandles :=
  List.mem_range.mp (List.mem_of_find?_eq_some free)

section Opendir
variable {s : FileSys} {path : List UInt8} {d p h : Nat}

theorem fsOpendir_fails (good : s.toFs.Faultless) (fails : s.opens path = none ∨ freeDir s = none) :
    ∃ g, Fs.Only s.toFs g ∧ fsOpendir path s = (-1, s.setFs g) := by
  have walked := walkPath_tree good path false
  have only := walkPath_only path false s.toFs
  have kind (x : Nat) : ((walkPath path false s.toFs).2.vols x).kind = (s.tree x).kind := by
    rw [only.vols]
    rfl
  refine ⟨_, only, ?_⟩
  cases found : s.walk path false with
  | none => simp only [fsOpendir, walked, found]
  | some w =>
      cases dir : listedDir (s.tree w.drive).kind w.toLeaf with
      | none => simp only [fsOpendir, walked, found, kind, dir]
      | some c =>
          have opens : s.opens path = some (w.drive, c) := Fs.opens_some.mpr ⟨w, found, rfl, dir⟩
          have full : (List.range maxHandles).find? (fun h => !(s.dirhs h).inUse) = none :=
            fails.resolve_left (by rw [opens]; exact Option.some_ne_none _)
          simp only [fsOpendir, walked, found, kind, dir, full]

theorem fsOpendir_opens (good : s.toFs.Faultless) (opens : s.opens path = some (d, p))
    (free : freeDir s = some h) : ∃ g, Fs.Only s.toFs g ∧
      fsOpendir path s = ((h : Int) + 1, (s.setFs g).putDir h ⟨true, d, p, 0⟩) := by
  have walked := walkPath_tree good path false
  have only := walkPath_only path false s.toFs
  have kind (x : Nat) : ((walkPath path false s.toFs).2.vols x).kind = (s.tree x).kind := by
    rw [only.vols]
    rfl
  have slot : (List.range maxHandles).find? (fun h => !(s.dirhs h).inUse) = some h := free
  obtain ⟨w, found, rfl, dir⟩ := Fs.opens_some.mp opens
  refine ⟨_, only, ?_⟩
  simp only [fsOpendir, walked, found, kind, dir, slot]

end Opendir

/-- Listing a directory is opening it and going through its live slots. -/
theorem listsDir_iff {s : FileSys} {path : List UInt8} {d p : Nat} {xs : List Listed}
    (good : s.toFs.Faultless) : ListsDir path d p s xs ↔
      (∃ w, s.walk path false = some w ∧ w.drive = d ∧ listedDir (s.tree d).kind w.toLeaf = some p) ∧
        freeDir s ≠ none ∧ xs = ((s.tree d).live p).map ((s.tree d).listed p) := by
  rw [← Fs.opens_some]
  by_cases fails : s.opens path = none ∨ freeDir s = none
  · obtain ⟨g, -, run⟩ := fsOpendir_fails good fails
    refine iff_of_false ?_ ?_
    · rintro ⟨h, opened, -⟩
      rw [run] at opened
      omega
    · rintro ⟨opens, free, -⟩
      exact fails.elim (fun none => by rw [none] at opens; cases opens) free
  · rw [not_or] at fails
    obtain ⟨⟨d', c⟩, opens⟩ := Option.ne_none_iff_exists'.mp fails.1
    obtain ⟨h, free⟩ := Option.ne_none_iff_exists'.mp fails.2
    have low := freeDir_lt free
    obtain ⟨g, only, run⟩ := fsOpendir_opens good opens free
    have opened : ((s.setFs g).putDir h ⟨true, d', c, 0⟩).dirhs h = ⟨true, d', c, 0⟩ :=
      FileSys.putDir_self _ _ _
    have listing := lists_live (l := (s.tree d').live c) (only.good good) low opened (by
      rw [Nat.sub_zero]
      exact congrArg (Tree.live · c) (only.tree d'))
    have tree : ((s.setFs g).putDir h ⟨true, d', c, 0⟩).tree d' = s.tree d' := only.tree d'
    rw [tree] at listing
    rw [ListsDir, run, opens]
    constructor
    · rintro ⟨h', number, here, -, lists⟩
      obtain rfl : h' = h := by
        simp only at number
        omega
      obtain ⟨-, rfl, rfl, -⟩ := DirHandle.mk.inj (opened.symm.trans here)
      exact ⟨rfl, fails.2, lists.unique listing⟩
    · rintro ⟨same, -, rfl⟩
      obtain ⟨rfl, rfl⟩ := Prod.mk.inj (Option.some.inj same)
      exact ⟨h, rfl, opened, low, listing⟩

theorem opensAt_iff {f : Fs} {path : List UInt8} {d p i : Nat} (good : f.Faultless) :
    OpensAt path d p i f ↔ (∃ w e, f.walk path false = some w ∧ w.drive = d ∧ w.parent = p ∧
      w.entry = some (e, i * 32) ∧ Dirent.hasAttr e attrDir = false) ∧ allocHandle f ≠ none := by
  have walked := walkPath_tree good path false
  have only := walkPath_only path false f
  have free : allocHandle (walkPath path false f).2 = allocHandle f := by
    simp only [allocHandle, only.handles]
  have fails (g : Fs) (run : fsOpen path f = (-1, g)) : ¬ OpensAt path d p i f := by
    rintro ⟨h, x, opened, -⟩
    rw [run] at opened
    simp only at opened
    omega
  cases found : f.walk path false with
  | none =>
      refine iff_of_false (fails (walkPath path false f).2 ?_) (by simp)
      simp only [fsOpen, walked, found]
  | some w =>
      cases entry : w.entry with
      | none =>
          refine iff_of_false (fails (walkPath path false f).2 ?_) ?_
          · simp only [fsOpen, walked, found, entry]
          · rintro ⟨⟨_, e, same, -, -, some, -⟩, -⟩
            obtain rfl := Option.some.inj same
            exact absurd (entry.symm.trans some) nofun
      | some leaf =>
          by_cases dir : Dirent.hasAttr leaf.1 attrDir = true
          · refine iff_of_false (fails (walkPath path false f).2 ?_) ?_
            · simp only [fsOpen, walked, found, entry, if_pos dir]
            · rintro ⟨⟨_, e, same, -, -, some, file⟩, -⟩
              obtain rfl := Option.some.inj same
              obtain rfl := Option.some.inj (entry.symm.trans some)
              exact absurd (dir.symm.trans file) nofun
          · cases slot : allocHandle f with
            | none =>
                refine iff_of_false (fails (walkPath path false f).2 ?_) (by simp)
                simp only [fsOpen, walked, found, entry, if_neg dir, free, slot]
            | some h =>
                have low : h < maxHandles := List.mem_range.mp (List.mem_of_find?_eq_some slot)
                obtain ⟨x, run, inUse, drive, parent, off⟩ : ∃ x, fsOpen path f =
                    ((h : Int), (walkPath path false f).2.putHandle h x) ∧ x.inUse = true ∧
                    x.drive = w.drive ∧ x.parentDirCluster = w.parent ∧ x.direntOffset = leaf.2 := by
                  refine ⟨⟨true, w.drive, Dirent.cluster ((walkPath path false f).2.vols w.drive).kind leaf.1,
                    Dirent.size leaf.1, 0, w.parent, leaf.2⟩, ?_, rfl, rfl, rfl, rfl⟩
                  simp only [fsOpen, walked, found, entry, if_neg dir, free, slot]
                have handle : ((walkPath path false f).2.putHandle h x).handle h = some x := by
                  simp only [Fs.handle, Fs.putHandle, Function.update_self, low, inUse, and_self, if_true]
                rw [OpensAt, run]
                constructor
                · rintro ⟨h', x', number, here, rfl, rfl, place⟩
                  obtain rfl := Int.ofNat.inj number
                  obtain rfl := Option.some.inj (handle.symm.trans here)
                  refine ⟨⟨w, leaf.1, rfl, drive.symm, parent.symm, ?_, by simpa using dir⟩, nofun⟩
                  rw [entry, ← place, off]
                · rintro ⟨⟨_, e, same, rfl, rfl, some, -⟩, -⟩
                  obtain rfl := Option.some.inj same
                  have place := congrArg Prod.snd (Option.some.inj (entry.symm.trans some))
                  exact ⟨h, x, rfl, handle, drive, parent, off.trans place⟩

end Zenbite.Fat
