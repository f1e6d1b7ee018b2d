import Mathlib.Data.Finset.Card
import Zenbite.Fat.Cwd
import Zenbite.Printf

/-! walk_size (shell/builtins.c), against the files below a directory. -/

namespace Zenbite.Fat.Tree

/-- Slot `i` holds a subdirectory; "." and ".." are none. -/
def IsSub (t : Tree) (p i : Nat) : Prop :=
  Dirent.hasAttr (t.entry p i) attrDir = true ∧ Dirent.name (t.entry p i) ≠ dotName ∧
    Dirent.name (t.entry p i) ≠ dotdotName

instance (t : Tree) (p i : Nat) : Decidable (t.IsSub p i) :=
  inferInstanceAs (Decidable (_ ∧ _ ∧ _))

/-- Directory `p` and all below it are a tree of at most that many levels. -/
def Within (t : Tree) : Nat → Nat → Prop
  | 0, _ => False
  | levels + 1, p => ∀ i ∈ t.live p, t.IsSub p i → t.Within levels (t.cluster p i)

instance Within.decidable (t : Tree) : ∀ levels p, Decidable (t.Within levels p)
  | 0, _ => .isFalse id
  | levels + 1, p =>
    have (p : Nat) := Within.decidable t levels p
    inferInstanceAs (Decidable (∀ i ∈ t.live p, t.IsSub p i → t.Within levels (t.cluster p i)))

/-- The sizes of all files in it. -/
def total (t : Tree) : Nat → Nat → Nat
  | 0, _ => 0
  | levels + 1, p => ((t.live p).map fun i =>
      if t.IsSub p i then t.total levels (t.cluster p i)
      else if Dirent.hasAttr (t.entry p i) attrDir then 0 else Dirent.size (t.entry p i)).sum

/-- The levels are no part of the sum. -/
theorem total_within {t : Tree} : ∀ {m n p : Nat}, t.Within m p → t.Within n p → t.total m p = t.total n p := by
  intro m
  induction m with
  | zero => exact fun never => never.elim
  | succ m ih =>
      intro n p first second
      cases n with
      | zero => exact second.elim
      | succ n =>
          rw [total, total]
          congr 1
          apply List.map_congr_left
          intro i live
          split
          next sub => exact ih (first i live sub) (second i live sub)
          · rfl

end Zenbite.Fat.Tree

namespace Zenbite.Shell

open Fat Memory

namespace DirSize

/-- `sub`: as much of the path as the buffer takes. -/
def subPath (dir name : List UInt8) : List UInt8 :=
  (dir ++ backslash :: name.takeWhile (· ≠ 0)).take (fsPathMax - 1)

/-- It is what ksnprintf prints with "%s\\%s". -/
theorem ksnprintf_subPath (buf : Buffer) (dir name : Printf.Str) :
    Printf.Prints buf fsPathMax (Printf.ksnprintf buf fsPathMax [37, 115, 92, 37, 115]
      [.str (some dir.val.chars), .str (some name.val.chars)])
      (dir.val.chars ++ backslash :: name.val.chars) ∧
    subPath dir.val.chars name.val.chars = (dir.val.chars ++ backslash :: name.val.chars).take (fsPathMax - 1) := by
  have printed := Printf.ksnprintf_prints [.conv .bare (.str (some dir)), .plain backslash (by decide),
    .conv .bare (.str (some name))] [] buf (show 0 < fsPathMax by decide)
  have emitted (s : Printf.Str) : Printf.Conv.emitted .bare (.str (some s)) = s.val.chars :=
    Printf.justified_bare s.val.chars
  have whole : name.val.chars.takeWhile (· ≠ 0) = name.val.chars := by
    rw [List.takeWhile_eq_self_iff]
    exact fun c member => by simpa using name.val.noNul c member
  refine ⟨?_, by rw [subPath, whole]⟩
  simp only [List.flatMap_cons, List.flatMap_nil, List.append_nil, Printf.Piece.emitted, emitted] at printed
  exact printed

def isDir (e : Listed) : Bool := e.attr &&& attrDir != 0

def hidden (e : Listed) : Bool := e.name.getD 0 0 == 46

/-- The `while` loop of walk_size, with `rounds` of them left. -/
def sizeLoop (walk : List UInt8 → FileSys → Option (Nat × FileSys)) (dir : List UInt8) (h : Nat) :
    Nat → Nat → FileSys → Option (Nat × FileSys)
  | 0, _, _ => none
  | rounds + 1, total, s =>
    let r := fsReaddir h s
    match r.1 with
    | none => some (total, r.2)
    | some e =>
      if isDir e then
        if hidden e then sizeLoop walk dir h rounds total r.2
        else (walk (subPath dir e.name) r.2).bind fun w =>
          sizeLoop walk dir h rounds (u32 (total + w.1)) w.2
      else sizeLoop walk dir h rounds (u32 (total + e.size)) r.2

/-- `none` is out of rounds or out of levels. -/
def walkSize (rounds : Nat) : Nat → List UInt8 → FileSys → Option (Nat × FileSys)
  | 0, _, _ => none
  | levels + 1, dir, s =>
    let o := fsOpendir dir s
    if o.1 < 0 then some (0, o.2)
    else (sizeLoop (walkSize rounds levels) dir o.1.toNat rounds 0 o.2).map fun r =>
      (r.1, (fsClosedir o.1.toNat r.2).2)

/-- walk_size comes back with `total`. -/
def Measures (path : List UInt8) (s : FileSys) (total : Nat) (t : FileSys) : Prop :=
  ∃ enough, ∀ rounds levels, enough ≤ rounds → enough ≤ levels →
    walkSize rounds levels path s = some (total, t)

theorem Measures.unique {path : List UInt8} {s t u : FileSys} {m n : Nat} (first : Measures path s m t)
    (second : Measures path s n u) : m = n ∧ t = u := by
  obtain ⟨a, left⟩ := first
  obtain ⟨b, right⟩ := second
  have left := left (max a b) (max a b) (Nat.le_max_left a b) (Nat.le_max_left a b)
  have right := right (max a b) (max a b) (Nat.le_max_right a b) (Nat.le_max_right a b)
  exact Prod.mk.inj (Option.some.inj (left.symm.trans right))

/-! The directory handles. -/

def freeDirs (s : FileSys) : Nat :=
  ((Finset.range maxHandles).filter fun h => (s.dirhs h).inUse = false).card

theorem freeDir_none {s : FileSys} : freeDir s = none ↔ freeDirs s = 0 := by
  rw [freeDir, List.find?_eq_none, freeDirs, Finset.card_eq_zero, Finset.filter_eq_empty_iff]
  simp

theorem freeDir_some {s : FileSys} {h : Nat} (free : freeDir s = some h) : (s.dirhs h).inUse = false := by
  simpa using List.find?_some free

/-- A call gives back every handle that it takes, and changes nothing else. -/
structure Restores (s t : FileSys) : Prop where
  only : Fs.Only s.toFs t.toFs
  opened : ∀ h, (s.dirhs h).inUse = true → t.dirhs h = s.dirhs h
  closed : ∀ h, (s.dirhs h).inUse = false → (t.dirhs h).inUse = false

/-- The same, but for handle `own`. -/
structure Apart (own : Nat) (s t : FileSys) : Prop where
  only : Fs.Only s.toFs t.toFs
  opened : ∀ h, h ≠ own → (s.dirhs h).inUse = true → t.dirhs h = s.dirhs h
  closed : ∀ h, h ≠ own → (s.dirhs h).inUse = false → (t.dirhs h).inUse = false

section Handles
variable {s t u : FileSys} {own : Nat}

theorem Restores.inUse (same : Restores s t) (h : Nat) : (t.dirhs h).inUse = (s.dirhs h).inUse := by
  cases here : (s.dirhs h).inUse with
  | true => rw [same.opened h here, here]
  | false => exact same.closed h here

theorem Apart.refl (own : Nat) (s : FileSys) : Apart own s s := ⟨.refl _, fun _ _ _ => rfl, fun _ _ closed => closed⟩

theorem Apart.trans (first : Apart own s t) (second : Apart own t u) : Apart own s u := by
  refine ⟨first.only.trans second.only, fun h other here => ?_, fun h other here => ?_⟩
  · have there := first.opened h other here
    rw [second.opened h other (by rw [there, here]), there]
  · exact second.closed h other (first.closed h other here)

theorem Apart.freeDirs_same (apart : Apart own s t) (own_ : (t.dirhs own).inUse = (s.dirhs own).inUse) :
    freeDirs t = freeDirs s := by
  have inUse (h : Nat) : (t.dirhs h).inUse = (s.dirhs h).inUse := by
    by_cases other : h = own
    · rw [other, own_]
    · cases here : (s.dirhs h).inUse with
      | true => rw [apart.opened h other here, here]
      | false => exact apart.closed h other here
  simp only [DirSize.freeDirs, inUse]

theorem Restores.apart (same : Restores s t) (own : Nat) : Apart own s t :=
  ⟨same.only, fun h _ => same.opened h, fun h _ => same.closed h⟩

/-- What fs_opendir, fs_readdir and fs_closedir do to their handle. -/
theorem Apart.step {g : Fs} (apart : Apart own s t) (only : Fs.Only t.toFs g) (x : DirHandle) :
    Apart own s ((t.setFs g).putDir own x) := by
  have dirhs (h : Nat) (other : h ≠ own) : ((t.setFs g).putDir own x).dirhs h = t.dirhs h :=
    FileSys.putDir_of_ne _ x other
  refine ⟨apart.only.trans only, fun h other here => ?_, fun h other here => ?_⟩
  · rw [dirhs h other, apart.opened h other here]
  · rw [dirhs h other, apart.closed h other here]

/-- The handle is closed again. -/
theorem Apart.close (apart : Apart own s t) (low : own < maxHandles) (free : (s.dirhs own).inUse = false) :
    Restores s (fsClosedir (own + 1) t).2 := by
  have run : (fsClosedir (own + 1) t).2 =
      (t.setFs t.toFs).putDir own { t.dirhs own with inUse := false } := by
    rw [fsClosedir, if_neg (by omega)]
    rfl
  have after := apart.step (.refl _) { t.dirhs own with inUse := false }
  rw [← run] at after
  refine ⟨after.only, fun h here => ?_, fun h here => ?_⟩
  · refine after.opened h ?_ here
    rintro rfl
    rw [free] at here
    cases here
  · by_cases other : h = own
    · rw [run, other, FileSys.putDir_self]
    · exact after.closed h other here

/-- One handle less is free. -/
theorem Apart.freeDirs (apart : Apart own s t) (low : own < maxHandles) (free : (s.dirhs own).inUse = false)
    (held : (t.dirhs own).inUse = true) : freeDirs t + 1 = freeDirs s := by
  have here : own ∈ (Finset.range maxHandles).filter fun h => (s.dirhs h).inUse = false :=
    Finset.mem_filter.mpr ⟨Finset.mem_range.mpr low, free⟩
  have rest : ((Finset.range maxHandles).filter fun h => (t.dirhs h).inUse = false) =
      ((Finset.range maxHandles).filter fun h => (s.dirhs h).inUse = false).erase own := by
    ext h
    simp only [Finset.mem_filter, Finset.mem_erase]
    constructor
    · rintro ⟨inside, closed⟩
      have other : h ≠ own := by
        rintro rfl
        rw [held] at closed
        cases closed
      refine ⟨other, inside, ?_⟩
      cases before : (s.dirhs h).inUse with
      | false => rfl
      | true =>
          rw [apart.opened h other before, before] at closed
          cases closed
    · rintro ⟨other, inside, closed⟩
      exact ⟨inside, apart.closed h other closed⟩
  rw [DirSize.freeDirs, rest]
  exact Finset.card_erase_add_one here

end Handles

/-! What a run adds up. -/

/-- What an entry adds, where `inner` is for the directories. -/
def share (inner : List UInt8 → Nat) (dir : List UInt8) (e : Listed) : Nat :=
  if isDir e then if hidden e then 0 else inner (subPath dir e.name) else e.size

/-- The sum of the sizes that walk_size gets to see, with `free` handles left. -/
def visited (f : Fs) : Nat → List UInt8 → Nat
  | 0, _ => 0
  | free + 1, dir =>
    match f.opens dir with
    | none => 0
    | some (d, p) => (((f.tree d).live p).map fun i => share (visited f free) dir ((f.tree d).listed p i)).sum

theorem visited_only {f g : Fs} (only : Fs.Only f g) (free : Nat) : visited g free = visited f free := by
  induction free with
  | zero => rfl
  | succ free ih =>
      funext dir
      simp only [visited, only.opens, only.tree, ih]

/-- The spec of one call, at a state with `free` free handles. -/
def Sized (free : Nat) : Prop := ∀ {s : FileSys} (path : List UInt8), s.toFs.Faultless → freeDirs s = free →
  ∃ t, Restores s t ∧ Measures path s (u32 (visited s.toFs free path)) t

theorem u32_add_u32 (a b : Nat) : u32 (a + u32 b) = u32 (a + b) := Nat.add_mod_mod a b _

theorem u32_u32_add (a b : Nat) : u32 (u32 a + b) = u32 (a + b) := Nat.mod_add_mod a _ b

theorem u32_small {n : Nat} (small : n < 2 ^ 32) : u32 n = n := Nat.mod_eq_of_lt small

section Loop
variable {free d p own : Nat} (dir : List UInt8)

/-- One round takes the next live slot. -/
theorem sizeLoop_step (inner : Sized free) (low : own < maxHandles) {s : FileSys} {i k : Nat} {l : List Nat}
    (good : s.toFs.Faultless) (full : freeDirs s = free) (running : s.dirhs own = ⟨true, d, p, k⟩)
    (live : liveFrom ((s.tree d).buf p) ((s.tree d).slots p - k) k = i :: l) :
    ∃ t next, Apart own s t ∧ t.dirhs own = ⟨true, d, p, next⟩ ∧
      liveFrom ((t.tree d).buf p) ((t.tree d).slots p - next) next = l ∧
      ∃ enough, ∀ rounds levels, enough ≤ rounds → enough ≤ levels → ∀ n total, total < 2 ^ 32 →
        sizeLoop (walkSize rounds levels) dir (own + 1) (n + 1) total s =
          sizeLoop (walkSize rounds levels) dir (own + 1) n
            (u32 (total + share (visited s.toFs free) dir ((s.tree d).listed p i))) t := by
  obtain ⟨g, only, next, after, found, tail⟩ := fsReaddir_live good low running
  have rest := tail i l live
  rw [live] at found
  have found : (fsReaddir (own + 1) s).1 = some ((s.tree d).listed p i) := found
  have apart : Apart own s (fsReaddir (own + 1) s).2 := by
    rw [after]
    exact (Apart.refl own s).step only _
  have held : (fsReaddir (own + 1) s).2.dirhs own = ⟨true, d, p, next⟩ := by
    rw [after, FileSys.putDir_self]
  have tree : (fsReaddir (own + 1) s).2.tree d = s.tree d := apart.only.tree d
  rw [← tree] at rest
  -- the state in which the round ends: after fs_readdir, or after the call for a directory
  by_cases isFile : isDir ((s.tree d).listed p i) = false
  · refine ⟨_, next, apart, held, rest, 0, fun rounds levels _ _ n total small => ?_⟩
    simp only [sizeLoop, found, share, isFile, Bool.false_eq_true, if_false]
  rw [Bool.not_eq_false] at isFile
  by_cases dots : hidden ((s.tree d).listed p i) = true
  · refine ⟨_, next, apart, held, rest, 0, fun rounds levels _ _ n total small => ?_⟩
    simp only [sizeLoop, found, share, isFile, dots, if_true, Nat.add_zero, u32_small small]
  · obtain ⟨t, same, enough, runs⟩ := inner (subPath dir ((s.tree d).listed p i).name) (apart.only.good good)
      ((apart.freeDirs_same (by rw [held, running])).trans full)
    have kept : t.dirhs own = ⟨true, d, p, next⟩ := by
      rw [same.opened own (by rw [held]), held]
    have shown : t.tree d = (fsReaddir (own + 1) s).2.tree d := same.only.tree d
    rw [← shown] at rest
    refine ⟨t, next, apart.trans (same.apart own), kept, rest, enough, ?_⟩
    intro rounds levels many deep n total small
    simp only [sizeLoop, found, share, isFile, if_true, if_neg dots, runs rounds levels many deep,
      Option.bind_some, u32_add_u32, visited_only apart.only]

/-- The loop over the live slots `l` that are left. -/
theorem sizeLoop_run (inner : Sized free) (low : own < maxHandles) :
    ∀ {l : List Nat} {s : FileSys} {k : Nat}, s.toFs.Faultless → freeDirs s = free →
      s.dirhs own = ⟨true, d, p, k⟩ → liveFrom ((s.tree d).buf p) ((s.tree d).slots p - k) k = l →
      ∃ t, Apart own s t ∧ ∃ enough, ∀ rounds levels, enough ≤ rounds → enough ≤ levels →
        ∀ n total, l.length < n → total < 2 ^ 32 →
          sizeLoop (walkSize rounds levels) dir (own + 1) n total s =
            some (u32 (total + (l.map fun i =>
              share (visited s.toFs free) dir ((s.tree d).listed p i)).sum), t) := by
  intro l
  induction l with
  | nil =>
      intro s k good full running live
      obtain ⟨g, only, next, after, found, -⟩ := fsReaddir_live good low running
      rw [live] at found
      have found : (fsReaddir (own + 1) s).1 = none := found
      refine ⟨(fsReaddir (own + 1) s).2, by rw [after]; exact (Apart.refl own s).step only _, 0, ?_⟩
      intro rounds levels _ _ n total more small
      obtain ⟨m, rfl⟩ := Nat.exists_eq_succ_of_ne_zero (Nat.ne_of_gt more)
      simp only [sizeLoop, found, List.map_nil, List.sum_nil, Nat.add_zero, u32_small small]
  | cons i l ih =>
      intro s k good full running live
      obtain ⟨s', next, apart, held, rest, first, step⟩ := sizeLoop_step dir inner low good full running live
      have same : freeDirs s' = free := (apart.freeDirs_same (by rw [held, running])).trans full
      obtain ⟨t, after, second, run⟩ := ih (apart.only.good good) same held rest
      refine ⟨t, apart.trans after, max first second, ?_⟩
      intro rounds levels many deep n total more small
      obtain ⟨m, rfl⟩ := Nat.exists_eq_succ_of_ne_zero (Nat.ne_of_gt (Nat.zero_lt_of_lt more))
      rw [step rounds levels (by omega) (by omega) m total small,
        run rounds levels (by omega) (by omega) m _ (Nat.lt_of_succ_lt_succ more) (u32_lt _),
        visited_only apart.only, apart.only.tree, List.map_cons, List.sum_cons, u32_u32_add, Nat.add_assoc]

end Loop

/-- A directory that cannot be opened counts as nothing. -/
theorem walkSize_fails {s : FileSys} {path : List UInt8} (good : s.toFs.Faultless)
    (fails : s.opens path = none ∨ freeDir s = none) : ∃ t, Restores s t ∧ Measures path s 0 t := by
  obtain ⟨g, only, run⟩ := fsOpendir_fails good fails
  refine ⟨s.setFs g, ⟨only, fun _ _ => rfl, fun _ closed => closed⟩, 1, ?_⟩
  intro rounds levels _ deep
  obtain ⟨m, rfl⟩ := Nat.exists_eq_succ_of_ne_zero (Nat.ne_of_gt deep)
  rw [walkSize, run]
  rfl

/-- A call on any path, at any state: it ends, adds up what it visits and closes what it opened. -/
theorem walkSize_sized (free : Nat) : Sized free := by
  induction free with
  | zero => exact fun path good none => walkSize_fails good (.inr (freeDir_none.mpr none))
  | succ free ih =>
      intro s path good some_
      cases opens : s.opens path with
      | none =>
          rw [visited, opens]
          exact walkSize_fails good (.inl opens)
      | some r =>
          obtain ⟨d, p⟩ := r
          obtain ⟨own, slot⟩ : ∃ own, freeDir s = some own := by
            refine Option.ne_none_iff_exists'.mp fun none => ?_
            rw [freeDir_none, some_] at none
            cases none
          have low := freeDir_lt slot
          have closed := freeDir_some slot
          obtain ⟨g, only, run⟩ := fsOpendir_opens good opens slot
          have apart := (Apart.refl own s).step only ⟨true, d, p, 0⟩
          have held := FileSys.putDir_self (s.setFs g) own ⟨true, d, p, 0⟩
          have left := apart.freeDirs low closed (by rw [held])
          obtain ⟨t, loop, enough, sum⟩ := sizeLoop_run path (l := (s.tree d).live p) ih low
            (only.good good) (by omega) held (by
              rw [Nat.sub_zero]
              exact congrArg (Tree.live · p) (only.tree d))
          refine ⟨(fsClosedir (own + 1) t).2, (apart.trans loop).close low closed,
            max enough (((s.tree d).live p).length + 1) + 1, fun rounds levels many deep => ?_⟩
          obtain ⟨m, rfl⟩ := Nat.exists_eq_succ_of_ne_zero (Nat.ne_of_gt (Nat.zero_lt_of_lt deep))
          have ends := sum rounds m (by omega) (by omega) rounds 0 (by omega) (by decide)
          rw [Nat.zero_add, visited_only apart.only, apart.only.tree] at ends
          rw [walkSize, run, visited, opens]
          dsimp only
          rw [if_neg (by omega), show ((own : Int) + 1).toNat = own + 1 from rfl, ends]
          rfl

/-! Against the tree below a directory. -/

section Tree

variable (f : Fs) (d : Nat)

/-- Below `path`, whatever walk_size opens with `free` handles left is the directory
that it built the path for. -/
def Straight : Nat → Nat → List UInt8 → Nat → Prop
  | levels + 1, free + 1, path, p => ∀ r ∈ f.opens path, r = (d, p) ∧
      ∀ i ∈ (f.tree d).live p, (f.tree d).IsSub p i → hidden ((f.tree d).listed p i) = false →
        Straight levels free (subPath path ((f.tree d).listed p i).name) ((f.tree d).cluster p i)
  | _, _, _, _ => True

/-- Below `path`, no bytes are in a directory that walk_size does not open: its name
starts with a '.', its path leads nowhere, or no handle is left. -/
def Counted : Nat → Nat → List UInt8 → Nat → Prop
  | 0, _, _, _ => True
  | levels + 1, 0, _, p => (f.tree d).total (levels + 1) p = 0
  | levels + 1, free + 1, path, p =>
    if f.opens path = none then (f.tree d).total (levels + 1) p = 0
    else ∀ i ∈ (f.tree d).live p, (f.tree d).IsSub p i →
      if hidden ((f.tree d).listed p i) then (f.tree d).total levels ((f.tree d).cluster p i) = 0
      else Counted levels free (subPath path ((f.tree d).listed p i).name) ((f.tree d).cluster p i)

instance Straight.decidable : ∀ levels free path p, Decidable (Straight f d levels free path p)
  | 0, _, _, _ => .isTrue trivial
  | _ + 1, 0, _, _ => .isTrue trivial
  | levels + 1, free + 1, path, p =>
    have (path : List UInt8) (p : Nat) := Straight.decidable levels free path p
    inferInstanceAs (Decidable (∀ r ∈ f.opens path, r = (d, p) ∧
      ∀ i ∈ (f.tree d).live p, (f.tree d).IsSub p i → hidden ((f.tree d).listed p i) = false →
        Straight f d levels free (subPath path ((f.tree d).listed p i).name) ((f.tree d).cluster p i)))

instance Counted.decidable : ∀ levels free path p, Decidable (Counted f d levels free path p)
  | 0, _, _, _ => .isTrue trivial
  | _ + 1, 0, _, _ => inferInstanceAs (Decidable (_ = _))
  | levels + 1, free + 1, path, p =>
    have (path : List UInt8) (p : Nat) := Counted.decidable levels free path p
    inferInstanceAs (Decidable (if f.opens path = none then (f.tree d).total (levels + 1) p = 0
      else ∀ i ∈ (f.tree d).live p, (f.tree d).IsSub p i →
        if hidden ((f.tree d).listed p i) then (f.tree d).total levels ((f.tree d).cluster p i) = 0
        else Counted f d levels free (subPath path ((f.tree d).listed p i).name) ((f.tree d).cluster p i)))

variable {f d}

/-- Sums whose summands are bounded. -/
theorem sum_le_iff {α : Type} {l : List α} {a b : α → Nat} {C : α → Prop}
    (each : ∀ x ∈ l, a x ≤ b x ∧ (a x = b x ↔ C x)) :
    (l.map a).sum ≤ (l.map b).sum ∧ ((l.map a).sum = (l.map b).sum ↔ ∀ x ∈ l, C x) := by
  induction l with
  | nil => simp
  | cons x l ih =>
      obtain ⟨low, same⟩ := each x List.mem_cons_self
      obtain ⟨lows, sames⟩ := ih fun y member => each y (List.mem_cons_of_mem x member)
      rw [List.map_cons, List.map_cons, List.sum_cons, List.sum_cons, List.forall_mem_cons, ← same, ← sames]
      omega

theorem hidden_dots {t : Tree} {p i : Nat} (dots : Dirent.name (t.entry p i) = dotName ∨
    Dirent.name (t.entry p i) = dotdotName) : hidden (t.listed p i) = true := by
  have lists : (t.listed p i).name = nameFrom83 (Dirent.name (t.entry p i)) := rfl
  rw [hidden, lists]
  rcases dots with dot | dots
  · rw [dot]
    decide
  · rw [dots]
    decide

/-- Nothing is counted twice, and what is lost is what `Counted` asks about. -/
theorem visited_total : ∀ {levels free path p}, (f.tree d).Within levels p →
    Straight f d levels free path p → visited f free path ≤ (f.tree d).total levels p ∧
      (visited f free path = (f.tree d).total levels p ↔ Counted f d levels free path p) := by
  intro levels
  induction levels with
  | zero => exact fun never => never.elim
  | succ levels ih =>
      intro free path p whole straight
      cases free with
      | zero => exact ⟨Nat.zero_le _, eq_comm⟩
      | succ free =>
          cases opens : f.opens path with
          | none =>
              rw [visited, Counted, opens, if_pos rfl]
              exact ⟨Nat.zero_le _, eq_comm⟩
          | some r =>
              obtain ⟨rfl, below⟩ := straight r opens
              rw [visited, Counted, opens, if_neg (Option.some_ne_none _), Tree.total]
              apply sum_le_iff
              intro i live
              have attr : isDir ((f.tree d).listed p i) = Dirent.hasAttr ((f.tree d).entry p i) attrDir := rfl
              rw [share, attr]
              by_cases sub : (f.tree d).IsSub p i
              · rw [if_pos sub.1, if_pos sub]
                by_cases dot : hidden ((f.tree d).listed p i) = true
                · simp only [dot, if_true, sub, true_implies, Nat.zero_le, true_and]
                  exact eq_comm
                · simp only [dot, if_false, sub, true_implies, Bool.false_eq_true]
                  exact ih (whole i live sub) (below i live sub (by simpa using dot))
              · rw [if_neg sub]
                by_cases dir : Dirent.hasAttr ((f.tree d).entry p i) attrDir = true
                · have dots : hidden ((f.tree d).listed p i) = true := by
                    apply hidden_dots
                    by_contra neither
                    exact sub ⟨dir, fun dot => neither (.inl dot), fun dots => neither (.inr dots)⟩
                  simp only [dir, dots, if_true, sub, false_implies, Nat.le_refl, true_and]
                · simp only [dir, if_false, sub, false_implies, Bool.false_eq_true, iff_true]
                  exact ⟨Nat.le_refl _, rfl⟩

end Tree

/-- walk_size comes back with the sizes of all files below the directory of its argument,
and with no handle left open, exactly when nothing is lost. -/
theorem walkSize_total_iff {s : FileSys} {path : List UInt8} {d p levels : Nat} (good : s.toFs.Faultless)
    (whole : (s.tree d).Within levels p) (fits : (s.tree d).total levels p < 2 ^ 32)
    (straight : Straight s.toFs d levels (freeDirs s) path p) :
    (∃ t, Measures path s ((s.tree d).total levels p) t ∧ Restores s t) ↔
      Counted s.toFs d levels (freeDirs s) path p := by
  obtain ⟨low, same⟩ := visited_total whole straight
  obtain ⟨t, restores, measures⟩ := walkSize_sized (freeDirs s) path good rfl
  rw [u32_small (Nat.lt_of_le_of_lt low fits)] at measures
  rw [← same]
  constructor
  · rintro ⟨u, counts, -⟩
    exact (measures.unique counts).1
  · intro all
    rw [all] at measures
    exact ⟨t, measures, restores⟩

/-! Directories with plain names. -/

/-- Every component of the path is entered; the path is more than a drive prefix. -/
def Leads (f : Fs) (path : List UInt8) (d p : Nat) : Prop := ∃ drive rest,
  parseDrive path = some (drive, rest) ∧ drive.or f.currentDrive = some d ∧ (f.vols d).kind ≠ .none ∧
    rest ≠ [] ∧ (f.tree d).enters (components rest) ((f.vols d).startDir (isAbsolute rest)) = some p

/-- The listed name is one component that finds its slot. -/
structure Neat (t : Tree) (p i : Nat) : Prop where
  some : (t.listed p i).name ≠ []
  shown : hidden (t.listed p i) = false
  word : ∀ c ∈ (t.listed p i).name, isSeparator c = false
  noNul : ∀ c ∈ (t.listed p i).name, c ≠ 0
  found : t.find p (nameTo83 (t.listed p i).name) = .some i

/-- All directories below `p` have such names, and the paths that start with `used` bytes
fit into the buffer. -/
def NeatBelow (t : Tree) : Nat → Nat → Nat → Prop
  | 0, _, _ => True
  | levels + 1, used, p => ∀ i ∈ t.live p, t.IsSub p i → Neat t p i ∧
      used + 1 + (t.listed p i).name.length < fsPathMax ∧
      NeatBelow t levels (used + 1 + (t.listed p i).name.length) (t.cluster p i)

theorem nameFrom83_length (raw : List UInt8) : (nameFrom83 raw).length ≤ 12 := by
  have base := (List.takeWhile_prefix (p := (· != 32)) (l := raw.take 8)).length_le.trans (List.length_take_le 8 raw)
  have ext := (List.takeWhile_prefix (p := (· != 32)) (l := (raw.drop 8).take 3)).length_le.trans
    (List.length_take_le 3 _)
  rw [nameFrom83]
  split
  · rw [List.length_append, List.length_cons]
    omega
  · omega

/-- A listed name that does not start with a '.' starts as the entry does, with no blank. -/
theorem nameFrom83_head {raw : List UInt8} (some : nameFrom83 raw ≠ []) (shown : (nameFrom83 raw).getD 0 0 ≠ 46) :
    raw.getD 0 0 ≠ 32 := by
  intro blank
  have base : (raw.take 8).takeWhile (· != 32) = [] := by
    cases raw with
    | nil => rfl
    | cons c raw =>
        obtain rfl : c = 32 := blank
        rfl
  rw [nameFrom83, base] at some shown
  split at some
  next kept =>
    rw [if_pos kept] at shown
    exact shown rfl
  · exact some rfl

section Neat
variable {f : Fs} {path : List UInt8} {d p i : Nat}

theorem parseDrive_longer {rest : List UInt8} {drive : Option Nat} (parsed : parseDrive path = some (drive, rest))
    (some_ : rest ≠ []) (name : List UInt8) :
    parseDrive (path ++ backslash :: name) = some (drive, rest ++ backslash :: name) := by
  by_cases here : path.getD 1 0 = 58
  · obtain ⟨letter, rest', rfl, parse⟩ := parseDrive_prefix here
    obtain ⟨d, found, same⟩ := Option.map_eq_some_iff.mp (parse.symm.trans parsed)
    obtain ⟨rfl, rfl⟩ := Prod.mk.inj same
    change (driveIdx letter).map _ = _
    rw [found]
    rfl
  · obtain ⟨rfl, rfl⟩ := Prod.mk.inj (Option.some.inj ((parseDrive_plain here).symm.trans parsed))
    apply parseDrive_plain
    obtain ⟨c, tail, rfl⟩ := List.exists_cons_of_ne_nil some_
    cases tail with
    | nil => exact show backslash ≠ 58 by decide
    | cons => exact here

/-- The path of a neat subdirectory leads there, and fs_opendir opens it. -/
theorem Leads.sub (leads : Leads f path d p) (neat : Neat (f.tree d) p i)
    (dir : (f.tree d).IsSub p i) (fits : path.length + 1 + ((f.tree d).listed p i).name.length < fsPathMax) :
    subPath path ((f.tree d).listed p i).name = path ++ backslash :: ((f.tree d).listed p i).name ∧
      Leads f (path ++ backslash :: ((f.tree d).listed p i).name) d ((f.tree d).cluster p i) ∧
      f.opens (path ++ backslash :: ((f.tree d).listed p i).name) = some (d, (f.tree d).cluster p i) := by
  obtain ⟨drive, rest, parsed, current, mounted, some_, entered⟩ := leads
  obtain ⟨nonempty, shown, word, noNul, found⟩ := neat
  have visible : ((f.tree d).listed p i).name.getD 0 0 ≠ 46 := by simpa [hidden] using shown
  have short : ((f.tree d).listed p i).name.length ≤ 12 := nameFrom83_length _
  have start : (Dirent.name ((f.tree d).entry p i)).getD 0 0 ≠ 32 := nameFrom83_head nonempty visible
  generalize ((f.tree d).listed p i).name = name at *
  obtain ⟨-, raw⟩ := Tree.find_some found
  rw [raw] at start
  have dot : name ≠ [46] := by
    rintro rfl
    exact visible rfl
  have dots : name ≠ [46, 46] := by
    rintro rfl
    exact visible rfl
  have whole : name.takeWhile (· ≠ 0) = name := by
    rw [List.takeWhile_eq_self_iff]
    exact fun c member => by simpa using noNul c member
  have parsed' := parseDrive_longer parsed some_ name
  have absolute : isAbsolute (rest ++ backslash :: name) = isAbsolute rest := by
    obtain ⟨c, tail, rfl⟩ := List.exists_cons_of_ne_nil some_
    rfl
  have comps : components (rest ++ backslash :: name) = components rest ++ [name] := by
    have closed : Closed (rest ++ [backslash]) := by
      intro c last
      rw [List.getLast?_concat] at last
      obtain rfl := Option.some.inj last
      rfl
    rw [← components_trailing rest (show isSeparator backslash = true from rfl), ← components_join closed nonempty word short,
      List.append_assoc]
    rfl
  have enter : (f.tree d).enter name p = some ((f.tree d).cluster p i) := by
    rw [Tree.enter, if_neg dot, if_neg dots, found, Option.bind_some, if_pos dir.1]
  refine ⟨?_, ⟨drive, _, parsed', current, mounted, by simp, ?_⟩, Fs.opens_some.mpr
    ⟨⟨⟨p, nameTo83 name, some ((f.tree d).entry p i, i * 32)⟩, d⟩, ?_, rfl, ?_⟩⟩
  · rw [subPath, whole, List.take_of_length_le]
    rw [List.length_append, List.length_cons]
    omega
  · rw [comps, absolute, Tree.enters_snoc, entered, Option.bind_some, enter]
  · rw [Fs.walk_eq parsed' current mounted, comps, absolute, Tree.walk_found entered dot dots found]
    rfl
  · rw [listedDir]
    dsimp only
    rw [if_neg start, if_pos dir.1]
    rfl

/-- The path that df starts with, "X:\\". -/
theorem Leads.root {letter : UInt8} (drive : driveIdx letter = some d) (mounted : (f.vols d).kind ≠ .none) :
    Leads f [letter, 58, backslash] d ((f.vols d).startDir true) ∧
      f.opens [letter, 58, backslash] = some (d, (f.vols d).startDir true) := by
  have parsed : parseDrive [letter, 58, backslash] = some (some d, [backslash]) := by
    rw [parseDrive, drive]
    rfl
  have comps : components [backslash] = [] := components_separator rfl []
  refine ⟨⟨some d, [backslash], parsed, rfl, mounted, List.cons_ne_nil _ _, ?_⟩,
    Fs.opens_some.mpr ⟨⟨⟨(f.vols d).startDir true, padTo 11 [], none⟩, d⟩, ?_, rfl, rfl⟩⟩
  · rw [comps]
    rfl
  · rw [Fs.walk_eq parsed rfl mounted, comps]
    rfl

/-- With neat names and handles enough, nothing strays and nothing is lost. -/
theorem neat_counted : ∀ {levels free path p}, levels ≤ free → f.opens path = some (d, p) → Leads f path d p →
    NeatBelow (f.tree d) levels path.length p →
    Straight f d levels free path p ∧ Counted f d levels free path p := by
  intro levels
  induction levels with
  | zero => exact fun _ _ _ _ => ⟨trivial, trivial⟩
  | succ levels ih =>
      intro free path p deep opens leads neat
      obtain ⟨free, rfl⟩ := Nat.exists_eq_succ_of_ne_zero (Nat.ne_of_gt (Nat.zero_lt_of_lt deep))
      have below (i : Nat) (live : i ∈ (f.tree d).live p) (sub : (f.tree d).IsSub p i) :
          Straight f d levels free (subPath path ((f.tree d).listed p i).name) ((f.tree d).cluster p i) ∧
            Counted f d levels free (subPath path ((f.tree d).listed p i).name) ((f.tree d).cluster p i) := by
        obtain ⟨plain, fits, rest⟩ := neat i live sub
        obtain ⟨path', leads', opens'⟩ := leads.sub plain sub fits
        rw [path']
        refine ih (Nat.le_of_succ_le_succ deep) opens' leads' ?_
        rwa [List.length_append, List.length_cons, Nat.add_comm _ 1, ← Nat.add_assoc]
      refine ⟨fun r member => ?_, ?_⟩
      · rw [opens] at member
        obtain rfl := Option.some.inj member
        exact ⟨rfl, fun i live sub _ => (below i live sub).1⟩
      · rw [Counted, opens, if_neg (Option.some_ne_none _)]
        intro i live sub
        rw [(neat i live sub).1.shown, if_neg Bool.false_ne_true]
        exact (below i live sub).2

end Neat

/-- A small volume on A: with one directory of that name, in which there is one file. -/
def oneSub (name : List UInt8) : FileSys :=
  let dir := Dirent.setCluster .fat12 (Dirent.make (nameTo83 name) attrDir) 2
  let file := Dirent.setSize (Dirent.make (nameTo83 [70]) attrArc) 5
  let boot := Header.bootSector ⟨512, 1, 1, 2, 16, 1, 40⟩ 0
  let disk := Disk.image 40 (splice (splice boot (3 * 512) 32 dir) (4 * 512) 32 file)
  { Fs.single (mountVolume 0 (.fresh disk .zero)).2 with dirhs := fun _ => ⟨false, 0, 0, 0⟩ }

theorem oneSub_good (name : List UInt8) : (oneSub name).toFs.Faultless :=
  Fs.Faultless.single ((mountVolume_traffic 0 (.fresh _ .zero)).same.faultless (Disk.image_faultless _ _))

/-- The directory `D` and its file of five bytes. -/
theorem plain_counted : ∃ t, Measures [65, 58, 92] (oneSub [68]) 5 t ∧ Restores (oneSub [68]) t := by
  have sum : ((oneSub [68]).tree 0).total 2 0 = 5 := by decide +kernel
  have whole : ((oneSub [68]).tree 0).Within 2 0 := by decide +kernel
  have straight : Straight (oneSub [68]).toFs 0 2 (freeDirs (oneSub [68])) [65, 58, 92] 0 := by decide +kernel
  have counted : Counted (oneSub [68]).toFs 0 2 (freeDirs (oneSub [68])) [65, 58, 92] 0 := by decide +kernel
  have comes := (walkSize_total_iff (oneSub_good [68]) whole (by rw [sum]; decide) straight).mpr counted
  rwa [sum] at comes

/-- The file in `A B` is not counted: the path ends in `A`. -/
theorem inner_blank_missed : ¬ ∀ (s : FileSys) (path : List UInt8) (d p levels : Nat), s.toFs.Faultless →
    s.opens path = some (d, p) → (s.tree d).Within levels p → (s.tree d).total levels p < 2 ^ 32 →
      ∃ t, Measures path s ((s.tree d).total levels p) t ∧ Restores s t := by
  intro all
  have sum : ((oneSub [65, 32, 66]).tree 0).total 2 0 = 5 := by decide +kernel
  have reach : (oneSub [65, 32, 66]).opens [65, 58, 92] = some (0, 0) := by decide +kernel
  have whole : ((oneSub [65, 32, 66]).tree 0).Within 2 0 := by decide +kernel
  have none : visited (oneSub [65, 32, 66]).toFs (freeDirs (oneSub [65, 32, 66])) [65, 58, 92] = 0 := by
    decide +kernel
  obtain ⟨t, counts, -⟩ := all _ _ 0 0 2 (oneSub_good _) reach whole (by rw [sum]; decide)
  obtain ⟨u, -, measures⟩ := walkSize_sized _ [65, 58, 92] (oneSub_good [65, 32, 66]) rfl
  rw [none] at measures
  rw [sum] at counts
  exact absurd (counts.unique measures).1 (by decide)

end DirSize

end Zenbite.Shell
