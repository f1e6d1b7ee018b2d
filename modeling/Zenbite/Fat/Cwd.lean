import Zenbite.Lib.Runs
import Zenbite.Fat.CwdPath

/-! The path that fs_chdir shows against the directory that it enters: the cluster
comes from a walk over the whole path, the string from its last component. -/

namespace Zenbite.Fat

open Memory VolState

/-! The tree. -/

/-- A component that is looked up. -/
def IsName (comp : List UInt8) : Prop := comp ≠ [46] ∧ comp ≠ [46, 46]

namespace Tree
variable {t : Tree}

theorem enters_append (t : Tree) (front back : List (List UInt8)) (d : Nat) :
    t.enters (front ++ back) d = (t.enters front d).bind (t.enters back) := by
  induction front generalizing d with
  | nil => rfl
  | cons comp front ih =>
      rw [List.cons_append, enters, enters, Option.bind_assoc]
      exact congrArg _ (funext ih)

theorem enters_one (t : Tree) (comp : List UInt8) (d : Nat) : t.enters [comp] d = t.enter comp d := by
  rw [enters]
  exact Option.bind_fun_some _

theorem enters_snoc (t : Tree) (front : List (List UInt8)) (last : List UInt8) (d : Nat) :
    t.enters (front ++ [last]) d = (t.enters front d).bind (t.enter last) := by
  rw [enters_append]
  exact congrArg _ (funext (t.enters_one last))

/-- Where fs_chdir goes from a leaf. -/
def target (t : Tree) (leaf : Leaf) : Option Nat :=
  match leaf.entry with
  | none => some leaf.parent
  | some (e, _) => if Dirent.hasAttr e attrDir then some (Dirent.cluster t.kind e) else none

/-- What fs_mkdir builds: ".." of a directory leads back to the one it was entered
from, and a directory has one name. -/
structure Linked (t : Tree) : Prop where
  back : ∀ front comp d c, t.enters front 0 = some d → IsName comp → t.enter comp d = some c → c ≠ 0 →
    t.up c = d
  once : ∀ front front' comp comp' d d' c, t.enters front 0 = some d → t.enters front' 0 = some d' →
    IsName comp → IsName comp' → t.enter comp d = some c → t.enter comp' d' = some c → c ≠ 0 →
    nameTo83 comp = nameTo83 comp'

end Tree

/-! One call on one volume. -/

/-- The name of a last component in the string. -/
def shownName (last : List UInt8) : List UInt8 :=
  if last = [46] ∨ last = [46, 46] then last else nameFrom83 (nameTo83 last)

def shownLast (comps : List (List UInt8)) : List UInt8 := (comps.getLast?.map shownName).getD [46]

def patched (name path : List UInt8) : List UInt8 :=
  if name = [46, 46] then cwdPop path else if name = [46] then path else cwdAppend path name

/-- fs_chdir of the components `comps` that lead to `target`. -/
def FatVolume.follow (v : FatVolume) (comps : List (List UInt8)) (target : Nat) : FatVolume :=
  if target = 0 then v.setCwd true 0 [backslash]
  else v.setCwd false target (patched (shownLast comps) v.cwdPath)

/-- The string names the directory: from the root it leads there. -/
def Shown (t : Tree) (v : FatVolume) : Prop :=
  t.enters (components v.cwdPath) 0 = some (v.startDir false)

/-- The same with the names at hand. -/
structure Displayed (t : Tree) (v : FatVolume) (names : List (List UInt8)) : Prop where
  path : v.cwdPath = pathOf names
  plain : ∀ n ∈ names, Plain n
  leads : t.enters names 0 = some (v.startDir false)
  root : v.startDir false = 0 ↔ names = []

theorem Displayed.shown {t : Tree} {v : FatVolume} {names : List (List UInt8)}
    (displayed : Displayed t v names) : Shown t v := by
  rw [Shown, displayed.path, components_pathOf displayed.plain]
  exact displayed.leads

section Step
variable {t : Tree} {v : FatVolume} {names comps : List (List UInt8)} {start target : Nat}

theorem follow_root (zero : target = 0) : v.follow comps target = v.setCwd true 0 [backslash] :=
  if_pos zero

theorem follow_some (some : target ≠ 0) :
    v.follow comps target = v.setCwd false target (patched (shownLast comps) v.cwdPath) := if_neg some

/-- Where a call that does not lead to the root ends, and the new path. -/
theorem shown_follow (some : target ≠ 0) : Shown t (v.follow comps target) ↔
    t.enters (components (patched (shownLast comps) v.cwdPath)) 0 = Option.some target := by
  rw [follow_some some]
  exact Iff.rfl

theorem displayed_root (t : Tree) (v : FatVolume) : Displayed t (v.setCwd true 0 [backslash]) [] where
  path := rfl
  plain _ member := absurd member List.not_mem_nil
  leads := rfl
  root := ⟨fun _ => rfl, fun _ => rfl⟩

/-- The new volume shows `names` if they lead to the target. -/
theorem displayed_follow (some : target ≠ 0) (path : patched (shownLast comps) v.cwdPath = pathOf names)
    (plain : ∀ n ∈ names, Plain n) (leads : t.enters names 0 = Option.some target) :
    Displayed t (v.follow comps target) names := by
  rw [follow_some some]
  refine ⟨path, plain, leads, ⟨fun zero => absurd zero some, fun none => ?_⟩⟩
  rw [none] at leads
  exact absurd (Option.some.inj leads).symm some

/-- The last component as the walk looks it up, if it gets a name in the string. -/
theorem last_of_shown (words : ∀ c ∈ comps, Word c) (dot : shownLast comps ≠ [46])
    (dots : shownLast comps ≠ [46, 46]) : ∃ front last, comps = front ++ [last] ∧ IsName last ∧
      Word last ∧ shownLast comps = nameFrom83 (nameTo83 last) := by
  rcases List.eq_nil_or_concat' comps with rfl | ⟨front, last, rfl⟩
  · exact absurd rfl dot
  · have shown : shownLast (front ++ [last]) = shownName last := by
      rw [shownLast, List.getLast?_concat]
      rfl
    rw [shown] at dot dots ⊢
    have name : IsName last := by
      refine ⟨?_, ?_⟩
      · rintro rfl
        exact dot rfl
      · rintro rfl
        exact dots rfl
    exact ⟨front, last, rfl, name, words last (by simp), if_neg (not_or.mpr name)⟩

/-- In a linked tree no blank name is entered for the current directory. -/
theorem blank_elsewhere (linked : t.Linked) (displayed : Displayed t v names) {last : List UInt8}
    {d : Nat} (reach : ∃ way, t.enters way 0 = Option.some d) (name : IsName last)
    (enter : t.enter last d = Option.some target) (some : target ≠ 0)
    (blank : nameFrom83 (nameTo83 last) = []) : v.startDir false ≠ target := by
  intro same
  obtain ⟨way, reach⟩ := reach
  have inside : names ≠ [] := fun none => some (same ▸ displayed.root.mpr none)
  obtain ⟨init, n, rfl⟩ := (List.eq_nil_or_concat' names).resolve_left inside
  have leads := displayed.leads
  rw [Tree.enters_snoc] at leads
  obtain ⟨p, parent, entered⟩ := Option.bind_eq_some_iff.mp leads
  have plain := displayed.plain n (by simp)
  rw [same] at entered
  have twice := linked.once init way n last p d target parent reach ⟨plain.dot, plain.dots⟩ name entered
    enter some
  exact plain.shown (by rw [twice, blank])

/-- One call: it shows the right path exactly when the shown name of the last
component leads from the current directory to the target. -/
theorem Displayed.follow (linked : t.Linked) (displayed : Displayed t v names)
    (words : ∀ c ∈ comps, Word c) (reach : ∃ way, t.enters way 0 = Option.some start)
    (entered : t.enters comps start = Option.some target)
    (fits : target ≠ 0 → IsName (shownLast comps) →
      (unclipped v.cwdPath (shownLast comps)).length < fsPathMax) :
    (Shown t (v.follow comps target) ↔ (target ≠ 0 →
      t.enters (components (shownLast comps)) (v.startDir false) = Option.some target)) ∧
    ((target ≠ 0 → t.enters (components (shownLast comps)) (v.startDir false) = Option.some target) →
      ∃ names', Displayed t (v.follow comps target) names') := by
  by_cases some : target = 0
  · rw [follow_root some]
    exact ⟨⟨fun _ more => absurd some more, fun _ => (displayed_root t v).shown⟩,
      fun _ => ⟨[], displayed_root t v⟩⟩
  -- the names of the new path lead to the target exactly when the condition holds
  suffices moved : ∃ after : List (List UInt8), components (patched (shownLast comps) v.cwdPath) = after ∧
      (t.enters after 0 = Option.some target ↔
        t.enters (components (shownLast comps)) (v.startDir false) = Option.some target) ∧
      (t.enters after 0 = Option.some target →
        patched (shownLast comps) v.cwdPath = pathOf after ∧ ∀ n ∈ after, Plain n) by
    obtain ⟨after, path, same, keeps⟩ := moved
    rw [shown_follow some, path, same]
    refine ⟨⟨fun leads _ => leads, fun leads => leads some⟩, fun leads => ?_⟩
    have leads := same.mpr (leads some)
    exact ⟨after, displayed_follow some (keeps leads).1 (keeps leads).2 leads⟩
  by_cases dots : shownLast comps = [46, 46]
  · -- ".." drops the last name
    have pop (path : List UInt8) : patched (shownLast comps) path = cwdPop path := if_pos dots
    have up : t.enters (components (shownLast comps)) (v.startDir false) =
        Option.some (t.up (v.startDir false)) := by
      rw [dots]
      exact t.enters_one [46, 46] _
    rw [pop, up, displayed.path]
    rcases List.eq_nil_or_concat' names with rfl | ⟨init, n, rfl⟩
    · rw [cwdPop_root, components_pathOf displayed.plain, displayed.root.mpr rfl]
      exact ⟨[], rfl, Iff.rfl, fun _ => ⟨rfl, displayed.plain⟩⟩
    · have plain := displayed.plain n (by simp)
      have kept : ∀ m ∈ init, Plain m := fun m member => displayed.plain m (List.mem_append_left _ member)
      have leads := displayed.leads
      rw [Tree.enters_snoc] at leads
      obtain ⟨p, parent, enter⟩ := Option.bind_eq_some_iff.mp leads
      have below : v.startDir false ≠ 0 := fun zero => by
        have := displayed.root.mp zero
        simp at this
      rw [cwdPop_pathOf init plain.solid, components_pathOf kept,
        linked.back init n p _ parent ⟨plain.dot, plain.dots⟩ enter below]
      refine ⟨init, rfl, ?_, fun _ => ⟨rfl, kept⟩⟩
      rw [parent]
  by_cases dot : shownLast comps = [46]
  · -- the path stays
    have stay (path : List UInt8) : patched (shownLast comps) path = path := by
      rw [patched, if_neg dots, if_pos dot]
    rw [stay, displayed.path, components_pathOf displayed.plain, dot]
    refine ⟨names, rfl, ?_, fun _ => ⟨rfl, displayed.plain⟩⟩
    have here : t.enters (components [46]) (v.startDir false) = Option.some (v.startDir false) :=
      t.enters_one [46] _
    rw [displayed.leads, here]
  · -- the name is appended
    have append (path : List UInt8) : patched (shownLast comps) path = cwdAppend path (shownLast comps) := by
      rw [patched, if_neg dots, if_neg dot]
    obtain ⟨front, last, split, name, word, shown⟩ := last_of_shown words dot dots
    rw [append, cwdAppend_unclipped (fits some ⟨dot, dots⟩), displayed.path,
      unclipped_pathOf displayed.plain]
    by_cases blank : shownLast comps = []
    · have path : components (pathOf (names ++ [shownLast comps])) = names := by
        have none : components [backslash] = [] := components_separator backslash_separator []
        rw [pathOf_append, blank, components_flat displayed.plain, none, List.append_nil]
        intro c head
        obtain rfl := Option.some.inj head
        exact backslash_separator
      rw [path]
      have here : t.enters (components (shownLast comps)) (v.startDir false) =
          Option.some (v.startDir false) := by
        rw [blank]
        rfl
      refine ⟨names, rfl, by rw [displayed.leads, here], fun leads => ?_⟩
      rw [displayed.leads] at leads
      rw [split, Tree.enters_snoc] at entered
      obtain ⟨d, front', enter⟩ := Option.bind_eq_some_iff.mp entered
      obtain ⟨way, begin⟩ := reach
      refine absurd (Option.some.inj leads) (blank_elsewhere linked displayed
        ⟨way ++ front, ?_⟩ name enter some ?_)
      · rw [Tree.enters_append, begin, Option.bind_some, front']
      · rw [← shown, blank]
    · rw [shown] at blank dot dots ⊢
      have plain := plain_of_shown word blank dot dots
      have all : ∀ n ∈ names ++ [nameFrom83 (nameTo83 last)], Plain n := by
        intro n member
        rcases List.mem_append.mp member with old | new
        · exact displayed.plain n old
        · rw [List.mem_singleton.mp new]
          exact plain
      have one : components (nameFrom83 (nameTo83 last)) = [nameFrom83 (nameTo83 last)] := by
        have cut : components (nameFrom83 (nameTo83 last) ++ []) =
            (nameFrom83 (nameTo83 last)).take 12 :: components [] := components_word plain.some plain.solid nofun
        rwa [List.append_nil, List.take_of_length_le plain.short] at cut
      rw [components_pathOf all, one]
      refine ⟨_, rfl, ?_, fun _ => ⟨rfl, all⟩⟩
      rw [Tree.enters_append, displayed.leads, Option.bind_some]

end Step

/-! fs_chdir over the drives. -/

theorem VolState.tree_congr {s u : VolState Disk} (layout : u.vol.toLayout = s.vol.toLayout)
    (root : u.vol.root = s.vol.root) (bytes : u.disk.bytes = s.disk.bytes) : u.tree = s.tree := by
  have fixed (d : Nat) : u.vol.FixedRoot d ↔ s.vol.FixedRoot d := by simp only [FatVolume.FixedRoot, layout]
  have dir (d : Nat) : u.vol.dirCluster d = s.vol.dirCluster d := by simp only [FatVolume.dirCluster, layout]
  have buf : u.loaded = s.loaded := by
    funext d
    simp only [VolState.loaded, fixed, dir, layout, root, bytes]
  have slots : u.dirSlots = s.dirSlots := by
    funext d
    simp only [VolState.dirSlots, fixed, layout]
  simp only [VolState.tree, layout, buf, slots]

theorem follow_same (v : FatVolume) (comps : List (List UInt8)) (target : Nat) :
    (v.follow comps target).toLayout = v.toLayout ∧ (v.follow comps target).root = v.root ∧
      (v.follow comps target).diskId = v.diskId := by
  simp only [FatVolume.follow]
  split <;> exact ⟨rfl, rfl, rfl⟩

/-- Where a path leads: the drive, the components and the directory. -/
structure Leads (f : Fs) (path : List UInt8) (d start target : Nat) (comps : List (List UInt8)) : Prop where
  route : f.route path = some (d, start, comps)
  entered : (f.tree d).enters comps start = some target

/-- The drives are as before, but `d` has the volume `v`. -/
structure OnlyVolume (f g : Fs) (d : Nat) (v : FatVolume) : Prop where
  vols : g.vols = Function.update f.vols d v
  currentDrive : g.currentDrive = f.currentDrive
  disks : ∀ id, (f.disks id).Same (g.disks id)

section Volumes
variable {f g : Fs} {d : Nat} {v : FatVolume}

theorem OnlyVolume.good (only : OnlyVolume f g d v) (good : f.Faultless) : g.Faultless := fun id =>
  (only.disks id).faultless (good id)

theorem OnlyVolume.tree (only : OnlyVolume f g d v) (layout : v.toLayout = (f.vols d).toLayout)
    (root : v.root = (f.vols d).root) (disk : v.diskId = (f.vols d).diskId) (e : Nat) :
    g.tree e = f.tree e := by
  have same : (g.vols e).toLayout = (f.vols e).toLayout ∧ (g.vols e).root = (f.vols e).root ∧
      (g.vols e).diskId = (f.vols e).diskId := by
    rw [only.vols]
    by_cases here : e = d
    · rw [here, Function.update_self]
      exact ⟨layout, root, disk⟩
    · rw [Function.update_of_ne here]
      exact ⟨rfl, rfl, rfl⟩
  refine VolState.tree_congr same.1 same.2.1 ?_
  simp only [Fs.vol, same.2.2]
  exact (only.disks _).bytes

theorem OnlyVolume.follow {comps : List (List UInt8)} {target : Nat}
    (only : OnlyVolume f g d ((f.vols d).follow comps target)) (e : Nat) : g.tree e = f.tree e :=
  have same := follow_same (f.vols d) comps target
  only.tree same.1 same.2.1 same.2.2 e

end Volumes

/-! Runs. -/

/-- Disks that answer, trees as fs_mkdir builds them, and paths that are right. -/
structure Fs.Placed (f : Fs) : Prop where
  good : f.Faultless
  linked : ∀ d, (f.vols d).kind ≠ .none → (f.tree d).Linked
  shown : ∀ d, (f.vols d).kind ≠ .none → ∃ names, Displayed (f.tree d) (f.vols d) names

/-- `ABCDEFGH.IJK`. -/
def longName : List UInt8 := [65, 66, 67, 68, 69, 70, 71, 72, 46, 73, 74, 75]

/-- The small volume after fs_mkdir has made that directory. -/
def oneDir : Fs := .single (addDir 0 (nameTo83 longName) (mountVolume 0 (.fresh emptyRoot .zero)).2).2

/-- Where the path of the new directory leads from the root, and what a call appends. -/
theorem oneDir_routes : ((oneDir.vols 0).cwdIsRoot = true ∧ (oneDir.vols 0).cwdPath = [backslash]) ∧
    oneDir.route longName = some (0, 0, [longName]) ∧ (oneDir.tree 0).enters [longName] 0 = some 2 ∧
    (unclipped (oneDir.vols 0).cwdPath (shownLast [longName])).length < fsPathMax ∧
    (oneDir.tree 0).enters (components (shownLast [longName])) ((oneDir.vols 0).startDir false) = some 2 := by
  decide +kernel

theorem nameTo83_dot (comp : List UInt8) : (nameTo83 comp).getD 0 0 ≠ 46 := by
  obtain ⟨base, ext, shape, -, -, -, left, -⟩ := nameTo83_parts comp
  rw [shape]
  cases base with
  | nil => exact show (32 : UInt8) ≠ 46 by decide
  | cons c base =>
      obtain ⟨x, -, other, rfl⟩ := left c List.mem_cons_self
      exact fun same => other (toUpper_eq same (by decide))

end Zenbite.Fat
