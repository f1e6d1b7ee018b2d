import Mathlib.Data.Multiset.ZeroCons
import Zenbite.Fat.Listing
import Zenbite.Fat.Names

/-! From a path to the entry that fs_create makes, to the name that fs_readdir
reports for it, and back. -/

namespace Zenbite.Fat

open Memory VolState

theorem Dirent.make_name {name : List UInt8} (whole : name.length = 11) (attr : UInt8) :
    Dirent.name (Dirent.make name attr) = name := by
  apply List.ext_getElem
  · simp [Dirent.name, whole]
  · intro k low high
    simp only [Dirent.name, List.getElem_map, List.getElem_range, Dirent.make, if_pos (whole ▸ high)]
    exact (List.getElem_eq_getD 0).symm

/-- The entry that fs_create makes: the walk of the path and the free slot. -/
structure Made (path : List UInt8) (f : Fs) (w : Walk) (i : Nat) : Prop where
  walk : f.walk path true = some w
  free : freeFromSlot ((f.tree w.drive).buf w.parent) ((f.tree w.drive).slots w.parent) 0 = some i

/-- What fs_create leaves alone besides the disks. -/
structure Fs.SameRoutes (f g : Fs) : Prop where
  currentDrive : g.currentDrive = f.currentDrive
  handles : g.handles = f.handles
  kind : ∀ d, (g.vols d).kind = (f.vols d).kind
  start : ∀ d absolute, (g.vols d).startDir absolute = (f.vols d).startDir absolute

theorem fsCreate_made {f : Fs} {path : List UInt8} {w : Walk} {i : Nat} (good : f.Faultless)
    (made : Made path f w i) (created : (fsCreate path f).1 = 0) :
    w.entry = none ∧ Creatable w.name ∧ (fsCreate path f).2.Faultless ∧
      f.SameRoutes (fsCreate path f).2 ∧
      Stored w.parent (splice ((f.tree w.drive).buf w.parent) (i * 32) 32 (Dirent.make w.name attrArc))
        (f.vol w.drive) ((fsCreate path f).2.vol w.drive) := by
  have walked := walkPath_tree good path true
  have only := walkPath_only path true f
  rw [made.walk] at walked
  have free := made.free
  rw [← only.tree] at free
  obtain ⟨rc, stored⟩ := dirAddEntry_stored (only.good good _) free (Dirent.make w.name attrArc)
  have kept : (dirAddEntry w.parent (Dirent.make w.name attrArc)
      ((walkPath path true f).2.vol w.drive)).2.vol.diskId = ((walkPath path true f).2.vols w.drive).diskId :=
    stored.diskId
  simp only [fsCreate, walked] at created ⊢
  split at created
  · cases created
  next create =>
    rw [not_or, not_not, Option.not_isSome_iff_eq_none] at create
    rw [if_neg (by simp [create])]
    have run : ¬ ((walkPath path true f).2.on w.drive
        (dirAddEntry w.parent (Dirent.make w.name attrArc))).1 < 0 := by
      simp only [Fs.on, rc]
      exact lt_irrefl 0
    rw [if_neg run]
    refine ⟨create.1, create.2, fun id => ?_, ⟨only.currentDrive, only.handles, fun d => ?_, fun d absolute => ?_⟩, ?_⟩
    · simp only [Fs.on, Fs.putVol, Function.update_apply]
      split
      · exact stored.good
      · exact only.good good id
    · simp only [Fs.on, Fs.putVol, Function.update_apply]
      split
      next here => rw [here, ← only.vols]; exact congrArg Layout.kind stored.layout
      · rw [only.vols]
    · simp only [Fs.on, Fs.putVol, Function.update_apply]
      split
      next here =>
        rw [here, ← only.vols]
        simp only [FatVolume.startDir, stored.cwdIsRoot, stored.cwdCluster]
        rfl
      · rw [only.vols]
    · simp only [Fs.on, Fs.vol_putVol kept]
      rw [(only.drive w.drive).tree] at stored
      exact stored.after (only.drive w.drive)

/-- The directories on the way of a path keep apart from the one of its last
component: they are that directory, or lie in other sectors. -/
def OwnPlaces (path : List UInt8) (f : Fs) (w : Walk) : Prop :=
  ∀ drive rest, parseDrive path = some (drive, rest) →
    ∀ d ∈ (f.tree w.drive).way (components (dirPart rest)) ((f.vols w.drive).startDir (isAbsolute rest)),
      (f.vol w.drive).Twins w.parent d ∨ (f.vol w.drive).Spares w.parent d

/-- fs_open finds the new entry, the directory lists one entry more, and its name
opens the new entry too. -/
structure RoundTrip (path : List UInt8) (s t : FileSys) (w : Walk) (i : Nat) : Prop where
  opens : OpensAt path w.drive w.parent i t.toFs
  lists : ∃ before after x, ListsDir (parentPath path) w.drive w.parent s (before ++ after) ∧
    ListsDir (parentPath path) w.drive w.parent t (before ++ x :: after) ∧
    OpensAt (parentPath path ++ x.name) w.drive w.parent i t.toFs

/-- When that is so. The name does not start with the deletion mark and comes back
from its listed form; the listed form does not read as a drive prefix; no old
entry stands behind the end mark that the new one replaces; fs_opendir gets to
the directory; a handle of each table is free. -/
structure Returns (path : List UInt8) (s : FileSys) (w : Walk) (i : Nat) : Prop where
  mark : w.name.getD 0 0 ≠ deletedMark
  name : nameTo83 (nameFrom83 w.name) = w.name
  drive : path.getD 1 0 = 58 ∨ (parentPath path ++ nameFrom83 w.name).getD 1 0 ≠ 58
  closed : (s.tree w.drive).Sealed w.parent i
  dir : ∃ v, s.walk (parentPath path) false = some v ∧ v.drive = w.drive ∧
    listedDir (s.tree w.drive).kind v.toLeaf = some w.parent
  handle : allocHandle s.toFs ≠ none
  dirHandle : freeDir s ≠ none

theorem Stored.filled {p i : Nat} {e : Buffer} {s t : VolState Disk}
    (stored : Stored p (splice (s.tree.buf p) (i * 32) 32 e) s t) : s.tree.Filled t.tree p i e := by
  refine ⟨congrArg Layout.kind stored.layout, ?_, stored.here⟩
  funext d
  have fixed : t.vol.FixedRoot d ↔ s.vol.FixedRoot d := by
    simp only [FatVolume.FixedRoot, stored.layout]
  change t.dirSlots d = s.dirSlots d
  simp only [VolState.dirSlots, fixed, stored.layout]

theorem Stored.alike {p d : Nat} {buf : Buffer} {s t : VolState Disk} (stored : Stored p buf s t)
    (own : s.Twins p d ∨ s.Spares p d) : Tree.Alike s.tree t.tree p d := by
  rcases own with twins | spares
  · refine .inl ⟨?_, stored.twins d twins⟩
    change s.dirSlots d = s.dirSlots p
    rcases twins with rfl | ⟨chain, other, -⟩
    · rfl
    · rw [VolState.dirSlots, VolState.dirSlots, if_neg chain, if_neg other]
  · exact .inr (stored.spared d spares)

/-! The walk of a path after fs_create. -/

section Create
variable {f g : Fs} {path : List UInt8} {w : Walk} {i : Nat}

theorem Fs.SameRoutes.walk (same : f.SameRoutes g) {path rest : List UInt8} {drive : Option Nat} {d : Nat}
    (parsed : parseDrive path = some (drive, rest)) (current : drive.or f.currentDrive = some d)
    (mounted : (f.vols d).kind ≠ .none) (allowMissing : Bool) : g.walk path allowMissing =
      ((g.tree d).walk (components rest) allowMissing ((f.vols d).startDir (isAbsolute rest))).map
        fun leaf => ⟨leaf, d⟩ := by
  rw [Fs.walk_eq parsed (by rw [same.currentDrive]; exact current) (by rw [same.kind]; exact mounted),
    same.start]

/-- The path of a new entry, taken apart. -/
structure Landing (path : List UInt8) (f : Fs) (w : Walk) (drive : Option Nat) (rest last : List UInt8) :
    Prop where
  parsed : parseDrive path = some (drive, rest)
  current : drive.or f.currentDrive = some w.drive
  mounted : (f.vols w.drive).kind ≠ .none
  closed : Closed (dirPart rest)
  absolute : isAbsolute (dirPart rest) = isAbsolute rest
  split : components rest = components (dirPart rest) ++ [last]
  plain : ∀ c ∈ last, isSeparator c = false
  bytes : ∀ c ∈ last, c ∈ path
  dot : last ≠ [46]
  dots : last ≠ [46, 46]
  entered : (f.tree w.drive).enters (components (dirPart rest))
    ((f.vols w.drive).startDir (isAbsolute rest)) = some w.parent
  name : w.name = nameTo83 last
  missing : (f.tree w.drive).find w.parent w.name = none

theorem parseDrive_suffix {path rest : List UInt8} {drive : Option Nat}
    (parsed : parseDrive path = some (drive, rest)) : rest <:+ path := by
  by_cases here : path.getD 1 0 = 58
  · obtain ⟨letter, rest', rfl, parse⟩ := parseDrive_prefix here
    obtain ⟨d, -, same⟩ := Option.map_eq_some_iff.mp (parse.symm.trans parsed)
    obtain ⟨-, rfl⟩ := Prod.mk.inj same
    exact ⟨[letter, 58], rfl⟩
  · obtain ⟨-, rfl⟩ := Prod.mk.inj (Option.some.inj ((parseDrive_plain here).symm.trans parsed))
    exact List.suffix_refl _

theorem Made.landing (made : Made path f w i) (missing : w.entry = none) (creatable : Creatable w.name) :
    ∃ drive rest last, Landing path f w drive rest last := by
  obtain ⟨drive, rest, parsed, current, mounted, walk⟩ := Fs.walk_some made.walk
  obtain ⟨front, last, comps, dot, dots, entered, name, none⟩ := Tree.walk_missing walk missing creatable
  have parts : components rest ≠ [] := by
    rw [comps]
    exact List.append_ne_nil_of_right_ne_nil _ (by simp)
  obtain ⟨word, seps, cut, closed, some, plain, split⟩ := components_dirPart parts
  obtain ⟨rfl, same⟩ := List.append_inj' (comps.symm.trans split) rfl
  obtain rfl := (List.cons.inj same).1
  have part : ∀ c ∈ word.take 12, c ∈ word := fun c member => List.mem_of_mem_take member
  refine ⟨drive, rest, word.take 12, parsed, current, mounted, closed, ?_, split,
    fun c member => plain c (part c member), fun c member => ?_, dot, dots, entered, name, name ▸ none⟩
  · have same : isAbsolute (dirPart rest ++ (word ++ seps)) = isAbsolute (dirPart rest) :=
        isAbsolute_join (dirPart rest) fun c head => plain c (by
      obtain ⟨x, word, rfl⟩ := List.exists_cons_of_ne_nil some
      obtain rfl := Option.some.inj head
      exact List.mem_cons_self)
    rw [← cut] at same
    exact same.symm
  · refine (parseDrive_suffix parsed).subset ?_
    rw [cut]
    exact List.mem_append_right _ (List.mem_append_left _ (part c member))

theorem OpensAt.live {d p : Nat} (good : g.Faultless) (opens : OpensAt path d p i g) :
    ∃ drive rest front last, parseDrive path = some (drive, rest) ∧ components rest = front ++ [last] ∧
      i ∈ (g.tree d).live p ∧ Dirent.name ((g.tree d).entry p i) = nameTo83 last := by
  obtain ⟨⟨v, e, walk, rfl, rfl, entry, -⟩, -⟩ := (opensAt_iff good).mp opens
  obtain ⟨drive, rest, parsed, -, -, led⟩ := Fs.walk_some walk
  obtain ⟨front, last, j, split, -, found, -, off⟩ := Tree.walk_entry led entry
  obtain rfl : j = i := by omega
  exact ⟨drive, rest, front, last, parsed, split, Tree.find_some found⟩

/-! The two directions. -/

/-- The new entry is live unless its name starts with the deletion mark. -/
theorem live_make {name : List UInt8} (used : name.getD 0 0 ≠ 0) :
    Dirent.Live (Dirent.make name attrArc) ↔ name.getD 0 0 ≠ deletedMark :=
  ⟨fun live => live.2.1, fun mark => ⟨used, mark, show (attrArc &&& attrVol != 0) = false by decide⟩⟩

/-- A name without a NUL that fs_create takes does not start with an end mark. -/
theorem Landing.used {drive : Option Nat} {rest last : List UInt8} (land : Landing path f w drive rest last)
    (nul : 0 ∉ path) : w.name.getD 0 0 ≠ 0 := by
  intro zero
  have start : w.name.getD 0 0 ∈ w.name := by
    have long : 0 < w.name.length := by rw [land.name, nameTo83_length]; decide
    have member := List.getElem_mem long
    rwa [List.getElem_eq_getD 0] at member
  rw [zero, land.name] at start
  rcases mem_nameTo83 start with space | ⟨x, member, same⟩
  · cases space
  · rw [toUpper_eq same.symm (by decide)] at member
    exact nul (land.bytes 0 member)

theorem Tree.Filled.listed_same {t u : Tree} {p i j : Nat} {e : Buffer} (fill : t.Filled u p i e)
    (other : j ≠ i) (inside : j < t.slots p) : u.listed p j = t.listed p j := by
  have entry {k : Nat} (low : k < 32) := fill.entry_same other inside low
  have size : Dirent.size (u.entry p j) = Dirent.size (t.entry p j) :=
    readLe32_congr fun k low => entry (by omega)
  have cluster : u.cluster p j = t.cluster p j := by
    rw [Tree.cluster, fill.kind]
    exact Dirent.cluster_congr _ fun k low => entry low
  simp only [Tree.listed, fill.name_same other inside, size, entry (show 11 < 32 by decide), cluster]

/-- The two listings: the entries before the slot, the new one, the ones behind. -/
theorem Tree.Filled.listings {t u : Tree} {p i : Nat} {e : Buffer} (fill : t.Filled u p i e)
    (free : freeFromSlot (t.buf p) (t.slots p) 0 = some i) (live : Dirent.Live e) :
    ∃ before : List Listed, (t.live p).map (t.listed p) = before ++
        (if t.entry p i 0 = 0 then [] else (t.behind p i).map (t.listed p)) ∧
      (u.live p).map (u.listed p) = before ++ u.listed p i :: (t.behind p i).map (t.listed p) := by
  have inside : i < t.slots p := by
    have := (freeFromSlot_some free).2.1
    omega
  obtain ⟨old, new⟩ := fill.live free live.1
  have same (part : List Nat) (members : ∀ j ∈ part, j ∈ liveFrom (t.buf p) i 0 ∨ j ∈ t.behind p i) :
      part.map (u.listed p) = part.map (t.listed p) := List.map_congr_left fun j member => by
    obtain ⟨other, low⟩ := Tree.Filled.parts t inside (members j member)
    exact fill.listed_same other low
  refine ⟨(liveFrom (t.buf p) i 0).map (t.listed p), ?_, ?_⟩
  · rw [old, List.map_append]
    split <;> rfl
  · rw [new, if_pos live, List.map_append, List.map_append, same _ fun j => Or.inl, same _ fun j => Or.inr]
    rfl

/-- What was inserted into a list is determined. -/
theorem insert_unique {α : Type} {a b c d : List α} {x y : α} (whole : a ++ b = c ++ d)
    (more : a ++ x :: b = c ++ y :: d) : x = y := by
  have left : (a ++ x :: b).Perm (x :: (a ++ b)) := List.perm_middle
  have right : (c ++ y :: d).Perm (y :: (c ++ d)) := List.perm_middle
  rw [more] at left
  rw [← whole] at right
  have same := Multiset.coe_eq_coe.mpr (left.symm.trans right)
  rw [← Multiset.cons_coe, ← Multiset.cons_coe] at same
  exact (Multiset.cons_inj_left _).mp same

theorem RoundTrip.returns {s : FileSys} (good : s.toFs.Faultless) (nul : 0 ∉ path)
    (made : Made path s.toFs w i) (created : (fsCreate path s.toFs).1 = 0)
    (trip : RoundTrip path s (s.setFs (fsCreate path s.toFs).2) w i) : Returns path s w i := by
  obtain ⟨missing, creatable, good', routes, stored⟩ := fsCreate_made good made created
  obtain ⟨drive, rest, last, land⟩ := made.landing missing creatable
  have used := land.used nul
  have fill : (s.tree w.drive).Filled ((fsCreate path s.toFs).2.tree w.drive) w.parent i
      (Dirent.make w.name attrArc) := stored.filled
  have inside : i < (s.tree w.drive).slots w.parent := by
    have := (freeFromSlot_some made.free).2.1
    omega
  have raw : Dirent.name (Dirent.make w.name attrArc) = w.name :=
    Dirent.make_name (by rw [land.name, nameTo83_length]) _
  have mark : w.name.getD 0 0 ≠ deletedMark := by
    obtain ⟨-, -, -, -, -, -, member, -⟩ := trip.opens.live good'
    have first := fill.entry_new inside (k := 0) (by decide)
    have live := (liveFrom_live member).2.1
    intro deleted
    exact live (first.trans deleted)
  have live := (live_make used).mpr mark
  obtain ⟨before, after, x, first, second, again⟩ := trip.lists
  obtain ⟨dir, dirHandle, old⟩ := (listsDir_iff good).mp first
  obtain ⟨-, -, new⟩ := (listsDir_iff good').mp second
  obtain ⟨front, old', new'⟩ := fill.listings made.free live
  have closed : (s.tree w.drive).Sealed w.parent i := by
    by_cases mark : (s.tree w.drive).entry w.parent i 0 = 0
    · right
      have counts := congrArg List.length (old.trans old')
      have counts' := congrArg List.length (new.trans new')
      rw [if_pos mark] at counts
      simp only [List.length_append, List.length_cons, List.length_map, List.length_nil] at counts counts'
      exact List.length_eq_zero_iff.mp (by omega)
    · exact .inl mark
  have entry : x.name = nameFrom83 w.name := by
    have same : x = ((fsCreate path s.toFs).2.tree w.drive).listed w.parent i := by
      refine insert_unique (b := after) (d := ((s.tree w.drive).behind w.parent i).map
        ((s.tree w.drive).listed w.parent)) ?_ (new.trans new')
      rw [old.trans old']
      split
      next mark => rw [closed.resolve_left fun used => used mark, List.map_nil]
      · rfl
    rw [same, Tree.listed, fill.name_new inside, raw]
  rw [entry] at again
  obtain ⟨drive', rest', front', last', parsed', split', -, found⟩ := again.live good'
  have back : w.name = nameTo83 last' := (raw.symm.trans (fill.name_new inside).symm).trans found
  obtain ⟨start, tail, word, -, -, short, plain⟩ := nameFrom83_word land.plain
    (land.name ▸ creatable.2.2)
  rw [← land.name] at word
  have noDrive : path.getD 1 0 = 58 ∨ (parentPath path ++ nameFrom83 w.name).getD 1 0 ≠ 58 := by
    by_contra mistaken
    rw [not_or, not_not] at mistaken
    rcases parseDrive_mistaken mistaken.1 mistaken.2 with bare | none
    · -- the name would be read as a shorter one
      rw [parentPath_plain mistaken.1, bare, List.nil_append] at mistaken parsed'
      obtain ⟨letter, rest'', cut, parse⟩ := parseDrive_prefix mistaken.2
      obtain ⟨_, -, same⟩ := Option.map_eq_some_iff.mp (parse.symm.trans parsed')
      obtain ⟨-, rfl⟩ := Prod.mk.inj same
      have member : last' ∈ components rest'' := by
        rw [split']
        exact List.mem_append_right _ List.mem_cons_self
      have inner := components_length member
      have shorter := nameFrom83_nameTo83_length last'
      rw [← back, cut, List.length_cons, List.length_cons] at shorter
      omega
    · exact absurd (none.symm.trans parsed') nofun
  have name : nameTo83 (nameFrom83 w.name) = w.name := by
    obtain ⟨-, rfl⟩ := Prod.mk.inj (Option.some.inj ((parseDrive_join land.parsed noDrive).symm.trans parsed'))
    rw [components_join land.closed (by rw [word]; exact List.cons_ne_nil _ _) (by rw [word]; exact plain)
      (by rw [word]; exact short)] at split'
    obtain ⟨-, same⟩ := List.append_inj' split' rfl
    rw [(List.cons.inj same).1]
    exact back.symm
  refine ⟨mark, name, noDrive, closed, dir, ?_, dirHandle⟩
  have handle := ((opensAt_iff good').mp trip.opens).2
  rwa [allocHandle, routes.handles] at handle

theorem Returns.roundTrip {s : FileSys} (good : s.toFs.Faultless) (nul : 0 ∉ path)
    (made : Made path s.toFs w i) (created : (fsCreate path s.toFs).1 = 0)
    (own : OwnPlaces path s.toFs w) (returns : Returns path s w i) :
    RoundTrip path s (s.setFs (fsCreate path s.toFs).2) w i := by
  obtain ⟨missing, creatable, good', routes, stored⟩ := fsCreate_made good made created
  obtain ⟨drive, rest, last, land⟩ := made.landing missing creatable
  have raw : Dirent.name (Dirent.make w.name attrArc) = w.name :=
    Dirent.make_name (by rw [land.name, nameTo83_length]) _
  have live := (live_make (land.used nul)).mpr returns.mark
  have fill : (s.tree w.drive).Filled ((fsCreate path s.toFs).2.tree w.drive) w.parent i
      (Dirent.make w.name attrArc) := stored.filled
  have inside : i < (s.tree w.drive).slots w.parent := by
    have := (freeFromSlot_some made.free).2.1
    omega
  have join : (s.tree w.drive).Joined ((fsCreate path s.toFs).2.tree w.drive) w.parent i
      (Dirent.make w.name attrArc) := ⟨fill, made.free, live.1, returns.closed, raw ▸ land.missing⟩
  have other : Dirent.name (Dirent.make w.name attrArc) ≠ dotdotName := raw ▸ creatable.2.1
  have alike (x : Nat) (member) := stored.alike (own drive rest land.parsed x member)
  have entered := join.enters other alike land.entered
  have found := join.find_new made.free live (raw ▸ land.missing)
  rw [raw] at found
  have file : Dirent.hasAttr (((fsCreate path s.toFs).2.tree w.drive).entry w.parent i) attrDir = false := by
    rw [Dirent.hasAttr, fill.entry_new inside (by decide)]
    exact show (attrArc &&& attrDir != 0) = false by decide
  have handle : allocHandle (fsCreate path s.toFs).2 ≠ none := by
    rw [allocHandle, routes.handles]
    exact returns.handle
  have opens {path' rest' : List UInt8} {word : List UInt8} (parsed : parseDrive path' = some (drive, rest'))
      (absolute : isAbsolute rest' = isAbsolute rest)
      (split : components rest' = components (dirPart rest) ++ [word]) (dot : word ≠ [46])
      (dots : word ≠ [46, 46]) (name : nameTo83 word = w.name) :
      OpensAt path' w.drive w.parent i (fsCreate path s.toFs).2 := by
    refine (opensAt_iff good').mpr ⟨⟨⟨⟨w.parent, nameTo83 word, _⟩, w.drive⟩, _, ?_, rfl, rfl, rfl, file⟩, handle⟩
    rw [routes.walk parsed land.current land.mounted, absolute, split,
      Tree.walk_found entered dot dots (name ▸ found)]
    rfl
  obtain ⟨start, tail, word, -, dotless, short, plain⟩ := nameFrom83_word land.plain
    (land.name ▸ creatable.2.2)
  rw [← land.name] at word
  have there : ∃ v, (fsCreate path s.toFs).2.walk (parentPath path) false = some v ∧ v.drive = w.drive ∧
      listedDir ((fsCreate path s.toFs).2.tree w.drive).kind v.toLeaf = some w.parent := by
    obtain ⟨v, walk, same, dir⟩ := returns.dir
    have parsed := parseDrive_parent land.parsed
    rw [Fs.walk_eq parsed land.current land.mounted] at walk
    obtain ⟨leaf, led, rfl⟩ := Option.map_eq_some_iff.mp walk
    rw [land.absolute] at led
    obtain ⟨leaf', led', dir'⟩ := join.listed other alike led dir
    refine ⟨⟨leaf', w.drive⟩, ?_, rfl, dir'⟩
    rw [routes.walk parsed land.current land.mounted, land.absolute, led']
    rfl
  obtain ⟨front, old, new⟩ := fill.listings made.free live
  have behind : (if (s.tree w.drive).entry w.parent i 0 = 0 then [] else
      ((s.tree w.drive).behind w.parent i).map ((s.tree w.drive).listed w.parent)) =
      ((s.tree w.drive).behind w.parent i).map ((s.tree w.drive).listed w.parent) := by
    split
    next mark => rw [returns.closed.resolve_left fun used => used mark, List.map_nil]
    · rfl
  refine ⟨opens land.parsed rfl land.split land.dot land.dots land.name.symm, front, _, _,
    (listsDir_iff good).mpr ⟨returns.dir, returns.dirHandle, (old.trans (by rw [behind])).symm⟩,
    (listsDir_iff good').mpr ⟨there, returns.dirHandle, new.symm⟩, ?_⟩
  have name : (((fsCreate path s.toFs).2.tree w.drive).listed w.parent i).name = nameFrom83 w.name := by
    rw [Tree.listed, fill.name_new inside, raw]
  rw [name]
  have renamed : nameTo83 (nameFrom83 w.name) = w.name := returns.name
  refine opens (parseDrive_join land.parsed returns.drive) ?_ ?_ ?_ ?_ renamed
  · rw [isAbsolute_join _ fun c head => ?_, land.absolute]
    rw [word] at head
    obtain rfl := Option.some.inj head
    exact plain _ List.mem_cons_self
  · exact components_join land.closed (by rw [word]; exact List.cons_ne_nil _ _)
      (by rw [word]; exact plain) (by rw [word]; exact short)
  · intro dot
    exact dotless (List.cons.inj (word.symm.trans dot)).1
  · intro dots
    exact dotless (List.cons.inj (word.symm.trans dots)).1

/-- Where no other directory shares sectors with the one it goes into, a new entry
comes back under its path and under its listed name in exactly these cases. -/
theorem name_round_trip {s : FileSys} (good : s.toFs.Faultless) (nul : 0 ∉ path)
    (made : Made path s.toFs w i) (created : (fsCreate path s.toFs).1 = 0) (own : OwnPlaces path s.toFs w) :
    RoundTrip path s (s.setFs (fsCreate path s.toFs).2) w i ↔ Returns path s w i :=
  ⟨RoundTrip.returns good nul made created, Returns.roundTrip good nul made created own⟩

end Create

/-- Directories in the data area keep apart by themselves. -/
theorem ownPlaces_of_data {s : VolState Disk} {p d : Nat}
    (root : s.vol.rootLba + s.vol.rootSizeSec ≤ s.vol.dataLba)
    (data : ∀ x, x = p ∨ x = d → ¬ s.vol.FixedRoot x → 2 ≤ s.vol.dirCluster x ∧
      s.vol.dirCluster x < 2 ^ 32 ∧ s.vol.dataLba + (s.vol.dirCluster x - 2) * s.vol.secPerCluster < 2 ^ 32) :
    s.Twins p d ∨ s.Spares p d := by
  have place (x : Nat) (which : x = p ∨ x = d) (chain : ¬ s.vol.FixedRoot x) :
      s.vol.clusterToLba (s.vol.dirCluster x) =
        s.vol.dataLba + (s.vol.dirCluster x - 2) * s.vol.secPerCluster := by
    obtain ⟨low, small, inside⟩ := data x which chain
    rw [Layout.clusterToLba, show u32 (s.vol.dirCluster x + 2 ^ 32 - 2) = s.vol.dirCluster x - 2 by
      rw [show s.vol.dirCluster x + 2 ^ 32 - 2 = s.vol.dirCluster x - 2 + 2 ^ 32 by omega, u32,
        Nat.add_mod_right, Nat.mod_eq_of_lt (by omega)], u32_of_lt inside]
  by_cases fixed : s.vol.FixedRoot d
  · by_cases also : s.vol.FixedRoot p
    · exact .inl (.inl (fixed.1.trans also.1.symm))
    · exact .inr (by rwa [VolState.Spares, if_pos fixed])
  · have here := place d (.inr rfl) fixed
    by_cases also : s.vol.FixedRoot p
    · refine .inr ?_
      rw [VolState.Spares, if_neg fixed, storeAccess, if_pos also, here]
      exact .inr (root.trans (Nat.le_add_right _ _))
    · have there := place p (.inl rfl) also
      rcases Nat.lt_trichotomy (s.vol.dirCluster d) (s.vol.dirCluster p) with less | same | more
      · refine .inr ?_
        rw [VolState.Spares, if_neg fixed, storeAccess, if_neg also, here, there]
        have step := Nat.mul_le_mul_right s.vol.secPerCluster
          (show s.vol.dirCluster d - 2 + 1 ≤ s.vol.dirCluster p - 2 by
            have := (data d (.inr rfl) fixed).1
            omega)
        rw [Nat.add_mul, Nat.one_mul] at step
        left
        dsimp only
        omega
      · exact .inl (.inr ⟨also, fixed, by rw [same]⟩)
      · refine .inr ?_
        rw [VolState.Spares, if_neg fixed, storeAccess, if_neg also, here, there]
        have step := Nat.mul_le_mul_right s.vol.secPerCluster
          (show s.vol.dirCluster p - 2 + 1 ≤ s.vol.dirCluster d - 2 by
            have := (data p (.inl rfl) also).1
            omega)
        rw [Nat.add_mul, Nat.one_mul] at step
        right
        dsimp only
        omega

/-- A small volume with an empty root directory, on A:. -/
def emptyRoot : Disk := .image 40 (Header.bootSector ⟨512, 1, 1, 2, 16, 1, 40⟩ 0)

def emptyFs : FileSys :=
  { Fs.single (mountVolume 0 (.fresh emptyRoot .zero)).2 with dirhs := fun _ => ⟨false, 0, 0, 0⟩ }

theorem Fs.Faultless.single {m : VolState Disk} (good : m.disk.Faultless) : (Fs.single m).Faultless :=
  fun _ => good

theorem emptyFs_good : emptyFs.toFs.Faultless := by
  have reads := (mountVolume_traffic 0 (.fresh emptyRoot .zero)).same
  exact Fs.Faultless.single (reads.faultless (Disk.image_faultless _ _))

/-- The entry that a new name gets there. -/
theorem emptyFs_made {path name : List UInt8}
    (walk : (emptyFs.walk path true).map (fun w => (w.drive, w.parent, w.name, w.entry.isNone)) =
      some (0, 0, name, true)) : Made path emptyFs.toFs ⟨⟨0, name, none⟩, 0⟩ 0 := by
  obtain ⟨⟨⟨parent, name', entry⟩, drive⟩, found, same⟩ := Option.map_eq_some_iff.mp walk
  simp only [Prod.mk.injEq, Option.isNone_iff_eq_none] at same
  obtain ⟨rfl, rfl, rfl, rfl⟩ := same
  exact ⟨found, show freeFromSlot ((emptyFs.tree 0).buf 0) ((emptyFs.tree 0).slots 0) 0 = some 0 by
    decide +kernel⟩

/-- `AB` comes back. -/
theorem name_round_trip_plain : (fsCreate [65, 66] emptyFs.toFs).1 = 0 ∧
    RoundTrip [65, 66] emptyFs (emptyFs.setFs (fsCreate [65, 66] emptyFs.toFs).2)
      ⟨⟨0, nameTo83 [65, 66], none⟩, 0⟩ 0 := by
  have created : (fsCreate [65, 66] emptyFs.toFs).1 = 0 := by decide +kernel
  have made : Made [65, 66] emptyFs.toFs ⟨⟨0, nameTo83 [65, 66], none⟩, 0⟩ 0 := emptyFs_made (by decide +kernel)
  have own : OwnPlaces [65, 66] emptyFs.toFs ⟨⟨0, nameTo83 [65, 66], none⟩, 0⟩ := by
    intro drive rest parsed d member
    obtain ⟨-, rfl⟩ := Prod.mk.inj (Option.some.inj parsed)
    have start : (emptyFs.vols 0).startDir (isAbsolute [65, 66]) = 0 := by decide +kernel
    have none : components (dirPart [65, 66]) = [] := by decide
    change d ∈ (emptyFs.tree 0).way (components (dirPart [65, 66]))
      ((emptyFs.vols 0).startDir (isAbsolute [65, 66])) at member
    rw [none, start] at member
    exact .inl (.inl (List.mem_singleton.mp member))
  have closed : (emptyFs.tree 0).Sealed 0 0 := .inr (by decide +kernel)
  have dir : (emptyFs.walk (parentPath [65, 66]) false).map (fun v => (v.drive,
      listedDir (emptyFs.tree 0).kind v.toLeaf)) = some (0, some 0) := by decide +kernel
  obtain ⟨v, walk, same⟩ := Option.map_eq_some_iff.mp dir
  obtain ⟨drive, listed⟩ := Prod.mk.inj same
  exact ⟨created, (name_round_trip emptyFs_good (by decide) made created own).mpr
    ⟨by decide, by decide, by decide, closed, ⟨v, walk, drive, listed⟩, by decide +kernel,
      by decide +kernel⟩⟩

/-- `A B` does not: it is listed as `A`. -/
theorem inner_space_lost : ¬ ∀ (path : List UInt8) (s : FileSys) (w : Walk) (i : Nat), s.toFs.Faultless →
    0 ∉ path → Made path s.toFs w i → (fsCreate path s.toFs).1 = 0 →
    RoundTrip path s (s.setFs (fsCreate path s.toFs).2) w i := by
  intro trips
  have made : Made [65, 32, 66] emptyFs.toFs ⟨⟨0, nameTo83 [65, 32, 66], none⟩, 0⟩ 0 :=
    emptyFs_made (by decide +kernel)
  have created : (fsCreate [65, 32, 66] emptyFs.toFs).1 = 0 := by decide +kernel
  have trip := trips _ _ _ _ emptyFs_good (by decide) made created
  exact absurd (trip.returns emptyFs_good (by decide) made created).name (by decide)

end Zenbite.Fat
