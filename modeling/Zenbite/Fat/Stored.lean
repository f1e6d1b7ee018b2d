import Zenbite.Fat.LiveSlots
import Zenbite.Fat.Lookup

/-! What lookups and listings show after a directory has been stored. -/

namespace Zenbite.Fat

open Memory VolState

namespace VolState

/-- Two numbers for a directory in one place. -/
def Twins (s : VolState Disk) (p d : Nat) : Prop :=
  d = p ∨ ¬ s.vol.FixedRoot p ∧ ¬ s.vol.FixedRoot d ∧
    s.vol.clusterToLba (s.vol.dirCluster d) = s.vol.clusterToLba (s.vol.dirCluster p)

/-- Storing directory `p` touches nothing of directory `d`. -/
def Spares (s : VolState Disk) (p d : Nat) : Prop :=
  if s.vol.FixedRoot d then ¬ s.vol.FixedRoot p
  else s.vol.clusterToLba (s.vol.dirCluster d) + s.vol.secPerCluster ≤ (storeAccess p s).lba ∨
    (storeAccess p s).lba + (storeAccess p s).count ≤ s.vol.clusterToLba (s.vol.dirCluster d)

end VolState

/-- Between two states directory `p` was stored with the bytes `buf`. -/
structure Stored (p : Nat) (buf : Buffer) (s t : VolState Disk) : Prop where
  layout : t.vol.toLayout = s.vol.toLayout
  diskId : t.vol.diskId = s.vol.diskId
  cwdIsRoot : t.vol.cwdIsRoot = s.vol.cwdIsRoot
  cwdCluster : t.vol.cwdCluster = s.vol.cwdCluster
  good : t.disk.Faultless
  here : ∀ k, k < s.dirSlots p * 32 → t.loaded p k = buf k
  twins : ∀ d, s.Twins p d → s.loaded d = s.loaded p ∧ t.loaded d = t.loaded p
  spared : ∀ d, s.Spares p d → t.loaded d = s.loaded d

theorem storeDir_run {s : VolState Disk} (good : s.disk.Faultless) (p : Nat) (buf : Buffer) :
    (storeDir p buf s).1 = 0 ∧
      (storeDir p buf s).2.disk = (s.disk.write (storeAccess p s).lba (storeAccess p s).count buf).2 ∧
      (storeDir p buf s).2.vol = if s.vol.FixedRoot p then (s.vol.rootWrite buf).rootClean else s.vol := by
  by_cases fixed : s.vol.FixedRoot p
  · have write : ¬ (s.disk.write s.vol.rootLba s.vol.rootSizeSec buf).1 < 0 := Disk.write_done good _ _ _
    rw [storeDir, if_pos fixed, flushRoot, if_neg (by simp [FatVolume.rootWrite]), storeAccess,
      if_pos fixed, if_pos fixed]
    exact (if_neg write).symm ▸ ⟨rfl, rfl, rfl⟩
  · rw [storeDir, if_neg fixed, storeAccess, if_neg fixed, if_neg fixed]
    refine ⟨?_, rfl, rfl⟩
    exact congrArg Prod.fst (Disk.write_faultless good _ _ _)

theorem storeDir_stored {s : VolState Disk} (good : s.disk.Faultless) (p : Nat) (buf : Buffer) :
    (storeDir p buf s).1 = 0 ∧ Stored p buf s (storeDir p buf s).2 := by
  obtain ⟨rc, disk, vol⟩ := storeDir_run good p buf
  generalize (storeDir p buf s).2 = t at disk vol
  have layout : t.vol.toLayout = s.vol.toLayout := by rw [vol]; split <;> rfl
  have fixed (d : Nat) : t.vol.FixedRoot d ↔ s.vol.FixedRoot d := by
    simp only [FatVolume.FixedRoot, layout]
  have cluster (d : Nat) : t.vol.dirCluster d = s.vol.dirCluster d := by
    simp only [FatVolume.dirCluster, layout]
  refine ⟨rc, layout, by rw [vol]; split <;> rfl, by rw [vol]; split <;> rfl,
    by rw [vol]; split <;> rfl, disk ▸ good.write _ _ _, fun k inside => ?_, fun d twin => ?_,
    fun d spares => ?_⟩
  · rw [VolState.dirSlots] at inside
    rw [VolState.loaded]
    split
    next root =>
      rw [vol, if_pos ((fixed p).mp root)]
      rfl
    next chain =>
      rw [fixed p] at chain
      rw [if_neg chain] at inside
      rw [splice_inside _ _ (Nat.zero_le k) (by rw [layout]; omega), Nat.sub_zero, cluster, layout, disk,
        storeAccess, if_neg chain, Disk.write_bytes good, window]
      exact splice_add _ _ (Nat.lt_of_lt_of_le inside (Nat.div_mul_le_self s.vol.clusterBytes 32))
  · rcases twin with rfl | ⟨chain, other, same⟩
    · exact ⟨rfl, rfl⟩
    · simp only [VolState.loaded, fixed, if_neg chain, if_neg other, cluster, layout, same, and_self]
  · rw [VolState.Spares] at spares
    simp only [VolState.loaded, fixed, cluster, layout]
    split at spares
    next root =>
      rw [if_pos root, if_pos root, vol, if_neg spares]
    next chain =>
      rw [if_neg chain, if_neg chain]
      funext k
      simp only [splice]
      split
      next inside =>
        rw [disk]
        refine Disk.write_outside _ _ _ _ ?_
        simp only [Layout.clusterBytes, sectorSize] at inside ⊢
        omega
      · rfl

theorem Stored.after {p : Nat} {buf : Buffer} {s t u : VolState Disk} (keeps : Keeps s t)
    (stored : Stored p buf t u) : Stored p buf s u := by
  have loaded (d : Nat) : t.loaded d = s.loaded d := congrFun (congrArg Tree.buf keeps.tree) d
  have slots : t.dirSlots p = s.dirSlots p := congrFun (congrArg Tree.slots keeps.tree) p
  obtain ⟨layout, diskId, root, cluster, good, here, twins, spared⟩ := stored
  rw [slots] at here
  simp only [loaded, VolState.Twins, VolState.Spares, storeAccess, keeps.vol] at layout diskId root cluster twins spared
  exact ⟨layout, diskId, root, cluster, good, here, twins, spared⟩

/-- dir_add_entry fills the first free slot. -/
theorem dirAddEntry_stored {s : VolState Disk} {p i : Nat} (good : s.disk.Faultless)
    (free : freeFromSlot (s.tree.buf p) (s.tree.slots p) 0 = some i) (e : Buffer) :
    (dirAddEntry p e s).1 = 0 ∧
      Stored p (splice (s.tree.buf p) (i * 32) 32 e) s (dirAddEntry p e s).2 := by
  have keeps := (loadDir_reads p s).keeps
  obtain ⟨size, slots, load⟩ := loadDir_loaded good p
  obtain ⟨rc, stored⟩ := storeDir_stored (keeps.good good) p (splice (s.loaded p) (i * 32) 32 e)
  change freeFromSlot (s.loaded p) (s.dirSlots p) 0 = some i at free
  simp only [dirAddEntry, load, slots, free]
  exact ⟨rc, stored.after keeps⟩

theorem dirAddEntry_full {s : VolState Disk} {p : Nat} (good : s.disk.Faultless)
    (full : freeFromSlot (s.tree.buf p) (s.tree.slots p) 0 = none) (e : Buffer) :
    (dirAddEntry p e s).1 = -1 := by
  obtain ⟨size, slots, load⟩ := loadDir_loaded good p
  change freeFromSlot (s.loaded p) (s.dirSlots p) 0 = none at full
  simp only [dirAddEntry, load, slots, full]

/-! The trees before and after. -/

theorem Dirent.name_congr {a b : Buffer} (agree : ∀ k, k < 32 → a k = b k) :
    Dirent.name a = Dirent.name b :=
  List.map_congr_left fun k member => agree k (by
    have := List.mem_range.mp member
    omega)

namespace Tree

/-- The live slots of a directory. -/
def live (t : Tree) (d : Nat) : List Nat := liveFrom (t.buf d) (t.slots d) 0

theorem find_live (t : Tree) (d : Nat) (name83 : List UInt8) :
    t.find d name83 = (t.live d).find? fun i => Dirent.name (t.entry d i) = name83 :=
  findFrom_live _ _ _ _

/-- In `u` slot `i` of directory `p` holds `e`. -/
structure Filled (t u : Tree) (p i : Nat) (e : Buffer) : Prop where
  kind : u.kind = t.kind
  slots : u.slots = t.slots
  here : ∀ k, k < t.slots p * 32 → u.buf p k = splice (t.buf p) (i * 32) 32 e k

/-- Directory `d` is directory `p`, or none of the changes. -/
def Alike (t u : Tree) (p d : Nat) : Prop :=
  t.slots d = t.slots p ∧ t.buf d = t.buf p ∧ u.buf d = u.buf p ∨ u.buf d = t.buf d

/-- The slots behind slot `i` up to the next end mark. -/
def behind (t : Tree) (p i : Nat) : List Nat := liveFrom (t.buf p) (t.slots p - (i + 1)) (i + 1)

variable {t u : Tree} {p i : Nat} {e : Buffer}

namespace Filled

theorem entry_same (fill : Filled t u p i e) {j k : Nat} (other : j ≠ i) (inside : j < t.slots p)
    (low : k < 32) : u.entry p j k = t.entry p j k :=
  (fill.here _ (by omega)).trans (splice_outside _ _ (by omega))

theorem entry_new (fill : Filled t u p i e) (inside : i < t.slots p) {k : Nat} (low : k < 32) :
    u.entry p i k = e k :=
  (fill.here _ (by omega)).trans (splice_add _ _ low)

/-- Filling a free slot makes it live; it also joins what stood behind an end mark. -/
theorem live (fill : Filled t u p i e) (free : freeFromSlot (t.buf p) (t.slots p) 0 = some i)
    (used : e 0 ≠ 0) : t.live p = liveFrom (t.buf p) i 0 ++
        (if t.entry p i 0 = 0 then [] else t.behind p i) ∧
      u.live p = liveFrom (t.buf p) i 0 ++ ((if Dirent.Live e then [i] else []) ++ t.behind p i) := by
  obtain ⟨-, inside, mark, before⟩ := freeFromSlot_some free
  rw [Nat.zero_add] at inside
  have new (k : Nat) (low : k < 32) := fill.entry_new inside low
  have dead : ¬ Dirent.Live (slot (t.buf p) i) := fun live => mark.elim live.1 live.2.1
  constructor
  · rw [Tree.live, liveFrom_around inside fun k low => (before k (Nat.zero_le k) low).1, if_neg dead]
    rfl
  · have head : liveFrom (u.buf p) i 0 = liveFrom (t.buf p) i 0 := liveFrom_congr _ _ fun k _ high =>
      (fill.here k (by omega)).trans (splice_outside _ _ (by omega))
    have tail : liveFrom (u.buf p) (t.slots p - (i + 1)) (i + 1) = t.behind p i :=
      liveFrom_congr _ _ fun k low high => (fill.here k (by omega)).trans (splice_outside _ _ (by omega))
    have mark' : slot (u.buf p) i 0 = e 0 := new 0 (by decide)
    have flags : slot (u.buf p) i 11 = e 11 := new 11 (by decide)
    have live : Dirent.Live (slot (u.buf p) i) ↔ Dirent.Live e := by
      simp only [Dirent.Live, Dirent.hasAttr, mark', flags]
    have before' (k : Nat) (low : k < i) : slot (u.buf p) k 0 ≠ 0 := by
      have same : slot (u.buf p) k 0 = slot (t.buf p) k 0 :=
        fill.entry_same (k := 0) (by omega) (by omega) (by decide)
      rw [same]
      exact (before k (Nat.zero_le k) low).1
    rw [Tree.live, fill.slots, liveFrom_around inside before', if_neg (by rw [mark']; exact used), head, tail]
    simp only [live]

/-- Apart from the slot itself the entries show the same names. -/
theorem name_same (fill : Filled t u p i e) {j : Nat} (other : j ≠ i) (inside : j < t.slots p) :
    Dirent.name (u.entry p j) = Dirent.name (t.entry p j) :=
  Dirent.name_congr fun _ low => fill.entry_same other inside low

theorem name_new (fill : Filled t u p i e) (inside : i < t.slots p) :
    Dirent.name (u.entry p i) = Dirent.name e :=
  Dirent.name_congr fun _ low => fill.entry_new inside low

end Filled

/-- Taking slot `i` brings no entry behind the end mark back. -/
def Sealed (t : Tree) (p i : Nat) : Prop := t.entry p i 0 ≠ 0 ∨ t.behind p i = []

theorem Sealed.same {t : Tree} {p i : Nat} (closed : t.Sealed p i) :
    (if t.entry p i 0 = 0 then [] else t.behind p i) = t.behind p i := by
  split
  next mark => exact (closed.resolve_left fun used => used mark).symm
  · rfl

namespace Filled

/-- The parts of the live list: their slots are slots, and not `i`. -/
theorem parts (t : Tree) {p i : Nat} (inside : i < t.slots p) {j : Nat}
    (member : j ∈ liveFrom (t.buf p) i 0 ∨ j ∈ t.behind p i) : j ≠ i ∧ j < t.slots p := by
  rcases member with member | member
  · have := liveFrom_lt member
    omega
  · have := liveFrom_lt member
    omega

theorem find_congr (fill : Filled t u p i e) (inside : i < t.slots p) (name83 : List UInt8)
    {part : List Nat} (members : ∀ j ∈ part, j ∈ liveFrom (t.buf p) i 0 ∨ j ∈ t.behind p i) :
    part.find? (fun j => Dirent.name (u.entry p j) = name83) =
      part.find? fun j => Dirent.name (t.entry p j) = name83 := by
  induction part with
  | nil => rfl
  | cons j part ih =>
      obtain ⟨other, low⟩ := parts t inside (members j List.mem_cons_self)
      simp only [List.find?_cons, fill.name_same other low,
        ih fun x member => members x (List.mem_cons_of_mem j member)]

/-- Other names are found where they were. -/
theorem find_other (fill : Filled t u p i e) (free : freeFromSlot (t.buf p) (t.slots p) 0 = some i)
    (used : e 0 ≠ 0) (closed : t.Sealed p i) {name83 : List UInt8} (other : Dirent.name e ≠ name83) :
    u.find p name83 = t.find p name83 := by
  have inside : i < t.slots p := by
    have := (freeFromSlot_some free).2.1
    omega
  obtain ⟨before, after⟩ := fill.live free used
  have new : (if Dirent.Live e then [i] else []).find?
      (fun j => decide (Dirent.name (u.entry p j) = name83)) = none := by
    split
    · simp [fill.name_new inside, other]
    · rfl
  rw [find_live, find_live, before, after, closed.same]
  simp only [List.find?_append, new, Option.none_or, fill.find_congr inside name83 fun j => Or.inl,
    fill.find_congr inside name83 fun j => Or.inr]

/-- The new name is found in the slot. -/
theorem find_new (fill : Filled t u p i e) (free : freeFromSlot (t.buf p) (t.slots p) 0 = some i)
    (live : Dirent.Live e) (missing : t.find p (Dirent.name e) = none) :
    u.find p (Dirent.name e) = some i := by
  have inside : i < t.slots p := by
    have := (freeFromSlot_some free).2.1
    omega
  obtain ⟨before, after⟩ := fill.live free live.1
  rw [find_live, before, List.find?_append, Option.or_eq_none_iff] at missing
  rw [find_live, after, List.find?_append, fill.find_congr inside _ fun j => Or.inl, missing.1,
    Option.none_or, if_pos live, List.singleton_append, List.find?_cons, fill.name_new inside]
  simp

end Filled

theorem find_some {t : Tree} {d j : Nat} {name83 : List UInt8} (found : t.find d name83 = some j) :
    j ∈ t.live d ∧ Dirent.name (t.entry d j) = name83 := by
  rw [find_live] at found
  exact ⟨List.mem_of_find?_eq_some found, by simpa using List.find?_some found⟩

/-- The directories that entering the components comes through. -/
def way (t : Tree) : List (List UInt8) → Nat → List Nat
  | [], d => [d]
  | comp :: comps, d => d :: ((t.enter comp d).map (t.way comps)).getD []

/-- A slot was filled without harm: with a name that was not there, and nothing
comes back behind it. -/
structure Joined (t u : Tree) (p i : Nat) (e : Buffer) : Prop extends Filled t u p i e where
  free : freeFromSlot (t.buf p) (t.slots p) 0 = some i
  used : e 0 ≠ 0
  closed : t.Sealed p i
  missing : t.find p (Dirent.name e) = none

namespace Joined

/-- In a directory on the way the other names lead where they led. -/
theorem find (join : Joined t u p i e) {d : Nat} (alike : Alike t u p d) {name83 : List UInt8}
    (other : Dirent.name e ≠ name83 ∨ u.buf d = t.buf d) : u.find d name83 = t.find d name83 ∧
      ∀ j, t.find d name83 = some j → ∀ k, k < 32 → u.entry d j k = t.entry d j k := by
  by_cases same : u.buf d = t.buf d
  · exact ⟨by simp only [Tree.find, same, join.slots], fun j _ k _ => by simp only [entry, same]⟩
  · obtain ⟨slots, before, after⟩ := alike.resolve_right same
    have there : u.find p name83 = t.find p name83 :=
      join.find_other join.free join.used join.closed (other.resolve_right same)
    have left : u.find d name83 = u.find p name83 := by
      simp only [Tree.find, after, join.slots, slots]
    have right : t.find d name83 = t.find p name83 := by
      simp only [Tree.find, before, slots]
    refine ⟨left.trans (there.trans right.symm), fun j found k low => ?_⟩
    obtain ⟨member, -⟩ := find_some (right.symm.trans found)
    have inside := liveFrom_lt member
    have slot : j ≠ i := by
      intro same
      obtain ⟨-, -, mark, -⟩ := freeFromSlot_some join.free
      have live := liveFrom_live member
      rw [same] at live
      exact mark.elim live.1 live.2.1
    have := join.entry_same slot (by omega) low
    simpa only [entry, before, after] using this

/-- A name that is found is not the new one. -/
theorem known (join : Joined t u p i e) {d j : Nat} (alike : Alike t u p d) {name83 : List UInt8}
    (found : t.find d name83 = some j) : Dirent.name e ≠ name83 ∨ u.buf d = t.buf d := by
  refine alike.imp_left ?_
  rintro ⟨slots, before, -⟩ rfl
  have missing := join.missing
  simp only [Tree.find, ← before, ← slots] at missing
  exact Option.some_ne_none j (found.symm.trans missing)

theorem up (join : Joined t u p i e) {d : Nat} (alike : Alike t u p d)
    (other : Dirent.name e ≠ dotdotName) : u.up d = t.up d := by
  obtain ⟨found, entry⟩ := join.find alike (.inl other)
  simp only [Tree.up, found]
  split
  · rfl
  · cases slot : t.find d dotdotName with
    | none => rfl
    | some j =>
        simp only [Option.map_some, Option.getD_some, Tree.cluster, join.kind]
        exact Dirent.cluster_congr _ (entry j slot)

theorem enter (join : Joined t u p i e) {d next : Nat} {comp : List UInt8} (alike : Alike t u p d)
    (other : Dirent.name e ≠ dotdotName) (entered : t.enter comp d = some next) :
    u.enter comp d = some next := by
  simp only [Tree.enter] at entered ⊢
  split
  next dot => rwa [if_pos dot] at entered
  next dot =>
    rw [if_neg dot] at entered
    split
    next dots => rwa [if_pos dots, ← join.up alike other] at entered
    next dots =>
      rw [if_neg dots] at entered
      obtain ⟨j, found, entered⟩ := Option.bind_eq_some_iff.mp entered
      obtain ⟨same, entry⟩ := join.find alike (join.known alike found)
      have attr : Dirent.hasAttr (u.entry d j) attrDir = Dirent.hasAttr (t.entry d j) attrDir := by
        rw [Dirent.hasAttr, entry j found 11 (by decide)]
        rfl
      have cluster : u.cluster d j = t.cluster d j := by
        rw [Tree.cluster, join.kind]
        exact Dirent.cluster_congr _ (entry j found)
      rw [same, found, Option.bind_some, attr, cluster, entered]

/-- A way that led somewhere leads there still. -/
theorem enters (join : Joined t u p i e) (other : Dirent.name e ≠ dotdotName) {last : Nat} :
    ∀ {comps : List (List UInt8)} {d : Nat}, (∀ x ∈ t.way comps d, Alike t u p x) →
      t.enters comps d = some last → u.enters comps d = some last := by
  intro comps
  induction comps with
  | nil => exact fun _ entered => entered
  | cons comp comps ih =>
      intro d alike entered
      obtain ⟨next, first, rest⟩ := Option.bind_eq_some_iff.mp entered
      have step := join.enter (alike d List.mem_cons_self) other first
      rw [Tree.enters, step, Option.bind_some]
      exact ih (fun x member => alike x (by
        rw [way, first]
        exact List.mem_cons_of_mem d member)) rest

end Joined

theorem way_front (t : Tree) (front more : List (List UInt8)) : ∀ {d x}, x ∈ t.way front d →
    x ∈ t.way (front ++ more) d := by
  induction front with
  | nil =>
      intro d x member
      obtain rfl := List.mem_singleton.mp member
      cases more <;> exact List.mem_cons_self
  | cons comp front ih =>
      intro d x member
      rw [List.cons_append, way] at *
      rcases List.mem_cons.mp member with rfl | member
      · exact List.mem_cons_self
      · refine List.mem_cons_of_mem d ?_
        cases entered : t.enter comp d with
        | none => simp [entered] at member
        | some next =>
            rw [entered, Option.map_some, Option.getD_some] at member
            exact ih member

theorem enters_way {t : Tree} {last : Nat} : ∀ {comps : List (List UInt8)} {d : Nat},
    t.enters comps d = some last → last ∈ t.way comps d := by
  intro comps
  induction comps with
  | nil =>
      intro d entered
      obtain rfl := Option.some.inj entered
      exact List.mem_cons_self
  | cons comp comps ih =>
      intro d entered
      obtain ⟨next, first, rest⟩ := Option.bind_eq_some_iff.mp entered
      rw [way, first]
      exact List.mem_cons_of_mem d (ih rest)

/-- fs_opendir gets to the directory it got to. -/
theorem Joined.listed (join : Joined t u p i e) (other : Dirent.name e ≠ dotdotName)
    {comps : List (List UInt8)} {start c : Nat} {leaf : Leaf} (alike : ∀ x ∈ t.way comps start, Alike t u p x)
    (walk : t.walk comps false start = some leaf) (dir : listedDir t.kind leaf = some c) :
    ∃ leaf', u.walk comps false start = some leaf' ∧ listedDir u.kind leaf' = some c := by
  rcases List.eq_nil_or_concat comps with rfl | ⟨front, comp, split⟩
  · obtain rfl := Option.some.inj walk
    exact ⟨_, rfl, dir⟩
  · rw [List.concat_eq_append] at split
    subst split
    rw [walk_snoc] at walk
    obtain ⟨q, entered, here⟩ := Option.bind_eq_some_iff.mp walk
    have along (x : Nat) (member : x ∈ t.way front start) := alike x (t.way_front front [comp] member)
    have last := along q (enters_way entered)
    rw [walk_snoc, join.enters other along entered, Option.bind_some]
    by_cases dot : comp = [46]
    · rw [Tree.leaf, if_pos dot] at here ⊢
      obtain rfl := Option.some.inj here
      exact ⟨_, rfl, dir⟩
    by_cases dots : comp = [46, 46]
    · rw [Tree.leaf, if_neg dot, if_pos dots] at here ⊢
      obtain rfl := Option.some.inj here
      exact ⟨_, rfl, by rw [join.up last other]; exact dir⟩
    · rw [leaf_plain t dot dots] at here
      rw [leaf_plain u dot dots]
      cases found : t.find q (nameTo83 comp) with
      | none => simp [found] at here
      | some j =>
          obtain ⟨same, entry⟩ := join.find last (join.known last found)
          rw [found, if_neg (by simp)] at here
          obtain rfl := Option.some.inj here
          rw [same, found, if_neg (by simp)]
          refine ⟨_, rfl, ?_⟩
          have attr : Dirent.hasAttr (u.entry q j) attrDir = Dirent.hasAttr (t.entry q j) attrDir := by
            rw [Dirent.hasAttr, entry j found 11 (by decide)]
            rfl
          have cluster : Dirent.cluster u.kind (u.entry q j) = Dirent.cluster t.kind (t.entry q j) := by
            rw [join.kind]
            exact Dirent.cluster_congr _ (entry j found)
          simpa only [listedDir, Option.map_some, attr, cluster] using dir

end Tree

end Zenbite.Fat
