import Zenbite.Fat.TableMap

/-! Runs of fat_get, fat_set and flush_fat against a plain map, and the two copies
on the disk after a flush. -/

namespace Zenbite.Fat

open Memory VolState

inductive TableCall where
  | get (cluster : Nat)
  | set (cluster val : Nat)
  | flush
  deriving DecidableEq, Repr

namespace TableCall

def run (s : VolState Disk) : TableCall → VolState Disk
  | .get c => (fatGet c s).2
  | .set c x => fatSet c x s
  | .flush => (flushFat s).2

/-- The call names no cluster from `max` on. -/
def InRange (max : Nat) : TableCall → Prop
  | .get c => c < max
  | .set c _ => c < max
  | .flush => True

/-- The plain map: a set keeps the entry's bits of the value. -/
def spec (bits : Nat) (f : Nat → Nat) : TableCall → Nat → Nat
  | .set c x => Function.update f c (x % 2 ^ bits)
  | _ => f

end TableCall

def runTable (s : VolState Disk) (calls : List TableCall) : VolState Disk := calls.foldl TableCall.run s

def specTable (bits : Nat) (f : Nat → Nat) (calls : List TableCall) : Nat → Nat :=
  calls.foldl (TableCall.spec bits) f

namespace VolState

/-- Entry `c` of the `n`-th copy on the disk, as stored. -/
def copyRaw (s : VolState Disk) (n c : Nat) : Nat :=
  rawEntry s.vol.kind
    (window s.disk.bytes (u32 (s.vol.fatLba + n * s.vol.fatSectors) * sectorSize))
    (fun sec => window s.disk.bytes (u32 (s.vol.fatLba + n * s.vol.fatSectors + sec) * sectorSize)) c

def copyMap (s : VolState Disk) (n c : Nat) : Nat := s.copyRaw n c % 2 ^ valueBits s.vol.kind

/-- Both copies hold the same bytes. -/
def Identical (s : VolState Disk) : Prop :=
  ∀ sec, sec < s.vol.tableSectors → ∀ i, i < sectorSize →
    s.disk.bytes (u32 (s.vol.fatLba + s.vol.fatSectors + sec) * sectorSize + i) =
      s.disk.bytes (u32 (s.vol.fatLba + sec) * sectorSize + i)

end VolState

/-- The table seen through fat_get is the plain map over the first copy, the upper
bits of FAT32 entries stay, and a flush writes the map to both copies. -/
def RefinesMap (s : VolState Disk) : Prop :=
  ∀ calls : List TableCall, (∀ call ∈ calls, call.InRange s.vol.maxCluster) →
    (∀ c, c < s.vol.maxCluster →
      (fatGet c (runTable s calls)).1 =
        specTable (valueBits s.vol.kind) (s.copyMap 0) calls c) ∧
    (s.vol.kind = .fat32 → ∀ c, c < s.vol.maxCluster →
      (runTable s calls).rawFat c / 2 ^ 28 = s.copyRaw 0 c / 2 ^ 28) ∧
    (s.vol.numFats = 2 → s.Identical → ∀ n, n < 2 → ∀ c, c < s.vol.maxCluster →
      (flushFat (runTable s calls)).2.copyMap n c =
          specTable (valueBits s.vol.kind) (s.copyMap 0) calls c ∧
        (s.vol.kind = .fat32 →
          (flushFat (runTable s calls)).2.copyRaw n c / 2 ^ 28 = s.copyRaw 0 c / 2 ^ 28))

/-! flush_fat. -/

section FlushFat
variable {s : VolState Disk}

theorem flushFat_cached (other : s.vol.kind = .fat16 ∨ s.vol.kind = .fat32) :
    flushFat s = fatCacheFlush s := by
  rcases other with kind | kind <;> simp only [flushFat, kind]

/-- The sectors of a FAT12 write are sectors of the table. -/
theorem frame_image {lba : Nat} (place : lba = s.vol.fatLba ∨
      lba = u32 (s.vol.fatLba + s.vol.fatSectors)) (accepted : s.vol.toLayout.Accepted)
    (kind : s.vol.kind = .fat12) (buf : Buffer) :
    TableFrame s (s.diskWrite lba s.vol.fatSectors buf).2 := by
  have small := accepted.image kind
  have reserved := accepted.header.reserved_lt
  have lba_eq := accepted.fatLba
  have table : s.vol.tableSectors = s.vol.fatSectors := by
    rw [Layout.tableSectors_mod]
    omega
  have sector : ∀ k, k < s.vol.fatSectors → s.vol.TableSector (lba + k) := by
    intro k inside
    refine ⟨k, by omega, ?_⟩
    simp only [u32] at place ⊢
    omega
  obtain ⟨present, sectors, verdict⟩ := s.disk.write_keeps lba s.vol.fatSectors buf
  obtain ⟨new, log, all⟩ := s.disk.write_log lba s.vol.fatSectors buf
  refine ⟨rfl, rfl, rfl, rfl, rfl, rfl, rfl, rfl, rfl, present, sectors, verdict, ?_, new, log, ?_⟩
  · intro a outside
    apply Disk.write_outside
    simp only [sectorSize] at outside ⊢
    by_contra inside
    apply outside
    have := sector (a / 512 - lba) (by omega)
    rwa [show lba + (a / 512 - lba) = a / 512 by omega] at this
  · intro x member _ k inside
    rw [all x member] at inside ⊢
    exact sector k inside

/-- On FAT12 the one-sector cache is idle, so disk and image may change freely. -/
theorem tableOk_image {t : VolState Disk} (ok : TableOk s) (kind : s.vol.kind = .fat12)
    (layout : t.vol.toLayout = s.vol.toLayout) (csec : t.vol.fatCsec = s.vol.fatCsec)
    (cdirty : t.vol.fatCdirty = s.vol.fatCdirty) : TableOk t := by
  have none : t.vol.fatCsec = fatCacheNone := csec.trans (ok.idle kind)
  refine ok.next layout ⟨.inl ⟨none, cdirty.trans ?_⟩, fun _ held => absurd none held⟩ fun _ => none
  rcases ok.coherent.cached with ⟨-, clean⟩ | bound
  · exact clean
  · exact absurd (ok.idle kind) (tableSectors_lt_none bound).ne

theorem flushFat_spec (ok : TableOk s) :
    TableFrame s (flushFat s).2 ∧ TableOk (flushFat s).2 ∧ SameMap s (flushFat s).2 := by
  have cached (other : s.vol.kind = .fat16 ∨ s.vol.kind = .fat32) (idle : s.vol.kind ≠ .fat12) :
      TableFrame s (flushFat s).2 ∧ TableOk (flushFat s).2 ∧ SameMap s (flushFat s).2 := by
    rw [flushFat_cached other]
    have frame := fatCacheFlush_frame ok.coherent.cached
    obtain ⟨coherent, same⟩ := fatCacheFlush_coherent ok.accepted ok.coherent ok.apart
    exact ⟨frame, ok.next frame.layout coherent fun kind => absurd kind idle,
      sameMap_of_sameTable other frame.layout same⟩
  rcases ok.accepted.kind_cases with kind | kind | kind
  · simp only [flushFat, kind]
    split
    · exact ⟨.refl s, ok, fun _ _ => rfl⟩
    have first := frame_image (.inl rfl) ok.accepted kind s.vol.fat
    have image (t : VolState Disk) (vol : t.vol.toLayout = s.vol.toLayout) (fat : t.vol.fat = s.vol.fat) :
        SameMap s t := fun c _ => by
      rw [rawFat_fat12 (s := t) (by rw [vol]; exact kind), rawFat_fat12 kind, fat]
    split
    · exact ⟨first, tableOk_image ok kind rfl rfl rfl, image _ rfl rfl⟩
    · have second := frame_image (s := (s.diskWrite s.vol.fatLba s.vol.fatSectors s.vol.fat).2)
        (.inr rfl) ok.accepted kind s.vol.fat
      have last : TableFrame _ (((s.diskWrite s.vol.fatLba s.vol.fatSectors s.vol.fat).2.diskWrite
          (u32 (s.vol.fatLba + s.vol.fatSectors)) s.vol.fatSectors s.vol.fat).2.modVol
            (·.imageClean)) := frame_mod _ _ rfl rfl rfl rfl rfl rfl rfl
      exact ⟨(first.trans second).trans last, tableOk_image ok kind rfl rfl rfl, image _ rfl rfl⟩
  · exact cached (.inl kind) (by rw [kind]; decide)
  · exact cached (.inr kind) (by rw [kind]; decide)

end FlushFat

/-! The second copy. -/

/-- Off the dirty sector both copies agree; a clean FAT12 image is on the disk. -/
structure Mirror (s : VolState Disk) : Prop where
  cached : s.vol.kind ≠ .fat12 → ∀ sec, sec < s.vol.tableSectors →
    (s.vol.fatCdirty = true → s.vol.fatCsec ≠ sec) → ∀ i, i < sectorSize →
      s.disk.bytes (u32 (s.vol.fatLba + s.vol.fatSectors + sec) * sectorSize + i) =
        s.disk.bytes (u32 (s.vol.fatLba + sec) * sectorSize + i)
  image : s.vol.kind = .fat12 → s.vol.fatDirty = false → s.Identical

/-- A clean FAT12 image is what the first copy holds. -/
def ImageOk (s : VolState Disk) : Prop :=
  s.vol.kind = .fat12 → s.vol.fatDirty = false → ∀ i, i < s.vol.fatSectors * sectorSize →
    s.vol.fat i = s.disk.bytes (s.vol.fatLba * sectorSize + i)

section Copies
variable {s : VolState Disk}

theorem mirror_lba_ne {l : Layout} {sec csec : Nat} (first : sec < l.tableSectors)
    (second : csec < l.tableSectors) (other : sec ≠ csec) :
    u32 (l.fatLba + l.fatSectors + sec) ≠ u32 (l.fatLba + l.fatSectors + csec) := by
  rw [Layout.tableSectors_mod] at first second
  simp only [u32]
  omega

theorem sector_place {n i : Nat} (inside : i < sectorSize) : (n * sectorSize + i) / sectorSize = n := by
  simp only [sectorSize] at inside ⊢
  omega

/-- A successful flush leaves both copies equal in every sector. -/
theorem fatCacheFlush_identical (ok : TableOk s) (good : s.disk.Faultless) (mirror : Mirror s)
    (kind : s.vol.kind ≠ .fat12) : (fatCacheFlush s).2.Identical := by
  have layout := (fatCacheFlush_frame ok.coherent.cached).layout
  intro sec bound i inside
  rw [layout] at bound ⊢
  rcases fatCacheFlush_cases s with ⟨skip, run⟩ | ⟨dirty, held, ⟨failed, -⟩ | ⟨stored, run⟩⟩
  · rw [run]
    refine mirror.cached kind sec bound (fun dirty none => ?_) i inside
    rcases skip with clean | empty
    · rw [clean] at dirty
      cases dirty
    · exact (tableSectors_lt_none bound).ne (none.symm.trans empty)
  · rw [diskWrite_fst, Disk.write_faultless good] at failed
    cases failed
  · have cached : s.vol.fatCsec < s.vol.tableSectors :=
      ok.coherent.cached.resolve_left fun empty => by simp [empty.2] at dirty
    have apart := ok.separate.ne bound cached
    have apart' := ok.separate.ne cached bound
    have good' := good.write (u32 (s.vol.fatLba + s.vol.fatCsec)) 1 s.vol.fatCbuf
    rw [run]
    simp only [modVol_disk, diskWrite_disk]
    by_cases same : sec = s.vol.fatCsec
    · subst same
      rw [Disk.write_here _ _ _ (by rw [Disk.write_faultless good']) inside,
        Disk.write_elsewhere _ _ _ (by rw [sector_place inside]; exact apart.symm),
        Disk.write_here _ _ _ (by rw [Disk.write_faultless good]) inside]
    · rw [Disk.write_elsewhere _ _ _ (by
          rw [sector_place inside]; exact mirror_lba_ne bound cached same),
        Disk.write_elsewhere _ _ _ (by rw [sector_place inside]; exact apart'),
        Disk.write_elsewhere _ _ _ (by rw [sector_place inside]; exact apart.symm),
        Disk.write_elsewhere _ _ _ (by
          rw [sector_place inside]; exact ok.accepted.lba_ne bound cached same)]
      exact mirror.cached kind sec bound (fun _ => Ne.symm same) i inside

theorem mirror_of_identical (layout : s.Identical) : Mirror s :=
  ⟨fun _ sec bound _ i inside => layout sec bound i inside, fun _ _ => layout⟩

theorem fatCacheLoad_mirror (ok : TableOk s) (good : s.disk.Faultless) (mirror : Mirror s)
    (kind : s.vol.kind ≠ .fat12) (sec : Nat) : Mirror (fatCacheLoad sec s).2 := by
  have flushed := fatCacheFlush_identical ok good mirror kind
  obtain ⟨rc, next⟩ := fatCacheFlush_faultless good
  have bytes := ((fatCacheFlush s).2.disk.read_keeps (u32 ((fatCacheFlush s).2.vol.fatLba + sec)) 1
    (fatCacheFlush s).2.vol.fatCbuf).2.2.2
  simp only [fatCacheLoad, rc, diskRead_fst, Disk.read_faultless next]
  split
  · exact mirror
  · apply mirror_of_identical
    intro k bound i inside
    simp only [lt_irrefl, if_false, modVol_disk, diskRead_disk, bytes]
    exact flushed k bound i inside

theorem fatGet_mirror (ok : TableOk s) (good : s.disk.Faultless) (mirror : Mirror s) (c : Nat) :
    Mirror (fatGet c s).2 := by
  rcases ok.accepted.kind_cases with kind | kind | kind
  · simp only [fatGet, kind]
    exact ⟨mirror.cached, mirror.image⟩
  all_goals
    simp only [fatGet, kind]
    split <;> exact fatCacheLoad_mirror ok good mirror (by rw [kind]; decide) _

theorem mirror_write (kind : s.vol.kind ≠ .fat12)
    (clean : ∀ sec, sec < s.vol.tableSectors → s.vol.fatCsec ≠ sec → ∀ i, i < sectorSize →
      s.disk.bytes (u32 (s.vol.fatLba + s.vol.fatSectors + sec) * sectorSize + i) =
        s.disk.bytes (u32 (s.vol.fatLba + sec) * sectorSize + i))
    (buf : Buffer) : Mirror (s.modVol (·.cacheWrite buf)) :=
  ⟨fun _ sec bound other => clean sec bound (other rfl), fun image => absurd image kind⟩

/-- Off the cached sector both copies agree, dirty or not. -/
theorem Mirror.off_cache (mirror : Mirror s) (kind : s.vol.kind ≠ .fat12) {sec : Nat}
    (bound : sec < s.vol.tableSectors) (other : s.vol.fatCsec ≠ sec) {i : Nat}
    (inside : i < sectorSize) :
    s.disk.bytes (u32 (s.vol.fatLba + s.vol.fatSectors + sec) * sectorSize + i) =
      s.disk.bytes (u32 (s.vol.fatLba + sec) * sectorSize + i) :=
  mirror.cached kind sec bound (fun _ => other) i inside

theorem fatSet_mirror (ok : TableOk s) (good : s.disk.Faultless) (mirror : Mirror s) {c : Nat}
    (bound : c < s.vol.maxCluster) (x : Nat) : Mirror (fatSet c x s) := by
  rcases ok.accepted.kind_cases with kind | kind | kind
  · simp only [fatSet, kind]
    exact ⟨fun other => absurd kind other, fun _ clean => by cases clean⟩
  · obtain ⟨wrap, sec, -⟩ := Layout.entry16 kind bound
    have inside : u32 (c * 2) / sectorSize < s.vol.tableSectors := by rw [wrap]; exact sec
    have frame := (fatCacheLoad_spec ok.accepted ok.coherent ok.apart inside).1
    have loaded := fatCacheLoad_mirror ok good mirror (by rw [kind]; decide)
      (u32 (c * 2) / sectorSize)
    have other : (fatCacheLoad (u32 (c * 2) / sectorSize) s).2.vol.kind ≠ .fat12 := by
      rw [frame.layout, kind]; decide
    simp only [fatSet, kind]
    split
    · exact loaded
    · exact mirror_write other (fun _ bound ne _ inside =>
        loaded.off_cache other bound ne inside) _
  · obtain ⟨wrap, sec, -⟩ := Layout.entry32 kind bound
    have inside : u32 (c * 4) / sectorSize < s.vol.tableSectors := by rw [wrap]; exact sec
    have frame := (fatCacheLoad_spec ok.accepted ok.coherent ok.apart inside).1
    have loaded := fatCacheLoad_mirror ok good mirror (by rw [kind]; decide)
      (u32 (c * 4) / sectorSize)
    have other : (fatCacheLoad (u32 (c * 4) / sectorSize) s).2.vol.kind ≠ .fat12 := by
      rw [frame.layout, kind]; decide
    simp only [fatSet, kind]
    split
    · exact loaded
    · exact mirror_write other (fun _ bound ne _ inside =>
        loaded.off_cache other bound ne inside) _

theorem flushFat_dirty (good : s.disk.Faultless) (kind : s.vol.kind = .fat12)
    (dirty : ¬ s.vol.fatDirty = false) :
    flushFat s = (0, ((s.diskWrite s.vol.fatLba s.vol.fatSectors s.vol.fat).2.diskWrite
      (u32 (s.vol.fatLba + s.vol.fatSectors)) s.vol.fatSectors s.vol.fat).2.modVol
        (·.imageClean)) := by
  simp only [flushFat, kind, if_neg dirty]
  exact if_neg (Disk.write_done good _ _ _)

/-- The FAT12 image goes to both copies. -/
theorem flushFat_image (ok : TableOk s) (good : s.disk.Faultless) (kind : s.vol.kind = .fat12)
    (image : ImageOk s) : (flushFat s).2.vol.fatDirty = false ∧ ImageOk (flushFat s).2 ∧
      (Mirror s → (flushFat s).2.Identical) := by
  have small := ok.accepted.image kind
  have reserved := ok.accepted.header.reserved_lt
  have lba := ok.accepted.fatLba
  have table : s.vol.tableSectors = s.vol.fatSectors := by
    rw [Layout.tableSectors_mod]
    omega
  have second : u32 (s.vol.fatLba + s.vol.fatSectors) = s.vol.fatLba + s.vol.fatSectors :=
    u32_of_lt (by omega)
  by_cases clean : s.vol.fatDirty = false
  · have run : flushFat s = (0, s) := by simp only [flushFat, kind, if_pos clean]
    rw [run]
    exact ⟨clean, image, fun mirror => mirror.image kind clean⟩
  · have good' := good.write s.vol.fatLba s.vol.fatSectors s.vol.fat
    obtain ⟨t, run, vol, bytes⟩ : ∃ t, flushFat s = (0, t) ∧ t.vol = s.vol.imageClean ∧
        t.disk.bytes = splice (splice s.disk.bytes (s.vol.fatLba * sectorSize)
          (s.vol.fatSectors * sectorSize) s.vol.fat)
          ((s.vol.fatLba + s.vol.fatSectors) * sectorSize)
          (s.vol.fatSectors * sectorSize) s.vol.fat := by
      refine ⟨_, flushFat_dirty good kind clean, rfl, ?_⟩
      simp only [modVol_disk, diskWrite_disk, Disk.write_bytes good', Disk.write_bytes good, second]
    have first (i : Nat) (inside : i < s.vol.fatSectors * sectorSize) :
        t.disk.bytes (s.vol.fatLba * sectorSize + i) = s.vol.fat i := by
      rw [bytes, splice_outside _ _ (by rw [Nat.add_mul]; omega), splice_add _ _ inside]
    have copy (i : Nat) (inside : i < s.vol.fatSectors * sectorSize) :
        t.disk.bytes ((s.vol.fatLba + s.vol.fatSectors) * sectorSize + i) = s.vol.fat i := by
      rw [bytes, splice_add _ _ inside]
    rw [run]
    refine ⟨by rw [vol]; rfl, ?_, ?_⟩
    · intro _ _ i inside
      rw [vol] at inside ⊢
      exact (first i inside).symm
    · intro _ sec bound i inside
      rw [vol] at bound ⊢
      change sec < s.vol.tableSectors at bound
      change t.disk.bytes (u32 (s.vol.fatLba + s.vol.fatSectors + sec) * sectorSize + i) =
        t.disk.bytes (u32 (s.vol.fatLba + sec) * sectorSize + i)
      rw [u32_of_lt (by omega), u32_of_lt (by omega)]
      have within : sec * sectorSize + i < s.vol.fatSectors * sectorSize := by
        simp only [sectorSize] at inside ⊢
        omega
      rw [Nat.add_mul _ sec, Nat.add_assoc, copy _ within, Nat.add_mul s.vol.fatLba,
        Nat.add_assoc, first _ within]

end Copies

/-! Runs. -/

/-- What every state of a faultless run from the mounted state `m` keeps. -/
structure RunInv (m s : VolState Disk) : Prop where
  ok : TableOk s
  good : s.disk.Faultless
  layout : s.vol.toLayout = m.vol.toLayout
  image : ImageOk s
  mirror : m.Identical → Mirror s

theorem TableFrame.faultless {s t : VolState Disk} (frame : TableFrame s t) (good : s.disk.Faultless) :
    t.disk.Faultless :=
  ⟨frame.present.trans good.1, fun past a => (congrFun₂ frame.verdict past a).trans (good.2 past a)⟩

/-- What is stored in entry `c` after a call, FAT32 upper bits included. -/
def TableCall.stored (kind : FatKind) (f : Nat → Nat) : TableCall → Nat → Nat
  | .set c x => Function.update f c (storeRaw kind (f c) x)
  | _ => f

section Step
variable {m s : VolState Disk} {c x : Nat}

theorem fatGet_image (image : ImageOk s) (frame : TableFrame s (fatGet c s).2) :
    ImageOk (fatGet c s).2 := by
  intro kind
  rw [frame.layout] at kind ⊢
  simp only [fatGet, kind]
  exact image kind

theorem fatSet_image (kind : s.vol.kind = .fat12) : (fatSet c x s).vol.fatDirty = true := by
  simp only [fatSet, kind]
  rfl

theorem flushFat_mirror (inv : RunInv m s) : ImageOk (flushFat s).2 ∧
    (Mirror s → (flushFat s).2.Identical) := by
  obtain ⟨frame, -, -⟩ := flushFat_spec inv.ok
  by_cases kind : s.vol.kind = .fat12
  · exact (flushFat_image inv.ok inv.good kind inv.image).2
  · refine ⟨fun other => absurd (by rw [frame.layout] at other; exact other) kind, fun mirror => ?_⟩
    rw [flushFat_cached (inv.ok.accepted.kind_cases.resolve_left kind)]
    exact fatCacheFlush_identical inv.ok inv.good mirror kind

theorem step_keeps (inv : RunInv m s) (call : TableCall) (inside : call.InRange m.vol.maxCluster) :
    RunInv m (call.run s) ∧ ∀ c, c < m.vol.maxCluster →
      (call.run s).rawFat c = call.stored m.vol.kind s.rawFat c := by
  have max : m.vol.maxCluster = s.vol.maxCluster := by rw [inv.layout]
  have kind : m.vol.kind = s.vol.kind := by rw [inv.layout]
  rw [max] at inside
  rw [max, kind]
  cases call with
  | get c =>
      obtain ⟨frame, ok, same, -⟩ := fatGet_spec inv.ok inside
      exact ⟨⟨ok, frame.faultless inv.good, frame.layout.trans inv.layout,
        fatGet_image inv.image frame,
        fun twin => fatGet_mirror inv.ok inv.good (inv.mirror twin) c⟩, same⟩
  | set c x =>
      obtain ⟨frame, ok, others, here⟩ := fatSet_spec inv.ok inside x
      refine ⟨⟨ok, frame.faultless inv.good, frame.layout.trans inv.layout, ?_,
        fun twin => fatSet_mirror inv.ok inv.good (inv.mirror twin) inside x⟩, ?_⟩
      · intro image dirty
        have fat12 : (fatSet c x s).vol.kind = .fat12 := image
        rw [frame.layout] at fat12
        exact absurd (dirty.symm.trans (fatSet_image fat12)) (by decide)
      · intro d bound
        by_cases same : d = c
        · subst same
          rw [TableCall.stored, Function.update_self]
          exact here.resolve_right fun fault => fault.1 inv.good
        · rw [TableCall.stored, Function.update_of_ne same]
          exact others d bound same
  | flush =>
      obtain ⟨frame, ok, same⟩ := flushFat_spec inv.ok
      obtain ⟨image, twins⟩ := flushFat_mirror inv
      exact ⟨⟨ok, frame.faultless inv.good, frame.layout.trans inv.layout, image,
        fun twin => mirror_of_identical (twins (inv.mirror twin))⟩, same⟩

/-- A set keeps the value's low bits and leaves FAT32 upper bits alone. -/
theorem storeRaw_value (kind : FatKind) (raw x : Nat) :
    storeRaw kind raw x % 2 ^ valueBits kind = x % 2 ^ valueBits kind := by
  cases kind <;> simp only [storeRaw, valueBits] <;> omega

theorem storeRaw_upper (raw x : Nat) : storeRaw .fat32 raw x / 2 ^ 28 = raw / 2 ^ 28 := by
  simp only [storeRaw]
  omega

theorem run_refines {calls : List TableCall} : ∀ {s : VolState Disk} {f : Nat → Nat}, RunInv m s →
    (∀ call ∈ calls, call.InRange m.vol.maxCluster) →
    (∀ c, c < m.vol.maxCluster → s.fatMap c = f c) →
    RunInv m (runTable s calls) ∧
      (∀ c, c < m.vol.maxCluster →
        (runTable s calls).fatMap c = specTable (valueBits m.vol.kind) f calls c) ∧
      (m.vol.kind = .fat32 → ∀ c, c < m.vol.maxCluster →
        (runTable s calls).rawFat c / 2 ^ 28 = s.rawFat c / 2 ^ 28) := by
  induction calls with
  | nil => exact fun inv _ start => ⟨inv, start, fun _ _ _ => rfl⟩
  | cons call calls ih =>
      intro s f inv range start
      have inside := range call (List.mem_cons_self)
      obtain ⟨next, stored⟩ := step_keeps inv call inside
      have kind : s.vol.kind = m.vol.kind := by rw [inv.layout]
      have kind' : (call.run s).vol.kind = m.vol.kind := by rw [next.layout]
      have map : ∀ c, c < m.vol.maxCluster →
          (call.run s).fatMap c = call.spec (valueBits m.vol.kind) f c := by
        intro c bound
        rw [fatMap, stored c bound, kind']
        have old := start c bound
        rw [fatMap, kind] at old
        cases call with
        | set d x =>
            by_cases same : c = d
            · subst same
              simp only [TableCall.stored, TableCall.spec, Function.update_self, storeRaw_value]
            · simp only [TableCall.stored, TableCall.spec, Function.update_of_ne same, old]
        | get d => exact old
        | flush => exact old
      obtain ⟨last, values, upper⟩ := ih next (fun c member =>
        range c (List.mem_cons_of_mem _ member)) map
      refine ⟨last, values, fun fat32 c bound => (upper fat32 c bound).trans ?_⟩
      rw [stored c bound, fat32]
      cases call with
      | set d x =>
          by_cases same : c = d
          · subst same
            simp only [TableCall.stored, Function.update_self, storeRaw_upper]
          · simp only [TableCall.stored, Function.update_of_ne same]
      | get d => rfl
      | flush => rfl

end Step

/-! The copies on the disk. -/

/-- An entry below max_cluster is read from the sectors of its copy. -/
theorem rawEntry_congr {l : Layout} (accepted : l.Accepted) {c : Nat} (bound : c < l.maxCluster)
    {a b : Buffer} {f g : Nat → Buffer}
    (images : l.kind = .fat12 → ∀ i, i < l.fatSectors * sectorSize → a i = b i)
    (sectors : l.kind ≠ .fat12 → ∀ sec, sec < l.tableSectors → ∀ i, i < sectorSize →
      f sec i = g sec i) : rawEntry l.kind a f c = rawEntry l.kind b g c := by
  rcases accepted.kind_cases with kind | kind | kind <;> simp only [rawEntry, kind]
  · obtain ⟨-, place, -⟩ := Layout.entry12 kind (accepted.image kind) bound
    exact get12_congr fun k inside => images kind _ (by omega)
  · obtain ⟨wrap, sec, off⟩ := Layout.entry16 kind bound
    rw [wrap]
    exact readLe16_congr fun k inside => sectors (by rw [kind]; decide) _ sec _ (by omega)
  · obtain ⟨wrap, sec, off⟩ := Layout.entry32 kind bound
    rw [wrap]
    exact readLe32_congr fun k inside => sectors (by rw [kind]; decide) _ sec _ (by omega)

section Copied
variable {m s : VolState Disk}

/-- A clean table is what the first copy on the disk encodes. -/
theorem copyRaw_first (ok : TableOk s) (image : ImageOk s) (clean : s.vol.fatCdirty = false)
    (stored : s.vol.kind = .fat12 → s.vol.fatDirty = false) {c : Nat}
    (bound : c < s.vol.maxCluster) : s.copyRaw 0 c = s.rawFat c := by
  have reserved := ok.accepted.header.reserved_lt
  have lba := ok.accepted.fatLba
  refine rawEntry_congr ok.accepted bound (fun kind i inside => ?_) (fun _ sec low i inside => ?_)
  · rw [image kind (stored kind) i inside, Nat.zero_mul, Nat.add_zero, u32_of_lt (by omega)]
    rfl
  · rw [ok.coherent.stored clean low inside, Nat.zero_mul, Nat.add_zero]
    rfl

/-- Identical copies encode the same table. -/
theorem copyRaw_second (ok : TableOk s) (same : s.Identical) {c : Nat}
    (bound : c < s.vol.maxCluster) : s.copyRaw 1 c = s.copyRaw 0 c := by
  have reserved := ok.accepted.header.reserved_lt
  have lba := ok.accepted.fatLba
  refine rawEntry_congr ok.accepted bound (fun kind i inside => ?_) (fun _ sec low i inside => ?_)
  · have small := ok.accepted.image kind
    have sector : i / sectorSize < s.vol.tableSectors := by
      simp only [sectorSize, Layout.tableSectors_mod] at inside ⊢
      omega
    have short := s.vol.toLayout.tableSectors_le
    have at_sec := same _ sector (i % sectorSize) (Nat.mod_lt _ (by decide))
    rw [u32_of_lt (by omega), u32_of_lt (by omega)] at at_sec
    rw [Nat.one_mul, Nat.zero_mul, Nat.add_zero, u32_of_lt (by omega), u32_of_lt (by omega)]
    have split (n : Nat) : (n + i / sectorSize) * sectorSize + i % sectorSize =
        n * sectorSize + i := by
      rw [Nat.add_mul, Nat.add_assoc, Nat.div_add_mod']
    rw [split, split] at at_sec
    exact at_sec
  · rw [Nat.one_mul, Nat.zero_mul, Nat.add_zero]
    exact same sec low i inside

/-- After flush_fat both copies encode the logical table. -/
theorem flushFat_copies (inv : RunInv m s) (twin : m.Identical) {n c : Nat} (copy : n < 2)
    (bound : c < m.vol.maxCluster) : (flushFat s).2.copyRaw n c = s.rawFat c := by
  obtain ⟨frame, ok, same⟩ := flushFat_spec inv.ok
  obtain ⟨image, twins⟩ := flushFat_mirror inv
  have low : c < s.vol.maxCluster := by rw [inv.layout]; exact bound
  have low' : c < (flushFat s).2.vol.maxCluster := by rw [frame.layout]; exact low
  have first : (flushFat s).2.copyRaw 0 c = s.rawFat c := by
    rw [← same c low]
    apply copyRaw_first ok image _ _ low'
    · by_cases kind : s.vol.kind = .fat12
      · rcases ok.coherent.cached with ⟨-, clean⟩ | cached
        · exact clean
        · refine absurd (ok.idle ?_) (tableSectors_lt_none cached).ne
          rw [frame.layout]; exact kind
      · rw [flushFat_cached (inv.ok.accepted.kind_cases.resolve_left kind)]
        exact (fatCacheFlush_stored inv.ok.coherent inv.ok.separate
          (fatCacheFlush_ok inv.good)).1
    · intro kind
      rw [frame.layout] at kind
      exact (flushFat_image inv.ok inv.good kind inv.image).1
  obtain rfl | rfl : n = 0 ∨ n = 1 := by omega
  · exact first
  · exact (copyRaw_second ok (twins (inv.mirror twin)) low').trans first

theorem Mounted.coherent (mounted : Mounted m) : m.Coherent :=
  ⟨.inl ⟨mounted.csec, mounted.cdirty⟩, fun _ held => absurd mounted.csec held⟩

theorem Mounted.tableRead (mounted : Mounted m) : TableRead m :=
  ⟨mounted.layout, mounted.coherent,
    fun dirty => absurd (dirty.symm.trans mounted.cdirty) (by decide), fun _ => mounted.csec⟩

theorem Mounted.tableOk (mounted : Mounted m) (separate : m.vol.Separate) : TableOk m :=
  ⟨mounted.tableRead, separate⟩

theorem Mounted.runInv (mounted : Mounted m) (good : m.disk.Faultless)
    (separate : m.vol.Separate) : RunInv m m :=
  ⟨mounted.tableOk separate, good, rfl, fun kind _ => mounted.image kind, mirror_of_identical⟩

theorem refinesMap_of_separate (mounted : Mounted m) (good : m.disk.Faultless)
    (separate : m.vol.Separate) : RefinesMap m := by
  have start := mounted.runInv good separate
  have raw (c : Nat) (bound : c < m.vol.maxCluster) : m.copyRaw 0 c = m.rawFat c :=
    copyRaw_first start.ok start.image mounted.cdirty (fun _ => mounted.fatClean) bound
  intro calls range
  obtain ⟨inv, values, upper⟩ := run_refines (f := m.copyMap 0) start range fun c bound => by
    rw [fatMap, copyMap, raw c bound]
  have kind : (runTable m calls).vol.kind = m.vol.kind := by rw [inv.layout]
  refine ⟨fun c bound => ?_, fun fat32 c bound => ?_, fun _ twin n copy c bound => ?_⟩
  · have low : c < (runTable m calls).vol.maxCluster := by rw [inv.layout]; exact bound
    rw [← values c bound]
    exact ((fatGet_spec inv.ok low).2.2.2.resolve_right fun fault => fault.1 inv.good).1
  · rw [upper fat32 c bound, raw c bound]
  · have stored := flushFat_copies inv twin copy bound
    have kind' : (flushFat (runTable m calls)).2.vol.kind = m.vol.kind := by
      rw [(flushFat_spec inv.ok).1.layout, kind]
    refine ⟨?_, fun fat32 => ?_⟩
    · rw [← values c bound, copyMap, fatMap, stored, kind', kind]
    · rw [stored, upper fat32 c bound, raw c bound]

end Copied

end Zenbite.Fat
