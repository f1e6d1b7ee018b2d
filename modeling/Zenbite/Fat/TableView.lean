import Zenbite.Fat.Mount

/-! The logical table: the cached sector over the first copy on the disk. Loading,
evicting and flushing leave it alone, whatever the disk answers. -/

namespace Zenbite.Fat

open Memory VolState

namespace Layout

/-- Sectors of a copy that entries below max_cluster lie in. -/
def tableSectors (l : Layout) : Nat := u32 (l.fatSectors * sectorSize) / sectorSize

/-- The second copy does not wrap around into the first one. -/
def Separate (l : Layout) : Prop := l.fatSectors + l.tableSectors ≤ 2 ^ 32

instance (l : Layout) : Decidable l.Separate := inferInstanceAs (Decidable (_ ≤ _))

theorem tableSectors_le (l : Layout) : l.tableSectors ≤ l.fatSectors := by
  simp only [tableSectors, u32, sectorSize]
  omega

theorem tableSectors_mod (l : Layout) : l.tableSectors = l.fatSectors % 2 ^ 23 := by
  simp only [tableSectors, u32, sectorSize]
  omega

theorem Accepted.lba_lt {l : Layout} (accepted : l.Accepted) {sec : Nat}
    (bound : sec < l.tableSectors) : l.fatLba + sec < 2 ^ 32 := by
  have reserved := accepted.header.reserved_lt
  rw [accepted.fatLba]
  rw [tableSectors_mod] at bound
  omega

/-- No mirror sector is a sector of the first copy. -/
theorem Separate.ne {l : Layout} (separate : l.Separate) {sec csec : Nat}
    (first : sec < l.tableSectors) (second : csec < l.tableSectors) :
    u32 (l.fatLba + l.fatSectors + csec) ≠ u32 (l.fatLba + sec) := by
  have short := l.tableSectors_le
  simp only [Separate] at separate
  simp only [u32]
  omega

end Layout

/-- Entry `c` in a table of the given kind, as stored (FAT32 with its upper bits). -/
def rawEntry (kind : FatKind) (image : Buffer) (sector : Nat → Buffer) (c : Nat) : Nat :=
  match kind with
  | .fat12 => get12 image c
  | .fat16 => readLe16 (sector (u32 (c * 2) / sectorSize)) (u32 (c * 2) % sectorSize)
  | _ => readLe32 (sector (u32 (c * 4) / sectorSize)) (u32 (c * 4) % sectorSize)

/-- The bits of an entry that fat_get returns. -/
def valueBits (kind : FatKind) : Nat :=
  match kind with
  | .fat12 => 12
  | .fat16 => 16
  | _ => 28

namespace VolState

/-- Sector `sec` of the table: the cache where it holds that sector. -/
def fatSector (s : VolState Disk) (sec : Nat) : Buffer :=
  if s.vol.fatCsec = sec then s.vol.fatCbuf
  else window s.disk.bytes (u32 (s.vol.fatLba + sec) * sectorSize)

def rawFat (s : VolState Disk) (c : Nat) : Nat := rawEntry s.vol.kind s.vol.fat s.fatSector c

/-- The logical FAT. -/
def fatMap (s : VolState Disk) (c : Nat) : Nat := s.rawFat c % 2 ^ valueBits s.vol.kind

/-- The cache is empty and clean, or holds a sector of the table. -/
def CacheBound (s : VolState Disk) : Prop :=
  s.vol.fatCsec = fatCacheNone ∧ s.vol.fatCdirty = false ∨ s.vol.fatCsec < s.vol.tableSectors

/-- What keeps the cached sector and the disk together: a clean cache holds what
the disk holds. -/
structure Coherent (s : VolState Disk) : Prop where
  cached : s.CacheBound
  clean : s.vol.fatCdirty = false → s.vol.fatCsec ≠ fatCacheNone → ∀ i, i < sectorSize →
    s.vol.fatCbuf i = s.disk.bytes (u32 (s.vol.fatLba + s.vol.fatCsec) * sectorSize + i)

end VolState

/-- A sector that flushing the table may write. -/
def Layout.TableSector (l : Layout) (n : Nat) : Prop :=
  ∃ sec, sec < l.tableSectors ∧
    (n = u32 (l.fatLba + sec) ∨ n = u32 (l.fatLba + l.fatSectors + sec))

/-- The part of the state that work on the table never touches. -/
structure TableFrame (s t : VolState Disk) : Prop where
  layout : t.vol.toLayout = s.vol.toLayout
  diskId : t.vol.diskId = s.vol.diskId
  root : t.vol.root = s.vol.root
  rootDirty : t.vol.rootDirty = s.vol.rootDirty
  cwdIsRoot : t.vol.cwdIsRoot = s.vol.cwdIsRoot
  cwdCluster : t.vol.cwdCluster = s.vol.cwdCluster
  cwdPath : t.vol.cwdPath = s.vol.cwdPath
  fault : t.fault = s.fault
  taken : t.taken = s.taken
  present : t.disk.present = s.disk.present
  sectors : t.disk.sectors = s.disk.sectors
  verdict : t.disk.verdict = s.disk.verdict
  bytes : ∀ a, ¬ s.vol.TableSector (a / sectorSize) → t.disk.bytes a = s.disk.bytes a
  log : ∃ new, t.disk.log = new ++ s.disk.log ∧ ∀ x ∈ new, x.write = true →
    ∀ k, k < x.count → s.vol.TableSector (x.lba + k)

theorem TableFrame.refl (s : VolState Disk) : TableFrame s s :=
  ⟨rfl, rfl, rfl, rfl, rfl, rfl, rfl, rfl, rfl, rfl, rfl, rfl, fun _ _ => rfl,
    [], rfl, by simp⟩

theorem TableFrame.trans {s t u : VolState Disk} (first : TableFrame s t) (second : TableFrame t u) :
    TableFrame s u := by
  obtain ⟨new, log, inside⟩ := first.log
  obtain ⟨more, grown, also⟩ := second.log
  refine ⟨second.layout.trans first.layout, second.diskId.trans first.diskId,
    second.root.trans first.root, second.rootDirty.trans first.rootDirty,
    second.cwdIsRoot.trans first.cwdIsRoot, second.cwdCluster.trans first.cwdCluster,
    second.cwdPath.trans first.cwdPath, second.fault.trans first.fault,
    second.taken.trans first.taken, second.present.trans first.present,
    second.sectors.trans first.sectors, second.verdict.trans first.verdict, ?_, ?_⟩
  · intro a outside
    have next := second.bytes a (by rw [first.layout]; exact outside)
    exact next.trans (first.bytes a outside)
  · refine ⟨more ++ new, by rw [grown, log, List.append_assoc], ?_⟩
    intro x member write
    rcases List.mem_append.mp member with member | member
    · rw [first.layout] at also
      exact also x member write
    · exact inside x member write

/-- A one-sector write of the cache into either copy. -/
theorem frame_write {s : VolState Disk} {lba sec : Nat} (bound : sec < s.vol.tableSectors)
    (place : lba = u32 (s.vol.fatLba + sec) ∨ lba = u32 (s.vol.fatLba + s.vol.fatSectors + sec))
    (buf : Buffer) : TableFrame s (s.diskWrite lba 1 buf).2 := by
  obtain ⟨present, sectors, verdict⟩ := s.disk.write_keeps lba 1 buf
  obtain ⟨new, log, all⟩ := s.disk.write_log lba 1 buf
  refine ⟨rfl, rfl, rfl, rfl, rfl, rfl, rfl, rfl, rfl, present, sectors, verdict, ?_,
    new, log, ?_⟩
  · intro a outside
    apply Disk.write_elsewhere
    intro at_lba
    exact outside ⟨sec, bound, place.imp at_lba.trans at_lba.trans⟩
  · intro x member _ k inside
    rw [all x member] at inside ⊢
    obtain rfl : k = 0 := Nat.lt_one_iff.mp inside
    exact ⟨sec, bound, place⟩

theorem frame_read (s : VolState Disk) (lba count : Nat) (buf : Buffer) :
    TableFrame s (s.diskRead lba count buf).2.2 := by
  obtain ⟨present, sectors, verdict, bytes⟩ := s.disk.read_keeps lba count buf
  obtain ⟨new, log, all⟩ := s.disk.read_log lba count buf
  refine ⟨rfl, rfl, rfl, rfl, rfl, rfl, rfl, rfl, rfl, present, sectors, verdict,
    fun a _ => congrFun bytes a, new, log, ?_⟩
  intro x member write
  rw [all x member] at write
  cases write

/-- A write to the table fields of `*v`. -/
theorem frame_mod (s : VolState Disk) (f : FatVolume → FatVolume)
    (layout : (f s.vol).toLayout = s.vol.toLayout) (diskId : (f s.vol).diskId = s.vol.diskId)
    (root : (f s.vol).root = s.vol.root) (rootDirty : (f s.vol).rootDirty = s.vol.rootDirty)
    (cwdIsRoot : (f s.vol).cwdIsRoot = s.vol.cwdIsRoot)
    (cwdCluster : (f s.vol).cwdCluster = s.vol.cwdCluster)
    (cwdPath : (f s.vol).cwdPath = s.vol.cwdPath) : TableFrame s (s.modVol f) :=
  ⟨layout, diskId, root, rootDirty, cwdIsRoot, cwdCluster, cwdPath, rfl, rfl, rfl, rfl, rfl,
    fun _ _ => rfl, [], rfl, by simp⟩

/-- Writes to the cache fields of `*v`. -/
theorem frame_cache (s : VolState Disk) (buf : Buffer) (sec : Nat) (dirty : Bool) :
    TableFrame s (s.modVol fun v => { v with fatCbuf := buf, fatCsec := sec, fatCdirty := dirty }) :=
  frame_mod s _ rfl rfl rfl rfl rfl rfl rfl

section Flush
variable {s : VolState Disk}

/-- Everything a flush can do: nothing, a failed first write, or both writes. -/
theorem fatCacheFlush_cases (s : VolState Disk) :
    (s.vol.fatCdirty = false ∨ s.vol.fatCsec = fatCacheNone) ∧ fatCacheFlush s = (0, s) ∨
    s.vol.fatCdirty = true ∧ s.vol.fatCsec ≠ fatCacheNone ∧
      (let w := s.diskWrite (u32 (s.vol.fatLba + s.vol.fatCsec)) 1 s.vol.fatCbuf
       w.1 = -1 ∧ fatCacheFlush s = (-1, w.2) ∨
       w.1 = 0 ∧ fatCacheFlush s = (0, (w.2.diskWrite
          (u32 (s.vol.fatLba + s.vol.fatSectors + s.vol.fatCsec)) 1 s.vol.fatCbuf).2.modVol
            (·.cacheClean))) := by
  by_cases skip : s.vol.fatCdirty = false ∨ s.vol.fatCsec = fatCacheNone
  · exact .inl ⟨skip, if_pos skip⟩
  · refine .inr ⟨by simpa using fun clean => skip (.inl clean), fun none => skip (.inr none), ?_⟩
    simp only [fatCacheFlush, if_neg skip]
    rcases s.disk.write_rc (u32 (s.vol.fatLba + s.vol.fatCsec)) 1 s.vol.fatCbuf with rc | rc
    · exact .inr ⟨rc, if_neg (by rw [diskWrite_fst, rc]; decide)⟩
    · exact .inl ⟨rc, if_pos (by rw [diskWrite_fst, rc]; decide)⟩

theorem fatCacheFlush_frame (cached : s.CacheBound) : TableFrame s (fatCacheFlush s).2 := by
  rcases fatCacheFlush_cases s with ⟨-, run⟩ | ⟨dirty, -, ⟨-, run⟩ | ⟨-, run⟩⟩ <;> rw [run]
  · exact .refl s
  all_goals
    have bound : s.vol.fatCsec < s.vol.tableSectors :=
      cached.resolve_left fun empty => by simp [empty.2] at dirty
    have first := frame_write bound (.inl rfl) s.vol.fatCbuf
  · exact first
  · have second := frame_write (s := (s.diskWrite (u32 (s.vol.fatLba + s.vol.fatCsec)) 1
      s.vol.fatCbuf).2) bound (.inr rfl) s.vol.fatCbuf
    exact (first.trans second).trans (frame_cache _ _ _ _)

theorem fatCacheFlush_cache (s : VolState Disk) :
    (fatCacheFlush s).2.vol.fatCbuf = s.vol.fatCbuf ∧
      (fatCacheFlush s).2.vol.fatCsec = s.vol.fatCsec := by
  rcases fatCacheFlush_cases s with ⟨-, run⟩ | ⟨-, -, ⟨-, run⟩ | ⟨-, run⟩⟩ <;> rw [run] <;>
    exact ⟨rfl, rfl⟩

theorem fatCacheFlush_bound (cached : s.CacheBound) : (fatCacheFlush s).2.CacheBound := by
  have frame := fatCacheFlush_frame cached
  rw [CacheBound, frame.layout, (fatCacheFlush_cache s).2]
  rcases cached with ⟨empty, clean⟩ | bound
  · left
    rcases fatCacheFlush_cases s with ⟨-, run⟩ | ⟨dirty, -⟩
    · rw [run]
      exact ⟨empty, clean⟩
    · simp [clean] at dirty
  · exact .inr bound

theorem fatCacheFlush_rc (s : VolState Disk) : (fatCacheFlush s).1 = 0 ∨ (fatCacheFlush s).1 = -1 := by
  rcases fatCacheFlush_cases s with ⟨-, run⟩ | ⟨-, -, ⟨-, run⟩ | ⟨-, run⟩⟩ <;> rw [run] <;> simp

theorem fatCacheFlush_ok (good : s.disk.Faultless) : (fatCacheFlush s).1 = 0 := by
  rcases fatCacheFlush_cases s with ⟨-, run⟩ | ⟨-, -, ⟨failed, -⟩ | ⟨-, run⟩⟩
  · rw [run]
  · rw [diskWrite_fst, Disk.write_faultless good] at failed
    cases failed
  · rw [run]

/-- The first copy on the disk changes at most in the cached sector. -/
theorem fatCacheFlush_elsewhere (coherent : s.Coherent) (separate : s.vol.Separate)
    {sec i : Nat} (bound : sec < s.vol.tableSectors) (inside : i < sectorSize)
    (other : u32 (s.vol.fatLba + sec) ≠ u32 (s.vol.fatLba + s.vol.fatCsec)) :
    (fatCacheFlush s).2.disk.bytes (u32 (s.vol.fatLba + sec) * sectorSize + i) =
      s.disk.bytes (u32 (s.vol.fatLba + sec) * sectorSize + i) := by
  have place : (u32 (s.vol.fatLba + sec) * sectorSize + i) / sectorSize =
      u32 (s.vol.fatLba + sec) := by
    simp only [sectorSize] at inside ⊢
    omega
  rcases fatCacheFlush_cases s with ⟨-, run⟩ | ⟨dirty, -, ⟨-, run⟩ | ⟨-, run⟩⟩ <;> rw [run]
  · exact Disk.write_elsewhere _ _ _ (by rw [place]; exact other)
  · have cached : s.vol.fatCsec < s.vol.tableSectors :=
      coherent.cached.resolve_left fun empty => by simp [empty.2] at dirty
    have mirror := (separate.ne bound cached).symm
    exact (Disk.write_elsewhere _ _ _ (by rw [place]; exact mirror)).trans
      (Disk.write_elsewhere _ _ _ (by rw [place]; exact other))

/-- After a successful flush the cached sector is clean and on the disk. -/
theorem fatCacheFlush_stored (coherent : s.Coherent) (separate : s.vol.Separate)
    (ok : (fatCacheFlush s).1 = 0) : (fatCacheFlush s).2.vol.fatCdirty = false ∧
      (s.vol.fatCsec ≠ fatCacheNone → ∀ i, i < sectorSize →
        (fatCacheFlush s).2.disk.bytes (u32 (s.vol.fatLba + s.vol.fatCsec) * sectorSize + i) =
          s.vol.fatCbuf i) := by
  rcases fatCacheFlush_cases s with ⟨skip, run⟩ | ⟨dirty, -, ⟨-, run⟩ | ⟨stored, run⟩⟩
  · rw [run]
    rcases coherent.cached with ⟨empty, clean⟩ | bound
    · exact ⟨clean, fun held => absurd empty held⟩
    · have clean : s.vol.fatCdirty = false := skip.elim id fun empty => by
        have := s.vol.toLayout.tableSectors_mod
        simp only [fatCacheNone] at empty
        omega
      exact ⟨clean, fun held i inside => (coherent.clean clean held i inside).symm⟩
  · rw [run] at ok
    cases ok
  · rw [run]
    refine ⟨rfl, fun _ i inside => ?_⟩
    have cached : s.vol.fatCsec < s.vol.tableSectors :=
      coherent.cached.resolve_left fun empty => by simp [empty.2] at dirty
    have mirror := (separate.ne cached cached).symm
    refine (Disk.write_elsewhere _ _ _ ?_).trans (Disk.write_here s.disk _ _ stored inside)
    have place : (u32 (s.vol.fatLba + s.vol.fatCsec) * sectorSize + i) / sectorSize =
        u32 (s.vol.fatLba + s.vol.fatCsec) := by
      simp only [sectorSize] at inside ⊢
      omega
    rw [place]
    exact mirror

end Flush

/-! Loading a sector. -/

section Load
variable {s : VolState Disk}

/-- Two states with the same logical table. -/
def SameTable (s t : VolState Disk) : Prop :=
  ∀ sec, sec < s.vol.tableSectors → ∀ i, i < sectorSize → t.fatSector sec i = s.fatSector sec i

theorem fatSector_cached (s : VolState Disk) : s.fatSector s.vol.fatCsec = s.vol.fatCbuf := if_pos rfl

theorem fatSector_held {s : VolState Disk} {sec : Nat} (held : s.vol.fatCsec = sec) :
    s.fatSector sec = s.vol.fatCbuf := if_pos held

theorem fatSector_stored {s : VolState Disk} {sec : Nat} (other : s.vol.fatCsec ≠ sec) :
    s.fatSector sec = window s.disk.bytes (u32 (s.vol.fatLba + sec) * sectorSize) := if_neg other

theorem tableSectors_lt_none {l : Layout} {sec : Nat} (bound : sec < l.tableSectors) :
    sec < fatCacheNone := by
  rw [Layout.tableSectors_mod] at bound
  simp only [fatCacheNone]
  omega

/-- Distinct sectors of the first copy lie apart. -/
theorem Layout.Accepted.lba_ne {l : Layout} (accepted : l.Accepted) {sec csec : Nat}
    (first : sec < l.tableSectors) (second : csec < l.tableSectors) (other : sec ≠ csec) :
    u32 (l.fatLba + sec) ≠ u32 (l.fatLba + csec) := by
  rw [u32_of_lt (accepted.lba_lt first), u32_of_lt (accepted.lba_lt second)]
  omega

/-- The copies need to be apart only when there is something to write. -/
theorem fatCacheFlush_coherent (accepted : s.vol.toLayout.Accepted) (coherent : s.Coherent)
    (apart : s.vol.fatCdirty = true → s.vol.Separate) :
    (fatCacheFlush s).2.Coherent ∧ SameTable s (fatCacheFlush s).2 := by
  by_cases dirty : s.vol.fatCdirty = true
  swap
  · have run : fatCacheFlush s = (0, s) := if_pos (.inl (by simpa using dirty))
    rw [run]
    exact ⟨coherent, fun _ _ _ _ => rfl⟩
  have separate := apart dirty
  have frame := fatCacheFlush_frame coherent.cached
  obtain ⟨cbuf, csec⟩ := fatCacheFlush_cache s
  constructor
  · constructor
    · exact fatCacheFlush_bound coherent.cached
    · intro clean held i inside
      rw [frame.layout, csec, cbuf]
      rw [csec] at held
      rcases fatCacheFlush_rc s with ok | failed
      · exact ((fatCacheFlush_stored coherent separate ok).2 held i inside).symm
      · rcases fatCacheFlush_cases s with ⟨-, run⟩ | ⟨dirty, -, ⟨-, run⟩ | ⟨-, run⟩⟩
        · rw [run] at failed; cases failed
        · rw [run] at clean
          exact absurd clean (by rw [diskWrite_vol, dirty]; decide)
        · rw [run] at failed; cases failed
  · intro sec bound i inside
    by_cases cached : s.vol.fatCsec = sec
    · simp only [fatSector, cbuf, csec, if_pos cached]
    · simp only [fatSector, csec, if_neg cached, window, frame.layout]
      rcases coherent.cached with ⟨-, clean⟩ | held
      · rcases fatCacheFlush_cases s with ⟨-, run⟩ | ⟨dirty, -⟩
        · rw [run]
        · simp [clean] at dirty
      · exact fatCacheFlush_elsewhere coherent separate bound inside
          (accepted.lba_ne bound held (Ne.symm cached))

/-- With a clean cache the logical table is the first copy on the disk. -/
theorem VolState.Coherent.stored {s : VolState Disk} (coherent : s.Coherent)
    (clean : s.vol.fatCdirty = false) {sec i : Nat} (bound : sec < s.vol.tableSectors)
    (inside : i < sectorSize) :
    s.fatSector sec i = s.disk.bytes (u32 (s.vol.fatLba + sec) * sectorSize + i) := by
  by_cases cached : s.vol.fatCsec = sec
  · subst cached
    rw [fatSector_cached]
    exact coherent.clean clean (tableSectors_lt_none bound).ne i inside
  · rw [fatSector_stored cached]
    rfl

/-- A clean cache that agrees with the disk may be dropped or refilled. -/
theorem refill_same {s t : VolState Disk} (coherent : s.Coherent) (clean : s.vol.fatCdirty = false)
    (layout : t.vol.toLayout = s.vol.toLayout) (bytes : t.disk.bytes = s.disk.bytes)
    (filled : t.vol.fatCsec < t.vol.tableSectors → ∀ i, i < sectorSize → t.vol.fatCbuf i =
      t.disk.bytes (u32 (t.vol.fatLba + t.vol.fatCsec) * sectorSize + i)) : SameTable s t := by
  intro sec bound i inside
  rw [coherent.stored clean bound inside]
  by_cases cached : t.vol.fatCsec = sec
  · subst cached
    rw [fatSector_cached, filled (by rw [layout]; exact bound) i inside, bytes, layout]
  · rw [fatSector_stored cached, bytes, layout]
    rfl

theorem fatCacheFlush_clean (cached : s.CacheBound) (ok : ¬ (fatCacheFlush s).1 < 0) :
    (fatCacheFlush s).2.vol.fatCdirty = false := by
  rcases fatCacheFlush_cases s with ⟨skip, run⟩ | ⟨-, -, ⟨-, run⟩ | ⟨-, run⟩⟩ <;> rw [run] at ok ⊢
  · rcases cached with ⟨-, clean⟩ | bound
    · exact clean
    · exact skip.resolve_right (tableSectors_lt_none bound).ne
  · exact absurd (show (-1 : Int) < 0 by decide) ok
  · rfl

theorem fatCacheLoad_frame (cached : s.CacheBound) {sec : Nat} (bound : sec < s.vol.tableSectors) :
    TableFrame s (fatCacheLoad sec s).2 ∧ (fatCacheLoad sec s).2.CacheBound ∧
      (¬ (fatCacheLoad sec s).1 < 0 → (fatCacheLoad sec s).2.vol.fatCsec = sec) := by
  have frame := fatCacheFlush_frame cached
  have kept := fatCacheFlush_bound cached
  have clean := fatCacheFlush_clean cached
  simp only [fatCacheLoad]
  split
  next held => exact ⟨.refl s, cached, fun _ => held⟩
  split
  · exact ⟨frame, kept, fun ok => absurd (show (-1 : Int) < 0 by decide) ok⟩
  next flushed =>
    generalize (fatCacheFlush s).2 = t at frame kept clean ⊢
    have read := frame.trans (frame_read t (u32 (t.vol.fatLba + sec)) 1 t.vol.fatCbuf)
    split
    · exact ⟨read.trans (frame_cache _ _ _ _), .inl ⟨rfl, clean flushed⟩,
        fun ok => absurd (show (-1 : Int) < 0 by decide) ok⟩
    · refine ⟨read.trans (frame_cache _ _ _ _), .inr ?_, fun _ => rfl⟩
      change sec < t.vol.tableSectors
      rw [frame.layout]
      exact bound

/-- Everything fat_cache_load does, for every answer of the disk. -/
theorem fatCacheLoad_spec (accepted : s.vol.toLayout.Accepted) (coherent : s.Coherent)
    (apart : s.vol.fatCdirty = true → s.vol.Separate) {sec : Nat} (bound : sec < s.vol.tableSectors) :
    TableFrame s (fatCacheLoad sec s).2 ∧ (fatCacheLoad sec s).2.Coherent ∧
      SameTable s (fatCacheLoad sec s).2 ∧
      (¬ (fatCacheLoad sec s).1 < 0 → (fatCacheLoad sec s).2.vol.fatCsec = sec) := by
  simp only [fatCacheLoad]
  split
  next cached => exact ⟨.refl s, coherent, fun _ _ _ _ => rfl, fun _ => cached⟩
  next missing =>
    have frame := fatCacheFlush_frame coherent.cached
    obtain ⟨kept, same⟩ := fatCacheFlush_coherent accepted coherent apart
    split
    next failed => exact ⟨frame, kept, same, fun ok => absurd (show (-1 : Int) < 0 by decide) ok⟩
    next flushed =>
      have clean := fatCacheFlush_clean coherent.cached flushed
      generalize (fatCacheFlush s).2 = t at frame kept same clean ⊢
      have moved : ∀ u, SameTable t u → SameTable s u := fun u next k low i inside =>
        (next k (by rw [frame.layout]; exact low) i inside).trans (same k low i inside)
      have read := frame.trans (frame_read t (u32 (t.vol.fatLba + sec)) 1 t.vol.fatCbuf)
      have bytes := (t.disk.read_keeps (u32 (t.vol.fatLba + sec)) 1 t.vol.fatCbuf).2.2.2
      split
      next failed =>
        refine ⟨read.trans (frame_cache _ _ _ _), ⟨.inl ⟨rfl, clean⟩, fun _ held => absurd rfl held⟩,
          moved _ (refill_same kept clean rfl bytes ?_),
          fun ok => absurd (show (-1 : Int) < 0 by decide) ok⟩
        intro low
        exact absurd (tableSectors_lt_none low) (lt_irrefl _)
      next done =>
        have loaded := (Disk.read_ok t.disk _ _ _ done).2
        have filled : ∀ i, i < sectorSize →
            (t.diskRead (u32 (t.vol.fatLba + sec)) 1 t.vol.fatCbuf).2.1 i =
              t.disk.bytes (u32 (t.vol.fatLba + sec) * sectorSize + i) := by
          intro i inside
          rw [diskRead_buf, loaded, splice_inside _ _ (Nat.zero_le i) (by omega)]
          rfl
        have here : ∀ i, i < sectorSize →
            (t.diskRead (u32 (t.vol.fatLba + sec)) 1 t.vol.fatCbuf).2.1 i =
              (t.diskRead (u32 (t.vol.fatLba + sec)) 1 t.vol.fatCbuf).2.2.disk.bytes
                (u32 (t.vol.fatLba + sec) * sectorSize + i) := by
          intro i inside
          rw [filled i inside, diskRead_disk, bytes]
        refine ⟨read.trans (frame_cache _ _ _ _), ⟨.inr ?_, fun _ _ => here⟩,
          moved _ (refill_same kept clean rfl bytes fun _ => here), fun _ => rfl⟩
        change sec < t.vol.tableSectors
        rw [frame.layout]
        exact bound

theorem fatCacheFlush_faultless (good : s.disk.Faultless) :
    (fatCacheFlush s).1 = 0 ∧ (fatCacheFlush s).2.disk.Faultless := by
  refine ⟨fatCacheFlush_ok good, ?_⟩
  rcases fatCacheFlush_cases s with ⟨-, run⟩ | ⟨-, -, ⟨-, run⟩ | ⟨-, run⟩⟩ <;> rw [run]
  · exact good
  · exact good.write _ _ _
  · exact (good.write _ _ _).write _ _ _

theorem fatCacheLoad_ok (good : s.disk.Faultless) (sec : Nat) : ¬ (fatCacheLoad sec s).1 < 0 := by
  obtain ⟨flushed, next⟩ := fatCacheFlush_faultless good
  simp only [fatCacheLoad, flushed, diskRead_fst, Disk.read_faultless next]
  split <;> simp

end Load

end Zenbite.Fat
