import Mathlib.Order.Interval.Finset.Nat
import Zenbite.Lib.Trails
import Zenbite.Fat.Tabled
import Zenbite.Fat.TableWrap

/-! free_chain on a table that holds anything: it ends, and clears what following the
chain meets. -/

namespace Zenbite.Fat

open Memory VolState Trails

/-- The `while` loop of free_chain, from its start to its end. -/
inductive FreeLoop : Nat → VolState Disk → VolState Disk → Prop
  | stop {c : Nat} {s : VolState Disk} (ends : ¬ (2 ≤ c ∧ c < s.vol.fatEof)) : FreeLoop c s s
  | round {c : Nat} {s t : VolState Disk} (on : 2 ≤ c ∧ c < s.vol.fatEof)
      (rest : FreeLoop (fatGet c s).1 (fatSet c 0 (fatGet c s).2) t) : FreeLoop c s t

namespace Layout

/-- A value that the loop goes on with. -/
def On (l : Layout) (c : Nat) : Prop := 2 ≤ c ∧ c < l.fatEof

/-- The clusters visited from the first one on. -/
def Visits (l : Layout) (f : Nat → Nat) (first c : Nat) : Prop := Trail l.On f first c

/-- Every entry is the number of a cluster or ends a chain. -/
def ValidFat (l : Layout) (f : Nat → Nat) : Prop :=
  ∀ c, c < l.maxCluster → f c < l.maxCluster ∨ l.fatEof ≤ f c

/-- The entries that the loop can still clear. -/
def busy (l : Layout) (f : Nat → Nat) : Nat := ((Finset.Ico 2 l.fatEof).filter fun c => f c ≠ 0).card

theorem busy_lt (l : Layout) (f : Nat → Nat) : l.busy f < l.fatEof := by
  have all := Finset.card_filter_le (Finset.Ico 2 l.fatEof) fun c => f c ≠ 0
  have pos := l.fatEof_pos
  rw [Nat.card_Ico] at all
  rw [busy]
  omega

theorem not_on_zero (l : Layout) : ¬ l.On 0 := fun on => absurd on.1 (by decide)

end Layout

/-- free_chain ends; the entries of the clusters visited are zero then, and every
other entry is as it was, FAT32 upper bits included. -/
structure FreesExactly (first : Nat) (s : VolState Disk) : Prop where
  ends : FreeLoop first s (freeChain first s)
  freed : ∀ c, c < s.vol.maxCluster → s.vol.Visits s.fatMap first c → (freeChain first s).fatMap c = 0
  kept : ∀ c, c < s.vol.maxCluster → ¬ s.vol.Visits s.fatMap first c →
    (freeChain first s).rawFat c = s.rawFat c

section Loop
variable {l : Layout} {c : Nat} {s : VolState Disk}

theorem freeFrom_stop (n : Nat) (ends : ¬ (2 ≤ c ∧ c < s.vol.fatEof)) : freeFrom n c s = s := by
  cases n with
  | zero => rfl
  | succ n => exact if_neg ends

theorem freeFrom_round (n : Nat) (on : 2 ≤ c ∧ c < s.vol.fatEof) :
    freeFrom (n + 1) c s = freeFrom n (fatGet c s).1 (fatSet c 0 (fatGet c s).2) := if_pos on

/-- One round: entry `c` is read and cleared. -/
theorem Tabled.clear {g : Nat → Nat} (h : Tabled l g s) (bound : c < l.maxCluster) :
    (fatGet c s).1 = g c ∧ Tabled l (Function.update g c 0) (fatSet c 0 (fatGet c s).2) ∧
      ∀ d, d < l.maxCluster → d ≠ c → (fatSet c 0 (fatGet c s).2).rawFat d = s.rawFat d := by
  obtain ⟨value, got, -⟩ := h.get bound
  refine ⟨value, (got.set bound (Nat.two_pow_pos _)).1, fun d low other => ?_⟩
  have same := (fatGet_spec h.ok (by rw [h.layout]; exact bound)).2.2.1
  have others := (fatSet_spec got.ok (by rw [got.layout]; exact bound) 0).2.2.1
  exact (others d (by rw [got.layout]; exact low) other).trans (same d (by rw [h.layout]; exact low))

/-- What the loop leaves: the end of the run, and the entries. -/
structure FreeRun (l : Layout) (g : Nat → Nat) (c : Nat) (s t : VolState Disk) : Prop where
  loop : FreeLoop c s t
  layout : t.vol.toLayout = l
  freed : ∀ d, d < l.maxCluster → l.Visits g c d → t.fatMap d = 0
  kept : ∀ d, d < l.maxCluster → ¬ l.Visits g c d → t.rawFat d = s.rawFat d

theorem FreeRun.stop {g : Nat → Nat} (h : Tabled l g s) (ends : ¬ l.On c) : FreeRun l g c s s where
  loop := .stop (by rw [h.layout]; exact ends)
  layout := h.layout
  freed := fun _ _ visits => absurd visits.first ends
  kept := fun _ _ _ => rfl

/-- A round and the run behind it. -/
theorem FreeRun.round {g : Nat → Nat} {t : VolState Disk} (h : Tabled l g s) (on : l.On c)
    (inside : c < l.maxCluster)
    (next : FreeRun l (Function.update g c 0) (g c) (fatSet c 0 (fatGet c s).2) t) : FreeRun l g c s t := by
  obtain ⟨value, cleared, others⟩ := h.clear inside
  have rest (d : Nat) : l.Visits g c d ↔ _ := trail_iff l.not_on_zero
  have runs : 2 ≤ c ∧ c < s.vol.fatEof := by rw [h.layout]; exact on
  refine ⟨.round runs (by rw [value]; exact next.loop), next.layout, fun d low visits => ?_, fun d low apart => ?_⟩
  · by_cases again : l.Visits (Function.update g c 0) (g c) d
    · exact next.freed d low again
    · obtain rfl : d = c := ((rest d).mp visits).2.resolve_right again
      have zero := cleared.map d low
      rw [Function.update_self, VolState.fatMap, cleared.layout] at zero
      rw [VolState.fatMap, next.kept d low again, next.layout]
      exact zero
  · have other : d ≠ c := fun here => apart ((rest d).mpr ⟨on, .inl here⟩)
    have behind : ¬ l.Visits (Function.update g c 0) (g c) d := fun visits =>
      apart ((rest d).mpr ⟨on, .inr visits⟩)
    exact (next.kept d low behind).trans (others d low other)

/-- The loop from any cluster on, with the entries not yet cleared for fuel. -/
theorem Tabled.freeRun : ∀ n g c s, Tabled l g s → l.ValidFat g → (c < l.maxCluster ∨ l.fatEof ≤ c) →
    l.busy g < n → FreeRun l g c s (Fat.freeFrom n c s) := by
  intro n
  induction n with
  | zero => exact fun _ _ _ _ _ _ none => absurd none (Nat.not_lt_zero _)
  | succ n ih =>
      intro g c s h valid place fuel
      by_cases on : l.On c
      swap
      · rw [freeFrom_stop _ (by rw [h.layout]; exact on)]
        exact .stop h on
      · have inside : c < l.maxCluster := place.resolve_right (Nat.not_le.mpr on.2)
        obtain ⟨value, cleared, -⟩ := h.clear inside
        rw [freeFrom_round _ (by rw [h.layout]; exact on), value]
        apply FreeRun.round h on inside
        by_cases more : l.On (g c)
        · have less : l.busy (Function.update g c 0) < l.busy g :=
            card_clear_lt (Finset.mem_Ico.mpr on) (by have := more.1; omega)
          refine ih _ _ _ cleared (fun x low => ?_) (valid c inside) (by omega)
          by_cases here : x = c
          · rw [here, Function.update_self]
            exact .inl (Nat.zero_lt_of_lt inside)
          · rw [Function.update_of_ne here]
            exact valid x low
        · rw [freeFrom_stop _ (by rw [cleared.layout]; exact more)]
          exact .stop cleared more

theorem Tabled.freesExactly {first : Nat} (h : Tabled l s.fatMap s) (valid : l.ValidFat s.fatMap)
    (inside : first < l.maxCluster) : FreesExactly first s := by
  have run := Tabled.freeRun _ _ _ s h valid (.inl inside) (l.busy_lt s.fatMap)
  obtain rfl := h.layout
  exact ⟨run.loop, run.freed, run.kept⟩

end Loop

/-! Where the second copy wraps around, a sector that is flushed on the way
overwrites the first one. -/

section Wrap
variable {s : VolState Disk} {c d : Nat}

/-- Where entry `c` lies. -/
theorem entry_place16 (kind : s.vol.kind = .fat16) (bound : c < s.vol.maxCluster) :
    u32 (c * 2) / sectorSize = c / perSector s.vol.kind := by
  simp only [(Layout.entry16 kind bound).1, kind, perSector, sectorSize]
  omega

theorem entry_place32 (kind : s.vol.kind = .fat32) (bound : c < s.vol.maxCluster) :
    u32 (c * 4) / sectorSize = c / perSector s.vol.kind := by
  simp only [(Layout.entry32 kind bound).1, kind, perSector, sectorSize]
  omega

/-- Reading an entry is loading its sector. -/
theorem fatGet_loaded (good : s.disk.Faultless) (kind : s.vol.kind = .fat16 ∨ s.vol.kind = .fat32)
    (bound : c < s.vol.maxCluster) : fatGet c s =
      ((fatCacheLoad (c / perSector s.vol.kind) s).2.fatMap c,
        (fatCacheLoad (c / perSector s.vol.kind) s).2) := by
  obtain ⟨loaded, layout, -, held⟩ := fatCacheLoad_held good (c / perSector s.vol.kind)
  rcases kind with kind | kind
  · have place := entry_place16 kind bound
    have kind' : (fatCacheLoad (c / perSector s.vol.kind) s).2.vol.kind = .fat16 := by rw [layout, kind]
    have value := rawFat_fat16 (c := c) kind'
    rw [place, fatSector_held held] at value
    simp only [fatGet, kind, place]
    rw [kind] at loaded value kind'
    rw [if_neg loaded, VolState.fatMap, value, kind']
    simp only [valueBits, Nat.mod_eq_of_lt (readLe16_lt _ _)]
  · have place := entry_place32 kind bound
    have kind' : (fatCacheLoad (c / perSector s.vol.kind) s).2.vol.kind = .fat32 := by rw [layout, kind]
    have value := rawFat_fat32 (c := c) kind'
    rw [place, fatSector_held held] at value
    simp only [fatGet, kind, place]
    rw [kind] at loaded value kind'
    rw [if_neg loaded, VolState.fatMap, value, kind']
    simp only [valueBits]

/-- Setting an entry is loading its sector and changing it there. -/
theorem fatSet_loaded (good : s.disk.Faultless) (kind : s.vol.kind = .fat16 ∨ s.vol.kind = .fat32)
    (bound : c < s.vol.maxCluster) (x : Nat) :
    (∃ b, fatSet c x s = (fatCacheLoad (c / perSector s.vol.kind) s).2.modVol (·.cacheWrite b)) ∧
      (fatSet c x s).rawFat c =
        storeRaw s.vol.kind ((fatCacheLoad (c / perSector s.vol.kind) s).2.rawFat c) x ∧
      ∀ d, d < s.vol.maxCluster → d ≠ c →
        (fatSet c x s).rawFat d = (fatCacheLoad (c / perSector s.vol.kind) s).2.rawFat d := by
  obtain ⟨loaded, layout, -, held⟩ := fatCacheLoad_held good (c / perSector s.vol.kind)
  generalize same : (fatCacheLoad (c / perSector s.vol.kind) s).2 = t at layout held
  have max : t.vol.maxCluster = s.vol.maxCluster := by rw [layout]
  rcases kind with kind | kind
  · have place := entry_place16 kind bound
    have kind' : t.vol.kind = .fat16 := by rw [layout, kind]
    have run : fatSet c x s = t.modVol
        (·.cacheWrite (writeLe16 t.vol.fatCbuf (u32 (c * 2) % sectorSize) x)) := by
      rw [← same]
      simp only [fatSet, kind] at loaded ⊢
      rw [place, kind, if_neg loaded]
    rw [← place] at held
    rw [run, kind]
    exact ⟨⟨_, rfl⟩, rawFat_write16 kind' held x, fun d near other =>
      rawFat_write16_ne kind' (by rw [max]; exact bound) (by rw [max]; exact near) other held x⟩
  · have place := entry_place32 kind bound
    have kind' : t.vol.kind = .fat32 := by rw [layout, kind]
    have run : fatSet c x s = t.modVol
        (·.cacheWrite (set32 t.vol.fatCbuf (u32 (c * 4) % sectorSize) x)) := by
      rw [← same]
      simp only [fatSet, kind] at loaded ⊢
      rw [place, kind, if_neg loaded]
    rw [← place] at held
    rw [run, kind]
    exact ⟨⟨_, rfl⟩, rawFat_write32 kind' held x, fun d near other =>
      rawFat_write32_ne kind' (by rw [max]; exact bound) (by rw [max]; exact near) other held x⟩

/-- Loading sector `sec` brings what the flush has just left there: the dirty sector
whose mirror it is. -/
theorem wrapped_load {sec : Nat} (good : s.disk.Faultless) (dirty : s.vol.fatCdirty = true)
    (held : s.vol.fatCsec ≠ fatCacheNone) (other : s.vol.fatCsec ≠ sec)
    (wrap : u32 (s.vol.fatLba + s.vol.fatSectors + s.vol.fatCsec) = u32 (s.vol.fatLba + sec)) :
    ∀ i, i < sectorSize → (fatCacheLoad sec s).2.vol.fatCbuf i = s.vol.fatCbuf i := by
  intro i inside
  obtain ⟨rc, good'⟩ := fatCacheFlush_faultless good
  obtain ⟨copied, clean⟩ := fatCacheFlush_mirror good dirty held inside
  have layout := fatCacheFlush_layout s
  have csec : (fatCacheFlush s).2.vol.fatCsec ≠ sec := by rw [(fatCacheFlush_cache s).2]; exact other
  have idle : fatCacheFlush (fatCacheFlush s).2 = (0, (fatCacheFlush s).2) := if_pos (.inl clean)
  have again : fatCacheLoad sec s = fatCacheLoad sec (fatCacheFlush s).2 := by
    simp only [fatCacheLoad, if_neg other, if_neg csec, idle, rc]
  rw [again, (fatCacheLoad_clean good' clean csec).2 i inside, layout, ← wrap, copied]

theorem perSector_inside {l : Layout} {sec : Nat} (kind : l.kind = .fat16 ∨ l.kind = .fat32)
    (inside : sec < l.tableSectors) (low : c < perSector l.kind) : sec * perSector l.kind + c < l.maxCluster := by
  rcases kind with kind | kind
  · simp only [Layout.tableSectors, Layout.maxCluster_fat16 kind, kind, perSector, sectorSize] at inside low ⊢
    omega
  · simp only [Layout.tableSectors, Layout.maxCluster_fat32 kind, kind, perSector, sectorSize] at inside low ⊢
    omega

/-- The entries of a sector whose bytes were copied to the first one. -/
theorem rawFat_moved {t : VolState Disk} (kind : s.vol.kind = .fat16 ∨ s.vol.kind = .fat32)
    (layout : t.vol.toLayout = s.vol.toLayout) (first : t.vol.fatCsec = 0)
    (small : s.vol.fatCsec < 2 ^ 23) (same : ∀ i, i < sectorSize → t.vol.fatCbuf i = s.vol.fatCbuf i)
    (inside : c < perSector s.vol.kind) :
    t.rawFat c = s.rawFat (s.vol.fatCsec * perSector s.vol.kind + c) := by
  rcases kind with kind | kind
  · have kind' : t.vol.kind = .fat16 := by rw [layout, kind]
    simp only [kind, perSector] at inside ⊢
    have low : u32 (c * 2) / sectorSize = 0 ∧ u32 (c * 2) % sectorSize = c * 2 := by
      simp only [u32, sectorSize]; omega
    have high : u32 ((s.vol.fatCsec * 256 + c) * 2) / sectorSize = s.vol.fatCsec ∧
        u32 ((s.vol.fatCsec * 256 + c) * 2) % sectorSize = c * 2 := by
      simp only [u32, sectorSize]; omega
    rw [rawFat_fat16 kind', rawFat_fat16 kind, low.1, low.2, high.1, high.2, fatSector_held first,
      fatSector_held rfl]
    exact readLe16_congr fun k bound => same _ (by simp only [sectorSize]; omega)
  · have kind' : t.vol.kind = .fat32 := by rw [layout, kind]
    simp only [kind, perSector] at inside ⊢
    have low : u32 (c * 4) / sectorSize = 0 ∧ u32 (c * 4) % sectorSize = c * 4 := by
      simp only [u32, sectorSize]; omega
    have high : u32 ((s.vol.fatCsec * 128 + c) * 4) / sectorSize = s.vol.fatCsec ∧
        u32 ((s.vol.fatCsec * 128 + c) * 4) % sectorSize = c * 4 := by
      simp only [u32, sectorSize]; omega
    rw [rawFat_fat32 kind', rawFat_fat32 kind, low.1, low.2, high.1, high.2, fatSector_held first,
      fatSector_held rfl]
    exact readLe32_congr fun k bound => same _ (by simp only [sectorSize]; omega)

end Wrap

/-- On every mounted volume of the layout, after any calls on its table, free_chain
does what it should, whatever valid entries the table holds. -/
def Layout.FreesChains (l : Layout) : Prop :=
  ∀ m : VolState Disk, Mounted m → m.vol.toLayout = l → m.disk.Faultless →
    ∀ calls : List TableCall, (∀ call ∈ calls, call.InRange l.maxCluster) →
      l.ValidFat (runTable m calls).fatMap →
      ∀ first, first < l.maxCluster → FreesExactly first (runTable m calls)

theorem frees_chains_of_separate {l : Layout} (separate : l.Separate) : l.FreesChains := by
  rintro m mounted rfl good calls range valid first inside
  obtain ⟨inv, -, -⟩ := run_refines (mounted.runInv good separate) range fun _ _ => rfl
  exact Tabled.freesExactly ⟨⟨inv.layout, inv.ok, fun _ _ => rfl⟩, inv.good⟩ valid inside

/-- A volume whose disk holds nothing but zeroes. -/
def zeroVolume (l : Layout) : VolState Disk :=
  .fresh (.image l.totalSectors fun _ => 0)
    { FatVolume.zero with toLayout := l, fatCsec := fatCacheNone, cwdIsRoot := true }

theorem zeroVolume_mounted {l : Layout} (accepted : l.Accepted) : Mounted (zeroVolume l) :=
  ⟨accepted, rfl, rfl, rfl, rfl, fun _ _ _ => rfl, fun _ _ _ => rfl, rfl⟩

theorem zeroVolume_raw (l : Layout) (c : Nat) : (zeroVolume l).rawFat c = 0 := by
  have sector (sec i : Nat) : (zeroVolume l).fatSector sec i = 0 := by
    rw [fatSector]
    split <;> rfl
  have image (i : Nat) : (zeroVolume l).vol.fat i = 0 := rfl
  simp only [rawFat, rawEntry]
  split <;> simp [get12, readLe16, readLe32, sector, image]

/-- Sector `last` is dirty in the cache and starts with 1; all other entries are 0. -/
structure Marked (l : Layout) (last : Nat) (s : VolState Disk) : Prop where
  layout : s.vol.toLayout = l
  good : s.disk.Faultless
  dirty : s.vol.fatCdirty = true
  held : s.vol.fatCsec = last
  raw : ∀ c, c < l.maxCluster → s.rawFat c = if c = last * perSector l.kind then 1 else 0

theorem marked_run {l : Layout} {last : Nat} (accepted : l.Accepted)
    (kind : l.kind = .fat16 ∨ l.kind = .fat32) (inside : last < l.tableSectors) :
    Marked l last (runTable (zeroVolume l) [.set (last * perSector l.kind) 1]) := by
  have mounted := zeroVolume_mounted accepted
  have good : (zeroVolume l).disk.Faultless := Disk.image_faultless _ _
  have entry : last * perSector l.kind < (zeroVolume l).vol.maxCluster := perSector_inRange kind last inside
  have per : 0 < perSector l.kind := by rcases kind with kind | kind <;> simp [kind, perSector]
  have place : last * perSector l.kind / perSector (zeroVolume l).vol.kind = last :=
    Nat.mul_div_cancel last per
  obtain ⟨frame, -, same, -⟩ := fatCacheLoad_spec (s := zeroVolume l) accepted mounted.coherent
    (fun dirty => absurd (mounted.cdirty.symm.trans dirty) (by decide)) inside
  have raw (c : Nat) (low : c < l.maxCluster) : (fatCacheLoad last (zeroVolume l)).2.rawFat c = 0 :=
    (sameMap_of_sameTable kind frame.layout same c low).trans (zeroVolume_raw l c)
  obtain ⟨-, layout, good', held⟩ := fatCacheLoad_held good last
  obtain ⟨⟨b, run⟩, here, others⟩ := fatSet_loaded good kind entry 1
  rw [place] at run here others
  change Marked l last (fatSet _ 1 (zeroVolume l))
  refine ⟨by rw [run]; exact layout, by rw [run]; exact good', by rw [run]; rfl,
    by rw [run]; exact held, fun c low => ?_⟩
  split
  next same =>
    rw [same, here, raw _ entry]
    rcases kind with kind | kind <;> simp [zeroVolume, fresh, kind, storeRaw]
  next other => rw [others c low other, raw c low]

/-- Freeing cluster 2 flushes the dirty sector, whose mirror is the first sector. -/
theorem Marked.overwrites {l : Layout} {last : Nat} {s : VolState Disk} (marked : Marked l last s)
    (kind : l.kind = .fat16 ∨ l.kind = .fat32) (some : 0 < last) (inside : last < l.tableSectors)
    (wrap : l.fatSectors + last = 2 ^ 32) : (freeChain 2 s).rawFat 0 = 1 := by
  obtain ⟨rfl, good, dirty, rfl, raw⟩ := marked
  have mod := s.vol.toLayout.tableSectors_mod
  have per : 128 ≤ perSector s.vol.kind := by
    rcases kind with kind | kind <;> simp [kind, perSector]
  have whole (c : Nat) (low : c < perSector s.vol.kind) := perSector_inside kind inside low
  have two : 2 < s.vol.maxCluster := by
    have := whole 2 (by omega)
    omega
  have first : 2 / perSector s.vol.kind = 0 := Nat.div_eq_of_lt (by omega)
  have place : u32 (s.vol.fatLba + s.vol.fatSectors + s.vol.fatCsec) = u32 (s.vol.fatLba + 0) := by
    simp only [u32]
    omega
  have copied := wrapped_load good dirty (tableSectors_lt_none inside).ne (by omega) place
  obtain ⟨-, layout, good', held⟩ := fatCacheLoad_held good 0
  have got := fatGet_loaded good kind two
  rw [first] at got
  generalize (fatCacheLoad 0 s).2 = t at copied layout good' held got
  have moved (c : Nat) (low : c < perSector s.vol.kind) :
      t.rawFat c = s.rawFat (s.vol.fatCsec * perSector s.vol.kind + c) :=
    rawFat_moved kind layout held (by omega) copied low
  have zero : t.fatMap 2 = 0 := by
    rw [VolState.fatMap, moved 2 (by omega), raw _ (whole 2 (by omega)), if_neg (by omega), Nat.zero_mod]
  have one : t.rawFat 0 = 1 := by
    rw [moved 0 (by omega), raw _ (whole 0 (by omega)), if_pos (Nat.add_zero _)]
  have stay : fatCacheLoad 0 t = (0, t) := if_pos held
  obtain ⟨-, -, others⟩ := fatSet_loaded (c := 2) good' (by rw [layout]; exact kind)
    (by rw [layout]; exact two) 0
  rw [layout, first, stay] at others
  obtain ⟨n, fuel⟩ : ∃ n, s.vol.fatEof = n + 1 := ⟨s.vol.fatEof - 1, by have := s.vol.fatEof_pos; omega⟩
  have on : 2 ≤ 2 ∧ 2 < s.vol.fatEof := by
    refine ⟨Nat.le_refl 2, ?_⟩
    rcases kind with kind | kind <;> simp [Layout.fatEof, kind]
  rw [freeChain, fuel, freeFrom_round n on, got, zero, freeFrom_stop n (by omega),
    others 0 (Nat.zero_lt_of_lt two) (by decide), one]

/-- The first sector of the table is overwritten while cluster 2 is freed. -/
theorem not_frees_chains_of_wrap {l : Layout} (accepted : l.Accepted) (overlap : ¬ l.Separate) :
    ¬ l.FreesChains := by
  intro frees
  have size := accepted.header.fat_lt
  have mod := l.tableSectors_mod
  simp only [Layout.Separate] at overlap
  have kind : l.kind = .fat16 ∨ l.kind = .fat32 :=
    accepted.kind_cases.resolve_left fun kind => by
      have := accepted.image kind
      omega
  obtain ⟨last, wrap⟩ : ∃ last, l.fatSectors + last = 2 ^ 32 := ⟨2 ^ 32 - l.fatSectors, by omega⟩
  have inside : last < l.tableSectors := by omega
  have marked := marked_run accepted kind inside
  have entry := perSector_inRange kind last inside
  have per : 128 ≤ perSector l.kind := by
    rcases kind with kind | kind <;> simp [kind, perSector]
  have above : perSector l.kind ≤ last * perSector l.kind := Nat.le_mul_of_pos_left _ (by omega)
  have calls : ∀ call ∈ [TableCall.set (last * perSector l.kind) 1], call.InRange l.maxCluster :=
    fun call member => List.mem_singleton.mp member ▸ entry
  generalize sets : [TableCall.set (last * perSector l.kind) 1] = run at marked calls
  have small (c : Nat) (low : c < l.maxCluster) : (runTable (zeroVolume l) run).fatMap c ≤ 1 := by
    refine (Nat.mod_le _ _).trans ?_
    rw [marked.raw c low]
    split <;> omega
  have exactly := frees _ (zeroVolume_mounted accepted) rfl (Disk.image_faultless _ _) run calls
    (fun c low => .inl ((small c low).trans_lt (by omega))) 2 (by omega)
  have apart : ¬ l.Visits (runTable (zeroVolume l) run).fatMap 2 0 := fun visits => by
    have rest := ((trail_iff l.not_on_zero).mp visits).2.resolve_left (by decide)
    have := small 2 (by omega)
    have := rest.first.1
    omega
  have kept := exactly.kept 0 (by rw [marked.layout]; omega) (by rw [marked.layout]; exact apart)
  rw [marked.overwrites kind (by omega) inside wrap, marked.raw 0 (by omega), if_neg (by omega)] at kept
  cases kept

/-- free_chain works on every table of a disk that mounts exactly when the second
copy stays clear of the first one; a FAT12 table must fit `fat[]`. -/
theorem mounted_frees_chains_iff {id : Nat} {disk : Disk} {vol : FatVolume} {m : VolState Disk}
    (run : mountVolume id (.fresh disk vol) = (0, m)) : m.fault = false ∧ m.vol.toLayout.FreesChains ↔
      (m.vol.kind = .fat12 → m.vol.fatSectors ≤ 16) ∧ m.vol.Separate := by
  rw [← mountVolume_clean run]
  refine and_congr_right fun clean => ?_
  have accepted := (mountVolume_mounted run clean).1.layout
  exact ⟨fun frees => by_contra fun overlap => not_frees_chains_of_wrap accepted overlap frees,
    frees_chains_of_separate⟩

theorem floppy_frees_chains : (mountVolume 0 (.fresh floppy .zero)).2.vol.toLayout.FreesChains :=
  ((mounted_frees_chains_iff (mountVolume_run (by decide))).2 ⟨by decide, by decide⟩).2

theorem wrapped_frees_more : (mountVolume 0 (.fresh wrapped .zero)).1 = 0 ∧
    (mountVolume 0 (.fresh wrapped .zero)).2.fault = false ∧
      ¬ (mountVolume 0 (.fresh wrapped .zero)).2.vol.toLayout.FreesChains := by
  have accepted : (mountVolume 0 (.fresh wrapped .zero)).1 = 0 := by decide
  have clean := (mountVolume_clean (mountVolume_run accepted)).2 (by decide)
  have mounted := (mountVolume_mounted (mountVolume_run accepted) clean).1
  exact ⟨accepted, clean, not_frees_chains_of_wrap mounted.layout (by decide)⟩

end Zenbite.Fat
