import Zenbite.Fat.TableWrap

/-! Where flushing the table writes: both copies count from fat_lba, whatever
num_fats says. -/

namespace Zenbite.Fat

open Memory VolState

namespace VolState

/-- The same volume on a disk that answers otherwise from now on. -/
def answering (s : VolState Disk) (verdict : List Access → Access → Verdict) : VolState Disk :=
  { s with disk := { s.disk with verdict := verdict } }

@[simp] theorem answering_log (s : VolState Disk) (verdict : List Access → Access → Verdict) :
    (s.answering verdict).disk.log = s.disk.log := rfl

end VolState

/-- There is no entry to write, or there is a second copy and it does not wrap
around to a sector before the FAT. -/
def Layout.FlushFits (l : Layout) : Prop :=
  l.maxCluster = 0 ∨
    2 ≤ l.numFats ∧ (l.fatLba = 0 ∨ l.fatLba + l.fatSectors + l.tableSectors ≤ 2 ^ 32)

instance (l : Layout) : Decidable l.FlushFits := inferInstanceAs (Decidable (_ ∨ _ ∧ (_ ∨ _)))

section Frames
variable {s : VolState Disk}

/-- The sector of an in-range entry. -/
theorem fatGet_frame (accepted : s.vol.toLayout.Accepted) (cached : s.CacheBound) {c : Nat}
    (bound : c < s.vol.maxCluster) : TableFrame s (fatGet c s).2 ∧ (fatGet c s).2.CacheBound := by
  rcases accepted.kind_cases with kind | kind | kind <;> simp only [fatGet, kind]
  · obtain ⟨-, -, fits⟩ := Layout.entry12 kind (accepted.image kind) bound
    rw [useBuffer_fits s fits]
    exact ⟨.refl s, cached⟩
  · obtain ⟨wrap, sec, -⟩ := Layout.entry16 kind bound
    rw [wrap]
    obtain ⟨frame, kept, -⟩ := fatCacheLoad_frame cached sec
    split <;> exact ⟨frame, kept⟩
  · obtain ⟨wrap, sec, -⟩ := Layout.entry32 kind bound
    rw [wrap]
    obtain ⟨frame, kept, -⟩ := fatCacheLoad_frame cached sec
    split <;> exact ⟨frame, kept⟩

theorem cacheWrite_frame (cached : s.CacheBound) {sec : Nat} (bound : sec < s.vol.tableSectors)
    (ok : ¬ (fatCacheLoad sec s).1 < 0) (buf : Buffer) :
    TableFrame s ((fatCacheLoad sec s).2.modVol (·.cacheWrite buf)) ∧
      ((fatCacheLoad sec s).2.modVol (·.cacheWrite buf)).CacheBound := by
  obtain ⟨frame, -, held⟩ := fatCacheLoad_frame cached bound
  refine ⟨frame.trans (frame_cacheWrite _ buf), .inr ?_⟩
  change (fatCacheLoad sec s).2.vol.fatCsec < (fatCacheLoad sec s).2.vol.tableSectors
  rw [held ok, frame.layout]
  exact bound

theorem fatSet_frame (accepted : s.vol.toLayout.Accepted) (cached : s.CacheBound) {c : Nat}
    (bound : c < s.vol.maxCluster) (x : Nat) :
    TableFrame s (fatSet c x s) ∧ (fatSet c x s).CacheBound := by
  rcases accepted.kind_cases with kind | kind | kind <;> simp only [fatSet, kind]
  · obtain ⟨-, -, fits⟩ := Layout.entry12 kind (accepted.image kind) bound
    rw [useBuffer_fits s fits]
    exact ⟨frame_mod s _ rfl rfl rfl rfl rfl rfl rfl, cached⟩
  · obtain ⟨wrap, sec, -⟩ := Layout.entry16 kind bound
    rw [wrap]
    obtain ⟨frame, kept, -⟩ := fatCacheLoad_frame cached sec
    split
    · exact ⟨frame, kept⟩
    next ok => exact cacheWrite_frame cached sec ok _
  · obtain ⟨wrap, sec, -⟩ := Layout.entry32 kind bound
    rw [wrap]
    obtain ⟨frame, kept, -⟩ := fatCacheLoad_frame cached sec
    split
    · exact ⟨frame, kept⟩
    next ok => exact cacheWrite_frame cached sec ok _

theorem flushFat_frame (accepted : s.vol.toLayout.Accepted) (cached : s.CacheBound) :
    TableFrame s (flushFat s).2 ∧ (flushFat s).2.CacheBound := by
  by_cases kind : s.vol.kind = .fat12
  · simp only [flushFat, kind]
    split
    · exact ⟨.refl s, cached⟩
    have first := frame_image (.inl rfl) accepted kind s.vol.fat
    split
    · exact ⟨first, cached⟩
    · have second := frame_image (s := (s.diskWrite s.vol.fatLba s.vol.fatSectors s.vol.fat).2)
        (.inr rfl) accepted kind s.vol.fat
      have last : TableFrame _ (((s.diskWrite s.vol.fatLba s.vol.fatSectors s.vol.fat).2.diskWrite
          (u32 (s.vol.fatLba + s.vol.fatSectors)) s.vol.fatSectors s.vol.fat).2.modVol
            (·.imageClean)) := frame_mod _ _ rfl rfl rfl rfl rfl rfl rfl
      exact ⟨(first.trans second).trans last, cached⟩
  · rw [flushFat_cached (accepted.kind_cases.resolve_left kind)]
    exact ⟨fatCacheFlush_frame cached, fatCacheFlush_bound cached⟩

end Frames

/-- A run of table calls touches table sectors only, on a wrapped copy as well. -/
theorem run_frame {m : VolState Disk} (accepted : m.vol.toLayout.Accepted) {calls : List TableCall} :
    ∀ {s : VolState Disk}, TableFrame m s → s.CacheBound →
      (∀ call ∈ calls, call.InRange m.vol.maxCluster) →
      TableFrame m (runTable s calls) ∧ (runTable s calls).CacheBound := by
  induction calls with
  | nil => exact fun frame cached _ => ⟨frame, cached⟩
  | cons call calls ih =>
      intro s frame cached range
      have inside := range call List.mem_cons_self
      have accepted' : s.vol.toLayout.Accepted := by rw [frame.layout]; exact accepted
      have step : TableFrame s (call.run s) ∧ (call.run s).CacheBound := by
        have max : s.vol.maxCluster = m.vol.maxCluster := by rw [frame.layout]
        rw [← max] at inside
        cases call with
        | get c => exact fatGet_frame accepted' cached inside
        | set c x => exact fatSet_frame accepted' cached inside x
        | flush => exact flushFat_frame accepted' cached
      exact ih (frame.trans step.1) step.2 fun c member => range c (List.mem_cons_of_mem _ member)

section Area
variable {m : VolState Disk}

end Area

end Zenbite.Fat
