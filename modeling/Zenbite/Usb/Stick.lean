import Zenbite.Usb.Storage

/-! A stick that keeps to the transport, and gives nothing to a host that asks for another
number of bytes than its wrapper says. A driver whose reads are right on it has to ask well. -/

namespace Zenbite.Usb

open Memory Spans

/-- The last wrapper, and whether its data are still to come. -/
structure Stick where
  wrapper : List UInt8
  dataNext : Bool

namespace Medium

variable {τ : Type} (M : Medium)

/-- The data phase of a READ(10). -/
def data (cmd : Read10) (asked : Nat) : Nat → Option UInt8 := fun k =>
  if asked = cmd.length ∧ cmd.length = M.blockSize * cmd.blocks ∧ k < cmd.length then
    some (M.byte (M.blockSize * cmd.lba + k))
  else none

/-- The status of a wrapper: the signature, the tag, no residue, and a failure for blocks that
are not there. -/
def status (wrapper : List UInt8) : Nat → Option UInt8 := fun k =>
  let missing := (asRead10 wrapper).any fun cmd => M.blocks < cmd.lba + cmd.blocks
  if k < 13 then
    some (if k < 4 then [0x55, 0x53, 0x42, 0x53].getD k 0 else if k < 8 then wrapper.getD k 0
      else if k = 12 ∧ missing then 1 else 0)
  else none

def stick (spans : τ → List Span) : Bus Stick τ where
  send _ _ bytes := (true, ⟨bytes, (asRead10 bytes).any fun cmd => cmd.length ≠ 0⟩)
  receive s asked :=
    if s.dataNext then
      ((asRead10 s.wrapper).elim (fun _ => none) fun cmd => M.data cmd (total (asked.flatMap spans)), true,
        { s with dataNext := false })
    else (M.status s.wrapper, true, s)

variable {M} {spans : τ → List Span}

theorem receive_data {s : Stick} {asked : List τ} {cmd : Read10} (next : s.dataNext = true)
    (read : asRead10 s.wrapper = some cmd) : (M.stick spans).receive s asked =
      (M.data cmd (total (asked.flatMap spans)), true, { s with dataNext := false }) := by
  rw [stick]
  dsimp only
  rw [if_pos next, read, Option.elim_some]

theorem receive_status {s : Stick} {asked : List τ} (next : s.dataNext = false) :
    (M.stick spans).receive s asked = (M.status s.wrapper, true, s) :=
  if_neg (by rw [next]; exact Bool.false_ne_true)

theorem status_good {wrapper : List UInt8} {cmd : Read10} (read : asRead10 wrapper = some cmd) :
    M.status wrapper 12 = some 0 ↔ cmd.lba + cmd.blocks ≤ M.blocks := by
  rw [status, read, Option.any_some, if_pos (by decide), if_neg (by decide), if_neg (by decide), Option.some.injEq]
  split_ifs with missing
  · have behind := of_decide_eq_true missing.2
    exact iff_of_false (by decide) (Nat.not_le.mpr behind)
  · have inside : ¬ M.blocks < cmd.lba + cmd.blocks := fun behind => missing ⟨rfl, decide_eq_true behind⟩
    exact iff_of_true rfl (Nat.not_lt.mp inside)

theorem stick_conforms : (M.stick spans).Conforms spans M := by
  intro s₀ s₁ s₂ s₃ out asked status wrapper cmd bytes statusBytes read sent blocks whole came statusAsked answered
  have start : s₁ = ⟨wrapper, decide (cmd.length ≠ 0)⟩ := by
    have state := (Prod.mk.inj sent).2
    rw [← state, read, Option.any_some]
  subst start
  have phases : (∀ k < cmd.length, bytes k = some (M.byte (M.blockSize * cmd.lba + k))) ∧ s₂ = ⟨wrapper, false⟩ := by
    by_cases empty : cmd.length = 0
    · rw [receive_status (decide_eq_false (not_not.mpr empty))] at came
      have state := (Prod.mk.inj (Prod.mk.inj came).2).2
      rw [← state, decide_eq_false (not_not.mpr empty)]
      exact ⟨fun k small => absurd small (by omega), rfl⟩
    · rw [receive_data (decide_eq_true empty) read] at came
      have sentBytes := (Prod.mk.inj came).1
      have state := (Prod.mk.inj (Prod.mk.inj came).2).2
      rw [← state, ← sentBytes]
      exact ⟨fun k small => if_pos ⟨whole, blocks, small⟩, rfl⟩
  rw [phases.2, receive_status rfl] at answered
  have said := (Prod.mk.inj answered).1
  rw [← said]
  exact ⟨fun k small => ⟨_, if_pos small⟩, fun good => ⟨(status_good read).mp good, phases.1⟩⟩

end Medium

section Stick

variable {δ τ : Type} {D : Driver δ τ} {L : Layout} {good : δ → Prop} {bs lba n buf x : Nat} {M : Medium} {h : Host δ Stick}

theorem stick_data {wrapper : List UInt8} {cmd : Read10} (steady : Steady D good bs) (fine : good h.dev)
    (read : asRead10 wrapper = some cmd) (state : h.bus = ⟨wrapper, decide (cmd.length ≠ 0)⟩) (pos : 0 < buf)
    (zero : h.mem x = 0) (miss : total (D.spansOf h.dev true buf cmd.length) = cmd.length →
      cmd.length = M.blockSize * cmd.blocks → ∀ k < cmd.length, M.byte (M.blockSize * cmd.lba + k) = 0) :
    (dataPhase D (M.stick D.spans) buf cmd.length true h).1 = true ∧
      (dataPhase D (M.stick D.spans) buf cmd.length true h).2.bus = ⟨wrapper, false⟩ ∧
      good (dataPhase D (M.stick D.spans) buf cmd.length true h).2.dev ∧
      (dataPhase D (M.stick D.spans) buf cmd.length true h).2.mem x = 0 := by
  by_cases empty : cmd.length = 0
  · have skipped : dataPhase D (M.stick D.spans) buf cmd.length true h = (true, h) := if_neg fun both => both.1 empty
    rw [skipped, state, decide_eq_false (not_not.mpr empty)]
    exact ⟨rfl, rfl, fine, zero⟩
  · have taken : dataPhase D (M.stick D.spans) buf cmd.length true h = bulk D (M.stick D.spans) true buf cmd.length h :=
      if_pos ⟨empty, Nat.ne_of_gt pos⟩
    have answer : (M.stick D.spans).receive h.bus (D.plan h.dev true buf cmd.length).1 =
        (M.data cmd (total (D.spansOf h.dev true buf cmd.length)), true, { h.bus with dataNext := false }) := by
      apply Medium.receive_data
      · rw [state]
        exact decide_eq_true empty
      · rw [state]
        exact read
    have stored : fill (D.spansOf h.dev true buf cmd.length) (M.data cmd (total (D.spansOf h.dev true buf cmd.length)))
        h.mem x = 0 := by
      rcases @fill_from _ x _ (M.data cmd (total (D.spansOf h.dev true buf cmd.length))) h.mem with same | ⟨k, byte⟩
      · exact same.trans zero
      · rw [Medium.data] at byte
        split_ifs at byte with whole
        exact (Option.some.inj byte).symm.trans (miss whole.1 whole.2.1 k whole.2.2)
    rw [taken, bulk_receive, answer, state]
    exact ⟨rfl, rfl, steady.keeps _ _ _ _ fine, stored⟩

theorem stick_status {wrapper : List UInt8} {cmd : Read10} (steady : Steady D good bs) (fine : good h.dev)
    (state : h.bus = ⟨wrapper, false⟩) (read : asRead10 wrapper = some cmd) (within : cmd.lba + cmd.blocks ≤ M.blocks) :
    (bulk D (M.stick D.spans) true L.cswAt 13 h).1 = true ∧
      passed L (bulk D (M.stick D.spans) true L.cswAt 13 h).2.mem = true := by
  have answer : (M.stick D.spans).receive h.bus (D.plan h.dev true L.cswAt 13).1 = (M.status h.bus.wrapper, true, h.bus) :=
    Medium.receive_status (by rw [state])
  have covers := steady.envelope h.dev true L.cswAt 13 fine (by decide)
  have byte : ∀ k v, k < 13 → M.status wrapper k = some v →
      (bulk D (M.stick D.spans) true L.cswAt 13 h).2.mem (L.cswAt + k) = v := by
    intro k v small said
    rw [bulk_receive, answer]
    dsimp only
    rw [covers.fill_inside L.csw_fits small, state, said, Option.getD_some]
  rw [bulk_receive, answer] at byte ⊢
  apply And.intro rfl
  apply decide_eq_true
  exact ⟨byte 0 _ (by decide) rfl, byte 1 _ (by decide) rfl, byte 2 _ (by decide) rfl, byte 3 _ (by decide) rfl,
    byte 12 _ (by decide) ((Medium.status_good read).mpr within)⟩

/-- The stick passes every request for blocks that are there, and where the data are not what
is asked for, or zero, a zero in memory stays one. -/
theorem stick_read10 (steady : Steady D good bs) (fine : good h.dev) (size : M.blockSize = bs) (word : lba < 2 ^ 32)
    (small : n < 2 ^ 16) (pos : 0 < buf) (within : lba + n ≤ M.blocks) (other : ¬ L.Static x) (zero : h.mem x = 0)
    (miss : ∀ d, good d → total (D.spansOf d true buf (bs * n)) = bs * n → ∀ k < bs * n, M.byte (bs * lba + k) = 0) :
    (scsiRead10 D L (M.stick D.spans) lba n buf h).1 = true ∧ good (scsiRead10 D L (M.stick D.spans) lba n buf h).2.dev ∧
      (scsiRead10 D L (M.stick D.spans) lba n buf h).2.mem x = 0 := by
  have length : u32 (n * D.blockSize h.dev) = u32 (bs * n) := by
    rw [steady.size h.dev fine, Nat.mul_comm]
  rw [scsiRead10, length, bbbRequest]
  have bound : u32 (bs * n) < 2 ^ 32 := u32_lt _
  generalize u32 (bs * n) = len at *
  have read := asRead10_cbw h.tag word small bound
  have wrapper := @wrapper_sent δ τ _ D L good bs h len true steady fine _ (cbw_length h.tag len true lba n)
  have state : (bulk D (M.stick D.spans) false L.cbwAt 31 (wrap L (read10 lba n) len true h)).2.bus =
      ⟨cbw h.tag len true (read10 lba n), decide (len ≠ 0)⟩ := by
    have sent : (bulk D (M.stick D.spans) false L.cbwAt 31 (wrap L (read10 lba n) len true h)).2.bus =
        ⟨gather (D.spansOf h.dev false L.cbwAt 31) (wrap L (read10 lba n) len true h).mem,
          (asRead10 (gather (D.spansOf h.dev false L.cbwAt 31) (wrap L (read10 lba n) len true h).mem)).any
            fun cmd => cmd.length ≠ 0⟩ := rfl
    rw [sent, wrapper, read, Option.any_some]
  have fine₁ : good (bulk D (M.stick D.spans) false L.cbwAt 31 (wrap L (read10 lba n) len true h)).2.dev := steady.bulk fine
  have zero₁ : (bulk D (M.stick D.spans) false L.cbwAt 31 (wrap L (read10 lba n) len true h)).2.mem x = 0 :=
    (wrap_outside (cbw_length h.tag len true lba n) other).trans zero
  have passes : (bulk D (M.stick D.spans) false L.cbwAt 31 (wrap L (read10 lba n) len true h)).1 = true := rfl
  rw [andThen_of_true passes]
  generalize bulk D (M.stick D.spans) false L.cbwAt 31 (wrap L (read10 lba n) len true h) = sent at *
  have missed : total (D.spansOf sent.2.dev true buf len) = len → len = M.blockSize * n →
      ∀ k < len, M.byte (M.blockSize * lba + k) = 0 := by
    intro asked blocks k below
    subst size
    rw [blocks] at asked below
    exact miss _ fine₁ asked k below
  have data := stick_data steady fine₁ read state pos zero₁ missed
  rw [andThen_of_true data.1]
  have status := stick_status (L := L) steady data.2.2.1 data.2.1 read within
  rw [andThen_of_true status.1]
  exact ⟨status.2, steady.bulk data.2.2.1, (status_outside steady data.2.2.1 other).trans data.2.2.2⟩

theorem stick_step {count : Nat} (steady : Steady D good bs) (fine : good h.dev) (size : M.blockSize = bs) (some' : count ≠ 0)
    (pos : 0 < buf) (within : lba + count ≤ M.blocks) (other : ¬ L.Static x) (zero : h.mem x = 0)
    (miss : ∀ d, good d → total (D.spansOf d true buf (bs * D.chunk count)) = bs * D.chunk count →
      ∀ k < bs * D.chunk count, M.byte (bs * lba + k) = 0)
    (rest : ∀ h : Host δ Stick, good h.dev → h.mem x = 0 →
      (diskRead D L (M.stick D.spans) (lba + D.chunk count) (count - D.chunk count) (u32 (buf + 512 * D.chunk count)) h).1 = true ∧
      (diskRead D L (M.stick D.spans) (lba + D.chunk count) (count - D.chunk count) (u32 (buf + 512 * D.chunk count)) h).2.mem x =
        0) :
    (diskRead D L (M.stick D.spans) lba count buf h).1 = true ∧
      (diskRead D L (M.stick D.spans) lba count buf h).2.mem x = 0 := by
  have bound := (D.chunk_le count).1
  have short : D.chunk count < 2 ^ 16 := (D.chunk_le count).2.trans_lt D.sectors_word
  have blocks := M.small
  rw [diskRead_step some']
  generalize D.chunk count = n at *
  have sector : u32 (lba + n) = lba + n := u32_of_lt (by omega)
  have first := stick_read10 steady fine size (by omega) short pos (by omega) other zero miss
  rw [andThen_of_true first.1, sector]
  exact rest _ first.2.1 first.2.2

theorem stick_diskRead {count : Nat} (steady : Steady D good bs) (fine : good h.dev) (size : M.blockSize = bs)
    (pos : count ≠ 0 → 0 < buf) (fits : buf + 512 * count ≤ 2 ^ 32) (within : lba + count ≤ M.blocks) (other : ¬ L.Static x)
    (zero : h.mem x = 0) (miss : ∀ k < bs * count, M.byte (bs * lba + k) = 0) :
    (diskRead D L (M.stick D.spans) lba count buf h).1 = true ∧
      (diskRead D L (M.stick D.spans) lba count buf h).2.mem x = 0 := by
  induction count using Nat.strong_induction_on generalizing lba buf h with
  | _ count ih =>
      by_cases none : count = 0
      · subst none
        rw [diskRead_zero]
        exact ⟨rfl, zero⟩
      · have bound := (D.chunk_le count).1
        have more := D.chunk_pos none
        apply stick_step steady fine size none (pos none) within other zero
        · intro d _ _ k below
          exact miss k (below.trans_le (Nat.mul_le_mul_left bs bound))
        · intro h fine zero
          generalize D.chunk count = n at *
          have parts : bs * count = bs * n + bs * (count - n) := by
            rw [← Nat.mul_add, Nat.add_sub_of_le bound]
          have last : u32 (buf + 512 * n) < 2 ^ 32 := u32_lt _
          have place : count - n ≠ 0 → u32 (buf + 512 * n) = buf + 512 * n := fun some' => u32_of_lt (by omega)
          apply ih (count - n) (by omega) fine (fun some' => by rw [place some']; omega) _ (by omega) zero
          · intro k below
            rw [Nat.mul_add, Nat.add_assoc]
            exact miss _ (by omega)
          · by_cases some' : count - n = 0
            · omega
            · rw [place some']
              omega

/-- Where the one of the stick is not: in blocks of another size from the same number on. -/
private theorem elsewhere {bs count k : Nat} (some' : 0 < count) (other : bs ≠ 512) (below : k < bs * count) :
    bs * (511 * count) + k ≠ 512 * (511 * count) := by
  rcases Nat.lt_or_gt_of_ne other with less | more
  · have whole : bs * (511 * count) + bs * count = 512 * (bs * count) := by ring
    have bound : bs * count ≤ 511 * count := Nat.mul_le_mul_right count (Nat.le_of_lt_succ less)
    omega
  · have bound : 513 * (511 * count) ≤ bs * (511 * count) := Nat.mul_le_mul_right _ more
    omega

/-- A medium with a one where sector `511 * count` begins. -/
def marked (bs count : Nat) (small : 512 * count < 2 ^ 32) : Medium :=
  ⟨bs, 512 * count, fun a => if a = 512 * (511 * count) then 1 else 0, small⟩

/-- Blocks of another size, or a first data phase that is not whole: the read begins at the one,
and the buffer keeps a zero. -/
theorem not_readsRight {d : δ} {count : Nat} {target : Target L count} (steady : Steady D good bs) (fine : good d)
    (some' : count ≠ 0) (wrong : bs ≠ 512 ∨
      ∀ d, good d → total (D.spansOf d true target.buf (512 * D.chunk count)) ≠ 512 * D.chunk count) :
    ¬ ReadsRight D L d target := by
  intro right
  have fits := target.fits
  have pos := target.pos
  have more := D.chunk_pos some'
  have bound := (D.chunk_le count).1
  have small : 512 * count < 2 ^ 32 := by omega
  have other : ¬ L.Static target.buf := target.apart 0 (by omega)
  have blank : ∀ a, a ≠ 512 * (511 * count) → (marked bs count small).byte a = 0 := fun a differs => if_neg differs
  have one : (marked bs count small).byte (512 * (511 * count) + 0) = 1 := if_pos rfl
  have ran : (diskRead D L ((marked bs count small).stick D.spans) (511 * count) count target.buf
      ⟨fun _ => 0, 0, d, ⟨[], false⟩⟩).1 = true ∧
      (diskRead D L ((marked bs count small).stick D.spans) (511 * count) count target.buf
        ⟨fun _ => 0, 0, d, ⟨[], false⟩⟩).2.mem target.buf = 0 := by
    have blocks : (marked bs count small).blocks = 512 * count := rfl
    apply stick_step steady fine rfl some' pos (by omega) other rfl
    · intro d fine whole k below
      apply blank
      by_cases same : bs = 512
      · subst same
        exact absurd whole (wrong.resolve_left (fun differs => differs rfl) d fine)
      · exact elsewhere (by omega) same (below.trans_le (Nat.mul_le_mul_left bs bound))
    · intro h fine zero
      generalize D.chunk count = n at *
      have last : u32 (target.buf + 512 * n) < 2 ^ 32 := u32_lt _
      have place : count - n ≠ 0 → u32 (target.buf + 512 * n) = target.buf + 512 * n := fun left => u32_of_lt (by omega)
      have inside : u32 (target.buf + 512 * n) + 512 * (count - n) ≤ 2 ^ 32 := by
        by_cases left : count - n = 0
        · omega
        · rw [place left]
          omega
      apply stick_diskRead steady fine rfl (fun left => by rw [place left]; omega) inside (by omega) other zero
      intro k below
      apply blank
      have parts : bs * (511 * count + n) = bs * (511 * count) + bs * n := Nat.mul_add _ _ _
      have rest : bs * count = bs * n + bs * (count - n) := by
        rw [← Nat.mul_add, Nat.add_sub_of_le bound]
      rw [parts, Nat.add_assoc]
      by_cases same : bs = 512
      · subst same
        omega
      · exact elsewhere (by omega) same (by omega)
  have start : (UInt32.ofNat (511 * count)).toNat = 511 * count := UInt32.toNat_ofNat_of_lt' (small.trans_le' (by omega))
  have rights := right Stick ((marked bs count small).stick D.spans) (marked bs count small) (fun _ => 0) 0
    (UInt32.ofNat (511 * count)) ⟨[], false⟩ (steady.size d fine).symm Medium.stick_conforms
  rw [start] at rights
  have first := rights.bytes ran.1 0 (by omega)
  rw [one, Nat.add_zero, ran.2] at first
  exact absurd first (by decide)

end Stick

end Zenbite.Usb
