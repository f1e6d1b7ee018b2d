import Zenbite.Usb.Qtd

/-! Bulk transfers of any length over EHCI (ehci.c): how ehci_bulk_transfer cuts the buffer into
descriptors. -/

namespace Zenbite.Usb

open Memory

/-- The toggle bit of the token. -/
def Qtd.toggle (q : Qtd) : Bool := q.token.testBit 31

/-- The toggle behind `n` packets. -/
def toggled (tog : Bool) (n : Nat) : Bool := tog ^^ decide (n % 2 = 1)

/-- The packets of `len` bytes. -/
def packetCount (maxp len : Nat) : Nat := (len + maxp - 1) / maxp

/-- The five pointers: the first byte, then the pages behind it that the bytes lie on, then zeros. -/
structure NamesPages (bufs : List Nat) (phys len : Nat) : Prop where
  count : bufs.length = 5
  start : bufs[0]? = some phys
  page : ∀ i < len, ∃ a, bufs[(phys % 0x1000 + i) / 0x1000]? = some a ∧ a / 0x1000 = u32 (phys + i) / 0x1000
  aligned : ∀ k, 0 < k → ∀ a, bufs[k]? = some a → a % 0x1000 = 0
  unused : ∀ k, (phys % 0x1000 + len - 1) / 0x1000 < k → k < 5 → bufs[k]? = some 0

/-- The descriptors from place `n` and byte `off` on tile the rest of the buffer: each is linked to
the next, names the pages of its bytes and has the toggle of its first packet, and all but the
last are of whole packets. -/
def Tiles (maxp data len : Nat) (tog : Bool) : Nat → Nat → List Qtd → Prop
  | _, off, [] => off = len
  | n, off, q :: rest =>
    0 < q.length ∧ off + q.length ≤ len ∧ NamesPages q.bufs (u32 (data + off)) q.length ∧
      q.toggle = toggled tog (off / maxp) ∧ maxp ∣ off ∧ (rest ≠ [] → maxp ∣ q.length) ∧
      q.next = (if rest = [] then none else some (n + 1)) ∧ Tiles maxp data len tog (n + 1) (off + q.length) rest

/-- Where the next descriptor starts. -/
def nextOff (maxp data len off : Nat) : Nat := u32 (off + qtdChunk maxp (u32 (data + off)) len off)

/-- The pool has enough descriptors for all bytes. -/
def FitsPool (maxp data len : Nat) : Prop := len ≤ (nextOff maxp data len)^[ehciMaxQtds] 0

/-! One descriptor -/

theorem nextPages_length (slots : Nat) : ∀ page left, (nextPages slots page left).length = slots := by
  induction slots with
  | zero => exact fun _ _ => rfl
  | succ slots ih => exact fun page left => congrArg (· + 1) (ih _ _)

theorem nextPages_get (slots : Nat) : ∀ {page left k : Nat}, k < slots → (nextPages slots page left)[k]? =
    some (if 0x1000 * k < left then u32 (page + 0x1000 * (k + 1)) else 0) := by
  induction slots with
  | zero => exact fun below => absurd below (Nat.not_lt_zero _)
  | succ slots ih =>
      intro page left k below
      cases k with
      | zero => rfl
      | succ k =>
          have again : u32 (u32 (page + 0x1000) + 0x1000 * (k + 1)) = u32 (page + 0x1000 * (k + 1 + 1)) := by
            rw [u32, u32, u32, Nat.mod_add_mod, Nat.add_assoc, Nat.mul_succ 0x1000 (k + 1), Nat.add_comm 0x1000]
          have reached : 0x1000 * k < left - 0x1000 ↔ 0x1000 * (k + 1) < left := by
            rw [Nat.mul_succ, Nat.lt_sub_iff_add_lt]
          rw [nextPages, List.getElem?_cons_succ, ih (Nat.lt_of_succ_lt_succ below), again]
          exact congrArg some (if_congr reached rfl rfl)

theorem names_pages {phys len : Nat} (word : phys < 2 ^ 32) (some' : 0 < len) (span : phys % 0x1000 + len ≤ 0x5000) :
    NamesPages (qtdFillBufs phys len) phys len := by
  have bufs : qtdFillBufs phys len = phys :: nextPages 4 (phys - phys % 0x1000) (len - (0x1000 - phys % 0x1000)) :=
    if_neg (Nat.ne_of_gt some')
  have behind {k : Nat} (below : k < 4) : (qtdFillBufs phys len)[k + 1]? =
      some (if 0x1000 * k < len - (0x1000 - phys % 0x1000) then u32 (phys - phys % 0x1000 + 0x1000 * (k + 1)) else 0) := by
    rw [bufs, List.getElem?_cons_succ, nextPages_get 4 below]
  constructor
  · rw [bufs, List.length_cons, nextPages_length]
  · rw [bufs, List.getElem?_cons_zero]
  · intro i inside
    cases place : (phys % 0x1000 + i) / 0x1000 with
    | zero =>
        refine ⟨phys, by rw [bufs, List.getElem?_cons_zero], ?_⟩
        rw [u32]
        omega
    | succ k =>
        have below : k < 4 := by omega
        have used : 0x1000 * k < len - (0x1000 - phys % 0x1000) := by omega
        refine ⟨_, behind below, ?_⟩
        rw [if_pos used, u32, u32]
        omega
  · intro k first a here
    obtain ⟨k, rfl⟩ := Nat.exists_eq_add_of_le' first
    rcases Nat.lt_or_ge k 4 with below | above
    · rw [behind below] at here
      rw [← Option.some.inj here]
      split_ifs
      · rw [u32]
        omega
      · rfl
    · rw [bufs, List.getElem?_cons_succ, List.getElem?_eq_none (by rw [nextPages_length]; exact above)] at here
      cases here
  · intro k last below
    obtain ⟨k, rfl⟩ := Nat.exists_eq_add_of_le' (Nat.zero_lt_of_lt last)
    rw [behind (Nat.lt_of_succ_lt_succ below), if_neg (by omega)]

theorem qtdMake_toggle {next : Option Nat} {dirIn tog last : Bool} {phys len : Nat} :
    (qtdMake next (qtdBase dirIn tog last) phys len).toggle = tog := by
  have base : (qtdBase dirIn tog last).testBit 31 = tog := by
    cases dirIn <;> cases tog <;> cases last <;> decide
  have short : (len % 2 ^ 15).testBit 15 = false :=
    Nat.testBit_lt_two_pow (Nat.mod_lt _ (by decide))
  rw [Qtd.toggle, qtdMake, Nat.testBit_or, base, Nat.testBit_shiftLeft, short, Bool.and_false, Bool.or_false]

/-- What a descriptor takes: no more than its pages, no more than there is, and whole
packets where more is to come. -/
structure ChunkFits (maxp phys len off chunk : Nat) : Prop where
  pos : 0 < chunk
  inside : off + chunk ≤ len
  span : phys % 0x1000 + chunk ≤ 0x5000
  whole : off + chunk < len → maxp ∣ chunk ∧ 0x3C00 ≤ chunk

section Chunk

variable {maxp phys data len off : Nat}

theorem cut_fits {span : Nat} (some' : 0 < maxp) (most : maxp ≤ 1024) (more : off < len) (page : phys % 0x1000 < 0x1000)
    (wide : phys % 0x1000 + span = 0x5000) {chunk : Nat} (here : chunk = if span < len - off then span else len - off) :
    ChunkFits maxp phys len off
      (if off + chunk < len then if chunk - chunk % maxp = 0 then maxp else chunk - chunk % maxp else chunk) := by
  by_cases long : span < len - off
  · have below := Nat.mod_lt span some'
    rw [here, if_pos long, if_pos (by omega), if_neg (by omega)]
    exact ⟨by omega, by omega, by omega, fun _ => ⟨Nat.dvd_sub_mod span, by omega⟩⟩
  · rw [here, if_neg long, if_neg (by omega)]
    exact ⟨by omega, by omega, by omega, fun before => absurd before (by omega)⟩

theorem qtdChunk_fits (some' : 0 < maxp) (most : maxp ≤ 1024) (more : off < len) :
    ChunkFits maxp phys len off (qtdChunk maxp phys len off) := by
  have page : phys % 0x1000 < 0x1000 := Nat.mod_lt _ (by decide)
  have wide : phys % 0x1000 + (0x1000 - phys % 0x1000 + 4 * 0x1000) = 0x5000 := by omega
  exact cut_fits some' most more page wide rfl

theorem qtdChunk_done : qtdChunk maxp phys len len = 0 := by
  rw [qtdChunk, Nat.sub_self, if_neg (Nat.not_lt_zero _), Nat.add_zero, if_neg (Nat.lt_irrefl _)]

end Chunk

/-! Toggles -/

theorem toggled_toggled (tog : Bool) (a b : Nat) : toggled (toggled tog a) b = toggled tog (a + b) := by
  rw [toggled, toggled, toggled, Bool.xor_assoc]
  congr 1
  rcases Nat.mod_two_eq_zero_or_one a with even | odd <;> rcases Nat.mod_two_eq_zero_or_one b with even' | odd'
  · simp [Nat.add_mod, *]
  · simp [Nat.add_mod, *]
  · simp [Nat.add_mod, *]
  · simp [Nat.add_mod, *]

theorem toggled_step (tog : Bool) (n : Nat) : (if n % 2 = 1 then !tog else tog) = toggled tog n := by
  rw [toggled]
  split_ifs with odd
  · rw [decide_eq_true odd, Bool.xor_true]
  · rw [decide_eq_false odd, Bool.xor_false]

/-- Behind whole packets the next ones are counted from there. -/
theorem packetCount_add {maxp a b : Nat} (some' : 0 < maxp) (whole : maxp ∣ a) :
    packetCount maxp (a + b) = a / maxp + packetCount maxp b := by
  obtain ⟨k, rfl⟩ := whole
  have shift : maxp * k + b + maxp - 1 = b + maxp - 1 + maxp * k := by omega
  rw [packetCount, packetCount, shift, Nat.add_mul_div_left _ _ some', Nat.mul_div_cancel_left _ some', Nat.add_comm]

theorem packetCount_whole {maxp a : Nat} (some' : 0 < maxp) (whole : maxp ∣ a) : packetCount maxp a = a / maxp := by
  have none : packetCount maxp 0 = 0 := Nat.div_eq_of_lt (by omega)
  rw [← Nat.add_zero a, packetCount_add some' whole, none]
  rfl

/-! The chain -/

section Chain

variable {dirIn tog : Bool} {maxp data len : Nat}

theorem fillQtds_done (left : Nat) (t : Bool) : fillQtds dirIn maxp data len left len t = ([], t) := by
  cases left with
  | zero => rfl
  | succ left => rw [fillQtds, if_neg (Nat.lt_irrefl len)]

/-- The chain from byte `off` on, where the toggle `t` has passed the packets before. -/
theorem fillQtds_tiles (some' : 0 < maxp) (most : maxp ≤ 1024) (small : len < 2 ^ 32) (left : Nat) :
    ∀ {n off : Nat}, n + left = ehciMaxQtds → off ≤ len → (off < len → maxp ∣ off) →
      len ≤ (nextOff maxp data len)^[left] off →
      Tiles maxp data len tog n off (fillQtds dirIn maxp data len left off (toggled tog (packetCount maxp off))).1 ∧
        (fillQtds dirIn maxp data len left off (toggled tog (packetCount maxp off))).2 =
          toggled tog (packetCount maxp len) := by
  induction left with
  | zero =>
      intro n off _ inside _ fits
      have done : off = len := Nat.le_antisymm inside fits
      rw [done]
      exact ⟨rfl, rfl⟩
  | succ left ih =>
      intro n off place inside whole fits
      rcases Nat.eq_or_lt_of_le inside with done | more
      · rw [done, fillQtds_done]
        exact ⟨rfl, rfl⟩
      · have chunk := @qtdChunk_fits maxp (u32 (data + off)) len off some' most more
        have here : nextOff maxp data len off = off + qtdChunk maxp (u32 (data + off)) len off :=
          u32_of_lt (Nat.lt_of_le_of_lt chunk.inside small)
        rw [Function.iterate_succ_apply, here] at fits
        generalize size : qtdChunk maxp (u32 (data + off)) len off = c at chunk fits here
        have word : u32 (off + c) = off + c := u32_of_lt (Nat.lt_of_le_of_lt chunk.inside small)
        have packets : u32 (c + maxp - 1) / maxp = packetCount maxp c := by
          have short := chunk.span
          rw [packetCount, u32_of_lt (by omega)]
        have passed : toggled (toggled tog (packetCount maxp off)) (packetCount maxp c) = toggled tog (packetCount maxp (off + c)) := by
          rw [toggled_toggled, packetCount_add some' (whole more), packetCount_whole some' (whole more)]
        have next : off + c < len → maxp ∣ off + c := fun before => Nat.dvd_add (whole more) (chunk.whole before).1
        obtain ⟨rest, last⟩ := @ih (n + 1) (off + c) (by omega) chunk.inside next fits
        have link : ehciMaxQtds - left = n + 1 := by omega
        rw [fillQtds, if_pos more]
        dsimp only
        rw [size, word, packets, toggled_step, passed, link]
        have span := chunk.span
        have length {next : Option Nat} {last : Bool} {t : Bool} :
            (qtdMake next (qtdBase dirIn t last) (u32 (data + off)) c).length = c :=
          (qtdMake_length next dirIn t last _ c).trans (Nat.mod_eq_of_lt (by omega))
        generalize filling : fillQtds dirIn maxp data len left (off + c) (toggled tog (packetCount maxp (off + c))) = filled at rest last ⊢
        have ends : filled.1 = [] ↔ ¬ off + c < len := by
          constructor
          · intro none before
            rw [none] at rest
            exact Nat.ne_of_lt before rest
          · intro all
            have done : off + c = len := Nat.le_antisymm chunk.inside (Nat.le_of_not_lt all)
            rw [← filling, done, fillQtds_done]
        apply And.intro _ last
        rw [Tiles, length]
        refine ⟨chunk.pos, chunk.inside, names_pages (u32_lt _) chunk.pos span, ?_, whole more, ?_, ?_, rest⟩
        · rw [qtdMake_toggle, packetCount_whole some' (whole more)]
        · exact fun nonempty => (chunk.whole (not_not.mp fun none => nonempty (ends.mpr none))).1
        · rw [qtdMake, if_congr ends rfl rfl]
          exact (ite_not _ _ _).symm

/-- ehci_bulk_transfer cuts every buffer that its pool has room for into descriptors that
tile it, and leaves the toggle behind all packets. -/
theorem bulk_chunks_tile (some' : 1 ≤ maxp) (most : maxp ≤ 1024) (fits : FitsPool maxp data len) :
    Tiles maxp data len tog 0 0 (fillQtds dirIn maxp data len ehciMaxQtds 0 tog).1 ∧
      (fillQtds dirIn maxp data len ehciMaxQtds 0 tog).2 = toggled tog (packetCount maxp len) := by
  have small : len < 2 ^ 32 := by
    rw [FitsPool, show ehciMaxQtds = 95 + 1 from rfl, Function.iterate_succ_apply'] at fits
    exact Nat.lt_of_le_of_lt fits (u32_lt _)
  have start : toggled tog (packetCount maxp 0) = tog := by
    have none : packetCount maxp 0 = 0 := Nat.div_eq_of_lt (by omega)
    rw [none]
    exact Bool.xor_false tog
  have chain := @fillQtds_tiles dirIn tog maxp data len some' most small ehciMaxQtds 0 0 (Nat.zero_add _) (Nat.zero_le len)
    (fun _ => Nat.dvd_zero maxp) fits
  rwa [start] at chain

/-- A descriptor takes at least 15 KiB unless it is the last one. -/
theorem fits_pool (some' : 0 < maxp) (most : maxp ≤ 1024) (small : len ≤ 96 * 0x3C00) : FitsPool maxp data len := by
  have reach (n : Nat) : min len (0x3C00 * n) ≤ (nextOff maxp data len)^[n] 0 ∧ (nextOff maxp data len)^[n] 0 ≤ len := by
    induction n with
    | zero => exact ⟨Nat.min_le_right _ _, Nat.zero_le _⟩
    | succ n ih =>
        rw [Function.iterate_succ_apply', Nat.mul_succ]
        generalize (nextOff maxp data len)^[n] 0 = off at ih ⊢
        generalize 0x3C00 * n = low at ih ⊢
        rcases Nat.eq_or_lt_of_le ih.2 with done | more
        · have still : nextOff maxp data len off = len := by
            rw [nextOff, done, qtdChunk_done]
            exact u32_of_lt (by omega)
          rw [still]
          exact ⟨Nat.min_le_left _ _, Nat.le_refl _⟩
        · have chunk := @qtdChunk_fits maxp (u32 (data + off)) len off some' most more
          have here : nextOff maxp data len off = off + qtdChunk maxp (u32 (data + off)) len off :=
            u32_of_lt (Nat.lt_of_le_of_lt chunk.inside (by omega))
          rw [here]
          refine ⟨?_, chunk.inside⟩
          by_cases before : off + qtdChunk maxp (u32 (data + off)) len off < len
          · have long := (chunk.whole before).2
            omega
          · omega
  have all := (reach 96).1
  rw [Nat.min_eq_left (by omega)] at all
  exact all

end Chain

/-- 40000 bytes from the middle of a page, in packets of 512. -/
theorem bulk_chunks_tile_512 :
    Tiles 512 0x1FF00 40000 true 0 0 (fillQtds true 512 0x1FF00 40000 ehciMaxQtds 0 true).1 ∧
      (fillQtds true 512 0x1FF00 40000 ehciMaxQtds 0 true).2 = toggled true (packetCount 512 40000) :=
  bulk_chunks_tile (by decide) (by decide) (fits_pool (by decide) (by decide) (by decide))

end Zenbite.Usb
