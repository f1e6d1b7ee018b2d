import Mathlib.Tactic.Common
import Zenbite.Lib.Runs

/-! The PS/2 mouse (mouse.c): packets of three bytes, and the cursor that they move. -/

namespace Zenbite.Ps2

/-- MS_SCALE -/
def msScale : Int := 8

/-- `ms_max_x`; mouse_set_bounds is called for the same screen. -/
def msMaxX : Int := 80 * msScale - 1

/-- `ms_max_y` -/
def msMaxY : Int := 25 * msScale - 1

structure Pos where
  x : Int
  y : Int
  deriving DecidableEq

/-- The static variables. -/
structure Mouse where
  pos : Pos
  buttons : UInt8
  pkt : Fin 3 → UInt8
  phase : Fin 3

/-- mouse_init -/
def start : Mouse := ⟨⟨40 * msScale, 12 * msScale⟩, 0, fun _ => 0, 0⟩

structure Packet where
  flags : UInt8
  dx : UInt8
  dy : UInt8
  deriving DecidableEq

/-- What on_irq12 does with a whole packet. -/
def Packet.apply (p : Packet) (pos : Pos) : Pos :=
  let dx := if p.flags &&& 0x40 ≠ 0 then 0 else p.dx.toInt8.toInt
  let dy := if p.flags &&& 0x80 ≠ 0 then 0 else p.dy.toInt8.toInt
  let nx := pos.x + dx
  let ny := pos.y - dy
  let nx := if nx < 0 then 0 else nx
  let ny := if ny < 0 then 0 else ny
  let nx := if msMaxX < nx then msMaxX else nx
  let ny := if msMaxY < ny then msMaxY else ny
  ⟨nx, ny⟩

namespace Mouse

variable (m : Mouse)

/-- One byte from the mouse. -/
def byte (b : UInt8) : Mouse :=
  if m.phase = 0 ∧ b &&& 0x08 = 0 then m
  else
    let pkt := Function.update m.pkt m.phase b
    if room : m.phase.val + 1 < 3 then { m with pkt := pkt, phase := ⟨m.phase.val + 1, room⟩ }
    else
      { pos := Packet.apply ⟨pkt 0, pkt 1, pkt 2⟩ m.pos, buttons := pkt 0 &&& 0x07, pkt := pkt, phase := 0 }

def feed (bytes : List UInt8) : Mouse := bytes.foldl byte m

end Mouse

/-- What one round of on_irq12 reads: the status twice, and the data. -/
structure Round where
  ready : UInt8
  status : UInt8
  data : UInt8

/-- `on_irq12`; the status behind the last round is not ready. -/
def onIrq12 : List Round → Mouse → Mouse
  | [], m => m
  | r :: rounds, m =>
    if r.ready &&& 0x01 = 0 then m
    else if r.status &&& 0x20 = 0 then m
    else onIrq12 rounds (m.byte r.data)

/-- The bytes that an interrupt takes from the mouse. -/
def delivered : List Round → List UInt8
  | [] => []
  | r :: rounds =>
    if r.ready &&& 0x01 = 0 then []
    else if r.status &&& 0x20 = 0 then []
    else r.data :: delivered rounds

/-! What the bytes mean. -/

/-- The packets of a stream: one starts at a byte with bit 3 set. -/
def packets : List UInt8 → List Packet
  | flags :: dx :: dy :: rest =>
    if flags &&& 0x08 = 0 then packets (dx :: dy :: rest) else ⟨flags, dx, dy⟩ :: packets rest
  | _ => []

/-- A 9-bit number in two's complement, zero on overflow. -/
def delta (overflow sign : Prop) [Decidable overflow] [Decidable sign] (low : UInt8) : Int :=
  if overflow then 0 else if sign then low.toNat - 256 else low.toNat

def clamp (hi v : Int) : Int := max 0 (min v hi)

namespace Packet

variable (p : Packet)

def overflowX : Prop := p.flags &&& 0x40 ≠ 0

def overflowY : Prop := p.flags &&& 0x80 ≠ 0

def signX : Prop := p.flags &&& 0x10 ≠ 0

def signY : Prop := p.flags &&& 0x20 ≠ 0

instance : Decidable p.overflowX := instDecidableNot

instance : Decidable p.overflowY := instDecidableNot

instance : Decidable p.signX := instDecidableNot

instance : Decidable p.signY := instDecidableNot

/-- Where a packet moves the cursor to. -/
def move (pos : Pos) : Pos :=
  ⟨clamp msMaxX (pos.x + delta p.overflowX p.signX p.dx), clamp msMaxY (pos.y - delta p.overflowY p.signY p.dy)⟩

/-- The delta is from -128 to 127, or it is -256 and the cursor cannot move further. -/
structure Signs (pos : Pos) : Prop where
  x : p.overflowX ∨ (p.signX ↔ 128 ≤ p.dx.toNat) ∨ pos.x = 0 ∧ p.dx = 0
  y : p.overflowY ∨ (p.signY ↔ 128 ≤ p.dy.toNat) ∨ pos.y = msMaxY ∧ p.dy = 0

end Packet

structure Pos.Inside (pos : Pos) : Prop where
  x : 0 ≤ pos.x ∧ pos.x ≤ msMaxX
  y : 0 ≤ pos.y ∧ pos.y ≤ msMaxY

/-! The decoder -/

section Decoder

variable {m : Mouse} {b : UInt8}

theorem byte_skip (phase : m.phase = 0) (unmarked : b &&& 0x08 = 0) : m.byte b = m := if_pos ⟨phase, unmarked⟩

theorem byte_first (phase : m.phase = 0) (marked : b &&& 0x08 ≠ 0) :
    m.byte b = { m with pkt := Function.update m.pkt 0 b, phase := 1 } := by
  rw [Mouse.byte, if_neg fun both => marked both.2, phase]
  rfl

theorem byte_second (phase : m.phase = 1) : m.byte b = { m with pkt := Function.update m.pkt 1 b, phase := 2 } := by
  rw [Mouse.byte, phase, if_neg fun both => absurd both.1 (by decide)]
  rfl

theorem byte_third (phase : m.phase = 2) : (m.byte b).pos = Packet.apply ⟨m.pkt 0, m.pkt 1, b⟩ m.pos ∧ (m.byte b).phase = 0 := by
  rw [Mouse.byte, phase, if_neg fun both => absurd both.1 (by decide)]
  exact ⟨rfl, rfl⟩

/-- Three bytes in step are a packet. -/
theorem feed_packet (phase : m.phase = 0) {flags : UInt8} (marked : flags &&& 0x08 ≠ 0) (dx dy : UInt8) :
    (((m.byte flags).byte dx).byte dy).pos = Packet.apply ⟨flags, dx, dy⟩ m.pos ∧
      (((m.byte flags).byte dx).byte dy).phase = 0 := by
  rw [byte_first phase marked, byte_second (b := dx) rfl]
  exact byte_third rfl

end Decoder

theorem packets_skip {flags : UInt8} (unmarked : flags &&& 0x08 = 0) (rest : List UInt8) :
    packets (flags :: rest) = packets rest := by
  match rest with
  | [] => rfl
  | [_] => rfl
  | _ :: _ :: _ => rw [packets, if_pos unmarked]

theorem packets_whole {flags : UInt8} (marked : flags &&& 0x08 ≠ 0) (dx dy : UInt8) (rest : List UInt8) :
    packets (flags :: dx :: dy :: rest) = ⟨flags, dx, dy⟩ :: packets rest := by
  rw [packets, if_neg marked]

/-- How a stream begins: nothing, a byte to skip, a packet, or a part of one. -/
theorem stream_cases {motive : List UInt8 → Prop} (nil : motive [])
    (skip : ∀ flags rest, flags &&& 0x08 = 0 → motive rest → motive (flags :: rest))
    (whole : ∀ flags dx dy rest, flags &&& 0x08 ≠ 0 → motive rest → motive (flags :: dx :: dy :: rest))
    (one : ∀ flags, flags &&& 0x08 ≠ 0 → motive [flags])
    (two : ∀ flags dx, flags &&& 0x08 ≠ 0 → motive [flags, dx]) : ∀ bytes, motive bytes
  | [] => nil
  | flags :: rest => by
    by_cases unmarked : flags &&& 0x08 = 0
    · exact skip flags rest unmarked (stream_cases nil skip whole one two rest)
    · match rest with
      | [] => exact one flags unmarked
      | [dx] => exact two flags dx unmarked
      | dx :: dy :: rest => exact whole flags dx dy rest unmarked (stream_cases nil skip whole one two rest)

/-- Fed in step, the decoder applies the packets of the stream. -/
theorem feed_pos (bytes : List UInt8) : ∀ {m : Mouse}, m.phase = 0 →
    (m.feed bytes).pos = Runs.run Packet.apply (packets bytes) m.pos := by
  induction bytes using stream_cases with
  | nil => exact fun _ => rfl
  | skip flags rest unmarked ih =>
      intro m phase
      rw [packets_skip unmarked, Mouse.feed, List.foldl_cons, byte_skip phase unmarked]
      exact ih phase
  | whole flags dx dy rest marked ih =>
      intro m phase
      obtain ⟨pos, still⟩ := feed_packet phase marked dx dy
      have rest := ih still
      rw [pos] at rest
      rw [packets_whole marked]
      exact rest
  | one flags marked =>
      intro m phase
      rw [Mouse.feed, List.foldl_cons, byte_first phase marked]
      rfl
  | two flags dx marked =>
      intro m phase
      rw [Mouse.feed, List.foldl_cons, List.foldl_cons, List.foldl_nil, byte_first phase marked, byte_second rfl]
      rfl

theorem packets_front (bytes more : List UInt8) : packets bytes <+: packets (bytes ++ more) := by
  induction bytes using stream_cases with
  | nil => exact List.nil_prefix
  | skip flags rest unmarked ih =>
      rw [List.cons_append, packets_skip unmarked, packets_skip unmarked]
      exact ih
  | whole flags dx dy rest marked ih =>
      rw [packets_whole marked]
      change _ <+: packets (flags :: dx :: dy :: (rest ++ more))
      rw [packets_whole marked]
      exact (List.prefix_cons_inj _).mpr ih
  | one flags marked => exact List.nil_prefix
  | two flags dx marked => exact List.nil_prefix

/-- Every number of packets is what some part of the stream has. -/
theorem packets_part (bytes : List UInt8) : ∀ part, part <+: packets bytes → ∃ front, front <+: bytes ∧ packets front = part := by
  induction bytes using stream_cases with
  | nil => exact fun part front => ⟨[], List.nil_prefix, (List.prefix_nil.mp front).symm⟩
  | skip flags rest unmarked ih =>
      intro part inside
      rw [packets_skip unmarked] at inside
      obtain ⟨front, before, same⟩ := ih part inside
      exact ⟨flags :: front, (List.prefix_cons_inj _).mpr before, (packets_skip unmarked front).trans same⟩
  | whole flags dx dy rest marked ih =>
      intro part inside
      cases part with
      | nil => exact ⟨[], List.nil_prefix, rfl⟩
      | cons p part =>
          rw [packets_whole marked] at inside
          obtain ⟨rfl, tail⟩ := List.cons_prefix_cons.mp inside
          obtain ⟨front, before, same⟩ := ih part tail
          refine ⟨flags :: dx :: dy :: front, ?_, ?_⟩
          · exact (List.prefix_cons_inj _).mpr ((List.prefix_cons_inj _).mpr ((List.prefix_cons_inj _).mpr before))
          · rw [packets_whole marked, same]
  | one flags marked => exact fun part front => ⟨[], List.nil_prefix, (List.prefix_nil.mp front).symm⟩
  | two flags dx marked => exact fun part front => ⟨[], List.nil_prefix, (List.prefix_nil.mp front).symm⟩

theorem onIrq12_feed (rounds : List Round) : ∀ m : Mouse, onIrq12 rounds m = m.feed (delivered rounds) := by
  induction rounds with
  | nil => exact fun _ => rfl
  | cons r rounds ih =>
      intro m
      rw [onIrq12, delivered]
      split_ifs with busy other
      · rfl
      · rfl
      · exact ih _

/-- Any interrupts together feed the bytes that they take. -/
theorem irqs_feed (calls : List (List Round)) : ∀ m : Mouse, Runs.run onIrq12 calls m = m.feed (calls.flatMap delivered) := by
  induction calls with
  | nil => exact fun _ => rfl
  | cons rounds calls ih =>
      intro m
      rw [List.flatMap_cons, Mouse.feed, List.foldl_append]
      exact (ih _).trans (congrArg (Mouse.feed · _) (onIrq12_feed rounds m))

/-! The cursor -/

theorem toInt8_value (v : UInt8) : v.toInt8.toInt = if v.toNat < 128 then (v.toNat : Int) else v.toNat - 256 := by
  have value : v.toInt8.toInt = if 2 * v.toNat < 2 ^ 8 then (v.toNat : Int) else (v.toNat : Int) - (2 ^ 8 : Nat) :=
    BitVec.toInt_eq_toNat_cond v.toBitVec
  rw [value]
  exact if_congr (by omega) rfl rfl

theorem low_zero {v : UInt8} : v = 0 ↔ v.toNat = 0 := by
  rw [← UInt8.toNat_inj]
  rfl

section Axis

variable {hi x : Int} {overflow sign : Prop} [Decidable overflow] [Decidable sign]

theorem clamp_inside (nonneg : 0 ≤ hi) (v : Int) : 0 ≤ clamp hi v ∧ clamp hi v ≤ hi := by
  rw [clamp]
  omega

/-- The two comparisons of on_irq12. -/
theorem clamp_steps (nonneg : 0 ≤ hi) (v : Int) :
    (if hi < (if v < 0 then 0 else v) then hi else if v < 0 then 0 else v) = clamp hi v := by
  rw [clamp]
  split_ifs <;> omega

/-- Rightwards the signed byte is right for a delta from -128 to 127. -/
theorem right_iff (low : 0 ≤ x) (high : x ≤ hi) (some' : 0 < hi) (v : UInt8) :
    clamp hi (x + if overflow then 0 else v.toInt8.toInt) = clamp hi (x + delta overflow sign v) ↔
      overflow ∨ (sign ↔ 128 ≤ v.toNat) ∨ x = 0 ∧ v = 0 := by
  have range := v.toNat_lt
  rw [toInt8_value, delta, low_zero, clamp, clamp]
  by_cases lost : overflow
  · simp [lost]
  · by_cases minus : sign
    · simp only [lost, minus, if_false, if_true, false_or, true_iff]
      split_ifs <;> omega
    · simp only [lost, minus, if_false, false_or, false_iff]
      split_ifs <;> omega

/-- And upwards, where the cursor goes the other way. -/
theorem up_iff (low : 0 ≤ x) (high : x ≤ hi) (some' : 0 < hi) (v : UInt8) :
    clamp hi (x - if overflow then 0 else v.toInt8.toInt) = clamp hi (x - delta overflow sign v) ↔
      overflow ∨ (sign ↔ 128 ≤ v.toNat) ∨ x = hi ∧ v = 0 := by
  have range := v.toNat_lt
  rw [toInt8_value, delta, low_zero, clamp, clamp]
  by_cases lost : overflow
  · simp [lost]
  · by_cases minus : sign
    · simp only [lost, minus, if_false, if_true, false_or, true_iff]
      split_ifs <;> omega
    · simp only [lost, minus, if_false, false_or, false_iff]
      split_ifs <;> omega

end Axis

namespace Packet

variable {p : Packet} {pos : Pos}

theorem apply_pos (p : Packet) (pos : Pos) : p.apply pos =
    ⟨clamp msMaxX (pos.x + if p.overflowX then 0 else p.dx.toInt8.toInt),
      clamp msMaxY (pos.y - if p.overflowY then 0 else p.dy.toInt8.toInt)⟩ := by
  rw [← clamp_steps (by decide), ← clamp_steps (by decide)]
  rfl

theorem move_inside (p : Packet) (pos : Pos) : (p.move pos).Inside :=
  ⟨clamp_inside (by decide) _, clamp_inside (by decide) _⟩

theorem apply_inside (p : Packet) (pos : Pos) : (p.apply pos).Inside := by
  rw [apply_pos]
  exact ⟨clamp_inside (by decide) _, clamp_inside (by decide) _⟩

/-- A packet is applied as it says exactly when its signs are those of its bytes. -/
theorem apply_eq_move_iff (inside : pos.Inside) : p.apply pos = p.move pos ↔ p.Signs pos := by
  rw [apply_pos, move, Pos.mk.injEq, right_iff inside.x.1 inside.x.2 (by decide), up_iff inside.y.1 inside.y.2 (by decide)]
  exact ⟨fun both => ⟨both.1, both.2⟩, fun signs => ⟨signs.x, signs.y⟩⟩

end Packet

theorem run_inside (ps : List Packet) {pos : Pos} (inside : pos.Inside) : (Runs.run Packet.apply ps pos).Inside :=
  Runs.run_keeps (fun p pos _ => p.apply_inside pos) ps inside

/-- In step, the cursor is after each part of a stream where the packets of that part move
it to, and stays within the bounds, exactly when each packet has the signs of its bytes. -/
theorem mouse_moves_iff {m : Mouse} (phase : m.phase = 0) (inside : m.pos.Inside) (calls : List (List Round)) :
    (Runs.run onIrq12 calls m = m.feed (calls.flatMap delivered) ∧
      ∀ part, part <+: calls.flatMap delivered →
        (m.feed part).pos = Runs.run Packet.move (packets part) m.pos ∧ (m.feed part).pos.Inside) ↔
      Runs.Each Packet.move Packet.Signs (packets (calls.flatMap delivered)) m.pos := by
  generalize bytes : calls.flatMap delivered = stream
  have fed : Runs.run onIrq12 calls m = m.feed stream := bytes ▸ irqs_feed calls m
  have signs : Runs.Each Packet.move (fun p pos => p.apply pos = p.move pos) (packets stream) m.pos ↔
      Runs.Each Packet.move Packet.Signs (packets stream) m.pos :=
    @Runs.Each.iff _ _ Packet.move _ Pos.Inside (fun _ _ => True) _
      (fun p pos inside _ => Packet.apply_eq_move_iff inside)
      (fun p pos _ _ _ => p.move_inside pos) _ _ (Runs.Each.of_forall (fun _ _ _ => trivial) _) inside
  rw [← signs, ← Runs.agree_iff]
  constructor
  · rintro ⟨_, all⟩ part front
    obtain ⟨bytes, before, same⟩ := packets_part stream part front
    rw [← same, ← feed_pos bytes phase]
    exact (all bytes before).1
  · intro all
    refine ⟨fed, fun part front => ?_⟩
    obtain ⟨more, rfl⟩ := front
    rw [feed_pos part phase]
    exact ⟨all _ (packets_front part more), run_inside _ inside⟩

/-- One packet to the right by 5. -/
theorem mouse_moves_five :
    Runs.run onIrq12 [[⟨0x21, 0x21, 0x08⟩, ⟨0x21, 0x21, 5⟩, ⟨0x21, 0x21, 0⟩]] start = start.feed [0x08, 5, 0] ∧
      ∀ part, part <+: [0x08, 5, 0] →
        (start.feed part).pos = Runs.run Packet.move (packets part) start.pos ∧ (start.feed part).pos.Inside :=
  (mouse_moves_iff rfl ⟨by decide, by decide⟩ [[⟨0x21, 0x21, 0x08⟩, ⟨0x21, 0x21, 5⟩, ⟨0x21, 0x21, 0⟩]]).mpr
    ⟨⟨Or.inr (Or.inl (by decide)), Or.inr (Or.inl (by decide))⟩, trivial⟩

/-- 200 to the right is taken for 56 to the left. -/
theorem mouse_moves_back : (onIrq12 [⟨0x21, 0x21, 0x08⟩, ⟨0x21, 0x21, 200⟩, ⟨0x21, 0x21, 0⟩] start).pos ≠
    Runs.run Packet.move (packets [0x08, 200, 0]) start.pos := by
  decide

end Zenbite.Ps2
