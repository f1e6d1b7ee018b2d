import Mathlib.Data.List.GetD
import Mathlib.Tactic.Common
import Zenbite.Lib.Spans

/-! USB sticks (usb.c, ehci.c): a SCSI command in its wrapper, the reads of the disk layer over
it, and what the bus and the stick are held to. -/

namespace Zenbite.Usb

open Memory Spans

/-- The driver of a host controller: the descriptors it makes for a transfer, and the memory
that they name. -/
structure Driver (δ τ : Type) where
  plan : δ → Bool → Nat → Nat → List τ × δ
  spans : τ → List Span
  blockSize : δ → Nat
  sectors : Nat
  sectors_pos : 0 < sectors
  sectors_word : sectors < 2 ^ 16

/-- The controller, the wire and the stick. A transfer to the stick gets the bytes that the
descriptors name, one from it gives the bytes that came, as far as they did. -/
structure Bus (σ τ : Type) where
  send : σ → List τ → List UInt8 → Bool × σ
  receive : σ → List τ → (Nat → Option UInt8) × Bool × σ

/-- Where the static `cbw` and `csw` of bbb_request are. -/
structure Layout where
  cbwAt : Nat
  cswAt : Nat
  cbw_fits : cbwAt + 31 ≤ 2 ^ 32
  csw_fits : cswAt + 13 ≤ 2 ^ 32

/-- `cbw` or `csw` -/
def Layout.Static (L : Layout) (a : Nat) : Prop :=
  (L.cbwAt ≤ a ∧ a < L.cbwAt + 31) ∨ L.cswAt ≤ a ∧ a < L.cswAt + 13

/-- The memory, the tag of the next command, the device and the bus. -/
structure Host (δ σ : Type) where
  mem : Buffer
  tag : Nat
  dev : δ
  bus : σ

/-- The `cbw` that bbb_request fills in. -/
def cbw (tag len : Nat) (dirIn : Bool) (cdb : List UInt8) : List UInt8 :=
  [0x55, 0x53, 0x42, 0x43] ++ bytesOf tag 4 ++ bytesOf len 4 ++
    [if dirIn then 0x80 else 0, 0, UInt8.ofNat cdb.length] ++ cdb.take 16 ++ List.replicate (16 - cdb.length) 0

/-- The `cdb` of scsi_read10. -/
def read10 (lba count : Nat) : List UInt8 :=
  [0x28, 0, byteOf lba 3, byteOf lba 2, byteOf lba 1, byteOf lba 0, 0, byteOf count 1, byteOf count 0, 0]

/-- The next step of a request, if this one did not fail. -/
def andThen {η : Type} (done : Bool × η) (next : η → Bool × η) : Bool × η :=
  if done.1 then next done.2 else (false, done.2)

section Requests

variable {δ τ σ : Type} (D : Driver δ τ) (L : Layout) (B : Bus σ τ)

def Driver.spansOf (d : δ) (dirIn : Bool) (addr len : Nat) : List Span := (D.plan d dirIn addr len).1.flatMap D.spans

/-- `bulk_transfer`, ehci.c: `ehci_bulk_transfer` -/
def bulk (dirIn : Bool) (addr len : Nat) (h : Host δ σ) : Bool × Host δ σ :=
  let queue := D.plan h.dev dirIn addr len
  if dirIn then
    let r := B.receive h.bus queue.1
    (r.2.1, { h with dev := queue.2, bus := r.2.2, mem := fill (D.spansOf h.dev dirIn addr len) r.1 h.mem })
  else
    let r := B.send h.bus queue.1 (gather (D.spansOf h.dev dirIn addr len) h.mem)
    (r.1, { h with dev := queue.2, bus := r.2 })

/-- The signature and the status of the `csw`. -/
def passed (mem : Buffer) : Bool :=
  mem L.cswAt = 0x55 ∧ mem (L.cswAt + 1) = 0x53 ∧ mem (L.cswAt + 2) = 0x42 ∧ mem (L.cswAt + 3) = 0x53 ∧
    mem (L.cswAt + 12) = 0

/-- The `cbw` of a command, in its place. -/
def wrap (cdb : List UInt8) (len : Nat) (dirIn : Bool) (h : Host δ σ) : Host δ σ :=
  { h with mem := poke h.mem L.cbwAt (cbw h.tag len dirIn cdb), tag := u32 (h.tag + 1) }

/-- The data phase of a command. -/
def dataPhase (data len : Nat) (dirIn : Bool) (h : Host δ σ) : Bool × Host δ σ :=
  if len ≠ 0 ∧ data ≠ 0 then bulk D B dirIn data len h else (true, h)

/-- `bbb_request` -/
def bbbRequest (cdb : List UInt8) (data len : Nat) (dirIn : Bool) (h : Host δ σ) : Bool × Host δ σ :=
  andThen (bulk D B false L.cbwAt 31 (wrap L cdb len dirIn h)) fun h =>
    andThen (dataPhase D B data len dirIn h) fun h =>
      andThen (bulk D B true L.cswAt 13 h) fun h => (passed L h.mem, h)

/-- `scsi_read10` -/
def scsiRead10 (lba count buf : Nat) (h : Host δ σ) : Bool × Host δ σ :=
  bbbRequest D L B (read10 lba count) buf (u32 (count * D.blockSize h.dev)) true h

/-- The sectors of one request. -/
def Driver.chunk (count : Nat) : Nat := if D.sectors < count then D.sectors else count

/-- `msc_disk_read`, ehci.c: `ehci_disk_read` -/
def diskRead (lba count buf : Nat) (h : Host δ σ) : Bool × Host δ σ :=
  if some' : count = 0 then (true, h)
  else
    andThen (scsiRead10 D L B lba (D.chunk count) buf h) fun h =>
      diskRead (u32 (lba + D.chunk count)) (count - D.chunk count) (u32 (buf + 512 * D.chunk count)) h
termination_by count
decreasing_by
  have more := D.sectors_pos
  rw [Driver.chunk]
  split_ifs <;> omega

end Requests

/-! What a stick is held to -/

/-- A READ(10) as the stick finds it in a wrapper. -/
structure Read10 where
  lba : Nat
  blocks : Nat
  length : Nat

def asRead10 (bytes : List UInt8) : Option Read10 :=
  let b := fun i => bytes.getD i 0
  if b 0 = 0x55 ∧ b 1 = 0x53 ∧ b 2 = 0x42 ∧ b 3 = 0x43 ∧ b 12 = 0x80 ∧ b 13 = 0 ∧ b 14 = 10 ∧ b 15 = 0x28 then
    some
      { lba := (b 17).toNat * 2 ^ 24 + (b 18).toNat * 2 ^ 16 + (b 19).toNat * 2 ^ 8 + (b 20).toNat
        blocks := (b 22).toNat * 2 ^ 8 + (b 23).toNat
        length := readLe32 b 8 }
  else none

/-- A stick with the size of its blocks, their number, which READ CAPACITY(10) can say, and
its bytes. -/
structure Medium where
  blockSize : Nat
  blocks : Nat
  byte : Nat → UInt8
  small : blocks < 2 ^ 32

/-- The stick keeps to the transport: where a wrapper with a READ(10) came through and the host
asks for as many bytes as the wrapper says, which is those of the blocks, and then for the
status, a good status means that the bytes of the medium came. -/
def Bus.Conforms {σ τ : Type} (B : Bus σ τ) (spans : τ → List Span) (M : Medium) : Prop :=
  ∀ (s₀ s₁ s₂ s₃ : σ) (out data status : List τ) (wrapper : List UInt8) (cmd : Read10)
    (bytes statusBytes : Nat → Option UInt8),
    asRead10 wrapper = some cmd → B.send s₀ out wrapper = (true, s₁) →
    cmd.length = M.blockSize * cmd.blocks → total (data.flatMap spans) = cmd.length →
    B.receive s₁ data = (bytes, true, s₂) →
    total (status.flatMap spans) = 13 → B.receive s₂ status = (statusBytes, true, s₃) →
    (∀ k < 13, ∃ v, statusBytes k = some v) ∧
      (statusBytes 12 = some 0 → cmd.lba + cmd.blocks ≤ M.blocks ∧
        ∀ k < cmd.length, bytes k = some (M.byte (M.blockSize * cmd.lba + k)))

/-- A place for `count` sectors, apart from `cbw` and `csw`. -/
structure Target (L : Layout) (count : Nat) where
  buf : Nat
  pos : 0 < buf
  fits : buf + 512 * count ≤ 2 ^ 32
  apart : ∀ k < 512 * count, ¬ L.Static (buf + k)

/-- A read that returned 0 has put the bytes of its sectors into the buffer, and whatever it
returned, it stored nothing before or behind the buffer. -/
structure Reads {δ σ : Type} (L : Layout) (M : Medium) (lba count buf : Nat) (mem : Buffer) (r : Bool × Host δ σ) : Prop where
  bytes : r.1 = true → ∀ i < 512 * count, r.2.mem (buf + i) = M.byte (512 * lba + i)
  inside : ∀ a, (a < buf ∨ buf + 512 * count ≤ a) → ¬ L.Static a → r.2.mem a = mem a

/-- The reads of a device are right on every bus and stick that keep to the transport. -/
def ReadsRight {δ τ : Type} (D : Driver δ τ) (L : Layout) (d : δ) {count : Nat} (target : Target L count) : Prop :=
  ∀ (σ : Type) (B : Bus σ τ) (M : Medium) (mem : Buffer) (tag : Nat) (lba : UInt32) (s : σ), M.blockSize = D.blockSize d →
    B.Conforms D.spans M →
    Reads L M lba.toNat count target.buf mem (diskRead D L B lba.toNat count target.buf ⟨mem, tag, d, s⟩)

/-! Wrappers -/

theorem cbw_length (tag len : Nat) (dirIn : Bool) (lba count : Nat) : (cbw tag len dirIn (read10 lba count)).length = 31 := rfl

private theorem be32 {v : Nat} (word : v < 2 ^ 32) : (byteOf v 3).toNat * 2 ^ 24 + (byteOf v 2).toNat * 2 ^ 16 +
    (byteOf v 1).toNat * 2 ^ 8 + (byteOf v 0).toNat = v := by
  simp only [byteOf_toNat]
  omega

private theorem be16 {v : Nat} (word : v < 2 ^ 16) : (byteOf v 1).toNat * 2 ^ 8 + (byteOf v 0).toNat = v := by
  simp only [byteOf_toNat]
  omega

private theorem le32 {v : Nat} (word : v < 2 ^ 32) : (byteOf v 0).toNat + 2 ^ 8 * (byteOf v 1).toNat +
    2 ^ 16 * (byteOf v 2).toNat + 2 ^ 24 * (byteOf v 3).toNat = v := by
  simp only [byteOf_toNat]
  omega

theorem asRead10_cbw (tag : Nat) {lba count len : Nat} (hlba : lba < 2 ^ 32) (hcount : count < 2 ^ 16) (hlen : len < 2 ^ 32) :
    asRead10 (cbw tag len true (read10 lba count)) = some ⟨lba, count, len⟩ := by
  rw [asRead10, if_pos ⟨rfl, rfl, rfl, rfl, rfl, rfl, rfl, rfl⟩]
  have d20 : (cbw tag len true (read10 lba count)).getD 20 0 = byteOf lba 0 := rfl
  have d19 : (cbw tag len true (read10 lba count)).getD 19 0 = byteOf lba 1 := rfl
  have d18 : (cbw tag len true (read10 lba count)).getD 18 0 = byteOf lba 2 := rfl
  have d17 : (cbw tag len true (read10 lba count)).getD 17 0 = byteOf lba 3 := rfl
  have d23 : (cbw tag len true (read10 lba count)).getD 23 0 = byteOf count 0 := rfl
  have d22 : (cbw tag len true (read10 lba count)).getD 22 0 = byteOf count 1 := rfl
  have word : readLe32 (fun i => (cbw tag len true (read10 lba count)).getD i 0) 8 = len := le32 hlen
  dsimp only
  rw [d20, d19, d18, d17, d23, d22, word, be32 hlba, be16 hcount]

theorem poke_range (m : Buffer) (off : Nat) (bytes : List UInt8) :
    (List.range bytes.length).map (fun i => poke m off bytes (off + i)) = bytes := by
  apply List.ext_getElem
  · rw [List.length_map, List.length_range]
  · intro i left right
    rw [List.getElem_map, List.getElem_range, poke_at m right, List.getD_eq_getElem bytes 0 right]

/-! Requests of a driver whose small transfers are whole -/

/-- What does not change with the toggles: the size of the blocks, and that the descriptors
of a wrapper or a status are all of it. -/
structure Steady {δ τ : Type} (D : Driver δ τ) (good : δ → Prop) (bs : Nat) : Prop where
  keeps : ∀ d dirIn addr len, good d → good (D.plan d dirIn addr len).2
  size : ∀ d, good d → D.blockSize d = bs
  envelope : ∀ d dirIn addr len, good d → len ≤ 31 → Covers (2 ^ 32) addr len (D.spansOf d dirIn addr len)

section Requests

variable {δ τ σ : Type} {D : Driver δ τ} {L : Layout} {B : Bus σ τ} {good : δ → Prop} {bs : Nat} {h : Host δ σ}
  {addr len : Nat} {dirIn : Bool}

/-- A step leaves some places of the memory as they are. -/
def Keeps (good : δ → Prop) (places : Nat → Prop) (mem : Buffer) (r : Bool × Host δ σ) : Prop :=
  good r.2.dev ∧ ∀ a, places a → r.2.mem a = mem a

theorem andThen_true {η : Type} {done : Bool × η} {next : η → Bool × η} (both : (andThen done next).1 = true) :
    done.1 = true ∧ andThen done next = next done.2 := by
  rw [andThen] at both ⊢
  split_ifs at both ⊢ with first
  exact ⟨first, rfl⟩

theorem andThen_of_true {η : Type} {done : Bool × η} {next : η → Bool × η} (ok : done.1 = true) :
    andThen done next = next done.2 := if_pos ok

theorem Keeps.andThen {places : Nat → Prop} {mem : Buffer} {done : Bool × Host δ σ} {next : Host δ σ → Bool × Host δ σ}
    (first : Keeps good places mem done) (second : done.1 = true → good done.2.dev → Keeps good places done.2.mem (next done.2)) :
    Keeps good places mem (andThen done next) := by
  rw [Usb.andThen]
  split_ifs with ok
  · have behind := second ok first.1
    exact ⟨behind.1, fun a place => (behind.2 a place).trans (first.2 a place)⟩
  · exact first

theorem bulk_send : bulk D B false addr len h =
    ((B.send h.bus (D.plan h.dev false addr len).1 (gather (D.spansOf h.dev false addr len) h.mem)).1,
      { h with
        dev := (D.plan h.dev false addr len).2
        bus := (B.send h.bus (D.plan h.dev false addr len).1 (gather (D.spansOf h.dev false addr len) h.mem)).2 }) := rfl

theorem bulk_receive : bulk D B true addr len h =
    ((B.receive h.bus (D.plan h.dev true addr len).1).2.1,
      { h with
        dev := (D.plan h.dev true addr len).2, bus := (B.receive h.bus (D.plan h.dev true addr len).1).2.2
        mem := fill (D.spansOf h.dev true addr len) (B.receive h.bus (D.plan h.dev true addr len).1).1 h.mem }) := rfl

theorem Steady.bulk (steady : Steady D good bs) (fine : good h.dev) : good (bulk D B dirIn addr len h).2.dev := by
  cases dirIn with
  | false => exact steady.keeps _ _ _ _ fine
  | true => exact steady.keeps _ _ _ _ fine

theorem wrap_outside {cdb : List UInt8} {a : Nat} (length : (cbw h.tag len dirIn cdb).length = 31) (other : ¬ L.Static a) :
    (wrap L cdb len dirIn h).mem a = h.mem a := by
  have outside : a < L.cbwAt ∨ L.cbwAt + 31 ≤ a := by
    rw [Layout.Static] at other
    omega
  have stored : (wrap L cdb len dirIn h).mem = poke h.mem L.cbwAt (cbw h.tag len dirIn cdb) := rfl
  rw [stored, poke, length]
  exact splice_outside _ _ outside

theorem status_outside (steady : Steady D good bs) (fine : good h.dev) {a : Nat} (other : ¬ L.Static a) :
    (Zenbite.Usb.bulk D B true L.cswAt 13 h).2.mem a = h.mem a := by
  have outside : a < L.cswAt ∨ L.cswAt + 13 ≤ a := by
    rw [Layout.Static] at other
    omega
  exact (steady.envelope h.dev true L.cswAt 13 fine (by decide)).fill_outside L.csw_fits outside

/-- The wrapper goes out as it is. -/
theorem wrapper_sent (steady : Steady D good bs) (fine : good h.dev) {cdb : List UInt8}
    (length : (cbw h.tag len dirIn cdb).length = 31) :
    gather (D.spansOf h.dev false L.cbwAt 31) (wrap L cdb len dirIn h).mem = cbw h.tag len dirIn cdb := by
  have covers := steady.envelope h.dev false L.cbwAt 31 fine (by decide)
  calc gather (D.spansOf h.dev false L.cbwAt 31) (wrap L cdb len dirIn h).mem
      = (List.range 31).map fun k => (wrap L cdb len dirIn h).mem (L.cbwAt + k) := covers.gather_eq L.cbw_fits
    _ = cbw h.tag len dirIn cdb := length ▸ poke_range h.mem L.cbwAt _

variable {M : Medium} {lba n buf : Nat}

/-- Outside `cbw`, `csw` and the buffer, a request changes nothing. -/
theorem bbbRequest_keeps (steady : Steady D good bs) (fine : good h.dev) {cdb : List UInt8}
    (length : (cbw h.tag len true cdb).length = 31) (fits : buf + len ≤ 2 ^ 32)
    (whole : ∀ d, good d → Covers (2 ^ 32) buf len (D.spansOf d true buf len)) :
    Keeps good (fun a => (a < buf ∨ buf + len ≤ a) ∧ ¬ L.Static a) h.mem (bbbRequest D L B cdb buf len true h) := by
  apply Keeps.andThen
  · exact ⟨steady.bulk fine, fun a place => wrap_outside length place.2⟩
  · intro _ sent
    apply Keeps.andThen
    · rw [dataPhase]
      split_ifs with some'
      · exact ⟨steady.bulk sent, fun a place => (whole _ sent).fill_outside fits place.1⟩
      · exact ⟨sent, fun a _ => rfl⟩
    · intro _ came
      apply Keeps.andThen
      · exact ⟨steady.bulk came, fun a place => status_outside steady came place.2⟩
      · intro _ done
        exact ⟨done, fun a _ => rfl⟩

/-- The bytes behind a good status, when the wrapper came through. -/
theorem answer_right {cmd : Read10} {s₀ : σ} {out : List τ} {wrapper : List UInt8} (steady : Steady D good bs)
    (fine : good h.dev) (honest : B.Conforms D.spans M) (read : asRead10 wrapper = some cmd)
    (sent : B.send s₀ out wrapper = (true, h.bus)) (blocks : cmd.length = M.blockSize * cmd.blocks)
    (fits : buf + cmd.length ≤ 2 ^ 32) (whole : Covers (2 ^ 32) buf cmd.length (D.spansOf h.dev true buf cmd.length))
    (apart : ∀ k < cmd.length, ¬ L.Static (buf + k)) (came : (Usb.bulk D B true buf cmd.length h).1 = true)
    (answered : (Usb.bulk D B true L.cswAt 13 (Usb.bulk D B true buf cmd.length h).2).1 = true)
    (ok : passed L (Usb.bulk D B true L.cswAt 13 (Usb.bulk D B true buf cmd.length h).2).2.mem = true) :
    cmd.lba + cmd.blocks ≤ M.blocks ∧ ∀ k < cmd.length,
      (Usb.bulk D B true L.cswAt 13 (Usb.bulk D B true buf cmd.length h).2).2.mem (buf + k) =
        M.byte (M.blockSize * cmd.lba + k) := by
  have fine' : good (Usb.bulk D B true buf cmd.length h).2.dev := steady.bulk fine
  have stored : ∀ k < cmd.length, (Usb.bulk D B true buf cmd.length h).2.mem (buf + k) =
      ((B.receive h.bus (D.plan h.dev true buf cmd.length).1).1 k).getD (h.mem (buf + k)) :=
    fun k below => whole.fill_inside fits below
  have kept := fun k below => @status_outside δ τ σ D L B good bs _ steady fine' _ (apart k below)
  have dataCame : B.receive h.bus (D.plan h.dev true buf cmd.length).1 =
      ((B.receive h.bus (D.plan h.dev true buf cmd.length).1).1, true, (Usb.bulk D B true buf cmd.length h).2.bus) :=
    Prod.ext rfl (Prod.ext came rfl)
  generalize Usb.bulk D B true buf cmd.length h = r at *
  have envelope := steady.envelope r.2.dev true L.cswAt 13 fine' (by decide)
  have statusCame : B.receive r.2.bus (D.plan r.2.dev true L.cswAt 13).1 =
      ((B.receive r.2.bus (D.plan r.2.dev true L.cswAt 13).1).1, true, (Usb.bulk D B true L.cswAt 13 r.2).2.bus) :=
    Prod.ext rfl (Prod.ext answered rfl)
  have promise := honest s₀ h.bus r.2.bus _ out _ _ wrapper cmd _ _ read sent blocks whole.2 dataCame envelope.2 statusCame
  have status : ∀ k < 13, (Usb.bulk D B true L.cswAt 13 r.2).2.mem (L.cswAt + k) =
      ((B.receive r.2.bus (D.plan r.2.dev true L.cswAt 13).1).1 k).getD (r.2.mem (L.cswAt + k)) :=
    fun k below => envelope.fill_inside L.csw_fits below
  have zero : (Usb.bulk D B true L.cswAt 13 r.2).2.mem (L.cswAt + 12) = 0 := (of_decide_eq_true ok).2.2.2.2
  have good' : (B.receive r.2.bus (D.plan r.2.dev true L.cswAt 13).1).1 12 = some 0 := by
    obtain ⟨v, byte⟩ := promise.1 12 (by decide)
    have value := status 12 (by decide)
    rw [zero, byte, Option.getD_some] at value
    rw [byte, value]
  have delivered := promise.2 good'
  exact ⟨delivered.1, fun k below => by rw [kept k below, stored k below, delivered.2 k below, Option.getD_some]⟩

/-- A request that passes has got its blocks from a stick that keeps to the transport. -/
theorem scsiRead10_bytes (steady : Steady D good bs) (fine : good h.dev) (honest : B.Conforms D.spans M)
    (size : M.blockSize = bs) (word : lba < 2 ^ 32) (small : n < 2 ^ 16) (some' : 0 < bs * n) (pos : 0 < buf)
    (fits : buf + bs * n ≤ 2 ^ 32) (whole : ∀ d, good d → Covers (2 ^ 32) buf (bs * n) (D.spansOf d true buf (bs * n)))
    (apart : ∀ k < bs * n, ¬ L.Static (buf + k)) (ok : (scsiRead10 D L B lba n buf h).1 = true) :
    lba + n ≤ M.blocks ∧ ∀ k < bs * n, (scsiRead10 D L B lba n buf h).2.mem (buf + k) = M.byte (bs * lba + k) := by
  have length : u32 (n * D.blockSize h.dev) = bs * n := by
    rw [steady.size h.dev fine, Nat.mul_comm]
    exact u32_of_lt (by omega)
  have data : ∀ h : Host δ σ, dataPhase D B buf (bs * n) true h = Usb.bulk D B true buf (bs * n) h :=
    fun _ => if_pos ⟨Nat.ne_of_gt some', Nat.ne_of_gt pos⟩
  have wrapper := @wrapper_sent δ τ σ D L good bs h (bs * n) true steady fine _ (cbw_length h.tag (bs * n) true lba n)
  have fine' : good (Usb.bulk D B false L.cbwAt 31 (wrap L (read10 lba n) (bs * n) true h)).2.dev := steady.bulk fine
  rw [scsiRead10, length, bbbRequest] at ok ⊢
  obtain ⟨sent, first⟩ := andThen_true ok
  rw [first, data] at ok ⊢
  obtain ⟨came, second⟩ := andThen_true ok
  rw [second] at ok ⊢
  obtain ⟨answered, third⟩ := andThen_true ok
  rw [third] at ok ⊢
  have out : B.send h.bus (D.plan h.dev false L.cbwAt 31).1 (cbw h.tag (bs * n) true (read10 lba n)) =
      (true, (Usb.bulk D B false L.cbwAt 31 (wrap L (read10 lba n) (bs * n) true h)).2.bus) := by
    rw [bulk_send] at sent ⊢
    rw [← wrapper]
    exact Prod.ext sent rfl
  subst size
  exact answer_right steady fine' honest (asRead10_cbw h.tag word small (by omega)) out rfl fits (whole _ fine') apart came
    answered ok

/-! The loop of the disk layer -/

theorem Driver.chunk_le (count : Nat) : D.chunk count ≤ count ∧ D.chunk count ≤ D.sectors := by
  rw [Driver.chunk]
  split_ifs <;> omega

theorem Driver.chunk_pos {count : Nat} (some' : count ≠ 0) : 0 < D.chunk count := by
  have more := D.sectors_pos
  rw [Driver.chunk]
  split_ifs <;> omega

theorem Driver.chunk_mono {count more : Nat} (le : count ≤ more) : D.chunk count ≤ D.chunk more := by
  rw [Driver.chunk, Driver.chunk]
  split_ifs <;> omega

theorem diskRead_zero : diskRead D L B lba 0 buf h = (true, h) := by
  rw [diskRead, dif_pos rfl]

theorem diskRead_step {count : Nat} (some' : count ≠ 0) : diskRead D L B lba count buf h =
    Usb.andThen (scsiRead10 D L B lba (D.chunk count) buf h) fun h =>
      diskRead D L B (u32 (lba + D.chunk count)) (count - D.chunk count) (u32 (buf + 512 * D.chunk count)) h := by
  rw [diskRead, dif_neg some']

/-- A chunk that is right and a rest that is right behind it are right together. -/
theorem Reads.join {count lba' buf' : Nat} {mem mem' : Buffer} {r : Bool × Host δ σ} (le : n ≤ count)
    (chunk : ∀ i < 512 * n, mem' (buf + i) = M.byte (512 * lba + i))
    (kept : ∀ a, (a < buf ∨ buf + 512 * n ≤ a) ∧ ¬ L.Static a → mem' a = mem a)
    (apart : ∀ k < 512 * count, ¬ L.Static (buf + k))
    (place : count - n ≠ 0 → lba' = lba + n ∧ buf' = buf + 512 * n)
    (rest : Reads L M lba' (count - n) buf' mem' r) : Reads L M lba count buf mem r := by
  have outside : ∀ a, (a < buf + 512 * n ∨ buf + 512 * count ≤ a) → a < buf' ∨ buf' + 512 * (count - n) ≤ a := by
    intro a side
    by_cases some' : count - n = 0
    · omega
    · rw [(place some').2]
      omega
  constructor
  · intro done i small
    rcases Nat.lt_or_ge i (512 * n) with now | later
    · rw [rest.inside (buf + i) (outside _ (by omega)) (apart i small)]
      exact chunk i now
    · obtain ⟨j, rfl⟩ := Nat.exists_eq_add_of_le later
      have next := rest.bytes done j (by omega)
      have behind := place (by omega)
      rw [behind.1, behind.2] at next
      rw [← Nat.add_assoc, next]
      exact congrArg M.byte (by omega)
  · intro a side other
    exact (rest.inside a (outside a (by omega)) other).trans (kept a ⟨by omega, other⟩)

theorem diskRead_right (steady : Steady D good 512) (honest : B.Conforms D.spans M) (size : M.blockSize = 512)
    {count : Nat} (fine : good h.dev) (word : lba < 2 ^ 32) (pos : count ≠ 0 → 0 < buf) (fits : buf + 512 * count ≤ 2 ^ 32)
    (apart : ∀ k < 512 * count, ¬ L.Static (buf + k))
    (whole : ∀ d addr m, good d → m ≤ D.chunk count → Covers (2 ^ 32) addr (512 * m) (D.spansOf d true addr (512 * m))) :
    Reads L M lba count buf h.mem (diskRead D L B lba count buf h) := by
  induction count using Nat.strong_induction_on generalizing lba buf h with
  | _ count ih =>
      by_cases none : count = 0
      · subst none
        rw [diskRead_zero]
        exact ⟨fun _ i below => absurd below (by omega), fun _ _ _ => rfl⟩
      · have bound := (D.chunk_le count).1
        have short : D.chunk count < 2 ^ 16 := (D.chunk_le count).2.trans_lt D.sectors_word
        have more := D.chunk_pos none
        have start := pos none
        have fewer : ∀ d addr m, good d → m ≤ D.chunk (count - D.chunk count) →
            Covers (2 ^ 32) addr (512 * m) (D.spansOf d true addr (512 * m)) :=
          fun d addr m fine le => whole d addr m fine (le.trans (D.chunk_mono (Nat.sub_le _ _)))
        have here : ∀ d, good d → Covers (2 ^ 32) buf (512 * D.chunk count) (D.spansOf d true buf (512 * D.chunk count)) :=
          fun d fine => whole d buf _ fine (Nat.le_refl _)
        rw [diskRead_step none]
        generalize D.chunk count = n at *
        have length : u32 (n * D.blockSize h.dev) = 512 * n := by
          rw [steady.size h.dev fine, Nat.mul_comm]
          exact u32_of_lt (by omega)
        have inside : buf + 512 * n ≤ 2 ^ 32 := by omega
        have below : ∀ k, k < 512 * n → k < 512 * count := by omega
        have place : count - n ≠ 0 → u32 (buf + 512 * n) = buf + 512 * n := fun some' => u32_of_lt (by omega)
        have last : u32 (buf + 512 * n) < 2 ^ 32 := u32_lt _
        have first : Keeps good (fun a => (a < buf ∨ buf + 512 * n ≤ a) ∧ ¬ L.Static a) h.mem (scsiRead10 D L B lba n buf h) := by
          rw [scsiRead10, length]
          exact bbbRequest_keeps steady fine (cbw_length _ _ _ _ _) inside here
        have bytes := scsiRead10_bytes steady fine honest size word short (by omega) start inside here
          (fun k small => apart k (below k small))
        have rest := @ih (count - n) (by omega) (scsiRead10 D L B lba n buf h).2 (u32 (lba + n)) (u32 (buf + 512 * n)) first.1
          (u32_lt _) (fun some' => by rw [place some']; omega) (by omega)
          (fun k small => by rw [place (by omega), Nat.add_assoc]; exact apart _ (by omega)) fewer
        rw [Usb.andThen]
        split_ifs with ok
        · have mine := bytes ok
          have sector : u32 (lba + n) = lba + n := u32_of_lt (mine.1.trans_lt M.small)
          exact Reads.join bound mine.2 first.2 apart (fun some' => ⟨sector, place some'⟩) rest
        · exact ⟨fun done => absurd done Bool.false_ne_true, fun a side other => first.2 a ⟨by omega, other⟩⟩

/-- Where all data phases are whole, a driver reads right from blocks of 512 bytes. -/
theorem readsRight_of_whole {d : δ} {count : Nat} {target : Target L count} (steady : Steady D good 512) (fine : good d)
    (whole : ∀ d addr m, good d → m ≤ D.chunk count → Covers (2 ^ 32) addr (512 * m) (D.spansOf d true addr (512 * m))) :
    ReadsRight D L d target := by
  intro σ B M mem tag lba s size honest
  exact diskRead_right (h := ⟨mem, tag, d, s⟩) steady honest (size.trans (steady.size d fine)) fine lba.toNat_lt (fun _ => target.pos) target.fits
    target.apart whole

theorem readsRight_zero {d : δ} {target : Target L 0} : ReadsRight D L d target := by
  intro σ B M mem tag lba s _ _
  rw [diskRead_zero]
  exact ⟨fun _ i below => absurd below (by omega), fun _ _ _ => rfl⟩

end Requests

end Zenbite.Usb
