import Zenbite.Lib.Reads
import Zenbite.Net.Tcp

/-! What net_poll and the input functions below it read of a received frame, and
what they take it for (net.c). -/

namespace Zenbite.Net

open Memory Reads

abbrev Mac := Vector UInt8 6

/-- What n->poll reports: the frame buffer behind the call and the `int` it
returns. Bytes behind the length are left over from earlier frames. -/
structure Received where
  bytes : Buffer
  len : Nat
  len_lt : len < 2 ^ 31

/-- The state of the stack that decides what a frame is taken for. -/
structure Listening where
  ip : Nat
  udpListenPort : Nat
  udpRecvReady : Bool
  tcp : Conn

/-- What an input function does with a frame, all that it reads of it included. -/
inductive Msg where
  | dropped
  | arp (spa : Nat) (sha : Mac) (asked : Bool)
  | echo (src : Nat) (reply : List UInt8)
  | echoReply (id seq : Nat)
  | datagram (src sport : Nat) (data : List UInt8)
  | segment (g : Segment)
  deriving DecidableEq

namespace Frame

open Look

def ethHdrSize : Nat := 14
def arpHdrSize : Nat := 28
def ipHdrSize : Nat := 20
def icmpHdrSize : Nat := 8
def udpHdrSize : Nat := 8

def ethTypeIpv4 : Nat := 0x0800
def ethTypeArp : Nat := 0x0806

def protoIcmp : Nat := 1
def protoTcp : Nat := 6
def protoUdp : Nat := 17

/-- sizeof reply, sizeof udp_recv_buf -/
def msgMax : Nat := 1500

/-- A payload that is handed on by its address and length. -/
def payload (start size : Nat) : Look Unit := field start size fun _ => ()

def mac (off : Nat) : Look Mac := field off 6 fun m => Vector.ofFn fun i => m (off + i)

def arpInput (s : Listening) (pkt len : Nat) : Look Msg :=
  if len < arpHdrSize then pure .dropped
  else do
    let ptype ← net16 (pkt + 2)
    if ptype ≠ ethTypeIpv4 then pure .dropped
    else do
      let spa ← raw32 (pkt + 14)
      let sha ← mac (pkt + 8)
      let op ← net16 (pkt + 6)
      if op = 1 then do
        let tpa ← raw32 (pkt + 24)
        pure (.arp spa sha (tpa = s.ip))
      else pure (.arp spa sha false)

def icmpInput (src pkt len : Nat) : Look Msg :=
  if len < icmpHdrSize then pure .dropped
  else do
    let type ← byte pkt
    if type = 8 then do
      let reply ← bytes pkt (min len msgMax)
      pure (.echo src reply)
    else if type = 0 then do
      let id ← net16 (pkt + 4)
      let seq ← net16 (pkt + 6)
      pure (.echoReply id seq)
    else pure .dropped

def udpInput (s : Listening) (src pkt len : Nat) : Look Msg :=
  if len < udpHdrSize then pure .dropped
  else do
    let dport ← net16 (pkt + 2)
    if s.udpListenPort ≠ dport ∨ s.udpRecvReady then pure .dropped
    else do
      let plen ← net16 (pkt + 4)
      if plen < udpHdrSize ∨ len < plen then pure .dropped
      else do
        payload (pkt + udpHdrSize) (plen - udpHdrSize)
        let data ← bytes (pkt + udpHdrSize) (min (plen - udpHdrSize) msgMax)
        let sport ← net16 pkt
        pure (.datagram src sport data)

/-- The data of a segment is looked at later, and only as far as the ring has room. -/
def tcpInput (s : Listening) (src pkt len : Nat) : Look Msg :=
  if len < tcpHdrSize then pure .dropped
  else if s.tcp.state = .closed then pure .dropped
  else do
    let dport ← net16 (pkt + 2)
    if dport ≠ s.tcp.srcPort then pure .dropped
    else if src ≠ s.tcp.dstIp then pure .dropped
    else do
      let sport ← net16 pkt
      if sport ≠ s.tcp.dstPort then pure .dropped
      else do
        let seq ← net32 (pkt + 4)
        let ack ← net32 (pkt + 8)
        let flags ← byte (pkt + 13)
        let dataOff ← byte (pkt + 12)
        if len < dataOff / 2 ^ 4 * 4 then pure .dropped
        else do
          let data ← bytes (pkt + dataOff / 2 ^ 4 * 4) (len - dataOff / 2 ^ 4 * 4)
          pure (.segment ⟨seq, ack, UInt8.ofNat flags, data⟩)

/-- `plen - hlen` in unsigned arithmetic. -/
def ipPayload (totLen len hlen : Nat) : Nat :=
  u32 ((if len < totLen then len else totLen) + 2 ^ 32 - hlen)

/-- The switch on the protocol. -/
def dispatch (s : Listening) (proto pkt data len : Nat) : Look Msg :=
  if proto = protoIcmp then do
    let src ← raw32 (pkt + 12)
    icmpInput src data len
  else if proto = protoUdp then do
    let src ← raw32 (pkt + 12)
    udpInput s src data len
  else if proto = protoTcp then do
    let src ← raw32 (pkt + 12)
    tcpInput s src data len
  else pure .dropped

def ipInput (s : Listening) (pkt len : Nat) : Look Msg :=
  if len < ipHdrSize then pure .dropped
  else do
    let vihl ← byte pkt
    let hlen := vihl % 2 ^ 4 * 4
    if vihl / 2 ^ 4 ≠ 4 then pure .dropped
    else if hlen < ipHdrSize ∨ len < hlen then pure .dropped
    else do
      let totLen ← net16 (pkt + 2)
      payload (pkt + hlen) (ipPayload totLen len hlen)
      let dst ← raw32 (pkt + 16)
      let proto ← byte (pkt + 9)
      if dst ≠ s.ip ∧ dst ≠ 0xFFFFFFFF ∧ proto ≠ protoIcmp then pure .dropped
      else dispatch s proto pkt (pkt + hlen) (ipPayload totLen len hlen)

/-- One round of net_poll: the frame buffer starts at 0 and holds `len` bytes. -/
def netInput (s : Listening) (len : Nat) : Look Msg :=
  if len < ethHdrSize then pure .dropped
  else do
    let type ← net16 12
    if type = ethTypeArp then arpInput s 14 (len - 14)
    else if type = ethTypeIpv4 then ipInput s 14 (len - 14)
    else pure .dropped

section Handlers
variable (s : Listening) (m : Buffer) (src : Nat) {pkt len size : Nat}

theorem arpInput_inside (fits : pkt + size ≤ len) : (arpInput s pkt size).Inside len m := by
  rw [arpInput, inside_ite]
  split
  next => exact (inside_pure len m _).mpr trivial
  next long =>
    simp only [arpHdrSize] at long
    simp only [inside_bind, inside_ite, inside_net16, inside_raw32, inside_pure, mac, inside_field]
    split_ifs <;> grind

theorem icmpInput_inside (fits : pkt + size ≤ len) : (icmpInput src pkt size).Inside len m := by
  rw [icmpInput, inside_ite]
  split
  next => exact (inside_pure len m _).mpr trivial
  next long =>
    simp only [icmpHdrSize] at long
    simp only [inside_bind, inside_ite, inside_net16, inside_byte, inside_bytes, inside_pure]
    split_ifs <;> grind

theorem udpInput_inside (fits : pkt + size ≤ len) : (udpInput s src pkt size).Inside len m := by
  rw [udpInput, inside_ite]
  split
  next => exact (inside_pure len m _).mpr trivial
  next long =>
    simp only [udpHdrSize] at long
    simp only [inside_bind, inside_ite, inside_net16, inside_bytes, inside_pure, payload,
      inside_field]
    split_ifs <;> grind [udpHdrSize]

theorem tcpInput_inside (fits : pkt + size ≤ len) : (tcpInput s src pkt size).Inside len m := by
  rw [tcpInput, inside_ite]
  split
  next => exact (inside_pure len m _).mpr trivial
  next long =>
    simp only [tcpHdrSize] at long
    simp only [inside_bind, inside_ite, inside_net16, inside_net32, inside_byte, inside_bytes,
      inside_pure]
    split_ifs <;> grind

/-- Each handler below IP stays in the payload it is given. -/
theorem dispatch_inside (proto data : Nat) (header : pkt + ipHdrSize ≤ len)
    (fits : data + size ≤ len) : (dispatch s proto pkt data size).Inside len m := by
  simp only [ipHdrSize] at header
  have read : (raw32 (pkt + 12)).Inside len m := (inside_raw32 len m _).mpr (by omega)
  rw [dispatch, inside_ite, inside_ite, inside_ite]
  split_ifs
  · exact (inside_bind len m _ _).mpr ⟨read, icmpInput_inside m _ fits⟩
  · exact (inside_bind len m _ _).mpr ⟨read, udpInput_inside s m _ fits⟩
  · exact (inside_bind len m _ _).mpr ⟨read, tcpInput_inside s m _ fits⟩
  · exact (inside_pure len m _).mpr trivial

end Handlers

/-- The payload length is right exactly when the total length counts the header. -/
theorem ipPayload_fits {total size head : Nat} (small : total < 2 ^ 16) (int : size < 2 ^ 31)
    (inside : head ≤ size) (least : ipHdrSize ≤ head) :
    head + ipPayload total size head ≤ size ↔ head ≤ total := by
  simp only [ipHdrSize] at least
  simp only [ipPayload, u32]
  split <;> omega

theorem net16_lt (off : Nat) (m : Buffer) : (net16 off m).1 < 2 ^ 16 := by
  have high := (m off).toNat_lt
  have low := (m (off + 1)).toNat_lt
  simp only [net16, field]
  omega

/-- The header checks of ip_input on a packet of `size` bytes at `pkt`. -/
def HeaderPasses (m : Buffer) (pkt size : Nat) : Prop :=
  ipHdrSize ≤ size ∧ (m pkt).toNat / 2 ^ 4 = 4 ∧
    ipHdrSize ≤ (m pkt).toNat % 2 ^ 4 * 4 ∧ (m pkt).toNat % 2 ^ 4 * 4 ≤ size

instance (m : Buffer) (pkt size : Nat) : Decidable (HeaderPasses m pkt size) :=
  inferInstanceAs (Decidable (_ ∧ _))

/-- A packet whose total length is shorter than its own header. -/
def TotalShort (m : Buffer) (pkt size : Nat) : Prop :=
  HeaderPasses m pkt size ∧ (net16 (pkt + 2) m).1 < (m pkt).toNat % 2 ^ 4 * 4

instance (m : Buffer) (pkt size : Nat) : Decidable (TotalShort m pkt size) :=
  inferInstanceAs (Decidable (_ ∧ _))

theorem ipInput_inside_iff (s : Listening) (m : Buffer) {pkt size len : Nat}
    (whole : pkt + size = len) (int : size < 2 ^ 31) :
    (ipInput s pkt size).Inside len m ↔ ¬TotalShort m pkt size := by
  have version : (byte pkt m).1 = (m pkt).toNat := rfl
  rw [ipInput, inside_ite]
  split
  next short =>
    exact iff_of_true ((inside_pure len m _).mpr trivial) fun bad => absurd bad.1.1 (by omega)
  next long =>
    have header : pkt + ipHdrSize ≤ len := by omega
    rw [inside_bind, version, inside_ite]
    have read : (byte pkt).Inside len m :=
      (inside_byte len m pkt).mpr (by simp only [ipHdrSize] at header; omega)
    refine (and_iff_right read).trans ?_
    split
    next other => exact iff_of_true ((inside_pure len m _).mpr trivial) fun bad => other bad.1.2.1
    next four =>
      rw [inside_ite]
      split
      next bad =>
        refine iff_of_true ((inside_pure len m _).mpr trivial) fun short => ?_
        obtain ⟨-, -, least, most⟩ := short.1
        omega
      next good =>
        have least : ipHdrSize ≤ (m pkt).toNat % 2 ^ 4 * 4 := by omega
        have most : (m pkt).toNat % 2 ^ 4 * 4 ≤ size := by omega
        have fits := ipPayload_fits (net16_lt (pkt + 2) m) int most least
        have total : (net16 (pkt + 2)).Inside len m :=
          (inside_net16 len m _).mpr (by simp only [ipHdrSize] at header; omega)
        rw [inside_bind, and_iff_right total, inside_bind, payload, inside_field]
        constructor
        · rintro ⟨span, -⟩ short
          have counted := fits.mp (by omega)
          exact absurd short.2 (by omega)
        · intro counted
          have whole' : (m pkt).toNat % 2 ^ 4 * 4 ≤ (net16 (pkt + 2) m).1 := by
            by_contra short
            exact counted ⟨⟨by omega, by omega, least, most⟩, by omega⟩
          have span := fits.mpr whole'
          refine ⟨by omega, ?_⟩
          rw [inside_bind, inside_bind, inside_ite]
          refine ⟨(inside_raw32 len m _).mpr ?_, (inside_byte len m _).mpr ?_, ?_⟩
          · simp only [ipHdrSize] at header
            omega
          · simp only [ipHdrSize] at header
            omega
          split
          next => exact (inside_pure len m _).mpr trivial
          next => exact dispatch_inside s m _ _ header (by omega)

/-- Every header field and payload that handling a frame reads, and every payload
length it computes, is inside the received bytes exactly when the frame is no IPv4
packet with a total length below its header length. -/
theorem frame_inside_iff (s : Listening) (r : Received) :
    (netInput s r.len).Inside r.len r.bytes ↔
      ¬(ethHdrSize ≤ r.len ∧ (net16 12 r.bytes).1 = ethTypeIpv4 ∧
        TotalShort r.bytes 14 (r.len - 14)) := by
  have int := r.len_lt
  rw [netInput, inside_ite]
  split
  next short =>
    exact iff_of_true ((inside_pure r.len r.bytes _).mpr trivial) fun bad => absurd bad.1 (by omega)
  next long =>
    simp only [ethHdrSize] at long
    have whole : 14 + (r.len - 14) = r.len := by omega
    have type : (net16 12).Inside r.len r.bytes := (inside_net16 r.len r.bytes 12).mpr (by omega)
    rw [inside_bind, and_iff_right type, inside_ite, inside_ite]
    split
    next arp =>
      refine iff_of_true (arpInput_inside s r.bytes (by omega)) fun bad => ?_
      exact absurd (arp.symm.trans bad.2.1) (by decide)
    next =>
      split
      next ip =>
        rw [ipInput_inside_iff s r.bytes whole (by omega)]
        constructor
        · exact fun counted bad => counted bad.2.2
        · exact fun counted bad => counted ⟨by simp only [ethHdrSize]; omega, ip, bad⟩
      next other =>
        exact iff_of_true ((inside_pure r.len r.bytes _).mpr trivial) fun bad => other bad.2.1

/-- A stack at rest, with the address of e1000_init. -/
def idle : Listening :=
  ⟨0x1002000A, 0, false, ⟨.closed, 0, 0, 0, 0, 0, 0, 0, fun _ => 0, 0, 0, []⟩⟩

/-- An echo request of 42 bytes whose IP total length is 0. -/
def totalZero : Received where
  bytes := poke (fun _ => 0) 12 [0x08, 0x00, 0x45, 0, 0, 0, 0, 0, 0, 0, 64, 1, 0, 0, 10, 0, 2, 2,
    10, 0, 2, 16, 8]
  len := 42
  len_lt := by decide

/-- The ICMP length comes out near 2^32 and the reply copies 1500 bytes of a
frame that has 8 left. -/
theorem totalZero_reads_outside :
    (⟨34, 2 ^ 32 - 20⟩ : Span) ∈ (netInput idle totalZero.len totalZero.bytes).2 ∧
      (⟨34, 1500⟩ : Span) ∈ (netInput idle totalZero.len totalZero.bytes).2 ∧
        ¬(netInput idle totalZero.len).Inside totalZero.len totalZero.bytes := by
  decide +kernel

end Frame

end Zenbite.Net
