import Zenbite.Lib.Memory
import Zenbite.Lib.Ring

/-! The TCP client (net.c): one connection, in-order receive into a ring, and the
calls of the blocking interface. -/

namespace Zenbite.Net

open Memory

/-- `enum tcp_state`. -/
inductive TcpState where
  | closed | synSent | established | finWait | closeWait | closedByPeer
  deriving DecidableEq, Repr

/-- `state >= TCP_S_ESTABLISHED`. -/
def TcpState.Open : TcpState → Prop
  | .closed | .synSent => False
  | _ => True

instance : DecidablePred TcpState.Open
  | .closed | .synSent => inferInstanceAs (Decidable False)
  | .established | .finWait | .closeWait | .closedByPeer => inferInstanceAs (Decidable True)

def tcpFin : UInt8 := 0x01
def tcpSyn : UInt8 := 0x02
def tcpRst : UInt8 := 0x04
def tcpPsh : UInt8 := 0x08
def tcpAck : UInt8 := 0x10

def rbufSize : Nat := 4096
def tcpHdrSize : Nat := 20

/-- A segment that tcp_emit sends; window and checksum are left out. -/
structure Emitted where
  flags : UInt8
  seq : Nat
  ack : Nat
  payload : List UInt8
  deriving DecidableEq, Repr

/-- `struct tcp_conn`. `sent` is a ghost: the segments sent, latest first. -/
structure Conn where
  state : TcpState
  srcIp : Nat
  dstIp : Nat
  srcPort : Nat
  dstPort : Nat
  sndNxt : Nat
  sndUna : Nat
  rcvNxt : Nat
  rbuf : Buffer
  rhead : Nat
  rtail : Nat
  sent : List Emitted

/-- What ip_input hands over: the source address and the bytes behind the IP header. -/
structure Packet where
  src : Nat
  bytes : List UInt8

/-- Bytes on the wire are big-endian. -/
def be16 (bytes : List UInt8) (off : Nat) : Nat :=
  (bytes.getD off 0).toNat * 2 ^ 8 + (bytes.getD (off + 1) 0).toNat

def be32 (bytes : List UInt8) (off : Nat) : Nat := be16 bytes off * 2 ^ 16 + be16 bytes (off + 2)

/-- The fields that tcp_input uses, behind its checks of the header. -/
structure Segment where
  seq : Nat
  ack : Nat
  flags : UInt8
  data : List UInt8
  deriving DecidableEq, Repr

def Segment.has (g : Segment) (flag : UInt8) : Bool := g.flags &&& flag != 0

namespace Conn

def emit (c : Conn) (flags : UInt8) (data : List UInt8) : Conn :=
  if 1500 < data.length + tcpHdrSize then c
  else { c with sent := ⟨flags, c.sndNxt, c.rcvNxt, data⟩ :: c.sent }

/-- The checks of tcp_input: the packet is for this connection and its header
length is inside. -/
def segment (c : Conn) (p : Packet) : Option Segment :=
  if p.bytes.length < tcpHdrSize ∨ c.state = .closed ∨ be16 p.bytes 2 ≠ c.srcPort ∨
      p.src ≠ c.dstIp ∨ be16 p.bytes 0 ≠ c.dstPort then none
  else
    let hlen := (p.bytes.getD 12 0).toNat / 2 ^ 4 * 4
    if p.bytes.length < hlen then none
    else some ⟨be32 p.bytes 4, be32 p.bytes 8, p.bytes.getD 13 0, p.bytes.drop hlen⟩

/-- The loop that stores payload: it stops when the ring is full. -/
def store (c : Conn) : List UInt8 → Conn
  | [] => c
  | x :: xs =>
    let next := Ring.next rbufSize c.rhead
    if next = c.rtail then c
    else store { c with rbuf := fun i => if i = c.rhead then x else c.rbuf i, rhead := next } xs

/-- The part of tcp_input for a connection that is open. -/
def inputOpen (c : Conn) (g : Segment) : Conn :=
  let c := if g.data ≠ [] ∧ g.seq = c.rcvNxt then
      let c := c.store g.data
      ({ c with rcvNxt := u32 (c.rcvNxt + g.data.length) }).emit tcpAck []
    else c
  let c := if g.has tcpAck then { c with sndUna := g.ack } else c
  if g.has tcpFin then
    { ({ c with rcvNxt := u32 (c.rcvNxt + 1) }).emit tcpAck [] with state := .closedByPeer }
  else c

/-- tcp_input behind the checks. -/
def input (c : Conn) (g : Segment) : Conn :=
  if g.has tcpRst then { c with state := .closed }
  else if c.state = .synSent then
    if g.flags &&& (tcpSyn ||| tcpAck) = tcpSyn ||| tcpAck then
      ({ c with
        rcvNxt := u32 (g.seq + 1), sndUna := g.ack, sndNxt := g.ack, state := .established }).emit tcpAck []
    else c
  else if c.state.Open then c.inputOpen g
  else c

/-- Storing changes nothing but the ring. -/
theorem store_frame (data : List UInt8) : ∀ c : Conn,
    ∃ rbuf rhead, c.store data = { c with rbuf := rbuf, rhead := rhead } := by
  induction data with
  | nil => exact fun c => ⟨c.rbuf, c.rhead, rfl⟩
  | cons x xs ih =>
      intro c
      rw [store]
      split
      · exact ⟨c.rbuf, c.rhead, rfl⟩
      · exact ih _

theorem emit_nil (c : Conn) (flags : UInt8) :
    c.emit flags [] = { c with sent := ⟨flags, c.sndNxt, c.rcvNxt, []⟩ :: c.sent } :=
  if_neg (by decide)

/-- The first part of inputOpen: payload at the next sequence number. -/
def acceptData (c : Conn) (g : Segment) : Conn :=
  if g.data ≠ [] ∧ g.seq = c.rcvNxt then
    let c := c.store g.data
    ({ c with rcvNxt := u32 (c.rcvNxt + g.data.length) }).emit tcpAck []
  else c

/-- The rest of inputOpen. -/
def acceptFin (c : Conn) (g : Segment) : Conn :=
  let c := if g.has tcpAck then { c with sndUna := g.ack } else c
  if g.has tcpFin then
    { ({ c with rcvNxt := u32 (c.rcvNxt + 1) }).emit tcpAck [] with state := .closedByPeer }
  else c

theorem inputOpen_parts (c : Conn) (g : Segment) : c.inputOpen g = (c.acceptData g).acceptFin g := rfl

end Conn

def tcpInput (p : Packet) (c : Conn) : Conn :=
  match c.segment p with
  | none => c
  | some g => c.input g

/-- net_poll, as far as this connection goes: the packets it finds. -/
def netPoll (found : List Packet) (c : Conn) : Conn := found.foldl (fun c p => tcpInput p c) c

/-- The inner loop of tcp_recv; `n` bytes still fit. -/
def Conn.drain : Nat → Conn → List UInt8 × Conn
  | 0, c => ([], c)
  | n + 1, c =>
    if c.rtail = c.rhead then ([], c)
    else
      let r := drain n { c with rtail := Ring.next rbufSize c.rtail }
      (c.rbuf c.rtail :: r.1, r.2)

/-- Draining moves the tail and nothing else. -/
theorem Conn.drain_frame (n : Nat) : ∀ c : Conn, ∃ rtail, (c.drain n).2 = { c with rtail := rtail } := by
  induction n with
  | zero => exact fun c => ⟨c.rtail, rfl⟩
  | succ n ih =>
      intro c
      rw [Conn.drain]
      split
      · exact ⟨c.rtail, rfl⟩
      · exact ih _

/-- One round of a waiting loop: the packets that net_poll finds and whether the
time is up afterwards. -/
structure Round where
  found : List Packet
  late : Bool

/-- tcp_recv with the rounds it gets: the return value, the bytes and the
connection; no return value while it still waits. -/
def tcpRecv (max : Nat) : List Round → Conn → Option Int × List UInt8 × Conn
  | [], c => (if max = 0 then some 0 else none, [], c)
  | round :: rounds, c =>
    if max = 0 then (some 0, [], c)
    else
      let r := (netPoll round.found c).drain max
      if r.1 ≠ [] then (some r.1.length, r)
      else if r.2.state = .closedByPeer ∨ r.2.state = .closed then (some 0, [], r.2)
      else if round.late then (some (-1), [], r.2)
      else tcpRecv max rounds r.2

/-- tcp_connect up to its first poll: `ip` and `port` of the other end, the clock
and the ephemeral port. -/
def tcpOpen (ip dst port ephemeral ticks : Nat) (sent : List Emitted) : Conn :=
  let c : Conn := ⟨.synSent, ip, dst, ephemeral, port, u32 (ticks * 1009 + 0xC0DE), 0, 0, fun _ => 0, 0, 0, sent⟩
  let c := c.emit tcpSyn []
  { c with sndNxt := u32 (c.sndNxt + 1) }

/-- The waiting loop of tcp_connect. -/
def connectWait : List Round → Conn → Option Int × Conn
  | [], c => (none, c)
  | round :: rounds, c =>
    if round.late then (some (-1), { c with state := .closed })
    else
      let c := netPoll round.found c
      if c.state = .established then (some 0, c)
      else if c.state = .closed then (some (-1), c)
      else connectWait rounds c

/-- tcp_send: the payload goes out in pieces of 1400 bytes; `waits` holds what the
polls behind each piece find. -/
def sendFrom : Nat → List UInt8 → List (List Packet) → Conn → Conn
  | 0, _, _, c => c
  | fuel + 1, data, waits, c =>
    if data = [] then c
    else
      let n := min data.length 1400
      let c := c.emit (tcpAck ||| tcpPsh) (data.take n)
      let c := { c with sndNxt := u32 (c.sndNxt + n) }
      sendFrom fuel (data.drop n) waits.tail (netPoll (waits.headD []) c)

def tcpSend (data : List UInt8) (waits : List (List Packet)) (c : Conn) : Int × Conn :=
  if c.state = .established then (data.length, sendFrom data.length data waits c) else (-1, c)

/-- tcp_close; `found` is what its polls find. -/
def tcpClose (found : List Packet) (c : Conn) : Conn :=
  let c := if c.state = .established ∨ c.state = .closedByPeer then
      let c := c.emit (tcpFin ||| tcpAck) []
      netPoll found { c with sndNxt := u32 (c.sndNxt + 1) }
    else c
  { c with state := .closed }

end Zenbite.Net
