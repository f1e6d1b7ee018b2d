import Mathlib.Data.List.GetD
import Zenbite.Net.Frames

/-! Sending (net.c): the ARP cache, ip_send with its static buffer, and net_poll as
ip_send runs it while it waits for an ARP reply. The input functions send through
ip_send again. -/

namespace Zenbite.Net

open Memory Reads Frame

/-- `struct net_iface`; addresses are words as they lie in memory. -/
structure Iface where
  present : Bool
  mac : Mac
  ip : Nat
  netmask : Nat
  gateway : Nat

/-- The arguments of ip_send. -/
structure Outgoing where
  dst : UInt32
  proto : UInt8
  payload : List UInt8
  deriving DecidableEq, Repr

/-- A frame that net_poll hands to an input function, with the connection at that time. -/
structure Heard where
  msg : Msg
  tcp : Conn

/-- What udp_input leaves for udp_recv. -/
structure UdpRecv where
  src : Nat
  sport : Nat
  data : List UInt8

/-- The statics of net.c. `polls` and `reads` count the calls of n->poll and
pit_ticks. Ghosts, latest first: `wire` has the frames given to n->tx, `begun` the
packets that ip_send has put into its buffer, `heard` what net_poll handed on. -/
structure Host where
  iface : Iface
  arpCache : List (Option (Nat × Mac))
  buf : Buffer
  ipId : Nat
  icmpReply : Option (Nat × Nat)
  udpListenPort : Nat
  udpRecv : Option UdpRecv
  tcp : Conn
  polls : Nat
  reads : Nat
  wire : List (List UInt8)
  begun : List Outgoing
  heard : List Heard

/-- The world outside: what each call of n->poll and of pit_ticks gives. -/
structure World where
  arrive : Nat → Received
  ticks : Nat → Nat

/-- A 16-bit field on the wire. -/
def netBytes (v : Nat) : List UInt8 := [UInt8.ofNat (v / 2 ^ 8), UInt8.ofNat v]

def netBytes32 (v : Nat) : List UInt8 := netBytes (v / 2 ^ 16) ++ netBytes v

/-- The sum of ip_checksum over 16-bit words. -/
def wordSum : List UInt8 → Nat
  | a :: b :: rest => a.toNat * 2 ^ 8 + b.toNat + wordSum rest
  | [a] => a.toNat * 2 ^ 8
  | [] => 0

def carry (sum : Nat) : Nat := sum % 2 ^ 16 + sum / 2 ^ 16

/-- ip_checksum, before htons. Two rounds take the carries of any 32-bit sum in. -/
def ipChecksum (bytes : List UInt8) : Nat := 0xFFFF - carry (carry (wordSum bytes))

/-- sizeof buf -/
def sendMax : Nat := 1504

/-- The IPv4 header with the checksum field given. -/
def ipFields (id ip : Nat) (p : Outgoing) (checksum : Nat) : List UInt8 :=
  [0x45, 0] ++ netBytes (ipHdrSize + p.payload.length) ++ netBytes id ++ [0, 0, 64, p.proto] ++
    netBytes checksum ++ bytesOf ip 4 ++ bytesOf p.dst.toNat 4

def ipHeader (id ip : Nat) (p : Outgoing) : List UInt8 :=
  ipFields id ip p (ipChecksum (ipFields id ip p 0))

namespace Host

def listening (h : Host) : Listening := ⟨h.iface.ip, h.udpListenPort, h.udpRecv.isSome, h.tcp⟩

/-- The slot of the cache that is valid and for `ip`. -/
def arpSlot (h : Host) (ip : Nat) : Option Nat :=
  h.arpCache.findIdx? fun slot => slot.any fun entry => entry.1 = ip

def arpFind (h : Host) (ip : Nat) : Option Mac :=
  h.arpCache.findSome? fun slot =>
    slot.bind fun entry => if entry.1 = ip then some entry.2 else none

/-- The slot of `ip`, else a free one, else slot 0. -/
def arpInsert (ip : Nat) (mac : Mac) (h : Host) : Host :=
  let free := (h.arpCache.findIdx? fun slot => slot.isNone).getD 0
  { h with arpCache := h.arpCache.set ((h.arpSlot ip).getD free) (some (ip, mac)) }

def ethSend (dst : Mac) (type : Nat) (data : List UInt8) (h : Host) : Host :=
  if h.iface.present then
    let frame := dst.toList ++ h.iface.mac.toList ++ netBytes type ++ data.take sendMax
    { h with wire := frame :: h.wire }
  else h

def arpPacket (h : Host) (op : Nat) (tha : Mac) (tpa : Nat) : List UInt8 :=
  netBytes 1 ++ netBytes ethTypeIpv4 ++ [6, 4] ++ netBytes op ++ h.iface.mac.toList ++
    bytesOf h.iface.ip 4 ++ tha.toList ++ bytesOf tpa 4

def broadcast : Mac := Vector.replicate 6 0xFF

def arpRequest (target : Nat) (h : Host) : Host :=
  h.ethSend broadcast ethTypeArp (h.arpPacket 1 (Vector.replicate 6 0) target)

/-- arp_input behind the checks. -/
def arpInput (spa : Nat) (sha : Mac) (asked : Bool) (h : Host) : Host :=
  let h := h.arpInsert spa sha
  if asked then h.ethSend sha ethTypeArp (h.arpPacket 2 sha spa) else h

/-- The packet in the static buffer: header, then payload. -/
def build (p : Outgoing) (h : Host) : Host :=
  let id := (h.ipId + 1) % 2 ^ 16
  { h with
    ipId := id
    buf := poke (poke h.buf 0 (ipHeader id h.iface.ip p)) ipHdrSize p.payload
    begun := p :: h.begun }

def nextHop (h : Host) (dst : Nat) : Nat :=
  if (dst ^^^ h.iface.ip) &&& h.iface.netmask ≠ 0 then h.iface.gateway else dst

/-- The echo reply: type and checksum anew, the rest as it came. -/
def echoReply (request : List UInt8) : List UInt8 :=
  let reply := ((request.set 0 0).set 2 0).set 3 0
  let checksum := ipChecksum reply
  (reply.set 2 (UInt8.ofNat (checksum / 2 ^ 8))).set 3 (UInt8.ofNat checksum)

def tcpFields (c : Conn) (flags : UInt8) (checksum : Nat) : List UInt8 :=
  netBytes c.srcPort ++ netBytes c.dstPort ++ netBytes32 c.sndNxt ++ netBytes32 c.rcvNxt ++
    [0x50, flags] ++ netBytes 4096 ++ netBytes checksum ++ netBytes 0

/-- tcp_checksum: over the pseudo-header and the segment. -/
def tcpChecksum (src dst : Nat) (segment : List UInt8) : Nat :=
  if 1600 < segment.length + 12 then 0
  else ipChecksum (bytesOf src 4 ++ bytesOf dst 4 ++ [0, 6] ++ netBytes segment.length ++ segment)

def tcpPacket (c : Conn) (flags : UInt8) (data : List UInt8) : Outgoing :=
  let checksum := tcpChecksum c.srcIp c.dstIp (tcpFields c flags 0 ++ data)
  ⟨UInt32.ofNat c.dstIp, 6, tcpFields c flags checksum ++ data⟩

end Host

/-- ip_send as the functions that call it see it. -/
abbrev Send := Outgoing → Host → Option (Int × Host)

section Input
variable (send : Send)

def tcpEmit (flags : UInt8) (data : List UInt8) (h : Host) : Option Host :=
  if 1500 < data.length + tcpHdrSize then some h
  else (send (Host.tcpPacket h.tcp flags data) { h with tcp := h.tcp.emit flags data }).map (·.2)

/-- In-order data goes to the ring and is acknowledged. -/
def acceptData (g : Segment) (h : Host) : Option Host :=
  if g.data ≠ [] ∧ g.seq = h.tcp.rcvNxt then
    let c := h.tcp.store g.data
    tcpEmit send tcpAck [] { h with tcp := { c with rcvNxt := u32 (c.rcvNxt + g.data.length) } }
  else some h

def acceptFin (g : Segment) (h : Host) : Option Host :=
  let h := if g.has tcpAck then { h with tcp := { h.tcp with sndUna := g.ack } } else h
  if g.has tcpFin then
    (tcpEmit send tcpAck [] { h with tcp := { h.tcp with rcvNxt := u32 (h.tcp.rcvNxt + 1) } }).map
      fun h => { h with tcp := { h.tcp with state := .closedByPeer } }
  else some h

/-- tcp_input behind the checks. -/
def tcpHandle (g : Segment) (h : Host) : Option Host :=
  if g.has tcpRst then some { h with tcp := { h.tcp with state := .closed } }
  else if h.tcp.state = .synSent then
    if g.flags &&& (tcpSyn ||| tcpAck) = tcpSyn ||| tcpAck then
      tcpEmit send tcpAck [] { h with tcp := { h.tcp with
        rcvNxt := u32 (g.seq + 1), sndUna := g.ack, sndNxt := g.ack, state := .established } }
    else some h
  else if h.tcp.state.Open then (acceptData send g h).bind (acceptFin send g)
  else some h

/-- What the input functions do with what they found. -/
def handle (msg : Msg) (h : Host) : Option Host :=
  match msg with
  | .dropped => some h
  | .arp spa sha asked => some (h.arpInput spa sha asked)
  | .echo src request => (send ⟨UInt32.ofNat src, 1, Host.echoReply request⟩ h).map (·.2)
  | .echoReply id seq => some { h with icmpReply := some (id, seq) }
  | .datagram src sport data => some { h with udpRecv := some ⟨src, sport, data⟩ }
  | .segment g => tcpHandle send g h

variable (world : World)

/-- The loop of net_poll: up to `n` frames. -/
def pollFrames : Nat → Host → Option Host
  | 0, h => some h
  | n + 1, h =>
    let r := world.arrive h.polls
    let h := { h with polls := h.polls + 1 }
    if r.len = 0 then some h
    else
      let msg := (netInput h.listening r.len r.bytes).1
      (handle send msg { h with heard := ⟨msg, h.tcp⟩ :: h.heard }).bind (pollFrames n)

def netPollVia (h : Host) : Option Host :=
  if h.iface.present then pollFrames send world 8 h else some h

/-- `while (pit_ticks() - t0 < 50) net_poll();` -/
def waitTicks (t0 : Nat) : Nat → Host → Option Host
  | 0, _ => none
  | fuel + 1, h =>
    let t := world.ticks h.reads
    let h := { h with reads := h.reads + 1 }
    if u32 (t + 2 ^ 32 - t0) < 50 then (netPollVia send world h).bind (waitTicks t0 fuel)
    else some h

/-- The waiting loop of ip_send, with the tries that are left. -/
def resolve (fuel hop : Nat) : Nat → Host → Option Host
  | 0, h => some h
  | tries + 1, h =>
    if (h.arpFind hop).isSome then some h
    else
      let h := h.arpRequest hop
      let t0 := world.ticks h.reads
      (waitTicks send world t0 fuel { h with reads := h.reads + 1 }).bind (resolve fuel hop tries)

end Input

/-- ip_send; `fuel` bounds how deep calls nest and how often a loop polls. No result
means that the call has not returned yet. -/
def ipSend (world : World) : Nat → Send
  | 0, _, _ => none
  | fuel + 1, p, h =>
    -- len + sizeof *h does not wrap: no buffer is that long
    if sendMax < p.payload.length + ipHdrSize then some (-1, h)
    else
      let hop := h.nextHop p.dst.toNat
      (resolve (ipSend world fuel) world fuel hop 5 (h.build p)).map fun h =>
        match h.arpFind hop with
        | none => (-1, h)
        | some mac =>
          (p.payload.length,
            h.ethSend mac ethTypeIpv4 ((List.range (ipHdrSize + p.payload.length)).map h.buf))

/-! What arrives while ip_send waits -/

/-- The segment makes tcp_input send. -/
def Conn.Answers (c : Conn) (g : Segment) : Prop :=
  g.has tcpRst = false ∧
    (c.state = .synSent ∧ g.flags &&& (tcpSyn ||| tcpAck) = tcpSyn ||| tcpAck ∨
      c.state.Open ∧ (g.data ≠ [] ∧ g.seq = c.rcvNxt ∨ g.has tcpFin = true))

/-- The frame makes its input function put a packet into the buffer of ip_send: an
echo request whose answer fits, or a segment that is acknowledged. -/
def Heard.Answered (e : Heard) : Prop :=
  match e.msg with
  | .echo _ request => request.length + ipHdrSize ≤ sendMax
  | .segment g => e.tcp.Answers g
  | _ => False

/-- The packet at the start of a memory has these fields and bytes. -/
def Holds (m : Buffer) (p : Outgoing) : Prop :=
  (m 2).toNat * 2 ^ 8 + (m 3).toNat = ipHdrSize + p.payload.length ∧ m 9 = p.proto ∧
    readLe32 m 16 = p.dst.toNat ∧ ∀ i, i < p.payload.length → m (ipHdrSize + i) = p.payload.getD i 0

/-- The frame goes to `mac` and carries `p`. -/
def Carries (frame : List UInt8) (mac : Mac) (p : Outgoing) : Prop :=
  frame.take 6 = mac.toList ∧ frame.length = ethHdrSize + ipHdrSize + p.payload.length ∧
    Holds (fun i => frame.getD (ethHdrSize + i) 0) p

/-- The buffer holds the packet that was begun last. -/
def Host.Built (h : Host) : Prop :=
  ∀ p, h.begun.head? = some p → p.payload.length + ipHdrSize ≤ sendMax ∧ Holds h.buf p

/-- What a call leaves alone, whatever it sends. -/
structure CallKept (h h' : Host) : Prop where
  iface : h'.iface = h.iface
  built : h.Built → h'.Built
  begun : h.begun <:+ h'.begun
  heard : h.heard <:+ h'.heard

/-- What waiting leaves alone: nothing is begun unless a frame is answered. -/
structure Waited (h h' : Host) : Prop extends CallKept h h' where
  quiet : ∀ new, h'.heard = new ++ h.heard → (∀ e ∈ new, ¬e.Answered) → h'.begun = h.begun

theorem CallKept.trans {a b c : Host} (first : CallKept a b) (second : CallKept b c) : CallKept a c where
  iface := second.iface.trans first.iface
  built built := second.built (first.built built)
  begun := first.begun.trans second.begun
  heard := first.heard.trans second.heard

theorem Waited.trans {a b c : Host} (first : Waited a b) (second : Waited b c) : Waited a c where
  toCallKept := first.toCallKept.trans second.toCallKept
  quiet new grown unanswered := by
    obtain ⟨early, hearly⟩ := first.heard
    obtain ⟨late, hlate⟩ := second.heard
    have both : new = late ++ early := by
      have whole : new ++ a.heard = late ++ early ++ a.heard := by
        rw [← grown, ← hlate, ← hearly, List.append_assoc]
      exact List.append_cancel_right whole
    subst both
    have quietly := second.quiet late hlate.symm fun e member =>
      unanswered e (List.mem_append_left _ member)
    exact quietly.trans (first.quiet early hearly.symm fun e member =>
      unanswered e (List.mem_append_right _ member))

/-- A step that leaves the buffer, the packets and the frames alone. -/
theorem Waited.of_same {h h' : Host} (iface : h'.iface = h.iface) (buf : h'.buf = h.buf)
    (begun : h'.begun = h.begun) (heard : h'.heard = h.heard) : Waited h h' where
  iface := iface
  built built q first := by
    rw [buf]
    exact built q (begun ▸ first)
  begun := begun ▸ List.suffix_rfl
  heard := heard ▸ List.suffix_rfl
  quiet _ _ _ := begun

theorem Waited.refl (h : Host) : Waited h h := .of_same rfl rfl rfl rfl

theorem Waited.withTcp (h : Host) (c : Conn) : Waited h { h with tcp := c } :=
  .of_same rfl rfl rfl rfl

theorem ethSend_waited (dst : Mac) (type : Nat) (data : List UInt8) (h : Host) :
    Waited h (h.ethSend dst type data) := by
  rw [Host.ethSend]
  split
  · exact .of_same rfl rfl rfl rfl
  · exact .refl h

theorem ethSend_begun (dst : Mac) (type : Nat) (data : List UInt8) (h : Host) :
    (h.ethSend dst type data).begun = h.begun := by
  rw [Host.ethSend]
  split <;> rfl

theorem arpInput_waited (spa : Nat) (sha : Mac) (asked : Bool) (h : Host) :
    Waited h (h.arpInput spa sha asked) := by
  have inserted : Waited h (h.arpInsert spa sha) := .of_same rfl rfl rfl rfl
  rw [Host.arpInput]
  split
  · exact inserted.trans (ethSend_waited _ _ _ _)
  · exact inserted

/-- Every call of ip_send keeps what a call keeps, and a packet that is too long
stops at the first check. -/
structure Send.Keeps (send : Send) : Prop where
  kept : ∀ p h n h', send p h = some (n, h') → CallKept h h'
  long : ∀ p h n h', send p h = some (n, h') → sendMax < p.payload.length + ipHdrSize → h' = h

section Input
variable {send : Send} (keeps : send.Keeps)
include keeps

theorem send_kept {p : Outgoing} {h h' : Host} (run : (send p h).map (·.2) = some h') : CallKept h h' := by
  obtain ⟨r, found, rfl⟩ := Option.map_eq_some_iff.mp run
  exact keeps.kept p h r.1 r.2 found

/-- The connection may have moved before the segment goes out. -/
theorem tcpEmit_kept {flags : UInt8} {data : List UInt8} {c : Conn} {h h' : Host}
    (run : tcpEmit send flags data { h with tcp := c } = some h') : CallKept h h' := by
  have moved := (Waited.withTcp h c).toCallKept
  rw [tcpEmit] at run
  split at run
  · cases run
    exact moved
  · exact (Waited.withTcp h (c.emit flags data)).toCallKept.trans (send_kept keeps run)

theorem acceptData_kept {g : Segment} {h h' : Host} (run : acceptData send g h = some h') :
    CallKept h h' := by
  rw [acceptData] at run
  split at run
  · exact tcpEmit_kept keeps run
  · cases run
    exact (Waited.refl h).toCallKept

theorem acceptFin_kept {g : Segment} {h h' : Host} (run : acceptFin send g h = some h') :
    CallKept h h' := by
  have acked : Waited h
      (if g.has tcpAck then { h with tcp := { h.tcp with sndUna := g.ack } } else h) := by
    split
    · exact .withTcp h _
    · exact .refl h
  refine acked.toCallKept.trans ?_
  rw [acceptFin] at run
  revert run
  generalize (if g.has tcpAck then { h with tcp := { h.tcp with sndUna := g.ack } } else h) = h₁
  intro run
  dsimp only at run
  split at run
  · obtain ⟨h₂, sent, rfl⟩ := Option.map_eq_some_iff.mp run
    exact (tcpEmit_kept keeps sent).trans (Waited.withTcp h₂ _).toCallKept
  · cases run
    exact (Waited.refl _).toCallKept

theorem tcpHandle_kept {g : Segment} {h h' : Host} (run : tcpHandle send g h = some h') :
    CallKept h h' := by
  rw [tcpHandle] at run
  split at run
  · cases run
    exact (Waited.withTcp h _).toCallKept
  split at run
  · split at run
    · exact tcpEmit_kept keeps run
    · cases run
      exact (Waited.refl h).toCallKept
  split at run
  · obtain ⟨h₁, accepted, run⟩ := Option.bind_eq_some_iff.mp run
    exact (acceptData_kept keeps accepted).trans (acceptFin_kept keeps run)
  · cases run
    exact (Waited.refl h).toCallKept

theorem handle_kept {msg : Msg} {h h' : Host} (run : handle send msg h = some h') : CallKept h h' := by
  cases msg with
  | dropped =>
    cases run
    exact (Waited.refl h).toCallKept
  | arp spa sha asked =>
    cases run
    exact (arpInput_waited spa sha asked h).toCallKept
  | echo src request => exact send_kept keeps run
  | echoReply id seq =>
    have noted : Waited h { h with icmpReply := some (id, seq) } := .of_same rfl rfl rfl rfl
    cases run
    exact noted.toCallKept
  | datagram src sport data =>
    have noted : Waited h { h with udpRecv := some ⟨src, sport, data⟩ } := .of_same rfl rfl rfl rfl
    cases run
    exact noted.toCallKept
  | segment g => exact tcpHandle_kept keeps run

omit keeps in
/-- A segment that is not answered changes the connection and nothing else. -/
theorem tcpHandle_quiet {g : Segment} {h h' : Host} (run : tcpHandle send g h = some h')
    (unanswered : ¬h.tcp.Answers g) : ∃ c, h' = { h with tcp := c } := by
  rw [tcpHandle] at run
  split at run
  next => exact ⟨_, (Option.some.inj run).symm⟩
  next live =>
    have live : g.has tcpRst = false := Bool.eq_false_iff.mpr live
    split at run
    next waiting =>
      split at run
      next both => exact absurd ⟨live, Or.inl ⟨waiting, both⟩⟩ unanswered
      next => exact ⟨h.tcp, (Option.some.inj run).symm⟩
    split at run
    next isOpen =>
      have late : ¬(g.data ≠ [] ∧ g.seq = h.tcp.rcvNxt) := fun data =>
        unanswered ⟨live, Or.inr ⟨isOpen, Or.inl data⟩⟩
      have noFin : ¬g.has tcpFin = true := fun fin =>
        unanswered ⟨live, Or.inr ⟨isOpen, Or.inr fin⟩⟩
      rw [acceptData, if_neg late, Option.bind_some, acceptFin] at run
      dsimp only at run
      rw [if_neg noFin] at run
      split at run
      · exact ⟨_, (Option.some.inj run).symm⟩
      · exact ⟨h.tcp, (Option.some.inj run).symm⟩
    next => exact ⟨h.tcp, (Option.some.inj run).symm⟩

/-- A frame that is not answered begins no packet. -/
theorem handle_quiet {msg : Msg} {h h' : Host} (run : handle send msg h = some h')
    (unanswered : ¬Heard.Answered ⟨msg, h.tcp⟩) : h'.begun = h.begun := by
  cases msg with
  | dropped =>
    cases run
    rfl
  | arp spa sha asked =>
    cases run
    rw [Host.arpInput]
    split
    · exact ethSend_begun _ _ _ _
    · rfl
  | echo src request =>
    obtain ⟨r, sent, rfl⟩ := Option.map_eq_some_iff.mp run
    have long : sendMax < (Host.echoReply request).length + ipHdrSize := by
      simp only [Host.echoReply, List.length_set]
      exact Nat.lt_of_not_le unanswered
    rw [keeps.long _ h r.1 r.2 sent long]
  | echoReply id seq =>
    cases run
    rfl
  | datagram src sport data =>
    cases run
    rfl
  | segment g =>
    obtain ⟨c, rfl⟩ := tcpHandle_quiet run unanswered
    rfl

variable {world : World}

/-- One frame, handed on and handled. -/
theorem handle_waited {msg : Msg} {h h' : Host}
    (run : handle send msg { h with heard := ⟨msg, h.tcp⟩ :: h.heard } = some h') :
    Waited h h' := by
  have kept := handle_kept keeps run
  refine ⟨⟨kept.iface, fun built => kept.built built, kept.begun,
    (List.suffix_cons _ _).trans kept.heard⟩, ?_⟩
  intro new grown unanswered
  obtain ⟨early, hearly⟩ := kept.heard
  have mine : new = early ++ [⟨msg, h.tcp⟩] := by
    have whole : new ++ h.heard = early ++ [⟨msg, h.tcp⟩] ++ h.heard := by
      rw [← grown, ← hearly, List.append_assoc, List.singleton_append]
    exact List.append_cancel_right whole
  have first : ¬Heard.Answered ⟨msg, h.tcp⟩ :=
    unanswered _ (mine ▸ List.mem_append_right _ (List.mem_singleton_self _))
  exact (handle_quiet keeps run first :)

theorem pollFrames_waited (n : Nat) : ∀ {h h' : Host},
    pollFrames send world n h = some h' → Waited h h' := by
  induction n with
  | zero =>
      intro h h' run
      cases run
      exact .refl h
  | succ n ih =>
      intro h h' run
      have polled : Waited h { h with polls := h.polls + 1 } := .of_same rfl rfl rfl rfl
      rw [pollFrames] at run
      dsimp only at run
      split at run
      · cases run
        exact polled
      · obtain ⟨h₁, handled, rest⟩ := Option.bind_eq_some_iff.mp run
        exact (polled.trans (handle_waited keeps handled)).trans (ih rest)

theorem netPollVia_waited {h h' : Host} (run : netPollVia send world h = some h') :
    Waited h h' := by
  rw [netPollVia] at run
  split at run
  · exact pollFrames_waited keeps 8 run
  · cases run
    exact .refl h

theorem waitTicks_waited (t0 fuel : Nat) : ∀ {h h' : Host},
    waitTicks send world t0 fuel h = some h' → Waited h h' := by
  induction fuel with
  | zero => exact fun run => absurd run (by simp only [waitTicks, reduceCtorEq, not_false_eq_true])
  | succ fuel ih =>
      intro h h' run
      have read : Waited h { h with reads := h.reads + 1 } := .of_same rfl rfl rfl rfl
      rw [waitTicks] at run
      split at run
      · obtain ⟨h₁, polled, rest⟩ := Option.bind_eq_some_iff.mp run
        exact (read.trans (netPollVia_waited keeps polled)).trans (ih rest)
      · cases run
        exact read

theorem resolve_waited (fuel hop tries : Nat) : ∀ {h h' : Host},
    resolve send world fuel hop tries h = some h' → Waited h h' := by
  induction tries with
  | zero =>
      intro h h' run
      cases run
      exact .refl h
  | succ tries ih =>
      intro h h' run
      rw [resolve] at run
      split at run
      · cases run
        exact .refl h
      · obtain ⟨h₁, waited, rest⟩ := Option.bind_eq_some_iff.mp run
        have asked := ethSend_waited Host.broadcast ethTypeArp
          (h.arpPacket 1 (Vector.replicate 6 0) hop) h
        have read : Waited (h.arpRequest hop)
            { h.arpRequest hop with reads := (h.arpRequest hop).reads + 1 } := .of_same rfl rfl rfl rfl
        exact ((asked.trans read).trans (waitTicks_waited keeps _ fuel waited)).trans (ih rest)

end Input

theorem ipHeader_length (id ip : Nat) (p : Outgoing) : (ipHeader id ip p).length = ipHdrSize := by
  simp [ipHeader, ipFields, netBytes, bytesOf, ipHdrSize]

/-- What ip_send writes is the packet. -/
theorem build_holds (p : Outgoing) (h : Host) (fits : p.payload.length + ipHdrSize ≤ sendMax) :
    Holds (h.build p).buf p := by
  have header : ∀ i, i < ipHdrSize → (h.build p).buf i =
      (ipHeader (h.build p).ipId h.iface.ip p).getD i 0 := by
    intro i low
    have room : i < (ipHeader (h.build p).ipId h.iface.ip p).length := by
      rw [ipHeader_length]
      exact low
    have inner : Memory.poke h.buf 0 (ipHeader (h.build p).ipId h.iface.ip p) (0 + i) =
        (ipHeader (h.build p).ipId h.iface.ip p).getD i 0 := poke_at h.buf room
    rw [Nat.zero_add] at inner
    exact (poke_below _ _ low).trans inner
  simp only [ipHdrSize, sendMax] at fits
  refine ⟨?_, header 9 (by decide), ?_, fun i bound => poke_at _ bound⟩
  · rw [header 2 (by decide), header 3 (by decide)]
    have high : (UInt8.ofNat ((ipHdrSize + p.payload.length) / 2 ^ 8)).toNat * 2 ^ 8 +
        (UInt8.ofNat (ipHdrSize + p.payload.length)).toNat = ipHdrSize + p.payload.length := by
      simp only [UInt8.toNat_ofNat', ipHdrSize]
      omega
    exact high
  · have small := p.dst.toNat_lt
    simp only [readLe32, header 16 (by decide), header (16 + 1) (by decide),
      header (16 + 2) (by decide), header (16 + 3) (by decide)]
    have bytes : (byteOf p.dst.toNat 0).toNat + 2 ^ 8 * (byteOf p.dst.toNat 1).toNat +
        2 ^ 16 * (byteOf p.dst.toNat 2).toNat + 2 ^ 24 * (byteOf p.dst.toNat 3).toNat =
          p.dst.toNat := by
      simp only [byteOf_toNat]
      omega
    exact bytes

/-- A memory holds one packet at most. -/
theorem Holds.unique {m : Buffer} {p q : Outgoing} (first : Holds m p) (second : Holds m q) :
    p = q := by
  obtain ⟨plen, pproto, pdst, pbytes⟩ := first
  obtain ⟨qlen, qproto, qdst, qbytes⟩ := second
  have lengths : p.payload.length = q.payload.length := by omega
  have dst : p.dst = q.dst := UInt32.toNat_inj.mp (pdst.symm.trans qdst)
  have payload : p.payload = q.payload := by
    refine List.ext_getElem lengths fun i hp hq => ?_
    have same := (pbytes i hp).symm.trans (qbytes i hq)
    rwa [List.getD_eq_getElem _ _ hp, List.getD_eq_getElem _ _ hq] at same
  cases p
  cases q
  simp only [Outgoing.mk.injEq]
  exact ⟨dst, pproto.symm.trans qproto, payload⟩

theorem Holds.congr {m m' : Buffer} {p : Outgoing}
    (agree : ∀ i, i < ipHdrSize + p.payload.length → m i = m' i) : Holds m p ↔ Holds m' p := by
  have word : readLe32 m 16 = readLe32 m' 16 :=
    readLe32_congr fun k bound => agree _ (by simp only [ipHdrSize]; omega)
  have payload : (∀ i, i < p.payload.length → m (ipHdrSize + i) = p.payload.getD i 0) ↔
      ∀ i, i < p.payload.length → m' (ipHdrSize + i) = p.payload.getD i 0 :=
    forall₂_congr fun i bound => by rw [agree (ipHdrSize + i) (by omega)]
  have at2 := agree 2 (by simp only [ipHdrSize]; omega)
  have at3 := agree 3 (by simp only [ipHdrSize]; omega)
  have at9 := agree 9 (by simp only [ipHdrSize]; omega)
  rw [Holds, Holds, word, payload, at2, at3, at9]

theorem build_built (p : Outgoing) (h : Host) (fits : p.payload.length + ipHdrSize ≤ sendMax) :
    (h.build p).Built := by
  intro q first
  cases Option.some.inj first
  exact ⟨fits, build_holds p h fits⟩

theorem build_kept (p : Outgoing) (h : Host) (fits : p.payload.length + ipHdrSize ≤ sendMax) :
    CallKept h (h.build p) where
  iface := rfl
  built _ := build_built p h fits
  begun := List.suffix_cons _ _
  heard := List.suffix_rfl

section Run
variable {world : World} {fuel : Nat} {p : Outgoing} {h h' : Host} {n : Int}

/-- The frame that ip_send gives to the driver at its end. -/
def Host.finish (h : Host) (mac : Mac) (p : Outgoing) : Host :=
  h.ethSend mac ethTypeIpv4 ((List.range (ipHdrSize + p.payload.length)).map h.buf)

/-- How a call of ip_send goes: it refuses the packet, or it builds it, waits, and
sends what is in the buffer if the next hop is known then. -/
theorem ipSend_cases (run : ipSend world (fuel + 1) p h = some (n, h')) :
    (sendMax < p.payload.length + ipHdrSize ∧ n = -1 ∧ h' = h) ∨
      (p.payload.length + ipHdrSize ≤ sendMax ∧
        ∃ h₁, resolve (ipSend world fuel) world fuel (h.nextHop p.dst.toNat) 5 (h.build p) = some h₁ ∧
          ((h₁.arpFind (h.nextHop p.dst.toNat) = none ∧ n = -1 ∧ h' = h₁) ∨
            ∃ mac, h₁.arpFind (h.nextHop p.dst.toNat) = some mac ∧ n = p.payload.length ∧
              h' = h₁.finish mac p)) := by
  rw [ipSend] at run
  split at run
  next long =>
    cases run
    exact Or.inl ⟨long, rfl, rfl⟩
  next fits =>
    obtain ⟨h₁, resolved, last⟩ := Option.map_eq_some_iff.mp run
    refine Or.inr ⟨by omega, h₁, resolved, ?_⟩
    split at last
    next unknown =>
      cases last
      exact Or.inl ⟨unknown, rfl, rfl⟩
    next mac known =>
      cases last
      exact Or.inr ⟨mac, known, rfl, rfl⟩

theorem ipSend_keeps (world : World) (fuel : Nat) : Send.Keeps (ipSend world fuel) := by
  induction fuel with
  | zero =>
      constructor
      · exact fun p h n h' run => absurd run (by simp only [ipSend, reduceCtorEq, not_false_eq_true])
      · exact fun p h n h' run => absurd run (by simp only [ipSend, reduceCtorEq, not_false_eq_true])
  | succ fuel ih =>
      constructor
      · intro p h n h' run
        rcases ipSend_cases run with ⟨-, -, rfl⟩ | ⟨fits, h₁, resolved, ending⟩
        · exact (Waited.refl h').toCallKept
        have waited := (build_kept p h fits).trans (resolve_waited ih _ _ _ resolved).toCallKept
        rcases ending with ⟨-, -, rfl⟩ | ⟨mac, -, -, rfl⟩
        · exact waited
        · exact waited.trans (ethSend_waited _ _ _ _).toCallKept
      · intro p h n h' run long
        rcases ipSend_cases run with ⟨-, -, same⟩ | ⟨fits, -⟩
        · exact same
        · omega

end Run

/-- The bytes that ethSend puts behind each other. -/
def ethFrame (dst src : Mac) (type : Nat) (data : List UInt8) : List UInt8 :=
  dst.toList ++ src.toList ++ netBytes type ++ data

theorem ethFrame_take (dst src : Mac) (type : Nat) (data : List UInt8) :
    (ethFrame dst src type data).take 6 = dst.toList := by
  have six : dst.toList.length = 6 := by simp
  rw [ethFrame, List.append_assoc, List.append_assoc, List.take_append_of_le_length (by omega),
    List.take_of_length_le (by omega)]

theorem ethFrame_length (dst src : Mac) (type : Nat) (data : List UInt8) :
    (ethFrame dst src type data).length = ethHdrSize + data.length := by
  simp only [ethFrame, netBytes, ethHdrSize, List.length_append, Vector.length_toList,
    List.length_cons, List.length_nil]

theorem ethFrame_at (dst src : Mac) (type i : Nat) (data : List UInt8) :
    (ethFrame dst src type data).getD (ethHdrSize + i) 0 = data.getD i 0 := by
  have head : (dst.toList ++ src.toList ++ netBytes type).length = ethHdrSize := by
    simp [netBytes, ethHdrSize]
  rw [ethFrame, List.getD_append_right _ _ _ _ (by omega), head, Nat.add_sub_cancel_left]

/-- A frame cut from the buffer carries a packet exactly when the buffer holds it. -/
theorem carries_iff (mac src : Mac) (buf : Buffer) (p : Outgoing) :
    Carries (ethFrame mac src ethTypeIpv4 ((List.range (ipHdrSize + p.payload.length)).map buf)) mac p ↔
      Holds buf p := by
  rw [Carries, ethFrame_take, ethFrame_length, List.length_map, List.length_range]
  have same : Holds (fun i => (ethFrame mac src ethTypeIpv4
      ((List.range (ipHdrSize + p.payload.length)).map buf)).getD (ethHdrSize + i) 0) p ↔
        Holds buf p := by
    refine Holds.congr fun i bound => ?_
    rw [ethFrame_at, List.getD_eq_getElem _ _ (by simpa using bound), List.getElem_map,
      List.getElem_range]
  rw [same]
  exact ⟨fun all => all.2.2, fun holds => ⟨rfl, (Nat.add_assoc _ _ _).symm, holds⟩⟩

section Claim
variable {world : World} {fuel : Nat} {p : Outgoing} {h h' : Host} {n : Int}

/-- The frames that net_poll handed on between two states. -/
def Host.heardSince (h h' : Host) : List Heard := h'.heard.take (h'.heard.length - h.heard.length)

/-- The last frame given to the driver is the packet, sent to its next hop. -/
def Host.SentRight (h h' : Host) (p : Outgoing) : Prop :=
  ∃ frame mac, h'.wire.head? = some frame ∧ h'.arpFind (h.nextHop p.dst.toNat) = some mac ∧
    Carries frame mac p

theorem finish_eq {h : Host} (mac : Mac) (up : h.iface.present = true)
    (fits : p.payload.length + ipHdrSize ≤ sendMax) :
    h.finish mac p = { h with
      wire := ethFrame mac h.iface.mac ethTypeIpv4
        ((List.range (ipHdrSize + p.payload.length)).map h.buf) :: h.wire } := by
  have whole : ((List.range (ipHdrSize + p.payload.length)).map h.buf).take sendMax =
      (List.range (ipHdrSize + p.payload.length)).map h.buf :=
    List.take_of_length_le (by rw [List.length_map, List.length_range]; omega)
  rw [Host.finish, Host.ethSend, if_pos up]
  dsimp only
  rw [whole, ethFrame]

/-- ip_send puts its own packet on the wire exactly when no frame is answered while it
waits, or the packet of the last answer is the same. -/
theorem ipSend_right_iff (run : ipSend world fuel p h = some (n, h')) (success : 0 ≤ n)
    (present : h.iface.present = true) :
    h.SentRight h' p ↔
      (∀ e ∈ h.heardSince h', ¬e.Answered) ∨ h'.begun.head? = some p := by
  cases fuel with
  | zero => simp only [ipSend, reduceCtorEq] at run
  | succ fuel =>
    rcases ipSend_cases run with ⟨-, failed, -⟩ | ⟨fits, h₁, resolved, ending⟩
    · omega
    rcases ending with ⟨-, failed, -⟩ | ⟨mac, known, -, sent⟩
    · omega
    have waited := resolve_waited (ipSend_keeps world fuel) _ _ _ resolved
    have built : h₁.Built := waited.built (build_built p h fits)
    have up : h₁.iface.present = true := (congrArg Iface.present waited.iface).trans present
    have final := sent.trans (finish_eq mac up fits)
    have begun : h'.begun = h₁.begun := by rw [final]
    have right : h.SentRight h' p ↔ Holds h₁.buf p := by
      rw [← carries_iff mac h₁.iface.mac, final]
      constructor
      · rintro ⟨frame, mac', first, found, carries⟩
        cases Option.some.inj first
        cases Option.some.inj (known.symm.trans found)
        exact carries
      · exact fun carries => ⟨_, mac, rfl, known, carries⟩
    have last : Holds h₁.buf p ↔ h₁.begun.head? = some p := by
      obtain ⟨later, hlater⟩ := waited.begun
      obtain ⟨q, first⟩ : ∃ q, h₁.begun.head? = some q := by
        rw [← hlater]
        cases later with
        | nil => exact ⟨p, rfl⟩
        | cons q rest => exact ⟨q, rfl⟩
      have holds := (built q first).2
      constructor
      · intro mine
        rw [first, mine.unique holds]
      · intro mine
        exact Option.some.inj (first.symm.trans mine) ▸ holds
    rw [right, last, begun]
    constructor
    · exact Or.inr
    · rintro (unanswered | same)
      · obtain ⟨new, hnew⟩ := waited.heard
        have since : h.heardSince h' = new := by
          have heard : h'.heard = new ++ h.heard := by rw [final]; exact hnew.symm
          rw [Host.heardSince, heard, List.length_append, Nat.add_sub_cancel,
            List.take_left' rfl]
        rw [waited.quiet new hnew.symm (since ▸ unanswered)]
        rfl
      · exact same

end Claim

/-- A host with the addresses of e1000_init that knows the station 10.0.2.3. -/
def station : Host where
  iface := ⟨true, #v[0x52, 0x54, 0, 0x12, 0x34, 0x56], 0x1002000A, 0x00FFFFFF, 0x0202000A⟩
  arpCache := some (0x0302000A, #v[2, 0, 0, 0, 0, 3]) :: List.replicate 7 none
  buf := fun _ => 0
  ipId := 0
  icmpReply := none
  udpListenPort := 0
  udpRecv := none
  tcp := idle.tcp
  polls := 0
  reads := 0
  wire := []
  begun := []
  heard := []

/-- A datagram for 10.0.2.9, which is not in the cache. -/
def datagram : Outgoing := ⟨0x0902000A, 17, [1, 2, 3]⟩

/-- 10.0.2.9 answers an ARP request. -/
def arpReply : Received where
  bytes := poke (fun _ => 0) 12 ([8, 6, 0, 1, 8, 0, 6, 4, 0, 2, 2, 0, 0, 0, 0, 9, 10, 0, 2, 9,
    0x52, 0x54, 0, 0x12, 0x34, 0x56, 10, 0, 2, 16])
  len := 60
  len_lt := by decide

/-- 10.0.2.3 sends an echo request. -/
def echoRequest : Received where
  bytes := poke (fun _ => 0) 12 ([8, 0, 0x45, 0, 0, 28, 0, 0, 0, 0, 64, 1, 0, 0, 10, 0, 2, 3,
    10, 0, 2, 16, 8])
  len := 60
  len_lt := by decide

def silence : Received := ⟨fun _ => 0, 0, by decide⟩

/-- The frames arrive one by one; the clock moves 30 ticks at each look. -/
def worldOf (frames : List Received) : World := ⟨fun i => frames.getD i silence, fun i => 30 * i⟩

theorem ipSend_right_iff_quiet :
    ∃ h', ipSend (worldOf [arpReply]) 3 datagram station = some (3, h') ∧
      station.SentRight h' datagram := by
  have facts : (ipSend (worldOf [arpReply]) 3 datagram station).map
      (fun r => (r.1, r.2.begun.head?)) = some (3, some datagram) := by decide +kernel
  obtain ⟨⟨n, h'⟩, run, values⟩ := Option.map_eq_some_iff.mp facts
  simp only [Prod.mk.injEq] at values
  have run : ipSend (worldOf [arpReply]) 3 datagram station = some (3, h') := values.1 ▸ run
  exact ⟨h', run, (ipSend_right_iff run (by decide) rfl).mpr (Or.inr values.2)⟩

/-- An echo request comes in before the ARP reply: what goes to 10.0.2.9 is the echo
reply for 10.0.2.3. -/
theorem echo_overwrites :
    ∃ h', ipSend (worldOf [echoRequest, arpReply]) 3 datagram station = some (3, h') ∧
      ¬station.SentRight h' datagram := by
  have facts : (ipSend (worldOf [echoRequest, arpReply]) 3 datagram station).map
      (fun r => (r.1, r.2.wire.head?.map fun frame => frame.getD 23 0)) = some (3, some 1) := by
    decide +kernel
  obtain ⟨⟨n, h'⟩, run, values⟩ := Option.map_eq_some_iff.mp facts
  simp only [Prod.mk.injEq] at values
  refine ⟨h', values.1 ▸ run, ?_⟩
  rintro ⟨frame, mac, first, -, -, -, -, proto, -⟩
  rw [first] at values
  have icmp : frame.getD 23 0 = 1 := Option.some.inj values.2
  exact absurd (icmp.symm.trans proto) (by decide)

end Zenbite.Net
