import Zenbite.Net.Send

/-! icmp_ping (net.c): the request, the wait on the reply flag that icmp_input sets,
and which echo replies end it. -/

namespace Zenbite.Net

open Memory Reads Frame

/-- The identifier of every request. -/
def pingId : Nat := 0x1234

namespace Host

/-- What icmp_ping puts into pkt. -/
def pingFields (seq checksum : Nat) : List UInt8 :=
  [8, 0] ++ netBytes checksum ++ netBytes pingId ++ netBytes seq ++ List.replicate 8 0

def pingPacket (seq : Nat) : List UInt8 := pingFields seq (ipChecksum (pingFields seq 0))

end Host

/-- The statics that icmp_ping uses: those of the stack and ping_seq. -/
structure Pinger where
  host : Host
  pingSeq : Nat

/-- What icmp_ping returns, and what it stores for its caller. -/
structure Pinged where
  ret : Int
  rtt : Option Nat
  deriving DecidableEq

section Wait
variable (send : Send) (world : World)

/-- `while (pit_ticks() - t0 < timeout_ticks)`; `timed` says that the caller wants
the round trip time. -/
def pingWait (t0 timeout : Nat) (timed : Bool) : Nat → Host → Option (Pinged × Host)
  | 0, _ => none
  | fuel + 1, h =>
    let t := world.ticks h.reads
    let h := { h with reads := h.reads + 1 }
    if u32 (t + 2 ^ 32 - t0) < timeout then
      (netPollVia send world h).bind fun h =>
        if h.icmpReply.isSome then
          if timed then
            some (⟨0, some (u32 (world.ticks h.reads + 2 ^ 32 - t0))⟩, { h with reads := h.reads + 1 })
          else some (⟨0, none⟩, h)
        else pingWait t0 timeout timed fuel h
    else some (⟨-1, none⟩, h)

end Wait

namespace Pinger

def nextSeq (s : Pinger) : Nat := (s.pingSeq + 1) % 2 ^ 16

def request (s : Pinger) (dst : UInt32) : Outgoing := ⟨dst, 1, Host.pingPacket s.nextSeq⟩

/-- The flag is cleared and the clock read. -/
def start (s : Pinger) : Host := { s.host with icmpReply := none, reads := s.host.reads + 1 }

end Pinger

def icmpPing (world : World) (fuel : Nat) (dst : UInt32) (timeout : Nat) (timed : Bool) (s : Pinger) :
    Option (Pinged × Pinger) :=
  let t0 := world.ticks s.host.reads
  (ipSend world fuel (s.request dst) s.start).bind fun sent =>
    if sent.1 < 0 then some (⟨-1, none⟩, ⟨sent.2, s.nextSeq⟩)
    else
      (pingWait (ipSend world fuel) world t0 timeout timed fuel sent.2).map fun r =>
        (r.1, ⟨r.2, s.nextSeq⟩)

/-! Echo replies among the frames -/

/-- The frame is an echo reply with this identifier and sequence number. -/
def Received.Reply (r : Received) (id seq : Nat) : Prop :=
  (netInput idle r.len r.bytes).1 = .echoReply id seq

instance (r : Received) (id seq : Nat) : Decidable (r.Reply id seq) := inferInstanceAs (Decidable (_ = _))

/-- The source field of the IP header. -/
def Received.src (r : Received) : Nat := readLe32 r.bytes 26

/-- A frame that is some echo reply, whoever it is for. -/
def Received.AnyReply (r : Received) : Prop := ∃ id seq, r.Reply id seq

/-- The echo reply to a request: its sequence number, from the address asked. -/
def Received.Answers (dst seq : Nat) (r : Received) : Prop := r.Reply pingId seq ∧ r.src = dst

instance (dst seq : Nat) : DecidablePred (Received.Answers dst seq) := fun _ =>
  inferInstanceAs (Decidable (_ ∧ _))

/-- One of the frames taken from the driver in a span of polls. -/
def World.Brings (world : World) (first last : Nat) (is : Received → Prop) : Prop :=
  ∃ k < last, first ≤ k ∧ is (world.arrive k)

instance (world : World) (first last : Nat) (is : Received → Prop) [DecidablePred is] :
    Decidable (world.Brings first last is) :=
  inferInstanceAs (Decidable (∃ k < last, _))

theorem World.Brings.iff_split {world : World} {is : Received → Prop} {first mid last : Nat}
    (low : first ≤ mid) (high : mid ≤ last) :
    world.Brings first last is ↔ world.Brings first mid is ∨ world.Brings mid last is := by
  constructor
  · rintro ⟨k, below, above, hit⟩
    rcases Nat.lt_or_ge k mid with early | late
    · exact Or.inl ⟨k, early, above, hit⟩
    · exact Or.inr ⟨k, below, late, hit⟩
  · rintro (⟨k, below, above, hit⟩ | ⟨k, below, above, hit⟩)
    · exact ⟨k, by omega, above, hit⟩
    · exact ⟨k, below, by omega, hit⟩

theorem World.not_brings_nil (world : World) (is : Received → Prop) (first : Nat) :
    ¬world.Brings first first is := fun hit => by
  obtain ⟨k, below, above, -⟩ := hit
  omega

section Listen
variable (s : Listening) (m : Buffer) (src pkt size id seq : Nat)

theorem arpInput_no_reply : (arpInput s pkt size m).1 ≠ .echoReply id seq := by
  simp only [arpInput, Look.value_bind, Look.value_ite, Look.value_pure]
  split_ifs <;> exact Msg.noConfusion

theorem udpInput_no_reply : (udpInput s src pkt size m).1 ≠ .echoReply id seq := by
  simp only [udpInput, Look.value_bind, Look.value_ite, Look.value_pure]
  split_ifs <;> exact Msg.noConfusion

theorem tcpInput_no_reply : (Frame.tcpInput s src pkt size m).1 ≠ .echoReply id seq := by
  simp only [Frame.tcpInput, Look.value_bind, Look.value_ite, Look.value_pure]
  split_ifs <;> exact Msg.noConfusion

theorem dispatch_reply_iff (proto data : Nat) :
    (dispatch s proto pkt data size m).1 = .echoReply id seq ↔ proto = protoIcmp ∧
      (icmpInput (readLe32 m (pkt + 12)) data size m).1 = .echoReply id seq := by
  simp only [dispatch, Look.value_ite, Look.value_bind, Look.value_pure]
  split_ifs with icmp udp tcp
  · exact (and_iff_right icmp).symm
  · exact iff_of_false (udpInput_no_reply s m _ _ _ _ _) fun other => icmp other.1
  · exact iff_of_false (tcpInput_no_reply s m _ _ _ _ _) fun other => icmp other.1
  · exact iff_of_false not_false fun other => icmp other.1

/-- ICMP is taken in whatever its destination: the state of the stack does not matter. -/
theorem ipInput_reply (s' : Listening) (reply : (ipInput s pkt size m).1 = .echoReply id seq) :
    (ipInput s' pkt size m).1 = .echoReply id seq := by
  simp only [ipInput, Look.value_ite, Look.value_bind, Look.value_pure] at reply ⊢
  split_ifs at reply ⊢
  next foreign _ =>
    obtain ⟨icmp, -⟩ := (dispatch_reply_iff s m _ _ _ _ _ _).mp reply
    exact absurd icmp foreign.2.2
  next => exact (dispatch_reply_iff s' m _ _ _ _ _ _).mpr ((dispatch_reply_iff s m _ _ _ _ _ _).mp reply)

theorem netInput_reply (s' : Listening) (reply : (netInput s size m).1 = .echoReply id seq) :
    (netInput s' size m).1 = .echoReply id seq := by
  simp only [netInput, Look.value_ite, Look.value_bind, Look.value_pure] at reply ⊢
  split_ifs at reply ⊢ with short arp ip
  · exact absurd reply (arpInput_no_reply s m _ _ _ _)
  · exact ipInput_reply s m _ _ _ _ s' reply

end Listen

/-- A frame is an echo reply whatever the stack is doing. -/
theorem netInput_reply_iff (s : Listening) (r : Received) (id seq : Nat) :
    (netInput s r.len r.bytes).1 = .echoReply id seq ↔ r.Reply id seq :=
  ⟨netInput_reply s r.bytes _ _ _ idle, netInput_reply idle r.bytes _ _ _ s⟩

theorem not_reply_of_empty {r : Received} (empty : r.len = 0) : ¬r.AnyReply := by
  rintro ⟨id, seq, reply⟩
  rw [Received.Reply, empty] at reply
  cases reply

/-! The flag -/

/-- What net_poll and the functions below it do to the flag: it is set if and only if
an echo reply is among the frames taken. -/
structure Polled (world : World) (h h' : Host) : Prop where
  later : h.polls ≤ h'.polls
  flag : h'.icmpReply.isSome ↔ h.icmpReply.isSome ∨ world.Brings h.polls h'.polls Received.AnyReply

theorem Polled.trans {world : World} {a b c : Host} (first : Polled world a b)
    (second : Polled world b c) : Polled world a c where
  later := first.later.trans second.later
  flag := by
    rw [second.flag, first.flag, World.Brings.iff_split first.later second.later, or_assoc]

/-- Steps that take no frame and leave the flag. -/
theorem Polled.of_same {world : World} {h h' : Host} (polls : h'.polls = h.polls)
    (flag : h'.icmpReply = h.icmpReply) : Polled world h h' where
  later := polls.ge
  flag := by
    rw [polls, flag]
    exact (or_iff_left (world.not_brings_nil _ _)).symm

theorem Polled.refl (world : World) (h : Host) : Polled world h h := .of_same rfl rfl

theorem ethSend_polled (world : World) (dst : Mac) (type : Nat) (data : List UInt8) (h : Host) :
    Polled world h (h.ethSend dst type data) := by
  rw [Host.ethSend]
  split
  · exact .of_same rfl rfl
  · exact .refl world h

theorem arpInput_polled (world : World) (spa : Nat) (sha : Mac) (asked : Bool) (h : Host) :
    Polled world h (h.arpInput spa sha asked) := by
  have inserted : Polled world h (h.arpInsert spa sha) := .of_same rfl rfl
  rw [Host.arpInput]
  split
  · exact inserted.trans (ethSend_polled world _ _ _ _)
  · exact inserted

section Input
variable {send : Send} {world : World}
  (sends : ∀ p h r, send p h = some r → Polled world h r.2)
include sends

theorem send_polled {p : Outgoing} {h h' : Host} (run : (send p h).map (·.2) = some h') :
    Polled world h h' := by
  obtain ⟨r, found, rfl⟩ := Option.map_eq_some_iff.mp run
  exact sends p h r found

theorem tcpEmit_polled {flags : UInt8} {data : List UInt8} {c : Conn} {h h' : Host}
    (run : tcpEmit send flags data { h with tcp := c } = some h') : Polled world h h' := by
  have moved : ∀ c, Polled world h { h with tcp := c } := fun _ => .of_same rfl rfl
  rw [tcpEmit] at run
  split at run
  · cases run
    exact moved c
  · exact (moved (c.emit flags data)).trans (send_polled sends run)

theorem acceptData_polled {g : Segment} {h h' : Host} (run : acceptData send g h = some h') :
    Polled world h h' := by
  rw [acceptData] at run
  split at run
  · exact tcpEmit_polled sends run
  · cases run
    exact .refl world h

theorem acceptFin_polled {g : Segment} {h h' : Host} (run : acceptFin send g h = some h') :
    Polled world h h' := by
  have acked : Polled world h
      (if g.has tcpAck then { h with tcp := { h.tcp with sndUna := g.ack } } else h) := by
    split
    · exact .of_same rfl rfl
    · exact .refl world h
  refine acked.trans ?_
  rw [acceptFin] at run
  revert run
  generalize (if g.has tcpAck then { h with tcp := { h.tcp with sndUna := g.ack } } else h) = h₁
  intro run
  dsimp only at run
  split at run
  · obtain ⟨h₂, sent, rfl⟩ := Option.map_eq_some_iff.mp run
    exact (tcpEmit_polled sends sent).trans (.of_same rfl rfl)
  · cases run
    exact .refl world _

theorem tcpHandle_polled {g : Segment} {h h' : Host} (run : tcpHandle send g h = some h') :
    Polled world h h' := by
  rw [tcpHandle] at run
  split at run
  · cases run
    exact .of_same rfl rfl
  split at run
  · split at run
    · exact tcpEmit_polled sends run
    · cases run
      exact .refl world h
  split at run
  · obtain ⟨h₁, accepted, run⟩ := Option.bind_eq_some_iff.mp run
    exact (acceptData_polled sends accepted).trans (acceptFin_polled sends run)
  · cases run
    exact .refl world h

/-- Only an echo reply sets the flag by itself. -/
theorem handle_polled {msg : Msg} {h h' : Host} (run : handle send msg h = some h')
    (other : ∀ id seq, msg ≠ .echoReply id seq) : Polled world h h' := by
  cases msg with
  | dropped =>
    cases run
    exact .refl world h
  | arp spa sha asked =>
    cases run
    exact arpInput_polled world spa sha asked h
  | echo src request => exact send_polled sends run
  | echoReply id seq => exact absurd rfl (other id seq)
  | datagram src sport data =>
    cases run
    exact .of_same rfl rfl
  | segment g => exact tcpHandle_polled sends run

/-- One frame taken and handled. -/
theorem frame_polled {h h' : Host} {msg : Msg}
    (is : (netInput h.listening (world.arrive h.polls).len (world.arrive h.polls).bytes).1 = msg)
    (run : handle send msg { h with polls := h.polls + 1, heard := ⟨msg, h.tcp⟩ :: h.heard } = some h') :
    Polled world h h' := by
  have mine : ∀ id seq, msg = .echoReply id seq ↔ (world.arrive h.polls).Reply id seq := by
    intro id seq
    rw [← is]
    exact netInput_reply_iff h.listening _ id seq
  have here : world.Brings h.polls (h.polls + 1) Received.AnyReply ↔ ∃ id seq, msg = .echoReply id seq := by
    constructor
    · rintro ⟨k, below, above, id, seq, reply⟩
      obtain rfl : k = h.polls := by omega
      exact ⟨id, seq, (mine id seq).mpr reply⟩
    · rintro ⟨id, seq, same⟩
      exact ⟨h.polls, Nat.lt_succ_self _, Nat.le_refl _, id, seq, (mine id seq).mp same⟩
  by_cases reply : ∃ id seq, msg = .echoReply id seq
  · obtain ⟨id, seq, rfl⟩ := reply
    cases run
    refine ⟨Nat.le_succ _, iff_of_true rfl (Or.inr (here.mpr ⟨id, seq, rfl⟩))⟩
  · have taken : Polled world h
        { h with polls := h.polls + 1, heard := ⟨msg, h.tcp⟩ :: h.heard } :=
      ⟨Nat.le_succ _, (or_iff_left (mt here.mp reply)).symm⟩
    exact taken.trans (handle_polled sends run fun id seq same => reply ⟨id, seq, same⟩)

theorem pollFrames_polled (n : Nat) : ∀ {h h' : Host},
    pollFrames send world n h = some h' → Polled world h h' := by
  induction n with
  | zero =>
      intro h h' run
      cases run
      exact .refl world h
  | succ n ih =>
      intro h h' run
      rw [pollFrames] at run
      dsimp only at run
      split at run
      next empty =>
        cases run
        refine ⟨Nat.le_succ _, (or_iff_left ?_).symm⟩
        rintro ⟨k, below, above, reply⟩
        obtain rfl : k = h.polls := by
          dsimp only at below
          omega
        exact not_reply_of_empty empty reply
      next =>
        obtain ⟨h₁, handled, rest⟩ := Option.bind_eq_some_iff.mp run
        exact (frame_polled sends rfl handled).trans (ih rest)

theorem netPollVia_polled {h h' : Host} (run : netPollVia send world h = some h') :
    Polled world h h' := by
  rw [netPollVia] at run
  split at run
  · exact pollFrames_polled sends 8 run
  · cases run
    exact .refl world h

theorem waitTicks_polled (t0 fuel : Nat) : ∀ {h h' : Host},
    waitTicks send world t0 fuel h = some h' → Polled world h h' := by
  induction fuel with
  | zero => exact fun run => absurd run (by simp only [waitTicks, reduceCtorEq, not_false_eq_true])
  | succ fuel ih =>
      intro h h' run
      have read : Polled world h { h with reads := h.reads + 1 } := .of_same rfl rfl
      rw [waitTicks] at run
      split at run
      · obtain ⟨h₁, polled, rest⟩ := Option.bind_eq_some_iff.mp run
        exact (read.trans (netPollVia_polled sends polled)).trans (ih rest)
      · cases run
        exact read

theorem resolve_polled (fuel hop tries : Nat) : ∀ {h h' : Host},
    resolve send world fuel hop tries h = some h' → Polled world h h' := by
  induction tries with
  | zero =>
      intro h h' run
      cases run
      exact .refl world h
  | succ tries ih =>
      intro h h' run
      rw [resolve] at run
      split at run
      · cases run
        exact .refl world h
      · obtain ⟨h₁, waited, rest⟩ := Option.bind_eq_some_iff.mp run
        have asked : Polled world h (h.arpRequest hop) := ethSend_polled world _ _ _ h
        have read : Polled world (h.arpRequest hop)
            { h.arpRequest hop with reads := (h.arpRequest hop).reads + 1 } := .of_same rfl rfl
        exact ((asked.trans read).trans (waitTicks_polled sends _ fuel waited)).trans (ih rest)

end Input

theorem ipSend_polled (world : World) (fuel : Nat) :
    ∀ p h r, ipSend world fuel p h = some r → Polled world h r.2 := by
  induction fuel with
  | zero => exact fun p h r run => absurd run (by simp only [ipSend, reduceCtorEq, not_false_eq_true])
  | succ fuel ih =>
      rintro p h ⟨n, h'⟩ run
      rcases ipSend_cases run with ⟨-, -, rfl⟩ | ⟨-, h₁, resolved, ending⟩
      · exact .refl world h'
      have built : Polled world h (h.build p) := .of_same rfl rfl
      have waited := built.trans (resolve_polled ih _ _ _ resolved)
      rcases ending with ⟨-, -, rfl⟩ | ⟨mac, -, -, rfl⟩
      · exact waited
      · exact waited.trans (ethSend_polled world _ _ _ _)

/-- Time is left at the next look at the clock. -/
def World.InTime (world : World) (t0 timeout : Nat) (h : Host) : Prop :=
  u32 (world.ticks h.reads + 2 ^ 32 - t0) < timeout

instance (world : World) (t0 timeout : Nat) : DecidablePred (world.InTime t0 timeout) := fun _ =>
  inferInstanceAs (Decidable (_ < _))

/-- The wait takes frames while there is time, and succeeds if the flag is up then. -/
structure Waits (world : World) (t0 timeout : Nat) (h : Host) (r : Pinged) (h' : Host) : Prop where
  polled : Polled world h h'
  success : r.ret = 0 ↔ world.InTime t0 timeout h ∧ h'.icmpReply.isSome
  late : ¬world.InTime t0 timeout h → h'.icmpReply = h.icmpReply

theorem pingWait_waits {send : Send} {world : World}
    (sends : ∀ p h r, send p h = some r → Polled world h r.2) {t0 timeout : Nat} {timed : Bool}
    (fuel : Nat) : ∀ {h h' : Host} {r : Pinged},
      pingWait send world t0 timeout timed fuel h = some (r, h') → Waits world t0 timeout h r h' := by
  induction fuel with
  | zero => exact fun run => absurd run (by simp only [pingWait, reduceCtorEq, not_false_eq_true])
  | succ fuel ih =>
      intro h h' r run
      have read : Polled world h { h with reads := h.reads + 1 } := .of_same rfl rfl
      rw [pingWait] at run
      split at run
      next time =>
        have time : world.InTime t0 timeout h := time
        obtain ⟨h₁, taken, rest⟩ := Option.bind_eq_some_iff.mp run
        have polled := read.trans (netPollVia_polled sends taken)
        split at rest
        next up =>
          have ended : r.ret = 0 ∧ Polled world h₁ h' ∧ h'.icmpReply = h₁.icmpReply := by
            split at rest
            · cases rest
              exact ⟨rfl, .of_same rfl rfl, rfl⟩
            · cases rest
              exact ⟨rfl, .refl world _, rfl⟩
          refine ⟨polled.trans ended.2.1, iff_of_true ended.1 ⟨time, ?_⟩, fun late => absurd time late⟩
          rw [ended.2.2]
          exact up
        next down =>
          have waits := ih rest
          refine ⟨polled.trans waits.polled, ?_, fun late => absurd time late⟩
          rw [waits.success]
          constructor
          · exact fun both => ⟨time, both.2⟩
          · rintro ⟨-, up⟩
            refine ⟨?_, up⟩
            by_contra late
            exact down (waits.late late ▸ up)
      next late =>
        cases run
        exact ⟨read, iff_of_false (by decide) fun both => late both.1, fun _ => rfl⟩

section Claim
variable {world : World} {fuel timeout : Nat} {dst : UInt32} {timed : Bool} {s s' : Pinger} {r : Pinged}

/-- icmp_ping succeeds if the request is out in time and any echo reply at all comes in
between the clearing of the flag and the end. -/
theorem icmpPing_success (run : icmpPing world fuel dst timeout timed s = some (r, s')) :
    ∃ n sent, ipSend world fuel (s.request dst) s.start = some (n, sent) ∧
      (r.ret = 0 ↔ 0 ≤ n ∧ world.InTime (world.ticks s.host.reads) timeout sent ∧
        world.Brings s.host.polls s'.host.polls Received.AnyReply) := by
  obtain ⟨⟨n, sent⟩, asked, rest⟩ := Option.bind_eq_some_iff.mp run
  refine ⟨n, sent, asked, ?_⟩
  have before := ipSend_polled world fuel _ _ _ asked
  dsimp only at rest
  split at rest
  next failed =>
    cases rest
    exact iff_of_false (by decide) fun all => by omega
  next went =>
    obtain ⟨⟨r₁, h'⟩, waited, same⟩ := Option.map_eq_some_iff.mp rest
    cases same
    have waits := pingWait_waits (ipSend_polled world fuel) fuel waited
    have flag := (before.trans waits.polled).flag
    have clear : s.start.icmpReply.isSome = false := rfl
    rw [clear, or_iff_right Bool.false_ne_true] at flag
    rw [waits.success, flag, and_iff_right (by omega : 0 ≤ n)]
    exact Iff.rfl

/-- A ping that succeeds has been answered if and only if, where it is out in time and
some echo reply comes in during the call, the answer comes in behind the request. -/
theorem ping_matched_iff (run : icmpPing world fuel dst timeout timed s = some (r, s')) :
    ∃ n sent, ipSend world fuel (s.request dst) s.start = some (n, sent) ∧
      ((r.ret = 0 → world.Brings sent.polls s'.host.polls (Received.Answers dst.toNat s.nextSeq)) ↔
        (0 ≤ n → world.InTime (world.ticks s.host.reads) timeout sent →
          world.Brings s.host.polls s'.host.polls Received.AnyReply →
            world.Brings sent.polls s'.host.polls (Received.Answers dst.toNat s.nextSeq))) := by
  obtain ⟨n, sent, asked, success⟩ := icmpPing_success run
  refine ⟨n, sent, asked, ?_⟩
  rw [success, and_imp, and_imp]

end Claim

/-- The shortest frame. -/
theorem frame_small : 60 < 2 ^ 31 := by decide

/-- 10.0.2.3 answers the first ping. -/
def ownReply : Received where
  bytes := poke (fun _ => 0) 12 ([8, 0, 0x45, 0, 0, 28, 0, 0, 0, 0, 64, 1, 0, 0, 10, 0, 2, 3,
    10, 0, 2, 16, 0, 0, 0, 0, 0x12, 0x34, 0, 1])
  len := 60
  len_lt := frame_small

/-- 10.0.2.9 answers another station. -/
def strayReply : Received where
  bytes := poke (fun _ => 0) 12 ([8, 0, 0x45, 0, 0, 28, 0, 0, 0, 0, 64, 1, 0, 0, 10, 0, 2, 9,
    10, 0, 2, 20, 0, 0, 0, 0, 0x77, 0x77, 0, 9])
  len := 60
  len_lt := frame_small

theorem ping_matched_iff_own :
    ∃ r s', icmpPing (worldOf [ownReply]) 3 0x0302000A 200 true ⟨station, 0⟩ = some (r, s') ∧
      r.ret = 0 ∧ ∃ n sent,
        ipSend (worldOf [ownReply]) 3 (Pinger.request ⟨station, 0⟩ 0x0302000A) (Pinger.start ⟨station, 0⟩) =
          some (n, sent) ∧
        (r.ret = 0 → (worldOf [ownReply]).Brings sent.polls s'.host.polls
          (Received.Answers (0x0302000A : UInt32).toNat 1)) := by
  have facts : (icmpPing (worldOf [ownReply]) 3 0x0302000A 200 true ⟨station, 0⟩).map
      (fun r => (r.1, r.2.host.polls)) = some (⟨0, some 60⟩, 2) := by decide +kernel
  obtain ⟨⟨r, s'⟩, run, values⟩ := Option.map_eq_some_iff.mp facts
  simp only [Prod.mk.injEq] at values
  obtain ⟨n, sent, asked, same⟩ := ping_matched_iff run
  have early : (ipSend (worldOf [ownReply]) 3 (Pinger.request ⟨station, 0⟩ 0x0302000A)
      (Pinger.start ⟨station, 0⟩)).map (fun r => r.2.polls) = some 0 := by decide +kernel
  rw [asked] at early
  have polls : sent.polls = 0 := Option.some.inj early
  refine ⟨r, s', run, by rw [values.1], n, sent, asked, same.mpr fun _ _ _ => ?_⟩
  rw [polls, values.2]
  decide +kernel

/-- A reply of another station to another one ends the ping. -/
theorem ping_ended_by_stray :
    ∃ r s', icmpPing (worldOf [strayReply]) 3 0x0302000A 200 true ⟨station, 0⟩ = some (r, s') ∧
      r.ret = 0 ∧ ¬(worldOf [strayReply]).Brings 0 s'.host.polls
        (Received.Answers (0x0302000A : UInt32).toNat 1) := by
  have facts : (icmpPing (worldOf [strayReply]) 3 0x0302000A 200 true ⟨station, 0⟩).map
      (fun r => (r.1, r.2.host.polls)) = some (⟨0, some 60⟩, 2) := by decide +kernel
  obtain ⟨⟨r, s'⟩, run, values⟩ := Option.map_eq_some_iff.mp facts
  simp only [Prod.mk.injEq] at values
  refine ⟨r, s', run, by rw [values.1], ?_⟩
  rw [values.2]
  decide +kernel

end Zenbite.Net
