import Zenbite.Lib.Queues
import Zenbite.Net.Send
import Zenbite.Net.Stream

/-! What tcp_send and tcp_close put on the wire, and what a peer with the same receive
side makes of it. -/

namespace Zenbite.Net

open Memory

/-- The sender's side of a connection: the bytes given to tcp_send, and whether the FIN is out. -/
structure Line where
  conn : Conn
  given : List UInt8
  done : Bool

def Act.given : Act → List UInt8
  | .piece data => data
  | _ => []

def Act.isFin : Act → Bool
  | .fin => true
  | _ => false

def Act.line (a : Act) (l : Line) : Line := ⟨a.conn l.conn, l.given ++ a.given, l.done || a.isFin⟩

/-- Nothing is sent behind the FIN, and a piece fits into tcp_emit's packet. -/
def Act.Fit : Act → Line → Prop
  | .piece data, l => l.done = false ∧ data.length ≤ 1400
  | .fin, l => l.done = false
  | _, _ => True

/-- A segment with payload or FIN carries the bytes of the stream that its number names. -/
def Emitted.Placed (iss : Nat) (stream : List UInt8) (e : Emitted) : Prop :=
  e.payload ≠ [] ∨ e.flags &&& tcpFin ≠ 0 → ∃ p, p + e.payload.length ≤ stream.length ∧
    e.seq = u32 (iss + 1 + p) ∧ e.payload <+: stream.drop p ∧
    (e.flags &&& tcpFin ≠ 0 → p + e.payload.length = stream.length)

/-- What every step keeps; `old` is what was sent before. -/
structure Sending (iss : Nat) (old : List Emitted) (l : Line) : Prop where
  number : l.conn.sndNxt = u32 (iss + 1 + l.given.length + l.done.toNat)
  begun : l.conn.state ≠ .synSent
  out : ∃ new, l.conn.sent = new ++ old ∧ (new.reverse.map Emitted.payload).flatten = l.given ∧
    (∀ e ∈ new, e.Placed iss l.given ∧ e.payload.length ≤ 1400 ∧ e.flags &&& tcpSyn = 0) ∧
    (l.done = false → ∀ e ∈ new, e.flags &&& tcpFin = 0)

variable {iss : Nat} {old : List Emitted} {l : Line}

/-- More bytes behind leave a segment's place. -/
theorem Emitted.Placed.more {stream : List UInt8} {e : Emitted} (placed : e.Placed iss stream)
    (plain : e.flags &&& tcpFin = 0) (back : List UInt8) : e.Placed iss (stream ++ back) := by
  intro carries
  obtain ⟨p, inside, seq, piece, -⟩ := placed carries
  refine ⟨p, ?_, seq, ?_, fun fin => absurd plain fin⟩
  · rw [List.length_append]
    omega
  · rw [List.drop_append_of_le_length (by omega)]
    exact piece.trans (List.prefix_append _ _)

/-- Steps that send nothing of the stream: the connection keeps its numbers, and what goes out
is bare acknowledgements. -/
structure Quiet (c c' : Conn) : Prop where
  sndNxt : c'.sndNxt = c.sndNxt
  state : c'.state ≠ .synSent
  acks : ∃ new, c'.sent = new ++ c.sent ∧ ∀ e ∈ new, e.payload = [] ∧ e.flags = tcpAck

theorem Quiet.refl {c : Conn} (begun : c.state ≠ .synSent) : Quiet c c :=
  ⟨rfl, begun, [], rfl, fun e member => absurd member List.not_mem_nil⟩

theorem Quiet.trans {a b c : Conn} (first : Quiet a b) (second : Quiet b c) : Quiet a c := by
  obtain ⟨new, sent, bare⟩ := first.acks
  obtain ⟨more, sent', bare'⟩ := second.acks
  refine ⟨second.sndNxt.trans first.sndNxt, second.state, more ++ new, ?_, fun e member => ?_⟩
  · rw [sent', sent, List.append_assoc]
  · rcases List.mem_append.mp member with late | early
    · exact bare' e late
    · exact bare e early

theorem quiet_ack {c : Conn} (begun : c.state ≠ .synSent) : Quiet c (c.emit tcpAck []) := by
  rw [Conn.emit_nil]
  refine ⟨rfl, begun, [⟨tcpAck, c.sndNxt, c.rcvNxt, []⟩], rfl, fun e member => ?_⟩
  rw [List.mem_singleton.mp member]
  exact ⟨rfl, rfl⟩

theorem acceptData_quiet {c : Conn} (begun : c.state ≠ .synSent) (g : Segment) : Quiet c (c.acceptData g) := by
  unfold Conn.acceptData
  split
  next =>
    obtain ⟨rbuf, rhead, frame⟩ := Conn.store_frame g.data c
    rw [frame]
    have same : Quiet c { c with rbuf := rbuf, rhead := rhead, rcvNxt := u32 (c.rcvNxt + g.data.length) } :=
      ⟨rfl, begun, [], rfl, fun e member => absurd member List.not_mem_nil⟩
    exact same.trans (quiet_ack begun)
  next => exact Quiet.refl begun

theorem acceptFin_quiet {c : Conn} (begun : c.state ≠ .synSent) (g : Segment) : Quiet c (c.acceptFin g) := by
  have marked : Quiet c (if g.has tcpAck then { c with sndUna := g.ack } else c) := by
    split
    · exact ⟨rfl, begun, [], rfl, fun e member => absurd member List.not_mem_nil⟩
    · exact Quiet.refl begun
  unfold Conn.acceptFin
  generalize (if g.has tcpAck then { c with sndUna := g.ack } else c) = d at marked
  dsimp only
  split
  next =>
    have moved : Quiet d { d with rcvNxt := u32 (d.rcvNxt + 1) } :=
      ⟨rfl, marked.state, [], rfl, fun e member => absurd member List.not_mem_nil⟩
    have acked := (marked.trans moved).trans (quiet_ack marked.state)
    exact ⟨acked.sndNxt, (fun same => by cases same), acked.acks⟩
  next => exact marked

theorem tcpInput_quiet {c : Conn} (begun : c.state ≠ .synSent) (p : Packet) : Quiet c (tcpInput p c) := by
  unfold tcpInput
  split
  next => exact Quiet.refl begun
  next g _ =>
    rw [Conn.input]
    by_cases reset : g.has tcpRst = true
    · rw [if_pos reset]
      exact ⟨rfl, (fun same => by cases same), [], rfl, fun e member => absurd member List.not_mem_nil⟩
    · rw [if_neg reset, if_neg begun]
      split
      next =>
        rw [Conn.inputOpen_parts]
        have taken := acceptData_quiet begun g
        exact taken.trans (acceptFin_quiet taken.state g)
      next => exact Quiet.refl begun

/-- Steps that send nothing of the stream keep what was said of it. -/
theorem Sending.quiet {c : Conn} (sending : Sending iss old l) (quiet : Quiet l.conn c) :
    Sending iss old { l with conn := c } := by
  obtain ⟨new, sent, whole, placed, plain⟩ := sending.out
  obtain ⟨acks, more, bare⟩ := quiet.acks
  have none_ : (acks.reverse.map Emitted.payload).flatten = [] := by
    apply List.flatten_eq_nil_iff.mpr
    intro payload member
    obtain ⟨e, inside, rfl⟩ := List.mem_map.mp member
    exact (bare e (List.mem_reverse.mp inside)).1
  refine ⟨quiet.sndNxt ▸ sending.number, quiet.state, acks ++ new, ?_, ?_, ?_, ?_⟩
  · rw [more, sent, List.append_assoc]
  · rw [List.reverse_append, List.map_append, List.flatten_append, whole, none_, List.append_nil]
  · intro e member
    rcases List.mem_append.mp member with late | early
    · obtain ⟨empty, flags⟩ := bare e late
      refine ⟨?_, ?_, ?_⟩
      · intro carries
        rcases carries with payload | fin
        · exact absurd empty payload
        · rw [flags] at fin
          exact absurd (by decide) fin
      · rw [empty]
        exact Nat.zero_le _
      · rw [flags]
        decide
    · exact placed e early
  · intro open_ e member
    rcases List.mem_append.mp member with late | early
    · rw [(bare e late).2]
      decide
    · exact plain open_ e early

theorem push_flags : (tcpAck ||| tcpPsh) &&& tcpFin = 0 ∧ (tcpAck ||| tcpPsh) &&& tcpSyn = 0 := by
  decide

theorem fin_flags : (tcpFin ||| tcpAck) &&& tcpSyn = 0 := by
  decide

theorem Sending.piece {data : List UInt8} (sending : Sending iss old l) (open_ : l.done = false)
    (fits : data.length ≤ 1400) : Sending iss old (Act.line (.piece data) l) := by
  obtain ⟨number, begun, new, sent, whole, placed, plain⟩ := sending
  have flags := plain open_
  rw [open_, Bool.toNat_false, Nat.add_zero] at number
  have goes : l.conn.emit (tcpAck ||| tcpPsh) data =
      { l.conn with sent := ⟨tcpAck ||| tcpPsh, l.conn.sndNxt, l.conn.rcvNxt, data⟩ :: l.conn.sent } := by
    rw [Conn.emit, if_neg]
    simp only [tcpHdrSize]
    omega
  refine ⟨?_, ?_, ⟨tcpAck ||| tcpPsh, l.conn.sndNxt, l.conn.rcvNxt, data⟩ :: new, ?_, ?_, ?_, ?_⟩
  · change u32 ((l.conn.emit (tcpAck ||| tcpPsh) data).sndNxt + data.length) =
      u32 (iss + 1 + (l.given ++ data).length + (l.done || false).toNat)
    rw [goes, open_, List.length_append]
    dsimp only
    rw [number]
    simp only [u32, Bool.or_false, Bool.toNat_false]
    omega
  · change (l.conn.emit (tcpAck ||| tcpPsh) data).state ≠ .synSent
    rw [goes]
    exact begun
  · change (l.conn.emit (tcpAck ||| tcpPsh) data).sent = _
    rw [goes, List.cons_append, ← sent]
  · rw [List.reverse_cons, List.map_append, List.flatten_append, whole]
    simp only [Act.line, Act.given, List.map_cons, List.map_nil, List.flatten_cons, List.flatten_nil, List.append_nil]
  · intro e member
    rcases List.mem_cons.mp member with rfl | early
    · refine ⟨fun _ => ⟨l.given.length, ?_, number, ?_, ?_⟩, fits, push_flags.2⟩
      · exact Nat.le_of_eq (List.length_append).symm
      · have rest : (l.given ++ data).drop l.given.length = data := List.drop_left
        exact rest.symm ▸ List.prefix_rfl
      · exact fun fin => absurd push_flags.1 fin
    · obtain ⟨place, small, noSyn⟩ := placed e early
      exact ⟨place.more (flags e early) data, small, noSyn⟩
  · intro _ e member
    rcases List.mem_cons.mp member with rfl | early
    · exact push_flags.1
    · exact flags e early

theorem Sending.fin (sending : Sending iss old l) (open_ : l.done = false) :
    Sending iss old (Act.line .fin l) := by
  obtain ⟨number, begun, new, sent, whole, placed, plain⟩ := sending
  rw [open_, Bool.toNat_false, Nat.add_zero] at number
  refine ⟨?_, ?_, ⟨tcpFin ||| tcpAck, l.conn.sndNxt, l.conn.rcvNxt, []⟩ :: new, ?_, ?_, ?_, ?_⟩
  · change u32 ((l.conn.emit (tcpFin ||| tcpAck) []).sndNxt + 1) =
      u32 (iss + 1 + (l.given ++ []).length + (l.done || true).toNat)
    rw [Conn.emit_nil, List.append_nil, Bool.or_true, Bool.toNat_true]
    dsimp only
    rw [number]
    simp only [u32]
    omega
  · change (l.conn.emit (tcpFin ||| tcpAck) []).state ≠ .synSent
    rw [Conn.emit_nil]
    exact begun
  · change (l.conn.emit (tcpFin ||| tcpAck) []).sent = _
    rw [Conn.emit_nil, List.cons_append, ← sent]
  · rw [List.reverse_cons, List.map_append, List.flatten_append, whole]
    rfl
  · change ∀ e ∈ _ :: new, Emitted.Placed iss (l.given ++ []) e ∧ _
    rw [List.append_nil]
    intro e member
    rcases List.mem_cons.mp member with rfl | early
    · refine ⟨fun _ => ⟨l.given.length, Nat.le_refl _, number, List.nil_prefix, fun _ => rfl⟩, Nat.zero_le _, fin_flags⟩
    · exact placed e early
  · intro still
    change (l.done || true) = false at still
    rw [Bool.or_true] at still
    cases still

theorem Sending.step {a : Act} (sending : Sending iss old l) (ok : a.Fit l) : Sending iss old (a.line l) := by
  have still (calm : a.given = [] ∧ a.isFin = false) (quiet : Quiet l.conn (a.conn l.conn)) :
      Sending iss old (a.line l) := by
    rw [Act.line, calm.1, calm.2, List.append_nil, Bool.or_false]
    exact sending.quiet quiet
  cases a with
  | piece data => exact sending.piece ok.1 ok.2
  | fin => exact sending.fin ok
  | packet p => exact still ⟨rfl, rfl⟩ (tcpInput_quiet sending.begun p)
  | drain max =>
      obtain ⟨rtail, frame⟩ := Conn.drain_frame max l.conn
      apply still ⟨rfl, rfl⟩
      rw [Act.conn, frame]
      exact ⟨rfl, sending.begun, [], rfl, fun e member => absurd member List.not_mem_nil⟩
  | giveUp =>
      apply still ⟨rfl, rfl⟩
      exact ⟨rfl, (fun same => by cases same), [], rfl, fun e member => absurd member List.not_mem_nil⟩

/-! Whole calls. -/

/-- The bytes that a call takes for the stream. -/
def Call.given : Call → Conn → List UInt8
  | .send data _, c => if c.state = .established then data else []
  | _, _ => []

theorem line_run (acts : List Act) (l : Line) (got : List UInt8) : Runs.run Act.line acts l =
    ⟨(Runs.run Act.step acts ⟨l.conn, got⟩).conn, l.given ++ acts.flatMap Act.given,
      l.done || acts.any Act.isFin⟩ := by
  induction acts generalizing l got with
  | nil =>
      rw [List.flatMap_nil, List.append_nil, List.any_nil, Bool.or_false]
      rfl
  | cons a acts ih =>
      rw [List.flatMap_cons, ← List.append_assoc, List.any_cons, ← Bool.or_assoc]
      exact ih (a.line l) (got ++ a.out l.conn)

/-- An act that sends nothing of its own. -/
def Act.Listens (a : Act) : Prop := a.given = [] ∧ a.isFin = false ∧ ∀ l, a.Fit l

theorem listens_run {acts : List Act} (all : ∀ a ∈ acts, a.Listens) :
    acts.flatMap Act.given = [] ∧ acts.any Act.isFin = false ∧ ∀ l, Runs.Each Act.line Act.Fit acts l := by
  refine ⟨?_, ?_, fun l => Runs.Each.of_forall (fun a member l => (all a member).2.2 l) l⟩
  · exact List.flatMap_eq_nil_iff.mpr fun a member => (all a member).1
  · apply List.any_eq_false.mpr
    intro a member
    rw [(all a member).2.1]
    exact Bool.false_ne_true

theorem packets_listen (found : List Packet) : ∀ a ∈ found.map Act.packet, a.Listens := by
  intro a member
  obtain ⟨p, -, rfl⟩ := List.mem_map.mp member
  exact ⟨rfl, rfl, fun _ => trivial⟩

theorem recvActs_listen (max : Nat) (rounds : List Round) (c : Conn) : ∀ a ∈ recvActs max rounds c, a.Listens := by
  induction rounds generalizing c with
  | nil => exact fun a member => absurd member List.not_mem_nil
  | cons round rounds ih =>
      intro a member
      rw [recvActs] at member
      split at member
      next => exact absurd member List.not_mem_nil
      next =>
        rcases List.mem_append.mp member with packet | later
        · exact packets_listen round.found a packet
        · rcases List.mem_cons.mp later with rfl | later
          · exact ⟨rfl, rfl, fun _ => trivial⟩
          · split at later
            next => exact absurd later List.not_mem_nil
            next => exact ih _ a later

/-- The pieces of tcp_send are its data, with no FIN among them. -/
theorem sendActs_run_line (fuel : Nat) : ∀ (data : List UInt8) (waits : List (List Packet)), data.length ≤ fuel →
    (sendActs fuel data waits).flatMap Act.given = data ∧ (sendActs fuel data waits).any Act.isFin = false ∧
      ∀ l : Line, l.done = false → Runs.Each Act.line Act.Fit (sendActs fuel data waits) l := by
  induction fuel with
  | zero =>
      intro data waits enough
      rw [List.length_eq_zero_iff.mp (Nat.le_zero.mp enough)]
      exact ⟨rfl, rfl, fun _ _ => trivial⟩
  | succ fuel ih =>
      intro data waits enough
      rw [sendActs]
      split
      next empty => exact ⟨empty.symm, rfl, fun _ _ => trivial⟩
      next some =>
        have rest : (data.drop 1400).length ≤ fuel := by
          have more := List.length_pos_of_ne_nil some
          rw [List.length_drop]
          omega
        obtain ⟨bytes, noFin, fit⟩ := ih (data.drop 1400) waits.tail rest
        obtain ⟨quiet, calm, hears⟩ := listens_run (packets_listen (waits.headD []))
        have small : (data.take 1400).length ≤ 1400 := by
          rw [List.length_take]
          exact Nat.min_le_left _ _
        refine ⟨?_, ?_, fun l open_ => ?_⟩
        · rw [List.cons_append, List.flatMap_cons, List.flatMap_append, quiet, bytes]
          exact List.take_append_drop 1400 data
        · rw [List.cons_append, List.any_cons, List.any_append, calm, noFin]
          rfl
        · rw [List.cons_append]
          refine ⟨⟨open_, small⟩, Runs.Each.append.mpr ⟨hears _, fit _ ?_⟩⟩
          rw [line_run _ _ [], calm, Bool.or_false]
          change (l.done || false) = false
          rw [Bool.or_false, open_]

/-- Between calls a connection whose FIN is out is closed. -/
structure Between (iss : Nat) (old : List Emitted) (l : Line) : Prop where
  sending : Sending iss old l
  past : l.done = true → l.conn.state = .closed

def Call.line (call : Call) (l : Line) : Line := Runs.run Act.line (call.acts l.conn) l

theorem call_line_conn (call : Call) (l : Line) : (call.line l).conn = call.conn l.conn := by
  rw [Call.line, line_run _ _ [], call_run call ⟨l.conn, []⟩]
  rfl

/-- A closed connection stays closed. -/
theorem closed_stays {c : Conn} (shut : c.state = .closed) (call : Call) : (call.conn c).state = .closed := by
  have still (p : Packet) (c : Conn) (shut : c.state = .closed) : tcpInput p c = c := by
    unfold tcpInput Conn.segment
    rw [if_pos (Or.inr (Or.inl shut))]
  have polls (found : List Packet) (c : Conn) (shut : c.state = .closed) : netPoll found c = c := by
    induction found with
    | nil => rfl
    | cons p found ih =>
        change netPoll found (tcpInput p c) = c
        rw [still p c shut, ih]
  cases call with
  | poll found => exact (congrArg Conn.state (polls found c shut)).trans shut
  | send data waits =>
      have no : ¬ c.state = .established := fun same => by
        rw [shut] at same
        cases same
      rw [Call.conn, tcpSend, if_neg no]
      exact shut
  | close found => rfl
  | recv max rounds =>
      rw [Call.conn]
      induction rounds with
      | nil => exact shut
      | cons round rounds ih =>
          have drained : (c.drain max).2.state = .closed := by
            obtain ⟨rtail, frame⟩ := Conn.drain_frame max c
            rw [frame]
            exact shut
          rw [tcpRecv]
          split
          next => exact shut
          next =>
            dsimp only
            rw [polls round.found c shut]
            split
            next => exact drained
            next =>
              rw [if_pos (Or.inr drained)]
              exact drained

/-- What a call adds to the stream, and where it leaves the connection. -/
theorem Between.call (call : Call) (between : Between iss old l) : Between iss old (call.line l) ∧
    (call.line l).given = l.given ++ call.given l.conn := by
  have conn := call_line_conn call l
  have run := line_run (call.acts l.conn) l []
  have open_ (alive : l.conn.state ≠ .closed) : l.done = false := by
    cases done : l.done with
    | false => rfl
    | true => exact absurd (between.past done) alive
  have keeps (each : Runs.Each Act.line Act.Fit (call.acts l.conn) l) : Sending iss old (call.line l) :=
    Runs.Each.run (fun a l sending ok => sending.step ok) each between.sending
  -- every call but tcp_close leaves `done` as it was
  have calm (noFin : (call.acts l.conn).any Act.isFin = false) : (call.line l).done = true →
      (call.line l).conn.state = .closed := by
    intro done
    rw [Call.line, run, noFin, Bool.or_false] at done
    rw [conn]
    exact closed_stays (between.past done) call
  have bytes : (call.line l).given = l.given ++ (call.acts l.conn).flatMap Act.given := by
    rw [Call.line, run]
  cases call with
  | poll found =>
      obtain ⟨quiet, noFin, fit⟩ := listens_run (packets_listen found)
      exact ⟨⟨keeps (fit l), calm noFin⟩, bytes.trans (congrArg _ quiet)⟩
  | recv max rounds =>
      obtain ⟨quiet, noFin, fit⟩ := listens_run (recvActs_listen max rounds l.conn)
      exact ⟨⟨keeps (fit l), calm noFin⟩, bytes.trans (congrArg _ quiet)⟩
  | send data waits =>
      rw [Call.acts] at keeps calm bytes
      rw [Call.given]
      by_cases live : l.conn.state = .established
      · rw [if_pos live] at keeps calm bytes ⊢
        obtain ⟨pieces, noFin, fit⟩ := sendActs_run_line data.length data waits (Nat.le_refl _)
        have still : l.done = false := by
          apply open_
          rw [live]
          exact fun same => by cases same
        exact ⟨⟨keeps (fit l still), calm noFin⟩, bytes.trans (congrArg _ pieces)⟩
      · rw [if_neg live] at keeps calm bytes ⊢
        exact ⟨⟨keeps trivial, calm rfl⟩, bytes⟩
  | close found =>
      rw [Call.acts] at keeps bytes
      have shut : (Call.line (.close found) l).done = true → (Call.line (.close found) l).conn.state = .closed := by
        intro _
        rw [conn]
        rfl
      obtain ⟨quiet, noFin, fit⟩ := listens_run (packets_listen found)
      have last (m : Line) : Runs.Each Act.line Act.Fit [.giveUp] m := ⟨trivial, trivial⟩
      split at keeps
      next live =>
        rw [if_pos live] at bytes
        have still : l.done = false := by
          apply open_
          rcases live with state | state <;> rw [state] <;> exact fun same => by cases same
        refine ⟨⟨keeps ?_, shut⟩, bytes.trans (congrArg _ ?_)⟩
        · exact ⟨still, Runs.Each.append.mpr ⟨fit _, last _⟩⟩
        · rw [List.cons_append, List.flatMap_cons, List.flatMap_append, quiet]
          rfl
      next gone =>
        rw [if_neg gone] at bytes
        exact ⟨⟨keeps (last l), shut⟩, bytes⟩

/-- The packet of a segment: ports and addresses stay those of the connection. -/
def Emitted.bytes (c : Conn) (e : Emitted) : List UInt8 :=
  (Host.tcpPacket { c with sndNxt := e.seq, rcvNxt := e.ack } e.flags e.payload).payload

/-- What may reach the receiver: payload and FINs are copies of segments that were sent, in
any order and number; the payload due next fits into the ring, and a FIN comes when due. -/
def Arrives (new : List Emitted) (c : Conn) : Act → Receiver → Prop
  | .packet p, s => ∀ g ∈ s.conn.segment p, (g.data ≠ [] ∨ g.has tcpFin → ∃ e ∈ new, p.bytes = e.bytes c) ∧
      (¬ g.has tcpRst → Room s.conn g ∧ FinNext s.conn g)
  | _, _ => True

instance Arrives.decidable (new : List Emitted) (c : Conn) : ∀ a s, Decidable (Arrives new c a s)
  | .packet p, s => inferInstanceAs (Decidable (∀ g ∈ s.conn.segment p, (_ → _) ∧ (_ → (_ → _ → _) ∧ (_ → _))))
  | .drain _, _ | .piece _, _ | .fin, _ | .giveUp, _ => inferInstanceAs (Decidable True)

end Zenbite.Net
