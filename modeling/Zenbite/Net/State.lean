import Zenbite.Net.Calls

/-! Which segments move the connection from state to state. -/

namespace Zenbite.Net

open Memory

/-- The connection, the initial sequence number that tcp_connect chose, and the
segments accepted since then, latest first, each with the connection it found. -/
structure Watched where
  conn : Conn
  iss : Nat
  log : List (Conn × Segment)

def Act.seen : Act → Conn → List (Conn × Segment)
  | .packet p, c => (c.segment p).toList.map fun g => (c, g)
  | _, _ => []

/-- tcp_connect starts over; every other step is one of the connection. -/
inductive Event where
  | start (ip dst port ephemeral ticks : Nat)
  | act (a : Act)

def Event.step : Event → Watched → Watched
  | .start ip dst port ephemeral ticks, s =>
    ⟨tcpOpen ip dst port ephemeral ticks s.conn.sent, u32 (ticks * 1009 + 0xC0DE), []⟩
  | .act a, s => ⟨a.conn s.conn, s.iss, a.seen s.conn ++ s.log⟩

/-- A call of the interface. -/
inductive Use where
  | connect (ip dst port ephemeral ticks : Nat) (rounds : List Round)
  | call (inner : Call)

def Use.conn : Use → Conn → Conn
  | .connect ip dst port ephemeral ticks rounds, c =>
    (connectWait rounds (tcpOpen ip dst port ephemeral ticks c.sent)).2
  | .call inner, c => inner.conn c

def waitActs : List Round → Conn → List Act
  | [], _ => []
  | round :: rounds, c =>
    if round.late then [.giveUp]
    else
      let c := netPoll round.found c
      round.found.map .packet ++
        if c.state = .established ∨ c.state = .closed then [] else waitActs rounds c

def Use.events : Use → Conn → List Event
  | .connect ip dst port ephemeral ticks rounds, c =>
    .start ip dst port ephemeral ticks ::
      (waitActs rounds (tcpOpen ip dst port ephemeral ticks c.sent)).map .act
  | .call inner, c => (inner.acts c).map .act

def Use.step (u : Use) (s : Watched) : Watched := Runs.run Event.step (u.events s.conn) s

theorem waitActs_run (rounds : List Round) : ∀ s : Receiver,
    Runs.run Act.step (waitActs rounds s.conn) s = { s with conn := (connectWait rounds s.conn).2 } := by
  induction rounds with
  | nil => exact fun _ => rfl
  | cons round rounds ih =>
      intro s
      rw [waitActs, connectWait]
      split
      · rw [run_cons, step_quiet rfl]
        rfl
      · dsimp only
        rw [run_append, run_packets]
        by_cases done : (netPoll round.found s.conn).state = .established
        · rw [if_pos (Or.inl done), if_pos done]
          rfl
        · by_cases shut : (netPoll round.found s.conn).state = .closed
          · rw [if_pos (Or.inr shut), if_neg done, if_pos shut]
            rfl
          · rw [if_neg (by tauto), if_neg done, if_neg shut]
            exact ih ⟨netPoll round.found s.conn, s.got⟩

/-- The log does not change what the steps do. -/
theorem acts_conn (acts : List Act) : ∀ (s : Watched) (got : List UInt8),
    (Runs.run Event.step (acts.map .act) s).conn = (Runs.run Act.step acts ⟨s.conn, got⟩).conn := by
  induction acts with
  | nil => exact fun _ _ => rfl
  | cons a acts ih => exact fun s got => ih (Event.step (.act a) s) (got ++ a.out s.conn)

/-- The events of a call are the call. -/
theorem use_conn (u : Use) (s : Watched) : (u.step s).conn = u.conn s.conn := by
  cases u with
  | connect ip dst port ephemeral ticks rounds =>
      let started := Event.step (.start ip dst port ephemeral ticks) s
      exact (acts_conn _ started []).trans
        (congrArg Receiver.conn (waitActs_run rounds ⟨started.conn, []⟩))
  | call inner => exact (acts_conn _ s []).trans (congrArg Receiver.conn (call_run inner ⟨s.conn, []⟩))

/-- The state that memory holds at first. -/
def boot : Watched := ⟨⟨.closed, 0, 0, 0, 0, 0, 0, 0, fun _ => 0, 0, 0, []⟩, 0, []⟩

/-! What the segments may do. -/

/-- The connection is established by a SYN|ACK of the initial sequence number. -/
def Opens (iss : Nat) (c : Conn) (g : Segment) : Prop :=
  c.state ≠ .established → (c.input g).state = .established →
    g.flags &&& (tcpSyn ||| tcpAck) = tcpSyn ||| tcpAck ∧ g.ack = u32 (iss + 1)

/-- The connection is closed by the segment that is expected next. -/
def Closes (c : Conn) (g : Segment) : Prop :=
  (c.input g).state = .closed ∨ (c.input g).state = .closedByPeer →
    (c.input g).state ≠ c.state → g.seq = c.rcvNxt

/-- rcv_nxt moves on by more than the payload taken. -/
def FinAdvances (c : Conn) (g : Segment) : Prop :=
  c.state.Open ∧ ¬ g.has tcpRst ∧ (c.input g).rcvNxt ≠
    if g.data ≠ [] ∧ g.seq = c.rcvNxt then u32 (c.rcvNxt + g.data.length) else c.rcvNxt

instance FinAdvances.decidable : DecidableRel FinAdvances := fun _ _ => inferInstanceAs (Decidable (_ ∧ _ ∧ _))

def FinInPlace (c : Conn) (g : Segment) : Prop :=
  c.state.Open ∧ ¬ g.has tcpRst ∧ g.has tcpFin ∧ g.seq = c.rcvNxt

instance FinInPlace.decidable : DecidableRel FinInPlace := fun _ _ => inferInstanceAs (Decidable (_ ∧ _ ∧ _ ∧ _))

/-- How often a FIN has moved rcv_nxt on. -/
def Watched.fins (s : Watched) : Nat := s.log.countP fun x => FinAdvances x.1 x.2

/-- What the code leaves unchecked: the acknowledgement of a SYN|ACK, the sequence
numbers of RST and FIN, and whether the FIN has come before. -/
def Proper (iss : Nat) (c : Conn) (g : Segment) : Prop :=
  (c.state = .synSent → ¬ g.has tcpRst → g.flags &&& (tcpSyn ||| tcpAck) = tcpSyn ||| tcpAck →
    g.ack = u32 (iss + 1)) ∧
  (g.has tcpRst → g.seq = c.rcvNxt) ∧
  (c.state.Open → ¬ g.has tcpRst → g.has tcpFin → c.state ≠ .closedByPeer ∧ g.seq = c.rcvNxt)

instance Proper.decidable (iss : Nat) : DecidableRel (Proper iss) := fun _ _ =>
  inferInstanceAs (Decidable ((_ → _ → _ → _) ∧ (_ → _) ∧ (_ → _ → _ → _ ∧ _)))

def Event.Meets : Event → Watched → Prop
  | .act (.packet p), s => ∀ g ∈ s.conn.segment p, Proper s.iss s.conn g
  | _, _ => True

instance Event.Meets.decidable : ∀ e s, Decidable (Event.Meets e s)
  | .act (.packet p), s => inferInstanceAs (Decidable (∀ g ∈ s.conn.segment p, Proper s.iss s.conn g))
  | .start .., _ | .act (.drain _), _ | .act (.piece _), _ | .act .fin, _ | .act .giveUp, _ =>
    inferInstanceAs (Decidable True)

/-- The condition on a call: each segment that comes in meanwhile is proper. -/
def Use.Meets (u : Use) (s : Watched) : Prop := Runs.Each Event.step Event.Meets (u.events s.conn) s

instance Use.Meets.decidable (u : Use) (s : Watched) : Decidable (u.Meets s) := Runs.Each.decidable ..

/-! What a segment does to the state and to rcv_nxt. -/

variable {c : Conn} {g : Segment}

theorem acceptData_state (c : Conn) (g : Segment) : (c.acceptData g).state = c.state := by
  rw [Conn.acceptData]
  split
  · obtain ⟨rbuf, rhead, frame⟩ := Conn.store_frame g.data c
    rw [Conn.emit_nil, frame]
  · rfl

theorem acceptData_next (c : Conn) (g : Segment) : (c.acceptData g).rcvNxt =
    if g.data ≠ [] ∧ g.seq = c.rcvNxt then u32 (c.rcvNxt + g.data.length) else c.rcvNxt := by
  rw [Conn.acceptData]
  split
  · obtain ⟨rbuf, rhead, frame⟩ := Conn.store_frame g.data c
    rw [Conn.emit_nil, frame]
  · rfl

theorem acceptFin_state (c : Conn) (g : Segment) :
    (c.acceptFin g).state = if g.has tcpFin then .closedByPeer else c.state := by
  rw [Conn.acceptFin]
  split
  · rfl
  · split <;> rfl

theorem acceptFin_next (c : Conn) (g : Segment) :
    (c.acceptFin g).rcvNxt = if g.has tcpFin then u32 (c.rcvNxt + 1) else c.rcvNxt := by
  rw [Conn.acceptFin]
  split
  · rw [Conn.emit_nil]
    split <;> rfl
  · split <;> rfl

theorem input_open (open_ : c.state.Open) (noReset : ¬ g.has tcpRst) : c.input g = c.inputOpen g := by
  have noSyn : c.state ≠ .synSent := fun syn => absurd open_ (by rw [syn]; exact id)
  rw [Conn.input, if_neg noReset, if_neg noSyn, if_pos open_]

theorem inputOpen_state (c : Conn) (g : Segment) :
    (c.inputOpen g).state = if g.has tcpFin then .closedByPeer else c.state := by
  rw [Conn.inputOpen_parts, acceptFin_state, acceptData_state]

/-- The next sequence number is never the same one. -/
theorem u32_succ_ne (n : Nat) : u32 (n + 1) ≠ n := by
  simp only [u32]
  omega

/-- Every FIN moves rcv_nxt on. -/
theorem finAdvances_iff : FinAdvances c g ↔ c.state.Open ∧ ¬ g.has tcpRst ∧ g.has tcpFin := by
  rw [FinAdvances, ← acceptData_next]
  refine and_congr_right fun open_ => and_congr_right fun noReset => ?_
  rw [input_open open_ noReset, Conn.inputOpen_parts, acceptFin_next]
  by_cases fin : g.has tcpFin = true
  · rw [if_pos fin]
    exact ⟨fun _ => fin, fun _ => u32_succ_ne _⟩
  · rw [if_neg fin]
    exact ⟨fun moved => absurd rfl moved, fun flag => absurd flag fin⟩

/-- A proper segment drives the connection as the protocol says, whatever its state. -/
theorem Proper.opens {iss : Nat} (proper : Proper iss c g) : Opens iss c g := by
  intro before after
  by_cases reset : g.has tcpRst
  · rw [Conn.input, if_pos reset] at after
    exact nomatch after
  by_cases syn : c.state = .synSent
  · by_cases both : g.flags &&& (tcpSyn ||| tcpAck) = tcpSyn ||| tcpAck
    · exact ⟨both, proper.1 syn reset both⟩
    · rw [Conn.input, if_neg reset, if_pos syn, if_neg both] at after
      exact absurd after before
  by_cases open_ : c.state.Open
  · rw [input_open open_ reset, inputOpen_state] at after
    split at after
    · exact absurd after (by decide)
    · exact absurd after before
  · rw [Conn.input, if_neg reset, if_neg syn, if_neg open_] at after
    exact absurd after before

theorem Proper.closes {iss : Nat} (proper : Proper iss c g) : Closes c g := by
  intro after moved
  by_cases reset : g.has tcpRst
  · exact proper.2.1 reset
  by_cases syn : c.state = .synSent
  · rw [Conn.input, if_neg reset, if_pos syn] at after moved
    split at after
    · rw [Conn.emit_nil] at after
      exact nomatch after
    · rw [syn] at after
      exact absurd after (by decide)
  by_cases open_ : c.state.Open
  · rw [input_open open_ reset, inputOpen_state] at moved
    by_cases fin : g.has tcpFin
    · exact (proper.2.2 open_ reset fin).2
    · rw [if_neg fin] at moved
      exact absurd rfl moved
  · rw [Conn.input, if_neg reset, if_neg syn, if_neg open_] at moved
    exact absurd rfl moved

/-- What every event keeps: the log is as it should be, and before the FIN counts
no FIN has counted. -/
structure Tracked (s : Watched) : Prop where
  opened : ∀ x ∈ s.log, Opens s.iss x.1 x.2
  closed : ∀ x ∈ s.log, Closes x.1 x.2
  inPlace : ∀ x ∈ s.log, FinAdvances x.1 x.2 → FinInPlace x.1 x.2
  state : (s.conn.state = .synSent ∨ s.conn.state = .established) ∧ s.fins = 0 ∨
    (s.conn.state = .closedByPeer ∨ s.conn.state = .closed) ∧ s.fins ≤ 1

variable {s : Watched}

/-- The state after a segment, and how the FINs count. -/
theorem Tracked.input_state (tracked : Tracked s) (proper : Proper s.iss s.conn g) :
    let after := (s.conn.input g).state
    let fins := s.fins + if FinAdvances s.conn g then 1 else 0
    (after = .synSent ∨ after = .established) ∧ fins = 0 ∨
      (after = .closedByPeer ∨ after = .closed) ∧ fins ≤ 1 := by
  dsimp only
  have state := tracked.state
  have most : s.fins ≤ 1 := by
    rcases state with ⟨-, none_⟩ | ⟨-, one⟩
    · omega
    · exact one
  by_cases reset : g.has tcpRst
  · rw [if_neg fun moves => (finAdvances_iff.mp moves).2.1 reset, Conn.input, if_pos reset]
    exact Or.inr ⟨Or.inr rfl, most⟩
  by_cases open_ : s.conn.state.Open
  · rw [input_open open_ reset, inputOpen_state]
    by_cases fin : g.has tcpFin
    · have early : s.fins = 0 := by
        rcases state with ⟨-, none_⟩ | ⟨late | shut, -⟩
        · exact none_
        · exact absurd late (proper.2.2 open_ reset fin).1
        · exact absurd open_ (by rw [shut]; exact id)
      rw [if_pos fin, if_pos (finAdvances_iff.mpr ⟨open_, reset, fin⟩), early]
      exact Or.inr ⟨Or.inl rfl, le_refl _⟩
    · rw [if_neg fin, if_neg fun moves => fin (finAdvances_iff.mp moves).2.2]
      exact state
  · rw [if_neg fun moves => open_ (finAdvances_iff.mp moves).1, Conn.input, if_neg reset]
    by_cases syn : s.conn.state = .synSent
    · have early : s.fins = 0 := by
        rcases state with ⟨-, none_⟩ | ⟨late | shut, -⟩
        · exact none_
        · exact absurd (syn.symm.trans late) (by decide)
        · exact absurd (syn.symm.trans shut) (by decide)
      rw [if_pos syn]
      split
      · rw [Conn.emit_nil]
        exact Or.inl ⟨Or.inr rfl, early⟩
      · exact Or.inl ⟨Or.inl syn, early⟩
    · rw [if_neg syn, if_neg open_]
      exact state

theorem Tracked.packet {p : Packet} (tracked : Tracked s)
    (meets : Event.Meets (.act (.packet p)) s) : Tracked (Event.step (.act (.packet p)) s) := by
  cases accepted : s.conn.segment p with
  | none =>
      have same : Event.step (.act (.packet p)) s = s := by
        simp only [Event.step, Act.conn, Act.seen, tcpInput, accepted, Option.toList_none,
          List.map_nil, List.nil_append]
      rwa [same]
  | some g =>
      have next : Event.step (.act (.packet p)) s = ⟨s.conn.input g, s.iss, (s.conn, g) :: s.log⟩ := by
        simp only [Event.step, Act.conn, Act.seen, tcpInput, accepted, Option.toList_some,
          List.map_cons, List.map_nil, List.cons_append, List.nil_append]
      have proper := meets g accepted
      have state := tracked.input_state proper
      obtain ⟨opened, closed, inPlace, -⟩ := tracked
      rw [next]
      constructor
      · exact List.forall_mem_cons.mpr ⟨proper.opens, opened⟩
      · exact List.forall_mem_cons.mpr ⟨proper.closes, closed⟩
      · refine List.forall_mem_cons.mpr ⟨fun moves => ?_, inPlace⟩
        obtain ⟨open_, noReset, fin⟩ := finAdvances_iff.mp moves
        exact ⟨open_, noReset, fin, (proper.2.2 open_ noReset fin).2⟩
      · simpa only [Watched.fins, List.countP_cons, decide_eq_true_eq] using state

/-- A step that no segment drives: the state stays or becomes closed. -/
theorem Tracked.quiet {c : Conn} (tracked : Tracked s)
    (state : c.state = s.conn.state ∨ c.state = .closed) : Tracked ⟨c, s.iss, s.log⟩ := by
  refine ⟨tracked.opened, tracked.closed, tracked.inPlace, ?_⟩
  rcases state with same | shut
  · rw [same]
    exact tracked.state
  · refine Or.inr ⟨Or.inr shut, ?_⟩
    rcases tracked.state with ⟨-, none_⟩ | ⟨-, one⟩
    · exact none_.le.trans (Nat.zero_le 1)
    · exact one

theorem emit_state (c : Conn) (flags : UInt8) (data : List UInt8) : (c.emit flags data).state = c.state := by
  rw [Conn.emit]
  split <;> rfl

theorem Tracked.step {e : Event} (tracked : Tracked s) (meets : e.Meets s) : Tracked (e.step s) := by
  cases e with
  | start ip dst port ephemeral ticks =>
      refine ⟨by simp [Event.step], by simp [Event.step], by simp [Event.step], Or.inl ⟨Or.inl ?_, rfl⟩⟩
      rw [Event.step, tcpOpen, Conn.emit_nil]
  | act a =>
      cases a with
      | packet p => exact tracked.packet meets
      | drain max =>
          obtain ⟨rtail, frame⟩ := Conn.drain_frame max s.conn
          exact tracked.quiet (Or.inl (by rw [Act.conn, frame]))
      | piece data => exact tracked.quiet (Or.inl (emit_state ..))
      | fin => exact tracked.quiet (Or.inl (emit_state ..))
      | giveUp => exact tracked.quiet (Or.inr rfl)

end Zenbite.Net
