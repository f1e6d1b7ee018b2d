import Zenbite.Lib.Runs
import Zenbite.Net.Tcp

/-! The calls of the TCP client as runs of single steps on the connection. -/

namespace Zenbite.Net

open Memory

/-- A packet comes in, tcp_recv empties the ring into a buffer of `max` bytes,
tcp_send and tcp_close send a piece or the FIN, or the connection is given up. -/
inductive Act where
  | packet (p : Packet)
  | drain (max : Nat)
  | piece (data : List UInt8)
  | fin
  | giveUp

def Act.conn : Act → Conn → Conn
  | .packet p, c => tcpInput p c
  | .drain max, c => (c.drain max).2
  | .piece data, c =>
    let c := c.emit (tcpAck ||| tcpPsh) data
    { c with sndNxt := u32 (c.sndNxt + data.length) }
  | .fin, c =>
    let c := c.emit (tcpFin ||| tcpAck) []
    { c with sndNxt := u32 (c.sndNxt + 1) }
  | .giveUp, c => { c with state := .closed }

/-- The bytes that a step hands to the caller. -/
def Act.out : Act → Conn → List UInt8
  | .drain max, c => (c.drain max).1
  | _, _ => []

/-- The connection, and what tcp_recv has returned so far. -/
structure Receiver where
  conn : Conn
  got : List UInt8

def Act.step (a : Act) (s : Receiver) : Receiver := ⟨a.conn s.conn, s.got ++ a.out s.conn⟩

/-- A call on the connection; `poll` is the poll of a call that is not about it. -/
inductive Call where
  | poll (found : List Packet)
  | recv (max : Nat) (rounds : List Round)
  | send (data : List UInt8) (waits : List (List Packet))
  | close (found : List Packet)

def Call.conn : Call → Conn → Conn
  | .poll found, c => netPoll found c
  | .recv max rounds, c => (tcpRecv max rounds c).2.2
  | .send data waits, c => (tcpSend data waits c).2
  | .close found, c => tcpClose found c

/-- The bytes that tcp_recv returns. -/
def Call.out : Call → Conn → List UInt8
  | .recv max rounds, c => (tcpRecv max rounds c).2.1
  | _, _ => []

def Call.step (call : Call) (s : Receiver) : Receiver := ⟨call.conn s.conn, s.got ++ call.out s.conn⟩

def recvActs (max : Nat) : List Round → Conn → List Act
  | [], _ => []
  | round :: rounds, c =>
    if max = 0 then []
    else
      let r := (netPoll round.found c).drain max
      round.found.map .packet ++ .drain max ::
        if r.1 ≠ [] ∨ r.2.state = .closedByPeer ∨ r.2.state = .closed ∨ round.late then []
        else recvActs max rounds r.2

def sendActs : Nat → List UInt8 → List (List Packet) → List Act
  | 0, _, _ => []
  | fuel + 1, data, waits =>
    if data = [] then []
    else .piece (data.take 1400) :: (waits.headD []).map .packet ++ sendActs fuel (data.drop 1400) waits.tail

/-- The single steps of a call. -/
def Call.acts : Call → Conn → List Act
  | .poll found, _ => found.map .packet
  | .recv max rounds, c => recvActs max rounds c
  | .send data waits, c => if c.state = .established then sendActs data.length data waits else []
  | .close found, c =>
    (if c.state = .established ∨ c.state = .closedByPeer then .fin :: found.map .packet else []) ++ [.giveUp]

theorem run_append (front back : List Act) (s : Receiver) :
    Runs.run Act.step (front ++ back) s = Runs.run Act.step back (Runs.run Act.step front s) :=
  List.foldl_append

theorem run_cons (a : Act) (acts : List Act) (s : Receiver) :
    Runs.run Act.step (a :: acts) s = Runs.run Act.step acts (a.step s) := rfl

/-- A step that hands nothing out. -/
theorem step_quiet {a : Act} {s : Receiver} (quiet : a.out s.conn = []) :
    a.step s = { s with conn := a.conn s.conn } := by
  rw [Act.step, quiet, List.append_nil]

theorem run_packets (found : List Packet) : ∀ s : Receiver,
    Runs.run Act.step (found.map .packet) s = { s with conn := netPoll found s.conn } := by
  induction found with
  | nil => exact fun _ => rfl
  | cons p found ih =>
      intro s
      rw [List.map_cons, run_cons, step_quiet rfl, ih]
      rfl

theorem recvActs_run (max : Nat) (rounds : List Round) : ∀ s : Receiver,
    Runs.run Act.step (recvActs max rounds s.conn) s = Call.step (.recv max rounds) s := by
  induction rounds with
  | nil =>
      intro s
      simp only [recvActs, Call.step, Call.conn, Call.out, tcpRecv, List.append_nil]
      rfl
  | cons round rounds ih =>
      intro s
      have round_run : Runs.run Act.step (round.found.map .packet ++ [.drain max]) s =
          ⟨((netPoll round.found s.conn).drain max).2,
            s.got ++ ((netPoll round.found s.conn).drain max).1⟩ := by
        rw [run_append, run_packets]
        rfl
      by_cases none_ : max = 0
      · simp only [recvActs, Call.step, Call.conn, Call.out, tcpRecv, if_pos none_, List.append_nil]
        rfl
      simp only [recvActs, Call.step, Call.conn, Call.out, tcpRecv, if_neg none_]
      rw [← List.singleton_append, ← List.append_assoc, run_append, round_run]
      generalize (netPoll round.found s.conn).drain max = r
      by_cases some_ : r.1 = []
      · by_cases over_ : r.2.state = .closedByPeer ∨ r.2.state = .closed
        · rw [if_pos (by tauto), if_neg (not_not_intro some_), if_pos over_, some_]
          rfl
        · by_cases late : round.late = true
          · rw [if_pos (by tauto), if_neg (not_not_intro some_), if_neg over_, if_pos late, some_]
            rfl
          · rw [if_neg (by tauto), if_neg (not_not_intro some_), if_neg over_, if_neg late]
            rw [some_, List.append_nil]
            exact ih ⟨r.2, s.got⟩
      · rw [if_pos (Or.inl some_), if_pos some_]
        rfl

theorem sendActs_run (fuel : Nat) : ∀ (data : List UInt8) (waits : List (List Packet)) (s : Receiver),
    Runs.run Act.step (sendActs fuel data waits) s =
      { s with conn := sendFrom fuel data waits s.conn } := by
  induction fuel with
  | zero => exact fun _ _ _ => rfl
  | succ fuel ih =>
      intro data waits s
      rw [sendActs, sendFrom]
      split
      · rfl
      · have least : data.take (min data.length 1400) = data.take 1400 := by
          rcases Nat.le_total data.length 1400 with short | long
          · rw [Nat.min_eq_left short, List.take_length, List.take_of_length_le short]
          · rw [Nat.min_eq_right long]
        have rest : data.drop (min data.length 1400) = data.drop 1400 := by
          rcases Nat.le_total data.length 1400 with short | long
          · rw [Nat.min_eq_left short, List.drop_length, List.drop_of_length_le short]
          · rw [Nat.min_eq_right long]
        rw [List.cons_append, run_cons, step_quiet rfl, run_append, run_packets, ih]
        simp only [Act.conn, least, rest, List.length_take, Nat.min_comm]

/-- A call is the run of its steps. -/
theorem call_run (call : Call) (s : Receiver) :
    Runs.run Act.step (call.acts s.conn) s = call.step s := by
  cases call with
  | poll found =>
      simp only [Call.step, Call.conn, Call.out, List.append_nil]
      exact run_packets found s
  | recv max rounds => exact recvActs_run max rounds s
  | send data waits =>
      simp only [Call.acts, Call.step, Call.conn, Call.out, tcpSend, List.append_nil]
      split
      · exact sendActs_run ..
      · rfl
  | close found =>
      simp only [Call.acts, Call.step, Call.conn, Call.out, tcpClose, List.append_nil]
      rw [run_append, run_cons, step_quiet rfl]
      split
      · rw [run_cons, step_quiet rfl, run_packets]
        rfl
      · rfl

end Zenbite.Net
