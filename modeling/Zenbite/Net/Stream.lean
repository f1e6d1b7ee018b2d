import Zenbite.Net.Calls

/-! What tcp_recv hands out of the peer's byte stream. -/

namespace Zenbite.Net

open Memory

namespace Conn

/-- The bytes that wait in the ring. -/
def ring (c : Conn) : List UInt8 := Ring.contents rbufSize c.rbuf c.rhead c.rtail

/-- The ends of the ring are cells of it. -/
def Ends (c : Conn) : Prop := c.rhead < rbufSize ∧ c.rtail < rbufSize

end Conn

/-- The bytes stored so far. -/
def Receiver.stored (s : Receiver) : List UInt8 := s.got ++ s.conn.ring

/-! What the ring keeps of a segment. -/

namespace Conn

/-- A full ring keeps what it has; the rest of the segment is dropped. -/
theorem store_ring (data : List UInt8) : ∀ {c : Conn}, c.Ends →
    (c.store data).Ends ∧ (c.store data).ring = c.ring ++ data.take (rbufSize - 1 - c.ring.length) := by
  induction data with
  | nil => exact fun ends => ⟨ends, by simp [store]⟩
  | cons x xs ih =>
      intro c ends
      have count : c.ring.length = Ring.used rbufSize c.rhead c.rtail := Ring.contents_length ..
      have low : Ring.used rbufSize c.rhead c.rtail < rbufSize := Ring.used_lt (by decide)
      rw [store]
      split
      next full =>
        have all := (Ring.full_iff ends.1 ends.2).mp full
        rw [show rbufSize - 1 - c.ring.length = 0 by omega]
        exact ⟨ends, by simp⟩
      next room =>
        have pushed := Ring.contents_push c.rbuf x ends.1 ends.2 room
        have more : Ring.used rbufSize c.rhead c.rtail + 1 ≠ rbufSize := fun all =>
          room ((Ring.full_iff ends.1 ends.2).mpr all)
        obtain ⟨inside, kept⟩ := ih (c := { c with
          rbuf := fun i => if i = c.rhead then x else c.rbuf i, rhead := Ring.next rbufSize c.rhead })
          ⟨Ring.next_lt (by decide) _, ends.2⟩
        refine ⟨inside, kept.trans ?_⟩
        simp only [ring] at pushed count ⊢
        rw [pushed, List.length_append, List.length_singleton, count, List.append_assoc,
          List.singleton_append]
        rw [show rbufSize - 1 - Ring.used rbufSize c.rhead c.rtail =
          rbufSize - 1 - (Ring.used rbufSize c.rhead c.rtail + 1) + 1 by omega, List.take_succ_cons]

/-- Draining moves the front of the ring out. -/
theorem drain_ring (n : Nat) : ∀ {c : Conn}, c.Ends →
    (c.drain n).2.Ends ∧ (c.drain n).1 ++ (c.drain n).2.ring = c.ring := by
  induction n with
  | zero => exact fun ends => ⟨ends, rfl⟩
  | succ n ih =>
      intro c ends
      rw [drain]
      split
      next empty => exact ⟨ends, rfl⟩
      next more =>
        have popped := Ring.contents_pop c.rbuf ends.1 ends.2 more
        obtain ⟨inside, kept⟩ := ih (c := { c with rtail := Ring.next rbufSize c.rtail })
          ⟨ends.1, Ring.next_lt (by decide) _⟩
        exact ⟨inside, (congrArg _ kept).trans popped.symm⟩

end Conn

/-! The bytes below rcv_nxt against the peer's stream. -/

/-- The peer's stream starts behind its initial sequence number, and its FIN counts
as one more byte: the bytes stored are its beginning, rcv_nxt counts exactly them
and the FIN, and no acknowledgement goes beyond. -/
structure Account (stream : List UInt8) (isn : Nat) (fin : Bool) (s : Receiver) : Prop where
  inOrder : s.stored <+: stream
  counted : s.conn.rcvNxt = u32 (isn + 1 + s.stored.length + fin.toNat)
  ended : fin = true → s.stored = stream
  acked : ∀ e ∈ s.conn.sent, e.flags &&& tcpAck ≠ 0 →
    ∃ k ≤ s.stored.length + fin.toNat, e.ack = u32 (isn + 1 + k)

/-- The sequence number of a segment's first payload byte. -/
def Segment.start (g : Segment) : Nat := g.seq + if g.has tcpSyn then 1 else 0

/-- The segment is the peer's: its payload is a piece of the stream, its FIN stands
at the end, and its sequence number is less than 2^32 from the `n` bytes stored. -/
def Segment.Genuine (stream : List UInt8) (isn n : Nat) (g : Segment) : Prop :=
  ∃ p ≤ stream.length, u32 g.start = u32 (isn + 1 + p) ∧ g.data <+: stream.drop p ∧
    (g.has tcpFin → p + g.data.length = stream.length) ∧ (g.has tcpSyn → p = 0) ∧
    p + g.data.length < n + 2 ^ 32 ∧ n + 2 < p + 2 ^ 32

instance Segment.Genuine.decidable (stream : List UInt8) (isn n : Nat) (g : Segment) : Decidable (g.Genuine stream isn n) :=
  inferInstanceAs (Decidable (∃ p ≤ stream.length, _ ∧ _))

/-- The next payload fits into the ring. -/
def Room (c : Conn) (g : Segment) : Prop :=
  g.data ≠ [] → g.seq = c.rcvNxt → g.data.length ≤ rbufSize - 1 - c.ring.length

/-- A FIN is the first one and comes when every byte before it is there. -/
def FinNext (c : Conn) (g : Segment) : Prop :=
  g.has tcpFin → c.state ≠ .closedByPeer ∧
    (g.seq = c.rcvNxt ∨ u32 (g.start + g.data.length) = c.rcvNxt)

def Fits (stream : List UInt8) (isn : Nat) (s : Receiver) (g : Segment) : Prop :=
  ¬ g.has tcpRst → s.conn.state.Open →
    (g.data ≠ [] ∨ g.has tcpFin → g.Genuine stream isn s.stored.length) ∧ Room s.conn g ∧ FinNext s.conn g

instance Fits.decidable (stream : List UInt8) (isn : Nat) (s : Receiver) (g : Segment) : Decidable (Fits stream isn s g) :=
  inferInstanceAs (Decidable (_ → _ → _ ∧ (_ → _ → _) ∧ (_ → _)))

/-- The condition on a step: a packet that the connection accepts fits. -/
def Meets (stream : List UInt8) (isn : Nat) : Act → Receiver → Prop
  | .packet p, s => ∀ g ∈ s.conn.segment p, Fits stream isn s g
  | _, _ => True

instance Meets.decidable (stream : List UInt8) (isn : Nat) : ∀ a s, Decidable (Meets stream isn a s)
  | .packet p, s => inferInstanceAs (Decidable (∀ g ∈ s.conn.segment p, Fits stream isn s g))
  | .drain _, _ | .piece _, _ | .fin, _ | .giveUp, _ => inferInstanceAs (Decidable True)

/-- The connection as the handshake leaves it. -/
structure Fresh (isn : Nat) (s : Receiver) : Prop where
  got : s.got = []
  state : s.conn.state = .established
  next : s.conn.rcvNxt = u32 (isn + 1)
  inside : s.conn.rtail < rbufSize
  empty : s.conn.rhead = s.conn.rtail
  acked : ∀ e ∈ s.conn.sent, e.flags &&& tcpAck ≠ 0 → e.ack = u32 (isn + 1)

/-- What every step keeps: the account, the ends of the ring, and which states are
left before and behind the FIN. -/
structure Kept (stream : List UInt8) (isn : Nat) (fin : Bool) (s : Receiver) : Prop where
  account : Account stream isn fin s
  ends : s.conn.Ends
  state : s.conn.state = .established ∧ fin = false ∨ s.conn.state = .closedByPeer ∧ fin = true ∨
    s.conn.state = .closed

variable {stream : List UInt8} {isn : Nat} {fin : Bool} {s : Receiver} {g : Segment}

theorem Fresh.kept (fresh : Fresh isn s) (stream : List UInt8) : Kept stream isn false s := by
  have none_ : s.stored = [] := by
    simp only [Receiver.stored, Conn.ring, fresh.got, fresh.empty, Ring.contents_empty _ fresh.inside,
      List.append_nil]
  constructor
  · constructor
    · exact none_ ▸ List.nil_prefix
    · rw [none_]
      exact fresh.next
    · simp
    · exact fun e member flag => ⟨0, Nat.zero_le _, fresh.acked e member flag⟩
  · exact ⟨fresh.empty ▸ fresh.inside, fresh.inside⟩
  · exact Or.inl ⟨fresh.state, rfl⟩

/-- A segment at the next sequence number starts behind the bytes stored. -/
theorem start_of_next {n f p : Nat} (low : f ≤ 1) (next : g.seq = u32 (isn + 1 + n + f))
    (place : u32 g.start = u32 (isn + 1 + p)) (first : g.has tcpSyn → p = 0)
    (near : p < n + 2 ^ 32) (far : n + 2 < p + 2 ^ 32) : g.has tcpSyn = false ∧ p = n + f := by
  simp only [Segment.start, u32] at next place
  cases syn : g.has tcpSyn with
  | true =>
      have zero := first syn
      rw [if_pos syn] at place
      omega
  | false =>
      rw [if_neg (by simp [syn])] at place
      exact ⟨rfl, by omega⟩

/-- The bytes stored are as many as the first of them that came. -/
theorem Account.take (account : Account stream isn fin s) :
    s.stored = stream.take s.stored.length := List.prefix_iff_eq_take.mp account.inOrder

/-- Payload that fits is stored and acknowledged. -/
theorem Kept.acceptData (kept : Kept stream isn fin s) (room : Room s.conn g)
    (genuine : g.data ≠ [] → g.Genuine stream isn s.stored.length) :
    Kept stream isn fin { s with conn := s.conn.acceptData g } ∧
      (s.conn.acceptData g).state = s.conn.state ∧
      (g.data ≠ [] → g.seq = s.conn.rcvNxt → fin = false →
        s.stored.length + g.data.length =
          (Receiver.stored { s with conn := s.conn.acceptData g }).length) := by
  obtain ⟨account, ends, state⟩ := kept
  by_cases next : g.data ≠ [] ∧ g.seq = s.conn.rcvNxt
  case neg =>
    have same : s.conn.acceptData g = s.conn := if_neg next
    rw [same]
    exact ⟨⟨account, ends, state⟩, rfl, fun some_ at_ => absurd ⟨some_, at_⟩ next⟩
  obtain ⟨p, inside, place, piece, -, first, near, far⟩ := genuine next.1
  have at_ := next.2.trans account.counted
  have low : fin.toNat ≤ 1 := Bool.toNat_le fin
  obtain ⟨-, start⟩ := start_of_next low at_ place first (by omega) far
  have fits := piece.length_le
  have more := List.length_pos_of_ne_nil next.1
  rw [List.length_drop] at fits
  have open_ : fin = false := by
    by_contra closed
    rw [Bool.not_eq_false] at closed
    rw [account.ended closed, closed, Bool.toNat_true] at start
    omega
  subst open_
  rw [Bool.toNat_false, Nat.add_zero] at start
  obtain ⟨insideR, ringR⟩ := Conn.store_ring g.data ends
  rw [List.take_of_length_le (room next.1 next.2)] at ringR
  obtain ⟨rbuf, rhead, frame⟩ := Conn.store_frame g.data s.conn
  have took : s.conn.acceptData g =
      ({ s.conn.store g.data with rcvNxt := u32 (s.conn.rcvNxt + g.data.length) }).emit tcpAck [] := by
    rw [Conn.acceptData, if_pos next, frame]
  rw [took, Conn.emit_nil]
  have stored : Receiver.stored { s with conn := { s.conn.store g.data with
      rcvNxt := u32 (s.conn.rcvNxt + g.data.length)
      sent := ⟨tcpAck, (s.conn.store g.data).sndNxt, u32 (s.conn.rcvNxt + g.data.length), []⟩ ::
        (s.conn.store g.data).sent } } = s.stored ++ g.data := by
    simp only [Receiver.stored, Conn.ring] at ringR ⊢
    rw [ringR, List.append_assoc]
  have number : u32 (s.conn.rcvNxt + g.data.length) =
      u32 (isn + 1 + (s.stored ++ g.data).length) := by
    rw [account.counted, List.length_append]
    simp only [u32, Bool.toNat_false]
    omega
  refine ⟨⟨⟨?_, ?_, ?_, ?_⟩, insideR, ?_⟩, ?_, ?_⟩
  · rw [stored, account.take]
    obtain ⟨rest, split⟩ := piece
    exact ⟨rest, by rw [List.append_assoc, split, start, List.take_append_drop]⟩
  · rw [stored]
    exact number
  · simp
  · rw [stored]
    intro e member flag
    rcases List.mem_cons.mp member with rfl | old
    · exact ⟨_, le_refl _, number⟩
    · rw [frame] at old
      obtain ⟨k, below, ack⟩ := account.acked e old flag
      exact ⟨k, by rw [List.length_append]; omega, ack⟩
  · simpa only [frame] using state
  · simp only [frame]
  · intro _ _ _
    rw [stored, List.length_append]

/-- A FIN behind the whole stream counts as one more byte. -/
theorem Kept.acceptFin (kept : Kept stream isn fin s)
    (last : g.has tcpFin → fin = false ∧ s.stored = stream) :
    ∃ fin', Kept stream isn fin' { s with conn := s.conn.acceptFin g } := by
  obtain ⟨account, ends, state⟩ := kept
  have una : ∀ sndUna, Kept stream isn fin { s with conn := { s.conn with sndUna := sndUna } } :=
    fun _ => ⟨⟨account.inOrder, account.counted, account.ended, account.acked⟩, ends, state⟩
  have marked : ∃ sndUna, (if g.has tcpAck then { s.conn with sndUna := g.ack } else s.conn) =
      { s.conn with sndUna := sndUna } := by
    split
    · exact ⟨_, rfl⟩
    · exact ⟨s.conn.sndUna, rfl⟩
  obtain ⟨sndUna, same⟩ := marked
  rw [Conn.acceptFin, same]
  by_cases flag : g.has tcpFin = true
  case neg =>
    rw [if_neg flag]
    exact ⟨fin, una sndUna⟩
  obtain ⟨rfl, all⟩ := last flag
  rw [if_pos flag, Conn.emit_nil]
  have number : u32 (s.conn.rcvNxt + 1) = u32 (isn + 1 + s.stored.length + 1) := by
    rw [account.counted]
    simp only [u32, Bool.toNat_false]
    omega
  refine ⟨true, ⟨account.inOrder, number, fun _ => all, ?_⟩, ends, Or.inr (Or.inl ⟨rfl, rfl⟩)⟩
  intro e member ack
  rcases List.mem_cons.mp member with rfl | old
  · exact ⟨s.stored.length + 1, le_refl _, number⟩
  · obtain ⟨k, below, ack⟩ := account.acked e old ack
    exact ⟨k, Nat.le_succ_of_le below, ack⟩

/-- The bytes before a FIN that comes in its place are all there. -/
theorem Kept.whole (kept : Kept stream isn false s) (room : Room s.conn g)
    (genuine : g.Genuine stream isn s.stored.length) (flag : g.has tcpFin)
    (at_ : g.seq = s.conn.rcvNxt ∨ u32 (g.start + g.data.length) = s.conn.rcvNxt) :
    Receiver.stored { s with conn := s.conn.acceptData g } = stream := by
  obtain ⟨keptData, -, grown⟩ := kept.acceptData room fun _ => genuine
  obtain ⟨p, -, place, -, finish, first, near, far⟩ := genuine
  have all := finish flag
  have counted := kept.account.counted
  have below := kept.account.inOrder.length_le
  have inOrder := keptData.account.inOrder
  simp only [Bool.toNat_false, Nat.add_zero] at counted
  apply inOrder.eq_of_length_le
  by_cases next : g.seq = s.conn.rcvNxt
  · obtain ⟨-, start⟩ := start_of_next (f := 0) (by decide) (next.trans counted) place first (by omega) far
    by_cases none_ : g.data = []
    · have same : s.conn.acceptData g = s.conn := if_neg fun both => both.1 none_
      rw [none_, List.length_nil] at all
      rw [same]
      change stream.length ≤ s.stored.length
      omega
    · have more := grown none_ next rfl
      omega
  · have behind := at_.resolve_left next
    have same : s.conn.acceptData g = s.conn := if_neg fun both => next both.2
    have finishAt : u32 (isn + 1 + p + g.data.length) = u32 (isn + 1 + s.stored.length) := by
      rw [← counted, ← behind]
      simp only [u32] at place ⊢
      omega
    simp only [u32] at finishAt
    rw [same]
    change stream.length ≤ s.stored.length
    omega

/-- A segment that fits keeps the account. -/
theorem Kept.input (kept : Kept stream isn fin s) (fits : Fits stream isn s g) :
    ∃ fin', Kept stream isn fin' { s with conn := s.conn.input g } := by
  rw [Conn.input]
  split
  next _ =>
    exact ⟨fin, ⟨kept.account.inOrder, kept.account.counted, kept.account.ended, kept.account.acked⟩,
      kept.ends, Or.inr (Or.inr rfl)⟩
  next noReset =>
    have noSyn : s.conn.state ≠ .synSent := by
      rcases kept.state with ⟨state, -⟩ | ⟨state, -⟩ | state <;> rw [state] <;> decide
    rw [if_neg noSyn]
    split
    next open_ =>
      obtain ⟨genuine, room, next⟩ := fits noReset open_
      obtain ⟨keptData, -, -⟩ := kept.acceptData room fun some_ => genuine (Or.inl some_)
      rw [Conn.inputOpen_parts]
      apply keptData.acceptFin
      intro flag
      obtain ⟨first, at_⟩ := next flag
      have early : fin = false := by
        rcases kept.state with ⟨-, early⟩ | ⟨state, -⟩ | state
        · exact early
        · exact absurd state first
        · exact absurd open_ (by rw [state]; exact id)
      subst early
      exact ⟨rfl, kept.whole room (genuine (Or.inr flag)) flag at_⟩
    next _ => exact ⟨fin, kept⟩

/-- What the calls send acknowledges no more than is stored. -/
theorem Kept.emit (kept : Kept stream isn fin s) (flags : UInt8) (data : List UInt8) (sndNxt : Nat) :
    Kept stream isn fin { s with conn := { s.conn.emit flags data with sndNxt := sndNxt } } := by
  obtain ⟨account, ends, state⟩ := kept
  rw [Conn.emit]
  split
  · exact ⟨⟨account.inOrder, account.counted, account.ended, account.acked⟩, ends, state⟩
  · refine ⟨⟨account.inOrder, account.counted, account.ended, ?_⟩, ends, state⟩
    intro e member flag
    rcases List.mem_cons.mp member with rfl | old
    · exact ⟨s.stored.length + fin.toNat, le_refl _, by rw [← Nat.add_assoc]; exact account.counted⟩
    · exact account.acked e old flag

theorem Kept.step {a : Act} (kept : Kept stream isn fin s) (meets : Meets stream isn a s) :
    ∃ fin', Kept stream isn fin' (a.step s) := by
  cases a with
  | packet p =>
      rw [step_quiet rfl, Act.conn, tcpInput]
      split
      next _ => exact ⟨fin, kept⟩
      next g accepted => exact kept.input (meets g accepted)
  | drain max =>
      obtain ⟨rtail, frame⟩ := Conn.drain_frame max s.conn
      obtain ⟨ends, parts⟩ := Conn.drain_ring max kept.ends
      have stored : (Act.step (.drain max) s).stored = s.stored := by
        simp only [Act.step, Act.conn, Act.out, Receiver.stored, List.append_assoc, parts]
      obtain ⟨account, -, state⟩ := kept
      refine ⟨fin, ⟨?_, ?_, ?_, ?_⟩, ends, ?_⟩
      · rw [stored]
        exact account.inOrder
      · rw [stored]
        simpa only [Act.step, Act.conn, frame] using account.counted
      · rw [stored]
        exact account.ended
      · rw [stored]
        simpa only [Act.step, Act.conn, frame] using account.acked
      · simpa only [Act.step, Act.conn, frame] using state
  | piece data =>
      rw [step_quiet rfl]
      exact ⟨fin, kept.emit ..⟩
  | fin =>
      rw [step_quiet rfl]
      exact ⟨fin, kept.emit ..⟩
  | giveUp =>
      rw [step_quiet rfl]
      obtain ⟨account, ends, -⟩ := kept
      exact ⟨fin, ⟨account.inOrder, account.counted, account.ended, account.acked⟩, ends, Or.inr (Or.inr rfl)⟩

/-- The condition on a call: every packet its polls find fits when it comes in. -/
def Call.Meets (stream : List UInt8) (isn : Nat) (call : Call) (s : Receiver) : Prop :=
  Runs.Each Act.step (Net.Meets stream isn) (call.acts s.conn) s

instance Call.Meets.decidable (stream : List UInt8) (isn : Nat) (call : Call) (s : Receiver) :
    Decidable (call.Meets stream isn s) := Runs.Each.decidable ..

end Zenbite.Net
