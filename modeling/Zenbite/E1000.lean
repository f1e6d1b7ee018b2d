import Zenbite.Lib.Memory
import Zenbite.Lib.Queues
import Zenbite.Lib.Ring

/-! The gigabit card (e1000.c): two rings of descriptors between the driver and the card. -/

namespace Zenbite.E1000

open Memory

def nrx : Nat := 16
def ntx : Nat := 8
def txBufSize : Nat := 2048

/-- ETH_FRAME_MAX, the size of net_poll's buffer -/
def ethFrameMax : Nat := 1518

def rxStaDD : UInt8 := 1
def rxStaEOP : UInt8 := 2
def txStaDD : UInt8 := 1
def txCmdEOP : UInt8 := 1
def txCmdIFCS : UInt8 := 2
def txCmdRS : UInt8 := 8

/-- A receive descriptor; its address is always that of its own buffer. -/
structure Rxd where
  length : Nat
  status : UInt8

structure Txd where
  length : Nat
  cmd : UInt8
  status : UInt8

/-- The driver's variables, and the registers RDH, RDT, TDH and TDT of the card. -/
structure Nic where
  rxRing : Nat → Rxd
  rxBuf : Nat → Buffer
  rxTail : Nat
  txRing : Nat → Txd
  txBuf : Nat → Buffer
  rdh : Nat
  rdt : Nat
  tdh : Nat
  tdt : Nat

/-- What e1000_init sets up. -/
def init : Nic :=
  ⟨fun _ => ⟨0, 0⟩, fun _ _ => 0, 0, fun _ => ⟨0, 0, 0⟩, fun _ _ => 0, 0, nrx - 1, 0, 0⟩

namespace Nic

variable (n : Nic)

def rxFrame (i : Nat) : List UInt8 := (List.range (n.rxRing i).length).map (n.rxBuf i)
def txFrame (i : Nat) : List UInt8 := (List.range (n.txRing i).length).map (n.txBuf i)

/-- e1000_tx of a present card. The wait for the slot ends with the slot free or by its
count, and the driver goes on either way. -/
def tx (frame : List UInt8) : Int × Nic :=
  if txBufSize < frame.length then (-1, n)
  else
    (frame.length,
      { n with
        txBuf := Function.update n.txBuf n.tdt (poke (n.txBuf n.tdt) 0 frame)
        txRing := Function.update n.txRing n.tdt ⟨frame.length, txCmdEOP ||| txCmdIFCS ||| txCmdRS, 0⟩
        tdt := (n.tdt + 1) % ntx })

/-- e1000_poll of a present card, with the bytes that it copies. -/
def poll (max : Nat) : Option (List UInt8) × Nic :=
  if (n.rxRing n.rxTail).status &&& rxStaDD = 0 then (none, n)
  else
    let len := min (n.rxRing n.rxTail).length max
    (some ((List.range len).map (n.rxBuf n.rxTail)),
      { n with
        rxRing := Function.update n.rxRing n.rxTail { n.rxRing n.rxTail with status := 0 }
        rdt := n.rxTail
        rxTail := (n.rxTail + 1) % nrx })

/-- The card has a frame from the wire: RCTL.LPE is clear, so long ones are discarded, and
the descriptors up to RDT are its own. -/
def receive (frame : List UInt8) : Nic :=
  if 1522 < frame.length then n
  else if n.rdh = n.rdt then n
  else
    { n with
      rxBuf := Function.update n.rxBuf n.rdh (poke (n.rxBuf n.rdh) 0 frame)
      rxRing := Function.update n.rxRing n.rdh ⟨frame.length, rxStaDD ||| rxStaEOP⟩
      rdh := (n.rdh + 1) % nrx }

/-- The card sends the frame at TDH. -/
def transmit : Option (List UInt8) × Nic :=
  if n.tdh = n.tdt then (none, n)
  else
    (some (n.txFrame n.tdh),
      { n with
        txRing := Function.update n.txRing n.tdh
          { n.txRing n.tdh with status := (n.txRing n.tdh).status ||| txStaDD }
        tdh := (n.tdh + 1) % ntx })

/-- The frames that the driver has not read, as long as net_poll wants them. -/
def unread : List (List UInt8) := Ring.contents nrx (fun i => (n.rxFrame i).take ethFrameMax) n.rdh n.rxTail

/-- The frames that the card has not sent. -/
def unsent : List (List UInt8) := Ring.contents ntx n.txFrame n.tdt n.tdh

end Nic

/-- The driver's calls, with net_poll's buffer, and what the card does. -/
inductive Act where
  | tx (frame : List UInt8)
  | poll
  | receive (frame : List UInt8)
  | transmit

def step : Act → Nic → Nic
  | .tx frame, n => (n.tx frame).2
  | .poll, n => (n.poll ethFrameMax).2
  | .receive frame, n => n.receive frame
  | .transmit, n => n.transmit.2

/-- A frame of the wire that is short enough. -/
def arrives : Act → Nic → List (List UInt8)
  | .receive frame, _ => if 1522 < frame.length then [] else [frame.take ethFrameMax]
  | _, _ => []

def polled : Act → Nic → List (List UInt8)
  | .poll, n => (n.poll ethFrameMax).1.toList
  | _, _ => []

/-- A frame that the driver accepts. -/
def accepted : Act → Nic → List (List UInt8)
  | .tx frame, _ => if txBufSize < frame.length then [] else [frame]
  | _, _ => []

def sent : Act → Nic → List (List UInt8)
  | .transmit, n => n.transmit.1.toList
  | _, _ => []

/-- No frame arrives while fifteen are unread. -/
def RxRoom (a : Act) (n : Nic) : Prop := arrives a n ≠ [] → n.unread.length < 15

/-- No frame is given to the card while seven are unsent. -/
def TxRoom (a : Act) (n : Nic) : Prop := accepted a n ≠ [] → n.unsent.length < 7

instance (a : Act) (n : Nic) : Decidable (RxRoom a n) := inferInstanceAs (Decidable (_ → _))
instance (a : Act) (n : Nic) : Decidable (TxRoom a n) := inferInstanceAs (Decidable (_ → _))

/-- The receive ring: the descriptors that are done are the ones behind rx_tail that the card
has filled, and it owns all the others but one. -/
structure RxSound (n : Nic) : Prop where
  head : n.rdh < nrx
  tail : n.rxTail < nrx
  owner : n.rdt < nrx
  behind : Ring.next nrx n.rdt = n.rxTail
  done : ∀ k < nrx, (n.rxRing ((n.rxTail + k) % nrx)).status &&& rxStaDD ≠ 0 ↔ k < Ring.used nrx n.rdh n.rxTail

structure TxSound (n : Nic) : Prop where
  head : n.tdh < ntx
  tail : n.tdt < ntx

theorem clear_status : (0 : UInt8) &&& rxStaDD = 0 := by
  decide

theorem init_rx : RxSound init := by
  refine ⟨by decide, by decide, by decide, by decide, fun k _ => ?_⟩
  exact iff_of_false (fun done => done clear_status) (Nat.not_lt_zero k)

theorem init_tx : TxSound init := ⟨by decide, by decide⟩

/-- A buffer gives back the frame that was copied to it. -/
theorem poke_read (b : Buffer) (frame : List UInt8) : (List.range frame.length).map (poke b 0 frame) = frame := by
  apply List.ext_getElem
  · rw [List.length_map, List.length_range]
  · intro i inside bound
    rw [List.getElem_map, List.getElem_range, poke_start b bound, ← List.getElem_eq_getD]

section Receive
variable {n : Nic} (sound : RxSound n)
include sound

theorem rx_full : n.rdh = n.rdt ↔ Ring.next nrx n.rdh = n.rxTail := by
  have behind := sound.behind
  have head := sound.head
  have owner := sound.owner
  rw [Ring.next_eq owner] at behind
  rw [Ring.next_eq head]
  split at behind <;> split <;> omega

theorem rx_room : n.unread.length < 15 ↔ n.rdh ≠ n.rdt := by
  have low : Ring.used nrx n.rdh n.rxTail < nrx := Ring.used_lt (by decide)
  have full := Ring.full_iff sound.head sound.tail
  have size : nrx = 16 := rfl
  rw [Nic.unread, Ring.contents_length, ne_eq, rx_full sound, full]
  omega

theorem receive_unread {frame : List UInt8} (fits : frame.length ≤ 1522) (room : n.rdh ≠ n.rdt) :
    (n.receive frame).unread = n.unread ++ [frame.take ethFrameMax] := by
  have cells : (fun i => ((n.receive frame).rxFrame i).take ethFrameMax) =
      fun i => if i = n.rdh then frame.take ethFrameMax else (n.rxFrame i).take ethFrameMax := by
    funext i
    rw [Nic.receive, if_neg (Nat.not_lt.mpr fits), if_neg room]
    by_cases here : i = n.rdh
    · rw [if_pos here, here]
      simp only [Nic.rxFrame, Function.update_self, poke_read]
    · rw [if_neg here]
      simp only [Nic.rxFrame, Function.update_of_ne here]
  have ends : (n.receive frame).rdh = Ring.next nrx n.rdh ∧ (n.receive frame).rxTail = n.rxTail := by
    rw [Nic.receive, if_neg (Nat.not_lt.mpr fits), if_neg room]
    exact ⟨rfl, rfl⟩
  rw [Nic.unread, cells, ends.1, ends.2]
  exact Ring.contents_push _ _ sound.head sound.tail fun full => room ((rx_full sound).mpr full)

theorem receive_sound (frame : List UInt8) : RxSound (n.receive frame) := by
  unfold Nic.receive
  split
  next => exact sound
  next short =>
    split
    next => exact sound
    next room =>
      have free : Ring.next nrx n.rdh ≠ n.rxTail := fun full => room ((rx_full sound).mpr full)
      have place := Ring.head_place sound.head sound.tail
      have low : Ring.used nrx n.rdh n.rxTail < nrx := Ring.used_lt (by decide)
      refine ⟨Ring.next_lt (by decide) _, sound.tail, sound.owner, sound.behind, fun k bound => ?_⟩
      change _ ↔ k < Ring.used nrx (Ring.next nrx n.rdh) n.rxTail
      rw [Ring.used_push sound.head sound.tail free]
      dsimp only
      by_cases last : k = Ring.used nrx n.rdh n.rxTail
      · rw [last, place, Function.update_self]
        have set : (rxStaDD ||| rxStaEOP) &&& rxStaDD ≠ 0 := by decide
        exact iff_of_true set (Nat.lt_succ_self _)
      · have other := Ring.place_ne sound.tail bound low last
        rw [place] at other
        rw [Function.update_of_ne other, sound.done k bound]
        omega

theorem poll_ready : (n.rxRing n.rxTail).status &&& rxStaDD ≠ 0 ↔ n.rxTail ≠ n.rdh := by
  have first := sound.done 0 (by decide)
  rw [Nat.add_zero, Nat.mod_eq_of_lt sound.tail] at first
  rw [first, ne_eq, Ring.empty_iff sound.head sound.tail]
  exact Nat.pos_iff_ne_zero

/-- A poll takes the oldest frame. -/
theorem poll_unread : (n.poll ethFrameMax).1.toList ++ (n.poll ethFrameMax).2.unread = n.unread := by
  unfold Nic.poll
  split
  next => rfl
  next ready =>
    have some : n.rxTail ≠ n.rdh := (poll_ready sound).mp ready
    have cells : Nic.rxFrame { n with
        rxRing := Function.update n.rxRing n.rxTail { n.rxRing n.rxTail with status := 0 }
        rdt := n.rxTail
        rxTail := (n.rxTail + 1) % nrx } = n.rxFrame := by
      funext i
      by_cases here : i = n.rxTail
      · simp only [Nic.rxFrame, here, Function.update_self]
      · simp only [Nic.rxFrame, Function.update_of_ne here]
    have copied : (List.range (min (n.rxRing n.rxTail).length ethFrameMax)).map (n.rxBuf n.rxTail) =
        (n.rxFrame n.rxTail).take ethFrameMax := by
      rw [Nic.rxFrame, ← List.map_take, List.take_range, Nat.min_comm]
    rw [Nic.unread, cells, Nic.unread, Ring.contents_pop _ sound.head sound.tail some]
    dsimp only
    rw [copied]
    rfl

theorem poll_sound (max : Nat) : RxSound (n.poll max).2 := by
  unfold Nic.poll
  split
  next => exact sound
  next ready =>
    have some : n.rxTail ≠ n.rdh := (poll_ready sound).mp ready
    have low : Ring.used nrx n.rdh n.rxTail < nrx := Ring.used_lt (by decide)
    have size : nrx = 16 := rfl
    have fewer : Ring.used nrx n.rdh n.rxTail = Ring.used nrx n.rdh (Ring.next nrx n.rxTail) + 1 :=
      Ring.used_pop sound.head sound.tail some
    refine ⟨sound.head, Ring.next_lt (by decide) _, sound.tail, rfl, fun k bound => ?_⟩
    change _ ↔ k < Ring.used nrx n.rdh (Ring.next nrx n.rxTail)
    dsimp only
    rw [Nat.mod_add_mod, Nat.add_assoc, Nat.add_comm 1 k]
    by_cases last : k + 1 = nrx
    · rw [last, Nat.add_mod_right, Nat.mod_eq_of_lt sound.tail, Function.update_self]
      exact iff_of_false (fun done => done clear_status) (by omega)
    · have other := Ring.place_ne sound.tail (i := k + 1) (j := 0) (by omega) (by omega) (by omega)
      rw [Nat.add_zero n.rxTail, Nat.mod_eq_of_lt sound.tail] at other
      rw [Function.update_of_ne other, sound.done (k + 1) (by omega)]
      omega

end Receive

theorem step_rx (a : Act) {n : Nic} (sound : RxSound n) : RxSound (step a n) := by
  cases a with
  | receive frame => exact receive_sound sound frame
  | poll => exact poll_sound sound ethFrameMax
  | tx frame =>
      change RxSound (n.tx frame).2
      unfold Nic.tx
      split
      · exact sound
      · exact ⟨sound.head, sound.tail, sound.owner, sound.behind, sound.done⟩
  | transmit =>
      change RxSound n.transmit.2
      unfold Nic.transmit
      split
      · exact sound
      · exact ⟨sound.head, sound.tail, sound.owner, sound.behind, sound.done⟩

/-- The other side of the driver leaves the receive ring alone. -/
theorem tx_unread (n : Nic) (frame : List UInt8) : (n.tx frame).2.unread = n.unread := by
  unfold Nic.tx
  split <;> rfl

theorem transmit_unread (n : Nic) : n.transmit.2.unread = n.unread := by
  unfold Nic.transmit
  split <;> rfl

theorem rx_lawful : Queues.Lawful step arrives polled Nic.unread RxSound RxRoom where
  keeps := fun a n sound => step_rx a sound
  right := by
    intro a n sound room
    cases a with
    | tx frame => exact (tx_unread n frame).trans (List.append_nil _).symm
    | transmit => exact (transmit_unread n).trans (List.append_nil _).symm
    | poll => exact (poll_unread sound).trans (List.append_nil _).symm
    | receive frame =>
        change (n.receive frame).unread = n.unread ++ if 1522 < frame.length then [] else [frame.take ethFrameMax]
        by_cases long : 1522 < frame.length
        · rw [if_pos long, Nic.receive, if_pos long, List.append_nil]
        · rw [if_neg long]
          have some : arrives (.receive frame) n ≠ [] := by
            change (if _ then _ else _) ≠ _
            rw [if_neg long]
            exact List.cons_ne_nil _ _
          exact receive_unread sound (Nat.le_of_not_lt long) ((rx_room sound).mp (room some))
  wrong := by
    intro a n sound lost
    obtain ⟨some, full⟩ : arrives a n ≠ [] ∧ ¬ n.unread.length < 15 := Classical.not_imp.mp lost
    cases a with
    | tx frame => exact absurd rfl some
    | transmit => exact absurd rfl some
    | poll => exact absurd rfl some
    | receive frame =>
        have same : (n.receive frame).unread = n.unread := by
          have none : n.rdh = n.rdt := by
            apply Classical.not_not.mp
            intro other
            exact full ((rx_room sound).mpr other)
          unfold Nic.receive
          rw [if_pos none, ite_self]
        change 0 + (n.receive frame).unread.length < _
        rw [same, Nat.zero_add]
        exact Nat.lt_add_of_pos_right (List.length_pos_iff.mpr some)

theorem tx_cells (n : Nic) {frame : List UInt8} (fits : frame.length ≤ txBufSize) :
    (n.tx frame).2.txFrame = fun i => if i = n.tdt then frame else n.txFrame i := by
  funext i
  rw [Nic.tx, if_neg (Nat.not_lt.mpr fits)]
  by_cases here : i = n.tdt
  · rw [if_pos here, here]
    simp only [Nic.txFrame, Function.update_self]
    exact poke_read _ frame
  · rw [if_neg here]
    simp only [Nic.txFrame, Function.update_of_ne here]

theorem tx_ends (n : Nic) {frame : List UInt8} (fits : frame.length ≤ txBufSize) :
    (n.tx frame).2.tdt = Ring.next ntx n.tdt ∧ (n.tx frame).2.tdh = n.tdh := by
  rw [Nic.tx, if_neg (Nat.not_lt.mpr fits)]
  exact ⟨rfl, rfl⟩

section Transmit
variable {n : Nic} (sound : TxSound n)
include sound

theorem tx_room : n.unsent.length < 7 ↔ Ring.next ntx n.tdt ≠ n.tdh := by
  have low : Ring.used ntx n.tdt n.tdh < ntx := Ring.used_lt (by decide)
  have full := Ring.full_iff sound.tail sound.head
  have size : ntx = 8 := rfl
  rw [Nic.unsent, Ring.contents_length, ne_eq, full]
  omega

theorem tx_unsent {frame : List UInt8} (fits : frame.length ≤ txBufSize) (room : n.unsent.length < 7) :
    (n.tx frame).2.unsent = n.unsent ++ [frame] := by
  rw [Nic.unsent, tx_cells n fits, (tx_ends n fits).1, (tx_ends n fits).2]
  exact Ring.contents_push n.txFrame frame sound.tail sound.head ((tx_room sound).mp room)

/-- The eighth frame moves TDT onto TDH, and the card takes the ring for empty. -/
theorem tx_overrun {frame : List UInt8} (fits : frame.length ≤ txBufSize) (full : ¬ n.unsent.length < 7) :
    (n.tx frame).2.unsent = [] := by
  have meet : Ring.next ntx n.tdt = n.tdh := Classical.not_not.mp fun other => full ((tx_room sound).mpr other)
  rw [Nic.unsent, (tx_ends n fits).1, (tx_ends n fits).2, meet]
  exact Ring.contents_empty _ sound.head

theorem transmit_unsent : n.transmit.1.toList ++ n.transmit.2.unsent = n.unsent := by
  unfold Nic.transmit
  split
  next => rfl
  next some =>
    have cells : Nic.txFrame { n with
        txRing := Function.update n.txRing n.tdh
          { n.txRing n.tdh with status := (n.txRing n.tdh).status ||| txStaDD }
        tdh := (n.tdh + 1) % ntx } = n.txFrame := by
      funext i
      by_cases here : i = n.tdh
      · simp only [Nic.txFrame, here, Function.update_self]
      · simp only [Nic.txFrame, Function.update_of_ne here]
    rw [Nic.unsent, cells, Nic.unsent, Ring.contents_pop _ sound.tail sound.head some]
    rfl

end Transmit

theorem step_tx (a : Act) {n : Nic} (sound : TxSound n) : TxSound (step a n) := by
  cases a with
  | receive frame =>
      change TxSound (n.receive frame)
      unfold Nic.receive
      split
      · exact sound
      · split
        · exact sound
        · exact ⟨sound.head, sound.tail⟩
  | poll =>
      change TxSound (n.poll ethFrameMax).2
      unfold Nic.poll
      split
      · exact sound
      · exact ⟨sound.head, sound.tail⟩
  | tx frame =>
      change TxSound (n.tx frame).2
      unfold Nic.tx
      split
      · exact sound
      · exact ⟨sound.head, Ring.next_lt (by decide) _⟩
  | transmit =>
      change TxSound n.transmit.2
      unfold Nic.transmit
      split
      · exact sound
      · exact ⟨Ring.next_lt (by decide) _, sound.tail⟩

theorem receive_unsent (n : Nic) (frame : List UInt8) : (n.receive frame).unsent = n.unsent := by
  unfold Nic.receive
  split
  · rfl
  · split <;> rfl

theorem poll_unsent (n : Nic) (max : Nat) : (n.poll max).2.unsent = n.unsent := by
  unfold Nic.poll
  split <;> rfl

theorem tx_lawful : Queues.Lawful step accepted sent Nic.unsent TxSound TxRoom where
  keeps := fun a n sound => step_tx a sound
  right := by
    intro a n sound room
    cases a with
    | receive frame => exact (receive_unsent n frame).trans (List.append_nil _).symm
    | poll => exact (poll_unsent n ethFrameMax).trans (List.append_nil _).symm
    | transmit => exact (transmit_unsent sound).trans (List.append_nil _).symm
    | tx frame =>
        change (n.tx frame).2.unsent = n.unsent ++ if txBufSize < frame.length then [] else [frame]
        by_cases long : txBufSize < frame.length
        · rw [if_pos long, Nic.tx, if_pos long, List.append_nil]
        · rw [if_neg long]
          have some : accepted (.tx frame) n ≠ [] := by
            change (if _ then _ else _) ≠ _
            rw [if_neg long]
            exact List.cons_ne_nil _ _
          exact tx_unsent sound (Nat.le_of_not_lt long) (room some)
  wrong := by
    intro a n sound lost
    obtain ⟨some, full⟩ : accepted a n ≠ [] ∧ ¬ n.unsent.length < 7 := Classical.not_imp.mp lost
    cases a with
    | receive frame => exact absurd rfl some
    | poll => exact absurd rfl some
    | transmit => exact absurd rfl some
    | tx frame =>
        have fits : frame.length ≤ txBufSize := by
          apply Nat.le_of_not_lt
          intro long
          exact some (if_pos long)
        change 0 + (n.tx frame).2.unsent.length < _
        rw [tx_overrun sound fits full]
        exact Nat.lt_of_lt_of_le (List.length_pos_iff.mpr some) (Nat.le_add_left _ _)

/-- Frames from the wire reach net_poll whole and in order if none came while fifteen
were unread. -/
theorem frames_read_iff {n : Nic} (sound : RxSound n) (acts : List Act) :
    Queues.outputs step polled acts n ++ (Runs.run step acts n).unread =
        n.unread ++ Queues.outputs step arrives acts n ↔ Runs.Each step RxRoom acts n :=
  rx_lawful.in_order_iff acts n sound

theorem frames_read_sample :
    let acts : List Act := [.receive [1, 2, 3], .tx [9], .receive [4], .poll, .transmit, .receive (List.replicate 2000 0), .poll, .poll]
    Queues.outputs step polled acts init ++ (Runs.run step acts init).unread =
        init.unread ++ Queues.outputs step arrives acts init ↔ Runs.Each step RxRoom acts init :=
  frames_read_iff init_rx _

/-- Frames go out whole and in order if none was given to the card while seven were unsent. -/
theorem frames_sent_iff {n : Nic} (sound : TxSound n) (acts : List Act) :
    Queues.outputs step sent acts n ++ (Runs.run step acts n).unsent =
        n.unsent ++ Queues.outputs step accepted acts n ↔ Runs.Each step TxRoom acts n :=
  tx_lawful.in_order_iff acts n sound

theorem frames_sent_sample :
    let acts : List Act := [.tx [1, 2], .tx [3], .transmit, .poll, .tx [4], .transmit]
    Queues.outputs step sent acts init ++ (Runs.run step acts init).unsent =
        init.unsent ++ Queues.outputs step accepted acts init ↔ Runs.Each step TxRoom acts init :=
  frames_sent_iff init_tx _

end Zenbite.E1000
