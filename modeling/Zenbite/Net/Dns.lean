import Zenbite.Net.DnsName
import Zenbite.Net.Ping
import Zenbite.Net.Quad

/-! dns_resolve (net.c) with udp_send and udp_recv: the query, the wait for a reply, and
the walk over the answers. -/

namespace Zenbite.Net

open Memory Reads Frame Look

/-! The reply -/

/-- One round of dns_skip_name; `more` goes on behind a label. -/
def skipRound (plen : Nat) (more : Nat → Look (Option Nat)) (off : Nat) : Look (Option Nat) :=
  if plen ≤ off then pure none
  else do
    let b ← byte off
    if b = 0 then pure (some (off + 1))
    else if b / 2 ^ 6 = 3 then pure (if plen < off + 2 then none else some (off + 2))
    else if 63 < b then pure none
    else more (off + (1 + b))

/-- The loop, with the labels that may still be skipped; -1 is `none`. -/
def skipFrom (plen : Nat) : Nat → Nat → Look (Option Nat)
  | 0 => skipRound plen fun _ => pure none
  | left + 1 => skipRound plen (skipFrom plen left)

/-- The hop past the 64th label fails. -/
def dnsSkipName (plen off : Nat) : Look (Option Nat) := skipFrom plen 64 off

/-- The answers that are left, from `off` on. A record moves the offset by 2^16 + 10 at
most, so no offset leaves an int. -/
def walkAnswers (rlen : Nat) : Nat → Nat → Look (Option Nat)
  | 0, _ => pure none
  | left + 1, off =>
    if rlen ≤ off + 10 then pure none
    else do
      let next ← dnsSkipName rlen off
      match next with
      | none => pure none
      | some off =>
        if rlen < off + 10 then pure none
        else do
          let atype ← net16 off
          let rdlen ← net16 (off + 8)
          if atype = 1 ∧ rdlen = 4 ∧ off + 14 ≤ rlen then do
            let out ← raw32 (off + 10)
            pure (some out)
          else walkAnswers rlen left (off + (10 + rdlen))

/-- What dns_resolve makes of a reply to the query with this id: an address, or another
try. -/
def readReply (qid rlen : Nat) : Look (Option Nat) :=
  if rlen < 12 then pure none
  else do
    let id0 ← byte 0
    if id0 ≠ qid / 2 ^ 8 % 2 ^ 8 then pure none
    else do
      let id1 ← byte 1
      if id1 ≠ qid % 2 ^ 8 then pure none
      else do
        let ancount ← net16 6
        if ancount = 0 then pure none
        else do
          let next ← dnsSkipName rlen 12
          match next with
          | none => pure none
          | some off => walkAnswers rlen ancount (off + 4)

/-! Names and records in a reply -/

section Wire
variable (m : Buffer) (rlen : Nat)

/-- A name fills the bytes from `off` to `next`: labels up to a 0 or a pointer. -/
inductive NameAt : Nat → Nat → Prop where
  | root (off : Nat) : off < rlen → m off = 0 → NameAt off (off + 1)
  | pointer (off : Nat) : off + 2 ≤ rlen → 0xC0 ≤ m off → NameAt off (off + 2)
  | label (off next : Nat) : off < rlen → m off ≠ 0 → (m off).toNat ≤ 63 →
      NameAt (off + (1 + (m off).toNat)) next → NameAt off next

/-- A record fills the bytes from `off` to `next`: a name that ends at `data - 10`, ten
bytes with type and length, and the data. -/
structure RecordAt (off data next : Nat) : Prop where
  name : NameAt m rlen off (data - 10)
  above : 10 ≤ data
  fixed : data ≤ rlen
  whole : next = data + (net16 (data - 2) m).1

/-- Record number `k` behind the question starts at `off`. -/
inductive AnswerAt : Nat → Nat → Prop where
  | first (off : Nat) : NameAt m rlen 12 off → AnswerAt 0 (off + 4)
  | next (k off data next : Nat) : AnswerAt k off → RecordAt m rlen off data next → AnswerAt (k + 1) next

/-- One of the answers is an A record, all of it inside the reply; its data is `a`. -/
def HasAddress (a : Nat) : Prop :=
  ∃ k off data, k < (net16 6 m).1 ∧ AnswerAt m rlen k off ∧ RecordAt m rlen off data (data + 4) ∧
    data + 4 ≤ rlen ∧ (net16 (data - 10) m).1 = 1 ∧ a = readLe32 m data

end Wire

section Walk
variable (m : Buffer) (rlen : Nat)

theorem skipRound_inside {more : Nat → Look (Option Nat)} (rest : ∀ off, (more off).Inside rlen m)
    (off : Nat) : (skipRound rlen more off).Inside rlen m := by
  simp only [skipRound, inside_ite, inside_bind, inside_byte, inside_pure, rest]
  split_ifs <;> first | trivial | exact ⟨by omega, trivial⟩

/-- Every byte looked at is inside the packet. -/
theorem skipFrom_inside (left : Nat) : ∀ off, (skipFrom rlen left off).Inside rlen m := by
  induction left with
  | zero => exact skipRound_inside m rlen fun _ => (inside_pure rlen m _).mpr trivial
  | succ left ih => exact skipRound_inside m rlen ih

theorem skipRound_name {more : Nat → Look (Option Nat)} {off next : Nat}
    (rest : ∀ off, (more off m).1 = some next → NameAt m rlen off next)
    (found : (skipRound rlen more off m).1 = some next) : NameAt m rlen off next := by
  have value : (byte off m).1 = (m off).toNat := rfl
  simp only [skipRound, value_ite, value_bind, value_pure, value] at found
  split_ifs at found with outside stop pointer room long
  · cases found
    exact .root off (by omega) (UInt8.toNat_inj.mp stop)
  · cases found
    refine .pointer off (by omega) ?_
    rw [UInt8.le_iff_toNat_le]
    change 192 ≤ _
    omega
  · exact .label off next (by omega) (fun none => stop (congrArg UInt8.toNat none))
      (Nat.le_of_not_lt long) (rest _ found)

/-- What is skipped is a name inside the packet. -/
theorem skipFrom_name (left : Nat) : ∀ {off next : Nat},
    (skipFrom rlen left off m).1 = some next → NameAt m rlen off next := by
  induction left with
  | zero => exact fun found => skipRound_name m rlen (fun _ none => by cases none) found
  | succ left ih => exact fun found => skipRound_name m rlen (fun _ inner => ih inner) found

theorem NameAt.above {off next : Nat} (name : NameAt m rlen off next) : off < next ∧ next ≤ rlen := by
  induction name with
  | root off inside => omega
  | pointer off inside => omega
  | label off next _ _ _ _ ih => omega

/-- The walk stays inside the reply from any offset. -/
theorem walkAnswers_inside (left : Nat) : ∀ off, (walkAnswers rlen left off).Inside rlen m := by
  induction left with
  | zero => exact fun off => (inside_pure rlen m _).mpr trivial
  | succ left ih =>
      intro off
      rw [walkAnswers, inside_ite]
      split
      next => exact (inside_pure rlen m _).mpr trivial
      next =>
        refine (inside_bind rlen m _ _).mpr ⟨skipFrom_inside m rlen 64 off, ?_⟩
        cases (dnsSkipName rlen off m).1 with
        | none => exact (inside_pure rlen m _).mpr trivial
        | some off =>
          dsimp only
          rw [inside_ite]
          split
          next => exact (inside_pure rlen m _).mpr trivial
          next room =>
            simp only [inside_bind, inside_net16, inside_ite, inside_raw32, inside_pure, ih]
            refine ⟨by omega, by omega, ?_⟩
            split_ifs with found
            exact ⟨by omega, trivial⟩

/-- What the walk returns is an A record among the answers that are left. -/
theorem walkAnswers_address (left : Nat) : ∀ {k off a : Nat}, AnswerAt m rlen k off →
    (walkAnswers rlen left off m).1 = some a → k + left = (net16 6 m).1 → HasAddress m rlen a := by
  induction left with
  | zero => exact fun _ none _ => by cases none
  | succ left ih =>
      intro k off a here found count
      rw [walkAnswers, value_ite] at found
      split at found
      next => cases found
      rw [value_bind] at found
      cases skipped : (dnsSkipName rlen off m).1 with
      | none =>
          rw [skipped] at found
          cases found
      | some next =>
          rw [skipped] at found
          dsimp only at found
          rw [value_ite] at found
          split at found
          next => cases found
          next room =>
            have name : NameAt m rlen off next := skipFrom_name m rlen 64 skipped
            have record : RecordAt m rlen off (next + 10) (next + 10 + (net16 (next + 8) m).1) :=
              ⟨name, by omega, by omega, rfl⟩
            simp only [value_bind, value_ite, value_pure] at found
            split at found
            next hit =>
              cases found
              refine ⟨k, off, next + 10, by omega, here, ?_, hit.2.2, hit.1, rfl⟩
              rw [hit.2.1] at record
              exact record
            next =>
              refine ih (k := k + 1) ?_ found (by omega)
              have step := AnswerAt.next k off _ _ here record
              rw [Nat.add_assoc] at step
              exact step

theorem readReply_inside (qid : Nat) : (readReply qid rlen).Inside rlen m := by
  rw [readReply, inside_ite]
  split
  next => exact (inside_pure rlen m _).mpr trivial
  next long =>
    simp only [inside_bind, inside_ite, inside_byte, inside_net16, inside_pure]
    split_ifs
    · exact ⟨by omega, trivial⟩
    · exact ⟨by omega, by omega, trivial⟩
    · exact ⟨by omega, by omega, by omega, trivial⟩
    · refine ⟨by omega, by omega, by omega, skipFrom_inside m rlen 64 12, ?_⟩
      cases (dnsSkipName rlen 12 m).1 with
      | none => exact (inside_pure rlen m _).mpr trivial
      | some off => exact walkAnswers_inside m rlen _ _

theorem readReply_address {qid a : Nat} (found : (readReply qid rlen m).1 = some a) :
    HasAddress m rlen a := by
  simp only [readReply, value_ite, value_bind, value_pure] at found
  split_ifs at found
  cases skipped : (dnsSkipName rlen 12 m).1 with
  | none =>
      rw [skipped] at found
      cases found
  | some off =>
      rw [skipped] at found
      exact walkAnswers_address m rlen _ (.first off (skipFrom_name m rlen 64 skipped)) found
        (Nat.zero_add _)

/-- A name takes 65 looks at most. -/
theorem skipFrom_looks (left : Nat) : ∀ off, (skipFrom rlen left off m).2.length ≤ left + 1 := by
  have round : ∀ {more : Nat → Look (Option Nat)} {n : Nat}, (∀ off, (more off m).2.length ≤ n) →
      ∀ off, (skipRound rlen more off m).2.length ≤ n + 1 := by
    intro more n rest off
    have one : ((byte off m).2).length = 1 := rfl
    simp only [skipRound, spans_ite, spans_bind, spans_pure]
    split_ifs
    · exact Nat.zero_le _
    all_goals
      rw [List.length_append, one]
    · exact Nat.le_add_left 1 n
    · exact Nat.le_add_left 1 n
    · exact Nat.le_add_left 1 n
    · have more := rest (off + (1 + (byte off m).1))
      omega
  induction left with
  | zero => exact round fun _ => Nat.le_refl 0
  | succ left ih => exact round ih

/-- The loop over the answers ends: each takes 68 looks at most. -/
theorem walkAnswers_looks (left : Nat) : ∀ off, (walkAnswers rlen left off m).2.length ≤ 68 * left := by
  induction left with
  | zero => exact fun _ => Nat.le_refl 0
  | succ left ih =>
      intro off
      have name := skipFrom_looks m rlen 64 off
      rw [walkAnswers, spans_ite]
      split
      next => exact Nat.zero_le _
      next =>
        rw [spans_bind, List.length_append, dnsSkipName]
        cases (skipFrom rlen 64 off m).1 with
        | none =>
          have none : ((pure none : Look (Option Nat)) m).2.length = 0 := rfl
          dsimp only
          omega
        | some next =>
          have two : ((net16 next m).2).length = 1 ∧ ((net16 (next + 8) m).2).length = 1 ∧
            ((raw32 (next + 10) m).2).length = 1 := ⟨rfl, rfl, rfl⟩
          have rest := ih (next + (10 + (net16 (next + 8) m).1))
          simp only [spans_ite, spans_bind, spans_pure]
          split_ifs <;> simp only [List.length_append, List.length_nil] <;> omega

end Walk

/-! The calls -/

/-- What udp_send puts into pkt; the checksum is left out, as IPv4 allows. -/
def udpPacket (dst : UInt32) (dport sport : Nat) (data : List UInt8) : Outgoing :=
  ⟨dst, 17, netBytes sport ++ netBytes dport ++ netBytes (udpHdrSize + data.length) ++ netBytes 0 ++ data⟩

section Udp
variable (send : Send) (world : World)

def udpSend (dst : UInt32) (dport sport : Nat) (data : List UInt8) (h : Host) : Option (Int × Host) :=
  if 1500 < data.length + udpHdrSize then some (-1, h) else send (udpPacket dst dport sport data) h

/-- The loop of udp_recv; -1 is `none`. -/
def udpWait (t0 timeout max : Nat) : Nat → Host → Option (Option UdpRecv × Host)
  | 0, _ => none
  | fuel + 1, h =>
    let t := world.ticks h.reads
    let h := { h with reads := h.reads + 1 }
    if u32 (t + 2 ^ 32 - t0) < timeout then
      (netPollVia send world h).bind fun h =>
        match h.udpRecv with
        | some d =>
          some (some { d with data := d.data.take max }, { h with udpRecv := none, udpListenPort := 0 })
        | none => udpWait t0 timeout max fuel h
    else some (none, { h with udpListenPort := 0 })

def udpRecv (sport max timeout fuel : Nat) (h : Host) : Option (Option UdpRecv × Host) :=
  let t0 := world.ticks h.reads
  udpWait send world t0 timeout max fuel
    { h with udpListenPort := sport, udpRecv := none, reads := h.reads + 1 }

end Udp

/-- The statics of dns_resolve: those of the stack, dns_id, dns_server and reply. -/
structure Resolver where
  host : Host
  dnsId : Nat
  dnsServer : Nat
  reply : Buffer

/-- The query in pkt: header, name, type A and class IN. -/
def dnsQuery (qid : Nat) (name : List UInt8) : Option (List UInt8) :=
  (dnsEncodeName name (512 - 12 - 4) fun _ => 0).map fun q =>
    netBytes qid ++ [0x01, 0x00, 0x00, 0x01, 0, 0, 0, 0, 0, 0] ++ (List.range q.1).map q.2 ++ [0, 1, 0, 1]

section Resolve
variable (world : World) (fuel : Nat)

/-- The tries that are left: a query, up to 250 ticks for a reply, the walk over it. -/
def dnsTries (server qid sport : Nat) (query : List UInt8) : Nat → Resolver → Option (Nat × Resolver)
  | 0, s => some (0, s)
  | tries + 1, s =>
    (udpSend (ipSend world fuel) (UInt32.ofNat server) 53 sport query s.host).bind fun sent =>
      (udpRecv (ipSend world fuel) world sport 512 250 fuel sent.2).bind fun got =>
        match got.1 with
        | none => dnsTries server qid sport query tries { s with host := got.2 }
        | some d =>
          let s := { s with host := got.2, reply := poke s.reply 0 d.data }
          match (readReply qid d.data.length s.reply).1 with
          | some out => some (out, s)
          | none => dnsTries server qid sport query tries s

namespace Resolver

def nextId (s : Resolver) : Nat := (s.dnsId + 1) % 2 ^ 16

/-- The server that is set, else 8.8.8.8. -/
def server (s : Resolver) : Nat := if s.dnsServer = 0 then htonl 0x08080808 else s.dnsServer

/-- Between 35000 and 39095. -/
def sport (s : Resolver) : Nat := 35000 + world.ticks s.host.reads % 2 ^ 12

end Resolver

/-- dns_resolve behind the look for a dotted quad. -/
def dnsAsk (name : List UInt8) (s : Resolver) : Option (Nat × Resolver) :=
  if s.host.iface.present then
    match dnsQuery s.nextId name with
    | none => some (0, { s with dnsId := s.nextId })
    | some query =>
      dnsTries world fuel s.server s.nextId (s.sport world) query 3
        { s with dnsId := s.nextId, host := { s.host with reads := s.host.reads + 1 } }
  else some (0, s)

end Resolve

section Runs
variable {world : World} {fuel : Nat}

/-- An address that comes from a reply is an A record of that reply. -/
theorem dnsTries_address {server qid sport : Nat} {query : List UInt8} {tries : Nat} :
    ∀ {s s' : Resolver} {a : Nat}, dnsTries world fuel server qid sport query tries s = some (a, s') →
      a ≠ 0 → ∃ rlen, rlen ≤ 512 ∧ HasAddress s'.reply rlen a := by
  have short : ∀ {t0 rounds : Nat} {h : Host} {d : UdpRecv} {h' : Host},
      udpWait (ipSend world fuel) world t0 250 512 rounds h = some (some d, h') → d.data.length ≤ 512 := by
    intro t0 rounds
    induction rounds with
    | zero => exact fun run => absurd run (by simp only [udpWait, reduceCtorEq, not_false_eq_true])
    | succ rounds ih =>
        intro h d h' run
        rw [udpWait] at run
        dsimp only at run
        split at run
        · obtain ⟨h₁, -, rest⟩ := Option.bind_eq_some_iff.mp run
          split at rest
          · cases rest
            exact List.length_take_le _ _
          · exact ih rest
        · cases run
  induction tries with
  | zero =>
      intro s s' a run some
      cases run
      exact absurd rfl some
  | succ tries ih =>
      intro s s' a run some
      obtain ⟨sent, -, rest⟩ := Option.bind_eq_some_iff.mp run
      obtain ⟨⟨d, h'⟩, waited, rest⟩ := Option.bind_eq_some_iff.mp rest
      cases d with
      | none => exact ih rest some
      | some d =>
        dsimp only at rest
        split at rest
        next out found =>
          cases rest
          exact ⟨d.data.length, short waited, readReply_address _ _ found⟩
        next => exact ih rest some

end Runs

/-- The resolver looks at no byte behind the reply's end, the loop over the answers ends,
and what it returns for a name that is no literal is the data of an A record among the
answers of the reply, all of it inside. -/
theorem dns_reply_safe :
    (∀ (reply : Buffer) (rlen off : Nat), (dnsSkipName rlen off).Inside rlen reply) ∧
    (∀ (reply : Buffer) (rlen qid : Nat), (readReply qid rlen).Inside rlen reply) ∧
    (∀ (reply : Buffer) (rlen ancount off : Nat),
      (walkAnswers rlen ancount off reply).2.length ≤ 68 * ancount) ∧
    (∀ (reply : Buffer) (rlen qid a : Nat), (readReply qid rlen reply).1 = some a → HasAddress reply rlen a) ∧
    ∀ (world : World) (fuel : Nat) (name : List UInt8) (s s' : Resolver) (a : Nat),
      dnsAsk world fuel name s = some (a, s') → a ≠ 0 → ∃ rlen, rlen ≤ 512 ∧ HasAddress s'.reply rlen a := by
  refine ⟨fun reply rlen => skipFrom_inside reply rlen 64, readReply_inside, walkAnswers_looks,
    fun reply rlen qid a => readReply_address reply rlen, ?_⟩
  intro world fuel name s s' a run some
  rw [dnsAsk] at run
  split at run
  · split at run
    · cases run
      exact absurd rfl some
    · exact dnsTries_address run some
  · cases run
    exact absurd rfl some

/-- A reply to query 1 with one answer: a pointer to the name, type A, and 1.2.3.4. -/
def oneAnswer : Buffer := poke (fun _ => 0) 0 ([0, 1, 0x81, 0x80, 0, 1, 0, 1, 0, 0, 0, 0] ++ [1, 97, 0, 0, 1, 0, 1] ++
  [0xC0, 12, 0, 1, 0, 1, 0, 0, 0, 60, 0, 4, 1, 2, 3, 4])

theorem dns_reply_safe_one : (readReply 1 35 oneAnswer).1 = some 0x04030201 ∧
    (readReply 1 35).Inside 35 oneAnswer ∧ HasAddress oneAnswer 35 0x04030201 := by
  have found : (readReply 1 35 oneAnswer).1 = some 0x04030201 := by decide +kernel
  exact ⟨found, dns_reply_safe.2.1 oneAnswer 35 1, dns_reply_safe.2.2.2.1 oneAnswer 35 1 _ found⟩

/-! Literals -/

end Zenbite.Net
