import Zenbite.Lib.Runs
import Zenbite.Lib.SlotMap
import Zenbite.Net.Send

/-! The ARP cache (net.c) over any run of its calls: a map from addresses to hardware
addresses, that forgets the address in slot 0 when it is full. -/

namespace Zenbite.Net

open SlotMap

/-- ARP_N -/
def arpN : Nat := 8

inductive ArpCall where
  | insert (ip : Nat) (mac : Mac)
  | find (ip : Nat)

def ArpCall.step : ArpCall → Host → Host
  | .insert ip mac, h => h.arpInsert ip mac
  | .find _, h => h

namespace Host

variable {h : Host} {ip : Nat} {mac : Mac}

/-- The cache as the statics start, without a valid slot. -/
def arpStart (h : Host) : Host := { h with arpCache := List.replicate arpN none }

def arpRun (calls : List ArpCall) (h : Host) : Host := Runs.run ArpCall.step calls h.arpStart

/-- Every slot is valid, and none is for `ip`. -/
def ArpEvicts (h : Host) (ip : Nat) : Prop := none ∉ h.arpCache ∧ h.arpFind ip = none

instance : Decidable (h.ArpEvicts ip) := instDecidableAnd

structure ArpGood (h : Host) : Prop where
  size : h.arpCache.length = arpN
  unique : Unique h.arpCache

/-- The slot that arp_insert writes. -/
def arpPlace (h : Host) (ip : Nat) : Nat := (h.arpSlot ip).getD ((h.arpCache.findIdx? fun slot => slot.isNone).getD 0)

theorem arpInsert_cache : (h.arpInsert ip mac).arpCache = h.arpCache.set (h.arpPlace ip) (some (ip, mac)) := rfl

theorem arpStart_good (h : Host) : h.arpStart.ArpGood := ⟨List.length_replicate, unique_free arpN⟩

theorem arpPlace_known {i : Nat} (slot : h.arpSlot ip = some i) : h.arpPlace ip = i := by
  rw [arpPlace, slot, Option.getD_some]

theorem arpPlace_new (slot : h.arpSlot ip = none) :
    h.arpPlace ip = (h.arpCache.findIdx? fun slot => slot.isNone).getD 0 := by
  rw [arpPlace, slot, Option.getD_none]

theorem arpPlace_free {i : Nat} (slot : h.arpSlot ip = none) (free : (h.arpCache.findIdx? fun slot => slot.isNone) = some i) :
    h.arpPlace ip = i ∧ h.arpCache[i]? = some none := by
  obtain ⟨inside, holds, _⟩ := List.findIdx?_eq_some_iff_getElem.mp free
  have empty : h.arpCache[i] = none := Option.isNone_iff_eq_none.mp holds
  rw [arpPlace_new slot, free, Option.getD_some, List.getElem?_eq_getElem inside, empty]
  exact ⟨rfl, rfl⟩

theorem arpPlace_full (slot : h.arpSlot ip = none) (full : (h.arpCache.findIdx? fun slot => slot.isNone) = none) :
    h.arpPlace ip = 0 ∧ none ∉ h.arpCache := by
  rw [arpPlace_new slot, full, Option.getD_none]
  exact ⟨rfl, fun member => Bool.noConfusion (List.findIdx?_eq_none_iff.mp full none member)⟩

namespace ArpGood

theorem place_lt (good : h.ArpGood) (ip : Nat) : h.arpPlace ip < h.arpCache.length := by
  cases slot : h.arpSlot ip with
  | some i =>
      rw [arpPlace_known slot]
      exact (List.findIdx?_eq_some_iff_getElem.mp slot).1
  | none =>
      cases free : h.arpCache.findIdx? fun slot => slot.isNone with
      | some i =>
          rw [(arpPlace_free slot free).1]
          exact (List.findIdx?_eq_some_iff_getElem.mp free).1
      | none =>
          rw [(arpPlace_full slot free).1, good.size]
          exact Nat.succ_pos 7

/-- No other slot is for `ip`. -/
theorem place_alone (good : h.ArpGood) {j : Nat} {w : Mac} (elsewhere : j ≠ h.arpPlace ip) :
    h.arpCache[j]? ≠ some (some (ip, w)) := by
  intro here
  cases slot : h.arpSlot ip with
  | some i =>
      obtain ⟨v, mine⟩ := slotOf_some slot
      rw [arpPlace_known slot] at elsewhere
      exact elsewhere (good.unique j i _ _ here mine rfl)
  | none => exact slotOf_none slot w here

theorem insert (good : h.ArpGood) (ip : Nat) (mac : Mac) : (h.arpInsert ip mac).ArpGood := by
  constructor
  · rw [arpInsert_cache, List.length_set, good.size]
  · exact set_unique good.unique fun j w elsewhere => good.place_alone elsewhere

theorem run (calls : List ArpCall) (h : Host) : (arpRun calls h).ArpGood := by
  refine Runs.run_keeps (fun call h (good : h.ArpGood) => ?_) calls h.arpStart_good
  cases call with
  | insert ip mac => exact good.insert ip mac
  | find ip => exact good

theorem find_self (good : h.ArpGood) : (h.arpInsert ip mac).arpFind ip = some mac :=
  lookup_set_self (good.insert ip mac).unique (good.place_lt ip)

/-- The slot of another address is overwritten only as slot 0 of a full cache. -/
theorem place_other (good : h.ArpGood) {other : Nat} (differ : other ≠ ip) :
    h.arpSlot other = some (h.arpPlace ip) ↔ h.ArpEvicts ip ∧ h.arpSlot other = some 0 := by
  have missing : h.arpFind ip = none ↔ h.arpSlot ip = none := (slotOf_none_iff good.unique).symm
  rw [ArpEvicts, missing]
  constructor
  · intro own
    obtain ⟨v, mine⟩ := slotOf_some own
    cases slot : h.arpSlot ip with
    | some i =>
        obtain ⟨w, here⟩ := slotOf_some slot
        rw [arpPlace_known slot, here] at mine
        exact absurd (congrArg Prod.fst (Option.some.inj (Option.some.inj mine))).symm differ
    | none =>
        cases free : h.arpCache.findIdx? fun slot => slot.isNone with
        | some i =>
            have empty := arpPlace_free slot free
            rw [empty.1, empty.2] at mine
            cases Option.some.inj mine
        | none =>
            have full := arpPlace_full slot free
            rw [full.1] at own
            exact ⟨⟨full.2, rfl⟩, own⟩
  · rintro ⟨⟨full, new⟩, own⟩
    have none : (h.arpCache.findIdx? fun slot => slot.isNone) = none := by
      apply List.findIdx?_eq_none_iff.mpr
      intro slot member
      cases slot with
      | none => exact absurd member full
      | some e => rfl
    rw [(arpPlace_full new none).1, own]

theorem find_other (good : h.ArpGood) {other : Nat} (differ : other ≠ ip) : (h.arpInsert ip mac).arpFind other =
    if h.ArpEvicts ip ∧ h.arpSlot other = some 0 then none else h.arpFind other := by
  have set := lookup_set_other (v := mac) good.unique (good.insert ip mac).unique differ
  have place := good.place_other differ
  by_cases own : h.arpSlot other = some (h.arpPlace ip)
  · rw [if_pos (place.mp own)]
    exact set.trans (if_pos own)
  · rw [if_neg fun both => own (place.mpr both)]
    exact set.trans (if_neg own)

end ArpGood

/-- After any calls no address has two slots, an insert is found again, and for another
address it changes nothing unless it overwrites slot 0 of a full cache for a new address. -/
theorem arp_refines_map (calls : List ArpCall) (h : Host) : Unique (arpRun calls h).arpCache ∧
    ∀ ip mac other, ((arpRun calls h).arpInsert ip mac).arpFind other =
      if other = ip then some mac
      else if (arpRun calls h).ArpEvicts ip ∧ (arpRun calls h).arpSlot other = some 0 then none
      else (arpRun calls h).arpFind other := by
  have good := ArpGood.run calls h
  apply And.intro good.unique
  intro ip mac other
  by_cases same : other = ip
  · rw [if_pos same, same]
    exact good.find_self
  · rw [if_neg same]
    exact good.find_other same

end Host

end Zenbite.Net
