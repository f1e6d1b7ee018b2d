import Zenbite.Lib.Records
import Zenbite.Usb.Bulk

/-! The descriptors of a configuration, as enumerate_device (usb.c) and ehci_enumerate (ehci.c)
walk over them. -/

namespace Zenbite.Usb

open Records

/-- `total_len` after `if (total_len > 256) total_len = 256` -/
def cappedLen (totalLen : UInt16) : Nat := if 256 < totalLen.toNat then 256 else totalLen.toNat

section

variable (buf : Nat → UInt8)

/-- `bLength` of the descriptor at `p`, which the walk moves on by. -/
def bLength (p : Nat) : Nat := (buf p).toNat

/-- `btype == 0x04 && blen >= 9` -/
def isInterface (p : Nat) : Bool := buf (p + 1) == 0x04 && decide (9 ≤ bLength buf p)

/-- `btype == 0x05 && blen >= 7` -/
def isEndpoint (p : Nat) : Bool := buf (p + 1) == 0x05 && decide (7 ≤ bLength buf p)

/-- SCSI over Bulk-Only Transport. -/
def isMassStorage (p : Nat) : Bool := buf (p + 5) == 0x08 && buf (p + 6) == 0x06 && buf (p + 7) == 0x50

/-- The direction in the address of an endpoint. -/
def isIn (p : Nat) : Bool := buf (p + 2) &&& 0x80 != 0

/-- The number in the address of an endpoint. -/
def endpointNumber (p : Nat) : UInt8 := buf (p + 2) &&& 0x0F

def transferType (p : Nat) : UInt8 := buf (p + 3) &&& 0x03

/-- `wMaxPacketSize` -/
def maxPacketSize (p : Nat) : UInt16 := (buf (p + 4)).toUInt16 ||| (buf (p + 5)).toUInt16 <<< 8

end

/-- The variables of enumerate_device before the loop. -/
structure UhciScan where
  ifaceCur : UInt8 := 0
  ifaceKbd : UInt8 := 0
  ifaceMouse : UInt8 := 0
  epKbd : UInt8 := 0
  epMouse : UInt8 := 0
  maxpKbd : UInt8 := 8
  maxpMouse : UInt8 := 8
  foundKbd : Bool := false
  foundMouse : Bool := false
  inKbd : Bool := false
  inMouse : Bool := false
  inMsc : Bool := false
  foundMsc : Bool := false
  ifaceMsc : UInt8 := 0
  epMscIn : UInt8 := 0
  epMscOut : UInt8 := 0
  mscMaxpIn : UInt16 := 64
  mscMaxpOut : UInt16 := 64
  deriving DecidableEq

namespace UhciScan

variable (buf : Nat → UInt8) (p : Nat) (s : UhciScan)

def interface : UhciScan :=
  let s := { s with ifaceCur := buf (p + 2), inKbd := false, inMouse := false, inMsc := false }
  let boot := buf (p + 5) == 0x03 && buf (p + 6) == 0x01
  let s := if boot && buf (p + 7) == 0x01 then { s with inKbd := true, foundKbd := true, ifaceKbd := s.ifaceCur } else s
  let s := if boot && buf (p + 7) == 0x02 then { s with inMouse := true, foundMouse := true, ifaceMouse := s.ifaceCur } else s
  if isMassStorage buf p then { s with inMsc := true, foundMsc := true, ifaceMsc := s.ifaceCur } else s

/-- A packet of a HID endpoint is kept at 8 bytes. -/
def hidMaxp : UInt8 :=
  let m := maxPacketSize buf p
  if 8 < m ∨ m = 0 then 8 else m.toUInt8

def endpoint : UhciScan :=
  let num := endpointNumber buf p
  let s := if transferType buf p = 0x03 then
      let s := if s.inKbd && s.epKbd = 0 && isIn buf p then { s with epKbd := num, maxpKbd := hidMaxp buf p } else s
      if s.inMouse && s.epMouse = 0 && isIn buf p then { s with epMouse := num, maxpMouse := hidMaxp buf p } else s
    else s
  if transferType buf p = 0x02 && s.inMsc then
    let s := if isIn buf p && s.epMscIn = 0 then { s with epMscIn := num, mscMaxpIn := maxPacketSize buf p } else s
    if !isIn buf p && s.epMscOut = 0 then { s with epMscOut := num, mscMaxpOut := maxPacketSize buf p } else s
  else s

/-- One pass of the loop over a whole descriptor: the fields that it reads and the state behind. -/
def visit : List Nat × UhciScan :=
  if isInterface buf p then ([p + 2, p + 5, p + 6, p + 7], s.interface buf p)
  else if isEndpoint buf p then ([p + 2, p + 3, p + 4, p + 5], s.endpoint buf p)
  else ([], s)

/-- The device that msc_attach fills in before its first transfer. -/
def attached (ls : Bool) : Msc :=
  { addr := ⟨1, by decide⟩, epIn := ⟨s.epMscIn.toNat % 16, Nat.mod_lt _ (by decide)⟩
    epOut := ⟨s.epMscOut.toNat % 16, Nat.mod_lt _ (by decide)⟩, maxpIn := s.mscMaxpIn, maxpOut := s.mscMaxpOut
    togIn := false, togOut := false, ls := ls, blockCount := 0, blockSize := 0 }

end UhciScan

/-- The variables of ehci_enumerate before the loop. -/
structure EhciScan where
  ifaceCur : UInt8 := 0
  inMsc : Bool := false
  foundMsc : Bool := false
  epIn : UInt8 := 0
  epOut : UInt8 := 0
  maxpIn : UInt16 := 512
  maxpOut : UInt16 := 512
  deriving DecidableEq

namespace EhciScan

variable (buf : Nat → UInt8) (p : Nat) (s : EhciScan)

def interface : EhciScan :=
  let s := { s with ifaceCur := buf (p + 2), inMsc := false }
  if isMassStorage buf p then { s with inMsc := true, foundMsc := true } else s

def endpoint : EhciScan :=
  let num := endpointNumber buf p
  if transferType buf p = 0x02 then
    let s := if isIn buf p && s.epIn = 0 then { s with epIn := num, maxpIn := maxPacketSize buf p } else s
    if !isIn buf p && s.epOut = 0 then { s with epOut := num, maxpOut := maxPacketSize buf p } else s
  else s

/-- One pass of the loop over a whole descriptor, which passes by the endpoints of other
interfaces. -/
def visit : List Nat × EhciScan :=
  if isInterface buf p then ([p + 2, p + 5, p + 6, p + 7], s.interface buf p)
  else if isEndpoint buf p && s.inMsc then ([p + 2, p + 3, p + 4, p + 5], s.endpoint buf p)
  else ([], s)

/-- The packet size that ehci_bulk_transfer divides by. -/
def maxp (dirIn : Bool) : UInt16 := if dirIn then s.maxpIn else s.maxpOut

end EhciScan

/-- The walk of enumerate_device. -/
def enumerateDevice (buf : Nat → UInt8) (totalLen : UInt16) : Option (List Nat × UhciScan) :=
  walk (bLength buf) (cappedLen totalLen) (UhciScan.visit buf) (cappedLen totalLen + 1) 0 {}

/-- The walk of ehci_enumerate. -/
def ehciEnumerate (buf : Nat → UInt8) (totalLen : UInt16) : Option (List Nat × EhciScan) :=
  walk (bLength buf) (cappedLen totalLen) (EhciScan.visit buf) (cappedLen totalLen + 1) 0 {}

section

variable (buf : Nat → UInt8)

/-- The bulk endpoints of one direction among descriptors, where the interface before each one
is mass storage. -/
def mscEndpoints (dirIn : Bool) : Bool → List Nat → List Nat
  | _, [] => []
  | inMsc, p :: rest =>
    if isInterface buf p then mscEndpoints dirIn (isMassStorage buf p) rest
    else if isEndpoint buf p && inMsc && transferType buf p == 0x02 && isIn buf p == dirIn then
      p :: mscEndpoints dirIn inMsc rest
    else mscEndpoints dirIn inMsc rest

/-- The endpoint that a direction ends up with: the first with a number, or else the last. -/
def counted (endpoints : List Nat) : Option Nat :=
  (endpoints.find? (endpointNumber buf · ≠ 0)).or endpoints.getLast?

def mscEndpoint (totalLen : UInt16) (dirIn : Bool) : Option Nat :=
  counted buf (mscEndpoints buf dirIn false (records (bLength buf) (cappedLen totalLen)))

/-- Both walks end, read below the length alone, and pass on packet sizes other than 0. -/
def WalksSafe (totalLen : UInt16) : Prop :=
  (∃ reads s, enumerateDevice buf totalLen = some (reads, s) ∧ (∀ i ∈ reads, i < cappedLen totalLen) ∧
    (s.foundMsc → ∀ ls dirIn, ((s.attached ls).pipe dirIn).maxp ≠ 0)) ∧
  (∃ reads s, ehciEnumerate buf totalLen = some (reads, s) ∧ (∀ i ∈ reads, i < cappedLen totalLen) ∧
    (s.foundMsc → ∀ dirIn, s.maxp dirIn ≠ 0))

end

variable {buf : Nat → UInt8} {p total : Nat} {dirIn : Bool}

/-! What a pass reads -/

theorem interface_inside (whole : Records.Whole (bLength buf) total p) (is : isInterface buf p) :
    ∀ i ∈ [p + 2, p + 5, p + 6, p + 7], i < total := by
  have fits : p + bLength buf p ≤ total := whole.2
  have long : 9 ≤ bLength buf p := of_decide_eq_true (Bool.and_eq_true_iff.mp is).2
  intro i field
  simp only [List.mem_cons, List.not_mem_nil, or_false] at field
  omega

theorem endpoint_inside (whole : Records.Whole (bLength buf) total p) (is : isEndpoint buf p) :
    ∀ i ∈ [p + 2, p + 3, p + 4, p + 5], i < total := by
  have fits : p + bLength buf p ≤ total := whole.2
  have long : 7 ≤ bLength buf p := of_decide_eq_true (Bool.and_eq_true_iff.mp is).2
  intro i field
  simp only [List.mem_cons, List.not_mem_nil, or_false] at field
  omega

theorem UhciScan.visit_inside (s : UhciScan) (whole : Records.Whole (bLength buf) total p) :
    ∀ i ∈ (visit buf p s).1, i < total := by
  rw [visit]
  split
  next is => exact interface_inside whole is
  next =>
    split
    next is => exact endpoint_inside whole is
    next => exact List.forall_mem_nil _

theorem EhciScan.visit_inside (s : EhciScan) (whole : Records.Whole (bLength buf) total p) :
    ∀ i ∈ (visit buf p s).1, i < total := by
  rw [visit]
  split
  next is => exact interface_inside whole is
  next =>
    split
    next is => exact endpoint_inside whole (Bool.and_eq_true_iff.mp is).1
    next => exact List.forall_mem_nil _

/-! What the walk of ehci_enumerate keeps -/

/-- The number and the packet size kept for a direction. -/
def EhciScan.kept (s : EhciScan) (dirIn : Bool) : UInt8 × UInt16 :=
  if dirIn then (s.epIn, s.maxpIn) else (s.epOut, s.maxpOut)

/-- An endpoint is kept unless one with a number is there. -/
def keep (buf : Nat → UInt8) (now : UInt8 × UInt16) (p : Nat) : UInt8 × UInt16 :=
  if now.1 = 0 then (endpointNumber buf p, maxPacketSize buf p) else now

theorem counted_number {rest : List Nat} (number : endpointNumber buf p ≠ 0) : counted buf (p :: rest) = some p := by
  rw [counted, List.find?_cons_of_pos (p := (endpointNumber buf · ≠ 0)) (decide_eq_true number), Option.some_or]

theorem counted_zero {rest : List Nat} (zero : endpointNumber buf p = 0) :
    counted buf (p :: rest) = some ((counted buf rest).getD p) := by
  have passed : ¬decide (endpointNumber buf p ≠ 0) = true := fun number => of_decide_eq_true number zero
  rw [counted, counted, List.find?_cons_of_neg (p := (endpointNumber buf · ≠ 0)) passed, List.getLast?_cons]
  cases rest.find? (endpointNumber buf · ≠ 0) <;> rfl

theorem keep_number (endpoints : List Nat) {now : UInt8 × UInt16} (number : now.1 ≠ 0) :
    endpoints.foldl (keep buf) now = now := by
  induction endpoints with
  | nil => rfl
  | cons p rest ih => rw [List.foldl_cons, keep, if_neg number, ih]

theorem keep_all (endpoints : List Nat) {now : UInt8 × UInt16} (zero : now.1 = 0) : endpoints.foldl (keep buf) now =
    (counted buf endpoints).elim now fun p => (endpointNumber buf p, maxPacketSize buf p) := by
  induction endpoints generalizing now with
  | nil => rfl
  | cons p rest ih =>
      have here : keep buf now p = (endpointNumber buf p, maxPacketSize buf p) := if_pos zero
      rw [List.foldl_cons, here]
      by_cases none : endpointNumber buf p = 0
      · rw [ih none, counted_zero none]
        cases counted buf rest <;> rfl
      · rw [keep_number rest none, counted_number none]
        rfl

namespace EhciScan

variable {s : EhciScan}

theorem interface_kept : (s.interface buf p).kept dirIn = s.kept dirIn := by
  rw [interface]
  dsimp only
  split <;> rfl

theorem interface_inMsc : (s.interface buf p).inMsc = isMassStorage buf p := by
  rw [interface]
  dsimp only
  split
  next is => exact is.symm
  next other => exact (Bool.eq_false_iff.mpr other).symm

theorem endpoint_kept : (s.endpoint buf p).kept dirIn =
    if transferType buf p = 0x02 ∧ isIn buf p = dirIn then keep buf (s.kept dirIn) p else s.kept dirIn := by
  rw [endpoint, keep]
  cases dirIn <;> cases isIn buf p <;> simp [kept] <;> grind

theorem endpoint_inMsc : (s.endpoint buf p).inMsc = s.inMsc := by
  rw [endpoint]
  grind

theorem endpoint_foundMsc : (s.endpoint buf p).foundMsc = s.foundMsc := by
  rw [endpoint]
  grind

theorem interface_foundMsc : (s.interface buf p).foundMsc = (isMassStorage buf p || s.foundMsc) := by
  rw [interface]
  grind

/-- A walk over descriptors. -/
def scan (buf : Nat → UInt8) (descs : List Nat) (s : EhciScan) : EhciScan := descs.foldl (fun s q => (visit buf q s).2) s

/-- The endpoints of each direction go through `keep`. -/
theorem scan_kept (descs : List Nat) (s : EhciScan) : (s.scan buf descs).kept dirIn =
    (mscEndpoints buf dirIn s.inMsc descs).foldl (keep buf) (s.kept dirIn) := by
  induction descs generalizing s with
  | nil => rfl
  | cons p rest ih =>
      rw [scan, List.foldl_cons, ← scan, ih, mscEndpoints, visit]
      by_cases interface' : isInterface buf p
      · rw [if_pos interface', if_pos interface', interface_kept, interface_inMsc]
      · rw [if_neg interface', if_neg interface']
        by_cases endpoint' : isEndpoint buf p && s.inMsc
        · rw [if_pos endpoint', endpoint_kept, endpoint_inMsc, endpoint', Bool.true_and]
          by_cases counts : transferType buf p = 0x02 ∧ isIn buf p = dirIn
          · rw [if_pos counts, if_pos (by simp [counts]), List.foldl_cons]
          · rw [if_neg counts, if_neg (by simpa using counts)]
        · rw [if_neg endpoint', if_neg (by simp [endpoint'])]

theorem visit_found (found : s.foundMsc) : (visit buf p s).2.foundMsc := by
  rw [visit]
  split
  next => rw [interface_foundMsc, found, Bool.or_true]
  next =>
    split
    next => rw [endpoint_foundMsc, found]
    next => exact found

theorem scan_found (descs : List Nat) {s : EhciScan} (found : s.foundMsc) : (s.scan buf descs).foundMsc := by
  induction descs generalizing s with
  | nil => exact found
  | cons p rest ih => exact ih (visit_found found)

/-- A mass-storage interface was found before an endpoint of it. -/
theorem found_of_endpoints (descs : List Nat) (s : EhciScan) (found : s.inMsc → s.foundMsc)
    (some' : mscEndpoints buf dirIn s.inMsc descs ≠ []) : (s.scan buf descs).foundMsc := by
  induction descs generalizing s with
  | nil => exact absurd rfl some'
  | cons p rest ih =>
      rw [mscEndpoints] at some'
      rw [scan, List.foldl_cons, ← scan, visit]
      by_cases interface' : isInterface buf p
      · rw [if_pos interface', ← interface_inMsc] at some'
        rw [if_pos interface']
        apply ih _ _ some'
        rw [interface_inMsc, interface_foundMsc]
        exact fun is => Bool.or_eq_true_iff.mpr (Or.inl is)
      · rw [if_neg interface'] at some' ⊢
        by_cases inside : s.inMsc
        · apply scan_found
          split
          next => rw [endpoint_foundMsc, found inside]
          next => exact found inside
        · have other : ¬(isEndpoint buf p && s.inMsc) = true := fun both => inside (Bool.and_eq_true_iff.mp both).2
          rw [if_neg (by simp [inside])] at some'
          rw [if_neg other]
          exact ih s found some'

end EhciScan

/-! The two walks -/

theorem records_enough (totalLen : UInt16) : cappedLen totalLen - 0 < cappedLen totalLen + 1 := Nat.lt_succ_self _

theorem Msc.pipe_maxp (m : Msc) : (m.pipe dirIn).maxp ≠ 0 := by
  have default (n : Nat) : (if n = 0 then 64 else n) ≠ 0 := by
    split <;> omega
  exact default _

/-- In usb.c only the reads can go wrong. -/
theorem enumerateDevice_safe_iff (buf : Nat → UInt8) (totalLen : UInt16) :
    (∃ reads s, enumerateDevice buf totalLen = some (reads, s) ∧ (∀ i ∈ reads, i < cappedLen totalLen) ∧
      (s.foundMsc → ∀ ls dirIn, ((s.attached ls).pipe dirIn).maxp ≠ 0)) ↔
      ¬LoneByte (bLength buf) (cappedLen totalLen) := by
  have ⟨reads, done⟩ : ∃ reads, enumerateDevice buf totalLen = some (reads, _) := walk_ends (records_enough totalLen)
  have inside := walk_inside_iff (fun q s whole => s.visit_inside whole) done
  rw [not_loneByte, records, ← inside]
  constructor
  · rintro ⟨reads', s', same, below, _⟩
    cases done.symm.trans same
    exact below
  · exact fun below => ⟨reads, _, done, below, fun _ ls dirIn => Msc.pipe_maxp _⟩

theorem EhciScan.maxp_kept (s : EhciScan) : s.maxp dirIn = (s.kept dirIn).2 := by
  cases dirIn <;> rfl

/-- The packet sizes at the end are those of the endpoints that count. -/
theorem scan_maxp (descs : List Nat) : (EhciScan.scan buf descs {}).maxp dirIn =
    (counted buf (mscEndpoints buf dirIn false descs)).elim 512 (maxPacketSize buf) := by
  have zero : (EhciScan.kept {} dirIn).1 = 0 := by
    cases dirIn <;> rfl
  rw [EhciScan.maxp_kept, EhciScan.scan_kept, keep_all _ zero]
  cases counted buf (mscEndpoints buf dirIn false descs) with
  | none => cases dirIn <;> rfl
  | some p => rfl

theorem scan_safe_iff (descs : List Nat) :
    ((EhciScan.scan buf descs {}).foundMsc → ∀ dirIn, (EhciScan.scan buf descs {}).maxp dirIn ≠ 0) ↔
      ∀ dirIn, ∀ p ∈ counted buf (mscEndpoints buf dirIn false descs), maxPacketSize buf p ≠ 0 := by
  constructor
  · intro safe dirIn p counts
    have some' : mscEndpoints buf dirIn false descs ≠ [] := fun none => by
      rw [none] at counts
      cases counts
    have size := safe (EhciScan.found_of_endpoints descs {} (fun inside => inside) some') dirIn
    rwa [scan_maxp, counts] at size
  · intro sizes _ dirIn
    rw [scan_maxp]
    cases counts : counted buf (mscEndpoints buf dirIn false descs) with
    | none => exact (by decide : (512 : UInt16) ≠ 0)
    | some p => exact sizes dirIn p counts

theorem ehciEnumerate_safe_iff (buf : Nat → UInt8) (totalLen : UInt16) :
    (∃ reads s, ehciEnumerate buf totalLen = some (reads, s) ∧ (∀ i ∈ reads, i < cappedLen totalLen) ∧
      (s.foundMsc → ∀ dirIn, s.maxp dirIn ≠ 0)) ↔
      ¬LoneByte (bLength buf) (cappedLen totalLen) ∧
        ∀ dirIn, ∀ p ∈ mscEndpoint buf totalLen dirIn, maxPacketSize buf p ≠ 0 := by
  have ⟨reads, done⟩ : ∃ reads, ehciEnumerate buf totalLen = some (reads, _) := walk_ends (records_enough totalLen)
  have inside := walk_inside_iff (fun q s whole => s.visit_inside whole) done
  have sizes := @scan_safe_iff buf (records (bLength buf) (cappedLen totalLen))
  rw [not_loneByte, records, ← inside]
  constructor
  · rintro ⟨reads', s', same, below, safe⟩
    cases done.symm.trans same
    exact ⟨below, sizes.mp safe⟩
  · exact fun ⟨below, known⟩ => ⟨reads, _, done, below, sizes.mpr known⟩

/-- Both walks are safe exactly when no single byte is left behind the descriptors, and no
endpoint that ehci_enumerate ends up with has packets of 0 bytes. -/
theorem walks_safe_iff (buf : Nat → UInt8) (totalLen : UInt16) : WalksSafe buf totalLen ↔
    ¬LoneByte (bLength buf) (cappedLen totalLen) ∧
      ∀ dirIn, ∀ p ∈ mscEndpoint buf totalLen dirIn, maxPacketSize buf p ≠ 0 := by
  calc WalksSafe buf totalLen
      ↔ ¬LoneByte (bLength buf) (cappedLen totalLen) ∧ ¬LoneByte (bLength buf) (cappedLen totalLen) ∧
          ∀ dirIn, ∀ p ∈ mscEndpoint buf totalLen dirIn, maxPacketSize buf p ≠ 0 :=
        and_congr (enumerateDevice_safe_iff buf totalLen) (ehciEnumerate_safe_iff buf totalLen)
    _ ↔ ¬LoneByte (bLength buf) (cappedLen totalLen) ∧
          ∀ dirIn, ∀ p ∈ mscEndpoint buf totalLen dirIn, maxPacketSize buf p ≠ 0 := and_self_left

/-- A configuration with a mass-storage interface whose endpoint for reading has packets of
0 bytes. -/
def noSize : List UInt8 :=
  [9, 2, 32, 0, 1, 1, 0, 0x80, 50, 9, 4, 0, 0, 2, 8, 6, 0x50, 0, 7, 5, 0x81, 2, 0, 0, 0, 7, 5, 0x02, 2, 0, 2, 0]

theorem walks_noSize : ¬WalksSafe (fun i => noSize.getD i 0) 32 := by
  rintro ⟨_, reads, s, done, _, safe⟩
  have attached : ((ehciEnumerate (fun i => noSize.getD i 0) 32).map fun r => (r.2.foundMsc, r.2.maxp true)) =
      some (true, 0) := by
    decide
  rw [done] at attached
  obtain ⟨found, size⟩ := Prod.mk.inj (Option.some.inj attached)
  exact safe found true size

end Zenbite.Usb
