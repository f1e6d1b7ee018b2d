import Zenbite.Lib.Queues
import Zenbite.Lib.Ring

/-! The PS/2 keyboard (keyboard.c): scancodes of set 1, the two layouts and the ring of
typed characters. -/

namespace Zenbite.Kb

/-- BUF_SIZE -/
def bufSize : Nat := 64

/-- `layout`: 0 is US and 1 is DE. -/
inductive Layout where
  | us
  | de
  deriving DecidableEq

/-- An array written out from its first cell; the cells behind are 0. -/
def positional (cs : List Char) (sc : UInt8) : UInt8 := (cs.getD sc.toNat '\x00').toNat.toUInt8

/-- An array with designated cells; the others are 0. -/
def designated (cells : List (UInt8 × Char)) (sc : UInt8) : UInt8 :=
  ((cells.lookup sc).getD '\x00').toNat.toUInt8

def usBase : UInt8 → UInt8 := positional
  ['\x00', '\x1b', '1', '2', '3', '4', '5', '6', '7', '8', '9', '0', '-', '=', '\x08',
    '\t', 'q', 'w', 'e', 'r', 't', 'y', 'u', 'i', 'o', 'p', '[', ']', '\n',
    '\x00', 'a', 's', 'd', 'f', 'g', 'h', 'j', 'k', 'l', ';', '\x27', '\x60',
    '\x00', '\x5c', 'z', 'x', 'c', 'v', 'b', 'n', 'm', ',', '.', '/',
    '\x00', '*', '\x00', ' ']

def usShift : UInt8 → UInt8 := positional
  ['\x00', '\x1b', '!', '@', '#', '$', '%', '^', '&', '*', '(', ')', '_', '+', '\x08',
    '\t', 'Q', 'W', 'E', 'R', 'T', 'Y', 'U', 'I', 'O', 'P', '\x7b', '\x7d', '\n',
    '\x00', 'A', 'S', 'D', 'F', 'G', 'H', 'J', 'K', 'L', ':', '\x22', '~',
    '\x00', '|', 'Z', 'X', 'C', 'V', 'B', 'N', 'M', '<', '>', '?',
    '\x00', '*', '\x00', ' ']

-- the umlauts, the eszett and the degree sign are bytes of code page 437
def deBase : UInt8 → UInt8 := designated
  [(0x02, '1'), (0x03, '2'), (0x04, '3'), (0x05, '4'), (0x06, '5'), (0x07, '6'),
    (0x08, '7'), (0x09, '8'), (0x0A, '9'), (0x0B, '0'), (0x0C, '\xe1'), (0x0D, '\x27'),
    (0x0E, '\x08'), (0x0F, '\t'),
    (0x10, 'q'), (0x11, 'w'), (0x12, 'e'), (0x13, 'r'), (0x14, 't'),
    (0x15, 'z'), (0x16, 'u'), (0x17, 'i'), (0x18, 'o'), (0x19, 'p'),
    (0x1A, '\x81'), (0x1B, '+'), (0x1C, '\n'),
    (0x1E, 'a'), (0x1F, 's'), (0x20, 'd'), (0x21, 'f'), (0x22, 'g'),
    (0x23, 'h'), (0x24, 'j'), (0x25, 'k'), (0x26, 'l'),
    (0x27, '\x94'), (0x28, '\x84'), (0x29, '^'), (0x2B, '#'),
    (0x2C, 'y'), (0x2D, 'x'), (0x2E, 'c'), (0x2F, 'v'), (0x30, 'b'), (0x31, 'n'), (0x32, 'm'),
    (0x33, ','), (0x34, '.'), (0x35, '-'),
    (0x39, ' ')]

def deShift : UInt8 → UInt8 := designated
  [(0x02, '!'), (0x03, '\x22'), (0x04, '\x15'), (0x05, '$'), (0x06, '%'), (0x07, '&'),
    (0x08, '/'), (0x09, '('), (0x0A, ')'), (0x0B, '='), (0x0C, '?'), (0x0D, '\x60'),
    (0x0E, '\x08'), (0x0F, '\t'),
    (0x10, 'Q'), (0x11, 'W'), (0x12, 'E'), (0x13, 'R'), (0x14, 'T'),
    (0x15, 'Z'), (0x16, 'U'), (0x17, 'I'), (0x18, 'O'), (0x19, 'P'),
    (0x1A, '\x9a'), (0x1B, '*'), (0x1C, '\n'),
    (0x1E, 'A'), (0x1F, 'S'), (0x20, 'D'), (0x21, 'F'), (0x22, 'G'),
    (0x23, 'H'), (0x24, 'J'), (0x25, 'K'), (0x26, 'L'),
    (0x27, '\x99'), (0x28, '\x8e'), (0x29, '\xf8'), (0x2B, '\x27'),
    (0x2C, 'Y'), (0x2D, 'X'), (0x2E, 'C'), (0x2F, 'V'), (0x30, 'B'), (0x31, 'N'), (0x32, 'M'),
    (0x33, ';'), (0x34, ':'), (0x35, '_'),
    (0x39, ' ')]

def deAltgr : UInt8 → UInt8 := designated
  [(0x08, '\x7b'), (0x09, '['), (0x0A, ']'), (0x0B, '\x7d'), (0x0C, '\x5c'),
    (0x10, '@'), (0x1B, '~'), (0x2B, '|')]

/-- The switch over the keys behind an 0xE0, KB_UP to KB_PGDN; 0 is none. -/
def extC (sc : UInt8) : UInt8 :=
  ([(0x48, 0x80), (0x50, 0x81), (0x4B, 0x82), (0x4D, 0x83), (0x53, 0x84), (0x47, 0x85),
    (0x4F, 0x86), (0x49, 0x87), (0x51, 0x88)].lookup sc).getD 0

/-- The switch over the function keys, KB_F1 to KB_F8; 0 is none. -/
def fkey (sc : UInt8) : UInt8 :=
  ([(0x3B, 0x90), (0x3C, 0x91), (0x3D, 0x92), (0x3E, 0x93), (0x3F, 0x94), (0x40, 0x95),
    (0x41, 0x96), (0x42, 0x97)].lookup sc).getD 0

/-- The static variables around the ring; `intr` is g_intr. -/
structure Keys where
  layout : Layout
  shiftDown : Bool
  ctrlDown : Bool
  capsLock : Bool
  altgrDown : Bool
  extFlag : Bool
  intr : Bool
  deriving DecidableEq

def isLower (c : UInt8) : Prop := 97 ≤ c ∧ c ≤ 122
def isUpper (c : UInt8) : Prop := 65 ≤ c ∧ c ≤ 90

instance (c : UInt8) : Decidable (isLower c) := inferInstanceAs (Decidable (_ ∧ _))
instance (c : UInt8) : Decidable (isUpper c) := inferInstanceAs (Decidable (_ ∧ _))

namespace Keys

variable (k : Keys)

/-- What the tables give for a key. -/
def lookup (sc : UInt8) : UInt8 :=
  match k.layout with
  | .de =>
    let c := if k.altgrDown then deAltgr sc else 0
    if c = 0 then if k.shiftDown then deShift sc else deBase sc else c
  | .us => if k.shiftDown then usShift sc else usBase sc

/-- Caps lock. -/
def caps (c : UInt8) : UInt8 :=
  if k.capsLock ∧ isLower c then c - 32
  else if k.capsLock ∧ isUpper c ∧ ¬k.shiftDown then c + 32
  else c

/-- Ctrl and a letter. -/
def ctrl (c : UInt8) : UInt8 :=
  if k.ctrlDown ∧ isLower c then c - 97 + 1
  else if k.ctrlDown ∧ isUpper c then c - 65 + 1
  else c

/-- on_irq1, with the character that it passes to enqueue as its last act. -/
def onIrq1 (sc : UInt8) : Keys × Option UInt8 :=
  if sc = 0xE0 then ({ k with extFlag := true }, none)
  else if k.extFlag then
    let k := { k with extFlag := false }
    if sc = 0x38 then ({ k with altgrDown := true }, none)
    else if sc = 0xB8 then ({ k with altgrDown := false }, none)
    else if sc &&& 0x80 ≠ 0 then (k, none)
    else if extC sc ≠ 0 then (k, some (extC sc))
    else (k, none)
  else if sc &&& 0x80 ≠ 0 then
    let down := sc &&& 0x7F
    let k := if down = 0x2A ∨ down = 0x36 then { k with shiftDown := false } else k
    (if down = 0x1D then { k with ctrlDown := false } else k, none)
  else if sc = 0x2A ∨ sc = 0x36 then ({ k with shiftDown := true }, none)
  else if sc = 0x1D then ({ k with ctrlDown := true }, none)
  else if sc = 0x3A then ({ k with capsLock := !k.capsLock }, none)
  else if fkey sc ≠ 0 then (k, some (fkey sc))
  else if k.lookup sc = 0 then (k, none)
  else
    let c := k.ctrl (k.caps (k.lookup sc))
    ({ k with intr := k.intr || c = 0x03 }, some c)

end Keys

/-- The static variables. -/
structure Keyboard where
  keys : Keys
  buf : Nat → UInt8
  head : Nat
  tail : Nat

namespace Keyboard

variable (kb : Keyboard)

def enqueue (c : UInt8) : Keyboard :=
  if Ring.next bufSize kb.head = kb.tail then kb
  else { kb with buf := fun i => if i = kb.head then c else kb.buf i, head := Ring.next bufSize kb.head }

def onIrq1 (sc : UInt8) : Keyboard :=
  match kb.keys.onIrq1 sc with
  | (keys, none) => { kb with keys := keys }
  | (keys, some c) => { kb with keys := keys }.enqueue c

/-- kb_trygetc looks at the ports only with an empty ring, and leaves the mouse's bytes. -/
def polls (st : UInt8) : Prop := kb.head = kb.tail ∧ st &&& 0x21 = 0x01

instance (st : UInt8) : Decidable (kb.polls st) := inferInstanceAs (Decidable (_ ∧ _))

/-- kb_trygetc: `st` and `data` stand at KBD_STATUS and KBD_DATA, and `usb` is what
usb_kbd_trygetc gives. -/
def trygetc (st data : UInt8) (usb : Option UInt8) : Option UInt8 × Keyboard :=
  let kb := if kb.polls st then kb.onIrq1 data else kb
  match usb with
  | some c => (some c, kb)
  | none =>
    if kb.head = kb.tail then (none, kb)
    else (some (kb.buf kb.tail), { kb with tail := Ring.next bufSize kb.tail })

/-- The characters in the ring, oldest first. -/
def waiting : List UInt8 := Ring.contents bufSize kb.buf kb.head kb.tail

end Keyboard

/-- An interrupt with its scancode, or a call of kb_trygetc. -/
inductive Act where
  | irq (sc : UInt8)
  | get (st data : UInt8) (usb : Option UInt8)

def step : Act → Keyboard → Keyboard
  | .irq sc, kb => kb.onIrq1 sc
  | .get st data usb, kb => (kb.trygetc st data usb).2

/-- The scancode that an act reads from the port. -/
def scancodes : Act → Keyboard → List UInt8
  | .irq sc, _ => [sc]
  | .get st data _, kb => if kb.polls st then [data] else []

/-- The characters of scancodes, and the keys behind them. -/
def decode : Keys → List UInt8 → Keys × List UInt8
  | k, [] => (k, [])
  | k, sc :: scs =>
    let rest := decode (k.onIrq1 sc).1 scs
    (rest.1, (k.onIrq1 sc).2.toList ++ rest.2)

/-- No character comes from the port while the ring has no cell for it. -/
def Room (a : Act) (kb : Keyboard) : Prop :=
  ∀ sc ∈ scancodes a kb, (kb.keys.onIrq1 sc).2 ≠ none → Ring.next bufSize kb.head ≠ kb.tail

instance (a : Act) (kb : Keyboard) : Decidable (Room a kb) :=
  inferInstanceAs (Decidable (∀ sc ∈ scancodes a kb, _))

/-- head and tail are cells of the ring. -/
structure Keyboard.Inside (kb : Keyboard) : Prop where
  head : kb.head < bufSize
  tail : kb.tail < bufSize

/-! What enqueue, on_irq1 and kb_trygetc do to the ring. -/

/-- The keyboard once an act has read the port. -/
def heard : Act → Keyboard → Keyboard
  | .irq sc, kb => kb.onIrq1 sc
  | .get st data _, kb => if kb.polls st then kb.onIrq1 data else kb

inductive Level where
  | base
  | shift
  | altgr
  | ctrl
  deriving DecidableEq

/-- The character that a table has for a key on its own, with Shift, with AltGr or with Ctrl. -/
def Layout.key : Layout → Level → UInt8 → UInt8
  | .us, .base => usBase
  | .us, .shift => usShift
  | .us, .altgr => fun _ => 0
  | .us, .ctrl => fun sc => if isLower (usBase sc) then usBase sc - 97 + 1 else 0
  | .de, .base => deBase
  | .de, .shift => deShift
  | .de, .altgr => deAltgr
  | .de, .ctrl => fun sc => if isLower (deBase sc) then deBase sc - 97 + 1 else 0

/-- The keys of the tables that hold no modifier. -/
def charKeys : List UInt8 :=
  ((List.range 0x3A).map fun n => n.toUInt8).filter fun sc => sc ∉ [0x1D, 0x2A, 0x36]

/-- The keys with no modifier held. -/
def released (layout : Layout) (capsLock intr : Bool) : Keys :=
  ⟨layout, false, false, capsLock, false, false, intr⟩

theorem charKeys_plain : ∀ sc ∈ charKeys, sc ≠ 0xE0 ∧ sc &&& 0x80 = 0 ∧ ¬(sc = 0x2A ∨ sc = 0x36) ∧ sc ≠ 0x1D ∧
    sc ≠ 0x3A ∧ fkey sc = 0 := by
  decide +kernel

/-- What a key types with the modifiers as they are. -/
def Keys.types (k : Keys) (sc : UInt8) : UInt8 := k.ctrl (k.caps (k.lookup sc))

theorem press {k : Keys} (ext : k.extFlag = false) {sc : UInt8} (member : sc ∈ charKeys) (given : k.lookup sc ≠ 0) :
    k.onIrq1 sc = ({ k with intr := k.intr || k.types sc = 0x03 }, some (k.types sc)) := by
  obtain ⟨notExt, down, notShift, notCtrl, notCaps, notF⟩ := charKeys_plain sc member
  rw [Keys.onIrq1, if_neg notExt, ext, if_neg Bool.false_ne_true, if_neg (not_not.mpr down), if_neg notShift,
    if_neg notCtrl, if_neg notCaps, if_neg (not_not.mpr notF), if_neg given]
  rfl

/-- A US keyboard after keyboard_init. -/
def fresh : Keyboard := ⟨released .us false false, fun _ => 0, 0, 0⟩

end Zenbite.Kb
