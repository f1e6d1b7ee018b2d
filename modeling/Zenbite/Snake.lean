import Mathlib.Tactic.Common
import Zenbite.Lib.Memory
import Zenbite.Lib.Runs

/-! The Snake window of the desktop (desktop.c): the game in the shared text buffer, and
the size and place of the window. -/

namespace Zenbite.Snake

open Memory

def vgaCols : Int := 80

def vgaRows : Int := 25

/-- sizeof content - 2, where the apple is. -/
def appleAt : Nat := 8190

/-- `struct widget`, as far as the game and the window go, and `rng_state`. -/
structure Widget where
  r : Int
  c : Int
  w : Int
  h : Int
  prevSec : UInt32
  content : Buffer
  contentLen : Nat
  sel : Int
  top : Nat
  row : Nat
  focused : Bool
  rng : UInt32

/-- `quick_rand` -/
def quickRand (x : UInt32) : UInt32 := x * 1664525 + 1013904223

/-- `x % n` with the int made unsigned; no result is a divide fault. -/
def remainder (x : UInt32) (n : Int) : Option Nat :=
  let divisor := (n % 2 ^ 32).toNat
  if divisor = 0 then none else some (x.toNat % divisor)

/-- `(char)n` -/
def toByte (n : Int) : UInt8 := UInt8.ofNat (n % 256).toNat

/-- Two numbers for an apple, and `rng_state` behind them. -/
def drawApple (cols rows : Int) (x : UInt32) : Option (Nat × Nat × UInt32) := do
  let ax ← remainder (quickRand x) cols
  let ay ← remainder (quickRand (quickRand x)) rows
  some (ax, ay, quickRand (quickRand x))

def putApple (content : Buffer) (ax ay : Nat) : Buffer := poke content appleAt [UInt8.ofNat ax, UInt8.ofNat ay]

namespace Widget

variable (s : Widget)

def playCols : Int := s.w - 4

def playRows : Int := s.h - 5

/-- A cell of the body. -/
def cell (i : Nat) : Int × Int := ((s.content (2 * i)).toNat, (s.content (2 * i + 1)).toNat)

/-- The body, head first. -/
def body : List (Int × Int) := (List.range (s.contentLen / 2)).map s.cell

def apple : Int × Int := ((s.content appleAt).toNat, (s.content (appleAt + 1)).toNat)

/-- `snake_reset` -/
def reset (cols rows : Int) : Option Widget := do
  let cx := cols.tdiv 2
  let cy := rows.tdiv 2
  let content := poke s.content 0 [toByte cx, toByte cy, toByte (cx - 1), toByte cy, toByte (cx - 2), toByte cy]
  let (ax, ay, rng) ← drawApple cols rows s.rng
  some { s with sel := 0, top := 0, row := 0, contentLen := 6, content := putApple content ax ay, rng := rng }

/-- `nx` and `ny` -/
def head : Int × Int :=
  let dx : Int := (if s.top = 0 then 1 else 0) - (if s.top = 2 then 1 else 0)
  let dy : Int := (if s.top = 1 then 1 else 0) - (if s.top = 3 then 1 else 0)
  ((s.content 0).toNat + dx, (s.content 1).toNat + dy)

/-- The wall, or a cell of the body, is in the way. -/
def Blocked (cols rows : Int) : Prop :=
  (s.head.1 < 0 ∨ cols ≤ s.head.1 ∨ s.head.2 < 0 ∨ rows ≤ s.head.2) ∨ s.head ∈ s.body

instance (cols rows : Int) : Decidable (s.Blocked cols rows) := inferInstanceAs (Decidable (_ ∨ _))

end Widget

/-- The loop that moves the apple, with the tries that are left behind the first one. -/
def moveApple (cols rows : Int) (body : List (Int × Int)) : Nat → UInt32 → Option (Nat × Nat × UInt32)
  | 0, x => drawApple cols rows x
  | left + 1, x => do
    let (ax, ay, x) ← drawApple cols rows x
    if ((ax : Int), (ay : Int)) ∈ body then moveApple cols rows body left x else some (ax, ay, x)

namespace Widget

variable (s : Widget)

/-- `for (int i = w->content_len; i > 0; i--) w->content[i] = w->content[i - 1];` -/
def shifted : Buffer := fun i => if 0 < i ∧ i ≤ s.contentLen then s.content (i - 1) else s.content i

/-- The content with the new head in front. -/
def moved : Buffer := poke s.shifted 0 [toByte s.head.1, toByte s.head.2]

/-- The tick of render_snake. -/
def tick (cols rows : Int) : Option Widget :=
  if s.Blocked cols rows then some { s with row := 1 }
  else if s.head = s.apple then do
    let grown := { s with content := s.moved, contentLen := s.contentLen + 2, sel := s.sel + 1 }
    let (ax, ay, rng) ← moveApple cols rows grown.body 49 s.rng
    some { grown with content := putApple s.moved ax ay, rng := rng }
  else some { s with content := s.moved }

/-- `should_tick` -/
def Ticks (now : UInt32) : Prop := s.row = 0 ∧ s.focused = true ∧ 14 ≤ (now - s.prevSec).toNat

instance (now : UInt32) : Decidable (s.Ticks now) := inferInstanceAs (Decidable (_ ∧ _))

/-- The game starts with the first frame. -/
def started : Option Widget := if s.contentLen = 0 then s.reset s.playCols s.playRows else some s

def advance (now : UInt32) : Option Widget :=
  if s.Ticks now then tick { s with prevSec := now } s.playCols s.playRows else some s

/-- What render_snake does before it draws. -/
def render (now : UInt32) : Option Widget := s.started.bind fun s => s.advance now

/-- spawn_widget, case WK_SNAKE -/
def spawn : Widget :=
  { s with
    r := 3, c := 14, w := 52, h := 18, prevSec := 0xFFFFFFFF, contentLen := 0, sel := 0, top := 0, row := 0,
    content := Function.update s.content 0 0, focused := true }

/-- Dragging the window, with the place where the mouse asks for it to be. -/
def drag (nc nr : Int) : Widget :=
  let nc := if nc < 0 then 0 else nc
  let nc := if vgaCols < nc + s.w then vgaCols - s.w else nc
  let nr := if nr < 1 then 1 else nr
  let nr := if vgaRows - 1 < nr + s.h then vgaRows - 1 - s.h else nr
  { s with c := nc, r := nr }

/-- Dragging the corner of the window to the mouse. -/
def resize (mc mr : Int) : Widget :=
  let nw := mc - s.c + 1
  let nh := mr - s.r + 1
  let nw := if nw < 16 then 16 else nw
  let nh := if nh < 5 then 5 else nh
  let nw := if vgaCols < s.c + nw then vgaCols - s.c else nw
  let nh := if vgaRows - 1 < s.r + nh then vgaRows - 1 - s.r else nh
  { s with w := nw, h := nh }

end Widget

/-- The direction keys. -/
inductive Key where
  | up | down | left | right

/-- A turn back is not taken. -/
def Widget.steer (s : Widget) : Key → Widget
  | .up => if s.top ≠ 1 then { s with top := 3 } else s
  | .down => if s.top ≠ 3 then { s with top := 1 } else s
  | .left => if s.top ≠ 0 then { s with top := 2 } else s
  | .right => if s.top ≠ 2 then { s with top := 0 } else s

/-- What happens to the game between two resets. -/
inductive Play where
  | frame (now : UInt32)
  | key (k : Key)

def Play.step : Play → Widget → Option Widget
  | .frame now, s => s.render now
  | .key k, s => some (s.steer k)

/-- What happens to the window; another Snake window draws numbers, too. -/
inductive Op where
  | play (p : Play)
  | restart
  | drag (nc nr : Int)
  | resize (mc mr : Int)
  | spawn
  | focus (on : Bool)
  | drawn

def Op.step : Op → Widget → Option Widget
  | .play p, s => p.step s
  | .restart, s => some { s with contentLen := 0 }
  | .drag nc nr, s => some (s.drag nc nr)
  | .resize mc mr, s => some (s.resize mc mr)
  | .spawn, s => some s.spawn
  | .focus on, s => some { s with focused := on }
  | .drawn, s => some { s with rng := quickRand s.rng }

end Zenbite.Snake
