import Zenbite.Zbc.Trace

/-! Which bytes of the string table printf and puts look at: a format that ends in a
percent sign sends the loop behind its NUL. -/

namespace Zenbite.Zbc

/-- A byte of the literal itself, its NUL included. -/
def Event.Inside (p : Prog) : Event → Prop
  | .read start pos => start ≤ pos ∧ pos ≤ start + (p.literal start).length
  | .bin _ _ _ => True
  | .assign _ _ _ => True
  | .un _ _ => True
  | .format _ _ => True

/-- The last conversion of the text is a percent sign alone. -/
def endsInPercent : List UInt8 → Bool
  | [] => false
  | [c] => c == 37
  | c :: d :: s => if c = 37 then endsInPercent s else endsInPercent (d :: s)

/-- A format that ends in a lone percent sign, and whose arguments all come back. -/
def Event.Loose (p : Prog) : Event → Prop
  | .format off through => through = true ∧ endsInPercent (p.literal off) = true
  | .bin _ _ _ => False
  | .assign _ _ _ => False
  | .un _ _ => False
  | .read _ _ => False

def AllInside (p : Prog) (t : List Event) : Prop := ∀ e ∈ t, e.Inside p

def Tight (p : Prog) (t : List Event) : Prop := ∀ e ∈ t, ¬e.Loose p

section Lists
variable {p : Prog} {s t : List Event}

end Lists

/-- Where every read is inside, no format is loose, and the other way round. -/
def Agrees (p : Prog) {α : Type} (_ : Except Stop α) (t : List Event) : Prop := AllInside p t ↔ Tight p t

section Format
variable {p : Prog}

variable {ev : Expr → ZState → Except Stop (Word × ZState)} {trace : Expr → ZState → List Event}
  (exprs : ∀ e z, Agrees p (ev e z) (trace e z))
include exprs

end Format

end Zenbite.Zbc
