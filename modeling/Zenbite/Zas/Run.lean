import Zenbite.Zas.Line

/-! The two passes, the fixups and the ELF file (zas.c). -/

namespace Zenbite.Zas

open Memory

def srcMax : Nat := 8192

namespace Asm

/-- The while loop of run_pass; `k` is the fuel of the loops inside. -/
def lines (k : Nat) (pass : Pass) : Nat → Asm → Option Asm
  | 0, _ => none
  | n + 1, st =>
    if cur st.lexP = 0 then some st
    else do
      let (more, st) ← st.assembleLine pass k
      if more then lines k pass n st else some st

/-- The start of a pass. -/
def begin (pass : Pass) (src : Text) (st : Asm) : Asm :=
  match pass with
  | .one =>
    { st with lexP := src, curSec := .text, outPos := 0, dataOutStart := 0, textSize := 0, dataSize := 0, bssSize := 0 }
  | .two => { st with lexP := src, curSec := .text, outPos := 0, dataOutStart := st.textSize }

/-- The end of a pass. -/
def close (st : Asm) : Asm :=
  match st.curSec with
  | .text => { st with textSize := st.pos }
  | .data => { st with dataSize := st.pos - st.dataOutStart }
  | .bss => st

def runPass (n : Nat) (pass : Pass) (src : Text) (st : Asm) : Option Asm :=
  ((st.begin pass src).lines n pass n).map close

/-- One round of apply_fixups: the patched output, and the names it could not find. -/
def applyFixup (st : Asm) (r : Buffer × List Text) (fx : Fixup) : Buffer × List Text :=
  match st.labelFind fx.name with
  | none => (r.1, r.2 ++ [fx.name])
  | some addr =>
    let val := if fx.isRel then addr - fx.base else addr
    (if fx.outOffset + 4 ≤ outMax then writeLe32 r.1 fx.outOffset val.toNat else r.1, r.2)

def applyFixups (st : Asm) : Buffer × List Text := st.fixups.foldl st.applyFixup (st.out, [])

/-- What zas_assemble starts from; `mem` is the memory behind zas_out. -/
def start (mem : Buffer) : Asm where
  lexP := []
  out := splice mem 0 outMax fun _ => 0
  outPos := 0
  labels := []
  fixups := []
  curSec := .text
  textSize := 0
  dataSize := 0
  bssSize := 0
  dataOutStart := 0
  entry := textVma
  entrySet := false
  defs := []

end Asm

def ehdrSize : Nat := 52
def phdrSize : Nat := 32

/-- What zas_assemble leaves: the states at the end of the passes, the output with its
fixups, and the labels reported as undefined. -/
structure Assembled where
  first : Asm
  second : Asm
  out : Buffer
  unresolved : List Text

/-- `zas_assemble` on a source that it has read; `none` while the fuel is too little. -/
def assemble (n : Nat) (mem : Buffer) (src : Text) : Option Assembled := do
  let first ← (Asm.start mem).runPass n .one src
  let second ← { first with fixups := [] }.runPass n .two src
  let (out, unresolved) := second.applyFixups
  some ⟨first, second, out, unresolved⟩

end Zenbite.Zas
