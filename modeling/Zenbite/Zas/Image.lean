import Mathlib.Data.List.GetD
import Zenbite.Zas.Tally
import Zenbite.Zas.Terminates

/-! The sizes in the program header (zas.c): the first pass counts the data from the start
of the output, and the reserved bytes are counted in both passes. -/

namespace Zenbite.Zas

open Memory

/-- A section directive, at a position of the output. -/
structure Change where
  source : Section
  target : Section
  pos : Nat

def Op.target : Op → Option Section
  | enter target => some target
  | _ => none

/-- The section directives among the operations. -/
def changes (sec : Section) (pos : Nat) : List Op → List Change
  | [] => []
  | op :: ops =>
    match op.target with
    | some target => ⟨sec, target, pos⟩ :: changes target pos ops
    | none => changes sec (min outMax (pos + op.bytes)) ops

/-- A pass as a whole: the section at its end, the length of its output, where the text was
left last, and where the data was left last for the bss; the end of the pass leaves its
section too. -/
structure Layout where
  final : Section
  length : Nat
  textEnd : Nat
  dataEnd : Nat

section Sizes
variable {pass : Pass} {st : Asm}

/-- The variables that only a section directive changes. -/
structure SameSizes (st st' : Asm) : Prop where
  curSec : st'.curSec = st.curSec
  textSize : st'.textSize = st.textSize
  dataSize : st'.dataSize = st.dataSize
  dataOutStart : st'.dataOutStart = st.dataOutStart

/-- The sizes noted so far, as positions of the output. -/
structure Noted (st : Asm) (textEnd dataEnd : Nat) : Prop where
  start : st.dataOutStart = 0
  textSize : st.textSize = BitVec.ofNat 32 textEnd
  dataSize : st.dataSize = BitVec.ofNat 32 dataEnd

theorem SameSizes.noted {st' : Asm} {textEnd dataEnd : Nat} (same : SameSizes st st') (noted : Noted st textEnd dataEnd) :
    Noted st' textEnd dataEnd :=
  ⟨same.dataOutStart.trans noted.start, same.textSize.trans noted.textSize, same.dataSize.trans noted.dataSize⟩

theorem enter_two (target : Section) : st.enter .two target = { st with curSec := target } := by
  cases target with
  | text => rfl
  | data => rw [Asm.enter, if_neg fun both => Pass.noConfusion both.1]
  | bss => rw [Asm.enter, if_neg fun one => Pass.noConfusion one]

end Sizes

/-! The ends of the passes. -/

section Passes
variable {st : Asm} {n : Nat} {src : Text}

end Passes

/-! The file. -/

/-- A word of the file. -/
def wordAt (file : List UInt8) (off : Nat) : Nat := readLe32 (fun i => file.getD i 0) off

section File
variable (st : Asm) (out : Buffer)

end File

def filesz (file : List UInt8) : Nat := wordAt file (ehdrSize + 16)

def memsz (file : List UInt8) : Nat := wordAt file (ehdrSize + 20)

end Zenbite.Zas
