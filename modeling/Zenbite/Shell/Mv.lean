import Zenbite.Shell.Store

/-! `mv` and `cpr` (builtins.c). -/

namespace Zenbite.Shell

variable {Path : Type}

/-- One round of the copy loop: the most that fs_read gives and fs_write takes, and
whether the directory entry gets the new size. -/
structure Round where
  got : Nat
  put : Nat
  recorded : Bool

/-- How the calls of one `mv` go. -/
structure MvLuck where
  rename : Luck
  openSrc : Bool
  create : Luck
  openDst : Bool
  round : Nat → Round
  unlink : Option (List UInt8)

/-- sizeof buf -/
def copyMax : Nat := 512

/-- From round `i` on, the calls carry the `left` bytes: each read gives some, each
write takes them all, and the write of the last ones records the size. -/
inductive Whole (round : Nat → Round) : Nat → Nat → Prop
  | done (i : Nat) : Whole round i 0
  | more {i left n : Nat} (read : n = min (round i).got (min copyMax left)) (some_ : 0 < n)
      (written : n ≤ (round i).put) (last : n = left → (round i).recorded = true)
      (rest : Whole round (i + 1) (left - n)) : Whole round i left

section Copy
variable {luck : MvLuck} {src dst : Path} {s : Store Path} {p : Place} {bytes : List UInt8}

/-- fs_rename gets the new name onto the disk. -/
def Moves (luck : MvLuck) (dst : Path) (s : Store Path) (p : Place) : Prop :=
  luck.rename ≠ .early ∧ s.Renames p dst

end Copy

def allWorks : MvLuck := ⟨.works, true, .works, true, fun _ => ⟨512, 512, true⟩, none⟩

end Zenbite.Shell
