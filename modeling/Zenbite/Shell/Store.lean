import Mathlib.Logic.Function.Basic

/-! Files as programs see them through fs_* (fat.c): a directory maps 8.3 names to
entries, and the chain of a file is the list of its bytes. What a call does when a
disk access fails or space runs out is told by its `Luck`. -/

namespace Zenbite.Shell

/-- A slot of a directory: the directory (volume and first cluster) and the 8.3 name. -/
structure Place where
  dir : Nat
  name : Nat
  deriving DecidableEq, Repr

inductive Entry where
  | file (bytes : List UInt8)
  | subdir
  deriving DecidableEq, Repr

/-- What walk_path makes of a path: no directory to look in, one of the markers
"", "." and "..", or a name in a directory. -/
inductive Target where
  | nowhere
  | marker (dir : Nat)
  | leaf (place : Place)
  deriving DecidableEq, Repr

/-- How a call goes: a failure may come before the directory is changed, or after. -/
inductive Luck where
  | works | early | late
  deriving DecidableEq, Repr

/-- A path is one of `Path`; the calls here make and remove files, so it keeps its target. -/
structure Store (Path : Type) where
  target : Path → Target
  entry : Place → Option Entry

namespace Store

variable {Path : Type}

def put (s : Store Path) (p : Place) (e : Option Entry) : Store Path :=
  { s with entry := Function.update s.entry p e }

@[simp] theorem put_same (s : Store Path) (p : Place) (e : Option Entry) :
    (s.put p e).entry p = e := by
  simp only [put, Function.update_self]

/-- The slot of a file that a path names, with the bytes. -/
def fileAt (s : Store Path) (path : Path) : Option (Place × List UInt8) :=
  match s.target path with
  | .leaf p =>
    match s.entry p with
    | some (.file bytes) => some (p, bytes)
    | _ => none
  | _ => none

theorem fileAt_eq_some {s : Store Path} {path : Path} {p : Place} {bytes : List UInt8} :
    s.fileAt path = some (p, bytes) ↔ s.target path = .leaf p ∧ s.entry p = some (.file bytes) := by
  rw [fileAt]
  split
  next q found =>
    rw [found, Target.leaf.injEq]
    split
    next held there =>
      rw [Option.some.injEq, Prod.mk.injEq]
      constructor
      · rintro ⟨rfl, rfl⟩
        exact ⟨rfl, there⟩
      · rintro ⟨rfl, same⟩
        rw [there, Option.some.injEq, Entry.file.injEq] at same
        exact ⟨rfl, same⟩
    next absent =>
      constructor
      · intro found
        cases found
      · rintro ⟨rfl, there⟩
        exact absurd there (absent bytes)
  next other =>
    constructor
    · intro found
      cases found
    · exact fun found => absurd found.1 (other p)

theorem fileAt_put {s : Store Path} {path : Path} {p : Place} (target : s.target path = .leaf p)
    (bytes : List UInt8) : (s.put p (some (.file bytes))).fileAt path = some (p, bytes) :=
  fileAt_eq_some.mpr ⟨target, put_same s p _⟩

/-- fs_create -/
def create (luck : Luck) (path : Path) (s : Store Path) : Int × Store Path :=
  match s.target path with
  | .leaf p =>
    if s.entry p ≠ none then (-1, s)
    else
      match luck with
      | .works => (0, s.put p (some (.file [])))
      | .early => (-1, s)
      | .late => (-1, s.put p (some (.file [])))
  | _ => (-1, s)

theorem create_used (how : Luck) {path : Path} {s : Store Path}
    (used : ∀ p, s.target path = .leaf p → s.entry p ≠ none) : s.create how path = (-1, s) := by
  rw [create]
  split
  next p target => exact if_pos (used p target)
  next => rfl

theorem create_free (how : Luck) {path : Path} {s : Store Path} {p : Place}
    (target : s.target path = .leaf p) (free : s.entry p = none) :
    s.create how path =
      (if how = .works then 0 else -1, if how = .early then s else s.put p (some (.file []))) := by
  simp only [create, target, free]
  cases how <;> rfl

/-- fs_unlink. `left` is what the file reads as afterwards where the entry stays: its
bytes as they were, or others if its chain was already freed. -/
def unlink (left : Option (List UInt8)) (path : Path) (s : Store Path) : Int × Store Path :=
  match s.fileAt path with
  | none => (-1, s)
  | some (p, _) =>
    match left with
    | none => (0, s.put p none)
    | some bytes => (-1, s.put p (some (.file bytes)))

/-- fs_rename has a new name in the same directory to give, a marker included. -/
def Renames (s : Store Path) (p : Place) (new : Path) : Prop :=
  match s.target new with
  | .nowhere => False
  | .marker dir => dir = p.dir
  | .leaf q => s.entry q = none ∧ q.dir = p.dir

instance (s : Store Path) (p : Place) (new : Path) : Decidable (s.Renames p new) := by
  unfold Renames
  cases s.target new <;> infer_instance

/-- The new name is written over the old one. Under a marker's name no path finds it. -/
def renamed (s : Store Path) (p : Place) (new : Path) : Store Path :=
  match s.target new with
  | .leaf q => (s.put p none).put q (s.entry p)
  | _ => s.put p none

/-- fs_rename -/
def rename (luck : Luck) (old new : Path) (s : Store Path) : Int × Store Path :=
  match s.target old with
  | .leaf p =>
    if s.entry p = none ∨ ¬s.Renames p new then (-1, s)
    else
      match luck with
      | .works => (0, s.renamed p new)
      | .early => (-1, s)
      | .late => (-1, s.renamed p new)
  | _ => (-1, s)

/-- A file after fs_write at `pos`: what lies behind the new bytes stays. -/
def overwritten (old : List UInt8) (pos : Nat) (new : List UInt8) : List UInt8 :=
  old.take pos ++ new ++ old.drop (pos + new.length)

end Store

end Zenbite.Shell
