import Zenbite.Fat.Directory

/-! Paths (fat.c): drive letters, 8.3 names, and the walk from a path to the
directory of its last component. -/

namespace Zenbite.Fat

open Memory VolState

/-- `drive_idx`. -/
def driveIdx (letter : UInt8) : Option Nat :=
  if toUpper letter < 65 ∨ 65 + 4 ≤ toUpper letter then none
  else some (toUpper letter - 65).toNat

def padTo (n : Nat) (bytes : List UInt8) : List UInt8 := bytes ++ List.replicate (n - bytes.length) 32

def nameTo83 (name : List UInt8) : List UInt8 :=
  let rest := name.dropWhile (· == 32)
  padTo 8 (((rest.takeWhile (· != 46)).take 8).map toUpper) ++
    padTo 3 ((((rest.dropWhile (· != 46)).drop 1).take 3).map toUpper)

def nameFrom83 (raw : List UInt8) : List UInt8 :=
  let base := (raw.take 8).takeWhile (· != 32)
  let ext := ((raw.drop 8).take 3).takeWhile (· != 32)
  if raw.getD 8 0 ≠ 32 then base ++ 46 :: ext else base

def dotName : List UInt8 := padTo 11 [46]
def dotdotName : List UInt8 := padTo 11 [46, 46]

/-! Components. -/

def isSeparator (c : UInt8) : Bool := c == 92 || c == 47

/-- The next component, cut to 12 bytes, and the rest of the path. -/
def splitNext (path : List UInt8) : Option (List UInt8 × List UInt8) :=
  let rest := path.dropWhile isSeparator
  if rest = [] then none
  else some ((rest.takeWhile (!isSeparator ·)).take 12, rest.dropWhile (!isSeparator ·))

/-- Every component takes at least one byte, so the length is fuel enough. -/
def componentsFrom : Nat → List UInt8 → List (List UInt8)
  | 0, _ => []
  | n + 1, path =>
    match splitNext path with
    | none => []
    | some (comp, rest) => comp :: componentsFrom n rest

def components (path : List UInt8) : List (List UInt8) := componentsFrom path.length path

def isAbsolute (path : List UInt8) : Bool :=
  match path with
  | [] => false
  | c :: _ => isSeparator c

/-- `none` for a letter that is no drive; the inner `none` for the current drive. -/
def parseDrive (path : List UInt8) : Option (Option Nat × List UInt8) :=
  match path with
  | letter :: 58 :: rest => (driveIdx letter).map fun d => (some d, rest)
  | _ => some (none, path)

/-! The walk on one volume. -/

section Walk
variable {δ : Type} [Device δ]

/-- The cluster that ".." of a directory leads to; a directory without one, or
one that cannot be read, stays. -/
def parentOf (cluster : Nat) (s : VolState δ) : Nat × VolState δ :=
  if cluster = 0 then (cluster, s)
  else
    let r := findInDir cluster dotdotName s
    match r.1 with
    | none => (cluster, r.2)
    | some (e, _) => (Dirent.cluster r.2.vol.kind e, r.2)

/-- One component on the way. -/
def enterDir (comp : List UInt8) (cluster : Nat) (s : VolState δ) : Option Nat × VolState δ :=
  if comp = [46] then (some cluster, s)
  else if comp = [46, 46] then
    let r := parentOf cluster s
    (some r.1, r.2)
  else
    let r := findInDir cluster (nameTo83 comp) s
    match r.1 with
    | none => (none, r.2)
    | some (e, _) =>
      if Dirent.hasAttr e attrDir then (some (Dirent.cluster r.2.vol.kind e), r.2) else (none, r.2)

def enterDirs : List (List UInt8) → Nat → VolState δ → Option Nat × VolState δ
  | [], cluster, s => (some cluster, s)
  | comp :: comps, cluster, s =>
    let r := enterDir comp cluster s
    match r.1 with
    | none => (none, r.2)
    | some next => enterDirs comps next r.2

/-- `struct walk_result` without the volume: parent directory, name of the leaf,
and the leaf's entry with its byte offset if it was found. -/
structure Leaf where
  parent : Nat
  name : List UInt8
  entry : Option (Buffer × Nat)

/-- The last component. "." and ".." are never looked up as a leaf. -/
def walkLeaf (comp : List UInt8) (allowMissing : Bool) (cluster : Nat) (s : VolState δ) :
    Option Leaf × VolState δ :=
  if comp = [46] then (some ⟨cluster, dotName, none⟩, s)
  else if comp = [46, 46] then
    let r := parentOf cluster s
    (some ⟨r.1, dotdotName, none⟩, r.2)
  else
    let r := findInDir cluster (nameTo83 comp) s
    match r.1 with
    | none => (if allowMissing then some ⟨cluster, nameTo83 comp, none⟩ else none, r.2)
    | some found => (some ⟨cluster, nameTo83 comp, some found⟩, r.2)

def FatVolume.startDir (v : FatVolume) (absolute : Bool) : Nat :=
  if absolute ∨ v.cwdIsRoot then 0 else v.cwdCluster

/-- walk_path behind the drive prefix. -/
def walkVolume (path : List UInt8) (allowMissing : Bool) (s : VolState δ) :
    Option Leaf × VolState δ :=
  let start := s.vol.startDir (isAbsolute path)
  match (components path).getLast? with
  | none => (some ⟨start, padTo 11 [], none⟩, s)
  | some last =>
    let r := enterDirs (components path).dropLast start s
    match r.1 with
    | none => (none, r.2)
    | some cluster => walkLeaf last allowMissing cluster r.2

theorem parentOf_reads (cluster : Nat) (s : VolState δ) : Reads s (parentOf cluster s).2 := by
  simp only [parentOf]
  split
  · exact .refl s
  · split <;> exact findInDir_reads cluster dotdotName s

theorem enterDir_reads (comp : List UInt8) (cluster : Nat) (s : VolState δ) :
    Reads s (enterDir comp cluster s).2 := by
  simp only [enterDir]
  split
  · exact .refl s
  split
  · exact parentOf_reads cluster s
  · split
    · exact findInDir_reads cluster _ s
    · split <;> exact findInDir_reads cluster _ s

theorem enterDirs_reads (comps : List (List UInt8)) (cluster : Nat) (s : VolState δ) :
    Reads s (enterDirs comps cluster s).2 := by
  induction comps generalizing cluster s with
  | nil => exact .refl s
  | cons comp comps ih =>
      simp only [enterDirs]
      split
      · exact enterDir_reads comp cluster s
      · exact (enterDir_reads comp cluster s).trans (ih _ _)

theorem walkLeaf_reads (comp : List UInt8) (allowMissing : Bool) (cluster : Nat) (s : VolState δ) :
    Reads s (walkLeaf comp allowMissing cluster s).2 := by
  simp only [walkLeaf]
  split
  · exact .refl s
  split
  · exact parentOf_reads cluster s
  · split <;> exact findInDir_reads cluster _ s

/-- Resolving a path changes nothing. -/
theorem walkVolume_reads (path : List UInt8) (allowMissing : Bool) (s : VolState δ) :
    Reads s (walkVolume path allowMissing s).2 := by
  simp only [walkVolume]
  split
  · exact .refl s
  · split
    · exact enterDirs_reads _ _ s
    · exact (enterDirs_reads _ _ s).trans (walkLeaf_reads _ _ _ _)

end Walk

end Zenbite.Fat
