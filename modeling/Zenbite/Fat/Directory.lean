import Zenbite.Fat.TableMap

/-! Directories (fat.c): cluster I/O, the two kinds of root, entry slots of 32
bytes, lookup and the two ways of storing an entry. -/

namespace Zenbite.Fat

open Memory VolState

variable {δ : Type} [Device δ]

def readCluster (c : Nat) (buf : Buffer) (s : VolState δ) : Int × Buffer × VolState δ :=
  (s.useBuffer s.vol.clusterBytes clusterBuf).diskRead (s.vol.clusterToLba c) s.vol.secPerCluster buf

def writeCluster (c : Nat) (buf : Buffer) (s : VolState δ) : Int × VolState δ :=
  (s.useBuffer s.vol.clusterBytes clusterBuf).diskWrite (s.vol.clusterToLba c) s.vol.secPerCluster
    buf

def flushRoot (s : VolState δ) : Int × VolState δ :=
  if s.vol.rootDirty = false then (0, s)
  else
    let w := s.diskWrite s.vol.rootLba s.vol.rootSizeSec s.vol.root
    if w.1 < 0 then (-1, w.2) else (0, w.2.modVol (·.rootClean))

theorem flushRoot_traffic (s : VolState δ) : Device.Traffic True s.disk (flushRoot s).2.disk := by
  simp only [flushRoot]
  split
  · exact .idle
  · split <;> exact .write trivial _ _ _ .idle

/-- `toupper`. -/
def toUpper (c : UInt8) : UInt8 := if 97 ≤ c ∧ c ≤ 122 then c - 32 else c

/-! `struct dirent_raw`: the 32 bytes from a slot's start. -/

def attrVol : UInt8 := 0x08
def attrDir : UInt8 := 0x10
def attrArc : UInt8 := 0x20
def deletedMark : UInt8 := 0xE5

/-- Slot `i` of a directory buffer. -/
def slot (buf : Buffer) (i : Nat) : Buffer := window buf (i * 32)

namespace Dirent

def hasAttr (e : Buffer) (flag : UInt8) : Bool := e 11 &&& flag != 0

def name (e : Buffer) : List UInt8 := (List.range 11).map e

def cluster (kind : FatKind) (e : Buffer) : Nat :=
  if kind = .fat32 then readLe16 e 20 * 2 ^ 16 + readLe16 e 26 else readLe16 e 26

def setCluster (kind : FatKind) (e : Buffer) (c : Nat) : Buffer :=
  writeLe16 (writeLe16 e 26 (c % 2 ^ 16)) 20 (if kind = .fat32 then c / 2 ^ 16 % 2 ^ 16 else 0)

def size (e : Buffer) : Nat := readLe32 e 28

def setSize (e : Buffer) (n : Nat) : Buffer := writeLe32 e 28 n

/-- An entry with the given name and attributes, everything else zero. -/
def make (name : List UInt8) (attr : UInt8) : Buffer := fun i =>
  if i < 11 then name.getD i 0 else if i = 11 then attr else 0

/-- Neither unused nor deleted nor a volume label. -/
def Live (e : Buffer) : Prop := e 0 ≠ 0 ∧ e 0 ≠ deletedMark ∧ hasAttr e attrVol = false

instance (e : Buffer) : Decidable (Live e) := inferInstanceAs (Decidable (_ ∧ _ ∧ _))

end Dirent

theorem Dirent.cluster_congr (kind : FatKind) {a b : Buffer} (agree : ∀ k, k < 32 → a k = b k) :
    Dirent.cluster kind a = Dirent.cluster kind b := by
  have high := readLe16_congr (i := 20) (j := 20) fun k _ => agree (20 + k) (by omega)
  have low := readLe16_congr (i := 26) (j := 26) fun k _ => agree (26 + k) (by omega)
  simp only [Dirent.cluster, high, low]

/-- `dir_cluster == 0` names the fixed root, or the first cluster of a FAT32 root. -/
def FatVolume.dirCluster (v : FatVolume) (d : Nat) : Nat := if d = 0 then v.rootDirCluster else d

def FatVolume.FixedRoot (v : FatVolume) (d : Nat) : Prop := d = 0 ∧ v.kind ≠ .fat32

instance (v : FatVolume) (d : Nat) : Decidable (v.FixedRoot d) := inferInstanceAs (Decidable (_ ∧ _))

/-- The directory's bytes and their number; only the first cluster of a chain. -/
def loadDir (d : Nat) (s : VolState δ) : Option (Buffer × Nat) × VolState δ :=
  if s.vol.FixedRoot d then (some (s.vol.root, s.vol.rootSizeSec * sectorSize), s)
  else
    let r := readCluster (s.vol.dirCluster d) (fun _ => 0) s
    if r.1 < 0 then (none, r.2.2) else (some (r.2.1, s.vol.clusterBytes), r.2.2)

/-- For the fixed root the buffer is the cache itself: it changes even when the
flush fails. -/
def storeDir (d : Nat) (buf : Buffer) (s : VolState δ) : Int × VolState δ :=
  if s.vol.FixedRoot d then flushRoot (s.modVol (·.rootWrite buf))
  else writeCluster (s.vol.dirCluster d) buf s

/-- The loop of find_in_dir over the slots `i, i+1, ..`; `n` of them are left. -/
def findFrom (buf : Buffer) (name83 : List UInt8) : Nat → Nat → Option Nat
  | 0, _ => none
  | n + 1, i =>
    if slot buf i 0 = 0 then none
    else if slot buf i 0 = deletedMark ∨ Dirent.hasAttr (slot buf i) attrVol = true then
      findFrom buf name83 n (i + 1)
    else if Dirent.name (slot buf i) = name83 then some i
    else findFrom buf name83 n (i + 1)

/-- The entry and its byte offset. -/
def findInDir (d : Nat) (name83 : List UInt8) (s : VolState δ) : Option (Buffer × Nat) × VolState δ :=
  let r := loadDir d s
  match r.1 with
  | none => (none, r.2)
  | some (buf, size) => ((findFrom buf name83 (size / 32) 0).map fun i => (slot buf i, i * 32), r.2)

/-- The first slot that is unused or deleted. -/
def freeFromSlot (buf : Buffer) : Nat → Nat → Option Nat
  | 0, _ => none
  | n + 1, i =>
    if slot buf i 0 = 0 ∨ slot buf i 0 = deletedMark then some i else freeFromSlot buf n (i + 1)

/-- No caller looks at `*out_off`. -/
def dirAddEntry (d : Nat) (src : Buffer) (s : VolState δ) : Int × VolState δ :=
  let r := loadDir d s
  match r.1 with
  | none => (-1, r.2)
  | some (buf, size) =>
    match freeFromSlot buf (size / 32) 0 with
    | none => (-1, r.2)
    | some i => storeDir d (splice buf (i * 32) 32 src) r.2

def dirUpdateEntry (d off : Nat) (e : Buffer) (s : VolState δ) : Int × VolState δ :=
  let r := loadDir d s
  match r.1 with
  | none => (-1, r.2)
  | some (buf, size) =>
    if size < off + 32 then (-1, r.2) else storeDir d (splice buf off 32 e) r.2

/-! Looking things up only reads. -/

/-- `t` is `s` after disk reads into other buffers than those of `*v`. -/
structure Reads (s t : VolState δ) : Prop where
  vol : t.vol = s.vol
  taken : t.taken = s.taken
  traffic : Device.Traffic False s.disk t.disk

theorem Reads.refl (s : VolState δ) : Reads s s := ⟨rfl, rfl, .idle⟩

theorem Reads.trans {s t u : VolState δ} (first : Reads s t) (second : Reads t u) : Reads s u :=
  ⟨second.vol.trans first.vol, second.taken.trans first.taken, first.traffic.trans second.traffic⟩

theorem loadDir_reads (d : Nat) (s : VolState δ) : Reads s (loadDir d s).2 := by
  simp only [loadDir]
  split
  · exact .refl s
  · split <;> exact ⟨rfl, rfl, .read _ _ _ .idle⟩

theorem findInDir_reads (d : Nat) (name83 : List UInt8) (s : VolState δ) :
    Reads s (findInDir d name83 s).2 := by
  simp only [findInDir]
  split <;> exact loadDir_reads d s

end Zenbite.Fat
