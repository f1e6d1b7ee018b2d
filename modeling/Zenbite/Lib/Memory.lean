import Mathlib.Logic.Function.Basic
import Mathlib.Tactic.Ring

/-! Byte memories, copies between them and little-endian words. A memory is a
function of the address; a copy names its length, so nothing outside moves. -/

namespace Zenbite.Memory

abbrev Buffer := Nat → UInt8

/-- Unsigned 32-bit wrap-around. -/
def u32 (n : Nat) : Nat := n % 2 ^ 32

theorem u32_lt (n : Nat) : u32 n < 2 ^ 32 := Nat.mod_lt _ (by decide)

theorem u32_le (n : Nat) : u32 n ≤ n := Nat.mod_le _ _

theorem u32_of_lt {n : Nat} (bound : n < 2 ^ 32) : u32 n = n := Nat.mod_eq_of_lt bound

section Copy
variable {α : Type}

/-- `memcpy(dst + start, src, len)`. -/
def splice (dst : Nat → α) (start len : Nat) (src : Nat → α) : Nat → α :=
  fun i => if start ≤ i ∧ i < start + len then src (i - start) else dst i

/-- The memory seen from `start` on. -/
def window (m : Nat → α) (start : Nat) : Nat → α := fun i => m (start + i)

theorem splice_inside (dst src : Nat → α) {start len i : Nat}
    (low : start ≤ i) (high : i < start + len) : splice dst start len src i = src (i - start) :=
  if_pos ⟨low, high⟩

theorem splice_outside (dst src : Nat → α) {start len i : Nat}
    (outside : i < start ∨ start + len ≤ i) : splice dst start len src i = dst i :=
  if_neg (by omega)

@[simp] theorem splice_zero (dst src : Nat → α) (start : Nat) : splice dst start 0 src = dst := by
  funext i
  exact splice_outside dst src (by omega)

theorem splice_add (dst src : Nat → α) {start len k : Nat} (inside : k < len) :
    splice dst start len src (start + k) = src k := by
  rw [splice_inside dst src (Nat.le_add_right _ _) (by omega), Nat.add_sub_cancel_left]

end Copy

/-! Little-endian words at a byte offset. -/

def readLe16 (b : Buffer) (off : Nat) : Nat := (b off).toNat + 2 ^ 8 * (b (off + 1)).toNat

def readLe32 (b : Buffer) (off : Nat) : Nat :=
  (b off).toNat + 2 ^ 8 * (b (off + 1)).toNat + 2 ^ 16 * (b (off + 2)).toNat +
    2 ^ 24 * (b (off + 3)).toNat

def byteOf (v k : Nat) : UInt8 := UInt8.ofNat (v / 2 ^ (8 * k))

def writeLe16 (b : Buffer) (off v : Nat) : Buffer := splice b off 2 (byteOf v)

def writeLe32 (b : Buffer) (off v : Nat) : Buffer := splice b off 4 (byteOf v)

/-- Consecutive byte assignments from `off` on. -/
def poke (b : Buffer) (off : Nat) (bytes : List UInt8) : Buffer :=
  splice b off bytes.length fun i => bytes.getD i 0

theorem poke_at (b : Buffer) {off i : Nat} {bytes : List UInt8} (bound : i < bytes.length) :
    poke b off bytes (off + i) = bytes.getD i 0 :=
  splice_add b _ bound

theorem poke_start (b : Buffer) {i : Nat} {bytes : List UInt8} (bound : i < bytes.length) :
    poke b 0 bytes i = bytes.getD i 0 := by
  have here : poke b 0 bytes (0 + i) = _ := poke_at b bound
  rwa [Nat.zero_add] at here

theorem poke_below (b : Buffer) {off i : Nat} (bytes : List UInt8) (below : i < off) :
    poke b off bytes i = b i :=
  splice_outside b _ (Or.inl below)

/-- The `n` low bytes of `v`, lowest first. -/
def bytesOf (v n : Nat) : List UInt8 := (List.range n).map (byteOf v)

theorem byteOf_toNat (v k : Nat) : (byteOf v k).toNat = v / 2 ^ (8 * k) % 256 := by
  simp only [byteOf, UInt8.toNat_ofNat']

theorem readLe16_lt (b : Buffer) (off : Nat) : readLe16 b off < 2 ^ 16 := by
  have low := (b off).toNat_lt
  have high := (b (off + 1)).toNat_lt
  simp only [readLe16]
  omega

theorem readLe32_lt (b : Buffer) (off : Nat) : readLe32 b off < 2 ^ 32 := by
  have b0 := (b off).toNat_lt
  have b1 := (b (off + 1)).toNat_lt
  have b2 := (b (off + 2)).toNat_lt
  have b3 := (b (off + 3)).toNat_lt
  simp only [readLe32]
  omega

theorem readLe16_congr {a b : Buffer} {i j : Nat}
    (agree : ∀ k, k < 2 → a (i + k) = b (j + k)) : readLe16 a i = readLe16 b j := by
  have h0 := agree 0 (by decide)
  have h1 := agree 1 (by decide)
  simp only [Nat.add_zero] at h0
  simp only [readLe16, h0, h1]

theorem readLe32_congr {a b : Buffer} {i j : Nat}
    (agree : ∀ k, k < 4 → a (i + k) = b (j + k)) : readLe32 a i = readLe32 b j := by
  have h0 := agree 0 (by decide)
  have h1 := agree 1 (by decide)
  have h2 := agree 2 (by decide)
  have h3 := agree 3 (by decide)
  simp only [Nat.add_zero] at h0
  simp only [readLe32, h0, h1, h2, h3]

theorem readLe16_write (b : Buffer) (off v : Nat) :
    readLe16 (writeLe16 b off v) off = v % 2 ^ 16 := by
  have h0 : writeLe16 b off v off = byteOf v 0 := splice_add b _ (k := 0) (by decide)
  have h1 : writeLe16 b off v (off + 1) = byteOf v 1 := splice_add b _ (by decide)
  simp only [readLe16, h0, h1, byteOf_toNat]
  omega

theorem readLe32_write (b : Buffer) (off v : Nat) :
    readLe32 (writeLe32 b off v) off = v % 2 ^ 32 := by
  have h0 : writeLe32 b off v off = byteOf v 0 := splice_add b _ (k := 0) (by decide)
  have h1 : writeLe32 b off v (off + 1) = byteOf v 1 := splice_add b _ (by decide)
  have h2 : writeLe32 b off v (off + 2) = byteOf v 2 := splice_add b _ (by decide)
  have h3 : writeLe32 b off v (off + 3) = byteOf v 3 := splice_add b _ (by decide)
  simp only [readLe32, h0, h1, h2, h3, byteOf_toNat]
  omega

theorem writeLe16_outside (b : Buffer) (v : Nat) {off i : Nat}
    (outside : i < off ∨ off + 2 ≤ i) : writeLe16 b off v i = b i :=
  splice_outside b _ outside

theorem writeLe32_outside (b : Buffer) (v : Nat) {off i : Nat}
    (outside : i < off ∨ off + 4 ≤ i) : writeLe32 b off v i = b i :=
  splice_outside b _ outside

theorem readLe16_write_ne (b : Buffer) (v : Nat) {off i : Nat}
    (apart : i + 2 ≤ off ∨ off + 2 ≤ i) : readLe16 (writeLe16 b off v) i = readLe16 b i :=
  readLe16_congr fun k bound => writeLe16_outside b v (by omega)

theorem readLe32_write_ne (b : Buffer) (v : Nat) {off i : Nat}
    (apart : i + 4 ≤ off ∨ off + 4 ≤ i) : readLe32 (writeLe32 b off v) i = readLe32 b i :=
  readLe32_congr fun k bound => writeLe32_outside b v (by omega)

end Zenbite.Memory
