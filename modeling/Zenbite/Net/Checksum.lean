import Zenbite.Net.Ping

/-! The Internet checksum: with the checksum field filled in, the words of a message
add up to all ones, so the receiver's sum is 0. -/

namespace Zenbite.Net

open Memory Reads Frame

/-- `while (sum >> 16) sum = (sum & 0xFFFF) + (sum >> 16);` -/
def foldCarries (sum : Nat) : Nat :=
  if sum / 2 ^ 16 = 0 then sum else foldCarries (carry sum)
termination_by sum
decreasing_by
  simp only [carry]
  omega

/-- On a 32-bit sum the loop takes two rounds at most. -/
theorem foldCarries_eq {sum : Nat} (word : sum < 2 ^ 32) : foldCarries sum = carry (carry sum) := by
  have same : ∀ {s : Nat}, s / 2 ^ 16 = 0 → carry s = s := by
    intro s small
    simp only [carry]
    omega
  rw [foldCarries]
  split
  next small => rw [same small, same small]
  next =>
    rw [foldCarries]
    split
    next small => rw [same small]
    next =>
      rw [foldCarries, if_pos]
      simp only [carry]
      omega

/-- A byte counts for less than a full word. -/
theorem wordSum_le (bytes : List UInt8) : wordSum bytes ≤ 0xFFFF * bytes.length := by
  induction bytes using wordSum.induct with
  | case1 a b rest ih =>
      have high := a.toNat_lt
      have low := b.toNat_lt
      simp only [wordSum, List.length_cons]
      omega
  | case2 a =>
      have high := a.toNat_lt
      simp only [wordSum, List.length_singleton]
      omega
  | case3 => exact Nat.le_refl 0

/-- The loop of ip_checksum gives the same: up to 64 KiB the 32-bit sum does not wrap. -/
theorem ipChecksum_loop {bytes : List UInt8} (fits : bytes.length ≤ 2 ^ 16) :
    ipChecksum bytes = 0xFFFF - foldCarries (wordSum bytes) := by
  have sum := wordSum_le bytes
  rw [foldCarries_eq (by omega), ipChecksum]

end Zenbite.Net
