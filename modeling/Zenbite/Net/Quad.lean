import Zenbite.Net.Tcp
import Zenbite.Printf

/-! Dotted quads: ip4_parse and ip4_format (net.c). -/

namespace Zenbite.Net

open Memory
open Zbc (emitUint)

def htonl (x : Nat) : Nat :=
  x % 2 ^ 8 * 2 ^ 24 + x / 2 ^ 8 % 2 ^ 8 * 2 ^ 16 + x / 2 ^ 16 % 2 ^ 8 * 2 ^ 8 + x / 2 ^ 24 % 2 ^ 8

def isDigit (c : UInt8) : Bool := 48 ≤ c && c ≤ 57

/-- The text that ip4_format leaves in 16 bytes. -/
def ip4Format (a : Nat) : List UInt8 :=
  let v := htonl a
  (emitUint 10 (v / 2 ^ 24 % 2 ^ 8) ++ 46 :: (emitUint 10 (v / 2 ^ 16 % 2 ^ 8) ++
    46 :: (emitUint 10 (v / 2 ^ 8 % 2 ^ 8) ++ 46 :: emitUint 10 (v % 2 ^ 8)))).take 15

/-! Runs of digits -/

def numeral (digits : List UInt8) : Nat := digits.foldl (fun n c => n * 10 + (c.toNat - 48)) 0

/-- Runs with a dot between them, and what comes behind. -/
def joinDots : List (List UInt8) → List UInt8 → List UInt8
  | [], rest => rest
  | [r], rest => r ++ rest
  | r :: runs, rest => r ++ 46 :: joinDots runs rest

def NoDigit (rest : List UInt8) : Prop := ∀ c ∈ rest.head?, isDigit c = false

instance : DecidablePred NoDigit := fun _ => inferInstanceAs (Decidable (∀ _ ∈ _, _))

/-- The string starts with runs of digits, maybe empty, that dots keep apart. -/
structure Cut (s : List UInt8) (runs : List (List UInt8)) (rest : List UInt8) : Prop where
  whole : s = joinDots runs rest
  digits : ∀ r ∈ runs, ∀ c ∈ r, isDigit c = true
  ends : NoDigit rest

theorem noDigit_dot (s : List UInt8) : NoDigit (46 :: s) := by
  intro c first
  cases Option.some.inj first
  rfl

theorem joinDots_cons {r : List UInt8} {runs : List (List UInt8)} (more : runs ≠ []) (rest : List UInt8) :
    joinDots (r :: runs) rest = r ++ 46 :: joinDots runs rest := by
  cases runs with
  | nil => exact absurd rfl more
  | cons => rfl

/-- The word of the numbers read, the first one highest. -/
def packed (v : Nat) (runs : List (List UInt8)) : Nat :=
  runs.foldl (fun v r => u32 (v * 2 ^ 8) + u32 (numeral r)) v

theorem cut_tail {s r : List UInt8} {runs : List (List UInt8)} {rest : List UInt8} (more : runs ≠ [])
    (cut : Cut s (r :: runs) rest) : ∃ t, s = r ++ 46 :: t ∧ Cut t runs rest :=
  ⟨joinDots runs rest, cut.whole.trans (joinDots_cons more rest), rfl,
    fun q member => cut.digits q (List.mem_cons_of_mem r member), cut.ends⟩

/-- A string has one cut into a given number of runs. -/
theorem Cut.unique {runs : List (List UInt8)} : ∀ {s rest : List UInt8} {runs' : List (List UInt8)}
    {rest' : List UInt8}, Cut s runs rest → Cut s runs' rest' → runs.length = runs'.length →
      runs ≠ [] → runs = runs' ∧ rest = rest' := by
  induction runs with
  | nil => exact fun _ _ _ none => absurd rfl none
  | cons r runs ih =>
      intro s rest runs' rest' cut cut' same _
      obtain ⟨r', runs', rfl⟩ : ∃ r' tl, runs' = r' :: tl := by
        cases runs' with
        | nil => cases same
        | cons r' tl => exact ⟨r', tl, rfl⟩
      have fewer : runs.length = runs'.length := Nat.succ.inj same
      have front : ∀ {digits rest : List UInt8}, (∀ c ∈ digits, isDigit c = true) → NoDigit rest →
          (digits ++ rest).takeWhile isDigit = digits ∧ (digits ++ rest).dropWhile isDigit = rest := by
        intro digits rest all ends
        rw [List.takeWhile_append_of_pos all, List.dropWhile_append_of_pos all]
        cases rest with
        | nil => exact ⟨List.append_nil _, rfl⟩
        | cons c rest =>
            rw [List.takeWhile_cons, List.dropWhile_cons, ends c rfl]
            exact ⟨List.append_nil _, rfl⟩
      have all := cut.digits r List.mem_cons_self
      have all' := cut'.digits r' List.mem_cons_self
      by_cases last : runs = []
      · obtain rfl : runs' = [] := List.eq_nil_of_length_eq_zero (by rw [← fewer, last]; rfl)
        subst last
        have one := front all cut.ends
        have two := front all' cut'.ends
        have eq : r ++ rest = r' ++ rest' := cut.whole.symm.trans cut'.whole
        rw [eq] at one
        exact ⟨congrArg (List.cons · []) (one.1.symm.trans two.1), one.2.symm.trans two.2⟩
      · have more' : runs' ≠ [] := fun none => last (List.eq_nil_of_length_eq_zero (by rw [fewer, none]; rfl))
        obtain ⟨t, whole, rest_cut⟩ := cut_tail last cut
        obtain ⟨t', whole', rest_cut'⟩ := cut_tail more' cut'
        have one := front all (noDigit_dot t)
        have two := front all' (noDigit_dot t')
        rw [whole.symm.trans whole'] at one
        have head : r = r' := one.1.symm.trans two.1
        have tail : t = t' := (List.cons.inj (one.2.symm.trans two.2)).2
        subst head tail
        obtain ⟨runs_eq, rest_eq⟩ := ih rest_cut rest_cut' fewer last
        exact ⟨congrArg (List.cons r) runs_eq, rest_eq⟩

theorem digit_char {c : Char} (digit : c.isDigit = true) :
    isDigit c.toNat.toUInt8 = true ∧ c.toNat.toUInt8.toNat = c.toNat := by
  have range : 48 ≤ c.toNat ∧ c.toNat ≤ 57 := Char.isDigit_iff_toNat.mp digit
  have value : c.toNat.toUInt8.toNat = c.toNat := by
    rw [UInt8.toNat_ofNat']
    omega
  refine ⟨?_, value⟩
  rw [isDigit, Bool.and_eq_true, decide_eq_true_eq, decide_eq_true_eq, UInt8.le_iff_toNat_le,
    UInt8.le_iff_toNat_le, value]
  exact range

theorem octet_text {n : Nat} (small : n < 2 ^ 8) : (emitUint 10 n).length ≤ 3 ∧
    ∀ c ∈ emitUint 10 n, isDigit c = true := by
  constructor
  · rw [emitUint, List.length_map, Nat.length_toDigits_le_iff (by decide) (by decide)]
    omega
  · intro c member
    obtain ⟨d, inside, rfl⟩ := List.mem_map.mp member
    exact (digit_char (Nat.isDigit_of_mem_toDigits (by decide) (by decide) inside)).1

def octets (v : Nat) : List Nat := [v / 2 ^ 24 % 2 ^ 8, v / 2 ^ 16 % 2 ^ 8, v / 2 ^ 8 % 2 ^ 8, v % 2 ^ 8]

theorem octets_lt (v : Nat) : ∀ n ∈ octets v, n < 2 ^ 8 := by
  simp only [octets, List.forall_mem_cons]
  refine ⟨?_, ?_, ?_, ?_, fun _ none => absurd none List.not_mem_nil⟩
  all_goals exact Nat.mod_lt _ (by decide)

theorem joined_short {a b c d : List UInt8} (ha : a.length ≤ 3) (hb : b.length ≤ 3) (hc : c.length ≤ 3)
    (hd : d.length ≤ 3) : (a ++ 46 :: (b ++ 46 :: (c ++ 46 :: d))).length ≤ 15 := by
  simp only [List.length_append, List.length_cons]
  omega

/-- The buffer of 16 bytes has room for every address. -/
theorem ip4Format_whole (a : Nat) :
    ip4Format a = joinDots ((octets (htonl a)).map (emitUint 10)) [] := by
  have short : ∀ n ∈ octets (htonl a), (emitUint 10 n).length ≤ 3 :=
    fun n member => (octet_text (octets_lt _ n member)).1
  simp only [octets, List.forall_mem_cons] at short
  obtain ⟨short₀, short₁, short₂, short₃, -⟩ := short
  simp only [ip4Format, octets, List.map_cons, List.map_nil, joinDots, List.append_nil]
  exact List.take_of_length_le (joined_short short₀ short₁ short₂ short₃)

theorem dot_plain : (46 : UInt8) ≠ 0 ∧ (46 : UInt8) ≠ 37 := by decide

/-- "%u.%u.%u.%u" with its arguments. -/
def quadPieces (v : Nat) : List Printf.Piece :=
  ((octets v).map fun n => .conv .bare (.uint (BitVec.ofNat 32 n))).intersperse (.plain 46 dot_plain)

theorem octet_emitted {v n : Nat} (member : n ∈ octets v) :
    Printf.Piece.emitted (.conv .bare (.uint (BitVec.ofNat 32 n))) = emitUint 10 n := by
  have small := octets_lt v n member
  have value : (BitVec.ofNat 32 n).toNat = n := by
    rw [BitVec.toNat_ofNat]
    omega
  rw [Printf.Piece.emitted, Printf.Conv.emitted, value]
  exact Printf.justified_bare _

theorem quadPieces_emitted (v : Nat) :
    (quadPieces v).flatMap Printf.Piece.emitted = joinDots ((octets v).map (emitUint 10)) [] := by
  have field (n : Nat) (member : n ∈ octets v) := octet_emitted member
  simp only [octets, List.forall_mem_cons] at field
  obtain ⟨first, second, third, fourth, -⟩ := field
  simp only [quadPieces, octets, List.map_cons, List.map_nil, joinDots, List.append_nil,
    List.intersperse_cons_cons, List.intersperse_singleton, List.flatMap_cons, List.flatMap_nil, first, second, third, fourth]
  rfl

/-- ksnprintf prints it into the 16 bytes. -/
theorem ip4Format_prints (a : Nat) (buf : Buffer) :
    Printf.ksnprintf buf 16 [37, 117, 46, 37, 117, 46, 37, 117, 46, 37, 117]
        ((octets (htonl a)).map fun n => .uint (BitVec.ofNat 32 n)) =
      some (poke buf 0 (ip4Format a ++ [0]), wrapInt (ip4Format a).length) := by
  have printed := Printf.ksnprintf_eq (quadPieces (htonl a)) [] buf (show 0 < 16 by decide)
  have short : (ip4Format a).length ≤ 15 := List.length_take_le _ _
  rw [quadPieces_emitted, ← ip4Format_whole, List.take_of_length_le short, Nat.min_eq_left short] at printed
  exact printed

end Zenbite.Net
