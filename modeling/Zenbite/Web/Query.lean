import Zenbite.CString
import Zenbite.Lib.Percent

/-! build_google_url (desktop.c): the search URL for what was typed. -/

namespace Zenbite.Web

open Percent

/-- "http://frogfind.com/?q=" -/
def searchUrl : List UInt8 :=
  [104, 116, 116, 112, 58, 47, 47, 102, 114, 111, 103, 102, 105, 110, 100, 46, 99, 111, 109, 47, 63, 113, 61]

/-- The characters that need no escape. A char above 127 is negative, and as a byte it is
above 'z'; neither is in a range. -/
def Unreserved (ch : UInt8) : Prop :=
  65 ≤ ch ∧ ch ≤ 90 ∨ 97 ≤ ch ∧ ch ≤ 122 ∨ 48 ≤ ch ∧ ch ≤ 57 ∨ ch = 46 ∨ ch = 95 ∨ ch = 126 ∨ ch = 45

instance (ch : UInt8) : Decidable (Unreserved ch) := inferInstanceAs (Decidable (_ ∨ _))

/-- The first loop: the fixed part, as far as there is room. -/
def copyFixed (max : Int) : List UInt8 → List UInt8 → List UInt8
  | out, [] => out
  | out, c :: rest => if (out.length : Int) < max - 1 then copyFixed max (out ++ [c]) rest else out

/-- What one character of the query adds. -/
def encodeChar (ch : UInt8) : List UInt8 :=
  if ch = 32 then [43]
  else if Unreserved ch then [ch]
  else [37, hexDigit (ch >>> 4).toNat, hexDigit (ch &&& 0x0F).toNat]

/-- The second loop, over the query. -/
def encodeFrom (max : Int) : List UInt8 → List UInt8 → List UInt8
  | out, [] => out
  | out, ch :: rest => if (out.length : Int) < max - 4 then encodeFrom max (out ++ encodeChar ch) rest else out

/-- `build_google_url`: what it writes before the NUL. -/
def buildGoogleUrl (query : CString) (max : Int) : List UInt8 :=
  encodeFrom max (copyFixed max [] searchUrl) query.chars

/-- The query with nothing left out. -/
def encode (query : List UInt8) : List UInt8 := query.flatMap encodeChar

/-- The characters that stand for themselves, and the plus sign. -/
def Written (ch : UInt8) : Prop := Unreserved ch ∨ ch = 43

/-- What the URL owes: it fits with its NUL, is well formed behind the fixed part, and stands
for the start of the query; for all of it when its encoding leaves four bytes. -/
structure Carries (query : CString) (max : Int) (url text : List UInt8) : Prop where
  fits : (url.length : Int) ≤ max - 1
  split : url = searchUrl ++ text
  written : Escaped Written text
  start : ∃ n, decode text = some (query.chars.take n) ∧
    ((searchUrl.length : Int) + (encode query.chars).length + 4 ≤ max → query.chars.take n = query.chars)

section Encode

theorem encodeChar_escape {ch : UInt8} (notBlank : ch ≠ 32) (reserved : ¬ Unreserved ch) :
    encodeChar ch = escape ch := by
  have high : (ch >>> 4).toNat = ch.toNat / 16 := by
    rw [UInt8.toNat_shiftRight, Nat.shiftRight_eq_div_pow]
    rfl
  have low : (ch &&& 0x0F).toNat = ch.toNat % 16 := by
    rw [UInt8.toNat_and]
    exact Nat.and_two_pow_sub_one_eq_mod ch.toNat 4
  rw [encodeChar, if_neg notBlank, if_neg reserved, high, low, escape]

theorem encodeChar_length (ch : UInt8) : (encodeChar ch).length ≤ 3 := by
  rw [encodeChar]
  split_ifs
  · exact Nat.le_of_ble_eq_true rfl
  · exact Nat.le_of_ble_eq_true rfl
  · exact Nat.le_refl 3

theorem encodeChar_pos (ch : UInt8) : 0 < (encodeChar ch).length := by
  rw [encodeChar]
  split_ifs <;> exact Nat.succ_pos _

theorem encodeChar_escaped (ch : UInt8) : Escaped Written (encodeChar ch) := by
  by_cases blank : ch = 32
  · rw [encodeChar, if_pos blank]
    exact .plain (Or.inr rfl) .nil
  · by_cases plain : Unreserved ch
    · rw [encodeChar, if_neg blank, if_pos plain]
      exact .plain (Or.inl plain) .nil
    · rw [encodeChar_escape blank plain]
      exact escaped_escape ch

theorem encode_escaped (query : List UInt8) : Escaped Written (encode query) := by
  induction query with
  | nil => exact .nil
  | cons ch rest ih =>
      rw [encode, List.flatMap_cons]
      exact (encodeChar_escaped ch).append ih

theorem decode_encodeChar (ch : UInt8) (rest : List UInt8) :
    decode (encodeChar ch ++ rest) = (decode rest).map (ch :: ·) := by
  by_cases blank : ch = 32
  · rw [encodeChar, if_pos blank, blank]
    exact decode_plus rest
  · by_cases plain : Unreserved ch
    · rw [encodeChar, if_neg blank, if_pos plain]
      have notPercent : ch ≠ 37 := fun same => absurd (same ▸ plain) (by decide)
      have notPlus : ch ≠ 43 := fun same => absurd (same ▸ plain) (by decide)
      exact decode_plain notPercent notPlus rest
    · rw [encodeChar_escape blank plain]
      exact decode_escape ch rest

/-- What is encoded is decoded to what it was. -/
theorem decode_encode (query : List UInt8) : decode (encode query) = some query := by
  induction query with
  | nil => rfl
  | cons ch rest ih =>
      rw [encode, List.flatMap_cons, decode_encodeChar]
      exact congrArg (Option.map (ch :: ·)) ih

end Encode

section Loops
variable {max : Int}

/-- With room for all of it, the fixed part is copied. -/
theorem copyFixed_all : ∀ {fixed out : List UInt8}, (out.length + fixed.length : Int) < max →
    copyFixed max out fixed = out ++ fixed := by
  intro fixed
  induction fixed with
  | nil => exact fun _ => (List.append_nil _).symm
  | cons c rest ih =>
      intro out room
      rw [List.length_cons] at room
      rw [copyFixed, if_pos (by omega), ih, List.append_assoc, List.singleton_append]
      rw [List.length_append, List.length_singleton]
      omega

/-- The loop encodes a first part of the query, and keeps below the buffer's end by two. -/
theorem encodeFrom_spec : ∀ {query out : List UInt8}, (out.length : Int) ≤ max - 2 →
    ∃ n, encodeFrom max out query = out ++ encode (query.take n) ∧
      ((encodeFrom max out query).length : Int) ≤ max - 2 := by
  intro query
  induction query with
  | nil => exact fun low => ⟨0, (List.append_nil _).symm, low⟩
  | cons ch rest ih =>
      intro out low
      rw [encodeFrom]
      split_ifs with room
      · have three := encodeChar_length ch
        obtain ⟨n, same, bound⟩ := @ih (out ++ encodeChar ch) (by rw [List.length_append]; omega)
        refine ⟨n + 1, ?_, bound⟩
        rw [same, List.append_assoc, List.take_succ_cons, encode, encode, List.flatMap_cons]
      · exact ⟨0, (List.append_nil _).symm, low⟩

/-- With four bytes to spare, nothing is left out. -/
theorem encodeFrom_all : ∀ {query out : List UInt8}, (out.length + (encode query).length : Int) ≤ max - 4 →
    encodeFrom max out query = out ++ encode query := by
  intro query
  induction query with
  | nil => exact fun _ => (List.append_nil _).symm
  | cons ch rest ih =>
      intro out room
      have one := encodeChar_pos ch
      rw [encode, List.flatMap_cons, List.length_append] at room
      rw [encodeFrom, if_pos (by omega), ih, List.append_assoc, encode, encode, List.flatMap_cons]
      rw [List.length_append, encode]
      omega

end Loops

/-- In every buffer with room for the fixed part and four bytes more. -/
theorem url_decodes (query : CString) (max : Int) (room : (searchUrl.length : Int) + 4 < max) :
    ∃ text, Carries query max (buildGoogleUrl query max) text := by
  have fixed : copyFixed max [] searchUrl = searchUrl := copyFixed_all (by rw [List.length_nil]; omega)
  obtain ⟨n, same, bound⟩ := @encodeFrom_spec max query.chars searchUrl (by omega)
  rw [buildGoogleUrl, fixed]
  refine ⟨encode (query.chars.take n), by omega, same, encode_escaped _, n, decode_encode _, ?_⟩
  intro spare
  have all := @encodeFrom_all max query.chars searchUrl (by omega)
  have equal := List.append_cancel_left (same.symm.trans all)
  apply Option.some.inj
  calc
    some (query.chars.take n) = decode (encode (query.chars.take n)) := (decode_encode _).symm
    _ = decode (encode query.chars) := congrArg decode equal
    _ = some query.chars := decode_encode _

/-- "a b" in a buffer of 32 bytes. -/
theorem url_decodes_blank :
    ∃ text, Carries (CString.read [97, 32, 98]) 32 (buildGoogleUrl (CString.read [97, 32, 98]) 32) text :=
  url_decodes _ 32 (by decide)

end Zenbite.Web
