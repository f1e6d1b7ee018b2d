import Mathlib.Data.List.GetD
import Zenbite.Lib.Memory

/-! dns_encode_name (net.c), and what the bytes it writes decode to. -/

namespace Zenbite.Net

open Memory

/-- `while (s[len] && s[len] != '.') len++;` -/
def labelOf (s : List UInt8) : List UInt8 := s.takeWhile (· != 46)

/-- The string behind the label and the dot that ends it. -/
def afterLabel (s : List UInt8) : List UInt8 := (s.dropWhile (· != 46)).tail

/-- The loop of dns_encode_name; each round takes a character at least, and `fuel` counts
those. All of `o + len + 1` stays far below 2^31: `len` is small by then, `o` below max. -/
def encodeFrom (max : Int) : Nat → List UInt8 → Nat → Buffer → Option (Nat × Buffer)
  | _, [], o, out => if max ≤ o then none else some (o + 1, poke out o [0])
  | 0, _ :: _, _, _ => none
  | fuel + 1, c :: s, o, out =>
    let label := labelOf (c :: s)
    if 63 < label.length ∨ max ≤ o + label.length + 1 then none
    else
      encodeFrom max fuel (afterLabel (c :: s)) (o + (label.length + 1))
        (poke out o (UInt8.ofNat label.length :: label))

/-- The length and the buffer; -1 is `none`. -/
def dnsEncodeName (name : List UInt8) (max : Int) (out : Buffer) : Option (Nat × Buffer) :=
  encodeFrom max name.length name 0 out

/-! Labels and their wire form -/

def headed (c : UInt8) : List (List UInt8) → List (List UInt8)
  | [] => [[c]]
  | l :: ls => (c :: l) :: ls

/-- The labels of a name: what its dots keep apart, nothing behind a last dot. -/
def labels : List UInt8 → List (List UInt8)
  | [] => []
  | c :: s => if c = 46 then [] :: labels s else headed c (labels s)

theorem labels_ne_nil (c : UInt8) (s : List UInt8) : labels (c :: s) ≠ [] := by
  rw [labels]
  split
  · exact List.cons_ne_nil _ _
  · cases labels s <;> exact List.cons_ne_nil _ _

/-- The pieces between the dots, of which an empty last one is no label. -/
theorem splitOn_labels (name : List UInt8) :
    name.splitOn 46 = labels name ++ if name = [] ∨ name.getLast? = some 46 then [[]] else [] := by
  induction name with
  | nil => rfl
  | cons c s ih =>
      rw [List.splitOn_cons_eq_if_modifyHead, labels, ih]
      by_cases dot : c = 46
      · subst dot
        cases s with
        | nil => rfl
        | cons d s => simp
      · have other : (c == 46) = false := by simpa using dot
        rw [if_neg dot, other]
        cases s with
        | nil => simp [labels, headed, dot]
        | cons d s =>
            rw [List.getLast?_cons_cons]
            simp only [List.cons_ne_nil, false_or, Bool.false_eq_true, if_false]
            obtain ⟨l, ls, cut⟩ := List.exists_cons_of_ne_nil (labels_ne_nil d s)
            rw [cut]
            rfl

/-- One round of the loop takes one label. -/
theorem labels_round (c : UInt8) (s : List UInt8) :
    labels (c :: s) = labelOf (c :: s) :: labels (afterLabel (c :: s)) := by
  induction s generalizing c with
  | nil =>
      by_cases dot : c = 46
      · subst dot
        rfl
      · simp [labels, labelOf, afterLabel, headed, dot]
  | cons d s ih =>
      rw [labels, ih]
      by_cases dot : c = 46
      · subst dot
        rw [if_pos rfl, ← ih]
        rfl
      · have other : (c != 46) = true := by simpa using dot
        have label : labelOf (c :: d :: s) = c :: labelOf (d :: s) := List.takeWhile_cons_of_pos other
        have after : afterLabel (c :: d :: s) = afterLabel (d :: s) :=
          congrArg List.tail (List.dropWhile_cons_of_pos other)
        rw [if_neg dot, label, after, headed]

theorem afterLabel_shorter (c : UInt8) (s : List UInt8) : (afterLabel (c :: s)).length ≤ s.length := by
  have fewer := (List.dropWhile_sublist (· != (46 : UInt8)) (l := c :: s)).length_le
  rw [afterLabel, List.length_tail]
  rw [List.length_cons] at fewer
  omega

/-- Every label behind its length, without the last byte. -/
def wireLabels (ls : List (List UInt8)) : List UInt8 := ls.flatMap fun l => UInt8.ofNat l.length :: l

/-- The bytes of a name that is encoded: every label behind its length, then 0. -/
def wireName (ls : List (List UInt8)) : List UInt8 := wireLabels ls ++ [0]

/-- The labels are short, and the bytes before the last stay below the size. -/
def NameFits (max : Int) (ls : List (List UInt8)) : Prop :=
  (∀ l ∈ ls, l.length ≤ 63) ∧ (wireLabels ls).length < max

instance (max : Int) : DecidablePred (NameFits max) := fun _ => inferInstanceAs (Decidable (_ ∧ _))

theorem poke_poke (b : Buffer) (off : Nat) (first second : List UInt8) :
    poke (poke b off first) (off + first.length) second = poke b off (first ++ second) := by
  funext i
  simp only [poke, splice, List.length_append]
  by_cases low : i < off + first.length
  · rw [if_neg (by omega)]
    by_cases inside : off ≤ i
    · rw [if_pos ⟨inside, low⟩, if_pos (by omega), List.getD_append _ _ _ _ (by omega)]
    · rw [if_neg (by omega), if_neg (by omega)]
  · by_cases high : i < off + (first.length + second.length)
    · rw [if_pos (by omega), if_pos (by omega), List.getD_append_right _ _ _ _ (by omega)]
      congr 1
      omega
    · rw [if_neg (by omega), if_neg (by omega), if_neg (by omega)]

theorem wireLabels_cons (l : List UInt8) (ls : List (List UInt8)) :
    wireLabels (l :: ls) = (UInt8.ofNat l.length :: l) ++ wireLabels ls := List.flatMap_cons

theorem encodeFrom_nil (max : Int) (fuel o : Nat) (out : Buffer) : encodeFrom max fuel [] o out =
    if NameFits (max - o) (labels []) then
      some (o + (wireName (labels [])).length, poke out o (wireName (labels [])))
    else none := by
  have fits : NameFits (max - o) (labels []) ↔ ¬max ≤ o := by
    rw [NameFits, labels, wireLabels, List.flatMap_nil, List.length_nil]
    constructor
    · rintro ⟨-, room⟩
      omega
    · exact fun room => ⟨fun _ none => absurd none List.not_mem_nil, by omega⟩
  rw [encodeFrom]
  by_cases room : max ≤ o
  · rw [if_pos room, if_neg fun fit => fits.mp fit room]
  · rw [if_neg room, if_pos (fits.mpr room)]
    rfl

/-- The loop writes the wire form of the labels that are left, or fails where they do
not fit. -/
theorem encodeFrom_eq (max : Int) : ∀ (fuel : Nat) (s : List UInt8) (o : Nat) (out : Buffer),
    s.length ≤ fuel → encodeFrom max fuel s o out =
      if NameFits (max - o) (labels s) then
        some (o + (wireName (labels s)).length, poke out o (wireName (labels s)))
      else none := by
  intro fuel
  induction fuel with
  | zero =>
      intro s o out enough
      obtain rfl : s = [] := List.eq_nil_of_length_eq_zero (by omega)
      exact encodeFrom_nil max 0 o out
  | succ fuel ih =>
      intro s o out enough
      cases s with
      | nil => exact encodeFrom_nil max _ o out
      | cons c s =>
          have shorter := afterLabel_shorter c s
          rw [List.length_cons] at enough
          rw [labels_round, encodeFrom]
          generalize labelOf (c :: s) = l
          generalize afterLabel (c :: s) = rest at *
          have size : (wireLabels (l :: labels rest)).length = l.length + 1 + (wireLabels (labels rest)).length := by
            rw [wireLabels_cons, List.length_append, List.length_cons]
          by_cases bad : 63 < l.length ∨ max ≤ o + l.length + 1
          · rw [if_pos bad, if_neg]
            intro fits
            have short := fits.1 l List.mem_cons_self
            have room := fits.2
            omega
          · rw [if_neg bad, ih rest _ _ (by omega)]
            have same : NameFits (max - (o + (l.length + 1) : Nat)) (labels rest) ↔ NameFits (max - o) (l :: labels rest) := by
              rw [NameFits, NameFits, List.forall_mem_cons, size]
              constructor
              · rintro ⟨short, room⟩
                exact ⟨⟨by omega, short⟩, by omega⟩
              · rintro ⟨⟨-, short⟩, room⟩
                exact ⟨short, by omega⟩
            have whole : wireName (l :: labels rest) = (UInt8.ofNat l.length :: l) ++ wireName (labels rest) := by
              rw [wireName, wireLabels_cons, List.append_assoc]
              rfl
            have written := poke_poke out o (UInt8.ofNat l.length :: l) (wireName (labels rest))
            rw [List.length_cons] at written
            by_cases fits : NameFits (max - o) (l :: labels rest)
            · rw [if_pos fits, if_pos (same.mpr fits), written, whole, List.length_append, List.length_cons,
                Nat.add_assoc]
            · rw [if_neg fits, if_neg (mt same.mp fits)]

theorem dnsEncodeName_eq (name : List UInt8) (max : Int) (out : Buffer) :
    dnsEncodeName name max out =
      if NameFits max (labels name) then
        some ((wireName (labels name)).length, poke out 0 (wireName (labels name)))
      else none := by
  have loop := encodeFrom_eq max name.length name 0 out (Nat.le_refl _)
  rw [Int.ofNat_zero, Int.sub_zero, Nat.zero_add] at loop
  exact loop

/-! Decoding -/

/-- The labels of an encoded name that ends with its first length of 0. -/
def decodeName : Nat → List UInt8 → Option (List (List UInt8))
  | 0, _ => none
  | _ + 1, [] => none
  | fuel + 1, b :: bytes =>
    if b = 0 then if bytes = [] then some [] else none
    else if 63 < b.toNat ∨ bytes.length < b.toNat then none
    else (decodeName fuel (bytes.drop b.toNat)).map fun ls => bytes.take b.toNat :: ls

theorem decodeName_wireName {ls : List (List UInt8)} (proper : ∀ l ∈ ls, l ≠ [] ∧ l.length ≤ 63) :
    ∀ {fuel : Nat}, (wireName ls).length ≤ fuel → decodeName fuel (wireName ls) = some ls := by
  induction ls with
  | nil =>
      intro fuel enough
      obtain ⟨fuel, rfl⟩ : ∃ f, fuel = f + 1 := ⟨fuel - 1, (Nat.sub_add_cancel enough).symm⟩
      rfl
  | cons l ls ih =>
      intro fuel enough
      obtain ⟨nonempty, short⟩ := proper l List.mem_cons_self
      have some := List.length_pos_iff.mpr nonempty
      have whole : wireName (l :: ls) = UInt8.ofNat l.length :: (l ++ wireName ls) := by
        rw [wireName, wireLabels_cons, wireName, List.append_assoc, List.cons_append]
      have byte : (UInt8.ofNat l.length).toNat = l.length := by
        rw [UInt8.toNat_ofNat']
        omega
      have more : UInt8.ofNat l.length ≠ 0 := by
        intro zero
        have none := congrArg UInt8.toNat zero
        rw [byte, UInt8.toNat_zero] at none
        omega
      rw [whole, List.length_cons, List.length_append] at enough
      obtain ⟨fuel, rfl⟩ : ∃ f, fuel = f + 1 := ⟨fuel - 1, by omega⟩
      rw [whole, decodeName, if_neg more, byte, if_neg, List.drop_left' rfl, List.take_left' rfl,
        ih (fun l member => proper l (List.mem_cons_of_mem _ member)) (by omega)]
      · rfl
      · rw [List.length_append]
        omega

/-- What the encoder promises for a name and a size. -/
structure EncodesRight (name : List UInt8) (max : Int) : Prop where
  decodes : ∀ out n out', dnsEncodeName name max out = some (n, out') →
    n ≤ max ∧ (∀ i, n ≤ i → out' i = out i) ∧
      decodeName n ((List.range n).map out') = some (labels name)
  refuses : (∃ l ∈ labels name, l = [] ∨ 63 < l.length) → ∀ out, dnsEncodeName name max out = none

theorem poke_range (out : Buffer) (bytes : List UInt8) :
    (List.range bytes.length).map (poke out 0 bytes) = bytes := by
  refine List.ext_getElem (by rw [List.length_map, List.length_range]) fun i _ bound => ?_
  have at_i : poke out 0 bytes (0 + i) = bytes.getD i 0 := poke_at out bound
  rw [Nat.zero_add, List.getD_eq_getElem _ _ bound] at at_i
  rw [List.getElem_map, List.getElem_range, at_i]

/-- The promise is kept exactly if a name with an empty label does not fit for another
reason: a label that is too long, or too little room. -/
theorem dnsEncodeName_right_iff (name : List UInt8) (max : Int) :
    EncodesRight name max ↔ ([] ∈ labels name → ¬NameFits max (labels name)) := by
  constructor
  · intro right empty fits
    have refused := right.refuses ⟨[], empty, Or.inl rfl⟩ fun _ => 0
    rw [dnsEncodeName_eq, if_pos fits] at refused
    cases refused
  · intro fits
    constructor
    · intro out n out' found
      rw [dnsEncodeName_eq] at found
      split at found
      next fit =>
        cases found
        have proper : ∀ l ∈ labels name, l ≠ [] ∧ l.length ≤ 63 := by
          refine fun l member => ⟨?_, fit.1 l member⟩
          rintro rfl
          exact fits member fit
        have size : (wireName (labels name)).length = (wireLabels (labels name)).length + 1 := by
          rw [wireName, List.length_append, List.length_singleton]
        have room := fit.2
        refine ⟨by omega, fun i above => splice_outside _ _ (Or.inr (by omega)), ?_⟩
        rw [poke_range]
        exact decodeName_wireName proper (Nat.le_refl _)
      next => cases found
    · rintro ⟨l, member, bad⟩ out
      rw [dnsEncodeName_eq, if_neg]
      intro fit
      rcases bad with rfl | long
      · exact fits member fit
      · have short := fit.1 l member
        omega

/-- "a..b" in the buffer of dns_resolve: the byte 0 in the middle ends the name. -/
theorem doubleDot_encoded : ¬EncodesRight [97, 46, 46, 98] 496 ∧
    ∃ out, dnsEncodeName [97, 46, 46, 98] 496 (fun _ => 0) = some (6, out) ∧
      (List.range 6).map out = [1, 97, 0, 1, 98, 0] := by
  refine ⟨fun right => ?_, _, rfl, by decide⟩
  have refused := right.refuses ⟨[], by decide, Or.inl rfl⟩ fun _ => 0
  have isSome : (dnsEncodeName [97, 46, 46, 98] 496 fun _ => 0).isSome = true := rfl
  rw [refused] at isSome
  cases isSome

end Zenbite.Net
