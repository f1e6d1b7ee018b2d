import Zenbite.CString

/-! The patterns of find: which names wild_match takes. -/

namespace Zenbite.Shell

/-- The loop over the ends of the string, its own end included. -/
def starLoop (tail : List UInt8 → Bool) : List UInt8 → Bool
  | [] => tail []
  | c :: str => if tail (c :: str) then true else starLoop tail str

/-- wild_match: 42 is the star, 63 the question mark. -/
def wildMatch : List UInt8 → List UInt8 → Bool
  | [], str => str.isEmpty
  | p :: pat, str =>
    if p = 42 then starLoop (wildMatch pat) str
    else
      match str with
      | [] => false
      | c :: str => if p = 63 ∨ toupper p = toupper c then wildMatch pat str else false

/-- The names that a pattern stands for. -/
inductive InLanguage : List UInt8 → List UInt8 → Prop where
  | nil : InLanguage [] []
  | any {pat str} (c : UInt8) (rest : InLanguage pat str) : InLanguage (63 :: pat) (c :: str)
  | run {pat str} (skipped : List UInt8) (rest : InLanguage pat str) : InLanguage (42 :: pat) (skipped ++ str)
  | char {p c : UInt8} {pat str} (noStar : p ≠ 42) (noMark : p ≠ 63) (same : tolower p = tolower c)
      (rest : InLanguage pat str) : InLanguage (p :: pat) (c :: str)

theorem starLoop_iff (tail : List UInt8 → Bool) (str : List UInt8) :
    starLoop tail str = true ↔ ∃ skipped rest, str = skipped ++ rest ∧ tail rest = true := by
  induction str with
  | nil =>
      constructor
      · exact fun ends => ⟨[], [], rfl, ends⟩
      · rintro ⟨skipped, rest, split, ends⟩
        obtain ⟨-, rfl⟩ := List.append_eq_nil_iff.mp split.symm
        exact ends
  | cons c str ih =>
      rw [starLoop, ite_eq_left_iff, ih]
      constructor
      · intro later
        by_cases here : tail (c :: str) = true
        · exact ⟨[], c :: str, rfl, here⟩
        · obtain ⟨skipped, rest, rfl, ends⟩ := later here
          exact ⟨c :: skipped, rest, rfl, ends⟩
      · rintro ⟨skipped, rest, split, ends⟩ notHere
        cases skipped with
        | nil =>
            obtain rfl : c :: str = rest := split
            exact absurd ends notHere
        | cons d skipped =>
            rw [List.cons_append, List.cons.injEq] at split
            exact ⟨skipped, rest, split.2, ends⟩

theorem wildMatch_star (pat str : List UInt8) : wildMatch (42 :: pat) str = starLoop (wildMatch pat) str :=
  if_pos rfl

theorem wildMatch_char {p : UInt8} (noStar : p ≠ 42) (pat : List UInt8) (c : UInt8) (str : List UInt8) :
    wildMatch (p :: pat) (c :: str) = true ↔ (p = 63 ∨ toupper p = toupper c) ∧ wildMatch pat str = true := by
  rw [wildMatch, if_neg noStar]
  split
  next same => rw [and_iff_right same]
  next other => exact iff_of_false Bool.false_ne_true fun both => other both.1

/-- What is matched is in the language: the recursion is on the pattern. -/
theorem wildMatch_sound {pat : List UInt8} : ∀ {str}, wildMatch pat str = true → InLanguage pat str := by
  induction pat with
  | nil =>
      intro str matched
      obtain rfl := List.isEmpty_iff.mp matched
      exact .nil
  | cons p pat ih =>
      intro str matched
      by_cases star : p = 42
      · subst star
        rw [wildMatch_star, starLoop_iff] at matched
        obtain ⟨skipped, rest, rfl, ends⟩ := matched
        exact .run skipped (ih ends)
      · cases str with
        | nil =>
            rw [wildMatch, if_neg star] at matched
            exact absurd matched Bool.false_ne_true
        | cons c str =>
            obtain ⟨first, rest⟩ := (wildMatch_char star pat c str).mp matched
            by_cases mark : p = 63
            · subst mark
              exact .any c (ih rest)
            · exact .char star mark (toupper_eq_iff.mp (first.resolve_left mark)) (ih rest)

theorem wildMatch_complete {pat str : List UInt8} (inside : InLanguage pat str) : wildMatch pat str = true := by
  induction inside with
  | nil => rfl
  | any c _ ih => exact (wildMatch_char (by decide) _ c _).mpr ⟨Or.inl rfl, ih⟩
  | run skipped _ ih =>
      rw [wildMatch_star, starLoop_iff]
      exact ⟨skipped, _, rfl, ih⟩
  | char noStar _ same _ ih => exact (wildMatch_char noStar _ _ _).mpr ⟨Or.inr (toupper_eq_iff.mpr same), ih⟩

/-- wild_match decides the language of its pattern. -/
theorem wildMatch_iff (pat str : List UInt8) : wildMatch pat str = true ↔ InLanguage pat str :=
  ⟨wildMatch_sound, wildMatch_complete⟩

/-- `*.t?t` takes `A.B.TXT`. -/
example : wildMatch [42, 46, 116, 63, 116] [65, 46, 66, 46, 84, 88, 84] = true := by decide

end Zenbite.Shell
