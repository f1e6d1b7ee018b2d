import Zenbite.Fat.NameTrip

/-! The strings of current directories, their components, and the names that are shown
for them. -/

namespace Zenbite.Fat

open Memory

/-! The string. -/

/-- "\" alone, or every name behind a backslash. -/
def pathOf (names : List (List UInt8)) : List UInt8 :=
  if names = [] then [backslash] else names.flatMap (backslash :: ·)

/-- A name that fs_chdir may append: one component, none of the dots, and still a
name in 8.3 form. -/
structure Plain (name : List UInt8) : Prop where
  some : name ≠ []
  short : name.length ≤ 12
  solid : ∀ c ∈ name, isSeparator c = false
  dot : name ≠ [46]
  dots : name ≠ [46, 46]
  shown : nameFrom83 (nameTo83 name) ≠ []

theorem backslash_separator : isSeparator backslash = true := by decide

theorem components_flat {names : List (List UInt8)} (plain : ∀ n ∈ names, Plain n) {rest : List UInt8}
    (ends : ∀ c, rest.head? = some c → isSeparator c = true) :
    components (names.flatMap (backslash :: ·) ++ rest) = names ++ components rest := by
  induction names with
  | nil => rfl
  | cons name names ih =>
      have first := plain name List.mem_cons_self
      have ends' : ∀ c, (names.flatMap (backslash :: ·) ++ rest).head? = Option.some c →
          isSeparator c = true := by
        cases names with
        | nil => exact ends
        | cons next names =>
            intro c head
            obtain rfl := Option.some.inj head
            exact backslash_separator
      rw [List.flatMap_cons, List.cons_append, List.cons_append, components_separator backslash_separator,
        List.append_assoc, components_word first.some first.solid ends',
        List.take_of_length_le first.short, ih fun n member => plain n (List.mem_cons_of_mem _ member)]
      rfl

theorem components_pathOf {names : List (List UInt8)} (plain : ∀ n ∈ names, Plain n) :
    components (pathOf names) = names := by
  simp only [pathOf]
  split
  next none =>
    rw [none]
    exact components_separator backslash_separator []
  · have flat : components (names.flatMap (backslash :: ·) ++ []) = names ++ components [] := components_flat plain nofun
    have none : components [] = [] := rfl
    rwa [List.append_nil, none, List.append_nil] at flat

theorem flat_append (names : List (List UInt8)) (name : List UInt8) :
    (names ++ [name]).flatMap (backslash :: ·) = names.flatMap (backslash :: ·) ++ backslash :: name := by
  rw [List.flatMap_append, List.flatMap_singleton]

theorem pathOf_append (names : List (List UInt8)) (name : List UInt8) :
    pathOf (names ++ [name]) = names.flatMap (backslash :: ·) ++ backslash :: name := by
  rw [pathOf, if_neg (by simp), flat_append]

theorem flat_length {names : List (List UInt8)} (some : names ≠ []) :
    1 ≤ (names.flatMap (backslash :: ·)).length := by
  obtain ⟨name, rest, rfl⟩ := List.exists_cons_of_ne_nil some
  rw [List.flatMap_cons, List.length_append, List.length_cons]
  omega

/-- cwd_pop drops the last name. -/
theorem cwdPop_pathOf (names : List (List UInt8)) {name : List UInt8}
    (solid : ∀ c ∈ name, isSeparator c = false) : cwdPop (pathOf (names ++ [name])) = pathOf names := by
  have skip : ∀ c ∈ name.reverse, (c != backslash) = true := by
    intro c member
    rw [bne_iff_ne]
    rintro rfl
    have := solid backslash (List.mem_reverse.mp member)
    rw [backslash_separator] at this
    cases this
  have cut : ((pathOf (names ++ [name])).reverse.dropWhile (· != backslash)).reverse =
      names.flatMap (backslash :: ·) ++ [backslash] := by
    rw [pathOf_append, List.reverse_append, List.reverse_cons, List.append_assoc,
      List.dropWhile_append_of_pos skip, List.singleton_append, List.dropWhile_cons, if_neg (by simp),
      List.reverse_cons, List.reverse_reverse]
  simp only [cwdPop, cut, List.length_append, List.length_singleton, List.dropLast_concat]
  by_cases root : names = []
  · rw [root, pathOf_append]
    rfl
  · have long := flat_length root
    rw [if_neg (by omega), pathOf, if_neg root]

theorem cwdPop_root : cwdPop (pathOf []) = pathOf [] := by decide

/-- cwd_append without the bound of the copy. -/
def unclipped (path name : List UInt8) : List UInt8 :=
  (if 1 < path.length then path ++ [backslash] else path) ++ name

theorem cwdAppend_unclipped {path name : List UInt8} (fits : (unclipped path name).length < fsPathMax) :
    cwdAppend path name = unclipped path name := by
  simp only [unclipped, List.length_append] at fits
  simp only [cwdAppend, unclipped]
  rw [List.take_of_length_le]
  omega

theorem unclipped_pathOf {names : List (List UInt8)} (plain : ∀ n ∈ names, Plain n) (name : List UInt8) :
    unclipped (pathOf names) name = pathOf (names ++ [name]) := by
  rw [pathOf_append]
  by_cases root : names = []
  · rw [root]
    rfl
  · have long : 1 < (pathOf names).length := by
      obtain ⟨first, rest, rfl⟩ := List.exists_cons_of_ne_nil root
      have some := List.length_pos_iff.mpr (plain first List.mem_cons_self).some
      rw [pathOf, if_neg root, List.flatMap_cons, List.length_append, List.length_cons]
      omega
    rw [unclipped, if_pos long, pathOf, if_neg root, List.append_assoc]
    rfl

/-! Names. -/

/-- A component of a path. -/
structure Word (comp : List UInt8) : Prop where
  some : comp ≠ []
  short : comp.length ≤ 12
  solid : ∀ c ∈ comp, isSeparator c = false

theorem nameFrom83_base {c : UInt8} (some : c ≠ 32) (rest : List UInt8) : nameFrom83 (c :: rest) ≠ [] := by
  have base : ((c :: rest).take 8).takeWhile (· != 32) ≠ [] := by simp [some]
  simp only [nameFrom83]
  split
  · exact List.append_ne_nil_of_left_ne_nil base _
  · exact base

theorem nameFrom83_ext {raw : List UInt8} (some : raw.getD 8 0 ≠ 32) : nameFrom83 raw ≠ [] := by
  simp only [nameFrom83, if_pos some]
  exact List.append_ne_nil_of_right_ne_nil _ (List.cons_ne_nil _ _)

theorem toUpper_space {c : UInt8} (some : c ≠ 32) : toUpper c ≠ 32 := fun upper =>
  some (toUpper_eq upper (by decide))

/-- A shown name that is no dot can be appended. -/
theorem plain_of_shown {last : List UInt8} (word : Word last) (some : nameFrom83 (nameTo83 last) ≠ [])
    (dot : nameFrom83 (nameTo83 last) ≠ [46]) (dots : nameFrom83 (nameTo83 last) ≠ [46, 46]) :
    Plain (nameFrom83 (nameTo83 last)) := by
  obtain ⟨base, ext, shape, low, high, -, left, right⟩ := nameTo83_parts last
  have listed : nameFrom83 (nameTo83 last) = base.takeWhile (· != 32) ++
      if ext.headD 32 ≠ 32 then 46 :: ext.takeWhile (· != 32) else [] := by
    rw [shape, nameFrom83_parts low high]
  have left' := (List.takeWhile_prefix (p := (· != 32)) (l := base)).length_le
  have right' := (List.takeWhile_prefix (p := (· != 32)) (l := ext)).length_le
  have letter {c : UInt8} (above : ∃ x ∈ last, c = toUpper x) : isSeparator c = false := by
    obtain ⟨x, member, rfl⟩ := above
    exact isSeparator_toUpper (word.solid x member)
  refine ⟨some, ?_, fun c member => ?_, dot, dots, ?_⟩
  · rw [listed, List.length_append]
    split
    · rw [List.length_cons]
      omega
    · rw [List.length_nil]
      omega
  · rw [listed] at member
    rcases List.mem_append.mp member with front | back
    · obtain ⟨x, inside, -, upper⟩ := left c ((List.takeWhile_prefix _).subset front)
      exact letter ⟨x, inside, upper⟩
    · split at back
      · rcases List.mem_cons.mp back with rfl | back
        · rfl
        · exact letter (right c ((List.takeWhile_prefix _).subset back))
      · cases back
  · cases front : base.takeWhile (· != 32) with
    | cons c rest =>
        have space : c ≠ 32 := by
          have : c ∈ base.takeWhile (· != 32) := by
            rw [front]
            exact List.mem_cons_self
          simpa using List.mem_takeWhile_imp this
        have mark : c ≠ 46 := by
          have : c ∈ base := (List.takeWhile_prefix _).subset (by
            rw [front]
            exact List.mem_cons_self)
          obtain ⟨x, -, other, rfl⟩ := left c this
          exact fun same => other (toUpper_eq same (by decide))
        rw [listed, front, List.cons_append]
        have upper : ∃ tail, nameTo83 (c :: (rest ++ if ext.headD 32 ≠ 32 then
            46 :: ext.takeWhile (· != 32) else [])) = toUpper c :: tail := by
          simp only [nameTo83, padTo, List.dropWhile_cons, beq_iff_eq, if_neg space, List.takeWhile_cons,
            bne_iff_ne, ne_eq, mark, not_false_eq_true, if_true, List.take_succ_cons, List.map_cons,
            List.cons_append]
          exact ⟨_, rfl⟩
        obtain ⟨tail, upper⟩ := upper
        rw [upper]
        exact nameFrom83_base (toUpper_space space) tail
    | nil =>
        have kept : ext.headD 32 ≠ 32 := by
          intro none
          rw [listed, front, if_neg (not_not_intro none)] at some
          exact some rfl
        obtain ⟨e, rest, rfl⟩ := List.exists_cons_of_ne_nil (l := ext) (by rintro rfl; exact kept rfl)
        have space : e ≠ 32 := kept
        rw [listed, front, if_pos kept, List.nil_append, List.takeWhile_cons, if_pos (by simpa using space)]
        apply nameFrom83_ext
        have upper : nameTo83 (46 :: e :: rest.takeWhile (· != 32)) =
            padTo 8 [] ++ padTo 3 (((e :: rest.takeWhile (· != 32)).take 3).map toUpper) := rfl
        have third : (nameTo83 (46 :: e :: rest.takeWhile (· != 32))).getD 8 0 = toUpper e := by
          rw [upper]
          rfl
        rw [third]
        exact toUpper_space space

end Zenbite.Fat
