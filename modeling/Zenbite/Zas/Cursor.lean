import Zenbite.Zas.Lex

/-! Where the lexer leaves its cursor. -/

namespace Zenbite.Zas

/-- The cursor behind the next token. -/
def next (s : Text) : Text := (lexNext s).2

/-- Some tokens lie between the cursors. -/
inductive Reaches (s : Text) : Text → Prop where
  | refl : Reaches s s
  | next {t : Text} : Reaches s t → Reaches s (next t)

theorem Reaches.trans {s t u : Text} (first : Reaches s t) (second : Reaches t u) : Reaches s u := by
  induction second with
  | refl => exact first
  | next _ ih => exact ih.next

/-- Between the cursors lies no NUL. -/
def Before (s t : Text) : Prop := ∃ front, s = front ++ t ∧ 0 ∉ front

theorem Before.refl (s : Text) : Before s s := ⟨[], rfl, List.not_mem_nil⟩

theorem Before.trans {s t u : Text} (first : Before s t) (second : Before t u) : Before s u := by
  obtain ⟨a, rfl, noneA⟩ := first
  obtain ⟨b, rfl, noneB⟩ := second
  refine ⟨a ++ b, (List.append_assoc _ _ _).symm, ?_⟩
  rw [List.mem_append]
  exact not_or.mpr ⟨noneA, noneB⟩

/-- As long as no NUL has been passed, one is ahead. -/
theorem Before.ahead {s t : Text} (before : Before s t) (nul : 0 ∈ s) : 0 ∈ t := by
  obtain ⟨front, rfl, absent⟩ := before
  exact (List.mem_append.mp nul).resolve_left absent

theorem Before.length_le {s t : Text} (before : Before s t) : t.length ≤ s.length := by
  obtain ⟨front, rfl, -⟩ := before
  rw [List.length_append]
  exact Nat.le_add_left _ _

theorem Before.tail {c : UInt8} {s : Text} (nonzero : c ≠ 0) : Before (c :: s) s :=
  ⟨[c], rfl, by simpa using nonzero.symm⟩

theorem Before.dropWhile {p : UInt8 → Bool} (nul : p 0 = false) (s : Text) : Before s (s.dropWhile p) := by
  refine ⟨s.takeWhile p, List.takeWhile_append_dropWhile.symm, ?_⟩
  intro member
  rw [List.mem_takeWhile_imp member] at nul
  exact nomatch nul

theorem before_lexSkipWs (s : Text) : Before s (lexSkipWs s) := by
  have blank : Before s (s.dropWhile isBlank) := Before.dropWhile rfl s
  rw [lexSkipWs]
  split
  · exact blank.trans (Before.dropWhile rfl _)
  · exact blank

/-- Some backslash among the first `room` characters of the literal stands before a NUL. -/
def cutShort : Nat → Text → Bool
  | 0, _ => false
  | room + 1, s =>
    match s with
    | [] => false
    | c :: r =>
      if c = 0 ∨ c = 34 then false
      else if c = 92 then cur r == 0 || cutShort room r.tail
      else cutShort room r

theorem cur_cons_tail {s : Text} (nonzero : cur s ≠ 0) : s = cur s :: s.tail := by
  cases s with
  | nil => exact absurd rfl nonzero
  | cons c s => rfl

theorem before_lexString (room : Nat) : ∀ {s : Text}, cutShort room s = false → Before s (lexString room s).2 := by
  induction room with
  | zero => exact fun _ => Before.refl _
  | succ room ih =>
      intro s whole
      cases s with
      | nil => exact Before.refl _
      | cons c r =>
          rw [cutShort] at whole
          rw [lexString]
          split at whole
          next ends =>
            rw [if_pos ends]
            exact Before.refl _
          next goes =>
          rw [if_neg goes]
          have nonzero : c ≠ 0 := fun zero => goes (.inl zero)
          split at whole
          next slash =>
            rw [if_pos slash]
            simp only [Bool.or_eq_false_iff, beq_eq_false_iff_ne] at whole
            have behind : Before r r.tail := by
              rw [cur_cons_tail whole.1]
              exact Before.tail whole.1
            exact ((Before.tail nonzero).trans behind).trans (ih whole.2)
          next plain =>
            rw [if_neg plain]
            exact (Before.tail nonzero).trans (ih whole)

theorem lexString_suffix (room : Nat) : ∀ s : Text, ∃ front, s = front ++ (lexString room s).2 := by
  induction room with
  | zero => exact fun _ => ⟨[], rfl⟩
  | succ room ih =>
      intro s
      cases s with
      | nil => exact ⟨[], rfl⟩
      | cons c r =>
          rw [lexString]
          split
          · exact ⟨[], rfl⟩
          split
          · obtain ⟨front, same⟩ := ih r.tail
            cases r with
            | nil => exact ⟨c :: front, congrArg (c :: ·) same⟩
            | cons d r => exact ⟨c :: d :: front, congrArg (fun l => c :: d :: l) same⟩
          · obtain ⟨front, same⟩ := ih r
            exact ⟨c :: front, congrArg (c :: ·) same⟩

/-- A literal that is cut short takes the NUL with it. -/
theorem lexString_passes (room : Nat) : ∀ {s : Text}, 0 ∈ s → cutShort room s = true →
    ∃ front, s = front ++ (lexString room s).2 ∧ 0 ∈ front := by
  induction room with
  | zero => exact fun _ cut => nomatch cut
  | succ room ih =>
      intro s nul cut
      cases s with
      | nil => exact nomatch cut
      | cons c r =>
          rw [cutShort] at cut
          rw [lexString]
          split at cut
          · exact nomatch cut
          next goes =>
          rw [if_neg goes]
          have nonzero : c ≠ 0 := fun zero => goes (.inl zero)
          have ahead : 0 ∈ r := (List.mem_cons.mp nul).resolve_left nonzero.symm
          have ne : r ≠ [] := List.ne_nil_of_mem ahead
          obtain ⟨d, r, rfl⟩ := List.exists_cons_of_ne_nil ne
          split at cut
          next slash =>
            rw [if_pos slash]
            by_cases zero : d = 0
            · obtain ⟨front, same⟩ := lexString_suffix room r
              exact ⟨c :: d :: front, congrArg (fun l => c :: d :: l) same, by simp [zero]⟩
            · have later : 0 ∈ r := (List.mem_cons.mp ahead).resolve_left (Ne.symm zero)
              have inside : cutShort room r = true := by simpa [cur, zero] using cut
              obtain ⟨front, same, member⟩ := ih later inside
              exact ⟨c :: d :: front, congrArg (fun l => c :: d :: l) same, by simp [member]⟩
          next plain =>
            rw [if_neg plain]
            obtain ⟨front, same, member⟩ := ih ahead cut
            exact ⟨c :: front, congrArg (c :: ·) same, by simp [member]⟩

/-- The next token begins with a percent sign. -/
def PercentAt (s : Text) : Prop := cur (lexSkipWs s) = 37

/-- The next token is a literal that is cut short. -/
def CutAt (s : Text) : Prop := cur (lexSkipWs s) = 34 ∧ cutShort 63 (lexSkipWs s).tail = true

instance (s : Text) : Decidable (PercentAt s) := inferInstanceAs (Decidable (_ = _))
instance (s : Text) : Decidable (CutAt s) := inferInstanceAs (Decidable (_ ∧ _))

/-- Nothing is left of the text but blanks and a comment. -/
def AtEnd (s : Text) : Prop := cur (lexSkipWs s) = 0

instance (s : Text) : Decidable (AtEnd s) := inferInstanceAs (Decidable (_ = _))

theorem next_atEnd {s : Text} (done : AtEnd s) : next s = lexSkipWs s := by
  have zero : cur (lexSkipWs s) = 0 := done
  rw [next, lexNext, if_pos zero]

/-- A percent sign is not consumed. -/
theorem lexNext_percent {s : Text} (percent : PercentAt s) : lexNext s = (⟨.ident, [], 0⟩, lexSkipWs s) := by
  have c : cur (lexSkipWs s) = 37 := percent
  have absent : (lexSkipWs s).takeWhile isIdentChar = [] := by
    rw [cur_cons_tail (s := lexSkipWs s) (by rw [c]; decide), c]
    rfl
  rw [lexNext, c, if_neg (by decide)]
  change lexIdentTok (lexSkipWs s) = _
  rw [lexIdentTok, absent]
  rfl

theorem next_percent {s : Text} (percent : PercentAt s) : next s = lexSkipWs s := by
  rw [next, lexNext_percent percent]

/-- Behind blanks there are no more. -/
theorem lexSkipWs_idem {s : Text} (token : isBlank (cur s) = false) (comment : cur s ≠ 59) : lexSkipWs s = s := by
  have same : s.dropWhile isBlank = s := by
    cases s with
    | nil => rfl
    | cons c s =>
        rw [List.dropWhile_cons_of_neg]
        rw [Bool.not_eq_true]
        exact token
  rw [lexSkipWs, same, if_neg comment]

/-- The lexer does not get away from a percent sign. -/
theorem PercentAt.next {s : Text} (percent : PercentAt s) : PercentAt (next s) := by
  have here : cur (lexSkipWs s) = 37 := percent
  rw [next_percent percent, PercentAt, lexSkipWs_idem]
  · exact here
  · rw [here]
    rfl
  · rw [here]
    decide

theorem before_lexStringTok {s : Text} (whole : cutShort 63 s = false) : Before s (lexStringTok s).2 := by
  have inside := before_lexString 63 whole
  change Before s (if cur (lexString 63 s).2 = 34 then _ else _)
  split
  next quote =>
    have nonzero : cur (lexString 63 s).2 ≠ 0 := by
      rw [quote]
      decide
    apply inside.trans
    rw [cur_cons_tail nonzero]
    exact Before.tail nonzero
  next _ => exact inside

theorem before_lexNumberTok {s : Text} (digit : isDigit (cur s) = true) :
    Before s (lexNumberTok s).2 ∧ (lexNumberTok s).2.length < s.length := by
  have nonzero : cur s ≠ 0 := by
    intro zero
    rw [zero] at digit
    exact nomatch digit
  have one : Before s s.tail := by
    rw [cur_cons_tail nonzero]
    exact Before.tail nonzero
  have shorter : s.tail.length < s.length := by
    rw [cur_cons_tail nonzero]
    exact Nat.lt_succ_self _
  rw [lexNumberTok]
  split
  next hex =>
    have some' : cur s.tail ≠ 0 := by
      rcases hex.2 with x | x <;> rw [x] <;> decide
    have two : Before s.tail s.tail.tail := by
      rw [cur_cons_tail some']
      exact Before.tail some'
    have rest := two.trans (Before.dropWhile (p := isHexDigit) rfl s.tail.tail)
    exact ⟨one.trans rest, Nat.lt_of_le_of_lt rest.length_le shorter⟩
  next _ =>
    have rest : Before s.tail (s.tail.dropWhile isDigit) := Before.dropWhile rfl _
    have same : s.dropWhile isDigit = s.tail.dropWhile isDigit := by
      rw [cur_cons_tail nonzero, List.dropWhile_cons_of_pos digit]
      rfl
    rw [same]
    exact ⟨one.trans rest, Nat.lt_of_le_of_lt rest.length_le shorter⟩

theorem before_lexIdentTok {s : Text} (first : isIdentChar (cur s) = true) :
    Before s (lexIdentTok s).2 ∧ (lexIdentTok s).2.length < s.length := by
  have nonzero : cur s ≠ 0 := by
    intro zero
    rw [zero] at first
    exact nomatch first
  have split_ : s.takeWhile isIdentChar = cur s :: s.tail.takeWhile isIdentChar := by
    rw [cur_cons_tail nonzero, List.takeWhile_cons_of_pos first]
    rfl
  have taken : (s.takeWhile isIdentChar).take 63 <+: s :=
    (List.take_prefix _ _).trans (List.takeWhile_prefix _)
  have length : 0 < ((s.takeWhile isIdentChar).take 63).length := by
    rw [split_, List.take_succ_cons]
    exact Nat.succ_pos _
  rw [lexIdentTok]
  constructor
  · refine ⟨(s.takeWhile isIdentChar).take 63, ?_, ?_⟩
    · conv_lhs => rw [← List.take_append_drop ((s.takeWhile isIdentChar).take 63).length s]
      rw [← List.prefix_iff_eq_take.mp taken]
    · intro member
      have inside := List.mem_takeWhile_imp (List.mem_of_mem_take member)
      exact nomatch inside
  · have nonempty : 0 < s.length := by
      rw [cur_cons_tail nonzero]
      exact Nat.succ_pos _
    rw [List.length_drop]
    exact Nat.sub_lt nonempty length

/-- Any other token takes something. -/
theorem next_before {s : Text} (more : ¬ AtEnd s) (percent : ¬ PercentAt s) (whole : ¬ CutAt s) :
    Before s (next s) ∧ (next s).length < s.length := by
  have blanks := before_lexSkipWs s
  suffices inside : Before (lexSkipWs s) (next s) ∧ (next s).length < (lexSkipWs s).length from
    ⟨blanks.trans inside.1, Nat.lt_of_lt_of_le inside.2 blanks.length_le⟩
  have nonzero : cur (lexSkipWs s) ≠ 0 := more
  have notPercent : cur (lexSkipWs s) ≠ 37 := percent
  have one : Before (lexSkipWs s) (lexSkipWs s).tail ∧ (lexSkipWs s).tail.length < (lexSkipWs s).length := by
    rw [cur_cons_tail nonzero]
    exact ⟨Before.tail nonzero, Nat.lt_succ_self _⟩
  rw [next, lexNext, if_neg nonzero]
  split
  · exact one
  split
  next quote =>
    have whole : cutShort 63 (lexSkipWs s).tail = false := by
      rw [← Bool.not_eq_true]
      exact fun cut => whole ⟨quote, cut⟩
    have rest := before_lexStringTok whole
    exact ⟨one.1.trans rest, Nat.lt_of_le_of_lt rest.length_le one.2⟩
  split
  next digit => exact before_lexNumberTok digit
  split
  next start =>
    apply before_lexIdentTok
    simp only [isIdentStart, Bool.or_eq_true, beq_iff_eq] at start
    rcases start with ((alpha | low) | dot) | percent
    · rw [isIdentChar, alpha]
      rfl
    · rw [low]
      rfl
    · rw [dot]
      rfl
    · exact absurd percent notPercent
  · exact one

theorem lexNext_eof (s : Text) : (lexNext s).1.type = .eof ↔ AtEnd s := by
  rw [lexNext, AtEnd]
  split
  next done => exact ⟨fun _ => done, fun _ => rfl⟩
  next more =>
    refine ⟨fun type => ?_, fun done => absurd done more⟩
    split at type
    next kind found =>
      have same : kind = .eof := type
      rw [same, punct] at found
      repeat' split at found
      all_goals cases found
    next _ =>
      split at type
      · cases type
      split at type
      · rw [lexNumberTok] at type
        split at type <;> cases type
      split at type
      · cases type
      · cases type

/-- From a cursor on, no token begins with a percent sign, and no literal is cut short. -/
def Clean (s : Text) : Prop := ∀ t, Reaches s t → ¬ PercentAt t ∧ ¬ CutAt t

theorem Clean.reaches {s t : Text} (clean : Clean s) (reaches : Reaches s t) : Clean t :=
  fun u more => clean u (reaches.trans more)

theorem Clean.step {s : Text} (clean : Clean s) : Before s (next s) ∧ (¬ AtEnd s → (next s).length < s.length) := by
  obtain ⟨percent, whole⟩ := clean s .refl
  by_cases done : AtEnd s
  · rw [next_atEnd done]
    exact ⟨before_lexSkipWs s, fun more => absurd done more⟩
  · obtain ⟨before, less⟩ := next_before done percent whole
    exact ⟨before, fun _ => less⟩

theorem Clean.before {s t : Text} (clean : Clean s) (reaches : Reaches s t) : Before s t := by
  induction reaches with
  | refl => exact Before.refl s
  | next more ih => exact ih.trans (clean.reaches more).step.1

/-- A percent sign stops the lexer, and a literal that is cut short leaves the text. -/
theorem clean_of_inside {src : Text} (nul : 0 ∈ src) (inside : ∀ s, Reaches src s → Before src s)
    (consumes : ∀ s, Reaches src s → ¬ AtEnd s → (next s).length < s.length) : Clean src := by
  intro s reaches
  constructor
  · intro percent
    have again := percent.next
    have here : cur (lexSkipWs (next s)) = 37 := again
    have less := consumes _ reaches.next (by rw [AtEnd, here]; decide)
    have still : next (next s) = next s := by
      rw [next_percent again, next_percent percent]
      apply lexSkipWs_idem
      · rw [show cur (lexSkipWs s) = 37 from percent]
        rfl
      · rw [show cur (lexSkipWs s) = 37 from percent]
        decide
    rw [still] at less
    exact Nat.lt_irrefl _ less
  · rintro ⟨quote, cut⟩
    have nonzero : cur (lexSkipWs s) ≠ 0 := by
      rw [quote]
      decide
    have blanks := (inside s reaches).trans (before_lexSkipWs s)
    have ahead : 0 ∈ (lexSkipWs s).tail := by
      have member := blanks.ahead nul
      rw [cur_cons_tail nonzero] at member
      exact (List.mem_cons.mp member).resolve_left nonzero.symm
    obtain ⟨front, same, -⟩ := blanks
    obtain ⟨text, taken, passed⟩ := lexString_passes 63 ahead cut
    -- the closing quote, if it is there
    obtain ⟨close, closed⟩ : ∃ close, (lexString 63 (lexSkipWs s).tail).2 = close ++ next s := by
      have literal : next s = (lexStringTok (lexSkipWs s).tail).2 := by
        rw [next, lexNext, quote, if_neg (by decide)]
        rfl
      rw [literal, lexStringTok]
      dsimp only
      split
      next ends =>
        refine ⟨[34], ?_⟩
        rw [List.singleton_append, ← ends]
        exact cur_cons_tail (by rw [ends]; decide)
      next _ => exact ⟨[], rfl⟩
    obtain ⟨front', same', absent⟩ := inside (next s) reaches.next
    have whole : front ++ cur (lexSkipWs s) :: (text ++ close) ++ next s = front' ++ next s := by
      rw [← same', same]
      conv_rhs => rw [cur_cons_tail nonzero, taken, closed]
      simp only [List.append_assoc, List.cons_append]
    rw [← List.append_cancel_right whole] at absent
    exact absent (by simp [passed])

end Zenbite.Zas
