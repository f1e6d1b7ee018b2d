import Zenbite.Zas.Steps

/-! The assembler stays inside its source and comes to an end. -/

namespace Zenbite.Zas

namespace Asm

/-- The cursor moves from token to token. -/
def Moves (st st' : Asm) : Prop := Reaches st.lexP st'.lexP

section Moves
variable {st st' st₁ : Asm} {pass : Pass}

theorem Moves.refl (st : Asm) : Moves st st := Reaches.refl

theorem Moves.trans (first : Moves st st₁) (second : Moves st₁ st') : Moves st st' := Reaches.trans first second

theorem Moves.lex (moves : Moves st st₁) : Moves st st₁.lex := Reaches.next moves

/-- Output and tables do not move the cursor. -/
theorem Moves.same (moves : Moves st st₁) (same : st'.lexP = st₁.lexP) : Moves st st' := by
  rw [Moves, same]
  exact moves

theorem sectionLine_moves : Moves st (st.sectionLine pass) := by
  have moved := (Moves.refl st).lex
  rw [sectionLine]
  dsimp only
  split
  · exact moved
  split
  · split <;> exact moved
  split
  · split
    · split <;> exact moved
    · exact moved
  · exact moved

theorem labelLine_moves {name : Text} : Moves st (st.labelLine pass name) := by
  apply (Moves.refl st).lex.same
  have defined (st : Asm) (addr : U32) : (st.labelDefine name addr).lexP = st.lexP := by
    rw [labelDefine]
    split
    · rfl
    · split <;> rfl
  rw [labelLine]
  dsimp only
  split
  · split <;> split <;> exact defined _ _
  · rfl

theorem bodyLine_moves {n : Nat} {t : Token} (ran : st.bodyLine pass n t = some st') : Moves st st' := by
  rcases bodyLine_emits ran with emits | rfl
  · exact emits.moves
  · exact sectionLine_moves

end Moves

/-! Where the text is clean, every loop ends. -/

section Ends
variable {st st' : Asm} {pass : Pass}

theorem Moves.clean (moves : Moves st st') (clean : Clean st.lexP) : Clean st'.lexP := clean.reaches moves

theorem Moves.length_le (moves : Moves st st') (clean : Clean st.lexP) : st'.lexP.length ≤ st.lexP.length :=
  (clean.before moves).length_le

theorem lex_shorter (clean : Clean st.lexP) (more : st.peek.type ≠ .eof) :
    st.lex.lexP.length < st.lexP.length := clean.step.2 (mt (lexNext_eof _).mpr more)

theorem skipLine_ends (n : Nat) : ∀ {st : Asm}, Clean st.lexP → st.lexP.length < n → ∃ st', skipLine n st = some st' := by
  induction n with
  | zero => exact fun _ fuel => absurd fuel (Nat.not_lt_zero _)
  | succ n ih =>
      intro st clean fuel
      rw [skipLine]
      split
      · exact ⟨st, rfl⟩
      next more =>
        have shorter := lex_shorter clean fun eof => more (.inr eof)
        exact ih ((Moves.refl st).lex.clean clean) (by omega)

theorem skipNewlines_ends (n : Nat) : ∀ {st : Asm}, Clean st.lexP → st.lexP.length < n →
    ∃ st', skipNewlines n st = some st' := by
  induction n with
  | zero => exact fun _ fuel => absurd fuel (Nat.not_lt_zero _)
  | succ n ih =>
      intro st clean fuel
      rw [skipNewlines]
      split
      next newline =>
        have shorter := lex_shorter clean (by rw [newline]; exact TokenType.noConfusion)
        exact ih ((Moves.refl st).lex.clean clean) (by omega)
      · exact ⟨st, rfl⟩

theorem dbLoop_ends (n : Nat) : ∀ {st : Asm}, Clean st.lexP → st.lexP.length < n → ∃ st', dbLoop n st = some st' := by
  induction n with
  | zero => exact fun _ fuel => absurd fuel (Nat.not_lt_zero _)
  | succ n ih =>
      intro st clean fuel
      rw [dbLoop]
      dsimp only
      split
      · exact ⟨st, rfl⟩
      have item : Moves st st.dbItem := dbItem_emits.moves
      split
      next comma =>
        have shorter := lex_shorter (item.clean clean) (by rw [comma]; exact TokenType.noConfusion)
        have behind := item.length_le clean
        exact ih (item.lex.clean clean) (by omega)
      · exact ⟨_, rfl⟩

theorem bodyLine_ends {n : Nat} {t : Token} (clean : Clean st.lexP) (fuel : st.lexP.length < n) :
    ∃ st', st.bodyLine pass n t = some st' := by
  rw [bodyLine]
  repeat' split
  all_goals first | exact ⟨_, rfl⟩ | exact dbLoop_ends n clean fuel

/-- What a call of assemble_line does to the cursor. -/
theorem assembleLine_moves {n : Nat} {more : Bool} (ran : st.assembleLine pass n = some (more, st')) : Moves st st' := by
  obtain ⟨st₁, skipped, ran⟩ := Option.bind_eq_some_iff.mp ran
  have start : Moves st st₁ := (skipNewlines_emits n skipped).moves
  dsimp only at ran
  split at ran
  · obtain ⟨rfl, rfl⟩ := Prod.mk.inj (Option.some.inj ran)
    exact start
  split at ran
  · obtain ⟨rfl, rfl⟩ := Prod.mk.inj (Option.some.inj ran)
    exact start.lex.trans labelLine_moves
  obtain ⟨st₂, body, ran⟩ := Option.bind_eq_some_iff.mp ran
  obtain ⟨st₃, rest, ran⟩ := Option.bind_eq_some_iff.mp ran
  obtain ⟨rfl, rfl⟩ := Prod.mk.inj (Option.some.inj ran)
  exact (start.lex.trans (bodyLine_moves body)).trans (skipLine_emits n rest).moves

/-- A call makes progress, or it is at the end of the text. -/
theorem assembleLine_progress {n : Nat} {more : Bool} (clean : Clean st.lexP)
    (ran : st.assembleLine pass n = some (more, st')) :
    if more then st'.lexP.length < st.lexP.length else AtEnd st'.lexP := by
  obtain ⟨st₁, skipped, ran⟩ := Option.bind_eq_some_iff.mp ran
  have start : Moves st st₁ := (skipNewlines_emits n skipped).moves
  have before := start.length_le clean
  dsimp only at ran
  split at ran
  next eof =>
    obtain ⟨rfl, rfl⟩ := Prod.mk.inj (Option.some.inj ran)
    exact (lexNext_eof _).mp eof
  next present =>
  have shorter := lex_shorter (start.clean clean) present
  have first := start.lex.clean clean
  split at ran
  · obtain ⟨rfl, rfl⟩ := Prod.mk.inj (Option.some.inj ran)
    have moved : Moves st₁.lex (st₁.lex.labelLine pass st₁.peek.text) := labelLine_moves
    have rest := moved.length_le first
    exact Nat.lt_of_le_of_lt rest (Nat.lt_of_lt_of_le shorter before)
  obtain ⟨st₂, body, ran⟩ := Option.bind_eq_some_iff.mp ran
  obtain ⟨st₃, rest, ran⟩ := Option.bind_eq_some_iff.mp ran
  obtain ⟨rfl, rfl⟩ := Prod.mk.inj (Option.some.inj ran)
  have behind := ((bodyLine_moves body).trans (skipLine_emits n rest).moves).length_le first
  exact Nat.lt_of_le_of_lt behind (Nat.lt_of_lt_of_le shorter before)

theorem assembleLine_ends {n : Nat} (clean : Clean st.lexP) (fuel : st.lexP.length < n) :
    ∃ more st', st.assembleLine pass n = some (more, st') := by
  obtain ⟨st₁, skipped⟩ := skipNewlines_ends n clean fuel
  have start : Moves st st₁ := (skipNewlines_emits n skipped).moves
  have before := start.length_le clean
  rw [assembleLine, skipped]
  dsimp only [Option.bind_eq_bind, Option.bind_some]
  split
  · exact ⟨_, _, rfl⟩
  next present =>
  have shorter := lex_shorter (start.clean clean) present
  have first := start.lex.clean clean
  split
  · exact ⟨_, _, rfl⟩
  obtain ⟨st₂, body⟩ : ∃ st', st₁.lex.bodyLine pass n st₁.peek = some st' :=
    bodyLine_ends first (show st₁.lex.lexP.length < n by omega)
  have moved := bodyLine_moves body
  have behind := moved.length_le first
  obtain ⟨st₃, rest⟩ := skipLine_ends n (moved.clean first) (by omega)
  rw [body, Option.bind_some, rest]
  exact ⟨_, _, rfl⟩

theorem lines_ends {k : Nat} (n : Nat) : ∀ {st : Asm}, Clean st.lexP → st.lexP.length < k → st.lexP.length < n →
    ∃ st', lines k pass n st = some st' := by
  induction n with
  | zero => exact fun _ _ fuel => absurd fuel (Nat.not_lt_zero _)
  | succ n ih =>
      intro st clean enough fuel
      rw [lines]
      split
      · exact ⟨st, rfl⟩
      obtain ⟨more, st', ran⟩ : ∃ more st', st.assembleLine pass k = some (more, st') :=
        assembleLine_ends clean enough
      have moved := assembleLine_moves ran
      have progress := assembleLine_progress clean ran
      rw [ran]
      dsimp only [Option.bind_eq_bind, Option.bind_some]
      cases more with
      | false => exact ⟨st', rfl⟩
      | true =>
          have less : st'.lexP.length < st.lexP.length := progress
          exact ih (moved.clean clean) (by omega) (by omega)

theorem runPass_ends {src : Text} (clean : Clean src) (st : Asm) :
    ∃ st', st.runPass (src.length + 1) pass src = some st' := by
  have start : (st.begin pass src).lexP = src := by cases pass <;> rfl
  obtain ⟨st', ran⟩ : ∃ st', lines (src.length + 1) pass (src.length + 1) (st.begin pass src) = some st' :=
    lines_ends (src.length + 1) (show Clean (st.begin pass src).lexP by rw [start]; exact clean) (by rw [start]; exact Nat.lt_succ_self _)
    (by rw [start]; exact Nat.lt_succ_self _)
  exact ⟨st'.close, by rw [runPass, ran]; rfl⟩

end Ends

/-! At a percent sign, skip_line never comes back. -/

section Percent
variable {st : Asm} {pass : Pass}

theorem peek_percent (percent : PercentAt st.lexP) : st.peek = ⟨.ident, [], 0⟩ := by
  rw [peek, lexNext_percent percent]

theorem skipLine_percent (n : Nat) : ∀ {st : Asm}, PercentAt st.lexP → skipLine n st = none := by
  induction n with
  | zero => exact fun _ => rfl
  | succ n ih =>
      intro st percent
      have next : PercentAt st.lex.lexP := percent.next
      have here := ih next
      rw [skipLine, peek_percent percent, if_neg (by decide)]
      exact here

theorem assembleLine_percent (n : Nat) (percent : PercentAt st.lexP) : st.assembleLine pass n = none := by
  have first := peek_percent percent
  have next : PercentAt st.lex.lexP := percent.next
  have second := peek_percent next
  cases n with
  | zero => rfl
  | succ n =>
      have skipped : skipNewlines (n + 1) st = some st := by
        rw [skipNewlines, first]
        rfl
      have body : st.lex.bodyLine pass (n + 1) st.peek = some st.lex := by
        rw [first]
        rfl
      rw [assembleLine, skipped]
      dsimp only [Option.bind_eq_bind, Option.bind_some]
      rw [body, Option.bind_some, skipLine_percent (n + 1) next, first, second]
      rfl

theorem assemble_percent {src : Text} (nonzero : cur src ≠ 0) (percent : PercentAt src) (n : Nat) (mem : Memory.Buffer) :
    assemble n mem src = none := by
  have pass : (Asm.start mem).runPass n .one src = none := by
    cases n with
    | zero => rfl
    | succ n =>
        have hangs : ((Asm.start mem).begin .one src).assembleLine .one (n + 1) = none :=
          assembleLine_percent (n + 1) percent
        rw [runPass, lines, hangs]
        change Option.map close (if cur src = 0 then _ else _) = none
        rw [if_neg nonzero]
        rfl
  rw [assemble, pass]
  rfl

end Percent

end Asm

/-- zas_src, with a text of fewer than ZAS_SRC_MAX bytes in it. -/
def source (text : List UInt8) : Text := text ++ List.replicate (srcMax - text.length) 0

/-- The assembler keeps inside its source, goes on with every token and every line, and
comes to an end. -/
structure StaysInside (src : Text) : Prop where
  inside : ∀ s, Reaches src s → Before src s
  consumes : ∀ s, Reaches src s → ¬ AtEnd s → (next s).length < s.length
  progress : ∀ n pass st more st', Reaches src st.lexP → Asm.assembleLine pass st n = some (more, st') →
    if more then st'.lexP.length < st.lexP.length else AtEnd st'.lexP
  loops : ∀ st : Asm, Reaches src st.lexP → ∃ n, (st.skipLine n).isSome ∧ (st.dbLoop n).isSome
  ends : ∀ mem, ∃ n, (assemble n mem src).isSome

/-- It does so exactly when no token begins with a percent sign and no string literal has
a backslash directly before the NUL. -/
theorem assembler_ends_iff {text : List UInt8} (short : text.length < srcMax) :
    StaysInside (source text) ↔ Clean (source text) := by
  have nul : 0 ∈ source text := by
    rw [source, List.mem_append]
    right
    rw [List.mem_replicate]
    exact ⟨by omega, rfl⟩
  constructor
  · exact fun stays => clean_of_inside nul stays.inside stays.consumes
  · intro clean
    constructor
    · exact fun s reaches => clean.before reaches
    · exact fun s reaches => (clean.reaches reaches).step.2
    · exact fun n pass st more st' reaches ran => Asm.assembleLine_progress (clean.reaches reaches) ran
    · intro st reaches
      have here := clean.reaches reaches
      obtain ⟨_, skipped⟩ := Asm.skipLine_ends (st.lexP.length + 1) here (Nat.lt_succ_self _)
      obtain ⟨_, items⟩ := Asm.dbLoop_ends (st.lexP.length + 1) here (Nat.lt_succ_self _)
      exact ⟨_, by rw [skipped]; rfl, by rw [items]; rfl⟩
    · intro mem
      have ends : ∀ pass (st : Asm), ∃ st', st.runPass ((source text).length + 1) pass (source text) = some st' :=
        fun _ st => Asm.runPass_ends clean st
      obtain ⟨first, one⟩ := ends .one (Asm.start mem)
      obtain ⟨second, two⟩ := ends .two { first with fixups := [] }
      refine ⟨(source text).length + 1, ?_⟩
      rw [assemble, one]
      dsimp only [Option.bind_eq_bind, Option.bind_some]
      rw [two]
      rfl

theorem assembler_ends_iff_ret :
    (ascii ['r', 'e', 't']).length < srcMax ∧ StaysInside (source (ascii ['r', 'e', 't'])) := by
  have clean : Clean (source (ascii ['r', 'e', 't'])) := by
    intro s reaches
    have places : s = source (ascii ['r', 'e', 't']) ∨ s = List.replicate 8189 0 := by
      induction reaches with
      | refl => exact .inl rfl
      | next _ ih =>
          obtain rfl | rfl := ih
          · exact .inr rfl
          · exact .inr rfl
    obtain rfl | rfl := places
    · decide
    · decide
  exact ⟨by decide, (assembler_ends_iff (by decide)).mpr clean⟩

/-- A percent sign alone keeps the first pass going for ever. -/
theorem percent_hangs : (∀ n mem, assemble n mem (source [37]) = none) ∧ ¬ StaysInside (source [37]) := by
  have hangs (n : Nat) (mem : Memory.Buffer) : assemble n mem (source [37]) = none :=
    Asm.assemble_percent (by decide) (by decide) n mem
  refine ⟨hangs, fun stays => ?_⟩
  obtain ⟨n, ended⟩ := stays.ends fun _ => 0
  rw [hangs] at ended
  cases ended

end Zenbite.Zas
