import Mathlib.Data.List.Forall2
import Zenbite.Zbc.Tokens

/-! Which texts the tokenizer of zbc.c takes apart rightly. `Lexes` is the longest match
over the whole text, without any limit. -/

namespace Zenbite.Zbc

inductive Lexeme where
  | int (v : Word)
  | word (name : Name)
  | str (text : List UInt8)
  | punct (kind : TokenKind)

/-- The characters `w` before `s` are all that `p` takes. -/
def Run (p : UInt8 → Bool) (w s : List UInt8) : Prop :=
  (∀ c ∈ w, p c = true) ∧ ∀ c ∈ s.head?, p c = false

def valueOf (base : Nat) (digits : List UInt8) : Nat := digits.foldl (fun v c => v * base + digitOf c) 0

/-- The inside of a string literal, and its contents. -/
inductive Literal : List UInt8 → List UInt8 → Prop where
  | nil : Literal [] []
  | plain {c : UInt8} {body text : List UInt8} (noQuote : c ≠ 34) (noBackslash : c ≠ 92)
      (rest : Literal body text) : Literal (c :: body) (c :: text)
  | escaped {e : UInt8} {body text : List UInt8} (rest : Literal body text) :
      Literal (92 :: e :: body) (unescape e :: text)

def spellings : List (List UInt8 × TokenKind) :=
  [([40], .lpar), ([41], .rpar), ([123], .lbrace), ([125], .rbrace), ([59], .semi), ([44], .comma),
    ([43], .plus), ([43, 61], .plusEq), ([45], .minus), ([45, 61], .minusEq), ([42], .star),
    ([42, 61], .starEq), ([47], .slash), ([47, 61], .slashEq), ([37], .pct), ([61], .assign),
    ([61, 61], .eq), ([33], .not), ([33, 61], .neq), ([60], .lt), ([60, 61], .le), ([60, 60], .shl),
    ([62], .gt), ([62, 61], .ge), ([62, 62], .shr), ([38], .band), ([38, 38], .and), ([124], .bor),
    ([124, 124], .or), ([94], .bxor)]

/-- No longer operator and no comment begins where `spelling` stands before `s`. -/
def Longest (spelling s : List UInt8) : Prop :=
  ∀ next ∈ s.head?, spelling ++ [next] ∉ [47, 47] :: [47, 42] :: spellings.map (·.1)

/-- The lexemes of a text. A string or a comment has an end, and behind `0x` there is a digit. -/
inductive Lexes : List UInt8 → List Lexeme → Prop where
  | done : Lexes [] []
  | blank {c : UInt8} {s : List UInt8} {ls : List Lexeme} (space : isSpace c = true) (rest : Lexes s ls) :
      Lexes (c :: s) ls
  | lineComment {line s : List UInt8} {ls : List Lexeme} (run : Run (· ≠ 10) line s) (rest : Lexes s ls) :
      Lexes (47 :: 47 :: (line ++ s)) ls
  | directive {line s : List UInt8} {ls : List Lexeme} (run : Run (· ≠ 10) line s) (rest : Lexes s ls) :
      Lexes (35 :: (line ++ s)) ls
  | comment {body s : List UInt8} {ls : List Lexeme} (first : ¬ [42, 47] <:+: body) (rest : Lexes s ls) :
      Lexes (47 :: 42 :: (body ++ 42 :: 47 :: s)) ls
  | decimal {d : UInt8} {digits s : List UInt8} {ls : List Lexeme} (run : Run isDigit (d :: digits) s)
      (noHex : d :: digits = [48] → s.head? ≠ some 120 ∧ s.head? ≠ some 88) (rest : Lexes s ls) :
      Lexes (d :: (digits ++ s)) (.int (BitVec.ofNat 32 (valueOf 10 (d :: digits))) :: ls)
  | hex {x : UInt8} {digits s : List UInt8} {ls : List Lexeme} (mark : x = 120 ∨ x = 88)
      (some_ : digits ≠ []) (run : Run isHexDigit digits s) (rest : Lexes s ls) :
      Lexes (48 :: x :: (digits ++ s)) (.int (BitVec.ofNat 32 (valueOf 16 digits)) :: ls)
  | word {c : UInt8} {name s : List UInt8} {ls : List Lexeme} (start : isWordStart c = true)
      (run : Run isWordChar (c :: name) s) (rest : Lexes s ls) :
      Lexes (c :: (name ++ s)) (.word (c :: name) :: ls)
  | str {body text s : List UInt8} {ls : List Lexeme} (literal : Literal body text) (rest : Lexes s ls) :
      Lexes (34 :: (body ++ 34 :: s)) (.str text :: ls)
  | punct {c : UInt8} {more s : List UInt8} {kind : TokenKind} {ls : List Lexeme}
      (spelled : (c :: more, kind) ∈ spellings) (longest : Longest (c :: more) s) (rest : Lexes s ls) :
      Lexes (c :: (more ++ s)) (.punct kind :: ls)

/-- The token says what the lexeme is; a string lies in the table up to its NUL. -/
def Encodes (strtab : List UInt8) (t : Token) : Lexeme → Prop
  | .int v => t.kind = .int ∧ t.ival = v
  | .word name => t.kind = wordKind name ∧ t.sval = name
  | .str text => t.kind = .str ∧ t.text = text ∧ text ++ [0] <+: strtab.drop t.strOff
  | .punct kind => t.kind = kind

/-- The token array is the text's, and the end after it. -/
def Scan.Whole (z : Scan) (text : List UInt8) : Prop :=
  ∃ ls, Lexes text ls ∧ ∃ ts, z.toks = ts ++ [Token.plain .eof] ∧ List.Forall₂ (Encodes z.strtab) ts ls

/-- The buffer of its class takes the lexeme. -/
def Lexeme.Fits : Lexeme → Prop
  | .int _ => True
  | .word name => name.length ≤ 31
  | .str text => text.length ≤ 255
  | .punct _ => True

section Pieces
variable {p : UInt8 → Bool} {w s : List UInt8}

theorem Run.takeWhile (run : Run p w s) : (w ++ s).takeWhile p = w := by
  rw [List.takeWhile_append_of_pos run.1]
  cases s with
  | nil => rw [List.takeWhile_nil, List.append_nil]
  | cons c s => rw [List.takeWhile_cons_of_neg (by simp [run.2 c rfl]), List.append_nil]

theorem Run.dropWhile (run : Run p w s) : (w ++ s).dropWhile p = s := by
  rw [List.dropWhile_append_of_pos run.1]
  cases s with
  | nil => rfl
  | cons c s => rw [List.dropWhile_cons_of_neg (by simp [run.2 c rfl])]

theorem readWord_cons (n : Nat) (c : UInt8) (s : List UInt8) : readWord (n + 1) (c :: s) =
    if isWordChar c then (c :: (readWord n s).1, (readWord n s).2) else ([], c :: s) := rfl

theorem readWord_length (n : Nat) (s : List UInt8) : (readWord n s).1.length ≤ n := by
  induction n generalizing s with
  | zero => exact Nat.le_refl 0
  | succ n ih =>
      cases s with
      | nil => exact Nat.zero_le _
      | cons c s =>
          rw [readWord_cons]
          split
          · exact Nat.succ_le_succ (ih s)
          · exact Nat.zero_le _

theorem readString_length (n : Nat) (s : List UInt8) : (readString n s).1.length ≤ n := by
  induction n generalizing s with
  | zero => exact Nat.le_refl 0
  | succ n ih =>
      rw [readString.eq_def]
      dsimp only
      split
      · exact Nat.zero_le _
      · split
        · exact Nat.zero_le _
        · exact Nat.succ_le_succ (Nat.zero_le _)
      · split
        · exact Nat.zero_le _
        · split
          · exact Nat.succ_le_succ (ih _)
          · exact Nat.succ_le_succ (ih _)

end Pieces

section Rounds
variable {c : UInt8} {s : List UInt8}

theorem isWordStart_other (start : isWordStart c = true) :
    isSpace c = false ∧ c ≠ 47 ∧ c ≠ 35 ∧ isDigit c = false := by
  simp only [isWordStart, isAlpha, isDigit, isSpace] at *
  grind

theorem Longest.stops {spelling : List UInt8} (longest : Longest spelling s) {next : UInt8}
    (longer : spelling ++ [next] ∈ [47, 47] :: [47, 42] :: spellings.map (·.1)) : s.head? ≠ some next :=
  fun here => longest next here longer

theorem spellings_plain : ∀ p ∈ spellings, isSpace (p.1.headD 0) = false ∧ p.1.headD 0 ≠ 35 ∧
    isDigit (p.1.headD 0) = false ∧ isWordStart (p.1.headD 0) = false ∧ p.1.headD 0 ≠ 34 := by decide

end Rounds

section Rounds
variable {c : UInt8} {s rest : List UInt8} {n : Nat} {z : Scan}

theorem scan_full (full : ¬ z.toks.length < maxTokens - 1) : scan n s z = some z := by
  cases n with
  | zero => rfl
  | succ n =>
      cases s with
      | nil => rfl
      | cons c s => rw [scan, if_neg full]

theorem scan_skip (step : round c s = .skip rest) (more : z.toks.length < maxTokens - 1) :
    scan (n + 1) (c :: s) z = scan n rest z := by
  rw [scan, if_pos more, step]

theorem scan_token {t : Token} (step : round c s = .token t rest) (more : z.toks.length < maxTokens - 1) :
    scan (n + 1) (c :: s) z = scan n rest (z.push t) := by
  rw [scan, if_pos more, step]

theorem scan_string {text : List UInt8} (step : round c s = .string text rest)
    (more : z.toks.length < maxTokens - 1) :
    scan (n + 1) (c :: s) z = scan n rest (z.addString text) := by
  rw [scan, if_pos more, step]

end Rounds

/-- A token of the text, from the buffers of tokenize. -/
structure Token.Small (t : Token) : Prop where
  sval : t.sval.length ≤ 31
  text : t.text.length ≤ 255
  kind : t.kind ≠ .eof

theorem wordKind_inside (name : Name) : wordKind name ≠ .eof := by
  rw [wordKind]
  cases found : keywords.find? (·.1 = name) with
  | none => decide
  | some k =>
      have all : ∀ k ∈ keywords, k.2 ≠ .eof := by decide
      exact all k (List.mem_of_find?_eq_some found)

theorem orLonger_inside {next : UInt8} {long short : TokenKind} {s : List UInt8} (noEnd : long ≠ .eof)
    (noEnd' : short ≠ .eof) : (orLonger next long short s).1 ≠ .eof := by
  rw [orLonger]
  split
  · exact noEnd
  · exact noEnd'

theorem some_inside {c : Prop} [Decidable c] {a : TokenKind × List UInt8} {other : Option (TokenKind × List UInt8)}
    (here : a.1 ≠ .eof) (rest : ∀ found ∈ other, found.1 ≠ .eof) :
    ∀ found ∈ (if c then some a else other), found.1 ≠ .eof := by
  split
  · exact fun found member => Option.some.inj member ▸ here
  · exact rest

theorem plain_inside {c : Prop} [Decidable c] {kind : TokenKind} {s : List UInt8}
    {other : Option (TokenKind × List UInt8)} (here : kind ≠ .eof) (rest : ∀ found ∈ other, found.1 ≠ .eof) :
    ∀ found ∈ (if c then some (kind, s) else other), found.1 ≠ .eof := some_inside here rest

theorem readPunct_inside (c : UInt8) (s : List UInt8) : ∀ found ∈ readPunct c s, found.1 ≠ .eof := by
  rw [readPunct]
  iterate 6 refine plain_inside (by decide) ?_
  iterate 4 refine some_inside (orLonger_inside (by decide) (by decide)) ?_
  refine plain_inside (by decide) ?_
  iterate 2 refine some_inside (orLonger_inside (by decide) (by decide)) ?_
  iterate 2
    refine some_inside ?_ ?_
    · split
      · exact TokenKind.noConfusion
      · exact orLonger_inside (by decide) (by decide)
  iterate 2 refine some_inside (orLonger_inside (by decide) (by decide)) ?_
  refine plain_inside (by decide) ?_
  exact fun _ none_ => by cases none_

/-- No more tokens than the array takes, each from its buffer. -/
structure Scan.Bounded (z : Scan) : Prop where
  few : z.toks.length ≤ maxTokens - 1
  small : ∀ t ∈ z.toks, t.Small

theorem Scan.Bounded.push {z : Scan} (bounded : z.Bounded) (more : z.toks.length < maxTokens - 1) {t : Token}
    (small : t.Small) : (z.push t).Bounded where
  few := by
    rw [Scan.push, List.length_append]
    exact more
  small := by
    intro u member
    rcases List.mem_append.mp member with member | member
    · exact bounded.small u member
    · exact List.mem_singleton.mp member ▸ small

theorem Scan.Bounded.addString {z : Scan} (bounded : z.Bounded) (more : z.toks.length < maxTokens - 1)
    {text : List UInt8} (fits : text.length ≤ 255) : (z.addString text).Bounded := by
  rw [Scan.addString]
  split
  · have same : ({ z with hadError := true } : Scan).Bounded := ⟨bounded.few, bounded.small⟩
    exact same.push more ⟨Nat.zero_le _, fits, TokenKind.noConfusion⟩
  · have same : ({ z with strtab := z.strtab ++ text ++ [0] } : Scan).Bounded := ⟨bounded.few, bounded.small⟩
    exact same.push more ⟨Nat.zero_le _, fits, TokenKind.noConfusion⟩

/-- What a round makes fits into the buffers. -/
def Round.Small : Round → Prop
  | .skip _ => True
  | .token t _ => t.Small
  | .string text _ => text.length ≤ 255
  | .unexpected => True

theorem round_small (c : UInt8) (s : List UInt8) : (round c s).Small := by
  rw [round]
  split_ifs
  · exact trivial
  · exact trivial
  · exact trivial
  · exact trivial
  · rw [readNumber]
    split <;> exact ⟨Nat.zero_le _, Nat.zero_le _, TokenKind.noConfusion⟩
  · exact ⟨readWord_length 31 _, Nat.zero_le _, wordKind_inside _⟩
  · exact readString_length 255 s
  · cases read : readPunct c s with
    | none => exact trivial
    | some found => exact ⟨Nat.zero_le _, Nat.zero_le _, readPunct_inside c s found read⟩

theorem scan_bounded {n : Nat} : ∀ {s : List UInt8} {z z' : Scan}, scan n s z = some z' → z.Bounded → z'.Bounded := by
  induction n with
  | zero =>
      intro s z z' run bounded
      exact Option.some.inj run ▸ bounded
  | succ n ih =>
      intro s z z' run bounded
      by_cases more : z.toks.length < maxTokens - 1
      · cases s with
        | nil => exact Option.some.inj run ▸ bounded
        | cons c s =>
            have small := round_small c s
            cases step : round c s with
            | skip rest => exact ih ((scan_skip step more).symm.trans run) bounded
            | token t rest =>
                rw [step] at small
                exact ih ((scan_token step more).symm.trans run) (bounded.push more small)
            | string text rest =>
                rw [step] at small
                exact ih ((scan_string step more).symm.trans run) (bounded.addString more small)
            | unexpected =>
                rw [scan, if_pos more, step] at run
                cases run
      · exact Option.some.inj ((scan_full more).symm.trans run) ▸ bounded

/-- hadError is never taken back. -/
theorem scan_error {n : Nat} : ∀ {s : List UInt8} {z z' : Scan}, scan n s z = some z' → z'.hadError = false →
    z.hadError = false := by
  induction n with
  | zero =>
      intro s z z' run clean
      exact Option.some.inj run ▸ clean
  | succ n ih =>
      intro s z z' run clean
      by_cases more : z.toks.length < maxTokens - 1
      · cases s with
        | nil => exact Option.some.inj run ▸ clean
        | cons c s =>
            cases step : round c s with
            | skip rest => exact ih ((scan_skip step more).symm.trans run) clean
            | token t rest =>
                have before : (z.push t).hadError = false := ih ((scan_token step more).symm.trans run) clean
                exact before
            | string text rest =>
                have before := ih ((scan_string step more).symm.trans run) clean
                rw [Scan.addString] at before
                split at before
                · cases before
                · exact before
            | unexpected =>
                rw [scan, if_pos more, step] at run
                cases run
      · exact Option.some.inj ((scan_full more).symm.trans run) ▸ clean

/-- From any state with room, a clean scan of the text leaves the tokens of its lexemes. -/
def Scanned (text : List UInt8) (ls : List Lexeme) : Prop :=
  ∀ (n : Nat) (z z' : Scan), text.length ≤ n → scan n text z = some z' → z'.hadError = false →
    z.toks.length + ls.length ≤ maxTokens - 1 → (∀ l ∈ ls, l.Fits) →
    z.strtab <+: z'.strtab ∧ ∃ ts, z'.toks = z.toks ++ ts ∧ List.Forall₂ (Encodes z'.strtab) ts ls

theorem scanned_nothing {z z' : Scan} (run : some z = some z') :
    z.strtab <+: z'.strtab ∧ ∃ ts, z'.toks = z.toks ++ ts ∧ List.Forall₂ (Encodes z'.strtab) ts [] := by
  obtain rfl := Option.some.inj run
  exact ⟨List.prefix_refl _, [], (List.append_nil _).symm, .nil⟩

section Scanned
variable {c : UInt8} {s rest : List UInt8} {ls : List Lexeme} {l : Lexeme}

theorem Scanned.skip (step : round c s = .skip rest) (shorter : rest.length ≤ s.length)
    (scanned : Scanned rest ls) : Scanned (c :: s) ls := by
  intro n z z' enough run clean room fits
  by_cases more : z.toks.length < maxTokens - 1
  · obtain ⟨n, rfl⟩ := Nat.exists_eq_succ_of_ne_zero (Nat.ne_of_gt (Nat.lt_of_lt_of_le (Nat.succ_pos _) enough))
    exact scanned n z z' (shorter.trans (Nat.le_of_succ_le_succ enough))
      ((scan_skip step more).symm.trans run) clean room fits
  · obtain rfl : ls = [] := List.eq_nil_of_length_eq_zero (by omega)
    exact scanned_nothing ((scan_full more).symm.trans run)

theorem Scanned.token {t : Token} (step : l.Fits → round c s = .token t rest) (shorter : rest.length ≤ s.length)
    (encodes : ∀ strtab, Encodes strtab t l) (scanned : Scanned rest ls) : Scanned (c :: s) (l :: ls) := by
  intro n z z' enough run clean room fits
  rw [List.length_cons] at room
  have more : z.toks.length < maxTokens - 1 := by omega
  obtain ⟨n, rfl⟩ := Nat.exists_eq_succ_of_ne_zero (Nat.ne_of_gt (Nat.lt_of_lt_of_le (Nat.succ_pos _) enough))
  have pushed : (z.push t).toks.length = z.toks.length + 1 := List.length_append
  obtain ⟨table, ts, toks, all⟩ := scanned n (z.push t) z' (shorter.trans (Nat.le_of_succ_le_succ enough))
    ((scan_token (step (fits l (List.mem_cons_self ..))) more).symm.trans run) clean (by omega)
    fun l member => fits l (List.mem_cons_of_mem _ member)
  refine ⟨table, t :: ts, ?_, .cons (encodes _) all⟩
  rw [toks, Scan.push, List.append_assoc]
  rfl

/-- A string that strtab_add took stands in the table from then on. -/
theorem Scanned.string {text : List UInt8} (step : text.length ≤ 255 → round c s = .string text rest)
    (shorter : rest.length ≤ s.length) (scanned : Scanned rest ls) : Scanned (c :: s) (.str text :: ls) := by
  intro n z z' enough run clean room fits
  rw [List.length_cons] at room
  have more : z.toks.length < maxTokens - 1 := by omega
  obtain ⟨n, rfl⟩ := Nat.exists_eq_succ_of_ne_zero (Nat.ne_of_gt (Nat.lt_of_lt_of_le (Nat.succ_pos _) enough))
  have run' := (scan_string (step (fits _ (List.mem_cons_self ..))) more).symm.trans run
  have noError := scan_error run' clean
  have pushed : (z.addString text).toks.length = z.toks.length + 1 := by
    rw [Scan.addString]
    split <;> exact List.length_append
  obtain ⟨table, ts, toks, all⟩ := scanned n (z.addString text) z' (shorter.trans (Nat.le_of_succ_le_succ enough))
    run' clean (by omega) fun l member => fits l (List.mem_cons_of_mem _ member)
  rw [Scan.addString] at noError table toks
  split at noError
  · cases noError
  next there =>
    rw [if_neg there] at table toks
    simp only [Scan.push] at table toks
    refine ⟨?_, { Token.plain .str with strOff := z.strtab.length, text := text } :: ts, ?_,
      .cons ⟨rfl, rfl, ?_⟩ all⟩
    · rw [List.append_assoc] at table
      exact (List.prefix_append _ _).trans table
    · rw [toks, List.append_assoc]
      rfl
    · obtain ⟨after, same⟩ := table
      refine ⟨after, ?_⟩
      rw [← same, List.append_assoc, List.append_assoc, List.append_assoc]
      exact (List.drop_left ..).symm

end Scanned

/-- A lexeme that a small token says fits. -/
theorem Encodes.fits {strtab : List UInt8} {t : Token} {l : Lexeme} (encodes : Encodes strtab t l)
    (small : t.Small) : l.Fits := by
  cases l with
  | int v => exact trivial
  | word name => exact encodes.2 ▸ small.sval
  | str text => exact encodes.2.1 ▸ small.text
  | punct kind => exact trivial

/-- tokenize is the loop, and T_EOF. -/
theorem tokenize_scan {text : List UInt8} {z : Scan} (read : tokenize text = some z) :
    ∃ z', scan text.length text ⟨[], [], false⟩ = some z' ∧ z = z'.push (Token.plain .eof) := by
  obtain ⟨z', run, same⟩ := Option.map_eq_some_iff.mp read
  exact ⟨z', run, same.symm⟩

/-- A text of letters is one word, however long. -/
theorem Lexes.letters {c : UInt8} {s : List UInt8} {ls : List Lexeme} (lexes : Lexes (c :: s) ls)
    (letters : ∀ x ∈ c :: s, isAlpha x = true) : ls = [.word (c :: s)] := by
  have letter := letters c (List.mem_cons_self ..)
  have start : isWordStart c = true := by rw [isWordStart, letter, Bool.true_or]
  obtain ⟨space, slash, hash, digit⟩ := isWordStart_other start
  cases lexes with
  | blank yes => exact absurd yes (by simp [space])
  | lineComment => exact absurd rfl slash
  | directive => exact absurd rfl hash
  | comment => exact absurd rfl slash
  | decimal run => exact absurd (run.1 c (List.mem_cons_self ..)) (by simp [digit])
  | hex => exact absurd digit (by decide)
  | @word _ name s ls _ run rest =>
      cases s with
      | nil =>
          cases rest
          rw [List.append_nil]
      | cons d s =>
          have stop := run.2 d rfl
          have more := letters d (by simp)
          rw [isWordChar, more] at stop
          cases stop
  | str => exact absurd letter (by decide)
  | punct spelled =>
      have other : isWordStart c = false := (spellings_plain _ spelled).2.2.2.1
      exact absurd start (by simp [other])

end Zenbite.Zbc
