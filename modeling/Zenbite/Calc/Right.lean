import Zenbite.Calc

/-! What Mini-Calc gets right: the texts without a blank where the evaluator does not skip one. -/

namespace Zenbite.Calc

/-! Numbers -/

theorem digit_toNat (d : Fin 10) : (digit d).toNat = 48 + d.val := by
  rw [digit, UInt8.toNat_ofNat']
  omega

theorem digit_range (d : Fin 10) : 48 ≤ digit d ∧ digit d ≤ 57 := by
  have code := digit_toNat d
  rw [UInt8.le_iff_toNat_le, UInt8.le_iff_toNat_le, code]
  exact ⟨Nat.le_add_right 48 _, Nat.add_le_add_left (Nat.le_of_lt_succ d.isLt) 48⟩

theorem digit_ne (d : Fin 10) {c : UInt8} (other : ¬ (48 ≤ c ∧ c ≤ 57)) : digit d ≠ c := by
  intro same
  exact other (same ▸ digit_range d)

theorem wrapInt_step (v d : Int) : wrapInt (wrapInt v * 10 + d) = wrapInt (v * 10 + d) := by
  calc wrapInt (wrapInt v * 10 + d)
      = wrapInt (wrapInt (wrapInt v * 10) + d) := Int.bmod_add_bmod.symm
    _ = wrapInt (wrapInt (v * 10) + d) := congrArg (fun x => wrapInt (x + d)) Int.bmod_mul_bmod
    _ = wrapInt (v * 10 + d) := Int.bmod_add_bmod

/-- The text ends a number. -/
def NoDigit (s : List UInt8) : Prop := ∀ c, s.head? = some c → ¬ (48 ≤ c ∧ c ≤ 57)

theorem number_rest {s : List UInt8} (ends : NoDigit s) (v : Int) : number v s = (v, s) := by
  cases s with
  | nil => rfl
  | cons c rest => rw [number, if_neg (ends c rfl)]

theorem number_digits {rest : List UInt8} (ends : NoDigit rest) (ds : List (Fin 10)) (v : Int) :
    number (wrapInt v) (ds.map digit ++ rest) = (wrapInt (ds.foldl (fun v d => v * 10 + d.val) v), rest) := by
  induction ds generalizing v with
  | nil => exact number_rest ends _
  | cons d ds ih =>
      have code : ((digit d).toNat : Int) - 48 = d.val := by
        rw [digit_toNat]
        omega
      rw [List.map_cons, List.cons_append, number, if_pos (digit_range d), code, wrapInt_step, ih, List.foldl_cons]

theorem dropWhile_blanks (n : Nat) {s : List UInt8} (start : s.head? ≠ some 32) :
    (blanks n ++ s).dropWhile (· = 32) = s := by
  induction n with
  | zero =>
      cases s with
      | nil => rfl
      | cons c rest =>
          have other : ¬ c = 32 := fun same => start (congrArg some same)
          exact List.dropWhile_cons_of_neg (by simpa using other)
  | succ n ih => exact ih

/-! The value, with the faults of the machine -/

def MulOp.run (a b : Int) : MulOp → Except Stop Int
  | .mul => .ok (wrapInt (a * b))
  | .div => if b ≠ 0 then machineDiv a b else .ok 0

theorem termOp_char (op : MulOp) : termOp op.char = some fun a b => op.run a b := by
  cases op <;> rfl

theorem exprOp_char (op : AddOp) : exprOp op.char = some fun a b => .ok (op.value a b) := by
  cases op <;> rfl

namespace Syn

variable {l : Level}

@[simp] def eval {l : Level} : Syn l → Except Stop Int
  | .num d ds => .ok (wrapInt (decimal (d :: ds)))
  | .neg _ e => e.eval >>= fun v => .ok (wrapInt (-v))
  | .paren _ e _ => e.eval
  | .ofFactor e => e.eval
  | .times l _ op _ r => l.eval >>= fun a => r.eval >>= fun b => op.run a b
  | .ofTerm e => e.eval
  | .plus l _ op _ r => l.eval >>= fun a => r.eval >>= fun b => .ok (op.value a b)

/-- The operators of a term or a sum. -/
@[simp] def links {l : Level} : Syn l → Nat
  | .times l _ _ _ _ => l.links + 1
  | .plus l _ _ _ _ => l.links + 1
  | _ => 0

@[simp] def size {l : Level} : Syn l → Nat
  | .num _ _ => 1
  | .neg _ e => e.size + 1
  | .paren _ e _ => e.size + 1
  | .ofFactor e => e.size
  | .times l _ _ _ r => l.size + r.size
  | .ofTerm e => e.size
  | .plus l _ _ _ r => l.size + r.size

theorem size_pos (e : Syn l) : 0 < e.size := by
  induction e with
  | num d ds => exact Nat.one_pos
  | neg gap e ih => exact Nat.succ_pos _
  | paren before e after ih => exact Nat.succ_pos _
  | ofFactor e ih => exact ih
  | times l before op after r ihl ihr => exact Nat.add_pos_left ihl _
  | ofTerm e ih => exact ih
  | plus l before op after r ihl ihr => exact Nat.add_pos_left ihl _

theorem links_lt (e : Syn l) : e.links < e.size := by
  induction e with
  | num d ds => exact Nat.one_pos
  | neg gap e ih => exact Nat.succ_pos _
  | paren before e after ih => exact Nat.succ_pos _
  | ofFactor e ih => exact size_pos _
  | times l before op after r ihl ihr =>
      have more := size_pos r
      rw [links, size]
      omega
  | ofTerm e ih => exact size_pos _
  | plus l before op after r ihl ihr =>
      have more := size_pos r
      rw [links, size]
      omega

theorem size_le (e : Syn l) : e.size ≤ e.text.length := by
  induction e with
  | num d ds =>
      rw [size, text, List.map_cons, List.length_cons]
      omega
  | neg gap e ih =>
      rw [size, text, List.length_cons, List.length_append]
      omega
  | paren before e after ih =>
      rw [size, text, List.length_cons, List.length_append, List.length_append, List.length_append]
      omega
  | ofFactor e ih => exact ih
  | times l before op after r ihl ihr =>
      rw [size, text, List.length_append, List.length_append, List.length_cons, List.length_append]
      omega
  | ofTerm e ih => exact ih
  | plus l before op after r ihl ihr =>
      rw [size, text, List.length_append, List.length_append, List.length_cons, List.length_append]
      omega

end Syn

/-! The loop -/

section Chain

variable {operand : List UInt8 → Read} {apply : UInt8 → Option (Int → Int → Except Stop Int)} {n : Nat} {v : Int}
  {s : List UInt8}

theorem chain_stop (ends : s.head?.bind apply = none) : chain operand apply (n + 1) v s = .ok (v, s) := by
  rw [chain, ends, Option.elim_none]

theorem chain_op {c : UInt8} {op : Int → Int → Except Stop Int} (taken : apply c = some op) :
    chain operand apply (n + 1) v (c :: s) =
      operand s >>= fun rhs => op v rhs.1 >>= fun v => chain operand apply n v rhs.2 := by
  rw [chain, List.head?_cons, Option.bind_some, taken, Option.elim_some, List.tail_cons]

end Chain

/-! What stands behind an expression -/

/-- The end, a blank or a closing parenthesis. -/
def ends : List (Option UInt8) := [none, some 32, some 41]

def behindTerm : List (Option UInt8) := ends ++ [some 43, some 45]

def behindFactor : List (Option UInt8) := behindTerm ++ [some 42, some 47]

theorem noDigit_of_behind {s : List UInt8} (behind : s.head? ∈ behindFactor) : NoDigit s := by
  intro c here
  have code : c ∈ [32, 41, 43, 45, 42, 47] := by simpa [here, behindFactor, behindTerm, ends] using behind
  simp only [List.mem_cons, List.not_mem_nil, or_false] at code
  rcases code with blank | close | plus | minus | times | slash
  all_goals
    subst c
    decide

theorem termOp_behind {s : List UInt8} (behind : s.head? ∈ behindTerm) : s.head?.bind termOp = none := by
  simp only [behindTerm, ends, List.mem_append, List.mem_cons, List.not_mem_nil, or_false, or_assoc] at behind
  rcases behind with last | blank | close | plus | minus
  · rw [last, Option.bind_none]
  · rw [blank, Option.bind_some, termOp, if_neg (by decide), if_neg (by decide)]
  · rw [close, Option.bind_some, termOp, if_neg (by decide), if_neg (by decide)]
  · rw [plus, Option.bind_some, termOp, if_neg (by decide), if_neg (by decide)]
  · rw [minus, Option.bind_some, termOp, if_neg (by decide), if_neg (by decide)]

theorem exprOp_ends {s : List UInt8} (behind : s.head? ∈ ends) : s.head?.bind exprOp = none := by
  simp only [ends, List.mem_cons, List.not_mem_nil, or_false] at behind
  rcases behind with last | blank | close
  · rw [last, Option.bind_none]
  · rw [blank, Option.bind_some, exprOp, if_neg (by decide), if_neg (by decide)]
  · rw [close, Option.bind_some, exprOp, if_neg (by decide), if_neg (by decide)]

/-- Where an expression has been read: behind it, or before a blank when only blanks and closing
parentheses are behind it. -/
def After (closed : Bool) (rest s : List UInt8) : Prop := s = rest ∨ closed = true ∧ s.head? = some 32

theorem After.head {closed : Bool} {rest s : List UInt8} {heads : List (Option UInt8)} (after : After closed rest s)
    (blank : some 32 ∈ heads) (behind : rest.head? ∈ heads) : s.head? ∈ heads := by
  rcases after with same | ⟨_, here⟩
  · exact same ▸ behind
  · exact here ▸ blank

/-- The evaluator reads an expression, and goes on behind it with its value. -/
def Reads (fuel : Nat) : {l : Level} → Syn l → Prop
  | .factor, e => ∀ closed lead rest, e.Tight closed → rest.head? ∈ behindFactor → ∃ s, After closed rest s ∧
      calcAtom fuel (blanks lead ++ (e.text ++ rest)) = e.eval >>= fun v => .ok (v, s)
  | .term, e => ∀ closed lead n rest, e.Tight closed → rest.head? ∈ behindFactor → ∃ s, After closed rest s ∧
      termOf (calcAtom fuel) (n + e.links) (blanks lead ++ (e.text ++ rest)) =
        e.eval >>= fun v => chain (calcAtom fuel) termOp n v s
  | .sum, e => ∀ closed lead n rest, e.Tight closed → rest.head? ∈ behindTerm → ∃ s, After closed rest s ∧
      (termOf (calcAtom fuel) fuel (blanks lead ++ (e.text ++ rest)) >>= fun v =>
        chain (termOf (calcAtom fuel) fuel) exprOp (n + e.links) v.1 v.2) =
        e.eval >>= fun v => chain (termOf (calcAtom fuel) fuel) exprOp n v s

section Reads

variable {fuel : Nat}

private theorem head_ne {c d : UInt8} (s : List UInt8) (other : c ≠ d) : (c :: s).head? ≠ some d :=
  fun same => other (Option.some.inj same)

theorem calcAtom_open (lead : Nat) (s : List UInt8) : calcAtom (fuel + 1) (blanks lead ++ 40 :: s) =
    exprOf (calcAtom fuel) fuel s >>= fun v => .ok (v.1, if v.2.head? = some 41 then v.2.tail else v.2) := by
  rw [calcAtom, dropWhile_blanks lead (head_ne s (by decide)), atomAt, if_pos List.head?_cons, List.tail_cons]

theorem calcAtom_minus (lead : Nat) (s : List UInt8) : calcAtom (fuel + 1) (blanks lead ++ 45 :: s) =
    .ok (wrapInt (-1 * (number 0 s).1), (number 0 s).2) := by
  rw [calcAtom, dropWhile_blanks lead (head_ne s (by decide)), atomAt, if_neg (head_ne s (by decide)),
    if_pos List.head?_cons, List.tail_cons]

theorem calcAtom_number (lead : Nat) (d : Fin 10) (s : List UInt8) : calcAtom (fuel + 1) (blanks lead ++ digit d :: s) =
    .ok (wrapInt (1 * (number 0 (digit d :: s)).1), (number 0 (digit d :: s)).2) := by
  have plain : ∀ c : UInt8, ¬ (48 ≤ c ∧ c ≤ 57) → (digit d :: s).head? ≠ some c :=
    fun c other => head_ne s (digit_ne d other)
  rw [calcAtom, dropWhile_blanks lead (plain 32 (by decide)), atomAt, if_neg (plain 40 (by decide)),
    if_neg (plain 45 (by decide))]

theorem number_read {rest : List UInt8} (behind : rest.head? ∈ behindFactor) (d : Fin 10) (ds : List (Fin 10)) :
    number 0 (digit d :: (ds.map digit ++ rest)) = (wrapInt (decimal (d :: ds)), rest) :=
  number_digits (noDigit_of_behind behind) (d :: ds) 0

theorem reads_num (d : Fin 10) (ds : List (Fin 10)) : Reads (fuel + 1) (.num d ds) := by
  intro closed lead rest _ behind
  have text : (Syn.num d ds).text ++ rest = digit d :: (ds.map digit ++ rest) := rfl
  have wrapped : wrapInt (1 * wrapInt (decimal (d :: ds))) = wrapInt (decimal (d :: ds)) := by
    rw [Int.one_mul]
    exact Int.bmod_bmod
  apply Exists.intro rest
  apply And.intro (Or.inl rfl)
  rw [text, calcAtom_number, number_read behind, wrapped]
  rfl

theorem reads_neg {gap : Nat} {e : Syn .factor} : Reads (fuel + 1) (.neg gap e) := by
  intro closed lead rest tight behind
  cases e with
  | num d ds =>
      have none : gap = 0 := tight.1
      subst none
      have text : (Syn.neg 0 (.num d ds)).text ++ rest = 45 :: digit d :: (ds.map digit ++ rest) := rfl
      have sign : wrapInt (-1 * wrapInt (decimal (d :: ds))) = wrapInt (-wrapInt (decimal (d :: ds))) := by
        rw [Int.neg_mul, Int.one_mul]
      apply Exists.intro rest
      apply And.intro (Or.inl rfl)
      rw [text, calcAtom_minus, number_read behind, sign]
      rfl
  | neg gap e => exact absurd tight.2 id
  | paren before e after => exact absurd tight.2 id

theorem reads_ofFactor {e : Syn .factor} (factor : Reads fuel e) : Reads fuel (.ofFactor e) := by
  intro closed lead n rest tight behind
  obtain ⟨s, after, read⟩ := factor closed lead rest tight behind
  have same : (Syn.ofFactor e).text = e.text := rfl
  apply Exists.intro s
  apply And.intro after
  calc termOf (calcAtom fuel) n (blanks lead ++ (e.text ++ rest))
      = (calcAtom fuel (blanks lead ++ (e.text ++ rest)) >>= fun v => chain (calcAtom fuel) termOp n v.1 v.2) := rfl
    _ = e.eval >>= fun v => chain (calcAtom fuel) termOp n v s := by
      rw [read, bind_assoc]
      rfl

private theorem bin_text (left right rest : List UInt8) (c : UInt8) (after : Nat) :
    left ++ blanks 0 ++ c :: (blanks after ++ right) ++ rest = left ++ c :: (blanks after ++ (right ++ rest)) := by
  rw [blanks, List.replicate_zero, List.append_nil, List.append_assoc, List.cons_append, List.append_assoc]

theorem reads_times {left : Syn .term} {before after : Nat} {op : MulOp} {right : Syn .factor} (term : Reads fuel left)
    (factor : Reads fuel right) : Reads fuel (.times left before op after right) := by
  intro closed lead n rest tight behind
  have none : before = 0 := tight.1
  subst none
  have head : some op.char ∈ behindFactor := by
    cases op <;> decide
  have count : n + (left.links + 1) = n + 1 + left.links := by omega
  obtain ⟨s, behindLeft, first⟩ := term false lead (n + 1) (op.char :: (blanks after ++ (right.text ++ rest))) tight.2.1 head
  obtain ⟨t, behindRight, second⟩ := factor closed after rest tight.2.2 behind
  have here : s = op.char :: (blanks after ++ (right.text ++ rest)) :=
    behindLeft.resolve_right fun both => Bool.false_ne_true both.1
  subst here
  apply Exists.intro t
  apply And.intro behindRight
  rw [Syn.text, Syn.links, Syn.eval, bin_text, count, first, bind_assoc]
  apply congrArg (left.eval >>= ·)
  funext a
  rw [chain_op (termOp_char op), second, bind_assoc, bind_assoc]
  rfl

theorem Reads.operand {e : Syn .term} (term : Reads fuel e) (enough : e.size ≤ fuel) {closed : Bool} (lead : Nat)
    {rest : List UInt8} (tight : e.Tight closed) (behind : rest.head? ∈ behindTerm) : ∃ s, After closed rest s ∧
      termOf (calcAtom fuel) fuel (blanks lead ++ (e.text ++ rest)) = e.eval >>= fun v => .ok (v, s) := by
  have count : fuel = fuel - e.links - 1 + 1 + e.links := by
    have more := e.links_lt
    omega
  obtain ⟨s, after, read⟩ := term closed lead (fuel - e.links - 1 + 1) rest tight (List.mem_append_left _ behind)
  have stop := termOp_behind (after.head (by decide) behind)
  rw [← count] at read
  apply Exists.intro s
  apply And.intro after
  rw [read]
  apply congrArg (e.eval >>= ·)
  funext v
  exact chain_stop stop

theorem reads_ofTerm {e : Syn .term} (term : Reads fuel e) (enough : e.size ≤ fuel) : Reads fuel (.ofTerm e) := by
  intro closed lead n rest tight behind
  obtain ⟨s, after, read⟩ := term.operand enough lead tight behind
  apply Exists.intro s
  apply And.intro after
  rw [Syn.text, read, bind_assoc]
  rfl

theorem reads_plus {left : Syn .sum} {before after : Nat} {op : AddOp} {right : Syn .term} (sum : Reads fuel left)
    (term : Reads fuel right) (enough : right.size ≤ fuel) : Reads fuel (.plus left before op after right) := by
  intro closed lead n rest tight behind
  have none : before = 0 := tight.1
  subst none
  have head : some op.char ∈ behindTerm := by
    cases op <;> decide
  have count : n + (left.links + 1) = n + 1 + left.links := by omega
  obtain ⟨s, behindLeft, first⟩ := sum false lead (n + 1) (op.char :: (blanks after ++ (right.text ++ rest))) tight.2.1 head
  obtain ⟨t, behindRight, second⟩ := term.operand enough after tight.2.2 behind
  have here : s = op.char :: (blanks after ++ (right.text ++ rest)) :=
    behindLeft.resolve_right fun both => Bool.false_ne_true both.1
  subst here
  apply Exists.intro t
  apply And.intro behindRight
  rw [Syn.text, Syn.links, Syn.eval, bin_text, count, first, bind_assoc]
  apply congrArg (left.eval >>= ·)
  funext a
  rw [chain_op (exprOp_char op), second, bind_assoc, bind_assoc]
  rfl

theorem Reads.whole {e : Syn .sum} (sum : Reads fuel e) (enough : e.size ≤ fuel) {closed : Bool} (lead : Nat)
    {rest : List UInt8} (tight : e.Tight closed) (behind : rest.head? ∈ ends) : ∃ s, After closed rest s ∧
      exprOf (calcAtom fuel) fuel (blanks lead ++ (e.text ++ rest)) = e.eval >>= fun v => .ok (v, s) := by
  have count : fuel = fuel - e.links - 1 + 1 + e.links := by
    have more := e.links_lt
    omega
  obtain ⟨s, after, read⟩ := sum closed lead (fuel - e.links - 1 + 1) rest tight (List.mem_append_left _ behind)
  have stop := exprOp_ends (after.head (by decide) behind)
  rw [← count] at read
  apply Exists.intro s
  apply And.intro after
  rw [exprOf, read]
  apply congrArg (e.eval >>= ·)
  funext v
  exact chain_stop stop

theorem reads_paren {before after : Nat} {e : Syn .sum} (inside : Reads fuel e) (enough : e.size ≤ fuel) :
    Reads (fuel + 1) (.paren before e after) := by
  intro closed lead rest tight behind
  have text : (Syn.paren before e after).text ++ rest = 40 :: (blanks before ++ (e.text ++ (blanks after ++ 41 :: rest))) := by
    rw [Syn.text, List.cons_append, List.append_assoc, List.append_assoc, List.append_assoc, List.singleton_append]
  have head : (blanks after ++ 41 :: rest).head? = if after = 0 then some 41 else some 32 := by
    cases after <;> rfl
  have closes : (blanks after ++ 41 :: rest).head? ∈ ends := by
    rw [head]
    split_ifs <;> decide
  obtain ⟨s, place, read⟩ := inside.whole enough before tight.1 closes
  apply Exists.intro (if s.head? = some 41 then s.tail else s)
  constructor
  · rcases place with same | ⟨isClosed, blank⟩
    · rw [same, head]
      by_cases none : after = 0
      · subst none
        exact Or.inl rfl
      · rw [if_neg none, if_neg (by decide)]
        exact Or.inr ⟨tight.2.resolve_left none, head.trans (if_neg none)⟩
    · rw [blank, if_neg (by decide)]
      exact Or.inr ⟨isClosed, blank⟩
  · rw [text, calcAtom_open, read, bind_assoc]
    rfl

/-- The evaluator reads every tight expression. -/
theorem reads {l : Level} (e : Syn l) : ∀ {fuel : Nat}, e.size ≤ fuel → Reads fuel e := by
  induction e with
  | num d ds =>
      intro fuel enough
      obtain ⟨k, rfl⟩ := Nat.exists_eq_add_of_le' enough
      exact reads_num d ds
  | neg gap e ih =>
      intro fuel enough
      obtain ⟨k, rfl⟩ := Nat.exists_eq_add_of_le' (Nat.one_le_of_lt enough)
      exact reads_neg
  | paren before e after ih =>
      intro fuel enough
      obtain ⟨k, rfl⟩ := Nat.exists_eq_add_of_le' (Nat.one_le_of_lt enough)
      have inner : e.size ≤ k := Nat.le_of_succ_le_succ enough
      exact reads_paren (ih inner) inner
  | ofFactor e ih =>
      intro fuel enough
      exact reads_ofFactor (ih enough)
  | times l before op after r ihl ihr =>
      intro fuel enough
      exact reads_times (ihl (Nat.le_of_add_right_le enough)) (ihr (Nat.le_of_add_left_le enough))
  | ofTerm e ih =>
      intro fuel enough
      exact reads_ofTerm (ih enough) enough
  | plus l before op after r ihl ihr =>
      intro fuel enough
      have right : r.size ≤ fuel := Nat.le_of_add_left_le enough
      exact reads_plus (ihl (Nat.le_of_add_right_le enough)) (ihr right) right

end Reads

/-! Values and faults -/

theorem wrapInt_range (x : Int) : intMin ≤ wrapInt x ∧ wrapInt x < 2 ^ 31 := by
  rw [intMin, wrapInt, Int.bmod_def]
  omega

theorem wrapInt_of_range {x : Int} (low : intMin ≤ x) (high : x < 2 ^ 31) : wrapInt x = x := by
  rw [intMin] at low
  rw [wrapInt, Int.bmod_def]
  omega

theorem tdiv_range {a b : Int} (low : intMin ≤ a) (high : a < 2 ^ 31) (some' : b ≠ 0) (fine : ¬ (a = intMin ∧ b = -1)) :
    intMin ≤ a.tdiv b ∧ a.tdiv b < 2 ^ 31 := by
  rw [intMin] at low fine ⊢
  by_cases one : b = 1
  · rw [one, Int.tdiv_one]
    exact ⟨low, high⟩
  · by_cases minus : b = -1
    · rw [minus, Int.tdiv_neg, Int.tdiv_one]
      omega
    · have half : a.natAbs / b.natAbs ≤ a.natAbs / 2 := Nat.div_le_div_left (by omega) (by decide)
      have size : (a.tdiv b).natAbs ≤ a.natAbs / 2 := Int.natAbs_tdiv a b ▸ half
      omega

theorem MulOp.run_value {a b : Int} (op : MulOp) (low : intMin ≤ a) (high : a < 2 ^ 31)
    (fine : ¬ (op = .div ∧ a = intMin ∧ b = -1)) : op.run a b = .ok (op.value a b) := by
  cases op with
  | mul => rfl
  | div =>
      have quotient : ¬ (a = intMin ∧ b = -1) := fun both => fine ⟨rfl, both⟩
      rw [MulOp.run, MulOp.value]
      by_cases zero : b = 0
      · rw [if_neg (not_not.mpr zero), if_pos zero]
      · have range := tdiv_range low high zero quotient
        rw [if_pos zero, if_neg zero, machineDiv, if_neg (not_or.mpr ⟨zero, quotient⟩), wrapInt_of_range range.1 range.2]

theorem MulOp.run_fine {a b v : Int} {op : MulOp} (done : op.run a b = .ok v) : ¬ (op = .div ∧ a = intMin ∧ b = -1) := by
  intro ⟨isDiv, low, minus⟩
  rw [isDiv, low, minus, MulOp.run, if_pos (by decide), machineDiv, if_pos (Or.inr ⟨rfl, rfl⟩)] at done
  cases done

private theorem bind_ok {α β : Type} {x : Except Stop α} {f : α → Except Stop β} {b : β} (done : x >>= f = .ok b) :
    ∃ a, x = .ok a ∧ f a = .ok b := by
  cases x with
  | error stop => cases done
  | ok a => exact ⟨a, rfl, done⟩

namespace Syn

variable {l : Level}

theorem value_range (e : Syn l) : intMin ≤ e.value ∧ e.value < 2 ^ 31 := by
  induction e with
  | num d ds => exact wrapInt_range _
  | neg gap e ih => exact wrapInt_range _
  | paren before e after ih => exact ih
  | ofFactor e ih => exact ih
  | times l before op after r ihl ihr =>
      cases op with
      | mul => exact wrapInt_range _
      | div =>
          rw [value, MulOp.value]
          split_ifs with zero
          · decide
          · exact wrapInt_range _
  | ofTerm e ih => exact ih
  | plus l before op after r ihl ihr =>
      cases op with
      | add => exact wrapInt_range _
      | sub => exact wrapInt_range _

theorem eval_of_divides (e : Syn l) (fine : e.Divides) : e.eval = .ok e.value := by
  induction e with
  | num d ds => rfl
  | neg gap e ih =>
      rw [eval, ih fine]
      rfl
  | paren before e after ih => exact ih fine
  | ofFactor e ih => exact ih fine
  | times l before op after r ihl ihr =>
      rw [eval, ihl fine.1.1, ihr fine.1.2]
      exact op.run_value l.value_range.1 l.value_range.2 fine.2
  | ofTerm e ih => exact ih fine
  | plus l before op after r ihl ihr =>
      rw [eval, ihl fine.1, ihr fine.2]
      rfl

/-- A bad quotient stops the evaluation. -/
theorem divides_of_eval (e : Syn l) : ∀ {v : Int}, e.eval = .ok v → e.Divides := by
  induction e with
  | num d ds => exact fun _ => trivial
  | neg gap e ih =>
      intro v done
      obtain ⟨a, inner, _⟩ := bind_ok done
      exact ih inner
  | paren before e after ih => exact ih
  | ofFactor e ih => exact ih
  | times l before op after r ihl ihr =>
      intro v done
      obtain ⟨a, left, rest⟩ := bind_ok done
      obtain ⟨b, right, last⟩ := bind_ok rest
      have first := Except.ok.inj (left.symm.trans (l.eval_of_divides (ihl left)))
      have second := Except.ok.inj (right.symm.trans (r.eval_of_divides (ihr right)))
      rw [first, second] at last
      exact ⟨⟨ihl left, ihr right⟩, MulOp.run_fine last⟩
  | ofTerm e ih => exact ih
  | plus l before op after r ihl ihr =>
      intro v done
      obtain ⟨a, left, rest⟩ := bind_ok done
      obtain ⟨b, right, _⟩ := bind_ok rest
      exact ⟨ihl left, ihr right⟩

end Syn

/-- What calc_expr returns for a tight expression, whatever is behind the blanks after it. -/
theorem calcExpr_tight {e : Syn .sum} {closed : Bool} (lead : Nat) {rest : List UInt8} (tight : e.Tight closed)
    (behind : rest.head? ∈ ends) : (calcExpr (blanks lead ++ e.text ++ rest)).map Prod.fst = e.eval := by
  have whole : blanks lead ++ e.text ++ rest = blanks lead ++ (e.text ++ rest) := List.append_assoc ..
  have enough : e.size ≤ (blanks lead ++ (e.text ++ rest)).length + 1 := by
    have size := e.size_le
    rw [List.length_append, List.length_append]
    omega
  obtain ⟨s, _, read⟩ := (reads e enough).whole enough lead tight behind
  rw [whole, calcExpr, read]
  cases e.eval with
  | error stop => rfl
  | ok v => rfl

/-- On a tight expression calc_expr is right unless -2147483648 is divided by -1 somewhere. -/
theorem calc_right_iff {e : Syn .sum} (tight : e.Tight true) (lead trail : Nat) : Right lead trail e ↔ e.Divides := by
  have closes : (blanks trail).head? ∈ ends := by
    cases trail with
    | zero => exact List.mem_cons_self
    | succ n => exact List.mem_cons_of_mem _ List.mem_cons_self
  rw [Right, calcExpr_tight lead tight closes]
  exact ⟨e.divides_of_eval, e.eval_of_divides⟩

/-- "( 1+2)*3 " is 9. -/
theorem calc_right_tight : Right 0 1 (.ofTerm (.times (.ofFactor (.paren 1 (.plus (.ofTerm (.ofFactor (.num 1 []))) 0
    .add 0 (.ofFactor (.num 2 []))) 0)) 0 .mul 0 (.num 3 []))) :=
  (calc_right_iff (by decide) 0 1).mpr (by decide)

/-- "1 + 2" is 1: the loop of calc_expr ends at the blank. -/
theorem calc_blank_before_plus :
    ¬ Right 0 0 (.plus (.ofTerm (.ofFactor (.num 1 []))) 1 .add 1 (.ofFactor (.num 2 []))) := by
  rw [Right]
  decide

/-- A text that is cut short can have the right value: "1 + 0". -/
example : Right 0 0 (.plus (.ofTerm (.ofFactor (.num 1 []))) 1 .add 1 (.ofFactor (.num 0 []))) := by
  rw [Right]
  decide

end Zenbite.Calc
