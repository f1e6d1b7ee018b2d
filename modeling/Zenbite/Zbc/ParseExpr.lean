import Zenbite.Zbc.Print

/-! The expression parser of zbc.c on printed expressions. -/

namespace Zenbite.Zbc

open Acts

/-- A token without the text that only the string table keeps. -/
def Token.bare (t : Token) : Token := { t with text := [] }

/-- From `p` on the array holds `ts`. -/
def Stands (toks : Nat → Token) : Nat → List Token → Prop
  | _, [] => True
  | p, t :: ts => (toks p).bare = t ∧ Stands toks (p + 1) ts

/-- What ends an expression. -/
def Stops (k : TokenKind) : Prop := k ≠ .lpar ∧ binPrec k = 0 ∧ ¬ isAssign k

/-- `s`, but at `p` and with the nodes `ns`. -/
def Stage (s : Parser) (p : Nat) (ns : List Node) (t : Parser) : Prop :=
  ∃ far, t = { s with pos := p, nodes := ns, far := far }

/-- At `p` with the nodes `ns` the act returns `a`, and leaves `q` and `ms`. -/
def Does {α : Type} (s : Parser) (p : Nat) (ns : List Node) (act : Parse α) (a : α) (q : Nat) (ms : List Node) : Prop :=
  Triple (Stage s p ns) act fun b t => b = a ∧ Stage s q ms t

section Does
variable {α β : Type} {toks : Nat → Token} {s : Parser} {p q q' : Nat} {ns ms ms' : List Node} {act other : Parse α}
  {next : α → Parse β} {a : α} {b : β}

theorem Does.pure (a : α) : Does s p ns (Pure.pure a) a p ns := fun _ stage => ⟨rfl, stage⟩

theorem Does.bind (first : Does s p ns act a q ms) (rest : Does s q ms (next a) b q' ms') :
    Does s p ns (act >>= next) b q' ms' :=
  Triple.bind first fun _ => Triple.assume fun same => same ▸ rest

theorem Does.yes {c : Prop} [Decidable c] (holds : c) (does : Does s p ns act a q ms) :
    Does s p ns (if c then act else other) a q ms := by
  rw [if_pos holds]
  exact does

theorem Does.no {c : Prop} [Decidable c] (fails : ¬ c) (does : Does s p ns other a q ms) :
    Does s p ns (if c then act else other) a q ms := by
  rw [if_neg fails]
  exact does

theorem peek_does : Does s p ns (peek toks) (toks p) p ns := by
  rintro t ⟨far, rfl⟩
  exact ⟨rfl, _, rfl⟩

theorem advance_does : Does s p ns (advance toks) (toks p) (p + 1) ns := by
  rintro t ⟨far, rfl⟩
  exact ⟨rfl, _, rfl⟩

theorem accept_yes {t : TokenKind} (here : (toks p).kind = t) : Does s p ns (accept toks t) true (p + 1) ns :=
  peek_does.bind (Does.yes here (advance_does.bind (Does.pure true)))

theorem accept_no {t : TokenKind} (other : (toks p).kind ≠ t) : Does s p ns (accept toks t) false p ns :=
  peek_does.bind (Does.no other (Does.pure false))

theorem expect_does {t : TokenKind} (here : (toks p).kind = t) (what : String) :
    Does s p ns (expect toks t what) () (p + 1) ns := (accept_yes here).bind (Does.yes rfl (Does.pure ()))

theorem newNode_does (kind : NodeKind) (room : ns.length < maxNodes) :
    Does s p ns (newNode kind) ns.length p (ns ++ [Node.fresh kind]) := by
  rintro t ⟨far, rfl⟩
  have made : newNode kind { s with pos := p, nodes := ns, far := far } =
      (ns.length, { s with pos := p, nodes := ns ++ [Node.fresh kind], far := far }) := if_pos room
  rw [made]
  exact ⟨rfl, _, rfl⟩

theorem setNode_does (i : Nat) (change : Node → Node) : Does s p ns (setNode i change) () p (ns.modify i change) := by
  rintro t ⟨far, rfl⟩
  exact ⟨rfl, _, rfl⟩

theorem hadError_does (clean : s.error = none) : Does s p ns hadError false p ns := by
  rintro t ⟨far, rfl⟩
  exact ⟨congrArg Option.isSome clean, _, rfl⟩

theorem nodeKind_does (i : Nat) : Does s p ns (nodeKind i) (ns[i]?.map (·.kind)) p ns := by
  rintro t ⟨far, rfl⟩
  exact ⟨rfl, _, rfl⟩

/-- A new node and what is set in it. -/
theorem made_does (kind : NodeKind) (change : Node → Node) (room : ns.length < maxNodes) :
    Does s p ns (newNode kind >>= fun i => setNode i change >>= fun _ => Pure.pure i) ns.length p
      (ns ++ [change (Node.fresh kind)]) := by
  refine (newNode_does kind room).bind ((setNode_does _ change).bind ?_)
  rw [modify_last]
  exact Does.pure _

end Does

section Stands
variable {toks : Nat → Token} {p : Nat} {ts us : List Token} {t : Token}

theorem stands_append : Stands toks p (ts ++ us) ↔ Stands toks p ts ∧ Stands toks (p + ts.length) us := by
  induction ts generalizing p with
  | nil => exact (and_iff_right trivial).symm
  | cons t ts ih =>
      rw [List.cons_append, Stands, Stands, ih, and_assoc, List.length_cons, Nat.add_assoc, Nat.add_comm 1]

theorem bare_kind (same : (toks p).bare = t) : (toks p).kind = t.kind := by
  rw [← same]
  rfl

end Stands

theorem binPrec_token (op : BinOp) : binPrec op.token = op.prec := by cases op <;> rfl

theorem BinOp.prec_pos (op : BinOp) : 0 < op.prec := by cases op <;> decide

theorem BinOp.prec_le (op : BinOp) : op.prec ≤ 10 := by cases op <;> decide

theorem isAssign_token (op : AssignOp) : isAssign op.token := by cases op <;> decide

theorem assignOp_weak (op : AssignOp) : op.token ≠ .lpar ∧ binPrec op.token < 1 := by cases op <;> decide

theorem binOp_noParen (op : BinOp) : op.token ≠ .lpar := by cases op <;> decide

theorem unOp_kind (op : UnOp) : op.token = .minus ∨ op.token = .not := by
  cases op
  · exact Or.inl rfl
  · exact Or.inr rfl

theorem copyName_fits {x : Name} (fits : x.length ≤ 31) : copyName x = x := List.take_of_length_le fits

/-- The tokens `ts` of `e` stand at `p`, before what `follow` takes, with room for the nodes. -/
structure Ready (toks : Nat → Token) (follow : TokenKind → Prop) (s : Parser) (p : Nat) (ns : List Node)
    (ts : List Token) (e : Expr) : Prop where
  clean : s.error = none
  stands : Stands toks p ts
  stop : follow (toks (p + ts.length)).kind
  room : ns.length + e.size ≤ maxNodes

/-- With enough fuel the act takes exactly `ts`, and makes the nodes of `e`. -/
def Parses (toks : Nat → Token) (act : Nat → Parse Nat) (ts : List Token) (e : Expr) (follow : TokenKind → Prop) : Prop :=
  ∀ s p ns, Ready toks follow s p ns ts e → ∃ fuel, ∀ n, fuel ≤ n →
    Does s p ns (act n) (e.root ns.length) (p + ts.length) (ns ++ e.lay none ns.length)

/-- parse_binop gets through `ts` to its loop with `e` on the left. -/
def Absorbs (toks : Nat → Token) (k : Nat) (ts : List Token) (e : Expr) (follow : TokenKind → Prop) : Prop :=
  ∀ s p ns, Ready toks follow s p ns ts e → ∃ depth fuel, ∀ n, fuel ≤ n → ∀ i q ms,
    Does s (p + ts.length) (ns ++ e.lay none ns.length) ((grammar toks n).climb k (e.root ns.length)) i q ms →
    Does s p ns ((grammar toks (n + depth)).binop k) i q ms

section Levels
variable {toks : Nat → Token} {ts : List Token} {e : Expr} {follow follow' : TokenKind → Prop} {k : Nat}

theorem Ready.weaken {s : Parser} {p : Nat} {ns : List Node} (ready : Ready toks follow' s p ns ts e)
    (less : ∀ t, follow' t → follow t) : Ready toks follow s p ns ts e :=
  ⟨ready.clean, ready.stands, less _ ready.stop, ready.room⟩

theorem Parses.weaken {act : Nat → Parse Nat} (parses : Parses toks act ts e follow)
    (less : ∀ t, follow' t → follow t) : Parses toks act ts e follow' :=
  fun s p ns ready => parses s p ns (ready.weaken less)

theorem Absorbs.weaken (absorbs : Absorbs toks k ts e follow) (less : ∀ t, follow' t → follow t) :
    Absorbs toks k ts e follow' := fun s p ns ready => absorbs s p ns (ready.weaken less)

/-- A primary expression is a left operand at every level. -/
theorem Parses.absorbs (parses : Parses toks (fun n => (grammar toks n).primary) ts e follow) (k : Nat) :
    Absorbs toks k ts e follow := by
  intro s p ns ready
  obtain ⟨fuel, does⟩ := parses s p ns ready
  exact ⟨1, fuel, fun n enough i q ms rest => (does n enough).bind rest⟩

theorem climb_stops {s : Parser} {p : Nat} {ns : List Node} (n lhs : Nat) (weak : binPrec (toks p).kind < k) :
    Does s p ns ((grammar toks (n + 1)).climb k lhs) lhs p ns :=
  peek_does.bind (Does.no (Nat.not_le.mpr weak) (Does.pure lhs))

theorem Absorbs.binop (absorbs : Absorbs toks k ts e follow) (weak : ∀ t, follow t → binPrec t < k) :
    Parses toks (fun n => (grammar toks n).binop k) ts e follow := by
  intro s p ns ready
  obtain ⟨depth, fuel, does⟩ := absorbs s p ns ready
  refine ⟨fuel + 1 + depth, fun n enough => ?_⟩
  obtain ⟨m, rfl⟩ : ∃ m, n = m + 1 + depth := ⟨n - 1 - depth, by omega⟩
  exact does (m + 1) (by omega) _ _ _ (climb_stops m _ (weak _ ready.stop))

theorem Absorbs.expr (absorbs : Absorbs toks 1 ts e follow) (stops : ∀ t, follow' t → follow t ∧ Stops t) :
    Parses toks (fun n => (grammar toks n).expr) ts e follow' := by
  intro s p ns ready
  have weaker : Absorbs toks 1 ts e follow' := absorbs.weaken fun t follows => (stops t follows).1
  have weak (t : TokenKind) (follows : follow' t) : binPrec t < 1 := by
    rw [(stops t follows).2.2.1]
    exact Nat.one_pos
  obtain ⟨fuel, does⟩ := weaker.binop weak s p ns ready
  refine ⟨fuel + 1, fun n enough => ?_⟩
  obtain ⟨m, rfl⟩ : ∃ m, n = m + 1 := ⟨n - 1, by omega⟩
  exact (does m (by omega)).bind (peek_does.bind (Does.no (stops _ ready.stop).2.2.2 (Does.pure _)))

theorem rpar_stops : Stops .rpar := by
  refine ⟨by decide, rfl, by decide⟩

theorem comma_stops : Stops .comma := by
  refine ⟨by decide, rfl, by decide⟩

/-- Parentheses make a primary expression of any expression. -/
theorem Parses.wrapped (parses : Parses toks (fun n => (grammar toks n).expr) ts e Stops) :
    Parses toks (fun n => (grammar toks n).primary) (Token.plain .lpar :: (ts ++ [Token.plain .rpar])) e follow := by
  intro s p ns ready
  obtain ⟨lpar, rest⟩ := ready.stands
  obtain ⟨inner, rpar, -⟩ := stands_append.mp rest
  have close : (toks (p + 1 + ts.length)).kind = .rpar := bare_kind rpar
  have open_ : (toks p).kind = .lpar := bare_kind lpar
  obtain ⟨fuel, does⟩ := parses s (p + 1) ns ⟨ready.clean, inner, close ▸ rpar_stops, ready.room⟩
  refine ⟨fuel + 1, fun n enough => ?_⟩
  obtain ⟨m, rfl⟩ : ∃ m, n = m + 1 := ⟨n - 1, by omega⟩
  have length : p + (Token.plain .lpar :: (ts ++ [Token.plain .rpar])).length = p + 1 + ts.length + 1 := by
    rw [List.length_cons, List.length_append, List.length_singleton]
    omega
  rw [length]
  refine peek_does.bind (Does.no (by rw [open_]; decide) (Does.no (by rw [open_]; decide) (Does.no (by rw [open_]; decide) ?_)))
  refine (accept_yes open_).bind (Does.yes rfl ?_)
  exact (does m (by omega)).bind ((expect_does close _).bind (Does.pure _))

end Levels

section Primaries
variable {toks : Nat → Token} {extra : Expr → Bool}

/-- One round of fuel more is all that a leaf needs. -/
theorem parses_step {act : Nat → Parse Nat} {ts : List Token} {e : Expr} {follow : TokenKind → Prop}
    (step : ∀ s p ns, Ready toks follow s p ns ts e → ∃ fuel, ∀ n, fuel ≤ n →
      Does s p ns (act (n + 1)) (e.root ns.length) (p + ts.length) (ns ++ e.lay none ns.length)) :
    Parses toks act ts e follow := by
  intro s p ns ready
  obtain ⟨fuel, does⟩ := step s p ns ready
  refine ⟨fuel + 1, fun n enough => ?_⟩
  obtain ⟨m, rfl⟩ : ∃ m, n = m + 1 := ⟨n - 1, by omega⟩
  exact does m (by omega)

theorem num_parses (v : Word) :
    Parses toks (fun n => (grammar toks n).primary) ((Expr.num v).tokens extra) (.num v) (· ≠ .lpar) := by
  refine parses_step fun s p ns ready => ⟨0, fun n _ => ?_⟩
  have here := ready.stands.1
  have kind : (toks p).kind = .int := bare_kind here
  have value : (toks p).ival = v := congrArg Token.ival here
  refine peek_does.bind (Does.yes kind ((newNode_does .num ready.room).bind (advance_does.bind ?_)))
  rw [value]
  refine (setNode_does _ _).bind ?_
  rw [modify_last]
  exact Does.pure _

theorem str_parses (off : Nat) :
    Parses toks (fun n => (grammar toks n).primary) ((Expr.str off).tokens extra) (.str off) (· ≠ .lpar) := by
  refine parses_step fun s p ns ready => ⟨0, fun n _ => ?_⟩
  have here := ready.stands.1
  have kind : (toks p).kind = .str := bare_kind here
  have value : (toks p).strOff = off := congrArg Token.strOff here
  refine peek_does.bind (Does.no (by rw [kind]; decide) (Does.yes kind ?_))
  refine (newNode_does .str ready.room).bind (advance_does.bind ?_)
  rw [value]
  refine (setNode_does _ _).bind ?_
  rw [modify_last]
  exact Does.pure _

/-- A name that no parenthesis follows. -/
theorem var_parses {x : Name} (fits : x.length ≤ 31) :
    Parses toks (fun n => (grammar toks n).primary) ((Expr.var x).tokens extra) (.var x) (· ≠ .lpar) := by
  refine parses_step fun s p ns ready => ⟨0, fun n _ => ?_⟩
  have here := ready.stands.1
  have kind : (toks p).kind = .ident := bare_kind here
  have name : (toks p).sval = x := congrArg Token.sval here
  refine peek_does.bind (Does.no (by rw [kind]; decide) (Does.no (by rw [kind]; decide) (Does.yes kind ?_)))
  refine advance_does.bind (peek_does.bind (Does.no ready.stop ?_))
  have made := made_does (s := s) (p := p + 1) .var (fun d => { d with name := copyName (toks p).sval }) ready.room
  rw [name, copyName_fits fits] at made
  rw [name, copyName_fits fits]
  exact made

end Primaries

/-- How an expression without parentheses around it is parsed, at each level that takes it. -/
structure Parsable (toks : Nat → Token) (extra : Expr → Bool) (e : Expr) : Prop where
  primary : 11 ≤ e.level → Parses toks (fun n => (grammar toks n).primary) (e.tokens extra) e (· ≠ .lpar)
  binop : ∀ k, 1 ≤ k → k ≤ e.level → Absorbs toks k (e.tokens extra) e fun t => t ≠ .lpar ∧ binPrec t ≤ e.level
  expr : Parses toks (fun n => (grammar toks n).expr) (e.tokens extra) e Stops

section InPlace
variable {toks : Nat → Token} {extra : Expr → Bool} {e : Expr} {j k : Nat}

theorem Parsable.of_binop (binds : 1 ≤ e.level)
    (primary : 11 ≤ e.level → Parses toks (fun n => (grammar toks n).primary) (e.tokens extra) e (· ≠ .lpar))
    (binop : ∀ k, 1 ≤ k → k ≤ e.level → Absorbs toks k (e.tokens extra) e fun t => t ≠ .lpar ∧ binPrec t ≤ e.level) :
    Parsable toks extra e := by
  refine ⟨primary, binop, (binop 1 (Nat.le_refl 1) binds).expr fun t stops => ⟨⟨stops.1, ?_⟩, stops⟩⟩
  rw [stops.2.1]
  exact Nat.zero_le _

theorem Parsable.of_primary (level : e.level = 11)
    (primary : Parses toks (fun n => (grammar toks n).primary) (e.tokens extra) e (· ≠ .lpar)) :
    Parsable toks extra e :=
  .of_binop (level ▸ by decide) (fun _ => primary) fun k _ _ => (primary.absorbs k).weaken fun _ => And.left

theorem inPlace_cases (extra : Expr → Bool) (k : Nat) (e : Expr) (ts : List Token) :
    inPlace extra k e ts = Token.plain .lpar :: (ts ++ [Token.plain .rpar]) ∨
      k ≤ e.level ∧ inPlace extra k e ts = ts := by
  rw [inPlace]
  cases wraps : extra e || decide (e.level < k) with
  | true => exact Or.inl rfl
  | false =>
      rw [Bool.or_eq_false_iff, decide_eq_false_iff_not, Nat.not_lt] at wraps
      exact Or.inr ⟨wraps.2, rfl⟩

variable (parsable : Parsable toks extra e)
include parsable

theorem Parsable.primary_at : Parses toks (fun n => (grammar toks n).primary) (e.print extra 11) e (· ≠ .lpar) := by
  rcases inPlace_cases extra 11 e (e.tokens extra) with wraps | ⟨level, bare⟩
  · rw [Expr.print, wraps]
    exact parsable.expr.wrapped
  · rw [Expr.print, bare]
    exact parsable.primary level

/-- An operand for level `k`, met at level `j`. -/
theorem Parsable.absorbs_at (positive : 1 ≤ j) (less : j ≤ k) :
    Absorbs toks j (e.print extra k) e fun t => t ≠ .lpar ∧ binPrec t ≤ k := by
  rcases inPlace_cases extra k e (e.tokens extra) with wraps | ⟨level, bare⟩
  · rw [Expr.print, wraps]
    exact parsable.expr.wrapped.absorbs j
  · rw [Expr.print, bare]
    exact (parsable.binop j positive (less.trans level)).weaken fun t follows => ⟨follows.1, follows.2.trans level⟩

theorem Parsable.expr_at : Parses toks (fun n => (grammar toks n).expr) (e.print extra 0) e Stops := by
  rcases inPlace_cases extra 0 e (e.tokens extra) with wraps | ⟨level, bare⟩
  · rw [Expr.print, wraps]
    have wrapped : Parses toks (fun n => (grammar toks n).primary)
        (Token.plain .lpar :: (e.tokens extra ++ [Token.plain .rpar])) e (· ≠ .lpar) := parsable.expr.wrapped
    exact (wrapped.absorbs 1).expr fun t stops => ⟨stops.1, stops⟩
  · rw [Expr.print, bare]
    exact parsable.expr

end InPlace

section Operators
variable {toks : Nat → Token} {extra : Expr → Bool} {a b : Expr}

/-- A unary operator takes the primary expression behind it. -/
theorem un_parses (op : UnOp) (operand : Parsable toks extra a) :
    Parses toks (fun n => (grammar toks n).primary) ((Expr.un op a).tokens extra) (.un op a) (· ≠ .lpar) := by
  refine parses_step fun s p ns ready => ?_
  obtain ⟨here, rest⟩ := ready.stands
  have kind : (toks p).kind = op.token := bare_kind here
  have unary : (toks p).kind = .minus ∨ (toks p).kind = .not := kind ▸ unOp_kind op
  have other {k : TokenKind} (noMinus : k ≠ .minus) (noNot : k ≠ .not) : (toks p).kind ≠ k := fun same =>
    unary.elim (fun minus => noMinus (same.symm.trans minus)) fun not => noNot (same.symm.trans not)
  have room := ready.room
  rw [Expr.size] at room
  have length : (ns ++ [{ Node.fresh .un with op := op.token }]).length = ns.length + 1 := List.length_append
  have inner : Ready toks (· ≠ .lpar) s (p + 1) (ns ++ [{ Node.fresh .un with op := op.token }])
      (a.print extra 11) a := by
    refine ⟨ready.clean, rest, ?_, by omega⟩
    have stop := ready.stop
    rw [Expr.tokens, List.length_cons, Nat.add_comm _ 1, ← Nat.add_assoc] at stop
    exact stop
  obtain ⟨fuel, does⟩ := operand.primary_at s (p + 1) _ inner
  refine ⟨fuel, fun n enough => ?_⟩
  refine peek_does.bind (Does.no (other (by decide) (by decide)) (Does.no (other (by decide) (by decide))
    (Does.no (other (by decide) (by decide)) ?_)))
  refine (accept_no (other (by decide) (by decide))).bind (Does.no (by decide) (Does.yes unary ?_))
  refine advance_does.bind ((newNode_does .un (by omega)).bind ((setNode_does _ _).bind ?_))
  rw [modify_last, kind]
  refine (does n enough).bind ((setNode_does _ _).bind ?_)
  rw [List.append_assoc, ← Nat.add_zero ns.length, modify_behind, Nat.add_zero, length]
  have end_ : p + 1 + (a.print extra 11).length = p + ((Expr.un op a).tokens extra).length := by
    rw [Expr.tokens, List.length_cons, Expr.print]
    omega
  rw [end_]
  exact Does.pure _

/-- The operand on the left may be of the same level, the one on the right is of a higher one. -/
theorem bin_absorbs (op : BinOp) (left : Parsable toks extra a) (right : Parsable toks extra b) {k : Nat}
    (positive : 1 ≤ k) (binds : k ≤ op.prec) : Absorbs toks k ((Expr.bin op a b).tokens extra) (.bin op a b)
      fun t => t ≠ .lpar ∧ binPrec t ≤ op.prec := by
  intro s p ns ready
  obtain ⟨leftStands, opStands, rightStands⟩ := stands_append.mp ready.stands
  have kind : (toks (p + (a.print extra op.prec).length)).kind = op.token := bare_kind opStands
  have room := ready.room
  rw [Expr.size] at room
  have leftReady : Ready toks (fun t => t ≠ .lpar ∧ binPrec t ≤ op.prec) s p ns (a.print extra op.prec) a := by
    refine ⟨ready.clean, leftStands, ?_, by omega⟩
    rw [kind, binPrec_token]
    exact ⟨binOp_noParen op, Nat.le_refl _⟩
  have end_ : p + (a.print extra op.prec).length + 1 + (b.print extra (op.prec + 1)).length =
      p + ((Expr.bin op a b).tokens extra).length := by
    rw [Expr.tokens, List.length_append, List.length_cons, Expr.print, Expr.print]
    omega
  have length : (ns ++ a.lay none ns.length).length = ns.length + a.size := by
    rw [List.length_append, Expr.lay_length]
  have rightReady : Ready toks (fun t => t ≠ .lpar ∧ binPrec t ≤ op.prec) s (p + (a.print extra op.prec).length + 1)
      (ns ++ a.lay none ns.length) (b.print extra (op.prec + 1)) b :=
    ⟨ready.clean, rightStands, end_ ▸ ready.stop, by omega⟩
  have rightBinop := ((right.absorbs_at (Nat.succ_pos op.prec) (Nat.le_refl (op.prec + 1))).weaken
    fun t (follows : t ≠ .lpar ∧ binPrec t ≤ op.prec) => ⟨follows.1, Nat.le_succ_of_le follows.2⟩).binop
      fun t follows => Nat.lt_succ_of_le follows.2
  obtain ⟨depth, fuel, absorbed⟩ := left.absorbs_at positive binds s p ns leftReady
  obtain ⟨fuel', does⟩ := rightBinop s _ _ rightReady
  refine ⟨depth + 1, fuel + fuel', fun n enough i q ms rest => ?_⟩
  rw [Nat.add_comm depth, ← Nat.add_assoc]
  refine absorbed (n + 1) (by omega) i q ms ?_
  refine peek_does.bind (Does.yes (by rw [kind, binPrec_token]; exact binds) ?_)
  refine advance_does.bind ?_
  rw [kind, binPrec_token]
  refine (does n (by omega)).bind ?_
  have both : (ns ++ a.lay none ns.length ++ b.lay none (ns.length + a.size)).length = ns.length + a.size + b.size := by
    rw [List.length_append, length, Expr.lay_length]
  rw [length, end_]
  refine (newNode_does .bin (by omega)).bind ((setNode_does _ _).bind ?_)
  rw [modify_last, both]
  rw [Expr.lay, ← List.append_assoc, ← List.append_assoc] at rest
  exact rest

/-- Assignment takes a variable on its left, and all of an expression on its right. -/
theorem assign_parses (op : AssignOp) {x : Name} (fits : x.length ≤ 31) (value : Parsable toks extra a) :
    Parses toks (fun n => (grammar toks n).expr) ((Expr.assign false op x a).tokens extra) (.assign false op x a) Stops := by
  refine parses_step fun s p ns ready => ?_
  obtain ⟨leftStands, opStands, rightStands⟩ := stands_append.mp ready.stands
  have kind : (toks (p + ((Expr.var x).print extra 11).length)).kind = op.token := bare_kind opStands
  have room := ready.room
  rw [Expr.size] at room
  have target : Parsable toks extra (.var x) := .of_primary rfl (var_parses fits)
  have size : (Expr.var x).size = 1 := rfl
  have root : (Expr.var x).root ns.length = ns.length := rfl
  have end_ : p + ((Expr.var x).print extra 11).length + 1 + (a.print extra 0).length =
      p + ((Expr.assign false op x a).tokens extra).length := by
    rw [Expr.tokens, List.length_append, List.length_cons, Expr.print, Expr.print, Expr.tokens]
    omega
  have leftReady : Ready toks (fun t => t ≠ .lpar ∧ binPrec t < 1) s p ns ((Expr.var x).print extra 11) (.var x) := by
    refine ⟨ready.clean, leftStands, ?_, by omega⟩
    rw [kind]
    exact assignOp_weak op
  have left : Absorbs toks 1 ((Expr.var x).print extra 11) (.var x) fun t => t ≠ .lpar ∧ binPrec t < 1 :=
    (target.primary_at.absorbs 1).weaken fun _ => And.left
  obtain ⟨fuel, does⟩ := left.binop (fun _ => And.right) s p ns leftReady
  have length : (ns ++ (Expr.var x).lay none ns.length).length = ns.length + 1 := List.length_append
  have rightReady : Ready toks Stops s (p + ((Expr.var x).print extra 11).length + 1)
      (ns ++ (Expr.var x).lay none ns.length) (a.print extra 0) a :=
    ⟨ready.clean, rightStands, end_ ▸ ready.stop, by omega⟩
  obtain ⟨fuel', does'⟩ := value.expr_at s _ _ rightReady
  refine ⟨fuel + fuel', fun n enough => ?_⟩
  refine (does n (by omega)).bind (peek_does.bind (Does.yes (by rw [kind]; exact isAssign_token op) ?_))
  have var : (ns ++ (Expr.var x).lay none ns.length)[(Expr.var x).root ns.length]?.map (·.kind) = some .var := by
    rw [root, Expr.lay, List.getElem?_concat_length]
    rfl
  refine (nodeKind_does _).bind (Does.yes var (advance_does.bind ((does' n (by omega)).bind ?_)))
  have both : (ns ++ (Expr.var x).lay none ns.length ++ a.lay none (ns.length + 1)).length = ns.length + 1 + a.size := by
    rw [List.length_append, length, Expr.lay_length]
  rw [length, end_, kind]
  have last : (ns ++ (Expr.var x).lay none ns.length ++ a.lay none (ns.length + 1)).length < maxNodes := by omega
  have made := made_does (s := s) (p := p + ((Expr.assign false op x a).tokens extra).length) .assign
    (fun d => { d with op := op.token, child0 := some ((Expr.var x).root ns.length), child1 := some (a.root (ns.length + 1)) })
    last
  have laid (last : Node) : ns ++ (Expr.var x).lay none ns.length ++ a.lay none (ns.length + 1) ++ [last] =
      ns ++ ((Expr.var x).lay none ns.length ++ (a.lay none (ns.length + 1) ++ [last])) := by
    simp only [List.append_assoc]
  rw [both, laid] at made
  exact made

end Operators

section Arguments
variable {toks : Nat → Token} {extra : Expr → Bool}

/-- The first token does not end a list of arguments. -/
def Opens (ts : List Token) : Prop := ∃ t rest, ts = t :: rest ∧ t.kind ≠ .rpar

theorem Opens.append {ts : List Token} (opens : Opens ts) (us : List Token) : Opens (ts ++ us) := by
  obtain ⟨t, rest, rfl, other⟩ := opens
  exact ⟨t, rest ++ us, rfl, other⟩

theorem Opens.inPlace {k : Nat} {e : Expr} {ts : List Token} (opens : Opens ts) : Opens (inPlace extra k e ts) := by
  rcases inPlace_cases extra k e ts with wraps | ⟨-, bare⟩
  · rw [wraps]
    exact ⟨_, _, rfl, by decide⟩
  · rw [bare]
    exact opens

theorem Expr.tokens_open (e : Expr) : Opens (e.tokens extra) := by
  induction e using Expr.induct with
  | num v => exact ⟨_, _, rfl, TokenKind.noConfusion⟩
  | str off => exact ⟨_, _, rfl, TokenKind.noConfusion⟩
  | var x => exact ⟨_, _, rfl, TokenKind.noConfusion⟩
  | assign decl op x rhs ih =>
      have name : Opens [Token.ident x] := ⟨_, _, rfl, TokenKind.noConfusion⟩
      rw [Expr.tokens]
      exact name.inPlace.append _
  | bin op a b ihA ihB =>
      rw [Expr.tokens]
      exact ihA.inPlace.append _
  | un op a ih =>
      refine ⟨_, _, rfl, ?_⟩
      cases op <;> exact TokenKind.noConfusion
  | call f args ih => exact ⟨_, _, rfl, TokenKind.noConfusion⟩

/-- The table behind `link`. -/
def linked (ns : List Node) (parent : Nat) (last : Option Nat) (i : Nat) : List Node :=
  match last with
  | none => ns.modify parent fun d => { d with child0 := some i }
  | some p => ns.modify p fun d => { d with next := some i }

theorem linked_length (ns : List Node) (parent : Nat) (last : Option Nat) (i : Nat) :
    (linked ns parent last i).length = ns.length := by
  cases last <;> exact List.length_modify ..

theorem linked_before {ns : List Node} (ms : List Node) {parent : Nat} {last : Option Nat}
    (inside : last.getD parent < ns.length) (i : Nat) : linked (ns ++ ms) parent last i = linked ns parent last i ++ ms := by
  cases last with
  | none => exact modify_before ms inside _
  | some p => exact modify_before ms inside _

theorem link_does {s : Parser} {p : Nat} {ns : List Node} (parent : Nat) (last : Option Nat) (i : Nat) :
    Does s p ns (link parent last i) () p (linked ns parent last i) := by
  cases last with
  | none => exact setNode_does _ _
  | some p => exact setNode_does _ _

theorem argsSize_cons (e : Expr) (es : List Expr) : argsSize (e :: es) = e.size + argsSize es := rfl

/-- The token here is no `)` where an argument begins. -/
theorem Opens.kind {ts us : List Token} {p : Nat} (opens : Opens ts) (stands : Stands toks p (ts ++ us)) :
    (toks p).kind ≠ .rpar := by
  obtain ⟨t, rest, rfl, other⟩ := opens
  exact bare_kind stands.1 ▸ other

/-- A round of the loop up to the comma. -/
theorem args_round {s : Parser} {p q q' : Nat} {ns ms ms' : List Node} {n call argi a b : Nat} {prev : Option Nat}
    (opens : (toks p).kind ≠ .rpar) (clean : s.error = none) (expr : Does s p ns (grammar toks n).expr a q ms)
    (rest : Does s q (linked ms call prev a) (accept toks .comma >>= fun comma =>
      if comma then (grammar toks n).args call (some a) (argi + 1) else pure (argi + 1)) b q' ms') :
    Does s p ns ((grammar toks (n + 1)).args call prev argi) b q' ms' :=
  peek_does.bind ((hadError_does clean).bind (Does.yes ⟨opens, rfl⟩ (expr.bind ((link_does _ _ _).bind rest))))

/-- From one argument on: the list goes on with it, and each is linked to the next. -/
theorem args_does (es : List Expr) : ∀ (e : Expr) (s : Parser) (p : Nat) (ns : List Node) (call : Nat) (prev : Option Nat)
    (argi : Nat), Parsable toks extra e → (∀ x ∈ es, Parsable toks extra x) → s.error = none →
    Stands toks p (e.print extra 0 ++ moreTokens extra es) →
    (toks (p + (e.print extra 0 ++ moreTokens extra es).length)).kind = .rpar →
    ns.length + argsSize (e :: es) ≤ maxNodes → prev.getD call < ns.length →
    ∃ fuel, ∀ n, fuel ≤ n → Does s p ns ((grammar toks n).args call prev argi) (argi + (e :: es).length)
      (p + (e.print extra 0 ++ moreTokens extra es).length)
      (linked ns call prev (e.root ns.length) ++ layArgs ns.length (e :: es)) := by
  induction es with
  | nil =>
      intro e s p ns call prev argi parsable _ clean stands close room inside
      have opens := e.tokens_open.inPlace.kind stands
      rw [moreTokens, List.append_nil] at stands close ⊢
      have ready : Ready toks Stops s p ns (e.print extra 0) e := ⟨clean, stands, close ▸ rpar_stops, room⟩
      obtain ⟨fuel, does⟩ := parsable.expr_at s p ns ready
      refine ⟨fuel + 1, fun n enough => ?_⟩
      obtain ⟨m, rfl⟩ : ∃ m, n = m + 1 := ⟨n - 1, by omega⟩
      refine args_round opens clean (does m (by omega)) ?_
      rw [linked_before _ inside, layArgs, layArgs, List.append_nil]
      exact (accept_no (by rw [close]; decide)).bind (Does.no (by decide) (Does.pure _))
  | cons e' es ih =>
      intro e s p ns call prev argi parsable each clean stands close room inside
      have opens := e.tokens_open.inPlace.kind stands
      obtain ⟨here, comma, more⟩ := stands_append.mp stands
      have kind : (toks (p + (e.print extra 0).length)).kind = .comma := bare_kind comma
      rw [argsSize_cons] at room
      have ready : Ready toks Stops s p ns (e.print extra 0) e := ⟨clean, here, kind ▸ comma_stops, by omega⟩
      obtain ⟨fuel, does⟩ := parsable.expr_at s p ns ready
      have end_ : p + (e.print extra 0).length + 1 + (e'.print extra 0 ++ moreTokens extra es).length =
          p + (e.print extra 0 ++ moreTokens extra (e' :: es)).length := by
        have unfolded : moreTokens extra (e' :: es) =
            Token.plain .comma :: (e'.print extra 0 ++ moreTokens extra es) := rfl
        rw [unfolded]
        simp only [List.length_append, List.length_cons]
        omega
      have count : argi + 1 + (e' :: es).length = argi + (e :: e' :: es).length := by
        simp only [List.length_cons]
        omega
      have behind := linked_length ns call prev (e.root ns.length)
      have link := e.lay_linked (linked ns call prev (e.root ns.length)) (e'.root (ns.length + e.size))
      have length : (linked ns call prev (e.root ns.length) ++ e.lay none ns.length).length = ns.length + e.size := by
        rw [List.length_append, behind, Expr.lay_length]
      have root := e.root_lt ns.length
      rw [List.forall_mem_cons] at each
      obtain ⟨fuel', does'⟩ := ih e' s (p + (e.print extra 0).length + 1)
        (linked ns call prev (e.root ns.length) ++ e.lay none ns.length) call (some (e.root ns.length)) (argi + 1)
        each.1 each.2 clean more (end_ ▸ close) (by omega) (length ▸ root.2)
      refine ⟨fuel + fuel' + 1, fun n enough => ?_⟩
      obtain ⟨m, rfl⟩ : ∃ m, n = m + 1 := ⟨n - 1, by omega⟩
      refine args_round opens clean (does m (by omega)) ?_
      rw [linked_before _ inside]
      refine (accept_yes kind).bind (Does.yes rfl ?_)
      have rest := does' m (by omega)
      rw [behind] at link
      rw [length, linked, link, end_, count, List.append_assoc] at rest
      exact rest

/-- All the arguments of the call at the end of the table. -/
theorem args_all (args : List Expr) (each : ∀ x ∈ args, Parsable toks extra x) {s : Parser} {p : Nat} {ns : List Node}
    {d : Node} (fresh : d.child0 = none) (clean : s.error = none) (stands : Stands toks p (argTokens extra args))
    (close : (toks (p + (argTokens extra args).length)).kind = .rpar) (room : ns.length + 1 + argsSize args ≤ maxNodes) :
    ∃ fuel, ∀ n, fuel ≤ n → Does s p (ns ++ [d]) ((grammar toks n).args ns.length none 0) args.length
      (p + (argTokens extra args).length)
      (ns ++ [{ d with child0 := firstRoot (ns.length + 1) args }] ++ layArgs (ns.length + 1) args) := by
  have length : (ns ++ [d]).length = ns.length + 1 := List.length_append
  cases args with
  | nil =>
      refine ⟨1, fun n enough => ?_⟩
      obtain ⟨m, rfl⟩ : ∃ m, n = m + 1 := ⟨n - 1, by omega⟩
      have same : { d with child0 := firstRoot (ns.length + 1) [] } = d := by
        rw [firstRoot, ← fresh]
      rw [same, layArgs, List.append_nil]
      exact peek_does.bind ((hadError_does clean).bind (Does.no (fun both => both.1 close) (Does.pure 0)))
  | cons e es =>
      rw [List.forall_mem_cons] at each
      obtain ⟨fuel, does⟩ := args_does es e s p (ns ++ [d]) ns.length none 0 each.1 each.2 clean stands close
        (length ▸ room) (length ▸ Nat.lt_succ_self _)
      refine ⟨fuel, fun n enough => ?_⟩
      have run := does n enough
      rw [linked, modify_last, length, Nat.zero_add] at run
      exact run

/-- A call, with the arguments in a list behind it. -/
theorem call_parses {f : Name} (fits : f.length ≤ 31) (args : List Expr) (each : ∀ x ∈ args, Parsable toks extra x) :
    Parses toks (fun n => (grammar toks n).primary) ((Expr.call f args).tokens extra) (.call f args) (· ≠ .lpar) := by
  refine parses_step fun s p ns ready => ?_
  obtain ⟨here, open_, rest⟩ := ready.stands
  obtain ⟨argStands, rpar, -⟩ := stands_append.mp rest
  have kind : (toks p).kind = .ident := bare_kind here
  have name : (toks p).sval = f := congrArg Token.sval here
  have paren : (toks (p + 1)).kind = .lpar := bare_kind open_
  have close : (toks (p + 1 + 1 + (argTokens extra args).length)).kind = .rpar := bare_kind rpar
  have room := ready.room
  rw [Expr.size] at room
  have fresh : ({ Node.fresh .call with name := f } : Node).child0 = none := rfl
  have roomy : ns.length + 1 + argsSize args ≤ maxNodes := by omega
  obtain ⟨fuel, does⟩ := args_all args each fresh ready.clean argStands close roomy
  have end_ : p + 1 + 1 + (argTokens extra args).length + 1 = p + ((Expr.call f args).tokens extra).length := by
    rw [Expr.tokens, List.length_cons, List.length_cons, List.length_append, List.length_singleton]
    omega
  refine ⟨fuel, fun n enough => ?_⟩
  refine peek_does.bind (Does.no (by rw [kind]; decide) (Does.no (by rw [kind]; decide) (Does.yes kind ?_)))
  refine advance_does.bind (peek_does.bind (Does.yes paren (advance_does.bind ?_)))
  refine (newNode_does .call (by omega)).bind ((setNode_does _ _).bind ?_)
  rw [modify_last, name, copyName_fits fits]
  refine (does n enough).bind ((expect_does close _).bind ((setNode_does _ _).bind ?_))
  rw [List.append_assoc, ← Nat.add_zero ns.length, modify_behind, Nat.add_zero, end_]
  exact Does.pure _

end Arguments

section Trees
variable {toks : Nat → Token} {extra : Expr → Bool}

/-- Every expression is parsed, at every level that takes it. -/
theorem Expr.Plain.parsable {e : Expr} (plain : e.Plain) : Parsable toks extra e := by
  induction e using Expr.induct with
  | num v => exact .of_primary rfl (num_parses v)
  | str off => exact .of_primary rfl (str_parses off)
  | var x =>
      cases plain with
      | var fits => exact .of_primary rfl (var_parses fits)
  | assign decl op x rhs ih =>
      cases plain with
      | assign fits value =>
          have level : (Expr.assign false op x rhs).level = 0 := rfl
          exact ⟨fun primary => by omega, fun k positive binds => by omega, assign_parses op fits (ih value)⟩
  | bin op a b ihA ihB =>
      cases plain with
      | bin left right =>
          have level : (Expr.bin op a b).level = op.prec := rfl
          have high := op.prec_le
          exact .of_binop op.prec_pos (fun primary => by omega) fun k positive binds =>
            bin_absorbs op (ihA left) (ihB right) positive binds
  | un op a ih =>
      cases plain with
      | un operand => exact .of_primary rfl (un_parses op (ih operand))
  | call f args ih =>
      cases plain with
      | call fits each => exact .of_primary rfl (call_parses fits args fun x member => ih x member (each x member))

end Trees

/-- parse_expr undoes printing: whatever parentheses there are beyond those that are needed,
it takes exactly the tokens of the expression, and its new nodes read as that tree only. -/
theorem print_parsed {toks : Nat → Token} {s : Parser} {e : Expr} (extra : Expr → Bool) (plain : e.Plain)
    (stands : Stands toks s.pos (e.print extra 0)) (stop : Stops (toks (s.pos + (e.print extra 0).length)).kind)
    (room : s.nodes.length + e.size ≤ maxNodes) (clean : s.error = none) :
    ∃ fuel, ∀ n, fuel ≤ n → ∃ i made far,
      (grammar toks n).expr s =
        (i, { s with pos := s.pos + (e.print extra 0).length, nodes := s.nodes ++ made, far := far }) ∧
      Reads (s.nodes ++ made) i e ∧ ∀ e', Reads (s.nodes ++ made) i e' → e' = e := by
  obtain ⟨fuel, does⟩ := plain.parsable.expr_at s s.pos s.nodes ⟨clean, stands, stop, room⟩
  refine ⟨fuel, fun n enough => ?_⟩
  obtain ⟨root, far, after⟩ := does n enough s ⟨s.far, rfl⟩
  have placed : Placed (s.nodes ++ e.lay none s.nodes.length) s.nodes.length (e.lay none s.nodes.length) := by
    refine ⟨[], ?_⟩
    rw [List.append_nil, List.drop_left]
  have reads := Expr.lay_reads plain none _ placed
  exact ⟨e.root s.nodes.length, e.lay none s.nodes.length, far, Prod.ext root after, reads,
    fun e' reads' => (Reads.unique e _ e' reads reads').symm⟩

/-- `x=a-b-c`, which is `x=((a-b)-c)`. -/
def sampleExpr : Expr :=
  .assign false .set [120] (.bin .minus (.bin .minus (.var [97]) (.var [98])) (.var [99]))

theorem print_parsed_sample : ∃ fuel, ∀ n, fuel ≤ n → ∃ i made far,
    (grammar (tokensOf (sampleExpr.print minimal 0)) n).expr (Parser.start none) =
      (i, { Parser.start none with pos := 7, nodes := made, far := far }) ∧ Reads made i sampleExpr ∧
      ∀ e', Reads made i e' → e' = sampleExpr := by
  have plain : sampleExpr.Plain :=
    .assign (by decide) (.bin (.bin (.var (by decide)) (.var (by decide))) (.var (by decide)))
  have stop : Stops .eof := ⟨by decide, rfl, by decide⟩
  exact print_parsed (s := Parser.start none) minimal plain ⟨rfl, rfl, rfl, rfl, rfl, rfl, rfl, trivial⟩ stop (by decide) rfl

end Zenbite.Zbc
