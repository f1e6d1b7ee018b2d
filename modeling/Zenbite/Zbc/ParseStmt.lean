import Zenbite.Zbc.ParseExpr
import Zenbite.Zbc.PrintStmt

/-! The statement parser of zbc.c on printed statements. -/

namespace Zenbite.Zbc

open Acts

/-- The act takes the parser from `s` at `p` with the nodes `ns` to `s'` at `q` with `ms`. -/
def Leads {α : Type} (s : Parser) (p : Nat) (ns : List Node) (act : Parse α) (a : α) (s' : Parser) (q : Nat)
    (ms : List Node) : Prop := Triple (Stage s p ns) act fun b t => b = a ∧ Stage s' q ms t

section Leads
variable {α β : Type} {toks : Nat → Token} {s s₁ s' : Parser} {p q q' : Nat} {ns ms ms' : List Node}
  {act other : Parse α} {next : α → Parse β} {a : α} {b : β}

theorem Leads.bind (first : Leads s p ns act a s₁ q ms) (rest : Leads s₁ q ms (next a) b s' q' ms') :
    Leads s p ns (act >>= next) b s' q' ms' :=
  Triple.bind first fun _ => Triple.assume fun same => same ▸ rest

/-- An act that leaves the rest of the parser alone comes first. -/
theorem Does.leads (first : Does s p ns act a q ms) (rest : Leads s q ms (next a) b s' q' ms') :
    Leads s p ns (act >>= next) b s' q' ms' := Leads.bind first rest

theorem Leads.pure (a : α) : Leads s p ns (Pure.pure a) a s p ns := fun _ stage => ⟨rfl, stage⟩

theorem Leads.yes {c : Prop} [Decidable c] (holds : c) (leads : Leads s p ns act a s' q ms) :
    Leads s p ns (if c then act else other) a s' q ms := by
  rw [if_pos holds]
  exact leads

theorem Leads.no {c : Prop} [Decidable c] (fails : ¬ c) (leads : Leads s p ns other a s' q ms) :
    Leads s p ns (if c then act else other) a s' q ms := by
  rw [if_neg fails]
  exact leads

theorem Leads.optionally {c : Bool} (holds : c = true) (leads : Leads s p ns act a s' q ms) :
    Leads s p ns (Acts.optionally c act) (some a) s' q ms := by
  rw [holds]
  exact leads.bind (Leads.pure (some a))

theorem Leads.without {c : Bool} (fails : c = false) : Leads s p ns (Acts.optionally c act) none s p ns := by
  rw [fails]
  exact Leads.pure none

theorem takeName_leads : Leads s p ns (takeName toks) (toks p) { s with named := p :: s.named } (p + 1) ns := by
  intro t stage
  obtain ⟨far, rfl⟩ := stage
  exact ⟨rfl, _, rfl⟩

/-- The alternative for the token that stands here. -/
theorem choose_hit {other : Parse Nat} {alts : List (TokenKind × Parse Nat)} (alt : TokenKind × Parse Nat) {i : Nat}
    (hit : alts.find? (fun alt => decide ((toks p).kind = alt.1)) = some alt)
    (leads : Leads s (p + 1) ns alt.2 i s' q ms) : Leads s p ns (choose toks other alts) i s' q ms := by
  induction alts with
  | nil => cases hit
  | cons first alts ih =>
      rw [List.find?_cons] at hit
      by_cases same : (toks p).kind = first.1
      · rw [decide_eq_true same] at hit
        obtain rfl := Option.some.inj hit
        exact (accept_yes same).leads (Leads.yes rfl leads)
      · rw [decide_eq_false same] at hit
        exact (accept_no same).leads (Leads.no (by decide) (ih hit))

theorem choose_other {other : Parse Nat} {alts : List (TokenKind × Parse Nat)} {i : Nat}
    (none_ : ∀ alt ∈ alts, (toks p).kind ≠ alt.1) (leads : Leads s p ns other i s' q ms) :
    Leads s p ns (choose toks other alts) i s' q ms := by
  induction alts with
  | nil => exact leads
  | cons first alts ih =>
      rw [List.forall_mem_cons] at none_
      exact (accept_no none_.1).leads (Leads.no (by decide) (ih none_.2))

end Leads

/-- Only names have been taken. -/
def Named (s s' : Parser) : Prop := ∃ named, s' = { s with named := named }

section Named
variable {s s₁ s₂ : Parser}

theorem Named.refl (s : Parser) : Named s s := ⟨s.named, rfl⟩

theorem Named.trans (first : Named s s₁) (second : Named s₁ s₂) : Named s s₂ := by
  obtain ⟨named, rfl⟩ := first
  obtain ⟨more, rfl⟩ := second
  exact ⟨more, rfl⟩

theorem Named.error (named : Named s s₁) : s₁.error = s.error := by
  obtain ⟨named, rfl⟩ := named
  rfl

end Named

/-- What an expression begins with. -/
def Begins (k : TokenKind) : Prop :=
  k = .int ∨ k = .str ∨ k = .ident ∨ k = .lpar ∨ k = .minus ∨ k = .not

section First
variable {extra : Expr → Bool}

/-- The first of the tokens is as asked. -/
def FirstIs (ok : TokenKind → Prop) (ts : List Token) : Prop := ∃ t rest, ts = t :: rest ∧ ok t.kind

theorem FirstIs.append {ok : TokenKind → Prop} {ts : List Token} (first : FirstIs ok ts) (us : List Token) :
    FirstIs ok (ts ++ us) := by
  obtain ⟨t, rest, rfl, holds⟩ := first
  exact ⟨t, rest ++ us, rfl, holds⟩

theorem FirstIs.weaken {ok ok' : TokenKind → Prop} {ts : List Token} (first : FirstIs ok ts) (less : ∀ k, ok k → ok' k) :
    FirstIs ok' ts := by
  obtain ⟨t, rest, rfl, holds⟩ := first
  exact ⟨t, rest, rfl, less _ holds⟩

theorem FirstIs.here {ok : TokenKind → Prop} {toks : Nat → Token} {p : Nat} {ts us : List Token} (first : FirstIs ok ts)
    (stands : Stands toks p (ts ++ us)) : ok (toks p).kind := by
  obtain ⟨t, rest, rfl, holds⟩ := first
  rw [bare_kind stands.1]
  exact holds

theorem FirstIs.alone {ok : TokenKind → Prop} {toks : Nat → Token} {p : Nat} {ts : List Token} (first : FirstIs ok ts)
    (stands : Stands toks p ts) : ok (toks p).kind := by
  rw [← List.append_nil ts] at stands
  exact first.here stands

theorem inPlace_first {k : Nat} {e : Expr} {ts : List Token} (first : FirstIs Begins ts) :
    FirstIs Begins (inPlace extra k e ts) := by
  rcases inPlace_cases extra k e ts with wraps | ⟨-, bare⟩
  · rw [wraps]
    exact ⟨_, _, rfl, by simp [Begins, Token.plain]⟩
  · rw [bare]
    exact first

theorem Expr.tokens_first (e : Expr) : FirstIs Begins (e.tokens extra) := by
  induction e using Expr.induct with
  | num v => exact ⟨_, _, rfl, Or.inl rfl⟩
  | str off => exact ⟨_, _, rfl, Or.inr (Or.inl rfl)⟩
  | var x => exact ⟨_, _, rfl, Or.inr (Or.inr (Or.inl rfl))⟩
  | assign decl op x rhs ih =>
      have name : FirstIs Begins [Token.ident x] := ⟨_, _, rfl, Or.inr (Or.inr (Or.inl rfl))⟩
      rw [Expr.tokens]
      exact (inPlace_first name).append _
  | bin op a b ihA ihB =>
      rw [Expr.tokens]
      exact (inPlace_first ihA).append _
  | un op a ih =>
      refine ⟨_, _, rfl, ?_⟩
      cases op <;> simp [Begins, Token.plain, UnOp.token]
  | call f args ih => exact ⟨_, _, rfl, Or.inr (Or.inr (Or.inl rfl))⟩

theorem Expr.print_first (k : Nat) (e : Expr) : FirstIs Begins (e.print extra k) := inPlace_first e.tokens_first

/-- What a statement begins with is no end of a block and no else. -/
def StmtBegins (k : TokenKind) : Prop := k ≠ .rbrace ∧ k ≠ .eof ∧ k ≠ .kwElse

instance : DecidablePred StmtBegins := fun k => inferInstanceAs (Decidable (k ≠ .rbrace ∧ k ≠ .eof ∧ k ≠ .kwElse))

theorem Begins.stmt {k : TokenKind} (begins : Begins k) : StmtBegins k := by
  rcases begins with rfl | rfl | rfl | rfl | rfl | rfl <;> decide

end First

section Simple
variable {toks : Nat → Token} {extra : Expr → Bool} {short : Bool} {s s' : Parser} {p q : Nat} {ns ms : List Node}

theorem Expr.Plain.print_parses {e : Expr} (plain : e.Plain) :
    Parses toks (fun n => (grammar toks n).expr) (e.print extra 0) e Stops := plain.parsable.expr_at

theorem semi_stops : Stops .semi := by
  refine ⟨by decide, rfl, by decide⟩

/-- The value of a declaration, as a node if it is there. -/
def declValue (short : Bool) (base : Nat) (rhs : Expr) : Option Nat :=
  if short && rhs.isZero then none else some (rhs.root base)

def declFront (short : Bool) (base : Nat) (rhs : Expr) : List Node :=
  if short && rhs.isZero then [] else rhs.lay none base

def initTokens (extra : Expr → Bool) (short : Bool) (rhs : Expr) : List Token :=
  if short && rhs.isZero then [] else Token.plain .assign :: rhs.print extra 0

theorem declTokens_eq (x : Name) (rhs : Expr) :
    declTokens extra short x rhs = Token.plain .kwInt :: Token.ident x :: initTokens extra short rhs := rfl

theorem isZero_eq {rhs : Expr} (zero : (short && rhs.isZero) = true) : rhs = .num 0 := by
  rw [Bool.and_eq_true] at zero
  cases rhs with
  | num v =>
      obtain rfl : v = 0 := eq_of_beq zero.2
      rfl
  | _ => cases zero.2

theorem declFront_length (rhs : Expr) (base : Nat) : (declFront short base rhs).length ≤ rhs.size := by
  rw [declFront]
  split
  · exact Nat.zero_le _
  · rw [Expr.lay_length]

theorem length_snoc (l : List Node) (d : Node) : (l ++ [d]).length = l.length + 1 := List.length_append

/-- declare puts its nodes behind those of the value. -/
theorem declare_does {x : Name} {rhs : Expr} {id : Token} (name : id.sval = x) (fits : x.length ≤ 31)
    (room : ns.length + (Expr.assign true .set x rhs).size ≤ maxNodes) :
    Does s p (ns ++ declFront short ns.length rhs) (declare id (declValue short ns.length rhs))
      (declRoot short ns.length rhs) p (ns ++ declLay short x rhs none ns.length) := by
  rw [Expr.size] at room
  unfold declFront declValue declRoot declLay
  cases zero : short && rhs.isZero with
  | true =>
      obtain rfl := isZero_eq zero
      change ns.length + 3 ≤ maxNodes at room
      rw [if_pos rfl, if_pos rfl, if_pos rfl, if_pos rfl, List.append_nil]
      refine (newNode_does .assign (by omega)).bind ((setNode_does _ _).bind ?_)
      rw [modify_last]
      refine (newNode_does .var (by rw [length_snoc]; omega)).bind ((setNode_does _ _).bind ?_)
      rw [modify_last, name, copyName_fits fits]
      refine (newNode_does .num (by rw [length_snoc, length_snoc]; omega)).bind ((setNode_does _ _).bind ?_)
      rw [length_snoc, length_snoc, length_snoc, List.append_assoc, List.append_assoc, ← Nat.add_zero ns.length, modify_behind, Nat.add_zero]
      exact Does.pure _
  | false =>
      have behind : (ns ++ rhs.lay none ns.length).length = ns.length + rhs.size := by
        rw [List.length_append, Expr.lay_length]
      rw [if_neg Bool.false_ne_true, if_neg Bool.false_ne_true, if_neg Bool.false_ne_true, if_neg Bool.false_ne_true]
      refine (newNode_does .assign (by omega)).bind ((setNode_does _ _).bind ?_)
      rw [modify_last]
      refine (newNode_does .var (by rw [length_snoc]; omega)).bind ((setNode_does _ _).bind ?_)
      rw [modify_last, name, copyName_fits fits]
      refine (setNode_does _ _).bind ?_
      rw [length_snoc, behind, List.append_assoc, ← behind, ← Nat.add_zero (ns ++ rhs.lay none ns.length).length, modify_behind,
        Nat.add_zero, List.append_assoc]
      exact Does.pure _

/-- The name and the value of a declaration, from behind the `int`; then come `rest` and the nodes. -/
theorem decl_front {x : Name} {rhs : Expr} (plain : rhs.Plain) (clean : s.error = none)
    (stands : Stands toks p (Token.ident x :: initTokens extra short rhs))
    (stop : (toks (p + (initTokens extra short rhs).length + 1)).kind = .semi)
    (room : ns.length + (Expr.assign true .set x rhs).size ≤ maxNodes) :
    ∃ fuel, ∀ n, fuel ≤ n → ∀ (rest : Token → Option Nat → Parse Nat) (failed : Parse Nat) (i : Nat) (s' : Parser) (q : Nat)
      (ms : List Node),
      Leads { s with named := p :: s.named } (p + (initTokens extra short rhs).length + 1)
        (ns ++ declFront short ns.length rhs) (rest (toks p) (declValue short ns.length rhs)) i s' q ms →
      Leads s p ns (takeName toks >>= fun id => if id.kind = .ident then
        accept toks .assign >>= fun assign => optionally assign (grammar toks n).expr >>= fun r => rest id r
        else failed) i s' q ms := by
  obtain ⟨here, init⟩ := stands
  have kind : (toks p).kind = .ident := bare_kind here
  rw [Expr.size] at room
  unfold initTokens at init stop ⊢
  unfold declFront declValue
  cases zero : short && rhs.isZero with
  | true =>
      rw [zero, if_pos rfl] at stop init
      have next : (toks (p + 1)).kind = .semi := stop
      refine ⟨0, fun n _ rest failed i s' q ms leads => ?_⟩
      rw [if_pos rfl, if_pos rfl, if_pos rfl, List.append_nil] at leads
      refine takeName_leads.bind (Leads.yes kind ?_)
      refine (accept_no (by rw [next]; decide)).leads ?_
      exact (Leads.without rfl).bind leads
  | false =>
      rw [zero, if_neg Bool.false_ne_true] at stop init
      obtain ⟨assign, value⟩ := init
      have next : (toks (p + 1)).kind = .assign := bare_kind assign
      have end_ : p + 1 + 1 + (rhs.print extra 0).length =
          p + (Token.plain .assign :: rhs.print extra 0).length + 1 := by
        rw [List.length_cons]
        omega
      have ready : Ready toks Stops { s with named := p :: s.named } (p + 1 + 1) ns (rhs.print extra 0) rhs := by
        refine ⟨clean, value, ?_, by omega⟩
        rw [end_, stop]
        exact semi_stops
      obtain ⟨fuel, does⟩ := plain.print_parses _ _ _ ready
      refine ⟨fuel, fun n enough rest failed i s' q ms leads => ?_⟩
      rw [if_neg Bool.false_ne_true, if_neg Bool.false_ne_true, if_neg Bool.false_ne_true] at leads
      refine takeName_leads.bind (Leads.yes kind ?_)
      refine (accept_yes next).leads ?_
      have taken := does n enough
      rw [end_] at taken
      exact (Leads.optionally rfl taken).bind leads

end Simple

/-- The tokens of a statement stand at `p`, no else behind one that would take it, and there is room. -/
structure StmtReady (toks : Nat → Token) (s : Parser) (p : Nat) (ns : List Node) (ts : List Token) (st : Stmt) : Prop where
  clean : s.error = none
  stands : Stands toks p ts
  stop : st.dangles = true → (toks (p + ts.length)).kind ≠ .kwElse
  room : ns.length + st.size ≤ maxNodes

/-- With enough fuel parse_stmt takes exactly the tokens of `st`, and makes its nodes. -/
def StmtParses (toks : Nat → Token) (extra : Expr → Bool) (short : Bool) (st : Stmt) : Prop :=
  ∀ s p ns, StmtReady toks s p ns (st.tokens extra short) st → ∃ s' fuel, Named s s' ∧ ∀ n, fuel ≤ n →
    Leads s p ns (grammar toks n).stmt (st.root short ns.length) s' (p + (st.tokens extra short).length)
      (ns ++ st.lay short none ns.length)

section Statements
variable {toks : Nat → Token} {extra : Expr → Bool} {short : Bool}

/-- One call more. -/
theorem stmt_round {st : Stmt} (step : ∀ s p ns, StmtReady toks s p ns (st.tokens extra short) st →
    ∃ s' fuel, Named s s' ∧ ∀ n, fuel ≤ n → Leads s p ns (parseStmt toks (grammar toks n)) (st.root short ns.length) s'
      (p + (st.tokens extra short).length) (ns ++ st.lay short none ns.length)) : StmtParses toks extra short st := by
  intro s p ns ready
  obtain ⟨s', fuel, named, leads⟩ := step s p ns ready
  refine ⟨s', fuel + 1, named, fun n enough => ?_⟩
  obtain ⟨m, rfl⟩ : ∃ m, n = m + 1 := ⟨n - 1, by omega⟩
  exact leads m (by omega)

theorem begins_other {k : TokenKind} (begins : Begins k) (g : Grammar) : ∀ alt ∈ starts toks g, k ≠ alt.1 := by
  intro alt member
  simp only [starts, List.mem_cons, List.not_mem_nil, or_false] at member
  rcases member with rfl | rfl | rfl | rfl | rfl | rfl | rfl | rfl <;>
    rcases begins with rfl | rfl | rfl | rfl | rfl | rfl <;> exact TokenKind.noConfusion

/-- An expression and its semicolon. -/
theorem value_parses {e : Expr} (plain : e.Plain) : StmtParses toks extra short (.expr e) := by
  apply stmt_round
  intro s p ns ready
  have tokens : (Stmt.expr e).tokens extra short = e.print extra 0 ++ [Token.plain .semi] := by
    rw [Stmt.tokens, Expr.simpleTokens, plain.decl]
  have size : (Stmt.expr e).size = e.size + 1 := by
    rw [Stmt.size, Expr.stmtSize, plain.decl]
    rfl
  have laid : (Stmt.expr e).lay short none ns.length =
      e.lay none ns.length ++ [{ Node.fresh .exprStmt with child0 := some (e.root ns.length) }] := by
    rw [Stmt.lay, Expr.stmtLay, plain.decl]
    rfl
  have root : (Stmt.expr e).root short ns.length = (ns ++ e.lay none ns.length).length := by
    rw [Stmt.root, Expr.stmtRoot, plain.decl, List.length_append, Expr.lay_length]
  have clean := ready.clean
  have stands := ready.stands
  have room := ready.room
  rw [tokens] at stands ⊢
  rw [laid, root]
  rw [size] at room
  obtain ⟨front, semi, -⟩ := stands_append.mp stands
  have kind : (toks (p + (e.print extra 0).length)).kind = .semi := bare_kind semi
  obtain ⟨fuel, does⟩ := plain.print_parses s p ns ⟨clean, front, kind ▸ semi_stops, by omega⟩
  have end_ : p + (e.print extra 0 ++ [Token.plain .semi]).length = p + (e.print extra 0).length + 1 := by
    rw [List.length_append, ← Nat.add_assoc]
    rfl
  refine ⟨s, fuel, Named.refl s, fun n enough => ?_⟩
  apply choose_other (begins_other ((Expr.print_first 0 e).here stands) _)
  refine (does n enough).leads ((expect_does kind _).leads ?_)
  rw [end_, ← List.append_assoc]
  exact made_does .exprStmt _ (by rw [List.length_append, Expr.lay_length]; omega)

theorem decl_parses {x : Name} {rhs : Expr} (fits : x.length ≤ 31) (plain : rhs.Plain) :
    StmtParses toks extra short (.expr (.assign true .set x rhs)) := by
  apply stmt_round
  intro s p ns ready
  have clean := ready.clean
  have stands := ready.stands
  have room := ready.room
  change Stands toks p (Token.plain .kwInt :: Token.ident x :: initTokens extra short rhs ++ [Token.plain .semi]) at stands
  obtain ⟨⟨int, decl⟩, semi, -⟩ := stands_append.mp stands
  have here : (toks p).kind = .kwInt := bare_kind int
  have name : (toks (p + 1)).sval = x := congrArg Token.sval decl.1
  have place : p + (Token.plain .kwInt :: Token.ident x :: initTokens extra short rhs).length =
      p + 1 + (initTokens extra short rhs).length + 1 := by
    simp only [List.length_cons]
    omega
  rw [place] at semi
  have kind : (toks (p + 1 + (initTokens extra short rhs).length + 1)).kind = .semi := bare_kind semi
  obtain ⟨fuel, front⟩ := decl_front plain clean decl kind room
  have end_ : p + ((Stmt.expr (.assign true .set x rhs)).tokens extra short).length =
      p + 1 + (initTokens extra short rhs).length + 1 + 1 := by
    change p + (Token.plain .kwInt :: Token.ident x :: initTokens extra short rhs ++ [Token.plain .semi]).length = _
    rw [List.length_append, ← Nat.add_assoc, place]
    rfl
  refine ⟨{ s with named := (p + 1) :: s.named }, fuel, ⟨_, rfl⟩, fun n enough => ?_⟩
  rw [end_]
  refine choose_hit (.kwInt, parseDecl toks (grammar toks n)) (by rw [here]; rfl) ?_
  refine front n enough (fun id r => expect toks .semi ";" >>= fun _ => declare id r) _ _ _ _ _ ?_
  refine (expect_does kind _).leads ?_
  exact declare_does name fits room

theorem jump_parses (st : Stmt) (jump : st = .brk ∨ st = .cont) : StmtParses toks extra short st := by
  apply stmt_round
  intro s p ns ready
  refine ⟨s, 0, Named.refl s, fun n _ => ?_⟩
  obtain rfl | rfl := jump
  · obtain ⟨key, semi, -⟩ := ready.stands
    have here : (toks p).kind = .kwBreak := bare_kind key
    refine choose_hit (.kwBreak, parseJump toks .brk) (by rw [here]; rfl) ?_
    exact (expect_does (bare_kind semi) _).leads (newNode_does .brk ready.room)
  · obtain ⟨key, semi, -⟩ := ready.stands
    have here : (toks p).kind = .kwCont := bare_kind key
    refine choose_hit (.kwCont, parseJump toks .cont) (by rw [here]; rfl) ?_
    exact (expect_does (bare_kind semi) _).leads (newNode_does .cont ready.room)

/-- An expression that may be missing before `k`. -/
theorem optional_does {e : Option Expr} (plain : ∀ x ∈ e, x.Plain) {s : Parser} {p : Nat} {ns : List Node} {k : TokenKind}
    (clean : s.error = none) (stands : Stands toks p (optTokens (Expr.print extra 0) e))
    (stop : (toks (p + (optTokens (Expr.print extra 0) e).length)).kind = k) (stops : Stops k) (ends : ¬ Begins k)
    (room : ns.length + optSize e ≤ maxNodes) : ∃ fuel, ∀ n, fuel ≤ n →
      Leads s p ns (optionally (decide ((toks p).kind ≠ k)) (grammar toks n).expr) (e.map (Expr.root ns.length)) s
        (p + (optTokens (Expr.print extra 0) e).length) (ns ++ optLay (Expr.lay none ns.length) e) := by
  cases e with
  | none =>
      refine ⟨0, fun n _ => ?_⟩
      have same : (toks p).kind = k := stop
      rw [optLay, List.append_nil]
      exact Leads.without (decide_eq_false fun other => other same)
  | some e =>
      obtain ⟨fuel, does⟩ := (plain e rfl).print_parses s p ns ⟨clean, stands, stop ▸ stops, room⟩
      refine ⟨fuel, fun n enough => Leads.optionally (decide_eq_true fun same => ends ?_) (does n enough)⟩
      rw [← same]
      exact (Expr.print_first 0 e).alone stands

theorem semi_ends : ¬ Begins .semi := by simp [Begins]

theorem rpar_ends : ¬ Begins .rpar := by simp [Begins]

theorem ret_parses {value : Option Expr} (plain : ∀ e ∈ value, e.Plain) : StmtParses toks extra short (.ret value) := by
  apply stmt_round
  intro s p ns ready
  have clean := ready.clean
  have room := ready.room
  obtain ⟨key, rest⟩ := ready.stands
  have here : (toks p).kind = .kwReturn := bare_kind key
  obtain ⟨expr, semi, -⟩ := stands_append.mp rest
  have kind : (toks (p + 1 + (optTokens (Expr.print extra 0) value).length)).kind = .semi := bare_kind semi
  have end_ : p + ((Stmt.ret value).tokens extra short).length =
      p + 1 + (optTokens (Expr.print extra 0) value).length + 1 := by
    rw [Stmt.tokens, List.length_cons, List.length_append, List.length_singleton]
    omega
  rw [end_]
  rw [Stmt.size] at room
  cases value with
  | none =>
      refine ⟨s, 0, Named.refl s, fun n _ => ?_⟩
      refine choose_hit (.kwReturn, parseReturn toks (grammar toks n)) (by rw [here]; rfl) ?_
      refine (newNode_does .ret (by omega)).leads ((accept_yes kind).leads (Leads.yes rfl ?_))
      exact Leads.pure _
  | some e =>
      have begins : Begins (toks (p + 1)).kind := (Expr.print_first 0 e).here rest
      have length : (ns ++ [Node.fresh .ret]).length = ns.length + 1 := length_snoc _ _
      have inner : Ready toks Stops s (p + 1) (ns ++ [Node.fresh .ret]) (e.print extra 0) e := by
        refine ⟨clean, expr, kind ▸ semi_stops, ?_⟩
        rw [length]
        exact (Nat.add_assoc ..).trans_le room
      obtain ⟨fuel, does⟩ := (plain e rfl).print_parses s (p + 1) _ inner
      refine ⟨s, fuel, Named.refl s, fun n enough => ?_⟩
      refine choose_hit (.kwReturn, parseReturn toks (grammar toks n)) (by rw [here]; rfl) ?_
      refine (newNode_does .ret (by omega)).leads ((accept_no fun semi => ?_).leads (Leads.no (by decide) ?_))
      · exact semi_ends (semi ▸ begins)
      refine (does n enough).leads ((setNode_does _ _).leads ((expect_does kind _).leads ?_))
      rw [length, List.append_assoc, ← Nat.add_zero ns.length, modify_behind, Nat.add_zero]
      exact Leads.pure _

/-- A loop or a choice: from behind its keyword, a condition in parentheses. -/
theorem cond_does {c : Expr} (plain : c.Plain) {s : Parser} {p : Nat} {ns : List Node} (clean : s.error = none)
    {us : List Token} (stands : Stands toks p (Token.plain .lpar :: (c.print extra 0 ++ Token.plain .rpar :: us)))
    (room : ns.length + c.size ≤ maxNodes) : Stands toks (p + 1 + (c.print extra 0).length + 1) us ∧
      ∃ fuel, ∀ n, fuel ≤ n → ∀ (rest : Nat → Parse Nat) (i : Nat) (s' : Parser) (q : Nat) (ms : List Node),
      Leads s (p + 1 + (c.print extra 0).length + 1) (ns ++ c.lay none ns.length) (rest (c.root ns.length)) i s' q ms →
      Leads s p ns (expect toks .lpar "(" >>= fun _ => (grammar toks n).expr >>= fun cond =>
        expect toks .rpar ")" >>= fun _ => rest cond) i s' q ms := by
  obtain ⟨open_, more⟩ := stands
  obtain ⟨expr, close, behind⟩ := stands_append.mp more
  have kind : (toks (p + 1 + (c.print extra 0).length)).kind = .rpar := bare_kind close
  obtain ⟨fuel, does⟩ := plain.print_parses s (p + 1) ns ⟨clean, expr, kind ▸ rpar_stops, room⟩
  refine ⟨behind, fuel, fun n enough rest i s' q ms leads => ?_⟩
  exact (expect_does (bare_kind open_) _).leads ((does n enough).leads ((expect_does kind _).leads leads))

/-- The node of the whole comes last. -/
theorem built_leads (kind : NodeKind) (change : Node → Node) {s : Parser} {p r : Nat} {ms ms' : List Node}
    (root : r = ms.length) (room : ms.length < maxNodes) (laid : ms' = ms ++ [change (Node.fresh kind)]) :
    Leads s p ms (newNode kind >>= fun i => setNode i change >>= fun _ => pure i) r s p ms' := by
  rw [root, laid]
  exact made_does kind change room

theorem while_parses {c : Expr} (cond : c.Plain) {st : Stmt} (body : StmtParses toks extra short st) :
    StmtParses toks extra short (.while c st) := by
  apply stmt_round
  intro s p ns ready
  have clean := ready.clean
  have room := ready.room
  rw [Stmt.size] at room
  have stands := ready.stands
  rw [Stmt.tokens] at stands
  obtain ⟨key, rest⟩ := stands
  have here : (toks p).kind = .kwWhile := bare_kind key
  obtain ⟨behind, fuel, does⟩ := cond_does cond clean rest (show ns.length + c.size ≤ maxNodes by omega)
  have length : (ns ++ c.lay none ns.length).length = ns.length + c.size := by
    rw [List.length_append, Expr.lay_length]
  have end_ : p + ((Stmt.while c st).tokens extra short).length =
      p + 1 + 1 + (c.print extra 0).length + 1 + (st.tokens extra short).length := by
    rw [Stmt.tokens, List.length_cons, List.length_cons, List.length_append, List.length_cons]
    omega
  have inner : StmtReady toks s (p + 1 + 1 + (c.print extra 0).length + 1) (ns ++ c.lay none ns.length)
      (st.tokens extra short) st := by
    refine ⟨clean, behind, fun dangles => ?_, by rw [length]; omega⟩
    rw [← end_]
    exact ready.stop dangles
  obtain ⟨s', fuel', named, leads⟩ := body s _ _ inner
  refine ⟨s', fuel + fuel', named, fun n enough => ?_⟩
  rw [end_]
  refine choose_hit (.kwWhile, parseWhile toks (grammar toks n)) (by rw [here]; rfl) ?_
  refine does n (by omega) (fun cond => (grammar toks n).stmt >>= fun body => newNode .whileStmt >>= fun i =>
    setNode i (fun d => { d with child0 := some cond, child1 := some body }) >>= fun _ => pure i) _ _ _ _ ?_
  refine (leads n (by omega)).bind ?_
  have both : (ns ++ c.lay none ns.length ++ st.lay short none (ns.length + c.size)).length =
      ns.length + c.size + st.size := by
    rw [List.length_append, length, Stmt.lay_length]
  rw [length]
  refine built_leads .whileStmt _ ?_ (by omega) ?_
  · rw [both]
    rfl
  · rw [Stmt.lay, List.append_assoc, List.append_assoc]
    rfl

/-- An if with or without its else; without one, no else follows. -/
theorem if_parses {c : Expr} (cond : c.Plain) {st : Stmt} {other : Option Stmt} (yes : StmtParses toks extra short st)
    (closed : other.isSome → st.dangles = false) (no : ∀ t ∈ other, StmtParses toks extra short t) :
    StmtParses toks extra short (.ite c st other) := by
  apply stmt_round
  intro s p ns ready
  have clean := ready.clean
  have room := ready.room
  rw [Stmt.size] at room
  have stands := ready.stands
  rw [Stmt.tokens] at stands
  obtain ⟨key, rest⟩ := stands
  have here : (toks p).kind = .kwIf := bare_kind key
  obtain ⟨behind, fuel, does⟩ := cond_does cond clean rest (show ns.length + c.size ≤ maxNodes by omega)
  obtain ⟨front, back⟩ := stands_append.mp behind
  have length : (ns ++ c.lay none ns.length).length = ns.length + c.size := by
    rw [List.length_append, Expr.lay_length]
  have both : (ns ++ c.lay none ns.length ++ st.lay short none (ns.length + c.size)).length =
      ns.length + c.size + st.size := by
    rw [List.length_append, length, Stmt.lay_length]
  have end_ : p + ((Stmt.ite c st other).tokens extra short).length =
      p + 1 + 1 + (c.print extra 0).length + 1 + (st.tokens extra short).length + (elseTokens extra short other).length := by
    rw [Stmt.tokens, List.length_cons, List.length_cons, List.length_append, List.length_cons, List.length_append]
    omega
  have stop := ready.stop
  rw [end_] at stop ⊢
  cases other with
  | none =>
      have inner : StmtReady toks s (p + 1 + 1 + (c.print extra 0).length + 1) (ns ++ c.lay none ns.length)
          (st.tokens extra short) st := ⟨clean, front, fun _ => stop rfl, by rw [length]; omega⟩
      obtain ⟨s', fuel', named, leads⟩ := yes s _ _ inner
      refine ⟨s', fuel + fuel', named, fun n enough => ?_⟩
      refine choose_hit (.kwIf, parseIf toks (grammar toks n)) (by rw [here]; rfl) ?_
      refine does n (by omega) (fun cond => (grammar toks n).stmt >>= fun thenB => accept toks .kwElse >>= fun more =>
        optionally more (grammar toks n).stmt >>= fun elseB => newNode .ifStmt >>= fun i =>
        setNode i (fun d => { d with child0 := some cond, child1 := some thenB, child2 := elseB }) >>= fun _ => pure i)
        _ _ _ _ ?_
      refine (leads n (by omega)).bind ((accept_no (stop rfl)).leads ((Leads.without rfl).bind ?_))
      rw [length]
      refine built_leads .ifStmt _ ?_ (by omega) ?_
      · rw [both]
        rfl
      · simp only [Stmt.lay, elseLay, elseRoot, List.nil_append, List.append_assoc]
        rfl
  | some t =>
      obtain ⟨key', rest'⟩ := back
      have here' : (toks (p + 1 + 1 + (c.print extra 0).length + 1 + (st.tokens extra short).length)).kind = .kwElse :=
        bare_kind key'
      have inner : StmtReady toks s (p + 1 + 1 + (c.print extra 0).length + 1) (ns ++ c.lay none ns.length)
          (st.tokens extra short) st := by
        refine ⟨clean, front, fun dangles => ?_, by rw [length]; omega⟩
        rw [closed rfl] at dangles
        cases dangles
      obtain ⟨s', fuel', named, leads⟩ := yes s _ _ inner
      have place : p + 1 + 1 + (c.print extra 0).length + 1 + (st.tokens extra short).length + 1 +
          (t.tokens extra short).length = p + 1 + 1 + (c.print extra 0).length + 1 + (st.tokens extra short).length +
            (elseTokens extra short (some t)).length := by
        rw [elseTokens, List.length_cons]
        omega
      have roomy : ns.length + c.size + st.size + t.size + 1 ≤ maxNodes := by
        rw [elseSize] at room
        omega
      have inner' : StmtReady toks s' (p + 1 + 1 + (c.print extra 0).length + 1 + (st.tokens extra short).length + 1)
          (ns ++ c.lay none ns.length ++ st.lay short none (ns.length + c.size)) (t.tokens extra short) t := by
        refine ⟨named.error.trans clean, rest', fun dangles => ?_, by rw [both]; omega⟩
        rw [place]
        exact stop dangles
      obtain ⟨s'', fuel'', named', leads'⟩ := no t rfl s' _ _ inner'
      refine ⟨s'', fuel + fuel' + fuel'', named.trans named', fun n enough => ?_⟩
      refine choose_hit (.kwIf, parseIf toks (grammar toks n)) (by rw [here]; rfl) ?_
      refine does n (by omega) (fun cond => (grammar toks n).stmt >>= fun thenB => accept toks .kwElse >>= fun more =>
        optionally more (grammar toks n).stmt >>= fun elseB => newNode .ifStmt >>= fun i =>
        setNode i (fun d => { d with child0 := some cond, child1 := some thenB, child2 := elseB }) >>= fun _ => pure i)
        _ _ _ _ ?_
      refine (leads n (by omega)).bind ?_
      rw [length]
      refine (accept_yes here').leads ((Leads.optionally rfl (leads' n (by omega))).bind ?_)
      rw [both, place]
      have all : (ns ++ c.lay none ns.length ++ st.lay short none (ns.length + c.size) ++
          t.lay short none (ns.length + c.size + st.size)).length = ns.length + c.size + st.size + t.size := by
        rw [List.length_append, both, Stmt.lay_length]
      refine built_leads .ifStmt _ ?_ (by omega) ?_
      · rw [all]
        rfl
      · simp only [Stmt.lay, elseLay, elseRoot, List.append_assoc]
        rfl

section Init
variable {init : Option Expr}

theorem optTokens_simple (plain : ∀ e ∈ init, e.Plain) :
    optTokens (Expr.simpleTokens extra short) init = optTokens (Expr.print extra 0) init := by
  cases init with
  | none => rfl
  | some e => rw [optTokens, optTokens, Expr.simpleTokens, (plain e rfl).decl]

theorem optLay_simple (short : Bool) (base : Nat) (plain : ∀ e ∈ init, e.Plain) :
    optLay (Expr.simpleLay short base) init = optLay (Expr.lay none base) init := by
  cases init with
  | none => rfl
  | some e => rw [optLay, optLay, Expr.simpleLay, (plain e rfl).decl]

theorem optRoot_simple (short : Bool) (base : Nat) (plain : ∀ e ∈ init, e.Plain) :
    init.map (Expr.simpleRoot short base) = init.map (Expr.root base) := by
  cases init with
  | none => rfl
  | some e => rw [Option.map_some, Option.map_some, Expr.simpleRoot, (plain e rfl).decl]

/-- The init is a declaration, or at most an expression. -/
theorem init_cases (first : ∀ e ∈ init, e.Simple) : (∀ e ∈ init, e.Plain) ∨
    ∃ x rhs, x.length ≤ 31 ∧ rhs.Plain ∧ init = some (.assign true .set x rhs) := by
  cases init with
  | none => exact Or.inl fun e member => by cases member
  | some e =>
      cases first e rfl with
      | value plain => exact Or.inl fun e' member => Option.some.inj member ▸ plain
      | decl fits value => exact Or.inr ⟨_, _, fits, value, rfl⟩

end Init

/-- The parts of a for statement behind its init, whose nodes are `front` and which ends at `p`. -/
structure ForRest (toks : Nat → Token) (extra : Expr → Bool) (short : Bool) (p : Nat) (c post : Option Expr) (st : Stmt) :
    Prop where
  cond : ∀ e ∈ c, e.Plain
  after : ∀ e ∈ post, e.Plain
  body : StmtParses toks extra short st
  stands : Stands toks p (Token.plain .semi :: (optTokens (Expr.print extra 0) c ++ Token.plain .semi ::
    (optTokens (Expr.print extra 0) post ++ Token.plain .rpar :: st.tokens extra short)))

/-- Where those parts end. -/
def forEnd (extra : Expr → Bool) (short : Bool) (p : Nat) (c post : Option Expr) (st : Stmt) : Nat :=
  p + 1 + (optTokens (Expr.print extra 0) c).length + 1 + (optTokens (Expr.print extra 0) post).length + 1 +
    (st.tokens extra short).length

theorem forRest_leads {p : Nat} {c post : Option Expr} {st : Stmt} (parts : ForRest toks extra short p c post st)
    (init : Option Nat) {s : Parser} {ms : List Node} (clean : s.error = none)
    (stop : st.dangles = true → (toks (forEnd extra short p c post st)).kind ≠ .kwElse)
    (room : ms.length + (optSize c + (optSize post + (st.size + 1))) ≤ maxNodes) :
    ∃ s' fuel, Named s s' ∧ ∀ n, fuel ≤ n → Leads s p ms (parseForRest toks (grammar toks n) init)
      (ms.length + optSize c + optSize post + st.size) s' (forEnd extra short p c post st)
      (ms ++ (optLay (Expr.lay none ms.length) c ++ (optLay (Expr.lay none (ms.length + optSize c)) post ++
        (st.lay short none (ms.length + optSize c + optSize post) ++
          [{ Node.fresh .forStmt with
              child0 := init, child1 := c.map (Expr.root ms.length),
              child2 := post.map (Expr.root (ms.length + optSize c)),
              child3 := some (st.root short (ms.length + optSize c + optSize post)) }])))) := by
  obtain ⟨semi, rest⟩ := parts.stands
  obtain ⟨condStands, semi', rest'⟩ := stands_append.mp rest
  obtain ⟨postStands, close, bodyStands⟩ := stands_append.mp rest'
  have kind : (toks (p + 1 + (optTokens (Expr.print extra 0) c).length)).kind = .semi := bare_kind semi'
  have kind' : (toks (p + 1 + (optTokens (Expr.print extra 0) c).length + 1 +
    (optTokens (Expr.print extra 0) post).length)).kind = .rpar := bare_kind close
  have condLength : (ms ++ optLay (Expr.lay none ms.length) c).length = ms.length + optSize c := by
    rw [List.length_append, optLay_length fun e => e.lay_length none ms.length]
  have postLength : (ms ++ optLay (Expr.lay none ms.length) c ++ optLay (Expr.lay none (ms.length + optSize c)) post).length =
      ms.length + optSize c + optSize post := by
    rw [List.length_append, condLength, optLay_length fun e => e.lay_length none (ms.length + optSize c)]
  have bodyLength : (ms ++ optLay (Expr.lay none ms.length) c ++ optLay (Expr.lay none (ms.length + optSize c)) post ++
      st.lay short none (ms.length + optSize c + optSize post)).length = ms.length + optSize c + optSize post + st.size := by
    rw [List.length_append, postLength, Stmt.lay_length]
  obtain ⟨fuel, cond⟩ := optional_does parts.cond clean condStands kind semi_stops semi_ends
    (show ms.length + optSize c ≤ maxNodes by omega)
  have postRoom : (ms ++ optLay (Expr.lay none ms.length) c).length + optSize post ≤ maxNodes := by
    rw [condLength]
    omega
  obtain ⟨fuel', post'⟩ := optional_does parts.after clean postStands kind' rpar_stops rpar_ends postRoom
  have inner : StmtReady toks s (p + 1 + (optTokens (Expr.print extra 0) c).length + 1 +
      (optTokens (Expr.print extra 0) post).length + 1)
      (ms ++ optLay (Expr.lay none ms.length) c ++ optLay (Expr.lay none (ms.length + optSize c)) post)
      (st.tokens extra short) st := ⟨clean, bodyStands, stop, by rw [postLength]; omega⟩
  obtain ⟨s', fuel'', named, body⟩ := parts.body s _ _ inner
  refine ⟨s', fuel + fuel' + fuel'', named, fun n enough => ?_⟩
  refine (expect_does (bare_kind semi) _).leads (peek_does.leads ((cond n (by omega)).bind ?_))
  refine (expect_does kind _).leads (peek_does.leads ?_)
  have post'' := post' n (by omega)
  rw [condLength] at post''
  refine post''.bind ((expect_does kind' _).leads ((body n (by omega)).bind ?_))
  rw [postLength]
  refine built_leads .forStmt _ ?_ (by omega) ?_
  · rw [bodyLength]
  · simp only [List.append_assoc]

theorem for_parses {init c post : Option Expr} {st : Stmt} (first : ∀ e ∈ init, e.Simple) (cond : ∀ e ∈ c, e.Plain)
    (after : ∀ e ∈ post, e.Plain) (body : StmtParses toks extra short st) :
    StmtParses toks extra short (.for init c post st) := by
  apply stmt_round
  intro s p ns ready
  have clean := ready.clean
  have room := ready.room
  rw [Stmt.size] at room
  have stands := ready.stands
  rw [Stmt.tokens] at stands
  obtain ⟨key, open_, rest⟩ := stands
  have here : (toks p).kind = .kwFor := bare_kind key
  obtain ⟨initStands, more⟩ := stands_append.mp rest
  have parts : ForRest toks extra short (p + 1 + 1 + (optTokens (Expr.simpleTokens extra short) init).length) c post st :=
    ⟨cond, after, body, more⟩
  have end_ : p + ((Stmt.for init c post st).tokens extra short).length =
      forEnd extra short (p + 1 + 1 + (optTokens (Expr.simpleTokens extra short) init).length) c post st := by
    simp only [Stmt.tokens, forEnd, List.length_cons, List.length_append]
    omega
  have semi : (toks (p + 1 + 1 + (optTokens (Expr.simpleTokens extra short) init).length)).kind = .semi := bare_kind more.1
  have stop := ready.stop
  rw [end_] at stop ⊢
  have initLength : (ns ++ optLay (Expr.simpleLay short ns.length) init).length = ns.length + optSize init := by
    rw [List.length_append, optLay_length fun e => e.simpleLay_length short ns.length]
  have enter (n i : Nat) (s' : Parser) (q : Nat) (ms : List Node) (leads : Leads s (p + 1 + 1) ns
      (accept toks .kwInt >>= fun decl => if decl then
        takeName toks >>= fun id => if id.kind = .ident then
          accept toks .assign >>= fun assign => optionally assign (grammar toks n).expr >>= fun rhs =>
            declare id rhs >>= fun init => parseForRest toks (grammar toks n) (some init)
          else zbcErr "expected name" >>= fun _ => newNode .num
        else peek toks >>= fun t => optionally (decide (t.kind ≠ .semi)) (grammar toks n).expr >>= fun init =>
          parseForRest toks (grammar toks n) init) i s' q ms) : Leads s p ns (parseStmt toks (grammar toks n)) i s' q ms :=
    choose_hit (.kwFor, parseFor toks (grammar toks n)) (by rw [here]; rfl)
      ((expect_does (bare_kind open_) _).leads leads)
  have laid (last : Node) : ns ++ (optLay (Expr.simpleLay short ns.length) init ++
      (optLay (Expr.lay none (ns.length + optSize init)) c ++
        (optLay (Expr.lay none (ns.length + optSize init + optSize c)) post ++
          (st.lay short none (ns.length + optSize init + optSize c + optSize post) ++ [last])))) =
      ns ++ optLay (Expr.simpleLay short ns.length) init ++ (optLay (Expr.lay none (ns.length + optSize init)) c ++
        (optLay (Expr.lay none (ns.length + optSize init + optSize c)) post ++
          (st.lay short none (ns.length + optSize init + optSize c + optSize post) ++ [last]))) :=
    (List.append_assoc ..).symm
  rw [Stmt.lay, Stmt.root, laid]
  rcases init_cases first with plain | ⟨x, rhs, fits, value, rfl⟩
  · have same := optLay_simple short ns.length plain
    have roots := optRoot_simple short ns.length plain
    rw [optTokens_simple plain] at initStands semi parts stop ⊢
    rw [same] at initLength ⊢
    have roomy : (ns ++ optLay (Expr.lay none ns.length) init).length + (optSize c + (optSize post + (st.size + 1))) ≤
        maxNodes := by
      rw [initLength]
      omega
    obtain ⟨s', fuel, named, leads⟩ := forRest_leads parts (init.map (Expr.root ns.length)) clean stop roomy
    obtain ⟨fuel', does⟩ := optional_does plain clean initStands semi semi_stops semi_ends
      (show ns.length + optSize init ≤ maxNodes by omega)
    refine ⟨s', fuel + fuel', named, fun n enough => enter n _ _ _ _ ?_⟩
    refine (accept_no ?_).leads (Leads.no (by decide) (peek_does.leads ((does n (by omega)).bind ?_)))
    · cases init with
      | none =>
          rw [show (toks (p + 1 + 1)).kind = .semi from semi]
          decide
      | some e =>
          have begins : Begins (toks (p + 1 + 1)).kind := (Expr.print_first 0 e).alone initStands
          intro int
          rw [int] at begins
          simp [Begins] at begins
    · have rest := leads n (by omega)
      rw [initLength] at rest
      rw [roots]
      exact rest
  · obtain ⟨int, decl⟩ := initStands
    have name : (toks (p + 1 + 1 + 1)).sval = x := congrArg Token.sval decl.1
    have place : p + 1 + 1 + 1 + (initTokens extra short rhs).length + 1 =
        p + 1 + 1 + (optTokens (Expr.simpleTokens extra short) (some (.assign true .set x rhs))).length := by
      change _ = p + 1 + 1 + (Token.plain .kwInt :: Token.ident x :: initTokens extra short rhs).length
      simp only [List.length_cons]
      omega
    have roomy : ns.length + (Expr.assign true .set x rhs).size ≤ maxNodes := by
      rw [optSize] at room
      omega
    obtain ⟨fuel, front⟩ := decl_front value clean decl (place ▸ semi) roomy
    have clean' : ({ s with named := (p + 1 + 1 + 1) :: s.named } : Parser).error = none := clean
    have behindDecl : (ns ++ declLay short x rhs none ns.length).length + (optSize c + (optSize post + (st.size + 1))) ≤
        maxNodes := by
      rw [show (ns ++ declLay short x rhs none ns.length).length = _ from initLength]
      omega
    obtain ⟨s', fuel', named, leads⟩ := forRest_leads parts (some (declRoot short ns.length rhs)) clean' stop behindDecl
    refine ⟨s', fuel + fuel', Named.trans ⟨_, rfl⟩ named, fun n enough => enter n _ _ _ _ ?_⟩
    refine (accept_yes (bare_kind int)).leads (Leads.yes rfl ?_)
    refine front n (by omega) (fun id rhs => declare id rhs >>= fun init => parseForRest toks (grammar toks n) (some init))
      _ _ _ _ _ ?_
    rw [place]
    refine (declare_does name fits roomy).leads ?_
    have rest := leads n (by omega)
    rw [show (ns ++ declLay short x rhs none ns.length).length = _ from initLength] at rest
    exact rest

theorem Stmt.tokens_first (extra : Expr → Bool) (short : Bool) (st : Stmt) : FirstIs StmtBegins (st.tokens extra short) := by
  cases st with
  | expr e =>
      rw [Stmt.tokens, Expr.simpleTokens]
      apply FirstIs.append
      split
      · exact ⟨_, _, rfl, by decide⟩
      · exact (e.print_first 0).weaken fun _ => Begins.stmt
  | ite c s other => exact ⟨_, _, rfl, by decide⟩
  | «while» c s => exact ⟨_, _, rfl, by decide⟩
  | «for» init c post s => exact ⟨_, _, rfl, by decide⟩
  | block ss => exact ⟨_, _, rfl, by decide⟩
  | ret e => exact ⟨_, _, rfl, by decide⟩
  | brk => exact ⟨_, _, rfl, by decide⟩
  | cont => exact ⟨_, _, rfl, by decide⟩

/-- The table when a list of statements that begins with `first` is linked. -/
def linkedTo (ns : List Node) (b : Nat) (last : Option Nat) : Option Nat → List Node
  | none => ns
  | some i => linked ns b last i

/-- Linking the next statement changes the root of the one before it. -/
theorem linked_next (short : Bool) (st : Stmt) (ns : List Node) (b : Nat) (first : Option Nat) :
    linkedTo (ns ++ st.lay short none ns.length) b (some (st.root short ns.length)) first =
      ns ++ st.lay short first ns.length := by
  cases first with
  | none => rfl
  | some i => exact (st.lay_carries short ns.length).linked i

/-- What stands behind a statement in a list is no else. -/
theorem behind_stmt {ss : List Stmt} {p : Nat} (stands : Stands toks p (stmtsTokens extra short ss ++ [Token.plain .rbrace])) :
    (toks p).kind ≠ .kwElse := by
  cases ss with
  | nil =>
      rw [show (toks p).kind = .rbrace from bare_kind stands.1]
      decide
  | cons st ss =>
      have first := (Stmt.tokens_first extra short st).append (stmtsTokens extra short ss)
      exact (first.here stands).2.2

/-- The statements up to the closing brace, each linked to the next. -/
theorem stmts_lead (ss : List Stmt) : (∀ st ∈ ss, StmtParses toks extra short st) → ∀ (s : Parser) (p : Nat) (ns : List Node)
    (b : Nat) (last : Option Nat), s.error = none →
    Stands toks p (stmtsTokens extra short ss ++ [Token.plain .rbrace]) → ns.length + stmtsSize ss ≤ maxNodes →
    last.getD b < ns.length → ∃ s' fuel, Named s s' ∧ ∀ n, fuel ≤ n → Leads s p ns ((grammar toks n).stmts b last) b s'
      (p + (stmtsTokens extra short ss).length + 1)
      (linkedTo ns b last (firstStmt short ns.length ss) ++ stmtsLay short ns.length ss) := by
  induction ss with
  | nil =>
      intro _ s p ns b last clean stands room inside
      have kind : (toks p).kind = .rbrace := bare_kind stands.1
      refine ⟨s, 1, Named.refl s, fun n enough => ?_⟩
      obtain ⟨m, rfl⟩ : ∃ m, n = m + 1 := ⟨n - 1, by omega⟩
      refine peek_does.leads (Leads.no (fun both => both.1 kind) ((expect_does kind _).leads ?_))
      rw [stmtsLay, List.append_nil]
      exact Leads.pure b
  | cons st ss ih =>
      intro each s p ns b last clean stands room inside
      rw [List.forall_mem_cons] at each
      have begins : StmtBegins (toks p).kind :=
        ((Stmt.tokens_first extra short st).append (stmtsTokens extra short ss)).here stands
      rw [stmtsTokens, List.append_assoc] at stands
      obtain ⟨here, behind⟩ := stands_append.mp stands
      rw [stmtsSize] at room
      have ready : StmtReady toks s p ns (st.tokens extra short) st :=
        ⟨clean, here, fun _ => behind_stmt behind, by omega⟩
      obtain ⟨s', fuel, named, leads⟩ := each.1 s p ns ready
      have root : st.root short ns.length < ns.length + st.size := by
        rw [← st.lay_length short none ns.length]
        exact (st.lay_carries short ns.length).inside none
      have front := linked_length ns b last (st.root short ns.length)
      have length : (linked ns b last (st.root short ns.length) ++ st.lay short none ns.length).length =
          ns.length + st.size := by
        rw [List.length_append, front, Stmt.lay_length]
      obtain ⟨s'', fuel', named', leads'⟩ := ih each.2 s' (p + (st.tokens extra short).length)
        (linked ns b last (st.root short ns.length) ++ st.lay short none ns.length) b (some (st.root short ns.length))
        (named.error.trans clean) behind (by rw [length]; omega) (by rw [length]; exact root)
      refine ⟨s'', fuel + fuel' + 1, named.trans named', fun n enough => ?_⟩
      obtain ⟨m, rfl⟩ : ∃ m, n = m + 1 := ⟨n - 1, by omega⟩
      refine peek_does.leads (Leads.yes ⟨begins.1, begins.2.1⟩ ((leads m (by omega)).bind ?_))
      refine (link_does b last _).leads ?_
      rw [linked_before _ inside]
      refine (hadError_does (named.error.trans clean)).leads (Leads.no (by decide) ?_)
      have rest := leads' m (by omega)
      have next := linked_next short st (linked ns b last (st.root short ns.length)) b
        (firstStmt short (ns.length + st.size) ss)
      rw [front] at next
      rw [length, next] at rest
      rw [stmtsTokens, List.length_append, ← Nat.add_assoc, stmtsLay, ← List.append_assoc]
      exact rest

/-- A block, from behind its brace. -/
theorem block_leads {ss : List Stmt} (each : ∀ st ∈ ss, StmtParses toks extra short st) {s : Parser} {p : Nat}
    {ns : List Node} (clean : s.error = none) (stands : Stands toks p (stmtsTokens extra short ss ++ [Token.plain .rbrace]))
    (room : ns.length + (Stmt.block ss).size ≤ maxNodes) : ∃ s' fuel, Named s s' ∧ ∀ n, fuel ≤ n →
      Leads s p ns (grammar toks n).block ns.length s' (p + (stmtsTokens extra short ss).length + 1)
        (ns ++ (Stmt.block ss).lay short none ns.length) := by
  rw [Stmt.size] at room
  have length : (ns ++ [Node.fresh .block]).length = ns.length + 1 := length_snoc _ _
  obtain ⟨s', fuel, named, leads⟩ := stmts_lead ss each s p (ns ++ [Node.fresh .block]) ns.length none clean stands
    (by rw [length]; omega) (by rw [length]; exact Nat.lt_succ_self _)
  refine ⟨s', fuel + 1, named, fun n enough => ?_⟩
  obtain ⟨m, rfl⟩ : ∃ m, n = m + 1 := ⟨n - 1, by omega⟩
  refine (newNode_does .block (by omega)).leads ?_
  have rest := leads m (by omega)
  have opened : linkedTo (ns ++ [Node.fresh .block]) ns.length none (firstStmt short (ns.length + 1) ss) =
      ns ++ [{ Node.fresh .block with child0 := firstStmt short (ns.length + 1) ss }] := by
    cases ss with
    | nil => rfl
    | cons st ss => exact modify_last _ _ _
  rw [length, opened, List.append_assoc] at rest
  exact rest

theorem block_parses {ss : List Stmt} (each : ∀ st ∈ ss, StmtParses toks extra short st) :
    StmtParses toks extra short (.block ss) := by
  apply stmt_round
  intro s p ns ready
  have stands := ready.stands
  rw [Stmt.tokens] at stands
  obtain ⟨open_, rest⟩ := stands
  have here : (toks p).kind = .lbrace := bare_kind open_
  obtain ⟨s', fuel, named, leads⟩ := block_leads each ready.clean rest ready.room
  have end_ : p + ((Stmt.block ss).tokens extra short).length = p + 1 + (stmtsTokens extra short ss).length + 1 := by
    rw [Stmt.tokens, List.length_cons, List.length_append, List.length_singleton]
    omega
  refine ⟨s', fuel, named, fun n enough => ?_⟩
  rw [end_]
  exact choose_hit (.lbrace, (grammar toks n).block) (by rw [here]; rfl) (leads n enough)

/-- Every statement is parsed. -/
theorem Stmt.Plain.parses {st : Stmt} (plain : st.Plain) : StmtParses toks extra short st := by
  induction st using Stmt.induct with
  | expr e =>
      cases plain with
      | expr simple =>
          cases simple with
          | value plain => exact value_parses plain
          | decl fits value => exact decl_parses fits value
  | ite c s other ih ihElse =>
      cases plain with
      | ifThen cond yes => exact if_parses cond (ih yes) (fun some_ => by cases some_) fun t member => by cases member
      | ifElse cond yes closed no =>
          exact if_parses cond (ih yes) (fun _ => closed) fun t member => Option.some.inj member ▸ ihElse _ rfl no
  | while_ c s ih =>
      cases plain with
      | «while» cond body => exact while_parses cond (ih body)
  | for_ init c post s ih =>
      cases plain with
      | «for» first cond after body => exact for_parses first cond after (ih body)
  | block ss ih =>
      cases plain with
      | block all => exact block_parses fun s member => ih s member (all s member)
  | ret e =>
      cases plain with
      | ret value => exact ret_parses value
  | brk => exact jump_parses .brk (Or.inl rfl)
  | cont => exact jump_parses .cont (Or.inr rfl)

end Statements

end Zenbite.Zbc
