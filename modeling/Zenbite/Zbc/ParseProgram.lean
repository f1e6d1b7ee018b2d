import Mathlib.Algebra.GroupWithZero.Nat
import Zenbite.Zbc.ParseStmt

/-! Whole programs: the functions of zbc.c's top level as tokens, and what the parser makes of them. -/

namespace Zenbite.Zbc

open Acts

/-- A function whose names fit. -/
structure Func.Plain (fn : Func) : Prop where
  name : fn.name.length ≤ 31
  params : ∀ x ∈ fn.params, x.length ≤ 31
  body : ∀ s ∈ fn.body, s.Plain

def Func.size (fn : Func) : Nat := (Stmt.block fn.body).size

def Prog.size (p : Prog) : Nat := (p.funcs.map Func.size).sum

def moreParams : List Name → List Token
  | [] => []
  | x :: xs => Token.plain .comma :: Token.plain .kwInt :: Token.ident x :: moreParams xs

def paramTokens : List Name → List Token
  | [] => []
  | x :: xs => Token.plain .kwInt :: Token.ident x :: moreParams xs

section Tokens
variable (extra : Expr → Bool) (short : Bool) (isVoid : Func → Bool)

def Func.tokens (fn : Func) : List Token :=
  Token.plain (if isVoid fn then .kwVoid else .kwInt) :: Token.ident fn.name :: Token.plain .lpar ::
    (paramTokens fn.params ++ Token.plain .rpar :: Token.plain .lbrace ::
      (stmtsTokens extra short fn.body ++ [Token.plain .rbrace]))

def Prog.tokens (p : Prog) : List Token := (p.funcs.map (Func.tokens extra short isVoid)).flatten

/-- The entries of functions whose bodies begin at `base`. -/
def funcEntries (base : Nat) : List Func → List FuncEntry
  | [] => []
  | fn :: fns => ⟨fn.name, base, fn.params, isVoid fn⟩ :: funcEntries (base + fn.size) fns

def funcsLay (base : Nat) : List Func → List Node
  | [] => []
  | fn :: fns => (Stmt.block fn.body).lay short none base ++ funcsLay (base + fn.size) fns

end Tokens

/-- The function that a call meets in an entry. -/
structure ReadsFunc (nodes : List Node) (entry : FuncEntry) (fn : Func) : Prop where
  name : entry.name = fn.name
  params : entry.params = fn.params
  body : ReadsStmt nodes entry.body (.block fn.body)

/-- The functions in the tables of the parser. -/
def ReadsProg (t : Parser) (p : Prog) : Prop := List.Forall₂ (ReadsFunc t.nodes) t.funcs p.funcs

theorem ReadsFunc.unique {nodes : List Node} {entry : FuncEntry} {fn fn' : Func} (reads : ReadsFunc nodes entry fn)
    (reads' : ReadsFunc nodes entry fn') : fn = fn' := by
  have body := ReadsStmt.unique _ _ _ reads.body reads'.body
  have name := reads.name.symm.trans reads'.name
  have params := reads.params.symm.trans reads'.params
  cases fn
  cases fn'
  cases name
  cases params
  cases body
  rfl

/-- The tables hold one program only. -/
theorem ReadsProg.unique {t : Parser} {p q : Prog} (reads : ReadsProg t p) (reads' : ReadsProg t q) : p.funcs = q.funcs := by
  rw [ReadsProg] at reads reads'
  generalize t.funcs = entries at reads reads'
  generalize p.funcs = fns at reads
  generalize q.funcs = fns' at reads'
  induction reads generalizing fns' with
  | nil =>
      cases reads'
      rfl
  | cons head tail ih =>
      cases reads' with
      | cons head' tail' => rw [head.unique head', ih _ tail']

section Layout
variable {nodes : List Node} {short : Bool}

theorem funcsLay_reads (isVoid : Func → Bool) {fns : List Func} (plain : ∀ fn ∈ fns, fn.Plain) : ∀ base,
    Placed nodes base (funcsLay short base fns) → List.Forall₂ (ReadsFunc nodes) (funcEntries isVoid base fns) fns := by
  induction fns with
  | nil => exact fun _ _ => .nil
  | cons fn fns ih =>
      intro base placed
      rw [List.forall_mem_cons] at plain
      rw [funcsLay] at placed
      have rest := placed.right
      rw [Stmt.lay_length] at rest
      exact .cons ⟨rfl, rfl, Stmt.lay_reads (.block plain.1.body) none base placed.left⟩ (ih plain.2 _ rest)

end Layout

section Functions
variable {toks : Nat → Token} {extra : Expr → Bool} {short : Bool} {isVoid : Func → Bool} {s : Parser} {p : Nat}
  {ns : List Node}

theorem setFunc_leads (f : Nat) (change : FuncEntry → FuncEntry) :
    Leads s p ns (setFunc f change) () { s with funcs := s.funcs.modify f change } p ns := by
  intro t stage
  obtain ⟨far, rfl⟩ := stage
  exact ⟨rfl, _, rfl⟩

/-- Filling in the newest entry. -/
theorem setLast_leads {fs : List FuncEntry} {d : FuncEntry} (change : FuncEntry → FuncEntry) :
    Leads { s with funcs := fs ++ [d] } p ns (setFunc fs.length change) () { s with funcs := fs ++ [change d] } p ns := by
  have last : (fs ++ [d]).modify fs.length change = fs ++ [change d] := List.modifyTailIdx_add _ 0 fs [d]
  rw [← last]
  exact setFunc_leads fs.length change

/-- From one parameter on; they are put behind those there are. -/
theorem params_lead (xs : List Name) : ∀ (x : Name) (s : Parser) (p : Nat) (fs : List FuncEntry) (d : FuncEntry),
    s.error = none → (∀ y ∈ x :: xs, y.length ≤ 31) → d.params.length + (x :: xs).length ≤ 8 →
    Stands toks p (Token.plain .kwInt :: Token.ident x :: moreParams xs) →
    (toks (p + 1 + (moreParams xs).length + 1)).kind = .rpar → ∃ named fuel, ∀ n, fuel ≤ n →
      Leads { s with funcs := fs ++ [d] } p ns ((grammar toks n).params fs.length) true
        { s with named := named, funcs := fs ++ [{ d with params := d.params ++ x :: xs }] }
        (p + 1 + (moreParams xs).length + 1) ns := by
  induction xs with
  | nil =>
      intro x s p fs d clean fits few stands close
      obtain ⟨int, ident, -⟩ := stands
      have kind : (toks p).kind = .kwInt := bare_kind int
      have name : (toks (p + 1)).sval = x := congrArg Token.sval ident
      have close' : (toks (p + 1 + 1)).kind = .rpar := close
      refine ⟨(p + 1) :: s.named, 1, fun n enough => ?_⟩
      obtain ⟨m, rfl⟩ : ∃ m, n = m + 1 := ⟨n - 1, by omega⟩
      have clean' : ({ s with funcs := fs ++ [d] } : Parser).error = none := clean
      refine peek_does.leads ((hadError_does clean').leads (Leads.yes ⟨by rw [kind]; decide, rfl⟩ ?_))
      refine (accept_yes kind).leads (takeName_leads.bind (Leads.yes (bare_kind ident) ?_))
      refine (setLast_leads (s := { s with named := (p + 1) :: s.named }) _).bind ?_
      rw [if_pos (Nat.lt_of_succ_le few), name, copyName_fits (fits x List.mem_cons_self)]
      exact (accept_no (by rw [close']; decide)).leads (Leads.no (by decide) (Leads.pure true))
  | cons y xs ih =>
      intro x s p fs d clean fits few stands close
      rw [List.forall_mem_cons] at fits
      obtain ⟨int, ident, comma, rest⟩ := stands
      have kind : (toks p).kind = .kwInt := bare_kind int
      have name : (toks (p + 1)).sval = x := congrArg Token.sval ident
      have place : p + 1 + 1 + 1 + 1 + (moreParams xs).length + 1 = p + 1 + (moreParams (y :: xs)).length + 1 := by
        rw [moreParams]
        simp only [List.length_cons]
        omega
      obtain ⟨named, fuel, leads⟩ := ih y { s with named := (p + 1) :: s.named } (p + 1 + 1 + 1) fs
        { d with params := d.params ++ [x] } clean fits.2
        (by simp only [List.length_append, List.length_cons, List.length_nil] at few ⊢; omega) rest (place ▸ close)
      refine ⟨named, fuel + 1, fun n enough => ?_⟩
      obtain ⟨m, rfl⟩ : ∃ m, n = m + 1 := ⟨n - 1, by omega⟩
      have clean' : ({ s with funcs := fs ++ [d] } : Parser).error = none := clean
      refine peek_does.leads ((hadError_does clean').leads (Leads.yes ⟨by rw [kind]; decide, rfl⟩ ?_))
      refine (accept_yes kind).leads (takeName_leads.bind (Leads.yes (bare_kind ident) ?_))
      refine (setLast_leads (s := { s with named := (p + 1) :: s.named }) _).bind ?_
      rw [if_pos (by simp only [List.length_cons] at few; omega), name, copyName_fits fits.1]
      refine (accept_yes (bare_kind comma)).leads (Leads.yes rfl ?_)
      have more := leads m (by omega)
      rw [place, List.append_assoc] at more
      exact more

/-- All the parameters of the newest function. -/
theorem params_all (xs : List Name) (s : Parser) (ns : List Node) (fs : List FuncEntry) (d : FuncEntry)
    (none_ : d.params = []) (clean : s.error = none)
    (fits : ∀ x ∈ xs, x.length ≤ 31) (few : xs.length ≤ 8) (stands : Stands toks p (paramTokens xs))
    (close : (toks (p + (paramTokens xs).length)).kind = .rpar) : ∃ named fuel, ∀ n, fuel ≤ n →
      Leads { s with funcs := fs ++ [d] } p ns ((grammar toks n).params fs.length) true
        { s with named := named, funcs := fs ++ [{ d with params := xs }] } (p + (paramTokens xs).length) ns := by
  cases xs with
  | nil =>
      refine ⟨s.named, 1, fun n enough => ?_⟩
      obtain ⟨m, rfl⟩ : ∃ m, n = m + 1 := ⟨n - 1, by omega⟩
      have kind : (toks p).kind = .rpar := close
      have clean' : ({ s with funcs := fs ++ [d] } : Parser).error = none := clean
      have same : { d with params := [] } = d := by rw [← none_]
      rw [same]
      exact peek_does.leads ((hadError_does clean').leads (Leads.no (fun both => both.1 kind) (Leads.pure true)))
  | cons x xs =>
      have place : p + 1 + (moreParams xs).length + 1 = p + (paramTokens (x :: xs)).length := by
        rw [paramTokens]
        simp only [List.length_cons]
        omega
      obtain ⟨named, fuel, leads⟩ := params_lead xs x s p fs d clean fits (by rw [none_, List.length_nil]; omega)
        stands (place ▸ close)
      refine ⟨named, fuel, fun n enough => ?_⟩
      have all := leads n enough
      rw [place, none_, List.nil_append] at all
      exact all

/-- A function from behind its type. -/
theorem func_leads {fn : Func} (plain : fn.Plain) (v : Bool) (clean : s.error = none) (more : s.funcs.length < maxFuncs)
    (stands : Stands toks p (Token.ident fn.name :: Token.plain .lpar ::
      (paramTokens fn.params ++ Token.plain .rpar :: Token.plain .lbrace ::
        (stmtsTokens extra short fn.body ++ [Token.plain .rbrace])))) (room : ns.length + fn.size ≤ maxNodes) :
    ∃ named fuel, ∀ n, fuel ≤ n → Leads s p ns ((grammar toks n).func v) ()
      { s with named := named, funcs := s.funcs ++ [⟨fn.name, ns.length, fn.params, v⟩] }
      (p + 1 + 1 + (paramTokens fn.params).length + 1 + 1 + (stmtsTokens extra short fn.body).length + 1)
      (ns ++ (Stmt.block fn.body).lay short none ns.length) := by
  obtain ⟨ident, open_, rest⟩ := stands
  have name : (toks p).sval = fn.name := congrArg Token.sval ident
  obtain ⟨params, close, brace, body⟩ := stands_append.mp rest
  have kind : (toks (p + 1 + 1 + (paramTokens fn.params).length)).kind = .rpar := bare_kind close
  obtain ⟨named, fuel, paramsLead⟩ := params_all fn.params { s with named := p :: s.named } ns s.funcs
    ⟨fn.name, 0, [], v⟩ rfl clean plain.params fn.few params kind
  obtain ⟨s', fuel', ⟨named', rfl⟩, bodyLeads⟩ := block_leads
    (s := { s with named := named, funcs := s.funcs ++ [⟨fn.name, 0, fn.params, v⟩] })
    (fun st member => (plain.body st member).parses) clean body room
  refine ⟨named', fuel + fuel' + 1, fun n enough => ?_⟩
  obtain ⟨m, rfl⟩ : ∃ m, n = m + 1 := ⟨n - 1, by omega⟩
  have count : Leads s p ns (look (·.funcs.length)) s.funcs.length s p ns := by
    intro t stage
    obtain ⟨far, rfl⟩ := stage
    exact ⟨rfl, _, rfl⟩
  have entered : Leads s p ns (update fun t => { t with funcs := t.funcs ++ [⟨[], 0, [], v⟩] }) ()
      { s with funcs := s.funcs ++ [⟨[], 0, [], v⟩] } p ns := by
    intro t stage
    obtain ⟨far, rfl⟩ := stage
    exact ⟨rfl, _, rfl⟩
  refine count.bind (Leads.yes more (entered.bind ?_))
  refine takeName_leads.bind (Leads.yes (bare_kind ident) ?_)
  refine (setLast_leads (s := { s with named := p :: s.named }) _).bind ?_
  rw [name, copyName_fits plain.name]
  refine (expect_does (bare_kind open_) _).leads ((paramsLead m (by omega)).bind (Leads.yes rfl ?_))
  refine (expect_does kind _).leads ((expect_does (bare_kind brace) _).leads ((bodyLeads m (by omega)).bind ?_))
  exact setLast_leads (s := { s with named := named' }) _

/-- The loop over the functions. -/
theorem program_leads (fns : List Func) : (∀ fn ∈ fns, fn.Plain) → ∀ (s : Parser) (p : Nat) (ns : List Node), s.error = none →
    s.funcs.length + fns.length ≤ maxFuncs → ns.length + (fns.map Func.size).sum ≤ maxNodes →
    Stands toks p (fns.map (Func.tokens extra short isVoid)).flatten →
    (toks (p + (fns.map (Func.tokens extra short isVoid)).flatten.length)).kind = .eof → ∃ named fuel, ∀ n, fuel ≤ n →
      Leads s p ns (grammar toks n).program ()
        { s with named := named, funcs := s.funcs ++ funcEntries isVoid ns.length fns }
        (p + (fns.map (Func.tokens extra short isVoid)).flatten.length) (ns ++ funcsLay short ns.length fns) := by
  induction fns with
  | nil =>
      intro _ s p ns clean _ _ _ end_
      have kind : (toks p).kind = .eof := end_
      refine ⟨s.named, 1, fun n enough => ?_⟩
      obtain ⟨m, rfl⟩ : ∃ m, n = m + 1 := ⟨n - 1, by omega⟩
      rw [funcEntries, funcsLay, List.append_nil, List.append_nil]
      exact peek_does.leads ((hadError_does clean).leads (Leads.no (fun both => both.1 kind) (Leads.pure ())))
  | cons fn fns ih =>
      intro plain s p ns clean few room stands end_
      rw [List.forall_mem_cons] at plain
      rw [List.map_cons, List.flatten_cons] at stands
      obtain ⟨⟨type, function⟩, behind⟩ := stands_append.mp stands
      rw [List.map_cons, List.sum_cons] at room
      rw [List.length_cons] at few
      have whole : p + 1 + 1 + 1 + (paramTokens fn.params).length + 1 + 1 + (stmtsTokens extra short fn.body).length + 1 =
          p + (fn.tokens extra short isVoid).length := by
        simp only [Func.tokens, List.length_cons, List.length_append, List.length_nil]
        omega
      have place : p + (fn.tokens extra short isVoid).length + (fns.map (Func.tokens extra short isVoid)).flatten.length =
          p + ((fn :: fns).map (Func.tokens extra short isVoid)).flatten.length := by
        rw [List.map_cons, List.flatten_cons, List.length_append, Nat.add_assoc]
      have length : (ns ++ (Stmt.block fn.body).lay short none ns.length).length = ns.length + fn.size := by
        rw [List.length_append, Stmt.lay_length]
        rfl
      obtain ⟨named, fuel, first⟩ := func_leads (s := s) (p := p + 1) plain.1 (isVoid fn) clean
        (show s.funcs.length < maxFuncs by omega) function (show ns.length + fn.size ≤ maxNodes by omega)
      obtain ⟨named', fuel', rest⟩ := ih plain.2
        { s with named := named, funcs := s.funcs ++ [⟨fn.name, ns.length, fn.params, isVoid fn⟩] }
        (p + (fn.tokens extra short isVoid).length) (ns ++ (Stmt.block fn.body).lay short none ns.length) clean
        (by rw [List.length_append, List.length_singleton]; omega) (by rw [length]; omega) behind (place ▸ end_)
      refine ⟨named', fuel + fuel' + 1, fun n enough => ?_⟩
      obtain ⟨m, rfl⟩ : ∃ m, n = m + 1 := ⟨n - 1, by omega⟩
      have one := first m (by omega)
      have more := rest m (by omega)
      rw [whole] at one
      rw [place, length, List.append_assoc, List.append_assoc] at more
      refine peek_does.leads ((hadError_does clean).leads ?_)
      cases void : isVoid fn with
      | true =>
          rw [void] at type one more
          have kind : (toks p).kind = .kwVoid := bare_kind type
          refine Leads.yes ⟨by rw [kind]; decide, rfl⟩ ((accept_no (by rw [kind]; decide)).leads (Leads.no (by decide) ?_))
          refine (accept_yes kind).leads (Leads.yes rfl (one.bind ?_))
          rw [funcEntries, funcsLay, void]
          exact more
      | false =>
          rw [void] at type one more
          have kind : (toks p).kind = .kwInt := bare_kind type
          refine Leads.yes ⟨by rw [kind]; decide, rfl⟩ ((accept_yes kind).leads (Leads.yes rfl (one.bind ?_)))
          rw [funcEntries, funcsLay, void]
          exact more

end Functions

/-- The tokens of the program, and the end after them. -/
structure Prog.Stand (p : Prog) (extra : Expr → Bool) (short : Bool) (isVoid : Func → Bool) (toks : Nat → Token) : Prop where
  stands : Stands toks 0 (p.tokens extra short isVoid)
  end_ : (toks (p.tokens extra short isVoid).length).kind = .eof

/-- What fits into the tables of the parser. -/
structure Prog.Fits (p : Prog) : Prop where
  plain : ∀ fn ∈ p.funcs, fn.Plain
  few : p.funcs.length ≤ maxFuncs
  room : p.size ≤ maxNodes

/-- The state behind the loop of zbc_run. -/
theorem program_state {toks : Nat → Token} {p : Prog} {extra : Expr → Bool} {short : Bool} {isVoid : Func → Bool}
    (fits : p.Fits) (stand : p.Stand extra short isVoid toks) : ∃ fuel, ∀ n, fuel ≤ n → ∃ far named,
      (grammar toks n).program (Parser.start none) =
        ((), ⟨(p.tokens extra short isVoid).length, funcsLay short 0 p.funcs, funcEntries isVoid 0 p.funcs, none, far, named,
          false⟩) := by
  obtain ⟨named, fuel, leads⟩ := program_leads p.funcs fits.plain (Parser.start none) 0 [] rfl
    (by rw [show (Parser.start none).funcs.length = 0 from rfl, Nat.zero_add]; exact fits.few)
    (by rw [List.length_nil, Nat.zero_add]; exact fits.room) stand.stands
    (by rw [Nat.zero_add]; exact stand.end_)
  refine ⟨fuel, fun n enough => ?_⟩
  obtain ⟨-, far, after⟩ := leads n enough (Parser.start none) ⟨0, rfl⟩
  rw [Nat.zero_add] at after
  exact ⟨far, named, Prod.ext rfl after⟩

theorem funcs_read {p : Prog} (fits : p.Fits) (short : Bool) (isVoid : Func → Bool) :
    List.Forall₂ (ReadsFunc (funcsLay short 0 p.funcs)) (funcEntries isVoid 0 p.funcs) p.funcs := by
  have placed : Placed (funcsLay short 0 p.funcs) 0 (funcsLay short 0 p.funcs) := List.prefix_rfl
  exact funcsLay_reads isVoid fits.plain 0 placed

/-- The loop of zbc_run undoes printing: it takes all of the program without an error, and what it
leaves in the tables is that program only. -/
theorem program_parsed {toks : Nat → Token} {p : Prog} {extra : Expr → Bool} {short : Bool} {isVoid : Func → Bool}
    (fits : p.Fits) (stand : p.Stand extra short isVoid toks) : ∃ fuel, ∀ n, fuel ≤ n → ∃ t,
      (grammar toks n).program (Parser.start none) = ((), t) ∧ t.pos = (p.tokens extra short isVoid).length ∧
      t.error = none ∧ t.stuck = false ∧ ReadsProg t p ∧ ∀ q : Prog, ReadsProg t q → q.funcs = p.funcs := by
  obtain ⟨fuel, states⟩ := program_state fits stand
  refine ⟨fuel, fun n enough => ?_⟩
  obtain ⟨far, named, state⟩ := states n enough
  have reads := funcs_read fits short isVoid
  exact ⟨_, state, rfl, rfl, rfl, reads, fun q reads' => ReadsProg.unique reads' reads⟩

section Samples

/-- `void main() { for (int i = 0; i < 3; i += 1) if (i == 1) continue; else print(i); }` -/
def countMain : Func where
  name := Name.main
  params := []
  body :=
    [.for (some (.assign true .set [105] (.num 0))) (some (.bin .lt (.var [105]) (.num 3)))
      (some (.assign false .plus [105] (.num 1)))
      (.ite (.bin .eq (.var [105]) (.num 1)) .cont (some (.expr (.call Name.print [.var [105]]))))]
  few := Nat.zero_le 8

def countProg : Prog := ⟨[countMain], []⟩

def countTokens : List Token := countProg.tokens minimal false fun _ => true

theorem countProg_fits : countProg.Fits := by
  have name {x : Name} (fits : x.length ≤ 31) : (Expr.var x).Plain := .var fits
  have body : Stmt.Plain (.for (some (.assign true .set [105] (.num 0))) (some (.bin .lt (.var [105]) (.num 3)))
      (some (.assign false .plus [105] (.num 1)))
      (.ite (.bin .eq (.var [105]) (.num 1)) .cont (some (.expr (.call Name.print [.var [105]]))))) := by
    refine .for ?_ ?_ ?_ (.ifElse (.bin (name (by decide)) .num) .cont rfl (.expr (.value (.call (by decide) ?_))))
    · exact fun e member => Option.some.inj member ▸ .decl (by decide) .num
    · exact fun e member => Option.some.inj member ▸ .bin (name (by decide)) .num
    · exact fun e member => Option.some.inj member ▸ .assign (by decide) .num
    · exact List.forall_mem_singleton.mpr (name (by decide))
  refine ⟨List.forall_mem_singleton.mpr ⟨by decide, fun x member => absurd member List.not_mem_nil, ?_⟩, by decide, by decide⟩
  exact List.forall_mem_singleton.mpr body

/-- Tokens of which the array is made stand in it. -/
theorem tokensOf_stands {ts : List Token} (bare : ∀ t ∈ ts, t.bare = t) : Stands (tokensOf ts) 0 ts := by
  have behind (us : List Token) : ∀ front : List Token, (∀ t ∈ us, t.bare = t) →
      Stands (tokensOf (front ++ us)) front.length us := by
    induction us with
    | nil => exact fun _ _ => trivial
    | cons t us ih =>
        intro front bare
        rw [List.forall_mem_cons] at bare
        have rest := ih (front ++ [t]) bare.2
        rw [List.append_assoc, List.length_append] at rest
        refine ⟨?_, rest⟩
        rw [tokensOf, List.getD_eq_getElem?_getD, List.getElem?_append_right (Nat.le_refl _), Nat.sub_self]
        exact bare.1
  exact behind ts [] bare

theorem countProg_stands : countProg.Stand minimal false (fun _ => true) (tokensOf countTokens) :=
  ⟨tokensOf_stands (by decide +kernel), by decide +kernel⟩

theorem program_parsed_count : ∃ fuel, ∀ n, fuel ≤ n → ∃ t,
    (grammar (tokensOf countTokens) n).program (Parser.start none) = ((), t) ∧
      t.pos = (countProg.tokens minimal false fun _ => true).length ∧ t.error = none ∧ t.stuck = false ∧
      ReadsProg t countProg ∧ ∀ q : Prog, ReadsProg t q → q.funcs = countProg.funcs :=
  program_parsed countProg_fits countProg_stands

end Samples

end Zenbite.Zbc
