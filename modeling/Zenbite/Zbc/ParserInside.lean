import Zenbite.Zbc.Lexemes
import Zenbite.Zbc.Parser

/-! How far the parser of zbc.c reads. While it is fine it stands at T_EOF at the latest;
it is lost once it has taken T_EOF for a name. -/

namespace Zenbite.Zbc

open Acts

/-- T_EOF stands at `eof`, and nowhere before. -/
structure EndsAt (toks : Nat → Token) (eof : Nat) : Prop where
  stop : (toks eof).kind = .eof
  before : ∀ i < eof, (toks i).kind ≠ .eof

/-- Nothing behind T_EOF was read, and T_EOF was not taken. -/
structure Fine (eof : Nat) (s : Parser) : Prop where
  pos : s.pos ≤ eof
  far : s.far ≤ eof
  named : ∀ i ∈ s.named, i < eof
  fuel : s.stuck = false

/-- What a name is taken behind. -/
def OpensName (k : TokenKind) : Prop := k = .kwInt ∨ k = .kwVoid ∨ k = .lpar ∨ k = .comma

/-- The token before `i` has a name behind it. -/
def Behind (toks : Nat → Token) (i : Nat) : Prop := ∃ j, i = j + 1 ∧ OpensName (toks j).kind

/-- T_EOF was taken for a name. -/
structure Lost (toks : Nat → Token) (eof : Nat) (s : Parser) : Prop where
  named : eof ∈ s.named
  behind : eof < s.pos
  opened : Behind toks eof

/-- Lost, or fine and at `q` or later. -/
def Reached (toks : Nat → Token) (eof q : Nat) (s : Parser) : Prop := Lost toks eof s ∨ Fine eof s ∧ q ≤ s.pos

/-- As `Reached`, and the token here is of that kind. -/
def Facing (toks : Nat → Token) (eof : Nat) (k : TokenKind) (q : Nat) (s : Parser) : Prop :=
  Lost toks eof s ∨ Fine eof s ∧ q ≤ s.pos ∧ (toks s.pos).kind = k

/-- As `Reached`, and a token of that kind was taken last. -/
def Taken (toks : Nat → Token) (eof : Nat) (k : TokenKind) (q : Nat) (s : Parser) : Prop :=
  Lost toks eof s ∨ Fine eof s ∧ q ≤ s.pos ∧ ∃ j, s.pos = j + 1 ∧ (toks j).kind = k

/-- As `Reached`, and a name is due. -/
def Opened (toks : Nat → Token) (eof q : Nat) (s : Parser) : Prop :=
  Lost toks eof s ∨ Fine eof s ∧ q ≤ s.pos ∧ Behind toks s.pos

/-- As `Reached`, and without an error a name is due. -/
def Expecting (toks : Nat → Token) (eof q : Nat) (s : Parser) : Prop :=
  Reached toks eof q s ∧ (s.error.isSome = false → Opened toks eof q s)

/-- As `Reached`, and without an error a token further. -/
def Past (toks : Nat → Token) (eof q : Nat) (s : Parser) : Prop :=
  Reached toks eof q s ∧ (s.error.isSome = false → Reached toks eof (q + 1) s)

/-- The act keeps to the tables and takes no error back. -/
def Quiet {α : Type} (act : Parse α) : Prop :=
  ∀ s, (act s).2.pos = s.pos ∧ (act s).2.far = s.far ∧ (act s).2.named = s.named ∧
    (act s).2.stuck = s.stuck ∧ (s.error.isSome = true → (act s).2.error.isSome = true)

section Quiet
variable {α β : Type}

theorem Quiet.pure (a : α) : Quiet (Pure.pure a : Parse α) := fun _ => ⟨rfl, rfl, rfl, rfl, id⟩

theorem Quiet.bind {act : Parse α} {next : α → Parse β} (first : Quiet act) (rest : ∀ a, Quiet (next a)) :
    Quiet (act >>= next) := by
  intro s
  obtain ⟨pos, far, named, stuck, error⟩ := first s
  obtain ⟨pos', far', named', stuck', error'⟩ := rest (act s).1 (act s).2
  exact ⟨pos'.trans pos, far'.trans far, named'.trans named, stuck'.trans stuck, error' ∘ error⟩

theorem quiet_look (view : Parser → α) : Quiet (look view) := fun _ => ⟨rfl, rfl, rfl, rfl, id⟩

theorem quiet_err (msg : String) : Quiet (zbcErr msg) := by
  intro s
  refine ⟨rfl, rfl, rfl, rfl, fun error => ?_⟩
  obtain ⟨first, error⟩ := Option.isSome_iff_exists.mp error
  simp [zbcErr, update, error]

theorem quiet_setNode (i : Nat) (change : Node → Node) : Quiet (setNode i change) :=
  fun _ => ⟨rfl, rfl, rfl, rfl, id⟩

theorem quiet_setFunc (f : Nat) (change : FuncEntry → FuncEntry) : Quiet (setFunc f change) :=
  fun _ => ⟨rfl, rfl, rfl, rfl, id⟩

theorem quiet_link (parent : Nat) (last : Option Nat) (i : Nat) : Quiet (link parent last i) := by
  cases last with
  | none => exact quiet_setNode _ _
  | some p => exact quiet_setNode _ _

theorem quiet_newNode (kind : NodeKind) : Quiet (newNode kind) := by
  intro s
  rw [newNode]
  split
  · exact ⟨rfl, rfl, rfl, rfl, id⟩
  · refine ⟨rfl, rfl, rfl, rfl, fun error => ?_⟩
    obtain ⟨first, error⟩ := Option.isSome_iff_exists.mp error
    simp [error]

/-- A node with what is set in it. -/
theorem quiet_made (kind : NodeKind) (change : Node → Node) :
    Quiet (newNode kind >>= fun i => setNode i change >>= fun _ => Pure.pure i) :=
  (quiet_newNode kind).bind fun i => (quiet_setNode i change).bind fun _ => Quiet.pure i

theorem quiet_declare (id : Token) (rhs : Option Nat) : Quiet (declare id rhs) := by
  refine (quiet_newNode _).bind fun i => (quiet_setNode _ _).bind fun _ => (quiet_newNode _).bind fun v =>
    (quiet_setNode _ _).bind fun _ => ?_
  cases rhs with
  | none => exact (quiet_newNode _).bind fun r => (quiet_setNode _ _).bind fun _ => Quiet.pure i
  | some r => exact (quiet_setNode _ _).bind fun _ => Quiet.pure i

variable {toks : Nat → Token} {eof q : Nat} {k : TokenKind} {act : Parse α}

theorem Quiet.lost (quiet : Quiet act) {s : Parser} (lost : Lost toks eof s) : Lost toks eof (act s).2 := by
  obtain ⟨pos, -, named, -, -⟩ := quiet s
  exact ⟨named ▸ lost.named, pos ▸ lost.behind, lost.opened⟩

theorem Quiet.fine (quiet : Quiet act) {s : Parser} (fine : Fine eof s) : Fine eof (act s).2 := by
  obtain ⟨pos, far, named, stuck, -⟩ := quiet s
  exact ⟨pos ▸ fine.pos, far ▸ fine.far, named ▸ fine.named, stuck ▸ fine.fuel⟩

theorem Quiet.reached (quiet : Quiet act) : Triple (Reached toks eof q) act fun _ => Reached toks eof q := by
  rintro s (lost | ⟨fine, here⟩)
  · exact Or.inl (quiet.lost lost)
  · exact Or.inr ⟨quiet.fine fine, (quiet s).1 ▸ here⟩

theorem Quiet.facing (quiet : Quiet act) : Triple (Facing toks eof k q) act fun _ => Facing toks eof k q := by
  rintro s (lost | ⟨fine, here, kind⟩)
  · exact Or.inl (quiet.lost lost)
  · exact Or.inr ⟨quiet.fine fine, (quiet s).1 ▸ here, (quiet s).1 ▸ kind⟩

theorem Quiet.opened (quiet : Quiet act) : Triple (Opened toks eof q) act fun _ => Opened toks eof q := by
  rintro s (lost | ⟨fine, here, due⟩)
  · exact Or.inl (quiet.lost lost)
  · exact Or.inr ⟨quiet.fine fine, (quiet s).1 ▸ here, (quiet s).1 ▸ due⟩

theorem Quiet.past (quiet : Quiet act) : Triple (Past toks eof q) act fun _ => Past toks eof q := by
  rintro s ⟨here, further⟩
  refine ⟨quiet.reached s here, fun clean => quiet.reached s (further ?_)⟩
  rw [Bool.eq_false_iff] at clean ⊢
  exact fun error => clean ((quiet s).2.2.2.2 error)

end Quiet

section Reading
variable {toks : Nat → Token} {eof q : Nat} {k : TokenKind} {α : Type} {act : Parse α} {s : Parser}

theorem Reached.back (reached : Reached toks eof (q + 1) s) : Reached toks eof q s :=
  reached.imp_right fun fine => ⟨fine.1, Nat.le_of_succ_le fine.2⟩

theorem Facing.reached (facing : Facing toks eof k q s) : Reached toks eof q s :=
  facing.imp_right fun fine => ⟨fine.1, fine.2.1⟩

theorem Reached.past (reached : Reached toks eof (q + 1) s) : Past toks eof q s := ⟨reached.back, fun _ => reached⟩

/-- Behind T_EOF it can only be lost. -/
theorem Reached.lost (reached : Reached toks eof q s) (behind : eof < q) : Lost toks eof s := by
  rcases reached with lost | ⟨fine, here⟩
  · exact lost
  · exact absurd (here.trans fine.pos) (Nat.not_le.mpr behind)

theorem peek_facing : Triple (Reached toks eof q) (peek toks) fun t => Facing toks eof t.kind q := by
  rintro s (lost | ⟨fine, here⟩)
  · exact Or.inl ⟨lost.named, lost.behind, lost.opened⟩
  · exact Or.inr ⟨⟨fine.pos, max_le fine.far fine.pos, fine.named, fine.fuel⟩, here, rfl⟩

theorem peek_reached : Triple (Reached toks eof q) (peek toks) fun _ => Reached toks eof q :=
  peek_facing.strengthen fun _ _ facing => facing.reached

theorem Taken.reached (taken : Taken toks eof k q s) : Reached toks eof q s :=
  taken.imp_right fun fine => ⟨fine.1, fine.2.1⟩

theorem Taken.opened (taken : Taken toks eof k q s) (opens : OpensName k) : Opened toks eof q s := by
  rcases taken with lost | ⟨fine, here, j, same, kind⟩
  · exact Or.inl lost
  · exact Or.inr ⟨fine, here, j, same, kind ▸ opens⟩

theorem Opened.reached (opened : Opened toks eof q s) : Reached toks eof q s :=
  opened.imp_right fun fine => ⟨fine.1, fine.2.1⟩

theorem Opened.back (opened : Opened toks eof (q + 1) s) : Opened toks eof q s :=
  opened.imp_right fun fine => ⟨fine.1, Nat.le_of_succ_le fine.2.1, fine.2.2⟩

theorem Opened.expecting (opened : Opened toks eof q s) : Expecting toks eof q s := ⟨opened.reached, fun _ => opened⟩

theorem peek_opened : Triple (Opened toks eof q) (peek toks) fun t s =>
    Facing toks eof t.kind q s ∧ Opened toks eof q s := by
  intro s opened
  refine ⟨peek_facing s opened.reached, ?_⟩
  rcases opened with lost | ⟨fine, here, due⟩
  · exact Or.inl ⟨lost.named, lost.behind, lost.opened⟩
  · exact Or.inr ⟨⟨fine.pos, max_le fine.far fine.pos, fine.named, fine.fuel⟩, here, due⟩

theorem peek_expecting : Triple (Expecting toks eof q) (peek toks) fun _ => Expecting toks eof q :=
  fun s expecting => ⟨peek_reached s expecting.1, fun clean => (peek_opened s (expecting.2 clean)).2⟩

theorem hadError_expecting : Triple (Expecting toks eof q) hadError
    fun e s => if e then Reached toks eof q s else Opened toks eof q s := by
  rintro s ⟨reached, due⟩
  change if s.error.isSome = true then Reached toks eof q s else Opened toks eof q s
  split
  · exact reached
  · next clean => exact due (Bool.eq_false_iff.mpr clean)

/-- T_EOF as a name is the way to get lost. -/
theorem takeName_reached : Triple (Opened toks eof q) (takeName toks) fun _ => Reached toks eof (q + 1) := by
  rintro s (lost | ⟨fine, here, due⟩)
  · exact Or.inl ⟨List.mem_cons_of_mem _ lost.named, Nat.lt_succ_of_lt lost.behind, lost.opened⟩
  · rcases Nat.lt_or_eq_of_le fine.pos with inside | same
    · refine Or.inr ⟨⟨inside, max_le fine.far fine.pos, ?_, fine.fuel⟩, Nat.succ_le_succ here⟩
      exact List.forall_mem_cons.mpr ⟨inside, fine.named⟩
    · exact Or.inl ⟨List.mem_cons.mpr (Or.inl same.symm), same ▸ Nat.lt_succ_self s.pos, same ▸ due⟩

theorem takeName_behind : Triple (Opened toks eof q) (takeName toks) fun _ => Reached toks eof q :=
  takeName_reached.strengthen fun _ _ further => further.back

variable (ends : EndsAt toks eof)
include ends

theorem advance_taken (token : k ≠ .eof) :
    Triple (Facing toks eof k q) (advance toks) fun _ => Taken toks eof k (q + 1) := by
  rintro s (lost | ⟨fine, here, kind⟩)
  · exact Or.inl ⟨lost.named, Nat.lt_succ_of_lt lost.behind, lost.opened⟩
  · have inside : s.pos < eof := by
      refine Nat.lt_of_le_of_ne fine.pos fun same => token ?_
      rw [← kind, same, ends.stop]
    exact Or.inr ⟨⟨inside, max_le fine.far fine.pos, fine.named, fine.fuel⟩, Nat.succ_le_succ here, s.pos, rfl, kind⟩

theorem advance_reached (token : k ≠ .eof) :
    Triple (Facing toks eof k q) (advance toks) fun _ => Reached toks eof (q + 1) :=
  (advance_taken ends token).strengthen fun _ _ taken => taken.reached

omit ends in
theorem peek_still : Triple (Facing toks eof k q) (peek toks) fun t s =>
    Facing toks eof t.kind q s ∧ Facing toks eof k q s := by
  intro s facing
  refine ⟨peek_facing s facing.reached, ?_⟩
  rcases facing with lost | ⟨fine, here, kind⟩
  · exact Or.inl ⟨lost.named, lost.behind, lost.opened⟩
  · exact Or.inr ⟨⟨fine.pos, max_le fine.far fine.pos, fine.named, fine.fuel⟩, here, kind⟩

/-- A token further when it was there, else where it was. -/
theorem accept_facing {t : TokenKind} (token : t ≠ .eof) : Triple (Facing toks eof k q) (accept toks t)
    fun here s => if here then Taken toks eof t (q + 1) s else Facing toks eof k q s := by
  refine peek_still.bind fun u => Triple.ite (fun kind => ?_) fun _ s both => both.2
  have further := advance_taken ends (q := q) token
  exact Triple.bind (further.weaken fun s both => kind ▸ both.1) fun _ _ taken => taken

theorem accept_reached {t : TokenKind} (token : t ≠ .eof) : Triple (Reached toks eof q) (accept toks t)
    fun here s => if here then Taken toks eof t (q + 1) s else Reached toks eof q s := by
  intro s reached
  have facing : Facing toks eof (toks s.pos).kind q s := reached.imp_right fun fine => ⟨fine.1, fine.2, rfl⟩
  have accepted := accept_facing ends token s facing
  generalize (accept toks t s).1 = here at accepted
  cases here with
  | true => exact accepted
  | false => exact Facing.reached accepted

/-- What a name may stand behind leaves a name due. -/
theorem accept_opened {t : TokenKind} (opens : OpensName t) (token : t ≠ .eof) :
    Triple (Opened toks eof q) (accept toks t) fun _ => Opened toks eof q := by
  refine peek_opened.bind fun u => Triple.ite (fun kind => ?_) fun _ s both => both.2
  have further := advance_taken ends (q := q) token
  exact Triple.bind (further.weaken fun s both => kind ▸ both.1) fun _ _ taken => (taken.opened opens).back

/-- The two ways on behind an accept. -/
theorem accept_taken {t : TokenKind} (token : t ≠ .eof) {yes no : Parse α} {post : α → Parser → Prop}
    (taken : Triple (Taken toks eof t (q + 1)) yes post) (left : Triple (Reached toks eof q) no post) :
    Triple (Reached toks eof q) (accept toks t >>= fun here => if here then yes else no) post :=
  (accept_reached ends token).bind fun _ => Triple.branch taken left

theorem accept_branch {t : TokenKind} (token : t ≠ .eof) {yes no : Parse α} {post : α → Parser → Prop}
    (taken : Triple (Reached toks eof (q + 1)) yes post) (left : Triple (Reached toks eof q) no post) :
    Triple (Reached toks eof q) (accept toks t >>= fun here => if here then yes else no) post :=
  accept_taken ends token (taken.weaken fun _ here => here.reached) left

theorem accept_turn {t : TokenKind} (token : t ≠ .eof) {yes no : Parse α} {post : α → Parser → Prop}
    (taken : Triple (Reached toks eof (q + 1)) yes post) (left : Triple (Facing toks eof k q) no post) :
    Triple (Facing toks eof k q) (accept toks t >>= fun here => if here then yes else no) post :=
  (accept_facing ends token).bind fun _ => Triple.branch (taken.weaken fun _ here => here.reached) left

/-- An expect that fails is an error. -/
theorem expect_unless {t : TokenKind} (token : t ≠ .eof) (what : String) {due : Parser → Prop}
    (met : ∀ s, Taken toks eof t (q + 1) s → due s) : Triple (Reached toks eof q) (expect toks t what)
      fun _ s => Reached toks eof q s ∧ (s.error.isSome = false → due s) := by
  refine accept_taken ends token (fun s taken => ⟨taken.reached.back, fun _ => met s taken⟩) fun s reached => ?_
  refine ⟨(quiet_err what).reached s reached, fun clean => ?_⟩
  cases error : s.error <;> simp [zbcErr, update, error] at clean

theorem expect_past {t : TokenKind} (token : t ≠ .eof) (what : String) :
    Triple (Reached toks eof q) (expect toks t what) fun _ => Past toks eof q :=
  expect_unless ends token what fun _ taken => taken.reached

theorem expect_expecting {t : TokenKind} (token : t ≠ .eof) (opens : OpensName t) (what : String) :
    Triple (Reached toks eof q) (expect toks t what) fun _ => Expecting toks eof q :=
  expect_unless ends token what fun _ taken => (taken.opened opens).back

theorem expect_reached {t : TokenKind} (token : t ≠ .eof) (what : String) :
    Triple (Reached toks eof q) (expect toks t what) fun _ => Reached toks eof q :=
  (expect_past ends token what).strengthen fun _ _ past => past.1

end Reading

/-- Fuel that suffices from `q` on for what has rank `r`. -/
def Enough (eof n r q : Nat) : Prop := q ≤ eof → 8 * (eof - q) + r ≤ n

/-- With fuel `n` every production stays where it may be. -/
structure Inside (toks : Nat → Token) (eof n : Nat) (g : Grammar) : Prop where
  primary : ∀ q, Enough eof n 1 q → Triple (Reached toks eof q) g.primary fun _ => Reached toks eof q
  args : ∀ q call prev argi, Enough eof n 4 q → Triple (Reached toks eof q) (g.args call prev argi) fun _ => Reached toks eof q
  binop : ∀ q prec, 0 < prec → Enough eof n 2 q → Triple (Reached toks eof q) (g.binop prec) fun _ => Reached toks eof q
  climb : ∀ q prec lhs, 0 < prec → Enough eof n 1 q → Triple (Reached toks eof q) (g.climb prec lhs) fun _ => Reached toks eof q
  expr : ∀ q, Enough eof n 3 q → Triple (Reached toks eof q) g.expr fun _ => Reached toks eof q
  stmt : ∀ q, Enough eof n 4 q → Triple (Reached toks eof q) g.stmt fun _ => Past toks eof q
  stmts : ∀ q b last, Enough eof n 5 q → Triple (Reached toks eof q) (g.stmts b last) fun _ => Reached toks eof q
  block : ∀ q, Enough eof n 6 q → Triple (Reached toks eof q) g.block fun _ => Reached toks eof q
  params : ∀ q f, Enough eof n 1 q → Triple (Expecting toks eof q) (g.params f) fun _ => Reached toks eof q
  func : ∀ q isVoid, Enough eof n 1 q → Triple (Opened toks eof q) (g.func isVoid) fun _ => Reached toks eof q

theorem Enough.further {eof n r q : Nat} (enough : Enough eof (n + 1) r q) (positive : 0 < r) {r' : Nat} (small : r' ≤ 8) :
    Enough eof n r' (q + 1) := by
  intro inside
  have here := enough (Nat.le_of_succ_le inside)
  omega

theorem Enough.less {eof n r r' q : Nat} (enough : Enough eof (n + 1) r q) (less : r' < r) : Enough eof n r' q := by
  intro inside
  have here := enough inside
  omega

theorem Enough.lower {eof n r r' q : Nat} (enough : Enough eof n r q) (less : r' ≤ r) : Enough eof n r' q :=
  fun inside => (Nat.add_le_add_left less _).trans (enough inside)

/-- A production that went further than it had to. -/
theorem triple_back {α : Type} {toks : Nat → Token} {eof q : Nat} {pre : Parser → Prop} {act : Parse α}
    (triple : Triple pre act fun _ => Reached toks eof (q + 1)) : Triple pre act fun _ => Reached toks eof q :=
  triple.strengthen fun _ _ further => further.back

section Productions
variable {toks : Nat → Token} {eof n q : Nat} {g : Grammar} (ends : EndsAt toks eof) (inside : Inside toks eof n g)
include ends inside

theorem parseArgs_inside (call : Nat) (prev : Option Nat) (argi : Nat) (enough : Enough eof (n + 1) 4 q) :
    Triple (Reached toks eof q) (parseArgs toks g call prev argi) fun _ => Reached toks eof q := by
  refine peek_reached.bind fun t => (quiet_look _).reached.bind fun e => ?_
  refine Triple.ite (fun _ => ?_) fun _ => Triple.done _
  refine (inside.expr q (enough.less (by decide))).bind fun a => (quiet_link _ _ _).reached.bind fun _ => ?_
  refine accept_branch ends (by decide) (triple_back ?_) (Triple.done _)
  exact inside.args _ _ _ _ (enough.further (by decide) (by decide))

theorem parseCall_inside (id : Token) (enough : Enough eof n 4 q) :
    Triple (Reached toks eof q) (parseCall toks g id) fun _ => Reached toks eof q := by
  refine (quiet_newNode _).reached.bind fun i => (quiet_setNode _ _).reached.bind fun _ => ?_
  refine (inside.args q i none 0 enough).bind fun argi => ?_
  exact (expect_reached ends (by decide) _).bind fun _ => (quiet_setNode _ _).reached.bind fun _ => Triple.done i

theorem parsePrimary_inside (enough : Enough eof (n + 1) 1 q) :
    Triple (Reached toks eof q) (parsePrimary toks g) fun _ => Reached toks eof q := by
  have further {r : Nat} (small : r ≤ 8) : Enough eof n r (q + 1) := enough.further (by decide) small
  refine peek_facing.bind fun t => ?_
  apply Triple.ite
  · intro int
    rw [int]
    refine (quiet_newNode _).facing.bind fun i => (advance_reached ends (by decide)).bind fun u => ?_
    exact triple_back ((quiet_setNode _ _).reached.bind fun _ => Triple.done i)
  intro _
  apply Triple.ite
  · intro str
    rw [str]
    refine (quiet_newNode _).facing.bind fun i => (advance_reached ends (by decide)).bind fun u => ?_
    exact triple_back ((quiet_setNode _ _).reached.bind fun _ => Triple.done i)
  intro _
  apply Triple.ite
  · intro ident
    rw [ident]
    refine (advance_reached ends (by decide)).bind fun id => peek_facing.bind fun u => triple_back ?_
    apply Triple.ite
    · intro paren
      rw [paren]
      refine (advance_reached ends (by decide)).bind fun _ => ?_
      exact (parseCall_inside ends inside id (further (by decide))).weaken fun _ further => further.back
    · exact fun _ => (quiet_made _ _).reached.weaken fun _ facing => facing.reached
  intro _
  refine accept_turn ends (by decide) ?_ ?_
  · refine triple_back ((inside.expr _ (further (by decide))).bind fun i => ?_)
    exact (expect_reached ends (by decide) _).bind fun _ => Triple.done i
  apply Triple.ite
  · intro unary
    have token : t.kind ≠ .eof := by
      rcases unary with unary | unary <;> rw [unary] <;> decide
    refine (advance_reached ends token).bind fun op => (quiet_newNode _).reached.bind fun i => ?_
    refine (quiet_setNode _ _).reached.bind fun _ => triple_back ?_
    exact (inside.primary _ (further (by decide))).bind fun a =>
      (quiet_setNode _ _).reached.bind fun _ => Triple.done i
  · intro _
    have quiet : Quiet (zbcErr "expected expression" >>= fun _ => newNode .num) :=
      (quiet_err _).bind fun _ => quiet_newNode _
    exact quiet.reached.weaken fun _ facing => facing.reached

/-- What binds is no T_EOF. -/
theorem climbBinop_inside (prec lhs : Nat) (positive : 0 < prec) (enough : Enough eof (n + 1) 1 q) :
    Triple (Reached toks eof q) (climbBinop toks g prec lhs) fun _ => Reached toks eof q := by
  refine peek_facing.bind fun t => ?_
  apply Triple.ite
  · intro binds
    have token : t.kind ≠ .eof := by
      intro same
      rw [same] at binds
      exact absurd (positive.trans_le binds) (by decide)
    refine (advance_reached ends token).bind fun op => triple_back ?_
    refine (inside.binop _ _ (Nat.succ_pos _) (enough.further (by decide) (by decide))).bind fun rhs => ?_
    refine (quiet_newNode _).reached.bind fun i => (quiet_setNode _ _).reached.bind fun _ => ?_
    exact inside.climb _ _ _ positive (enough.further (by decide) (by decide))
  · exact fun _ => (Triple.done lhs).weaken fun _ facing => facing.reached

omit ends in
theorem parseBinop_inside (prec : Nat) (positive : 0 < prec) (enough : Enough eof (n + 1) 2 q) :
    Triple (Reached toks eof q) (parseBinop g prec) fun _ => Reached toks eof q :=
  (inside.primary q (enough.less (by decide))).bind fun lhs => inside.climb q prec lhs positive (enough.less (by decide))

theorem parseExpr_inside (enough : Enough eof (n + 1) 3 q) :
    Triple (Reached toks eof q) (parseExpr toks g) fun _ => Reached toks eof q := by
  refine (inside.binop q 1 (by decide) (enough.less (by decide))).bind fun lhs => peek_facing.bind fun t => ?_
  apply Triple.ite
  · intro assign
    have token : t.kind ≠ .eof := by
      intro same
      rw [same] at assign
      exact absurd assign (by decide)
    refine (quiet_look _).facing.bind fun kind => ?_
    apply Triple.ite
    · intro _
      refine (advance_reached ends token).bind fun _ => triple_back ?_
      refine (inside.expr _ (enough.further (by decide) (by decide))).bind fun rhs => ?_
      exact (quiet_newNode _).reached.bind fun i => (quiet_setNode _ _).reached.bind fun _ => Triple.done i
    · intro _
      have quiet : Quiet (zbcErr "assign to non-variable" >>= fun _ => pure lhs) :=
        (quiet_err _).bind fun _ => Quiet.pure lhs
      exact quiet.reached.weaken fun _ facing => facing.reached
  · exact fun _ => (Triple.done lhs).weaken fun _ facing => facing.reached

omit ends inside in
theorem optionally_reached {act : Parse Nat} (c : Bool) (reached : Triple (Reached toks eof q) act fun _ => Reached toks eof q) :
    Triple (Reached toks eof q) (optionally c act) fun _ => Reached toks eof q :=
  Triple.optionally (fun _ => reached) fun _ _ => id

omit inside in
theorem accept_any {t : TokenKind} (token : t ≠ .eof) :
    Triple (Reached toks eof q) (accept toks t) fun _ => Reached toks eof q := by
  refine (accept_reached ends token).strengthen fun here s after => ?_
  cases here with
  | true => exact (Taken.reached after).back
  | false => exact after

omit ends inside in
/-- The error after a bad name, and the node that is returned for the statement. -/
theorem badName_reached : Triple (Reached toks eof q) (zbcErr "expected name" >>= fun _ => newNode .num)
    fun _ => Reached toks eof q := (quiet_err _).reached.bind fun _ => (quiet_newNode _).reached

theorem parseDecl_inside (enough : Enough eof n 4 q) :
    Triple (Opened toks eof q) (parseDecl toks g) fun _ => Reached toks eof q := by
  refine takeName_behind.bind fun id => Triple.ite (fun _ => ?_) fun _ => badName_reached
  have expr := inside.expr q (enough.lower (by decide))
  refine (accept_any ends (by decide)).bind fun assign => (optionally_reached assign expr).bind fun rhs => ?_
  exact (expect_reached ends (by decide) _).bind fun _ => (quiet_declare id rhs).reached

theorem parseIf_inside (enough : Enough eof n 4 q) :
    Triple (Reached toks eof q) (parseIf toks g) fun _ => Reached toks eof q := by
  have expr := inside.expr q (enough.lower (by decide))
  have stmt := (inside.stmt q enough).strengthen fun _ _ past => past.1
  refine (expect_reached ends (by decide) _).bind fun _ => expr.bind fun cond => ?_
  refine (expect_reached ends (by decide) _).bind fun _ => stmt.bind fun thenB => ?_
  refine (accept_any ends (by decide)).bind fun more => (optionally_reached more stmt).bind fun elseB => ?_
  exact (quiet_made _ _).reached

theorem parseWhile_inside (enough : Enough eof n 4 q) :
    Triple (Reached toks eof q) (parseWhile toks g) fun _ => Reached toks eof q := by
  have expr := inside.expr q (enough.lower (by decide))
  have stmt := (inside.stmt q enough).strengthen fun _ _ past => past.1
  refine (expect_reached ends (by decide) _).bind fun _ => expr.bind fun cond => ?_
  refine (expect_reached ends (by decide) _).bind fun _ => stmt.bind fun body => ?_
  exact (quiet_made _ _).reached

theorem parseForRest_inside (init : Option Nat) (enough : Enough eof n 4 q) :
    Triple (Reached toks eof q) (parseForRest toks g init) fun _ => Reached toks eof q := by
  have expr := inside.expr q (enough.lower (by decide))
  have stmt := (inside.stmt q enough).strengthen fun _ _ past => past.1
  refine (expect_reached ends (by decide) _).bind fun _ => peek_reached.bind fun t => ?_
  refine (optionally_reached _ expr).bind fun cond => (expect_reached ends (by decide) _).bind fun _ => ?_
  refine peek_reached.bind fun u => (optionally_reached _ expr).bind fun post => ?_
  refine (expect_reached ends (by decide) _).bind fun _ => stmt.bind fun body => ?_
  exact (quiet_made _ _).reached

theorem parseFor_inside (enough : Enough eof n 4 q) :
    Triple (Reached toks eof q) (parseFor toks g) fun _ => Reached toks eof q := by
  have expr := inside.expr q (enough.lower (by decide))
  refine (expect_reached ends (by decide) _).bind fun _ => accept_taken ends (by decide) ?_ ?_
  · refine Triple.weaken ?_ fun _ int => (int.opened (Or.inl rfl)).back
    refine takeName_behind.bind fun id => Triple.ite (fun _ => ?_) fun _ => badName_reached
    refine (accept_any ends (by decide)).bind fun assign => (optionally_reached assign expr).bind fun rhs => ?_
    exact (quiet_declare id rhs).reached.bind fun init => parseForRest_inside ends inside _ enough
  · refine peek_reached.bind fun t => (optionally_reached _ expr).bind fun init => ?_
    exact parseForRest_inside ends inside init enough

theorem parseReturn_inside (enough : Enough eof n 4 q) :
    Triple (Reached toks eof q) (parseReturn toks g) fun _ => Reached toks eof q := by
  refine (quiet_newNode _).reached.bind fun i => accept_branch ends (by decide) (triple_back (Triple.done i)) ?_
  refine (inside.expr q (enough.lower (by decide))).bind fun e => (quiet_setNode _ _).reached.bind fun _ => ?_
  exact (expect_reached ends (by decide) _).bind fun _ => Triple.done i

omit inside in
theorem parseJump_inside (kind : NodeKind) :
    Triple (Reached toks eof q) (parseJump toks kind) fun _ => Reached toks eof q :=
  (expect_reached ends (by decide) _).bind fun _ => (quiet_newNode _).reached

theorem parseExprStmt_inside (enough : Enough eof (n + 1) 4 q) :
    Triple (Reached toks eof q) (parseExprStmt toks g) fun _ => Past toks eof q :=
  (inside.expr q (enough.less (by decide))).bind fun _ => (expect_past ends (by decide) _).bind fun _ =>
    (quiet_made _ _).past

omit inside in
theorem choose_inside {other : Parse Nat} (otherwise : Triple (Reached toks eof q) other fun _ => Past toks eof q)
    (alts : List (TokenKind × Parse Nat)) (each : ∀ alt ∈ alts, alt.1 ≠ .eof ∧
      Triple (Taken toks eof alt.1 (q + 1)) alt.2 fun _ => Reached toks eof (q + 1)) :
    Triple (Reached toks eof q) (choose toks other alts) fun _ => Past toks eof q := by
  induction alts with
  | nil => exact otherwise
  | cons alt alts ih =>
      rw [List.forall_mem_cons] at each
      exact accept_taken ends each.1.1 (each.1.2.strengthen fun _ _ further => further.past) (ih each.2)

theorem parseStmt_inside (enough : Enough eof (n + 1) 4 q) :
    Triple (Reached toks eof q) (parseStmt toks g) fun _ => Past toks eof q := by
  have further : Enough eof n 4 (q + 1) := enough.further (by decide) (by decide)
  refine choose_inside ends (parseExprStmt_inside ends inside enough) _ ?_
  have start {k : TokenKind} {act : Parse Nat} (token : k ≠ .eof)
      (reached : Triple (Reached toks eof (q + 1)) act fun _ => Reached toks eof (q + 1)) :
      k ≠ .eof ∧ Triple (Taken toks eof k (q + 1)) act fun _ => Reached toks eof (q + 1) :=
    ⟨token, reached.weaken fun _ taken => taken.reached⟩
  simp only [starts, List.forall_mem_cons]
  exact ⟨start (by decide) (inside.block _ (enough.further (by decide) (by decide))),
    start (by decide) (parseIf_inside ends inside further), start (by decide) (parseWhile_inside ends inside further),
    start (by decide) (parseFor_inside ends inside further), start (by decide) (parseReturn_inside ends inside further),
    start (by decide) (parseJump_inside ends _), start (by decide) (parseJump_inside ends _),
    ⟨by decide, (parseDecl_inside ends inside further).weaken fun _ int => int.opened (Or.inl rfl)⟩,
    fun _ member => absurd member List.not_mem_nil⟩

omit ends inside in
theorem hadError_past : Triple (Past toks eof q) hadError
    fun e s => if e then Reached toks eof q s else Reached toks eof (q + 1) s := by
  rintro s ⟨reached, further⟩
  change if s.error.isSome = true then Reached toks eof q s else Reached toks eof (q + 1) s
  split
  · exact reached
  · next clean => exact further (Bool.eq_false_iff.mpr clean)

/-- A round of the loop that goes on has taken a token. -/
theorem parseStmts_inside (b : Nat) (last : Option Nat) (enough : Enough eof (n + 1) 5 q) :
    Triple (Reached toks eof q) (parseStmts toks g b last) fun _ => Reached toks eof q := by
  refine peek_reached.bind fun t => ?_
  apply Triple.ite
  · intro _
    refine (inside.stmt q (enough.less (by decide))).bind fun i => (quiet_link _ _ _).past.bind fun _ => ?_
    refine hadError_past.bind fun e => Triple.branch (Triple.done b) (triple_back ?_)
    exact inside.stmts _ _ _ (enough.further (by decide) (by decide))
  · exact fun _ => (expect_reached ends (by decide) _).bind fun _ => Triple.done b

omit ends in
theorem parseBlock_inside (enough : Enough eof (n + 1) 6 q) :
    Triple (Reached toks eof q) (parseBlock g) fun _ => Reached toks eof q :=
  (quiet_newNode _).reached.bind fun b => inside.stmts q b none (enough.less (by decide))

theorem parseParams_inside (f : Nat) (enough : Enough eof (n + 1) 1 q) :
    Triple (Expecting toks eof q) (parseParams toks g f) fun _ => Reached toks eof q := by
  refine peek_expecting.bind fun t => hadError_expecting.bind fun e => ?_
  apply Triple.ite
  · rintro ⟨-, rfl⟩
    refine (accept_opened ends (Or.inl rfl) (by decide)).bind fun _ => takeName_reached.bind fun pid => triple_back ?_
    apply Triple.ite
    · intro _
      refine (quiet_setFunc _ _).reached.bind fun _ => accept_taken ends (by decide) ?_ (Triple.done _)
      refine (inside.params _ f (enough.further (by decide) (by decide))).weaken fun _ comma => ?_
      exact (comma.opened (Or.inr (Or.inr (Or.inr rfl)))).back.expecting
    · exact fun _ => (quiet_err _).reached.bind fun _ => Triple.done false
  · intro _ s after
    cases e with
    | true => exact after
    | false => exact Opened.reached after

theorem parseFuncAt_inside (f : Nat) (enough : Enough eof (n + 1) 1 q) :
    Triple (Opened toks eof q) (parseFuncAt toks g f) fun _ => Reached toks eof q := by
  have further {r : Nat} (small : r ≤ 8) : Enough eof n r (q + 1) := enough.further (by decide) small
  refine takeName_reached.bind fun id => triple_back (Triple.ite (fun _ => ?_) fun _ => (quiet_err _).reached)
  refine (quiet_setFunc _ _).reached.bind fun _ => ?_
  refine (expect_expecting ends (by decide) (Or.inr (Or.inr (Or.inl rfl))) _).bind fun _ => ?_
  refine (inside.params _ f (further (by decide))).bind fun ok => ?_
  refine Triple.ite (fun _ => ?_) fun _ => Triple.done ()
  refine (expect_reached ends (by decide) _).bind fun _ => (expect_reached ends (by decide) _).bind fun _ => ?_
  exact (inside.block _ (further (by decide))).bind fun body => (quiet_setFunc _ _).reached

theorem parseFunc_inside (isVoid : Bool) (enough : Enough eof (n + 1) 1 q) :
    Triple (Opened toks eof q) (parseFunc toks g isVoid) fun _ => Reached toks eof q := by
  refine (quiet_look _).opened.bind fun count => Triple.ite (fun _ => ?_) fun _ => ?_
  · have quiet : Quiet (update fun s : Parser => { s with funcs := s.funcs ++ [⟨[], 0, [], isVoid⟩] }) :=
      fun _ => ⟨rfl, rfl, rfl, rfl, id⟩
    exact quiet.opened.bind fun _ => parseFuncAt_inside ends inside count enough
  · exact (quiet_err _).reached.weaken fun _ opened => opened.reached

end Productions

/-- Fine, or lost and seen behind T_EOF. -/
def Seen (toks : Nat → Token) (eof q : Nat) (s : Parser) : Prop := Lost toks eof s ∧ eof < s.far ∨ Fine eof s ∧ q ≤ s.pos

/-- How a run over the program ends. -/
def Over (toks : Nat → Token) (eof : Nat) (s : Parser) : Prop := Fine eof s ∨ Lost toks eof s ∧ (eof < s.far ∨ s.stuck = true)

section Programs
variable {toks : Nat → Token} {eof n q : Nat} {α : Type} {s : Parser}

theorem Seen.reached (seen : Seen toks eof q s) : Reached toks eof q s := seen.imp_left And.left

theorem Seen.settled (seen : Seen toks eof q s) : Over toks eof s :=
  seen.elim (fun lost => Or.inr ⟨lost.1, Or.inl lost.2⟩) fun fine => Or.inl fine.1

theorem Quiet.seen {act : Parse α} (quiet : Quiet act) : Triple (Seen toks eof q) act fun _ => Seen toks eof q := by
  rintro s (⟨lost, far⟩ | ⟨fine, here⟩)
  · exact Or.inl ⟨quiet.lost lost, (quiet s).2.1 ▸ far⟩
  · exact Or.inr ⟨quiet.fine fine, (quiet s).1 ▸ here⟩

theorem peek_seen : Triple (Reached toks eof q) (peek toks) fun t s => Facing toks eof t.kind q s ∧ Seen toks eof q s := by
  intro s reached
  refine ⟨peek_facing s reached, ?_⟩
  rcases reached with lost | ⟨fine, here⟩
  · exact Or.inl ⟨⟨lost.named, lost.behind, lost.opened⟩, lost.behind.trans_le (le_max_right _ _)⟩
  · exact Or.inr ⟨⟨fine.pos, max_le fine.far fine.pos, fine.named, fine.fuel⟩, here⟩

/-- Out of fuel only behind T_EOF. -/
theorem giveUp_lost {r : Nat} (a : α) (positive : 0 < r) (enough : Enough eof 0 r q) :
    Triple (Reached toks eof q) (giveUp a) fun _ s => Lost toks eof s ∧ s.stuck = true := by
  intro s reached
  have behind : eof < q := by
    refine Nat.lt_of_not_le fun inside => ?_
    have none_ := enough inside
    omega
  have lost := reached.lost behind
  exact ⟨⟨lost.named, lost.behind, lost.opened⟩, rfl⟩

theorem giveUp_reached {r : Nat} (a : α) (positive : 0 < r) (enough : Enough eof 0 r q) :
    Triple (Reached toks eof q) (giveUp a) fun _ => Reached toks eof q :=
  (giveUp_lost a positive enough).strengthen fun _ _ out => Or.inl out.1

variable (ends : EndsAt toks eof)
include ends

theorem accept_seen {t : TokenKind} (token : t ≠ .eof) : Triple (Reached toks eof q) (accept toks t)
    fun here s => if here then Taken toks eof t (q + 1) s else Seen toks eof q s := by
  refine peek_seen.bind fun u => Triple.ite (fun kind => ?_) fun _ s both => both.2
  have further := advance_taken ends (q := q) token
  exact Triple.bind (further.weaken fun s both => kind ▸ both.1) fun _ _ reached => reached

theorem grammar_inside (n : Nat) : Inside toks eof n (grammar toks n) := by
  induction n with
  | zero =>
      exact
        { primary := fun q enough => giveUp_reached 0 (by decide) enough
          args := fun q _ _ _ enough => giveUp_reached 0 (by decide) enough
          binop := fun q _ _ enough => giveUp_reached 0 (by decide) enough
          climb := fun q _ _ _ enough => giveUp_reached 0 (by decide) enough
          expr := fun q enough => giveUp_reached 0 (by decide) enough
          stmt := fun q enough => (giveUp_lost 0 (by decide) enough).strengthen fun _ _ out =>
            ⟨Or.inl out.1, fun _ => Or.inl out.1⟩
          stmts := fun q _ _ enough => giveUp_reached 0 (by decide) enough
          block := fun q enough => giveUp_reached 0 (by decide) enough
          params := fun q _ enough => (giveUp_reached false (by decide) enough).weaken fun _ expecting => expecting.1
          func := fun q _ enough => (giveUp_reached () (by decide) enough).weaken fun _ opened => opened.reached }
  | succ n ih =>
      exact
        { primary := fun q enough => parsePrimary_inside ends ih enough
          args := fun q call prev argi enough => parseArgs_inside ends ih call prev argi enough
          binop := fun q prec positive enough => parseBinop_inside ih prec positive enough
          climb := fun q prec lhs positive enough => climbBinop_inside ends ih prec lhs positive enough
          expr := fun q enough => parseExpr_inside ends ih enough
          stmt := fun q enough => parseStmt_inside ends ih enough
          stmts := fun q b last enough => parseStmts_inside ends ih b last enough
          block := fun q enough => parseBlock_inside ih enough
          params := fun q f enough => parseParams_inside ends ih f enough
          func := fun q isVoid enough => parseFunc_inside ends ih isVoid enough }

/-- The top level: a lost parser reads on at least once. -/
theorem program_over (n : Nat) : ∀ q, Enough eof n 1 q →
    Triple (Reached toks eof q) (grammar toks n).program fun _ => Over toks eof := by
  induction n with
  | zero =>
      intro q enough
      exact (giveUp_lost () (by decide) enough).strengthen fun _ _ out => Or.inr ⟨out.1, Or.inr out.2⟩
  | succ n ih =>
      intro q enough
      have next : Enough eof n 1 (q + 1) := enough.further (by decide) (by decide)
      have func (isVoid : Bool) := (grammar_inside ends n).func (q + 1) isVoid next
      refine (peek_seen.strengthen fun _ _ both => both.2).bind fun t => (quiet_look _).seen.bind fun e => ?_
      refine Triple.ite (fun _ => ?_) fun _ s seen => seen.settled
      refine Triple.weaken ?_ fun s seen => seen.reached
      have goesOn (isVoid : Bool) {k : TokenKind} (opens : OpensName k) : Triple (Taken toks eof k (q + 1))
          ((grammar toks n).func isVoid >>= fun _ => (grammar toks n).program) fun _ => Over toks eof :=
        ((func isVoid).bind fun _ => ih _ next).weaken fun _ taken => taken.opened opens
      refine accept_taken ends (by decide) (goesOn false (Or.inl rfl)) ?_
      refine (accept_seen ends (by decide)).bind fun void => Triple.branch ?_ ?_
      · exact goesOn true (Or.inr (Or.inl rfl))
      · exact (quiet_err _).seen.strengthen fun _ _ seen => seen.settled

end Programs

/-- The parser over the tokens, with fuel for as many rounds. -/
def parsed (toks : Nat → Token) (error : Option String) (fuel : Nat) : Parser :=
  ((grammar toks fuel).program (Parser.start error)).2

theorem parsed_over {toks : Nat → Token} {eof fuel : Nat} (error : Option String) (ends : EndsAt toks eof)
    (enough : 8 * eof + 1 ≤ fuel) : Over toks eof (parsed toks error fuel) := by
  have start : Reached toks eof 0 (Parser.start error) :=
    Or.inr ⟨⟨Nat.zero_le _, Nat.zero_le _, fun _ member => absurd member List.not_mem_nil, rfl⟩, Nat.zero_le _⟩
  exact program_over ends fuel 0 (fun _ => enough) _ start

/-- With fuel for what is left of the tokens the parser ends, and has read nothing behind
T_EOF, exactly when it took no T_EOF for a name. -/
theorem parser_inside_iff {toks : Nat → Token} {eof fuel : Nat} {error : Option String} (ends : EndsAt toks eof)
    (enough : 8 * eof + 1 ≤ fuel) :
    (parsed toks error fuel).stuck = false ∧ (parsed toks error fuel).far ≤ eof ↔
      ∀ i ∈ (parsed toks error fuel).named, (toks i).kind ≠ .eof := by
  rcases parsed_over error ends enough with fine | ⟨lost, out⟩
  · exact ⟨fun _ i member => ends.before i (fine.named i member), fun _ => ⟨fine.fuel, fine.far⟩⟩
  · constructor
    · rintro ⟨fuelLeft, far⟩
      rcases out with behind | stuck
      · exact absurd far (Nat.not_le.mpr behind)
      · exact absurd (fuelLeft.symm.trans stuck) (by decide)
    · exact fun names => absurd ends.stop (names eof lost.named)

/-- `int f(){}` is read to its T_EOF. -/
theorem parser_inside_function :
    (parsed (tokensOf [.plain .kwInt, .plain .ident, .plain .lpar, .plain .rpar, .plain .lbrace, .plain .rbrace,
      .plain .eof]) none 49).stuck = false ∧
    (parsed (tokensOf [.plain .kwInt, .plain .ident, .plain .lpar, .plain .rpar, .plain .lbrace, .plain .rbrace,
      .plain .eof]) none 49).far ≤ 6 := by
  have ends : EndsAt (tokensOf [.plain .kwInt, .plain .ident, .plain .lpar, .plain .rpar, .plain .lbrace,
      .plain .rbrace, .plain .eof]) 6 := ⟨rfl, by decide⟩
  exact (parser_inside_iff ends (by decide)).mpr (by decide +kernel)

/-- Tokens that do not end behind int, void, an opening parenthesis or a comma are read to
their T_EOF and no further. -/
theorem parsed_inside_of_closed {toks : Nat → Token} {eof fuel : Nat} (error : Option String) (ends : EndsAt toks eof)
    (closed : ¬ Behind toks eof) (enough : 8 * eof + 1 ≤ fuel) :
    (parsed toks error fuel).stuck = false ∧ (parsed toks error fuel).far ≤ eof := by
  rcases parsed_over error ends enough with fine | ⟨lost, -⟩
  · exact ⟨fine.fuel, fine.far⟩
  · exact absurd lost.opened closed

/-- The token array of a text ends with its only T_EOF. -/
theorem tokenize_ends {text : List UInt8} {z : Scan} (read : tokenize text = some z) :
    ∃ eof, eof ≤ maxTokens - 1 ∧ z.toks.length = eof + 1 ∧ EndsAt (tokensOf z.toks) eof := by
  obtain ⟨z', run, rfl⟩ := tokenize_scan read
  have bounded := scan_bounded run ⟨Nat.zero_le _, fun _ member => absurd member List.not_mem_nil⟩
  refine ⟨z'.toks.length, bounded.few, List.length_append, ?_, fun i inside => ?_⟩
  · simp [tokensOf, Scan.push, Token.plain]
  · have here : tokensOf (z'.push (Token.plain .eof)).toks i = z'.toks[i] := by
      simp [tokensOf, Scan.push, List.getElem?_append_left inside, inside]
    rw [here]
    exact (bounded.small _ (List.getElem_mem inside)).kind

/-- A source that is no more than `int`: the token behind T_EOF is looked at. -/
theorem loneInt_overrun : ∃ z, tokenize [105, 110, 116] = some z ∧ z.hadError = false ∧
    EndsAt (tokensOf z.toks) 1 ∧ 1 < (parsed (tokensOf z.toks) none 9).far := by
  refine ⟨⟨[{ Token.plain .kwInt with sval := [105, 110, 116] }, Token.plain .eof], [], false⟩, by decide +kernel, rfl,
    ⟨rfl, by decide⟩, by decide +kernel⟩

end Zenbite.Zbc
