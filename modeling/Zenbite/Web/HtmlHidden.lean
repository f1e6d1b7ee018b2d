import Zenbite.Web.Html

/-! What is inside a script or a style does not change the page: html_render on two
documents that differ there only. -/

namespace Zenbite.Web

open Memory Reads Look

/-! What each step of a loop returns -/

section Values
variable (len : Nat) (m : Buffer)

theorem follows_value (norm : UInt8 → UInt8) (i : Nat) (c : UInt8) (text : List UInt8) :
    (follows norm i (c :: text) m).1 = if norm (m i) = c then (follows norm (i + 1) text m).1 else false := by
  simp only [follows, value_ite, value_bind, value_pure]
  rfl

theorem skipBlanks_value (left j : Nat) : (skipBlanks len (left + 1) j m).1 =
    if j < len then if m j = 32 then (skipBlanks len left (j + 1) m).1 else j else j := by
  simp only [skipBlanks, value_ite, value_bind, value_pure]
  rfl

theorem readName_value (room j : Nat) : (readName len (room + 1) j m).1 =
    if j < len then if IsAlnum (m j) then tolower (m j) :: (readName len room (j + 1) m).1 else [] else [] := by
  simp only [readName, value_ite, value_bind, value_pure]
  rfl

theorem readTag_value (i : Nat) : (readTag len i m).1 =
    let j := (skipBlanks len len i m).1
    if j < len then
      if m j = 47 then (true, (readName len 11 (j + 1) m).1) else (false, (readName len 11 j m).1)
    else (false, []) := by
  simp only [readTag, value_ite, value_bind, value_pure]
  rfl

theorem findEntity_value (i : Nat) (e : List UInt8 × UInt8) (table : List (List UInt8 × UInt8)) :
    (findEntity len i (e :: table) m).1 =
      if i + 1 + e.1.length ≤ len ∧ (follows id (i + 1) e.1 m).1 = true then some e
      else (findEntity len i table m).1 := by
  simp only [findEntity, value_ite, value_bind, value_pure, ite_and]

theorem readNumber_value (base : Int) (left j : Nat) (val : Int) : (readNumber len base (left + 1) j val m).1 =
    if j < len then
      if m j = 59 then (val, j)
      else if digit (m j) < 0 ∨ base ≤ digit (m j) then (-1, j + 1)
      else (readNumber len base left (j + 1) (wrapInt (val * base + digit (m j))) m).1
    else (val, j) := by
  simp only [readNumber, value_ite, value_bind, value_pure]
  rfl

theorem skipUnknown_value (left i : Nat) : (skipUnknown len (left + 1) i m).1 =
    if i < len then if m i = 59 ∨ m i = 32 then i else (skipUnknown len left (i + 1) m).1 else i := by
  simp only [skipUnknown, value_ite, value_bind, value_pure]
  rfl

theorem numericEntity_value (i : Nat) (s : Page) : (numericEntity len i s m).1 =
    let start : Int × Nat :=
      if i + 2 < len then if m (i + 2) = 120 ∨ m (i + 2) = 88 then (16, i + 3) else (10, i + 2) else (10, i + 2)
    let number := (readNumber len start.1 len start.2 0 m).1
    (number.2, if 0x20 ≤ number.1 ∧ number.1 < 0x7F then s.put (UInt8.ofNat number.1.toNat) false else s) := by
  simp only [numericEntity, value_ite, value_bind, value_pure]
  rfl

theorem entityRound_some {i : Nat} {e : List UInt8 × UInt8} (found : (findEntity len i ents m).1 = some e)
    (s : Page) : (entityRound len i s m).1 = (i + e.1.length, s.put e.2 (e.2 == 32)) := by
  rw [entityRound, value_bind, found]
  rfl

theorem entityRound_none {i : Nat} (none : (findEntity len i ents m).1 = none) (s : Page) :
    (entityRound len i s m).1 = if i + 2 < len ∧ m (i + 1) = 35 then (numericEntity len i s m).1
      else ((skipUnknown len len i m).1, s) := by
  rw [entityRound, value_bind, none]
  simp only [value_ite, value_bind, value_pure, ite_and]
  rfl

theorem hiddenRound_value (mark : List UInt8) (i : Nat) (s : Page) : (hiddenRound len mark i s m).1 =
    if i + mark.length < len ∧ (follows tolower i mark m).1 = true then
      (i + (mark.length - 1), { s with inScript := false, inStyle := false, inTag := true })
    else (i, s) := by
  simp only [hiddenRound, value_ite, value_bind, value_pure, ite_and]

theorem htmlRound_value (i : Nat) (s : Page) : (htmlRound len i s m).1 =
    if s.inScript ∨ s.inStyle then
      (hiddenRound len (endMark (if s.inScript then scriptName else styleName)) i s m).1
    else if s.inTag then (i, if m i = 62 then { s with inTag := false } else s)
    else if m i = 60 then (i, s.open (readTag len (i + 1) m).1.1 (readTag len (i + 1) m).1.2)
    else if m i = 38 then (entityRound len i s m).1
    else if m i = 10 ∨ m i = 13 ∨ m i = 9 ∨ m i = 32 then (i, if s.lastSpace then s else s.put 32 true)
    else if m i < 32 ∨ 126 < m i then (i, s)
    else (i, s.put (m i) false) := by
  simp only [htmlRound, value_ite, value_bind, value_pure]
  rfl

end Values

structure Doc where
  mem : Buffer
  len : Nat

/-- From `a` and `b` on, `n` characters are the same; behind them both documents end, or
both go on with '<'. -/
structure Alike (A B : Doc) (a b n : Nat) : Prop where
  same : ∀ k < n, A.mem (a + k) = B.mem (b + k)
  stop : (a + n = A.len ∧ b + n = B.len) ∨
    (a + n < A.len ∧ b + n < B.len) ∧ A.mem (a + n) = 60 ∧ B.mem (b + n) = 60

section Windows
variable {A B : Doc} {a b n : Nat}

theorem Alike.head (alike : Alike A B a b (n + 1)) : A.mem a = B.mem b := alike.same 0 (Nat.succ_pos n)

theorem Alike.below (alike : Alike A B a b (n + 1)) : a < A.len ∧ b < B.len := by
  rcases alike.stop with stop | stop
  · omega
  · omega

theorem Alike.next (alike : Alike A B a b (n + 1)) : Alike A B (a + 1) (b + 1) n := by
  have left : a + 1 + n = a + (n + 1) := by omega
  have right : b + 1 + n = b + (n + 1) := by omega
  constructor
  · intro k below
    have here := alike.same (k + 1) (Nat.succ_lt_succ below)
    rwa [← Nat.add_assoc, ← Nat.add_assoc, Nat.add_right_comm a, Nat.add_right_comm b] at here
  · rw [left, right]
    exact alike.stop

theorem Alike.drop {k : Nat} (alike : Alike A B a b (k + n)) : Alike A B (a + k) (b + k) n := by
  constructor
  · intro j below
    rw [Nat.add_assoc, Nat.add_assoc]
    exact alike.same (k + j) (Nat.add_lt_add_left below k)
  · rw [Nat.add_assoc, Nat.add_assoc]
    exact alike.stop

/-- Nothing is left of the window. -/
theorem Alike.over (alike : Alike A B a b 0) : (a = A.len ∧ b = B.len) ∨
    (a < A.len ∧ b < B.len) ∧ A.mem a = 60 ∧ B.mem b = 60 := alike.stop

/-- A loop with enough rounds for the document goes into one below its end. -/
theorem rounds_succ {D : Doc} {f i : Nat} (below : i < D.len) (enough : D.len ≤ f + i) : ∃ f', f = f' + 1 :=
  Nat.exists_eq_succ_of_ne_zero (by omega)

/-- The blanks end inside the window or with it. -/
theorem skipBlanks_alike : ∀ {n a b f g : Nat}, Alike A B a b n → A.len ≤ f + a → B.len ≤ g + b →
    ∃ k ≤ n, (skipBlanks A.len f a A.mem).1 = a + k ∧ (skipBlanks B.len g b B.mem).1 = b + k := by
  have stays : ∀ {D : Doc} {f i : Nat}, (i < D.len → D.mem i ≠ 32) → (skipBlanks D.len f i D.mem).1 = i := by
    intro D f i here
    cases f with
    | zero => rfl
    | succ f =>
        rw [skipBlanks_value]
        split_ifs with below blank
        · exact absurd blank (here below)
        · rfl
        · rfl
  intro n
  induction n with
  | zero =>
      intro a b f g alike _ _
      refine ⟨0, Nat.le_refl 0, stays fun below => ?_, stays fun below => ?_⟩
      · rcases alike.over with ended | stop
        · omega
        · rw [stop.2.1]
          decide
      · rcases alike.over with ended | stop
        · omega
        · rw [stop.2.2]
          decide
  | succ n ih =>
      intro a b f g alike fuelA fuelB
      have below := alike.below
      have head := alike.head
      by_cases blank : A.mem a = 32
      · obtain ⟨f, rfl⟩ := rounds_succ below.1 fuelA
        obtain ⟨g, rfl⟩ := rounds_succ below.2 fuelB
        obtain ⟨k, inside, left, right⟩ := @ih (a + 1) (b + 1) f g alike.next (by omega) (by omega)
        refine ⟨k + 1, by omega, ?_, ?_⟩
        · rw [skipBlanks_value, if_pos below.1, if_pos blank, left]
          omega
        · rw [skipBlanks_value, if_pos below.2, if_pos (head ▸ blank), right]
          omega
      · exact ⟨0, Nat.zero_le _, stays fun _ => blank, stays fun _ => head ▸ blank⟩

theorem readName_alike : ∀ {room n a b : Nat}, Alike A B a b n →
    (readName A.len room a A.mem).1 = (readName B.len room b B.mem).1 := by
  intro room
  induction room with
  | zero => exact fun _ => rfl
  | succ room ih =>
      intro n a b alike
      rw [readName_value, readName_value]
      cases n with
      | zero =>
          have stop : ¬ IsAlnum 60 := by decide
          rcases alike.over with ended | ⟨below, left, right⟩
          · rw [if_neg (by omega), if_neg (by omega)]
          · rw [if_pos below.1, if_pos below.2, left, right, if_neg stop, if_neg stop]
      | succ n =>
          rw [if_pos alike.below.1, if_pos alike.below.2, ih alike.next, alike.head]

theorem readTag_alike (alike : Alike A B a b n) :
    (readTag A.len a A.mem).1 = (readTag B.len b B.mem).1 := by
  obtain ⟨k, inside, left, right⟩ := skipBlanks_alike alike (Nat.le_add_right _ _) (Nat.le_add_right _ _)
  obtain ⟨n, rfl⟩ := Nat.exists_eq_add_of_le inside
  have rest : Alike A B (a + k) (b + k) n := alike.drop
  rw [readTag_value, readTag_value, left, right]
  dsimp only
  cases n with
  | zero =>
      rcases rest.over with ended | ⟨below, atA, atB⟩
      · rw [if_neg (by omega), if_neg (by omega)]
      · have noSlash : (60 : UInt8) ≠ 47 := by decide
        rw [if_pos below.1, if_pos below.2, atA, atB, if_neg noSlash, if_neg noSlash, readName_alike rest]
  | succ n =>
      rw [if_pos rest.below.1, if_pos rest.below.2, rest.head, readName_alike rest, readName_alike rest.next]

/-- The text lies inside the document at `i`. -/
def Doc.Holds (D : Doc) (norm : UInt8 → UInt8) (i : Nat) (text : List UInt8) : Prop :=
  i + text.length ≤ D.len ∧ (follows norm i text D.mem).1 = true

instance (D : Doc) (norm : UInt8 → UInt8) (i : Nat) (text : List UInt8) : Decidable (D.Holds norm i text) :=
  inferInstanceAs (Decidable (_ ∧ _))

theorem Alike.within (alike : Alike A B a b n) : a + n ≤ A.len ∧ b + n ≤ B.len := by
  rcases alike.stop with stop | stop
  · omega
  · omega

/-- A text without '<' lies in the window or in neither document. -/
theorem holds_alike {norm : UInt8 → UInt8} : ∀ {text : List UInt8} {n a b : Nat}, (∀ c ∈ text, norm 60 ≠ c) →
    Alike A B a b n →
      (A.Holds norm a text ↔ B.Holds norm b text) ∧ (A.Holds norm a text → text.length ≤ n) := by
  intro text
  induction text with
  | nil =>
      intro n a b _ alike
      have within := alike.within
      refine ⟨iff_of_true ⟨?_, rfl⟩ ⟨?_, rfl⟩, fun _ => Nat.zero_le n⟩
      · exact (Nat.le_add_right a n).trans within.1
      · exact (Nat.le_add_right b n).trans within.2
  | cons c text ih =>
      intro n a b plain alike
      have first : norm 60 ≠ c := plain c List.mem_cons_self
      rw [Doc.Holds, Doc.Holds, follows_value, follows_value, List.length_cons]
      cases n with
      | zero =>
          rcases alike.over with ended | ⟨_, left, right⟩
          · have noA : ¬ a + (text.length + 1) ≤ A.len := by omega
            have noB : ¬ b + (text.length + 1) ≤ B.len := by omega
            exact ⟨iff_of_false (fun h => noA h.1) (fun h => noB h.1), fun h => absurd h.1 noA⟩
          · rw [left, right, if_neg first, if_neg first]
            exact ⟨iff_of_false (fun h => Bool.false_ne_true h.2) (fun h => Bool.false_ne_true h.2),
              fun h => absurd h.2 Bool.false_ne_true⟩
      | succ n =>
          have rest := ih (fun d member => plain d (List.mem_cons_of_mem c member)) alike.next
          rw [Doc.Holds, Doc.Holds, Nat.add_right_comm, Nat.add_right_comm b, Nat.add_assoc a, Nat.add_assoc b] at rest
          rw [alike.head]
          by_cases same : norm (B.mem b) = c
          · rw [if_pos same, if_pos same]
            exact ⟨rest.1, fun h => Nat.succ_le_succ (rest.2 h)⟩
          · rw [if_neg same, if_neg same]
            exact ⟨iff_of_false (fun h => Bool.false_ne_true h.2) (fun h => Bool.false_ne_true h.2),
              fun h => absurd h.2 Bool.false_ne_true⟩

theorem findEntity_alike {table : List (List UInt8 × UInt8)} (plain : ∀ e ∈ table, ∀ c ∈ e.1, id 60 ≠ c)
    (alike : Alike A B (a + 1) (b + 1) n) :
    (findEntity A.len a table A.mem).1 = (findEntity B.len b table B.mem).1 := by
  induction table with
  | nil => rfl
  | cons e table ih =>
      have here := (holds_alike (plain e List.mem_cons_self) alike).1
      rw [Doc.Holds, Doc.Holds] at here
      rw [findEntity_value, findEntity_value, ih fun d member => plain d (List.mem_cons_of_mem e member)]
      simp only [here]

/-- The digits end inside the window, with it, or at the '<' behind it. -/
theorem readNumber_alike (base : Int) : ∀ {n a b f g : Nat} (val : Int), Alike A B a b n → A.len ≤ f + a →
    B.len ≤ g + b → ∃ v k, (readNumber A.len base f a val A.mem).1 = (v, a + k) ∧
      (readNumber B.len base g b val B.mem).1 = (v, b + k) := by
  have ends : ∀ {D : Doc} {f i : Nat} {val : Int}, i = D.len → (readNumber D.len base f i val D.mem).1 = (val, i) := by
    intro D f i val stop
    cases f with
    | zero => rfl
    | succ f => rw [readNumber_value, if_neg (by omega)]
  intro n
  induction n with
  | zero =>
      intro a b f g val alike fuelA fuelB
      rcases alike.over with ended | ⟨below, left, right⟩
      · exact ⟨val, 0, ends ended.1, ends ended.2⟩
      · obtain ⟨f, rfl⟩ := rounds_succ below.1 fuelA
        obtain ⟨g, rfl⟩ := rounds_succ below.2 fuelB
        have stop : (60 : UInt8) ≠ 59 := by decide
        have bad : digit 60 < 0 ∨ base ≤ digit 60 := Or.inl (by decide)
        refine ⟨-1, 1, ?_, ?_⟩
        · rw [readNumber_value, if_pos below.1, left, if_neg stop, if_pos bad]
        · rw [readNumber_value, if_pos below.2, right, if_neg stop, if_pos bad]
  | succ n ih =>
      intro a b f g val alike fuelA fuelB
      have below := alike.below
      obtain ⟨f, rfl⟩ := rounds_succ below.1 fuelA
      obtain ⟨g, rfl⟩ := rounds_succ below.2 fuelB
      rw [readNumber_value, readNumber_value, if_pos below.1, if_pos below.2, ← alike.head]
      split_ifs with stop bad
      · exact ⟨val, 0, rfl, rfl⟩
      · exact ⟨-1, 1, rfl, rfl⟩
      · obtain ⟨v, k, left, right⟩ :=
          @ih (a + 1) (b + 1) f g (wrapInt (val * base + digit (A.mem a))) alike.next (by omega) (by omega)
        refine ⟨v, k + 1, ?_, ?_⟩
        · rw [left, Nat.add_assoc, Nat.add_comm 1]
        · rw [right, Nat.add_assoc, Nat.add_comm 1]

/-- An unknown entity is skipped to the same place, unless it runs over the '<'. -/
theorem skipUnknown_alike : ∀ {n a b f g : Nat}, Alike A B a b n → A.len ≤ f + a → B.len ≤ g + b →
    ∃ k, (skipUnknown A.len f a A.mem).1 = a + k ∧
      (k < n ∨ a + n = A.len → (skipUnknown B.len g b B.mem).1 = b + k) := by
  have grows : ∀ {D : Doc} (f i : Nat), ∃ k, (skipUnknown D.len f i D.mem).1 = i + k := by
    intro D f
    induction f with
    | zero => exact fun i => ⟨0, rfl⟩
    | succ f ih =>
        intro i
        rw [skipUnknown_value]
        split_ifs
        · exact ⟨0, rfl⟩
        · obtain ⟨k, same⟩ := ih (i + 1)
          exact ⟨k + 1, by rw [same, Nat.add_assoc, Nat.add_comm 1]⟩
        · exact ⟨0, rfl⟩
  have ends : ∀ {D : Doc} {f i : Nat}, i = D.len → (skipUnknown D.len f i D.mem).1 = i := by
    intro D f i stop
    cases f with
    | zero => rfl
    | succ f => rw [skipUnknown_value, if_neg (by omega)]
  intro n
  induction n with
  | zero =>
      intro a b f g alike fuelA fuelB
      rcases alike.over with ended | ⟨below, _⟩
      · exact ⟨0, ends ended.1, fun _ => ends ended.2⟩
      · obtain ⟨k, same⟩ := grows (D := A) f a
        exact ⟨k, same, fun calm => by omega⟩
  | succ n ih =>
      intro a b f g alike fuelA fuelB
      have below := alike.below
      obtain ⟨f, rfl⟩ := rounds_succ below.1 fuelA
      obtain ⟨g, rfl⟩ := rounds_succ below.2 fuelB
      rw [skipUnknown_value, skipUnknown_value, if_pos below.1, if_pos below.2, ← alike.head]
      split_ifs with stop
      · exact ⟨0, rfl, fun _ => rfl⟩
      · obtain ⟨k, left, right⟩ := @ih (a + 1) (b + 1) f g alike.next (by omega) (by omega)
        refine ⟨k + 1, ?_, fun calm => ?_⟩
        · rw [left, Nat.add_assoc, Nat.add_comm 1]
        · rw [right (by omega), Nat.add_assoc, Nat.add_comm 1]

theorem Alike.symm (alike : Alike A B a b n) : Alike B A b a n where
  same k below := (alike.same k below).symm
  stop := by
    rcases alike.stop with stop | stop
    · exact Or.inl ⟨stop.2, stop.1⟩
    · exact Or.inr ⟨⟨stop.1.2, stop.1.1⟩, stop.2.2, stop.2.1⟩

theorem numericEntity_alike (alike : Alike A B (a + 2) (b + 2) n) (s : Page) :
    ∃ k t, (numericEntity A.len a s A.mem).1 = (a + k, t) ∧ (numericEntity B.len b s B.mem).1 = (b + k, t) := by
  have digits : ∀ (base : Int) {j n : Nat}, Alike A B (a + j) (b + j) n → ∃ v k,
      (readNumber A.len base A.len (a + j) 0 A.mem).1 = (v, a + k) ∧
        (readNumber B.len base B.len (b + j) 0 B.mem).1 = (v, b + k) := by
    intro base j n window
    obtain ⟨v, k, left, right⟩ := readNumber_alike base 0 window (Nat.le_add_right A.len (a + j))
      (Nat.le_add_right B.len (b + j))
    exact ⟨v, j + k, by rw [left, Nat.add_assoc], by rw [right, Nat.add_assoc]⟩
  have start : ∃ base j n, Alike A B (a + j) (b + j) n ∧
      (if a + 2 < A.len then if A.mem (a + 2) = 120 ∨ A.mem (a + 2) = 88 then ((16 : Int), a + 3) else (10, a + 2)
        else (10, a + 2)) = (base, a + j) ∧
      (if b + 2 < B.len then if B.mem (b + 2) = 120 ∨ B.mem (b + 2) = 88 then ((16 : Int), b + 3) else (10, b + 2)
        else (10, b + 2)) = (base, b + j) := by
    cases n with
    | zero =>
        refine ⟨10, 2, 0, alike, ?_⟩
        rcases alike.over with ended | ⟨below, left, right⟩
        · rw [if_neg (by omega), if_neg (by omega)]
          exact ⟨rfl, rfl⟩
        · rw [if_pos below.1, if_pos below.2, left, right]
          exact ⟨rfl, rfl⟩
    | succ n =>
        rw [if_pos alike.below.1, if_pos alike.below.2, alike.head]
        split_ifs with hex
        · exact ⟨16, 3, n, alike.next, rfl, rfl⟩
        · exact ⟨10, 2, n + 1, alike, rfl, rfl⟩
  obtain ⟨base, j, n, window, left, right⟩ := start
  obtain ⟨v, k, valueA, valueB⟩ := digits base window
  rw [numericEntity_value, numericEntity_value, left, right]
  dsimp only
  rw [valueA, valueB]
  exact ⟨k, _, rfl, rfl⟩

theorem ents_plain : ∀ e ∈ ents, ∀ c ∈ e.1, id 60 ≠ c := by decide +kernel

theorem entityRound_alike (alike : Alike A B a b (n + 1)) (s : Page) :
    ∃ k t, (entityRound A.len a s A.mem).1 = (a + k, t) ∧
      (k < n + 1 ∨ a + (n + 1) = A.len → (entityRound B.len b s B.mem).1 = (b + k, t)) := by
  have table := findEntity_alike ents_plain alike.next
  cases found : (findEntity A.len a ents A.mem).1 with
  | some e =>
      refine ⟨e.1.length, _, entityRound_some A.len A.mem found s, fun _ => ?_⟩
      exact entityRound_some B.len B.mem (table ▸ found) s
  | none =>
      rw [entityRound_none A.len A.mem found, entityRound_none B.len B.mem (table ▸ found)]
      have number : (a + 2 < A.len ∧ A.mem (a + 1) = 35 ↔ b + 2 < B.len ∧ B.mem (b + 1) = 35) ∧
          (a + 2 < A.len ∧ A.mem (a + 1) = 35 → ∃ n, Alike A B (a + 2) (b + 2) n) := by
        cases n with
        | zero =>
            rcases alike.next.over with ended | ⟨_, left, right⟩
            · exact ⟨by omega, by omega⟩
            · have notHash : (60 : UInt8) ≠ 35 := by decide
              rw [left, right]
              exact ⟨iff_of_false (fun h => notHash h.2) (fun h => notHash h.2), fun h => absurd h.2 notHash⟩
        | succ n =>
            have room : a + 2 < A.len ↔ b + 2 < B.len := by
              rcases alike.stop with stop | stop
              · omega
              · omega
            rw [alike.next.head, room]
            exact ⟨Iff.rfl, fun _ => ⟨n, alike.next.next⟩⟩
      by_cases hash : a + 2 < A.len ∧ A.mem (a + 1) = 35
      · rw [if_pos hash, if_pos (number.1.mp hash)]
        obtain ⟨n, window⟩ := number.2 hash
        obtain ⟨k, t, left, right⟩ := numericEntity_alike window s
        exact ⟨k, t, left, fun _ => right⟩
      · rw [if_neg hash, if_neg fun other => hash (number.1.mpr other)]
        obtain ⟨k, left, right⟩ := skipUnknown_alike alike (Nat.le_add_right A.len a) (Nat.le_add_right B.len b)
        exact ⟨k, s, by rw [left], fun calm => by rw [right calm]⟩

/-- The end mark lies in the window or in neither document. -/
theorem ended_alike {name : List UInt8} (plain : ∀ c ∈ name, tolower 60 ≠ c) (alike : Alike A B a b (n + 1))
    (ended : a + (endMark name).length < A.len ∧ (follows tolower a (endMark name) A.mem).1 = true) :
    b + (endMark name).length < B.len ∧ (follows tolower b (endMark name) B.mem).1 = true := by
  have slash : tolower 60 ≠ 47 := by decide
  have all : ∀ c ∈ 47 :: name, tolower 60 ≠ c := List.forall_mem_cons.mpr ⟨slash, plain⟩
  obtain ⟨same, inside⟩ := holds_alike all alike.next
  rw [endMark, List.length_cons, follows_value] at ended ⊢
  by_cases open_ : tolower (A.mem a) = 60
  · rw [if_pos open_] at ended
    have holds : A.Holds tolower (a + 1) (47 :: name) := ⟨by omega, ended.2⟩
    have other := same.mp holds
    have length := inside holds
    rw [if_pos (alike.head ▸ open_)]
    refine ⟨?_, other.2⟩
    rcases alike.stop with stop | stop
    · omega
    · omega
  · rw [if_neg open_] at ended
    exact absurd ended.2 Bool.false_ne_true

theorem names_plain (script : Bool) : ∀ c ∈ (if script = true then scriptName else styleName), tolower 60 ≠ c := by
  cases script with
  | true =>
      have all : ∀ c ∈ scriptName, tolower 60 ≠ c := by decide +kernel
      exact all
  | false =>
      have all : ∀ c ∈ styleName, tolower 60 ≠ c := by decide +kernel
      exact all

theorem hiddenRound_alike {name : List UInt8} (plain : ∀ c ∈ name, tolower 60 ≠ c)
    (alike : Alike A B a b (n + 1)) (s : Page) :
    ∃ k t, (hiddenRound A.len (endMark name) a s A.mem).1 = (a + k, t) ∧
      (hiddenRound B.len (endMark name) b s B.mem).1 = (b + k, t) := by
  rw [hiddenRound_value, hiddenRound_value]
  by_cases ended : a + (endMark name).length < A.len ∧ (follows tolower a (endMark name) A.mem).1 = true
  · rw [if_pos ended, if_pos (ended_alike plain alike ended)]
    exact ⟨_, _, rfl, rfl⟩
  · rw [if_neg ended, if_neg fun other => ended (ended_alike plain alike.symm other)]
    exact ⟨0, s, rfl, rfl⟩

/-- A round does the same at both places, unless it leaves the window in front of a '<'. -/
theorem htmlRound_alike (alike : Alike A B a b (n + 1)) (s : Page) :
    ∃ k t, (htmlRound A.len a s A.mem).1 = (a + k, t) ∧
      (k < n + 1 ∨ a + (n + 1) = A.len → (htmlRound B.len b s B.mem).1 = (b + k, t)) := by
  rw [htmlRound_value, htmlRound_value, ← alike.head, readTag_alike alike.next]
  by_cases hidden : s.inScript = true ∨ s.inStyle = true
  · rw [if_pos hidden, if_pos hidden]
    obtain ⟨k, t, left, right⟩ := hiddenRound_alike (names_plain s.inScript) alike s
    exact ⟨k, t, left, fun _ => right⟩
  · rw [if_neg hidden, if_neg hidden]
    split_ifs
    all_goals first | exact entityRound_alike alike s | exact ⟨0, _, rfl, fun _ => rfl⟩

end Windows

/-! The loop -/

def kindName (script : Bool) : List UInt8 := if script then scriptName else styleName

section Loop
variable (D : Doc) (outmax : Int)

/-- The loop comes to the index `i` with this page. -/
inductive Comes : Nat → Page → Prop where
  | start : Comes 0 Page.blank
  | round {i : Nat} {s : Page} : Comes i s → i < D.len → (s.out.length : Int) < outmax - 1 →
      Comes ((htmlRound D.len i s D.mem).1.1 + 1) (htmlRound D.len i s D.mem).1.2

/-- What the loop makes of the page from `i` on. -/
def rest (i : Nat) (s : Page) : Page := (htmlFrom D.len outmax (D.len - i) i s D.mem).1

/-- The start tag of a script, or of a style, stands at `p`. -/
def StartTag (script : Bool) (p : Nat) : Prop :=
  p < D.len ∧ D.mem p = 60 ∧ (readTag D.len (p + 1) D.mem).1 = (false, kindName script)

end Loop

/-- Outside of tags, scripts and styles. -/
def Page.InText (s : Page) : Prop := s.inTag = false ∧ s.inScript = false ∧ s.inStyle = false

/-- The documents differ between `p`, where the start tag of a script or a style is met in
text, and `a` and `b`, up to which no end mark starts. -/
structure HiddenApart (A B : Doc) (outmax : Int) (script : Bool) (p a b : Nat) : Prop where
  met : ∃ s, Comes A outmax p s ∧ s.InText
  before : ∀ k < p, A.mem k = B.mem k
  tagA : StartTag A script p
  tagB : StartTag B script p
  above : p < a ∧ p < b
  openA : ∀ k < a, p ≤ k → ¬ A.Holds tolower k (endMark (kindName script))
  openB : ∀ k < b, p ≤ k → ¬ B.Holds tolower k (endMark (kindName script))
  ends : ∃ n, (a + n = A.len ∧ b + n = B.len) ∧ ∀ k < n, A.mem (a + k) = B.mem (b + k)

section Loop
variable {D A B : Doc} {outmax : Int} {i : Nat} {s : Page}

theorem htmlFrom_value (left : Nat) : (htmlFrom D.len outmax (left + 1) i s D.mem).1 =
    if i < D.len ∧ (s.out.length : Int) < outmax - 1 then
      (htmlFrom D.len outmax left ((htmlRound D.len i s D.mem).1.1 + 1) (htmlRound D.len i s D.mem).1.2 D.mem).1
    else s := by
  simp only [htmlFrom, value_ite, value_bind, value_pure]

/-- The index does not go back. -/
theorem htmlRound_grows (below : i < D.len) (s : Page) : i ≤ (htmlRound D.len i s D.mem).1.1 := by
  obtain ⟨n, last⟩ := Nat.exists_eq_add_of_lt below
  have whole : Alike D D i i (n + 1) := ⟨fun _ _ => rfl, Or.inl ⟨last.symm, last.symm⟩⟩
  obtain ⟨k, t, same, _⟩ := htmlRound_alike whole s
  rw [same]
  exact Nat.le_add_right i k

/-- Any number of rounds that is enough gives the same. -/
theorem htmlFrom_enough : ∀ {f g i : Nat} {s : Page}, D.len ≤ f + i → D.len ≤ g + i →
    (htmlFrom D.len outmax f i s D.mem).1 = (htmlFrom D.len outmax g i s D.mem).1 := by
  have ends : ∀ {g i : Nat} {s : Page}, D.len ≤ i → (htmlFrom D.len outmax g i s D.mem).1 = s := by
    intro g i s past
    cases g with
    | zero => rfl
    | succ g => rw [htmlFrom_value, if_neg (by omega)]
  intro f
  induction f with
  | zero =>
      intro g i s fuelF fuelG
      rw [ends (by omega), ends (by omega)]
  | succ f ih =>
      intro g i s fuelF fuelG
      cases g with
      | zero => rw [ends (by omega), ends (by omega)]
      | succ g =>
          rw [htmlFrom_value, htmlFrom_value]
          split_ifs with room
          · have grows := htmlRound_grows room.1 s
            exact ih (by omega) (by omega)
          · rfl

theorem rest_round (below : i < D.len) (room : (s.out.length : Int) < outmax - 1) :
    rest D outmax i s = rest D outmax ((htmlRound D.len i s D.mem).1.1 + 1) (htmlRound D.len i s D.mem).1.2 := by
  have grows := htmlRound_grows below s
  obtain ⟨left, same⟩ : ∃ left, D.len - i = left + 1 := ⟨D.len - i - 1, by omega⟩
  rw [rest, rest, same, htmlFrom_value, if_pos ⟨below, room⟩]
  exact htmlFrom_enough (by omega) (by omega)

theorem rest_stop (stop : ¬ (i < D.len ∧ (s.out.length : Int) < outmax - 1)) : rest D outmax i s = s := by
  rw [rest]
  cases D.len - i with
  | zero => rfl
  | succ left => rw [htmlFrom_value, if_neg stop]

theorem Comes.rest (comes : Comes D outmax i s) : rest D outmax 0 Page.blank = rest D outmax i s := by
  induction comes with
  | start => rfl
  | round _ below room ih => exact ih.trans (rest_round below room)

/-- Up to a '<' that is met, the loop does the same on both documents. -/
theorem Comes.alike {p : Nat} (before : ∀ k < p, A.mem k = B.mem k) (inside : p < A.len ∧ p < B.len)
    (stop : A.mem p = 60 ∧ B.mem p = 60) (comes : Comes A outmax i s) : i ≤ p → Comes B outmax i s := by
  induction comes with
  | start => exact fun _ => .start
  | @round i s _ below room ih =>
      intro low
      have grows := htmlRound_grows below s
      obtain ⟨n, rfl⟩ : ∃ n, p = i + (n + 1) := ⟨p - i - 1, by omega⟩
      have window : Alike A B i i (n + 1) := ⟨fun k less => before (i + k) (by omega), Or.inr ⟨inside, stop⟩⟩
      obtain ⟨k, t, left, right⟩ := htmlRound_alike window s
      rw [left] at low ⊢
      dsimp only at low ⊢
      have same := right (Or.inl (by omega))
      have next := Comes.round (ih (by omega)) (by omega) room
      rwa [same] at next

/-- While no end mark comes, a script or a style changes nothing. -/
theorem rest_hidden {script : Bool} (kind : s.inScript = script) (hidden : s.inScript = true ∨ s.inStyle = true) :
    ∀ {n i : Nat}, i + n ≤ D.len → (∀ k < i + n, i ≤ k → ¬ D.Holds tolower k (endMark (kindName script))) →
      rest D outmax i s = rest D outmax (i + n) s := by
  intro n
  induction n with
  | zero => exact fun _ _ => rfl
  | succ n ih =>
      intro i inside none
      have next := @ih (i + 1) (by omega) (fun k below above => none k (by omega) (by omega))
      by_cases room : (s.out.length : Int) < outmax - 1
      · have below : i < D.len := by omega
        have stays : (htmlRound D.len i s D.mem).1 = (i, s) := by
          rw [htmlRound_value, if_pos hidden, hiddenRound_value, kind]
          refine if_neg fun ended => none i (by omega) (Nat.le_refl i) ⟨Nat.le_of_lt ended.1, ended.2⟩
        rw [rest_round below room, stays, next, Nat.add_assoc, Nat.add_comm 1]
      · rw [rest_stop fun both => room both.2, rest_stop fun both => room both.2]

/-- On the same rest of two documents, the loop does the same. -/
theorem rest_alike : ∀ (n : Nat) {a b : Nat} {s : Page}, a + n = A.len → b + n = B.len →
    (∀ k < n, A.mem (a + k) = B.mem (b + k)) → rest A outmax a s = rest B outmax b s := by
  intro n
  induction n using Nat.strong_induction_on with
  | _ n ih =>
      intro a b s lastA lastB same
      by_cases more : 0 < n ∧ (s.out.length : Int) < outmax - 1
      · obtain ⟨n, rfl⟩ : ∃ n', n = n' + 1 := ⟨n - 1, by omega⟩
        have window : Alike A B a b (n + 1) := ⟨same, Or.inl ⟨lastA, lastB⟩⟩
        obtain ⟨k, t, left, right⟩ := htmlRound_alike window s
        rw [rest_round (by omega) more.2, rest_round (D := B) (by omega) more.2, left, right (Or.inr lastA)]
        dsimp only
        by_cases inside : k ≤ n
        · apply ih (n - k) (by omega) (by omega) (by omega)
          intro j below
          have here := same (k + 1 + j) (by omega)
          rw [← Nat.add_assoc, ← Nat.add_assoc, ← Nat.add_assoc, ← Nat.add_assoc] at here
          exact here
        · rw [rest_stop (by omega), rest_stop (by omega)]
      · rw [rest_stop (by omega), rest_stop (by omega)]

/-- The start tag of a script or a style that is met in text hides what follows. -/
theorem startTag_round {script : Bool} {p : Nat} (tag : StartTag D script p) (text : s.InText) :
    (htmlRound D.len p s D.mem).1 =
      (p, { s with inScript := script, inStyle := !script, inTag := true }) := by
  have out : ¬ (s.inScript = true ∨ s.inStyle = true) := by
    rw [text.2.1, text.2.2]
    decide
  have opened : s.open false (kindName script) = { s with inScript := script, inStyle := !script, inTag := true } := by
    have other : styleName ≠ scriptName := by decide
    cases script with
    | true =>
        rw [Page.open, kindName, if_pos rfl, if_pos ⟨rfl, rfl⟩, text.2.2]
        rfl
    | false =>
        rw [Page.open, kindName, if_neg Bool.false_ne_true, if_neg (fun both => other both.1), if_pos ⟨rfl, rfl⟩,
          text.2.1]
        rfl
  rw [htmlRound_value, if_neg out, if_neg (text.1 ▸ Bool.false_ne_true), if_pos tag.2.1, tag.2.2, opened]

end Loop

/-- What is between the start tag and the end mark does not reach the page. -/
theorem script_hidden (A B : Doc) (outmax : Int) (script : Bool) (p a b : Nat)
    (apart : HiddenApart A B outmax script p a b) :
    (htmlRender A.len outmax A.mem).1 = (htmlRender B.len outmax B.mem).1 := by
  obtain ⟨s, comesA, text⟩ := apart.met
  obtain ⟨n, ends, same⟩ := apart.ends
  have inside : p < A.len ∧ p < B.len := ⟨apart.tagA.1, apart.tagB.1⟩
  have comesB := comesA.alike apart.before inside ⟨apart.tagA.2.1, apart.tagB.2.1⟩ (Nat.le_refl p)
  have hides : ∀ {D : Doc} {e : Nat}, StartTag D script p → p < e → e ≤ D.len →
      (∀ k < e, p ≤ k → ¬ D.Holds tolower k (endMark (kindName script))) →
      (s.out.length : Int) < outmax - 1 →
      rest D outmax p s = rest D outmax e { s with inScript := script, inStyle := !script, inTag := true } := by
    intro D e tag above last none room
    obtain ⟨k, rfl⟩ := Nat.exists_eq_add_of_le (Nat.succ_le_of_lt above)
    have hidden : script = true ∨ (!script) = true := by
      cases script with
      | true => exact Or.inl rfl
      | false => exact Or.inr rfl
    rw [rest_round tag.1 room, startTag_round tag text]
    exact rest_hidden (s := { s with inScript := script, inStyle := !script, inTag := true }) rfl hidden last
      fun j below above => none j below (by omega)
  have pages : rest A outmax 0 Page.blank = rest B outmax 0 Page.blank := by
    rw [comesA.rest, comesB.rest]
    by_cases room : (s.out.length : Int) < outmax - 1
    · calc
        rest A outmax p s = rest A outmax a { s with inScript := script, inStyle := !script, inTag := true } :=
          hides apart.tagA apart.above.1 (by omega) apart.openA room
        _ = rest B outmax b { s with inScript := script, inStyle := !script, inTag := true } :=
          rest_alike n ends.1 ends.2 same
        _ = rest B outmax p s := (hides apart.tagB apart.above.2 (by omega) apart.openB room).symm
    · rw [rest_stop fun both => room both.2, rest_stop fun both => room both.2]
  exact congrArg Page.out pages

/-- html_render stays inside its buffers, and what is hidden does not show. -/
theorem html_safe (A : Doc) (outmax : Int) (some : 1 ≤ outmax) :
    ((htmlRender A.len outmax).Inside A.len A.mem ∧ ((htmlRender A.len outmax A.mem).1.length : Int) + 1 ≤ outmax) ∧
    ∀ B script p a b, HiddenApart A B outmax script p a b →
      (htmlRender A.len outmax A.mem).1 = (htmlRender B.len outmax B.mem).1 :=
  ⟨htmlRender_bounds A.len outmax A.mem some, fun B script p a b apart => script_hidden A B outmax script p a b apart⟩

/-- "<script>", the body, "</script>x". -/
def scriptPage (body : List Char) : Doc :=
  let text := ['<', 's', 'c', 'r', 'i', 'p', 't', '>'] ++ body ++ ['<', '/', 's', 'c', 'r', 'i', 'p', 't', '>', 'x']
  ⟨fun i => (ascii text).getD i 0, text.length⟩

/-- Two pages with other scripts. -/
theorem html_safe_scripts : (htmlRender (scriptPage ['a', ';']).len 8 (scriptPage ['a', ';']).mem).1 =
    (htmlRender (scriptPage ['<']).len 8 (scriptPage ['<']).mem).1 := by
  have tagA : StartTag (scriptPage ['a', ';']) true 0 := ⟨by decide +kernel, by decide +kernel, by decide +kernel⟩
  have tagB : StartTag (scriptPage ['<']) true 0 := ⟨by decide +kernel, by decide +kernel, by decide +kernel⟩
  exact (html_safe (scriptPage ['a', ';']) 8 (by decide)).2 (scriptPage ['<']) true 0 10 9
    ⟨⟨Page.blank, .start, rfl, rfl, rfl⟩, fun k below => absurd below (Nat.not_lt_zero k), tagA, tagB, by decide,
      by decide +kernel, by decide +kernel, 10, by decide +kernel, by decide +kernel⟩

end Zenbite.Web
