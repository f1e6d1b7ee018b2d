import Zenbite.CString
import Zenbite.Lib.Reads

/-! html_render (desktop.c): a page as plain text. A char above 127 is negative; it is
below ' ' and in no range of characters, and the tests for bytes here say so too. -/

namespace Zenbite.Web

open Memory Reads Look

def ascii (text : List Char) : List UInt8 := text.map fun c => UInt8.ofNat c.toNat

def scriptName : List UInt8 := ascii ['s', 'c', 'r', 'i', 'p', 't']

def styleName : List UInt8 := ascii ['s', 't', 'y', 'l', 'e']

/-- The end marks "</script" and "</style". -/
def endMark (name : List UInt8) : List UInt8 := 60 :: 47 :: name

/-- The tags that start a new line. -/
def blockNames : List (List UInt8) := [
  ascii ['b', 'r'], ascii ['p'], ascii ['d', 'i', 'v'], ascii ['l', 'i'], ascii ['t', 'r'], ascii ['h', '1'],
  ascii ['h', '2'], ascii ['h', '3'], ascii ['h', '4'], ascii ['u', 'l'], ascii ['o', 'l'], ascii ['h', 'r'],
  ascii ['t', 'i', 't', 'l', 'e'], ascii ['h', 'e', 'a', 'd', 'e', 'r'], ascii ['s', 'e', 'c', 't', 'i', 'o', 'n'],
  ascii ['a', 'r', 't', 'i', 'c', 'l', 'e'], ascii ['n', 'a', 'v'], ascii ['f', 'o', 'o', 't', 'e', 'r'],
  ascii ['m', 'a', 'i', 'n'], ascii ['b', 'l', 'o', 'c', 'k', 'q', 'u', 'o', 't', 'e']]

/-- `ents` -/
def ents : List (List UInt8 × UInt8) := [
  (ascii ['a', 'm', 'p', ';'], 38), (ascii ['l', 't', ';'], 60), (ascii ['g', 't', ';'], 62),
  (ascii ['q', 'u', 'o', 't', ';'], 34), (ascii ['a', 'p', 'o', 's', ';'], 39), (ascii ['n', 'b', 's', 'p', ';'], 32),
  (ascii ['m', 'd', 'a', 's', 'h', ';'], 45), (ascii ['n', 'd', 'a', 's', 'h', ';'], 45),
  (ascii ['h', 'e', 'l', 'l', 'i', 'p', ';'], 46), (ascii ['c', 'o', 'p', 'y', ';'], 99), (ascii ['r', 'e', 'g', ';'], 114)]

/-- What html_render keeps between rounds; `tl` is the length of `out`. -/
structure Page where
  out : List UInt8
  inTag : Bool
  inScript : Bool
  inStyle : Bool
  lastSpace : Bool

def Page.blank : Page := ⟨[], false, false, false, true⟩

def Page.put (s : Page) (c : UInt8) (space : Bool) : Page := { s with out := s.out ++ [c], lastSpace := space }

def char (i : Nat) : Look UInt8 := field i 1 fun m => m i

def IsAlnum (c : UInt8) : Prop := 97 ≤ c ∧ c ≤ 122 ∨ 65 ≤ c ∧ c ≤ 90 ∨ 48 ≤ c ∧ c ≤ 57

instance (c : UInt8) : Decidable (IsAlnum c) := inferInstanceAs (Decidable (_ ∨ _))

/-- The comparison with `text` from `i` on, up to the first difference. -/
def follows (norm : UInt8 → UInt8) : Nat → List UInt8 → Look Bool
  | _, [] => pure true
  | i, c :: text => do
    let a ← char i
    if norm a = c then follows norm (i + 1) text else pure false

section Tag
variable (len : Nat)

/-- `while (j < len && body[j] == ' ') j++` -/
def skipBlanks : Nat → Nat → Look Nat
  | 0, j => pure j
  | left + 1, j =>
    if j < len then do
      let c ← char j
      if c = 32 then skipBlanks left (j + 1) else pure j
    else pure j

/-- The name of the tag, in lower case, with room for this many characters. -/
def readName : Nat → Nat → Look (List UInt8)
  | 0, _ => pure []
  | room + 1, j =>
    if j < len then do
      let c ← char j
      if IsAlnum c then do
        let name ← readName room (j + 1)
        pure (tolower c :: name)
      else pure []
    else pure []

/-- What follows '<': `closing`, and `tag`, which has room for 11 characters. -/
def readTag (i : Nat) : Look (Bool × List UInt8) := do
  let j ← skipBlanks len len i
  if j < len then do
    let c ← char j
    if c = 47 then do
      let tag ← readName len 11 (j + 1)
      pure (true, tag)
    else do
      let tag ← readName len 11 j
      pure (false, tag)
  else pure (false, [])

end Tag

/-- What a tag does to the page. -/
def Page.open (s : Page) (closing : Bool) (tag : List UInt8) : Page :=
  if tag = scriptName ∧ closing = false then { s with inScript := true, inTag := true }
  else if tag = styleName ∧ closing = false then { s with inStyle := true, inTag := true }
  else if tag ∈ blockNames ∧ s.lastSpace = false then { s.put 10 true with inTag := true }
  else { s with inTag := true }

section Entity
variable (len : Nat)

def findEntity (i : Nat) : List (List UInt8 × UInt8) → Look (Option (List UInt8 × UInt8))
  | [] => pure none
  | e :: rest =>
    if i + 1 + e.1.length ≤ len then do
      let same ← follows id (i + 1) e.1
      if same then pure (some e) else findEntity i rest
    else findEntity i rest

/-- `dig`, with -1 for no digit. -/
def digit (c : UInt8) : Int :=
  if 48 ≤ c ∧ c ≤ 57 then c.toNat - 48
  else if 97 ≤ c ∧ c ≤ 102 then c.toNat - 97 + 10
  else if 65 ≤ c ∧ c ≤ 70 then c.toNat - 65 + 10
  else -1

/-- The digits of a numeric entity from `j` on: `val` and `j` behind the loop. -/
def readNumber (base : Int) : Nat → Nat → Int → Look (Int × Nat)
  | 0, j, val => pure (val, j)
  | left + 1, j, val =>
    if j < len then do
      let c ← char j
      if c = 59 then pure (val, j)
      else if digit c < 0 ∨ base ≤ digit c then pure (-1, j + 1)
      else readNumber base left (j + 1) (wrapInt (val * base + digit c))
    else pure (val, j)

/-- `&#NN;` and `&#xNN;`, with `i` at the '&'. -/
def numericEntity (i : Nat) (s : Page) : Look (Nat × Page) := do
  let (base, j) ← (if i + 2 < len then do
      let c ← char (i + 2)
      pure (if c = 120 ∨ c = 88 then (16, i + 3) else (10, i + 2))
    else pure (10, i + 2) : Look (Int × Nat))
  let (val, j) ← readNumber len base len j 0
  pure (j, if 0x20 ≤ val ∧ val < 0x7F then s.put (UInt8.ofNat val.toNat) false else s)

/-- `while (i < len && body[i] != ';' && body[i] != ' ') i++` -/
def skipUnknown : Nat → Nat → Look Nat
  | 0, i => pure i
  | left + 1, i =>
    if i < len then do
      let c ← char i
      if c = 59 ∨ c = 32 then pure i else skipUnknown left (i + 1)
    else pure i

/-- The round at a '&'. -/
def entityRound (i : Nat) (s : Page) : Look (Nat × Page) := do
  let found ← findEntity len i ents
  match found with
  | some e => pure (i + e.1.length, s.put e.2 (e.2 == 32))
  | none =>
    if i + 2 < len then do
      let c ← char (i + 1)
      if c = 35 then numericEntity len i s
      else do
        let i ← skipUnknown len len i
        pure (i, s)
    else do
      let i ← skipUnknown len len i
      pure (i, s)

end Entity

/-- The round inside a script or a style. -/
def hiddenRound (len : Nat) (mark : List UInt8) (i : Nat) (s : Page) : Look (Nat × Page) :=
  if i + mark.length < len then do
    let ended ← follows tolower i mark
    pure (if ended then (i + (mark.length - 1), { s with inScript := false, inStyle := false, inTag := true })
      else (i, s))
  else pure (i, s)

/-- One round of the loop with `i` below `len`: `i` before its increment, and the page. -/
def htmlRound (len i : Nat) (s : Page) : Look (Nat × Page) := do
  let ch ← char i
  if s.inScript ∨ s.inStyle then hiddenRound len (endMark (if s.inScript then scriptName else styleName)) i s
  else if s.inTag then pure (i, if ch = 62 then { s with inTag := false } else s)
  else if ch = 60 then do
    let (closing, tag) ← readTag len (i + 1)
    pure (i, s.open closing tag)
  else if ch = 38 then entityRound len i s
  else if ch = 10 ∨ ch = 13 ∨ ch = 9 ∨ ch = 32 then pure (i, if s.lastSpace then s else s.put 32 true)
  else if ch < 32 ∨ 126 < ch then pure (i, s)
  else pure (i, s.put ch false)

/-- The loop from `i` on. `i` grows in every round, so that `len` rounds are enough. -/
def htmlFrom (len : Nat) (outmax : Int) : Nat → Nat → Page → Look Page
  | 0, _, s => pure s
  | left + 1, i, s =>
    if i < len ∧ (s.out.length : Int) < outmax - 1 then do
      let (i, s) ← htmlRound len i s
      htmlFrom len outmax left (i + 1) s
    else pure s

/-- `html_render`: what it writes before the NUL. -/
def htmlRender (len : Nat) (outmax : Int) : Look (List UInt8) := do
  let s ← htmlFrom len outmax len 0 Page.blank
  pure s.out

/-! Reads and writes stay inside -/

section Inside
variable {len : Nat} (m : Buffer)

@[simp] theorem inside_char (i : Nat) : (char i).Inside len m ↔ i + 1 ≤ len := inside_field len m i 1 _

theorem follows_inside (norm : UInt8 → UInt8) : ∀ {text : List UInt8} {i : Nat}, i + text.length ≤ len →
    (follows norm i text).Inside len m := by
  intro text
  induction text with
  | nil => exact fun _ => (inside_pure len m true).mpr trivial
  | cons c text ih =>
      intro i room
      rw [List.length_cons] at room
      simp only [follows, inside_bind, inside_char, inside_ite, inside_pure]
      refine ⟨by omega, ?_⟩
      split_ifs
      exact ih (by omega)

theorem skipBlanks_inside : ∀ left j, (skipBlanks len left j).Inside len m := by
  intro left
  induction left with
  | zero => exact fun j => (inside_pure len m j).mpr trivial
  | succ left ih =>
      intro j
      simp only [skipBlanks, inside_ite, inside_bind, inside_char, inside_pure]
      split_ifs with below <;> simp only [ih, and_true] <;> omega

theorem readName_inside : ∀ room j, (readName len room j).Inside len m := by
  intro room
  induction room with
  | zero => exact fun j => (inside_pure len m []).mpr trivial
  | succ room ih =>
      intro j
      simp only [readName, inside_ite, inside_bind, inside_char, inside_pure, ih, and_true, ite_self]
      split_ifs
      omega

theorem readTag_inside (i : Nat) : (readTag len i).Inside len m := by
  simp only [readTag, inside_ite, inside_bind, inside_char, inside_pure, readName_inside, skipBlanks_inside,
    true_and, and_true, ite_self]
  split_ifs
  omega

theorem findEntity_inside (i : Nat) (table : List (List UInt8 × UInt8)) :
    (findEntity len i table).Inside len m := by
  induction table with
  | nil => exact (inside_pure len m none).mpr trivial
  | cons e rest ih =>
      simp only [findEntity, inside_ite, inside_bind, inside_pure, ih, ite_self, and_true]
      split_ifs with room
      exact follows_inside m id room

theorem readNumber_inside (base : Int) : ∀ left j val, (readNumber len base left j val).Inside len m := by
  intro left
  induction left with
  | zero => exact fun j val => (inside_pure len m (val, j)).mpr trivial
  | succ left ih =>
      intro j val
      simp only [readNumber, inside_ite, inside_bind, inside_char, inside_pure, ih, ite_self, and_true]
      split_ifs
      omega

theorem numericEntity_inside (i : Nat) (s : Page) : (numericEntity len i s).Inside len m := by
  simp only [numericEntity, inside_ite, inside_bind, inside_char, inside_pure, readNumber_inside, and_true]
  split_ifs
  omega

theorem skipUnknown_inside : ∀ left i, (skipUnknown len left i).Inside len m := by
  intro left
  induction left with
  | zero => exact fun i => (inside_pure len m i).mpr trivial
  | succ left ih =>
      intro i
      simp only [skipUnknown, inside_ite, inside_bind, inside_char, inside_pure, ih, ite_self, and_true]
      split_ifs
      omega

theorem entityRound_inside (i : Nat) (s : Page) : (entityRound len i s).Inside len m := by
  rw [entityRound, inside_bind]
  refine ⟨findEntity_inside m i ents, ?_⟩
  cases (findEntity len i ents m).1 with
  | some e => exact (inside_pure len m _).mpr trivial
  | none =>
      simp only [inside_ite, inside_bind, inside_char, inside_pure, numericEntity_inside, skipUnknown_inside,
        ite_self, and_true]
      split_ifs
      omega

theorem hiddenRound_inside (mark : List UInt8) (i : Nat) (s : Page) :
    (hiddenRound len mark i s).Inside len m := by
  simp only [hiddenRound, inside_ite, inside_bind, inside_pure, and_true]
  split_ifs with room
  exact follows_inside m tolower (Nat.le_of_lt room)

theorem htmlRound_inside {i : Nat} (below : i < len) (s : Page) : (htmlRound len i s).Inside len m := by
  simp only [htmlRound, inside_ite, inside_bind, inside_char, inside_pure, hiddenRound_inside, readTag_inside,
    entityRound_inside, and_true, ite_self]
  exact below

theorem htmlFrom_inside (outmax : Int) : ∀ left i s, (htmlFrom len outmax left i s).Inside len m := by
  intro left
  induction left with
  | zero => exact fun i s => (inside_pure len m s).mpr trivial
  | succ left ih =>
      intro i s
      simp only [htmlFrom, inside_ite, inside_bind, inside_pure]
      split_ifs with room
      exact ⟨htmlRound_inside m room.1 s, ih _ _⟩

end Inside

section Fits
variable (len : Nat) (m : Buffer)

theorem Page.open_length (s : Page) (closing : Bool) (tag : List UInt8) :
    (s.open closing tag).out.length ≤ s.out.length + 1 := by
  rw [Page.open]
  split_ifs
  · exact Nat.le_succ _
  · exact Nat.le_succ _
  · exact (List.length_append).le
  · exact Nat.le_succ _

theorem Page.put_length (s : Page) (c : UInt8) (space : Bool) : (s.put c space).out.length = s.out.length + 1 :=
  List.length_append

theorem entityRound_length (i : Nat) (s : Page) :
    ((entityRound len i s m).1.2).out.length ≤ s.out.length + 1 := by
  rw [entityRound, value_bind]
  cases (findEntity len i ents m).1 with
  | some e => exact (s.put_length e.2 _).le
  | none =>
      dsimp only
      simp only [value_ite, value_bind, value_pure, numericEntity]
      split_ifs <;> first | exact (s.put_length _ _).le | exact Nat.le_succ _

/-- A round writes a byte at most. -/
theorem htmlRound_length (i : Nat) (s : Page) : ((htmlRound len i s m).1.2).out.length ≤ s.out.length + 1 := by
  simp only [htmlRound, value_bind, value_ite, value_pure, hiddenRound]
  split_ifs <;> first
    | exact Nat.le_succ _
    | exact s.open_length _ _
    | exact entityRound_length len m i s
    | exact (s.put_length _ _).le

theorem htmlFrom_length {outmax : Int} : ∀ {left i : Nat} {s : Page}, (s.out.length : Int) ≤ outmax - 1 →
    ((htmlFrom len outmax left i s m).1.out.length : Int) ≤ outmax - 1 := by
  intro left
  induction left with
  | zero => exact fun low => low
  | succ left ih =>
      intro i s low
      simp only [htmlFrom, value_bind, value_ite, value_pure]
      split_ifs with room
      · have one := htmlRound_length len m i s
        exact ih (by omega)
      · exact low

end Fits

/-- Every byte that is read is one of the document, and what is written fits with its NUL. -/
theorem htmlRender_bounds (len : Nat) (outmax : Int) (m : Buffer) (some : 1 ≤ outmax) :
    (htmlRender len outmax).Inside len m ∧ ((htmlRender len outmax m).1.length : Int) + 1 ≤ outmax := by
  constructor
  · rw [htmlRender, inside_bind]
    exact ⟨htmlFrom_inside m outmax len 0 Page.blank, (inside_pure len m _).mpr trivial⟩
  · have low : ((htmlFrom len outmax len 0 Page.blank m).1.out.length : Int) ≤ outmax - 1 :=
      htmlFrom_length len m (by change ((0 : Nat) : Int) ≤ _; omega)
    rw [htmlRender, value_bind, value_pure]
    omega

end Zenbite.Web
