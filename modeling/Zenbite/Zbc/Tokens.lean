import Mathlib.Data.List.TakeWhile
import Zenbite.Zbc.Ast

/-! The tokenizer of zbc.c. A source is the bytes of a C string from the cursor on, so the
list is over where the code reads the NUL. -/

namespace Zenbite.Zbc

def maxTokens : Nat := 512

def maxStrtab : Nat := 1024

/-- `enum tok`. -/
inductive TokenKind where
  | eof | int | ident | str
  | lpar | rpar | lbrace | rbrace | semi | comma
  | plus | minus | star | slash | pct
  | assign | plusEq | minusEq | starEq | slashEq
  | eq | neq | lt | gt | le | ge
  | and | or | not | band | bor | bxor | shl | shr
  | kwInt | kwVoid | kwIf | kwElse | kwWhile | kwReturn | kwBreak | kwCont | kwFor
  deriving DecidableEq

/-- `struct token`. For a string `text` is what strtab_add got, which the code keeps only in
the string table. -/
structure Token where
  kind : TokenKind
  ival : Word
  sval : Name
  strOff : Nat
  text : List UInt8
  deriving DecidableEq

/-- A token that is nothing but its kind. -/
def Token.plain (kind : TokenKind) : Token := ⟨kind, 0, [], 0, []⟩

def isSpace (c : UInt8) : Bool := c == 32 || c == 9 || c == 10 || c == 13

def isDigit (c : UInt8) : Bool := 48 ≤ c && c ≤ 57

def isAlpha (c : UInt8) : Bool := (97 ≤ c && c ≤ 122) || (65 ≤ c && c ≤ 90)

def isHexDigit (c : UInt8) : Bool := isDigit c || (97 ≤ c && c ≤ 102) || (65 ≤ c && c ≤ 70)

/-- What a word begins with. -/
def isWordStart (c : UInt8) : Bool := isAlpha c || c == 95

/-- What a word goes on with. -/
def isWordChar (c : UInt8) : Bool := isAlpha c || isDigit c || c == 95

def digitOf (c : UInt8) : Nat :=
  if isDigit c then c.toNat - 48 else if 97 ≤ c then c.toNat - 97 + 10 else c.toNat - 65 + 10

/-- `v * base + d` along the digits, in an int. -/
def numberOf (base : Nat) (digits : List UInt8) : Word :=
  digits.foldl (fun v c => v * BitVec.ofNat 32 base + BitVec.ofNat 32 (digitOf c)) 0

/-- `keywords`. -/
def keywords : List (Name × TokenKind) :=
  [([105, 110, 116], .kwInt), ([118, 111, 105, 100], .kwVoid), ([105, 102], .kwIf),
    ([101, 108, 115, 101], .kwElse), ([119, 104, 105, 108, 101], .kwWhile),
    ([114, 101, 116, 117, 114, 110], .kwReturn), ([98, 114, 101, 97, 107], .kwBreak),
    ([99, 111, 110, 116, 105, 110, 117, 101], .kwCont), ([102, 111, 114], .kwFor)]

/-- The first keyword of that spelling, else an identifier. -/
def wordKind (name : Name) : TokenKind :=
  ((keywords.find? (·.1 = name)).map (·.2)).getD .ident

/-- The loop into sval, with room for `n` more characters. -/
def readWord : Nat → List UInt8 → Name × List UInt8
  | 0, s => ([], s)
  | _ + 1, [] => ([], [])
  | n + 1, c :: s => if isWordChar c then ((c :: (readWord n s).1), (readWord n s).2) else ([], c :: s)

/-- The character behind a backslash. -/
def unescape (e : UInt8) : UInt8 :=
  if e = 110 then 10 else if e = 116 then 9 else if e = 114 then 13 else if e = 48 then 0 else e

/-- The loop into tmp, with room for `n` more characters. A backslash at the end of the
text stands for itself. -/
def readString : Nat → List UInt8 → List UInt8 × List UInt8
  | 0, s => ([], s)
  | n + 1, s =>
    match s with
    | [] => ([], [])
    | [c] => if c = 34 then ([], [c]) else ([c], [])
    | c :: e :: r =>
      if c = 34 then ([], c :: e :: r)
      else if c = 92 then (unescape e :: (readString n r).1, (readString n r).2)
      else (c :: (readString n (e :: r)).1, (readString n (e :: r)).2)

/-- `if (s[p] == '"') p++`. -/
def skipQuote (s : List UInt8) : List UInt8 := if s.head? = some 34 then s.tail else s

/-- A comment from behind its opening on, skipped; one without an end is the rest. -/
def skipComment : List UInt8 → List UInt8
  | [] => []
  | c :: s => if c = 42 ∧ s.head? = some 47 then s.tail else skipComment s

def skipLine (s : List UInt8) : List UInt8 := s.dropWhile (· ≠ 10)

/-- An operator that is longer when `next` stands behind it. -/
def orLonger (next : UInt8) (long short : TokenKind) (s : List UInt8) : TokenKind × List UInt8 :=
  if s.head? = some next then (long, s.tail) else (short, s)

/-- The switch over the punctuators. -/
def readPunct (c : UInt8) (s : List UInt8) : Option (TokenKind × List UInt8) :=
  if c = 40 then some (.lpar, s)
  else if c = 41 then some (.rpar, s)
  else if c = 123 then some (.lbrace, s)
  else if c = 125 then some (.rbrace, s)
  else if c = 59 then some (.semi, s)
  else if c = 44 then some (.comma, s)
  else if c = 43 then some (orLonger 61 .plusEq .plus s)
  else if c = 45 then some (orLonger 61 .minusEq .minus s)
  else if c = 42 then some (orLonger 61 .starEq .star s)
  else if c = 47 then some (orLonger 61 .slashEq .slash s)
  else if c = 37 then some (.pct, s)
  else if c = 61 then some (orLonger 61 .eq .assign s)
  else if c = 33 then some (orLonger 61 .neq .not s)
  else if c = 60 then some (if s.head? = some 61 then (.le, s.tail) else orLonger 60 .shl .lt s)
  else if c = 62 then some (if s.head? = some 61 then (.ge, s.tail) else orLonger 62 .shr .gt s)
  else if c = 38 then some (orLonger 38 .and .band s)
  else if c = 124 then some (orLonger 124 .or .bor s)
  else if c = 94 then some (.bxor, s)
  else none

/-- What one round of the loop does at `c`, with the text behind it. -/
inductive Round where
  | skip (rest : List UInt8)
  | token (t : Token) (rest : List UInt8)
  | string (text rest : List UInt8)
  | unexpected

def readNumber (c : UInt8) (s : List UInt8) : Token × List UInt8 :=
  if c = 48 ∧ (s.head? = some 120 ∨ s.head? = some 88) then
    ({ Token.plain .int with ival := numberOf 16 (s.tail.takeWhile isHexDigit) },
      s.tail.dropWhile isHexDigit)
  else
    ({ Token.plain .int with ival := numberOf 10 ((c :: s).takeWhile isDigit) },
      (c :: s).dropWhile isDigit)

def round (c : UInt8) (s : List UInt8) : Round :=
  if isSpace c then .skip s
  else if c = 47 ∧ s.head? = some 47 then .skip (skipLine (c :: s))
  else if c = 47 ∧ s.head? = some 42 then .skip (skipComment s.tail)
  else if c = 35 then .skip (skipLine (c :: s))
  else if isDigit c then .token (readNumber c s).1 (readNumber c s).2
  else if isWordStart c then
    let word := readWord 31 (c :: s)
    .token { Token.plain (wordKind word.1) with sval := word.1 } word.2
  else if c = 34 then .string (readString 255 s).1 (skipQuote (readString 255 s).2)
  else
    match readPunct c s with
    | some (kind, rest) => .token (Token.plain kind) rest
    | none => .unexpected

/-- The token array and the string table so far, and had_error. -/
structure Scan where
  toks : List Token
  strtab : List UInt8
  hadError : Bool
  deriving DecidableEq

def Scan.push (z : Scan) (t : Token) : Scan := { z with toks := z.toks ++ [t] }

/-- strtab_add, and the token with what it returned. -/
def Scan.addString (z : Scan) (text : List UInt8) : Scan :=
  if maxStrtab < z.strtab.length + text.length + 1 then
    { z with hadError := true }.push { Token.plain .str with text := text }
  else
    { z with strtab := z.strtab ++ text ++ [0] }.push
      { Token.plain .str with strOff := z.strtab.length, text := text }

/-- The loop of tokenize. A round takes at least one character, so the length of the text
is fuel enough. -/
def scan : Nat → List UInt8 → Scan → Option Scan
  | 0, _, z => some z
  | _ + 1, [], z => some z
  | n + 1, c :: s, z =>
    if z.toks.length < maxTokens - 1 then
      match round c s with
      | .skip rest => scan n rest z
      | .token t rest => scan n rest (z.push t)
      | .string text rest => scan n rest (z.addString text)
      | .unexpected => none
    else some z

/-- tokenize; `none` is its -1. -/
def tokenize (s : List UInt8) : Option Scan :=
  (scan s.length s ⟨[], [], false⟩).map fun z => z.push (Token.plain .eof)

/-- `int f(){}`. -/
example : (tokenize [105, 110, 116, 32, 102, 40, 41, 123, 125]).map (fun z => z.toks.map (·.kind)) =
    some [.kwInt, .ident, .lpar, .rpar, .lbrace, .rbrace, .eof] := by decide +kernel

end Zenbite.Zbc
