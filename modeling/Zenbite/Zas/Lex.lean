import Mathlib.Algebra.Ring.Nat
import Mathlib.Data.List.Basic
import Mathlib.Data.List.DropRight
import Mathlib.Tactic.Common

/-! The lexer of the assembler (zas.c). A cursor is what lies in zas_src from it on; its
bytes, and those behind the array, are read as NUL where the list is over. -/

namespace Zenbite.Zas

abbrev U32 := BitVec 32

abbrev Text := List UInt8

/-- A string constant. -/
def ascii (cs : List Char) : Text := cs.map fun c => c.toNat.toUInt8

inductive TokenType where
  | eof | newline | ident | number | string
  | comma | lbracket | rbracket | plus | minus
  | colon | star
  deriving DecidableEq

/-- `Token`; the text up to its NUL. -/
structure Token where
  type : TokenType
  text : Text
  num : U32
  deriving DecidableEq

/-- A token without text or number. -/
def Token.plain (type : TokenType) : Token := ⟨type, [], 0⟩

/-- `*lex_p`. -/
def cur (s : Text) : UInt8 := s.headD 0

def isBlank (c : UInt8) : Bool := c == 32 || c == 9 || c == 13

def isDigit (c : UInt8) : Bool := 48 ≤ c && c ≤ 57

def isAlpha (c : UInt8) : Bool := (97 ≤ c && c ≤ 122) || (65 ≤ c && c ≤ 90)

def isHexDigit (c : UInt8) : Bool := isDigit c || (97 ≤ c && c ≤ 102) || (65 ≤ c && c ≤ 70)

/-- What an identifier goes on with; a percent sign is none of it. -/
def isIdentChar (c : UInt8) : Bool := isAlpha c || isDigit c || c == 95 || c == 46

/-- What an identifier begins with. -/
def isIdentStart (c : UInt8) : Bool := isAlpha c || c == 95 || c == 46 || c == 37

def hexVal (c : UInt8) : Nat :=
  if isDigit c then c.toNat - 48 else if 97 ≤ c ∧ c ≤ 102 then c.toNat - 97 + 10 else c.toNat - 65 + 10

/-- `v*base + digit` along the digits. -/
def numberOf (base : Nat) (digits : Text) : U32 :=
  digits.foldl (fun v c => v * BitVec.ofNat 32 base + BitVec.ofNat 32 (hexVal c)) 0

def lexSkipWs (s : Text) : Text :=
  let s := s.dropWhile isBlank
  if cur s = 59 then s.dropWhile fun c => c != 0 && c != 10 else s

/-- What stands for a character behind a backslash. -/
def escape (c : UInt8) : UInt8 := if c = 110 then 10 else if c = 116 then 9 else if c = 48 then 0 else c

/-- The loop of a string literal that may still take `room` characters. A backslash takes
the byte behind it whatever that is. -/
def lexString : Nat → Text → Text × Text
  | 0, s => ([], s)
  | room + 1, s =>
    match s with
    | [] => ([], [])
    | c :: r =>
      if c = 0 ∨ c = 34 then ([], s)
      else if c = 92 then
        let (text, rest) := lexString room r.tail
        (escape (cur r) :: text, rest)
      else
        let (text, rest) := lexString room r
        (c :: text, rest)

/-- A string literal behind its opening quote. -/
def lexStringTok (s : Text) : Token × Text :=
  let (text, rest) := lexString 63 s
  (⟨.string, text.takeWhile (· ≠ 0), 0⟩, if cur rest = 34 then rest.tail else rest)

def lexNumberTok (s : Text) : Token × Text :=
  if cur s = 48 ∧ (cur s.tail = 120 ∨ cur s.tail = 88) then
    let digits := s.tail.tail
    (⟨.number, [], numberOf 16 (digits.takeWhile isHexDigit)⟩, digits.dropWhile isHexDigit)
  else (⟨.number, [], numberOf 10 (s.takeWhile isDigit)⟩, s.dropWhile isDigit)

def lexIdentTok (s : Text) : Token × Text :=
  let text := (s.takeWhile isIdentChar).take 63
  (⟨.ident, text, 0⟩, s.drop text.length)

/-- The characters that are tokens of their own. -/
def punct (c : UInt8) : Option TokenType :=
  if c = 10 then some .newline
  else if c = 44 then some .comma
  else if c = 91 then some .lbracket
  else if c = 93 then some .rbracket
  else if c = 43 then some .plus
  else if c = 45 then some .minus
  else if c = 58 then some .colon
  else if c = 42 then some .star
  else none

def lexNext (s : Text) : Token × Text :=
  let s := lexSkipWs s
  let c := cur s
  if c = 0 then (.plain .eof, s)
  else
    match punct c with
    | some type => (.plain type, s.tail)
    | none =>
      if c = 34 then lexStringTok s.tail
      else if isDigit c then lexNumberTok s
      else if isIdentStart c then lexIdentTok s
      else (⟨.ident, [63], 0⟩, s.tail)

end Zenbite.Zas
