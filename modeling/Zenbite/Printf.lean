import Mathlib.Data.List.GetD
import Zenbite.CString
import Zenbite.Lib.Memory
import Zenbite.Zbc.Ast

/-! ksnprintf (libk/printf.c), against what a format and its arguments stand for. -/

namespace Zenbite.Printf

open Memory (Buffer poke)
open Zbc (emitUint)

/-- `struct sink` with a buffer behind it. -/
structure Sink where
  buf : Buffer
  cap : Nat
  pos : Nat

namespace Sink

/-- sink_put -/
def put (s : Sink) (c : UInt8) : Sink :=
  if s.pos + 1 < s.cap then { s with buf := Function.update s.buf s.pos c, pos := s.pos + 1 }
  else if s.pos < s.cap then { s with buf := Function.update s.buf s.pos 0 }
  else s

/-- A loop of sink_put. -/
def puts (s : Sink) (text : List UInt8) : Sink := text.foldl put s

/-- `while (pad-- > 0) sink_put(s, c);` -/
def fill (s : Sink) (c : UInt8) (pad : Int) : Sink := s.puts (List.replicate pad.toNat c)

/-- emit_str -/
def emitStr (s : Sink) (str : List UInt8) (width : Int) (padZero left : Bool) : Sink :=
  let len := wrapInt str.length
  let pad := if len < width then width - len else 0
  let s := if left then s else s.fill (if padZero then 48 else 32) pad
  let s := s.puts str
  if left then s.fill 32 pad else s

end Sink

/-- `digits[d]` -/
def hexDigit (upper : Bool) (d : Nat) : UInt8 :=
  if d < 10 then UInt8.ofNat (48 + d) else UInt8.ofNat ((if upper then 55 else 87) + d)

/-- The loop of emit_uint, lowest digit first, with the room that is left in its buffer. -/
def digitLoop (base : Nat) (upper : Bool) : Nat → Nat → List UInt8
  | 0, _ => []
  | room + 1, v => if v = 0 then [] else hexDigit upper (v % base) :: digitLoop base upper room (v / base)

namespace Sink

/-- emit_uint -/
def emitUint (s : Sink) (v base : Nat) (upper : Bool) (width : Int) (padZero left : Bool) : Sink :=
  let buf := if v = 0 then [48] else digitLoop base upper 16 v
  s.emitStr buf.reverse width padZero left

/-- emit_int -/
def emitInt (s : Sink) (v : BitVec 32) (width : Int) (padZero left : Bool) : Sink :=
  if v.toInt < 0 then
    (s.put 45).emitUint (-v).toNat 10 false (if 0 < width then width - 1 else width) padZero left
  else s.emitUint v.toNat 10 false width padZero left

end Sink

/-- What va_arg finds; a string is what stands before its NUL, or there is none. -/
inductive Arg where
  | int (v : BitVec 32)
  | uint (v : BitVec 32)
  | ptr (v : BitVec 32)
  | str (chars : Option (List UInt8))

def isDigit (c : UInt8) : Bool := 48 ≤ c && c ≤ 57

structure Flags where
  left : Bool
  padZero : Bool
  width : Int

/-- The flags and the width behind a '%', and the rest of the format. -/
def parseFlags (fmt : List UInt8) : Flags × List UInt8 :=
  let left := fmt.head? = some 45
  let fmt := if left then fmt.drop 1 else fmt
  let padZero := fmt.head? = some 48
  let fmt := if padZero then fmt.drop 1 else fmt
  let width := (fmt.takeWhile isDigit).foldl (fun w c => wrapInt (w * 10 + (c.toNat - 48))) 0
  (⟨left, padZero, width⟩, fmt.dropWhile isDigit)

/-- The switch of vformat. It has no result where va_arg would find another type. -/
def conversion (flags : Flags) (c : UInt8) (args : List Arg) (s : Sink) : Option (Sink × List Arg) :=
  if c = 100 ∨ c = 105 then
    match args with
    | .int v :: args => some (s.emitInt v flags.width flags.padZero flags.left, args)
    | _ => none
  else if c = 117 then
    match args with
    | .uint v :: args => some (s.emitUint v.toNat 10 false flags.width flags.padZero flags.left, args)
    | _ => none
  else if c = 120 then
    match args with
    | .uint v :: args => some (s.emitUint v.toNat 16 false flags.width flags.padZero flags.left, args)
    | _ => none
  else if c = 88 then
    match args with
    | .uint v :: args => some (s.emitUint v.toNat 16 true flags.width flags.padZero flags.left, args)
    | _ => none
  else if c = 112 then
    match args with
    | .ptr v :: args => some (((s.put 48).put 120).emitUint v.toNat 16 false 8 true false, args)
    | _ => none
  else if c = 115 then
    match args with
    | .str chars :: args =>
      some (s.emitStr (chars.getD [40, 110, 117, 108, 108, 41]) flags.width false flags.left, args)
    | _ => none
  else if c = 99 then
    match args with
    | .int v :: args => some (s.put (UInt8.ofNat v.toNat), args)
    | _ => none
  else if c = 37 then some (s.put 37, args)
  else some ((s.put 37).put c, args)

theorem parseFlags_length (fmt : List UInt8) : (parseFlags fmt).2.length ≤ fmt.length := by
  have flag : ∀ (l : List UInt8) (c : UInt8), (if l.head? = some c then l.drop 1 else l).length ≤ l.length := by
    intro l c
    split
    · exact (List.drop_sublist 1 l).length_le
    · exact Nat.le_refl _
  exact ((List.dropWhile_sublist _).length_le.trans (flag _ 48)).trans (flag fmt 45)

/-- vformat; the format is what stands before its NUL. -/
def vformat (fmt : List UInt8) (args : List Arg) (s : Sink) : Option Sink :=
  match fmt with
  | [] => some s
  | c :: fmt =>
    if c ≠ 37 then vformat fmt args (s.put c)
    else
      let flags := parseFlags fmt
      (conversion flags.1 (flags.2.headD 0) args s).bind fun r => vformat (flags.2.drop 1) r.2 r.1
termination_by fmt.length
decreasing_by
  · exact Nat.lt_succ_self _
  · have shorter := parseFlags_length fmt
    rw [List.length_drop, List.length_cons]
    exact Nat.lt_succ_of_le (Nat.le_trans (Nat.sub_le _ _) shorter)

/-- ksnprintf: the memory from `buf` on behind it, and what it returns. -/
def ksnprintf (buf : Buffer) (n : Nat) (fmt : List UInt8) (args : List Arg) : Option (Buffer × Int) :=
  (vformat fmt args ⟨buf, n, 0⟩).map fun s =>
    let last := if s.pos < s.cap then s.pos else s.cap - 1
    (if 0 < s.cap then Function.update s.buf last 0 else s.buf, wrapInt s.pos)

/-! What a sink holds. -/

section Sinks
variable {s t : Sink} {buf : Buffer} {n : Nat} {text more : List UInt8}

theorem Sink.puts_append (s : Sink) (text more : List UInt8) : s.puts (text ++ more) = (s.puts text).puts more :=
  List.foldl_append

theorem Sink.fill_eq (s : Sink) (c : UInt8) (pad : Int) : s.fill c pad = s.puts (List.replicate pad.toNat c) := rfl

/-- After `text`: as much of it as fits before the NUL, and nothing behind that place. -/
structure Sink.Wrote (buf : Buffer) (n : Nat) (text : List UInt8) (s : Sink) : Prop where
  cap : s.cap = n
  pos : s.pos = min text.length (n - 1)
  inside : ∀ i < s.pos, s.buf i = text.getD i 0
  behind : ∀ i, s.pos < i → s.buf i = buf i

theorem Sink.Wrote.put (wrote : s.Wrote buf n text) (some_ : 0 < n) (c : UInt8) :
    (s.put c).Wrote buf n (text ++ [c]) := by
  have cap := wrote.cap
  have pos := wrote.pos
  rw [Sink.put]
  split
  next room =>
    have all : s.pos = text.length := by omega
    refine ⟨cap, ?_, ?_, ?_⟩
    · show s.pos + 1 = _
      rw [List.length_append]
      show _ = min (text.length + 1) (n - 1)
      omega
    · intro i low
      show Function.update s.buf s.pos c i = _
      by_cases last : i = s.pos
      · rw [last, Function.update_self, all, List.getD_eq_getElem?_getD, List.getElem?_concat_length]
        rfl
      · have before : i < s.pos := Nat.lt_of_le_of_ne (Nat.le_of_lt_succ low) last
        rw [Function.update_of_ne last, wrote.inside i before, List.getD_eq_getElem?_getD,
          List.getD_eq_getElem?_getD, List.getElem?_append_left (by omega)]
    · intro i high
      have after : s.pos + 1 < i := high
      show Function.update s.buf s.pos c i = _
      rw [Function.update_of_ne (by omega), wrote.behind i (by omega)]
  next full =>
    have at_ : s.pos < s.cap := by omega
    rw [if_pos at_]
    refine ⟨cap, ?_, ?_, ?_⟩
    · rw [List.length_append]
      show s.pos = min (text.length + 1) (n - 1)
      omega
    · intro i low
      have before : i < s.pos := low
      show Function.update s.buf s.pos 0 i = _
      rw [Function.update_of_ne (by omega), wrote.inside i before, List.getD_eq_getElem?_getD,
        List.getD_eq_getElem?_getD, List.getElem?_append_left (by omega)]
    · intro i high
      have after : s.pos < i := high
      show Function.update s.buf s.pos 0 i = _
      rw [Function.update_of_ne (by omega), wrote.behind i after]

theorem Sink.Wrote.puts (wrote : s.Wrote buf n text) (some_ : 0 < n) (more : List UInt8) :
    (s.puts more).Wrote buf n (text ++ more) := by
  induction more generalizing s text with
  | nil =>
      rw [List.append_nil]
      exact wrote
  | cons c more ih =>
      have next := ih (wrote.put some_ c)
      rwa [List.append_assoc] at next

theorem Sink.Wrote.start (buf : Buffer) (n : Nat) : Sink.Wrote buf n [] ⟨buf, n, 0⟩ :=
  ⟨rfl, (Nat.zero_min _).symm, fun i low => absurd low (Nat.not_lt_zero i), fun _ _ => rfl⟩

/-- The NUL at the end. -/
theorem Sink.Wrote.closed (wrote : s.Wrote buf n text) (some_ : 0 < n) :
    Function.update s.buf (if s.pos < s.cap then s.pos else s.cap - 1) 0 =
      poke buf 0 (text.take (n - 1) ++ [0]) := by
  have cap := wrote.cap
  have pos := wrote.pos
  have length : (text.take (n - 1)).length = s.pos := by
    rw [List.length_take, Nat.min_comm, pos]
  rw [if_pos (by omega)]
  funext i
  rcases Nat.lt_trichotomy i s.pos with before | here | after
  · have at_ : poke buf 0 (text.take (n - 1) ++ [0]) i = _ := Memory.poke_start buf
      (by rw [List.length_append, length]; omega)
    rw [Function.update_of_ne (by omega), wrote.inside i before, at_, List.getD_eq_getElem?_getD,
      List.getD_eq_getElem?_getD, List.getElem?_append_left (by omega), List.getElem?_take_of_lt (by omega)]
  · have at_ : poke buf 0 (text.take (n - 1) ++ [0]) i = _ := Memory.poke_start buf
      (by rw [List.length_append, length, here]; exact Nat.lt_succ_self _)
    rw [at_, here, Function.update_self, ← length, List.getD_eq_getElem?_getD, List.getElem?_concat_length]
    rfl
  · rw [Function.update_of_ne (by omega), wrote.behind i after]
    refine (Memory.splice_outside buf _ (.inr ?_)).symm
    rw [List.length_append, length]
    show 0 + (s.pos + 1) ≤ i
    omega

end Sinks

/-! Formats, with the arguments that match them. -/

/-- The value of a run of digits. -/
def numeral (digits : List UInt8) : Nat := digits.foldl (fun n c => n * 10 + (c.toNat - 48)) 0

/-- What stands between a '%' and its letter. Without the flag '0' the width does not
start with one; it is an int. -/
structure Spec where
  left : Bool
  zero : Bool
  width : List UInt8
  digits : ∀ c ∈ width, isDigit c = true
  lead : zero = false → width.head? ≠ some 48
  small : numeral width < 2 ^ 31

def Spec.text (spec : Spec) : List UInt8 :=
  (if spec.left then [45] else []) ++ ((if spec.zero then [48] else []) ++ spec.width)

def Spec.value (spec : Spec) : Nat := numeral spec.width

/-- A string whose length an int can hold. -/
abbrev Str := { s : CString // s.chars.length < 2 ^ 31 }

/-- A conversion with its argument: `%d` or `%i`, `%u`, `%x` or `%X`, `%p`, `%s`, `%c`, `%%`. -/
inductive Conv where
  | int (i : Bool) (v : BitVec 32)
  | uint (v : BitVec 32)
  | hex (upper : Bool) (v : BitVec 32)
  | ptr (v : BitVec 32)
  | str (s : Option Str)
  | char (v : BitVec 32)
  | percent

def Conv.letter : Conv → UInt8
  | .int i _ => if i then 105 else 100
  | .uint _ => 117
  | .hex upper _ => if upper then 88 else 120
  | .ptr _ => 112
  | .str _ => 115
  | .char _ => 99
  | .percent => 37

def Conv.args : Conv → List Arg
  | .int _ v => [.int v]
  | .uint v => [.uint v]
  | .hex _ v => [.uint v]
  | .ptr v => [.ptr v]
  | .str s => [.str (s.map (·.val.chars))]
  | .char v => [.int v]
  | .percent => []

/-- A character of the format that stands for itself, or a conversion. -/
inductive Piece where
  | plain (c : UInt8) (ordinary : c ≠ 0 ∧ c ≠ 37)
  | conv (spec : Spec) (c : Conv)

def Piece.text : Piece → List UInt8
  | .plain c _ => [c]
  | .conv spec c => 37 :: (spec.text ++ [c.letter])

def Piece.args : Piece → List Arg
  | .plain _ _ => []
  | .conv _ c => c.args

/-! The reference expansion. -/

/-- A value padded to the width: on the right with blanks, or with zeros behind the sign of
a number, or on the left with blanks. -/
def Spec.pad (spec : Spec) (number : Bool) (sign body : List UInt8) : List UInt8 :=
  let missing := spec.value - (sign.length + body.length)
  if spec.left then sign ++ body ++ List.replicate missing 32
  else if spec.zero ∧ number then sign ++ List.replicate missing 48 ++ body
  else List.replicate missing 32 ++ sign ++ body

def Conv.reference (spec : Spec) : Conv → List UInt8
  | .int _ v => spec.pad true (if v.toInt < 0 then [45] else []) (emitUint 10 v.toInt.natAbs)
  | .uint v => spec.pad true [] (emitUint 10 v.toNat)
  | .hex upper v =>
    spec.pad true [] (if upper then (emitUint 16 v.toNat).map toupper else emitUint 16 v.toNat)
  | .ptr v =>
    let digits := emitUint 16 v.toNat
    spec.pad false [] ([48, 120] ++ List.replicate (8 - digits.length) 48 ++ digits)
  | .str s => spec.pad false [] ((s.map (·.val.chars)).getD [40, 110, 117, 108, 108, 41])
  | .char v => spec.pad false [] [UInt8.ofNat v.toNat]
  | .percent => spec.pad false [] [37]

def Piece.reference : Piece → List UInt8
  | .plain c _ => [c]
  | .conv spec c => c.reference spec

/-- ksnprintf leaves the first `n - 1` characters of the text and a NUL in the buffer, and
nothing else has changed. -/
def Prints (buf : Buffer) (n : Nat) (result : Option (Buffer × Int)) (text : List UInt8) : Prop :=
  ∃ r, result = some r ∧ r.1 = poke buf 0 (text.take (n - 1) ++ [0])

/-- Where a conversion prints its reference: no negative number gets blanks between its sign
and its digits, and the conversions that ignore the width have none that counts. -/
def Conv.Kept (spec : Spec) : Conv → Prop
  | .int _ v => v.toInt < 0 → spec.left = false → spec.zero = false →
      spec.value ≤ (emitUint 10 v.toInt.natAbs).length + 1
  | .ptr _ => spec.value ≤ 10
  | .char _ | .percent => spec.value ≤ 1
  | _ => True

def Piece.Kept : Piece → Prop
  | .plain _ _ => True
  | .conv spec c => c.Kept spec

/-! What the code prints. -/

/-- Digits as emit_uint has them. -/
def digitText (base v : Nat) (upper : Bool) : List UInt8 :=
  if upper then (emitUint base v).map toupper else emitUint base v

theorem hexDigit_eq : ∀ (upper : Bool), ∀ d < 16, hexDigit upper d =
    if upper then toupper (Nat.digitChar d).toNat.toUInt8 else (Nat.digitChar d).toNat.toUInt8 := by
  decide

theorem digitText_step {base v : Nat} (upper : Bool) (low : 1 < base) (high : base ≤ 16) :
    digitText base v upper =
      (if v < base then [] else digitText base (v / base) upper) ++ [hexDigit upper (v % base)] := by
  have small : v % base < 16 := by
    have := Nat.mod_lt v (Nat.lt_trans Nat.zero_lt_one low)
    omega
  rw [hexDigit_eq upper _ small, digitText, digitText, emitUint, emitUint, Nat.toDigits_eq_if low]
  cases upper <;> by_cases less : v < base
  all_goals simp [less, Nat.mod_eq_of_lt]

theorem digitLoop_reverse {base : Nat} (upper : Bool) (low : 1 < base) (high : base ≤ 16) :
    ∀ {room v : Nat}, 0 < v → v < base ^ room →
      (digitLoop base upper room v).reverse = digitText base v upper := by
  intro room
  induction room with
  | zero => exact fun pos small => absurd small (by rw [Nat.pow_zero]; omega)
  | succ room ih =>
      intro v pos small
      rw [digitLoop, if_neg (by omega), List.reverse_cons, digitText_step upper low high]
      apply congrArg (· ++ [hexDigit upper (v % base)])
      by_cases last : v < base
      · rw [if_pos last, Nat.div_eq_of_lt last]
        cases room with
        | zero => rfl
        | succ room => rfl
      · rw [if_neg last]
        refine ih (Nat.div_pos (by omega) (by omega)) ?_
        rw [Nat.pow_succ] at small
        exact Nat.div_lt_of_lt_mul (by rwa [Nat.mul_comm])

theorem digitText_length {base v : Nat} (upper : Bool) (low : 1 < base) (small : v < base ^ 16) :
    (digitText base v upper).length ≤ 16 := by
  have length : (digitText base v upper).length = (emitUint base v).length := by
    rw [digitText]
    split
    · exact List.length_map _
    · rfl
  rw [length, emitUint, List.length_map, Nat.length_toDigits_le_iff low (by decide)]
  exact small

/-- What emit_str makes of a string. -/
def justified (str : List UInt8) (width : Nat) (padZero left : Bool) : List UInt8 :=
  let missing := width - str.length
  if left then str ++ List.replicate missing 32
  else List.replicate missing (if padZero then 48 else 32) ++ str

/-- What emit_int makes of a value. -/
def signed (v : BitVec 32) (width : Nat) (padZero left : Bool) : List UInt8 :=
  if v.toInt < 0 then 45 :: justified (emitUint 10 (-v).toNat) (width - 1) padZero left
  else justified (emitUint 10 v.toNat) width padZero left

def Conv.emitted (spec : Spec) : Conv → List UInt8
  | .int _ v => signed v spec.value spec.zero spec.left
  | .uint v => justified (emitUint 10 v.toNat) spec.value spec.zero spec.left
  | .hex upper v => justified (digitText 16 v.toNat upper) spec.value spec.zero spec.left
  | .ptr v => 48 :: 120 :: justified (emitUint 16 v.toNat) 8 true false
  | .str s =>
    justified ((s.map (·.val.chars)).getD [40, 110, 117, 108, 108, 41]) spec.value false spec.left
  | .char v => [UInt8.ofNat v.toNat]
  | .percent => [37]

def Piece.emitted : Piece → List UInt8
  | .plain c _ => [c]
  | .conv spec c => c.emitted spec

section Emit
variable (s : Sink)

theorem emitStr_puts {str : List UInt8} (short : str.length < 2 ^ 31) (width : Nat) (padZero left : Bool) :
    s.emitStr str width padZero left = s.puts (justified str width padZero left) := by
  have len : wrapInt (str.length : Int) = str.length := wrapInt_of_small (by omega) (by omega)
  have pad : (if (str.length : Int) < width then (width : Int) - str.length else 0).toNat =
      width - str.length := by
    split <;> omega
  rw [Sink.emitStr, len, Sink.fill_eq, Sink.fill_eq, pad, justified]
  cases left with
  | false => exact (Sink.puts_append s _ _).symm
  | true => exact (Sink.puts_append s _ _).symm

theorem emitUint_puts (v : BitVec 32) {base : Nat} (known : base = 10 ∨ base = 16) (upper : Bool)
    (width : Nat) (padZero left : Bool) : s.emitUint v.toNat base upper width padZero left =
      s.puts (justified (digitText base v.toNat upper) width padZero left) := by
  have low : 1 < base := by omega
  have high : base ≤ 16 := by omega
  have small : v.toNat < base ^ 16 := by
    have bound := v.isLt
    rcases known with rfl | rfl <;> omega
  have buf : (if v.toNat = 0 then [48] else digitLoop base upper 16 v.toNat).reverse =
      digitText base v.toNat upper := by
    by_cases zero : v.toNat = 0
    · rw [if_pos zero, zero]
      rcases known with rfl | rfl <;> cases upper <;> decide
    · rw [if_neg zero]
      exact digitLoop_reverse upper low high (Nat.pos_of_ne_zero zero) small
  have short := digitText_length upper low small
  rw [Sink.emitUint, buf]
  exact emitStr_puts s (by omega) width padZero left

theorem emitInt_puts (v : BitVec 32) (width : Nat) (padZero left : Bool) :
    s.emitInt v width padZero left = s.puts (signed v width padZero left) := by
  have less : (if (0 : Int) < width then (width : Int) - 1 else width) = (width - 1 : Nat) := by
    split <;> omega
  rw [Sink.emitInt, signed, less]
  split
  · exact emitUint_puts (s.put 45) (-v) (.inl rfl) false (width - 1) padZero left
  · exact emitUint_puts s v (.inl rfl) false width padZero left

/-- The flags of a conversion as the code has them. -/
def Spec.flags (spec : Spec) : Flags := ⟨spec.left, spec.zero, spec.value⟩

theorem conversion_puts (spec : Spec) (c : Conv) (args : List Arg) :
    conversion spec.flags c.letter (c.args ++ args) s = some (s.puts (c.emitted spec), args) := by
  cases c with
  | int i v =>
      have text := emitInt_puts s v spec.value spec.zero spec.left
      cases i with
      | false => exact congrArg (fun t => some (t, args)) text
      | true => exact congrArg (fun t => some (t, args)) text
  | uint v => exact congrArg (fun t => some (t, args)) (emitUint_puts s v (.inl rfl) false spec.value spec.zero spec.left)
  | hex upper v =>
      have text := emitUint_puts s v (.inr rfl) upper spec.value spec.zero spec.left
      cases upper with
      | false => exact congrArg (fun t => some (t, args)) text
      | true => exact congrArg (fun t => some (t, args)) text
  | ptr v => exact congrArg (fun t => some (t, args)) (emitUint_puts _ v (.inr rfl) false 8 true false)
  | str str =>
      have short : ((str.map (·.val.chars)).getD [40, 110, 117, 108, 108, 41]).length < 2 ^ 31 := by
        cases str with
        | none => decide
        | some str => exact str.property
      exact congrArg (fun t => some (t, args)) (emitStr_puts s short spec.value false spec.left)
  | char v => rfl
  | percent => rfl

end Emit

/-! The format. -/

theorem digit_range {c : UInt8} (digit : isDigit c = true) : 48 ≤ c.toNat ∧ c.toNat ≤ 57 := by
  rw [isDigit, Bool.and_eq_true, decide_eq_true_eq, decide_eq_true_eq, UInt8.le_iff_toNat_le,
    UInt8.le_iff_toNat_le] at digit
  exact digit

/-- The width does not wrap on the way. -/
theorem width_loop {digits : List UInt8} (all : ∀ c ∈ digits, isDigit c = true) : ∀ (w : Nat),
    w ≤ digits.foldl (fun n c => n * 10 + (c.toNat - 48)) w ∧
    (digits.foldl (fun n c => n * 10 + (c.toNat - 48)) w < 2 ^ 31 →
      digits.foldl (fun (w : Int) c => wrapInt (w * 10 + (c.toNat - 48))) w =
        (digits.foldl (fun n c => n * 10 + (c.toNat - 48)) w : Nat)) := by
  induction digits with
  | nil => exact fun w => ⟨Nat.le_refl w, fun _ => rfl⟩
  | cons c digits ih =>
      intro w
      have range := digit_range (all c List.mem_cons_self)
      obtain ⟨grows, same⟩ := ih (fun d member => all d (List.mem_cons_of_mem c member)) (w * 10 + (c.toNat - 48))
      rw [List.foldl_cons, List.foldl_cons]
      refine ⟨by omega, fun small => ?_⟩
      have next : wrapInt ((w : Int) * 10 + (c.toNat - 48)) = ((w * 10 + (c.toNat - 48) : Nat) : Int) := by
        rw [wrapInt_of_small (by omega) (by omega)]
        omega
      rw [next]
      exact same small

theorem Spec.width_eq (spec : Spec) :
    spec.width.foldl (fun (w : Int) c => wrapInt (w * 10 + (c.toNat - 48))) 0 = spec.value :=
  (width_loop spec.digits 0).2 spec.small

theorem parseFlags_text (spec : Spec) {c : UInt8} (letter : isDigit c = false) (dash : c ≠ 45)
    (rest : List UInt8) : parseFlags (spec.text ++ c :: rest) = (spec.flags, c :: rest) := by
  have zero : c ≠ 48 := fun same => by
    rw [same] at letter
    exact absurd letter (by decide)
  have taken : (spec.width ++ c :: rest).takeWhile isDigit = spec.width := by
    rw [List.takeWhile_append_of_pos spec.digits, List.takeWhile_cons, letter]
    exact List.append_nil _
  have dropped : (spec.width ++ c :: rest).dropWhile isDigit = c :: rest := by
    rw [List.dropWhile_append_of_pos spec.digits, List.dropWhile_cons, letter]
    rfl
  have ordinary : (spec.width ++ c :: rest).head? ≠ some 45 := by
    cases width : spec.width with
    | nil => exact fun same => dash (Option.some.inj same)
    | cons d digits =>
        intro same
        have digit := spec.digits d (width ▸ List.mem_cons_self)
        rw [Option.some.inj same] at digit
        exact absurd digit (by decide)
  have unflagged : spec.zero = false → (spec.width ++ c :: rest).head? ≠ some 48 := by
    intro none_
    have lead := spec.lead none_
    cases width : spec.width with
    | nil => exact fun same => zero (Option.some.inj same)
    | cons d digits =>
        rw [width] at lead
        exact lead
  have width := spec.width_eq
  rw [parseFlags, Spec.text, Spec.flags, List.append_assoc, List.append_assoc]
  generalize spec.width ++ c :: rest = tail at *
  cases left : spec.left with
  | true =>
      cases flag : spec.zero with
      | true => simp [taken, dropped, width]
      | false => simp [taken, dropped, width, unflagged flag]
  | false =>
      cases flag : spec.zero with
      | true => simp [taken, dropped, width]
      | false => simp [taken, dropped, width, ordinary, unflagged flag]

theorem Conv.letter_ordinary (c : Conv) : isDigit c.letter = false ∧ c.letter ≠ 45 := by
  have letters : ∀ d ∈ ([105, 100, 117, 88, 120, 112, 115, 99, 37] : List UInt8),
      isDigit d = false ∧ d ≠ 45 := by decide +kernel
  apply letters
  cases c with
  | int i v => cases i <;> simp [Conv.letter]
  | hex upper v => cases upper <;> simp [Conv.letter]
  | _ => simp [Conv.letter]

/-- What vformat prints. -/
theorem vformat_pieces (pieces : List Piece) (extra : List Arg) : ∀ s : Sink,
    vformat (pieces.flatMap Piece.text) (pieces.flatMap Piece.args ++ extra) s =
      some (s.puts (pieces.flatMap Piece.emitted)) := by
  induction pieces with
  | nil =>
      intro s
      rw [List.flatMap_nil, vformat]
      rfl
  | cons piece pieces ih =>
      intro s
      rw [List.flatMap_cons, List.flatMap_cons, List.flatMap_cons, Sink.puts_append]
      cases piece with
      | plain c ordinary =>
          show vformat (c :: _) _ s = _
          rw [vformat, if_pos ordinary.2]
          exact ih (s.put c)
      | conv spec c =>
          have letter := c.letter_ordinary
          have text : Piece.text (.conv spec c) ++ pieces.flatMap Piece.text =
              37 :: (spec.text ++ c.letter :: pieces.flatMap Piece.text) := by
            rw [Piece.text, List.cons_append, List.append_assoc]
            rfl
          rw [text, vformat, if_neg (fun other => other rfl), parseFlags_text spec letter.1 letter.2,
            List.append_assoc]
          dsimp only
          rw [List.headD_cons, Piece.args, conversion_puts]
          exact ih _

/-- What ksnprintf leaves in the buffer, and how much of it it says it wrote. -/
theorem ksnprintf_eq (pieces : List Piece) (extra : List Arg) (buf : Buffer) {n : Nat} (some_ : 0 < n) :
    ksnprintf buf n (pieces.flatMap Piece.text) (pieces.flatMap Piece.args ++ extra) =
      some (poke buf 0 ((pieces.flatMap Piece.emitted).take (n - 1) ++ [0]),
        wrapInt (min (pieces.flatMap Piece.emitted).length (n - 1) : Nat)) := by
  have wrote := (Sink.Wrote.start buf n).puts some_ (pieces.flatMap Piece.emitted)
  have closed := wrote.closed some_
  rw [ksnprintf, vformat_pieces]
  show some (if 0 < Sink.cap _ then _ else _, wrapInt (Sink.pos _ : Nat)) = _
  rw [if_pos (by rw [wrote.cap]; exact some_), closed, wrote.pos]
  rfl

theorem ksnprintf_prints (pieces : List Piece) (extra : List Arg) (buf : Buffer) {n : Nat} (some_ : 0 < n) :
    Prints buf n (ksnprintf buf n (pieces.flatMap Piece.text) (pieces.flatMap Piece.args ++ extra))
      (pieces.flatMap Piece.emitted) :=
  ⟨_, ksnprintf_eq pieces extra buf some_, rfl⟩

/-- The bytes that ksnprintf counts. -/
theorem printed_bytes (buf : Buffer) (text : List UInt8) (n : Nat) (small : n - 1 < 2 ^ 31) :
    (List.range (wrapInt (min text.length (n - 1) : Nat)).toNat).map
      (poke buf 0 (text.take (n - 1) ++ [0])) = text.take (n - 1) := by
  have count : (wrapInt (min text.length (n - 1) : Nat)).toNat = (text.take (n - 1)).length := by
    rw [wrapInt_of_small (by omega) (by omega), List.length_take]
    omega
  rw [count]
  refine List.ext_getElem (by rw [List.length_map, List.length_range]) fun i low high => ?_
  have at_ : poke buf 0 (text.take (n - 1) ++ [0]) i = _ := Memory.poke_start buf
    (by rw [List.length_append]; exact Nat.lt_succ_of_lt high)
  rw [List.getElem_map, List.getElem_range, at_, List.getD_eq_getElem?_getD,
    List.getElem?_append_left high, List.getElem?_eq_getElem high]
  rfl

/-! Formats without flags. -/

theorem justified_length (str : List UInt8) (width : Nat) (padZero left : Bool) :
    (justified str width padZero left).length = max width str.length := by
  rw [justified]
  cases left with
  | true =>
      rw [if_pos rfl, List.length_append, List.length_replicate]
      omega
  | false =>
      rw [if_neg Bool.false_ne_true, List.length_append, List.length_replicate]
      omega

/-- What ignores the width. -/
theorem justified_iff (str : List UInt8) (width : Nat) (padZero left : Bool) :
    str = justified str width padZero left ↔ width ≤ str.length := by
  constructor
  · intro same
    have length := congrArg List.length same
    rw [justified_length] at length
    omega
  · intro short
    rw [justified, Nat.sub_eq_zero_of_le short]
    cases left with
    | true => exact (List.append_nil str).symm
    | false => rfl

/-- Text that stands for itself. -/
def plains (text : List UInt8) (ordinary : ∀ c ∈ text, c ≠ 0 ∧ c ≠ 37) : List Piece :=
  text.attach.map fun c => .plain c.val (ordinary c.val c.property)

section Plain
variable {text : List UInt8} (ordinary : ∀ c ∈ text, c ≠ 0 ∧ c ≠ 37)

theorem plains_flatMap {f : Piece → List UInt8} (same : ∀ c h, f (.plain c h) = [c]) :
    (plains text ordinary).flatMap f = text := by
  rw [plains, List.flatMap_map]
  simp only [same]
  rw [← List.map_eq_flatMap]
  exact List.attach_map_subtype_val text

theorem plains_args : (plains text ordinary).flatMap Piece.args = [] := by
  rw [plains, List.flatMap_map]
  exact List.flatMap_eq_nil_iff.mpr fun _ _ => rfl

end Plain

theorem bare_lead : ([] : List UInt8).head? ≠ some 48 := Option.some_ne_none _ |>.symm

theorem bare_small : numeral [] < 2 ^ 31 := by decide

def Spec.bare : Spec :=
  ⟨false, false, [], fun _ none_ => absurd none_ List.not_mem_nil, fun _ => bare_lead, bare_small⟩

theorem justified_bare (str : List UInt8) : justified str Spec.bare.value false false = str :=
  ((justified_iff str 0 false false).mpr (Nat.zero_le _)).symm

/-! Where it is the reference. -/

/-- Without a sign the code pads as the reference does. -/
theorem Spec.pad_unsigned (spec : Spec) (number : Bool) (body : List UInt8) :
    spec.pad number [] body = justified body spec.value (spec.zero && number) spec.left := by
  rw [Spec.pad, justified]
  simp only [List.length_nil, Nat.zero_add, List.nil_append, List.append_nil, ← Bool.and_eq_true]
  split
  · rfl
  · split <;> rfl

theorem magnitude (v : BitVec 32) (negative : v.toInt < 0) : (-v).toNat = v.toInt.natAbs := by
  have bound := v.isLt
  rw [BitVec.toNat_neg]
  rw [BitVec.toInt_eq_toNat_cond] at negative ⊢
  split at negative
  · omega
  next high =>
    rw [if_neg high]
    omega

theorem magnitude_of_nonneg (v : BitVec 32) (nonneg : ¬ v.toInt < 0) : v.toNat = v.toInt.natAbs := by
  have bound := v.isLt
  rw [BitVec.toInt_eq_toNat_cond] at nonneg ⊢
  split at nonneg
  next low =>
    rw [if_pos low]
    omega
  · omega

/-- A negative number: the code writes the sign before anything else. -/
theorem Spec.signed_iff (spec : Spec) (body : List UInt8) :
    45 :: justified body (spec.value - 1) spec.zero spec.left = spec.pad true [45] body ↔
      (spec.left = false → spec.zero = false → spec.value ≤ body.length + 1) := by
  have missing : spec.value - 1 - body.length = spec.value - ([45].length + body.length) := by
    show _ = spec.value - (1 + body.length)
    omega
  rw [Spec.pad, justified, missing]
  cases left : spec.left with
  | true => exact iff_of_true rfl fun no => Bool.noConfusion no
  | false =>
      cases zero : spec.zero with
      | true => exact iff_of_true rfl fun _ no => Bool.noConfusion no
      | false =>
          have exact_ : spec.value ≤ body.length + 1 ↔ spec.value - ([45].length + body.length) = 0 := by
            show _ ↔ spec.value - (1 + body.length) = 0
            omega
          simp only [Bool.false_eq_true, false_and, if_false, forall_const, exact_]
          cases spec.value - ([45].length + body.length) with
          | zero => exact iff_of_true rfl rfl
          | succ k =>
              refine iff_of_false (fun same => ?_) (Nat.succ_ne_zero k)
              rw [List.replicate_succ] at same
              exact absurd (List.cons.inj same).1 (by decide)

/-- The text of a pointer. -/
theorem pointer_length (v : BitVec 32) :
    ([48, 120] ++ List.replicate (8 - (emitUint 16 v.toNat).length) 48 ++ emitUint 16 v.toNat).length = 10 := by
  have bound := v.isLt
  have short : (emitUint 16 v.toNat).length ≤ 8 := by
    rw [emitUint, List.length_map, Nat.length_toDigits_le_iff (by decide) (by decide)]
    exact bound
  rw [List.length_append, List.length_append, List.length_replicate]
  show 2 + _ + _ = 10
  omega

/-- A conversion: never longer than its reference, and the same exactly where it is kept. -/
theorem Conv.emitted_iff (spec : Spec) (c : Conv) :
    (c.emitted spec).length ≤ (c.reference spec).length ∧
      (c.emitted spec = c.reference spec ↔ c.Kept spec) := by
  cases c with
  | int i v =>
      rw [Conv.emitted, Conv.reference, Conv.Kept, signed]
      by_cases negative : v.toInt < 0
      · rw [if_pos negative, if_pos negative, magnitude v negative, spec.signed_iff, forall_prop_of_true negative]
        refine ⟨?_, Iff.rfl⟩
        rw [List.length_cons, justified_length, Spec.pad]
        split
        · simp only [List.length_append, List.length_replicate, List.length_cons, List.length_nil]
          omega
        · split <;>
          · simp only [List.length_append, List.length_replicate, List.length_cons, List.length_nil]
            omega
      · rw [if_neg negative, if_neg negative, magnitude_of_nonneg v negative, spec.pad_unsigned, Bool.and_true]
        exact ⟨Nat.le_refl _, iff_of_true rfl fun yes => absurd yes negative⟩
  | uint v =>
      rw [Conv.emitted, Conv.reference, spec.pad_unsigned, Bool.and_true]
      exact ⟨Nat.le_refl _, iff_of_true rfl trivial⟩
  | hex upper v =>
      rw [Conv.emitted, Conv.reference, spec.pad_unsigned, Bool.and_true]
      exact ⟨Nat.le_refl _, iff_of_true rfl trivial⟩
  | ptr v =>
      have length := pointer_length v
      rw [Conv.reference, spec.pad_unsigned, Bool.and_false]
      have text : Conv.emitted spec (.ptr v) =
          [48, 120] ++ List.replicate (8 - (emitUint 16 v.toNat).length) 48 ++ emitUint 16 v.toNat := rfl
      rw [text, justified_length, justified_iff, length]
      exact ⟨by omega, Iff.rfl⟩
  | str s =>
      rw [Conv.emitted, Conv.reference, spec.pad_unsigned, Bool.and_false]
      exact ⟨Nat.le_refl _, iff_of_true rfl trivial⟩
  | char v =>
      rw [Conv.emitted, Conv.reference, spec.pad_unsigned, justified_length, justified_iff]
      exact ⟨by omega, Iff.rfl⟩
  | percent =>
      rw [Conv.emitted, Conv.reference, spec.pad_unsigned, justified_length, justified_iff]
      exact ⟨by omega, Iff.rfl⟩

theorem Piece.emitted_iff (piece : Piece) : piece.emitted.length ≤ piece.reference.length ∧
    (piece.emitted = piece.reference ↔ piece.Kept) := by
  cases piece with
  | plain c ordinary => exact ⟨Nat.le_refl _, iff_of_true rfl trivial⟩
  | conv spec c => exact c.emitted_iff spec

/-- What is missing in one place shows in the length of the whole. -/
theorem expansion_iff (pieces : List Piece) :
    (pieces.flatMap Piece.emitted).length ≤ (pieces.flatMap Piece.reference).length ∧
      (pieces.flatMap Piece.emitted = pieces.flatMap Piece.reference ↔ ∀ piece ∈ pieces, piece.Kept) := by
  induction pieces with
  | nil => exact ⟨Nat.le_refl _, iff_of_true rfl fun _ none_ => absurd none_ List.not_mem_nil⟩
  | cons piece pieces ih =>
      have first := piece.emitted_iff
      rw [List.flatMap_cons, List.flatMap_cons, List.forall_mem_cons, ← first.2, ← ih.2]
      constructor
      · rw [List.length_append, List.length_append]
        exact Nat.add_le_add first.1 ih.1
      · constructor
        · intro same
          have length := congrArg List.length same
          rw [List.length_append, List.length_append] at length
          have shorter := ih.1
          have shorter' := first.1
          exact List.append_inj same (by omega)
        · exact fun both => congrArg₂ (· ++ ·) both.1 both.2

/-- A buffer that held no NUL tells two texts apart. -/
theorem poke_closed_inj {a b : List UInt8} (shorter : a.length ≤ b.length)
    (same : poke (fun _ => 1) 0 (a ++ [0]) = poke (fun _ => 1) 0 (b ++ [0])) : a = b := by
  have inside : ∀ (text : List UInt8) (i : Nat), i < text.length + 1 →
      poke (fun _ => 1) 0 (text ++ [0]) i = (text ++ [0]).getD i 0 := by
    intro text i low
    exact Memory.poke_start (fun _ => 1) (by rw [List.length_append]; exact low)
  have length : a.length = b.length := by
    refine Nat.le_antisymm shorter (Nat.le_of_not_lt fun less => ?_)
    have here := congrFun same b.length
    have nul : (b ++ [0]).getD b.length 0 = 0 := by
      rw [List.getD_eq_getElem?_getD, List.getElem?_concat_length]
      rfl
    rw [inside b b.length (Nat.lt_succ_self _), nul] at here
    have behind : poke (fun _ => 1) 0 (a ++ [0]) b.length = 1 := by
      refine Memory.splice_outside _ _ (.inr ?_)
      rw [List.length_append]
      show 0 + (a.length + 1) ≤ b.length
      omega
    rw [behind] at here
    exact absurd here (by decide)
  have whole : a ++ [0] = b ++ [0] := by
    refine List.ext_getElem (by rw [List.length_append, List.length_append, length]) fun i low high => ?_
    have here := congrFun same i
    rw [List.length_append] at low high
    rw [inside a i low, inside b i high, List.getD_eq_getElem _ _ (by rwa [List.length_append]),
      List.getD_eq_getElem _ _ (by rwa [List.length_append])] at here
    exact here
  exact List.append_cancel_right whole

/-- ksnprintf writes the reference expansion, cut to the buffer, exactly of the formats whose
conversions are all kept. -/
theorem ksnprintf_reference_iff (pieces : List Piece) (extra : List Arg) :
    (∀ n, 0 < n → ∀ buf, Prints buf n
      (ksnprintf buf n (pieces.flatMap Piece.text) (pieces.flatMap Piece.args ++ extra))
      (pieces.flatMap Piece.reference)) ↔ ∀ piece ∈ pieces, piece.Kept := by
  have printed := @ksnprintf_prints pieces extra
  obtain ⟨shorter, same⟩ := expansion_iff pieces
  rw [← same]
  constructor
  · intro all
    have some_ : 0 < (pieces.flatMap Piece.reference).length + 1 := Nat.succ_pos _
    obtain ⟨r, result, memory⟩ := all _ some_ fun _ => 1
    obtain ⟨r', result', memory'⟩ := printed (fun _ => 1) some_
    obtain rfl := Option.some.inj (result.symm.trans result')
    rw [memory, Nat.add_sub_cancel, List.take_of_length_le (Nat.le_refl _),
      List.take_of_length_le shorter] at memory'
    exact poke_closed_inj shorter memory'.symm
  · intro same n some_ buf
    rw [← same]
    exact printed buf some_

theorem five_digits : ∀ c ∈ ([53] : List UInt8), isDigit c = true := by decide +kernel

theorem five_lead : ([53] : List UInt8).head? ≠ some 48 := by decide

theorem five_small : numeral [53] < 2 ^ 31 := by decide

/-- What stands in "%5d". -/
def five : Spec := ⟨false, false, [53], five_digits, fun _ => five_lead, five_small⟩

/-- "%5d" of -42 gives "-  42". -/
theorem sign_before_blanks : ¬ ∀ (pieces : List Piece) (extra : List Arg) (n : Nat), 0 < n → ∀ buf,
    Prints buf n (ksnprintf buf n (pieces.flatMap Piece.text) (pieces.flatMap Piece.args ++ extra))
      (pieces.flatMap Piece.reference) := by
  intro claim
  obtain ⟨r, result, memory⟩ := claim [.conv five (.int false (-42))] [] 8 (by decide) fun _ => 0
  obtain ⟨r', result', memory'⟩ := ksnprintf_prints [.conv five (.int false (-42))] [] (fun _ => 0)
    (show 0 < 8 by decide)
  obtain rfl := Option.some.inj (result.symm.trans result')
  exact absurd (congrFun (memory.symm.trans memory') 0) (by decide)

end Zenbite.Printf
