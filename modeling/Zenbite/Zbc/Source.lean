import Mathlib.Algebra.Ring.Nat
import Mathlib.Data.List.TakeDrop
import Mathlib.Data.List.TakeWhile
import Mathlib.Tactic.Common

/-! Reading and wrapping program text (zbc.c). -/

namespace Zenbite.Zbc

def maxSrc : Nat := 8 * 1024

/-- `ZBE_MAGIC`. -/
def zbeMagic : List UInt8 := [90, 66, 69, 33]

def zbeHeader : List UInt8 := zbeMagic ++ [0, 0, 0, 0]

/-- A file, and how many of its bytes stand before the first cluster that fails to
read: fs_read stops there. -/
structure File where
  bytes : List UInt8
  sound : Nat
  deriving DecidableEq

/-- The files by the names that their paths lead to. -/
abbrev Files (Path : Type) := Path → Option File

/-- fs_size returns the 32-bit size as an int. -/
def fsSize (f : File) : Int := (BitVec.ofNat 32 f.bytes.length).toInt

/-- A C string in a buffer ends before the first NUL. -/
def cString (bytes : List UInt8) : List UInt8 := bytes.takeWhile (· ≠ 0)

/-- The messages of read_source. -/
inductive SourceError (Path : Type) where
  | cannotOpen (path : Path)
  | tooBigOrEmpty
  deriving DecidableEq

variable {Path : Type}

/-- read_source into a buffer of `max` bytes: the text that is left in it. On an open
handle fs_read returns no error, only fewer bytes. -/
def readSource (files : Files Path) (path : Path) (max : Nat) : Except (SourceError Path) (List UInt8) :=
  match files path with
  | none => .error (.cannotOpen path)
  | some f =>
    if fsSize f ≤ 0 ∨ (max : Int) ≤ fsSize f then .error .tooBigOrEmpty
    else
      let buf := (f.bytes.take f.sound).take (fsSize f).toNat
      if 8 ≤ buf.length ∧ buf.take 4 = zbeMagic then .ok (cString (buf.drop 8)) else .ok (cString buf)

/-- What the volume grants to zbc_compile: whether fs_create and fs_open of the new
file succeed, the clusters that it can still get, and how many of them read back. -/
structure Grant where
  created : Bool
  opened : Bool
  secPerCluster : Nat
  positive : 0 < secPerCluster
  free : Nat
  good : Nat

/-- The bytes of `n` clusters. -/
def Grant.span (v : Grant) (n : Nat) : Nat := n * (v.secPerCluster * 512)

/-- The bytes that the new file can hold. -/
def Grant.room (v : Grant) : Nat := v.span v.free

/-- The new file, empty. -/
def Grant.fresh (v : Grant) : File := ⟨[], v.span v.good⟩

/-- fs_write at the end of the new file: what does not fit is not written. -/
def Grant.write (v : Grant) (data : List UInt8) (f : File) : File :=
  { f with bytes := f.bytes ++ data.take (v.room - f.bytes.length) }

variable [DecidableEq Path]

/-- zbc_compile; the results of its two fs_write calls are not looked at. -/
def zbcCompile (v : Grant) (src out : Path) (files : Files Path) : Int × Files Path :=
  match readSource files src maxSrc with
  | .error _ => (-1, files)
  | .ok text =>
    let gone := Function.update files out none
    if ¬ v.created then (-1, gone)
    else if ¬ v.opened then (-1, Function.update files out (some v.fresh))
    else (0, Function.update files out (some (v.write text (v.write zbeHeader v.fresh))))

/-- zbc_run: `exec` stands for what it does with the text. -/
def zbcRun {ρ : Type} (exec : List UInt8 → ρ) (files : Files Path) (path : Path) :
    Except (SourceError Path) ρ := (readSource files path maxSrc).map exec

/-- Running `out` does what running `src` did, whatever the text does. -/
def RunsSame (files files' : Files Path) (src out : Path) : Prop :=
  ∀ (ρ : Type) (exec : List UInt8 → ρ), zbcRun exec files' out = zbcRun exec files src

/-- The text comes back through the wrapper: header and text fit into the buffer and
onto the volume, and the new file can be read to its end. -/
def Wraps (v : Grant) (text : List UInt8) : Prop :=
  8 + text.length < maxSrc ∧ 8 + text.length ≤ v.room ∧
    (8 + text.length ≤ v.span v.good ∨ text = [])

theorem fsSize_small {f : File} (small : f.bytes.length < 2 ^ 31) : fsSize f = f.bytes.length := by
  rw [fsSize, BitVec.toInt_eq_toNat_cond, BitVec.toNat_ofNat, Nat.mod_eq_of_lt (by omega), if_pos (by omega)]

theorem cString_clean {bytes : List UInt8} : ∀ x ∈ cString bytes, x ≠ 0 := by
  intro x member
  rw [cString] at member
  have kept := List.mem_takeWhile_imp member
  exact of_decide_eq_true kept

theorem cString_same {text : List UInt8} (clean : ∀ x ∈ text, x ≠ 0) : cString text = text :=
  List.takeWhile_eq_self_iff.mpr fun x member => decide_eq_true (clean x member)

theorem cString_length (bytes : List UInt8) : (cString bytes).length ≤ bytes.length :=
  (List.takeWhile_sublist _).length_le

omit [DecidableEq Path] in
/-- The text is shorter than the buffer and holds no NUL. -/
theorem readSource_text {files : Files Path} {path : Path} {max : Nat} {text : List UInt8}
    (read : readSource files path max = .ok text) : text.length < max ∧ ∀ x ∈ text, x ≠ 0 := by
  rw [readSource] at read
  split at read
  · exact nomatch read
  split at read
  · exact nomatch read
  next f _ fits =>
    dsimp only at read
    have short : ((f.bytes.take f.sound).take (fsSize f).toNat).length < max := by
      rw [List.length_take]
      omega
    split at read
    · obtain rfl := Except.ok.inj read
      refine ⟨(cString_length _).trans_lt ?_, cString_clean⟩
      rw [List.length_drop]
      omega
    · obtain rfl := Except.ok.inj read
      exact ⟨(cString_length _).trans_lt short, cString_clean⟩

omit [DecidableEq Path] in
/-- A file that is small enough to be read. -/
theorem readSource_small {files : Files Path} {path : Path} {f : File} {max : Nat} (there : files path = some f)
    (some_ : f.bytes ≠ []) (fits : f.bytes.length < max) (small : f.bytes.length < 2 ^ 31) :
    readSource files path max = .ok
      (let buf := f.bytes.take f.sound
       if 8 ≤ buf.length ∧ buf.take 4 = zbeMagic then cString (buf.drop 8) else cString buf) := by
  have size := fsSize_small small
  have positive := List.length_pos_iff.mpr some_
  have all : (f.bytes.take f.sound).take (fsSize f).toNat = f.bytes.take f.sound := by
    rw [size, Int.toNat_natCast, List.take_eq_self_iff, List.length_take]
    exact Nat.min_le_right _ _
  simp only [readSource, there, all]
  rw [if_neg (by omega)]
  split <;> rfl

/-- What zbc_compile leaves when it succeeds. -/
theorem zbcCompile_done {v : Grant} {src out : Path} {files files' : Files Path}
    (done : zbcCompile v src out files = (0, files')) :
    ∃ text, readSource files src maxSrc = .ok text ∧
      files' out = some (v.write text (v.write zbeHeader v.fresh)) := by
  rw [zbcCompile] at done
  split at done
  · exact nomatch done
  next text read =>
    dsimp only at done
    split at done
    · exact nomatch done
    split at done
    · exact nomatch done
    obtain ⟨-, rfl⟩ := Prod.mk.inj done
    exact ⟨text, read, Function.update_self ..⟩

omit [DecidableEq Path] in
theorem runsSame_iff {files files' : Files Path} {src out : Path} :
    RunsSame files files' src out ↔ readSource files' out maxSrc = readSource files src maxSrc := by
  constructor
  · intro same
    have text := same _ id
    simpa only [zbcRun, Except.map_id, id_eq] using text
  · intro same ρ exec
    rw [zbcRun, zbcRun, same]

/-- A cluster holds the header. -/
theorem Grant.span_pos (v : Grant) {n : Nat} (some_ : n ≠ 0) : 8 ≤ v.span n := by
  have cluster : 1 * 1 ≤ n * v.secPerCluster := Nat.mul_le_mul (Nat.pos_of_ne_zero some_) v.positive
  rw [Grant.span, ← Nat.mul_assoc]
  omega

/-- The wrapped text: the header, and as much of the text as fits. -/
theorem written_bytes {v : Grant} (some_ : v.free ≠ 0) (text : List UInt8) :
    v.write text (v.write zbeHeader v.fresh) =
      ⟨zbeHeader ++ text.take (v.room - 8), v.span v.good⟩ := by
  have room : 8 ≤ v.room := v.span_pos some_
  have header : zbeHeader.take (v.room - ([] : List UInt8).length) = zbeHeader := List.take_of_length_le room
  simp only [Grant.write, Grant.fresh, header, List.nil_append]
  rfl

theorem written_nothing {v : Grant} (none_ : v.free = 0) (text : List UInt8) :
    v.write text (v.write zbeHeader v.fresh) = v.fresh := by
  simp [Grant.write, Grant.room, Grant.span, Grant.fresh, none_]

omit [DecidableEq Path] in
/-- Which texts come back. -/
theorem wrapped_back_iff {v : Grant} {src out : Path} {files files' : Files Path} {text : List UInt8}
    (read : readSource files src maxSrc = .ok text)
    (there : files' out = some (v.write text (v.write zbeHeader v.fresh))) :
    readSource files' out maxSrc = .ok text ↔ Wraps v text := by
  obtain ⟨short, clean⟩ := readSource_text read
  have limit : maxSrc = 8192 := rfl
  rw [Wraps]
  by_cases none_ : v.free = 0
  · rw [written_nothing none_] at there
    have failed : readSource files' out maxSrc = .error .tooBigOrEmpty := by
      simp only [readSource, there]
      rfl
    rw [failed]
    refine ⟨nofun, fun wraps => ?_⟩
    have room := wraps.2.1
    rw [Grant.room, Grant.span, none_] at room
    omega
  have room : 8 ≤ v.room := v.span_pos none_
  rw [written_bytes none_] at there
  have length : (zbeHeader ++ text.take (v.room - 8)).length = 8 + min (v.room - 8) text.length := by
    rw [List.length_append, List.length_take]
    rfl
  by_cases big : maxSrc ≤ 8 + min (v.room - 8) text.length
  · have failed : readSource files' out maxSrc = .error .tooBigOrEmpty := by
      simp only [readSource, there]
      rw [if_pos (Or.inr ?_)]
      rw [fsSize_small (by rw [length]; omega), length]
      omega
    rw [failed]
    exact ⟨nofun, fun wraps => by omega⟩
  rw [readSource_small there nofun (by dsimp only; omega) (by dsimp only; omega)]
  by_cases bad : v.good = 0
  · -- nothing reads back: the text is empty
    have nothing : v.span v.good = 0 := by rw [bad, Grant.span, Nat.zero_mul]
    rw [nothing]
    change Except.ok [] = Except.ok text ↔ _
    rw [Except.ok.injEq]
    constructor
    · rintro rfl
      exact ⟨by decide, room, .inr rfl⟩
    · rintro ⟨-, -, past | rfl⟩
      · omega
      · rfl
  · have good : 8 ≤ v.span v.good := v.span_pos bad
    have front : (zbeHeader ++ text.take (v.room - 8)).take (v.span v.good) =
        zbeHeader ++ text.take (min (v.span v.good - 8) (v.room - 8)) := by
      rw [List.take_append, List.take_of_length_le (by exact good), List.take_take]
      rfl
    have header : 8 ≤ (zbeHeader ++ text.take (min (v.span v.good - 8) (v.room - 8))).length ∧
        (zbeHeader ++ text.take (min (v.span v.good - 8) (v.room - 8))).take 4 = zbeMagic := by
      refine ⟨?_, rfl⟩
      rw [List.length_append]
      exact Nat.le_add_right 8 _
    simp only [front, if_pos header]
    change Except.ok (cString (text.take _)) = Except.ok text ↔ _
    rw [cString_same fun x member => clean x (List.mem_of_mem_take member), Except.ok.injEq,
      List.take_eq_self_iff]
    constructor
    · intro fits
      exact ⟨by omega, by omega, .inl (by omega)⟩
    · rintro ⟨-, fits, back | rfl⟩
      · omega
      · exact Nat.zero_le _

/-- Compiling and running is running exactly when the wrapped text comes back. -/
theorem compiled_runs_same_iff {v : Grant} {src out : Path} {files files' : Files Path}
    (done : zbcCompile v src out files = (0, files')) :
    RunsSame files files' src out ↔ ∃ text, readSource files src maxSrc = .ok text ∧ Wraps v text := by
  obtain ⟨text, read, there⟩ := zbcCompile_done done
  rw [runsSame_iff, read, wrapped_back_iff read there]
  constructor
  · exact fun wraps => ⟨text, rfl, wraps⟩
  · rintro ⟨_, same, wraps⟩
    exact Except.ok.inj same ▸ wraps

/-- A volume with room for both, and the source under the name `false`. -/
def sampleGrant : Grant := ⟨true, true, 1, Nat.one_pos, 17, 17⟩

def sampleFiles (text : List UInt8) : Files Bool := fun path => if path then none else some ⟨text, 8192⟩

/-- `int main(){}` runs as before. -/
theorem compiled_runs_same_brief :
    RunsSame (sampleFiles [105, 110, 116, 32, 109, 97, 105, 110, 40, 41, 123, 125])
      (zbcCompile sampleGrant false true
        (sampleFiles [105, 110, 116, 32, 109, 97, 105, 110, 40, 41, 123, 125])).2 false true := by
  have done : zbcCompile sampleGrant false true
      (sampleFiles [105, 110, 116, 32, 109, 97, 105, 110, 40, 41, 123, 125]) = (0, _) := rfl
  have wraps : Wraps sampleGrant [105, 110, 116, 32, 109, 97, 105, 110, 40, 41, 123, 125] :=
    ⟨by decide, by decide, .inl (by decide)⟩
  exact (compiled_runs_same_iff done).mpr ⟨_, rfl, wraps⟩

/-- 8184 blanks fit into the buffer, but not with the header before them. -/
theorem longest_source_lost :
    (zbcCompile sampleGrant false true (sampleFiles (List.replicate 8184 32))).1 = 0 ∧
      ¬ RunsSame (sampleFiles (List.replicate 8184 32))
        (zbcCompile sampleGrant false true (sampleFiles (List.replicate 8184 32))).2 false true := by
  have length : (List.replicate 8184 (32 : UInt8)).length = 8184 := List.length_replicate
  have blank : ∀ x ∈ List.replicate 8184 (32 : UInt8), x ≠ 0 := fun x member =>
    List.eq_of_mem_replicate member ▸ by decide
  have plain : (List.replicate 8184 (32 : UInt8)).take 4 ≠ zbeMagic := nofun
  generalize List.replicate 8184 (32 : UInt8) = text at length blank plain
  have limit : maxSrc = 8192 := rfl
  have read : readSource (sampleFiles text) false maxSrc = .ok text := by
    have there : sampleFiles text false = some ⟨text, 8192⟩ := rfl
    have fits : text.length < maxSrc := by omega
    have some_ : text ≠ [] := List.ne_nil_of_length_pos (by omega)
    have all : text.take 8192 = text := List.take_of_length_le (by omega)
    simp only [readSource_small there some_ fits (by dsimp only; omega), all]
    rw [if_neg fun header => plain header.2, cString_same blank]
  have done : (zbcCompile sampleGrant false true (sampleFiles text)).1 = 0 := by
    simp only [zbcCompile, read]
    rfl
  refine ⟨done, fun same => ?_⟩
  obtain ⟨_, again, there⟩ := zbcCompile_done (Prod.ext done rfl)
  obtain rfl := Except.ok.inj (read.symm.trans again)
  have back := (runsSame_iff.mp same).trans read
  have wraps := ((wrapped_back_iff read there).mp back).1
  omega

end Zenbite.Zbc
