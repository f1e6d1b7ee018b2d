import Zenbite.Zas.Calls

/-! Branches to labels of the text section (zas.c): the passes agree on the length of each
line, and so the displacement of a branch leads to its label. -/

namespace Zenbite.Zas

open Memory

/-- The opcode of a jump or call, by its mnemonic. -/
def branchCode (mne : Text) : Option (List UInt8) :=
  if sameNoCase mne (ascii ['j', 'm', 'p']) then some [0xE9]
  else if sameNoCase mne (ascii ['c', 'a', 'l', 'l']) then some [0xE8]
  else (opOf jccOps mne).map fun cc => [0x0F, cc]

/-- The opcode and the label of the next line, where that is a branch to a label. -/
def Asm.branchAt (k : Nat) (st : Asm) : Option (List UInt8 × Text) :=
  (Asm.skipNewlines k st).bind fun start =>
    if start.peek.type ≠ .eof ∧ isDirective start.peek.text = false ∧ start.lex.peek.type = .ident then
      (branchCode start.peek.text).map fun code => (code, start.lex.peek.text)
    else none

/-! The instructions are told apart without regard to case. -/

theorem opOf_same {α : Type} (ops : List (Text × α)) {mne word : Text} (same : sameNoCase mne word = true) :
    opOf ops mne = opOf ops word := by
  have equal : mne.map sameNoCase.lower = word.map sameNoCase.lower := beq_iff_eq.mp same
  have agree (o : Text × α) : sameNoCase mne o.1 = sameNoCase word o.1 := by rw [sameNoCase, equal, sameNoCase]
  rw [opOf, funext agree, opOf]

/-- The mnemonics of the branches. -/
def branchNames : List Text := [ascii ['j', 'm', 'p'], ascii ['c', 'a', 'l', 'l']] ++ jccOps.map (·.1)

theorem branchCode_name {mne : Text} {code : List UInt8} (branch : branchCode mne = some code) :
    ∃ word ∈ branchNames, sameNoCase mne word = true := by
  rw [branchCode] at branch
  split at branch
  next jmp => exact ⟨_, by decide, jmp⟩
  split at branch
  next call => exact ⟨_, by decide, call⟩
  obtain ⟨cc, found, -⟩ := Option.map_eq_some_iff.mp branch
  obtain ⟨op, member, -⟩ := Option.map_eq_some_iff.mp found
  have named : sameNoCase mne op.1 = true := List.find?_some (p := fun o : Text × UInt8 => sameNoCase mne o.1) member
  exact ⟨op.1, List.mem_append_right _ (List.mem_map_of_mem (List.mem_of_find?_eq_some member)), named⟩

/-- No other instruction has the mnemonic of a branch. -/
theorem branchNames_apart : ∀ word ∈ branchNames,
    opOf simpleOps word = none ∧ sameNoCase word (ascii ['i', 'n', 't']) = false ∧
      sameNoCase word (ascii ['p', 'u', 's', 'h']) = false ∧ opOf regOps word = none ∧ opOf unaryOps word = none ∧
      sameNoCase word (ascii ['x', 'c', 'h', 'g']) = false ∧ sameNoCase word (ascii ['m', 'o', 'v']) = false ∧
      sameNoCase word (ascii ['l', 'e', 'a']) = false ∧ opOf arithOps word = none := by
  decide

namespace Asm

variable {st st' : Asm} {k : Nat}

theorem instrLine_branch {pass : Pass} {mne : Text} {code : List UInt8} (branch : branchCode mne = some code)
    (ident : st.peek.type = .ident) :
    st.instrLine pass mne = st.lex.branchTo pass code st.peek.text ∧
      st.instrOps pass mne = .lex :: st.branchOps pass code st.peek.text := by
  obtain ⟨word, member, same⟩ := branchCode_name branch
  obtain ⟨simple, int, push, reg, unary, xchg, mov, lea, arith⟩ := branchNames_apart word member
  have equal : mne.map sameNoCase.lower = word.map sameNoCase.lower := beq_iff_eq.mp same
  have agree (name : Text) : sameNoCase mne name = sameNoCase word name := by rw [sameNoCase, equal, sameNoCase]
  have jmp : st.jmpLine pass = st.lex.branchTo pass [0xE9] st.peek.text ∧
      st.jmpOps pass = .lex :: st.branchOps pass [0xE9] st.peek.text := by
    rw [jmpLine, jmpOps, ident]
    exact ⟨rfl, rfl⟩
  have call : st.callLine pass = st.lex.branchTo pass [0xE8] st.peek.text ∧
      st.callOps pass = .lex :: st.branchOps pass [0xE8] st.peek.text := by
    rw [callLine, callOps, if_pos ident, if_pos ident]
    exact ⟨rfl, rfl⟩
  have jcc (cc : UInt8) : st.jccLine pass cc = st.lex.branchTo pass [0x0F, cc] st.peek.text ∧
      st.jccOpOps pass cc = .lex :: st.branchOps pass [0x0F, cc] st.peek.text := by
    rw [jccLine, jccOpOps, if_pos ident, if_pos ident]
    exact ⟨rfl, rfl⟩
  rw [instrLine, instrOps]
  simp only [agree, opOf_same _ same, simple, int, push, reg, unary, xchg, mov, lea, arith, Bool.false_eq_true, if_false]
  rw [branchCode] at branch
  simp only [agree, opOf_same _ same] at branch
  split at branch
  next isJmp =>
    obtain rfl := Option.some.inj branch
    rw [if_pos isJmp, if_pos isJmp]
    exact jmp
  next notJmp =>
  rw [if_neg notJmp, if_neg notJmp]
  split at branch
  next isCall =>
    obtain rfl := Option.some.inj branch
    rw [if_pos isCall, if_pos isCall]
    exact call
  next notCall =>
  rw [if_neg notCall, if_neg notCall]
  obtain ⟨cc, found, rfl⟩ := Option.map_eq_some_iff.mp branch
  rw [found]
  exact jcc cc

/-! The addresses of the labels. -/

theorem labelLine_other {name other : Text} (apart : other ≠ name) :
    (st.labelLine .one other).labelFind name = st.labelFind name := by
  have set (ls : List (Text × U32)) (addr : U32) :
      (labelDefine.setFirst other addr ls).find? (·.1 = name) = ls.find? (·.1 = name) := by
    induction ls with
    | nil => rfl
    | cons l ls ih =>
        rw [labelDefine.setFirst]
        split
        next same =>
          rw [List.find?_cons_of_neg (by simpa using apart), List.find?_cons_of_neg (by simpa [same] using apart)]
        next _ =>
          by_cases found : l.1 = name
          · rw [List.find?_cons_of_pos (by simpa using found), List.find?_cons_of_pos (by simpa using found)]
          · rw [List.find?_cons_of_neg (by simpa using found), List.find?_cons_of_neg (by simpa using found), ih]
  rw [labelFind, labelLine_labels, labelDefine]
  split
  · rw [set]
    rfl
  split
  · rfl
  · rw [List.find?_append, List.find?_cons_of_neg (by simpa using apart), List.find?_nil, Option.or_none]
    rfl

theorem Still.sameVma (still : Still st st') : st'.curVma = st.curVma := by
  rw [Still] at still
  rw [still, curVma, curVma]

/-- The first pass notes where a label is. -/
theorem labelled_find {more : Bool} {name : Text} (ran : st.assembleLine .one k = some (more, st'))
    (labelled : st.labelAt k = some name) (recorded : Along .one Recorded st (st.lineOps .one k)) :
    st'.labelFind name = some st.curVma := by
  obtain ⟨start, skipped, ran⟩ := Option.bind_eq_some_iff.mp ran
  have moved : Still st start := skipNewlines_still k skipped
  have address : start.lex.lex.curVma = st.curVma := moved.lex.lex.sameVma
  rw [labelAt, skipped, Option.bind_some] at labelled
  split at labelled
  next all =>
    obtain rfl := Option.some.inj labelled
    obtain ⟨present, plain, colon⟩ := all
    dsimp only at ran
    rw [if_neg present, if_pos ⟨plain, colon⟩] at ran
    obtain ⟨-, rfl⟩ := Prod.mk.inj (Option.some.inj ran)
    rw [lineOps, skipped] at recorded
    dsimp only at recorded
    rw [firstOps, if_neg present, if_pos ⟨plain, colon⟩] at recorded
    obtain ⟨-, -, noted, -⟩ := recorded
    have first : { st with lexP := start.lexP } = start := moved.symm
    rw [Op.run, Op.run, first] at noted
    rw [← address]
    exact noted _ rfl
  next _ => cases labelled

/-- A line without that label leaves it alone. -/
theorem unlabelled_find {more : Bool} {name : Text} (ran : st.assembleLine .one k = some (more, st'))
    (other : st.labelAt k ≠ some name) : st'.labelFind name = st.labelFind name := by
  cases labelled : st.labelAt k with
  | none => rw [labelFind, unlabelled_labels ran labelled, labelFind]
  | some found =>
      obtain ⟨start, skipped, cases⟩ := assembleLine_cases ran
      have first : start.labels = st.labels := (skipNewlines_emits k skipped).labels
      rcases cases with ⟨none, -⟩ | ⟨same, rfl⟩ | ⟨none, -⟩
      · rw [labelled] at none
        cases none
      · rw [same] at labelled other
        rw [labelLine_other fun equal => other (congrArg some equal), labelFind, lex_labels, first, labelFind]
      · rw [labelled] at none
        cases none

/-- What is carried out in a pass is carried out in its calls. -/
theorem calls_along {pass : Pass} {p : Asm → Op → Prop} {last : Asm} (n : Nat) : ∀ {st : Asm},
    lines k pass n st = some last → Along pass p st (linesOps k pass n st) →
    ∀ c ∈ calls k pass n st, Along pass p c.before (c.before.lineOps pass k) := by
  induction n with
  | zero =>
      intro st ran
      cases ran
  | succ n ih =>
      intro st ran along
      rw [lines] at ran
      rw [linesOps] at along
      split at ran
      next done =>
        rw [calls, if_pos done]
        exact fun c absent => absurd absent List.not_mem_nil
      next goes =>
      obtain ⟨⟨more, mid⟩, line, ran⟩ := Option.bind_eq_some_iff.mp ran
      rw [if_neg goes, line, along_append, ← assembleLine_ops line] at along
      rw [calls_cons goes line, List.forall_mem_cons]
      refine ⟨along.1, ?_⟩
      cases more with
      | false => exact fun c absent => absurd absent List.not_mem_nil
      | true => exact ih ran along.2

theorem calls_inside {pass : Pass} {last : Asm} (n : Nat) (ran : lines k pass n st = some last) (inside : st.outPos ≤ outMax) :
    ∀ c ∈ calls k pass n st, c.before.outPos ≤ outMax := by
  refine lines_induction (p := fun st cs => st.outPos ≤ outMax → ∀ c ∈ cs, c.before.outPos ≤ outMax)
    (fun _ c absent => absurd absent List.not_mem_nil) ?_ n ran inside
  intro st mid more rest _ line ih inside
  rw [assembleLine_ops line, runOps_outPos _ inside] at ih
  exact List.forall_mem_cons.mpr ⟨inside, ih (Nat.min_le_left _ _)⟩

/-- A label that is defined once has its address from then on. -/
theorem lines_find {last : Asm} {name : Text} (n : Nat) (ran : lines k .one n st = some last)
    (recorded : ∀ c ∈ calls k .one n st, Along .one Recorded c.before (c.before.lineOps .one k)) :
    (name ∉ definedBy k (calls k .one n st) → last.labelFind name = st.labelFind name) ∧
      ((definedBy k (calls k .one n st)).count name = 1 → ∀ c ∈ calls k .one n st, c.before.labelAt k = some name →
        last.labelFind name = some c.before.curVma) := by
  refine lines_induction (p := fun st cs =>
    (∀ c ∈ cs, Along .one Recorded c.before (c.before.lineOps .one k)) →
      (name ∉ definedBy k cs → last.labelFind name = st.labelFind name) ∧
        ((definedBy k cs).count name = 1 → ∀ c ∈ cs, c.before.labelAt k = some name →
          last.labelFind name = some c.before.curVma)) ?_ ?_ n ran recorded
  · exact fun _ => ⟨fun _ => rfl, fun _ c absent => absurd absent List.not_mem_nil⟩
  intro st mid more rest _ line ih recorded
  obtain ⟨here, behind⟩ := List.forall_mem_cons.mp recorded
  obtain ⟨kept, found⟩ := ih behind
  by_cases labelled : st.labelAt k = some name
  · have defines : definedBy k (⟨st, mid⟩ :: rest) = name :: definedBy k rest := List.filterMap_cons_some labelled
    rw [defines, List.count_cons_self]
    refine ⟨fun absent => absurd List.mem_cons_self absent, fun once => ?_⟩
    have absent : name ∉ definedBy k rest := List.count_eq_zero.mp (Nat.succ.inj once)
    rintro c member same
    rcases List.mem_cons.mp member with rfl | later
    · rw [kept absent]
      exact labelled_find line labelled here
    · exact absurd (List.mem_filterMap.mpr ⟨c, later, same⟩) absent
  · have same : mid.labelFind name = st.labelFind name := unlabelled_find line labelled
    have later : ∀ c ∈ ⟨st, mid⟩ :: rest, c.before.labelAt k = some name → c ∈ rest := by
      intro c member found
      rcases List.mem_cons.mp member with rfl | later
      · exact absurd found labelled
      · exact later
    have count : (definedBy k (⟨st, mid⟩ :: rest)).count name = (definedBy k rest).count name := by
      rw [definedBy, List.filterMap_cons]
      cases other : st.labelAt k with
      | none => rfl
      | some found => exact List.count_cons_of_ne fun equal => labelled (other.trans (congrArg some equal))
    rw [count, ← List.count_eq_zero, count, List.count_eq_zero, ← same]
    exact ⟨kept, fun once c member found' => found once c (later c member found') found'⟩

/-! The line of a branch. -/

theorem isDirective_none {name : Text} (plain : isDirective name = false) :
    name ≠ ascii ['%', 'd', 'e', 'f', 'i', 'n', 'e'] ∧
      ∀ word ∈ [ascii ['s', 'e', 'c', 't', 'i', 'o', 'n'], ascii ['g', 'l', 'o', 'b', 'a', 'l'],
        ascii ['t', 'i', 'm', 'e', 's'], dbName, ascii ['d', 'w'], ascii ['d', 'd'], ascii ['r', 'e', 's', 'b']],
        ¬ sameNoCase name word = true := by
  rw [isDirective, Bool.or_eq_false_iff, List.any_eq_false, beq_eq_false_iff_ne] at plain
  exact plain

theorem body_instr {pass : Pass} {t : Token} (plain : isDirective t.text = false) :
    st.bodyLine pass k t = some (st.instrLine pass t.text) ∧ st.bodyOps pass k t = st.instrOps pass t.text := by
  obtain ⟨define, others⟩ := isDirective_none plain
  simp only [List.forall_mem_cons] at others
  obtain ⟨section', global, times, db, dw, dd, resb, -⟩ := others
  rw [bodyLine, if_neg define, if_neg section', if_neg global, if_neg times, if_neg db, if_neg dw, if_neg dd, if_neg resb,
    bodyOps, if_neg define, if_neg section', if_neg global, if_neg times, if_neg db, if_neg dw, if_neg dd, if_neg resb]
  exact ⟨rfl, rfl⟩

theorem branchAt_some {code : List UInt8} {name : Text} (branch : st.branchAt k = some (code, name)) :
    ∃ start, skipNewlines k st = some start ∧ start.peek.type ≠ .eof ∧ isDirective start.peek.text = false ∧
      start.lex.peek.type = .ident ∧ branchCode start.peek.text = some code ∧ start.lex.peek.text = name := by
  obtain ⟨start, skipped, branch⟩ := Option.bind_eq_some_iff.mp branch
  split at branch
  next all =>
    obtain ⟨present, plain, ident⟩ := all
    obtain ⟨found, known, same⟩ := Option.map_eq_some_iff.mp branch
    obtain ⟨rfl, rfl⟩ := Prod.mk.inj same
    exact ⟨start, skipped, present, plain, ident, known, rfl⟩
  next _ => cases branch

theorem branch_line {pass : Pass} {more : Bool} {code : List UInt8} {name : Text}
    (ran : st.assembleLine pass k = some (more, st')) (branch : st.branchAt k = some (code, name)) :
    ∃ moved, Still st moved ∧ Still (moved.branchTo pass code name) st' := by
  obtain ⟨start, skipped, present, plain, ident, known, rfl⟩ := branchAt_some branch
  obtain ⟨start', skipped', ran⟩ := Option.bind_eq_some_iff.mp ran
  obtain rfl : start = start' := Option.some.inj (skipped.symm.trans skipped')
  have noColon : ¬ (isDirective start.peek.text = false ∧ start.lex.peek.type = .colon) := by
    rw [ident]
    exact fun both => TokenType.noConfusion both.2
  dsimp only at ran
  rw [if_neg present, if_neg noColon] at ran
  obtain ⟨body, done, ran⟩ := Option.bind_eq_some_iff.mp ran
  obtain ⟨last, skips, ran⟩ := Option.bind_eq_some_iff.mp ran
  obtain ⟨-, rfl⟩ := Prod.mk.inj (Option.some.inj ran)
  rw [(body_instr plain).1, (instrLine_branch known ident).1] at done
  obtain rfl := Option.some.inj done
  exact ⟨start.lex.lex, (skipNewlines_still k skipped).lex.lex, skipLine_still k skips⟩

theorem branch_bytes {code : List UInt8} {name : Text} (branch : st.branchAt k = some (code, name)) :
    bytesOfOps (st.lineOps .one k) = code.length + 4 := by
  obtain ⟨start, skipped, present, plain, ident, known, rfl⟩ := branchAt_some branch
  have noColon : ¬ (isDirective start.peek.text = false ∧ start.lex.peek.type = .colon) := by
    rw [ident]
    exact fun both => TokenType.noConfusion both.2
  have goto (o : Option Asm) : bytesOfOps (gotoOps o) = 0 := by cases o <;> rfl
  have ops (st : Asm) (name : Text) : bytesOfOps (st.branchOps .one code name) = code.length + 4 := by
    rw [branchOps.eq_def]
    cases st.labelFind name <;> exact Nat.zero_add _
  rw [lineOps, skipped]
  dsimp only
  rw [firstOps, if_neg present, if_neg noColon, (body_instr plain).2, (instrLine_branch known ident).2]
  dsimp only
  have lex : Op.lex.bytes = 0 := rfl
  have jump : (Op.goto start.lexP).bytes = 0 := rfl
  rw [bytesOfOps_cons, bytesOfOps_append, bytesOfOps_cons, bytesOfOps_cons, goto, ops]
  omega

/-! The displacement. -/

theorem emit8_at (b : UInt8) (room : st.outPos < outMax) : (st.emit8 b).out st.outPos = b := by
  rw [emit8, if_pos room]
  exact Function.update_self _ _ _

/-- A word is stored where the output has come to. -/
theorem emit32_reads (v : U32) (room : st.outPos + 4 ≤ outMax) : readLe32 (st.emit32 v).out st.outPos = v.toNat := by
  let s1 := st.emit8 (byteOf v.toNat 0)
  let s2 := s1.emit8 (byteOf v.toNat 1)
  let s3 := s2.emit8 (byteOf v.toNat 2)
  have pos1 : s1.outPos = st.outPos + 1 := emit8_room st (by omega)
  have pos2 : s2.outPos = st.outPos + 2 := by rw [emit8_room s1 (by omega), pos1]
  have pos3 : s3.outPos = st.outPos + 3 := by rw [emit8_room s2 (by omega), pos2]
  have room3 : s3.outPos < outMax := by omega
  have behind3 : Emits s3 (st.emit32 v) := (Emits.refl s3).emit8 _
  have behind2 : Emits s2 (st.emit32 v) := ((Emits.refl s2).emit8 _).trans behind3
  have behind1 : Emits s1 (st.emit32 v) := ((Emits.refl s1).emit8 _).trans behind2
  have byte0 : (st.emit32 v).out st.outPos = byteOf v.toNat 0 := by
    rw [behind1.kept _ (by omega)]
    exact emit8_at _ (by omega)
  have byte1 : (st.emit32 v).out (st.outPos + 1) = byteOf v.toNat 1 := by
    rw [← pos1, behind2.kept _ (by omega)]
    exact emit8_at _ (by omega)
  have byte2 : (st.emit32 v).out (st.outPos + 2) = byteOf v.toNat 2 := by
    rw [← pos2, behind3.kept _ (by omega)]
    exact emit8_at _ (by omega)
  have byte3 : (st.emit32 v).out (st.outPos + 3) = byteOf v.toNat 3 := by
    rw [← pos3]
    exact emit8_at _ room3
  have small := v.isLt
  rw [readLe32, byte0, byte1, byte2, byte3, byteOf_toNat, byteOf_toNat, byteOf_toNat, byteOf_toNat]
  omega

/-- With its label known, a branch adds no fixup, and stores how far the label is from behind it. -/
theorem branchTo_known {code : List UInt8} {name : Text} {addr : U32} (known : st.labelFind name = some addr)
    (text : st.curSec = .text) (room : st.outPos + code.length + 4 ≤ outMax) :
    (st.branchTo .two code name).fixups = st.fixups ∧
      (st.branchTo .two code name).outPos = st.outPos + code.length + 4 ∧
      readLe32 (st.branchTo .two code name).out (st.outPos + code.length) =
        (addr - (textVma + BitVec.ofNat 32 (st.outPos + code.length + 4))).toNat := by
  have pos : (st.emitText code).outPos = st.outPos + code.length := by
    rw [emitText_outPos code (by omega)]
    omega
  have vma : (st.emitText code).curVma + 4 = textVma + BitVec.ofNat 32 (st.outPos + code.length + 4) := by
    have same : (st.emitText code).curSec = .text := by
      rw [emitText_frame]
      exact text
    rw [curVma, same]
    dsimp only
    rw [pos, BitVec.add_assoc, BitVec.ofNat_add _ 4]
    rfl
  have run : st.branchTo .two code name = (st.emitText code).emit32 (addr - ((st.emitText code).curVma + 4)) := by
    rw [branchTo.eq_def, known]
  rw [run, vma, ← pos]
  refine ⟨?_, emit32_room _ (by omega), emit32_reads _ (by omega)⟩
  rw [emit32_frame, emitText_frame]

/-- A word that no fixup meets is as the pass has left it. -/
theorem applyFixups_kept (i : Nat)
    (apart : ∀ fx ∈ st.fixups, fx.outOffset + 4 ≤ outMax → fx.outOffset + 4 ≤ i ∨ i + 4 ≤ fx.outOffset) :
    readLe32 st.applyFixups.1 i = readLe32 st.out i := by
  have rounds (fixups : List Fixup)
      (apart : ∀ fx ∈ fixups, fx.outOffset + 4 ≤ outMax → fx.outOffset + 4 ≤ i ∨ i + 4 ≤ fx.outOffset) :
      ∀ r : Buffer × List Text, readLe32 (fixups.foldl st.applyFixup r).1 i = readLe32 r.1 i := by
    induction fixups with
    | nil => exact fun _ => rfl
    | cons fx fixups ih =>
        intro r
        obtain ⟨first, rest⟩ := List.forall_mem_cons.mp apart
        rw [List.foldl_cons, ih rest, applyFixup]
        cases st.labelFind fx.name with
        | none => rfl
        | some addr =>
            dsimp only
            split
            next room => exact readLe32_write_ne _ _ ((first room).symm)
            next _ => rfl
  exact rounds st.fixups apart _

/-- The fixups of the other lines stay away from a branch. -/
theorem branch_displacement {last : Asm} {n : Nat} {b : Call} {code : List UInt8} {name : Text} {addr : U32}
    (ran : lines k .two n st = some last) (empty : st.fixups = []) (member : b ∈ calls k .two n st)
    (branch : b.before.branchAt k = some (code, name)) (text : b.before.curSec = .text)
    (known : st.labelFind name = some addr) (room : b.before.outPos + code.length + 4 ≤ outMax) :
    b.after.outPos = b.before.outPos + code.length + 4 ∧
      readLe32 last.close.applyFixups.1 (b.before.outPos + code.length) =
        (addr - (textVma + BitVec.ofNat 32 b.after.outPos)).toNat := by
  obtain ⟨more, line⟩ := calls_run n ran b member
  obtain ⟨moved, still, skipped⟩ := branch_line line branch
  obtain ⟨-, each⟩ := calls_emit n ran
  obtain ⟨front, back⟩ := each b member
  have pos : moved.outPos = b.before.outPos := by rw [still]
  have found : moved.labelFind name = some addr := by
    rw [still, labelFind, ← known, labelFind, ← front.labels]
  obtain ⟨fixups, behind, word⟩ := branchTo_known found (still.sameSec.trans text) (by rw [pos]; exact room)
  have after : b.after.outPos = b.before.outPos + code.length + 4 := by
    rw [skipped, ← pos]
    exact behind
  refine ⟨after, ?_⟩
  obtain ⟨earlier, added, within⟩ := front.fixups
  obtain ⟨later, added', within'⟩ := back.fixups
  have all : last.close.fixups = earlier ++ later := by
    have here : b.after.fixups = b.before.fixups := by
      rw [skipped]
      dsimp only
      rw [fixups, still]
    rw [close_frame, added', here, added, empty, List.nil_append]
  have apart : ∀ fx ∈ last.close.fixups, fx.outOffset + 4 ≤ outMax →
      fx.outOffset + 4 ≤ b.before.outPos + code.length ∨ b.before.outPos + code.length + 4 ≤ fx.outOffset := by
    intro fx member fits
    rw [all, List.mem_append] at member
    rcases member with before | behind
    · have high := (within fx before).2 fits
      exact .inl (by omega)
    · have low := (within' fx behind).1
      exact .inr (by omega)
  rw [applyFixups_kept _ apart, close_frame]
  dsimp only
  have stored : ∀ i < 4, last.out (b.before.outPos + code.length + i) =
      (moved.branchTo .two code name).out (moved.outPos + code.length + i) := by
    intro i inside
    rw [back.kept _ (by omega), skipped, pos]
  rw [readLe32_congr stored, word, pos, after]

end Asm

/-- The calls of the two passes. -/
def firstCalls (n : Nat) (mem : Buffer) (src : Text) : List Call := Asm.calls n .one n ((Asm.start mem).begin .one src)

def secondCalls (n : Nat) (r : Assembled) (src : Text) : List Call :=
  Asm.calls n .two n ({ r.first with fixups := [] }.begin .two src)

/-- The load address behind a line. -/
def Call.behind (c : Call) : U32 := textVma + BitVec.ofNat 32 c.after.outPos

/-- What one of related lists holds is related to something in the other. -/
theorem forall₂_mem {α β : Type} {r : α → β → Prop} {as : List α} {bs : List β} (related : List.Forall₂ r as bs) :
    ∀ b ∈ bs, ∃ a ∈ as, r a b := by
  induction related with
  | nil => exact fun b absent => absurd absent List.not_mem_nil
  | cons first _ ih =>
      intro b member
      rcases List.mem_cons.mp member with rfl | later
      · exact ⟨_, List.mem_cons_self, first⟩
      · obtain ⟨a, member, same⟩ := ih b later
        exact ⟨a, List.mem_cons_of_mem _ member, same⟩

/-- Programs that go on alike end alike. -/
theorem bind_of_rel {α β γ : Type} {r : α → β → Prop} {a : Option α} {b : Option β} {f : α → Option γ} {g : β → Option γ}
    (first : Option.Rel r a b) (rest : ∀ x y, r x y → g y = f x) : b.bind g = a.bind f := by
  cases first with
  | none => rfl
  | some related => exact rest _ _ related

section Alikes
variable {k : Nat} {st st' : Asm}

theorem labelAt_alike (alike : Alike st st') : st'.labelAt k = st.labelAt k := by
  apply bind_of_rel (Asm.skipNewlines_alike k alike)
  intro start start' behind
  rw [behind.peek, behind.lex.peek]

theorem branchAt_alike (alike : Alike st st') : st'.branchAt k = st.branchAt k := by
  apply bind_of_rel (Asm.skipNewlines_alike k alike)
  intro start start' behind
  rw [behind.peek, behind.lex.peek]

/-- The passes find the same labels. -/
theorem definedBy_alike {cs cs' : List Call}
    (alike : List.Forall₂ (fun c c' => Alike c.before c'.before ∧ Alike c.after c'.after) cs cs') :
    Asm.definedBy k cs' = Asm.definedBy k cs := by
  induction alike with
  | nil => rfl
  | cons first _ ih =>
      rw [Asm.definedBy, Asm.definedBy] at ih ⊢
      rw [List.filterMap_cons, List.filterMap_cons, labelAt_alike first.1, ih]

/-- A label emits nothing. -/
theorem labelled_outPos {pass : Pass} {more : Bool} {name : Text} (ran : st.assembleLine pass k = some (more, st'))
    (labelled : st.labelAt k = some name) : st'.outPos = st.outPos := by
  obtain ⟨start, skipped, cases⟩ := Asm.assembleLine_cases ran
  rcases cases with ⟨none, -⟩ | ⟨-, rfl⟩ | ⟨none, -⟩
  · rw [labelled] at none
    cases none
  · have still := Asm.skipNewlines_still k skipped
    rw [labelLine_frame]
    dsimp only
    rw [Asm.lex_outPos, still]
  · rw [labelled] at none
    cases none

end Alikes

theorem assemble_lines {n : Nat} {mem : Buffer} {src : Text} {r : Assembled} (ran : assemble n mem src = some r) :
    ∃ one two, Asm.lines n .one n ((Asm.start mem).begin .one src) = some one ∧ r.first = one.close ∧
      Asm.lines n .two n ({ r.first with fixups := [] }.begin .two src) = some two ∧ r.out = two.close.applyFixups.1 := by
  obtain ⟨first, one, ran⟩ := Option.bind_eq_some_iff.mp ran
  obtain ⟨second, two, ran⟩ := Option.bind_eq_some_iff.mp ran
  obtain ⟨lastOne, linesOne, rfl⟩ := Option.map_eq_some_iff.mp one
  obtain ⟨lastTwo, linesTwo, rfl⟩ := Option.map_eq_some_iff.mp two
  obtain rfl := Option.some.inj ran
  exact ⟨lastOne, lastTwo, linesOne, rfl, linesTwo, rfl⟩

/-- What one pass emits for a line the other one emits too, byte for byte, and a branch in
the text section leads to its label there. -/
theorem branches_land {n : Nat} {mem : Buffer} {src : Text} {r : Assembled} (ran : assemble n mem src = some r)
    (literal : ∀ c ∈ firstCalls n mem src, Asm.LiteralCount n c.before) (output : bytesOfOps (onesOf n mem src) ≤ outMax)
    (labels : (namesOf (onesOf n mem src)).card ≤ labelMax) :
    (secondCalls n r src).map Call.emitted = (firstCalls n mem src).map Call.emitted ∧
      ∀ b ∈ secondCalls n r src, ∀ l ∈ secondCalls n r src, ∀ code name,
        b.before.branchAt n = some (code, name) → b.before.curSec = .text →
        l.before.labelAt n = some name → l.before.curSec = .text →
        (Asm.definedBy n (secondCalls n r src)).count name = 1 →
        BitVec.ofNat 32 (readLe32 r.out (b.before.outPos + code.length)) + b.behind = l.behind := by
  obtain ⟨one, two, linesOne, first, linesTwo, out⟩ := assemble_lines ran
  have begun : Alike ((Asm.start mem).begin .one src) ({ r.first with fixups := [] }.begin .two src) := ⟨rfl, rfl, rfl⟩
  have alike : List.Forall₂ (fun c c' => Alike c.before c'.before ∧ Alike c.after c'.after) (firstCalls n mem src)
      (secondCalls n r src) := Asm.calls_alike n linesOne begun literal
  constructor
  · have same : List.Forall₂ (fun c c' => c = c') ((firstCalls n mem src).map Call.emitted)
        ((secondCalls n r src).map Call.emitted) := by
      rw [List.forall₂_map_left_iff, List.forall₂_map_right_iff]
      refine alike.imp ?_
      intro c c' both
      rw [Call.emitted, Call.emitted, both.1.outPos, both.2.outPos]
    rw [List.forall₂_eq_eq_eq] at same
    exact same.symm
  intro b hb l hl code name branch text labelled text' once
  obtain ⟨b₁, hb₁, before, -⟩ := forall₂_mem alike b hb
  obtain ⟨l₁, hl₁, at_, -⟩ := forall₂_mem alike l hl
  -- the first pass stores all it emits, and notes all labels
  have inside : ((Asm.start mem).begin .one src).outPos ≤ outMax := Nat.zero_le _
  have room : b.before.outPos + code.length + 4 ≤ outMax := by
    have fits : ((Asm.start mem).begin .one src).outPos + bytesOfOps (onesOf n mem src) ≤ outMax := by
      rw [show ((Asm.start mem).begin .one src).outPos = 0 from rfl, Nat.zero_add]
      exact output
    have all := Asm.calls_along n linesOne ((along_stored (onesOf n mem src) inside).mpr fits) b₁ hb₁
    have bytes := (along_stored _ (Asm.calls_inside n linesOne inside b₁ hb₁)).mp all
    rw [Asm.branch_bytes (branchAt_alike before ▸ branch), ← before.outPos, ← Nat.add_assoc] at bytes
    exact bytes
  have address : ({ r.first with fixups := [] }.begin .two src).labelFind name =
      some (textVma + BitVec.ofNat 32 l.before.outPos) := by
    have fits : (((Asm.start mem).begin .one src).names.toFinset ∪ namesOf (onesOf n mem src)).card ≤ labelMax := by
      rw [show ((Asm.start mem).begin .one src).names.toFinset = ∅ from rfl, Finset.empty_union]
      exact labels
    have recorded := (along_recorded (onesOf n mem src) (begin_table mem src)).1.mpr fits
    have found := (Asm.lines_find n linesOne (Asm.calls_along n linesOne recorded)).2
      (definedBy_alike alike ▸ once) l₁ hl₁ (labelAt_alike at_ ▸ labelled)
    have same : ({ r.first with fixups := [] }.begin .two src).labelFind name = one.labelFind name := by
      rw [first, close_frame]
      rfl
    rw [same, found, Asm.curVma, ← at_.curSec, text', ← at_.outPos]
  obtain ⟨after, word⟩ := Asm.branch_displacement linesTwo rfl hb branch text address room
  obtain ⟨more, line⟩ := Asm.calls_run n linesTwo l hl
  rw [Call.behind, Call.behind, labelled_outPos line labelled, out, word, BitVec.ofNat_toNat, BitVec.setWidth_eq,
    BitVec.sub_add_cancel]

/-- A jump over a byte of data. -/
def jumpOver : Text :=
  ascii ['j', 'm', 'p', ' ', 'a', '\n', 's', 'e', 'c', 't', 'i', 'o', 'n', ' ', '.', 'd', 'a', 't', 'a', '\n',
    'd', 'b', ' ', '1', '\n', 's', 'e', 'c', 't', 'i', 'o', 'n', ' ', '.', 't', 'e', 'x', 't', '\n',
    'a', ':', ' ', 'r', 'e', 't', '\n']

theorem branches_land_jumpOver : ∃ r b l, assemble 20 (fun _ => 0) (source jumpOver) = some r ∧
    b.after.outPos = 5 ∧ l.after.outPos = 6 ∧ BitVec.ofNat 32 (readLe32 r.out 1) + Call.behind b = Call.behind l := by
  obtain ⟨r, ran, ⟨b, hb, branch, text, start, after⟩, ⟨l, hl, labelled, text', there⟩, once⟩ :
      ∃ r ∈ assemble 20 (fun _ => 0) (source jumpOver),
        (∃ b ∈ secondCalls 20 r (source jumpOver), b.before.branchAt 20 = some ([0xE9], ascii ['a']) ∧
          b.before.curSec = .text ∧ b.before.outPos = 0 ∧ b.after.outPos = 5) ∧
        (∃ l ∈ secondCalls 20 r (source jumpOver), l.before.labelAt 20 = some (ascii ['a']) ∧
          l.before.curSec = .text ∧ l.after.outPos = 6) ∧
        (Asm.definedBy 20 (secondCalls 20 r (source jumpOver))).count (ascii ['a']) = 1 := by
    decide +kernel
  have literal : ∀ c ∈ firstCalls 20 (fun _ => 0) (source jumpOver), Asm.LiteralCount 20 c.before := by decide +kernel
  have lands := (branches_land ran literal (by decide +kernel) (by decide +kernel)).2 b hb l hl _ _ branch text labelled text' once
  rw [start] at lands
  exact ⟨r, b, l, ran, after, there, lands⟩

end Zenbite.Zas
