import Zenbite.Zas.Image

/-! zas_assemble does not report what it loses (zas.c): where the output or a table is
full, what comes after is left out, and an unknown name or instruction is passed over. -/

namespace Zenbite.Zas

open Memory

/-! The fixups. -/

section Fixups
variable {pass : Pass} {st : Asm}

end Fixups

/-! The labels. -/

namespace Asm

def names (st : Asm) : List Text := st.labels.map (·.1)

/-- The names are different, and there is room for them. -/
structure Table (st : Asm) : Prop where
  once : st.names.Nodup
  inside : st.labels.length ≤ labelMax

variable {st : Asm}

theorem labelFind_isSome (name : Text) : (st.labelFind name).isSome ↔ name ∈ st.names := by
  rw [labelFind, Option.isSome_map, List.find?_isSome, names, List.mem_map]
  simp only [decide_eq_true_eq]

theorem setFirst_names (name : Text) (addr : U32) (ls : List (Text × U32)) :
    (labelDefine.setFirst name addr ls).map (·.1) = ls.map (·.1) := by
  induction ls with
  | nil => rfl
  | cons l ls ih =>
      rw [labelDefine.setFirst]
      split
      next same => rw [List.map_cons, List.map_cons, same]
      next _ => rw [List.map_cons, List.map_cons, ih]

theorem setFirst_find (name : Text) (addr : U32) (ls : List (Text × U32)) (member : name ∈ ls.map (·.1)) :
    (labelDefine.setFirst name addr ls).find? (·.1 = name) = some (name, addr) := by
  induction ls with
  | nil => cases member
  | cons l ls ih =>
      rw [labelDefine.setFirst]
      split
      next same => exact List.find?_cons_of_pos (decide_eq_true rfl)
      next other =>
        rw [List.find?_cons_of_neg (by simpa using other)]
        exact ih ((List.mem_cons.mp member).resolve_left (Ne.symm other))

/-- A label that is there keeps its place, and a new one goes to the end while there is
room. -/
theorem labelDefine_names (name : Text) (addr : U32) :
    (st.labelDefine name addr).names =
      if name ∈ st.names ∨ labelMax ≤ st.labels.length then st.names else st.names ++ [name] := by
  rw [labelDefine]
  by_cases known : name ∈ st.names
  · rw [if_pos ((labelFind_isSome name).mpr known), if_pos (.inl known)]
    exact setFirst_names name addr st.labels
  rw [if_neg (mt (labelFind_isSome name).mp known)]
  by_cases full : labelMax ≤ st.labels.length
  · rw [if_pos full, if_pos (.inr full)]
  · rw [if_neg full, if_neg (not_or.mpr ⟨known, full⟩), names, List.map_append, List.map_cons, List.map_nil, names]

theorem labelDefine_find (name : Text) (addr : U32) :
    (st.labelDefine name addr).labelFind name = some addr ↔ name ∈ st.names ∨ st.labels.length < labelMax := by
  rw [labelDefine]
  by_cases known : name ∈ st.names
  · rw [if_pos ((labelFind_isSome name).mpr known), labelFind, setFirst_find name addr st.labels known]
    exact ⟨fun _ => .inl known, fun _ => rfl⟩
  have absent : st.labels.find? (·.1 = name) = none := by
    rw [List.find?_eq_none]
    intro l member same
    rw [decide_eq_true_eq] at same
    exact known (List.mem_map.mpr ⟨l, member, same⟩)
  rw [if_neg (mt (labelFind_isSome name).mp known)]
  by_cases full : labelMax ≤ st.labels.length
  · rw [if_pos full, labelFind, absent]
    constructor
    · intro found
      cases found
    · rintro (member | room)
      · exact absurd member known
      · exact absurd full (Nat.not_le.mpr room)
  · have last : [(name, addr)].find? (·.1 = name) = some (name, addr) := List.find?_cons_of_pos (decide_eq_true rfl)
    rw [if_neg full, labelFind, List.find?_append, absent, Option.none_or, last]
    exact ⟨fun _ => .inr (Nat.lt_of_not_le full), fun _ => rfl⟩

theorem labelLine_labels (name : Text) :
    (st.labelLine .one name).labels = (st.lex.labelDefine name st.lex.curVma).labels := by
  rw [labelLine, if_pos rfl]
  dsimp only
  split <;> split <;> rfl

theorem labelLine_names (name : Text) :
    (st.labelLine .one name).names =
      if name ∈ st.names ∨ labelMax ≤ st.labels.length then st.names else st.names ++ [name] := by
  rw [names, labelLine_labels]
  exact labelDefine_names name _

theorem labelLine_find (name : Text) :
    (st.labelLine .one name).labelFind name = some st.lex.curVma ↔ name ∈ st.names ∨ st.labels.length < labelMax := by
  rw [labelFind, labelLine_labels]
  exact labelDefine_find name _

end Asm

section Labels
variable {pass : Pass} {st : Asm}

/-- The other operations define no label. -/
theorem run_labels (op : Op) (other : pass = .one → op.defines = none) : (op.run pass st).labels = st.labels := by
  cases op with
  | emit bytes => rw [Op.run, emitText_frame]
  | word code v => rw [Op.run, emit32_frame, emitText_frame]
  | rel addr => rw [Op.run, emit32_frame]
  | branch name =>
      obtain ⟨v, run⟩ := run_branch pass st name
      rw [run, emit32_frame]
  | times count b => rw [Op.run, emitTimes_text, emitText_frame]
  | patch code name isRel v => rw [patch_frame]
  | enter target => rw [Op.run, enter_frame]
  | label name =>
      cases pass with
      | one => cases other rfl
      | two => rfl
  | define => rw [Op.run, defineLine_frame]
  | _ => rfl

theorem namesOf_cons (op : Op) (ops : List Op) : namesOf (op :: ops) = namesOf [op] ∪ namesOf ops := by
  rw [namesOf, ← List.singleton_append, List.filterMap_append, List.toFinset_append, namesOf, namesOf]

/-- A label definition is recorded with its address. -/
def Recorded (st : Asm) (op : Op) : Prop :=
  ∀ name, op.defines = some name → (op.run .one st).labelFind name = some st.lex.curVma

theorem defines_some {op : Op} {name : Text} (defines : op.defines = some name) : op = .label name := by
  cases op with
  | label other => rw [Option.some.inj defines]
  | _ => cases defines

theorem run_table (op : Op) (table : st.Table) : (op.run .one st).Table := by
  cases defines : op.defines with
  | none =>
      have labels : (op.run .one st).labels = st.labels := run_labels op fun _ => defines
      exact ⟨by rw [Asm.names, labels]; exact table.once, by rw [labels]; exact table.inside⟩
  | some name =>
      obtain rfl := defines_some defines
      have length (st : Asm) : st.labels.length = st.names.length := (List.length_map _).symm
      have after := st.labelLine_names name
      split at after
      next _ =>
        constructor
        · rw [Op.run, after]
          exact table.once
        · rw [Op.run, length, after, ← length]
          exact table.inside
      next fresh =>
        obtain ⟨absent, room⟩ := not_or.mp fresh
        constructor
        · rw [Op.run, after]
          exact List.nodup_append_comm.mp (List.nodup_cons.mpr ⟨absent, table.once⟩)
        · rw [Op.run, length, after, List.length_append, List.length_singleton, ← length]
          omega

theorem namesOf_label (name : Text) : namesOf [.label name] = {name} := rfl

/-- A label that is recorded is in the table from then on. -/
theorem run_recorded (op : Op) (recorded : Recorded st op) :
    (op.run .one st).names.toFinset = st.names.toFinset ∪ namesOf [op] := by
  cases defines : op.defines with
  | none =>
      have labels : (op.run .one st).labels = st.labels := run_labels op fun _ => defines
      rw [Asm.names, labels, namesOf, List.filterMap_cons_none defines]
      exact (Finset.union_empty _).symm
  | some name =>
      obtain rfl := defines_some defines
      have found := (st.labelLine_find name).mp (recorded name rfl)
      rw [Op.run, st.labelLine_names, namesOf_label]
      by_cases known : name ∈ st.names
      · rw [if_pos (.inl known)]
        exact (Finset.union_eq_left.mpr (Finset.singleton_subset_iff.mpr (List.mem_toFinset.mpr known))).symm
      · have room := found.resolve_left known
        rw [if_neg (not_or.mpr ⟨known, Nat.not_le.mpr room⟩), List.toFinset_append]
        rfl

/-- One that is not recorded is one too many. -/
theorem run_lost (op : Op) (table : st.Table) (lost : ¬ Recorded st op) :
    labelMax < (st.names.toFinset ∪ namesOf [op]).card := by
  cases defines : op.defines with
  | none =>
      refine absurd ?_ lost
      intro name some
      rw [defines] at some
      cases some
  | some name =>
      obtain rfl := defines_some defines
      have missing : ¬ (name ∈ st.names ∨ st.labels.length < labelMax) := by
        intro found
        apply lost
        intro other same
        obtain rfl := Option.some.inj same
        exact (st.labelLine_find name).mpr found
      obtain ⟨absent, full⟩ := not_or.mp missing
      have length : st.names.toFinset.card = st.labels.length := by
        rw [List.toFinset_card_of_nodup table.once, Asm.names, List.length_map]
      rw [namesOf_label, Finset.union_comm, ← Finset.insert_eq,
        Finset.card_insert_of_notMem fun member => absent (List.mem_toFinset.mp member), length]
      omega

theorem along_recorded (ops : List Op) : ∀ {st : Asm}, st.Table →
    (Along .one Recorded st ops ↔ (st.names.toFinset ∪ namesOf ops).card ≤ labelMax) ∧
      (Along .one Recorded st ops → (runOps .one st ops).names.toFinset = st.names.toFinset ∪ namesOf ops) := by
  induction ops with
  | nil =>
      intro st table
      have bound : (st.names.toFinset ∪ namesOf []).card ≤ labelMax := by
        rw [namesOf, List.filterMap_nil, List.toFinset_nil, Finset.union_empty, List.toFinset_card_of_nodup table.once,
          Asm.names, List.length_map]
        exact table.inside
      exact ⟨⟨fun _ => bound, fun _ => trivial⟩, fun _ => (Finset.union_empty _).symm⟩
  | cons op ops ih =>
      intro st table
      obtain ⟨counted, last⟩ := ih (run_table op table)
      rw [namesOf_cons, ← Finset.union_assoc, Along]
      by_cases recorded : Recorded st op
      · rw [← run_recorded op recorded, ← counted]
        exact ⟨⟨fun both => both.2, fun rest => ⟨recorded, rest⟩⟩, fun both => last both.2⟩
      · have lost := run_lost op table recorded
        have more : (st.names.toFinset ∪ namesOf [op]).card ≤ (st.names.toFinset ∪ namesOf [op] ∪ namesOf ops).card :=
          Finset.card_le_card Finset.subset_union_left
        exact ⟨⟨fun both => absurd both.1 recorded, fun fits => absurd fits (by omega)⟩,
          fun both => absurd both.1 recorded⟩

end Labels

section Done
variable {st : Asm}

end Done

/-- What write_elf returns when it has its file. -/
def Assembled.written (r : Assembled) : Int :=
  (BitVec.ofNat 32 (ehdrSize + phdrSize) + (r.second.textSize + r.second.dataSize)).toInt

/-- What the passes are asked for keeps to the bounds, and refers to its own labels. -/
structure Fits (ones twos : List Op) : Prop where
  output : bytesOfOps ones ≤ outMax ∧ bytesOfOps twos ≤ outMax
  labels : (namesOf ones).card ≤ labelMax
  fixups : patchesOf ones ≤ fixupMax ∧ patchesOf twos ≤ fixupMax
  found : ∀ name ∈ refersOf twos, name ∈ namesOf ones
  known : .unknown ∉ ones ∧ .unknown ∉ twos

theorem begin_table (mem : Buffer) (src : Text) : ((Asm.start mem).begin .one src).Table := ⟨List.nodup_nil, Nat.zero_le _⟩

end Zenbite.Zas
