import Zenbite.Libk

/-! The loader for ELF executables (elf.c), up to the jump to the entry point. -/

namespace Zenbite.Elf

open Memory Libk

def loadBufSize : Nat := 65536

/-- The address of the static load buffer. -/
structure Kernel where
  buf : Nat
  fits : buf + loadBufSize ≤ 2 ^ 32

/-- What fs_size and fs_read say about the file: fs_read may come back with less. -/
structure ElfFile where
  size : Int
  data : List UInt8
  short : data.length ≤ size.toNat

/-- The messages of elf_exec. -/
inductive ElfError where
  | cannotOpen | tooLarge | tooSmall | badMagic | notI386 | notExecutable
  deriving DecidableEq

/-- `Elf32_Phdr`, the fields that are used. -/
structure Phdr where
  type : Nat
  offset : Nat
  vaddr : Nat
  filesz : Nat
  memsz : Nat
  deriving DecidableEq

def Phdr.of (h : Buffer) : Phdr := ⟨readLe32 h 0, readLe32 h 4, readLe32 h 8, readLe32 h 16, readLe32 h 20⟩

def ptLoad : Nat := 1
def phdrSize : Nat := 32
def ehdrSize : Nat := 52

/-- The memory, and what has been touched: pieces of the load buffer by their
offset, and pieces of memory by their address. -/
structure Load where
  mem : Buffer
  reads : List (Nat × Nat)
  writes : List (Nat × Nat)

/-- Memory at a pointer. -/
def at_ (m : Buffer) (p : Nat) : Buffer := fun i => m (u32 (p + i))

variable (k : Kernel)

/-- `if (ph->p_filesz > 0) memcpy`. -/
def copyPart (ph : Phdr) (l : Load) : Load :=
  if 0 < ph.filesz then
    ⟨memcpy ph.filesz ph.vaddr (u32 (k.buf + ph.offset)) l.mem, (ph.offset, ph.filesz) :: l.reads,
      (ph.vaddr, ph.filesz) :: l.writes⟩
  else l

/-- `if (ph->p_memsz > ph->p_filesz) memset`. -/
def clearPart (ph : Phdr) (l : Load) : Load :=
  if ph.filesz < ph.memsz then
    { l with
      mem := memset (ph.memsz - ph.filesz) (u32 (ph.vaddr + ph.filesz)) 0 l.mem
      writes := (u32 (ph.vaddr + ph.filesz), ph.memsz - ph.filesz) :: l.writes }
  else l

/-- The offset of a program header; the file header is read again each time. -/
def headerOff (m : Buffer) (i : Nat) : Nat :=
  u32 (readLe32 (at_ m k.buf) 28 + u32 (i * readLe16 (at_ m k.buf) 42))

/-- The loop over the program headers; `i` is a u16, so it takes fewer than 2^16 rounds. -/
def loadFrom (size : Nat) : Nat → Nat → Load → Load
  | 0, _, l => l
  | fuel + 1, i, l =>
    if i < readLe16 (at_ l.mem k.buf) 44 then
      let off := headerOff k l.mem i
      if size < u32 (off + phdrSize) then l
      else
        let l := { l with reads := (off, phdrSize) :: l.reads }
        let ph := Phdr.of (at_ l.mem (k.buf + off))
        if ph.type ≠ ptLoad then loadFrom size fuel (i + 1) l
        else loadFrom size fuel (i + 1) (clearPart ph (copyPart k ph l))
    else l

/-- The memory with the file in the load buffer. -/
def ElfFile.placed (f : ElfFile) (mem : Buffer) : Buffer :=
  splice mem k.buf loadBufSize fun i => f.data.getD i 0

/-- The bytes of the file. -/
def ElfFile.bytes (f : ElfFile) : Buffer := fun i => f.data.getD i 0

/-- elf_exec up to the jump. -/
def elfExec (mem : Buffer) : Option ElfFile → Except ElfError Load
  | none => .error .cannotOpen
  | some f =>
    if f.size < 0 ∨ loadBufSize < f.size.toNat then .error .tooLarge
    else
      let m := f.placed k mem
      let header := at_ m k.buf
      if f.data.length < ehdrSize then .error .tooSmall
      else if header 0 ≠ 0x7F ∨ header 1 ≠ 69 ∨ header 2 ≠ 76 ∨ header 3 ≠ 70 then .error .badMagic
      else if readLe16 header 18 ≠ 3 then .error .notI386
      else if readLe16 header 16 ≠ 2 then .error .notExecutable
      else .ok (loadFrom k f.size.toNat (2 ^ 16) 0 ⟨m, [(0, ehdrSize)], []⟩)

/-! What the headers of the file ask for. -/

namespace ElfFile

variable (f : ElfFile)

def phoff : Nat := readLe32 f.bytes 28
def phentsize : Nat := readLe16 f.bytes 42
def phnum : Nat := readLe16 f.bytes 44

def phdr (i : Nat) : Phdr := Phdr.of (window f.bytes (f.phoff + i * f.phentsize))

/-- The PT_LOAD headers. -/
def Segment (ph : Phdr) : Prop := ∃ i < f.phnum, f.phdr i = ph ∧ ph.type = ptLoad

/-- The byte that a segment puts at `a`: file bytes, then zeros. -/
def image (ph : Phdr) (a : Nat) : UInt8 :=
  if a < ph.vaddr + ph.filesz then f.bytes (ph.offset + (a - ph.vaddr)) else 0

end ElfFile

def Phdr.Covers (ph : Phdr) (a : Nat) : Prop := ph.vaddr ≤ a ∧ a < ph.vaddr + ph.memsz

/-- The header table is inside the bytes read. -/
def ElfFile.TableInside (f : ElfFile) : Prop :=
  ∀ i < f.phnum, f.phoff + i * f.phentsize + phdrSize ≤ f.data.length

/-- A segment has its bytes in the file, room for them in memory, and does not wrap. -/
def ElfFile.Whole (f : ElfFile) (ph : Phdr) : Prop :=
  ph.filesz ≤ ph.memsz ∧ ph.vaddr + ph.memsz ≤ 2 ^ 32 ∧
    (0 < ph.filesz → ph.offset + ph.filesz ≤ f.data.length)

/-- The file can be loaded as its headers say; where segments overlap they agree. -/
structure ElfFile.Loadable (f : ElfFile) : Prop where
  table : f.TableInside
  whole : ∀ ph, f.Segment ph → f.Whole ph
  agree : ∀ ph qh, f.Segment ph → f.Segment qh → ∀ a, ph.Covers a → qh.Covers a → f.image ph a = f.image qh a

/-- No segment lies over the load buffer. -/
def ElfFile.Apart (f : ElfFile) : Prop :=
  ∀ ph, f.Segment ph → ∀ a, ph.Covers a → a < k.buf ∨ k.buf + loadBufSize ≤ a

def Load.Wrote (l : Load) (a : Nat) : Prop := ∃ w ∈ l.writes, ∃ i < w.2, a = u32 (w.1 + i)

/-- The file has been loaded: only bytes of it have been read, and just the segments
have been written, with their bytes and zeros. -/
structure Exact (f : ElfFile) (l : Load) : Prop where
  table : f.TableInside
  inside : ∀ r ∈ l.reads, r.1 + r.2 ≤ f.data.length
  whole : ∀ ph, f.Segment ph → f.Whole ph
  written : ∀ a, l.Wrote a ↔ ∃ ph, f.Segment ph ∧ ph.Covers a
  holds : ∀ ph, f.Segment ph → ∀ a, ph.Covers a → l.mem a = f.image ph a

variable {k : Kernel} {f : ElfFile}

/-- What has been loaded once the headers below `i` are done. -/
structure Progress (k : Kernel) (f : ElfFile) (i : Nat) (l : Load) : Prop where
  kept : ∀ j < loadBufSize, l.mem (k.buf + j) = f.bytes j
  inside : ∀ r ∈ l.reads, r.1 + r.2 ≤ f.data.length
  written : ∀ a, l.Wrote a ↔ ∃ j < i, (f.phdr j).type = ptLoad ∧ (f.phdr j).Covers a
  holds : ∀ j < i, (f.phdr j).type = ptLoad → ∀ a, (f.phdr j).Covers a → l.mem a = f.image (f.phdr j) a

/-- The load buffer read at an offset inside it. -/
theorem Progress.buffer {i : Nat} {l : Load} (progress : Progress k f i l) {off j : Nat}
    (low : off + j < loadBufSize) : at_ l.mem (k.buf + off) j = f.bytes (off + j) := by
  have fits := k.fits
  rw [at_, u32_of_lt (by omega), Nat.add_assoc, progress.kept _ low]

theorem Progress.fields {i : Nat} {l : Load} (progress : Progress k f i l) :
    readLe32 (at_ l.mem k.buf) 28 = f.phoff ∧ readLe16 (at_ l.mem k.buf) 42 = f.phentsize ∧
      readLe16 (at_ l.mem k.buf) 44 = f.phnum := by
  have size : loadBufSize = 65536 := rfl
  have byte (j : Nat) (low : j < loadBufSize) : at_ l.mem k.buf j = f.bytes j := by
    have here := progress.buffer (k := k) (j := j) (show 0 + j < loadBufSize by omega)
    rwa [Nat.add_zero, Nat.zero_add] at here
  exact ⟨readLe32_congr fun j low => byte _ (by omega), readLe16_congr fun j low => byte _ (by omega),
    readLe16_congr fun j low => byte _ (by omega)⟩

/-- The next header is the file's. -/
theorem Progress.header {i : Nat} {l : Load} (progress : Progress k f i l) (small : f.data.length ≤ loadBufSize)
    (inside : f.phoff + i * f.phentsize + phdrSize ≤ f.data.length) :
    headerOff k l.mem i = f.phoff + i * f.phentsize ∧
      Phdr.of (at_ l.mem (k.buf + headerOff k l.mem i)) = f.phdr i := by
  obtain ⟨phoff, phentsize, -⟩ := progress.fields
  have size : loadBufSize = 65536 := rfl
  have length : phdrSize = 32 := rfl
  have off : headerOff k l.mem i = f.phoff + i * f.phentsize := by
    rw [headerOff, phoff, phentsize, u32_of_lt (n := i * f.phentsize) (by omega), u32_of_lt (by omega)]
  refine ⟨off, ?_⟩
  have field (at' : Nat) (low : at' + 4 ≤ phdrSize) :
      readLe32 (at_ l.mem (k.buf + headerOff k l.mem i)) at' =
        readLe32 (window f.bytes (f.phoff + i * f.phentsize)) at' := by
    apply readLe32_congr
    intro j bound
    rw [off, progress.buffer (by omega), window]
  simp only [Phdr.of, ElfFile.phdr]
  rw [field 0 (by decide), field 4 (by decide), field 8 (by decide), field 16 (by decide), field 20 (by decide)]

/-- What a whole segment changes: the memory it covers. -/
theorem Progress.segment_mem {i : Nat} {l : Load} {ph : Phdr} (progress : Progress k f i l)
    (small : f.data.length ≤ loadBufSize) (whole : f.Whole ph)
    (apart : ∀ a, ph.Covers a → a < k.buf ∨ k.buf + loadBufSize ≤ a) (a : Nat) [Decidable (ph.Covers a)] :
    (clearPart ph (copyPart k ph l)).mem a = if ph.Covers a then f.image ph a else l.mem a := by
  obtain ⟨sizes, top, piece⟩ := whole
  have fits := k.fits
  have size : loadBufSize = 65536 := rfl
  have copied : (copyPart k ph l).mem = splice l.mem ph.vaddr ph.filesz (window l.mem (k.buf + ph.offset)) := by
    rw [copyPart]
    split
    next some_ =>
      have inside := piece some_
      have first := apart ph.vaddr ⟨le_refl _, by omega⟩
      have before : ph.vaddr < k.buf → ph.vaddr + ph.filesz ≤ k.buf := by
        intro low
        by_contra past
        have meets := apart k.buf ⟨by omega, by omega⟩
        omega
      have start : u32 (k.buf + ph.offset) = k.buf + ph.offset := u32_of_lt (by omega)
      dsimp only
      rw [start, memcpy_apart _ _ (by omega) (by omega) (by omega)]
    next none_ =>
      rw [show ph.filesz = 0 by omega, splice_zero]
  have cleared : (clearPart ph (copyPart k ph l)).mem =
      splice (copyPart k ph l).mem (ph.vaddr + ph.filesz) (ph.memsz - ph.filesz) fun _ => 0 := by
    rw [clearPart]
    split
    next more =>
      dsimp only
      rw [u32_of_lt (by omega), memset_inside _ _ _ (by omega)]
    next same => rw [show ph.memsz - ph.filesz = 0 by omega, splice_zero]
  rw [cleared, copied, ElfFile.image]
  by_cases covers : ph.Covers a
  · have covers' := covers
    obtain ⟨low, high⟩ := covers'
    rw [if_pos covers]
    by_cases fromFile : a < ph.vaddr + ph.filesz
    · have inside := piece (by omega)
      rw [splice_outside _ _ (by omega), splice_inside _ _ low fromFile, if_pos fromFile, window,
        Nat.add_assoc, progress.kept _ (by omega)]
    · rw [splice_inside _ _ (by omega) (by omega), if_neg fromFile]
  · have outside : a < ph.vaddr ∨ ph.vaddr + ph.memsz ≤ a := by
      by_contra inside
      exact covers ⟨by omega, by omega⟩
    rw [if_neg covers, splice_outside _ _ (by omega), splice_outside _ _ (by omega)]

/-- A piece of memory that does not wrap. -/
theorem wrote_piece {base len : Nat} (top : base + len ≤ 2 ^ 32) (a : Nat) :
    (∃ i < len, a = u32 (base + i)) ↔ base ≤ a ∧ a < base + len := by
  constructor
  · rintro ⟨i, low, rfl⟩
    rw [u32_of_lt (by omega)]
    omega
  · rintro ⟨low, high⟩
    exact ⟨a - base, by omega, by rw [u32_of_lt (by omega)]; omega⟩

theorem segment_wrote {l : Load} {ph : Phdr} (k : Kernel) (whole : f.Whole ph) (a : Nat) :
    (clearPart ph (copyPart k ph l)).Wrote a ↔ ph.Covers a ∨ l.Wrote a := by
  obtain ⟨sizes, top, -⟩ := whole
  have copied : (copyPart k ph l).Wrote a ↔ (ph.vaddr ≤ a ∧ a < ph.vaddr + ph.filesz) ∨ l.Wrote a := by
    rw [copyPart]
    split
    next some_ =>
      simp only [Load.Wrote, List.mem_cons, or_and_right, exists_or, exists_eq_left]
      rw [wrote_piece (by omega)]
    next none_ =>
      exact ⟨Or.inr, fun wrote => wrote.resolve_left (by omega)⟩
  have cleared : (clearPart ph (copyPart k ph l)).Wrote a ↔
      (ph.vaddr + ph.filesz ≤ a ∧ a < ph.vaddr + ph.memsz) ∨ (copyPart k ph l).Wrote a := by
    rw [clearPart]
    split
    next more =>
      simp only [Load.Wrote, List.mem_cons, or_and_right, exists_or, exists_eq_left]
      rw [u32_of_lt (by omega), wrote_piece (by omega), Nat.add_assoc, Nat.add_sub_cancel' sizes]
    next same =>
      exact ⟨Or.inr, fun wrote => wrote.resolve_left (by omega)⟩
  rw [cleared, copied, ← or_assoc, Phdr.Covers]
  refine or_congr_left ?_
  omega

theorem segment_reads {l : Load} {ph : Phdr} (k : Kernel) (whole : f.Whole ph)
    (inside : ∀ r ∈ l.reads, r.1 + r.2 ≤ f.data.length) :
    ∀ r ∈ (clearPart ph (copyPart k ph l)).reads, r.1 + r.2 ≤ f.data.length := by
  have cleared : (clearPart ph (copyPart k ph l)).reads = (copyPart k ph l).reads := by
    rw [clearPart]
    split <;> rfl
  rw [cleared, copyPart]
  split
  next some_ => exact List.forall_mem_cons.mpr ⟨whole.2.2 some_, inside⟩
  next _ => exact inside

/-- A header that is not a segment adds nothing. -/
theorem Progress.skip {i : Nat} {l : Load} (progress : Progress k f i l) (other : (f.phdr i).type ≠ ptLoad) :
    Progress k f (i + 1) l := by
  obtain ⟨kept, inside, written, holds⟩ := progress
  have below : ∀ j < i + 1, (f.phdr j).type = ptLoad → j < i := by
    intro j low load
    rcases Nat.lt_succ_iff_lt_or_eq.mp low with before | rfl
    · exact before
    · exact absurd load other
  refine ⟨kept, inside, fun a => (written a).trans ?_, fun j low load => holds j (below j low load) load⟩
  constructor
  · rintro ⟨j, low, load, covers⟩
    exact ⟨j, by omega, load, covers⟩
  · rintro ⟨j, low, load, covers⟩
    exact ⟨j, below j low load, load, covers⟩

/-- One segment more. -/
theorem Progress.segment {i : Nat} {l : Load} (progress : Progress k f i l)
    (small : f.data.length ≤ loadBufSize) (loadable : f.Loadable) (apart : f.Apart k)
    (low : i < f.phnum) (load : (f.phdr i).type = ptLoad) :
    Progress k f (i + 1) (clearPart (f.phdr i) (copyPart k (f.phdr i) l)) := by
  classical
  have segment (j : Nat) (below : j < f.phnum) (load : (f.phdr j).type = ptLoad) : f.Segment (f.phdr j) :=
    ⟨j, below, rfl, load⟩
  have here := segment i low load
  have whole := loadable.whole _ here
  have mem := progress.segment_mem small whole (apart _ here)
  constructor
  · intro j inside
    rw [mem, if_neg ?_]
    · exact progress.kept j inside
    · intro covers
      have away := apart _ here _ covers
      omega
  · exact segment_reads k whole progress.inside
  · intro a
    rw [segment_wrote k whole, progress.written]
    constructor
    · rintro (covers | ⟨j, below, other⟩)
      · exact ⟨i, Nat.lt_succ_self i, load, covers⟩
      · exact ⟨j, by omega, other⟩
    · rintro ⟨j, below, other, covers⟩
      rcases Nat.lt_succ_iff_lt_or_eq.mp below with before | rfl
      · exact Or.inr ⟨j, before, other, covers⟩
      · exact Or.inl covers
  · intro j below other a covers
    rw [mem]
    by_cases again : (f.phdr i).Covers a
    · rw [if_pos again]
      exact loadable.agree _ _ here (segment j (by omega) other) a again covers
    · rw [if_neg again]
      rcases Nat.lt_succ_iff_lt_or_eq.mp below with before | rfl
      · exact progress.holds j before other a covers
      · exact absurd covers again

/-- The header read is one of the file's. -/
theorem Progress.look {i : Nat} {l : Load} (progress : Progress k f i l) {r : Nat × Nat}
    (inside : r.1 + r.2 ≤ f.data.length) : Progress k f i { l with reads := r :: l.reads } :=
  ⟨progress.kept, List.forall_mem_cons.mpr ⟨inside, progress.inside⟩, progress.written, progress.holds⟩

theorem loadFrom_progress (small : f.data.length ≤ loadBufSize) (loadable : f.Loadable) (apart : f.Apart k) {size : Nat}
    (whole : f.data.length ≤ size) (fuel : Nat) : ∀ {i : Nat} {l : Load}, i ≤ f.phnum → f.phnum ≤ i + fuel →
    Progress k f i l → Progress k f f.phnum (loadFrom k size fuel i l) := by
  induction fuel with
  | zero =>
      intro i l low high progress
      obtain rfl : i = f.phnum := by omega
      exact progress
  | succ fuel ih =>
      intro i l low high progress
      obtain ⟨-, -, phnum⟩ := progress.fields
      rw [loadFrom, phnum]
      split
      next more =>
        have inside := loadable.table i more
        obtain ⟨off, header⟩ := progress.header small inside
        have limit : loadBufSize = 65536 := rfl
        dsimp only
        rw [header, off, if_neg (by rw [u32_of_lt (by omega)]; omega)]
        have looked := progress.look (r := (f.phoff + i * f.phentsize, phdrSize)) inside
        split
        next other => exact ih more (by omega) (looked.skip other)
        next load => exact ih more (by omega) (looked.segment small loadable apart more (not_not.mp load))
      next done =>
        obtain rfl : i = f.phnum := by omega
        exact progress

theorem Exact.loadable {l : Load} (exact_ : Exact f l) : f.Loadable :=
  ⟨exact_.table, exact_.whole, fun ph qh left right a covers covers' =>
    (exact_.holds ph left a covers).symm.trans (exact_.holds qh right a covers')⟩

/-- A file that passes the header checks. -/
theorem elfExec_ok {mem : Buffer} {l : Load} (ran : elfExec k mem (some f) = .ok l) :
    f.data.length ≤ loadBufSize ∧ ehdrSize ≤ f.data.length ∧
      l = loadFrom k f.size.toNat (2 ^ 16) 0 ⟨f.placed k mem, [(0, ehdrSize)], []⟩ := by
  rw [elfExec] at ran
  have short := f.short
  split at ran
  · exact nomatch ran
  dsimp only at ran
  split at ran
  · exact nomatch ran
  split at ran
  · exact nomatch ran
  split at ran
  · exact nomatch ran
  split at ran
  · exact nomatch ran
  exact ⟨by omega, by omega, (Except.ok.inj ran).symm⟩

theorem start_progress (k : Kernel) (mem : Buffer) (header : ehdrSize ≤ f.data.length) :
    Progress k f 0 ⟨f.placed k mem, [(0, ehdrSize)], []⟩ := by
  constructor
  · exact fun j low => splice_add mem (fun i => f.data.getD i 0) low
  · intro r member
    rw [List.mem_singleton.mp member]
    exact header
  · intro a
    simp [Load.Wrote]
  · exact fun j low => absurd low (Nat.not_lt_zero j)

/-- A file that its headers allow to load and whose segments keep off the load buffer
is loaded exactly. -/
theorem Loads.exact_ {mem : Buffer} {l : Load} (loadable : f.Loadable) (apart : f.Apart k)
    (ran : elfExec k mem (some f) = .ok l) : Exact f l := by
  obtain ⟨small, header, rfl⟩ := elfExec_ok ran
  have many : f.phnum < 2 ^ 16 := readLe16_lt _ _
  have all := loadFrom_progress small loadable apart f.short (2 ^ 16) (Nat.zero_le _) (by omega)
    (start_progress k mem header)
  refine ⟨loadable.table, all.inside, loadable.whole, fun a => (all.written a).trans ?_, ?_⟩
  · constructor
    · rintro ⟨j, low, load, covers⟩
      exact ⟨_, ⟨j, low, rfl, load⟩, covers⟩
    · rintro ⟨_, ⟨j, low, rfl, load⟩, covers⟩
      exact ⟨j, low, load, covers⟩
  · rintro _ ⟨j, low, rfl, load⟩ a covers
    exact all.holds j low load a covers

end Zenbite.Elf
