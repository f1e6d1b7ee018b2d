import Zenbite.Shell.Store

/-! The Notes window (desktop.c): it loads NOTES.TXT when it is spawned and saves it
when it is closed. -/

namespace Zenbite.Notes

open Shell

variable {Path : Type}

/-- sizeof content - 1 -/
def contentMax : Nat := 8191

/-- What the keyboard does to the content: a character, backspace, ^X, and ^V with
the clipboard of the moment. -/
inductive Key where
  | type (k : UInt8)
  | erase
  | cut
  | paste (clip : List UInt8)

/-- sizeof buf in the paste -/
def pasteMax : Nat := 256

def press (content : List UInt8) : Key → List UInt8
  | .type k =>
    if (k = 10 ∨ 32 ≤ k ∧ k < 127) ∧ content.length < contentMax then content ++ [k] else content
  | .erase => content.dropLast
  | .cut => []
  | .paste clip => content ++ (clip.take pasteMax).take (contentMax - content.length)

/-- spawn_widget, case WK_NOTES -/
def spawn (path : Path) (s : Store Path) : List UInt8 :=
  match s.fileAt path with
  | none => []
  | some (_, bytes) => bytes.take contentMax

/-- close_widget: fs_create only makes a file that is missing, and fs_write starts at 0. -/
def close (path : Path) (content : List UInt8) (s : Store Path) : Store Path :=
  let created := (s.create .works path).2
  match created.fileAt path with
  | none => created
  | some (p, old) => created.put p (some (.file (Store.overwritten old 0 content)))

/-- The content when the window is closed after these keys. -/
def edited (path : Path) (keys : List Key) (s : Store Path) : List UInt8 :=
  keys.foldl press (spawn path s)

def session (path : Path) (keys : List Key) (s : Store Path) : Store Path :=
  close path (edited path keys s) s

theorem press_length {content : List UInt8} (fits : content.length ≤ contentMax) (key : Key) :
    (press content key).length ≤ contentMax := by
  cases key with
  | type k =>
    rw [press]
    split
    next room =>
      rw [List.length_append, List.length_singleton]
      exact room.2
    next => exact fits
  | erase =>
    rw [press, List.length_dropLast]
    omega
  | cut => exact Nat.zero_le _
  | paste clip =>
    rw [press, List.length_append, List.length_take]
    omega

theorem edited_length (path : Path) (keys : List Key) (s : Store Path) :
    (edited path keys s).length ≤ contentMax := by
  have loaded : (spawn path s).length ≤ contentMax := by
    rw [spawn]
    split
    · exact Nat.zero_le _
    · exact List.length_take_le _ _
  rw [edited]
  revert loaded
  generalize spawn path s = content
  induction keys generalizing content with
  | nil => exact id
  | cons key keys ih => exact fun fits => ih _ (press_length fits key)

/-- What is on the disk lets this content come back: there is no file yet, or one that
is no longer than the content, or the content fills the window. Where no file can be
made, only the empty content comes back. -/
def Fits (path : Path) (content : List UInt8) (s : Store Path) : Prop :=
  match s.target path with
  | .leaf p =>
    match s.entry p with
    | none => True
    | some (.file old) => old.length ≤ content.length ∨ content.length = contentMax
    | some .subdir => content = []
  | _ => content = []

theorem overwritten_comes_back {old content : List UInt8} (fits : content.length ≤ contentMax) :
    (Store.overwritten old 0 content).take contentMax = content ↔
      old.length ≤ content.length ∨ content.length = contentMax := by
  rw [Store.overwritten, List.take_zero, List.nil_append, Nat.zero_add, List.take_append,
    List.take_of_length_le fits, List.append_right_eq_self, List.take_eq_nil_iff, List.drop_eq_nil_iff]
  omega

theorem spawn_put {path : Path} {p : Place} {s : Store Path} (target : s.target path = .leaf p)
    (bytes : List UInt8) : spawn path (s.put p (some (.file bytes))) = bytes.take contentMax := by
  rw [spawn, Store.fileAt_put target]

/-- One session: what a new window loads is the content at the close. -/
theorem close_comes_back (path : Path) {content : List UInt8} (s : Store Path)
    (fits : content.length ≤ contentMax) :
    spawn path (close path content s) = content ↔ Fits path content s := by
  have closed : ∀ t : Store Path, t.fileAt path = none → spawn path t = [] := by
    intro t absent
    rw [spawn, absent]
  cases target : s.target path with
  | leaf p =>
    cases held : s.entry p with
    | none =>
      rw [close, Store.create_free .works target held]
      dsimp only
      rw [if_neg (by decide), Store.fileAt_put target]
      dsimp only
      have again : (s.put p (some (.file []))).target path = .leaf p := target
      rw [spawn_put again, overwritten_comes_back fits, Fits, target]
      dsimp only
      rw [held]
      exact iff_of_true (Or.inl (Nat.zero_le _)) trivial
    | some e =>
      have used : ∀ q, s.target path = .leaf q → s.entry q ≠ none := by
        intro q named
        obtain rfl := Target.leaf.inj (target.symm.trans named)
        exact held ▸ Option.some_ne_none e
      rw [close, Store.create_used .works used]
      dsimp only
      cases e with
      | file old =>
        rw [Store.fileAt_eq_some.mpr ⟨target, held⟩]
        dsimp only
        rw [spawn_put target, overwritten_comes_back fits, Fits, target]
        dsimp only
        rw [held]
      | subdir =>
        have absent : s.fileAt path = none := by simp only [Store.fileAt, target, held]
        rw [absent]
        dsimp only
        rw [closed s absent, Fits, target]
        dsimp only
        rw [held]
        exact eq_comm
  | nowhere | marker dir =>
    have unused : ∀ q, s.target path = .leaf q → s.entry q ≠ none := fun q named => by
      rw [target] at named
      cases named
    have absent : s.fileAt path = none := by simp only [Store.fileAt, target]
    rw [close, Store.create_used .works unused]
    dsimp only
    rw [absent]
    dsimp only
    rw [closed s absent, Fits, target]
    exact eq_comm

/-- The contents at the closes of a run of sessions come back. -/
def ComesBack (path : Path) : List (List Key) → Store Path → Prop
  | [], _ => True
  | keys :: rest, s =>
    spawn path (session path keys s) = edited path keys s ∧ ComesBack path rest (session path keys s)

/-- At every close of the run what is on the disk lets the content come back. -/
def AllFit (path : Path) : List (List Key) → Store Path → Prop
  | [], _ => True
  | keys :: rest, s => Fits path (edited path keys s) s ∧ AllFit path rest (session path keys s)

/-- In every run of sessions, from any disk, each window loads the content of the last
close exactly when no close finds a longer file. -/
theorem notes_persist_iff (path : Path) (sessions : List (List Key)) :
    ∀ s : Store Path, ComesBack path sessions s ↔ AllFit path sessions s := by
  induction sessions with
  | nil => exact fun _ => Iff.rfl
  | cons keys rest ih =>
      intro s
      exact and_congr (close_comes_back path s (edited_length path keys s)) (ih _)

/-- A directory without NOTES.TXT. -/
def noNotes : Store Unit := ⟨fun _ => .leaf ⟨0, 0⟩, fun _ => none⟩

/-- "abc" is saved, then replaced by "z": the file reads "zbc". -/
theorem shorter_note_keeps_tail :
    ¬ComesBack () [[.type 97, .type 98, .type 99], [.cut, .type 122]] noNotes := by
  have second : spawn () (session () [.cut, .type 122]
      (session () [.type 97, .type 98, .type 99] noNotes)) = [122, 98, 99] := by decide
  have content : edited () [.cut, .type 122]
      (session () [.type 97, .type 98, .type 99] noNotes) = [122] := by decide
  rintro ⟨-, back, -⟩
  rw [second, content] at back
  exact absurd back (by decide)

end Zenbite.Notes
