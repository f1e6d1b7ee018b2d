import Mathlib.Algebra.Ring.Int.Defs
import Mathlib.Data.Fintype.Basic
import Mathlib.Data.List.FinRange
import Mathlib.Tactic.Common
import Zenbite.Lib.Runs

/-! The windows of the desktop: use, focus, visibility and stacking (desktop.c). -/

namespace Zenbite.Desktop

/-- `enum widget_kind`. -/
inductive WidgetKind where
  | welcome | clock | sysmon | minicalc | about | notes | files
  | settings | terminal | web | diskmgr | calendar | snake
  deriving DecidableEq

def WidgetKind.singleton (k : WidgetKind) : Bool :=
  k ∈ [.notes, .settings, .files, .about, .terminal, .web, .diskmgr, .calendar]

/-- The kinds that spawn_widget does not focus. -/
def WidgetKind.readOnly (k : WidgetKind) : Bool := k ∈ [.clock, .sysmon, .about, .diskmgr]

/-- `struct widget`, as far as the window management goes. -/
structure Widget where
  used : Bool
  kind : WidgetKind
  r : Int
  c : Int
  w : Int
  h : Int
  z : Int
  focused : Bool
  minimized : Bool

/-- An index below MAX_WIDGETS. -/
abbrev Idx := Fin 8

/-- Slot 0 is reserved for Welcome. -/
def welcomeSlot : Idx := ⟨0, by decide⟩

structure Desk where
  widgets : Idx → Widget
  nextZ : Int

/-- The index, if it is in range. -/
def slotOf (i : Int) : Option Idx :=
  if inside : 0 ≤ i ∧ i < 8 then some ⟨i.toNat, by omega⟩ else none

/-- An int after the increment. -/
def incr (z : Int) : Int := if z = 2 ^ 31 - 1 then -2 ^ 31 else z + 1

/-- The place and size of a new window in slot `i`. -/
def WidgetKind.place (k : WidgetKind) (i : Idx) (old : Widget) : Int × Int × Int × Int :=
  let i : Int := i.val
  match k with
  | .clock => (4 + i, 38 + i, 36, 8)
  | .sysmon => (12, 10 + i * 2, 44, 10)
  | .minicalc => (6 + i, 20 + i * 2, 36, 6)
  | .about => (4, 14, 52, 12)
  | .notes => (3, 8, 60, 18)
  | .files => (3, 10, 56, 18)
  | .settings => (3, 8, 60, 18)
  | .terminal => (3, 4, 70, 18)
  | .web => (3, 4, 72, 18)
  | .diskmgr => (3, 8, 64, 18)
  | .calendar => (4, 22, 36, 12)
  | .snake => (3, 14, 52, 18)
  | .welcome => (old.r, old.c, old.w, old.h)

namespace Desk

variable (s : Desk)

def set (i : Idx) (f : Widget → Widget) : Desk := { s with widgets := Function.update s.widgets i (f (s.widgets i)) }

/-- `widgets[i].z = next_z++`. -/
def raise (i : Idx) : Desk := { s.set i fun w => { w with z := s.nextZ } with nextZ := incr s.nextZ }

/-- `focus_only`; an index that is none focuses nothing. -/
def focusOnly (idx : Option Idx) : Desk :=
  { s with widgets := fun i => { s.widgets i with focused := idx = some i } }

/-- The window of a singleton kind that is there already. -/
def existing (k : WidgetKind) : Option Idx :=
  if k.singleton then (List.finRange 8).find? fun i => (s.widgets i).used && (s.widgets i).kind == k else none

/-- The first slot that is free, without the one of Welcome. -/
def freeSlot : Option Idx := (List.finRange 8).find? fun i => i ≠ welcomeSlot && !(s.widgets i).used

/-- The new window of spawn_widget. -/
def openAt (k : WidgetKind) (i : Idx) : Desk :=
  (s.raise i).set i fun w =>
    let (r, c, wd, h) := k.place i w
    { w with used := true, kind := k, r := r, c := c, w := wd, h := h, focused := !k.readOnly }

/-- `spawn_widget`. -/
def spawnWidget (k : WidgetKind) : Desk :=
  match s.existing k with
  | some i => (s.raise i).focusOnly (some i)
  | none =>
    match s.freeSlot with
    | none => s
    | some i => if k.readOnly then s.openAt k i else (s.openAt k i).focusOnly (some i)

/-- `close_widget`, after Notes has been saved. -/
def closeWidget (i : Int) : Desk :=
  match slotOf i with
  | none => s
  | some i => if i = welcomeSlot then s else s.set i fun w => { w with used := false, focused := false }

def minimizeWidget (i : Int) : Desk :=
  match slotOf i with
  | none => s
  | some i => if i = welcomeSlot then s else s.set i fun w => { w with minimized := true, focused := false }

def unminimizeWidget (i : Int) : Desk :=
  match slotOf i with
  | none => s
  | some i => ((s.set i fun w => { w with minimized := false }).raise i).focusOnly (some i)

def raiseWidget (i : Int) : Desk :=
  match slotOf i with
  | none => s
  | some i => s.raise i

/-- The tests of widget_at: the window is on the canvas, and the point is in it. -/
def Shows (col row : Int) (i : Idx) : Prop :=
  let w := s.widgets i
  w.used = true ∧ w.minimized = false ∧ (w.c ≤ col ∧ col < w.c + w.w) ∧ w.r ≤ row ∧ row < w.r + w.h

instance (col row : Int) (i : Idx) : Decidable (s.Shows col row i) := inferInstanceAs (Decidable (_ ∧ _))

/-- The loop of widget_at, with `best` and `best_z`. -/
def widgetAt (col row : Int) : Option Idx :=
  ((List.finRange 8).foldl
    (fun (best : Option Idx × Int) i =>
      if s.Shows col row i ∧ best.2 < (s.widgets i).z then (some i, (s.widgets i).z) else best)
    (none, -1)).1

/-- A click on the canvas, away from the buttons of the title bar. -/
def click (col row : Int) : Desk :=
  match s.widgetAt col row with
  | some i => (s.raise i).focusOnly (some i)
  | none => s.focusOnly none

/-- A click on the taskbar entry of slot `i`. -/
def chip (i : Idx) : Desk :=
  if (s.widgets i).minimized then s.unminimizeWidget i.val else (s.raise i).focusOnly (some i)

/-- `add_welcome_widget`. -/
def addWelcome : Desk :=
  (s.raise welcomeSlot).set welcomeSlot fun w => { w with used := true, kind := .welcome, r := 3, c := 4, w := 30, h := 8 }

/-- The start of desktop_main. -/
def restart : Desk :=
  addWelcome { widgets := fun i => { s.widgets i with used := false }, nextZ := 1 }

end Desk

/-- The static variables before desktop_main has run. -/
def blank : Desk := ⟨fun _ => ⟨false, .welcome, 0, 0, 0, 0, 0, false, false⟩, 1⟩

inductive Op where
  | spawn (k : WidgetKind)
  | close (i : Int)
  | minimize (i : Int)
  | unminimize (i : Int)
  | click (col row : Int)
  | chip (i : Idx)
  | move (i : Idx) (r c w h : Int)
  | restart

def Op.step : Op → Desk → Desk
  | .spawn k, s => s.spawnWidget k
  | .close i, s => s.closeWidget i
  | .minimize i, s => s.minimizeWidget i
  | .unminimize i, s => s.unminimizeWidget i
  | .click col row, s => s.click col row
  | .chip i, s => s.chip i
  | .move i r c w h, s => s.set i fun x => { x with r := r, c := c, w := w, h := h }
  | .restart, s => s.restart

/-- What the window management owes: one focus, on a window that is there to be seen;
no two windows on one level; and the point belongs to the window on top. -/
structure Ordered (s : Desk) : Prop where
  one : ∀ i j, (s.widgets i).focused = true → (s.widgets j).focused = true → i = j
  shown : ∀ i, (s.widgets i).focused = true → (s.widgets i).used = true ∧ (s.widgets i).minimized = false
  distinct : ∀ i j, (s.widgets i).used = true → (s.widgets j).used = true → (s.widgets i).z = (s.widgets j).z → i = j
  top : ∀ col row, match s.widgetAt col row with
    | some i => s.Shows col row i ∧ ∀ j, s.Shows col row j → (s.widgets j).z ≤ (s.widgets i).z
    | none => ∀ j, ¬ s.Shows col row j

/-- The step focuses no window that is not to be seen, and the levels have not run out. -/
def Op.Sound : Op → Desk → Prop
  | .spawn k, s =>
    0 < s.nextZ ∧ match s.existing k with
      | some i => (s.widgets i).minimized = false
      | none => ∀ i, s.freeSlot = some i → k.readOnly = true ∨ (s.widgets i).minimized = false
  | .unminimize i, s => 0 < s.nextZ ∧ ∀ j, slotOf i = some j → (s.widgets j).used = true
  | .click _ _, s => 0 < s.nextZ
  | .chip i, s => 0 < s.nextZ ∧ (s.widgets i).used = true
  | .restart, s => ∀ i, (s.widgets i).focused = true → i = welcomeSlot
  | _, _ => True

/-! Levels: no two windows share one, and the next one is above them all. -/

structure Levels (s : Desk) : Prop where
  distinct : ∀ i j, (s.widgets i).used = true → (s.widgets j).used = true → (s.widgets i).z = (s.widgets j).z → i = j
  pos : ∀ i, (s.widgets i).used = true → 0 < (s.widgets i).z
  below : 0 < s.nextZ → ∀ i, (s.widgets i).used = true → (s.widgets i).z < s.nextZ

variable {s s' : Desk}

/-- Nothing new is used, and nothing moves. -/
theorem Levels.keep (levels : Levels s) (next : s'.nextZ = s.nextZ)
    (same : ∀ j, (s'.widgets j).used = true → (s.widgets j).used = true ∧ (s'.widgets j).z = (s.widgets j).z) :
    Levels s' where
  distinct i j usedI usedJ level := by
    rw [(same i usedI).2, (same j usedJ).2] at level
    exact levels.distinct i j (same i usedI).1 (same j usedJ).1 level
  pos i used := by
    rw [(same i used).2]
    exact levels.pos i (same i used).1
  below room i used := by
    rw [next] at room ⊢
    rw [(same i used).2]
    exact levels.below room i (same i used).1

/-- One window gets the next level. -/
theorem Levels.fresh {i : Idx} (levels : Levels s) (room : 0 < s.nextZ) (next : s'.nextZ = incr s.nextZ)
    (here : (s'.widgets i).z = s.nextZ)
    (same : ∀ j ≠ i, (s'.widgets j).used = true → (s.widgets j).used = true ∧ (s'.widgets j).z = (s.widgets j).z) :
    Levels s' := by
  have lower : ∀ j ≠ i, (s'.widgets j).used = true → (s'.widgets j).z < s.nextZ := by
    intro j other used
    obtain ⟨before, level⟩ := same j other used
    rw [level]
    exact levels.below room j before
  constructor
  · intro j k usedJ usedK level
    by_cases atJ : j = i
    · by_contra apart
      have below := lower k (fun atK => apart (atJ.trans atK.symm)) usedK
      rw [← level, atJ, here] at below
      exact lt_irrefl _ below
    · by_cases atK : k = i
      · have below := lower j atJ usedJ
        rw [level, atK, here] at below
        exact absurd below (lt_irrefl _)
      · obtain ⟨beforeJ, levelJ⟩ := same j atJ usedJ
        obtain ⟨beforeK, levelK⟩ := same k atK usedK
        rw [levelJ, levelK] at level
        exact levels.distinct j k beforeJ beforeK level
  · intro j used
    by_cases atI : j = i
    · rw [atI, here]
      exact room
    · obtain ⟨before, level⟩ := same j atI used
      rw [level]
      exact levels.pos j before
  · intro more j used
    have up : s.nextZ < s'.nextZ := by
      rw [next, incr] at more ⊢
      split at more
      · omega
      next small =>
        rw [if_neg small]
        omega
    by_cases atI : j = i
    · rw [atI, here]
      exact up
    · exact (lower j atI used).trans up

/-! Focus. -/

structure Focus (s : Desk) : Prop where
  one : ∀ i j, (s.widgets i).focused = true → (s.widgets j).focused = true → i = j
  shown : ∀ i, (s.widgets i).focused = true → (s.widgets i).used = true ∧ (s.widgets i).minimized = false

/-- No window gets the focus, and the one that has it stays in sight. -/
theorem Focus.keep (focus : Focus s)
    (same : ∀ i, (s'.widgets i).focused = true →
      (s.widgets i).focused = true ∧ (s'.widgets i).used = (s.widgets i).used ∧
        (s'.widgets i).minimized = (s.widgets i).minimized) : Focus s' where
  one i j focusedI focusedJ := focus.one i j (same i focusedI).1 (same j focusedJ).1
  shown i focused := by
    obtain ⟨before, used, minimized⟩ := same i focused
    rw [used, minimized]
    exact focus.shown i before

theorem Focus.only {i : Idx} (used : (s.widgets i).used = true) (minimized : (s.widgets i).minimized = false) :
    Focus (s.focusOnly (some i)) where
  one j k focusedJ focusedK := by
    have atJ : i = j := Option.some.inj (of_decide_eq_true focusedJ)
    have atK : i = k := Option.some.inj (of_decide_eq_true focusedK)
    exact atJ.symm.trans atK
  shown j focused := by
    have atJ : i = j := Option.some.inj (of_decide_eq_true focused)
    rw [← atJ]
    exact ⟨used, minimized⟩

theorem Focus.nowhere : Focus (s.focusOnly none) where
  one j _ focused _ := by
    have nowhere : (none : Option Idx) = some j := of_decide_eq_true focused
    cases nowhere
  shown j focused := by
    have nowhere : (none : Option Idx) = some j := of_decide_eq_true focused
    cases nowhere

theorem Levels.focusOnly (levels : Levels s) (idx : Option Idx) : Levels (s.focusOnly idx) :=
  levels.keep rfl fun _ used => ⟨used, rfl⟩

/-! The changes to one slot. -/

theorem set_here (i : Idx) (f : Widget → Widget) : (s.set i f).widgets i = f (s.widgets i) :=
  Function.update_self _ _ _

theorem set_other {i j : Idx} (f : Widget → Widget) (other : j ≠ i) : (s.set i f).widgets j = s.widgets j :=
  Function.update_of_ne other _ _

/-- What the change leaves alone in its slot, it leaves alone. -/
theorem set_same {α : Type} {i : Idx} {f : Widget → Widget} (field : Widget → α)
    (same : field (f (s.widgets i)) = field (s.widgets i)) (j : Idx) :
    field ((s.set i f).widgets j) = field (s.widgets j) := by
  by_cases here : j = i
  · rw [here, set_here, same]
  · rw [set_other f here]

theorem raise_here (i : Idx) : (s.raise i).widgets i = { s.widgets i with z := s.nextZ } :=
  set_here i fun w => { w with z := s.nextZ }

theorem raise_other {i j : Idx} (other : j ≠ i) : (s.raise i).widgets j = s.widgets j :=
  set_other (fun w => { w with z := s.nextZ }) other

/-- A window keeps its flags when it is raised. -/
theorem raise_flags (i j : Idx) :
    ((s.raise i).widgets j).used = (s.widgets j).used ∧ ((s.raise i).widgets j).focused = (s.widgets j).focused ∧
      ((s.raise i).widgets j).minimized = (s.widgets j).minimized :=
  let f (w : Widget) : Widget := { w with z := s.nextZ }
  ⟨set_same (f := f) Widget.used rfl j, set_same (f := f) Widget.focused rfl j, set_same (f := f) Widget.minimized rfl j⟩

theorem Levels.raise (levels : Levels s) (room : 0 < s.nextZ) (i : Idx) : Levels (s.raise i) := by
  apply levels.fresh room rfl (i := i)
  · rw [raise_here]
  · intro j other used
    rw [raise_other other] at used ⊢
    exact ⟨used, rfl⟩

/-! The window at a point. -/

/-- What the loop of widget_at knows after the slots of `l`. -/
def BestOf (s : Desk) (col row : Int) (l : List Idx) (best : Option Idx × Int) : Prop :=
  (best = (none, -1) ∧ ∀ j ∈ l, ¬ s.Shows col row j) ∨
    ∃ i ∈ l, best = (some i, (s.widgets i).z) ∧ s.Shows col row i ∧
      ∀ j ∈ l, s.Shows col row j → (s.widgets j).z ≤ (s.widgets i).z

theorem bestOf_foldl (levels : Levels s) (col row : Int) (l : List Idx) : ∀ {seen : List Idx} {best : Option Idx × Int},
    BestOf s col row seen best → BestOf s col row (seen ++ l) (l.foldl
      (fun best i => if s.Shows col row i ∧ best.2 < (s.widgets i).z then (some i, (s.widgets i).z) else best) best) := by
  induction l with
  | nil =>
      intro seen best known
      rw [List.append_nil]
      exact known
  | cons a l ih =>
      intro seen best known
      rw [List.foldl_cons, List.append_cons]
      apply ih
      split
      next better =>
        refine .inr ⟨a, by simp, rfl, better.1, fun j member shows => ?_⟩
        rcases List.mem_append.mp member with before | now
        · rcases known with ⟨-, absent⟩ | ⟨i, -, rfl, -, greatest⟩
          · exact absurd shows (absent j before)
          · exact (greatest j before shows).trans better.2.le
        · rw [List.mem_singleton.mp now]
      next worse =>
        rcases known with ⟨rfl, absent⟩ | ⟨i, member, rfl, shows, greatest⟩
        · refine .inl ⟨rfl, fun j member shows => ?_⟩
          rcases List.mem_append.mp member with before | now
          · exact absent j before shows
          · rw [List.mem_singleton.mp now] at shows
            have up := levels.pos a shows.1
            exact worse ⟨shows, by dsimp only; omega⟩
        · refine .inr ⟨i, List.mem_append_left _ member, rfl, shows, fun j member shows' => ?_⟩
          rcases List.mem_append.mp member with before | now
          · exact greatest j before shows'
          · rw [List.mem_singleton.mp now] at shows' ⊢
            by_contra higher
            exact worse ⟨shows', not_le.mp higher⟩

theorem widgetAt_top (levels : Levels s) (col row : Int) :
    match s.widgetAt col row with
    | some i => s.Shows col row i ∧ ∀ j, s.Shows col row j → (s.widgets j).z ≤ (s.widgets i).z
    | none => ∀ j, ¬ s.Shows col row j := by
  have start : BestOf s col row [] (none, -1) :=
    .inl ⟨rfl, fun _ member => absurd member List.not_mem_nil⟩
  have loop := bestOf_foldl levels col row (List.finRange 8) start
  rw [List.nil_append] at loop
  rw [Desk.widgetAt]
  rcases loop with ⟨best, absent⟩ | ⟨i, -, best, shows, greatest⟩
  · rw [best]
    exact fun j => absent j (List.mem_finRange j)
  · rw [best]
    exact ⟨shows, fun j => greatest j (List.mem_finRange j)⟩

/-! Every step. -/

/-- What holds between the steps; Welcome is never minimized. -/
structure Kept (s : Desk) : Prop where
  levels : Levels s
  focus : Focus s
  welcome : (s.widgets welcomeSlot).minimized = false

theorem Kept.ordered (kept : Kept s) : Ordered s where
  one := kept.focus.one
  shown := kept.focus.shown
  distinct := kept.levels.distinct
  top := widgetAt_top kept.levels

theorem focusOnly_minimized (idx : Option Idx) (i : Idx) :
    ((s.focusOnly idx).widgets i).minimized = (s.widgets i).minimized := rfl

theorem slotOf_val (i : Idx) : slotOf i.val = some i := by
  rw [slotOf, dif_pos (by omega)]
  rfl

/-- A raise and the focus, for a window that is to be seen. -/
theorem Kept.raiseFocus (kept : Kept s) (room : 0 < s.nextZ) {i : Idx} (used : (s.widgets i).used = true)
    (seen : (s.widgets i).minimized = false) : Kept ((s.raise i).focusOnly (some i)) where
  levels := (kept.levels.raise room i).focusOnly _
  focus := by
    obtain ⟨sameUsed, -, sameMin⟩ := raise_flags (s := s) i i
    exact Focus.only (sameUsed.trans used) (sameMin.trans seen)
  welcome := by
    rw [focusOnly_minimized, (raise_flags i welcomeSlot).2.2]
    exact kept.welcome

theorem existing_used {k : WidgetKind} {i : Idx} (found : s.existing k = some i) : (s.widgets i).used = true := by
  rw [Desk.existing] at found
  split at found
  · have test := List.find?_some found
    simp only [Bool.and_eq_true] at test
    exact test.1
  · cases found

theorem freeSlot_free {i : Idx} (found : s.freeSlot = some i) : i ≠ welcomeSlot ∧ (s.widgets i).used = false := by
  have test := List.find?_some found
  simpa using test

theorem openAt_here (k : WidgetKind) (i : Idx) :
    ((s.openAt k i).widgets i).used = true ∧ ((s.openAt k i).widgets i).z = s.nextZ ∧
      ((s.openAt k i).widgets i).focused = !k.readOnly ∧
      ((s.openAt k i).widgets i).minimized = (s.widgets i).minimized := by
  rw [Desk.openAt, set_here, raise_here]
  exact ⟨rfl, rfl, rfl, rfl⟩

theorem openAt_other (k : WidgetKind) {i j : Idx} (other : j ≠ i) : (s.openAt k i).widgets j = s.widgets j := by
  rw [Desk.openAt, set_other _ other, raise_other other]

theorem Levels.openAt (levels : Levels s) (room : 0 < s.nextZ) (k : WidgetKind) (i : Idx) : Levels (s.openAt k i) := by
  apply levels.fresh room rfl (openAt_here k i).2.1
  intro j other used
  rw [openAt_other k other] at used ⊢
  exact ⟨used, rfl⟩

theorem Kept.spawnWidget (kept : Kept s) {k : WidgetKind} (sound : Op.Sound (.spawn k) s) : Kept (s.spawnWidget k) := by
  obtain ⟨room, seen⟩ := sound
  rw [Desk.spawnWidget]
  cases found : s.existing k with
  | some i =>
      rw [found] at seen
      exact kept.raiseFocus room (existing_used found) seen
  | none =>
      rw [found] at seen
      cases free : s.freeSlot with
      | none => exact kept
      | some i =>
          dsimp only
          obtain ⟨notWelcome, unused⟩ := freeSlot_free free
          obtain ⟨used, -, focused, minimized⟩ := openAt_here (s := s) k i
          have levels := kept.levels.openAt room k i
          have welcome : ((s.openAt k i).widgets welcomeSlot).minimized = false := by
            rw [openAt_other k notWelcome.symm]
            exact kept.welcome
          cases quiet : k.readOnly with
          | true =>
              rw [if_pos rfl]
              refine ⟨levels, kept.focus.keep fun j focus => ?_, welcome⟩
              by_cases here : j = i
              · rw [here, focused, quiet] at focus
                cases focus
              · rw [openAt_other k here] at focus ⊢
                exact ⟨focus, rfl, rfl⟩
          | false =>
              rw [if_neg Bool.false_ne_true]
              refine ⟨levels.focusOnly _, Focus.only used ?_, welcome⟩
              rcases seen i free with readOnly | seen
              · rw [quiet] at readOnly
                cases readOnly
              · exact minimized.trans seen

/-- A change that takes the use or the sight from one window takes its focus. -/
theorem Kept.hide (kept : Kept s) {i : Idx} {f : Widget → Widget} (notWelcome : i ≠ welcomeSlot)
    (used : (f (s.widgets i)).used = true → (s.widgets i).used = true) (z : (f (s.widgets i)).z = (s.widgets i).z)
    (focused : (f (s.widgets i)).focused = false) : Kept (s.set i f) where
  levels := by
    refine kept.levels.keep rfl fun j usedJ => ?_
    by_cases here : j = i
    · rw [here, set_here] at usedJ ⊢
      exact ⟨used usedJ, z⟩
    · rw [set_other f here] at usedJ ⊢
      exact ⟨usedJ, rfl⟩
  focus := by
    refine kept.focus.keep fun j focusJ => ?_
    by_cases here : j = i
    · rw [here, set_here, focused] at focusJ
      cases focusJ
    · rw [set_other f here] at focusJ ⊢
      exact ⟨focusJ, rfl, rfl⟩
  welcome := by
    rw [set_other f notWelcome.symm]
    exact kept.welcome

theorem Kept.unminimizeWidget (kept : Kept s) {i : Int} (sound : Op.Sound (.unminimize i) s) :
    Kept (s.unminimizeWidget i) := by
  obtain ⟨room, inUse⟩ := sound
  rw [Desk.unminimizeWidget]
  cases found : slotOf i with
  | none => exact kept
  | some i =>
      dsimp only
      let f (w : Widget) : Widget := { w with minimized := false }
      have used := set_same (s := s) (i := i) (f := f) Widget.used rfl
      have level := set_same (s := s) (i := i) (f := f) Widget.z rfl
      have levels : Levels (s.set i fun w => { w with minimized := false }) :=
        kept.levels.keep rfl fun j inSlot => ⟨(used j).symm.trans inSlot, level j⟩
      refine ⟨(levels.raise room i).focusOnly _, Focus.only ?_ ?_, ?_⟩
      · exact ((raise_flags i i).1.trans (used i)).trans (inUse i found)
      · rw [(raise_flags i i).2.2, set_here]
      · rw [focusOnly_minimized, (raise_flags i welcomeSlot).2.2]
        by_cases here : welcomeSlot = i
        · rw [← here, set_here]
        · rw [set_other _ here]
          exact kept.welcome

theorem Kept.restart (kept : Kept s) (sound : Op.Sound .restart s) : Kept s.restart := by
  let emptied : Desk := { widgets := fun i => { s.widgets i with used := false }, nextZ := 1 }
  have noLevels : Levels emptied := by
    constructor
    · intro i j used
      cases used
    · intro i used
      cases used
    · intro _ i used
      cases used
  have here : s.restart.widgets welcomeSlot =
      { s.widgets welcomeSlot with used := true, kind := .welcome, r := 3, c := 4, w := 30, h := 8, z := 1 } := by
    rw [Desk.restart, Desk.addWelcome, set_here, raise_here]
  have other : ∀ j : Idx, j ≠ welcomeSlot → s.restart.widgets j = emptied.widgets j := by
    intro j other
    rw [Desk.restart, Desk.addWelcome, set_other _ other, raise_other other]
  constructor
  · apply noLevels.fresh (by decide : (0 : Int) < 1) rfl (i := welcomeSlot)
    · rw [here]
    · intro j elsewhere used
      rw [other j elsewhere] at used
      cases used
  · have only : ∀ j, (s.restart.widgets j).focused = true → j = welcomeSlot := by
      intro j focused
      by_contra elsewhere
      rw [other j elsewhere] at focused
      exact elsewhere (sound j focused)
    constructor
    · exact fun i j focusedI focusedJ => (only i focusedI).trans (only j focusedJ).symm
    · intro i focused
      rw [only i focused, here]
      exact ⟨rfl, kept.welcome⟩
  · rw [here]
    exact kept.welcome

theorem Kept.step {a : Op} (kept : Kept s) (sound : a.Sound s) : Kept (a.step s) := by
  cases a with
  | spawn k => exact kept.spawnWidget sound
  | close i =>
      change Kept (s.closeWidget i)
      rw [Desk.closeWidget]
      split
      · exact kept
      · split
        · exact kept
        next notWelcome => exact kept.hide notWelcome (fun used => by cases used) rfl rfl
  | minimize i =>
      change Kept (s.minimizeWidget i)
      rw [Desk.minimizeWidget]
      split
      · exact kept
      · split
        · exact kept
        next notWelcome => exact kept.hide notWelcome id rfl rfl
  | unminimize i => exact kept.unminimizeWidget sound
  | click col row =>
      change Kept (s.click col row)
      have top := widgetAt_top kept.levels col row
      rw [Desk.click]
      cases hit : s.widgetAt col row with
      | some i =>
          rw [hit] at top
          exact kept.raiseFocus sound top.1.1 top.1.2.1
      | none => exact ⟨kept.levels.focusOnly _, Focus.nowhere, kept.welcome⟩
  | chip i =>
      obtain ⟨room, used⟩ := sound
      change Kept (s.chip i)
      rw [Desk.chip]
      split
      · refine kept.unminimizeWidget ⟨room, fun j found => ?_⟩
        rw [slotOf_val] at found
        rw [← Option.some.inj found]
        exact used
      next seen => exact kept.raiseFocus room used (Bool.eq_false_of_not_eq_true seen)
  | move i r c w h =>
      let f (x : Widget) : Widget := { x with r := r, c := c, w := w, h := h }
      have used := set_same (s := s) (i := i) (f := f) Widget.used rfl
      have level := set_same (s := s) (i := i) (f := f) Widget.z rfl
      have focused := set_same (s := s) (i := i) (f := f) Widget.focused rfl
      have minimized := set_same (s := s) (i := i) (f := f) Widget.minimized rfl
      exact {
        levels := kept.levels.keep rfl fun j inSlot => ⟨(used j).symm.trans inSlot, level j⟩
        focus := kept.focus.keep fun j focus => ⟨(focused j).symm.trans focus, used j, minimized j⟩
        welcome := (minimized welcomeSlot).trans kept.welcome }
  | restart => exact kept.restart sound

theorem blank_kept : Kept blank where
  levels := by
    constructor
    · intro i j used
      cases used
    · intro i used
      cases used
    · intro _ i used
      cases used
  focus := by
    constructor
    · intro i j focused
      cases focused
    · intro i focused
      cases focused
  welcome := rfl

/-- After every step of a run whose steps are sound, the windows are in order. -/
theorem windows_ordered {ops : List Op} (sound : Runs.Each Op.step Op.Sound ops blank.restart) :
    Ordered (Runs.run Op.step ops blank.restart) :=
  have start : Kept blank.restart := blank_kept.restart fun _ focused => by cases focused
  (sound.run (fun _ _ kept sound => Kept.step kept sound) start).ordered

/-- Notes, and a click on the desktop. -/
theorem windows_ordered_notes : Ordered (Runs.run Op.step [.spawn .notes, .click 0 0] blank.restart) :=
  have unminimized : ∀ i, (blank.restart.widgets i).minimized = false := by decide
  have room : 0 < (blank.restart.spawnWidget .notes).nextZ := by decide
  windows_ordered ⟨⟨by decide, fun i _ => .inr (unminimized i)⟩, room, trivial⟩

/-- Notes is minimized and opened again from the menu: it has the focus, out of sight. -/
theorem minimized_focused : ¬ Ordered (Runs.run Op.step [.spawn .notes, .minimize 1, .spawn .notes] blank.restart) := by
  intro ordered
  have seen := (ordered.shown 1 (by decide)).2
  revert seen
  decide

end Zenbite.Desktop
