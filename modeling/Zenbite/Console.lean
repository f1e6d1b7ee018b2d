import Zenbite.Vga

/-! Text on the console (vga.c): the same text on a page without an end, of which the screen
shows the last 25 rows. -/

namespace Zenbite.Vga

open Memory

/-- Rows without an end, and the cursor. -/
structure Page where
  cells : Nat → Nat → Cell
  row : Nat
  col : Nat

namespace Page

variable (p : Page)

/-- The first of the last 25 rows. -/
def top : Nat := p.row - (vgaRows - 1)

def put (x : Cell) : Page := { p with cells := fun r c => if r = p.row ∧ c = p.col then x else p.cells r c }

def wrap : Page := if vgaCols ≤ p.col then { p with row := p.row + 1, col := 0 } else p

/-- The step of vga_putc where nothing scrolls. -/
def putc (fg bg ch : UInt8) : Page :=
  if ch = 10 then { p with row := p.row + 1, col := 0 }
  else if ch = 13 then { p with col := 0 }
  else if ch = 8 then { p with col := p.col - 1 }.put (entry 32 fg bg)
  else if ch = 9 then { p with col := 8 * (p.col / 8 + 1) }.wrap
  else { p.put (entry ch fg bg) with col := p.col + 1 }.wrap

def puts (fg bg : UInt8) (s : List UInt8) : Page := s.foldl (fun p ch => p.putc fg bg ch) p

end Page

/-- Stores to VGA_BUF, in order. -/
def storeAll (screen : Nat → Cell) (stores : List (Nat × Cell)) : Nat → Cell :=
  stores.foldl (fun m s => Function.update m s.1 s.2) screen

/-- A loop over `n` cells from `start` on. -/
def cellStores (start n : Nat) (f : Nat → Cell) : List (Nat × Cell) := (List.range n).map fun i => (start + i, f i)

namespace Display

variable (v : Display)

/-- The screen, with blank rows behind it. -/
def page : Page :=
  { cells := fun r c => if r < vgaRows then v.screen (r * vgaCols + c) else entry 32 v.fg v.bg
    row := v.row.toNat, col := v.col.toNat }

/-- vga_putc without redirection, before scroll_if_needed. -/
def typed (ch : UInt8) : Display :=
  if ch = 10 then { v with col := 0, row := v.row + 1 }
  else if ch = 13 then { v with col := 0 }
  else if ch = 8 then (if v.col ≠ 0 then { v with col := v.col - 1 } else v).putAt 32
  else if ch = 9 then { v with col := (v.col + 8) &&& ~~~7 }.wrapCol
  else { v.putAt ch with col := v.col + 1 }.wrapCol

/-- The stores of `typed`. -/
def charStores (ch : UInt8) : List (Nat × Cell) :=
  if ch = 10 then []
  else if ch = 13 then []
  else if ch = 8 then
    [(v.row.toNat * vgaCols + (if v.col ≠ 0 then v.col - 1 else v.col).toNat, entry 32 v.fg v.bg)]
  else if ch = 9 then []
  else [(v.row.toNat * vgaCols + v.col.toNat, entry ch v.fg v.bg)]

/-- The stores of scroll_if_needed. -/
def scrollStores : List (Nat × Cell) :=
  if v.row.toNat < vgaRows then []
  else
    cellStores 0 ((vgaRows - 1) * vgaCols) (window v.screen vgaCols) ++
      cellStores ((vgaRows - 1) * vgaCols) vgaCols fun _ => entry 32 v.fg v.bg

/-- The stores of vga_putc. -/
def stores (ch : UInt8) : List (Nat × Cell) := v.charStores ch ++ (v.typed ch).scrollStores

/-- The cursor is inside the screen, and text is not redirected. -/
structure Inside (v : Display) : Prop where
  row : v.row.toNat < vgaRows
  col : v.col.toNat < vgaCols
  direct : v.redir = none

end Display

def puts (s : List UInt8) (v : Display) : Display := Runs.run (fun ch v => v.putc ch) s v

variable {v : Display} {p : Page} {ch : UInt8}

theorem putc_typed (direct : v.redir = none) : v.putc ch = (v.typed ch).scrollIfNeeded := by
  rw [Display.putc]
  split
  next r redirected => cases direct.symm.trans redirected
  next => rfl

/-! Stores -/

theorem storeAll_append (screen : Nat → Cell) (first second : List (Nat × Cell)) :
    storeAll screen (first ++ second) = storeAll (storeAll screen first) second :=
  List.foldl_append

theorem storeAll_cells (screen f : Nat → Cell) (start n : Nat) :
    storeAll screen (cellStores start n f) = splice screen start n f := by
  induction n with
  | zero => exact (splice_zero screen f start).symm
  | succ n ih =>
      have last : cellStores start (n + 1) f = cellStores start n f ++ [(start + n, f n)] := by
        rw [cellStores, List.range_succ, List.map_append]
        rfl
      rw [last, storeAll_append, ih, storeAll, List.foldl_cons, List.foldl_nil]
      funext i
      rw [Function.update_apply, splice, splice]
      by_cases here : i = start + n
      · rw [if_pos here, if_pos (by omega), here, Nat.add_sub_cancel_left]
      · rw [if_neg here]
        exact if_congr (by omega) rfl rfl

theorem wrapCol_screen (v : Display) : v.wrapCol.screen = v.screen := by
  rw [Display.wrapCol]
  split <;> rfl

theorem typed_screen (v : Display) (ch : UInt8) : (v.typed ch).screen = storeAll v.screen (v.charStores ch) := by
  rw [Display.typed, Display.charStores]
  split_ifs with newline ret back still tab
  · rfl
  · rfl
  · rfl
  · rfl
  · exact wrapCol_screen _
  · exact wrapCol_screen _

theorem scroll_screen (v : Display) : v.scrollIfNeeded.screen = storeAll v.screen v.scrollStores := by
  rw [Display.scrollIfNeeded, Display.scrollStores]
  split_ifs with above
  · rfl
  · rw [storeAll_append, storeAll_cells, storeAll_cells]

theorem putc_screen (direct : v.redir = none) : (v.putc ch).screen = storeAll v.screen (v.stores ch) := by
  rw [putc_typed direct, scroll_screen, typed_screen, Display.stores, storeAll_append]

/-! The step -/

theorem tab_stop {col : UInt16} (inside : col.toNat < vgaCols) : ((col + 8) &&& ~~~7).toNat = 8 * (col.toNat / 8 + 1) := by
  have all : ∀ c : Fin 80, ((UInt16.ofNat c.val + 8) &&& ~~~7).toNat = 8 * (c.val / 8 + 1) := by decide +kernel
  have here := all ⟨col.toNat, inside⟩
  rwa [UInt16.ofNat_toNat] at here

theorem toNat_succ {x : UInt16} {n : Nat} (below : x.toNat < n) (small : n < 2 ^ 16) : (x + 1).toNat = x.toNat + 1 := by
  rw [UInt16.toNat_add]
  exact Nat.mod_eq_of_lt (by change x.toNat + 1 < 2 ^ 16; omega)

/-- The screen is the page from row `t` on, and what is below it on the page is blank. -/
structure Shows (t : Nat) (p : Page) (v : Display) : Prop where
  row : v.row.toNat + t = p.row
  col : v.col.toNat = p.col
  same : ∀ r < vgaRows, ∀ c < vgaCols, v.screen (r * vgaCols + c) = p.cells (t + r) c
  blank : ∀ r c, t + vgaRows ≤ r → p.cells r c = entry 32 v.fg v.bg

/-- The cursor is not higher than in `v` and may be one row below the screen, and the rest
is as in `v`. -/
structure Moved (v w : Display) : Prop where
  down : v.row.toNat ≤ w.row.toNat
  row : w.row.toNat ≤ vgaRows
  col : w.col.toNat < vgaCols
  fg : w.fg = v.fg
  bg : w.bg = v.bg
  redir : w.redir = v.redir

namespace Shows

variable {t : Nat}

theorem put (shows : Shows t p v) (row : v.row.toNat < vgaRows) (col : v.col.toNat < vgaCols) (c : UInt8) :
    Shows t (p.put (entry c v.fg v.bg)) (v.putAt c) where
  row := shows.row
  col := shows.col
  same := by
    intro r insideR x insideC
    have onPage := shows.row
    have place : r * vgaCols + x = v.row.toNat * vgaCols + v.col.toNat ↔ t + r = p.row ∧ x = p.col := by
      rw [← shows.col, ← onPage]
      simp only [vgaCols] at insideC col ⊢
      omega
    rw [Display.putAt, Page.put]
    dsimp only
    rw [Function.update_apply]
    exact if_congr place rfl (shows.same r insideR x insideC)
  blank := by
    intro r x below
    have other : ¬ (r = p.row ∧ x = p.col) := fun here => by
      have onPage := shows.row
      omega
    exact (if_neg other).trans (shows.blank r x below)

theorem newline (shows : Shows t p v) (row : v.row.toNat < vgaRows) :
    Shows t { p with row := p.row + 1, col := 0 } { v with row := v.row + 1, col := 0 } where
  row := by
    rw [toNat_succ row (by decide), Nat.add_right_comm, shows.row]
  col := rfl
  same := shows.same
  blank := shows.blank

/-- The cursor in another column of its row. -/
theorem moveTo (shows : Shows t p v) {x : UInt16} {c : Nat} (place : x.toNat = c) :
    Shows t { p with col := c } { v with col := x } := ⟨shows.row, place, shows.same, shows.blank⟩

theorem newline_moved (row : v.row.toNat < vgaRows) : Moved v { v with row := v.row + 1, col := 0 } := by
  have below : (v.row + 1).toNat = v.row.toNat + 1 := toNat_succ row (by decide)
  exact ⟨below ▸ Nat.le_succ _, below ▸ row, Nat.succ_pos 79, rfl, rfl, rfl⟩

theorem wrap (shows : Shows t p v) (row : v.row.toNat < vgaRows) : Shows t p.wrap v.wrapCol ∧ Moved v v.wrapCol := by
  rw [Page.wrap, Display.wrapCol, shows.col]
  split_ifs with full
  · exact ⟨shows.newline row, newline_moved row⟩
  · have col : v.col.toNat < vgaCols := shows.col ▸ Nat.lt_of_not_le full
    exact ⟨shows, ⟨Nat.le_refl _, row.le, col, rfl, rfl, rfl⟩⟩

/-- Before the scrolling the page and the screen do the same. -/
theorem typed (shows : Shows t p v) (inside : v.Inside) (ch : UInt8) :
    Shows t (p.putc v.fg v.bg ch) (v.typed ch) ∧ Moved v (v.typed ch) := by
  have row := inside.row
  have col := inside.col
  rw [Page.putc, Display.typed]
  split_ifs with newline ret back some' tab
  · exact ⟨shows.newline row, newline_moved row⟩
  · exact ⟨shows.moveTo rfl, ⟨Nat.le_refl _, row.le, Nat.succ_pos 79, rfl, rfl, rfl⟩⟩
  · have before : 1 ≤ v.col := UInt16.pos_iff_ne_zero.mpr some'
    have left : (v.col - 1).toNat = p.col - 1 := by
      rw [UInt16.toNat_sub_of_le v.col 1 before, shows.col]
      rfl
    have fits : (v.col - 1).toNat < vgaCols := by
      rw [left, ← shows.col]
      omega
    exact ⟨(shows.moveTo left).put row fits 32, ⟨Nat.le_refl _, row.le, fits, rfl, rfl, rfl⟩⟩
  · have first : p.col - 1 = p.col := by
      rw [← shows.col, not_not.mp some']
      rfl
    rw [first]
    exact ⟨shows.put row col 32, ⟨Nat.le_refl _, row.le, col, rfl, rfl, rfl⟩⟩
  · have stop : ((v.col + 8) &&& ~~~7).toNat = 8 * (p.col / 8 + 1) := by
      rw [tab_stop col, shows.col]
    have step := (shows.moveTo stop).wrap row
    exact ⟨step.1, ⟨step.2.down, step.2.row, step.2.col, step.2.fg, step.2.bg, step.2.redir⟩⟩
  · have next : (v.col + 1).toNat = p.col + 1 := by
      rw [toNat_succ col (by decide), shows.col]
    have step := ((shows.put row col ch).moveTo next).wrap row
    exact ⟨step.1, ⟨step.2.down, step.2.row, step.2.col, step.2.fg, step.2.bg, step.2.redir⟩⟩

/-- Scrolling moves the screen one row down on the page. -/
theorem scroll (shows : Shows t p v) (row : v.row.toNat ≤ vgaRows) :
    Shows (if v.row.toNat < vgaRows then t else t + 1) p v.scrollIfNeeded ∧ v.scrollIfNeeded.row.toNat < vgaRows := by
  rw [Display.scrollIfNeeded]
  split_ifs with above
  · exact ⟨shows, above⟩
  · have last : v.row.toNat = vgaRows := Nat.le_antisymm row (Nat.le_of_not_lt above)
    have onPage := shows.row
    have bottom : (24 : UInt16).toNat < vgaRows := by decide
    apply And.intro _ bottom
    constructor
    · rw [← onPage, last, Nat.add_comm t 1, ← Nat.add_assoc]
      rfl
    · exact shows.col
    · intro r insideR c insideC
      dsimp only
      rcases Nat.lt_or_ge r (vgaRows - 1) with low | high
      · have kept : r * vgaCols + c < (vgaRows - 1) * vgaCols := by
          simp only [vgaRows, vgaCols] at low insideC ⊢
          omega
        have source : vgaCols + (r * vgaCols + c) = (r + 1) * vgaCols + c := by
          rw [Nat.succ_mul, ← Nat.add_assoc, Nat.add_comm vgaCols]
        have row : t + 1 + r = t + (r + 1) := by omega
        rw [splice_outside _ _ (Or.inl kept), splice_inside _ _ (Nat.zero_le _) (by rwa [Nat.zero_add]), window,
          Nat.sub_zero, source, row]
        exact shows.same (r + 1) (by omega) c insideC
      · have lastRow : r = vgaRows - 1 := by omega
        rw [lastRow, splice_inside _ _ (Nat.le_add_right _ _) (Nat.add_lt_add_left insideC _)]
        exact (shows.blank _ c (by simp only [vgaRows]; omega)).symm
    · exact fun r c below => shows.blank r c (by omega)

/-- One character, from the cursor on any row of the screen. -/
theorem putc (shows : Shows p.top p v) (inside : v.Inside) (ch : UInt8) :
    Shows (p.putc v.fg v.bg ch).top (p.putc v.fg v.bg ch) (v.putc ch) ∧ (v.putc ch).Inside ∧
      (v.putc ch).fg = v.fg ∧ (v.putc ch).bg = v.bg := by
  obtain ⟨typed, moved⟩ := shows.typed inside ch
  obtain ⟨scrolled, row⟩ := typed.scroll moved.row
  have frame : (v.typed ch).scrollIfNeeded.col = (v.typed ch).col ∧ (v.typed ch).scrollIfNeeded.fg = v.fg ∧
      (v.typed ch).scrollIfNeeded.bg = v.bg ∧ (v.typed ch).scrollIfNeeded.redir = v.redir := by
    rw [Display.scrollIfNeeded]
    split_ifs
    · exact ⟨rfl, moved.fg, moved.bg, moved.redir⟩
    · exact ⟨rfl, moved.fg, moved.bg, moved.redir⟩
  rw [putc_typed inside.direct]
  have top : (if (v.typed ch).row.toNat < vgaRows then p.top else p.top + 1) = (p.putc v.fg v.bg ch).top := by
    have before : v.row.toNat + p.top = p.row := shows.row
    have first : p.top = p.row - 24 := rfl
    have last : (p.putc v.fg v.bg ch).top = (v.typed ch).row.toNat + p.top - 24 := congrArg (· - 24) typed.row.symm
    have down := moved.down
    have low : (v.typed ch).row.toNat ≤ 25 := moved.row
    rw [last]
    by_cases above : (v.typed ch).row.toNat < vgaRows
    · have room : (v.typed ch).row.toNat < 25 := above
      rw [if_pos above]
      omega
    · have full : ¬ (v.typed ch).row.toNat < 25 := above
      rw [if_neg above]
      omega
  rw [top] at scrolled
  exact ⟨scrolled, ⟨row, frame.1 ▸ moved.col, frame.2.2.2.trans inside.direct⟩, frame.2.1, frame.2.2.1⟩

theorem puts (s : List UInt8) : ∀ {p : Page} {v : Display}, Shows p.top p v → v.Inside →
    Shows (p.puts v.fg v.bg s).top (p.puts v.fg v.bg s) (Vga.puts s v) ∧ (Vga.puts s v).Inside := by
  induction s with
  | nil => exact fun shows inside => ⟨shows, inside⟩
  | cons ch s ih =>
      intro p v shows inside
      obtain ⟨step, still, fg, bg⟩ := shows.putc inside ch
      have rest := ih step still
      rw [fg, bg] at rest
      exact rest

end Shows

/-- At the start the page is the screen. -/
theorem page_shows (inside : v.Inside) : Shows v.page.top v.page v := by
  have none : v.page.top = 0 := Nat.sub_eq_zero_of_le (Nat.le_of_lt_succ inside.row)
  rw [none]
  constructor
  · exact Nat.add_zero _
  · rfl
  · intro r insideR c _
    rw [Nat.zero_add]
    exact (if_pos insideR).symm
  · intro r c below
    exact if_neg (by omega)

theorem mem_cellStores {start n : Nat} {f : Nat → Cell} {s : Nat × Cell} (member : s ∈ cellStores start n f) :
    s.1 < start + n := by
  obtain ⟨i, inside, rfl⟩ := List.mem_map.mp member
  exact Nat.add_lt_add_left (List.mem_range.mp inside) start

theorem stores_inside (inside : v.Inside) (ch : UInt8) : ∀ s ∈ v.stores ch, s.1 < cells := by
  have place {c : UInt16} (col : c.toNat < vgaCols) : v.row.toNat * vgaCols + c.toNat < cells := by
    have row := inside.row
    simp only [cells, vgaRows, vgaCols] at row col ⊢
    omega
  intro s member
  rcases List.mem_append.mp member with typed | scrolled
  · rw [Display.charStores] at typed
    split_ifs at typed with newline ret back still tab
    · cases typed
    · cases typed
    · rw [List.mem_singleton.mp typed]
      have left : (v.col - 1).toNat < vgaCols := by
        rw [UInt16.toNat_sub_of_le v.col 1 (UInt16.pos_iff_ne_zero.mpr still)]
        exact Nat.lt_of_le_of_lt (Nat.sub_le _ _) inside.col
      exact place left
    · rw [List.mem_singleton.mp typed]
      exact place inside.col
    · cases typed
    · rw [List.mem_singleton.mp typed]
      exact place inside.col
  · rw [Display.scrollStores] at scrolled
    split_ifs at scrolled with above
    · cases scrolled
    · rcases List.mem_append.mp scrolled with rows | last
      · exact Nat.lt_of_lt_of_le (mem_cellStores rows) (by decide)
      · exact mem_cellStores last

/-- Text from a cursor inside the screen is stored inside the screen, leaves the cursor
inside, and the screen is the last 25 rows of the page with the text. -/
theorem console_refines_page (inside : v.Inside) (s : List UInt8) :
    let p := v.page.puts v.fg v.bg s
    (puts s v).Inside ∧ (∀ r < vgaRows, ∀ c < vgaCols, (puts s v).screen (r * vgaCols + c) = p.cells (p.top + r) c) ∧
      Runs.Each (fun ch v => v.putc ch)
        (fun ch v => (v.putc ch).screen = storeAll v.screen (v.stores ch) ∧ ∀ x ∈ v.stores ch, x.1 < cells) s v := by
  intro p
  obtain ⟨shows, still⟩ := (page_shows inside).puts s inside
  refine ⟨still, shows.same, ?_⟩
  clear p shows still
  induction s generalizing v with
  | nil => trivial
  | cons ch s ih =>
      exact ⟨⟨putc_screen inside.direct, stores_inside inside ch⟩, ih ((page_shows inside).putc inside ch).2.1⟩

theorem console_refines_newline : let p := blackScreen.page.puts 7 0 [65, 10]
    (puts [65, 10] blackScreen).Inside ∧
      (∀ r < vgaRows, ∀ c < vgaCols, (puts [65, 10] blackScreen).screen (r * vgaCols + c) = p.cells (p.top + r) c) ∧
      Runs.Each (fun ch v => v.putc ch)
        (fun ch v => (v.putc ch).screen = storeAll v.screen (v.stores ch) ∧ ∀ x ∈ v.stores ch, x.1 < cells)
        [65, 10] blackScreen :=
  console_refines_page ⟨by decide, by decide, rfl⟩ [65, 10]

end Zenbite.Vga
