import Deimos.Lib.Run
import Deimos.Tty.Model

set_option autoImplicit false

namespace Deimos.Tty

-- What the terminal stands for: an unbounded page, with the characters
-- written on it and a cursor.
structure Page where
  row : Nat
  col : Nat
  text : Nat → Nat → Option Char8

def Page.blank : Page := ⟨0, 0, fun _ _ => none⟩

def Page.newline (p : Page) : Page := { p with row := p.row + 1, col := 0 }

def Page.write (c : Char8) (p : Page) : Page :=
  { p with text := fun r k => if r = p.row ∧ k = p.col then some c else p.text r k, col := p.col + 1 }

def Page.advance (c : Char8) (p : Page) : Page :=
  if c = TAB then { p with col := (p.col / 4 + 1) * 4 }
  else if c = BACKSPACE then p
  else if c = NEWLINE then p.newline
  else p.write c

def Page.put (c : Char8) (p : Page) : Page := if VGA_WIDTH ≤ (p.advance c).col then (p.advance c).newline else p.advance c

def Op.chars : Op → List Char8
  | .putchar c => [c]
  | .puts str => str.takeWhile (· ≠ 0)

def Page.print (p : Page) (ops : List Op) : Page := (ops.flatMap Op.chars).foldl (fun p c => p.put c) p

def run (s : Screen) (ops : List Op) : Screen := ops.foldl (fun s op => exec op s) s

structure Window (s : Screen) (p : Page) : Prop where
  row : s.row.toNat = min p.row (VGA_HEIGHT - 1)
  cells : ∀ r c, r < VGA_HEIGHT → c < VGA_WIDTH →
    (s.buf (r * VGA_WIDTH + c)).setWidth 8 = (p.text (r + (p.row - (VGA_HEIGHT - 1))) c).getD SPACE
  below : ∀ r c, p.row < r → p.text r c = none

structure Shows (s : Screen) (p : Page) : Prop extends Window s p where
  col : s.col.toNat = p.col
  inside : p.col < VGA_WIDTH

theorem poke_buf (s : Screen) (i j : Nat) (value : BitVec 16) : (s.poke i value).buf j = if j = i then value else s.buf j :=
  Function.update_apply s.buf i value j

theorem copy_cell_buf (s : Screen) (i j k : Nat) : (s.copyCell i j).buf k = if k = i then s.buf j else s.buf k :=
  Function.update_apply s.buf i (s.buf j) k

def Screen.withRest (rest s : Screen) : Screen := { rest with buf := s.buf, accesses := s.accesses }

theorem loop_keeps (body : Screen → Nat → Screen) (each : ∀ s x, body s x = s.withRest (body s x)) (xs : List Nat) (s : Screen) :
    xs.foldl body s = s.withRest (xs.foldl body s) := by
  induction xs generalizing s with
  | nil => rfl
  | cons x xs ih =>
      rw [List.foldl_cons, ih (body s x), each s x]
      rfl

theorem copy_cells (s : Screen) (r n i : Nat) (row : 0 < r) (short : n ≤ VGA_WIDTH) :
    ((List.range n).foldl (fun s c => s.copyCell ((r - 1) * VGA_WIDTH + c) (r * VGA_WIDTH + c)) s).buf i
      = if (r - 1) * VGA_WIDTH ≤ i ∧ i < (r - 1) * VGA_WIDTH + n then s.buf (i + VGA_WIDTH) else s.buf i := by
  induction n generalizing i with
  | zero => exact (if_neg (by omega)).symm
  | succ n ih =>
      have below : r * VGA_WIDTH = (r - 1) * VGA_WIDTH + VGA_WIDTH := by
        conv_lhs => rw [← Nat.sub_add_cancel row, Nat.succ_mul]
      rw [List.range_succ, List.foldl_append, List.foldl_cons, List.foldl_nil, copy_cell_buf,
        ih _ (by omega), ih _ (by omega)]
      by_cases here : i = (r - 1) * VGA_WIDTH + n
      · rw [if_pos here, if_neg (by omega), if_pos (by omega), here]
        congr 1
        omega
      · rw [if_neg here]
        congr 1
        apply propext
        omega

theorem copy_rows (s : Screen) (n i : Nat) :
    ((List.range' 1 n).foldl copyRow s).buf i = if i < n * VGA_WIDTH then s.buf (i + VGA_WIDTH) else s.buf i := by
  induction n generalizing i with
  | zero => simp
  | succ n ih =>
      rw [List.range'_1_concat, List.foldl_append, List.foldl_cons, List.foldl_nil, copyRow,
        copy_cells _ (1 + n) VGA_WIDTH i (by omega) (Nat.le_refl VGA_WIDTH), ih, ih, Nat.add_sub_cancel_left]
      by_cases row : n * VGA_WIDTH ≤ i ∧ i < n * VGA_WIDTH + VGA_WIDTH
      · rw [if_pos row, if_neg (by omega), if_pos (by rw [Nat.succ_mul]; exact row.2)]
      · rw [if_neg row]
        congr 1
        apply propext
        rw [Nat.succ_mul]
        have wide : 0 < VGA_WIDTH := by decide
        omega

theorem fill_cells (value : Screen → BitVec 16) (place : Nat → Nat) (s : Screen) (base n i : Nat)
    (steady : ∀ s t : Screen, value (s.withRest t) = value s) (offset : ∀ c, place c = base + c) :
    ((List.range n).foldl (fun s c => s.poke (place c) (value s)) s).buf i
      = if base ≤ i ∧ i < base + n then value s else s.buf i := by
  induction n with
  | zero => exact (if_neg (by omega)).symm
  | succ n ih =>
      have kept := loop_keeps (fun s c => s.poke (place c) (value s)) (fun _ _ => rfl) (List.range n) s
      have same := congrArg value kept
      rw [steady] at same
      rw [List.range_succ, List.foldl_append, List.foldl_cons, List.foldl_nil, poke_buf, ih, same, offset]
      by_cases here : i = base + n
      · rw [if_pos here, if_pos (by omega)]
      · rw [if_neg here]
        congr 1
        apply propext
        omega

theorem scroll_buf (s : Screen) (r c : Nat) (row : r < VGA_HEIGHT) (col : c < VGA_WIDTH) :
    (ttyScroll s).buf (r * VGA_WIDTH + c)
      = if r + 1 < VGA_HEIGHT then s.buf ((r + 1) * VGA_WIDTH + c) else 0x20 := by
  have height : VGA_HEIGHT = 25 := rfl
  have width : VGA_WIDTH = 80 := rfl
  rw [ttyScroll, fill_cells (fun _ => 0x20) _ _ ((VGA_HEIGHT - 1) * VGA_WIDTH) VGA_WIDTH _ (fun _ _ => rfl) (fun _ => rfl), copy_rows]
  rw [height] at row
  rw [width] at col
  rw [height, width]
  by_cases last : r + 1 < 25
  · rw [if_neg (by omega), if_pos (by omega), if_pos last]
    congr 1
    omega
  · rw [if_pos (by omega), if_neg last]

theorem scroll_rest (rest s : Screen) : ttyScroll (rest.withRest s) = rest.withRest (ttyScroll s) := by
  have row (s : Screen) (r : Nat) : copyRow (rest.withRest s) r = rest.withRest (copyRow s r) :=
    List.foldl_hom (Screen.withRest rest) (fun _ _ => rfl)
  rw [ttyScroll, ttyScroll, List.foldl_hom (Screen.withRest rest) row]
  exact List.foldl_hom (Screen.withRest rest) (fun _ _ => rfl)

theorem scroll_keeps (s : Screen) : ttyScroll s = s.withRest (ttyScroll s) := scroll_rest s s

def Screen.withVga (index : BitVec 8) (regs : BitVec 8 → BitVec 8) (s : Screen) : Screen :=
  { s with vgaIndex := index, vgaRegs := regs }

theorem scroll_vga (index : BitVec 8) (regs : BitVec 8 → BitVec 8) (s : Screen) :
    ttyScroll (s.withVga index regs) = (ttyScroll s).withVga index regs := by
  have swap (t : Screen) : (s.withVga index regs).withRest t = (s.withRest t).withVga index regs := rfl
  calc ttyScroll (s.withVga index regs)
      = (s.withVga index regs).withRest (ttyScroll s) := scroll_rest (s.withVga index regs) s
    _ = (s.withRest (ttyScroll s)).withVga index regs := swap (ttyScroll s)
    _ = (ttyScroll s).withVga index regs := by rw [← scroll_keeps s]

-- tty_putchar_t by the kind of character: what is written, then the step to
-- the next line and the scrolling.

def nextLine (s : Screen) : Screen := { s with col := 0, row := s.row + 1 }

def scrollDown (s : Screen) : Screen :=
  if s.row.toNat ≥ VGA_HEIGHT then { ttyScroll s with row := BitVec.ofNat 16 (VGA_HEIGHT - 1) } else s

def wrap (s : Screen) : Screen := scrollDown (if s.col.toNat ≥ VGA_WIDTH then nextLine s else s)

def tabbed (s : Screen) : Screen := { s with col := s.col + (4 - s.col % 4) }

def written (c : Char8) (s : Screen) : Screen :=
  { s.poke (s.row.toNat * VGA_WIDTH + s.col.toNat) (cell s.color c) with col := s.col + 1 }

theorem putchar_t_tab (s : Screen) : ttyPutcharT TAB s = wrap (tabbed s) := by
  have line : TAB ≠ NEWLINE := by decide
  have back : TAB ≠ BACKSPACE := by decide
  have kind : ¬(TAB ≠ NEWLINE ∧ TAB ≠ TAB) := by decide
  rw [ttyPutcharT, if_pos rfl, if_neg back]
  simp only [if_neg kind, line, or_false]
  rfl

theorem putchar_t_backspace (s : Screen) : ttyPutcharT BACKSPACE s = s := rfl

theorem putchar_t_newline (s : Screen) : ttyPutcharT NEWLINE s = scrollDown (nextLine s) := by
  have tab : NEWLINE ≠ TAB := by decide
  have back : NEWLINE ≠ BACKSPACE := by decide
  have kind : ¬(NEWLINE ≠ NEWLINE ∧ NEWLINE ≠ TAB) := by decide
  rw [ttyPutcharT, if_neg tab, if_neg back]
  simp only [if_neg kind, or_true, if_true]
  rfl

theorem putchar_t_written (c : Char8) (s : Screen) (tab : c ≠ TAB) (back : c ≠ BACKSPACE) (line : c ≠ NEWLINE) :
    ttyPutcharT c s = wrap (written c s) := by
  rw [ttyPutcharT, if_neg tab, if_neg back]
  simp only [if_pos (And.intro line tab), line, or_false]
  rfl

theorem scroll_down_vga (index : BitVec 8) (regs : BitVec 8 → BitVec 8) (s : Screen) :
    scrollDown (s.withVga index regs) = (scrollDown s).withVga index regs := by
  unfold scrollDown
  by_cases full : s.row.toNat ≥ VGA_HEIGHT
  · rw [if_pos full, if_pos (by exact full), scroll_vga]
    rfl
  · rw [if_neg full, if_neg (by exact full)]

theorem wrap_vga (index : BitVec 8) (regs : BitVec 8 → BitVec 8) (s : Screen) :
    wrap (s.withVga index regs) = (wrap s).withVga index regs := by
  unfold wrap
  by_cases full : s.col.toNat ≥ VGA_WIDTH
  · rw [if_pos full, if_pos (by exact full)]
    exact scroll_down_vga index regs (nextLine s)
  · rw [if_neg full, if_neg (by exact full)]
    exact scroll_down_vga index regs s

theorem putchar_t_vga (index : BitVec 8) (regs : BitVec 8 → BitVec 8) (c : Char8) (s : Screen) :
    ttyPutcharT c (s.withVga index regs) = (ttyPutcharT c s).withVga index regs := by
  by_cases tab : c = TAB
  · rw [tab, putchar_t_tab, putchar_t_tab]
    exact wrap_vga index regs (tabbed s)
  by_cases back : c = BACKSPACE
  · rw [back, putchar_t_backspace, putchar_t_backspace]
  by_cases line : c = NEWLINE
  · rw [line, putchar_t_newline, putchar_t_newline]
    exact scroll_down_vga index regs (nextLine s)
  · rw [putchar_t_written c _ tab back line, putchar_t_written c _ tab back line]
    exact wrap_vga index regs (written c s)

theorem updatecursor_vga (s : Screen) (index : BitVec 8) (regs : BitVec 8 → BitVec 8)
    (same : ∀ i, i ≠ 14 → i ≠ 15 → regs i = s.vgaRegs i) : ttyUpdatecursor (s.withVga index regs) = ttyUpdatecursor s := by
  have written : (ttyUpdatecursor (s.withVga index regs)).vgaRegs = (ttyUpdatecursor s).vgaRegs := by
    funext i
    simp only [ttyUpdatecursor, Screen.outData, Screen.outIndex, Screen.withVga, Function.update_apply]
    by_cases low : i = 15
    · rw [if_pos low, if_pos low]
    by_cases high : i = 14
    · rw [if_neg low, if_pos high, if_neg low, if_pos high]
    · rw [if_neg low, if_neg high, if_neg low, if_neg high]
      exact same i high low
  change (ttyUpdatecursor s).withVga 15 (ttyUpdatecursor (s.withVga index regs)).vgaRegs = ttyUpdatecursor s
  rw [written]
  rfl

theorem updatecursor_again (s : Screen) : ttyUpdatecursor (ttyUpdatecursor s) = ttyUpdatecursor s := by
  apply updatecursor_vga s 15 (ttyUpdatecursor s).vgaRegs
  intro i high low
  simp only [ttyUpdatecursor, Screen.outData, Screen.outIndex, Function.update_apply, if_neg high, if_neg low]

theorem putchar_updated (c : Char8) (s : Screen) : ttyPutchar c (ttyUpdatecursor s) = ttyPutchar c s := by
  have later : ttyPutcharT c (ttyUpdatecursor s) = (ttyPutcharT c s).withVga 15 (ttyUpdatecursor s).vgaRegs := by
    exact putchar_t_vga 15 (ttyUpdatecursor s).vgaRegs c s
  have whole : ttyPutcharT c s = (ttyPutcharT c s).withVga s.vgaIndex s.vgaRegs := putchar_t_vga s.vgaIndex s.vgaRegs c s
  have kept : (ttyPutcharT c s).vgaRegs = s.vgaRegs := by
    rw [whole]
    rfl
  rw [ttyPutchar, later, ttyPutchar]
  apply updatecursor_vga
  intro i high low
  rw [kept]
  simp only [ttyUpdatecursor, Screen.outData, Screen.outIndex, Function.update_apply, if_neg high, if_neg low]

theorem puts_updated (str : List Char8) (s : Screen) :
    ttyPuts str s = (str.takeWhile (· ≠ 0)).foldl (fun s c => ttyPutchar c s) (ttyUpdatecursor s) := by
  induction str generalizing s with
  | nil => rfl
  | cons c str ih =>
      by_cases last : c = 0
      · rw [List.takeWhile_cons_of_neg (by simp [last]), ttyPuts, putsLoop, if_neg (not_not.mpr last)]
        rfl
      · rw [List.takeWhile_cons_of_pos (by exact decide_eq_true last), List.foldl_cons, putchar_updated, ttyPuts, putsLoop, if_pos last]
        exact ih (ttyPutcharT c s)

theorem low_byte (color c : BitVec 8) : (cell color c).setWidth 8 = c := by
  apply BitVec.eq_of_getLsbD_eq
  intro i inside
  have wide : i < 16 := by omega
  simp [cell, inside, wide, BitVec.getElem_signExtend]

theorem next_line_row (s : Screen) (p : Page) (window : Window s p) : (nextLine s).row.toNat = s.row.toNat + 1 := by
  have row : s.row.toNat = min p.row 24 := window.row
  rw [nextLine, BitVec.toNat_add]
  change (s.row.toNat + 1) % 65536 = _
  omega

theorem scroll_window (s : Screen) (p : Page) (window : Window s p) :
    Window (scrollDown (nextLine s)) p.newline ∧ (scrollDown (nextLine s)).col = 0 := by
  have height : VGA_HEIGHT = 25 := rfl
  have row : s.row.toNat = min p.row 24 := window.row
  have next := next_line_row s p window
  have blank (r c : Nat) (far : p.row + 1 < r) : p.text r c = none := window.below r c (by omega)
  unfold scrollDown
  by_cases full : (nextLine s).row.toNat ≥ VGA_HEIGHT
  · rw [if_pos full]
    refine ⟨⟨?_, fun r c inside across => ?_, blank⟩, ?_⟩
    · change 24 = min (p.row + 1) 24
      omega
    · change ((ttyScroll (nextLine s)).buf (r * VGA_WIDTH + c)).setWidth 8 = (p.text (r + (p.row + 1 - 24)) c).getD SPACE
      rw [scroll_buf (nextLine s) r c inside across]
      by_cases last : r + 1 < VGA_HEIGHT
      · rw [if_pos last]
        have shown := window.cells (r + 1) c last across
        rw [show r + (p.row + 1 - 24) = r + 1 + (p.row - 24) by omega]
        exact shown
      · rw [if_neg last, window.below (r + (p.row + 1 - 24)) c (by omega)]
        rfl
    · rw [scroll_keeps]
      rfl
  · rw [if_neg full]
    refine ⟨⟨?_, fun r c inside across => ?_, blank⟩, rfl⟩
    · change (nextLine s).row.toNat = min (p.row + 1) 24
      omega
    · have shown := window.cells r c inside across
      change (s.buf (r * VGA_WIDTH + c)).setWidth 8 = (p.text (r + (p.row + 1 - 24)) c).getD SPACE
      rw [shown]
      congr 2
      change r + (p.row - 24) = r + (p.row + 1 - 24)
      omega

theorem newline_shows (s : Screen) (p : Page) (window : Window s p) : Shows (scrollDown (nextLine s)) p.newline := by
  obtain ⟨below, col⟩ := scroll_window s p window
  exact ⟨below, by rw [col]; rfl, show 0 < VGA_WIDTH by decide⟩

theorem wrap_shows (s : Screen) (p : Page) (window : Window s p) (col : s.col.toNat = p.col) :
    Shows (wrap s) (if VGA_WIDTH ≤ p.col then p.newline else p) := by
  unfold wrap
  by_cases full : VGA_WIDTH ≤ p.col
  · rw [if_pos full, if_pos (by rw [col]; exact full)]
    exact newline_shows s p window
  · have row : ¬s.row.toNat ≥ VGA_HEIGHT := by
      rw [window.row]
      exact Nat.not_le.mpr (Nat.lt_of_le_of_lt (Nat.min_le_right p.row (VGA_HEIGHT - 1)) (by decide))
    rw [if_neg full, if_neg (by rw [col]; exact full), scrollDown, if_neg row]
    exact ⟨window, col, Nat.lt_of_not_le full⟩

theorem tabbed_col (s : Screen) (p : Page) (shows : Shows s p) : (tabbed s).col.toNat = (p.col / 4 + 1) * 4 := by
  have inside : p.col < 80 := shows.inside
  have step : (4 - s.col % 4).toNat = 4 - p.col % 4 := by
    rw [BitVec.toNat_sub, BitVec.toNat_umod, shows.col]
    change (65536 - p.col % 4 + 4) % 65536 = 4 - p.col % 4
    omega
  rw [tabbed, BitVec.toNat_add, step, shows.col]
  change (p.col + (4 - p.col % 4)) % 65536 = (p.col / 4 + 1) * 4
  omega

theorem written_window (c : Char8) (s : Screen) (p : Page) (shows : Shows s p) :
    Window (written c s) (p.write c) ∧ (written c s).col.toNat = p.col + 1 := by
  have width : VGA_WIDTH = 80 := rfl
  have height : VGA_HEIGHT = 25 := rfl
  have across : p.col < 80 := shows.inside
  have row : s.row.toNat = min p.row 24 := shows.row
  refine ⟨⟨row, fun r k inside left => ?_, fun r k far => ?_⟩, ?_⟩
  · change ((s.poke (s.row.toNat * VGA_WIDTH + s.col.toNat) (cell s.color c)).buf (r * VGA_WIDTH + k)).setWidth 8
      = (if r + (p.row - 24) = p.row ∧ k = p.col then some c else p.text (r + (p.row - 24)) k).getD SPACE
    rw [poke_buf, shows.col]
    by_cases here : r + (p.row - 24) = p.row ∧ k = p.col
    · rw [if_pos here, if_pos (by rw [width]; omega)]
      exact low_byte s.color c
    · rw [if_neg here, if_neg (by rw [width]; omega)]
      exact shows.cells r k inside left
  · change (if r = p.row ∧ k = p.col then some c else p.text r k) = none
    rw [if_neg (fun here => Nat.ne_of_gt far here.1)]
    exact shows.below r k far
  · change (s.col + 1).toNat = p.col + 1
    rw [BitVec.toNat_add, shows.col]
    change (p.col + 1) % 65536 = p.col + 1
    omega

theorem putchar_t_shows (c : Char8) (s : Screen) (p : Page) (shows : Shows s p) : Shows (ttyPutcharT c s) (p.put c) := by
  unfold Page.put Page.advance
  by_cases tab : c = TAB
  · rw [if_pos tab, tab, putchar_t_tab]
    apply wrap_shows
    · exact ⟨shows.row, shows.cells, shows.below⟩
    · exact tabbed_col s p shows
  by_cases back : c = BACKSPACE
  · rw [if_neg tab, if_pos back, back, putchar_t_backspace, if_neg (Nat.not_le.mpr shows.inside)]
    exact shows
  by_cases line : c = NEWLINE
  · rw [if_neg tab, if_neg back, if_pos line, line, putchar_t_newline,
      if_neg (show ¬VGA_WIDTH ≤ p.newline.col from Nat.not_le.mpr (show 0 < VGA_WIDTH by decide))]
    exact newline_shows s p shows.toWindow
  · rw [if_neg tab, if_neg back, if_neg line, putchar_t_written c s tab back line]
    obtain ⟨window, col⟩ := written_window c s p shows
    exact wrap_shows (written c s) (p.write c) window col

theorem updatecursor_shows (s : Screen) (p : Page) (shows : Shows s p) : Shows (ttyUpdatecursor s) p :=
  ⟨⟨shows.row, shows.cells, shows.below⟩, shows.col, shows.inside⟩

theorem fill_blank (s : Screen) (n i : Nat) (inside : i < n) :
    ((List.range n).foldl (fun s i => s.poke i (cell s.color SPACE)) s).buf i = cell s.color SPACE := by
  have filled := fill_cells (fun s => cell s.color SPACE) id s 0 n i (fun _ _ => rfl) (fun i => (Nat.zero_add i).symm)
  rw [if_pos (by omega)] at filled
  exact filled

theorem clear_shows (s : Screen) : Shows (ttyClear s) Page.blank := by
  have kept (n : Nat) := loop_keeps (fun s i => s.poke i (cell s.color SPACE)) (fun _ _ => rfl) (List.range n) { s with row := 0, col := 0 }
  have blank := fill_blank { s with row := 0, col := 0 }
  unfold ttyClear
  generalize whole : VGA_HEIGHT * VGA_WIDTH = n
  apply updatecursor_shows
  refine ⟨⟨?_, fun r c inside across => ?_, fun _ _ _ => rfl⟩, ?_, by decide⟩
  · exact congrArg (fun s => s.row.toNat) (kept n)
  · have inner : r * VGA_WIDTH + c < n := by
      have height : VGA_HEIGHT = 25 := rfl
      have width : VGA_WIDTH = 80 := rfl
      rw [height] at inside
      rw [width] at across
      rw [← whole, height, width]
      omega
    rw [blank n (r * VGA_WIDTH + c) inner]
    exact low_byte s.color SPACE
  · exact congrArg (fun s => s.col.toNat) (kept n)

theorem puts_loop_shows (str : List Char8) (s : Screen) (p : Page) (shows : Shows s p) :
    Shows (putsLoop str s) ((str.takeWhile (· ≠ 0)).foldl (fun p c => p.put c) p) := by
  induction str generalizing s p with
  | nil => exact shows
  | cons c str ih =>
      by_cases last : c = 0
      · rw [List.takeWhile_cons_of_neg (by simp [last]), putsLoop, if_neg (not_not.mpr last)]
        exact shows
      · rw [List.takeWhile_cons_of_pos (by exact decide_eq_true last), putsLoop, if_pos last]
        exact ih (ttyPutcharT c s) (p.put c) (putchar_t_shows c s p shows)

theorem exec_shows (op : Op) (s : Screen) (p : Page) (shows : Shows s p) : Shows (exec op s) (p.print [op]) := by
  cases op with
  | putchar c => exact updatecursor_shows (ttyPutcharT c s) (p.put c) (putchar_t_shows c s p shows)
  | puts str =>
      rw [Page.print, List.flatMap_singleton]
      exact updatecursor_shows (putsLoop str s) _ (puts_loop_shows str s p shows)

theorem run_shows (ops : List Op) (s : Screen) (p : Page) (shows : Shows s p) : Shows (run s ops) (p.print ops) := by
  induction ops generalizing s p with
  | nil => exact shows
  | cons op ops ih =>
      have whole : p.print (op :: ops) = (p.print [op]).print ops := by
        simp only [Page.print, List.flatMap_cons, List.flatMap_nil, List.append_nil, List.foldl_append]
      rw [whole]
      exact ih (exec op s) (p.print [op]) (exec_shows op s p shows)

theorem shows_bounds (s : Screen) (p : Page) (shows : Shows s p) : s.row.toNat < VGA_HEIGHT ∧ s.col.toNat < VGA_WIDTH := by
  constructor
  · rw [shows.row]
    exact Nat.lt_of_le_of_lt (Nat.min_le_right p.row (VGA_HEIGHT - 1)) (by decide)
  · rw [shows.col]
    exact shows.inside

abbrev InBuffer (old new : Screen) : Prop := Log.Since (· < VGA_HEIGHT * VGA_WIDTH) old.accesses new.accesses

theorem poke_in (s : Screen) (i : Nat) (value : BitVec 16) (inside : i < VGA_HEIGHT * VGA_WIDTH) : InBuffer s (s.poke i value) :=
  Log.since_cons s.accesses s.accesses i inside (Log.since_refl s.accesses)

theorem copy_cell_in (s : Screen) (i j : Nat) (target : i < VGA_HEIGHT * VGA_WIDTH) (source : j < VGA_HEIGHT * VGA_WIDTH) :
    InBuffer s (s.copyCell i j) :=
  Log.since_cons s.accesses (j :: s.accesses) i target (Log.since_cons s.accesses s.accesses j source (Log.since_refl s.accesses))

theorem cell_inside (r c : Nat) (row : r < VGA_HEIGHT) (col : c < VGA_WIDTH) : r * VGA_WIDTH + c < VGA_HEIGHT * VGA_WIDTH := by
  have height : VGA_HEIGHT = 25 := rfl
  have width : VGA_WIDTH = 80 := rfl
  rw [height] at row
  rw [width] at col
  rw [height, width]
  omega

theorem copy_row_in (s : Screen) (r : Nat) (row : r < VGA_HEIGHT) : InBuffer s (copyRow s r) := by
  apply Log.since_foldl Screen.accesses
  intro c member t
  have col : c < VGA_WIDTH := List.mem_range.mp member
  exact copy_cell_in t _ _ (cell_inside (r - 1) c (by omega) col) (cell_inside r c row col)

theorem scroll_in (s : Screen) : InBuffer s (ttyScroll s) := by
  apply Log.since_trans s.accesses ((List.range' 1 (VGA_HEIGHT - 1)).foldl copyRow s).accesses
  · apply Log.since_foldl Screen.accesses
    intro r member t
    have row : r < VGA_HEIGHT := (List.mem_range'_1.mp member).2
    exact copy_row_in t r row
  · apply Log.since_foldl Screen.accesses
    intro c member t
    exact poke_in t _ 0x20 (cell_inside (VGA_HEIGHT - 1) c (by decide) (List.mem_range.mp member))

theorem scroll_down_in (s : Screen) : InBuffer s (scrollDown s) := by
  unfold scrollDown
  by_cases full : s.row.toNat ≥ VGA_HEIGHT
  · rw [if_pos full]
    exact scroll_in s
  · rw [if_neg full]
    exact Log.since_refl s.accesses

theorem wrap_in (s : Screen) : InBuffer s (wrap s) := by
  unfold wrap
  by_cases full : s.col.toNat ≥ VGA_WIDTH
  · rw [if_pos full]
    exact scroll_down_in (nextLine s)
  · rw [if_neg full]
    exact scroll_down_in s

theorem putchar_t_in (c : Char8) (s : Screen) (p : Page) (shows : Shows s p) : InBuffer s (ttyPutcharT c s) := by
  by_cases tab : c = TAB
  · rw [tab, putchar_t_tab]
    exact wrap_in (tabbed s)
  by_cases back : c = BACKSPACE
  · rw [back, putchar_t_backspace]
    exact Log.since_refl s.accesses
  by_cases line : c = NEWLINE
  · rw [line, putchar_t_newline]
    exact scroll_down_in (nextLine s)
  · rw [putchar_t_written c s tab back line]
    obtain ⟨row, col⟩ := shows_bounds s p shows
    apply Log.since_trans s.accesses (written c s).accesses
    · exact poke_in s _ (cell s.color c) (cell_inside s.row.toNat s.col.toNat row col)
    · exact wrap_in (written c s)

theorem puts_loop_in (str : List Char8) (s : Screen) (p : Page) (shows : Shows s p) : InBuffer s (putsLoop str s) := by
  induction str generalizing s p with
  | nil => exact Log.since_refl s.accesses
  | cons c str ih =>
      by_cases last : c = 0
      · rw [putsLoop, if_neg (not_not.mpr last)]
        exact Log.since_refl s.accesses
      · rw [putsLoop, if_pos last]
        apply Log.since_trans s.accesses (ttyPutcharT c s).accesses
        · exact putchar_t_in c s p shows
        · exact ih (ttyPutcharT c s) (p.put c) (putchar_t_shows c s p shows)

theorem updatecursor_accesses (s : Screen) : (ttyUpdatecursor s).accesses = s.accesses := rfl

theorem exec_in (op : Op) (s : Screen) (p : Page) (shows : Shows s p) : InBuffer s (exec op s) := by
  cases op with
  | putchar c =>
      rw [exec, ttyPutchar, InBuffer, updatecursor_accesses]
      exact putchar_t_in c s p shows
  | puts str =>
      rw [exec, ttyPuts, InBuffer, updatecursor_accesses]
      exact puts_loop_in str s p shows

theorem run_in (ops : List Op) (s : Screen) (p : Page) (shows : Shows s p) : InBuffer s (run s ops) := by
  induction ops generalizing s p with
  | nil => exact Log.since_refl s.accesses
  | cons op ops ih =>
      apply Log.since_trans s.accesses (exec op s).accesses
      · exact exec_in op s p shows
      · exact ih (exec op s) (p.print [op]) (exec_shows op s p shows)

theorem fill_in (s : Screen) (n : Nat) (inside : n ≤ VGA_HEIGHT * VGA_WIDTH) :
    InBuffer s ((List.range n).foldl (fun s i => s.poke i (cell s.color SPACE)) s) := by
  apply Log.since_foldl Screen.accesses
  intro i member t
  exact poke_in t i _ (Nat.lt_of_lt_of_le (List.mem_range.mp member) inside)

theorem clear_in (s : Screen) : InBuffer s (ttyClear s) := by
  have filled := fill_in { s with row := 0, col := 0 } (VGA_HEIGHT * VGA_WIDTH) (Nat.le_refl _)
  unfold ttyClear InBuffer
  rw [updatecursor_accesses]
  exact filled

theorem run_updated (ops : List Op) (s : Screen) (updated : ttyUpdatecursor s = s) : ttyUpdatecursor (run s ops) = run s ops := by
  induction ops generalizing s with
  | nil => exact updated
  | cons op ops ih =>
      apply ih (exec op s)
      cases op with
      | putchar c => exact updatecursor_again (ttyPutcharT c s)
      | puts str => exact updatecursor_again (putsLoop str s)

theorem word_bytes (x : BitVec 16) : (((x >>> 8) &&& 0xFF).setWidth 8).toNat * 256 + ((x &&& 0xFF).setWidth 8).toNat = x.toNat := by
  have inside : x.toNat < 65536 := x.isLt
  have low (n : Nat) : n &&& 255 = n % 256 := Nat.and_two_pow_sub_one_eq_mod n 8
  rw [BitVec.toNat_setWidth, BitVec.toNat_setWidth, BitVec.toNat_and, BitVec.toNat_and, BitVec.toNat_ushiftRight,
    Nat.shiftRight_eq_div_pow]
  change (x.toNat / 256 &&& 255) % 256 * 256 + (x.toNat &&& 255) % 256 = x.toNat
  rw [low, low]
  omega

theorem cursor_registers (s : Screen) (row : s.row.toNat < VGA_HEIGHT) (col : s.col.toNat < VGA_WIDTH) :
    ((ttyUpdatecursor s).vgaRegs 14).toNat * 256 + ((ttyUpdatecursor s).vgaRegs 15).toNat
      = s.row.toNat * VGA_WIDTH + s.col.toNat := by
  have place : (s.row * BitVec.ofNat 16 VGA_WIDTH + s.col).toNat = s.row.toNat * VGA_WIDTH + s.col.toNat := by
    have inside := cell_inside s.row.toNat s.col.toNat row col
    rw [BitVec.toNat_add, BitVec.toNat_mul]
    change (s.row.toNat * 80 % 65536 + s.col.toNat) % 65536 = s.row.toNat * 80 + s.col.toNat
    change s.row.toNat * 80 + s.col.toNat < 2000 at inside
    omega
  have high : (ttyUpdatecursor s).vgaRegs 14 = (((s.row * BitVec.ofNat 16 VGA_WIDTH + s.col) >>> 8) &&& 0xFF).setWidth 8 := by
    simp only [ttyUpdatecursor, Screen.outData, Screen.outIndex]
    rw [Function.update_of_ne (by decide), Function.update_self]
  have low : (ttyUpdatecursor s).vgaRegs 15 = ((s.row * BitVec.ofNat 16 VGA_WIDTH + s.col) &&& 0xFF).setWidth 8 := by
    simp only [ttyUpdatecursor, Screen.outData, Screen.outIndex]
    rw [Function.update_self]
  rw [high, low, word_bytes, place]

-- What the terminal guarantees of a screen that was s₀ when it was cleared and has since been given what the page holds.
structure Presents (s₀ s : Screen) (p : Page) : Prop where
  accesses : Log.Since (· < VGA_HEIGHT * VGA_WIDTH) s₀.accesses s.accesses
  row : s.row.toNat < VGA_HEIGHT
  col : s.col.toNat < VGA_WIDTH
  cells : ∀ r c, r < VGA_HEIGHT → c < VGA_WIDTH →
    (s.buf (r * VGA_WIDTH + c)).setWidth 8 = (p.text (r + (p.row - (VGA_HEIGHT - 1))) c).getD SPACE
  cursor : (s.vgaRegs 14).toNat * 256 + (s.vgaRegs 15).toNat = s.row.toNat * VGA_WIDTH + s.col.toNat
  within : ∀ (str : List Char8) (n : Nat),
    (putsLoop (str.take n) s).row.toNat < VGA_HEIGHT ∧ (putsLoop (str.take n) s).col.toNat < VGA_WIDTH
  puts : ∀ str : List Char8, ttyPuts str s = (str.takeWhile (· ≠ 0)).foldl (fun s c => ttyPutchar c s) s

theorem terminal_presents_page (s₀ : Screen) (ops : List Op) : Presents s₀ (run (ttyClear s₀) ops) (Page.blank.print ops) := by
  have shows := run_shows ops (ttyClear s₀) Page.blank (clear_shows s₀)
  have updated := run_updated ops (ttyClear s₀) (updatecursor_again _)
  obtain ⟨row, col⟩ := shows_bounds _ _ shows
  refine ⟨?_, row, col, shows.cells, ?_, fun str n => ?_, fun str => ?_⟩
  · apply Log.since_trans s₀.accesses (ttyClear s₀).accesses
    · exact clear_in s₀
    · exact run_in ops (ttyClear s₀) Page.blank (clear_shows s₀)
  · have registers := cursor_registers _ row col
    rwa [updated] at registers
  · exact shows_bounds _ _ (puts_loop_shows (str.take n) _ _ shows)
  · have whole := puts_updated str (run (ttyClear s₀) ops)
    rwa [updated] at whole

end Deimos.Tty
