import Deimos.Tty.Page

set_option autoImplicit false

namespace Deimos.Tty

def attr (cell : BitVec 16) : BitVec 8 := (cell >>> 8).setWidth 8

-- A char of 0x80 and above is negative, and its sign fills the attribute.
theorem cell_attr (color : BitVec 8) (c : Char8) : attr (cell color c) = if c < 0x80 then color else 0xFF := by
  have sign : c < 0x80 ↔ c.msb = false := by
    have all : ∀ c : BitVec 8, c < 0x80 ↔ c.msb = false := by decide
    exact all c
  apply BitVec.eq_of_getLsbD_eq
  intro i inside
  have wide : 8 + i < 16 := by omega
  have upper : ¬ 8 + i < 8 ∧ i < 16 := by omega
  have bit : (attr (cell color c)).getLsbD i = (color.getLsbD i || c.msb) := by
    simp [attr, cell, inside, wide, upper, BitVec.getElem_signExtend]
  have ones : ∀ i : Fin 8, (0xFF : BitVec 8).getLsbD i = true := by decide
  rw [bit]
  by_cases small : c < 0x80
  · rw [if_pos small, sign.mp small, Bool.or_false]
  · rw [if_neg small, Bool.of_not_eq_false (mt sign.mpr small), Bool.or_true]
    exact (ones ⟨i, inside⟩).symm

def shownCell (color : BitVec 8) (row : Nat) (text : Option Char8) : BitVec 16 :=
  match text with
  | some c => cell color c
  | none => if row < VGA_HEIGHT then cell color SPACE else 0x20

def shownAttr (color : BitVec 8) (row : Nat) (text : Option Char8) : BitVec 8 :=
  match text with
  | some c => if c < 0x80 then color else 0xFF
  | none => if row < VGA_HEIGHT then color else 0

theorem shown_attr (color : BitVec 8) (row : Nat) (text : Option Char8) : attr (shownCell color row text) = shownAttr color row text := by
  cases text with
  | some c => exact cell_attr color c
  | none =>
      rw [shownCell, shownAttr]
      split_ifs
      · exact (cell_attr color SPACE).trans (if_pos (by decide))
      · rfl

structure Colored (color : BitVec 8) (s : Screen) (p : Page) : Prop where
  painted : s.color = color
  cells : ∀ r c, r < VGA_HEIGHT → c < VGA_WIDTH →
    s.buf (r * VGA_WIDTH + c) = shownCell color (r + (p.row - (VGA_HEIGHT - 1))) (p.text (r + (p.row - (VGA_HEIGHT - 1))) c)
  ahead : ∀ c, p.col ≤ c → p.text p.row c = none

section Steps

variable (color : BitVec 8) (s : Screen) (p : Page)

theorem scroll_colored (window : Window s p) (colored : Colored color s p) : Colored color (scrollDown (nextLine s)) p.newline := by
  have height : VGA_HEIGHT = 25 := rfl
  have row : s.row.toNat = min p.row 24 := window.row
  have next := next_line_row s p window
  have ahead : ∀ c, p.newline.col ≤ c → p.newline.text p.newline.row c = none := fun c _ => window.below (p.row + 1) c (Nat.lt_succ_self _)
  unfold scrollDown
  by_cases full : (nextLine s).row.toNat ≥ VGA_HEIGHT
  · rw [if_pos full]
    refine ⟨?_, fun r c inside across => ?_, ahead⟩
    · rw [scroll_keeps]
      exact colored.painted
    · change (ttyScroll (nextLine s)).buf (r * VGA_WIDTH + c) = shownCell color (r + (p.row + 1 - 24)) (p.text (r + (p.row + 1 - 24)) c)
      rw [scroll_buf (nextLine s) r c inside across]
      by_cases last : r + 1 < VGA_HEIGHT
      · rw [if_pos last]
        have shown := colored.cells (r + 1) c last across
        rw [show r + (p.row + 1 - 24) = r + 1 + (p.row - 24) by omega]
        exact shown
      · rw [if_neg last, window.below (r + (p.row + 1 - 24)) c (by omega), shownCell, if_neg (by omega)]
  · rw [if_neg full]
    refine ⟨colored.painted, fun r c inside across => ?_, ahead⟩
    have shown := colored.cells r c inside across
    have same : r + (p.row + 1 - 24) = r + (p.row - 24) := by omega
    change s.buf (r * VGA_WIDTH + c) = shownCell color (r + (p.row + 1 - 24)) (p.text (r + (p.row + 1 - 24)) c)
    rw [same]
    exact shown

theorem wrap_colored (window : Window s p) (col : s.col.toNat = p.col) (colored : Colored color s p) :
    Colored color (wrap s) (if VGA_WIDTH ≤ p.col then p.newline else p) := by
  unfold wrap
  by_cases full : VGA_WIDTH ≤ p.col
  · rw [if_pos full, if_pos (by rw [col]; exact full)]
    exact scroll_colored color s p window colored
  · have row : ¬s.row.toNat ≥ VGA_HEIGHT := by
      rw [window.row]
      exact Nat.not_le.mpr (Nat.lt_of_le_of_lt (Nat.min_le_right p.row (VGA_HEIGHT - 1)) (by decide))
    rw [if_neg full, if_neg (by rw [col]; exact full), scrollDown, if_neg row]
    exact colored

theorem written_colored (c : Char8) (shows : Shows s p) (colored : Colored color s p) : Colored color (written c s) (p.write c) := by
  have width : VGA_WIDTH = 80 := rfl
  have height : VGA_HEIGHT = 25 := rfl
  have across : p.col < 80 := shows.inside
  have row : s.row.toNat = min p.row 24 := shows.row
  refine ⟨colored.painted, fun r k inside left => ?_, fun k far => ?_⟩
  · change (s.poke (s.row.toNat * VGA_WIDTH + s.col.toNat) (cell s.color c)).buf (r * VGA_WIDTH + k) =
      shownCell color (r + (p.row - 24)) (if r + (p.row - 24) = p.row ∧ k = p.col then some c else p.text (r + (p.row - 24)) k)
    rw [poke_buf, shows.col]
    by_cases here : r + (p.row - 24) = p.row ∧ k = p.col
    · rw [if_pos here, if_pos (by rw [width]; omega), colored.painted]
      rfl
    · rw [if_neg here, if_neg (by rw [width]; omega)]
      exact colored.cells r k inside left
  · have beyond : p.col + 1 ≤ k := far
    change (if p.row = p.row ∧ k = p.col then some c else p.text p.row k) = none
    rw [if_neg (fun here => absurd here.2 (by omega))]
    exact colored.ahead k (by omega)

theorem putchar_t_colored (c : Char8) (shows : Shows s p) (colored : Colored color s p) : Colored color (ttyPutcharT c s) (p.put c) := by
  unfold Page.put Page.advance
  by_cases tab : c = TAB
  · rw [if_pos tab, tab, putchar_t_tab]
    apply wrap_colored
    · exact ⟨shows.row, shows.cells, shows.below⟩
    · exact tabbed_col s p shows
    · refine ⟨colored.painted, colored.cells, fun k far => colored.ahead k ?_⟩
      have moved : (p.col / 4 + 1) * 4 ≤ k := far
      omega
  by_cases back : c = BACKSPACE
  · rw [if_neg tab, if_pos back, back, putchar_t_backspace, if_neg (Nat.not_le.mpr shows.inside)]
    exact colored
  by_cases line : c = NEWLINE
  · rw [if_neg tab, if_neg back, if_pos line, line, putchar_t_newline,
      if_neg (show ¬VGA_WIDTH ≤ p.newline.col from Nat.not_le.mpr (show 0 < VGA_WIDTH by decide))]
    exact scroll_colored color s p shows.toWindow colored
  · rw [if_neg tab, if_neg back, if_neg line, putchar_t_written c s tab back line]
    obtain ⟨window, col⟩ := written_window c s p shows
    exact wrap_colored color (written c s) (p.write c) window col (written_colored color s p c shows colored)

theorem updatecursor_colored (colored : Colored color s p) : Colored color (ttyUpdatecursor s) p :=
  ⟨colored.painted, colored.cells, colored.ahead⟩

end Steps

section Runs

variable (color : BitVec 8)

theorem clear_colored (s : Screen) : Colored s.color (ttyClear s) Page.blank := by
  have kept (n : Nat) := loop_keeps (fun s i => s.poke i (cell s.color SPACE)) (fun _ _ => rfl) (List.range n) { s with row := 0, col := 0 }
  have blank := fill_blank { s with row := 0, col := 0 }
  unfold ttyClear
  generalize whole : VGA_HEIGHT * VGA_WIDTH = n
  apply updatecursor_colored
  refine ⟨?_, fun r c inside across => ?_, fun _ _ => rfl⟩
  · exact congrArg (fun s => s.color) (kept n)
  · have inner : r * VGA_WIDTH + c < n := whole ▸ cell_inside r c inside across
    rw [blank n (r * VGA_WIDTH + c) inner]
    exact (if_pos inside).symm

theorem puts_loop_colored (str : List Char8) (s : Screen) (p : Page) (shows : Shows s p) (colored : Colored color s p) :
    Colored color (putsLoop str s) ((str.takeWhile (· ≠ 0)).foldl (fun p c => p.put c) p) := by
  induction str generalizing s p with
  | nil => exact colored
  | cons c str ih =>
      by_cases last : c = 0
      · rw [List.takeWhile_cons_of_neg (by simp [last]), putsLoop, if_neg (not_not.mpr last)]
        exact colored
      · rw [List.takeWhile_cons_of_pos (by exact decide_eq_true last), putsLoop, if_pos last]
        exact ih (ttyPutcharT c s) (p.put c) (putchar_t_shows c s p shows) (putchar_t_colored color s p c shows colored)

theorem exec_colored (op : Op) (s : Screen) (p : Page) (shows : Shows s p) (colored : Colored color s p) :
    Colored color (exec op s) (p.print [op]) := by
  cases op with
  | putchar c => exact updatecursor_colored color (ttyPutcharT c s) (p.put c) (putchar_t_colored color s p c shows colored)
  | puts str =>
      rw [Page.print, List.flatMap_singleton]
      exact updatecursor_colored color (putsLoop str s) _ (puts_loop_colored color str s p shows colored)

theorem run_colored (ops : List Op) (s : Screen) (p : Page) (shows : Shows s p) (colored : Colored color s p) :
    Colored color (run s ops) (p.print ops) := by
  induction ops generalizing s p with
  | nil => exact colored
  | cons op ops ih =>
      have whole : p.print (op :: ops) = (p.print [op]).print ops := by
        simp only [Page.print, List.flatMap_cons, List.flatMap_nil, List.append_nil, List.foldl_append]
      rw [whole]
      exact ih (exec op s) (p.print [op]) (exec_shows op s p shows) (exec_colored color op s p shows colored)

end Runs

-- Once the page is longer than the screen, the last cell of the cursor's row
-- is one that scrolling has blanked.
theorem colours_kept_iff (s₀ : Screen) (ops : List Op) :
    (∀ i < VGA_HEIGHT * VGA_WIDTH, attr ((run (ttyClear s₀) ops).buf i) = (run (ttyClear s₀) ops).color) ↔
      (s₀.color = 0 ∨ (Page.blank.print ops).row < VGA_HEIGHT) ∧
      (s₀.color = 0xFF ∨ ∀ r c, r < VGA_HEIGHT → c < VGA_WIDTH →
        ∀ ch ∈ (Page.blank.print ops).text (r + ((Page.blank.print ops).row - (VGA_HEIGHT - 1))) c, ch < 0x80) := by
  have shows := run_shows ops (ttyClear s₀) Page.blank (clear_shows s₀)
  have colored := run_colored s₀.color ops (ttyClear s₀) Page.blank (clear_shows s₀) (clear_colored s₀)
  generalize run (ttyClear s₀) ops = s at shows colored ⊢
  generalize Page.blank.print ops = p at shows colored ⊢
  rw [colored.painted]
  have shown : ∀ r c, r < VGA_HEIGHT → c < VGA_WIDTH → attr (s.buf (r * VGA_WIDTH + c)) =
      shownAttr s₀.color (r + (p.row - (VGA_HEIGHT - 1))) (p.text (r + (p.row - (VGA_HEIGHT - 1))) c) :=
    fun r c inside across => by rw [colored.cells r c inside across, shown_attr]
  have height : VGA_HEIGHT = 25 := rfl
  have width : VGA_WIDTH = 80 := rfl
  constructor
  · intro all
    refine ⟨or_iff_not_imp_right.mpr (fun long => ?_), or_iff_not_imp_left.mpr (fun other r c inside across ch member => ?_)⟩
    · have last : 24 + (p.row - (VGA_HEIGHT - 1)) = p.row := by omega
      have across : p.col < 80 := shows.inside
      have corner := shown 24 79 (by decide) (by decide)
      rw [all _ (by decide), last, colored.ahead 79 (by omega), shownAttr, if_neg long] at corner
      exact corner
    · have painted := shown r c inside across
      rw [all _ (cell_inside r c inside across), Option.mem_def.mp member] at painted
      by_contra large
      exact other (painted.trans (if_neg large))
  · rintro ⟨blanks, chars⟩ i inside
    have row : i / VGA_WIDTH < VGA_HEIGHT := Nat.div_lt_of_lt_mul (Nat.mul_comm VGA_HEIGHT VGA_WIDTH ▸ inside)
    have col : i % VGA_WIDTH < VGA_WIDTH := Nat.mod_lt i (by decide)
    have place : i / VGA_WIDTH * VGA_WIDTH + i % VGA_WIDTH = i := Nat.div_add_mod' i VGA_WIDTH
    have painted := shown _ _ row col
    rw [place] at painted
    rw [painted]
    cases text : p.text (i / VGA_WIDTH + (p.row - (VGA_HEIGHT - 1))) (i % VGA_WIDTH) with
    | some ch =>
        by_cases small : ch < 0x80
        · exact if_pos small
        · rcases chars with full | low
          · exact (if_neg small).trans full.symm
          · exact absurd (low _ _ row col ch text) small
    | none =>
        by_cases first : i / VGA_WIDTH + (p.row - (VGA_HEIGHT - 1)) < VGA_HEIGHT
        · exact if_pos first
        · rcases blanks with black | short
          · exact (if_neg first).trans black.symm
          · exact absurd first (by omega)

def green : Screen := ⟨fun _ => 0, 0x02, 0, 0, 0, fun _ => 0, []⟩

theorem colours_lost_at_accent : ¬ ∀ (s₀ : Screen) (ops : List Op), ∀ i < VGA_HEIGHT * VGA_WIDTH,
    attr ((run (ttyClear s₀) ops).buf i) = (run (ttyClear s₀) ops).color := by
  intro all
  have first := all green [.putchar 0xE9] 0 (by decide)
  have colored := run_colored green.color [.putchar 0xE9] _ _ (clear_shows green) (clear_colored green)
  have corner := colored.cells 0 0 (by decide) (by decide)
  rw [colored.painted] at first
  rw [show 0 = 0 * VGA_WIDTH + 0 from rfl, corner, shown_attr] at first
  exact absurd first (by decide)

end Deimos.Tty
