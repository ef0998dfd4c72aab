import Mathlib.Logic.Function.Basic

set_option autoImplicit false

namespace Deimos.Tty

def VGA_WIDTH : Nat := 80

def VGA_HEIGHT : Nat := 25

-- A char, and the characters tty_putchar_t treats in a way of their own.
abbrev Char8 := BitVec 8

def TAB : Char8 := 0x09

def BACKSPACE : Char8 := 0x08

def NEWLINE : Char8 := 0x0A

def SPACE : Char8 := 0x20

-- tty_buf cell by cell, the globals of tty.c and the registers of the VGA
-- controller, with the indices at which tty_buf was accessed, the last one first.
structure Screen where
  buf : Nat → BitVec 16
  color : BitVec 8
  row : BitVec 16
  col : BitVec 16
  vgaIndex : BitVec 8
  vgaRegs : BitVec 8 → BitVec 8
  accesses : List Nat

def Screen.poke (i : Nat) (cell : BitVec 16) (s : Screen) : Screen :=
  { s with buf := Function.update s.buf i cell, accesses := i :: s.accesses }

def Screen.copyCell (i j : Nat) (s : Screen) : Screen :=
  { s with buf := Function.update s.buf i (s.buf j), accesses := i :: j :: s.accesses }

-- outb(VGA_INDEX_REG, index) and outb(VGA_INDEX_REG+1, value)
def Screen.outIndex (index : BitVec 8) (s : Screen) : Screen := { s with vgaIndex := index }

def Screen.outData (value : BitVec 8) (s : Screen) : Screen := { s with vgaRegs := Function.update s.vgaRegs s.vgaIndex value }

def ttyUpdatecursor (s : Screen) : Screen :=
  let tmp := s.row * BitVec.ofNat 16 VGA_WIDTH + s.col
  let s := s.outIndex 14
  let s := s.outData (((tmp >>> 8) &&& 0xFF).setWidth 8)
  let s := s.outIndex 15
  s.outData ((tmp &&& 0xFF).setWidth 8)

def copyRow (s : Screen) (r : Nat) : Screen :=
  (List.range VGA_WIDTH).foldl (fun s c => s.copyCell ((r - 1) * VGA_WIDTH + c) (r * VGA_WIDTH + c)) s

def ttyScroll (s : Screen) : Screen :=
  let s := (List.range' 1 (VGA_HEIGHT - 1)).foldl copyRow s
  (List.range VGA_WIDTH).foldl (fun s c => s.poke ((VGA_HEIGHT - 1) * VGA_WIDTH + c) 0x20) s

-- tty_color<<8 | c, with c sign-extended to an int
def cell (color : BitVec 8) (c : Char8) : BitVec 16 := (color.setWidth 16 <<< 8) ||| c.signExtend 16

def ttyPutcharT (c : Char8) (s : Screen) : Screen :=
  let s := if c = TAB then { s with col := s.col + (4 - s.col % 4) } else s
  if c = BACKSPACE then s
  else
    let s :=
      if c ≠ NEWLINE ∧ c ≠ TAB then
        let s := s.poke (s.row.toNat * VGA_WIDTH + s.col.toNat) (cell s.color c)
        { s with col := s.col + 1 }
      else s
    let s := if s.col.toNat ≥ VGA_WIDTH ∨ c = NEWLINE then { s with col := 0, row := s.row + 1 } else s
    if s.row.toNat ≥ VGA_HEIGHT then
      let s := ttyScroll s
      { s with row := BitVec.ofNat 16 (VGA_HEIGHT - 1) }
    else s

def ttyPutchar (c : Char8) (s : Screen) : Screen := ttyUpdatecursor (ttyPutcharT c s)

-- The loop of tty_puts over a string, which ends at its first NUL.
def putsLoop : List Char8 → Screen → Screen
  | [], s => s
  | c :: str, s => if c ≠ 0 then putsLoop str (ttyPutcharT c s) else s

def ttyPuts (str : List Char8) (s : Screen) : Screen := ttyUpdatecursor (putsLoop str s)

def ttyClear (s : Screen) : Screen :=
  let s := { s with row := 0, col := 0 }
  let s := (List.range (VGA_HEIGHT * VGA_WIDTH)).foldl (fun s i => s.poke i (cell s.color SPACE)) s
  ttyUpdatecursor s

inductive Op where
  | putchar (c : Char8)
  | puts (str : List Char8)

def exec : Op → Screen → Screen
  | .putchar c, s => ttyPutchar c s
  | .puts str, s => ttyPuts str s

end Deimos.Tty
