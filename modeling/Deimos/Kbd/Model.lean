import Mathlib.Logic.Function.Basic

set_option autoImplicit false

namespace Deimos.Kbd

abbrev Byte := BitVec 8

-- Values are ASCII or, for what is not, the kernel's own codes.
abbrev KeyCode := BitVec 16

def KEY_0 : KeyCode := 0x30
def KEY_1 : KeyCode := 0x31
def KEY_2 : KeyCode := 0x32
def KEY_3 : KeyCode := 0x33
def KEY_4 : KeyCode := 0x34
def KEY_5 : KeyCode := 0x35
def KEY_6 : KeyCode := 0x36
def KEY_7 : KeyCode := 0x37
def KEY_8 : KeyCode := 0x38
def KEY_9 : KeyCode := 0x39
def KEY_A : KeyCode := 0x61
def KEY_B : KeyCode := 0x62
def KEY_C : KeyCode := 0x63
def KEY_D : KeyCode := 0x64
def KEY_E : KeyCode := 0x65
def KEY_F : KeyCode := 0x66
def KEY_G : KeyCode := 0x67
def KEY_H : KeyCode := 0x68
def KEY_I : KeyCode := 0x69
def KEY_J : KeyCode := 0x6A
def KEY_K : KeyCode := 0x6B
def KEY_L : KeyCode := 0x6C
def KEY_M : KeyCode := 0x6D
def KEY_N : KeyCode := 0x6E
def KEY_O : KeyCode := 0x6F
def KEY_P : KeyCode := 0x70
def KEY_Q : KeyCode := 0x71
def KEY_R : KeyCode := 0x72
def KEY_S : KeyCode := 0x73
def KEY_T : KeyCode := 0x74
def KEY_U : KeyCode := 0x75
def KEY_V : KeyCode := 0x76
def KEY_W : KeyCode := 0x77
def KEY_X : KeyCode := 0x78
def KEY_Y : KeyCode := 0x79
def KEY_Z : KeyCode := 0x7A
def KEY_ENTER : KeyCode := 0x0A
def KEY_TAB : KeyCode := 0x09
def KEY_BACKSPACE : KeyCode := 0x08
def KEY_SPACE : KeyCode := 0x20
def KEY_QUOTE : KeyCode := 0x27
def KEY_ASTERISK : KeyCode := 0x2A
def KEY_COMMA : KeyCode := 0x2C
def KEY_MINUS : KeyCode := 0x2D
def KEY_PERIOD : KeyCode := 0x2E
def KEY_FORWARDSLASH : KeyCode := 0x2F
def KEY_SEMICOLON : KeyCode := 0x3B
def KEY_EQUAL : KeyCode := 0x3D
def KEY_LEFTBRACKET : KeyCode := 0x5B
def KEY_BACKSLASH : KeyCode := 0x5C
def KEY_RIGHTBRACKET : KeyCode := 0x5D
def KEY_GRAVE : KeyCode := 0x60
def KEY_UNKNOWN : KeyCode := 0x0000
def KEY_ESCAPE : KeyCode := 0x1000
def KEY_F1 : KeyCode := 0x1001
def KEY_F2 : KeyCode := 0x1002
def KEY_F3 : KeyCode := 0x1003
def KEY_F4 : KeyCode := 0x1004
def KEY_F5 : KeyCode := 0x1005
def KEY_F6 : KeyCode := 0x1006
def KEY_F7 : KeyCode := 0x1007
def KEY_F8 : KeyCode := 0x1008
def KEY_F9 : KeyCode := 0x1009
def KEY_F10 : KeyCode := 0x100A
def KEY_F11 : KeyCode := 0x100B
def KEY_F12 : KeyCode := 0x100C
def KEY_LSHIFT : KeyCode := 0x2000
def KEY_LCTRL : KeyCode := 0x2001
def KEY_LALT : KeyCode := 0x2002
def KEY_RSHIFT : KeyCode := 0x2003
def KEY_RCTRL : KeyCode := 0x2004
def KEY_RALT : KeyCode := 0x2005
def KEY_CAPSLOCK : KeyCode := 0x3000
def KEY_NUMLOCK : KeyCode := 0x3001
def KEY_SCROLLLOCK : KeyCode := 0x3002
def KEY_INSERT : KeyCode := 0x4000
def KEY_DELETE : KeyCode := 0x4001
def KEY_HOME : KeyCode := 0x4002
def KEY_PAGEUP : KeyCode := 0x4004
def KEY_PAGEDOWN : KeyCode := 0x4005
def KEY_UP : KeyCode := 0x5000
def KEY_DOWN : KeyCode := 0x5001

def xtScan : List KeyCode := [
  KEY_UNKNOWN, KEY_ESCAPE,
  KEY_1, KEY_2, KEY_3, KEY_4, KEY_5, KEY_6, KEY_7, KEY_8, KEY_9, KEY_0,
  KEY_MINUS, KEY_EQUAL, KEY_BACKSPACE, KEY_TAB,
  KEY_Q, KEY_W, KEY_E, KEY_R, KEY_T, KEY_Y, KEY_U, KEY_I, KEY_O, KEY_P,
  KEY_LEFTBRACKET, KEY_RIGHTBRACKET, KEY_ENTER, KEY_LCTRL,
  KEY_A, KEY_S, KEY_D, KEY_F, KEY_G, KEY_H, KEY_J, KEY_K, KEY_L,
  KEY_SEMICOLON, KEY_QUOTE, KEY_GRAVE, KEY_LSHIFT, KEY_BACKSLASH,
  KEY_Z, KEY_X, KEY_C, KEY_V, KEY_B, KEY_N, KEY_M,
  KEY_COMMA, KEY_PERIOD, KEY_FORWARDSLASH, KEY_RSHIFT,
  KEY_ASTERISK, KEY_RALT, KEY_SPACE, KEY_CAPSLOCK,
  KEY_F1, KEY_F2, KEY_F3, KEY_F4, KEY_F5, KEY_F6, KEY_F7, KEY_F8,
  KEY_F9, KEY_F10, KEY_NUMLOCK, KEY_SCROLLLOCK, KEY_HOME,
  KEY_UP, KEY_PAGEUP, KEY_DOWN, KEY_PAGEDOWN, KEY_INSERT, KEY_DELETE,
  KEY_UNKNOWN, KEY_UNKNOWN, KEY_UNKNOWN, KEY_F11, KEY_F12]

def PS2_STATUS_OUTBUFRDY : Byte := 0x01

def PS2_KBD_SETLEDS : Byte := 0xED

-- The variables of ps2_kbd.c, with what was written to the keyboard and the
-- indices at which xt_scan was read, the last one first.
structure Keyboard where
  ctrl : Byte
  alt : Byte
  shift : Byte
  numlock : Byte
  capslock : Byte
  scrolllock : Byte
  buf : Byte
  written : List Byte
  reads : List Nat

def boot : Keyboard := ⟨0, 0, 0, 0, 0, 0, 0, [], []⟩

-- xt_scan[i]. What lies behind the table is given by behind.
def scanAt (behind : Nat → KeyCode) (i : Nat) : KeyCode := xtScan.getD i (behind i)

def Keyboard.read (i : Nat) (k : Keyboard) : Keyboard := { k with reads := i :: k.reads }

-- The controller takes a byte once its input buffer is empty, which is waited for.
def ps2WritePort1 (data : Byte) (k : Keyboard) : Keyboard := { k with written := data :: k.written }

def updateLeds (k : Keyboard) : Keyboard :=
  let data := 0
  let data := if k.scrolllock ≠ 0 then data ||| 1 else data
  let data := if k.numlock ≠ 0 then data ||| 2 else data
  let data := if k.capslock ≠ 0 then data ||| 4 else data
  ps2WritePort1 data (ps2WritePort1 PS2_KBD_SETLEDS k)

-- The switch for a break code and that for a make code.
def released (key : KeyCode) (k : Keyboard) : Keyboard :=
  if key = KEY_LCTRL ∨ key = KEY_RCTRL then { k with ctrl := 0 }
  else if key = KEY_LSHIFT ∨ key = KEY_RSHIFT then { k with shift := 0 }
  else if key = KEY_LALT ∨ key = KEY_RALT then { k with alt := 0 }
  else k

def pressed (key : KeyCode) (k : Keyboard) : Keyboard :=
  if key = KEY_LCTRL ∨ key = KEY_RCTRL then { k with ctrl := 1 }
  else if key = KEY_LSHIFT ∨ key = KEY_RSHIFT then { k with shift := 1 }
  else if key = KEY_LALT ∨ key = KEY_RALT then { k with alt := 1 }
  else if key = KEY_CAPSLOCK then updateLeds { k with capslock := if k.capslock ≠ 0 then 0 else 1 }
  else if key = KEY_NUMLOCK then updateLeds { k with numlock := if k.numlock ≠ 0 then 0 else 1 }
  else if key = KEY_SCROLLLOCK then updateLeds { k with scrolllock := if k.scrolllock ≠ 0 then 0 else 1 }
  else k

theorem break_bit (scanCode : Byte) : scanCode &&& 0x80 ≠ 0 ↔ 128 ≤ scanCode.toNat := by
  have all : ∀ b : Byte, b &&& 0x80 ≠ 0 ↔ 128 ≤ b.toNat := by decide
  exact all scanCode

-- status is what the controller's status port says, scanCode what its data port does.
def kbdIsr (behind : Nat → KeyCode) (status scanCode : Byte) (k : Keyboard) : Keyboard :=
  if status &&& PS2_STATUS_OUTBUFRDY = 0 then k
  else if scanCode = 0xE0 ∨ scanCode = 0xE1 then k
  else if scanCode &&& 0x80 ≠ 0 then
    let i := scanCode.toNat - 0x80
    released (scanAt behind i) (k.read i)
  else
    let k := { k with buf := scanCode }
    let i := scanCode.toNat
    pressed (scanAt behind i) (k.read i)

def kbdGetScan (k : Keyboard) : Byte := k.buf

def kbdClrScan (k : Keyboard) : Keyboard := { k with buf := 0 }

def kbdGetKey (behind : Nat → KeyCode) (k : Keyboard) : Byte × Keyboard :=
  ((scanAt behind k.buf.toNat).setWidth 8, k.read k.buf.toNat)

def kbdClrKey (k : Keyboard) : Keyboard := { k with buf := 0 }

end Deimos.Kbd
