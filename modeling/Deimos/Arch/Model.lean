import Mathlib.Logic.Function.Basic
import Deimos.Lib.Fields
import Deimos.Lib.Memory

set_option autoImplicit false

namespace Deimos.Arch

open Fields

abbrev Half := BitVec 16
abbrev Quad := BitVec 64

-- An operand of type uint8_t or uint16_t becomes an int. A 32-bit result goes
-- into a uint64_t with its sign if it is an int, and with zeros otherwise.
def promote {w : Nat} (x : BitVec w) : Word := x.setWidth 32

def ofInt (x : Word) : Quad := x.signExtend 64

def ofUnsigned (x : Word) : Quad := x.setWidth 64

def GDT_KERNEL_CODE : Half := 0xC09A
def GDT_KERNEL_DATA : Half := 0xC092
def GDT_USER_CODE : Half := 0xC0FA
def GDT_USER_DATA : Half := 0xC0F2

abbrev GDT_NUM_ENTRIES : Nat := 5

def IDT_KERNEL_INT : Byte := 0x8E
def IDT_KERNEL_NULL : Byte := 0x00

def IDT_NUM_ENTRIES : Nat := 256

-- gdt_entry_t and idt_entry_t are unions of the bits with the fields, which
-- lie in the eight bytes from the lowest on.
structure GdtEntry where
  bits : Quad
deriving DecidableEq, Repr

namespace GdtEntry

def limit (e : GdtEntry) : Half := field 16 0 e.bits
def baseLow (e : GdtEntry) : Half := field 16 16 e.bits
def baseMid (e : GdtEntry) : Byte := field 8 32 e.bits
def access (e : GdtEntry) : Byte := field 8 40 e.bits
def granularity (e : GdtEntry) : Byte := field 8 48 e.bits
def baseHi (e : GdtEntry) : Byte := field 8 56 e.bits

end GdtEntry

structure IdtEntry where
  bits : Quad
deriving DecidableEq, Repr

namespace IdtEntry

def offsetLow (e : IdtEntry) : Half := field 16 0 e.bits
def selector (e : IdtEntry) : Half := field 16 16 e.bits
def zero (e : IdtEntry) : Byte := field 8 32 e.bits
def types (e : IdtEntry) : Byte := field 8 40 e.bits
def offsetHi (e : IdtEntry) : Half := field 16 48 e.bits

end IdtEntry

def gdtCreateEntry (base limit : Word) (flags : Half) : GdtEntry :=
  let desc : Quad := 0
  let desc := desc ||| ofUnsigned (base &&& 0xFF000000)
  let desc := desc ||| ofInt ((promote flags <<< 8) &&& 0x00F00000)
  let desc := desc ||| ofUnsigned (limit &&& 0x000F0000)
  let desc := desc ||| ofInt ((promote flags <<< 8) &&& 0x0000FF00)
  let desc := desc ||| ofUnsigned ((base >>> 16) &&& 0x000000FF)
  let desc := desc <<< 32
  let desc := desc ||| ofUnsigned ((base <<< 16) &&& 0xFFFF0000)
  let desc := desc ||| ofUnsigned (limit &&& 0x0000FFFF)
  ⟨desc⟩

-- selector<<16 is an int whose sign bit may be set, but the mask is an
-- unsigned int and so is the result.
def idtCreateEntry (selector : Half) (offset : Word) (flags : Byte) : IdtEntry :=
  let desc : Quad := 0
  let desc := desc ||| ofUnsigned (offset &&& 0xFFFF0000)
  let desc := desc ||| ofInt ((promote flags <<< 8) &&& 0x0000FF00)
  let desc := desc <<< 32
  let desc := desc ||| ofUnsigned ((promote selector <<< 16) &&& 0xFFFF0000)
  let desc := desc ||| ofUnsigned (offset &&& 0x0000FFFF)
  ⟨desc⟩

-- gdt_ptr_t and idt_ptr_t.
structure TablePtr where
  size : Half
  offset : Word
deriving DecidableEq, Repr

structure State where
  gdtAt : Word
  gptr : TablePtr
  gdt : Fin GDT_NUM_ENTRIES → GdtEntry
  idtAt : Word
  iptr : TablePtr
  idt : Byte → IdtEntry
  gdtr : TablePtr
  idtr : TablePtr
  cs : Half
  ds : Half
  es : Half
  fs : Half
  gs : Half
  ss : Half

def gdtLoad (s : State) : State :=
  { s with gdtr := s.gptr, ds := 0x10, es := 0x10, fs := 0x10, gs := 0x10, ss := 0x10, cs := 0x08 }

def idtLoad (s : State) : State := { s with idtr := s.iptr }

def setSegment (i : Fin GDT_NUM_ENTRIES) (e : GdtEntry) (s : State) : State := { s with gdt := Function.update s.gdt i e }

def setGate (interrupt : Byte) (e : IdtEntry) (s : State) : State := { s with idt := Function.update s.idt interrupt e }

def gdtInit (s : State) : State :=
  let s := { s with gptr := ⟨BitVec.ofNat 16 (GDT_NUM_ENTRIES * 8 - 1), s.gdtAt⟩ }
  let s := setSegment 0 (gdtCreateEntry 0 0 0) s
  let s := setSegment 1 (gdtCreateEntry 0 0xFFFFFFFF GDT_KERNEL_CODE) s
  let s := setSegment 2 (gdtCreateEntry 0 0xFFFFFFFF GDT_KERNEL_DATA) s
  let s := setSegment 3 (gdtCreateEntry 0 0xFFFFFFFF GDT_USER_CODE) s
  let s := setSegment 4 (gdtCreateEntry 0 0xFFFFFFFF GDT_USER_DATA) s
  gdtLoad s

def idtRegisterIsr (interrupt : Byte) (funcPtr : Word) (s : State) : State :=
  setGate interrupt (idtCreateEntry 0x08 funcPtr IDT_KERNEL_INT) s

def idtClearIsr (interrupt : Byte) (s : State) : State := setGate interrupt (idtCreateEntry 0 0 IDT_KERNEL_NULL) s

def idtInit (s : State) : State :=
  let s := { s with iptr := ⟨BitVec.ofNat 16 (IDT_NUM_ENTRIES * 8 - 1), s.idtAt⟩ }
  let s := (List.range IDT_NUM_ENTRIES).foldl (fun s i => setGate (BitVec.ofNat 8 i) (idtCreateEntry 0 0 IDT_KERNEL_NULL) s) s
  idtLoad s

-- The interrupts that isr_init gives a wrapper, in its order. Interrupt 34 is
-- left out: it is the line between the two controllers.
def isrWrappers : List Byte :=
  [0, 1, 2, 3, 4, 5, 6, 7, 8, 10, 11, 12, 13, 14, 16, 17, 18, 19, 20, 30,
    32, 33, 35, 36, 37, 38, 39, 40, 41, 42, 43, 44, 45, 46, 47]

def isrInit (wrapper : Byte → Word) (s : State) : State :=
  isrWrappers.foldl (fun s interrupt => idtRegisterIsr interrupt (wrapper interrupt) s) s

inductive Op where
  | idtRegisterIsr (interrupt : Byte) (funcPtr : Word)
  | idtClearIsr (interrupt : Byte)

def exec : Op → State → State
  | .idtRegisterIsr interrupt funcPtr, s => idtRegisterIsr interrupt funcPtr s
  | .idtClearIsr interrupt, s => idtClearIsr interrupt s

end Deimos.Arch
