import Deimos.Kalloc.Model

set_option autoImplicit false

namespace Deimos.Paging

open Comp Kalloc

def KERNEL_PMA : Word := 0x00100000

def KERNEL_VMA : Word := 0xC0000000

def KERNEL_SIZE : Word := 0x00300000

def PDE_PRESENT : Word := 0x1

def PDE_WRITABLE : Word := 0x2

def PDE_4MB : Word := 0x80

def PDE_FRAME : Word := 0xFFFFF000

def PTE_PRESENT : Word := 0x1

def PTE_FRAME : Word := 0xFFFFF000

structure PageTable where
  entries : Nat → Word

-- A null pointer to a table is none.
structure PageDirectory where
  entries : Nat → Word
  tables : Nat → Option PageTable
  phys : Word

-- pde_* and pte_* are the same functions on one entry.
def setAttrib (e attrib : Word) : Word := e ||| attrib

def clearAttrib (e attrib : Word) : Word := e &&& ~~~ attrib

def getAttrib (e attrib : Word) : Word := e &&& attrib

def setFrame (e addr : Word) : Word := (e &&& ~~~ PDE_FRAME) ||| (addr &&& PDE_FRAME)

def getFrame (e : Word) : Word := e &&& PDE_FRAME

def directoryIndex (addr : Word) : Nat := (addr >>> 22 &&& 0x3FF).toNat

def tableIndex (addr : Word) : Nat := (addr >>> 12 &&& 0x3FF).toNat

def pdLookup (pd : Option PageDirectory) (addr : Word) : Option Word := pd.map (fun pd => pd.entries (directoryIndex addr))

def ptLookup (pt : Option PageTable) (addr : Word) : Option Word := pt.map (fun pt => pt.entries (tableIndex addr))

-- The directory that paging_init makes the current one, of _kernel_pd at kernelPd.
def pagingInit (kernelPd : Word) : PageDirectory :=
  let pd : PageDirectory := { entries := fun _ => 0, tables := fun _ => none, phys := kernelPd - KERNEL_VMA }
  let pde := pd.entries (directoryIndex KERNEL_VMA)
  let pde := setAttrib pde PDE_PRESENT
  let pde := setAttrib pde PDE_WRITABLE
  let pde := setAttrib pde PDE_4MB
  let pde := setFrame pde 0
  { pd with entries := fun i => if i = directoryIndex KERNEL_VMA then pde else pd.entries i }

def virtToPhys (currentPd : Option PageDirectory) (v : Word) : Except Stop Word :=
  match pdLookup currentPd v with
  | none => .error .fault
  | some pde =>
      if getAttrib pde PDE_PRESENT = 0 then .ok 0
      else if getAttrib pde PDE_4MB ≠ 0 then .ok (getFrame pde ||| (v &&& 0x003FFFFF))
      else
        match ptLookup (currentPd.bind (fun pd => pd.tables (directoryIndex v))) v with
        | none => .error .fault
        | some pte => if getAttrib pte PTE_PRESENT = 0 then .ok 0 else .ok (getFrame pte ||| (v &&& ~~~ PTE_FRAME))

-- kmalloc_ap with a pointer to p: the block and what is stored at it.
def kmallocAp (size : Word) (currentPd : Option PageDirectory) (s : Heap) : Comp Stop (Word × Word × Heap) := do
  let (addr, s) ← kmallocInt size true s
  let p ← virtToPhys currentPd addr
  pure (addr, p, s)

-- The end of mm_init: the heap goes from the end of the kernel's image to that of its 4 MiB.
def mmInitHeap (kernelEnd : Word) (m : Mem) : Except Stop Heap :=
  kheapInit kernelEnd (KERNEL_VMA + KERNEL_PMA + KERNEL_SIZE - kernelEnd) m

end Deimos.Paging
