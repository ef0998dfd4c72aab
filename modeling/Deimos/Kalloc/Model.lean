import Deimos.Lib.Comp
import Deimos.Error

set_option autoImplicit false

namespace Deimos.Kalloc

open Comp

def HEAP_MAGIC : Word := 0xDEADBEEF

-- header_t, as it lies in memory: five words, one field each.
inductive Field where
  | magic | size | allocated | prev | next
deriving DecidableEq, Repr

def Field.offset : Field → Word
  | .magic => 0
  | .size => 4
  | .allocated => 8
  | .prev => 12
  | .next => 16

-- sizeof(header_t)
def headerSize : Word := 20

def load (m : Mem) (h : Word) (field : Field) : Word := m.read (h + field.offset)

def store (m : Mem) (h : Word) (field : Field) (value : Word) : Mem := m.write (h + field.offset) value

structure Heap where
  mem : Mem
  kheap : Word

-- Returns the memory and the new block, which is 0 if the block could not be cut there.
def splitBlock (m : Mem) (h dist : Word) : Mem × Word :=
  if dist > load m h .size - headerSize ∨ dist < headerSize then (m, 0)
  else
    let newH := h + dist
    let m := store m newH .size (load m h .size - dist)
    let m := store m newH .allocated (load m h .allocated)
    let m := store m newH .magic HEAP_MAGIC
    let m := store m h .size dist
    let m := if load m h .next ≠ 0 then store m (load m h .next) .prev newH else m
    let m := store m newH .next (load m h .next)
    let m := store m h .next newH
    let m := store m newH .prev h
    (m, newH)

-- size += size%4, which kmalloc_int calls rounding up to 4 bytes.
def roundSize (size : Word) : Word := size + size % 4

def alignedAddr (h : Word) : Word := (h + 2 * headerSize + 0x0FFF) &&& 0xFFFFF000

def Fits (m : Mem) (size h : Word) : Prop := load m h .allocated = 0 ∧ load m h .size ≥ size + headerSize

instance (m : Mem) (size h : Word) : Decidable (Fits m size h) := inferInstanceAs (Decidable (_ ∧ _))

-- The aligned branch of kmalloc_int past its two continue statements.
def takeAligned (m : Mem) (size h : Word) : Except Stop (Mem × Word) :=
  let (m, newH) := splitBlock m h (alignedAddr h - h - headerSize)
  deref newH <|
    let m := store m newH .allocated 1
    if load m newH .size > size + 2 * headerSize then
      let (m, backH) := splitBlock m newH (headerSize + size)
      deref backH <| .ok (store m backH .allocated 0, newH + headerSize)
    else .ok (m, newH + headerSize)

def takeUnaligned (m : Mem) (size h : Word) : Mem × Word :=
  if load m h .size < size + 2 * headerSize then (store m h .allocated 1, h + headerSize)
  else
    let (m, _) := splitBlock m h (headerSize + size)
    (store m h .allocated 1, h + headerSize)

-- One pass of the while loop of kmalloc_int. Both continue statements of the
-- aligned branch go round again with h as it is.
def searchBody (m : Mem) (size : Word) (align : Bool) (h : Word) : Except Stop (Iter Word (Mem × Word)) :=
  if h = 0 then .ok (.done (m, 0))
  else if load m h .magic ≠ HEAP_MAGIC then kpanic "kmalloc: heap magic violated"
  else if Fits m size h then
    if align then
      if alignedAddr h - h < headerSize then .ok (.next h)
      else if alignedAddr h + size > h + load m h .size then .ok (.next h)
      else (takeAligned m size h).map .done
    else .ok (.done (takeUnaligned m size h))
  else .ok (.next (load m h .next))

def kmallocInt (size : Word) (align : Bool) (s : Heap) : Comp Stop (Word × Heap) :=
  if size = 0 then pure (0, s)
  else if s.kheap = 0 then kpanic "kmalloc: tried to allocate memory before heap initialization"
  else do
    let (m, ptr) ← loop (searchBody s.mem (roundSize size) align) s.kheap
    pure (ptr, { s with mem := m })

def kmalloc (size : Word) (s : Heap) : Comp Stop (Word × Heap) := kmallocInt size false s

def kmallocA (size : Word) (s : Heap) : Comp Stop (Word × Heap) := kmallocInt size true s

def kheapInit (start size : Word) (m : Mem) : Except Stop Heap :=
  deref start <|
    let m := store m start .size size
    let m := store m start .allocated 0
    let m := store m start .magic HEAP_MAGIC
    let m := store m start .next 0
    let m := store m start .prev 0
    .ok { mem := m, kheap := start }

-- One pass of heap_sanity_check: the block and the one before it.
def sanityBody (m : Mem) (state : Word × Word) : Except Stop (Iter (Word × Word) Unit) :=
  let (h, temp) := state
  if h = 0 then .ok (.done ())
  else if load m h .magic ≠ HEAP_MAGIC then kpanic "kheap: heap magic violated"
  else if temp ≠ load m h .prev then kpanic "kheap: bad prev pointer"
  else .ok (.next (load m h .next, h))

def heapSanityCheck (s : Heap) : Comp Stop Unit := loop (sanityBody s.mem) (s.kheap, 0)

-- The two merges at the end of kfree.
def mergeNext (m : Mem) (h : Word) : Mem :=
  if load m h .next ≠ 0 ∧ load m (load m h .next) .allocated = 0 then
    let m := store m h .size (load m h .size + load m (load m h .next) .size)
    let m := if load m (load m h .next) .next ≠ 0 then store m (load m (load m h .next) .next) .prev h else m
    store m h .next (load m (load m h .next) .next)
  else m

def mergePrev (m : Mem) (h : Word) : Mem :=
  if load m h .prev ≠ 0 ∧ load m (load m h .prev) .allocated = 0 then
    let m := store m (load m h .prev) .size (load m (load m h .prev) .size + load m h .size)
    let m := if load m h .next ≠ 0 then store m (load m h .next) .prev (load m h .prev) else m
    store m (load m h .prev) .next (load m h .next)
  else m

def kfree (ptr : Word) (s : Heap) : Except Stop Heap :=
  if ptr = 0 then .ok s
  else
    let h := ptr - headerSize
    deref h <|
      if load s.mem h .magic ≠ HEAP_MAGIC then kpanic "kfree: heap magic violated"
      else .ok { s with mem := mergePrev (mergeNext (store s.mem h .allocated 0) h) h }

end Deimos.Kalloc
