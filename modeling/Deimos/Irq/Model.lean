import Deimos.Error
import Deimos.Lib.Chain
import Deimos.Lib.Run

set_option autoImplicit false

namespace Deimos.Irq

open Comp

abbrev Port := BitVec 16

def PIC_MASTER_CMD : Port := 0x20
def PIC_MASTER_DATA : Port := 0x21
def PIC_SLAVE_CMD : Port := 0xA0
def PIC_SLAVE_DATA : Port := 0xA1

def PIC_INIT : BitVec 8 := 0x11
def PIC_8086 : BitVec 8 := 0x01

def PIC_MASTER_OFFSET : BitVec 8 := 0x20
def PIC_SLAVE_OFFSET : BitVec 8 := 0x28

def PIC_MASTER_CSCD : BitVec 8 := 0x04
def PIC_SLAVE_CSCD : BitVec 8 := 0x02

def PIC_MASTER_MASK : BitVec 8 := 0xFF
def PIC_SLAVE_MASK : BitVec 8 := 0xFF

-- A handler_ptr_t is an entry of handlers or lies on the heap. A null
-- pointer to one is node 0.
inductive Ref where
  | table (i : Nat)
  | node (p : Word)
deriving DecidableEq, Repr

structure HandlerPtr where
  id : Word
  handler : Word
  next : Word
deriving DecidableEq, Repr

-- A port reads back what was last written to it, as the data ports of the PICs do.
structure State where
  cells : Ref → HandlerPtr
  ports : Port → BitVec 8
  heap : Ledger Word

namespace State

def next (s : State) (h : Ref) : Ref := .node (s.cells h).next

def setCell (h : Ref) (f : HandlerPtr → HandlerPtr) (s : State) : State :=
  { s with cells := Function.update s.cells h (f (s.cells h)) }

def outb (port : Port) (value : BitVec 8) (s : State) : State := { s with ports := Function.update s.ports port value }

def inb (port : Port) (s : State) : BitVec 8 := s.ports port

def kmalloc (answer : Word) (s : State) : Word × State := (answer, { s with heap := s.heap.take 0 answer })

def kfree (p : Word) (s : State) : State := { s with heap := s.heap.free p }

end State

def picPort (irq : BitVec 8) : Port := if irq < 8 then PIC_MASTER_DATA else PIC_SLAVE_DATA

def picLine (irq : BitVec 8) : BitVec 8 := if irq < 8 then irq else irq - 8

def picMaskIrq (irq : BitVec 8) (s : State) : State :=
  let mask := s.inb (picPort irq)
  let mask := (mask.setWidth 32 ||| (1#32 <<< (picLine irq).toNat)).setWidth 8
  s.outb (picPort irq) mask

def picUnmaskIrq (irq : BitVec 8) (s : State) : State :=
  let mask := s.inb (picPort irq)
  let mask := (mask.setWidth 32 &&& ~~~(1#32 <<< (picLine irq).toNat)).setWidth 8
  s.outb (picPort irq) mask

def picInit (s : State) : State :=
  let s := s.outb PIC_MASTER_CMD PIC_INIT
  let s := s.outb PIC_SLAVE_CMD PIC_INIT
  let s := s.outb PIC_MASTER_DATA PIC_MASTER_OFFSET
  let s := s.outb PIC_SLAVE_DATA PIC_SLAVE_OFFSET
  let s := s.outb PIC_MASTER_DATA PIC_MASTER_CSCD
  let s := s.outb PIC_SLAVE_DATA PIC_SLAVE_CSCD
  let s := s.outb PIC_MASTER_DATA PIC_8086
  let s := s.outb PIC_SLAVE_DATA PIC_8086
  let s := s.outb PIC_MASTER_DATA PIC_MASTER_MASK
  let s := s.outb PIC_SLAVE_DATA PIC_SLAVE_MASK
  picUnmaskIrq 2 s

def isrInit (s : State) : State :=
  { s with
    cells := fun h =>
      match h with
      | .table i => if i < 256 then ⟨0, 0, 0⟩ else s.cells (.table i)
      | .node p => s.cells (.node p) }

-- &handlers[interrupt]. Nothing is known of what lies behind the table.
def handlerEntry (interrupt : Word) : Except Stop Ref :=
  if interrupt.toNat < 256 then .ok (.table interrupt.toNat) else .error .fault

-- One pass of the while loop of isr_handler, with the handlers called so far, the last one first.
def walkBody (s : State) (state : Ref × List (Word × Word)) : Except Stop (Iter (Ref × List (Word × Word)) (List (Word × Word))) :=
  let (h, called) := state
  if h = .node 0 ∨ (s.cells h).handler = 0 then .ok (.done called.reverse)
  else .ok (.next (s.next h, ((s.cells h).id, (s.cells h).handler) :: called))

-- The handlers that isr_handler calls, in order, each with its id.
def isrHandlers (interrupt : Word) (s : State) : Comp Stop (List (Word × Word)) := do
  let h ← handlerEntry interrupt
  loop (walkBody s) (h, [])

-- answer is what kmalloc returns, should it be called.
def requestIsr (interrupt id handler answer : Word) (s : State) : Comp Stop (Word × State) :=
  if interrupt > 256 then pure (1, s)
  else do
    let h ← handlerEntry interrupt
    if (s.cells h).handler = 0 then pure (0, s.setCell h (fun c => { c with id := id, handler := handler }))
    else
      let (n, s) := s.kmalloc answer
      if n = 0 then pure (1, s)
      else
        let s := s.setCell (.node n) (fun _ => ⟨id, handler, 0⟩)
        let h ← Chain.last (.node 0) (fun _ => .ok ()) s.next h
        pure (0, s.setCell h (fun c => { c with next := n }))

def requestIrq (irq id handler answer : Word) (s : State) : Comp Stop (Word × State) := do
  let (ret, s) ← requestIsr (irq + 32) id handler answer s
  pure (ret, if ret = 0 then picUnmaskIrq (irq.setWidth 8) s else s)

-- h->next = h->next->next, with what was h->next freed.
def unlink (h : Ref) (s : State) : State :=
  let t := (s.cells h).next
  let s := s.setCell h (fun c => { c with next := (s.cells (.node t)).next })
  s.kfree t

def releaseIsr (interrupt id : Word) (s : State) : Comp Stop State := do
  let h ← handlerEntry interrupt
  if (s.cells h).id = id then
    if (s.cells h).next ≠ 0 then
      let t := s.cells (s.next h)
      let s := s.setCell h (fun c => { c with id := t.id, handler := t.handler })
      pure (unlink h s)
    else pure (s.setCell h (fun _ => ⟨0, 0, 0⟩))
  else
    match ← Chain.before (.node 0) (fun _ => .ok ()) s.next (fun t => (s.cells t).id = id) h with
    | some h => pure (unlink h s)
    | none => pure s

def releaseIrq (irq id : Word) (s : State) : Comp Stop State := do
  let s ← releaseIsr (irq + 32) id s
  let h ← handlerEntry (irq + 32)
  pure (if (s.cells h).handler = 0 then picMaskIrq (irq.setWidth 8) s else s)

end Deimos.Irq
