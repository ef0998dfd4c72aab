import Deimos.Lib.Memory
import Deimos.Lib.Bytes
import Deimos.Lib.Run

set_option autoImplicit false

namespace Deimos.Rtl

structure Frame where
  status : BitVec 16
  bytes : List Byte
  marked : status ≠ 0
  long : 64 ≤ bytes.length
  short : bytes.length ≤ 1518

def Frame.size (f : Frame) : BitVec 16 := BitVec.ofNat 16 f.bytes.length

-- What the card writes for a frame, in front of it the little-endian header.
def Frame.wire (f : Frame) : List Byte :=
  [f.status.setWidth 8, (f.status >>> 8).setWidth 8, f.size.setWidth 8, (f.size >>> 8).setWidth 8] ++ f.bytes

structure PktBuf where
  len : Word
  data : List Byte
deriving DecidableEq, Repr

structure Put where
  offset : Nat
  frame : Frame

-- One pass of the handler's loop: where it read the header, whether
-- net_alloc_pkt_buf had memory, and what net_cpy_pkt left in the buffer.
structure Read where
  offset : Nat
  served : Bool
  pkt : Option PktBuf
deriving DecidableEq, Repr

-- rx_buf is what lies from the buffer's start on. The card's side is its write
-- offset and what it has put, the driver's what it has read, oldest first.
structure Receiver where
  rxBuf : Nat → Byte
  rxPtr : BitVec 16
  handling : Bool
  writeOffset : Nat
  placed : List Put
  reads : List Read

def RING : Nat := 32768

-- rx_ptr % RX_BUF_SIZE is rx_ptr % 32*1024, as the macro has no parentheses.
def wrapPtr (ptr : BitVec 16) : BitVec 16 :=
  if ptr.setWidth 32 > (32 * 1024 : Word) then (ptr.setWidth 32 % (32 : Word) * 1024).setWidth 16 else ptr

def rxHeader (mem : Nat → Byte) (p : Nat) : Word := mem (p + 3) ++ mem (p + 2) ++ mem (p + 1) ++ mem p

def nextPtr (ptr size : BitVec 16) : BitVec 16 :=
  ((ptr.setWidth 32 + size.setWidth 32 + 4 + 3) &&& (~~~3 : Word)).setWidth 16

def netCpyPkt (mem : Nat → Byte) (src : Nat) (size : Word) : PktBuf :=
  ⟨size, (List.range size.toNat).map (fun i => mem (src + i))⟩

-- The body of the while loop in rtl_isr_handler.
def rtlReceive (served : Bool) (s : Receiver) : Receiver :=
  let ptr := wrapPtr s.rxPtr
  let header := rxHeader s.rxBuf ptr.toNat
  let status : BitVec 16 := header.setWidth 16
  let size : BitVec 16 := (header >>> 16).setWidth 16
  let pktSize := size - 4
  let pkt :=
    if status = 0 then none
    else if served then some (netCpyPkt s.rxBuf (ptr.toNat + 4) (pktSize.setWidth 32))
    else none
  { s with rxPtr := nextPtr ptr size, reads := s.reads ++ [⟨ptr.toNat, served, pkt⟩] }

def roundUp (n : Nat) : Nat := (n + 3) / 4 * 4

def Frame.room (f : Frame) : Nat := roundUp (4 + f.bytes.length)

-- The card writes a frame without wrapping inside it.
def deliver (f : Frame) (s : Receiver) : Receiver :=
  { s with
    rxBuf := Ring.write s.rxBuf s.writeOffset f.wire
    writeOffset := roundUp (s.writeOffset + 4 + f.bytes.length) % RING
    placed := s.placed ++ [⟨s.writeOffset, f⟩] }

def total (frames : List Put) : Nat := (frames.map (fun p => p.frame.room)).sum

def BufferEmpty (s : Receiver) : Prop := s.placed.length ≤ s.reads.length

-- The card delivers while there is room; rtl_isr_handler is entered for a
-- received frame, and loops until the buffer is empty.
inductive ReceiveStep (s : Receiver) : Receiver → Prop
  | deliver (f : Frame) (room : total (s.placed.drop s.reads.length) + f.room ≤ RING) : ReceiveStep s (deliver f s)
  | interrupt (idle : s.handling = false) : ReceiveStep s { s with handling := true }
  | receive (served : Bool) (handling : s.handling = true) (some : ¬BufferEmpty s) : ReceiveStep s (rtlReceive served s)
  | leave (handling : s.handling = true) (none : BufferEmpty s) : ReceiveStep s { s with handling := false }

end Deimos.Rtl
