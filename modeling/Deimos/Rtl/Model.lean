import Deimos.Lib.Run
import Deimos.Irq.Model

set_option autoImplicit false

namespace Deimos.Rtl

open Comp Run

def NETDEV_ETHERNET : Word := 1

-- &rtl_pci_dev and &rtl_isr_handler.
structure Image where
  id : Word
  handler : Word
  nonnull : handler ≠ 0

-- The registry of isr.c, with the list of net.c, the file-level variables of
-- rtl8139.c and the interrupt line that the PCI device is on. netDevs.next is
-- the next of a net_dev_t and types its type.
structure State extends Irq.State where
  netDevs : Linked Word
  types : Word → Word
  rtlNetDev : Word
  rxBuf : Word
  started : Bool
  intline : BitVec 8

namespace State

def take (answer : Word) (s : State) : State := { s with heap := s.heap.take 0 answer }

def kfree (p : Word) (s : State) : State := { s with heap := s.heap.free p }

end State

def registerNetDev (dev : Word) (s : State) : Comp Stop (Word × State) :=
  if dev = 0 then pure (1, s)
  else if s.types dev = NETDEV_ETHERNET then do
    let l ← s.netDevs.append 0 (fun _ => .ok ()) dev
    pure (0, { s with netDevs := l })
  else pure (1, s)

def removeNetDev (dev : Word) (s : State) : Comp Stop (Word × State) :=
  if dev = 0 ∨ s.netDevs.head = 0 then pure (1, s)
  else do
    match ← s.netDevs.remove 0 (fun _ => .ok ()) dev with
    | some l => pure (0, { s with netDevs := l })
    | none => pure (1, s)

def cleanAndFail (s : State) : Word × State :=
  let s := { s.kfree s.rtlNetDev with rtlNetDev := 0 }
  (1, { s.kfree s.rxBuf with rxBuf := 0 })

-- What pci_search, kmalloc, kmalloc_ap and the kmalloc in request_isr return, should they be called.
structure Answers where
  found : Bool
  netDev : Word
  rxBuf : Word
  node : Word
deriving DecidableEq, Repr

def rtlModuleInit (image : Image) (answers : Answers) (s : State) : Comp Stop (Word × State) :=
  if s.started then pure (1, s)
  else if !answers.found then pure (1, s)
  else
    let s : State := { s.take answers.netDev with rtlNetDev := answers.netDev }
    if s.rtlNetDev = 0 then pure (cleanAndFail s)
    else
      let s : State :=
        { s with
          netDevs := { s.netDevs with next := Function.update s.netDevs.next s.rtlNetDev 0 }
          types := Function.update s.types s.rtlNetDev NETDEV_ETHERNET }
      let s : State := { s.take answers.rxBuf with rxBuf := answers.rxBuf }
      if s.rxBuf = 0 then pure (cleanAndFail s)
      else do
        let (ret, s) ← registerNetDev s.rtlNetDev s
        if ret ≠ 0 then pure (cleanAndFail s)
        else do
          let (ret, irq) ← Irq.requestIrq (s.intline.setWidth 32) image.id image.handler answers.node s.toState
          let s : State := { s with toState := irq }
          if ret ≠ 0 then pure (cleanAndFail s)
          else pure (0, { s with started := true })

def rtlModuleKill (image : Image) (s : State) : Comp Stop (Word × State) :=
  if !s.started then pure (1, s)
  else do
    let irq ← Irq.releaseIrq (s.intline.setWidth 32) image.id s.toState
    let s : State := { s with toState := irq }
    let (_, s) ← removeNetDev s.rtlNetDev s
    let s := s.kfree s.rtlNetDev
    let s := s.kfree s.rxBuf
    pure (0, { s with started := false })

inductive Op where
  | init (answers : Answers)
  | kill
deriving DecidableEq, Repr

def exec (image : Image) : Op → State → Comp Stop (Word × State)
  | .init answers, s => rtlModuleInit image answers s
  | .kill, s => rtlModuleKill image s

-- The allocator hands out blocks that are not live, to one request each.
def Allowed : Op → State → Prop
  | .init answers, s => s.heap.Fresh 0 answers.netDev ∧ (s.heap.take 0 answers.netDev).Fresh 0 answers.rxBuf ∧
      ((s.heap.take 0 answers.netDev).take 0 answers.rxBuf).Fresh 0 answers.node
  | .kill, _ => True

def Step (image : Image) (may : Op → State → Prop) (s s' : State) : Prop :=
  ∃ op ret, Allowed op s ∧ may op s ∧ (exec image op s).Returns (ret, s')

end Deimos.Rtl
