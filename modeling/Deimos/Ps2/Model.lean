import Deimos.Error
import Deimos.Lib.Comp

set_option autoImplicit false

namespace Deimos.Ps2

open Comp

def PS2_STATUS_OUTBUFRDY : Byte := 0x01
def PS2_STATUS_INBUFFULL : Byte := 0x02

def PS2_DSBLPORT2 : Byte := 0xA7
def PS2_ENBLPORT2 : Byte := 0xA8
def PS2_TESTPORT2 : Byte := 0xA9
def PS2_SELFTEST : Byte := 0xAA
def PS2_TESTPORT1 : Byte := 0xAB
def PS2_DSBLPORT1 : Byte := 0xAD
def PS2_ENBLPORT1 : Byte := 0xAE
def PS2_WRITE2IN : Byte := 0xD4
def PS2_DEVRESET : Byte := 0xFF

def PS2_TESTPASS : Byte := 0x55

-- What the status port and the data port give, read after read. Whenever it is
-- waited for, the input buffer gets empty and the output buffer full.
structure Controller where
  status : Nat → Byte
  data : Nat → Byte
  accepts : ∀ n, ∃ m, n ≤ m ∧ status m &&& PS2_STATUS_INBUFFULL = 0
  answers : ∀ n, ∃ m, n ≤ m ∧ status m &&& PS2_STATUS_OUTBUFRDY ≠ 0

-- Port accesses, reads with what they gave. The read with which ps2_init
-- flushes the output buffer is told from those of ps2_read_data.
inductive Access where
  | status (value : Byte)
  | flushed (value : Byte)
  | read (value : Byte)
  | command (cmd : Byte)
  | data (value : Byte)
deriving DecidableEq, Repr

-- How often the two ports have been read, and all accesses, the last one first.
structure Ports where
  polls : Nat
  taken : Nat
  log : List Access
deriving DecidableEq

def idle : Ports := ⟨0, 0, []⟩

section Driver

variable (c : Controller)

def ps2ReadStatus (s : Ports) : Byte × Ports :=
  (c.status s.polls, { s with polls := s.polls + 1, log := .status (c.status s.polls) :: s.log })

def inbData (note : Byte → Access) (s : Ports) : Byte × Ports :=
  (c.data s.taken, { s with taken := s.taken + 1, log := note (c.data s.taken) :: s.log })

def outb (access : Access) (s : Ports) : Ports := { s with log := access :: s.log }

-- The loop with which send_cmd and write_data begin.
def waitBody (s : Ports) : Except Stop (Iter Ports Ports) :=
  let (status, s) := ps2ReadStatus c s
  if status &&& PS2_STATUS_INBUFFULL ≠ 0 then .ok (.next s) else .ok (.done s)

def sendCmd (cmd : Byte) (s : Ports) : Comp Stop Ports := do
  let s ← loop (waitBody c) s
  pure (outb (.command cmd) s)

def writeData (data : Byte) (s : Ports) : Comp Stop Ports := do
  let s ← loop (waitBody c) s
  pure (outb (.data data) s)

-- The operator ! of C.
def lnot (x : Byte) : Byte := if x = 0 then 1 else 0

def readBody (s : Ports) : Except Stop (Iter Ports Ports) :=
  let (status, s) := ps2ReadStatus c s
  if status &&& lnot PS2_STATUS_OUTBUFRDY ≠ 0 then .ok (.next s) else .ok (.done s)

def ps2ReadData (s : Ports) : Comp Stop (Byte × Ports) := do
  let s ← loop (readBody c) s
  pure (inbData c .read s)

def ps2WritePort1 (data : Byte) (s : Ports) : Comp Stop Ports := writeData c data s

def ps2WritePort2 (data : Byte) (s : Ports) : Comp Stop Ports := do
  let s ← sendCmd c PS2_WRITE2IN s
  writeData c data s

def ps2TestController (s : Ports) : Comp Stop (Bool × Ports) := do
  let s ← sendCmd c PS2_SELFTEST s
  let (value, s) ← ps2ReadData c s
  pure (value ≠ 0 ∧ PS2_TESTPASS ≠ 0, s)

-- ps2_test_port1 and ps2_test_port2, which differ in their command.
def ps2TestPort (cmd : Byte) (s : Ports) : Comp Stop (Bool × Ports) := do
  let s ← sendCmd c cmd s
  let (value, s) ← ps2ReadData c s
  pure (value = 0, s)

def ps2TestPort1 (s : Ports) : Comp Stop (Bool × Ports) := ps2TestPort c PS2_TESTPORT1 s

def ps2TestPort2 (s : Ports) : Comp Stop (Bool × Ports) := ps2TestPort c PS2_TESTPORT2 s

-- What ps2_init does for a port that has passed its test.
def enablePort1 (passed : Bool) (s : Ports) : Comp Stop Ports :=
  if passed then do
    let s ← sendCmd c PS2_ENBLPORT1 s
    ps2WritePort1 c PS2_DEVRESET s
  else pure s

def enablePort2 (passed : Bool) (s : Ports) : Comp Stop Ports :=
  if passed then do
    let s ← sendCmd c PS2_ENBLPORT2 s
    ps2WritePort2 c PS2_DEVRESET s
  else pure s

def initPorts (passed : Bool) (s : Ports) : Comp Stop Ports :=
  if passed then do
    let (passed, s) ← ps2TestPort1 c s
    let s ← enablePort1 c passed s
    let (passed, s) ← ps2TestPort2 c s
    enablePort2 c passed s
  else pure s

-- The message that ps2_init prints where the self test fails is left out.
def ps2Init (s : Ports) : Comp Stop Ports := do
  let s ← sendCmd c PS2_DSBLPORT1 s
  let s ← sendCmd c PS2_DSBLPORT2 s
  let (_, s) := inbData c .flushed s
  let (passed, s) ← ps2TestController c s
  initPorts c passed s

end Driver

inductive Call where
  | init
  | readStatus
  | readData
  | writePort1 (data : Byte)
  | writePort2 (data : Byte)
deriving DecidableEq, Repr

def exec (c : Controller) (s : Ports) : Call → Comp Stop Ports
  | .init => ps2Init c s
  | .readStatus => pure (ps2ReadStatus c s).2
  | .readData => do
      let (_, s) ← ps2ReadData c s
      pure s
  | .writePort1 data => ps2WritePort1 c data s
  | .writePort2 data => ps2WritePort2 c data s

end Deimos.Ps2
