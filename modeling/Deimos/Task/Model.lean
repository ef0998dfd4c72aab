import Deimos.Kalloc.Model

set_option autoImplicit false

namespace Deimos.Task

open Comp Kalloc

def STACK_SIZE : Word := 0x4000

def TASK_STOPPED : Word := 0

-- task_t, as it lies in memory: twelve words, one field each.
inductive TaskField where
  | pid | ppid | state | cpuTime | pageDir | stack | kernelStack | eip | esp | ebp | nextTask | sleepTicks
deriving DecidableEq, Repr

def TaskField.offset : TaskField → Word
  | .pid => 0
  | .ppid => 4
  | .state => 8
  | .cpuTime => 12
  | .pageDir => 16
  | .stack => 20
  | .kernelStack => 24
  | .eip => 28
  | .esp => 32
  | .ebp => 36
  | .nextTask => 40
  | .sleepTicks => 44

-- sizeof(task_t)
def taskSize : Word := 48

def loadTask (m : Mem) (t : Word) (field : TaskField) : Word := m.read (t + field.offset)

def storeTask (m : Mem) (t : Word) (field : TaskField) (value : Word) : Mem := m.write (t + field.offset) value

-- A stack being filled: the memory, the stack pointer, and for the proofs the
-- addresses of the words pushed so far.
structure Stack where
  mem : Mem
  sp : Word
  pushed : List Word

-- *--stack = value
def push (value : Word) (s : Stack) : Stack :=
  { mem := s.mem.write (s.sp - 4) value, sp := s.sp - 4, pushed := s.pushed ++ [s.sp - 4] }

-- Adding n to a pointer to unsigned int moves it by n words.
def wordPointerAdd (p n : Word) : Word := p + 4 * n

-- What task.c and paging.c keep between calls, and the address of sched_kill.
-- block and pushed are for the proofs: the stack block and the words pushed by
-- the last setup_stack that got one.
structure Kernel where
  heap : Heap
  nPid : Word
  currentPd : Word
  schedKill : Word
  block : Word
  pushed : List Word

def nextPid (k : Kernel) : Word × Kernel := (k.nPid, { k with nPid := k.nPid + 1 })

def fillStack (m : Mem) (t esp schedKill : Word) : Stack :=
  let s : Stack := { mem := m, sp := esp, pushed := [] }
  let s := push 0x202 s
  let s := push 0x08 s
  let s := push (loadTask s.mem t .eip) s
  let s := push 0 s
  let s := push 0 s
  let s := push 0 s
  let s := push 0 s
  let s := push 0 s
  let s := push 0 s
  let s := push 0 s
  let s := push 0 s
  let s := push 0x10 s
  let s := push 0x10 s
  let s := push 0x10 s
  let s := push 0x10 s
  push schedKill s

def setupStack (t : Word) (k : Kernel) : Comp Stop (Bool × Kernel) := do
  let (block, heap) ← kmallocA STACK_SIZE k.heap
  let heap := { heap with mem := storeTask heap.mem t .stack block }
  if block = 0 then pure (false, { k with heap := heap })
  else
    let esp := wordPointerAdd (loadTask heap.mem t .stack) STACK_SIZE
    let s := fillStack heap.mem t esp k.schedKill
    let m := storeTask s.mem t .esp s.sp
    let m := storeTask m t .ebp esp
    pure (true, { k with heap := { heap with mem := m }, block := block, pushed := s.pushed })

-- The fields new_task sets before it asks for a stack.
def initTask (m : Mem) (t pid currentPd : Word) : Mem :=
  let m := storeTask m t .pid pid
  let m := storeTask m t .ppid 0
  let m := storeTask m t .state TASK_STOPPED
  let m := storeTask m t .cpuTime 0
  let m := storeTask m t .eip 0
  let m := storeTask m t .esp 0
  let m := storeTask m t .ebp 0
  storeTask m t .pageDir currentPd

def newTask (k : Kernel) : Comp Stop (Word × Kernel) := do
  let (t, heap) ← kmalloc taskSize k.heap
  if t = 0 then pure (0, { k with heap := heap })
  else
    let (pid, k) := nextPid { k with heap := heap }
    let (ready, k) ← setupStack t { k with heap := { k.heap with mem := initTask k.heap.mem t pid k.currentPd } }
    if ready then
      let m := storeTask k.heap.mem t .nextTask 0
      let m := storeTask m t .sleepTicks 0
      pure (t, { k with heap := { k.heap with mem := m } })
    else
      let heap ← kfree t k.heap
      pure (0, { k with heap := heap })

def freeTask (t : Word) (s : Heap) : Except Stop Heap := do
  let s ← kfree (loadTask s.mem t .stack) s
  kfree t s

end Deimos.Task
