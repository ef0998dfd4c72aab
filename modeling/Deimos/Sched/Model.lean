import Mathlib.Logic.Function.Basic
import Deimos.Lib.Comp
import Deimos.Task.Model

set_option autoImplicit false

namespace Deimos.Sched

open Comp

def KERNEL_SCHED_HZ : Word := 1000

inductive TaskState where
  | stopped | ready | running | sleeping | destroy
deriving DecidableEq, Repr

-- task_t less kernel_stack, which nothing reads, and next_task, which is kept beside the tasks.
structure Task where
  pid : Word
  ppid : Word
  state : TaskState
  cpuTime : Word
  pageDir : Word
  stack : Word
  eip : Word
  esp : Word
  ebp : Word
  sleepTicks : Word
deriving DecidableEq, Repr

structure Regs where
  eip : Word
  esp : Word
  ebp : Word
deriving DecidableEq, Repr

-- What both the scheduler and its view through lists have: the tasks by
-- address, the globals that are no queues, and for the proofs the tasks
-- created and not freed yet and the number of timer ticks so far.
structure Shared where
  tasks : Word → Task
  runningTask : Word
  schedulingEnabled : Bool
  ticks : Word
  nPid : Word
  currentPd : Word
  cpu : Regs
  live : List Word
  now : Nat

structure Globals extends Shared where
  next : Word → Word
  readyHead : Word
  readyTail : Word
  sleepHead : Word
  sleepTail : Word

-- The calls the proofs speak about, newest first, each with the globals it was made on.
inductive Call where
  | newTask (t : Word)
  | enqueueReady (t : Word)
  | getNext (t : Word)
  | enqueueSleep (t : Word)
  | wake (t : Word)
  | freeTask (t : Word)
  | dispatch (t : Word)
deriving DecidableEq, Repr

structure State extends Globals where
  calls : List (Call × Globals)

def State.log (call : Call) (s : State) : State := { s with calls := (call, s.toGlobals) :: s.calls }

def State.setTask (t : Word) (f : Task → Task) (s : State) : State :=
  { s with tasks := Function.update s.tasks t (f (s.tasks t)) }

def State.setNext (t value : Word) (s : State) : State := { s with next := Function.update s.next t value }

-- One pass of a while loop of find_task.
def findBody (s : State) (pid t : Word) : Except Stop (Iter Word Word) :=
  if t = 0 then .ok (.done 0)
  else if (s.tasks t).pid = pid then .ok (.done t)
  else .ok (.next (s.next t))

def findTask (pid : Word) (s : State) : Comp Stop Word := do
  if (← deref s.runningTask (.ok (s.tasks s.runningTask).pid)) = pid then pure s.runningTask
  else
    let t ← loop (findBody s pid) s.readyHead
    if t ≠ 0 then pure t else loop (findBody s pid) s.sleepHead

def enqueueReadyTask (t : Word) (s : State) : Except Stop State :=
  let s := s.log (.enqueueReady t)
  if s.readyHead = 0 ∧ s.readyTail = 0 then .ok { s with readyHead := t, readyTail := t }
  else deref s.readyTail (.ok { s.setNext s.readyTail t with readyTail := t })

def getNextReadyTask (s : State) : Except Stop (Word × State) :=
  let t := s.readyHead
  if s.readyHead = 0 then kpanic "sched: ready queue should never be empty!"
  else
    let s := s.log (.getNext t)
    let s : State := if s.readyHead = s.readyTail then { s with readyHead := 0, readyTail := 0 }
      else { s with readyHead := s.next s.readyHead }
    .ok (t, s.setNext t 0)

-- What enqueue_sleep_task does when y goes between x and z.
def insertBetween (x y z delta : Word) (s : State) : State :=
  let s := s.setNext x y
  let s := s.setNext y z
  let s := s.setTask y ({ · with sleepTicks := delta })
  s.setTask z (fun task => { task with sleepTicks := task.sleepTicks - (s.tasks y).sleepTicks })

-- One pass of the while loop of enqueue_sleep_task, over sum, x and z. It
-- leaves the loop with y inserted, or with the sum of all ticks.
def sleepBody (s : State) (y target : Word) (state : Word × Word × Word) :
    Except Stop (Iter (Word × Word × Word) (State ⊕ Word)) :=
  let (sum, x, z) := state
  if z = 0 then .ok (.done (.inr sum))
  else if sum < target ∧ sum + (s.tasks z).sleepTicks > target then
    deref x (.ok (.done (.inl (insertBetween x y z (target - sum) s))))
  else .ok (.next (sum + (s.tasks z).sleepTicks, z, s.next z))

def enqueueSleepTask (y : Word) (s : State) : Comp Stop State := do
  let s := s.log (.enqueueSleep y)
  if s.sleepHead = 0 then
    pure { s.setNext y 0 with sleepHead := y, sleepTail := y }
  else
    let target := (s.tasks y).sleepTicks
    match ← loop (sleepBody s y target) (0, 0, s.sleepHead) with
    | .inl s => pure s
    | .inr sum =>
        let s ← deref s.sleepTail (.ok { s.setNext s.sleepTail y with sleepTail := y })
        pure ((s.setNext y 0).setTask y ({ · with sleepTicks := target - sum }))

-- Returns 0 if the head of the sleep queue is not ready to be woken.
def dequeueSleepTask (s : State) : Word × State :=
  let t := s.sleepHead
  if t ≠ 0 ∧ (s.tasks t).sleepTicks = 0 then
    let s : State := { s with sleepHead := s.next t }
    let s : State := if s.sleepHead = 0 then { s with sleepTail := 0 } else s
    (t, s.setNext t 0)
  else (0, s)

def wakeBody (s : State) : Except Stop (Iter State State) :=
  let (t, s) := dequeueSleepTask s
  if t = 0 then .ok (.done s)
  else
    let s := s.log (.wake t)
    let s := s.setTask t ({ · with state := .ready })
    (enqueueReadyTask t s).map .next

def updateSleepQueue (s : State) : Comp Stop State :=
  let s := if s.sleepHead ≠ 0 then s.setTask s.sleepHead (fun task => { task with sleepTicks := task.sleepTicks - 1 }) else s
  loop wakeBody s

-- kfree of the stack and of the task: its address is no longer that of a task.
def freeTask (t : Word) (s : State) : State :=
  let s := s.log (.freeTask t)
  { s with live := s.live.erase t }

-- One pass of the do-while loop of switch_task.
def selectBody (s : State) : Except Stop (Iter State State) := do
  let (t, s) ← getNextReadyTask s
  if (s.tasks t).state = .destroy then pure (.next (freeTask t s))
  else pure (.done { s with runningTask := t })

-- What becomes of the outgoing task.
def enqueueOutgoing (s : State) : Comp Stop State :=
  match (s.tasks s.runningTask).state with
  | .running =>
      let s := s.setTask s.runningTask ({ · with state := .ready })
      enqueueReadyTask s.runningTask s
  | .destroy => enqueueReadyTask s.runningTask s
  | .sleeping => enqueueSleepTask s.runningTask s
  | _ => kpanic (α := State) "sched: how did you reach here???"

-- switch_task up to the jump into the next task, with the values that
-- read_eip, read_esp and read_ebp return.
def switchTask (regs : Regs) (s : State) : Comp Stop State :=
  if regs.eip = 0x12345 then pure s
  else do
    let s ← deref s.runningTask (.ok (s.setTask s.runningTask ({ · with eip := regs.eip, esp := regs.esp, ebp := regs.ebp })))
    let s ← enqueueOutgoing s
    let s ← loop selectBody { s with runningTask := 0 }
    let s := s.log (.dispatch s.runningTask)
    let s := s.setTask s.runningTask ({ · with state := .running })
    let t := s.tasks s.runningTask
    pure { s with cpu := ⟨t.eip, t.esp, t.ebp⟩, currentPd := t.pageDir }

-- How the allocations of new_task come out: the task and its stack, or which of the two failed.
inductive Alloc where
  | noTask
  | noStack
  | made (t stack : Word)
deriving DecidableEq, Repr

-- The fields of a new task, sixteen words having been pushed on its stack.
def blank (pid currentPd stack : Word) : Task :=
  let top := Task.wordPointerAdd stack Task.STACK_SIZE
  { pid := pid, ppid := 0, state := .stopped, cpuTime := 0, pageDir := currentPd, stack := stack,
    eip := 0, esp := top - 64, ebp := top, sleepTicks := 0 }

def newTask (alloc : Alloc) (s : State) : Word × State :=
  match alloc with
  | .noTask => (0, s)
  | .noStack => (0, { s with nPid := s.nPid + 1 })
  | .made t stack =>
      let s := s.log (.newTask t)
      let task := blank s.nPid s.currentPd stack
      let s : State := { s with nPid := s.nPid + 1, live := t :: s.live }
      (t, (s.setTask t (fun _ => task)).setNext t 0)

def schedInit (alloc : Alloc) (s : State) : Except Stop State :=
  let (t, s) := newTask alloc s
  deref t <|
    let s := s.setTask t ({ · with state := .running })
    .ok { s.setNext t 0 with runningTask := t, schedulingEnabled := true }

-- Called by the timer interrupt handler only.
def doScheduling (regs : Regs) (s : State) : Comp Stop State := do
  let s : State := { s with ticks := s.ticks + 1, now := s.now + 1 }
  if s.schedulingEnabled then
    let s ← deref s.runningTask (.ok (s.setTask s.runningTask (fun task => { task with cpuTime := task.cpuTime + 1 })))
    let s ← updateSleepQueue s
    switchTask regs s
  else pure s

def createKernelTask (alloc : Alloc) (func : Word) (s : State) : Except Stop (Word × State) :=
  let (ktask, s) := newTask alloc s
  if ktask = 0 then .ok (0, s)
  else do
    let s := s.setTask ktask ({ · with ppid := 0, eip := func, state := .ready })
    let s ← enqueueReadyTask ktask s
    pure ((s.tasks ktask).pid, s)

def kill (pid : Word) (s : State) : Comp Stop State := do
  let t ← findTask pid s
  if t = 0 then pure s else pure (s.setTask t ({ · with state := .destroy }))

def schedYield (regs : Regs) (s : State) : Comp Stop State := switchTask regs s

def schedKill (regs : Regs) (s : State) : Comp Stop State := do
  let s ← deref s.runningTask (.ok (s.setTask s.runningTask ({ · with state := .destroy })))
  switchTask regs s

def sleepFor (ticks : Word) (regs : Regs) (s : State) : Comp Stop State := do
  let s ← deref s.runningTask (.ok (s.setTask s.runningTask ({ · with sleepTicks := ticks, state := .sleeping })))
  switchTask regs s

def sleep (seconds : Word) (regs : Regs) (s : State) : Comp Stop State := sleepFor (KERNEL_SCHED_HZ * seconds + 1) regs s

def usleep (millis : Word) (regs : Regs) (s : State) : Comp Stop State := sleepFor (KERNEL_SCHED_HZ * millis / 1000 + 1) regs s

inductive Op where
  | createKernelTask (alloc : Alloc) (func : Word)
  | kill (pid : Word)
  | schedYield (regs : Regs)
  | schedKill (regs : Regs)
  | sleep (seconds : Word) (regs : Regs)
  | usleep (millis : Word) (regs : Regs)
  | doScheduling (regs : Regs)
deriving DecidableEq, Repr

def exec : Op → State → Comp Stop State
  | .createKernelTask alloc func, s => do
      let (_, s) ← createKernelTask alloc func s
      pure s
  | .kill pid, s => kill pid s
  | .schedYield regs, s => schedYield regs s
  | .schedKill regs, s => schedKill regs s
  | .sleep seconds regs, s => sleep seconds regs s
  | .usleep millis regs, s => usleep millis regs s
  | .doScheduling regs, s => doScheduling regs s

-- kmalloc returns fresh memory, and read_eip an address in switch_task, not
-- the mark of a task that has just been resumed.
def Allowed : Op → State → Prop
  | .createKernelTask (.made t _) _, s => t ≠ 0 ∧ t ∉ s.live
  | .createKernelTask _ _, _ => True
  | .kill _, _ => True
  | .schedYield regs, _ => regs.eip ≠ 0x12345
  | .schedKill regs, _ => regs.eip ≠ 0x12345
  | .sleep _ regs, _ => regs.eip ≠ 0x12345
  | .usleep _ regs, _ => regs.eip ≠ 0x12345
  | .doScheduling regs, _ => regs.eip ≠ 0x12345

-- A step is a call that returns, of those that may be made.
def Step (may : Op → State → Prop) (s s' : State) : Prop := ∃ op, Allowed op s ∧ may op s ∧ (exec op s).Returns s'

def anyOp (_ : Op) (_ : State) : Prop := True

-- The globals before sched_init, as the loader leaves them.
structure Booted (s : State) : Prop where
  runningTask : s.runningTask = 0
  readyHead : s.readyHead = 0
  readyTail : s.readyTail = 0
  sleepHead : s.sleepHead = 0
  sleepTail : s.sleepTail = 0
  nPid : s.nPid = 0
  live : s.live = []
  calls : s.calls = []

end Deimos.Sched
