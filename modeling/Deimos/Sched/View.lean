import Mathlib.Data.List.Perm.Basic
import Deimos.Lib.Run
import Deimos.Sched.Model

set_option autoImplicit false

namespace Deimos.Sched

-- The scheduler as it is meant: the two queues are lists, and no links are
-- followed. Every operation below is named after the one of the source it
-- stands for, and only pushes, pops and walks lists.
structure View extends Shared where
  ready : List Word
  asleep : List Word

structure Abs extends View where
  calls : List (Call × View)

namespace Abs

def log (call : Call) (a : Abs) : Abs := { a with calls := (call, a.toView) :: a.calls }

def setTask (t : Word) (f : Task → Task) (a : Abs) : Abs :=
  { a with tasks := Function.update a.tasks t (f (a.tasks t)) }

def findTask (pid : Word) (a : Abs) : Option Word :=
  (a.runningTask :: (a.ready ++ a.asleep)).find? (fun t => (a.tasks t).pid = pid)

def enqueueReady (t : Word) (a : Abs) : Abs := { a.log (.enqueueReady t) with ready := a.ready ++ [t] }

-- Where a sleeper with target ticks goes: the sleepers before it, the sum of
-- their deltas, and the sleepers after it.
def slot (ticks : Word → Word) (target : Word) : Word → List Word → List Word × Word × List Word
  | sum, [] => ([], sum, [])
  | sum, z :: zs =>
      if sum < target ∧ sum + ticks z > target then ([], sum, z :: zs)
      else
        let (front, total, back) := slot ticks target (sum + ticks z) zs
        (z :: front, total, back)

def lowered (delta : Word) (tasks : Word → Task) : List Word → Word → Task
  | [] => tasks
  | z :: _ => Function.update tasks z { tasks z with sleepTicks := (tasks z).sleepTicks - delta }

def insertSleeper (y delta : Word) (front back : List Word) (a : Abs) : Abs :=
  let a := a.log (.enqueueSleep y)
  let a := a.setTask y (fun task => { task with sleepTicks := delta })
  { a with tasks := lowered delta a.tasks back, asleep := front ++ y :: back }

-- Before the first sleeper there is no x to link to y.
def enqueueSleep (y : Word) (a : Abs) : Except Stop Abs :=
  let target := (a.tasks y).sleepTicks
  match slot (fun t => (a.tasks t).sleepTicks) target 0 a.asleep with
  | (front, sum, back) =>
      if front = [] ∧ back ≠ [] then .error .fault else .ok (a.insertSleeper y (target - sum) front back)

def wake (t : Word) (rest : List Word) (a : Abs) : Abs :=
  let a : Abs := { a with asleep := rest }
  let a := a.log (.wake t)
  let a := a.setTask t (fun task => { task with state := .ready })
  a.enqueueReady t

def wakeDue (a : Abs) : List Word → Abs
  | [] => a
  | t :: rest => if (a.tasks t).sleepTicks = 0 then (a.wake t rest).wakeDue rest else a

def saveRegs (regs : Regs) (a : Abs) : Abs :=
  a.setTask a.runningTask (fun task => { task with eip := regs.eip, esp := regs.esp, ebp := regs.ebp })

def leave (a : Abs) : Except Stop Abs :=
  match (a.tasks a.runningTask).state with
  | .running =>
      let a := a.setTask a.runningTask (fun task => { task with state := .ready })
      .ok { a.enqueueReady a.runningTask with runningTask := 0 }
  | .destroy => .ok { a.enqueueReady a.runningTask with runningTask := 0 }
  | .sleeping => (a.enqueueSleep a.runningTask).map (fun a => { a with runningTask := 0 })
  | _ => kpanic "sched: how did you reach here???"

def getNext (t : Word) (rest : List Word) (a : Abs) : Abs := { a.log (.getNext t) with ready := rest }

def reap (t : Word) (rest : List Word) (a : Abs) : Abs :=
  let a := (a.getNext t rest).log (.freeTask t)
  { a with live := a.live.erase t }

def dispatch (t : Word) (rest : List Word) (a : Abs) : Abs :=
  let a : Abs := { a.getNext t rest with runningTask := t }
  let a := a.log (.dispatch t)
  let a := a.setTask t (fun task => { task with state := .running })
  { a with cpu := ⟨(a.tasks t).eip, (a.tasks t).esp, (a.tasks t).ebp⟩, currentPd := (a.tasks t).pageDir }

def select (a : Abs) : List Word → Except Stop Abs
  | [] => kpanic "sched: ready queue should never be empty!"
  | t :: rest => if (a.tasks t).state = .destroy then (a.reap t rest).select rest else .ok (a.dispatch t rest)

def switchTask (regs : Regs) (a : Abs) : Except Stop Abs := do
  let a ← (a.saveRegs regs).leave
  a.select a.ready

def charge (a : Abs) : Abs :=
  let a : Abs := { a with ticks := a.ticks + 1, now := a.now + 1 }
  a.setTask a.runningTask (fun task => { task with cpuTime := task.cpuTime + 1 })

def lowerHead (a : Abs) : Abs := { a with tasks := lowered 1 a.tasks a.asleep }

def updateSleepQueue (a : Abs) : Abs := a.lowerHead.wakeDue a.asleep

def doScheduling (regs : Regs) (a : Abs) : Except Stop Abs := a.charge.updateSleepQueue.switchTask regs

def created (pid currentPd stack func : Word) : Task :=
  { blank pid currentPd stack with ppid := 0, eip := func, state := .ready }

def createKernelTask (alloc : Alloc) (func : Word) (a : Abs) : Abs :=
  match alloc with
  | .noTask => a
  | .noStack => { a with nPid := a.nPid + 1 }
  | .made t stack =>
      let a := a.log (.newTask t)
      let task := created a.nPid a.currentPd stack func
      let a : Abs := { a with nPid := a.nPid + 1, live := t :: a.live }
      (a.setTask t (fun _ => task)).enqueueReady t

def kill (pid : Word) (a : Abs) : Abs :=
  match a.findTask pid with
  | none => a
  | some t => a.setTask t (fun task => { task with state := .destroy })

def schedKill (regs : Regs) (a : Abs) : Except Stop Abs :=
  (a.setTask a.runningTask (fun task => { task with state := .destroy })).switchTask regs

def doze (ticks : Word) (a : Abs) : Abs :=
  a.setTask a.runningTask (fun task => { task with sleepTicks := ticks, state := .sleeping })

def sleepFor (ticks : Word) (regs : Regs) (a : Abs) : Except Stop Abs := (a.doze ticks).switchTask regs

def exec (a : Abs) : Op → Except Stop Abs
  | .createKernelTask alloc func => .ok (a.createKernelTask alloc func)
  | .kill pid => .ok (a.kill pid)
  | .schedYield regs => a.switchTask regs
  | .schedKill regs => a.schedKill regs
  | .sleep seconds regs => a.sleepFor (KERNEL_SCHED_HZ * seconds + 1) regs
  | .usleep millis regs => a.sleepFor (KERNEL_SCHED_HZ * millis / 1000 + 1) regs
  | .doScheduling regs => a.doScheduling regs

def Wakes (a b : Abs) : Prop := ∃ t rest, a.asleep = t :: rest ∧ (a.tasks t).sleepTicks = 0 ∧ b = a.wake t rest

def Reaps (a b : Abs) : Prop := ∃ t rest, a.ready = t :: rest ∧ (a.tasks t).state = .destroy ∧ b = a.reap t rest

theorem wake_due_wakes (a : Abs) : Run.Reaches Wakes a (a.wakeDue a.asleep) ∧
    ∀ t rest, (a.wakeDue a.asleep).asleep = t :: rest → ((a.wakeDue a.asleep).tasks t).sleepTicks ≠ 0 := by
  suffices walk : ∀ asleep b, b.asleep = asleep → Run.Reaches Wakes b (b.wakeDue asleep) ∧
      ∀ t rest, (b.wakeDue asleep).asleep = t :: rest → ((b.wakeDue asleep).tasks t).sleepTicks ≠ 0 from walk a.asleep a rfl
  intro asleep
  induction asleep with
  | nil =>
      intro b same
      exact ⟨.refl, fun t rest first => nomatch same.symm.trans first⟩
  | cons t rest ih =>
      intro b same
      rw [wakeDue]
      split
      · rename_i due
        obtain ⟨passes, stays⟩ := ih (b.wake t rest) rfl
        exact ⟨.head ⟨t, rest, same, due, rfl⟩ passes, stays⟩
      · rename_i pending
        refine ⟨.refl, fun u others first => ?_⟩
        cases same.symm.trans first
        exact pending

theorem update_running (a : Abs) : a.updateSleepQueue.runningTask = a.runningTask := by
  refine Run.invariant (fun b : Abs => b.runningTask = a.runningTask) ?_ a.lowerHead _ rfl (wake_due_wakes a.lowerHead).1
  rintro b _ same ⟨t, rest, -, -, rfl⟩
  exact same

theorem select_reaps (a b : Abs) (done : a.select a.ready = .ok b) :
    ∃ c t rest, Run.Reaches Reaps a c ∧ c.ready = t :: rest ∧ (c.tasks t).state ≠ .destroy ∧ b = c.dispatch t rest := by
  suffices walk : ∀ ready a, a.ready = ready → a.select ready = .ok b →
      ∃ c t rest, Run.Reaches Reaps a c ∧ c.ready = t :: rest ∧ (c.tasks t).state ≠ .destroy ∧ b = c.dispatch t rest from
    walk a.ready a rfl done
  intro ready
  induction ready with
  | nil =>
      intro a _ done
      cases done
  | cons t rest ih =>
      intro a same done
      rw [select] at done
      split at done
      · rename_i destroyed
        obtain ⟨c, u, others, passes, found⟩ := ih (a.reap t rest) rfl done
        exact ⟨c, u, others, .head ⟨t, rest, same, destroyed, rfl⟩ passes, found⟩
      · rename_i spared
        exact ⟨a, t, rest, .refl, same, spared, (Except.ok.inj done).symm⟩

theorem switch_ok (regs : Regs) (a b : Abs) (done : a.switchTask regs = .ok b) :
    ∃ c d t rest, (a.saveRegs regs).leave = .ok c ∧ Run.Reaches Reaps c d ∧ d.ready = t :: rest ∧
      (d.tasks t).state ≠ .destroy ∧ b = d.dispatch t rest := by
  unfold switchTask at done
  cases left : (a.saveRegs regs).leave with
  | error stop => simp [left, bind, Except.bind] at done
  | ok c =>
      rw [left] at done
      obtain ⟨d, t, rest, found⟩ := select_reaps c b done
      exact ⟨c, d, t, rest, rfl, found⟩

end Abs

end Deimos.Sched
