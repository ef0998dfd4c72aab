import Deimos.Sched.Pids

set_option autoImplicit false

namespace Deimos.Sched

open Comp

variable {past : List (Call × Globals) × List (Call × View)}

-- The processor that a task would have to itself: the registers it goes on
-- with, its page directory, and for how many ticks it has run.
structure Machine where
  regs : Regs
  pageDir : Word
  ticks : Nat
deriving DecidableEq, Repr

-- A call is an event of one machine: a switch of the one that runs, a tick as
-- well, and a creation of the new one, which begins at func.
def Machine.after (op : Op) (g : Shared) (machines : Word → Machine) : Word → Machine :=
  let own := machines g.runningTask
  match op with
  | .createKernelTask (.made t stack) func =>
      let top := Task.wordPointerAdd stack Task.STACK_SIZE
      Function.update machines t ⟨⟨func, top - 64, top⟩, g.currentPd, 0⟩
  | .createKernelTask _ _ => machines
  | .kill _ => machines
  | .schedYield regs => Function.update machines g.runningTask { own with regs := regs }
  | .schedKill regs => Function.update machines g.runningTask { own with regs := regs }
  | .sleep _ regs => Function.update machines g.runningTask { own with regs := regs }
  | .usleep _ regs => Function.update machines g.runningTask { own with regs := regs }
  | .doScheduling regs => Function.update machines g.runningTask { own with regs := regs, ticks := own.ticks + 1 }

def MachineStep (r r' : State × (Word → Machine)) : Prop :=
  ∃ op, Allowed op r.1 ∧ (exec op r.1).Returns r'.1 ∧ r'.2 = Machine.after op r.1.toShared r.2

def savedRegs (task : Task) : Regs := ⟨task.eip, task.esp, task.ebp⟩

def context (task : Task) : Regs × Word × Word := (savedRegs task, task.pageDir, task.cpuTime)

structure Held (g : Shared) (machines : Word → Machine) : Prop where
  saved : ∀ t ∈ g.live, t ≠ g.runningTask → savedRegs (g.tasks t) = (machines t).regs
  pageDir : ∀ t ∈ g.live, (g.tasks t).pageDir = (machines t).pageDir
  cpuTime : ∀ t ∈ g.live, (g.tasks t).cpuTime = BitVec.ofNat 32 (machines t).ticks

structure OwnMachines (g : Shared) (machines : Word → Machine) : Prop extends Held g machines where
  cpu : g.cpu = (machines g.runningTask).regs
  currentPd : g.currentPd = (machines g.runningTask).pageDir

section Moves

variable (a b : Abs)

theorem context_set_task (t u : Word) (f : Task → Task) (same : context (f (a.tasks t)) = context (a.tasks t)) :
    context ((a.setTask t f).tasks u) = context (a.tasks u) := set_task_field a t u f context same

theorem context_leave (done : a.leave = .ok b) (u : Word) : context (b.tasks u) = context (a.tasks u) := by
  cases leave_cases a b done with
  | running => exact context_set_task a a.runningTask u (fun task => { task with state := .ready }) rfl
  | destroy => rfl
  | sleeping state front sum back => exact insert_sleeper_field a u context (fun _ _ => rfl) a.runningTask _ front back

theorem context_switch (regs : Regs) (done : a.switchTask regs = .ok b) :
    (∀ u, context (b.tasks u) = context ((a.saveRegs regs).tasks u)) ∧ b.cpu = savedRegs (b.tasks b.runningTask) ∧
      b.currentPd = (b.tasks b.runningTask).pageDir := by
  obtain ⟨c, d, t, rest, left, passes, -, -, rfl⟩ := Abs.switch_ok regs a b done
  have reaped : ∀ u, context (d.tasks u) = context (c.tasks u) := by
    refine Run.invariant (fun e : Abs => ∀ u, context (e.tasks u) = context (c.tasks u)) ?_ c d (fun _ => rfl) passes
    rintro e _ same ⟨u, others, -, -, rfl⟩
    exact same
  refine ⟨fun u => ?_, rfl, rfl⟩
  calc
    context ((d.dispatch t rest).tasks u) = context (d.tasks u) :=
      context_set_task d t u (fun task => { task with state := .running }) rfl
    _ = context (c.tasks u) := reaped u
    _ = context ((a.saveRegs regs).tasks u) := context_leave (a.saveRegs regs) c left u

theorem context_update (u : Word) : context (a.updateSleepQueue.tasks u) = context (a.tasks u) := by
  refine Run.invariant (fun e : Abs => context (e.tasks u) = context (a.tasks u)) ?_ a.lowerHead _ ?_ (Abs.wake_due_wakes a.lowerHead).1
  · rintro e _ same ⟨t, rest, -, -, rfl⟩
    exact (context_set_task e t u (fun task => { task with state := .ready }) rfl).trans same
  · exact lowered_field u context (fun _ _ => rfl) 1 a.tasks a.asleep

end Moves

theorem saved_of_context (task task' : Task) (same : context task = context task') :
    savedRegs task = savedRegs task' ∧ task.pageDir = task'.pageDir ∧ task.cpuTime = task'.cpuTime := by
  simpa only [context, Prod.mk.injEq] using same

theorem held_congr (g h : Shared) (machines : Word → Machine) (held : Held g machines) (running : h.runningTask = g.runningTask)
    (live : ∀ t ∈ h.live, t ∈ g.live) (same : ∀ t, context (h.tasks t) = context (g.tasks t)) : Held h machines := by
  refine ⟨fun t member other => ?_, fun t member => ?_, fun t member => ?_⟩ <;>
    obtain ⟨regs, pageDir, cpuTime⟩ := saved_of_context _ _ (same t)
  · exact regs.trans (held.saved t (live t member) (running ▸ other))
  · exact pageDir.trans (held.pageDir t (live t member))
  · exact cpuTime.trans (held.cpuTime t (live t member))

section Steps

variable (a b : Abs) (inv : Placed a.toView) (busy : a.runningTask ≠ 0) (machines : Word → Machine) (held : Held a.toShared machines)

include held

theorem held_charge : Held a.charge.toShared
    (Function.update machines a.runningTask { machines a.runningTask with ticks := (machines a.runningTask).ticks + 1 }) := by
  have others : ∀ t, t ≠ a.runningTask → a.charge.tasks t = a.tasks t := fun t other => Function.update_of_ne other _ _
  have own : a.charge.tasks a.runningTask = { a.tasks a.runningTask with cpuTime := (a.tasks a.runningTask).cpuTime + 1 } :=
    Function.update_self _ _ _
  refine ⟨fun t member other => ?_, fun t member => ?_, fun t member => ?_⟩
  · rw [Function.update_of_ne (show t ≠ a.runningTask from other), others t other]
    exact held.saved t member other
  · by_cases here : t = a.runningTask
    · subst here
      rw [Function.update_self, own]
      exact held.pageDir _ member
    · rw [Function.update_of_ne here, others t here]
      exact held.pageDir t member
  · by_cases here : t = a.runningTask
    · subst here
      rw [Function.update_self, own, BitVec.ofNat_add]
      exact congrArg (· + 1) (held.cpuTime _ member)
    · rw [Function.update_of_ne here, others t here]
      exact held.cpuTime t member

include inv busy

theorem own_machines_switch (regs : Regs) (done : a.switchTask regs = .ok b) :
    OwnMachines b.toShared (Function.update machines a.runningTask { machines a.runningTask with regs := regs }) := by
  obtain ⟨same, cpu, currentPd⟩ := context_switch a b regs done
  obtain ⟨placed, busy'⟩ := placed_switch a b inv regs busy done
  have live := (pids_kept_switch a b regs done).live
  have whole : ∀ t ∈ b.live, savedRegs (b.tasks t) = (Function.update machines a.runningTask { machines a.runningTask with regs := regs } t).regs ∧
      (b.tasks t).pageDir = (Function.update machines a.runningTask { machines a.runningTask with regs := regs } t).pageDir ∧
      (b.tasks t).cpuTime = BitVec.ofNat 32 (Function.update machines a.runningTask { machines a.runningTask with regs := regs } t).ticks := by
    intro t member
    obtain ⟨saved, pageDir, cpuTime⟩ := saved_of_context _ _ (same t)
    rw [saved, pageDir, cpuTime]
    have pageDir' := held.pageDir t (live t member)
    have cpuTime' := held.cpuTime t (live t member)
    by_cases here : t = a.runningTask
    · subst here
      rw [Function.update_self, Abs.saveRegs, set_task_self]
      exact ⟨rfl, pageDir', cpuTime'⟩
    · rw [Function.update_of_ne here, Abs.saveRegs, set_task_other a _ t _ here]
      exact ⟨held.saved t (live t member) here, pageDir', cpuTime'⟩
  have running := whole b.runningTask (placed.running_live b.toView busy')
  exact ⟨⟨fun t member _ => (whole t member).1, fun t member => (whole t member).2.1, fun t member => (whole t member).2.2⟩,
    cpu.trans running.1, currentPd.trans running.2.1⟩

end Steps

theorem own_machines_create (a : Abs) (inv : Placed a.toView) (busy : a.runningTask ≠ 0) (machines : Word → Machine)
    (owns : OwnMachines a.toShared machines) (t stack func : Word) (absent : t ∉ a.live) :
    OwnMachines (a.createKernelTask (.made t stack) func).toShared
      (Machine.after (.createKernelTask (.made t stack) func) a.toShared machines) := by
  have others : ∀ u ∈ a.live, (a.createKernelTask (.made t stack) func).tasks u = a.tasks u := fun u member =>
    Function.update_of_ne (ne_of_mem_of_not_mem member absent) _ _
  have own : (a.createKernelTask (.made t stack) func).tasks t = Abs.created a.nPid a.currentPd stack func :=
    Function.update_self t _ _
  have old : ∀ u ∈ a.live, Machine.after (.createKernelTask (.made t stack) func) a.toShared machines u = machines u := fun u member =>
    Function.update_of_ne (ne_of_mem_of_not_mem member absent) _ _
  have new : Machine.after (.createKernelTask (.made t stack) func) a.toShared machines t =
      ⟨savedRegs (Abs.created a.nPid a.currentPd stack func), a.currentPd, 0⟩ := Function.update_self t _ machines
  have running := inv.running_live a.toView busy
  refine ⟨⟨fun u member other => ?_, fun u member => ?_, fun u member => ?_⟩, ?_, ?_⟩
  · rcases List.mem_cons.mp member with rfl | member
    · rw [own, new]
    · rw [others u member, old u member]
      exact owns.saved u member other
  · rcases List.mem_cons.mp member with rfl | member
    · rw [own, new]
      rfl
    · rw [others u member, old u member]
      exact owns.pageDir u member
  · rcases List.mem_cons.mp member with rfl | member
    · rw [own, new]
      rfl
    · rw [others u member, old u member]
      exact owns.cpuTime u member
  · exact owns.cpu.trans (congrArg Machine.regs (old _ running)).symm
  · exact owns.currentPd.trans (congrArg Machine.pageDir (old _ running)).symm

theorem own_machines_exec (a b : Abs) (inv : Placed a.toView) (busy : a.runningTask ≠ 0) (machines : Word → Machine)
    (owns : OwnMachines a.toShared machines) (op : Op) (allowed : AllowedAbs op a) (done : a.exec op = .ok b) :
    OwnMachines b.toShared (Machine.after op a.toShared machines) := by
  have destroyed (t : Word) : Held (a.setTask t (fun task => { task with state := .destroy })).toShared machines :=
    held_congr _ _ machines owns.toHeld rfl (fun _ => id)
      (fun u => context_set_task a t u (fun task => { task with state := .destroy }) rfl)
  have dozed (ticks : Word) : Held (a.doze ticks).toShared machines :=
    held_congr _ _ machines owns.toHeld rfl (fun _ => id)
      (fun u => context_set_task a a.runningTask u (fun task => { task with sleepTicks := ticks, state := .sleeping }) rfl)
  cases op with
  | createKernelTask alloc func =>
      cases done
      cases alloc with
      | noTask => exact owns
      | noStack => exact ⟨held_congr _ _ machines owns.toHeld rfl (fun _ => id) (fun _ => rfl), owns.cpu, owns.currentPd⟩
      | made t stack => exact own_machines_create a inv busy machines owns t stack func allowed.2
  | kill pid =>
      cases done
      change OwnMachines (a.kill pid).toShared machines
      unfold Abs.kill
      cases a.findTask pid with
      | none => exact owns
      | some t => exact ⟨destroyed t, owns.cpu, owns.currentPd⟩
  | schedYield regs => exact own_machines_switch a b inv busy machines owns.toHeld regs done
  | schedKill regs => exact own_machines_switch _ b (placed_destroy a inv a.runningTask) busy machines (destroyed _) regs done
  | sleep seconds regs => exact own_machines_switch _ b (placed_doze a inv busy _) busy machines (dozed _) regs done
  | usleep millis regs => exact own_machines_switch _ b (placed_doze a inv busy _) busy machines (dozed _) regs done
  | doScheduling regs =>
      obtain ⟨placed, busy'⟩ := placed_update_sleep_queue a.charge (placed_charge a inv) busy
      have held := held_congr _ _ _ (held_charge a machines owns.toHeld) (Abs.update_running a.charge)
        (pids_kept_update a.charge).live (context_update a.charge)
      have switched := own_machines_switch _ b placed busy' _ held regs done
      rw [show a.charge.updateSleepQueue.runningTask = a.runningTask from Abs.update_running a.charge, Function.update_idem,
        Function.update_self] at switched
      exact switched

theorem machines_kept_of_runs (alloc : Alloc) (boot start : State) (booted : Booted boot) (init : schedInit alloc boot = .ok start)
    (s : State) (machines : Word → Machine)
    (run : Run.Reaches MachineStep (start, fun _ => ⟨start.cpu, start.currentPd, 0⟩) (s, machines)) :
    OwnMachines s.toShared machines := by
  obtain ⟨first, stack, -, tracks⟩ := init_tracks alloc boot start booted init
  suffices kept : ∃ a, Tracks unlogged s a ∧ OwnMachines a.toShared machines by
    obtain ⟨a, tracks, owns⟩ := kept
    exact (show s.toShared = a.toShared from tracks.shared) ▸ owns
  refine Run.invariant (fun r : State × (Word → Machine) => ∃ a, Tracks unlogged r.1 a ∧ OwnMachines a.toShared r.2) ?_ _ (s, machines) ?_ run
  · rintro ⟨u, machines⟩ ⟨v, machines'⟩ ⟨a, tracks, owns⟩ ⟨op, allowed, returned, rfl⟩
    have allowed' := allowed_abs u a tracks.toSim op allowed
    obtain ⟨b, done, sim⟩ := simulates_returns _ _ v (sim_exec u a tracks.toSim tracks.placed tracks.busy op allowed) returned
    obtain ⟨placed, busy⟩ := placed_exec a b op tracks.placed tracks.busy allowed' done
    have owns' := own_machines_exec a b tracks.placed tracks.busy machines owns op allowed' done
    rw [← show u.toShared = a.toShared from tracks.shared] at owns'
    exact ⟨b, ⟨sim, placed, busy⟩, owns'⟩
  · have shared : start.toShared = (Abs.started boot first stack).toShared := tracks.shared
    have own : (Abs.started boot first stack).tasks first = { blank boot.nPid boot.currentPd stack with state := .running } :=
      Function.update_self first _ boot.tasks
    have alone : ∀ t ∈ (Abs.started boot first stack).live, t = first := by
      intro t member
      rw [show (Abs.started boot first stack).live = [first] from congrArg (first :: ·) booted.live] at member
      exact List.mem_singleton.mp member
    refine ⟨_, tracks, ⟨fun t member other => absurd (alone t member) other, fun t member => ?_, fun t member => ?_⟩, ?_, ?_⟩
    · rw [alone t member, own]
      exact (congrArg Shared.currentPd shared).symm
    · rw [alone t member, own]
      rfl
    · exact (congrArg Shared.cpu shared).symm
    · exact (congrArg Shared.currentPd shared).symm

def Machine.replay (fuel : Nat) : List Op → State × (Word → Machine) → Option (State × (Word → Machine))
  | [], r => some r
  | op :: ops, (s, machines) =>
      if Allowed op s then
        match (exec op s).run fuel with
        | some (.ok s') => replay fuel ops (s', Machine.after op s.toShared machines)
        | _ => none
      else none

theorem machine_replay_reaches (fuel : Nat) (ops : List Op) (r t : State × (Word → Machine)) (played : Machine.replay fuel ops r = some t) :
    Run.Reaches MachineStep r t := by
  induction ops generalizing r with
  | nil =>
      cases played
      exact .refl
  | cons op ops ih =>
      rw [Machine.replay] at played
      split at played
      · rename_i allowed
        split at played
        · rename_i s' returned
          exact .head ⟨op, allowed, ⟨fuel, returned⟩, rfl⟩ (ih _ played)
        · cases played
      · cases played

theorem machines_kept_of_two_switches : ∃ start s machines, schedInit (.made 0x1000 0x2000) zeroed = .ok start ∧
    Machine.replay 9 [.createKernelTask (.made 0x9000 0xA000) 0xC0100000, .schedYield ⟨0xC0101000, 0xC0008000, 0xC0008010⟩,
      .doScheduling ⟨0xC0101000, 0x19F00, 0x19F40⟩] (start, fun _ => ⟨start.cpu, start.currentPd, 0⟩) = some (s, machines) ∧
    s.runningTask = 0x1000 ∧ machines 0x1000 = ⟨⟨0xC0101000, 0xC0008000, 0xC0008010⟩, 0, 0⟩ ∧
    machines 0x9000 = ⟨⟨0xC0101000, 0x19F00, 0x19F40⟩, 0, 1⟩ ∧ OwnMachines s.toShared machines := by
  obtain ⟨start, s, machines, init, played, running, first, second⟩ : ∃ start s machines, schedInit (.made 0x1000 0x2000) zeroed = .ok start ∧
      Machine.replay 9 [.createKernelTask (.made 0x9000 0xA000) 0xC0100000, .schedYield ⟨0xC0101000, 0xC0008000, 0xC0008010⟩,
        .doScheduling ⟨0xC0101000, 0x19F00, 0x19F40⟩] (start, fun _ => ⟨start.cpu, start.currentPd, 0⟩) = some (s, machines) ∧
      s.runningTask = 0x1000 ∧ machines 0x1000 = ⟨⟨0xC0101000, 0xC0008000, 0xC0008010⟩, 0, 0⟩ ∧
      machines 0x9000 = ⟨⟨0xC0101000, 0x19F00, 0x19F40⟩, 0, 1⟩ := ⟨_, _, _, rfl, rfl, rfl, rfl, rfl⟩
  exact ⟨start, s, machines, init, played, running, first, second,
    machines_kept_of_runs _ _ start zeroed_booted init s machines (machine_replay_reaches _ _ _ _ played)⟩

end Deimos.Sched
