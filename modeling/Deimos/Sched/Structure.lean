import Deimos.Lib.Run
import Deimos.Sched.Run

set_option autoImplicit false

namespace Deimos.Sched

open Comp LinkedQueue

variable {past : List (Call × Globals) × List (Call × View)}

def enqueued : List Call → List Word
  | [] => []
  | .enqueueReady t :: calls => enqueued calls ++ [t]
  | _ :: calls => enqueued calls

def dequeued : List Call → List Word
  | [] => []
  | .getNext t :: calls => dequeued calls ++ [t]
  | _ :: calls => dequeued calls

def Abs.history (a : Abs) : List Call := a.calls.map Prod.fst

structure Logged (a : Abs) : Prop where
  fifo : enqueued a.history = dequeued a.history ++ a.ready
  created : ∀ t, a.history.count (.newTask t) = a.history.count (.freeTask t) + if t ∈ a.live then 1 else 0
  freed : ∀ t v, (Call.freeTask t, v) ∈ a.calls → (v.tasks t).state = .destroy ∧ t ∈ v.live ∧ t ∉ v.ready ∧ t ∉ v.asleep

section Moves

variable (a b : Abs) (logged : Logged a)

include logged

theorem logged_log (call : Call) (quiet : ∀ t, call ≠ .enqueueReady t ∧ call ≠ .getNext t ∧ call ≠ .newTask t ∧ call ≠ .freeTask t) :
    Logged (a.log call) := by
  have same : enqueued (call :: a.history) = enqueued a.history ∧ dequeued (call :: a.history) = dequeued a.history := by
    cases call <;> simp_all [enqueued, dequeued]
  refine ⟨?_, fun t => ?_, fun t v member => ?_⟩
  · exact same.1.trans (logged.fifo.trans (congrArg (· ++ a.ready) same.2.symm))
  · change (call :: a.history).count _ = (call :: a.history).count _ + _
    rw [List.count_cons_of_ne (quiet t).2.2.1, List.count_cons_of_ne (quiet t).2.2.2]
    exact logged.created t
  · rcases List.mem_cons.mp member with here | before
    · exact absurd (congrArg Prod.fst here).symm (quiet t).2.2.2
    · exact logged.freed t v before

theorem logged_enqueue (t : Word) : Logged (a.enqueueReady t) := by
  refine ⟨?_, fun u => ?_, fun u v member => ?_⟩
  · change enqueued a.history ++ [t] = dequeued a.history ++ (a.ready ++ [t])
    rw [logged.fifo, List.append_assoc]
  · change (Call.enqueueReady t :: a.history).count _ = (Call.enqueueReady t :: a.history).count _ + _
    rw [List.count_cons_of_ne (by simp), List.count_cons_of_ne (by simp)]
    exact logged.created u
  · rcases List.mem_cons.mp member with here | before
    · cases here
    · exact logged.freed u v before

theorem logged_get_next (t : Word) (rest : List Word) (first : a.ready = t :: rest) : Logged (a.getNext t rest) := by
  refine ⟨?_, fun u => ?_, fun u v member => ?_⟩
  · change enqueued a.history = (dequeued a.history ++ [t]) ++ rest
    rw [logged.fifo, first, List.append_assoc, List.singleton_append]
  · change (Call.getNext t :: a.history).count _ = (Call.getNext t :: a.history).count _ + _
    rw [List.count_cons_of_ne (by simp), List.count_cons_of_ne (by simp)]
    exact logged.created u
  · rcases List.mem_cons.mp member with here | before
    · cases here
    · exact logged.freed u v before

theorem logged_reap (inv : Placed a.toView) (idle : a.runningTask = 0) (t : Word) (rest : List Word)
    (first : a.ready = t :: rest) (destroyed : (a.tasks t).state = .destroy) : Logged (a.reap t rest) := by
  have taken := logged_get_next a logged t rest first
  obtain ⟨-, unready, awake⟩ := placed_reap a inv t rest idle first
  have live : t ∈ a.live := inv.ready_live a.toView t (by simp [first])
  refine ⟨taken.fifo, fun u => ?_, fun u v member => ?_⟩
  · have before := taken.created u
    change (Call.freeTask t :: (a.getNext t rest).history).count _ = (Call.freeTask t :: (a.getNext t rest).history).count _ +
      if u ∈ a.live.erase t then 1 else 0
    change _ = _ + if u ∈ a.live then 1 else 0 at before
    rw [List.count_cons_of_ne (by simp), before]
    have kept : u ∈ a.live.erase t ↔ u ≠ t ∧ u ∈ a.live := inv.nodup.mem_erase_iff
    simp only [kept]
    by_cases here : u = t
    · subst here
      simp [live]
    · rw [List.count_cons_of_ne (by simpa using Ne.symm here)]
      simp [here]
  · rcases List.mem_cons.mp member with here | before
    · cases here
      exact ⟨destroyed, live, unready, awake⟩
    · exact taken.freed u v before

theorem logged_dispatch (t : Word) (rest : List Word) (first : a.ready = t :: rest) : Logged (a.dispatch t rest) := by
  have taken := logged_get_next a logged t rest first
  have dispatched := logged_log { a.getNext t rest with runningTask := t } ⟨taken.fifo, taken.created, taken.freed⟩ (.dispatch t)
    (fun u => ⟨nofun, nofun, nofun, nofun⟩)
  exact ⟨dispatched.fifo, dispatched.created, dispatched.freed⟩

theorem logged_wake (t : Word) (rest : List Word) : Logged (a.wake t rest) := by
  have woken := logged_log { a with asleep := rest } ⟨logged.fifo, logged.created, logged.freed⟩ (.wake t)
    (fun u => ⟨nofun, nofun, nofun, nofun⟩)
  exact logged_enqueue (Abs.setTask t (fun task => { task with state := .ready }) (Abs.log (.wake t) { a with asleep := rest }))
    ⟨woken.fifo, woken.created, woken.freed⟩ t

theorem logged_leave (done : a.leave = .ok b) : Logged b := by
  cases leave_cases a b done with
  | running =>
      have queued := logged_enqueue (a.setTask a.runningTask (fun task => { task with state := .ready }))
        ⟨logged.fifo, logged.created, logged.freed⟩ a.runningTask
      exact ⟨queued.fifo, queued.created, queued.freed⟩
  | destroy =>
      have queued := logged_enqueue a logged a.runningTask
      exact ⟨queued.fifo, queued.created, queued.freed⟩
  | sleeping =>
      have called := logged_log a logged (.enqueueSleep a.runningTask) (fun u => ⟨nofun, nofun, nofun, nofun⟩)
      exact ⟨called.fifo, called.created, called.freed⟩

theorem logged_switch (inv : Placed a.toView) (busy : a.runningTask ≠ 0) (regs : Regs) (done : a.switchTask regs = .ok b) :
    Logged b := by
  obtain ⟨c, d, t, rest, left, passes, first, -, rfl⟩ := Abs.switch_ok regs a b done
  have saved : Placed (a.saveRegs regs).toView := placed_set_task a inv a.runningTask _ rfl
  obtain ⟨placed, idle⟩ := placed_leave _ c saved busy left
  have logged' := logged_leave (a.saveRegs regs) c ⟨logged.fifo, logged.created, logged.freed⟩ left
  have reaped : Logged d ∧ Placed d.toView ∧ d.runningTask = 0 := by
    refine Run.invariant (fun e : Abs => Logged e ∧ Placed e.toView ∧ e.runningTask = 0) ?_ c d ⟨logged', placed, idle⟩ passes
    rintro e _ ⟨logged, placed, idle⟩ ⟨u, others, first, destroyed, rfl⟩
    exact ⟨logged_reap e logged placed idle u others first destroyed, (placed_reap e placed u others idle first).1, idle⟩
  exact logged_dispatch d reaped.1 t rest first

theorem logged_update_sleep_queue : Logged a.updateSleepQueue := by
  refine Run.invariant Logged ?_ a.lowerHead _ ⟨logged.fifo, logged.created, logged.freed⟩ (Abs.wake_due_wakes a.lowerHead).1
  rintro e _ logged ⟨t, rest, -, -, rfl⟩
  exact logged_wake e logged t rest

theorem logged_create (t stack func : Word) (absent : t ∉ a.live) : Logged (a.createKernelTask (.made t stack) func) := by
  suffices made : Logged { a.log (.newTask t) with nPid := a.nPid + 1, live := t :: a.live } from
    logged_enqueue (Abs.setTask t (fun _ => Abs.created a.nPid a.currentPd stack func)
      { a.log (.newTask t) with nPid := a.nPid + 1, live := t :: a.live }) ⟨made.fifo, made.created, made.freed⟩ t
  refine ⟨logged.fifo, fun u => ?_, fun u v member => ?_⟩
  · have before := logged.created u
    change (Call.newTask t :: a.history).count _ = (Call.newTask t :: a.history).count _ + if u ∈ t :: a.live then 1 else 0
    have skip : (Call.newTask t :: a.history).count (Call.freeTask u) = a.history.count (Call.freeTask u) :=
      List.count_cons_of_ne (by simp)
    rw [skip]
    by_cases here : u = t
    · subst here
      rw [List.count_cons_self, before, if_neg absent, if_pos List.mem_cons_self]
    · rw [List.count_cons_of_ne (by simpa using Ne.symm here), before]
      simp [here]
  · rcases List.mem_cons.mp member with here | before
    · cases here
    · exact logged.freed u v before

end Moves

theorem logged_exec (a b : Abs) (logged : Logged a) (inv : Placed a.toView) (busy : a.runningTask ≠ 0) (op : Op)
    (allowed : AllowedAbs op a) (done : a.exec op = .ok b) : Logged b := by
  have retask : ∀ (t : Word) (f : Task → Task), Logged (a.setTask t f) := fun t f =>
    ⟨logged.fifo, logged.created, logged.freed⟩
  cases op with
  | createKernelTask alloc func =>
      cases done
      cases alloc with
      | noTask => exact logged
      | noStack => exact ⟨logged.fifo, logged.created, logged.freed⟩
      | made t stack => exact logged_create a logged t stack func allowed.2
  | kill pid =>
      cases done
      unfold Abs.kill
      cases a.findTask pid with
      | none => exact logged
      | some t => exact retask t _
  | schedYield regs => exact logged_switch a b logged inv busy regs done
  | schedKill regs => exact logged_switch _ b (retask _ _) (placed_destroy a inv a.runningTask) busy regs done
  | sleep seconds regs => exact logged_switch _ b (retask _ _) (placed_doze a inv busy _) busy regs done
  | usleep millis regs => exact logged_switch _ b (retask _ _) (placed_doze a inv busy _) busy regs done
  | doScheduling regs =>
      obtain ⟨placed, busy⟩ := placed_update_sleep_queue a.charge (placed_charge a inv) busy
      exact logged_switch _ b (logged_update_sleep_queue a.charge ⟨logged.fifo, logged.created, logged.freed⟩) placed busy regs done

theorem logged_started (s : State) (booted : Booted s) (t stack : Word) : Logged (Abs.started s t stack) := by
  refine ⟨rfl, fun u => ?_, fun u v member => ?_⟩
  · have live : (Abs.started s t stack).live = [t] := congrArg (t :: ·) booted.live
    rw [live]
    change [Call.newTask t].count _ = [Call.newTask t].count _ + _
    by_cases here : u = t
    · subst here
      simp
    · simp [here, Ne.symm here]
  · cases List.mem_singleton.mp member

-- A call fails in two ways only: there is no x to link a sleeper to, or no task to run.
theorem leave_stops (a : Abs) (suits : suitsCpu (a.tasks a.runningTask)) (stop : Stop) (stopped : a.leave = .error stop) :
    stop = .fault := by
  unfold Abs.leave at stopped
  cases state : (a.tasks a.runningTask).state with
  | running => simp [state] at stopped
  | destroy => simp [state] at stopped
  | sleeping =>
      simp only [state] at stopped
      rw [Abs.enqueueSleep] at stopped
      split at stopped
      split at stopped
      · exact (Except.error.inj stopped).symm
      · cases stopped
  | stopped => exact absurd state suits.1
  | ready => exact absurd state suits.2

theorem select_stops (a : Abs) (ready : List Word) (stop : Stop) (stopped : a.select ready = .error stop) :
    stop = .panic "sched: ready queue should never be empty!" := by
  induction ready generalizing a with
  | nil => exact (Except.error.inj stopped).symm
  | cons t rest ih =>
      rw [Abs.select] at stopped
      split at stopped
      · exact ih _ stopped
      · cases stopped

theorem switch_stops (a : Abs) (inv : Placed a.toView) (busy : a.runningTask ≠ 0) (regs : Regs) (stop : Stop)
    (stopped : a.switchTask regs = .error stop) :
    stop = .fault ∨ stop = .panic "sched: ready queue should never be empty!" := by
  have suits : suitsCpu ((a.saveRegs regs).tasks a.runningTask) := (placed_set_task a inv a.runningTask _ rfl).running busy
  unfold Abs.switchTask at stopped
  cases left : (a.saveRegs regs).leave with
  | error e =>
      rw [left] at stopped
      cases stopped
      exact .inl (leave_stops _ suits stop left)
  | ok b =>
      rw [left] at stopped
      exact .inr (select_stops b b.ready stop stopped)

theorem exec_stops (a : Abs) (inv : Placed a.toView) (busy : a.runningTask ≠ 0) (op : Op) (stop : Stop)
    (stopped : a.exec op = .error stop) : stop = .fault ∨ stop = .panic "sched: ready queue should never be empty!" := by
  cases op with
  | createKernelTask alloc func => cases stopped
  | kill pid => cases stopped
  | schedYield regs => exact switch_stops a inv busy regs stop stopped
  | schedKill regs => exact switch_stops _ (placed_destroy a inv a.runningTask) busy regs stop stopped
  | sleep seconds regs => exact switch_stops _ (placed_doze a inv busy _) busy regs stop stopped
  | usleep millis regs => exact switch_stops _ (placed_doze a inv busy _) busy regs stop stopped
  | doScheduling regs =>
      obtain ⟨placed, busy⟩ := placed_update_sleep_queue a.charge (placed_charge a inv) busy
      exact switch_stops _ placed busy regs stop stopped

def State.history (s : State) : List Call := s.calls.map Prod.fst

def Unqueued (g : Globals) (t : Word) : Prop :=
  ∃ ready asleep, Queue 0 g.next g.readyHead g.readyTail ready ∧ Queue 0 g.next g.sleepHead g.sleepTail asleep ∧
    t ∉ ready ∧ t ∉ asleep

-- The scheduler in good order, with these tasks in its queues. A Queue is
-- free of cycles, starts at its head and ends at its tail.
structure Structured (s : State) (ready asleep : List Word) : Prop where
  readyQueue : Queue 0 s.next s.readyHead s.readyTail ready
  sleepQueue : Queue 0 s.next s.sleepHead s.sleepTail asleep
  readyEnds : s.readyHead = 0 ↔ s.readyTail = 0
  sleepEnds : s.sleepHead = 0 ↔ s.sleepTail = 0
  places : (s.runningTask :: (ready ++ asleep)).Perm s.live
  once : (s.runningTask :: (ready ++ asleep)).Nodup
  nextClear : s.next s.runningTask = 0
  readyState : ∀ t ∈ ready, (s.tasks t).state = .ready ∨ (s.tasks t).state = .destroy
  sleepState : ∀ t ∈ asleep, (s.tasks t).state = .sleeping ∨ (s.tasks t).state = .destroy
  fifo : enqueued s.history = dequeued s.history ++ ready
  created : ∀ t, s.history.count (.newTask t) = s.history.count (.freeTask t) + if t ∈ s.live then 1 else 0
  freed : ∀ t g, (Call.freeTask t, g) ∈ s.calls → (g.tasks t).state = .destroy ∧ t ∈ g.live ∧ Unqueued g t

theorem sim_calls (s : State) (a : Abs) (sim : Sim unlogged s a) : List.Forall₂ SameCall s.calls a.calls := by
  obtain ⟨xs, ys, same, same', step⟩ := Log.beside_since _ _ sim.calls
  rw [same, same']
  simpa [unlogged] using step

theorem structured (s : State) (a : Abs) (tracks : Tracks unlogged s a) (logged : Logged a) : Structured s a.ready a.asleep := by
  have places := tracks.placed.places
  have distinct := tracks.placed.distinct
  have calls := sim_calls s a tracks.toSim
  have history : s.history = a.history := Log.map_beside _ _ _ _ calls (fun _ _ beside => beside.1)
  have live : s.live = a.live := congrArg Shared.live tracks.shared
  have running := sim_running s a tracks.toSim
  rw [on_cpu_of_ne a.toView tracks.busy, List.append_assoc, List.singleton_append, ← running] at places distinct
  have apart := tracks.placed.running_apart a.toView tracks.busy
  refine ⟨tracks.ready, tracks.asleep, ?_, ?_, live ▸ places, distinct, ?_, ?_, ?_, ?_, ?_, ?_⟩
  · rw [tracks.ready.head_eq_null, tracks.ready.tail_eq_null]
  · rw [tracks.asleep.head_eq_null, tracks.asleep.tail_eq_null]
  · rw [running]
    exact tracks.cleared _ (tracks.placed.running_live a.toView tracks.busy) apart.1 apart.2
  · intro t member
    rw [state_eq s a tracks.toSim]
    exact tracks.placed.ready t member
  · intro t member
    rw [state_eq s a tracks.toSim]
    exact tracks.placed.asleep t member
  · rw [history]
    exact logged.fifo
  · rw [history, live]
    exact logged.created
  · intro t g member
    obtain ⟨⟨_, v⟩, member', rfl, rel⟩ := Log.member_beside _ _ _ calls member
    obtain ⟨destroyed, alive, unready, awake⟩ := logged.freed t v member'
    have shared := rel.shared
    refine ⟨?_, ?_, v.ready, v.asleep, rel.ready, rel.asleep, unready, awake⟩
    · rw [show g.tasks = v.tasks from congrArg Shared.tasks shared]
      exact destroyed
    · rw [show g.live = v.live from congrArg Shared.live shared]
      exact alive

theorem scheduler_structure_of_runs (alloc : Alloc) (boot start s : State) (booted : Booted boot)
    (init : schedInit alloc boot = .ok start) (run : Run.Reaches (Step anyOp) start s) :
    (∃ ready asleep, Structured s ready asleep) ∧
      ∀ op, Allowed op s → ¬ (exec op s).Ends (.error (.panic "sched: how did you reach here???")) := by
  obtain ⟨t, stack, -, tracks⟩ := init_tracks alloc boot start booted init
  obtain ⟨b, steps, tracks'⟩ := run_tracks anyOp (fun _ _ => True) (fun _ _ _ _ _ => trivial) start s _ tracks run
  have inv : Logged b ∧ Placed b.toView ∧ b.runningTask ≠ 0 := by
    refine Run.invariant (fun a : Abs => Logged a ∧ Placed a.toView ∧ a.runningTask ≠ 0) ?_ _ b
      ⟨logged_started boot booted t stack, tracks.placed, tracks.busy⟩ steps
    rintro c d ⟨logged, placed, busy⟩ ⟨op, allowed, -, done⟩
    exact ⟨logged_exec c d logged placed busy op allowed done, placed_exec c d op placed busy allowed done⟩
  refine ⟨⟨b.ready, b.asleep, structured s b tracks' inv.1⟩, fun op allowed ended => ?_⟩
  have sim := sim_exec s b tracks'.toSim tracks'.placed tracks'.busy op allowed
  have stopped := simulates_stops _ _ _ sim ended
  rcases exec_stops b inv.2.1 inv.2.2 op _ stopped with fault | empty
  · cases fault
  · exact absurd empty (by decide)

theorem scheduler_structure_after_sleep :
    ∃ start s ready asleep, schedInit (.made 0x1000 0x2000) zeroed = .ok start ∧
      replay anyOp 9 [.createKernelTask (.made 0x9000 0xA000) 0xC0100000, .schedYield ⟨0xC0101000, 0, 0⟩,
        .sleep 1 ⟨0xC0102000, 0, 0⟩, .kill 1, .doScheduling ⟨0xC0103000, 0, 0⟩] start = some s ∧ Structured s ready asleep := by
  obtain ⟨start, init⟩ : ∃ start, schedInit (.made 0x1000 0x2000) zeroed = .ok start := ⟨_, rfl⟩
  cases played : replay anyOp 9 [.createKernelTask (.made 0x9000 0xA000) 0xC0100000, .schedYield ⟨0xC0101000, 0, 0⟩,
        .sleep 1 ⟨0xC0102000, 0, 0⟩, .kill 1, .doScheduling ⟨0xC0103000, 0, 0⟩] start with
  | none =>
      cases init
      exact absurd played (by decide)
  | some s =>
      obtain ⟨⟨ready, asleep, inOrder⟩, -⟩ := scheduler_structure_of_runs _ _ start s zeroed_booted init
        (replay_reaches _ _ _ _ _ played)
      exact ⟨start, s, ready, asleep, init, played, inOrder⟩

end Deimos.Sched
