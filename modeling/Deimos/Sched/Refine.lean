import Deimos.Sched.Queues

set_option autoImplicit false

namespace Deimos.Sched

open Comp LinkedQueue

variable {past : List (Call × Globals) × List (Call × View)}

section Loops

variable (s : State) (a : Abs) (sim : Sim past s a)

include sim

theorem sleep_ticks_eq (t : Word) : (s.tasks t).sleepTicks = (a.tasks t).sleepTicks :=
  congrArg (fun tasks => (tasks t).sleepTicks) (sim_tasks s a sim)

theorem state_eq (t : Word) : (s.tasks t).state = (a.tasks t).state :=
  congrArg (fun tasks => (tasks t).state) (sim_tasks s a sim)

theorem sim_dequeue (t : Word) (rest : List Word) (first : a.asleep = t :: rest) (due : (a.tasks t).sleepTicks = 0) :
    ∃ s', dequeueSleepTask s = (t, s') ∧ Sim past s' { a with asleep := rest } := by
  have ticks : (s.tasks t).sleepTicks = 0 := (sleep_ticks_eq s a sim t).trans due
  obtain ⟨s', done, both, shared, calls, next⟩ := dequeue_sleep_returns s t (first ▸ sim.both) ticks
  refine ⟨s', done, ⟨⟨shared.trans sim.shared, both.readyQueue, both.sleepQueue, both.apart, fun u live outside away => ?_⟩, calls ▸ sim.calls⟩⟩
  rw [next]
  by_cases here : u = t
  · rw [here, Function.update_self]
  · rw [Function.update_of_ne here]
    exact sim.cleared u live outside (by simp [first, here, away])

theorem dequeue_none (pending : ∀ t rest, a.asleep = t :: rest → (a.tasks t).sleepTicks ≠ 0) : dequeueSleepTask s = (0, s) :=
  dequeue_sleep_none s sim.both (fun t rest shape => (sleep_ticks_eq s a sim t).symm ▸ pending t rest shape)

theorem sim_wake (t : Word) (rest : List Word) (placed : Placed a.toView) (first : a.asleep = t :: rest)
    (due : (a.tasks t).sleepTicks = 0) : ∃ s', wakeBody s = .ok (.next s') ∧ Sim past s' (a.wake t rest) := by
  obtain ⟨s', taken, sim'⟩ := sim_dequeue s a sim t rest first due
  have live : t ∈ a.live := placed.asleep_live a.toView t (by simp [first])
  have nonnull := placed.live_ne_zero a.toView t live
  have apart : t ∉ a.ready ∧ t ∉ rest := by
    have distinct := placed.distinct
    rw [first, List.append_assoc] at distinct
    grind
  have woken := sim_set_task _ _ (sim_log s' _ sim' (.wake t)) t (fun task => { task with state := .ready })
    (fun task => { task with state := .ready }) rfl
  obtain ⟨s'', enqueued, sim''⟩ := sim_enqueue_ready _ _ woken t live nonnull apart.1 apart.2
  refine ⟨s'', ?_, sim''⟩
  simp only [wakeBody, taken, if_neg nonnull, enqueued, Except.map]

theorem sim_wake_loop (placed : Placed a.toView) : Simulates (Sim past) (loop wakeBody s) (.ok (a.wakeDue a.asleep) : Except Stop Abs) := by
  suffices walk : ∀ asleep s a, Sim past s a → Placed a.toView → a.asleep = asleep →
      Simulates (Sim past) (loop wakeBody s) (.ok (a.wakeDue asleep) : Except Stop Abs) from walk a.asleep s a sim placed rfl
  intro asleep
  induction asleep with
  | nil =>
      intro s a sim _ empty
      have pass : wakeBody s = .ok (.done s) := by
        rw [wakeBody, dequeue_none s a sim (fun t rest first => nomatch empty.symm.trans first)]
        rfl
      exact simulates_done _ _ _ _ pass sim
  | cons t rest ih =>
      intro s a sim placed first
      rw [Abs.wakeDue]
      split
      · rename_i due
        obtain ⟨s', pass, sim'⟩ := sim_wake s a sim t rest placed first due
        exact simulates_next _ _ _ _ pass (ih s' _ sim' (placed_wake a placed t rest first) rfl)
      · rename_i pending
        have pass : wakeBody s = .ok (.done s) := by
          rw [wakeBody, dequeue_none s a sim]
          · rfl
          · intro u others same
            cases first.symm.trans same
            exact pending
        exact simulates_done _ _ _ _ pass sim

theorem sim_reap (t : Word) (rest : List Word) (first : a.ready = t :: rest) (destroyed : (a.tasks t).state = .destroy) :
    ∃ s', selectBody s = .ok (.next s') ∧ Sim past s' (a.reap t rest) := by
  obtain ⟨s', taken, sim'⟩ := sim_get_next s a sim t rest first
  have logged := sim_log s' _ sim' (.freeTask t)
  refine ⟨freeTask t s', ?_, ⟨⟨?_, logged.ready, logged.asleep, logged.apart, fun u member => ?_⟩, logged.calls⟩⟩
  · have same : (s'.tasks t).state = .destroy := (state_eq s' _ sim' t).trans destroyed
    rw [selectBody, taken]
    exact if_pos same
  · change { s'.toShared with live := s'.live.erase t } = { a.toShared with live := a.live.erase t }
    rw [sim'.shared]
    rfl
  · exact logged.cleared u (List.mem_of_mem_erase member)

def Selected (past : List (Call × Globals) × List (Call × View)) (s : State) (b : Abs) : Prop :=
  ∃ c t rest, b = Abs.dispatch t rest c ∧ s.runningTask = t ∧ Sim past s { c.getNext t rest with runningTask := t }

theorem sim_select_loop : Simulates (Selected past) (loop selectBody s) (a.select a.ready) := by
  suffices walk : ∀ ready s a, Sim past s a → a.ready = ready → Simulates (Selected past) (loop selectBody s) (a.select ready) from
    walk a.ready s a sim rfl
  intro ready
  induction ready with
  | nil =>
      intro s a sim empty
      refine simulates_error _ _ _ ?_
      simp only [selectBody, get_next_empty s a sim empty]
      rfl
  | cons t rest ih =>
      intro s a sim first
      rw [Abs.select]
      split
      · rename_i destroyed
        obtain ⟨s', pass, sim'⟩ := sim_reap s a sim t rest first destroyed
        exact simulates_next _ _ _ _ pass (ih s' _ sim' rfl)
      · rename_i spared
        obtain ⟨s', taken, sim'⟩ := sim_get_next s a sim t rest first
        have same : ¬ (s'.tasks t).state = .destroy := fun destroyed => spared ((state_eq s' _ sim' t).symm.trans destroyed)
        have pass : selectBody s = .ok (.done { s' with runningTask := t }) := by
          rw [selectBody, taken]
          exact if_neg same
        refine simulates_done _ _ _ _ pass ⟨a, t, rest, rfl, rfl, ⟨⟨?_, sim'.ready, sim'.asleep, sim'.apart, sim'.cleared⟩, sim'.calls⟩⟩
        change { s'.toShared with runningTask := t } = { a.toShared with runningTask := t }
        rw [sim'.shared]
        rfl

end Loops

section Ops

variable (s : State) (a : Abs) (sim : Sim past s a) (placed : Placed a.toView) (busy : a.runningTask ≠ 0)

include sim

theorem sim_set_running (f : Task → Task) : Sim past (s.setTask s.runningTask f) (a.setTask a.runningTask f) := by
  rw [sim_running s a sim]
  exact sim_set_task s a sim a.runningTask f f rfl

theorem sim_no_task : Sim past { s with runningTask := 0 } { a with runningTask := 0 } := by
  refine ⟨⟨?_, sim.ready, sim.asleep, sim.apart, sim.cleared⟩, sim.calls⟩
  change { s.toShared with runningTask := 0 } = { a.toShared with runningTask := 0 }
  rw [sim.shared]

theorem sim_load (t : Word) :
    Sim past { s with cpu := ⟨(s.tasks t).eip, (s.tasks t).esp, (s.tasks t).ebp⟩, currentPd := (s.tasks t).pageDir }
      { a with cpu := ⟨(a.tasks t).eip, (a.tasks t).esp, (a.tasks t).ebp⟩, currentPd := (a.tasks t).pageDir } := by
  refine ⟨⟨?_, sim.ready, sim.asleep, sim.apart, sim.cleared⟩, sim.calls⟩
  exact congrArg (fun g : Shared =>
    { g with cpu := ⟨(g.tasks t).eip, (g.tasks t).esp, (g.tasks t).ebp⟩, currentPd := (g.tasks t).pageDir }) sim.shared

theorem sim_lower_head :
    Sim past (if s.sleepHead ≠ 0 then s.setTask s.sleepHead (fun task => { task with sleepTicks := task.sleepTicks - 1 }) else s)
      a.lowerHead := by
  have asleep := sim.asleep
  unfold Abs.lowerHead
  obtain empty | ⟨t, rest, first⟩ : a.asleep = [] ∨ ∃ t rest, a.asleep = t :: rest := by cases a.asleep <;> simp
  · have same : Abs.lowered 1 a.tasks a.asleep = a.tasks := by rw [empty, Abs.lowered]
    rw [if_neg (not_not.mpr (sim.asleep.head_eq_null.mpr empty)), same]
    exact sim
  · rw [first] at asleep
    have head : s.sleepHead = t := head_cons asleep
    have nonnull : s.sleepHead ≠ 0 := fun null => asleep.nonnull List.mem_cons_self (head.symm.trans null)
    have lower : Abs.lowered 1 a.tasks a.asleep = Function.update a.tasks t { a.tasks t with sleepTicks := (a.tasks t).sleepTicks - 1 } := by
      rw [first, Abs.lowered]
    rw [if_pos nonnull, head, lower]
    exact sim_set_task s a sim t (fun task => { task with sleepTicks := task.sleepTicks - 1 })
      (fun task => { task with sleepTicks := task.sleepTicks - 1 }) rfl

theorem sim_update_sleep_queue (placed : Placed a.toView) :
    Simulates (Sim past) (updateSleepQueue s) (.ok a.updateSleepQueue : Except Stop Abs) :=
  sim_wake_loop _ _ (sim_lower_head s a sim) (placed_lower_head a placed)

theorem running_ne_zero (busy : a.runningTask ≠ 0) : s.runningTask ≠ 0 := (sim_running s a sim).symm ▸ busy

include placed busy

theorem sim_leave : Simulates (fun s' b => Sim past { s' with runningTask := 0 } b) (enqueueOutgoing s) a.leave := by
  have live := placed.running_live a.toView busy
  have apart := placed.running_apart a.toView busy
  have running := sim_running s a sim
  unfold enqueueOutgoing Abs.leave
  rw [running, state_eq s a sim]
  cases state : (a.tasks a.runningTask).state with
  | running =>
      have readied := sim_set_task s a sim a.runningTask (fun task => { task with state := .ready })
        (fun task => { task with state := .ready }) rfl
      obtain ⟨s', enqueued, sim'⟩ := sim_enqueue_ready _ _ readied a.runningTask live busy apart.1 apart.2
      refine simulates_lift _ _ ?_
      change Related _ (enqueueReadyTask s.runningTask (s.setTask a.runningTask (fun task => { task with state := .ready }))) _
      rw [running, enqueued]
      exact sim_no_task s' _ sim'
  | destroy =>
      obtain ⟨s', enqueued, sim'⟩ := sim_enqueue_ready s a sim a.runningTask live busy apart.1 apart.2
      refine simulates_lift _ _ ?_
      rw [enqueued]
      exact sim_no_task s' _ sim'
  | sleeping =>
      have slept := sim_enqueue_sleep s a sim a.runningTask live busy apart.1 apart.2
      exact simulates_map _ _ _ _ slept sim_no_task
  | stopped => exact simulates_lift _ _ rfl
  | ready => exact simulates_lift _ _ rfl

theorem sim_switch (regs : Regs) (entered : regs.eip ≠ 0x12345) : Simulates (Sim past) (switchTask regs s) (a.switchTask regs) := by
  have saved : Related (Sim past) (.ok _ : Except Stop State) (.ok (a.saveRegs regs) : Except Stop Abs) :=
    sim_set_running s a sim (fun task => { task with eip := regs.eip, esp := regs.esp, ebp := regs.ebp })
  have placed' : Placed (a.saveRegs regs).toView := placed_set_task a placed a.runningTask _ rfl
  rw [switchTask, if_neg entered, deref_ne _ _ (running_ne_zero s a sim busy)]
  refine simulates_bind _ (.ok (a.saveRegs regs)) _ (fun a => do let a ← a.leave; a.select a.ready)
    (simulates_lift _ _ saved) (fun s₁ a₁ same sim₁ => ?_)
  cases same
  refine simulates_bind _ _ _ _ (sim_leave s₁ _ sim₁ placed' busy) (fun s₂ a₂ left sim₂ => ?_)
  refine simulates_bind_ok _ _ _ _ (sim_select_loop { s₂ with runningTask := 0 } a₂ sim₂) (fun s₃ b selected => ?_)
  obtain ⟨c, t, rest, rfl, rfl, sim₃⟩ := selected
  have logged := sim_log s₃ _ sim₃ (.dispatch s₃.runningTask)
  have dispatched := sim_set_task _ _ logged s₃.runningTask (fun task => { task with state := .running })
    (fun task => { task with state := .running }) rfl
  exact simulates_pure _ _ (sim_load _ _ dispatched s₃.runningTask)

theorem sim_tick (regs : Regs) (entered : regs.eip ≠ 0x12345) : Simulates (Sim past) (doScheduling regs s) (a.doScheduling regs) := by
  have counted : Sim past { s with ticks := s.ticks + 1, now := s.now + 1 } { a with ticks := a.ticks + 1, now := a.now + 1 } := by
    refine ⟨⟨?_, sim.ready, sim.asleep, sim.apart, sim.cleared⟩, sim.calls⟩
    exact congrArg (fun g : Shared => { g with ticks := g.ticks + 1, now := g.now + 1 }) sim.shared
  have enabled : s.schedulingEnabled = true := (congrArg Shared.schedulingEnabled sim.shared).trans placed.enabled
  have charged : Related (Sim past) (.ok _ : Except Stop State) (.ok a.charge : Except Stop Abs) :=
    sim_set_running _ _ counted (fun task => { task with cpuTime := task.cpuTime + 1 })
  obtain ⟨placed', busy'⟩ := placed_update_sleep_queue a.charge (placed_charge a placed) busy
  unfold doScheduling
  dsimp only
  rw [if_pos enabled, deref_ne _ _ (running_ne_zero s a sim busy)]
  refine simulates_bind _ (.ok a.charge) _ (fun a₁ => a₁.updateSleepQueue.switchTask regs) (simulates_lift _ _ charged)
    (fun s₁ a₁ same sim₁ => ?_)
  cases same
  refine simulates_bind _ (.ok a.charge.updateSleepQueue) _ (fun a₂ => a₂.switchTask regs)
    (sim_update_sleep_queue s₁ _ sim₁ (placed_charge a placed)) (fun s₂ a₂ same sim₂ => ?_)
  cases same
  exact sim_switch s₂ _ sim₂ placed' busy' regs entered

theorem sim_sched_kill (regs : Regs) (entered : regs.eip ≠ 0x12345) : Simulates (Sim past) (schedKill regs s) (a.schedKill regs) := by
  have destroyed : Related (Sim past) (.ok _ : Except Stop State) (.ok _ : Except Stop Abs) :=
    sim_set_running s a sim (fun task => { task with state := .destroy })
  rw [schedKill, deref_ne _ _ (running_ne_zero s a sim busy)]
  refine simulates_bind _ _ _ (fun a₁ => a₁.switchTask regs) (simulates_lift _ _ destroyed) (fun s₁ a₁ same sim₁ => ?_)
  cases same
  exact sim_switch s₁ _ sim₁ (placed_destroy a placed a.runningTask) busy regs entered

theorem sim_sleep_for (ticks : Word) (regs : Regs) (entered : regs.eip ≠ 0x12345) :
    Simulates (Sim past) (sleepFor ticks regs s) (a.sleepFor ticks regs) := by
  have dozed : Related (Sim past) (.ok _ : Except Stop State) (.ok (a.doze ticks) : Except Stop Abs) :=
    sim_set_running s a sim (fun task => { task with sleepTicks := ticks, state := .sleeping })
  rw [sleepFor, deref_ne _ _ (running_ne_zero s a sim busy)]
  refine simulates_bind _ _ _ (fun a₁ => a₁.switchTask regs) (simulates_lift _ _ dozed) (fun s₁ a₁ same sim₁ => ?_)
  cases same
  exact sim_switch s₁ _ sim₁ (placed_doze a placed busy ticks) busy regs entered

end Ops

end Deimos.Sched
