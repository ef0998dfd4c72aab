import Mathlib.Data.List.Perm.Lattice
import Mathlib.Data.List.Perm.Subperm
import Mathlib.Tactic.Common
import Deimos.Sched.View

set_option autoImplicit false

namespace Deimos.Sched

def onCpu (v : View) : List Word := if v.runningTask = 0 then [] else [v.runningTask]

def suitsCpu (task : Task) : Prop := task.state ≠ .stopped ∧ task.state ≠ .ready

def suitsReady (task : Task) : Prop := task.state = .ready ∨ task.state = .destroy

def suitsAsleep (task : Task) : Prop := task.state = .sleeping ∨ task.state = .destroy

theorem suits_cpu_of_destroyed (task : Task) (destroyed : task.state = .destroy) : suitsCpu task := by
  simp [suitsCpu, destroyed]

structure Placed (v : View) : Prop where
  places : (onCpu v ++ v.ready ++ v.asleep).Perm v.live
  nodup : v.live.Nodup
  nonnull : (0 : Word) ∉ v.live
  running : v.runningTask ≠ 0 → suitsCpu (v.tasks v.runningTask)
  ready : ∀ t ∈ v.ready, suitsReady (v.tasks t)
  asleep : ∀ t ∈ v.asleep, suitsAsleep (v.tasks t)
  enabled : v.schedulingEnabled = true

theorem on_cpu_of_ne (v : View) (busy : v.runningTask ≠ 0) : onCpu v = [v.runningTask] := if_neg busy

theorem on_cpu_zero (v : View) (idle : v.runningTask = 0) : onCpu v = [] := if_pos idle

namespace Placed

variable (v : View) (inv : Placed v)

include inv

theorem distinct : (onCpu v ++ v.ready ++ v.asleep).Nodup := inv.places.nodup_iff.mpr inv.nodup

theorem live_iff (busy : v.runningTask ≠ 0) (t : Word) : t ∈ v.live ↔ t = v.runningTask ∨ t ∈ v.ready ∨ t ∈ v.asleep := by
  rw [← inv.places.mem_iff, on_cpu_of_ne v busy]
  simp

theorem ready_live (t : Word) (member : t ∈ v.ready) : t ∈ v.live := inv.places.mem_iff.mp (by simp [member])

theorem asleep_live (t : Word) (member : t ∈ v.asleep) : t ∈ v.live := inv.places.mem_iff.mp (by simp [member])

theorem running_live (busy : v.runningTask ≠ 0) : v.runningTask ∈ v.live := (inv.live_iff v busy _).mpr (.inl rfl)

theorem apart (t : Word) (member : t ∈ v.ready) : t ∉ v.asleep := by
  intro other
  have distinct := inv.distinct
  exact (List.nodup_append.mp distinct).2.2 t (List.mem_append_right _ member) t other rfl

theorem running_apart (busy : v.runningTask ≠ 0) : v.runningTask ∉ v.ready ∧ v.runningTask ∉ v.asleep := by
  have distinct := inv.distinct
  rw [on_cpu_of_ne v busy, List.append_assoc, List.singleton_append, List.nodup_cons, List.mem_append, not_or] at distinct
  exact distinct.1

theorem live_ne_zero (t : Word) (member : t ∈ v.live) : t ≠ 0 := fun same => inv.nonnull (same ▸ member)

theorem retask (w : View) (running : w.runningTask = v.runningTask) (ready : w.ready = v.ready)
    (asleep : w.asleep = v.asleep) (live : w.live = v.live) (enabled : w.schedulingEnabled = v.schedulingEnabled)
    (states : ∀ t ∈ v.live, (w.tasks t).state = (v.tasks t).state) : Placed w where
  places := by rw [onCpu, running, ready, asleep, live]; exact inv.places
  nodup := live ▸ inv.nodup
  nonnull := live ▸ inv.nonnull
  running busy := by
    rw [running] at busy ⊢
    rw [suitsCpu, states _ (inv.running_live v busy)]
    exact inv.running busy
  ready t member := by
    rw [ready] at member
    rw [suitsReady, states t (inv.ready_live v t member)]
    exact inv.ready t member
  asleep t member := by
    rw [asleep] at member
    rw [suitsAsleep, states t (inv.asleep_live v t member)]
    exact inv.asleep t member
  enabled := enabled.trans inv.enabled

end Placed

section Tasks

variable (a : Abs) (t u : Word) (f : Task → Task)

theorem set_task_self : (a.setTask t f).tasks t = f (a.tasks t) := Function.update_self t _ a.tasks

theorem set_task_other (other : u ≠ t) : (a.setTask t f).tasks u = a.tasks u := Function.update_of_ne other _ a.tasks

theorem set_task_state : ((a.setTask t f).tasks u).state = (f (a.tasks t)).state ∨ ((a.setTask t f).tasks u).state = (a.tasks u).state := by
  by_cases here : u = t
  · rw [here, set_task_self]
    exact .inl rfl
  · rw [set_task_other a t u f here]
    exact .inr rfl

variable {β : Type} (field : Task → β)

theorem set_task_field (same : field (f (a.tasks t)) = field (a.tasks t)) : field ((a.setTask t f).tasks u) = field (a.tasks u) := by
  by_cases here : u = t
  · rw [here, set_task_self, same]
  · rw [set_task_other a t u f here]

theorem set_task_twice (g : Task → Task) : (a.setTask t f).setTask t g = a.setTask t (fun task => g (f task)) := by
  change { a with tasks := Function.update (Function.update a.tasks t _) t (g ((a.setTask t f).tasks t)) } = _
  rw [set_task_self, Function.update_idem]
  rfl

variable (keeps : ∀ task ticks, field { task with sleepTicks := ticks } = field task)

include keeps

theorem lowered_field (delta : Word) (tasks : Word → Task) (first : List Word) :
    field (Abs.lowered delta tasks first u) = field (tasks u) := by
  cases first with
  | nil => rfl
  | cons z zs =>
      rw [Abs.lowered]
      by_cases here : u = z
      · rw [here, Function.update_self]
        exact keeps (tasks z) _
      · rw [Function.update_of_ne here]

theorem insert_sleeper_field (y delta : Word) (front back : List Word) :
    field ((a.insertSleeper y delta front back).tasks u) = field (a.tasks u) :=
  (lowered_field u field keeps delta _ back).trans (set_task_field _ y u _ field (keeps (a.tasks y) delta))

end Tasks

theorem slot_split (ticks : Word → Word) (target sum : Word) (tasks front back : List Word) (total : Word)
    (found : Abs.slot ticks target sum tasks = (front, total, back)) : tasks = front ++ back := by
  induction tasks generalizing sum front with
  | nil =>
      simp only [Abs.slot, Prod.mk.injEq] at found
      simp [← found.1, ← found.2.2]
  | cons z zs ih =>
      rw [Abs.slot] at found
      split at found
      · simp only [Prod.mk.injEq] at found
        simp [← found.1, ← found.2.2]
      · simp only [Prod.mk.injEq] at found
        obtain ⟨rfl, rfl, rfl⟩ := found
        exact congrArg (z :: ·) (ih _ _ rfl)

theorem enqueue_sleep_ok (y : Word) (a b : Abs) (done : a.enqueueSleep y = .ok b) :
    ∃ front sum back, Abs.slot (fun t => (a.tasks t).sleepTicks) (a.tasks y).sleepTicks 0 a.asleep = (front, sum, back) ∧
      (front = [] → back = []) ∧ b = a.insertSleeper y ((a.tasks y).sleepTicks - sum) front back := by
  rcases found : Abs.slot (fun t => (a.tasks t).sleepTicks) (a.tasks y).sleepTicks 0 a.asleep with ⟨front, sum, back⟩
  simp only [Abs.enqueueSleep, found] at done
  split at done
  · cases done
  · rename_i placed
    refine ⟨front, sum, back, rfl, fun empty => ?_, (Except.ok.inj done).symm⟩
    by_contra more
    exact placed ⟨empty, more⟩

inductive Leaves (a : Abs) : Abs → Prop where
  | running (state : (a.tasks a.runningTask).state = .running) :
      Leaves a { (a.setTask a.runningTask (fun task => { task with state := .ready })).enqueueReady a.runningTask with runningTask := 0 }
  | destroy (state : (a.tasks a.runningTask).state = .destroy) : Leaves a { a.enqueueReady a.runningTask with runningTask := 0 }
  | sleeping (state : (a.tasks a.runningTask).state = .sleeping) (front : List Word) (sum : Word) (back : List Word)
      (found : Abs.slot (fun t => (a.tasks t).sleepTicks) (a.tasks a.runningTask).sleepTicks 0 a.asleep = (front, sum, back))
      (placed : front = [] → back = []) :
      Leaves a { a.insertSleeper a.runningTask ((a.tasks a.runningTask).sleepTicks - sum) front back with runningTask := 0 }

theorem leave_cases (a b : Abs) (done : a.leave = .ok b) : Leaves a b := by
  unfold Abs.leave at done
  split at done
  · rename_i running
    cases done
    exact .running running
  · rename_i destroyed
    cases done
    exact .destroy destroyed
  · rename_i sleeping
    cases inserted : a.enqueueSleep a.runningTask with
    | error stop => simp [inserted, Except.map] at done
    | ok c =>
        rw [inserted] at done
        cases done
        obtain ⟨front, sum, back, found, placed, rfl⟩ := enqueue_sleep_ok a.runningTask a c inserted
        exact .sleeping sleeping front sum back found placed
  · cases done

section Moves

variable (a b : Abs) (inv : Placed a.toView)

include inv

theorem placed_set_task (t : Word) (f : Task → Task) (same : (f (a.tasks t)).state = (a.tasks t).state) :
    Placed (a.setTask t f).toView :=
  inv.retask a.toView _ rfl rfl rfl rfl rfl (fun u _ => set_task_field a t u f Task.state same)

theorem placed_destroy (t : Word) : Placed (a.setTask t (fun task => { task with state := .destroy })).toView := by
  have changed : ∀ u, ((a.setTask t (fun task => { task with state := .destroy })).tasks u).state = .destroy ∨
      (a.setTask t (fun task => { task with state := .destroy })).tasks u = a.tasks u := by
    intro u
    by_cases here : u = t
    · rw [here, set_task_self]
      exact .inl rfl
    · exact .inr (set_task_other a t u _ here)
  refine ⟨inv.places, inv.nodup, inv.nonnull, fun busy => ?_, fun u member => ?_, fun u member => ?_, inv.enabled⟩
  · rcases changed a.runningTask with destroyed | same
    · exact suits_cpu_of_destroyed _ destroyed
    · exact same ▸ inv.running busy
  · rcases changed u with destroyed | same
    · exact .inr destroyed
    · exact same ▸ inv.ready u member
  · rcases changed u with destroyed | same
    · exact .inr destroyed
    · exact same ▸ inv.asleep u member

theorem placed_doze (busy : a.runningTask ≠ 0) (ticks : Word) : Placed (a.doze ticks).toView := by
  have apart := inv.running_apart a.toView busy
  have others : ∀ u, u ≠ a.runningTask → (a.doze ticks).tasks u = a.tasks u := fun u other =>
    set_task_other a a.runningTask u _ other
  refine ⟨inv.places, inv.nodup, inv.nonnull, fun _ => ?_, fun u member => ?_, fun u member => ?_, inv.enabled⟩
  · change suitsCpu ((a.setTask a.runningTask _).tasks a.runningTask)
    rw [set_task_self]
    exact ⟨nofun, nofun⟩
  · rw [others u (ne_of_mem_of_not_mem member apart.1)]
    exact inv.ready u member
  · rw [others u (ne_of_mem_of_not_mem member apart.2)]
    exact inv.asleep u member

theorem placed_leave_ready (busy : a.runningTask ≠ 0) (changed : Word → Task)
    (others : ∀ u, u ≠ a.runningTask → changed u = a.tasks u) (own : suitsReady (changed a.runningTask)) :
    Placed { a.toView with tasks := changed, ready := a.ready ++ [a.runningTask], runningTask := 0 } := by
  have apart := inv.running_apart a.toView busy
  refine ⟨?_, inv.nodup, inv.nonnull, fun idle => absurd rfl idle, fun u member => ?_, fun u member => ?_, inv.enabled⟩
  · have places := inv.places
    rw [on_cpu_of_ne a.toView busy, List.append_assoc, List.singleton_append] at places
    rw [on_cpu_zero _ rfl]
    simpa using List.perm_middle.trans places
  · change suitsReady (changed u)
    rcases List.mem_append.mp member with before | last
    · rw [others u (ne_of_mem_of_not_mem before apart.1)]
      exact inv.ready u before
    · rw [List.mem_singleton.mp last]
      exact own
  · change suitsAsleep (changed u)
    rw [others u (ne_of_mem_of_not_mem member apart.2)]
    exact inv.asleep u member

theorem placed_leave_asleep (busy : a.runningTask ≠ 0) (changed : Word → Task) (front back : List Word)
    (split : a.asleep = front ++ back) (states : ∀ u, (changed u).state = (a.tasks u).state)
    (own : (a.tasks a.runningTask).state = .sleeping) :
    Placed { a.toView with tasks := changed, asleep := front ++ a.runningTask :: back, runningTask := 0 } := by
  refine ⟨?_, inv.nodup, inv.nonnull, fun idle => absurd rfl idle, fun u member => ?_, fun u member => ?_, inv.enabled⟩
  · have places := inv.places
    rw [on_cpu_of_ne a.toView busy, List.append_assoc, List.singleton_append, split] at places
    rw [on_cpu_zero _ rfl, List.nil_append]
    refine List.Perm.trans ?_ places
    rw [← List.append_assoc, ← List.append_assoc]
    exact List.perm_middle
  · change suitsReady (changed u)
    rw [suitsReady, states u]
    exact inv.ready u member
  · change suitsAsleep (changed u)
    rw [suitsAsleep, states u]
    rcases List.mem_append.mp member with before | after
    · exact inv.asleep u (by simp [split, before])
    · rcases List.mem_cons.mp after with rfl | after
      · exact .inl own
      · exact inv.asleep u (by simp [split, after])

theorem placed_leave (busy : a.runningTask ≠ 0) (done : a.leave = .ok b) : Placed b.toView ∧ b.runningTask = 0 := by
  cases leave_cases a b done with
  | running state =>
      have own := set_task_self a a.runningTask (fun task => { task with state := .ready })
      exact ⟨placed_leave_ready a inv busy _ (fun u other => Function.update_of_ne other _ _) (.inl (congrArg Task.state own)), rfl⟩
  | destroy state => exact ⟨placed_leave_ready a inv busy a.tasks (fun u _ => rfl) (.inr state), rfl⟩
  | sleeping state front sum back found placed =>
      have split := slot_split _ _ _ _ _ _ _ found
      have same := fun u => insert_sleeper_field a u Task.state (fun _ _ => rfl) a.runningTask
        ((a.tasks a.runningTask).sleepTicks - sum) front back
      exact ⟨placed_leave_asleep a inv busy _ front back split same state, rfl⟩

theorem placed_wake (t : Word) (rest : List Word) (first : a.asleep = t :: rest) : Placed (a.wake t rest).toView := by
  have apart : t ∉ a.ready ∧ t ∉ rest ∧ t ∉ onCpu a.toView := by
    have distinct := inv.distinct
    rw [first, List.append_assoc] at distinct
    grind
  have others : ∀ u, u ≠ t → (a.wake t rest).tasks u = a.tasks u := fun u other => Function.update_of_ne other _ _
  refine ⟨?_, inv.nodup, inv.nonnull, fun busy => ?_, fun u member => ?_, fun u member => ?_, inv.enabled⟩
  · have places := inv.places
    rw [first] at places
    refine List.Perm.trans ?_ places
    change (onCpu a.toView ++ (a.ready ++ [t]) ++ rest).Perm (onCpu a.toView ++ a.ready ++ t :: rest)
    simp
  · change suitsCpu ((a.wake t rest).tasks a.runningTask)
    rw [others a.runningTask (fun same => apart.2.2 (by simp [on_cpu_of_ne a.toView busy, same]))]
    exact inv.running busy
  · rcases List.mem_append.mp member with before | last
    · rw [others u (ne_of_mem_of_not_mem before apart.1)]
      exact inv.ready u before
    · rw [List.mem_singleton.mp last]
      exact .inl (congrArg Task.state (set_task_self a t (fun task => { task with state := .ready })))
  · rw [others u (ne_of_mem_of_not_mem member apart.2.1)]
    exact inv.asleep u (by simp [first, show u ∈ rest from member])

theorem placed_reap (t : Word) (rest : List Word) (idle : a.runningTask = 0) (first : a.ready = t :: rest) :
    Placed (a.reap t rest).toView ∧ t ∉ rest ∧ t ∉ a.asleep := by
  have distinct := inv.distinct
  have places := inv.places
  rw [on_cpu_zero a.toView idle, List.nil_append, first, List.cons_append] at distinct places
  have apart : t ∉ rest ∧ t ∉ a.asleep := by simpa using (List.nodup_cons.mp distinct).1
  refine ⟨⟨?_, inv.nodup.erase t, fun null => ?_, fun busy => ?_, fun u member => ?_, inv.asleep, inv.enabled⟩, apart⟩
  · change (onCpu a.toView ++ rest ++ a.asleep).Perm (a.live.erase t)
    rw [on_cpu_zero a.toView idle, List.nil_append]
    simpa using places.erase t
  · exact inv.nonnull (List.mem_of_mem_erase null)
  · exact absurd idle busy
  · exact inv.ready u (by simp [first, show u ∈ rest from member])

theorem placed_dispatch (t : Word) (rest : List Word) (idle : a.runningTask = 0) (first : a.ready = t :: rest) :
    Placed (a.dispatch t rest).toView ∧ (a.dispatch t rest).runningTask ≠ 0 := by
  have distinct := inv.distinct
  have places := inv.places
  rw [on_cpu_zero a.toView idle, List.nil_append, first, List.cons_append] at distinct places
  have apart : t ∉ rest ∧ t ∉ a.asleep := by simpa using (List.nodup_cons.mp distinct).1
  have nonnull : t ≠ 0 := inv.live_ne_zero a.toView t (inv.ready_live a.toView t (by simp [first]))
  have others : ∀ u, u ≠ t → (a.dispatch t rest).tasks u = a.tasks u := fun u other => Function.update_of_ne other _ _
  refine ⟨⟨?_, inv.nodup, inv.nonnull, fun _ => ?_, fun u member => ?_, fun u member => ?_, inv.enabled⟩, nonnull⟩
  · rw [on_cpu_of_ne _ nonnull]
    exact places
  · have own := set_task_self a t (fun task => { task with state := .running })
    change suitsCpu ((a.setTask t (fun task => { task with state := .running })).tasks t)
    rw [own]
    exact ⟨nofun, nofun⟩
  · rw [others u (ne_of_mem_of_not_mem member apart.1)]
    exact inv.ready u (by simp [first, show u ∈ rest from member])
  · rw [others u (ne_of_mem_of_not_mem member apart.2)]
    exact inv.asleep u member

theorem placed_switch (regs : Regs) (busy : a.runningTask ≠ 0) (done : a.switchTask regs = .ok b) :
    Placed b.toView ∧ b.runningTask ≠ 0 := by
  have saved : Placed (a.saveRegs regs).toView := placed_set_task a inv a.runningTask _ rfl
  obtain ⟨c, d, t, rest, left, passes, first, -, rfl⟩ := Abs.switch_ok regs a b done
  have reaped : Placed d.toView ∧ d.runningTask = 0 := by
    refine Run.invariant (fun e : Abs => Placed e.toView ∧ e.runningTask = 0) ?_ c d (placed_leave _ c saved busy left) passes
    rintro e _ ⟨placed, idle⟩ ⟨u, others, first, -, rfl⟩
    exact ⟨(placed_reap e placed u others idle first).1, idle⟩
  exact placed_dispatch d reaped.1 t rest reaped.2 first

theorem placed_charge : Placed a.charge.toView :=
  inv.retask a.toView _ rfl rfl rfl rfl rfl (fun u _ => set_task_field _ a.runningTask u _ Task.state rfl)

theorem placed_lower_head : Placed a.lowerHead.toView :=
  inv.retask a.toView _ rfl rfl rfl rfl rfl (fun u _ => lowered_field u Task.state (fun _ _ => rfl) 1 a.tasks a.asleep)

theorem placed_update_sleep_queue (busy : a.runningTask ≠ 0) :
    Placed a.updateSleepQueue.toView ∧ a.updateSleepQueue.runningTask ≠ 0 := by
  refine Run.invariant (fun e : Abs => Placed e.toView ∧ e.runningTask ≠ 0) ?_ a.lowerHead _ ⟨placed_lower_head a inv, busy⟩
    (Abs.wake_due_wakes a.lowerHead).1
  rintro e _ ⟨placed, busy⟩ ⟨t, rest, first, -, rfl⟩
  exact ⟨placed_wake e placed t rest first, busy⟩

theorem placed_tick (regs : Regs) (busy : a.runningTask ≠ 0) (done : a.doScheduling regs = .ok b) :
    Placed b.toView ∧ b.runningTask ≠ 0 := by
  obtain ⟨woken, busy⟩ := placed_update_sleep_queue a.charge (placed_charge a inv) busy
  exact placed_switch _ b woken regs busy done

theorem placed_create (alloc : Alloc) (func : Word) (busy : a.runningTask ≠ 0)
    (fresh : ∀ t stack, alloc = .made t stack → t ≠ 0 ∧ t ∉ a.live) : Placed (a.createKernelTask alloc func).toView := by
  cases alloc with
  | noTask => exact inv
  | noStack => exact inv.retask a.toView _ rfl rfl rfl rfl rfl (fun u _ => rfl)
  | made t stack =>
      obtain ⟨nonnull, absent⟩ := fresh t stack rfl
      have others : ∀ u ∈ a.live, (a.createKernelTask (.made t stack) func).tasks u = a.tasks u := fun u member =>
        Function.update_of_ne (ne_of_mem_of_not_mem member absent) _ _
      refine ⟨?_, List.nodup_cons.mpr ⟨absent, inv.nodup⟩, ?_, fun _ => ?_, fun u member => ?_, fun u member => ?_, inv.enabled⟩
      · change (onCpu a.toView ++ (a.ready ++ [t]) ++ a.asleep).Perm (t :: a.live)
        refine List.Perm.trans ?_ (inv.places.cons t)
        simpa using (List.perm_middle : (onCpu a.toView ++ a.ready ++ t :: a.asleep).Perm _)
      · exact List.not_mem_cons_of_ne_of_not_mem nonnull.symm inv.nonnull
      · change suitsCpu ((a.createKernelTask (.made t stack) func).tasks a.runningTask)
        rw [others _ (inv.running_live a.toView busy)]
        exact inv.running busy
      · rcases List.mem_append.mp member with before | last
        · rw [others u (inv.ready_live a.toView u before)]
          exact inv.ready u before
        · rw [List.mem_singleton.mp last]
          exact .inl (congrArg Task.state (set_task_self a t (fun _ => Abs.created a.nPid a.currentPd stack func)))
      · rw [others u (inv.asleep_live a.toView u member)]
        exact inv.asleep u member

theorem find_task_live (busy : a.runningTask ≠ 0) (pid t : Word) (found : a.findTask pid = some t) : t ∈ a.live := by
  refine (inv.live_iff a.toView busy t).mpr ?_
  simpa using List.mem_of_find?_eq_some found

theorem placed_kill (pid : Word) : Placed (a.kill pid).toView ∧ (a.kill pid).runningTask = a.runningTask := by
  unfold Abs.kill
  cases a.findTask pid with
  | none => exact ⟨inv, rfl⟩
  | some t => exact ⟨placed_destroy a inv t, rfl⟩

end Moves

end Deimos.Sched
