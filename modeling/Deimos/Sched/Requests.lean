import Deimos.Sched.OnTime

set_option autoImplicit false

namespace Deimos.Sched

open Comp LinkedQueue Deltas

structure Ahead (a : Abs) : Prop where
  pending : ∀ t rest, a.asleep = t :: rest → (a.tasks t).sleepTicks ≠ 0
  up : (a.tasks a.runningTask).state ≠ .sleeping

section Moves

variable (a b : Abs)

theorem pending_frame (pending : ∀ t rest, a.asleep = t :: rest → (a.tasks t).sleepTicks ≠ 0) (asleep : b.asleep = a.asleep)
    (ticks : ∀ t ∈ a.asleep, (b.tasks t).sleepTicks = (a.tasks t).sleepTicks) :
    ∀ t rest, b.asleep = t :: rest → (b.tasks t).sleepTicks ≠ 0 := by
  intro t rest first
  rw [asleep] at first
  rw [ticks t (by simp [first])]
  exact pending t rest first

theorem pending_insert (pending : ∀ t rest, a.asleep = t :: rest → (a.tasks t).sleepTicks ≠ 0) (y delta : Word) (front back : List Word)
    (split : a.asleep = front ++ back) (alone : front = [] → back = [] ∧ delta ≠ 0) (fresh : y ∉ a.asleep) (nodup : a.asleep.Nodup) :
    ∀ t rest, (a.insertSleeper y delta front back).asleep = t :: rest → ((a.insertSleeper y delta front back).tasks t).sleepTicks ≠ 0 := by
  intro t rest first
  change front ++ y :: back = t :: rest at first
  rw [split] at fresh nodup
  cases front with
  | nil =>
      obtain ⟨rfl, awaited⟩ := alone rfl
      obtain ⟨rfl, -⟩ := List.cons.inj first
      change ((a.setTask y (fun task => { task with sleepTicks := delta })).tasks y).sleepTicks ≠ 0
      rw [set_task_self]
      exact awaited
  | cons h others =>
      obtain ⟨rfl, -⟩ := List.cons.inj first
      have same : ((a.insertSleeper y delta (h :: others) back).tasks h) = a.tasks h := by
        have other : h ≠ y := fun here => fresh (by simp [here])
        change Abs.lowered delta (a.setTask y (fun task => { task with sleepTicks := delta })).tasks back h = _
        cases back with
        | nil => exact set_task_other a y h _ other
        | cons z back =>
            have apart : h ≠ z := fun here => (List.nodup_cons.mp nodup).1 (by simp [here])
            rw [Abs.lowered, Function.update_of_ne apart, set_task_other a y h _ other]
      rw [same]
      exact pending h _ split

theorem pending_leave (pending : ∀ t rest, a.asleep = t :: rest → (a.tasks t).sleepTicks ≠ 0) (inv : Placed a.toView)
    (busy : a.runningTask ≠ 0) (awaited : (a.tasks a.runningTask).state = .sleeping → (a.tasks a.runningTask).sleepTicks ≠ 0)
    (done : a.leave = .ok b) : ∀ t rest, b.asleep = t :: rest → (b.tasks t).sleepTicks ≠ 0 := by
  have awake := (inv.running_apart a.toView busy).2
  have nodup : a.asleep.Nodup := (List.nodup_append.mp inv.distinct).2.1
  cases leave_cases a b done with
  | running =>
      exact pending_frame a _ pending rfl (fun t _ => set_task_field a _ t (fun task => { task with state := .ready }) Task.sleepTicks rfl)
  | destroy => exact pending_frame a _ pending rfl (fun _ _ => rfl)
  | sleeping state front sum back found placed =>
      have split := slot_split _ _ _ _ _ _ _ found
      refine pending_insert a pending a.runningTask _ front back split (fun first => ⟨placed first, ?_⟩) awake nodup
      have empty : a.asleep = [] := by rw [split, first, placed first, List.append_nil]
      rw [empty] at found
      cases found
      simpa using awaited state

theorem ahead_switch (pending : ∀ t rest, a.asleep = t :: rest → (a.tasks t).sleepTicks ≠ 0) (inv : Placed a.toView)
    (busy : a.runningTask ≠ 0) (regs : Regs)
    (awaited : (a.tasks a.runningTask).state = .sleeping → (a.tasks a.runningTask).sleepTicks ≠ 0)
    (done : a.switchTask regs = .ok b) : Ahead b := by
  obtain ⟨c, d, t, rest, left, passes, -, -, rfl⟩ := Abs.switch_ok regs a b done
  have state : ((a.saveRegs regs).tasks a.runningTask).state = (a.tasks a.runningTask).state := set_task_field a _ _ _ Task.state rfl
  have ticks : ∀ u, ((a.saveRegs regs).tasks u).sleepTicks = (a.tasks u).sleepTicks := fun u =>
    set_task_field a a.runningTask u _ Task.sleepTicks rfl
  have saved := pending_frame a (a.saveRegs regs) pending rfl (fun u _ => ticks u)
  have away := pending_leave (a.saveRegs regs) c saved (placed_set_task a inv a.runningTask _ rfl) busy
    (fun asleep => (ticks a.runningTask).symm ▸ awaited (state ▸ asleep)) left
  have reaped : ∀ u others, d.asleep = u :: others → (d.tasks u).sleepTicks ≠ 0 := by
    refine Run.invariant (fun e : Abs => ∀ u others, e.asleep = u :: others → (e.tasks u).sleepTicks ≠ 0) ?_ c d away passes
    rintro e _ pending ⟨u, others, -, -, rfl⟩
    exact pending_frame e _ pending rfl (fun _ _ => rfl)
  refine ⟨pending_frame d _ reaped rfl (fun u _ => set_task_field d t u (fun task => { task with state := .running }) Task.sleepTicks rfl),
    fun asleep => ?_⟩
  change ((d.setTask t (fun task => { task with state := .running })).tasks t).state = .sleeping at asleep
  rw [set_task_self] at asleep
  cases asleep

theorem ahead_doze (ahead : Ahead a) (inv : Placed a.toView) (busy : a.runningTask ≠ 0) (ticks : Word) (regs : Regs) (awaited : ticks ≠ 0)
    (done : a.sleepFor ticks regs = .ok b) : Ahead b := by
  have awake := (inv.running_apart a.toView busy).2
  have own : ((a.doze ticks).tasks a.runningTask).sleepTicks = ticks := congrArg Task.sleepTicks (set_task_self a a.runningTask _)
  refine ahead_switch (a.doze ticks) b ?_ (placed_doze a inv busy ticks) busy regs (fun _ => own.symm ▸ awaited) done
  exact pending_frame a _ ahead.pending rfl (fun u member => by
    rw [Abs.doze, set_task_other a _ u _ (ne_of_mem_of_not_mem member awake)])

theorem ahead_exec (ahead : Ahead a) (inv : Placed a.toView) (busy : a.runningTask ≠ 0) (op : Op) (allowed : AllowedAbs op a)
    (done : a.exec op = .ok b) : Ahead b := by
  cases op with
  | createKernelTask alloc func =>
      cases done
      cases alloc with
      | noTask => exact ahead
      | noStack => exact ⟨pending_frame a _ ahead.pending rfl (fun _ _ => rfl), ahead.up⟩
      | made t stack =>
          have others : ∀ u ∈ a.live, (a.createKernelTask (.made t stack) func).tasks u = a.tasks u := fun u member =>
            Function.update_of_ne (ne_of_mem_of_not_mem member allowed.2) _ _
          refine ⟨pending_frame a _ ahead.pending rfl (fun u member => by rw [others u (inv.asleep_live a.toView u member)]), ?_⟩
          change ((a.createKernelTask (.made t stack) func).tasks a.runningTask).state ≠ _
          rw [others _ (inv.running_live a.toView busy)]
          exact ahead.up
  | kill pid =>
      cases done
      unfold Abs.kill
      cases a.findTask pid with
      | none => exact ahead
      | some t =>
          refine ⟨pending_frame a _ ahead.pending rfl (fun u _ => set_task_field a t u _ Task.sleepTicks rfl), fun asleep => ?_⟩
          rcases set_task_state a t a.runningTask (fun task => { task with state := .destroy }) with destroyed | same
          · cases destroyed.symm.trans asleep
          · exact ahead.up (same.symm.trans asleep)
  | schedYield regs => exact ahead_switch a b ahead.pending inv busy regs (fun asleep => absurd asleep ahead.up) done
  | schedKill regs =>
      have own := set_task_self a a.runningTask (fun task => { task with state := .destroy })
      refine ahead_switch (a.setTask a.runningTask (fun task => { task with state := .destroy })) b ?_ (placed_destroy a inv a.runningTask)
        busy regs (fun asleep => ?_) done
      · exact pending_frame a _ ahead.pending rfl (fun u _ => set_task_field a a.runningTask u _ Task.sleepTicks rfl)
      · cases (congrArg Task.state own).symm.trans asleep
  | sleep seconds regs => exact ahead_doze a b ahead inv busy _ regs (sleep_awaited seconds) done
  | usleep millis regs => exact ahead_doze a b ahead inv busy _ regs (usleep_awaited millis) done
  | doScheduling regs =>
      obtain ⟨placed, busy'⟩ := placed_update_sleep_queue a.charge (placed_charge a inv) busy
      refine ahead_switch a.charge.updateSleepQueue b (Abs.wake_due_wakes a.charge.lowerHead).2 placed busy' regs
        (fun asleep => absurd asleep ?_) done
      exact up_updated a ahead.up

end Moves

theorem head_pending (alloc : Alloc) (boot start s : State) (booted : Booted boot) (init : schedInit alloc boot = .ok start)
    (run : Run.Reaches (Step anyOp) start s) : s.sleepHead = 0 ∨ 1 ≤ ticksOf s.tasks s.sleepHead := by
  obtain ⟨first, stack, -, tracks⟩ := init_tracks alloc boot start booted init
  obtain ⟨a, steps, tracks'⟩ := run_tracks anyOp (fun _ _ => True) (fun _ _ _ _ _ => trivial) start s _ tracks run
  have inv : Ahead a ∧ Placed a.toView ∧ a.runningTask ≠ 0 := by
    refine Run.invariant (fun a : Abs => Ahead a ∧ Placed a.toView ∧ a.runningTask ≠ 0) ?_ _ a
      ⟨⟨(on_time_started boot first stack).ahead, (on_time_started boot first stack).up⟩, tracks.placed, tracks.busy⟩ steps
    rintro c d ⟨ahead, placed, busy⟩ ⟨op, allowed, -, done⟩
    exact ⟨ahead_exec c d ahead placed busy op allowed done, placed_exec c d op placed busy allowed done⟩
  have queue := tracks'.asleep
  cases shape : a.asleep with
  | nil => exact .inl (queue.head_eq_null.mpr shape)
  | cons t rest =>
      rw [shape] at queue
      have pending := inv.1.pending t rest shape
      rw [← sleep_ticks_eq s a tracks'.toSim] at pending
      rw [head_cons queue, ticksOf]
      exact .inr (by bv_omega)

-- The requests: call puts the running task to sleep for so many ticks.
def Asks (call : Regs → State → Comp Stop State) (ticks : Nat) : Prop :=
  ∀ regs s, s.runningTask ≠ 0 → ∃ asked : State, call regs s = switchTask regs asked ∧ (asked.tasks s.runningTask).state = .sleeping ∧
    ticksOf asked.tasks s.runningTask = ticks

theorem asks_unique (call : Regs → State → Comp Stop State) (ticks ticks' : Nat) (asks : Asks call ticks) (asks' : Asks call ticks') :
    ticks = ticks' := by
  -- Taken for a task that has just been resumed, switch_task returns the state it is given.
  let s : State := { zeroed with runningTask := 1 }
  obtain ⟨asked, shape, -, rfl⟩ := asks ⟨0x12345, 0, 0⟩ s (by decide)
  obtain ⟨asked', shape', -, rfl⟩ := asks' ⟨0x12345, 0, 0⟩ s (by decide)
  have returns (t : State) : (switchTask ⟨0x12345, 0, 0⟩ t).Returns t := by
    rw [switchTask, if_pos rfl]
    exact (ends_pure _ _).mpr rfl
  have same : (switchTask ⟨0x12345, 0, 0⟩ asked').Returns asked := shape'.symm.trans shape ▸ returns asked
  rw [returns_unique _ _ _ same (returns asked')]

theorem sleep_for_asks (ticks : Word) : Asks (sleepFor ticks) ticks.toNat := by
  intro regs s busy
  refine ⟨s.setTask s.runningTask (fun task => { task with sleepTicks := ticks, state := .sleeping }), ?_, ?_, ?_⟩
  · rw [sleepFor, deref_ne _ _ busy]
    rfl
  · exact congrArg Task.state (Function.update_self s.runningTask _ s.tasks)
  · exact congrArg (fun task : Task => task.sleepTicks.toNat) (Function.update_self s.runningTask _ s.tasks)

theorem sleep_ticks (seconds : Word) (small : 1000 * seconds.toNat + 1 < 2 ^ 32) : Asks (sleep seconds) (1000 * seconds.toNat + 1) := by
  have ticks : (KERNEL_SCHED_HZ * seconds + 1).toNat = 1000 * seconds.toNat + 1 := by
    simp only [KERNEL_SCHED_HZ, BitVec.toNat_add, BitVec.toNat_mul, show (1000 : Word).toNat = 1000 from rfl,
      show (1 : Word).toNat = 1 from rfl]
    omega
  exact ticks ▸ sleep_for_asks (KERNEL_SCHED_HZ * seconds + 1)

-- The product is cut to 32 bits before it is divided.
theorem usleep_ticks (millis : Word) : Asks (usleep millis) (1000 * millis.toNat % 2 ^ 32 / 1000 + 1) := by
  have ticks : (KERNEL_SCHED_HZ * millis / 1000 + 1).toNat = 1000 * millis.toNat % 2 ^ 32 / 1000 + 1 := by
    have bounded : 1000 * millis.toNat % 2 ^ 32 < 2 ^ 32 := Nat.mod_lt _ (by decide)
    simp only [KERNEL_SCHED_HZ, BitVec.toNat_add, BitVec.toNat_mul, BitVec.toNat_udiv, show (1000 : Word).toNat = 1000 from rfl,
      show (1 : Word).toNat = 1 from rfl]
    omega
  exact ticks ▸ sleep_for_asks (KERNEL_SCHED_HZ * millis / 1000 + 1)

def LongEnough (call : Word → Regs → State → Comp Stop State) (least : Nat) (amount : Word) : Prop :=
  ∃ ticks, Asks (call amount) ticks ∧ least ≤ ticks ∧ 0 < ticks ∧
    ∀ (less : Word) (ticks' : Nat), less.toNat ≤ amount.toNat → Asks (call less) ticks' → ticks' ≤ ticks

-- usleep asks for long enough where its product fits, sleep always, and the
-- tick never takes from a head without ticks.
theorem sleeps_long_enough_iff (millis : Word) :
    (LongEnough usleep (millis.toNat + 1) millis ↔ 1000 * millis.toNat < 2 ^ 32) ∧
      (∀ seconds : Word, 1000 * seconds.toNat + 1 < 2 ^ 32 →
        Asks (sleep seconds) (1000 * seconds.toNat + 1) ∧ LongEnough sleep (1000 * seconds.toNat + 1) seconds) ∧
      ∀ (alloc : Alloc) (boot start s : State), Booted boot → schedInit alloc boot = .ok start →
        Run.Reaches (Step anyOp) start s → s.sleepHead = 0 ∨ 1 ≤ ticksOf s.tasks s.sleepHead := by
  refine ⟨⟨fun enough => ?_, fun fits => ?_⟩, fun seconds small => ?_, fun alloc boot start s booted init run => ?_⟩
  · obtain ⟨ticks, asks, long, -⟩ := enough
    have same := asks_unique _ _ _ asks (usleep_ticks millis)
    have bounded : 1000 * millis.toNat % 2 ^ 32 < 2 ^ 32 := Nat.mod_lt _ (by decide)
    omega
  · have whole : ∀ less : Word, less.toNat ≤ millis.toNat → Asks (usleep less) (less.toNat + 1) := fun less fewer => by
      have asks := usleep_ticks less
      rwa [Nat.mod_eq_of_lt (by omega), Nat.mul_div_cancel_left _ (by decide)] at asks
    refine ⟨_, whole millis (Nat.le_refl _), Nat.le_refl _, Nat.succ_pos _, fun less ticks' fewer asks => ?_⟩
    rw [asks_unique _ _ _ asks (whole less fewer)]
    exact Nat.succ_le_succ fewer
  · refine ⟨sleep_ticks seconds small, _, sleep_ticks seconds small, Nat.le_refl _, Nat.succ_pos _, fun less ticks' fewer asks => ?_⟩
    rw [asks_unique _ _ _ asks (sleep_ticks less (by omega))]
    omega
  · exact head_pending alloc boot start s booted init run

theorem sleeps_long_enough_at_five : LongEnough usleep 6 5 ∧ Asks (sleep 2) 2001 :=
  ⟨(sleeps_long_enough_iff 5).1.mpr (by decide), ((sleeps_long_enough_iff 5).2.1 2 (by decide)).1⟩

theorem usleep_product_wraps : ¬ ∀ millis : Word, millis.toNat < 2 ^ 32 - 1 → ∃ ticks, Asks (usleep millis) ticks ∧ millis.toNat + 1 ≤ ticks := by
  intro enough
  obtain ⟨ticks, asks, long⟩ := enough 4294968 (by decide)
  have same := asks_unique _ _ _ asks (usleep_ticks 4294968)
  have one : 1000 * (4294968 : Word).toNat % 2 ^ 32 / 1000 + 1 = 1 := by decide
  have amount : (4294968 : Word).toNat = 4294968 := rfl
  omega

end Deimos.Sched
