import Deimos.Sched.Punctual

set_option autoImplicit false

namespace Deimos.Sched

open Comp LinkedQueue Log Deltas

-- Everyone who went to sleep has been woken when due or waits for it, and nobody is overdue.
structure Timed (a : Abs) : Prop extends Punctual a where
  ahead : ∀ t rest, a.asleep = t :: rest → (a.tasks t).sleepTicks ≠ 0

section Moves

variable (a b : Abs) (timed : Timed a)

include timed

theorem timed_frame (new : List (Call × View)) (calls : b.calls = new ++ a.calls)
    (quiet : ∀ e ∈ new, ∀ t, e.1 ≠ .enqueueSleep t ∧ e.1 ≠ .wake t) (asleep : b.asleep = a.asleep) (now : b.now = a.now)
    (ticks : ∀ t ∈ a.asleep, (b.tasks t).sleepTicks = (a.tasks t).sleepTicks) : Timed b := by
  refine ⟨punctual_frame a b timed.toPunctual new calls quiet asleep now ticks, fun t rest first => ?_⟩
  rw [asleep] at first
  rw [ticks t (by simp [first])]
  exact timed.ahead t rest first

theorem timed_set_task (t : Word) (f : Task → Task) (spared : t ∉ a.asleep ∨ (f (a.tasks t)).sleepTicks = (a.tasks t).sleepTicks) :
    Timed (a.setTask t f) := by
  refine timed_frame a _ timed [] rfl (by simp) rfl rfl (fun u member => ?_)
  rcases spared with awake | same
  · rw [set_task_other a t u f (ne_of_mem_of_not_mem member awake)]
  · exact set_task_field a t u f Task.sleepTicks same

theorem timed_insert (y total' : Word) (front back : List Word)
    (found : Abs.slot (fun t => (a.tasks t).sleepTicks) (a.tasks y).sleepTicks 0 a.asleep = (front, total', back))
    (awaited : (a.tasks y).sleepTicks ≠ 0) (onTime : timely (ticksOf a.tasks y) (a.asleep.map (ticksOf a.tasks)))
    (fresh : y ∉ a.asleep) (nodup : a.asleep.Nodup) : Timed (a.insertSleeper y ((a.tasks y).sleepTicks - total') front back) := by
  obtain ⟨behind, last⟩ := slot_timely a.tasks _ total' a.asleep front back timed.bounded awaited onTime found
  refine ⟨punctual_insert a timed.toPunctual y total' front back found last fresh nodup, fun t rest first => ?_⟩
  obtain ⟨own, -, same⟩ := slot_ticks a timed.toPunctual y total' front back found last fresh nodup _ rfl
  have split := slot_split _ _ _ _ _ _ _ found
  change front ++ y :: back = t :: rest at first
  cases front with
  | nil =>
      obtain ⟨rfl, -⟩ := List.cons.inj first
      intro none
      rw [ticksOf, none, total] at own
      exact awaited (BitVec.eq_of_toNat_eq own.symm)
  | cons h others =>
      obtain ⟨rfl, -⟩ := List.cons.inj first
      have pending := timed.ahead h (others ++ back) split
      intro none
      have kept := same h (by simp)
      rw [ticksOf, none] at kept
      exact pending (BitVec.eq_of_toNat_eq kept.symm)

theorem timed_leave (inv : Placed a.toView) (busy : a.runningTask ≠ 0)
    (onTime : (a.tasks a.runningTask).state = .sleeping → (a.tasks a.runningTask).sleepTicks ≠ 0 ∧
      timely (ticksOf a.tasks a.runningTask) (a.asleep.map (ticksOf a.tasks))) :
    a.leave ≠ .error .fault ∧ ∀ b, a.leave = .ok b → Timed b := by
  have awake := (inv.running_apart a.toView busy).2
  have nodup : a.asleep.Nodup := (List.nodup_append.mp inv.distinct).2.1
  unfold Abs.leave
  cases state : (a.tasks a.runningTask).state with
  | running =>
      refine ⟨by simp, fun b done => ?_⟩
      cases done
      exact timed_frame _ _ (timed_set_task a timed a.runningTask (fun task => { task with state := .ready }) (.inl awake))
        [(.enqueueReady a.runningTask, _)] rfl (by simp) rfl rfl (fun _ _ => rfl)
  | destroy =>
      refine ⟨by simp, fun b done => ?_⟩
      cases done
      exact timed_frame a _ timed [(.enqueueReady a.runningTask, _)] rfl (by simp) rfl rfl (fun _ _ => rfl)
  | sleeping =>
      obtain ⟨awaited, onTime⟩ := onTime state
      rcases found : Abs.slot (fun t => (a.tasks t).sleepTicks) (a.tasks a.runningTask).sleepTicks 0 a.asleep with ⟨front, total', back⟩
      obtain ⟨behind, -⟩ := slot_timely a.tasks _ total' a.asleep front back timed.bounded awaited onTime found
      have inserted : a.enqueueSleep a.runningTask =
          .ok (a.insertSleeper a.runningTask ((a.tasks a.runningTask).sleepTicks - total') front back) := by
        simp only [Abs.enqueueSleep, found]
        rw [if_neg (fun placed => placed.2 (behind placed.1))]
      dsimp only
      rw [inserted]
      refine ⟨by simp [Except.map], fun b done => ?_⟩
      cases done
      exact timed_frame _ _ (timed_insert a timed a.runningTask total' front back found awaited onTime awake nodup) [] rfl (by simp) rfl rfl
        (fun _ _ => rfl)
  | stopped => exact ⟨by simp [kpanic], fun b done => by simp [kpanic] at done⟩
  | ready => exact ⟨by simp [kpanic], fun b done => by simp [kpanic] at done⟩

theorem timed_reap (t : Word) (rest : List Word) : Timed (a.reap t rest) :=
  timed_frame a _ timed [(.freeTask t, _), (.getNext t, _)] rfl (by simp) rfl rfl (fun _ _ => rfl)

theorem timed_dispatch (t : Word) (rest : List Word) : Timed (a.dispatch t rest) :=
  timed_frame a _ timed [(.dispatch t, _), (.getNext t, _)] rfl (by simp) rfl rfl
    (fun u _ => set_task_field a t u (fun task => { task with state := .running }) Task.sleepTicks rfl)

theorem timed_switch (inv : Placed a.toView) (busy : a.runningTask ≠ 0) (regs : Regs)
    (onTime : (a.tasks a.runningTask).state = .sleeping → (a.tasks a.runningTask).sleepTicks ≠ 0 ∧
      timely (ticksOf a.tasks a.runningTask) (a.asleep.map (ticksOf a.tasks))) :
    a.switchTask regs ≠ .error .fault ∧ ∀ b, a.switchTask regs = .ok b → Timed b ∧ (b.tasks b.runningTask).state ≠ .sleeping := by
  have placed : Placed (a.saveRegs regs).toView := placed_set_task a inv a.runningTask _ rfl
  have saved : Timed (a.saveRegs regs) := timed_set_task a timed a.runningTask _ (.inr rfl)
  have state : ((a.saveRegs regs).tasks a.runningTask).state = (a.tasks a.runningTask).state := set_task_field a _ _ _ Task.state rfl
  have ticks : ∀ u, ((a.saveRegs regs).tasks u).sleepTicks = (a.tasks u).sleepTicks := fun u =>
    set_task_field a a.runningTask u _ Task.sleepTicks rfl
  have same : ticksOf (a.saveRegs regs).tasks = ticksOf a.tasks := funext fun u => congrArg BitVec.toNat (ticks u)
  obtain ⟨safe, kept⟩ := timed_leave (a.saveRegs regs) saved placed busy (fun asleep => by
    rw [same]
    exact ticks a.runningTask ▸ onTime (state ▸ asleep))
  constructor
  · intro stopped
    unfold Abs.switchTask at stopped
    cases left : (a.saveRegs regs).leave with
    | error stop =>
        rw [left] at stopped
        cases stopped
        exact safe left
    | ok b =>
        rw [left] at stopped
        cases select_stops b b.ready .fault stopped
  · intro b done
    obtain ⟨c, d, t, rest, left, passes, -, -, rfl⟩ := Abs.switch_ok regs a b done
    have reaped : Timed d := by
      refine Run.invariant Timed ?_ c d (kept c left) passes
      rintro e _ timed ⟨u, others, -, -, rfl⟩
      exact timed_reap e timed u others
    have own := set_task_self d t (fun task => { task with state := .running })
    refine ⟨timed_dispatch d reaped t rest, fun asleep => ?_⟩
    change ((d.setTask t (fun task => { task with state := .running })).tasks t).state = .sleeping at asleep
    rw [own] at asleep
    cases asleep

theorem timed_update (inv : Placed a.toView) : Timed a.charge.updateSleepQueue := by
  have nodup : a.asleep.Nodup := (List.nodup_append.mp inv.distinct).2.1
  refine ⟨?_, (Abs.wake_due_wakes a.charge.lowerHead).2⟩
  refine Run.invariant Punctual ?_ a.charge.lowerHead _ (punctual_clock a timed.toPunctual timed.ahead nodup)
    (Abs.wake_due_wakes a.charge.lowerHead).1
  rintro b _ punctual ⟨t, rest, first, due, rfl⟩
  exact punctual_wake b punctual t rest first due

end Moves

def wakesOnTime (op : Op) (s : State) : Prop :=
  match op with
  | .sleep seconds _ => ∀ asleep, Queue 0 s.next s.sleepHead s.sleepTail asleep →
      timely (KERNEL_SCHED_HZ * seconds + 1).toNat (asleep.map (ticksOf s.tasks))
  | .usleep millis _ => ∀ asleep, Queue 0 s.next s.sleepHead s.sleepTail asleep →
      timely (KERNEL_SCHED_HZ * millis / 1000 + 1).toNat (asleep.map (ticksOf s.tasks))
  | _ => True

def wakesOnTimeAbs (op : Op) (a : Abs) : Prop :=
  match op with
  | .sleep seconds _ => timely (KERNEL_SCHED_HZ * seconds + 1).toNat (a.asleep.map (ticksOf a.tasks))
  | .usleep millis _ => timely (KERNEL_SCHED_HZ * millis / 1000 + 1).toNat (a.asleep.map (ticksOf a.tasks))
  | _ => True

theorem wakes_on_time_abs (past : List (Call × Globals) × List (Call × View)) (op : Op) (s : State) (a : Abs) (sim : Sim past s a)
    (onTime : wakesOnTime op s) : wakesOnTimeAbs op a := by
  have tasks := sim_tasks s a sim
  cases op with
  | sleep seconds regs =>
      unfold wakesOnTimeAbs
      rw [← tasks]
      exact onTime a.asleep sim.asleep
  | usleep millis regs =>
      unfold wakesOnTimeAbs
      rw [← tasks]
      exact onTime a.asleep sim.asleep
  | _ => trivial

-- Neither sleep nor usleep asks for no ticks at all, whatever wraps around.
theorem sleep_awaited (seconds : Word) : KERNEL_SCHED_HZ * seconds + 1 ≠ 0 := by
  intro none
  have odd := congrArg BitVec.toNat none
  simp only [KERNEL_SCHED_HZ, BitVec.toNat_add, BitVec.toNat_mul, show (1000 : Word).toNat = 1000 from rfl,
    show (1 : Word).toNat = 1 from rfl, show (0 : Word).toNat = 0 from rfl] at odd
  omega

theorem usleep_awaited (millis : Word) : KERNEL_SCHED_HZ * millis / 1000 + 1 ≠ 0 := by
  intro none
  have small := congrArg BitVec.toNat none
  simp only [KERNEL_SCHED_HZ, BitVec.toNat_add, BitVec.toNat_mul, BitVec.toNat_udiv, show (1000 : Word).toNat = 1000 from rfl,
    show (1 : Word).toNat = 1 from rfl, show (0 : Word).toNat = 0 from rfl] at small
  have bounded : 1000 * millis.toNat % 2 ^ 32 < 2 ^ 32 := Nat.mod_lt _ (by decide)
  generalize 1000 * millis.toNat % 2 ^ 32 = product at small bounded
  omega

structure OnTime (a : Abs) : Prop extends Timed a where
  up : (a.tasks a.runningTask).state ≠ .sleeping

theorem timed_doze (a : Abs) (timed : Timed a) (inv : Placed a.toView) (busy : a.runningTask ≠ 0) (ticks : Word) (regs : Regs)
    (awaited : ticks ≠ 0) (onTime : timely ticks.toNat (a.asleep.map (ticksOf a.tasks))) :
    a.sleepFor ticks regs ≠ .error .fault ∧ ∀ b, a.sleepFor ticks regs = .ok b → OnTime b := by
  have awake := (inv.running_apart a.toView busy).2
  have dozing : Timed (a.doze ticks) := timed_set_task a timed a.runningTask _ (.inl awake)
  have own : ((a.doze ticks).tasks a.runningTask).sleepTicks = ticks := congrArg Task.sleepTicks (set_task_self a a.runningTask _)
  have others : a.asleep.map (ticksOf (a.doze ticks).tasks) = a.asleep.map (ticksOf a.tasks) := by
    refine List.map_congr_left (fun u member => ?_)
    unfold ticksOf
    rw [Abs.doze, set_task_other a _ u _ (ne_of_mem_of_not_mem member awake)]
  obtain ⟨safe, kept⟩ := timed_switch (a.doze ticks) dozing (placed_doze a inv busy ticks) busy regs (fun _ => by
    refine ⟨own.symm ▸ awaited, ?_⟩
    change timely (ticksOf (a.doze ticks).tasks a.runningTask) (a.asleep.map (ticksOf (a.doze ticks).tasks))
    rw [others, ticksOf, own]
    exact onTime)
  exact ⟨safe, fun b done => ⟨(kept b done).1, (kept b done).2⟩⟩

theorem up_updated (a : Abs) (up : (a.tasks a.runningTask).state ≠ .sleeping) :
    (a.charge.updateSleepQueue.tasks a.charge.updateSleepQueue.runningTask).state ≠ .sleeping := by
  refine Run.invariant (fun b : Abs => (b.tasks b.runningTask).state ≠ .sleeping) ?_ a.charge.lowerHead _ (fun asleep => ?_)
    (Abs.wake_due_wakes a.charge.lowerHead).1
  · rintro b _ up ⟨t, rest, -, -, rfl⟩ asleep
    rcases set_task_state b t b.runningTask (fun task => { task with state := .ready }) with ready | same
    · cases ready.symm.trans asleep
    · exact up (same.symm.trans asleep)
  · have lowered := lowered_field a.runningTask Task.state (fun _ _ => rfl) 1 a.charge.tasks a.asleep
    have charged := set_task_field { a with ticks := a.ticks + 1, now := a.now + 1 } a.runningTask a.runningTask
      (fun task => { task with cpuTime := task.cpuTime + 1 }) Task.state rfl
    exact up (charged.symm.trans (lowered.symm.trans asleep))

theorem on_time_exec (a : Abs) (onTime : OnTime a) (inv : Placed a.toView) (busy : a.runningTask ≠ 0) (op : Op)
    (allowed : AllowedAbs op a) (may : wakesOnTimeAbs op a) :
    a.exec op ≠ .error .fault ∧ ∀ b, a.exec op = .ok b → OnTime b := by
  have timed := onTime.toTimed
  have switched : ∀ c : Abs, Timed c → Placed c.toView → c.runningTask ≠ 0 → (c.tasks c.runningTask).state ≠ .sleeping → ∀ regs,
      c.switchTask regs ≠ .error .fault ∧ ∀ b, c.switchTask regs = .ok b → OnTime b := fun c timed placed busy up regs =>
    let ⟨safe, kept⟩ := timed_switch c timed placed busy regs (fun asleep => absurd asleep up)
    ⟨safe, fun b done => ⟨(kept b done).1, (kept b done).2⟩⟩
  cases op with
  | createKernelTask alloc func =>
      refine ⟨nofun, fun b done => ?_⟩
      cases done
      cases alloc with
      | noTask => exact onTime
      | noStack => exact ⟨timed_frame a _ timed [] rfl (by simp) rfl rfl (fun _ _ => rfl), onTime.up⟩
      | made t stack =>
          have others : ∀ u ∈ a.live, (a.createKernelTask (.made t stack) func).tasks u = a.tasks u := fun u member =>
            Function.update_of_ne (ne_of_mem_of_not_mem member allowed.2) _ _
          refine ⟨timed_frame a _ timed [(.enqueueReady t, _), (.newTask t, _)] rfl (by simp) rfl rfl (fun u member => ?_), ?_⟩
          · rw [others u (inv.asleep_live a.toView u member)]
          · change ((a.createKernelTask (.made t stack) func).tasks a.runningTask).state ≠ _
            rw [others _ (inv.running_live a.toView busy)]
            exact onTime.up
  | kill pid =>
      refine ⟨nofun, fun b done => ?_⟩
      cases done
      unfold Abs.kill
      cases a.findTask pid with
      | none => exact onTime
      | some t =>
          refine ⟨timed_set_task a timed t _ (.inr rfl), fun asleep => ?_⟩
          rcases set_task_state a t a.runningTask (fun task => { task with state := .destroy }) with destroyed | same
          · cases destroyed.symm.trans asleep
          · exact onTime.up (same.symm.trans asleep)
  | schedYield regs => exact switched a timed inv busy onTime.up regs
  | schedKill regs =>
      have own := set_task_self a a.runningTask (fun task => { task with state := .destroy })
      refine switched _ (timed_set_task a timed a.runningTask _ (.inr rfl)) (placed_destroy a inv a.runningTask) busy (fun asleep => ?_) regs
      change ((a.setTask a.runningTask (fun task => { task with state := .destroy })).tasks a.runningTask).state = _ at asleep
      rw [own] at asleep
      cases asleep
  | sleep seconds regs => exact timed_doze a timed inv busy _ regs (sleep_awaited seconds) may
  | usleep millis regs => exact timed_doze a timed inv busy _ regs (usleep_awaited millis) may
  | doScheduling regs =>
      obtain ⟨placed, busy'⟩ := placed_update_sleep_queue a.charge (placed_charge a inv) busy
      exact switched _ (timed_update a timed inv) placed busy' (up_updated a onTime.up) regs

theorem on_time_started (s : State) (t stack : Word) : OnTime (Abs.started s t stack) := by
  have own : (Abs.started s t stack).tasks t = { blank s.nPid s.currentPd stack with state := .running } :=
    Function.update_self t _ s.tasks
  refine ⟨⟨⟨fun later u v earlier shape => ?_, Nat.two_pow_pos 32⟩, nofun⟩, fun asleep => ?_⟩
  · have member : (Call.enqueueSleep u, v) ∈ (Abs.started s t stack).calls := by simp [shape]
    cases List.mem_singleton.mp member
  · change ((Abs.started s t stack).tasks t).state = _ at asleep
    rw [own] at asleep
    cases asleep

theorem woken_beside (t : Word) (due : Nat) (calls : List (Call × Globals)) (calls' : List (Call × View))
    (beside : List.Forall₂ SameCall calls calls') (woken : WokenAt (fun v : View => v.now) t due calls') :
    WokenAt (fun g : Globals => g.now) t due calls := by
  obtain ⟨after, v, v', before, rfl, first, now, now'⟩ := woken
  obtain ⟨after', ⟨_, g'⟩, rest, rfl, -, ⟨rfl, rel'⟩, tail⟩ := split_beside after _ _ calls beside.flip
  obtain ⟨⟨_, g⟩, before', ⟨rfl, rel⟩, older, rfl⟩ := List.forall₂_cons_left_iff.mp tail
  refine ⟨after', g, g', before', rfl, fun e member => ?_, ?_, ?_⟩
  · obtain ⟨d, member', same, -⟩ := member_beside before' e before older.flip member
    exact same ▸ first d member'
  · exact (congrArg Shared.now rel.shared).trans now
  · exact (congrArg Shared.now rel'.shared).trans now'

theorem sleepers_wake_on_time (alloc : Alloc) (boot start s : State) (booted : Booted boot)
    (init : schedInit alloc boot = .ok start) (run : Run.Reaches (Step wakesOnTime) start s) :
    (∀ later t g earlier, s.calls = later ++ (.enqueueSleep t, g) :: earlier →
      WokenAt (fun g : Globals => g.now) t (g.now + ticksOf g.tasks t) later ∨
        ((∀ e ∈ later, e.1 ≠ .wake t) ∧ s.now < g.now + ticksOf g.tasks t ∧
          ∃ asleep, Queue 0 s.next s.sleepHead s.sleepTail asleep ∧ t ∈ asleep)) ∧
      ∀ op, Allowed op s → wakesOnTime op s → ¬ (exec op s).Ends (.error .fault) := by
  obtain ⟨first, stack, -, tracks⟩ := init_tracks alloc boot start booted init
  obtain ⟨a, steps, tracks'⟩ := run_tracks wakesOnTime wakesOnTimeAbs
    (fun op s a along => wakes_on_time_abs _ op s a along.toSim) start s _ tracks run
  have inv : OnTime a ∧ Placed a.toView ∧ a.runningTask ≠ 0 := by
    refine Run.invariant (fun a : Abs => OnTime a ∧ Placed a.toView ∧ a.runningTask ≠ 0) ?_ _ a
      ⟨on_time_started boot first stack, tracks.placed, tracks.busy⟩ steps
    rintro c d ⟨onTime, placed, busy⟩ ⟨op, allowed, may, done⟩
    exact ⟨(on_time_exec c onTime placed busy op allowed may).2 d done, placed_exec c d op placed busy allowed done⟩
  obtain ⟨onTime, placed, busy⟩ := inv
  constructor
  · intro later t g earlier shape
    have beside := sim_calls s a tracks'.toSim
    rw [shape] at beside
    obtain ⟨later', ⟨_, v⟩, earlier', shape', recent, ⟨rfl, rel⟩, -⟩ := split_beside later earlier _ _ beside
    have due : g.now + ticksOf g.tasks t = dueAt v t := by
      have shared := rel.shared
      exact congrArg (fun g : Shared => g.now + ticksOf g.tasks t) shared
    rw [due]
    rcases onTime.entries later' t v earlier' shape' with woken | waiting
    · exact .inl (woken_beside t _ later later' recent woken)
    · refine .inr ⟨fun e member => ?_, ?_, a.asleep, tracks'.asleep, waiting.asleep⟩
      · obtain ⟨d, member', same, -⟩ := member_beside later e later' recent member
        exact same ▸ waiting.unwoken d member'
      · have now : s.now = a.now := congrArg Shared.now tracks'.shared
        obtain ⟨h, rest, shape⟩ := List.exists_cons_of_ne_nil (List.ne_nil_of_mem waiting.asleep)
        have pending : 0 < ticksOf a.tasks h := by
          have := onTime.ahead h rest shape
          unfold ticksOf
          bv_omega
        have nearest : ticksOf a.tasks h ≤ deadline (ticksOf a.tasks) t a.asleep := shape ▸ head_le_deadline
        have left := waiting.left
        omega
  · intro op allowed may ended
    have stopped := simulates_stops _ _ _ (sim_exec s a tracks'.toSim placed busy op allowed) ended
    exact (on_time_exec a onTime placed busy op (allowed_abs s a tracks'.toSim op allowed)
      (wakes_on_time_abs _ op s a tracks'.toSim may)).1 stopped

-- One task sleeps for two ticks and then another for three: the second tick
-- wakes the first of them, and the other goes on sleeping.
def earlyAndLate : List Op :=
  [.createKernelTask (.made 0x9000 0xA000) 0xC0100000, .createKernelTask (.made 0xF000 0x11000) 0xC0100000, .schedYield ⟨0xC0101000, 0, 0⟩,
    .usleep 1 ⟨0xC0102000, 0, 0⟩, .usleep 2 ⟨0xC0103000, 0, 0⟩, .doScheduling ⟨0xC0104000, 0, 0⟩, .doScheduling ⟨0xC0105000, 0, 0⟩]

theorem sleeper_wakes_on_time : ∃ (start s : State) (g : Globals) (earlier : List (Call × Globals)),
    schedInit (.made 0x1000 0x2000) zeroed = .ok start ∧ replay anyOp 9 earlyAndLate start = some s ∧
    s.calls = s.calls.take 13 ++ (.enqueueSleep 0x9000, g) :: earlier ∧
    WokenAt (fun g : Globals => g.now) 0x9000 2 (s.calls.take 13) ∧ s.sleepHead = 0xF000 := by
  obtain ⟨start, s₁, s₂, s₃, s₄, s₅, s₆, s, init, one, two, three, four, five, six, seven, played, ⟨g, earlier, split, due⟩, now, left, empty,
      head, tail, single, ticks, created, created'⟩ : ∃ start s₁ s₂ s₃ s₄ s₅ s₆ s,
      schedInit (.made 0x1000 0x2000) zeroed = .ok start ∧
      (exec (.createKernelTask (.made 0x9000 0xA000) 0xC0100000) start).Returns s₁ ∧
      (exec (.createKernelTask (.made 0xF000 0x11000) 0xC0100000) s₁).Returns s₂ ∧ (exec (.schedYield ⟨0xC0101000, 0, 0⟩) s₂).Returns s₃ ∧
      (exec (.usleep 1 ⟨0xC0102000, 0, 0⟩) s₃).Returns s₄ ∧ (exec (.usleep 2 ⟨0xC0103000, 0, 0⟩) s₄).Returns s₅ ∧
      (exec (.doScheduling ⟨0xC0104000, 0, 0⟩) s₅).Returns s₆ ∧ (exec (.doScheduling ⟨0xC0105000, 0, 0⟩) s₆).Returns s ∧
      replay anyOp 9 earlyAndLate start = some s ∧
      (∃ g earlier, s.calls = s.calls.take 13 ++ (.enqueueSleep 0x9000, g) :: earlier ∧ g.now + ticksOf g.tasks 0x9000 = 2) ∧
      s.now = 2 ∧ s.sleepHead = 0xF000 ∧ s₃.sleepHead = 0 ∧ s₄.sleepHead = 0x9000 ∧ s₄.sleepTail = 0x9000 ∧ s₄.next 0x9000 = 0 ∧
      ticksOf s₄.tasks 0x9000 = 2 ∧ Allowed (.createKernelTask (.made 0x9000 0xA000) 0xC0100000) start ∧
      Allowed (.createKernelTask (.made 0xF000 0x11000) 0xC0100000) s₁ :=
    ⟨_, _, _, _, _, _, _, _, rfl, ⟨9, rfl⟩, ⟨9, rfl⟩, ⟨9, rfl⟩, ⟨9, rfl⟩, ⟨9, rfl⟩, ⟨9, rfl⟩, ⟨9, rfl⟩, rfl, ⟨_, _, rfl, rfl⟩,
      rfl, rfl, rfl, rfl, rfl, rfl, rfl, by decide, by decide⟩
  have alone : wakesOnTime (.usleep 1 ⟨0xC0102000, 0, 0⟩) s₃ := fun asleep queue => by
    rw [queue.head_eq_null.mp empty]
    exact .inl (Nat.zero_le _)
  have behind : wakesOnTime (.usleep 2 ⟨0xC0103000, 0, 0⟩) s₄ := fun asleep queue => by
    have first : Queue 0 s₄.next 0x9000 0x9000 [0x9000] := queue_single (by decide) single
    have links := queue.links
    rw [head] at links
    rw [links_unique links first.links, List.map_singleton, ticks]
    exact .inl (by decide)
  have step (u v : State) (op : Op) (run : Run.Reaches (Step wakesOnTime) start u) (returned : (exec op u).Returns v)
      (allowed : Allowed op u) (may : wakesOnTime op u) : Run.Reaches (Step wakesOnTime) start v := run.tail ⟨op, allowed, may, returned⟩
  have run := step start s₁ _ .refl one created trivial
  have run := step s₁ s₂ _ run two created' trivial
  have run := step s₂ s₃ _ run three (show (0xC0101000 : Word) ≠ 0x12345 by decide) trivial
  have run := step s₃ s₄ _ run four (show (0xC0102000 : Word) ≠ 0x12345 by decide) alone
  have run := step s₄ s₅ _ run five (show (0xC0103000 : Word) ≠ 0x12345 by decide) behind
  have run := step s₅ s₆ _ run six (show (0xC0104000 : Word) ≠ 0x12345 by decide) trivial
  have run := step s₆ s _ run seven (show (0xC0105000 : Word) ≠ 0x12345 by decide) trivial
  refine ⟨start, s, g, earlier, init, played, split, ?_, left⟩
  rcases (sleepers_wake_on_time _ _ start s zeroed_booted init run).1 _ 0x9000 g earlier split with woken | ⟨-, waiting, -⟩
  · exact due ▸ woken
  · omega

-- A task that is to sleep for one tick while another sleeps for longer goes before the head, where x is 0.
theorem sleeper_follows_null :
    ∃ start s, schedInit (.made 0x1000 0x2000) zeroed = .ok start ∧
      replay anyOp 9 [.createKernelTask (.made 0x9000 0xA000) 0xC0100000, .createKernelTask (.made 0xF000 0x11000) 0xC0100000,
        .schedYield ⟨0xC0101000, 0, 0⟩, .usleep 1000 ⟨0xC0102000, 0, 0⟩] start = some s ∧
      Allowed (.usleep 0 ⟨0xC0103000, 0, 0⟩) s ∧ (exec (.usleep 0 ⟨0xC0103000, 0, 0⟩) s).Ends (.error .fault) := by
  refine ⟨_, _, rfl, rfl, ?_, ⟨9, rfl⟩⟩
  decide

end Deimos.Sched
