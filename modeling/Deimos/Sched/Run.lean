import Deimos.Sched.Refine

set_option autoImplicit false

namespace Deimos.Sched

open Comp LinkedQueue

variable {past : List (Call × Globals) × List (Call × View)}

section Ops

variable (s : State) (a : Abs) (sim : Sim past s a) (placed : Placed a.toView) (busy : a.runningTask ≠ 0)

include sim

theorem find_loop (pid z : Word) (todo : List Word) (link : Links 0 s.next z todo 0) :
    (loop (findBody s pid) z).Returns ((todo.find? (fun t => (a.tasks t).pid = pid)).getD 0) := by
  induction todo generalizing z with
  | nil =>
      obtain rfl : z = 0 := link
      exact (ends_loop_done _ _ 0 _ rfl).mpr rfl
  | cons t rest ih =>
      obtain ⟨rfl, nonnull, link⟩ := link
      have pids : (s.tasks z).pid = (a.tasks z).pid := congrArg (fun tasks => (tasks z).pid) (sim_tasks s a sim)
      by_cases here : (a.tasks z).pid = pid
      · have pass : findBody s pid z = .ok (.done z) := by rw [findBody, if_neg nonnull, pids, if_pos here]
        rw [List.find?_cons_of_pos (by simpa using here)]
        exact (ends_loop_done _ _ z _ pass).mpr rfl
      · have pass : findBody s pid z = .ok (.next (s.next z)) := by rw [findBody, if_neg nonnull, pids, if_neg here]
        rw [List.find?_cons_of_neg (by simpa using here)]
        exact (ends_loop_next _ _ _ _ pass).mpr (ih (s.next z) link)

theorem find_task_returns (pid : Word) (busy : a.runningTask ≠ 0) :
    (findTask pid s).Returns ((a.findTask pid).getD 0) := by
  have pids : (s.tasks s.runningTask).pid = (a.tasks a.runningTask).pid := by
    rw [sim_running s a sim]
    exact congrArg (fun tasks => (tasks a.runningTask).pid) (sim_tasks s a sim)
  unfold findTask Abs.findTask
  rw [deref_ne _ _ (running_ne_zero s a sim busy), pids, List.find?_cons, List.find?_append]
  refine (returns_bind _ _ _).mpr ⟨(a.tasks a.runningTask).pid, (ends_lift _ _).mpr rfl, ?_⟩
  by_cases here : (a.tasks a.runningTask).pid = pid
  · rw [if_pos here, decide_eq_true here, sim_running s a sim]
    exact (ends_pure _ _).mpr rfl
  · rw [if_neg here, decide_eq_false here]
    refine (returns_bind _ _ _).mpr ⟨_, find_loop s a sim pid s.readyHead a.ready sim.ready.links, ?_⟩
    cases found : a.ready.find? (fun t => (a.tasks t).pid = pid) with
    | none => exact find_loop s a sim pid s.sleepHead a.asleep sim.asleep.links
    | some t =>
        have nonnull : t ≠ 0 := sim.ready.nonnull (List.mem_of_find?_eq_some found)
        simp only [Option.getD_some, if_pos nonnull, Option.some_or]
        exact (ends_pure _ _).mpr rfl

theorem sim_kill (placed : Placed a.toView) (busy : a.runningTask ≠ 0) (pid : Word) :
    Simulates (Sim past) (kill pid s) (.ok (a.kill pid) : Except Stop Abs) := by
  have returned := find_task_returns s a sim pid busy
  unfold kill Abs.kill
  cases found : a.findTask pid with
  | none =>
      rw [found] at returned
      exact ⟨.ok s, (ends_bind_of_returns _ _ _ _ returned).mpr ((ends_pure _ _).mpr rfl), sim⟩
  | some t =>
      rw [found] at returned
      have nonnull : t ≠ 0 := placed.live_ne_zero a.toView t (find_task_live a placed busy pid t found)
      have destroyed := sim_set_task s a sim t (fun task => { task with state := .destroy })
        (fun task => { task with state := .destroy }) rfl
      refine ⟨.ok _, (ends_bind_of_returns _ _ _ _ returned).mpr ?_, destroyed⟩
      rw [Option.getD_some, if_neg nonnull]
      exact (ends_pure _ _).mpr rfl

theorem sim_new_task (t : Word) (task : Task) (unready : t ∉ a.ready) (awake : t ∉ a.asleep) :
    Sim past ((({ s.log (.newTask t) with nPid := s.nPid + 1, live := t :: s.live } : State).setTask t (fun _ => task)).setNext t 0)
      (({ a.log (.newTask t) with nPid := a.nPid + 1, live := t :: a.live } : Abs).setTask t (fun _ => task)) := by
  refine ⟨⟨?_, ?_, ?_, sim.apart, fun u member unready awake => ?_⟩, (sim_log s a sim _).calls⟩
  · change { s.toShared with tasks := Function.update s.tasks t task, nPid := s.nPid + 1, live := t :: s.live } =
      { a.toShared with tasks := Function.update a.tasks t task, nPid := a.nPid + 1, live := t :: a.live }
    rw [sim.shared]
  · exact sim.ready.congr (fun u member => Function.update_of_ne (ne_of_mem_of_not_mem member unready) _ _)
  · exact sim.asleep.congr (fun u member => Function.update_of_ne (ne_of_mem_of_not_mem member awake) _ _)
  · by_cases here : u = t
    · rw [here]
      exact Function.update_self t 0 s.next
    · have live : u ∈ a.live := (List.mem_cons.mp member).resolve_left here
      exact (Function.update_of_ne here _ _).trans (sim.cleared u live unready awake)

theorem sim_create (placed : Placed a.toView) (alloc : Alloc) (func : Word) (allowed : Allowed (.createKernelTask alloc func) s) :
    Simulates (Sim past) (exec (.createKernelTask alloc func) s) (.ok (a.createKernelTask alloc func) : Except Stop Abs) := by
  cases alloc with
  | noTask => exact simulates_pure s a sim
  | noStack =>
      refine simulates_pure _ _ ⟨⟨?_, sim.ready, sim.asleep, sim.apart, sim.cleared⟩, sim.calls⟩
      exact congrArg (fun g : Shared => { g with nPid := g.nPid + 1 }) sim.shared
  | made t stack =>
      obtain ⟨nonnull, absent⟩ := allowed
      have live : s.live = a.live := congrArg Shared.live sim.shared
      have nPid : s.nPid = a.nPid := congrArg Shared.nPid sim.shared
      have currentPd : s.currentPd = a.currentPd := congrArg Shared.currentPd sim.shared
      have outside : t ∉ a.ready ∧ t ∉ a.asleep := ⟨fun member => (live ▸ absent) (placed.ready_live a.toView t member),
        fun member => (live ▸ absent) (placed.asleep_live a.toView t member)⟩
      have made := sim_new_task s a sim t (blank s.nPid s.currentPd stack) outside.1 outside.2
      have started := sim_set_task _ _ made t (fun task => { task with ppid := 0, eip := func, state := .ready })
        (fun task => { task with ppid := 0, eip := func, state := .ready }) rfl
      rw [set_task_twice] at started
      obtain ⟨s', enqueued, sim'⟩ := sim_enqueue_ready _ _ started t List.mem_cons_self nonnull outside.1 outside.2
      have returned : createKernelTask (.made t stack) func s = .ok ((s'.tasks t).pid, s') := by
        rw [createKernelTask, newTask]
        dsimp only
        rw [if_neg nonnull]
        exact congrArg (fun result : Except Stop State => result >>= fun s' => .ok ((s'.tasks t).pid, s')) enqueued
      rw [nPid, currentPd] at sim'
      refine ⟨.ok s', ?_, sim'⟩
      rw [exec, returned]
      exact (ends_bind_of_returns _ _ ((s'.tasks t).pid, s') _ ((ends_lift _ _).mpr rfl)).mpr ((ends_pure _ _).mpr rfl)

include placed busy

theorem sim_exec (op : Op) (allowed : Allowed op s) : Simulates (Sim past) (exec op s) (a.exec op) := by
  cases op with
  | createKernelTask alloc func => exact sim_create s a sim placed alloc func allowed
  | kill pid => exact sim_kill s a sim placed busy pid
  | schedYield regs => exact sim_switch s a sim placed busy regs allowed
  | schedKill regs => exact sim_sched_kill s a sim placed busy regs allowed
  | sleep seconds regs => exact sim_sleep_for s a sim placed busy _ regs allowed
  | usleep millis regs => exact sim_sleep_for s a sim placed busy _ regs allowed
  | doScheduling regs => exact sim_tick s a sim placed busy regs allowed

end Ops

def AllowedAbs (op : Op) (a : Abs) : Prop :=
  match op with
  | .createKernelTask (.made t _) _ => t ≠ 0 ∧ t ∉ a.live
  | _ => True

def AbsStep (may : Op → Abs → Prop) (a b : Abs) : Prop := ∃ op, AllowedAbs op a ∧ may op a ∧ a.exec op = .ok b

theorem placed_exec (a b : Abs) (op : Op) (inv : Placed a.toView) (busy : a.runningTask ≠ 0) (allowed : AllowedAbs op a)
    (done : a.exec op = .ok b) : Placed b.toView ∧ b.runningTask ≠ 0 := by
  cases op with
  | createKernelTask alloc func =>
      cases done
      have fresh : ∀ t stack, alloc = .made t stack → t ≠ 0 ∧ t ∉ a.live := by
        rintro t stack rfl
        exact allowed
      refine ⟨placed_create a inv alloc func busy fresh, ?_⟩
      cases alloc with
      | noTask => exact busy
      | noStack => exact busy
      | made t stack => exact busy
  | kill pid =>
      cases done
      obtain ⟨placed, same⟩ := placed_kill a inv pid
      exact ⟨placed, same ▸ busy⟩
  | schedYield regs => exact placed_switch a b inv regs busy done
  | schedKill regs => exact placed_switch _ b (placed_destroy a inv a.runningTask) regs busy done
  | sleep seconds regs => exact placed_switch _ b (placed_doze a inv busy _) regs busy done
  | usleep millis regs => exact placed_switch _ b (placed_doze a inv busy _) regs busy done
  | doScheduling regs => exact placed_tick a b inv regs busy done

structure Tracks (past : List (Call × Globals) × List (Call × View)) (s : State) (a : Abs) : Prop extends Sim past s a where
  placed : Placed a.toView
  busy : a.runningTask ≠ 0

theorem tracks_anew (s : State) (a : Abs) (tracks : Tracks past s a) : Tracks (s.calls, a.calls) s a :=
  ⟨⟨tracks.toRel, .start⟩, tracks.placed, tracks.busy⟩

theorem allowed_abs (s : State) (a : Abs) (sim : Sim past s a) (op : Op) (allowed : Allowed op s) : AllowedAbs op a := by
  cases op with
  | createKernelTask alloc func =>
      cases alloc with
      | made t stack =>
          have live : s.live = a.live := congrArg Shared.live sim.shared
          exact ⟨allowed.1, fun member => allowed.2 (live ▸ member)⟩
      | noTask => trivial
      | noStack => trivial
  | _ => trivial

theorem run_tracks (may : Op → State → Prop) (mayAbs : Op → Abs → Prop)
    (carried : ∀ op s a, Tracks past s a → may op s → mayAbs op a) (s t : State) (a : Abs) (tracks : Tracks past s a)
    (run : Run.Reaches (Step may) s t) : ∃ b, Run.Reaches (AbsStep mayAbs) a b ∧ Tracks past t b := by
  induction run with
  | refl => exact ⟨a, .refl, tracks⟩
  | @tail u v _ last ih =>
      obtain ⟨b, before, tracks⟩ := ih
      obtain ⟨op, allowed, allows, returned⟩ := last
      have allowed' := allowed_abs u b tracks.toSim op allowed
      have sim := sim_exec u b tracks.toSim tracks.placed tracks.busy op allowed
      obtain ⟨c, done, sim'⟩ := simulates_returns _ _ v sim returned
      obtain ⟨placed, busy⟩ := placed_exec b c op tracks.placed tracks.busy allowed' done
      exact ⟨c, before.tail ⟨op, allowed', carried op u b tracks allows, done⟩, ⟨sim', placed, busy⟩⟩

def Abs.booted (s : State) : Abs := { s.toShared with ready := [], asleep := [], calls := [] }

def unlogged : List (Call × Globals) × List (Call × View) := ([], [])

def Abs.started (s : State) (t stack : Word) : Abs :=
  let a := (Abs.booted s).log (.newTask t)
  let a : Abs := { a with nPid := s.nPid + 1, live := t :: s.live }
  let a := a.setTask t (fun _ => { blank s.nPid s.currentPd stack with state := .running })
  { a with runningTask := t, schedulingEnabled := true }

theorem sim_booted (s : State) (booted : Booted s) : Sim unlogged s (Abs.booted s) := by
  refine ⟨⟨rfl, ?_, ?_, nofun, fun t member => ?_⟩, ?_⟩
  · rw [booted.readyHead, booted.readyTail]
    exact queue_empty
  · rw [booted.sleepHead, booted.sleepTail]
    exact queue_empty
  · exact absurd member (by simp [Abs.booted, booted.live])
  · rw [booted.calls]
    exact .start

theorem placed_started (s : State) (booted : Booted s) (t stack : Word) (nonnull : t ≠ 0) :
    Placed (Abs.started s t stack).toView := by
  have live : (Abs.started s t stack).live = [t] := congrArg (t :: ·) booted.live
  refine ⟨?_, ?_, ?_, fun _ => ?_, nofun, nofun, rfl⟩
  · rw [on_cpu_of_ne _ nonnull, live]
    exact .refl _
  · rw [live]
    exact List.nodup_singleton t
  · rw [live]
    exact fun member => nonnull (List.mem_singleton.mp member).symm
  · have own : (Abs.started s t stack).tasks t = { blank s.nPid s.currentPd stack with state := .running } :=
      Function.update_self t _ s.tasks
    change suitsCpu ((Abs.started s t stack).tasks t)
    rw [own]
    exact ⟨nofun, nofun⟩

theorem init_tracks (alloc : Alloc) (s s' : State) (booted : Booted s) (init : schedInit alloc s = .ok s') :
    ∃ t stack, alloc = .made t stack ∧ Tracks unlogged s' (Abs.started s t stack) := by
  have sim := sim_booted s booted
  cases alloc with
  | noTask => cases init
  | noStack => cases init
  | made t stack =>
      by_cases null : t = 0
      · rw [schedInit, newTask, null] at init
        cases init
      · refine ⟨t, stack, rfl, ?_⟩
        have made := sim_new_task s (Abs.booted s) sim t (blank s.nPid s.currentPd stack) (List.not_mem_nil) (List.not_mem_nil)
        have running := sim_set_task _ _ made t (fun task => { task with state := .running })
          (fun task => { task with state := .running }) rfl
        rw [set_task_twice] at running
        rw [schedInit, newTask] at init
        dsimp only at init
        rw [deref_ne t _ null, set_next_same _ t 0 (Function.update_self t 0 s.next)] at init
        cases init
        refine ⟨⟨⟨?_, running.ready, running.asleep, running.apart, running.cleared⟩, running.calls⟩, ?_, null⟩
        · exact congrArg (fun g : Shared => { g with runningTask := t, schedulingEnabled := true }) running.shared
        · exact placed_started s booted t stack null

instance (op : Op) (s : State) : Decidable (Allowed op s) := by
  cases op with
  | createKernelTask alloc func => cases alloc <;> unfold Allowed <;> infer_instance
  | _ => unfold Allowed; infer_instance

instance (op : Op) (s : State) : Decidable (anyOp op s) := inferInstanceAs (Decidable True)

-- A run replayed: these calls one after another, each with this much fuel.
def replay (may : Op → State → Prop) [∀ op s, Decidable (may op s)] (fuel : Nat) : List Op → State → Option State
  | [], s => some s
  | op :: ops, s =>
      if Allowed op s ∧ may op s then
        match (exec op s).run fuel with
        | some (.ok s') => replay may fuel ops s'
        | _ => none
      else none

theorem replay_reaches (may : Op → State → Prop) [∀ op s, Decidable (may op s)] (fuel : Nat) (ops : List Op) (s t : State)
    (played : replay may fuel ops s = some t) : Run.Reaches (Step may) s t := by
  induction ops generalizing s with
  | nil =>
      cases played
      exact .refl
  | cons op ops ih =>
      rw [replay] at played
      split at played
      · rename_i allowed
        split at played
        · rename_i s' returned
          exact .head ⟨op, allowed.1, allowed.2, fuel, returned⟩ (ih s' played)
        · cases played
      · cases played

def zeroed : State :=
  { tasks := fun _ => ⟨0, 0, .stopped, 0, 0, 0, 0, 0, 0, 0⟩, runningTask := 0, schedulingEnabled := false, ticks := 0,
    nPid := 0, currentPd := 0, cpu := ⟨0, 0, 0⟩, live := [], now := 0, next := fun _ => 0, readyHead := 0, readyTail := 0,
    sleepHead := 0, sleepTail := 0, calls := [] }

theorem zeroed_booted : Booted zeroed := ⟨rfl, rfl, rfl, rfl, rfl, rfl, rfl, rfl⟩

end Deimos.Sched
