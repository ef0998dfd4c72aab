import Deimos.Sched.Doomed

set_option autoImplicit false

namespace Deimos.Sched

open Comp LinkedQueue Log

variable {past : List (Call × Globals) × List (Call × View)}

def freshPid (op : Op) (g : Shared) : Prop :=
  match op with
  | .createKernelTask (.made _ _) _ => g.nPid ≠ 0 ∧ g.nPid ∉ g.live.map (fun t => (g.tasks t).pid)
  | _ => True

def DistinctPids (g : Shared) : Prop := ∀ t ∈ g.live, ∀ u ∈ g.live, (g.tasks t).pid = (g.tasks u).pid → t = u

def Spared {γ : Type} (t : Word) (e : Call × γ) : Prop := e.1 ≠ .freeTask t

structure PidsKept (a b : Abs) : Prop where
  pids : ∀ t, (b.tasks t).pid = (a.tasks t).pid
  live : ∀ t ∈ b.live, t ∈ a.live
  stays : ∀ t ∈ a.live, Since (Spared t) a.calls b.calls → t ∈ b.live

theorem pids_kept_set_task (a : Abs) (t : Word) (f : Task → Task) (same : (f (a.tasks t)).pid = (a.tasks t).pid) :
    PidsKept a (a.setTask t f) := ⟨fun u => set_task_field a t u f Task.pid same, fun _ => id, fun _ member _ => member⟩

theorem pids_kept_trans (a b c : Abs) (first : PidsKept a b) (second : PidsKept b c) (grows : Grows a.calls b.calls)
    (grows' : Grows b.calls c.calls) : PidsKept a c := by
  refine ⟨fun t => (second.pids t).trans (first.pids t), fun t member => first.live t (second.live t member), fun t member since => ?_⟩
  obtain ⟨since, since'⟩ := since_parts _ _ _ grows grows' since
  exact second.stays t (first.stays t member since) since'

theorem pids_kept_leave (a b : Abs) (done : a.leave = .ok b) : PidsKept a b := by
  cases leave_cases a b done with
  | running =>
      exact ⟨fun t => set_task_field a a.runningTask t (fun task => { task with state := .ready }) Task.pid rfl, fun _ => id,
        fun _ member _ => member⟩
  | destroy => exact ⟨fun _ => rfl, fun _ => id, fun _ member _ => member⟩
  | sleeping state front sum back =>
      exact ⟨fun t => insert_sleeper_field a t Task.pid (fun _ _ => rfl) a.runningTask _ front back, fun _ => id,
        fun _ member _ => member⟩

theorem pids_kept_reap (a : Abs) (t : Word) (rest : List Word) : PidsKept a (a.reap t rest) := by
  refine ⟨fun _ => rfl, fun _ member => List.mem_of_mem_erase member, fun u member since => ?_⟩
  have other : u ≠ t := by
    rintro rfl
    obtain ⟨later, same, spared⟩ := since
    have newer : [(Call.freeTask u, (a.getNext u rest).toView), (.getNext u, a.toView)] ++ a.calls = later ++ a.calls := same
    have shape := List.append_cancel_right newer
    exact spared (.freeTask u, (a.getNext u rest).toView) (shape ▸ List.mem_cons_self) rfl
  exact (List.mem_erase_of_ne other).mpr member

theorem pids_kept_switch (a b : Abs) (regs : Regs) (done : a.switchTask regs = .ok b) : PidsKept a b := by
  obtain ⟨c, d, t, rest, left, passes, -, -, rfl⟩ := Abs.switch_ok regs a b done
  have saved : PidsKept a (a.saveRegs regs) := pids_kept_set_task a a.runningTask _ rfl
  have begun : PidsKept a c ∧ Grows a.calls c.calls :=
    ⟨pids_kept_trans _ _ _ saved (pids_kept_leave _ c left) (since_refl _) (leave_grows _ c left), leave_grows (a.saveRegs regs) c left⟩
  have reaped : PidsKept a d ∧ Grows a.calls d.calls := by
    refine Run.invariant (fun e : Abs => PidsKept a e ∧ Grows a.calls e.calls) ?_ c d begun passes
    rintro e _ ⟨kept, grows⟩ ⟨u, others, -, -, rfl⟩
    exact ⟨pids_kept_trans _ _ _ kept (pids_kept_reap e u others) grows (reap_grows e u others),
      since_trans _ _ _ grows (reap_grows e u others)⟩
  have dispatched : PidsKept d (d.dispatch t rest) :=
    ⟨fun u => set_task_field d t u (fun task => { task with state := .running }) Task.pid rfl, fun _ => id, fun _ member _ => member⟩
  exact pids_kept_trans _ _ _ reaped.1 dispatched reaped.2 (dispatch_grows d t rest)

theorem pids_kept_update (a : Abs) : PidsKept a a.updateSleepQueue := by
  have lowered : PidsKept a a.lowerHead :=
    ⟨fun t => lowered_field t Task.pid (fun _ _ => rfl) 1 a.tasks a.asleep, fun _ => id, fun _ member _ => member⟩
  refine (Run.invariant (fun e : Abs => PidsKept a e ∧ Grows a.calls e.calls) ?_ a.lowerHead _ ⟨lowered, since_refl _⟩
    (Abs.wake_due_wakes a.lowerHead).1).1
  rintro e _ ⟨kept, grows⟩ ⟨t, rest, -, -, rfl⟩
  have woken : PidsKept e (e.wake t rest) :=
    ⟨fun u => set_task_field e t u (fun task => { task with state := .ready }) Task.pid rfl, fun _ => id, fun _ member _ => member⟩
  have newer : Grows e.calls (e.wake t rest).calls := since_cons _ _ _ trivial (since_cons _ _ _ trivial (since_refl _))
  exact ⟨pids_kept_trans _ _ _ kept woken grows newer, since_trans _ _ _ grows newer⟩

theorem pids_kept_exec (a b : Abs) (op : Op) (done : a.exec op = .ok b) (creates : ∀ t stack func, op ≠ .createKernelTask (.made t stack) func) :
    PidsKept a b := by
  have destroyed : ∀ t, PidsKept a (a.setTask t (fun task => { task with state := .destroy })) := fun t =>
    pids_kept_set_task a t _ rfl
  have dozed : ∀ ticks, PidsKept a (a.doze ticks) := fun ticks => pids_kept_set_task a a.runningTask _ rfl
  have charged : PidsKept a a.charge :=
    ⟨fun u => set_task_field a a.runningTask u (fun task => { task with cpuTime := task.cpuTime + 1 }) Task.pid rfl, fun _ => id,
      fun _ member _ => member⟩
  cases op with
  | createKernelTask alloc func =>
      cases done
      cases alloc with
      | noTask => exact ⟨fun _ => rfl, fun _ => id, fun _ member _ => member⟩
      | noStack => exact ⟨fun _ => rfl, fun _ => id, fun _ member _ => member⟩
      | made t stack => exact absurd rfl (creates t stack func)
  | kill pid =>
      cases done
      unfold Abs.kill
      cases a.findTask pid with
      | none => exact ⟨fun _ => rfl, fun _ => id, fun _ member _ => member⟩
      | some t => exact destroyed t
  | schedYield regs => exact pids_kept_switch a b regs done
  | schedKill regs =>
      exact pids_kept_trans _ _ _ (destroyed a.runningTask) (pids_kept_switch _ b regs done) (since_refl _) (switch_grows _ b regs done)
  | sleep seconds regs => exact pids_kept_trans _ _ _ (dozed _) (pids_kept_switch _ b regs done) (since_refl _) (switch_grows _ b regs done)
  | usleep millis regs => exact pids_kept_trans _ _ _ (dozed _) (pids_kept_switch _ b regs done) (since_refl _) (switch_grows _ b regs done)
  | doScheduling regs =>
      have ticked := pids_kept_trans _ _ _ charged (pids_kept_update a.charge) (since_refl _) (update_grows a.charge)
      exact pids_kept_trans _ _ _ ticked (pids_kept_switch _ b regs done) (update_grows a.charge) (switch_grows _ b regs done)

section Moves

variable (a b : Abs) (op : Op) (allowed : AllowedAbs op a) (done : a.exec op = .ok b)

include allowed done

theorem task_keeps_pid (t : Word) (live : t ∈ a.live) (since : Since (Spared t) a.calls b.calls) :
    t ∈ b.live ∧ (b.tasks t).pid = (a.tasks t).pid := by
  by_cases creates : ∃ u stack func, op = .createKernelTask (.made u stack) func
  · obtain ⟨u, stack, func, rfl⟩ := creates
    cases done
    have same : (a.createKernelTask (.made u stack) func).tasks t = a.tasks t :=
      Function.update_of_ne (ne_of_mem_of_not_mem live allowed.2) _ _
    exact ⟨List.mem_cons_of_mem u live, congrArg Task.pid same⟩
  · have kept := pids_kept_exec a b op done (fun u stack func same => creates ⟨u, stack, func, same⟩)
    exact ⟨kept.stays t live since, kept.pids t⟩

theorem distinct_exec (distinct : DistinctPids a.toShared) (fresh : freshPid op a.toShared) : DistinctPids b.toShared := by
  by_cases creates : ∃ u stack func, op = .createKernelTask (.made u stack) func
  · obtain ⟨u, stack, func, rfl⟩ := creates
    cases done
    have own : ((a.createKernelTask (.made u stack) func).tasks u).pid = a.nPid :=
      congrArg Task.pid (set_task_self a u (fun _ => Abs.created a.nPid a.currentPd stack func))
    have others : ∀ v ∈ a.live, (a.createKernelTask (.made u stack) func).tasks v = a.tasks v := fun v member =>
      Function.update_of_ne (ne_of_mem_of_not_mem member allowed.2) _ _
    intro v member w member' same
    rcases List.mem_cons.mp member with rfl | old <;> rcases List.mem_cons.mp member' with rfl | old'
    · rfl
    · rw [own, others w old'] at same
      exact absurd (same ▸ List.mem_map_of_mem old') fresh.2
    · rw [own, others v old] at same
      exact absurd (same ▸ List.mem_map_of_mem old) fresh.2
    · rw [others v old, others w old'] at same
      exact distinct v old w old' same
  · have kept := pids_kept_exec a b op done (fun u stack func same => creates ⟨u, stack, func, same⟩)
    intro v member w member' same
    rw [kept.pids v, kept.pids w] at same
    exact distinct v (kept.live v member) w (kept.live w member') same

end Moves

structure Named (s : State) (t pid : Word) : Prop where
  live : t ∈ s.live
  found : (findTask pid s).Returns t
  killed : (kill pid s).Returns (s.setTask t (fun task => { task with state := .destroy }))

structure Identified (s : State) : Prop where
  distinct : DistinctPids s.toShared
  named : ∀ t ∈ s.live, Named s t (s.tasks t).pid
  absent : ∀ pid, (∀ t ∈ s.live, (s.tasks t).pid ≠ pid) → (findTask pid s).Returns 0 ∧ (kill pid s).Returns s

section Finding

variable (a : Abs) (inv : Placed a.toView) (busy : a.runningTask ≠ 0)

include inv busy

theorem find_task_named (distinct : DistinctPids a.toShared) (t : Word) (live : t ∈ a.live) :
    a.findTask (a.tasks t).pid = some t := by
  cases found : a.findTask (a.tasks t).pid with
  | none =>
      have somewhere := (inv.live_iff a.toView busy t).mp live
      have absent := List.find?_eq_none.mp found t (by simpa using somewhere)
      exact absurd (decide_eq_true rfl) absent
  | some u =>
      have same : (a.tasks u).pid = (a.tasks t).pid := of_decide_eq_true (List.find?_some found :)
      have live' := find_task_live a inv busy _ u found
      rw [distinct u live' t live same]

theorem find_task_absent (pid : Word) (absent : ∀ t ∈ a.live, (a.tasks t).pid ≠ pid) : a.findTask pid = none := by
  cases found : a.findTask pid with
  | none => rfl
  | some u =>
      have same : (a.tasks u).pid = pid := of_decide_eq_true (List.find?_some found :)
      exact absurd same (absent u (find_task_live a inv busy pid u found))

end Finding

theorem kill_of_find (s : State) (pid t : Word) (found : (findTask pid s).Returns t) :
    (kill pid s).Returns (if t = 0 then s else s.setTask t (fun task => { task with state := .destroy })) := by
  refine (ends_bind_of_returns _ _ _ _ found).mpr ?_
  split
  · exact (ends_pure _ _).mpr rfl
  · exact (ends_pure _ _).mpr rfl

section Tracked

variable (s : State) (a : Abs) (tracks : Tracks past s a)

include tracks

theorem identified (distinct : DistinctPids a.toShared) : Identified s := by
  have shared : s.toShared = a.toShared := tracks.shared
  refine ⟨shared ▸ distinct, fun t member => ?_, fun pid absent => ?_⟩
  · have live : t ∈ a.live := (congrArg Shared.live shared) ▸ member
    have found := find_task_returns s a tracks.toSim (a.tasks t).pid tracks.busy
    rw [find_task_named a tracks.placed tracks.busy distinct t live, Option.getD_some] at found
    have pid : (s.tasks t).pid = (a.tasks t).pid := congrArg (fun tasks => (tasks t).pid) (sim_tasks s a tracks.toSim)
    rw [pid]
    have killed := kill_of_find s _ t found
    rw [if_neg (tracks.placed.live_ne_zero a.toView t live)] at killed
    exact ⟨member, found, killed⟩
  · have found := find_task_returns s a tracks.toSim pid tracks.busy
    have absent' : ∀ t ∈ a.live, (a.tasks t).pid ≠ pid := by
      rw [shared] at absent
      exact absent
    rw [find_task_absent a tracks.placed tracks.busy pid absent', Option.getD_none] at found
    exact ⟨found, kill_of_find s pid 0 found⟩

end Tracked

theorem create_returns (s s' : State) (t stack func : Word) (nonnull : t ≠ 0)
    (returned : (exec (.createKernelTask (.made t stack) func) s).Returns s') :
    createKernelTask (.made t stack) func s = .ok ((s'.tasks t).pid, s') := by
  obtain ⟨⟨pid, s₁⟩, lifted, rest⟩ := (returns_bind _ _ _).mp returned
  have created : createKernelTask (.made t stack) func s = .ok (pid, s₁) := ((ends_lift _ _).mp lifted).symm
  obtain rfl : s₁ = s' := Except.ok.inj ((ends_pure _ _).mp rest).symm
  rw [created]
  rw [createKernelTask, newTask] at created
  dsimp only at created
  rw [if_neg nonnull] at created
  generalize enqueueReadyTask t _ = queued at created
  cases queued with
  | error stop => cases created
  | ok s₂ =>
      obtain ⟨rfl, rfl⟩ := Prod.mk.inj (Except.ok.inj created)
      rfl

theorem created_named (s : State) (a : Abs) (tracks : Tracks past s a) (distinct : DistinctPids a.toShared) (t stack func : Word)
    (allowed : Allowed (.createKernelTask (.made t stack) func) s) :
    ∃ s', createKernelTask (.made t stack) func s = .ok (s.nPid, s') ∧ (s'.tasks t).pid = s.nPid ∧
      Tracks past s' (a.createKernelTask (.made t stack) func) ∧
      (s.nPid ≠ 0 ∧ Identified s' ↔ freshPid (.createKernelTask (.made t stack) func) s.toShared) := by
  have shared : s.toShared = a.toShared := tracks.shared
  have allowed' := allowed_abs s a tracks.toSim _ allowed
  obtain ⟨result, ended, related⟩ := sim_create s a tracks.toSim tracks.placed (.made t stack) func allowed
  cases result with
  | error stop => exact related.elim
  | ok s' =>
      have sim : Sim past s' (a.createKernelTask (.made t stack) func) := related
      obtain ⟨placed, busy⟩ := placed_exec a _ (.createKernelTask (.made t stack) func) tracks.placed tracks.busy allowed' rfl
      have tracks' : Tracks past s' (a.createKernelTask (.made t stack) func) := ⟨sim, placed, busy⟩
      have pids : ∀ u, (s'.tasks u).pid = ((a.createKernelTask (.made t stack) func).tasks u).pid := fun u =>
        congrArg (fun tasks => (tasks u).pid) (sim_tasks s' _ sim)
      have own : (s'.tasks t).pid = s.nPid := by
        rw [pids t, show s.nPid = a.nPid from congrArg Shared.nPid shared]
        exact congrArg Task.pid (set_task_self a t (fun _ => Abs.created a.nPid a.currentPd stack func))
      refine ⟨s', own ▸ create_returns s s' t stack func allowed.1 ended, own, tracks', ?_, fun fresh => ⟨fresh.1, ?_⟩⟩
      · rintro ⟨nonzero, law⟩
        refine ⟨nonzero, fun drawn => ?_⟩
        obtain ⟨u, member, same⟩ := List.mem_map.mp drawn
        have live : s'.live = t :: s.live :=
          (congrArg Shared.live sim.shared).trans (congrArg (t :: ·) (congrArg Shared.live shared).symm)
        have other : u ≠ t := ne_of_mem_of_not_mem member allowed.2
        have kept : (s'.tasks u).pid = (s.tasks u).pid := by
          rw [pids u, show (s.tasks u).pid = (a.tasks u).pid from congrArg (fun tasks => (tasks u).pid) (sim_tasks s a tracks.toSim)]
          exact congrArg Task.pid (Function.update_of_ne other _ _)
        refine other (law.distinct u ?_ t ?_ (kept.trans (same.trans own.symm)))
        · rw [live]
          exact List.mem_cons_of_mem t member
        · rw [live]
          exact List.mem_cons_self
      · exact identified s' _ tracks' (distinct_exec a _ (.createKernelTask (.made t stack) func) allowed' rfl distinct (shared ▸ fresh))

theorem named_later (s u : State) (a : Abs) (tracks : Tracks past s a) (distinct : DistinctPids a.toShared) (t : Word)
    (live : t ∈ s.live) (run : Run.Reaches (Step (fun op v => freshPid op v.toShared)) s u)
    (since : Since (Spared t) s.calls u.calls) : Named u t (s.tasks t).pid := by
  obtain ⟨b, steps, tracks'⟩ := run_tracks (fun op v => freshPid op v.toShared) (fun op c => freshPid op c.toShared)
    (fun op v c along fresh => (show v.toShared = c.toShared from along.shared) ▸ fresh) s u a (tracks_anew s a tracks) run
  have inv : DistinctPids b.toShared ∧ Grows a.calls b.calls ∧
      (Since (Spared t) a.calls b.calls → t ∈ b.live ∧ (b.tasks t).pid = (a.tasks t).pid) := by
    refine Run.invariant (fun c : Abs => DistinctPids c.toShared ∧ Grows a.calls c.calls ∧
      (Since (Spared t) a.calls c.calls → t ∈ c.live ∧ (c.tasks t).pid = (a.tasks t).pid)) ?_ a b ?_ steps
    · rintro c d ⟨distinct, grows, keeps⟩ ⟨op, allowed, fresh, done⟩
      have grows' := exec_grows c d op done
      refine ⟨distinct_exec c d op allowed done distinct fresh, since_trans _ _ _ grows grows', fun since => ?_⟩
      obtain ⟨before, after⟩ := since_parts _ _ _ grows grows' since
      obtain ⟨live, same⟩ := keeps before
      obtain ⟨live', same'⟩ := task_keeps_pid c d op allowed done t live after
      exact ⟨live', same'.trans same⟩
    · exact ⟨distinct, since_refl _, fun _ => ⟨(congrArg Shared.live (show s.toShared = a.toShared from tracks.shared)) ▸ live, rfl⟩⟩
  have since' : Since (Spared t) a.calls b.calls :=
    since_beside (Spared t) _ _ (beside_flip _ _ tracks'.calls) since (fun d c same spared freed => spared (same.1.trans freed))
  obtain ⟨live', same⟩ := inv.2.2 since'
  have pid : (u.tasks t).pid = (s.tasks t).pid := by
    rw [show u.tasks = b.tasks from sim_tasks u b tracks'.toSim, show s.tasks = a.tasks from sim_tasks s a tracks.toSim]
    exact same
  have named := (identified u b tracks' inv.1).named t ((congrArg Shared.live (show u.toShared = b.toShared from tracks'.shared)) ▸ live')
  rwa [pid] at named

theorem started_distinct (s : State) (booted : Booted s) (t stack : Word) : DistinctPids (Abs.started s t stack).toShared := by
  have live : (Abs.started s t stack).live = [t] := congrArg (t :: ·) booted.live
  intro u member v member' _
  rw [live] at member member'
  exact (List.mem_singleton.mp member).trans (List.mem_singleton.mp member').symm

theorem pids_identify (alloc : Alloc) (boot start s : State) (booted : Booted boot) (init : schedInit alloc boot = .ok start)
    (run : Run.Reaches (Step (fun op v => freshPid op v.toShared)) start s) :
    Identified s ∧ ∀ t stack func, Allowed (.createKernelTask (.made t stack) func) s →
      ∃ pid s', createKernelTask (.made t stack) func s = .ok (pid, s') ∧
        (pid ≠ 0 ∧ Identified s' ↔ freshPid (.createKernelTask (.made t stack) func) s.toShared) ∧
        (freshPid (.createKernelTask (.made t stack) func) s.toShared →
          ∀ u, Run.Reaches (Step (fun op v => freshPid op v.toShared)) s' u → Since (Spared t) s'.calls u.calls → Named u t pid) := by
  obtain ⟨first, stack₀, -, tracks⟩ := init_tracks alloc boot start booted init
  obtain ⟨a, steps, tracks⟩ := run_tracks (fun op v => freshPid op v.toShared) (fun op c => freshPid op c.toShared)
    (fun op v c along fresh => (show v.toShared = c.toShared from along.shared) ▸ fresh) start s _ tracks run
  have distinct : DistinctPids a.toShared := by
    refine Run.invariant (fun c : Abs => DistinctPids c.toShared) ?_ _ a (started_distinct boot booted first stack₀) steps
    rintro c d distinct ⟨op, allowed, fresh, done⟩
    exact distinct_exec c d op allowed done distinct fresh
  refine ⟨identified s a tracks distinct, fun t stack func allowed => ?_⟩
  obtain ⟨s', returned, own, tracks', exactly⟩ := created_named s a tracks distinct t stack func allowed
  refine ⟨s.nPid, s', returned, exactly, fun fresh u after since => ?_⟩
  have law := exactly.mpr fresh
  have shared : s'.toShared = (a.createKernelTask (.made t stack) func).toShared := tracks'.shared
  have live : t ∈ s'.live := by
    rw [show s'.live = t :: a.live from congrArg Shared.live shared]
    exact List.mem_cons_self
  exact own ▸ named_later s' u _ tracks' (shared ▸ law.2.distinct) t live after since

instance (op : Op) (g : Shared) : Decidable (freshPid op g) :=
  match op with
  | .createKernelTask .noTask _ | .createKernelTask .noStack _ | .kill _ | .schedYield _ | .schedKill _ | .sleep _ _ | .usleep _ _ |
    .doScheduling _ => inferInstanceAs (Decidable True)
  | .createKernelTask (.made _ _) _ => inferInstanceAs (Decidable (g.nPid ≠ 0 ∧ g.nPid ∉ g.live.map (fun t => (g.tasks t).pid)))

theorem pids_identify_after_kill : ∃ start s, schedInit (.made 0x1000 0x2000) zeroed = .ok start ∧
    replay (fun op v => freshPid op v.toShared) 9 [.createKernelTask (.made 0x9000 0xA000) 0xC0100000,
      .createKernelTask (.made 0xF000 0x11000) 0xC0104000, .kill 1, .schedYield ⟨0xC0101000, 0, 0⟩] start = some s ∧
    s.live = [0xF000, 0x1000] ∧ Identified s := by
  obtain ⟨start, s, init, played, live⟩ : ∃ start s, schedInit (.made 0x1000 0x2000) zeroed = .ok start ∧
      replay (fun op v => freshPid op v.toShared) 9 [.createKernelTask (.made 0x9000 0xA000) 0xC0100000,
        .createKernelTask (.made 0xF000 0x11000) 0xC0104000, .kill 1, .schedYield ⟨0xC0101000, 0, 0⟩] start = some s ∧
      s.live = [0xF000, 0x1000] := ⟨_, _, rfl, rfl, rfl⟩
  exact ⟨start, s, init, played, live, (pids_identify _ _ start s zeroed_booted init (replay_reaches _ _ _ _ _ played)).1⟩

-- Every creation that fails for want of a stack has drawn a pid.
theorem pids_drawn (n : Nat) (s : State) : Run.Reaches (Step anyOp) s { s with nPid := s.nPid + BitVec.ofNat 32 n } := by
  induction n with
  | zero =>
      rw [show s.nPid + BitVec.ofNat 32 0 = s.nPid from BitVec.add_zero s.nPid]
  | succ n ih =>
      refine ih.tail ⟨.createKernelTask .noStack 0, trivial, trivial, 1, ?_⟩
      have next : s.nPid + BitVec.ofNat 32 (n + 1) = s.nPid + BitVec.ofNat 32 n + 1 := by
        rw [BitVec.ofNat_add, BitVec.add_assoc]
        rfl
      rw [next]
      rfl

-- When 2 ^ 32 - 1 of them have failed, the next task gets the pid of the first
-- task, and its creator the 0 of a failure.
theorem pids_wrap : ¬ ∀ (alloc : Alloc) (boot start s : State), Booted boot → schedInit alloc boot = .ok start →
    Run.Reaches (Step anyOp) start s → Identified s ∧ ∀ t stack func, Allowed (.createKernelTask (.made t stack) func) s →
      ∃ pid s', createKernelTask (.made t stack) func s = .ok (pid, s') ∧ pid ≠ 0 := by
  intro law
  obtain ⟨start, init, first, live⟩ : ∃ start, schedInit (.made 0x1000 0x2000) zeroed = .ok start ∧ start.nPid = 1 ∧ start.live = [0x1000] :=
    ⟨_, rfl, rfl, rfl⟩
  have drawn := pids_drawn 0xFFFFFFFF start
  have wrapped : start.nPid + BitVec.ofNat 32 0xFFFFFFFF = 0 := by
    rw [first]
    decide
  rw [wrapped] at drawn
  have allowed : (0x9000 : Word) ≠ 0 ∧ (0x9000 : Word) ∉ start.live := by
    rw [live]
    decide
  obtain ⟨pid, s', created, nonzero⟩ := (law _ _ start _ zeroed_booted init drawn).2 0x9000 0xA000 0xC0100000 allowed
  cases init
  cases created
  exact nonzero rfl

end Deimos.Sched
