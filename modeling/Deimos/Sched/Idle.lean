import Deimos.Sched.Structure

set_option autoImplicit false

namespace Deimos.Sched

open Comp LinkedQueue Log

variable {past : List (Call × Globals) × List (Call × View)}

def idleYields (i : Word) (op : Op) (running : Word) : Prop :=
  match op with
  | .kill pid => pid ≠ 0
  | .schedKill _ => running ≠ i
  | .sleep _ _ => running ≠ i
  | .usleep _ _ => running ≠ i
  | _ => True

instance (i : Word) (op : Op) (running : Word) : Decidable (idleYields i op running) :=
  match op with
  | .createKernelTask _ _ => inferInstanceAs (Decidable True)
  | .kill pid => inferInstanceAs (Decidable (pid ≠ 0))
  | .schedYield _ => inferInstanceAs (Decidable True)
  | .schedKill _ => inferInstanceAs (Decidable (running ≠ i))
  | .sleep _ _ => inferInstanceAs (Decidable (running ≠ i))
  | .usleep _ _ => inferInstanceAs (Decidable (running ≠ i))
  | .doScheduling _ => inferInstanceAs (Decidable True)

structure Idle (i : Word) (a : Abs) : Prop where
  near : a.runningTask = i ∨ i ∈ a.ready
  awake : (a.tasks i).state ≠ .sleeping
  spared : (a.tasks i).state ≠ .destroy
  pid : (a.tasks i).pid = 0

def FairAbs (r : Word) (e : Call × View) : Prop :=
  e.1 ≠ .freeTask r ∧ (∀ t, e.1 = .getNext t → e.2.ready ≠ []) ∧ ∀ t, e.1 = .dispatch t → (e.2.tasks t).state ≠ .destroy

theorem queued_behind (ready : List Word) (r i : Word) (near : r = i ∨ i ∈ ready) (apart : r ∉ ready) :
    ∃ front back, ready ++ [r] = front ++ i :: back ∧ r ∉ front := by
  rcases near with rfl | member
  · exact ⟨ready, [], rfl, apart⟩
  · obtain ⟨front, back, rfl⟩ := List.append_of_mem member
    exact ⟨front, back ++ [r], by simp, fun before => apart (by simp [before])⟩

section Moves

variable (i r : Word) (a b : Abs) (idle : Idle i a)

theorem since_quiet (call : Call) (silent : ∀ t, call ≠ .freeTask t ∧ call ≠ .getNext t ∧ call ≠ .dispatch t) :
    Since (FairAbs r) a.calls ((call, a.toView) :: a.calls) :=
  since_cons _ _ _ ⟨(silent r).1, fun t same => absurd same (silent t).2.1, fun t same => absurd same (silent t).2.2⟩ (since_refl _)

theorem since_get_next (t : Word) (rest : List Word) (first : a.ready = t :: rest) :
    Since (FairAbs r) a.calls (a.getNext t rest).calls :=
  since_cons _ _ _ ⟨nofun, fun _ _ empty => (nomatch first.symm.trans empty), nofun⟩ (since_refl _)

theorem since_reap (t : Word) (rest : List Word) (first : a.ready = t :: rest) (other : t ≠ r) :
    Since (FairAbs r) a.calls (a.reap t rest).calls :=
  since_cons _ _ _ ⟨fun same => other (by cases same; rfl), nofun, nofun⟩ (since_get_next r a t rest first)

theorem since_dispatch (t : Word) (rest : List Word) (first : a.ready = t :: rest) (spared : (a.tasks t).state ≠ .destroy) :
    Since (FairAbs r) a.calls (a.dispatch t rest).calls :=
  since_cons _ _ _ ⟨nofun, nofun, fun u same => by cases same; exact spared⟩ (since_get_next r a t rest first)

include idle

theorem idle_retask (running : b.runningTask = a.runningTask) (ready : b.ready = a.ready)
    (state : (b.tasks i).state = (a.tasks i).state) (pid : (b.tasks i).pid = (a.tasks i).pid) : Idle i b where
  near := by rw [running, ready]; exact idle.near
  awake := state ▸ idle.awake
  spared := state ▸ idle.spared
  pid := pid.trans idle.pid

theorem idle_live (inv : Placed a.toView) (busy : a.runningTask ≠ 0) : i ∈ a.live :=
  (inv.live_iff a.toView busy i).mpr (idle.near.imp Eq.symm .inl)

theorem idle_leave (inv : Placed a.toView) (busy : a.runningTask ≠ 0) (done : a.leave = .ok b) :
    ∃ front back, b.ready = front ++ i :: back ∧ a.runningTask ∉ front ∧ (b.tasks i).state ≠ .sleeping ∧
      (b.tasks i).state ≠ .destroy ∧ (b.tasks i).pid = 0 ∧ Since (FairAbs r) a.calls b.calls := by
  have apart := inv.running_apart a.toView busy
  obtain ⟨front, back, behind, clear⟩ := queued_behind a.ready a.runningTask i idle.near apart.1
  cases leave_cases a b done with
  | running =>
      have pid := set_task_field a a.runningTask i (fun task => { task with state := .ready }) Task.pid rfl
      have state := set_task_state a a.runningTask i (fun task => { task with state := .ready })
      refine ⟨front, back, behind, clear, fun asleep => ?_, fun destroyed => ?_, pid.trans idle.pid,
        since_quiet r _ (.enqueueReady a.runningTask) (fun t => ⟨nofun, nofun, nofun⟩)⟩
      · exact state.elim (fun ready => (nomatch ready.symm.trans asleep)) (fun same => idle.awake (same.symm.trans asleep))
      · exact state.elim (fun ready => (nomatch ready.symm.trans destroyed)) (fun same => idle.spared (same.symm.trans destroyed))
  | destroy =>
      exact ⟨front, back, behind, clear, idle.awake, idle.spared, idle.pid,
        since_quiet r a (.enqueueReady a.runningTask) (fun t => ⟨nofun, nofun, nofun⟩)⟩
  | sleeping sleeping before sum after =>
      have other : a.runningTask ≠ i := fun same => idle.awake (same ▸ sleeping)
      obtain ⟨front, back, shape⟩ := List.append_of_mem (idle.near.resolve_left other)
      have state := insert_sleeper_field a i Task.state (fun _ _ => rfl) a.runningTask ((a.tasks a.runningTask).sleepTicks - sum) before after
      have pid := insert_sleeper_field a i Task.pid (fun _ _ => rfl) a.runningTask ((a.tasks a.runningTask).sleepTicks - sum) before after
      exact ⟨front, back, shape, fun member => apart.1 (by simp [shape, member]), state ▸ idle.awake, state ▸ idle.spared,
        pid.trans idle.pid, since_quiet r a (.enqueueSleep a.runningTask) (fun t => ⟨nofun, nofun, nofun⟩)⟩

omit idle

theorem idle_select (front back : List Word) (first : a.ready = front ++ i :: back) (clear : r ∉ front)
    (awake : (a.tasks i).state ≠ .sleeping) (spared : (a.tasks i).state ≠ .destroy) (pid : (a.tasks i).pid = 0) :
    ∃ b v rest, a.select (front ++ i :: back) = .ok b ∧ Idle i b ∧ Since (FairAbs r) a.calls b.calls ∧
      b.calls = (.dispatch b.runningTask, v) :: rest := by
  have sound : ∀ (a : Abs) t rest, a.ready = t :: rest → i ∈ t :: rest → (a.tasks t).state ≠ .destroy → (a.tasks i).state ≠ .sleeping →
      (a.tasks i).state ≠ .destroy → (a.tasks i).pid = 0 → Idle i (a.dispatch t rest) := by
    intro a t rest first member _ awake spared pid
    have state := set_task_state a t i (fun task => { task with state := .running })
    refine ⟨(List.mem_cons.mp member).imp Eq.symm id, fun asleep => ?_, fun destroyed => ?_, ?_⟩
    · exact state.elim (fun running => nomatch running.symm.trans asleep) (fun same => awake (same.symm.trans asleep))
    · exact state.elim (fun running => nomatch running.symm.trans destroyed) (fun same => spared (same.symm.trans destroyed))
    · exact (set_task_field a t i (fun task => { task with state := .running }) Task.pid rfl).trans pid
  induction front generalizing a with
  | nil =>
      rw [List.nil_append, Abs.select, if_neg spared]
      exact ⟨_, _, _, rfl, sound a i back first List.mem_cons_self spared awake spared pid, since_dispatch r a i back first spared, rfl⟩
  | cons t front ih =>
      rw [List.cons_append, Abs.select]
      have member : i ∈ t :: (front ++ i :: back) := by simp
      split
      · obtain ⟨b, v, rest, done, idle, since, dispatched⟩ := ih (a.reap t (front ++ i :: back)) rfl
          (fun before => clear (by simp [before])) awake spared pid
        refine ⟨b, v, rest, done, idle, since_trans _ _ _ (since_reap r a t _ first (fun same => clear (by simp [same]))) since, dispatched⟩
      · rename_i kept
        exact ⟨_, _, _, rfl, sound a t _ first member kept awake spared pid, since_dispatch r a t _ first kept, rfl⟩

structure FairResult (r : Word) (result : Except Stop Abs) : Prop where
  stops : ∀ stop, result = .error stop → stop = .fault
  idle : ∀ b, result = .ok b → Idle i b
  since : ∀ b, result = .ok b → Since (FairAbs r) a.calls b.calls
  dispatched : ∀ b, result = .ok b → ∃ v rest, b.calls = (.dispatch b.runningTask, v) :: rest

include idle

theorem idle_switch (inv : Placed a.toView) (busy : a.runningTask ≠ 0) (regs : Regs) :
    FairResult i a a.runningTask (a.switchTask regs) := by
  have placed : Placed (a.saveRegs regs).toView := placed_set_task a inv a.runningTask _ rfl
  have idle' : Idle i (a.saveRegs regs) :=
    idle_retask i a _ idle rfl rfl (set_task_field a _ i _ Task.state rfl) (set_task_field a _ i _ Task.pid rfl)
  unfold Abs.switchTask
  cases left : (a.saveRegs regs).leave with
  | error e =>
      have fault := leave_stops _ (placed.running busy) e left
      exact ⟨fun stop same => by cases same; exact fault, nofun, nofun, nofun⟩
  | ok c =>
      obtain ⟨front, back, shape, clear, awake, spared, pid, queued⟩ := idle_leave i a.runningTask _ c idle' placed busy left
      obtain ⟨b, v, rest, done, idle'', freed, dispatched⟩ := idle_select i a.runningTask c front back shape clear awake spared pid
      have result : (.ok c >>= fun a : Abs => a.select a.ready) = Except.ok b := (congrArg c.select shape).trans done
      rw [result]
      refine ⟨nofun, fun d same => ?_, fun d same => ?_, fun d same => ?_⟩
      · cases same
        exact idle''
      · cases same
        exact since_trans _ _ _ queued freed
      · cases same
        exact ⟨v, rest, dispatched⟩

theorem idle_update_sleep_queue (inv : Placed a.toView) (busy : a.runningTask ≠ 0) :
    Idle i a.updateSleepQueue ∧ Since (FairAbs r) a.calls a.updateSleepQueue.calls := by
  have lowered : Idle i a.lowerHead := idle_retask i a _ idle rfl rfl (lowered_field i Task.state (fun _ _ => rfl) 1 _ _)
    (lowered_field i Task.pid (fun _ _ => rfl) 1 _ _)
  have kept : ∀ d e : Abs, (Placed d.toView ∧ d.runningTask ≠ 0) ∧ Idle i d ∧ Since (FairAbs r) a.calls d.calls → Abs.Wakes d e →
      (Placed e.toView ∧ e.runningTask ≠ 0) ∧ Idle i e ∧ Since (FairAbs r) a.calls e.calls := by
    rintro d _ ⟨⟨placed, busy⟩, idle, since⟩ ⟨t, rest, first, due, rfl⟩
    have other : i ≠ t := by
      rintro rfl
      rcases idle.near with same | member
      · exact (placed.running_apart d.toView busy).2 (by simp [first, same])
      · exact placed.apart d.toView i member (by simp [first])
    have same : (d.wake t rest).tasks i = d.tasks i := Function.update_of_ne other _ _
    refine ⟨⟨placed_wake d placed t rest first, busy⟩, ⟨idle.near.imp id (List.mem_append_left _), ?_, ?_, ?_⟩, ?_⟩
    · rw [same]
      exact idle.awake
    · rw [same]
      exact idle.spared
    · rw [same]
      exact idle.pid
    · exact since_cons _ _ _ ⟨nofun, nofun, nofun⟩ (since_cons _ _ _ ⟨nofun, nofun, nofun⟩ since)
  exact (Run.invariant _ kept a.lowerHead _ ⟨⟨placed_lower_head a inv, busy⟩, lowered, since_refl _⟩
    (Abs.wake_due_wakes a.lowerHead).1).2

end Moves

def switches : Op → Prop
  | .createKernelTask _ _ => False
  | .kill _ => False
  | _ => True

theorem idle_exec (i : Word) (a : Abs) (idle : Idle i a) (inv : Placed a.toView) (busy : a.runningTask ≠ 0) (op : Op)
    (allowed : AllowedAbs op a) (yields : idleYields i op a.runningTask) :
    (∀ stop, a.exec op = .error stop → stop = .fault) ∧ ∀ b, a.exec op = .ok b →
      Idle i b ∧ Since (FairAbs a.runningTask) a.calls b.calls ∧ (switches op → ∃ v rest, b.calls = (.dispatch b.runningTask, v) :: rest) := by
  have spelled : ∀ result c, Since (FairAbs a.runningTask) a.calls c.calls → FairResult i c a.runningTask result →
      (∀ stop, result = .error stop → stop = .fault) ∧ ∀ b, result = .ok b → Idle i b ∧ Since (FairAbs a.runningTask) a.calls b.calls ∧
        (switches op → ∃ v rest, b.calls = (.dispatch b.runningTask, v) :: rest) := fun result c before fair =>
    ⟨fair.stops, fun b done => ⟨fair.idle b done, since_trans _ _ _ before (fair.since b done), fun _ => fair.dispatched b done⟩⟩
  have others : ∀ f : Task → Task, a.runningTask ≠ i → Idle i (a.setTask a.runningTask f) := by
    intro f other
    have same : (a.setTask a.runningTask f).tasks i = a.tasks i := set_task_other a a.runningTask i f other.symm
    exact idle_retask i a _ idle rfl rfl (congrArg Task.state same) (congrArg Task.pid same)
  cases op with
  | createKernelTask alloc func =>
      refine ⟨nofun, fun b done => ?_⟩
      cases done
      cases alloc with
      | noTask => exact ⟨idle, since_refl _, False.elim⟩
      | noStack => exact ⟨idle_retask i a _ idle rfl rfl rfl rfl, since_refl _, False.elim⟩
      | made t stack =>
          have other : i ≠ t := ne_of_mem_of_not_mem (idle_live i a idle inv busy) allowed.2
          have same : (a.createKernelTask (.made t stack) func).tasks i = a.tasks i := Function.update_of_ne other _ _
          refine ⟨⟨idle.near.imp id (List.mem_append_left _), ?_, ?_, ?_⟩, ?_, False.elim⟩
          · rw [same]
            exact idle.awake
          · rw [same]
            exact idle.spared
          · rw [same]
            exact idle.pid
          · exact since_cons _ _ _ ⟨nofun, nofun, nofun⟩ (since_cons _ _ _ ⟨nofun, nofun, nofun⟩ (since_refl _))
  | kill pid =>
      refine ⟨nofun, fun b done => ?_⟩
      cases done
      refine ⟨?_, ?_, False.elim⟩
      · unfold Abs.kill
        cases found : a.findTask pid with
        | none => exact idle
        | some t =>
            have pids : (a.tasks t).pid = pid := by simpa using List.find?_some found
            have other : i ≠ t := fun same => yields (pids.symm.trans (same ▸ idle.pid))
            have same := set_task_other a t i (fun task => { task with state := .destroy }) other
            exact idle_retask i a _ idle rfl rfl (congrArg Task.state same) (congrArg Task.pid same)
      · unfold Abs.kill
        cases a.findTask pid with
        | none => exact since_refl _
        | some t => exact since_refl _
  | schedYield regs => exact spelled _ a (since_refl _) (idle_switch i a idle inv busy regs)
  | schedKill regs =>
      exact spelled _ (a.setTask a.runningTask (fun task => { task with state := .destroy })) (since_refl _)
        (idle_switch i _ (others _ yields) (placed_destroy a inv a.runningTask) busy regs)
  | sleep seconds regs =>
      exact spelled _ (a.doze _) (since_refl _) (idle_switch i _ (others _ yields) (placed_doze a inv busy _) busy regs)
  | usleep millis regs =>
      exact spelled _ (a.doze _) (since_refl _) (idle_switch i _ (others _ yields) (placed_doze a inv busy _) busy regs)
  | doScheduling regs =>
      have charged : Idle i a.charge :=
        idle_retask i a _ idle rfl rfl (set_task_field _ _ i _ Task.state rfl) (set_task_field _ _ i _ Task.pid rfl)
      obtain ⟨placed, busy'⟩ := placed_update_sleep_queue a.charge (placed_charge a inv) busy
      obtain ⟨idle', since⟩ := idle_update_sleep_queue i a.runningTask a.charge charged (placed_charge a inv) busy
      have fair := idle_switch i _ idle' placed busy' regs
      rw [Abs.update_running] at fair
      exact spelled _ _ since fair

theorem idle_started (s : State) (booted : Booted s) (t stack : Word) : Idle t (Abs.started s t stack) := by
  have own : (Abs.started s t stack).tasks t = { blank s.nPid s.currentPd stack with state := .running } :=
    Function.update_self t _ s.tasks
  refine ⟨.inl rfl, ?_, ?_, ?_⟩
  · rw [own]
    nofun
  · rw [own]
    nofun
  · rw [own]
    exact booted.nPid

def Fair (r : Word) (e : Call × Globals) : Prop :=
  e.1 ≠ .freeTask r ∧ (∀ t, e.1 = .getNext t → e.2.readyHead ≠ 0) ∧ ∀ t, e.1 = .dispatch t → (e.2.tasks t).state ≠ .destroy

theorem fair_beside (r : Word) (c : Call × Globals) (d : Call × View) (same : SameCall c d) (fair : FairAbs r d) : Fair r c := by
  obtain ⟨call, rel⟩ := same
  obtain ⟨spares, filled, sound⟩ := fair
  refine ⟨call ▸ spares, fun t taken empty => ?_, fun t dispatched => ?_⟩
  · exact filled t (call ▸ taken) (rel.ready.head_eq_null.mp empty)
  · rw [show c.2.tasks = d.2.tasks from congrArg Shared.tasks rel.shared]
    exact sound t (call ▸ dispatched)

theorem scheduler_never_dry (alloc : Alloc) (boot start s : State) (booted : Booted boot)
    (init : schedInit alloc boot = .ok start)
    (run : Run.Reaches (Step (fun op s => idleYields start.runningTask op s.runningTask)) start s) (op : Op)
    (allowed : Allowed op s) (yields : idleYields start.runningTask op s.runningTask) :
    ¬ (exec op s).Ends (.error (.panic "sched: ready queue should never be empty!")) ∧ ¬ (exec op s).Diverges ∧
      ∀ s', (exec op s).Returns s' → Since (Fair s.runningTask) s.calls s'.calls ∧
        (switches op → ∃ g rest, s'.calls = (.dispatch s'.runningTask, g) :: rest) := by
  obtain ⟨t, stack, -, tracks⟩ := init_tracks alloc boot start booted init
  have first : start.runningTask = t := sim_running start _ tracks.toSim
  rw [first] at run yields
  obtain ⟨a, steps, tracks'⟩ := run_tracks (fun op s => idleYields t op s.runningTask) (fun op a => idleYields t op a.runningTask)
    (fun op s a along may => sim_running s a along.toSim ▸ may) start s _ tracks run
  have inv : Idle t a ∧ Placed a.toView ∧ a.runningTask ≠ 0 := by
    refine Run.invariant (fun a : Abs => Idle t a ∧ Placed a.toView ∧ a.runningTask ≠ 0) ?_ _ a
      ⟨idle_started boot booted t stack, tracks.placed, tracks.busy⟩ steps
    rintro c d ⟨idle, placed, busy⟩ ⟨op, allowed, yields, done⟩
    exact ⟨((idle_exec t c idle placed busy op allowed yields).2 d done).1, placed_exec c d op placed busy allowed done⟩
  have anew := (tracks_anew s a tracks').toSim
  have sim := sim_exec s a anew inv.2.1 inv.2.2 op allowed
  obtain ⟨stops, goesOn⟩ := idle_exec t a inv.1 inv.2.1 inv.2.2 op (allowed_abs s a anew op allowed)
    (sim_running s a anew ▸ yields)
  refine ⟨fun ended => ?_, fun never => ?_, fun s' returned => ?_⟩
  · cases stops _ (simulates_stops _ _ _ sim ended)
  · obtain ⟨result, ended, -⟩ := sim
    exact (Comp.diverges_iff _).mp never result ended
  · obtain ⟨b, done, sim'⟩ := simulates_returns _ _ s' sim returned
    obtain ⟨-, since, dispatched⟩ := goesOn b done
    rw [← sim_running s a anew] at since
    refine ⟨since_beside _ _ _ sim'.calls since (fair_beside s.runningTask), fun switched => ?_⟩
    obtain ⟨v, rest, newest⟩ := dispatched switched
    obtain ⟨c, done', sim''⟩ :=
      simulates_returns _ _ s' (sim_exec s a tracks'.toSim inv.2.1 inv.2.2 op allowed) returned
    cases done.symm.trans done'
    have calls := sim_calls s' b sim''
    rw [newest] at calls
    obtain ⟨⟨call, g⟩, rest', ⟨same, -⟩, -, shape⟩ := List.forall₂_cons_right_iff.mp calls
    rw [sim_running s' b sim']
    exact ⟨g, rest', shape.trans (by rw [show call = _ from same])⟩

theorem scheduler_not_dry_after_kill :
    ∃ start s, schedInit (.made 0x1000 0x2000) zeroed = .ok start ∧
      replay (fun op s => idleYields start.runningTask op s.runningTask) 9 [.createKernelTask (.made 0x9000 0xA000) 0xC0100000,
        .schedYield ⟨0xC0101000, 0, 0⟩, .kill 1] start = some s ∧
      ¬ (exec (.doScheduling ⟨0xC0103000, 0, 0⟩) s).Ends (.error (.panic "sched: ready queue should never be empty!")) := by
  obtain ⟨start, init⟩ : ∃ start, schedInit (.made 0x1000 0x2000) zeroed = .ok start := ⟨_, rfl⟩
  cases played : replay (fun op s => idleYields start.runningTask op s.runningTask) 9
      [.createKernelTask (.made 0x9000 0xA000) 0xC0100000, .schedYield ⟨0xC0101000, 0, 0⟩, .kill 1] start with
  | none =>
      cases init
      exact absurd played (by decide)
  | some s =>
      exact ⟨start, s, init, played, (scheduler_never_dry _ _ start s zeroed_booted init (replay_reaches _ _ _ _ _ played)
        (.doScheduling ⟨0xC0103000, 0, 0⟩) (show (0xC0103000 : Word) ≠ 0x12345 by decide) trivial).1⟩

end Deimos.Sched
