import Deimos.Sched.Due

set_option autoImplicit false

namespace Deimos.Sched

open Comp LinkedQueue Log

def keepsKill (t : Word) (op : Op) (s : State) : Prop :=
  match op with
  | .sleep _ _ => s.runningTask = t → (s.tasks t).state ≠ .destroy
  | .usleep _ _ => s.runningTask = t → (s.tasks t).state ≠ .destroy
  | .doScheduling _ => (s.tasks t).state = .destroy →
      ∀ asleep, Queue 0 s.next s.sleepHead s.sleepTail asleep → t ∉ dueNext s.tasks asleep
  | _ => True

def keepsKillAbs (t : Word) (op : Op) (a : Abs) : Prop :=
  match op with
  | .sleep _ _ => a.runningTask = t → (a.tasks t).state ≠ .destroy
  | .usleep _ _ => a.runningTask = t → (a.tasks t).state ≠ .destroy
  | .doScheduling _ => (a.tasks t).state = .destroy → t ∉ dueNext a.tasks a.asleep
  | _ => True

theorem keeps_kill_abs (past : List (Call × Globals) × List (Call × View)) (t : Word) (op : Op) (s : State) (a : Abs)
    (sim : Sim past s a) (keeps : keepsKill t op s) : keepsKillAbs t op a := by
  have running := sim_running s a sim
  have tasks := sim_tasks s a sim
  cases op with
  | sleep seconds regs =>
      unfold keepsKillAbs
      rw [← running, ← tasks]
      exact keeps
  | usleep millis regs =>
      unfold keepsKillAbs
      rw [← running, ← tasks]
      exact keeps
  | doScheduling regs => exact fun destroyed => tasks ▸ keeps (tasks ▸ destroyed) a.asleep sim.asleep
  | _ => trivial

def Quiet {γ : Type} (t : Word) (e : Call × γ) : Prop := e.1 ≠ .dispatch t ∧ e.1 ≠ .freeTask t

structure Doomed (t : Word) (old : List (Call × View)) (a : Abs) : Prop where
  destroyed : (a.tasks t).state = .destroy
  live : t ∈ a.live
  quiet : Since (Quiet t) old a.calls

def Freed {γ : Type} (t : Word) (old calls : List (Call × γ)) : Prop :=
  ∃ g before, Since (Quiet t) old before ∧ Since (fun _ => True) ((.freeTask t, g) :: before) calls

def Gone (t : Word) (old : List (Call × View)) (a : Abs) : Prop := Doomed t old a ∨ Freed t old a.calls

section Moves

variable (t : Word) (old : List (Call × View)) (a b : Abs) (doomed : Doomed t old a)

include doomed

theorem doomed_retask (u : Word) (f : Task → Task) (keeps : u = t → (f (a.tasks t)).state = .destroy) :
    Doomed t old (a.setTask u f) := by
  refine ⟨?_, doomed.live, doomed.quiet⟩
  by_cases here : t = u
  · subst here
    rw [set_task_self]
    exact keeps rfl
  · rw [set_task_other a u t f here]
    exact doomed.destroyed

theorem doomed_log (call : Call) (quiet : call ≠ .dispatch t ∧ call ≠ .freeTask t) : Doomed t old (a.log call) :=
  ⟨doomed.destroyed, doomed.live, since_cons _ _ _ quiet doomed.quiet⟩

theorem doomed_leave (done : a.leave = .ok b) : Doomed t old b := by
  cases leave_cases a b done with
  | running running =>
      have other : a.runningTask ≠ t := by
        rintro same
        rw [same, doomed.destroyed] at running
        cases running
      have kept := doomed_log t old _ (doomed_retask t old a doomed a.runningTask (fun task => { task with state := .ready })
        (fun same => absurd same other)) (.enqueueReady a.runningTask) ⟨nofun, nofun⟩
      exact ⟨kept.destroyed, kept.live, kept.quiet⟩
  | destroy =>
      have kept := doomed_log t old a doomed (.enqueueReady a.runningTask) ⟨nofun, nofun⟩
      exact ⟨kept.destroyed, kept.live, kept.quiet⟩
  | sleeping sleeping before sum after =>
      have state := insert_sleeper_field a t Task.state (fun _ _ => rfl) a.runningTask ((a.tasks a.runningTask).sleepTicks - sum) before after
      exact ⟨state.trans doomed.destroyed, doomed.live, since_cons _ _ _ ⟨nofun, nofun⟩ doomed.quiet⟩

theorem doomed_dispatch (u : Word) (rest : List Word) (spared : (a.tasks u).state ≠ .destroy) : Doomed t old (a.dispatch u rest) := by
  have other : u ≠ t := fun same => spared (same ▸ doomed.destroyed)
  have taken : Doomed t old (a.getNext u rest) := ⟨doomed.destroyed, doomed.live, since_cons _ _ _ ⟨nofun, nofun⟩ doomed.quiet⟩
  have called := doomed_log t old { a.getNext u rest with runningTask := u } ⟨taken.destroyed, taken.live, taken.quiet⟩ (.dispatch u)
    ⟨fun same => other (by cases same; rfl), nofun⟩
  have kept := doomed_retask t old _ called u (fun task => { task with state := .running }) (fun same => absurd same other)
  exact ⟨kept.destroyed, kept.live, kept.quiet⟩

theorem doomed_reap (u : Word) (rest : List Word) : Gone t old (a.reap u rest) := by
  have taken : Since (Quiet t) old (a.getNext u rest).calls := since_cons _ _ _ ⟨nofun, nofun⟩ doomed.quiet
  by_cases here : u = t
  · subst here
    exact .inr ⟨_, _, taken, since_refl _⟩
  · refine .inl ⟨doomed.destroyed, ?_, since_cons _ _ _ ⟨nofun, fun same => here (by cases same; rfl)⟩ taken⟩
    exact (List.mem_erase_of_ne (Ne.symm here)).mpr doomed.live

end Moves

abbrev Grows {γ : Type} (old new : List (Call × γ)) : Prop := Since (fun _ => True) old new

theorem leave_grows (a b : Abs) (done : a.leave = .ok b) : Grows a.calls b.calls := by
  cases leave_cases a b done with
  | running | destroy | sleeping => exact since_cons _ _ _ trivial (since_refl _)

theorem reap_grows (a : Abs) (t : Word) (rest : List Word) : Grows a.calls (a.reap t rest).calls :=
  since_cons _ _ _ trivial (since_cons _ _ _ trivial (since_refl _))

theorem dispatch_grows (a : Abs) (t : Word) (rest : List Word) : Grows a.calls (a.dispatch t rest).calls :=
  since_cons _ _ _ trivial (since_cons _ _ _ trivial (since_refl _))

theorem switch_grows (a b : Abs) (regs : Regs) (done : a.switchTask regs = .ok b) : Grows a.calls b.calls := by
  obtain ⟨c, d, t, rest, left, passes, -, -, rfl⟩ := Abs.switch_ok regs a b done
  have reaped : Grows a.calls d.calls := by
    refine Run.invariant (fun e : Abs => Grows a.calls e.calls) ?_ c d (leave_grows (a.saveRegs regs) c left) passes
    rintro e _ since ⟨u, others, -, -, rfl⟩
    exact since_trans _ _ _ since (reap_grows e u others)
  exact since_trans _ _ _ reaped (dispatch_grows d t rest)

theorem update_grows (a : Abs) : Grows a.calls a.updateSleepQueue.calls := by
  refine Run.invariant (fun e : Abs => Grows a.calls e.calls) ?_ a.lowerHead _ (since_refl _) (Abs.wake_due_wakes a.lowerHead).1
  rintro e _ since ⟨u, others, -, -, rfl⟩
  exact since_cons _ _ _ trivial (since_cons _ _ _ trivial since)

theorem exec_grows (a b : Abs) (op : Op) (done : a.exec op = .ok b) : Grows a.calls b.calls := by
  cases op with
  | createKernelTask alloc func =>
      cases done
      cases alloc with
      | noTask => exact since_refl _
      | noStack => exact since_refl _
      | made t stack => exact since_cons _ _ _ trivial (since_cons _ _ _ trivial (since_refl _))
  | kill pid =>
      cases done
      unfold Abs.kill
      cases a.findTask pid with
      | none => exact since_refl _
      | some t => exact since_refl _
  | schedYield regs => exact switch_grows a b regs done
  | schedKill regs => exact switch_grows (a.setTask a.runningTask (fun task => { task with state := .destroy })) b regs done
  | sleep seconds regs => exact switch_grows (a.doze _) b regs done
  | usleep millis regs => exact switch_grows (a.doze _) b regs done
  | doScheduling regs => exact since_trans _ _ _ (update_grows a.charge) (switch_grows a.charge.updateSleepQueue b regs done)

theorem freed_grows {γ : Type} (t : Word) (old calls calls' : List (Call × γ)) (freed : Freed t old calls) (grows : Grows calls calls') :
    Freed t old calls' := by
  obtain ⟨g, before, quiet, since⟩ := freed
  exact ⟨g, before, quiet, since_trans _ _ _ since grows⟩

section Ops

variable (t : Word) (old : List (Call × View)) (a b : Abs)

theorem doomed_switch (doomed : Doomed t old a) (regs : Regs) (done : a.switchTask regs = .ok b) : Gone t old b := by
  obtain ⟨c, d, u, rest, left, passes, -, spared, rfl⟩ := Abs.switch_ok regs a b done
  have saved := doomed_retask t old a doomed a.runningTask
    (fun task => { task with eip := regs.eip, esp := regs.esp, ebp := regs.ebp }) (fun _ => doomed.destroyed)
  have left' : Doomed t old c := doomed_leave t old _ c saved left
  have reaped : Gone t old d := by
    refine Run.invariant (fun e : Abs => Gone t old e) ?_ c d (.inl left') passes
    rintro e _ gone ⟨u, others, -, -, rfl⟩
    rcases gone with doomed | freed
    · exact doomed_reap t old e doomed u others
    · exact .inr (freed_grows t old _ _ freed (reap_grows e u others))
  rcases reaped with doomed | freed
  · exact .inl (doomed_dispatch t old d doomed u rest spared)
  · exact .inr (freed_grows t old _ _ freed (dispatch_grows d u rest))

theorem doomed_update (doomed : Doomed t old a) (nodup : a.asleep.Nodup) (late : t ∉ dueNext a.tasks a.asleep) :
    Doomed t old a.updateSleepQueue := by
  have lowered : Doomed t old a.lowerHead :=
    ⟨(lowered_field t Task.state (fun _ _ => rfl) 1 a.tasks a.asleep).trans doomed.destroyed, doomed.live, doomed.quiet⟩
  rw [← lower_head_due a nodup] at late
  have kept : ∀ d e : Abs, Run.Reaches Abs.Wakes a.lowerHead d ∧ Doomed t old d → Abs.Wakes d e →
      Run.Reaches Abs.Wakes a.lowerHead e ∧ Doomed t old e := by
    rintro d _ ⟨passes, doomed⟩ last
    obtain ⟨due, woken⟩ := wakes_woken a.lowerHead d passes
    refine ⟨passes.tail last, ?_⟩
    obtain ⟨u, rest, first, zero, rfl⟩ := last
    have shape : a.asleep = due ++ u :: rest := first ▸ woken.asleep
    have other : u ≠ t := by
      rintro rfl
      rw [shape] at late
      refine late (due_member due rest _ u (fun v member => ?_) ?_)
      · exact decide_eq_true (woken.zero v member)
      · exact decide_eq_true ((woken.ticks u).symm.trans zero)
    have called := doomed_log t old { d with asleep := rest } ⟨doomed.destroyed, doomed.live, doomed.quiet⟩ (.wake u) ⟨nofun, nofun⟩
    have readied := doomed_retask t old _ called u (fun task => { task with state := .ready }) (fun same => absurd same other)
    have queued := doomed_log t old _ readied (.enqueueReady u) ⟨nofun, nofun⟩
    exact ⟨queued.destroyed, queued.live, queued.quiet⟩
  exact (Run.invariant _ kept a.lowerHead _ ⟨.refl, lowered⟩ (Abs.wake_due_wakes a.lowerHead).1).2

theorem gone_exec (gone : Gone t old a) (inv : Placed a.toView) (op : Op) (allowed : AllowedAbs op a)
    (may : Freed t old a.calls ∨ keepsKillAbs t op a) (done : a.exec op = .ok b) : Gone t old b := by
  have already : Freed t old a.calls → Gone t old b := fun freed => .inr (freed_grows t old _ _ freed (exec_grows a b op done))
  rcases may with freed | keeps
  · exact already freed
  rcases gone with doomed | freed
  · cases op with
    | createKernelTask alloc func =>
        cases done
        cases alloc with
        | noTask => exact .inl doomed
        | noStack => exact .inl ⟨doomed.destroyed, doomed.live, doomed.quiet⟩
        | made u stack =>
            have other : t ≠ u := ne_of_mem_of_not_mem doomed.live allowed.2
            have same : (a.createKernelTask (.made u stack) func).tasks t = a.tasks t := Function.update_of_ne other _ _
            exact .inl ⟨(congrArg Task.state same).trans doomed.destroyed, List.mem_cons_of_mem u doomed.live,
              since_cons _ _ _ ⟨nofun, nofun⟩ (since_cons _ _ _ ⟨nofun, nofun⟩ doomed.quiet)⟩
    | kill pid =>
        cases done
        unfold Abs.kill
        cases a.findTask pid with
        | none => exact .inl doomed
        | some u => exact .inl (doomed_retask t old a doomed u _ (fun _ => rfl))
    | schedYield regs => exact doomed_switch t old a b doomed regs done
    | schedKill regs => exact doomed_switch t old _ b (doomed_retask t old a doomed a.runningTask _ (fun _ => rfl)) regs done
    | sleep seconds regs =>
        have other : a.runningTask ≠ t := fun same => keeps same doomed.destroyed
        exact doomed_switch t old _ b (doomed_retask t old a doomed a.runningTask _ (fun same => absurd same other)) regs done
    | usleep millis regs =>
        have other : a.runningTask ≠ t := fun same => keeps same doomed.destroyed
        exact doomed_switch t old _ b (doomed_retask t old a doomed a.runningTask _ (fun same => absurd same other)) regs done
    | doScheduling regs =>
        have charged : Doomed t old a.charge := doomed_retask t old { a with ticks := a.ticks + 1, now := a.now + 1 }
          ⟨doomed.destroyed, doomed.live, doomed.quiet⟩ a.runningTask (fun task => { task with cpuTime := task.cpuTime + 1 })
          (fun _ => doomed.destroyed)
        have late : t ∉ dueNext a.charge.tasks a.charge.asleep := by
          rw [due_congr a.tasks a.charge.tasks _ (fun u => set_task_field _ a.runningTask u _ Task.sleepTicks rfl)]
          exact keeps doomed.destroyed
        have nodup : a.charge.asleep.Nodup := (List.nodup_append.mp inv.distinct).2.1
        exact doomed_switch t old _ b (doomed_update t old a.charge charged nodup late) regs done
  · exact already freed

end Ops

theorem quiet_beside (t : Word) (c : Call × Globals) (d : Call × View) (same : SameCall c d) (quiet : Quiet t d) : Quiet t c :=
  ⟨same.1 ▸ quiet.1, same.1 ▸ quiet.2⟩

theorem kill_dooms (s s' : State) (a : Abs) (tracks : Tracks unlogged s a) (pid t : Word) (found : (findTask pid s).Returns t)
    (nonnull : t ≠ 0) (killed : (kill pid s).Returns s') :
    Tracks unlogged s' (a.kill pid) ∧ Doomed t (a.kill pid).calls (a.kill pid) := by
  have finds : a.findTask pid = some t := by
    have same := returns_unique _ _ _ found (find_task_returns s a tracks.toSim pid tracks.busy)
    cases shape : a.findTask pid with
    | none => exact absurd (same.trans (by rw [shape]; rfl)) nonnull
    | some u => rw [same, shape, Option.getD_some]
  obtain ⟨b, done, sim⟩ := simulates_returns _ _ s' (sim_kill s a tracks.toSim tracks.placed tracks.busy pid) killed
  cases done
  obtain ⟨placed, running⟩ := placed_kill a tracks.placed pid
  refine ⟨⟨sim, placed, running ▸ tracks.busy⟩, ?_⟩
  have live := find_task_live a tracks.placed tracks.busy pid t finds
  unfold Abs.kill
  rw [finds]
  exact ⟨congrArg Task.state (set_task_self a t _), live, since_refl _⟩

theorem freed_beside (past : List (Call × Globals) × List (Call × View)) (t : Word) (s : State) (a : Abs) (sim : Sim past s a) : Freed t past.1 s.calls ↔ Freed t past.2 a.calls := by
  constructor
  · rintro ⟨g, older, quiet, later⟩
    obtain ⟨⟨call, v⟩, older', ⟨same, -⟩, quiet', later'⟩ := first_beside (Quiet t) _ _ _ _ (beside_flip _ _ sim.calls) quiet later
      (fun (d : Call × View) c same quiet => (⟨same.1 ▸ quiet.1, same.1 ▸ quiet.2⟩ : Quiet t d))
    cases same
    exact ⟨v, older', quiet', later'⟩
  · rintro ⟨v, older, quiet, later⟩
    obtain ⟨⟨call, g⟩, older', ⟨same, -⟩, quiet', later'⟩ := first_beside (Quiet t) _ _ _ _ sim.calls quiet later (quiet_beside t)
    cases same
    exact ⟨g, older', quiet', later'⟩

theorem kill_kept_of_runs (alloc : Alloc) (boot start s s' u : State) (pid t : Word) (booted : Booted boot)
    (init : schedInit alloc boot = .ok start) (before : Run.Reaches (Step anyOp) start s) (found : (findTask pid s).Returns t)
    (nonnull : t ≠ 0) (killed : (kill pid s).Returns s')
    (after : Run.Reaches (Step (fun op v => Freed t s'.calls v.calls ∨ keepsKill t op v)) s' u) :
    ((u.tasks t).state = .destroy ∧ t ∈ u.live ∧ Since (Quiet t) s'.calls u.calls) ∨ Freed t s'.calls u.calls := by
  obtain ⟨first, stack, -, tracks⟩ := init_tracks alloc boot start booted init
  obtain ⟨a, -, tracks⟩ := run_tracks anyOp (fun _ _ => True) (fun _ _ _ _ _ => trivial) start s _ tracks before
  obtain ⟨tracks, doomed⟩ := kill_dooms s s' a tracks pid t found nonnull killed
  obtain ⟨b, steps, tracks'⟩ := run_tracks _ (fun op c => Freed t (a.kill pid).calls c.calls ∨ keepsKillAbs t op c)
    (fun op s a along => Or.imp (freed_beside _ t s a along.toSim).mp (keeps_kill_abs _ t op s a along.toSim)) s' u _
    (tracks_anew s' _ tracks) after
  have inv : Gone t (a.kill pid).calls b ∧ Placed b.toView ∧ b.runningTask ≠ 0 := by
    refine Run.invariant (fun c : Abs => Gone t (a.kill pid).calls c ∧ Placed c.toView ∧ c.runningTask ≠ 0) ?_ _ b
      ⟨.inl doomed, tracks.placed, tracks.busy⟩ steps
    rintro c d ⟨gone, placed, busy⟩ ⟨op, allowed, keeps, done⟩
    exact ⟨gone_exec t _ c d gone placed op allowed keeps done, placed_exec c d op placed busy allowed done⟩
  rcases inv.1 with doomed | freed
  · refine .inl ⟨(state_eq u b tracks'.toSim t).trans doomed.destroyed, ?_, ?_⟩
    · rw [show u.live = b.live from congrArg Shared.live tracks'.shared]
      exact doomed.live
    · exact since_beside _ _ _ tracks'.calls doomed.quiet (quiet_beside t)
  · exact .inr ((freed_beside _ t u b tracks'.toSim).mpr freed)

theorem kill_kept_of_ready :
    ∃ start s s' u, schedInit (.made 0x1000 0x2000) zeroed = .ok start ∧
      replay anyOp 9 [.createKernelTask (.made 0x9000 0xA000) 0xC0100000] start = some s ∧ (kill 1 s).Returns s' ∧
      (schedYield ⟨0xC0101000, 0, 0⟩ s').Returns u ∧
      (((u.tasks 0x9000).state = .destroy ∧ 0x9000 ∈ u.live ∧ Since (Quiet 0x9000) s'.calls u.calls) ∨
        Freed 0x9000 s'.calls u.calls) := by
  obtain ⟨start, s, s', u, init, played, found, killed, yielded⟩ :
      ∃ start s s' u, schedInit (.made 0x1000 0x2000) zeroed = .ok start ∧
        replay anyOp 9 [.createKernelTask (.made 0x9000 0xA000) 0xC0100000] start = some s ∧
        (findTask 1 s).Returns 0x9000 ∧ (kill 1 s).Returns s' ∧ (schedYield ⟨0xC0101000, 0, 0⟩ s').Returns u :=
    ⟨_, _, _, _, rfl, rfl, ⟨9, rfl⟩, ⟨9, rfl⟩, ⟨9, rfl⟩⟩
  have entered : (0xC0101000 : Word) ≠ 0x12345 := by decide
  exact ⟨start, s, s', u, init, played, killed, yielded,
    kill_kept_of_runs _ _ start s s' u 1 0x9000 zeroed_booted init (replay_reaches _ _ _ _ _ played) found (by decide) killed
      (.single ⟨.schedYield ⟨0xC0101000, 0, 0⟩, entered, .inr trivial, yielded⟩)⟩

theorem freed_history {γ : Type} (t : Word) (old calls : List (Call × γ)) (freed : Freed t old calls) :
    Call.freeTask t ∈ calls.map Prod.fst := by
  obtain ⟨g, before, -, newer, rfl, -⟩ := freed
  simp

theorem kill_lost_at_wake :
    ∃ start s s' u, schedInit (.made 0x1000 0x2000) zeroed = .ok start ∧
      replay anyOp 9 [.createKernelTask (.made 0x9000 0xA000) 0xC0100000, .schedYield ⟨0xC0101000, 0, 0⟩,
        .usleep 0 ⟨0xC0102000, 0, 0⟩] start = some s ∧
      (findTask 1 s).Returns 0x9000 ∧ (kill 1 s).Returns s' ∧
      replay anyOp 9 [.doScheduling ⟨0xC0103000, 0, 0⟩] s' = some u ∧
      (u.tasks 0x9000).state = .running ∧ u.runningTask = 0x9000 ∧ ¬ Freed 0x9000 s'.calls u.calls := by
  refine ⟨_, _, _, _, rfl, rfl, ⟨9, rfl⟩, ⟨9, rfl⟩, rfl, rfl, rfl, fun freed => ?_⟩
  exact absurd (freed_history 0x9000 _ _ freed) (by decide)

end Deimos.Sched
