import Deimos.Sched.Aside
import Deimos.Sched.Run

set_option autoImplicit false

namespace Deimos.Sched

open Comp LinkedQueue

-- The statements of create_kernel_task behind the call of new_task, and
-- those of enqueue_ready_task among them.
inductive CreateAt where
  | newTest | ppid | eip | state | queueTest | head | tail | link | relink | leave
deriving DecidableEq, Repr

inductive CreatePoint where
  | newTask
  | made (t : Word) (here : CreateAt)
  | returned (pid : Word)
deriving DecidableEq, Repr

def CreatePoint.pending : CreatePoint → Option Word
  | .made _ .leave => none
  | .made t _ => some t
  | _ => none

-- One statement. A new task counts as live when the last statement that
-- queues it has run, and until then it is the call's own.
def createStatement (alloc : Alloc) (func : Word) (s : State) : CreatePoint → Except Stop (State × CreatePoint)
  | .newTask =>
      let (t, made) := newTask alloc s
      .ok ({ made with live := s.live }, .made t .newTest)
  | .made t here =>
      match here with
      | .newTest => .ok (s, if t = 0 then .returned 0 else .made t .ppid)
      | .ppid => .ok (s.setTask t ({ · with ppid := 0 }), .made t .eip)
      | .eip => .ok (s.setTask t ({ · with eip := func }), .made t .state)
      | .state => .ok (s.setTask t ({ · with state := .ready }), .made t .queueTest)
      | .queueTest => .ok (s, .made t (if s.readyHead = 0 ∧ s.readyTail = 0 then .head else .link))
      | .head => .ok ({ s with readyHead := t }, .made t .tail)
      | .tail => .ok ({ s with readyTail := t, live := t :: s.live }, .made t .leave)
      | .link => deref s.readyTail (.ok (s.setNext s.readyTail t, .made t .relink))
      | .relink => .ok ({ s with readyTail := t, live := t :: s.live }, .made t .leave)
      | .leave => .ok (s, .returned (s.tasks t).pid)
  | .returned pid => .ok (s, .returned pid)

structure Creation where
  state : State
  caller : Word
  point : CreatePoint

-- The caller goes on by a statement while it has the processor, and a tick
-- can take it away; then others make complete calls and ticks come, until it
-- is the caller's again.
inductive CreateMove (func : Word) (fine : Bool → Creation → Prop) : Creation → Creation → Prop
  | statement (c : Creation) (alloc : Alloc) (s : State) (p : CreatePoint) (turn : c.state.runningTask = c.caller)
      (may : fine true c) (allowed : c.point = .newTask → Allowed (.createKernelTask alloc func) c.state)
      (ran : createStatement alloc func c.state c.point = .ok (s, p)) : CreateMove func fine c ⟨s, c.caller, p⟩
  | tick (c : Creation) (regs : Regs) (s : State) (turn : c.state.runningTask = c.caller) (may : fine false c)
      (entered : regs.eip ≠ 0x12345) (returned : (doScheduling regs c.state).Returns s) : CreateMove func fine c ⟨s, c.caller, c.point⟩
  | other (c : Creation) (op : Op) (s : State) (turn : c.state.runningTask ≠ c.caller) (allowed : Allowed op c.state)
      (apart : ∀ t stack func, c.point.pending = some t → op ≠ .createKernelTask (.made t stack) func)
      (returned : (exec op c.state).Returns s) : CreateMove func fine c ⟨s, c.caller, c.point⟩

-- No tick comes between the two writes of enqueue_ready_task, and the queue
-- it has found empty is empty still when it writes the first of them.
def Steady (goes : Bool) (c : Creation) : Prop :=
  match c.point with
  | .made _ .head => goes = true → c.state.readyHead = 0 ∧ c.state.readyTail = 0
  | .made _ .tail => goes = true
  | .made _ .relink => goes = true
  | _ => True

-- Every live task is in one place, and each queue ends at its tail.
structure InOrder (s : State) (ready asleep : List Word) : Prop where
  readyQueue : Queue 0 s.next s.readyHead s.readyTail ready
  sleepQueue : Queue 0 s.next s.sleepHead s.sleepTail asleep
  places : (s.runningTask :: (ready ++ asleep)).Perm s.live
  nodup : s.live.Nodup
  nonnull : (0 : Word) ∉ s.live
  nextClear : s.next s.runningTask = 0
  runningState : suitsCpu (s.tasks s.runningTask)
  readyState : ∀ t ∈ ready, suitsReady (s.tasks t)
  sleepState : ∀ t ∈ asleep, suitsAsleep (s.tasks t)
  enabled : s.schedulingEnabled = true

section Order

variable {s : State} {ready asleep : List Word}

theorem InOrder.distinct (inOrder : InOrder s ready asleep) : (s.runningTask :: (ready ++ asleep)).Nodup :=
  inOrder.places.nodup_iff.mpr inOrder.nodup

theorem InOrder.running_live (inOrder : InOrder s ready asleep) : s.runningTask ∈ s.live :=
  inOrder.places.mem_iff.mp List.mem_cons_self

theorem InOrder.busy (inOrder : InOrder s ready asleep) : s.runningTask ≠ 0 :=
  fun null => inOrder.nonnull (null ▸ inOrder.running_live)

theorem InOrder.ready_live (inOrder : InOrder s ready asleep) (t : Word) (member : t ∈ ready) : t ∈ s.live :=
  inOrder.places.mem_iff.mp (List.mem_cons_of_mem _ (List.mem_append_left _ member))

theorem InOrder.asleep_live (inOrder : InOrder s ready asleep) (t : Word) (member : t ∈ asleep) : t ∈ s.live :=
  inOrder.places.mem_iff.mp (List.mem_cons_of_mem _ (List.mem_append_right _ member))

theorem InOrder.tracks (inOrder : InOrder s ready asleep) :
    Tracks (s.calls, []) s { s.toShared with ready := ready, asleep := asleep, calls := [] } := by
  have distinct := inOrder.distinct
  rw [List.nodup_cons, List.nodup_append] at distinct
  refine ⟨⟨⟨rfl, inOrder.readyQueue, inOrder.sleepQueue, fun t member other => distinct.2.2.2 t member t other rfl, ?_⟩, .start⟩, ?_, inOrder.busy⟩
  · intro t live unready awake
    rcases List.mem_cons.mp (inOrder.places.mem_iff.mpr live) with rfl | queued
    · exact inOrder.nextClear
    · exact absurd (List.mem_append.mp queued) (not_or.mpr ⟨unready, awake⟩)
  · refine ⟨?_, inOrder.nodup, inOrder.nonnull, fun _ => inOrder.runningState, inOrder.readyState, inOrder.sleepState, inOrder.enabled⟩
    rw [on_cpu_of_ne _ inOrder.busy, List.append_assoc]
    exact inOrder.places

theorem in_order_of_tracks {past : List (Call × Globals) × List (Call × View)} {a : Abs} (tracks : Tracks past s a) :
    InOrder s a.ready a.asleep := by
  have running := sim_running s a tracks.toSim
  have tasks := sim_tasks s a tracks.toSim
  have live : s.live = a.live := congrArg Shared.live tracks.shared
  have apart := tracks.placed.running_apart a.toView tracks.busy
  have places := tracks.placed.places
  rw [on_cpu_of_ne a.toView tracks.busy, List.append_assoc, List.singleton_append, ← running] at places
  refine ⟨tracks.ready, tracks.asleep, live ▸ places, live ▸ tracks.placed.nodup, live ▸ tracks.placed.nonnull, ?_, ?_, ?_, ?_, ?_⟩
  · rw [running]
    exact tracks.cleared _ (tracks.placed.running_live a.toView tracks.busy) apart.1 apart.2
  · rw [running, tasks]
    exact tracks.placed.running tracks.busy
  · rw [tasks]
    exact tracks.placed.ready
  · rw [tasks]
    exact tracks.placed.asleep
  · exact (congrArg Shared.schedulingEnabled tracks.shared).trans tracks.placed.enabled

theorem in_order_exec (inOrder : InOrder s ready asleep) (op : Op) (s' : State) (allowed : Allowed op s) (returned : (exec op s).Returns s') :
    ∃ ready' asleep', InOrder s' ready' asleep' := by
  have tracks := inOrder.tracks
  have sim := sim_exec s _ tracks.toSim tracks.placed tracks.busy op allowed
  obtain ⟨b, done, sim'⟩ := simulates_returns _ _ s' sim returned
  obtain ⟨placed, busy⟩ := placed_exec _ b op tracks.placed tracks.busy (allowed_abs s _ tracks.toSim op allowed) done
  exact ⟨b.ready, b.asleep, in_order_of_tracks ⟨sim', placed, busy⟩⟩

end Order

structure Pending (s : State) (t : Word) : Prop where
  inOrder : ∃ ready asleep, InOrder s ready asleep
  aside : ∃ K, t ∉ K ∧ Aside K t 0 (s.tasks t) s

section Keeping

variable {s : State} {t : Word} {ready asleep : List Word}

theorem Pending.nonnull (pending : Pending s t) : t ≠ 0 := by
  obtain ⟨K, out, aside⟩ := pending.aside
  exact (ne_of_mem_of_not_mem aside.zero out).symm

theorem Pending.dead (pending : Pending s t) : t ∉ s.live := by
  obtain ⟨K, out, aside⟩ := pending.aside
  exact aside.dead

theorem Pending.clear (pending : Pending s t) : s.next t = 0 := by
  obtain ⟨K, out, aside⟩ := pending.aside
  exact aside.link

theorem Pending.exec (pending : Pending s t) (op : Op) (s' : State) (allowed : Allowed op s)
    (apart : ∀ stack func, op ≠ .createKernelTask (.made t stack) func) (returned : (exec op s).Returns s') :
    Pending s' t ∧ s'.tasks t = s.tasks t := by
  obtain ⟨ready, asleep, inOrder⟩ := pending.inOrder
  obtain ⟨K, out, aside⟩ := pending.aside
  obtain ⟨L, out', aside'⟩ := aside_exec out aside op apart s' returned
  refine ⟨⟨in_order_exec inOrder op s' allowed returned, L, out', ?_⟩, aside'.task⟩
  rw [aside'.task]
  exact aside'

theorem Pending.setTask (pending : Pending s t) (f : Task → Task) : Pending (s.setTask t f) t := by
  obtain ⟨ready, asleep, inOrder⟩ := pending.inOrder
  obtain ⟨K, out, aside⟩ := pending.aside
  have others (u : Word) (live : u ∈ s.live) : (s.setTask t f).tasks u = s.tasks u :=
    Function.update_of_ne (ne_of_mem_of_not_mem live aside.dead) _ _
  refine ⟨⟨ready, asleep, inOrder.readyQueue, inOrder.sleepQueue, inOrder.places, inOrder.nodup, inOrder.nonnull, inOrder.nextClear,
    ?_, fun u member => ?_, fun u member => ?_, inOrder.enabled⟩, K, out,
    ⟨aside.zero, aside.running, aside.readyHead, aside.readyTail, aside.sleepHead, aside.sleepTail, aside.next⟩, aside.link, rfl, aside.dead⟩
  · change suitsCpu ((s.setTask t f).tasks s.runningTask)
    rw [others _ inOrder.running_live]
    exact inOrder.runningState
  · rw [others u (inOrder.ready_live u member)]
    exact inOrder.readyState u member
  · rw [others u (inOrder.asleep_live u member)]
    exact inOrder.sleepState u member

theorem links_next {next : Word → Word} {p x : Word} {xs : List Word} (links : Links 0 next p xs 0) (member : x ∈ xs) :
    next x ∈ xs ∨ next x = 0 := by
  obtain ⟨pre, post, rfl⟩ := List.append_of_mem member
  obtain ⟨r, -, -, -, rest⟩ := links_append.mp links
  cases post with
  | nil => exact .inr rest
  | cons y post => exact .inl (by simp [rest.1])

theorem head_known {next : Word → Word} {head tail : Word} {xs : List Word} (queue : Queue 0 next head tail xs) :
    (head = 0 ∨ head ∈ xs) ∧ (tail = 0 ∨ tail ∈ xs) := by
  cases xs with
  | nil => exact ⟨.inl (queue.head_eq_null.mpr rfl), .inl (queue.tail_eq_null.mpr rfl)⟩
  | cons x xs =>
      refine ⟨.inr ?_, .inr (queue.tail_member (List.cons_ne_nil x xs))⟩
      rw [head_cons queue]
      exact List.mem_cons_self

theorem InOrder.sealed (inOrder : InOrder s ready asleep) : Sealed {u | u = 0 ∨ u ∈ s.live} s where
  zero := .inl rfl
  running := .inr inOrder.running_live
  readyHead := (head_known inOrder.readyQueue).1.imp id (inOrder.ready_live _)
  readyTail := (head_known inOrder.readyQueue).2.imp id (inOrder.ready_live _)
  sleepHead := (head_known inOrder.sleepQueue).1.imp id (inOrder.asleep_live _)
  sleepTail := (head_known inOrder.sleepQueue).2.imp id (inOrder.asleep_live _)
  next u known nonnull := by
    rcases List.mem_cons.mp (inOrder.places.mem_iff.mpr (known.resolve_left nonnull)) with rfl | queued
    · exact .inl inOrder.nextClear
    rcases List.mem_append.mp queued with member | member
    · exact (links_next inOrder.readyQueue.links member).symm.imp id (inOrder.ready_live _)
    · exact (links_next inOrder.sleepQueue.links member).symm.imp id (inOrder.asleep_live _)

theorem new_task_pending (inOrder : InOrder s ready asleep) (stack : Word) (nonnull : t ≠ 0) (dead : t ∉ s.live) :
    Pending { (newTask (.made t stack) s).2 with live := s.live } t := by
  have other (u : Word) (live : u ∈ s.live) : u ≠ t := ne_of_mem_of_not_mem live dead
  have links (u : Word) (live : u ∈ s.live) : Function.update s.next t 0 u = s.next u := Function.update_of_ne (other u live) _ _
  have tasks (u : Word) (live : u ∈ s.live) : Function.update s.tasks t (blank s.nPid s.currentPd stack) u = s.tasks u :=
    Function.update_of_ne (other u live) _ _
  have sealed := inOrder.sealed
  refine ⟨⟨ready, asleep, ?_, ?_, inOrder.places, inOrder.nodup, inOrder.nonnull, ?_, ?_, fun u member => ?_, fun u member => ?_, inOrder.enabled⟩,
    {u | u = 0 ∨ u ∈ s.live}, ?_, ⟨sealed.zero, sealed.running, sealed.readyHead, sealed.readyTail, sealed.sleepHead, sealed.sleepTail, ?_⟩,
    ?_, rfl, dead⟩
  · exact inOrder.readyQueue.congr (fun u member => links u (inOrder.ready_live u member))
  · exact inOrder.sleepQueue.congr (fun u member => links u (inOrder.asleep_live u member))
  · exact (links _ inOrder.running_live).trans inOrder.nextClear
  · change suitsCpu (Function.update s.tasks t (blank s.nPid s.currentPd stack) s.runningTask)
    rw [tasks _ inOrder.running_live]
    exact inOrder.runningState
  · change suitsReady (Function.update s.tasks t (blank s.nPid s.currentPd stack) u)
    rw [tasks u (inOrder.ready_live u member)]
    exact inOrder.readyState u member
  · change suitsAsleep (Function.update s.tasks t (blank s.nPid s.currentPd stack) u)
    rw [tasks u (inOrder.asleep_live u member)]
    exact inOrder.sleepState u member
  · exact not_or.mpr ⟨nonnull, dead⟩
  · intro u known present
    change Function.update s.next t 0 u ∈ _
    rw [links u (known.resolve_left present)]
    exact sealed.next u known present
  · exact Function.update_self t 0 s.next

theorem InOrder.push {s' : State} (inOrder : InOrder s ready asleep) (pending : Pending s t) (ready' : suitsReady (s.tasks t))
    (running : s'.runningTask = s.runningTask) (tasks : s'.tasks = s.tasks) (live : s'.live = t :: s.live)
    (enabled : s'.schedulingEnabled = s.schedulingEnabled) (readyQueue : Queue 0 s'.next s'.readyHead s'.readyTail (ready ++ [t]))
    (sleepQueue : Queue 0 s'.next s'.sleepHead s'.sleepTail asleep) (nextClear : s'.next s.runningTask = 0) :
    InOrder s' (ready ++ [t]) asleep := by
  refine ⟨readyQueue, sleepQueue, ?_, ?_, ?_, ?_, ?_, fun u member => ?_, fun u member => ?_, enabled.trans inOrder.enabled⟩
  · rw [running, live]
    refine List.Perm.trans ?_ (inOrder.places.cons t)
    simpa using (List.perm_middle : ((s.runningTask :: ready) ++ t :: asleep).Perm _)
  · rw [live]
    exact List.nodup_cons.mpr ⟨pending.dead, inOrder.nodup⟩
  · rw [live]
    exact List.not_mem_cons_of_ne_of_not_mem pending.nonnull.symm inOrder.nonnull
  · rw [running]
    exact nextClear
  · rw [running, tasks]
    exact inOrder.runningState
  · rw [tasks]
    rcases List.mem_append.mp member with before | last
    · exact inOrder.readyState u before
    · rw [List.mem_singleton.mp last]
      exact ready'
  · rw [tasks]
    exact inOrder.sleepState u member

theorem push_first (pending : Pending s t) (ready' : suitsReady (s.tasks t)) (empty : s.readyHead = 0 ∧ s.readyTail = 0) :
    ∃ ready asleep, InOrder { s with readyHead := t, readyTail := t, live := t :: s.live } ready asleep := by
  obtain ⟨ready, asleep, inOrder⟩ := pending.inOrder
  have none : ready = [] := inOrder.readyQueue.head_eq_null.mp empty.1
  subst none
  have single : Queue 0 s.next t t ([] ++ [t]) := queue_single pending.nonnull pending.clear
  exact ⟨_, asleep, inOrder.push pending ready' rfl rfl rfl rfl single inOrder.sleepQueue inOrder.nextClear⟩

theorem push_behind (pending : Pending s t) (ready' : suitsReady (s.tasks t)) (nonempty : s.readyTail ≠ 0) :
    ∃ ready asleep, InOrder { s.setNext s.readyTail t with readyTail := t, live := t :: s.live } ready asleep := by
  obtain ⟨ready, asleep, inOrder⟩ := pending.inOrder
  have some : ready ≠ [] := fun empty => nonempty (inOrder.readyQueue.tail_eq_null.mpr empty)
  have tail : s.readyTail ∈ ready := inOrder.readyQueue.tail_member some
  have fresh : t ∉ ready := fun member => pending.dead (inOrder.ready_live t member)
  have distinct := inOrder.distinct
  rw [List.nodup_cons, List.nodup_append, List.mem_append, not_or] at distinct
  have awake (u : Word) (member : u ∈ asleep) : u ≠ s.readyTail := fun same => distinct.2.2.2 _ tail u member same.symm
  have running : s.runningTask ≠ s.readyTail := fun same => distinct.1.1 (same ▸ tail)
  refine ⟨_, asleep, inOrder.push pending ready' rfl rfl rfl rfl (queue_push inOrder.readyQueue some fresh pending.nonnull pending.clear) ?_ ?_⟩
  · exact inOrder.sleepQueue.congr (fun u member => Function.update_of_ne (awake u member) _ _)
  · exact (Function.update_of_ne running _ _).trans inOrder.nextClear

end Keeping

-- How far the call has got, and in what order the scheduler is. Between the
-- two writes it is one write away from it.
def Creation.Kept (c : Creation) : Prop :=
  match c.point with
  | .made t here =>
      match here with
      | .newTest => t = 0 ∧ (∃ ready asleep, InOrder c.state ready asleep) ∨ Pending c.state t
      | .ppid | .eip | .state => Pending c.state t
      | .queueTest | .head | .link => Pending c.state t ∧ suitsReady (c.state.tasks t)
      | .tail => c.state.runningTask = c.caller ∧ ∃ s, Pending s t ∧ suitsReady (s.tasks t) ∧ (s.readyHead = 0 ∧ s.readyTail = 0) ∧
          c.state = { s with readyHead := t }
      | .relink => c.state.runningTask = c.caller ∧ ∃ s, Pending s t ∧ suitsReady (s.tasks t) ∧ s.readyTail ≠ 0 ∧
          c.state = s.setNext s.readyTail t
      | .leave => ∃ ready asleep, InOrder c.state ready asleep
  | _ => ∃ ready asleep, InOrder c.state ready asleep

section Moves

variable {func : Word}

theorem statement_kept (c : Creation) (alloc : Alloc) (s : State) (p : CreatePoint) (kept : c.Kept) (turn : c.state.runningTask = c.caller)
    (steady : Steady true c) (allowed : c.point = .newTask → Allowed (.createKernelTask alloc func) c.state)
    (ran : createStatement alloc func c.state c.point = .ok (s, p)) : Creation.Kept ⟨s, c.caller, p⟩ := by
  obtain ⟨s₀, caller, point⟩ := c
  cases point with
  | newTask =>
      obtain ⟨ready, asleep, inOrder⟩ := kept
      cases ran
      cases alloc with
      | noTask => exact .inl ⟨rfl, ready, asleep, inOrder⟩
      | noStack =>
          refine .inl ⟨rfl, ready, asleep, ?_⟩
          exact ⟨inOrder.readyQueue, inOrder.sleepQueue, inOrder.places, inOrder.nodup, inOrder.nonnull, inOrder.nextClear, inOrder.runningState,
            inOrder.readyState, inOrder.sleepState, inOrder.enabled⟩
      | made t stack =>
          obtain ⟨nonnull, dead⟩ := allowed rfl
          exact .inr (new_task_pending inOrder stack nonnull dead)
  | returned pid =>
      cases ran
      exact kept
  | made t here =>
      cases here with
      | newTest =>
          cases ran
          by_cases null : t = 0
          · rw [if_pos null]
            rcases kept with ⟨-, inOrder⟩ | pending
            · exact inOrder
            · exact absurd null pending.nonnull
          · rw [if_neg null]
            exact kept.resolve_left (fun failed => null failed.1)
      | ppid =>
          have pending : Pending s₀ t := kept
          cases ran
          exact pending.setTask (fun task => { task with ppid := 0 })
      | eip =>
          have pending : Pending s₀ t := kept
          cases ran
          exact pending.setTask (fun task => { task with eip := func })
      | state =>
          have pending : Pending s₀ t := kept
          cases ran
          exact ⟨pending.setTask (fun task => { task with state := .ready }), .inl (congrArg Task.state (Function.update_self t _ s₀.tasks))⟩
      | queueTest =>
          cases ran
          by_cases empty : s₀.readyHead = 0 ∧ s₀.readyTail = 0
          · rw [if_pos empty]
            exact kept
          · rw [if_neg empty]
            exact kept
      | head =>
          cases ran
          exact ⟨turn, s₀, kept.1, kept.2, steady rfl, rfl⟩
      | tail =>
          cases ran
          obtain ⟨-, s₁, pending, ready, empty, rfl⟩ := kept
          exact push_first (s := s₁) pending ready empty
      | link =>
          by_cases null : s₀.readyTail = 0
          · simp only [createStatement, deref, if_pos null] at ran
            cases ran
          · simp only [createStatement, deref, if_neg null] at ran
            cases ran
            exact ⟨turn, s₀, kept.1, kept.2, null, rfl⟩
      | relink =>
          cases ran
          obtain ⟨-, s₁, pending, ready, nonempty, rfl⟩ := kept
          exact push_behind (s := s₁) pending ready nonempty
      | leave =>
          cases ran
          exact kept

theorem exec_kept (c : Creation) (op : Op) (s : State) (kept : c.Kept) (away : ∀ t, c.point ≠ .made t .tail ∧ c.point ≠ .made t .relink)
    (allowed : Allowed op c.state) (apart : ∀ t stack func, c.point.pending = some t → op ≠ .createKernelTask (.made t stack) func)
    (returned : (exec op c.state).Returns s) : Creation.Kept ⟨s, c.caller, c.point⟩ := by
  obtain ⟨s₀, caller, point⟩ := c
  have ordered (inOrder : ∃ ready asleep, InOrder s₀ ready asleep) : ∃ ready asleep, InOrder s ready asleep := by
    obtain ⟨ready, asleep, inOrder⟩ := inOrder
    exact in_order_exec inOrder op s allowed returned
  cases point with
  | newTask => exact ordered kept
  | returned pid => exact ordered kept
  | made t here =>
      have mine (waits : here ≠ .leave) : ∀ stack func, op ≠ .createKernelTask (.made t stack) func :=
        fun stack func => apart t stack func (by cases here <;> first | exact absurd rfl waits | rfl)
      cases here with
      | newTest =>
          rcases kept with ⟨null, inOrder⟩ | pending
          · exact .inl ⟨null, ordered inOrder⟩
          · exact .inr (pending.exec op s allowed (mine nofun) returned).1
      | ppid => exact (Pending.exec kept op s allowed (mine nofun) returned).1
      | eip => exact (Pending.exec kept op s allowed (mine nofun) returned).1
      | state => exact (Pending.exec kept op s allowed (mine nofun) returned).1
      | queueTest =>
          obtain ⟨pending, same⟩ := kept.1.exec op s allowed (mine nofun) returned
          exact ⟨pending, same ▸ kept.2⟩
      | head =>
          obtain ⟨pending, same⟩ := kept.1.exec op s allowed (mine nofun) returned
          exact ⟨pending, same ▸ kept.2⟩
      | link =>
          obtain ⟨pending, same⟩ := kept.1.exec op s allowed (mine nofun) returned
          exact ⟨pending, same ▸ kept.2⟩
      | tail => exact absurd rfl (away t).1
      | relink => exact absurd rfl (away t).2
      | leave => exact ordered kept

theorem move_kept (c c' : Creation) (kept : c.Kept) (move : CreateMove func Steady c c') : c'.Kept := by
  cases move with
  | statement alloc s p turn may allowed ran => exact statement_kept c alloc s p kept turn may allowed ran
  | tick regs s turn may entered returned =>
      refine exec_kept c (.doScheduling regs) s kept (fun t => ?_) entered (fun _ _ _ _ => nofun) returned
      unfold Steady at may
      constructor
      · intro here
        rw [here] at may
        exact Bool.noConfusion may
      · intro here
        rw [here] at may
        exact Bool.noConfusion may
  | other op s turn allowed apart returned =>
      refine exec_kept c op s kept (fun t => ?_) allowed apart returned
      unfold Creation.Kept at kept
      constructor
      · intro here
        rw [here] at kept
        exact turn kept.1
      · intro here
        rw [here] at kept
        exact turn kept.1

end Moves

section Replay

instance (goes : Bool) (c : Creation) : Decidable (Steady goes c) := by
  unfold Steady
  split <;> infer_instance

def Op.creates : Op → Bool
  | .createKernelTask _ _ => true
  | _ => false

variable (func : Word) (fine : Bool → Creation → Prop) [∀ goes c, Decidable (fine goes c)] (fuel : Nat)

end Replay

end Deimos.Sched
