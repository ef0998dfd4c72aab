import Mathlib.Data.Set.Insert
import Deimos.Lib.Rules
import Deimos.Sched.Model

set_option autoImplicit false

namespace Deimos.Sched

open Comp

-- The scheduler, going where its pointers lead, does not leave K.
structure Sealed (K : Set Word) (s : State) : Prop where
  zero : 0 ∈ K
  running : s.runningTask ∈ K
  readyHead : s.readyHead ∈ K
  readyTail : s.readyTail ∈ K
  sleepHead : s.sleepHead ∈ K
  sleepTail : s.sleepTail ∈ K
  next : ∀ u ∈ K, u ≠ 0 → s.next u ∈ K

structure Aside (K : Set Word) (t link : Word) (task : Task) (s : State) : Prop extends Sealed K s where
  link : s.next t = link
  task : s.tasks t = task
  dead : t ∉ s.live

section Steps

variable {K : Set Word} {t link u v : Word} {task : Task} {s : State}

theorem Aside.log (aside : Aside K t link task s) (call : Call) : Aside K t link task (s.log call) :=
  ⟨⟨aside.zero, aside.running, aside.readyHead, aside.readyTail, aside.sleepHead, aside.sleepTail, aside.next⟩,
    aside.link, aside.task, aside.dead⟩

theorem Aside.setTask (aside : Aside K t link task s) (out : t ∉ K) (known : u ∈ K) (f : Task → Task) : Aside K t link task (s.setTask u f) :=
  ⟨⟨aside.zero, aside.running, aside.readyHead, aside.readyTail, aside.sleepHead, aside.sleepTail, aside.next⟩, aside.link,
    (Function.update_of_ne (ne_of_mem_of_not_mem known out).symm _ _).trans aside.task, aside.dead⟩

theorem Aside.setNext (aside : Aside K t link task s) (out : t ∉ K) (known : u ∈ K) (target : v ∈ K) :
    Aside K t link task (s.setNext u v) := by
  refine ⟨⟨aside.zero, aside.running, aside.readyHead, aside.readyTail, aside.sleepHead, aside.sleepTail, fun w inside nonnull => ?_⟩,
    ?_, aside.task, aside.dead⟩
  · change Function.update s.next u v w ∈ K
    by_cases here : w = u
    · rw [here, Function.update_self]
      exact target
    · rw [Function.update_of_ne here]
      exact aside.next w inside nonnull
  · exact (Function.update_of_ne (ne_of_mem_of_not_mem known out).symm _ _).trans aside.link

theorem Aside.setReady (aside : Aside K t link task s) (head : u ∈ K) (tail : v ∈ K) :
    Aside K t link task { s with readyHead := u, readyTail := v } :=
  ⟨⟨aside.zero, aside.running, head, tail, aside.sleepHead, aside.sleepTail, aside.next⟩, aside.link, aside.task, aside.dead⟩

theorem Aside.setAsleep (aside : Aside K t link task s) (head : u ∈ K) (tail : v ∈ K) :
    Aside K t link task { s with sleepHead := u, sleepTail := v } :=
  ⟨⟨aside.zero, aside.running, aside.readyHead, aside.readyTail, head, tail, aside.next⟩, aside.link, aside.task, aside.dead⟩

theorem Aside.setRunning (aside : Aside K t link task s) (known : u ∈ K) : Aside K t link task { s with runningTask := u } :=
  ⟨⟨aside.zero, known, aside.readyHead, aside.readyTail, aside.sleepHead, aside.sleepTail, aside.next⟩, aside.link, aside.task, aside.dead⟩

theorem yields_deref {α : Type} {post : α → Prop} (pointer : Word) (value : Except Stop α) (yields : pointer ≠ 0 → Yields value post) :
    Yields (deref pointer value) post := by
  by_cases null : pointer = 0
  · rw [deref, if_pos null]
    exact nofun
  · rw [deref_ne _ _ null]
    exact yields null

variable (out : t ∉ K)

include out

theorem aside_enqueue_ready (aside : Aside K t link task s) (known : u ∈ K) :
    Yields (enqueueReadyTask u s) (Aside K t link task) := by
  unfold enqueueReadyTask
  dsimp only
  split
  · exact yields_ok _ ((aside.log _).setReady known known)
  · refine yields_deref _ _ (fun _ => yields_ok _ ?_)
    exact ((aside.log _).setNext out aside.readyTail known).setReady aside.readyHead known

theorem aside_get_next (aside : Aside K t link task s) :
    Yields (getNextReadyTask s) (fun result => result.1 ∈ K ∧ Aside K t link task result.2) := by
  unfold getNextReadyTask
  dsimp only
  split
  · exact nofun
  · rename_i nonnull
    split
    · exact yields_ok _ ⟨aside.readyHead, ((aside.log _).setReady aside.zero aside.zero).setNext out aside.readyHead aside.zero⟩
    · exact yields_ok _ ⟨aside.readyHead,
        ((aside.log _).setReady (aside.next _ aside.readyHead nonnull) aside.readyTail).setNext out aside.readyHead aside.zero⟩

theorem aside_dequeue (aside : Aside K t link task s) :
    (dequeueSleepTask s).1 ∈ K ∧ Aside K t link task (dequeueSleepTask s).2 := by
  unfold dequeueSleepTask
  dsimp only
  split
  · rename_i first
    refine ⟨aside.sleepHead, ?_⟩
    have rest := aside.next _ aside.sleepHead first.1
    split
    · exact (aside.setAsleep rest aside.zero).setNext out aside.sleepHead aside.zero
    · exact (aside.setAsleep rest aside.sleepTail).setNext out aside.sleepHead aside.zero
  · exact ⟨aside.zero, aside⟩

theorem aside_wake_body (aside : Aside K t link task s) :
    Yields (wakeBody s) (Leaves (Aside K t link task) (Aside K t link task)) := by
  obtain ⟨known, aside'⟩ := aside_dequeue out aside
  unfold wakeBody
  dsimp only
  split
  · exact yields_ok _ aside'
  · exact yields_map _ _ _ (aside_enqueue_ready out ((aside'.log _).setTask out known _) known)

theorem aside_update_sleep_queue (aside : Aside K t link task s) : Ensures (updateSleepQueue s) (Aside K t link task) := by
  unfold updateSleepQueue
  dsimp only
  refine ensures_loop (Aside K t link task) (fun _ here => aside_wake_body out here) _ ?_
  split
  · exact aside.setTask out aside.sleepHead _
  · exact aside

theorem aside_insert_between (aside : Aside K t link task s) (x y z delta : Word) (before : x ∈ K) (known : y ∈ K) (behind : z ∈ K) :
    Aside K t link task (insertBetween x y z delta s) := by
  have linked := (aside.setNext out before known).setNext out known behind
  unfold insertBetween
  exact (linked.setTask out known _).setTask out behind _

theorem aside_sleep_body (aside : Aside K t link task s) (y target : Word) (known : y ∈ K) (state : Word × Word × Word)
    (inside : state.2.1 ∈ K ∧ state.2.2 ∈ K) :
    Yields (sleepBody s y target state) (Leaves (fun state => state.2.1 ∈ K ∧ state.2.2 ∈ K)
      (fun result => ∀ s', result = .inl s' → Aside K t link task s')) := by
  obtain ⟨sum, x, z⟩ := state
  unfold sleepBody
  dsimp only
  split
  · exact yields_ok _ nofun
  · rename_i nonnull
    split
    · refine yields_deref _ _ (fun _ => yields_ok _ (fun s' same => ?_))
      cases same
      exact aside_insert_between out aside x y z _ inside.1 known inside.2
    · exact yields_ok _ ⟨inside.2, aside.next z inside.2 nonnull⟩

theorem aside_enqueue_sleep (aside : Aside K t link task s) (y : Word) (known : y ∈ K) :
    Ensures (enqueueSleepTask y s) (Aside K t link task) := by
  have logged := aside.log (.enqueueSleep y)
  unfold enqueueSleepTask
  dsimp only
  split
  · exact ensures_pure _ ((logged.setNext out known aside.zero).setAsleep known known)
  · refine ensures_bind _ _ (ensures_loop _ (aside_sleep_body out logged y _ known) _ ⟨aside.zero, aside.sleepHead⟩) (fun result fine => ?_)
    cases result with
    | inl s' => exact ensures_pure s' (fine s' rfl)
    | inr sum =>
        have linked : Yields (deref s.sleepTail (.ok { (s.log (.enqueueSleep y)).setNext s.sleepTail y with sleepTail := y }))
            (Aside K t link task) :=
          yields_deref _ _ (fun _ => yields_ok _ ((logged.setNext out aside.sleepTail known).setAsleep aside.sleepHead known))
        exact ensures_bind _ _ (ensures_lift _ linked) (fun s' here =>
          ensures_pure _ ((here.setNext out known here.zero).setTask out known _))

theorem aside_select_body (aside : Aside K t link task s) :
    Yields (selectBody s) (Leaves (Aside K t link task) (Aside K t link task)) := by
  refine yields_bind _ _ _ (aside_get_next out aside) (fun result fine => ?_)
  obtain ⟨u, s'⟩ := result
  obtain ⟨known, aside'⟩ := fine
  dsimp only
  split
  · refine yields_ok _ ⟨⟨aside'.zero, aside'.running, aside'.readyHead, aside'.readyTail, aside'.sleepHead, aside'.sleepTail, aside'.next⟩,
      aside'.link, aside'.task, fun member => aside'.dead (List.mem_of_mem_erase member)⟩
  · exact yields_ok _ (aside'.setRunning known)

theorem aside_outgoing (aside : Aside K t link task s) : Ensures (enqueueOutgoing s) (Aside K t link task) := by
  unfold enqueueOutgoing
  split
  · exact ensures_lift _ (aside_enqueue_ready out (aside.setTask out aside.running _) aside.running)
  · exact ensures_lift _ (aside_enqueue_ready out aside aside.running)
  · exact aside_enqueue_sleep out aside s.runningTask aside.running
  · exact ensures_lift _ nofun

theorem aside_switch (aside : Aside K t link task s) (regs : Regs) : Ensures (switchTask regs s) (Aside K t link task) := by
  unfold switchTask
  split
  · exact ensures_pure _ aside
  · refine ensures_bind _ _ (ensures_lift _ (yields_deref _ _ (fun _ => yields_ok _ (aside.setTask out aside.running _)))) (fun s₁ saved => ?_)
    refine ensures_bind _ _ (aside_outgoing out saved) (fun s₂ left => ?_)
    refine ensures_bind _ _ (ensures_loop _ (fun _ here => aside_select_body out here) _ (left.setRunning left.zero)) (fun s₃ selected => ?_)
    have dispatched := (selected.log (.dispatch s₃.runningTask)).setTask out selected.running (fun task => { task with state := .running })
    exact ensures_pure _ ⟨⟨dispatched.zero, dispatched.running, dispatched.readyHead, dispatched.readyTail, dispatched.sleepHead,
      dispatched.sleepTail, dispatched.next⟩, dispatched.link, dispatched.task, dispatched.dead⟩

omit out in
theorem find_task_sealed (here : Sealed K s) (pid : Word) : Ensures (findTask pid s) (· ∈ K) := by
  have walk (head : Word) (known : head ∈ K) : Ensures (loop (findBody s pid) head) (· ∈ K) := by
    refine ensures_loop (· ∈ K) (fun u inside => ?_) head known
    unfold findBody
    split
    · exact yields_ok _ here.zero
    · rename_i nonnull
      split
      · exact yields_ok _ inside
      · exact yields_ok _ (here.next u inside nonnull)
  unfold findTask
  refine ensures_bind _ _ (ensures_lift _ (fun _ _ => trivial)) (fun own _ => ?_)
  split
  · exact ensures_pure _ here.running
  · refine ensures_bind _ _ (walk s.readyHead here.readyHead) (fun u inside => ?_)
    split
    · exact ensures_pure _ inside
    · exact walk s.sleepHead here.sleepHead

theorem aside_kill (aside : Aside K t link task s) (pid : Word) : Ensures (kill pid s) (Aside K t link task) := by
  refine ensures_bind _ _ (find_task_sealed aside.toSealed pid) (fun u known => ?_)
  split
  · exact ensures_pure _ aside
  · exact ensures_pure _ (aside.setTask out known _)

theorem aside_sched_kill (aside : Aside K t link task s) (regs : Regs) : Ensures (schedKill regs s) (Aside K t link task) :=
  ensures_bind _ _ (ensures_lift _ (yields_deref _ _ (fun _ => yields_ok _ (aside.setTask out aside.running _))))
    (fun _ here => aside_switch out here regs)

theorem aside_sleep_for (aside : Aside K t link task s) (ticks : Word) (regs : Regs) :
    Ensures (sleepFor ticks regs s) (Aside K t link task) :=
  ensures_bind _ _ (ensures_lift _ (yields_deref _ _ (fun _ => yields_ok _ (aside.setTask out aside.running _))))
    (fun _ here => aside_switch out here regs)

theorem aside_tick (aside : Aside K t link task s) (regs : Regs) : Ensures (doScheduling regs s) (Aside K t link task) := by
  have counted : Aside K t link task { s with ticks := s.ticks + 1, now := s.now + 1 } :=
    ⟨⟨aside.zero, aside.running, aside.readyHead, aside.readyTail, aside.sleepHead, aside.sleepTail, aside.next⟩, aside.link,
      aside.task, aside.dead⟩
  unfold doScheduling
  dsimp only
  split
  · refine ensures_bind _ _ (ensures_lift _ (yields_deref _ _ (fun _ => yields_ok _ (counted.setTask out counted.running _)))) (fun s₁ charged => ?_)
    exact ensures_bind _ _ (aside_update_sleep_queue out charged) (fun s₂ woken => aside_switch out woken regs)
  · exact ensures_pure _ counted

theorem aside_create (aside : Aside K t link task s) (alloc : Alloc) (func : Word) (other : ∀ stack, alloc ≠ .made t stack) :
    Yields (createKernelTask alloc func s) (fun result => ∃ L, t ∉ L ∧ Aside L t link task result.2) := by
  cases alloc with
  | noTask => exact yields_ok _ ⟨K, out, aside⟩
  | noStack =>
      exact yields_ok _ ⟨K, out, ⟨⟨aside.zero, aside.running, aside.readyHead, aside.readyTail, aside.sleepHead, aside.sleepTail,
        aside.next⟩, aside.link, aside.task, aside.dead⟩⟩
  | made u stack =>
      have different : t ≠ u := fun same => other stack (same ▸ rfl)
      have out' : t ∉ insert u K := fun member => (Set.mem_insert_iff.mp member).elim different out
      have into (v : Word) (member : v ∈ K) : v ∈ insert u K := Set.mem_insert_of_mem u member
      have known : u ∈ insert u K := Set.mem_insert u K
      have made : Aside (insert u K) t link task (newTask (.made u stack) s).2 := by
        refine ⟨⟨into 0 aside.zero, into _ aside.running, into _ aside.readyHead, into _ aside.readyTail, into _ aside.sleepHead,
          into _ aside.sleepTail, fun v inside nonnull => ?_⟩, ?_, ?_, ?_⟩
        · change Function.update s.next u 0 v ∈ insert u K
          by_cases here : v = u
          · rw [here, Function.update_self]
            exact into 0 aside.zero
          · rw [Function.update_of_ne here]
            exact into _ (aside.next v ((Set.mem_insert_iff.mp inside).resolve_left here) nonnull)
        · exact (Function.update_of_ne different _ _).trans aside.link
        · exact (Function.update_of_ne different _ _).trans aside.task
        · exact fun member => (List.mem_cons.mp member).elim different aside.dead
      unfold createKernelTask
      dsimp only
      split
      · exact yields_ok _ ⟨_, out', made⟩
      · exact yields_bind _ _ _ (aside_enqueue_ready out' (made.setTask out' known _) known)
          (fun s' here => yields_ok _ ⟨_, out', here⟩)

theorem aside_exec (aside : Aside K t link task s) (op : Op) (other : ∀ stack func, op ≠ .createKernelTask (.made t stack) func) :
    Ensures (exec op s) (fun s' => ∃ L, t ∉ L ∧ Aside L t link task s') := by
  have stays (comp : Comp Stop State) (kept : Ensures comp (Aside K t link task)) :
      Ensures comp (fun s' => ∃ L, t ∉ L ∧ Aside L t link task s') := fun s' returned => ⟨K, out, kept s' returned⟩
  cases op with
  | createKernelTask alloc func =>
      refine ensures_bind _ _ (ensures_lift _ (aside_create out aside alloc func (fun stack same => ?_))) (fun result here => ensures_pure _ here)
      exact other stack func (same ▸ rfl)
  | kill pid => exact stays _ (aside_kill out aside pid)
  | schedYield regs => exact stays _ (aside_switch out aside regs)
  | schedKill regs => exact stays _ (aside_sched_kill out aside regs)
  | sleep seconds regs => exact stays _ (aside_sleep_for out aside _ regs)
  | usleep millis regs => exact stays _ (aside_sleep_for out aside _ regs)
  | doScheduling regs => exact stays _ (aside_tick out aside regs)

end Steps

end Deimos.Sched
