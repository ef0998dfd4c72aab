import Deimos.Lib.Run
import Deimos.Lib.Queue
import Deimos.Lib.Rules
import Deimos.Sched.Placed

set_option autoImplicit false

namespace Deimos.Sched

open Comp LinkedQueue

structure Rel (g : Globals) (v : View) : Prop where
  shared : g.toShared = v.toShared
  ready : Queue 0 g.next g.readyHead g.readyTail v.ready
  asleep : Queue 0 g.next g.sleepHead g.sleepTail v.asleep
  apart : ∀ t ∈ v.ready, t ∉ v.asleep
  cleared : ∀ t ∈ v.live, t ∉ v.ready → t ∉ v.asleep → g.next t = 0

def SameCall (c : Call × Globals) (d : Call × View) : Prop := c.1 = d.1 ∧ Rel c.2 d.2

structure BothQueues (g : Globals) (ready asleep : List Word) : Prop where
  readyQueue : Queue 0 g.next g.readyHead g.readyTail ready
  sleepQueue : Queue 0 g.next g.sleepHead g.sleepTail asleep
  apart : ∀ t ∈ ready, t ∉ asleep

theorem Rel.both {g : Globals} {v : View} (rel : Rel g v) : BothQueues g v.ready v.asleep := ⟨rel.ready, rel.asleep, rel.apart⟩

section Moving

variable (s : State) {ready asleep rest : List Word} (t : Word)

theorem enqueue_ready_returns (both : BothQueues s.toGlobals ready asleep) (nonnull : t ≠ 0) (unready : t ∉ ready)
    (awake : t ∉ asleep) (clear : s.next t = 0) :
    ∃ s', enqueueReadyTask t s = .ok s' ∧ BothQueues s'.toGlobals (ready ++ [t]) asleep ∧ s'.toShared = s.toShared ∧
      s'.calls = (.enqueueReady t, s.toGlobals) :: s.calls ∧ ∀ u, u ∉ ready → s'.next u = s.next u := by
  have apart : ∀ u ∈ ready ++ [t], u ∉ asleep := by
    intro u member
    rcases List.mem_append.mp member with before | last
    · exact both.apart u before
    · rwa [List.mem_singleton.mp last]
  by_cases empty : ready = []
  · have headNull : s.readyHead = 0 := both.readyQueue.head_eq_null.mpr empty
    have tailNull : s.readyTail = 0 := both.readyQueue.tail_eq_null.mpr empty
    refine ⟨{ s.log (.enqueueReady t) with readyHead := t, readyTail := t }, if_pos ⟨headNull, tailNull⟩,
      ⟨?_, both.sleepQueue, apart⟩, rfl, rfl, fun _ _ => rfl⟩
    change Queue 0 s.next t t (ready ++ [t])
    rw [empty]
    exact queue_single nonnull clear
  · have tailNonnull : s.readyTail ≠ 0 := fun null => empty (both.readyQueue.tail_eq_null.mp null)
    have tailMember : s.readyTail ∈ ready := both.readyQueue.tail_member empty
    refine ⟨{ (s.log (.enqueueReady t)).setNext s.readyTail t with readyTail := t }, ?_,
      ⟨queue_push both.readyQueue empty unready nonnull clear, ?_, apart⟩, rfl, rfl, fun u outside => ?_⟩
    · exact (if_neg (fun both => tailNonnull both.2)).trans (deref_ne s.readyTail _ tailNonnull)
    · exact both.sleepQueue.congr (fun u member => Function.update_of_ne
        (ne_of_mem_of_not_mem member (both.apart s.readyTail tailMember)) _ _)
    · exact Function.update_of_ne (ne_of_mem_of_not_mem tailMember outside).symm _ _

theorem dequeue_sleep_returns (both : BothQueues s.toGlobals ready (t :: rest)) (due : (s.tasks t).sleepTicks = 0) :
    ∃ s', dequeueSleepTask s = (t, s') ∧ BothQueues s'.toGlobals ready rest ∧ s'.toShared = s.toShared ∧ s'.calls = s.calls ∧
      s'.next = Function.update s.next t 0 := by
  have head : s.sleepHead = t := head_cons both.sleepQueue
  have nonnull : t ≠ 0 := both.sleepQueue.nonnull List.mem_cons_self
  have popped := queue_pop both.sleepQueue
  have unready : ∀ u ∈ ready, u ≠ t := fun u member same => both.apart u member (by simp [same])
  have others : Queue 0 (Function.update s.next t 0) s.readyHead s.readyTail ready :=
    both.readyQueue.congr (fun u member => Function.update_of_ne (unready u member) _ _)
  have apart : ∀ u ∈ ready, u ∉ rest := fun u member later => both.apart u member (List.mem_cons_of_mem t later)
  have last : s.next t = 0 ↔ rest = [] := popped.head_eq_null
  by_cases single : rest = []
  · rw [if_pos single] at popped
    refine ⟨({ s with sleepHead := s.next t, sleepTail := 0 } : State).setNext t 0, ?_, ⟨others, popped, apart⟩, rfl, rfl, rfl⟩
    simp only [dequeueSleepTask, head, if_pos (And.intro nonnull due), if_pos (last.mpr single)]
  · rw [if_neg single] at popped
    refine ⟨({ s with sleepHead := s.next t } : State).setNext t 0, ?_, ⟨others, popped, apart⟩, rfl, rfl, rfl⟩
    simp only [dequeueSleepTask, head, if_pos (And.intro nonnull due), if_neg (fun null => single (last.mp null))]

theorem dequeue_sleep_none (both : BothQueues s.toGlobals ready asleep)
    (pending : ∀ t rest, asleep = t :: rest → (s.tasks t).sleepTicks ≠ 0) : dequeueSleepTask s = (0, s) := by
  refine if_neg (fun due => ?_)
  have queue := both.sleepQueue
  rcases shape : asleep with _ | ⟨t, rest⟩
  · exact due.1 (queue.head_eq_null.mpr shape)
  · rw [shape] at queue
    exact pending t rest shape (head_cons queue ▸ due.2)

end Moving

structure Sim (past : List (Call × Globals) × List (Call × View)) (s : State) (a : Abs) : Prop extends Rel s.toGlobals a.toView where
  calls : Log.Beside SameCall past.1 past.2 s.calls a.calls

variable {past : List (Call × Globals) × List (Call × View)}

-- How the loop of enqueue_sleep_task ends: at the end of the queue, or between x and the first of the sleepers left.
def sleepOutcome (s : State) (y target x total : Word) : List Word → Except Stop (State ⊕ Word)
  | [] => .ok (.inr total)
  | z :: _ => deref x (.ok (.inl (insertBetween x y z (target - total) s)))

theorem ends_loop_deref {σ α : Type} (body : σ → Except Stop (Iter σ α)) (state : σ) (pointer : Word) (value : α)
    (pass : body state = deref pointer (.ok (.done value))) : (loop body state).Ends (deref pointer (.ok value)) := by
  by_cases null : pointer = 0
  · rw [deref, if_pos null] at pass ⊢
    exact (ends_loop_error _ _ _ _ pass).mpr rfl
  · rw [deref_ne pointer _ null] at pass ⊢
    exact (ends_loop_done _ _ _ _ pass).mpr rfl

theorem set_next_same (s : State) (t value : Word) (same : s.next t = value) : s.setNext t value = s := by
  rw [State.setNext, Function.update_eq_self_iff.mpr same.symm]

theorem sleep_loop (s : State) (y target : Word) (past todo : List Word) (sum z total : Word) (front back : List Word)
    (link : Links 0 s.next z todo 0) (found : Abs.slot (fun t => (s.tasks t).sleepTicks) target sum todo = (front, total, back)) :
    (loop (sleepBody s y target) (sum, lastOr 0 past, z)).Ends
      (sleepOutcome s y target (lastOr 0 (past ++ front)) total back) := by
  induction todo generalizing past sum z front with
  | nil =>
      obtain rfl : z = 0 := link
      cases found
      exact (ends_loop_done _ _ (Sum.inr total) _ rfl).mpr rfl
  | cons t rest ih =>
      obtain ⟨rfl, nonnull, link⟩ := link
      by_cases here : sum < target ∧ sum + (s.tasks z).sleepTicks > target
      · rw [Abs.slot, if_pos here] at found
        cases found
        rw [List.append_nil]
        refine ends_loop_deref _ _ (lastOr 0 past) (Sum.inl (insertBetween (lastOr 0 past) y z (target - total) s)) ?_
        simp only [sleepBody, if_neg nonnull, if_pos here]
      · rw [Abs.slot, if_neg here] at found
        rcases later : Abs.slot (fun t => (s.tasks t).sleepTicks) target (sum + (s.tasks z).sleepTicks) rest with ⟨front', total', back'⟩
        rw [later] at found
        cases found
        have pass : sleepBody s y target (sum, lastOr 0 past, z) = .ok (.next (sum + (s.tasks z).sleepTicks, z, s.next z)) := by
          simp only [sleepBody, if_neg nonnull, if_neg here]
        have ended := ih (past ++ [z]) (sum + (s.tasks z).sleepTicks) (s.next z) front' link later
        rw [last_or_concat, List.append_assoc, List.singleton_append] at ended
        exact (ends_loop_next _ _ _ _ pass).mpr ended

-- How enqueue_sleep_task ends, by the place that slot finds for y.
section Insertion

variable (s : State) (y : Word) (asleep : List Word) (queue : Queue 0 s.next s.sleepHead s.sleepTail asleep)

include queue

theorem enqueue_sleep_first (empty : asleep = []) :
    (enqueueSleepTask y s).Returns { (s.log (.enqueueSleep y)).setNext y 0 with sleepHead := y, sleepTail := y } := by
  unfold enqueueSleepTask
  dsimp only
  rw [if_pos (show (s.log (.enqueueSleep y)).sleepHead = 0 from queue.head_eq_null.mpr empty)]
  exact (ends_pure _ _).mpr rfl

-- A sleeper that goes in before the first one has no x to be linked from.
theorem enqueue_sleep_loop (total : Word) (front back : List Word) (nonempty : asleep ≠ [])
    (found : Abs.slot (fun t => (s.tasks t).sleepTicks) (s.tasks y).sleepTicks 0 asleep = (front, total, back)) :
    (loop (sleepBody (s.log (.enqueueSleep y)) y (s.tasks y).sleepTicks) (0, 0, s.sleepHead)).Ends
      (sleepOutcome (s.log (.enqueueSleep y)) y (s.tasks y).sleepTicks (lastOr 0 front) total back) ∧
      (s.log (.enqueueSleep y)).sleepHead ≠ 0 :=
  ⟨sleep_loop _ y (s.tasks y).sleepTicks [] asleep 0 s.sleepHead total front back queue.links found,
    fun null => nonempty (queue.head_eq_null.mp null)⟩

theorem enqueue_sleep_fault (total z : Word) (back : List Word)
    (found : Abs.slot (fun t => (s.tasks t).sleepTicks) (s.tasks y).sleepTicks 0 asleep = ([], total, z :: back)) :
    (enqueueSleepTask y s).Ends (.error .fault) := by
  have split := slot_split _ _ _ _ _ _ _ found
  obtain ⟨ended, nonnull⟩ := enqueue_sleep_loop s y asleep queue total [] (z :: back) (by simp [split]) found
  unfold enqueueSleepTask
  dsimp only
  rw [if_neg nonnull]
  exact (ends_bind _ _ _).mpr (.inr ⟨.fault, ended, rfl⟩)

theorem enqueue_sleep_between (total x z : Word) (front back : List Word)
    (found : Abs.slot (fun t => (s.tasks t).sleepTicks) (s.tasks y).sleepTicks 0 asleep = (front ++ [x], total, z :: back)) :
    (enqueueSleepTask y s).Returns (insertBetween x y z ((s.tasks y).sleepTicks - total) (s.log (.enqueueSleep y))) := by
  have split := slot_split _ _ _ _ _ _ _ found
  have present : x ≠ 0 := queue.nonnull (by simp [split])
  obtain ⟨ended, nonnull⟩ := enqueue_sleep_loop s y asleep queue total (front ++ [x]) (z :: back) (by simp [split]) found
  rw [last_or_concat, sleepOutcome, deref_ne x _ present] at ended
  unfold enqueueSleepTask
  dsimp only
  rw [if_neg nonnull]
  exact (ends_bind_of_returns _ _ _ _ ended).mpr ((ends_pure _ _).mpr rfl)

theorem enqueue_sleep_last (total : Word) (nonempty : asleep ≠ [])
    (found : Abs.slot (fun t => (s.tasks t).sleepTicks) (s.tasks y).sleepTicks 0 asleep = (asleep, total, [])) :
    (enqueueSleepTask y s).Returns ((({ (s.log (.enqueueSleep y)).setNext s.sleepTail y with sleepTail := y } : State).setNext y 0).setTask y
      (fun task => { task with sleepTicks := (s.tasks y).sleepTicks - total })) := by
  have tailNonnull : s.sleepTail ≠ 0 := fun null => nonempty (queue.tail_eq_null.mp null)
  obtain ⟨ended, nonnull⟩ := enqueue_sleep_loop s y asleep queue total asleep [] nonempty found
  unfold enqueueSleepTask
  dsimp only
  rw [if_neg nonnull]
  refine (ends_bind_of_returns _ _ _ _ ended).mpr ?_
  dsimp only
  rw [deref_ne (s.log _).sleepTail _ tailNonnull]
  exact (ends_bind_of_returns _ _ _ _ ((ends_lift _ _).mpr rfl)).mpr ((ends_pure _ _).mpr rfl)

end Insertion

section Steps

variable (s : State) (a : Abs) (sim : Sim past s a)

include sim

theorem sim_log (call : Call) : Sim past (s.log call) (a.log call) :=
  ⟨sim.toRel, .next ⟨rfl, sim.toRel⟩ sim.calls⟩

theorem sim_tasks : s.tasks = a.tasks := congrArg Shared.tasks sim.shared

theorem sim_running : s.runningTask = a.runningTask := congrArg Shared.runningTask sim.shared

theorem sim_set_task (t : Word) (f g : Task → Task) (same : f (a.tasks t) = g (a.tasks t)) :
    Sim past (s.setTask t f) (a.setTask t g) := by
  refine ⟨⟨?_, sim.ready, sim.asleep, sim.apart, sim.cleared⟩, sim.calls⟩
  change { s.toShared with tasks := Function.update s.tasks t (f (s.tasks t)) } =
    { a.toShared with tasks := Function.update a.tasks t (g (a.tasks t)) }
  rw [sim.shared, same]

theorem sim_enqueue_ready (t : Word) (live : t ∈ a.live) (nonnull : t ≠ 0) (ready : t ∉ a.ready) (asleep : t ∉ a.asleep) :
    ∃ s', enqueueReadyTask t s = .ok s' ∧ Sim past s' (a.enqueueReady t) := by
  obtain ⟨s', done, both, shared, calls, keeps⟩ :=
    enqueue_ready_returns s t sim.both nonnull ready asleep (sim.cleared t live ready asleep)
  refine ⟨s', done, ⟨⟨shared.trans sim.shared, both.readyQueue, both.sleepQueue, both.apart, fun u member outside away => ?_⟩, ?_⟩⟩
  · have before : u ∉ a.ready := fun here => outside (List.mem_append_left _ here)
    exact (keeps u before).trans (sim.cleared u member before away)
  · rw [calls]
    exact (sim_log s a sim (.enqueueReady t)).calls

theorem sim_get_next (t : Word) (rest : List Word) (first : a.ready = t :: rest) :
    ∃ s', getNextReadyTask s = .ok (t, s') ∧ Sim past s' (a.getNext t rest) := by
  have logged := sim_log s a sim (.getNext t)
  have ready := sim.ready
  rw [first] at ready
  have head : s.readyHead = t := head_cons ready
  have nonnull : s.readyHead ≠ 0 := fun null => ready.nonnull List.mem_cons_self (head.symm.trans null)
  have asleep : Queue 0 (Function.update s.next t 0) s.sleepHead s.sleepTail a.asleep :=
    sim.asleep.congr (fun u member => Function.update_of_ne
      (fun same : u = t => sim.apart u (by simp [first, same]) member) _ _)
  have apart : ∀ u ∈ rest, u ∉ a.asleep := fun u member => sim.apart u (by simp [first, member])
  have cleared : ∀ u ∈ a.live, u ∉ rest → u ∉ a.asleep → Function.update s.next t 0 u = 0 := by
    intro u live outside away
    by_cases here : u = t
    · rw [here, Function.update_self]
    · rw [Function.update_of_ne here]
      exact sim.cleared u live (by simp [first, here, outside]) away
  have popped := queue_pop ready
  by_cases single : rest = []
  · have both : s.readyHead = s.readyTail := (head_eq_tail ready).mpr single
    refine ⟨({ s.log (.getNext t) with readyHead := 0, readyTail := 0 } : State).setNext t 0, ?_, ⟨?_, logged.calls⟩⟩
    · rw [head] at nonnull both
      simp only [getNextReadyTask, State.log, head, if_neg nonnull, if_pos both]
    · refine ⟨sim.shared, ?_, asleep, apart, cleared⟩
      change Queue 0 _ 0 0 rest
      rw [single]
      exact queue_empty
  · have other : s.readyHead ≠ s.readyTail := fun same => single ((head_eq_tail ready).mp same)
    refine ⟨({ s.log (.getNext t) with readyHead := s.next t } : State).setNext t 0, ?_, ⟨?_, logged.calls⟩⟩
    · rw [head] at nonnull other
      simp only [getNextReadyTask, State.log, head, if_neg nonnull, if_neg other]
    · rw [if_neg single] at popped
      exact ⟨sim.shared, popped, asleep, apart, cleared⟩

theorem get_next_empty (empty : a.ready = []) :
    getNextReadyTask s = kpanic "sched: ready queue should never be empty!" :=
  if_pos (sim.ready.head_eq_null.mpr empty)

theorem sim_append_sleeper (y : Word) (delta : Word) (live : y ∈ a.live) (nonnull : y ≠ 0) (ready : y ∉ a.ready)
    (asleep : y ∉ a.asleep) (nonempty : a.asleep ≠ []) :
    Sim past ((({ (s.log (.enqueueSleep y)).setNext s.sleepTail y with sleepTail := y } : State).setNext y 0).setTask y
      (fun task => { task with sleepTicks := delta })) (a.insertSleeper y delta a.asleep []) := by
  have clear : s.next y = 0 := sim.cleared y live ready asleep
  have tailMember : s.sleepTail ∈ a.asleep := sim.asleep.tail_member nonempty
  have other : y ≠ s.sleepTail := (ne_of_mem_of_not_mem tailMember asleep).symm
  have keeps : ∀ u, u ∉ a.asleep → Function.update s.next s.sleepTail y u = s.next u := fun u outside =>
    Function.update_of_ne (ne_of_mem_of_not_mem tailMember outside).symm _ _
  have placed : Sim past ({ (s.log (.enqueueSleep y)).setNext s.sleepTail y with sleepTail := y } : State)
      { a.log (.enqueueSleep y) with asleep := a.asleep ++ [y] } := by
    refine ⟨⟨sim.shared, ?_, ?_, fun u member => ?_, fun u member outside away => ?_⟩, (sim_log s a sim _).calls⟩
    · exact sim.ready.congr (fun u member => keeps u (sim.apart u member))
    · exact queue_push sim.asleep nonempty asleep nonnull clear
    · simpa [sim.apart u member] using ne_of_mem_of_not_mem member ready
    · have before : u ∉ a.asleep := fun here => away (List.mem_append_left _ here)
      exact (keeps u before).trans (sim.cleared u member outside before)
  rw [set_next_same _ y 0 ((Function.update_of_ne other _ _).trans clear)]
  exact sim_set_task _ _ placed y (fun task => { task with sleepTicks := delta })
    (fun task => { task with sleepTicks := delta }) rfl

theorem sim_lower (y z delta : Word) (own : (s.tasks y).sleepTicks = delta) :
    Sim past (s.setTask z (fun task => { task with sleepTicks := task.sleepTicks - (s.tasks y).sleepTicks }))
      (a.setTask z (fun task => { task with sleepTicks := task.sleepTicks - delta })) :=
  sim_set_task s a sim z _ _ (by rw [own])

theorem sim_insert_between (x y z delta : Word) (front back : List Word) (nonnull : y ≠ 0) (ready : y ∉ a.ready)
    (asleep : y ∉ a.asleep) (split : a.asleep = front ++ x :: z :: back) :
    Sim past (insertBetween x y z delta (s.log (.enqueueSleep y))) (a.insertSleeper y delta (front ++ [x]) (z :: back)) := by
  have queue := sim.asleep
  rw [split] at queue asleep
  have placed : Sim past (((s.log (.enqueueSleep y)).setNext x y).setNext y z)
      { a.log (.enqueueSleep y) with asleep := front ++ [x] ++ y :: z :: back } := by
    have keeps : ∀ u, u ≠ x → u ≠ y → Function.update (Function.update s.next x y) y z u = s.next u :=
      fun u left right => by rw [Function.update_of_ne right, Function.update_of_ne left]
    refine ⟨⟨sim.shared, ?_, ?_, fun u member => ?_, fun u member outside away => ?_⟩, (sim_log s a sim _).calls⟩
    · refine sim.ready.congr (fun u member => keeps u ?_ (ne_of_mem_of_not_mem member ready))
      rintro rfl
      exact sim.apart u member (by simp [split])
    · have inserted := queue_insert queue asleep nonnull
      rw [List.append_assoc, List.singleton_append]
      exact inserted
    · have outside := sim.apart u member
      rw [split] at outside
      have other := ne_of_mem_of_not_mem member ready
      simp only [List.mem_append, List.mem_cons, List.not_mem_nil, or_false, not_or] at outside ⊢
      exact ⟨⟨outside.1, outside.2.1⟩, other, outside.2.2⟩
    · simp only [List.mem_append, List.mem_cons, List.not_mem_nil, or_false, not_or] at away
      exact (keeps u away.1.2 away.2.1).trans (sim.cleared u member outside (by simp [split, away]))
  have timed := sim_set_task _ _ placed y (fun task => { task with sleepTicks := delta })
    (fun task => { task with sleepTicks := delta }) rfl
  exact sim_lower _ _ timed y z delta (congrArg Task.sleepTicks (Function.update_self y _ s.tasks))

theorem sim_first_sleeper (y : Word) (live : y ∈ a.live) (nonnull : y ≠ 0) (ready : y ∉ a.ready) (empty : a.asleep = []) :
    Sim past { (s.log (.enqueueSleep y)).setNext y 0 with sleepHead := y, sleepTail := y }
      (a.insertSleeper y ((a.tasks y).sleepTicks - 0) [] []) := by
  have clear : s.next y = 0 := sim.cleared y live ready (by simp [empty])
  have untimed : Function.update a.tasks y { a.tasks y with sleepTicks := (a.tasks y).sleepTicks - 0 } = a.tasks := by
    simp
  have shape : a.insertSleeper y ((a.tasks y).sleepTicks - 0) [] [] = { a.log (.enqueueSleep y) with asleep := [y] } :=
    congrArg (fun tasks => { a.log (.enqueueSleep y) with tasks := tasks, asleep := [y] }) untimed
  rw [shape, set_next_same (s.log _) y 0 clear]
  refine ⟨⟨sim.shared, sim.ready, queue_single nonnull clear, fun u member => ?_, fun u member outside away => ?_⟩,
    (sim_log s a sim _).calls⟩
  · simpa using ne_of_mem_of_not_mem member ready
  · exact sim.cleared u member outside (by simp [empty])

theorem sim_enqueue_sleep (y : Word) (live : y ∈ a.live) (nonnull : y ≠ 0) (ready : y ∉ a.ready) (asleep : y ∉ a.asleep) :
    Simulates (Sim past) (enqueueSleepTask y s) (a.enqueueSleep y) := by
  have tasks := sim_tasks s a sim
  rcases found : Abs.slot (fun t => (a.tasks t).sleepTicks) (a.tasks y).sleepTicks 0 a.asleep with ⟨front, total, back⟩
  have split := slot_split _ _ _ _ _ _ _ found
  rw [Abs.enqueueSleep, found]
  dsimp only
  rw [← tasks] at found ⊢
  by_cases empty : a.asleep = []
  · rw [empty] at found
    cases found
    rw [if_neg (by simp), tasks]
    exact ⟨.ok _, enqueue_sleep_first s y a.asleep sim.asleep empty, sim_first_sleeper s a sim y live nonnull ready empty⟩
  · cases back with
    | nil =>
        rw [List.append_nil] at split
        subst split
        rw [if_neg (by simp)]
        exact ⟨.ok _, enqueue_sleep_last s y a.asleep sim.asleep total empty found,
          sim_append_sleeper s a sim y _ live nonnull ready asleep empty⟩
    | cons z back =>
        rcases List.eq_nil_or_concat front with rfl | ⟨front, x, rfl⟩
        · rw [if_pos (by simp)]
          exact ⟨.error .fault, enqueue_sleep_fault s y a.asleep sim.asleep total z back found, rfl⟩
        · rw [List.concat_eq_append] at split found ⊢
          rw [if_neg (by simp)]
          exact ⟨.ok _, enqueue_sleep_between s y a.asleep sim.asleep total x z front back found,
            sim_insert_between s a sim x y z _ front back nonnull ready asleep (by simpa using split)⟩

end Steps

end Deimos.Sched
