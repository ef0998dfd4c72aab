import Deimos.Sched.Punctual

set_option autoImplicit false

-- The sleep queue by itself: what a call does to the deadlines of the tasks in it.
namespace Deimos.Sched

open Comp LinkedQueue Deltas

structure Sleepers (s : State) (asleep : List Word) : Prop where
  queue : Queue 0 s.next s.sleepHead s.sleepTail asleep
  bounded : total (ticksOf s.tasks) asleep < 2 ^ 32

def dueIn (s : State) (asleep : List Word) (t : Word) : Nat := deadline (ticksOf s.tasks) t asleep

-- y has joined the queue between front and back, and everyone is due when it
-- was to be. The last three fields say that no subtraction has wrapped.
structure Inserted (s s' : State) (y : Word) (asleep front back : List Word) : Prop where
  split : asleep = front ++ back
  queue : Queue 0 s'.next s'.sleepHead s'.sleepTail (front ++ y :: back)
  kept : ∀ t ∈ asleep, dueIn s' (front ++ y :: back) t = dueIn s asleep t
  due : dueIn s' (front ++ y :: back) y = ticksOf s.tasks y
  own : ticksOf s'.tasks y + total (ticksOf s.tasks) front = ticksOf s.tasks y
  behind : ∀ z rest, back = z :: rest → ticksOf s'.tasks y + ticksOf s'.tasks z = ticksOf s.tasks z
  others : ∀ t ∈ front ++ back.tail, ticksOf s'.tasks t = ticksOf s.tasks t

def alone (s : State) (asleep : List Word) : Abs := { toShared := s.toShared, ready := [], asleep := asleep, calls := [] }

section Insertion

variable {s s' : State} {y : Word} {asleep front back : List Word}

theorem punctual_alone (sleepers : Sleepers s asleep) : Punctual (alone s asleep) :=
  ⟨fun _ _ _ _ shape => absurd shape (by simp [alone]), sleepers.bounded⟩

theorem inserted_of_ticks (split : asleep = front ++ back) (fresh : y ∉ asleep)
    (queue : Queue 0 s'.next s'.sleepHead s'.sleepTail (front ++ y :: back))
    (own : ticksOf s'.tasks y + total (ticksOf s.tasks) front = ticksOf s.tasks y)
    (behind : ∀ z rest, back = z :: rest → ticksOf s'.tasks y + ticksOf s'.tasks z = ticksOf s.tasks z)
    (others : ∀ t ∈ front ++ back.tail, ticksOf s'.tasks t = ticksOf s.tasks t) : Inserted s s' y asleep front back := by
  subst split
  refine ⟨rfl, queue, deadline_kept fresh behind others, ?_, own, behind, others⟩
  have before : total (ticksOf s'.tasks) front = total (ticksOf s.tasks) front :=
    total_congr (fun t member => others t (List.mem_append_left _ member))
  rw [dueIn, deadline_new (fun member => fresh (List.mem_append_left _ member)), before, Nat.add_comm]
  exact own

theorem queue_behind (queue : Queue 0 s.next s.sleepHead s.sleepTail asleep) (nonempty : asleep ≠ []) (fresh : y ∉ asleep)
    (nonnull : y ≠ 0) : Queue 0 (Function.update (Function.update s.next s.sleepTail y) y 0) s.sleepHead y (asleep ++ [y]) := by
  have other : y ≠ s.sleepTail := (ne_of_mem_of_not_mem (queue.tail_member nonempty) fresh).symm
  have cleared : Queue 0 (Function.update s.next y 0) s.sleepHead s.sleepTail asleep :=
    queue.congr (fun t member => Function.update_of_ne (ne_of_mem_of_not_mem member fresh) _ _)
  rw [Function.update_comm other.symm]
  exact queue_push cleared nonempty fresh nonnull (Function.update_self _ _ _)

theorem insert_between_tasks (x z delta : Word) (front rest : List Word) :
    (insertBetween x y z delta (s.log (.enqueueSleep y))).tasks =
      ((alone s asleep).insertSleeper y delta front (z :: rest)).tasks := by
  simp [insertBetween, State.setTask, State.setNext, State.log, alone, Abs.insertSleeper, Abs.setTask, Abs.log, Abs.lowered]

theorem slot_tied (sleepers : Sleepers s asleep) (total' : Word) (tied : ∃ t ∈ asleep, dueIn s asleep t = ticksOf s.tasks y)
    (found : Abs.slot (fun t => (s.tasks t).sleepTicks) (s.tasks y).sleepTicks 0 asleep = (front, total', back)) : back = [] := by
  have split := slot_split _ _ _ _ _ _ _ found
  obtain ⟨reached, fits⟩ := slot_spec s.tasks (s.tasks y).sleepTicks 0 total' asleep front back (by simpa using sleepers.bounded) found
  have reached : total'.toNat = total (ticksOf s.tasks) front := by simpa using reached
  by_contra more
  obtain ⟨z, rest, rfl⟩ := List.exists_cons_of_ne_nil more
  have early : total (ticksOf s.tasks) front < ticksOf s.tasks y := reached ▸ (fits z rest rfl).1
  have late : ticksOf s.tasks y < total (ticksOf s.tasks) front + ticksOf s.tasks z := reached ▸ (fits z rest rfl).2
  obtain ⟨t, member, same⟩ := tied
  rw [dueIn, split] at same
  by_cases before : t ∈ front
  · have inside : deadline (ticksOf s.tasks) t front ≤ total (ticksOf s.tasks) front := deadline_le_total before
    rw [deadline_before before] at same
    omega
  · have first : ticksOf s.tasks z ≤ deadline (ticksOf s.tasks) t (z :: rest) := head_le_deadline
    rw [deadline_after before] at same
    omega

-- Without such a tie it finds one, unless it is due last.
theorem slot_untied (sleepers : Sleepers s asleep) (total' : Word)
    (behind : ∀ t rest, asleep = t :: rest → ticksOf s.tasks t ≤ ticksOf s.tasks y)
    (spared : (∀ t ∈ asleep, dueIn s asleep t ≠ ticksOf s.tasks y) ∨ ∀ t ∈ asleep, dueIn s asleep t ≤ ticksOf s.tasks y)
    (found : Abs.slot (fun t => (s.tasks t).sleepTicks) (s.tasks y).sleepTicks 0 asleep = (front, total', back)) :
    (front = [] → back = []) ∧ (back = [] → total (ticksOf s.tasks) asleep ≤ ticksOf s.tasks y) := by
  obtain ⟨reached, fits⟩ := slot_spec s.tasks (s.tasks y).sleepTicks 0 total' asleep front back (by simpa using sleepers.bounded) found
  have split := slot_split _ _ _ _ _ _ _ found
  refine ⟨fun none => ?_, fun last => ?_⟩
  · by_contra more
    obtain ⟨z, rest, rfl⟩ := List.exists_cons_of_ne_nil more
    subst none
    have reached : total'.toNat = 0 := by simpa [total] using reached
    have before : ticksOf s.tasks y < total'.toNat + ticksOf s.tasks z := (fits z rest rfl).2
    have after := behind z rest split
    omega
  · by_contra inside
    have untied : ∀ t ∈ asleep, dueIn s asleep t ≠ ticksOf s.tasks y :=
      spared.resolve_right (fun early => inside ((deadlines_le sleepers.queue.nodup _).mp early))
    obtain ⟨t, rest, rfl⟩ : ∃ t rest, asleep = t :: rest := by
      cases asleep with
      | nil => exact absurd (Nat.zero_le _) inside
      | cons t rest => exact ⟨t, rest, rfl⟩
    -- The head's own deadline is its delta, so a sleeper for no tick at all would tie with it.
    have awaited : 0 < ticksOf s.tasks y := by
      have first := behind t rest rfl
      have other := untied t List.mem_cons_self
      rw [dueIn, deadline_head] at other
      omega
    have apart : (s.tasks y).sleepTicks.toNat ∉ sums (0 : Word).toNat ((t :: rest).map (ticksOf s.tasks)) := fun member => by
      obtain ⟨u, here, same⟩ := (mem_sums sleepers.queue.nodup _ _).mp member
      exact untied u here ((Nat.zero_add _).symm.trans same)
    have within : ticksOf s.tasks y < (0 : Word).toNat + total (ticksOf s.tasks) (t :: rest) := by
      rw [show (0 : Word).toNat = 0 from rfl, Nat.zero_add]
      exact Nat.lt_of_not_le inside
    exact slot_between s.tasks (s.tasks y).sleepTicks 0 total' (t :: rest) front back (by simpa using sleepers.bounded) awaited apart
      within found last

-- A sleeper behind the others with one of them due when it is, and one later:
-- its delta has wrapped.
theorem insertion_breaks (sleepers : Sleepers s asleep) (tied : ∃ t ∈ asleep, dueIn s asleep t = ticksOf s.tasks y)
    (later : ∃ t ∈ asleep, ticksOf s.tasks y < dueIn s asleep t) :
    ∃ s', (enqueueSleepTask y s).Returns s' ∧ ∀ front back, ¬ Inserted s s' y asleep front back := by
  have nonempty : asleep ≠ [] := fun empty => by obtain ⟨t, member, -⟩ := tied; simp [empty] at member
  rcases found : Abs.slot (fun t => (s.tasks t).sleepTicks) (s.tasks y).sleepTicks 0 asleep with ⟨front, total', back⟩
  obtain rfl := slot_tied sleepers total' tied found
  have split := slot_split _ _ _ _ _ _ _ found
  rw [List.append_nil] at split
  subst split
  obtain ⟨reached, -⟩ := slot_spec s.tasks (s.tasks y).sleepTicks 0 total' asleep asleep [] (by simpa using sleepers.bounded) found
  have reached : total'.toNat = total (ticksOf s.tasks) asleep := by simpa using reached
  refine ⟨_, enqueue_sleep_last s y asleep sleepers.queue total' nonempty found, fun front back inserted => ?_⟩
  obtain ⟨t, member, beyond⟩ := later
  have inside : dueIn s asleep t ≤ total (ticksOf s.tasks) asleep := deadline_le_total member
  have own := inserted.own
  simp only [ticksOf, State.setTask, Function.update_self, BitVec.toNat_sub] at own beyond
  omega

theorem insertion_keeps (sleepers : Sleepers s asleep) (nonnull : y ≠ 0) (fresh : y ∉ asleep)
    (behind : ∀ t rest, asleep = t :: rest → ticksOf s.tasks t ≤ ticksOf s.tasks y)
    (spared : (∀ t ∈ asleep, dueIn s asleep t ≠ ticksOf s.tasks y) ∨ ∀ t ∈ asleep, dueIn s asleep t ≤ ticksOf s.tasks y) :
    ∃ s', (enqueueSleepTask y s).Returns s' ∧ ∃ front back, Inserted s s' y asleep front back := by
  have queue := sleepers.queue
  by_cases empty : asleep = []
  · subst empty
    refine ⟨_, enqueue_sleep_first s y [] queue rfl, [], [], inserted_of_ticks rfl fresh ?_ rfl nofun nofun⟩
    exact queue_single nonnull (Function.update_self _ _ _)
  · rcases found : Abs.slot (fun t => (s.tasks t).sleepTicks) (s.tasks y).sleepTicks 0 asleep with ⟨front, total', back⟩
    obtain ⟨behindFirst, last⟩ := slot_untied sleepers total' behind spared found
    have split := slot_split _ _ _ _ _ _ _ found
    have ticks := slot_ticks (alone s asleep) (punctual_alone sleepers) y total' front back found last fresh queue.nodup
    cases back with
    | nil =>
        rw [List.append_nil] at split
        subst split
        obtain ⟨own, later, others⟩ := ticks _ rfl
        refine ⟨_, enqueue_sleep_last s y asleep queue total' empty found, asleep, [], ?_⟩
        exact inserted_of_ticks (List.append_nil _).symm fresh (queue_behind queue empty fresh nonnull) own later others
    | cons z rest =>
        rcases List.eq_nil_or_concat front with rfl | ⟨front, x, rfl⟩
        · exact absurd (behindFirst rfl) (List.cons_ne_nil z rest)
        · rw [List.concat_eq_append] at split found ticks
          have between : asleep = front ++ x :: z :: rest := by simpa using split
          obtain ⟨own, later, others⟩ := ticks _ (congrArg ticksOf (insert_between_tasks x z _ _ rest))
          refine ⟨_, enqueue_sleep_between s y asleep queue total' x z front rest found, front ++ [x], z :: rest, ?_⟩
          refine inserted_of_ticks split fresh ?_ own later others
          rw [between] at queue fresh
          rw [List.append_assoc]
          exact queue_insert queue fresh nonnull

end Insertion

-- Two sleepers may be due at once where the later one to come is due last,
-- and nowhere else.
theorem deadlines_kept_iff (s : State) (y : Word) (asleep : List Word) (sleepers : Sleepers s asleep) (nonnull : y ≠ 0)
    (fresh : y ∉ asleep) (behind : ∀ t rest, asleep = t :: rest → ticksOf s.tasks t ≤ ticksOf s.tasks y) :
    ∃ s', (enqueueSleepTask y s).Returns s' ∧ ((∃ front back, Inserted s s' y asleep front back) ↔
      (∀ t ∈ asleep, dueIn s asleep t ≠ ticksOf s.tasks y) ∨ ∀ t ∈ asleep, dueIn s asleep t ≤ ticksOf s.tasks y) := by
  by_cases spared : (∀ t ∈ asleep, dueIn s asleep t ≠ ticksOf s.tasks y) ∨ ∀ t ∈ asleep, dueIn s asleep t ≤ ticksOf s.tasks y
  · obtain ⟨s', returns, inserted⟩ := insertion_keeps sleepers nonnull fresh behind spared
    exact ⟨s', returns, iff_of_true inserted spared⟩
  · obtain ⟨tied, later⟩ := not_or.mp spared
    simp only [not_forall, not_not, Nat.not_le, exists_prop] at tied later
    obtain ⟨s', returns, broken⟩ := insertion_breaks sleepers tied later
    exact ⟨s', returns, iff_of_false (fun ⟨front, back, inserted⟩ => broken front back inserted) spared⟩

def twoSleepers (ticks : Word) : State :=
  let task := blank 0 0 0
  { tasks := fun t => if t = 1 then { task with sleepTicks := 5 } else if t = 2 then { task with sleepTicks := 3 }
      else { task with sleepTicks := ticks },
    runningTask := 3, schedulingEnabled := true, ticks := 0, nPid := 3, currentPd := 0, cpu := ⟨0, 0, 0⟩, live := [1, 2, 3], now := 0,
    next := fun t => if t = 1 then 2 else 0, readyHead := 0, readyTail := 0, sleepHead := 1, sleepTail := 2, calls := [] }

theorem two_sleepers (ticks : Word) : Sleepers (twoSleepers ticks) [1, 2] :=
  ⟨⟨⟨rfl, by decide, rfl, by decide, rfl⟩, rfl, by decide⟩, by rw [show total (ticksOf (twoSleepers ticks).tasks) [1, 2] = 8 from rfl]; decide⟩

theorem deadlines_kept_between : ∃ s', (enqueueSleepTask 3 (twoSleepers 6)).Returns s' ∧
    ∃ front back, Inserted (twoSleepers 6) s' 3 [1, 2] front back := by
  obtain ⟨s', returns, kept⟩ := deadlines_kept_iff (twoSleepers 6) 3 [1, 2] (two_sleepers 6) (by decide) (by decide)
    (fun t rest shape => by cases shape; decide)
  refine ⟨s', returns, kept.mpr (.inl (fun t member => ?_))⟩
  obtain rfl | rfl : t = 1 ∨ t = 2 := by simpa using member
  · exact show 5 ≠ 6 by decide
  · exact show 8 ≠ 6 by decide

theorem deadlines_lost_in_tie : ¬ ∀ (s : State) (y : Word) (asleep : List Word), Sleepers s asleep → y ≠ 0 → y ∉ asleep →
    (∀ t rest, asleep = t :: rest → ticksOf s.tasks t ≤ ticksOf s.tasks y) →
    ∃ s', (enqueueSleepTask y s).Returns s' ∧ ∃ front back, Inserted s s' y asleep front back := by
  intro kept
  obtain ⟨s', returns, front, back, inserted⟩ := kept (twoSleepers 5) 3 [1, 2] (two_sleepers 5) (by decide) (by decide)
    (fun t rest shape => by cases shape; decide)
  obtain ⟨s'', returns', broken⟩ := insertion_breaks (y := 3) (two_sleepers 5) ⟨1, by decide, by decide⟩ ⟨2, by decide, by decide⟩
  obtain rfl := returns_unique _ _ _ returns returns'
  exact broken front back inserted

def woken (s : State) (asleep : List Word) : List Word := asleep.filter (fun t => dueIn s asleep t = 1)

def stillAsleep (s : State) (asleep : List Word) : List Word := asleep.filter (fun t => dueIn s asleep t ≠ 1)

structure Ticked (s s' : State) (ready asleep : List Word) : Prop where
  queues : BothQueues s'.toGlobals (ready ++ woken s asleep) (stillAsleep s asleep)
  nearer : ∀ t ∈ stillAsleep s asleep, dueIn s' (stillAsleep s asleep) t + 1 = dueIn s asleep t
  pending : (s'.sleepHead = 0 ∧ s'.sleepTail = 0) ∨ 1 ≤ ticksOf s'.tasks s'.sleepHead

section Ticks

variable {s : State} {ready asleep : List Word}

theorem both_set_task (t : Word) (f : Task → Task) (both : BothQueues s.toGlobals ready asleep) :
    BothQueues (s.setTask t f).toGlobals ready asleep := ⟨both.readyQueue, both.sleepQueue, both.apart⟩

theorem wake_first (t : Word) (rest : List Word) (both : BothQueues s.toGlobals ready (t :: rest)) (due : (s.tasks t).sleepTicks = 0) :
    ∃ s', wakeBody s = .ok (.next s') ∧ BothQueues s'.toGlobals (ready ++ [t]) rest ∧ ticksOf s'.tasks = ticksOf s.tasks := by
  have nonnull : t ≠ 0 := both.sleepQueue.nonnull List.mem_cons_self
  have unready : t ∉ ready := fun member => both.apart t member List.mem_cons_self
  have awake : t ∉ rest := (List.nodup_cons.mp both.sleepQueue.nodup).1
  obtain ⟨s₁, taken, both₁, shared₁, -, next₁⟩ := dequeue_sleep_returns s t both due
  have clear : s₁.next t = 0 := by rw [next₁, Function.update_self]
  obtain ⟨s₂, queued, both₂, shared₂, -⟩ :=
    enqueue_ready_returns ((s₁.log (.wake t)).setTask t (fun task => { task with state := .ready })) t
      (both_set_task t _ both₁) nonnull unready awake clear
  refine ⟨s₂, ?_, both₂, funext (fun u => ?_)⟩
  · simp only [wakeBody, taken, if_neg nonnull, queued, Except.map]
  · have tasks : s₂.tasks = Function.update s.tasks t { s.tasks t with state := .ready } := by
      rw [congrArg Shared.tasks shared₂]
      exact congrArg (fun tasks : Word → Task => Function.update tasks t { tasks t with state := .ready }) (congrArg Shared.tasks shared₁)
    rw [ticksOf, tasks]
    by_cases here : u = t
    · rw [here, Function.update_self]
      rfl
    · rw [Function.update_of_ne here]
      rfl

theorem wake_loop (both : BothQueues s.toGlobals ready asleep) :
    ∃ s', (loop wakeBody s).Returns s' ∧ ticksOf s'.tasks = ticksOf s.tasks ∧
      BothQueues s'.toGlobals (ready ++ asleep.takeWhile (fun t => ticksOf s.tasks t = 0)) (asleep.dropWhile (fun t => ticksOf s.tasks t = 0)) := by
  induction asleep generalizing s ready with
  | nil =>
      have pass : wakeBody s = .ok (.done s) := by
        rw [wakeBody, dequeue_sleep_none s both (fun _ _ empty => absurd empty.symm (List.cons_ne_nil _ _))]
        rfl
      exact ⟨s, (ends_loop_done _ _ _ _ pass).mpr rfl, rfl, by simpa using both⟩
  | cons t rest ih =>
      by_cases due : ticksOf s.tasks t = 0
      · obtain ⟨s₁, pass, both₁, ticks₁⟩ := wake_first t rest both (BitVec.eq_of_toNat_eq due)
        obtain ⟨s', returns, ticks, both'⟩ := ih both₁
        refine ⟨s', (ends_loop_next _ _ _ _ pass).mpr returns, ticks.trans ticks₁, ?_⟩
        rw [List.takeWhile_cons_of_pos (by simpa using due), List.dropWhile_cons_of_pos (by simpa using due)]
        rwa [ticks₁, List.append_assoc] at both'
      · have pass : wakeBody s = .ok (.done s) := by
          rw [wakeBody, dequeue_sleep_none s both]
          · rfl
          · rintro u others shape zero
            cases shape
            exact due (congrArg BitVec.toNat zero)
        refine ⟨s, (ends_loop_done _ _ _ _ pass).mpr rfl, rfl, ?_⟩
        rw [List.takeWhile_cons_of_neg (by simpa using due), List.dropWhile_cons_of_neg (by simpa using due), List.append_nil]
        exact both

end Ticks

theorem tick_returns (s : State) (ready asleep : List Word) (both : BothQueues s.toGlobals ready asleep)
    (ahead : ∀ t rest, asleep = t :: rest → 1 ≤ ticksOf s.tasks t) :
    ∃ s₀, updateSleepQueue s = loop wakeBody s₀ ∧ BothQueues s₀.toGlobals ready asleep ∧
      ∀ t ∈ asleep, dueIn s₀ asleep t + 1 = dueIn s asleep t := by
  cases asleep with
  | nil => exact ⟨s, congrArg (loop wakeBody) (if_neg (fun busy => busy (both.sleepQueue.head_eq_null.mpr rfl))), both, nofun⟩
  | cons h rest =>
      obtain ⟨absent, -⟩ := List.nodup_cons.mp both.sleepQueue.nodup
      have head : s.sleepHead = h := head_cons both.sleepQueue
      have nonnull : s.sleepHead ≠ 0 := head ▸ both.sleepQueue.nonnull List.mem_cons_self
      have pending := ahead h rest rfl
      refine ⟨_, congrArg (loop wakeBody) (if_pos nonnull), both_set_task _ _ both, fun t _ => deadline_tick ?_ (fun u member => ?_)⟩
      · simp only [ticksOf, State.setTask, head, Function.update_self] at pending ⊢
        bv_omega
      · simp only [ticksOf, State.setTask, head, Function.update_of_ne (ne_of_mem_of_not_mem member absent)]

theorem sleep_queue_ticked (s : State) (ready asleep : List Word) (both : BothQueues s.toGlobals ready asleep)
    (ahead : ∀ t rest, asleep = t :: rest → 1 ≤ ticksOf s.tasks t) :
    ∃ s', (updateSleepQueue s).Returns s' ∧ Ticked s s' ready asleep := by
  obtain ⟨s₀, shape, both₀, nearer⟩ := tick_returns s ready asleep both ahead
  obtain ⟨s', returns, ticks, both'⟩ := wake_loop both₀
  obtain ⟨due, left⟩ := @due_front Word (ticksOf s₀.tasks) asleep _ both₀.sleepQueue.nodup
  have nextDue : ∀ t ∈ asleep, deadline (ticksOf s₀.tasks) t asleep = 0 ↔ dueIn s asleep t = 1 := fun t member => by
    have step : deadline (ticksOf s₀.tasks) t asleep + 1 = dueIn s asleep t := nearer t member
    omega
  have early : asleep.filter (fun t => deadline (ticksOf s₀.tasks) t asleep = 0) = woken s asleep :=
    List.filter_congr (fun t member => decide_eq_decide.mpr (nextDue t member))
  have late : asleep.filter (fun t => deadline (ticksOf s₀.tasks) t asleep ≠ 0) = stillAsleep s asleep :=
    List.filter_congr (fun t member => decide_eq_decide.mpr (not_congr (nextDue t member)))
  refine ⟨s', shape ▸ returns, ⟨?_, fun t member => ?_, ?_⟩⟩
  · rwa [due, left, early, late] at both'
  · have kept := deadline_left both₀.sleepQueue.nodup (left.trans late ▸ member)
    rw [left, late] at kept
    rw [dueIn, ticks, kept]
    exact nearer t (List.mem_of_mem_filter member)
  · have queue := both'.sleepQueue
    cases rest : asleep.dropWhile (fun t => ticksOf s₀.tasks t = 0) with
    | nil =>
        rw [rest] at queue
        exact .inl ⟨queue.head_eq_null.mpr rfl, queue.tail_eq_null.mpr rfl⟩
    | cons t others =>
        rw [rest] at queue
        have here : ¬ ticksOf s₀.tasks t = 0 := by
          have first := List.head?_dropWhile_not (fun t => decide (ticksOf s₀.tasks t = 0)) asleep
          rw [rest] at first
          simpa using first
        rw [ticks, head_cons queue]
        exact .inr (by omega)

def threeSleepers : State :=
  let task := blank 0 0 0
  { tasks := fun t => if t = 1 then { task with sleepTicks := 1 } else if t = 3 then { task with sleepTicks := 2 } else task,
    runningTask := 5, schedulingEnabled := true, ticks := 0, nPid := 5, currentPd := 0, cpu := ⟨0, 0, 0⟩, live := [1, 2, 3, 4, 5],
    now := 0, next := fun t => if t = 1 then 2 else if t = 2 then 3 else 0, readyHead := 4, readyTail := 4, sleepHead := 1,
    sleepTail := 3, calls := [] }

theorem sleep_queue_ticked_three : ∃ s', (updateSleepQueue threeSleepers).Returns s' ∧ Ticked threeSleepers s' [4] [1, 2, 3] ∧
    woken threeSleepers [1, 2, 3] = [1, 2] ∧ stillAsleep threeSleepers [1, 2, 3] = [3] := by
  have both : BothQueues threeSleepers.toGlobals [4] [1, 2, 3] :=
    ⟨⟨⟨rfl, by decide, rfl⟩, rfl, by decide⟩, ⟨⟨rfl, by decide, rfl, by decide, rfl, by decide, rfl⟩, rfl, by simp⟩, by simp⟩
  obtain ⟨s', returns, ticked⟩ := sleep_queue_ticked threeSleepers [4] [1, 2, 3] both
    (fun t rest shape => by cases shape; exact Nat.le_refl 1)
  exact ⟨s', returns, ticked, rfl, rfl⟩

end Deimos.Sched
