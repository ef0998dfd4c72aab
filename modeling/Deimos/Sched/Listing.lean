import Deimos.Lib.Chain
import Deimos.Sched.Creation
import Deimos.Tty.Console

set_option autoImplicit false

namespace Deimos.Sched

open Comp LinkedQueue Run Tty Walk

def TaskState.code : TaskState → Word
  | .stopped => 0
  | .ready => 1
  | .running => 2
  | .sleeping => 3
  | .destroy => 4

def taskLines (task : Task) : List Line :=
  [⟨chars "pid:%u ppid:%u state:%u cpu_time:%u sleep:%u ",
      [.word task.pid, .word task.ppid, .word task.state.code, .word task.cpuTime, .word task.sleepTicks]⟩,
    ⟨chars "\n", []⟩]

def printTask (s : State) (t : Word) : Comp Stop (List Line) := deref t (.ok (taskLines (s.tasks t)))

def runningLine (s : State) : Line :=
  if s.schedulingEnabled then ⟨chars "scheduler is running\n", []⟩ else ⟨chars "scheduler is not running\n", []⟩

def schedPrintInfo (s : State) : Comp Stop (List Line) := do
  let running ← printTask s s.runningTask
  let ready ← walk (fun t => t = 0 || t = s.runningTask) s.next (printTask s) s.readyHead
  let asleep ← walk (fun t => t = 0) s.next (printTask s) s.sleepHead
  pure (runningLine s :: (running ++ ready ++ asleep))

def listing (s : State) (tasks : List Word) : List Line :=
  ⟨chars "scheduler is running\n", []⟩ :: tasks.flatMap (fun t => taskLines (s.tasks t))

theorem print_task_returns (s : State) (t : Word) (nonnull : t ≠ 0) : (printTask s t).Returns (taskLines (s.tasks t)) :=
  ⟨0, congrArg some (if_neg nonnull)⟩

theorem task_lines_text (task : Task) : ∀ line ∈ taskLines task, ∃ out, line.text = some out := by
  intro line member
  rw [taskLines, List.mem_cons, List.mem_singleton] at member
  rcases member with rfl | rfl
  · exact words_text 5 _ (by decide +kernel) [task.pid, task.ppid, task.state.code, task.cpuTime, task.sleepTicks] rfl
  · exact words_text 0 _ (by decide +kernel) [] rfl

theorem listing_displayed (s : State) (tasks : List Word) : Displayed (listing s tasks) := by
  refine displayed _ (fun line member => ?_)
  rcases List.mem_cons.mp member with rfl | member
  · exact words_text 0 _ (by decide +kernel) [] rfl
  · obtain ⟨t, -, member⟩ := List.mem_flatMap.mp member
    exact task_lines_text (s.tasks t) line member

section Order

variable {s : State} {ready asleep : List Word} (inOrder : InOrder s ready asleep)

include inOrder

theorem InOrder.listed : (schedPrintInfo s).Returns (listing s (s.runningTask :: (ready ++ asleep))) := by
  have queued := (List.nodup_cons.mp inOrder.distinct).1
  have running := print_task_returns s s.runningTask inOrder.busy
  have ready' : (walk (fun t => t = 0 || t = s.runningTask) s.next (printTask s) s.readyHead).Returns
      (ready.flatMap (fun t => taskLines (s.tasks t))) := by
    refine walk_returns id _ ready 0 _ 0 (ready.map_id.symm ▸ inOrder.readyQueue.links) (fun t member => ?_) rfl
      (fun t member => print_task_returns s t (inOrder.readyQueue.nonnull member))
    have other : t ≠ s.runningTask := fun same => queued (same ▸ List.mem_append_left _ member)
    rw [id, decide_eq_false (inOrder.readyQueue.nonnull member), decide_eq_false other, Bool.or_false]
  have asleep' : (walk (fun t => t = 0) s.next (printTask s) s.sleepHead).Returns (asleep.flatMap (fun t => taskLines (s.tasks t))) :=
    walk_returns id _ asleep 0 _ 0 (asleep.map_id.symm ▸ inOrder.sleepQueue.links)
      (fun t member => decide_eq_false (inOrder.sleepQueue.nonnull member)) rfl (fun t member => print_task_returns s t (inOrder.sleepQueue.nonnull member))
  rw [listing, List.flatMap_cons, List.flatMap_append, ← List.append_assoc]
  unfold schedPrintInfo Returns
  rw [ends_bind_of_returns _ _ _ _ running, ends_bind_of_returns _ _ _ _ ready', ends_bind_of_returns _ _ _ _ asleep', runningLine,
    if_pos inOrder.enabled]
  exact (ends_pure _ _).mpr rfl

end Order

theorem sched_listing_exact (alloc : Alloc) (boot start s : State) (booted : Booted boot) (init : schedInit alloc boot = .ok start)
    (run : Reaches (Step anyOp) start s) : ∃ ready asleep, Queue 0 s.next s.readyHead s.readyTail ready ∧
      Queue 0 s.next s.sleepHead s.sleepTail asleep ∧ (s.runningTask :: (ready ++ asleep)).Perm s.live ∧ s.live.Nodup ∧
      (schedPrintInfo s).Returns (listing s (s.runningTask :: (ready ++ asleep))) ∧
      Displayed (listing s (s.runningTask :: (ready ++ asleep))) := by
  obtain ⟨first, stack, -, tracks⟩ := init_tracks alloc boot start booted init
  obtain ⟨a, -, tracks'⟩ := run_tracks anyOp (fun _ _ => True) (fun _ _ _ _ _ => trivial) start s _ tracks run
  have inOrder := in_order_of_tracks tracks'
  exact ⟨a.ready, a.asleep, inOrder.readyQueue, inOrder.sleepQueue, inOrder.places, inOrder.nodup, inOrder.listed, listing_displayed _ _⟩

theorem sched_listing_of_two : ∃ start s, schedInit (.made 0x1000 0x2000) zeroed = .ok start ∧
    replay anyOp 9 [.createKernelTask (.made 0x9000 0xA000) 0xC0100000] start = some s ∧ ∃ ready asleep,
      (s.runningTask :: (ready ++ asleep)).Perm [0x9000, 0x1000] ∧ (schedPrintInfo s).Returns (listing s (s.runningTask :: (ready ++ asleep))) := by
  obtain ⟨start, s, init, played, live⟩ : ∃ start s, schedInit (.made 0x1000 0x2000) zeroed = .ok start ∧
      replay anyOp 9 [.createKernelTask (.made 0x9000 0xA000) 0xC0100000] start = some s ∧ s.live = [0x9000, 0x1000] := ⟨_, _, rfl, rfl, rfl⟩
  obtain ⟨ready, asleep, -, -, places, -, printed, -⟩ := sched_listing_exact _ _ start s zeroed_booted init (replay_reaches _ _ _ _ _ played)
  exact ⟨start, s, init, played, ready, asleep, live ▸ places, printed⟩

end Deimos.Sched
