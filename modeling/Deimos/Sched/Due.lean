import Deimos.Sched.Structure

set_option autoImplicit false

namespace Deimos.Sched

-- The sleepers that the next tick wakes: the first one when its delta is 1, and those close behind it.
def dueNext (tasks : Word → Task) : List Word → List Word
  | [] => []
  | t :: rest => if (tasks t).sleepTicks = 1 then t :: rest.takeWhile (fun u => (tasks u).sleepTicks = 0) else []

theorem due_congr (tasks tasks' : Word → Task) (asleep : List Word) (same : ∀ t, (tasks' t).sleepTicks = (tasks t).sleepTicks) :
    dueNext tasks' asleep = dueNext tasks asleep := by
  cases asleep with
  | nil => rfl
  | cons t rest => simp only [dueNext, same]

structure Woken (a b : Abs) (due : List Word) : Prop where
  asleep : a.asleep = due ++ b.asleep
  ready : b.ready = a.ready ++ due
  zero : ∀ t ∈ due, (a.tasks t).sleepTicks = 0
  ticks : ∀ t, (b.tasks t).sleepTicks = (a.tasks t).sleepTicks
  others : ∀ t, t ∉ due → b.tasks t = a.tasks t
  live : b.live = a.live
  now : b.now = a.now

theorem wakes_woken (a b : Abs) (wakes : Run.Reaches Abs.Wakes a b) : ∃ due, Woken a b due := by
  induction wakes with
  | refl => exact ⟨[], rfl, by simp, by simp, fun _ => rfl, fun _ _ => rfl, rfl, rfl⟩
  | @tail c d _ last ih =>
      obtain ⟨due, woken⟩ := ih
      obtain ⟨t, rest, first, zero, rfl⟩ := last
      refine ⟨due ++ [t], ?_, ?_, fun u member => ?_, fun u => ?_, fun u outside => ?_, woken.live, woken.now⟩
      · rw [woken.asleep, first, List.append_assoc]
        rfl
      · change c.ready ++ [t] = a.ready ++ (due ++ [t])
        rw [woken.ready, List.append_assoc]
      · rcases List.mem_append.mp member with before | here
        · exact woken.zero u before
        · rw [List.mem_singleton.mp here, ← woken.ticks t]
          exact zero
      · exact (set_task_field c t u (fun task => { task with state := .ready }) Task.sleepTicks rfl).trans (woken.ticks u)
      · have other : u ≠ t := fun same => outside (by simp [same])
        exact (set_task_other c t u (fun task => { task with state := .ready }) other).trans
          (woken.others u (fun before => outside (by simp [before])))

theorem take_while_congr (p q : Word → Bool) (tasks : List Word) (same : ∀ t ∈ tasks, p t = q t) :
    tasks.takeWhile p = tasks.takeWhile q := by
  induction tasks with
  | nil => rfl
  | cons t rest ih =>
      rw [List.takeWhile_cons, List.takeWhile_cons, same t List.mem_cons_self, ih (fun u member => same u (List.mem_cons_of_mem t member))]

theorem lower_head_due (a : Abs) (nodup : a.asleep.Nodup) :
    a.asleep.takeWhile (fun t => (a.lowerHead.tasks t).sleepTicks = 0) = dueNext a.tasks a.asleep := by
  unfold Abs.lowerHead
  cases shape : a.asleep with
  | nil => rfl
  | cons t rest =>
      rw [shape] at nodup
      have absent := (List.nodup_cons.mp nodup).1
      have head : (Abs.lowered 1 a.tasks (t :: rest) t).sleepTicks = (a.tasks t).sleepTicks - 1 :=
        congrArg Task.sleepTicks (Function.update_self t _ a.tasks)
      have tail : rest.takeWhile (fun u => (Abs.lowered 1 a.tasks (t :: rest) u).sleepTicks = 0) =
          rest.takeWhile (fun u => (a.tasks u).sleepTicks = 0) := by
        refine take_while_congr _ _ rest (fun u member => ?_)
        rw [Abs.lowered, Function.update_of_ne (ne_of_mem_of_not_mem member absent)]
      have due : (a.tasks t).sleepTicks - 1 = 0 ↔ (a.tasks t).sleepTicks = 1 :=
        ⟨fun zero => by bv_omega, fun one => by bv_omega⟩
      rw [dueNext, List.takeWhile_cons, head, tail]
      simp only [decide_eq_true_eq, due]

theorem due_member (due rest : List Word) (p : Word → Bool) (t : Word) (before : ∀ u ∈ due, p u) (here : p t) :
    t ∈ (due ++ t :: rest).takeWhile p := by
  rw [List.takeWhile_append_of_pos before, List.takeWhile_cons_of_pos here]
  simp

end Deimos.Sched
