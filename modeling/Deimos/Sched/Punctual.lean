import Deimos.Lib.Deltas
import Deimos.Sched.Structure

set_option autoImplicit false

namespace Deimos.Sched

open Comp LinkedQueue Log Deltas

def ticksOf (tasks : Word → Task) (t : Word) : Nat := (tasks t).sleepTicks.toNat

-- A sleeper for ticks goes in on time behind every other, or behind the first
-- one when no other has the same deadline.
def timely (ticks : Nat) (deltas : List Nat) : Prop :=
  deltas.sum ≤ ticks ∨ (∃ d rest, deltas = d :: rest ∧ d < ticks) ∧ ticks ∉ sums 0 deltas

theorem sum_step (sum : Word) (tasks : Word → Task) (t : Word) (bounded : sum.toNat + ticksOf tasks t < 2 ^ 32) :
    (sum + (tasks t).sleepTicks).toNat = sum.toNat + ticksOf tasks t := by
  unfold ticksOf at bounded ⊢
  rw [BitVec.toNat_add]
  omega

theorem slot_spec (tasks : Word → Task) (target : Word) (sum total' : Word) (asleep front back : List Word)
    (bounded : sum.toNat + total (ticksOf tasks) asleep < 2 ^ 32)
    (found : Abs.slot (fun t => (tasks t).sleepTicks) target sum asleep = (front, total', back)) :
    total'.toNat = sum.toNat + total (ticksOf tasks) front ∧
      ∀ z rest, back = z :: rest → total'.toNat < target.toNat ∧ target.toNat < total'.toNat + ticksOf tasks z := by
  induction asleep generalizing sum front with
  | nil =>
      cases found
      exact ⟨rfl, nofun⟩
  | cons t rest ih =>
      rw [total] at bounded
      have step := sum_step sum tasks t (by omega)
      rw [Abs.slot] at found
      split at found
      · rename_i here
        cases found
        refine ⟨rfl, fun z others first => ?_⟩
        cases first
        exact ⟨here.1, step ▸ here.2⟩
      · simp only [Prod.mk.injEq] at found
        obtain ⟨rfl, rfl, rfl⟩ := found
        obtain ⟨reached, fits⟩ := ih (sum + (tasks t).sleepTicks) _ (by omega) rfl
        refine ⟨?_, fits⟩
        rw [reached, step, total, Nat.add_assoc]

theorem slot_between (tasks : Word → Task) (target sum total' : Word) (asleep front back : List Word)
    (bounded : sum.toNat + total (ticksOf tasks) asleep < 2 ^ 32) (ahead : sum.toNat < target.toNat)
    (apart : target.toNat ∉ sums sum.toNat (asleep.map (ticksOf tasks)))
    (inside : target.toNat < sum.toNat + total (ticksOf tasks) asleep)
    (found : Abs.slot (fun t => (tasks t).sleepTicks) target sum asleep = (front, total', back)) : back ≠ [] := by
  induction asleep generalizing sum front with
  | nil =>
      rw [total] at inside
      omega
  | cons t rest ih =>
      rw [total] at bounded inside
      have step := sum_step sum tasks t (by omega)
      simp only [List.map_cons, sums, List.mem_cons, not_or] at apart
      rw [Abs.slot] at found
      split at found
      · cases found
        exact List.cons_ne_nil t rest
      · rename_i beyond
        simp only [Prod.mk.injEq] at found
        obtain ⟨-, rfl, rfl⟩ := found
        have reached : sum.toNat + ticksOf tasks t ≤ target.toNat := by
          by_contra more
          exact beyond ⟨ahead, by rw [gt_iff_lt, BitVec.lt_def, step]; omega⟩
        exact ih (sum + (tasks t).sleepTicks) _ (by omega) (by have := apart.1; omega) (step ▸ apart.2) (by omega) rfl

theorem slot_timely (tasks : Word → Task) (target total' : Word) (asleep front back : List Word)
    (bounded : total (ticksOf tasks) asleep < 2 ^ 32) (awaited : target ≠ 0)
    (onTime : timely target.toNat (asleep.map (ticksOf tasks)))
    (found : Abs.slot (fun t => (tasks t).sleepTicks) target 0 asleep = (front, total', back)) :
    (front = [] → back = []) ∧ (back = [] → total (ticksOf tasks) asleep ≤ target.toNat) := by
  obtain ⟨reached, fits⟩ := slot_spec tasks target 0 total' asleep front back (by simpa using bounded) found
  have split := slot_split _ _ _ _ _ _ _ found
  have positive : 0 < target.toNat := by bv_omega
  have last : total (ticksOf tasks) asleep ≤ target.toNat → back = [] := by
    intro late
    by_contra more
    obtain ⟨z, rest, rfl⟩ := List.exists_cons_of_ne_nil more
    have inside := (fits z rest rfl).2
    rw [split, total_append, total] at late
    rw [reached] at inside
    simp at inside
    omega
  by_cases late : total (ticksOf tasks) asleep ≤ target.toNat
  · exact ⟨fun _ => last late, fun _ => late⟩
  · rw [total_sum] at late
    obtain ⟨⟨d, deltas, shape, behind⟩, apart⟩ := onTime.resolve_left late
    rw [← total_sum] at late
    have inside : back ≠ [] := slot_between tasks target 0 total' asleep front back (by simpa using bounded) positive
      (by simpa using apart) (by simpa using late) found
    refine ⟨fun none => ?_, fun empty => absurd empty inside⟩
    subst none
    obtain ⟨z, rest, rfl⟩ := List.exists_cons_of_ne_nil inside
    have first := (fits z rest rfl).2
    rw [split, List.nil_append, List.map_cons, List.cons.injEq] at shape
    rw [reached, total, shape.1] at first
    simp at first
    omega

def WokenAt {γ : Type} (now : γ → Nat) (t : Word) (due : Nat) (later : List (Call × γ)) : Prop :=
  ∃ after g g' before, later = after ++ (.enqueueReady t, g') :: (.wake t, g) :: before ∧ (∀ e ∈ before, e.1 ≠ .wake t) ∧
    now g = due ∧ now g' = due

structure Waiting (a : Abs) (t : Word) (due : Nat) (later : List (Call × View)) : Prop where
  asleep : t ∈ a.asleep
  unwoken : ∀ e ∈ later, e.1 ≠ .wake t
  left : a.now + deadline (ticksOf a.tasks) t a.asleep = due

def dueAt (v : View) (t : Word) : Nat := v.now + ticksOf v.tasks t

structure Punctual (a : Abs) : Prop where
  entries : ∀ later t v earlier, a.calls = later ++ (.enqueueSleep t, v) :: earlier →
    WokenAt (fun v : View => v.now) t (dueAt v t) later ∨ Waiting a t (dueAt v t) later
  bounded : total (ticksOf a.tasks) a.asleep < 2 ^ 32

theorem woken_later {γ : Type} (now : γ → Nat) (t : Word) (due : Nat) (later new : List (Call × γ)) (woken : WokenAt now t due later) :
    WokenAt now t due (new ++ later) := by
  obtain ⟨after, g, g', before, rfl, rest⟩ := woken
  exact ⟨new ++ after, g, g', before, (List.append_assoc _ _ _).symm, rest⟩

section Moves

variable (a b : Abs) (punctual : Punctual a)

include punctual

theorem punctual_frame (new : List (Call × View)) (calls : b.calls = new ++ a.calls)
    (quiet : ∀ e ∈ new, ∀ t, e.1 ≠ .enqueueSleep t ∧ e.1 ≠ .wake t) (asleep : b.asleep = a.asleep) (now : b.now = a.now)
    (ticks : ∀ t ∈ a.asleep, (b.tasks t).sleepTicks = (a.tasks t).sleepTicks) : Punctual b := by
  have same : ∀ t ∈ a.asleep, ticksOf b.tasks t = ticksOf a.tasks t := fun t member => congrArg BitVec.toNat (ticks t member)
  refine ⟨fun later t v earlier shape => ?_, ?_⟩
  · obtain ⟨later', rfl, older⟩ := split_older new a.calls later earlier _ (calls ▸ shape) (fun member => (quiet _ member t).1 rfl)
    rcases punctual.entries later' t v earlier older with woken | waiting
    · exact .inl (woken_later _ t _ later' new woken)
    · refine .inr ⟨asleep ▸ waiting.asleep, fun e member => ?_, ?_⟩
      · exact (List.mem_append.mp member).elim (fun recent => (quiet e recent t).2) (waiting.unwoken e)
      · rw [now, asleep, deadline_congr same]
        exact waiting.left
  · rw [asleep, total_congr same]
    exact punctual.bounded

theorem punctual_clock (ahead : ∀ t rest, a.asleep = t :: rest → (a.tasks t).sleepTicks ≠ 0) (nodup : a.asleep.Nodup) :
    Punctual a.charge.lowerHead := by
  have charged : ∀ t, (a.charge.tasks t).sleepTicks = (a.tasks t).sleepTicks := fun t =>
    set_task_field _ a.runningTask t (fun task => { task with cpuTime := task.cpuTime + 1 }) Task.sleepTicks rfl
  obtain empty | ⟨h, rest, first⟩ : a.asleep = [] ∨ ∃ h rest, a.asleep = h :: rest := by cases a.asleep <;> simp
  · refine ⟨fun later t v earlier shape => ?_, ?_⟩
    · rcases punctual.entries later t v earlier shape with woken | waiting
      · exact .inl woken
      · exact absurd waiting.asleep (by simp [empty])
    · change total _ a.asleep < _
      rw [empty]
      exact Nat.two_pow_pos 32
  · rw [first] at nodup
    have absent := (List.nodup_cons.mp nodup).1
    have pending := ahead h rest first
    have lowers : a.charge.lowerHead.tasks = Abs.lowered 1 a.charge.tasks (h :: rest) :=
      congrArg (Abs.lowered 1 a.charge.tasks) first
    have head : ticksOf a.charge.lowerHead.tasks h + 1 = ticksOf a.tasks h := by
      unfold ticksOf
      rw [lowers, Abs.lowered, Function.update_self, charged h]
      bv_omega
    have tail : ∀ u ∈ rest, ticksOf a.charge.lowerHead.tasks u = ticksOf a.tasks u := fun u member => by
      unfold ticksOf
      rw [lowers, Abs.lowered, Function.update_of_ne (ne_of_mem_of_not_mem member absent), charged u]
    refine ⟨fun later t v earlier shape => ?_, ?_⟩
    · rcases punctual.entries later t v earlier shape with woken | waiting
      · exact .inl woken
      · refine .inr ⟨waiting.asleep, waiting.unwoken, ?_⟩
        have left := waiting.left
        have nearer : deadline (ticksOf a.charge.lowerHead.tasks) t (h :: rest) + 1 = deadline (ticksOf a.tasks) t (h :: rest) :=
          deadline_tick head tail
        rw [first, ← nearer] at left
        change a.now + 1 + deadline _ t a.asleep = _
        rw [first]
        omega
    · have bounded := punctual.bounded
      rw [first, total] at bounded
      change total _ a.asleep < _
      rw [first, total, total_congr tail]
      omega

theorem punctual_wake (t : Word) (rest : List Word) (first : a.asleep = t :: rest) (due : (a.tasks t).sleepTicks = 0) :
    Punctual (a.wake t rest) := by
  have ticks : ∀ u ∈ rest, ticksOf (a.wake t rest).tasks u = ticksOf a.tasks u := fun u _ =>
    congrArg BitVec.toNat (set_task_field a t u (fun task => { task with state := .ready }) Task.sleepTicks rfl)
  have none : ticksOf a.tasks t = 0 := congrArg BitVec.toNat due
  refine ⟨fun later u v earlier shape => ?_, ?_⟩
  · obtain ⟨later', rfl, older⟩ := split_older [_, _] a.calls later earlier _ shape (by simp)
    rcases punctual.entries later' u v earlier older with woken | waiting
    · exact .inl (woken_later _ u _ later' _ woken)
    · have left := waiting.left
      rw [first] at left
      by_cases here : u = t
      · subst here
        rw [deadline_head, none] at left
        exact .inl ⟨[], _, _, later', rfl, waiting.unwoken, left, left⟩
      · have asleep : u ∈ rest := by simpa [first, here] using waiting.asleep
        rw [deadline_tail (Ne.symm here), none, Nat.zero_add] at left
        refine .inr ⟨asleep, fun e member => ?_, ?_⟩
        · simp only [List.cons_append, List.nil_append, List.mem_cons] at member
          rcases member with rfl | rfl | older
          · nofun
          · exact fun same => here (by cases same; rfl)
          · exact waiting.unwoken e older
        · change a.now + deadline (ticksOf (a.wake t rest).tasks) u rest = _
          rw [deadline_congr ticks]
          exact left
  · have bounded := punctual.bounded
    rw [first, total] at bounded
    change total _ rest < _
    rw [total_congr ticks]
    omega

omit punctual

theorem insert_ticks (y total' : Word) (front back : List Word) (early : total'.toNat ≤ ticksOf a.tasks y)
    (fits : ∀ z rest, back = z :: rest → ticksOf a.tasks y < total'.toNat + ticksOf a.tasks z)
    (fresh : y ∉ front ++ back) (nodup : (front ++ back).Nodup) (ticks : Word → Nat)
    (after : ticks = ticksOf (a.insertSleeper y ((a.tasks y).sleepTicks - total') front back).tasks) :
    ticks y + total'.toNat = ticksOf a.tasks y ∧ (∀ z rest, back = z :: rest → ticks y + ticks z = ticksOf a.tasks z) ∧
      ∀ u ∈ front ++ back.tail, ticks u = ticksOf a.tasks u := by
  have delta : ((a.tasks y).sleepTicks - total').toNat + total'.toNat = ticksOf a.tasks y := by
    rw [BitVec.toNat_sub_of_le early]
    exact Nat.sub_add_cancel early
  have own : ((a.setTask y (fun task => { task with sleepTicks := (a.tasks y).sleepTicks - total' })).tasks y).sleepTicks =
      (a.tasks y).sleepTicks - total' := congrArg Task.sleepTicks (set_task_self a y _)
  have other : ∀ u, u ≠ y → (a.setTask y (fun task => { task with sleepTicks := (a.tasks y).sleepTicks - total' })).tasks u = a.tasks u :=
    fun u other => set_task_other a y u _ other
  cases back with
  | nil =>
      have tasks : (a.insertSleeper y ((a.tasks y).sleepTicks - total') front []).tasks =
        (a.setTask y (fun task => { task with sleepTicks := (a.tasks y).sleepTicks - total' })).tasks := rfl
      refine ⟨?_, nofun, fun u member => ?_⟩
      · rw [after, tasks, ticksOf, own]
        exact delta
      · rw [List.tail_nil, List.append_nil] at member
        rw [after, tasks, ticksOf, other u (ne_of_mem_of_not_mem member (by simpa using fresh))]
        rfl
  | cons z rest =>
      have tasks : (a.insertSleeper y ((a.tasks y).sleepTicks - total') front (z :: rest)).tasks =
        Abs.lowered ((a.tasks y).sleepTicks - total')
          (a.setTask y (fun task => { task with sleepTicks := (a.tasks y).sleepTicks - total' })).tasks (z :: rest) := rfl
      have apart : y ≠ z := by rintro rfl; simp at fresh
      have inside := fits z rest rfl
      have first : ticks y = ((a.tasks y).sleepTicks - total').toNat := by
        rw [after, tasks, ticksOf, Abs.lowered, Function.update_of_ne apart, own]
      refine ⟨?_, fun z' rest' same => ?_, fun u member => ?_⟩
      · rw [first]
        exact delta
      · cases same
        have less : ((a.tasks y).sleepTicks - total').toNat ≤ ticksOf a.tasks z := by omega
        have second : ticks z = ticksOf a.tasks z - ((a.tasks y).sleepTicks - total').toNat := by
          rw [after, tasks, ticksOf, Abs.lowered, Function.update_self, other z apart.symm, BitVec.toNat_sub_of_le less]
          rfl
        rw [first, second]
        exact Nat.add_sub_cancel' less
      · have absent : z ∉ front ++ rest := (List.nodup_cons.mp (List.perm_middle.nodup_iff.mp nodup)).1
        have outside : y ∉ front ++ rest := fun inside => fresh (by simp at inside ⊢; tauto)
        rw [after, tasks, ticksOf, Abs.lowered, Function.update_of_ne (ne_of_mem_of_not_mem member absent),
          other u (ne_of_mem_of_not_mem member outside)]
        rfl

include punctual

theorem slot_ticks (y total' : Word) (front back : List Word)
    (found : Abs.slot (fun t => (a.tasks t).sleepTicks) (a.tasks y).sleepTicks 0 a.asleep = (front, total', back))
    (last : back = [] → total (ticksOf a.tasks) a.asleep ≤ ticksOf a.tasks y) (fresh : y ∉ a.asleep) (nodup : a.asleep.Nodup)
    (ticks : Word → Nat) (after : ticks = ticksOf (a.insertSleeper y ((a.tasks y).sleepTicks - total') front back).tasks) :
    ticks y + total (ticksOf a.tasks) front = ticksOf a.tasks y ∧
      (∀ z rest, back = z :: rest → ticks y + ticks z = ticksOf a.tasks z) ∧
      ∀ u ∈ front ++ back.tail, ticks u = ticksOf a.tasks u := by
  have split := slot_split _ _ _ _ _ _ _ found
  obtain ⟨reached, fits⟩ := slot_spec a.tasks (a.tasks y).sleepTicks 0 total' a.asleep front back (by simpa using punctual.bounded) found
  have reached : total'.toNat = total (ticksOf a.tasks) front := by simpa using reached
  rw [split] at nodup fresh
  have early : total'.toNat ≤ ticksOf a.tasks y := by
    rw [reached]
    cases back with
    | nil => simpa [split] using last rfl
    | cons z rest => exact reached ▸ Nat.le_of_lt (fits z rest rfl).1
  rw [← reached]
  exact insert_ticks a y total' front back early (fun z rest shape => (fits z rest shape).2) fresh nodup ticks after

theorem punctual_insert (y total' : Word) (front back : List Word)
    (found : Abs.slot (fun t => (a.tasks t).sleepTicks) (a.tasks y).sleepTicks 0 a.asleep = (front, total', back))
    (last : back = [] → total (ticksOf a.tasks) a.asleep ≤ ticksOf a.tasks y) (fresh : y ∉ a.asleep) (nodup : a.asleep.Nodup) :
    Punctual (a.insertSleeper y ((a.tasks y).sleepTicks - total') front back) := by
  have split := slot_split _ _ _ _ _ _ _ found
  obtain ⟨own, behind, same⟩ := slot_ticks a punctual y total' front back found last fresh nodup _ rfl
  rw [split] at fresh
  generalize ticks : ticksOf (a.insertSleeper y ((a.tasks y).sleepTicks - total') front back).tasks = ticks' at own behind same
  have front' : ∀ u ∈ front, ticks' u = ticksOf a.tasks u := fun u member => same u (List.mem_append_left _ member)
  have others : ∀ w ∈ front ++ back, deadline ticks' w (front ++ y :: back) = deadline (ticksOf a.tasks) w (front ++ back) :=
    deadline_kept fresh behind same
  refine ⟨fun later t v earlier shape => ?_, ?_⟩
  · cases later with
    | nil =>
        cases shape
        have member : y ∈ front ++ y :: back := List.mem_append_right front List.mem_cons_self
        refine .inr ⟨member, List.forall_mem_nil _, ?_⟩
        change a.now + deadline _ y (front ++ y :: back) = a.now + ticksOf a.tasks y
        rw [ticks, deadline_new (fun member => fresh (List.mem_append_left _ member)), total_congr front', ← own, Nat.add_comm (ticks' y)]
    | cons e later =>
        obtain ⟨rfl, older⟩ := List.cons.inj shape
        rcases punctual.entries later t v earlier older with woken | waiting
        · exact .inl (woken_later _ t _ later [_] woken)
        · have member : t ∈ front ++ back := split ▸ waiting.asleep
          refine .inr ⟨?_, fun e member => ?_, ?_⟩
          · change t ∈ front ++ y :: back
            simp at member ⊢
            tauto
          · exact (List.mem_cons.mp member).elim (fun here => by rw [here]; nofun) (waiting.unwoken e)
          · change a.now + deadline _ t (front ++ y :: back) = _
            rw [ticks, others t member, ← split]
            exact waiting.left
  · change total _ (front ++ y :: back) < _
    rw [ticks]
    cases back with
    | nil =>
        rw [total_append, total_congr front', total, total, Nat.add_zero, Nat.add_comm, own]
        exact BitVec.isLt _
    | cons z rest =>
        rw [show total ticks' (front ++ y :: z :: rest) = _ from total_insert (behind z rest rfl) same, ← split]
        exact punctual.bounded

end Moves

end Deimos.Sched
