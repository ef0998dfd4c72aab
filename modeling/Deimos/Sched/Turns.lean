import Deimos.Sched.Idle

set_option autoImplicit false

namespace Deimos.Sched

open Comp LinkedQueue Log

variable {past : List (Call × Globals) × List (Call × View)}

-- The tasks that came to their turn: each was given the processor, or freed
-- because it had been killed.
def served : List Call → List Word
  | [] => []
  | .dispatch t :: calls => served calls ++ [t]
  | .freeTask t :: calls => served calls ++ [t]
  | _ :: calls => served calls

theorem served_append (newer older : List Call) : served (newer ++ older) = served older ++ served newer := by
  induction newer with
  | nil => simp [served]
  | cons call newer ih => cases call <;> simp [served, ih]

theorem enqueued_append (newer older : List Call) : enqueued (newer ++ older) = enqueued older ++ enqueued newer := by
  induction newer with
  | nil => simp [enqueued]
  | cons call newer ih => cases call <;> simp [enqueued, ih]

theorem served_split (calls : List Call) (k : Nat) (t : Word) (place : (served calls)[k]? = some t) :
    ∃ newer call older, calls = newer ++ call :: older ∧ (call = .dispatch t ∨ call = .freeTask t) ∧ (served older).length = k := by
  have last (call : Call) (u : Word) (rest : List Call) (serves : call = .dispatch u ∨ call = .freeTask u)
      (ih : (served rest)[k]? = some t → ∃ newer call older, rest = newer ++ call :: older ∧ (call = .dispatch t ∨ call = .freeTask t) ∧
        (served older).length = k) (found : (served rest ++ [u])[k]? = some t) :
      ∃ newer call' older, call :: rest = newer ++ call' :: older ∧ (call' = .dispatch t ∨ call' = .freeTask t) ∧
        (served older).length = k := by
    by_cases before : k < (served rest).length
    · rw [List.getElem?_append_left before] at found
      obtain ⟨newer, call', older, rfl, rest⟩ := ih found
      exact ⟨call :: newer, call', older, rfl, rest⟩
    · rw [List.getElem?_append_right (by omega), List.getElem?_singleton] at found
      split at found
      · rename_i first
        obtain rfl : u = t := Option.some.inj found
        exact ⟨[], call, rest, rfl, serves, by omega⟩
      · cases found
  induction calls with
  | nil => cases place
  | cons call calls ih =>
      have skip (same : served (call :: calls) = served calls) : ∃ newer call' older, call :: calls = newer ++ call' :: older ∧
          (call' = .dispatch t ∨ call' = .freeTask t) ∧ (served older).length = k := by
        obtain ⟨newer, call', older, rfl, rest⟩ := ih (same ▸ place)
        exact ⟨call :: newer, call', older, rfl, rest⟩
      cases call with
      | dispatch u => exact last (.dispatch u) u calls (.inl rfl) ih place
      | freeTask u => exact last (.freeTask u) u calls (.inr rfl) ih place
      | newTask u => exact skip rfl
      | enqueueReady u => exact skip rfl
      | getNext u => exact skip rfl
      | enqueueSleep u => exact skip rfl
      | wake u => exact skip rfl

def Serves (least : Nat) (a b : Abs) : Prop :=
  ∃ new, served b.history = served a.history ++ new ∧ dequeued b.history = dequeued a.history ++ new ∧ least ≤ new.length

theorem serves_of_eq (a b : Abs) (same : served b.history = served a.history) (same' : dequeued b.history = dequeued a.history) :
    Serves 0 a b := ⟨[], by rw [same, List.append_nil], by rw [same', List.append_nil], Nat.le_refl 0⟩

theorem serves_trans (m n : Nat) (a b c : Abs) (first : Serves m a b) (second : Serves n b c) : Serves (m + n) a c := by
  obtain ⟨new, done, taken, least⟩ := first
  obtain ⟨more, done', taken', least'⟩ := second
  refine ⟨new ++ more, by rw [done', done, List.append_assoc], by rw [taken', taken, List.append_assoc], ?_⟩
  rw [List.length_append]
  omega

theorem serves_one (a b : Abs) (t : Word) (same : served b.history = served a.history ++ [t])
    (same' : dequeued b.history = dequeued a.history ++ [t]) : Serves 1 a b := ⟨[t], same, same', Nat.le_refl 1⟩

section Moves

variable (a b : Abs)

theorem serves_leave (done : a.leave = .ok b) : Serves 0 a b := by
  cases leave_cases a b done with
  | running | destroy | sleeping => exact serves_of_eq _ _ rfl rfl

theorem serves_update : Serves 0 a a.updateSleepQueue := by
  refine Run.invariant (fun e : Abs => Serves 0 a e) ?_ a.lowerHead _ (serves_of_eq _ _ rfl rfl) (Abs.wake_due_wakes a.lowerHead).1
  rintro e _ serves ⟨t, rest, -, -, rfl⟩
  exact serves_trans 0 0 a e _ serves (serves_of_eq _ _ rfl rfl)

theorem serves_switch (regs : Regs) (done : a.switchTask regs = .ok b) : Serves 1 a b := by
  obtain ⟨c, d, t, rest, left, passes, -, -, rfl⟩ := Abs.switch_ok regs a b done
  have begun : Serves 0 a c := serves_leave (a.saveRegs regs) c left
  have reaped : Serves 0 a d := by
    refine Run.invariant (fun e : Abs => Serves 0 a e) ?_ c d begun passes
    rintro e _ ⟨new, done, taken, -⟩ ⟨u, others, -, -, rfl⟩
    obtain ⟨more, done', taken', -⟩ := serves_one e (e.reap u others) u rfl rfl
    exact ⟨new ++ more, by rw [done', done, List.append_assoc], by rw [taken', taken, List.append_assoc], Nat.zero_le _⟩
  exact serves_trans 0 1 a d _ reaped (serves_one d (d.dispatch t rest) t rfl rfl)

instance (op : Op) : Decidable (switches op) :=
  match op with
  | .createKernelTask _ _ | .kill _ => inferInstanceAs (Decidable False)
  | .schedYield _ | .schedKill _ | .sleep _ _ | .usleep _ _ | .doScheduling _ => inferInstanceAs (Decidable True)

theorem serves_exec (op : Op) (done : a.exec op = .ok b) : Serves (if switches op then 1 else 0) a b := by
  cases op with
  | createKernelTask alloc func =>
      cases done
      cases alloc <;> exact serves_of_eq _ _ rfl rfl
  | kill pid =>
      cases done
      change Serves 0 a (a.kill pid)
      unfold Abs.kill
      cases a.findTask pid <;> exact serves_of_eq _ _ rfl rfl
  | schedYield regs => exact serves_switch a b regs done
  | schedKill regs => exact serves_switch (a.setTask a.runningTask (fun task => { task with state := .destroy })) b regs done
  | sleep seconds regs => exact serves_switch (a.doze _) b regs done
  | usleep millis regs => exact serves_switch (a.doze _) b regs done
  | doScheduling regs => exact serves_trans 0 1 a a.charge.updateSleepQueue b (serves_update a.charge) (serves_switch _ b regs done)

end Moves

inductive Turns : Nat → State → State → Prop
  | start (s : State) : Turns 0 s s
  | call (n : Nat) (s u v : State) (op : Op) (before : Turns n s u) (allowed : Allowed op u) (returned : (exec op u).Returns v) :
      Turns (n + if switches op then 1 else 0) s v

theorem turns_tracks (n : Nat) (s u : State) (a : Abs) (tracks : Tracks past s a) (logged : Logged a) (turns : Turns n s u) :
    ∃ b, Tracks past u b ∧ Logged b ∧ Serves n a b := by
  induction turns with
  | start s => exact ⟨a, tracks, logged, serves_of_eq _ _ rfl rfl⟩
  | call n s u v op _ allowed returned ih =>
      obtain ⟨b, tracks, logged, serves⟩ := ih tracks
      have allowed' := allowed_abs u b tracks.toSim op allowed
      obtain ⟨c, done, sim⟩ := simulates_returns _ _ v (sim_exec u b tracks.toSim tracks.placed tracks.busy op allowed) returned
      obtain ⟨placed, busy⟩ := placed_exec b c op tracks.placed tracks.busy allowed' done
      exact ⟨c, ⟨sim, placed, busy⟩, logged_exec b c logged tracks.placed tracks.busy op allowed' done,
        serves_trans n _ a b c serves (serves_exec b c op done)⟩

theorem served_in_order (a b : Abs) (logged : Logged a) (logged' : Logged b) (n : Nat) (serves : Serves n a b) (calls : List Call)
    (later : b.history = calls ++ a.history) :
    served calls ++ b.ready = a.ready ++ enqueued calls ∧ n ≤ (served calls).length := by
  obtain ⟨new, done, taken, least⟩ := serves
  rw [later, served_append] at done
  obtain rfl : served calls = new := List.append_cancel_left done
  have fifo := logged'.fifo
  rw [taken, later, enqueued_append, logged.fifo, List.append_assoc, List.append_assoc] at fifo
  exact ⟨(List.append_cancel_left fifo).symm, least⟩

-- A task that is ready is given the processor, or freed because it was killed,
-- after exactly those that are before it in the queue, and so at the latest
-- at the turn of that number, whatever tasks are created, killed, put to sleep
-- and woken meanwhile. There are never more before it than live tasks.
theorem ready_served_in_turn (alloc : Alloc) (boot start s u : State) (booted : Booted boot) (init : schedInit alloc boot = .ok start)
    (run : Run.Reaches (Step anyOp) start s) (ready : List Word) (queue : Queue 0 s.next s.readyHead s.readyTail ready) (k : Nat) (t : Word)
    (place : ready[k]? = some t) (n : Nat) (turns : Turns n s u) (enough : k < n) :
    k + 1 < s.live.length ∧ ∃ newer call older, u.history = newer ++ call :: (older ++ s.history) ∧
      (call = .dispatch t ∨ call = .freeTask t) ∧ served older = ready.take k := by
  obtain ⟨first, stack, -, tracks⟩ := init_tracks alloc boot start booted init
  obtain ⟨a, steps, tracks'⟩ := run_tracks anyOp (fun _ _ => True) (fun _ _ _ _ _ => trivial) start s _ tracks run
  have logged : Logged a := by
    refine (Run.invariant (fun c : Abs => Logged c ∧ Placed c.toView ∧ c.runningTask ≠ 0) ?_ _ a
      ⟨logged_started boot booted first stack, tracks.placed, tracks.busy⟩ steps).1
    rintro c d ⟨logged, placed, busy⟩ ⟨op, allowed, -, done⟩
    exact ⟨logged_exec c d logged placed busy op allowed done, placed_exec c d op placed busy allowed done⟩
  obtain rfl : ready = a.ready := links_unique queue.links tracks'.ready.links
  have inside : k < a.ready.length := (List.getElem?_eq_some_iff.mp place).1
  obtain ⟨b, tracks'', logged', serves⟩ := turns_tracks n s u a (tracks_anew s a tracks') logged turns
  obtain ⟨calls, calls', grown, grown', along⟩ := beside_since _ _ tracks''.calls
  have later : b.history = calls'.map Prod.fst ++ a.history := by rw [Abs.history, grown', List.map_append, Abs.history]
  have same : calls.map Prod.fst = calls'.map Prod.fst := map_beside _ _ _ _ along (fun _ _ beside => beside.1)
  obtain ⟨order, least⟩ := served_in_order a b logged logged' n serves _ later
  have taken : (served (calls'.map Prod.fst)).take k = a.ready.take k := by
    have both := congrArg (List.take k) order
    rwa [List.take_append_of_le_length (by omega), List.take_append_of_le_length (by omega)] at both
  have place' : (served (calls'.map Prod.fst))[k]? = some t := by
    have both := congrArg (·[k]?) order
    simp only [List.getElem?_append_left (show k < (served (calls'.map Prod.fst)).length by omega),
      List.getElem?_append_left inside] at both
    exact both.trans place
  refine ⟨?_, ?_⟩
  · have places := tracks'.placed.places.length_eq
    rw [on_cpu_of_ne a.toView tracks'.busy] at places
    simp only [List.length_append, List.length_singleton] at places
    rw [show s.live = a.live from congrArg Shared.live tracks'.shared]
    omega
  · obtain ⟨newer, call, older, split, serves', before⟩ := served_split _ k t place'
    refine ⟨newer, call, older, ?_, serves', ?_⟩
    · rw [State.history, grown, List.map_append, same, split, List.append_assoc, List.cons_append, State.history]
    · rw [split, served_append, ← List.singleton_append, served_append, List.append_assoc, List.take_append_of_le_length (by omega),
        List.take_of_length_le (by omega)] at taken
      exact taken

theorem ready_served_at_second_switch : ∃ start s u, schedInit (.made 0x1000 0x2000) zeroed = .ok start ∧
    replay anyOp 9 [.createKernelTask (.made 0x9000 0xA000) 0xC0100000, .createKernelTask (.made 0xF000 0x11000) 0xC0100000] start = some s ∧
    Turns 2 s u ∧ ∃ newer call older, u.history = newer ++ call :: (older ++ s.history) ∧
      (call = .dispatch 0xF000 ∨ call = .freeTask 0xF000) ∧ served older = [0x9000] := by
  obtain ⟨start, s, v, u, init, played, queue, first, second⟩ : ∃ start s v u, schedInit (.made 0x1000 0x2000) zeroed = .ok start ∧
      replay anyOp 9 [.createKernelTask (.made 0x9000 0xA000) 0xC0100000, .createKernelTask (.made 0xF000 0x11000) 0xC0100000] start = some s ∧
      Queue 0 s.next s.readyHead s.readyTail [0x9000, 0xF000] ∧ (exec (.schedYield ⟨0xC0101000, 0, 0⟩) s).run 9 = some (.ok v) ∧
      (exec (.doScheduling ⟨0xC0101000, 0, 0⟩) v).run 9 = some (.ok u) :=
    ⟨_, _, _, _, rfl, rfl, ⟨⟨rfl, by decide, rfl, by decide, rfl⟩, rfl, by decide⟩, rfl, rfl⟩
  have unmarked : (0xC0101000 : Word) ≠ 0x12345 := by decide
  have turns : Turns 2 s u :=
    .call 1 s v u (.doScheduling ⟨0xC0101000, 0, 0⟩) (.call 0 s s v (.schedYield ⟨0xC0101000, 0, 0⟩) (.start s) unmarked ⟨9, first⟩) unmarked
      ⟨9, second⟩
  exact ⟨start, s, u, init, played, turns, (ready_served_in_turn _ _ start s u zeroed_booted init (replay_reaches _ _ _ _ _ played) _ queue
    1 0xF000 rfl 2 turns (by decide)).2⟩

end Deimos.Sched
