import Mathlib.Logic.Relation
import Mathlib.Tactic.Common

set_option autoImplicit false

-- Computations that may stop with an error or never end. A computation is its
-- result for each amount of fuel; the second field says that more fuel never
-- changes a result, so the result of a computation does not depend on the fuel.
structure Comp (ε α : Type) where
  run : Nat → Option (Except ε α)
  more : ∀ fuel result, run fuel = some result → run (fuel + 1) = some result

namespace Comp

variable {ε α β σ : Type}

def ofExcept (result : Except ε α) : Comp ε α := ⟨fun _ => some result, fun _ _ same => same⟩

def bind (first : Comp ε α) (rest : α → Comp ε β) : Comp ε β where
  run fuel :=
    match first.run fuel with
    | none => none
    | some (.error stop) => some (.error stop)
    | some (.ok value) => (rest value).run fuel
  more fuel result ended := by
    cases head : first.run fuel with
    | none => simp [head] at ended
    | some outcome =>
        rw [first.more fuel outcome head]
        cases outcome with
        | error stop => simpa [head] using ended
        | ok value =>
            simp only [head] at ended
            exact (rest value).more fuel result ended

instance : Monad (Comp ε) where
  pure value := ofExcept (.ok value)
  bind := bind

instance : MonadLift (Except ε) (Comp ε) := ⟨ofExcept⟩

-- What one pass through a loop body says: go round again, or leave the loop.
inductive Iter (σ α : Type) where
  | next (state : σ)
  | done (result : α)

def loopRun (body : σ → Except ε (Iter σ α)) : Nat → σ → Option (Except ε α)
  | 0, _ => none
  | fuel + 1, state =>
      match body state with
      | .error stop => some (.error stop)
      | .ok (.done result) => some (.ok result)
      | .ok (.next state') => loopRun body fuel state'

theorem loop_run_more (body : σ → Except ε (Iter σ α)) (fuel : Nat) (state : σ) (result : Except ε α)
    (ended : loopRun body fuel state = some result) : loopRun body (fuel + 1) state = some result := by
  induction fuel generalizing state with
  | zero => simp [loopRun] at ended
  | succ fuel ih =>
      rw [loopRun] at ended ⊢
      cases pass : body state with
      | error stop => simpa only [pass] using ended
      | ok iter =>
          cases iter with
          | done value => simpa only [pass] using ended
          | next state' =>
              simp only [pass] at ended
              exact ih state' ended

def loop (body : σ → Except ε (Iter σ α)) (state : σ) : Comp ε α where
  run fuel := loopRun body fuel state
  more fuel result ended := loop_run_more body fuel state result ended

def Ends (comp : Comp ε α) (result : Except ε α) : Prop := ∃ fuel, comp.run fuel = some result

def Returns (comp : Comp ε α) (value : α) : Prop := comp.Ends (.ok value)

def Diverges (comp : Comp ε α) : Prop := ∀ fuel, comp.run fuel = none

theorem run_le (comp : Comp ε α) (small large : Nat) (result : Except ε α) (le : small ≤ large)
    (ended : comp.run small = some result) : comp.run large = some result := by
  induction le with
  | refl => exact ended
  | step _ ih => exact comp.more _ result ih

theorem ends_unique (comp : Comp ε α) (a b : Except ε α) (left : comp.Ends a) (right : comp.Ends b) : a = b := by
  obtain ⟨m, left⟩ := left
  obtain ⟨n, right⟩ := right
  have leftMax := comp.run_le m (max m n) a (Nat.le_max_left m n) left
  have rightMax := comp.run_le n (max m n) b (Nat.le_max_right m n) right
  exact Option.some.inj (leftMax.symm.trans rightMax)

theorem returns_unique (comp : Comp ε α) (a b : α) (left : comp.Returns a) (right : comp.Returns b) : a = b :=
  Except.ok.inj (comp.ends_unique _ _ left right)

theorem diverges_iff (comp : Comp ε α) : comp.Diverges ↔ ∀ result, ¬ comp.Ends result := by
  constructor
  · rintro never result ⟨fuel, ended⟩
    simp [never fuel] at ended
  · intro never fuel
    cases ended : comp.run fuel with
    | none => rfl
    | some result => exact absurd ⟨fuel, ended⟩ (never result)

@[simp] theorem ends_of_except (outcome result : Except ε α) : (ofExcept outcome).Ends result ↔ result = outcome := by
  constructor
  · rintro ⟨_, ended⟩
    exact (Option.some.inj ended).symm
  · rintro rfl
    exact ⟨0, rfl⟩

@[simp] theorem ends_pure (value : α) (result : Except ε α) :
    (pure value : Comp ε α).Ends result ↔ result = .ok value := ends_of_except (.ok value) result

@[simp] theorem ends_lift (outcome result : Except ε α) :
    (liftM outcome : Comp ε α).Ends result ↔ result = outcome := ends_of_except outcome result

theorem ends_bind (first : Comp ε α) (rest : α → Comp ε β) (result : Except ε β) :
    (first >>= rest).Ends result ↔
      (∃ value, first.Returns value ∧ (rest value).Ends result) ∨
      (∃ stop, first.Ends (.error stop) ∧ result = .error stop) := by
  constructor
  · rintro ⟨fuel, ended⟩
    change (bind first rest).run fuel = some result at ended
    simp only [bind] at ended
    cases head : first.run fuel with
    | none => simp [head] at ended
    | some outcome =>
        cases outcome with
        | error stop =>
            simp only [head, Option.some.injEq] at ended
            exact .inr ⟨stop, ⟨fuel, head⟩, ended.symm⟩
        | ok value =>
            simp only [head] at ended
            exact .inl ⟨value, ⟨fuel, head⟩, ⟨fuel, ended⟩⟩
  · rintro (⟨value, ⟨m, head⟩, ⟨n, tail⟩⟩ | ⟨stop, ⟨m, head⟩, rfl⟩)
    · refine ⟨max m n, ?_⟩
      change (bind first rest).run (max m n) = some result
      simp only [bind, first.run_le m _ _ (Nat.le_max_left m n) head]
      exact (rest value).run_le n _ _ (Nat.le_max_right m n) tail
    · refine ⟨m, ?_⟩
      change (bind first rest).run m = some (.error stop)
      simp only [bind, head]

theorem returns_bind (first : Comp ε α) (rest : α → Comp ε β) (value : β) :
    (first >>= rest).Returns value ↔ ∃ middle, first.Returns middle ∧ (rest middle).Returns value := by
  simp [Returns, ends_bind]

theorem ends_bind_of_returns (first : Comp ε α) (rest : α → Comp ε β) (value : α) (result : Except ε β)
    (head : first.Returns value) : (first >>= rest).Ends result ↔ (rest value).Ends result := by
  rw [ends_bind]
  constructor
  · rintro (⟨other, returned, tail⟩ | ⟨stop, stopped, -⟩)
    · rwa [first.returns_unique value other head returned]
    · exact absurd (first.ends_unique _ _ head stopped) (by simp)
  · exact fun tail => .inl ⟨value, head, tail⟩

theorem bind_diverges (first : Comp ε α) (rest : α → Comp ε β) (never : first.Diverges) : (first >>= rest).Diverges := by
  rw [diverges_iff] at never ⊢
  intro result ended
  rcases (ends_bind first rest result).mp ended with ⟨value, returned, -⟩ | ⟨stop, stopped, -⟩
  · exact never _ returned
  · exact never _ stopped

theorem bind_diverges_later (first : Comp ε α) (rest : α → Comp ε β) (value : α) (returned : first.Returns value)
    (never : (rest value).Diverges) : (first >>= rest).Diverges := by
  rw [diverges_iff] at never ⊢
  exact fun result ended => never result ((ends_bind_of_returns first rest value result returned).mp ended)

-- Unrolling one pass of a loop. Everything known about a loop follows from
-- this equivalence by induction on the data the loop walks over.
theorem ends_loop (body : σ → Except ε (Iter σ α)) (state : σ) (result : Except ε α) :
    (loop body state).Ends result ↔
      match body state with
      | .error stop => result = .error stop
      | .ok (.done value) => result = .ok value
      | .ok (.next state') => (loop body state').Ends result := by
  constructor
  · rintro ⟨fuel, ended⟩
    change loopRun body fuel state = some result at ended
    cases fuel with
    | zero => simp [loopRun] at ended
    | succ fuel =>
        rw [loopRun] at ended
        cases pass : body state with
        | error stop => simpa [pass, eq_comm] using ended
        | ok iter =>
            cases iter with
            | done value => simpa [pass, eq_comm] using ended
            | next state' =>
                simp only [pass] at ended
                exact ⟨fuel, ended⟩
  · intro ended
    cases pass : body state with
    | error stop =>
        simp only [pass] at ended
        exact ⟨1, by simp [loop, loopRun, pass, ended]⟩
    | ok iter =>
        cases iter with
        | done value =>
            simp only [pass] at ended
            exact ⟨1, by simp [loop, loopRun, pass, ended]⟩
        | next state' =>
            simp only [pass] at ended
            obtain ⟨fuel, ended⟩ := ended
            refine ⟨fuel + 1, ?_⟩
            change loopRun body (fuel + 1) state = some result
            rw [loopRun, pass]
            exact ended

theorem ends_loop_next (body : σ → Except ε (Iter σ α)) (state state' : σ) (result : Except ε α)
    (pass : body state = .ok (.next state')) : (loop body state).Ends result ↔ (loop body state').Ends result := by
  rw [ends_loop, pass]

theorem ends_loop_done (body : σ → Except ε (Iter σ α)) (state : σ) (value : α) (result : Except ε α)
    (pass : body state = .ok (.done value)) : (loop body state).Ends result ↔ result = .ok value := by
  rw [ends_loop, pass]

theorem ends_loop_error (body : σ → Except ε (Iter σ α)) (state : σ) (stop : ε) (result : Except ε α)
    (pass : body state = .error stop) : (loop body state).Ends result ↔ result = .error stop := by
  rw [ends_loop, pass]

theorem returns_loop (body : σ → Except ε (Iter σ α)) (state : σ) (value : α) :
    (loop body state).Returns value ↔
      ∃ last, Relation.ReflTransGen (fun a b => body a = .ok (.next b)) state last ∧ body last = .ok (.done value) := by
  constructor
  · rintro ⟨fuel, ended⟩
    change loopRun body fuel state = some (.ok value) at ended
    induction fuel generalizing state with
    | zero => simp [loopRun] at ended
    | succ fuel ih =>
        rw [loopRun] at ended
        cases pass : body state with
        | error stop => simp [pass] at ended
        | ok iter =>
            cases iter with
            | done result =>
                obtain rfl : result = value := by simpa [pass] using ended
                exact ⟨state, .refl, pass⟩
            | next state' =>
                simp only [pass] at ended
                obtain ⟨last, passes, leaves⟩ := ih state' ended
                exact ⟨last, .head pass passes, leaves⟩
  · rintro ⟨last, passes, leaves⟩
    induction passes using Relation.ReflTransGen.head_induction_on with
    | refl => exact (ends_loop_done body last value _ leaves).mpr rfl
    | head pass _ ih => exact (ends_loop_next body _ _ _ pass).mpr ih

theorem loop_diverges (body : σ → Except ε (Iter σ α)) (stuck : σ → Prop)
    (again : ∀ state, stuck state → ∃ state', body state = .ok (.next state') ∧ stuck state')
    (state : σ) (start : stuck state) : (loop body state).Diverges := by
  intro fuel
  change loopRun body fuel state = none
  induction fuel generalizing state with
  | zero => rfl
  | succ fuel ih =>
      obtain ⟨state', pass, kept⟩ := again state start
      rw [loopRun, pass]
      exact ih state' kept

theorem returns_range (body : σ → Nat → Comp ε σ) (inv : Nat → σ → Prop) (first count : Nat) (state : σ) (start : inv first state)
    (pass : ∀ i s, first ≤ i → i < first + count → inv i s → ∃ s', (body s i).Returns s' ∧ inv (i + 1) s') :
    ∃ s', ((List.range' first count).foldlM body state).Returns s' ∧ inv (first + count) s' := by
  induction count generalizing first state with
  | zero => exact ⟨state, (ends_pure state _).mpr rfl, start⟩
  | succ count ih =>
      obtain ⟨middle, returned, further⟩ := pass first state (Nat.le_refl first) (by omega) start
      obtain ⟨s', rest, last⟩ := ih (first + 1) middle further (fun i s low high => pass i s (by omega) (by omega))
      have whole : first + 1 + count = first + (count + 1) := by omega
      exact ⟨s', (ends_bind_of_returns _ _ _ _ returned).mpr rest, whole ▸ last⟩

-- Loops with a body that loops itself.
def roundsRun (body : σ → Comp ε (Iter σ α)) : Nat → σ → Option (Except ε α)
  | 0, _ => none
  | fuel + 1, state =>
      match (body state).run fuel with
      | none => none
      | some (.error stop) => some (.error stop)
      | some (.ok (.done result)) => some (.ok result)
      | some (.ok (.next state')) => roundsRun body fuel state'

theorem rounds_run_more (body : σ → Comp ε (Iter σ α)) (fuel : Nat) (state : σ) (result : Except ε α)
    (ended : roundsRun body fuel state = some result) : roundsRun body (fuel + 1) state = some result := by
  induction fuel generalizing state with
  | zero => simp [roundsRun] at ended
  | succ fuel ih =>
      rw [roundsRun] at ended ⊢
      cases pass : (body state).run fuel with
      | none => simp [pass] at ended
      | some outcome =>
          rw [(body state).more fuel outcome pass]
          cases outcome with
          | error stop => simpa only [pass] using ended
          | ok iter =>
              cases iter with
              | done value => simpa only [pass] using ended
              | next state' =>
                  simp only [pass] at ended
                  exact ih state' ended

def rounds (body : σ → Comp ε (Iter σ α)) (state : σ) : Comp ε α where
  run fuel := roundsRun body fuel state
  more fuel result ended := rounds_run_more body fuel state result ended

section Passes

variable (body : σ → Comp ε (Iter σ α)) (state state' : σ) (value : α) (stop : ε) (result : Except ε α)

theorem ends_rounds_next (pass : (body state).Returns (.next state')) : (rounds body state).Ends result ↔ (rounds body state').Ends result := by
  obtain ⟨m, passed⟩ := pass
  constructor
  · rintro ⟨fuel, ended⟩
    have more := (rounds body state).run_le fuel (max fuel m + 1) result (by omega) ended
    change roundsRun body (max fuel m + 1) state = some result at more
    rw [roundsRun, (body state).run_le m (max fuel m) _ (by omega) passed] at more
    exact ⟨max fuel m, more⟩
  · rintro ⟨fuel, ended⟩
    refine ⟨max fuel m + 1, ?_⟩
    change roundsRun body (max fuel m + 1) state = some result
    rw [roundsRun, (body state).run_le m (max fuel m) _ (by omega) passed]
    exact (rounds body state').run_le fuel (max fuel m) result (by omega) ended

theorem returns_rounds_done (pass : (body state).Returns (.done value)) : (rounds body state).Returns value := by
  obtain ⟨m, passed⟩ := pass
  refine ⟨m + 1, ?_⟩
  change roundsRun body (m + 1) state = some (.ok value)
  rw [roundsRun, passed]

end Passes

end Comp
