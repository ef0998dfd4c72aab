import Deimos.Lib.Comp

set_option autoImplicit false

namespace Comp

variable {ε ε' α β γ δ σ : Type}

-- Partial correctness: what holds of whatever a computation returns.
section Partial

def Yields (result : Except ε α) (post : α → Prop) : Prop := ∀ a, result = .ok a → post a

def Ensures (comp : Comp ε α) (post : α → Prop) : Prop := ∀ a, comp.Returns a → post a

variable {comp : Comp ε α} {post : α → Prop} {body : σ → Except ε (Iter σ α)}

theorem yields_ok (a : α) (here : post a) : Yields (.ok a : Except ε α) post := fun _ same => Except.ok.inj same ▸ here

theorem yields_bind (result : Except ε α) (rest : α → Except ε β) (post' : β → Prop) (first : Yields result post)
    (second : ∀ a, post a → Yields (rest a) post') : Yields (result >>= rest) post' := by
  cases result with
  | ok a => exact second a (first a rfl)
  | error e => exact nofun

theorem yields_map (result : Except ε α) (f : α → β) (post' : β → Prop) (first : Yields result (fun a => post' (f a))) :
    Yields (result.map f) post' := by
  cases result with
  | ok a => exact yields_ok (f a) (first a rfl)
  | error e => exact nofun

theorem ensures_pure (a : α) (here : post a) : Ensures (pure a : Comp ε α) post := by
  intro b returned
  cases (ends_pure a _).mp returned
  exact here

theorem ensures_lift (result : Except ε α) (yields : Yields result post) : Ensures (liftM result : Comp ε α) post :=
  fun a returned => yields a ((ends_lift result _).mp returned).symm

theorem ensures_bind (rest : α → Comp ε β) (post' : β → Prop) (first : Ensures comp post)
    (second : ∀ a, post a → Ensures (rest a) post') : Ensures (comp >>= rest) post' := by
  intro b returned
  obtain ⟨a, here, there⟩ := (returns_bind comp rest b).mp returned
  exact second a (first a here) b there

def Leaves (inv : σ → Prop) (post : α → Prop) : Iter σ α → Prop
  | .next state => inv state
  | .done result => post result

theorem ensures_loop (inv : σ → Prop) (pass : ∀ state, inv state → Yields (body state) (Leaves inv post)) (state : σ)
    (start : inv state) : Ensures (loop body state) post := by
  intro result returned
  obtain ⟨last, passes, left⟩ := (returns_loop body state result).mp returned
  have reached : inv last := by
    clear left
    induction passes with
    | refl => exact start
    | tail _ here ih => exact pass _ ih _ here
  exact pass last reached _ left

end Partial

-- Total correctness with known errors: a computation ends, what it returns
-- meets the postcondition, and it stops with no other error than the known ones.
section Total

def Fine (known : ε → Prop) (post : α → Prop) : Except ε α → Prop
  | .ok a => post a
  | .error e => known e

theorem fine_bind {known : ε → Prop} {post : α → Prop} (result : Except ε α) (rest : α → Except ε β) (post' : β → Prop)
    (first : Fine known post result) (second : ∀ a, post a → Fine known post' (rest a)) : Fine known post' (result >>= rest) := by
  cases result with
  | ok a => exact second a first
  | error e => exact first

def Meets (known : ε → Prop) (comp : Comp ε α) (post : α → Prop) : Prop := ∃ result, comp.Ends result ∧ Fine known post result

variable {known : ε → Prop} {comp : Comp ε α} {post : α → Prop} {body : σ → Except ε (Iter σ α)}

theorem meets_pure (a : α) (here : post a) : Meets known (pure a : Comp ε α) post := ⟨.ok a, (ends_pure a _).mpr rfl, here⟩

theorem meets_lift (result : Except ε α) (fine : Fine known post result) : Meets known (liftM result : Comp ε α) post :=
  ⟨result, (ends_lift result _).mpr rfl, fine⟩

theorem meets_of_returns (a : α) (returned : comp.Returns a) (here : post a) : Meets known comp post := ⟨.ok a, returned, here⟩

theorem meets_bind (rest : α → Comp ε β) (post' : β → Prop) (first : Meets known comp post)
    (second : ∀ a, post a → Meets known (rest a) post') : Meets known (comp >>= rest) post' := by
  obtain ⟨result, ended, fine⟩ := first
  cases result with
  | ok a =>
      obtain ⟨result, ended', fine'⟩ := second a fine
      exact ⟨result, (ends_bind_of_returns comp rest a result ended).mpr ended', fine'⟩
  | error e => exact ⟨.error e, (ends_bind comp rest _).mpr (.inr ⟨e, ended, rfl⟩), fine⟩

theorem meets_bind_returns (rest : α → Comp ε β) (post' : β → Prop) (a : α) (returned : comp.Returns a)
    (second : Meets known (rest a) post') : Meets known (comp >>= rest) post' := by
  obtain ⟨result, ended, fine⟩ := second
  exact ⟨result, (ends_bind_of_returns comp rest a result returned).mpr ended, fine⟩

theorem meets_mono (post' : α → Prop) (meets : Meets known comp post) (weaker : ∀ a, post a → post' a) : Meets known comp post' := by
  obtain ⟨result, ended, fine⟩ := meets
  refine ⟨result, ended, ?_⟩
  cases result with
  | ok a => exact weaker a fine
  | error e => exact fine

theorem meets_returns (a : α) (meets : Meets known comp post) (returned : comp.Returns a) : post a := by
  obtain ⟨result, ended, fine⟩ := meets
  cases comp.ends_unique _ _ ended returned
  exact fine

end Total

-- A computation against a total function that says what it does: the
-- computation ends, and its result and that of the function are related.
section Simulation

def Related (rel : α → β → Prop) : Except ε α → Except ε β → Prop
  | .ok a, .ok b => rel a b
  | .error e, .error f => e = f
  | _, _ => False

def Simulates (rel : α → β → Prop) (comp : Comp ε α) (spec : Except ε β) : Prop :=
  ∃ result, comp.Ends result ∧ Related rel result spec

variable {rel : α → β → Prop} {rel' : γ → δ → Prop}

theorem simulates_pure (x : α) (y : β) (related : rel x y) : Simulates rel (pure x : Comp ε α) (.ok y) :=
  ⟨.ok x, (ends_pure x _).mpr rfl, related⟩

theorem simulates_lift (a : Except ε α) (b : Except ε β) (related : Related rel a b) :
    Simulates rel (liftM a : Comp ε α) b := ⟨a, (ends_lift a a).mpr rfl, related⟩

theorem simulates_bind (a : Comp ε α) (b : Except ε β) (f : α → Comp ε γ) (g : β → Except ε δ)
    (first : Simulates rel a b) (rest : ∀ x y, b = .ok y → rel x y → Simulates rel' (f x) (g y)) :
    Simulates rel' (a >>= f) (b >>= g) := by
  obtain ⟨result, ended, related⟩ := first
  cases result with
  | error e =>
      cases b with
      | error e' => exact ⟨.error e, (ends_bind a f _).mpr (.inr ⟨e, ended, rfl⟩), related⟩
      | ok y => exact related.elim
  | ok x =>
      cases b with
      | error e' => exact related.elim
      | ok y =>
          obtain ⟨result, tail, related⟩ := rest x y rfl related
          exact ⟨result, (ends_bind_of_returns a f x result ended).mpr tail, related⟩

theorem simulates_map (comp : Comp ε α) (spec : Except ε β) (f : β → δ) (rel' : α → δ → Prop) (sim : Simulates rel comp spec)
    (mapped : ∀ x y, rel x y → rel' x (f y)) : Simulates rel' comp (spec.map f) := by
  obtain ⟨result, ended, related⟩ := sim
  refine ⟨result, ended, ?_⟩
  cases result with
  | error e => cases spec with | error _ => exact related | ok _ => exact related.elim
  | ok x => cases spec with | error _ => exact related.elim | ok y => exact mapped x y related

theorem simulates_bind_ok (a : Comp ε α) (b : Except ε β) (f : α → Comp ε γ) (rel' : γ → β → Prop) (first : Simulates rel a b)
    (rest : ∀ x y, rel x y → Simulates rel' (f x) (.ok y)) : Simulates rel' (a >>= f) b := by
  have both := simulates_bind a b f (fun y => pure y) first (fun x y _ related => rest x y related)
  rwa [bind_pure] at both

theorem simulates_next (body : σ → Except ε (Iter σ α)) (state state' : σ) (spec : Except ε β)
    (pass : body state = .ok (.next state')) (sim : Simulates rel (loop body state') spec) :
    Simulates rel (loop body state) spec := by
  obtain ⟨result, ended, related⟩ := sim
  exact ⟨result, (ends_loop_next body state state' result pass).mpr ended, related⟩

theorem simulates_done (body : σ → Except ε (Iter σ α)) (state : σ) (x : α) (y : β)
    (pass : body state = .ok (.done x)) (related : rel x y) : Simulates (ε := ε) rel (loop body state) (.ok y) :=
  ⟨.ok x, (ends_loop_done body state x _ pass).mpr rfl, related⟩

theorem simulates_error (body : σ → Except ε (Iter σ α)) (state : σ) (stop : ε)
    (pass : body state = .error stop) : Simulates rel (loop body state) (.error stop : Except ε β) :=
  ⟨.error stop, (ends_loop_error body state stop _ pass).mpr rfl, rfl⟩

theorem simulates_returns (comp : Comp ε α) (spec : Except ε β) (x : α) (sim : Simulates rel comp spec)
    (returned : comp.Returns x) : ∃ y, spec = .ok y ∧ rel x y := by
  obtain ⟨result, ended, related⟩ := sim
  obtain rfl := comp.ends_unique _ _ returned ended
  cases spec with
  | error e => exact related.elim
  | ok y => exact ⟨y, rfl, related⟩

theorem simulates_stops (comp : Comp ε α) (spec : Except ε β) (stop : ε) (sim : Simulates rel comp spec)
    (stopped : comp.Ends (.error stop)) : spec = .error stop := by
  obtain ⟨result, ended, related⟩ := sim
  obtain rfl := comp.ends_unique _ _ stopped ended
  cases spec with
  | error e => exact congrArg _ related.symm
  | ok y => exact related.elim

end Simulation

-- Computations on two levels: the one below has more of a state, and errors of
-- its own besides those of the one above.
section Layers

def mapError (f : ε → ε') (comp : Comp ε α) : Comp ε' α where
  run fuel := (comp.run fuel).map (Except.mapError f)
  more fuel result ended := by
    obtain ⟨first, here, rfl⟩ := Option.map_eq_some_iff.mp ended
    rw [comp.more fuel first here]
    rfl

theorem ends_map_error (f : ε → ε') (comp : Comp ε α) (result : Except ε α) (ended : comp.Ends result) :
    (comp.mapError f).Ends (result.mapError f) := by
  obtain ⟨fuel, here⟩ := ended
  exact ⟨fuel, congrArg (Option.map (Except.mapError f)) here⟩

def Follows (f : ε → ε') (rel : α → β → Prop) (above : Comp ε α) (below : Comp ε' β) : Prop :=
  (∀ a, above.Returns a → ∃ b, below.Returns b ∧ rel a b) ∧ ∀ e, above.Ends (.error e) → below.Ends (.error (f e))

variable {f : ε → ε'} {rel : α → β → Prop} {rel' : γ → δ → Prop}

theorem follows_pure (a : α) (b : β) (related : rel a b) : Follows f rel (pure a : Comp ε α) (pure b : Comp ε' β) := by
  refine ⟨fun a' returned => ⟨b, (ends_pure b _).mpr rfl, ?_⟩, fun e failed => nomatch (ends_pure a _).mp failed⟩
  cases (ends_pure a _).mp returned
  exact related

theorem follows_mono (above : Comp ε α) (below : Comp ε' β) (rel' : α → β → Prop) (weaker : ∀ a b, rel a b → rel' a b)
    (follows : Follows f rel above below) : Follows f rel' above below :=
  ⟨fun a returned => (follows.1 a returned).imp (fun b here => ⟨here.1, weaker a b here.2⟩), follows.2⟩

theorem follows_bind (a : Comp ε α) (b : Comp ε' β) (g : α → Comp ε γ) (h : β → Comp ε' δ) (first : Follows f rel a b)
    (rest : ∀ x y, a.Returns x → rel x y → Follows f rel' (g x) (h y)) : Follows f rel' (a >>= g) (b >>= h) := by
  constructor
  · intro z returned
    obtain ⟨x, here, there⟩ := (returns_bind a g z).mp returned
    obtain ⟨y, below, related⟩ := first.1 x here
    obtain ⟨w, below', related'⟩ := (rest x y here related).1 z there
    exact ⟨w, (ends_bind_of_returns b h y _ below).mpr below', related'⟩
  · intro e failed
    obtain ⟨x, here, there⟩ | ⟨e', here, same⟩ := (ends_bind a g _).mp failed
    · obtain ⟨y, below, related⟩ := first.1 x here
      exact (ends_bind_of_returns b h y _ below).mpr ((rest x y here related).2 e there)
    · obtain rfl := Except.error.inj same
      exact (ends_bind b h _).mpr (.inr ⟨f e, first.2 e here, rfl⟩)

theorem follows_silent (a : Comp ε γ) (b : Comp ε' β) (h : β → Comp ε' δ) (y : β) (returned : b.Returns y)
    (rest : Follows f rel' a (h y)) : Follows f rel' a (b >>= h) := by
  refine ⟨fun z above => ?_, fun e above => (ends_bind_of_returns b h y _ returned).mpr (rest.2 e above)⟩
  obtain ⟨w, below, related⟩ := rest.1 z above
  exact ⟨w, (ends_bind_of_returns b h y _ returned).mpr below, related⟩

theorem follows_map_error (comp : Comp ε α) : Follows f Eq comp (comp.mapError f) :=
  ⟨fun a returned => ⟨a, ends_map_error f comp _ returned, rfl⟩, fun _ failed => ends_map_error f comp _ failed⟩

end Layers

end Comp
