import Mathlib.Logic.Relation
import Mathlib.Data.List.Forall2

set_option autoImplicit false

-- Runs of a step relation. A run is any finite sequence of steps.
namespace Run

variable {σ : Type} {step : σ → σ → Prop}

abbrev Reaches (step : σ → σ → Prop) : σ → σ → Prop := Relation.ReflTransGen step

theorem invariant (inv : σ → Prop) (kept : ∀ s t, inv s → step s t → inv t) (s t : σ) (start : inv s)
    (run : Reaches step s t) : inv t := by
  induction run with
  | refl => exact start
  | tail _ last ih => exact kept _ _ ih last

end Run

-- Two logs that tell of the same calls in step, the newest call first.
namespace Log

variable {α β γ : Type} {rel : α → β → Prop} {xs₀ : List α} {ys₀ : List β}

inductive Beside (rel : α → β → Prop) (xs₀ : List α) (ys₀ : List β) : List α → List β → Prop
  | start : Beside rel xs₀ ys₀ xs₀ ys₀
  | next {x y xs ys} (here : rel x y) (before : Beside rel xs₀ ys₀ xs ys) : Beside rel xs₀ ys₀ (x :: xs) (y :: ys)

theorem beside_since (xs : List α) (ys : List β) (beside : Beside rel xs₀ ys₀ xs ys) :
    ∃ xs' ys', xs = xs' ++ xs₀ ∧ ys = ys' ++ ys₀ ∧ List.Forall₂ rel xs' ys' := by
  induction beside with
  | start => exact ⟨[], [], rfl, rfl, .nil⟩
  | @next x y _ _ here _ ih =>
      obtain ⟨xs', ys', rfl, rfl, step⟩ := ih
      exact ⟨x :: xs', y :: ys', rfl, rfl, .cons here step⟩

theorem beside_flip (xs : List α) (ys : List β) (beside : Beside rel xs₀ ys₀ xs ys) : Beside (fun y x => rel x y) ys₀ xs₀ ys xs := by
  induction beside with
  | start => exact .start
  | next here _ ih => exact .next here ih

theorem split_beside (xs zs : List α) (y : α) (beside : List β) (step : List.Forall₂ rel (xs ++ y :: zs) beside) :
    ∃ xs' y' zs', beside = xs' ++ y' :: zs' ∧ List.Forall₂ rel xs xs' ∧ rel y y' ∧ List.Forall₂ rel zs zs' := by
  induction xs generalizing beside with
  | nil =>
      obtain ⟨y', zs', here, after, rfl⟩ := List.forall₂_cons_left_iff.mp step
      exact ⟨[], y', zs', rfl, .nil, here, after⟩
  | cons x xs ih =>
      obtain ⟨x', rest, here, after, rfl⟩ := List.forall₂_cons_left_iff.mp step
      obtain ⟨xs', y', zs', rfl, before, entry, later⟩ := ih rest after
      exact ⟨x' :: xs', y', zs', rfl, .cons here before, entry, later⟩

theorem member_beside (xs : List α) (x : α) (beside : List β) (step : List.Forall₂ rel xs beside) (member : x ∈ xs) :
    ∃ y ∈ beside, rel x y := by
  obtain ⟨before, after, rfl⟩ := List.append_of_mem member
  obtain ⟨xs', y, zs', rfl, -, here, -⟩ := split_beside before after x beside step
  exact ⟨y, by simp, here⟩

theorem map_beside (f : α → γ) (g : β → γ) (xs : List α) (beside : List β) (step : List.Forall₂ rel xs beside)
    (same : ∀ x y, rel x y → f x = g y) : xs.map f = beside.map g := by
  induction step with
  | nil => rfl
  | cons here _ ih => rw [List.map_cons, List.map_cons, same _ _ here, ih]

theorem split_older (new old later earlier : List α) (x : α) (shape : new ++ old = later ++ x :: earlier) (absent : x ∉ new) :
    ∃ later', later = new ++ later' ∧ old = later' ++ x :: earlier := by
  induction new generalizing later with
  | nil => exact ⟨later, rfl, shape⟩
  | cons y new ih =>
      cases later with
      | nil =>
          cases shape
          exact absurd List.mem_cons_self absent
      | cons z later =>
          obtain ⟨same, rest⟩ := List.cons.inj shape
          obtain ⟨later', rfl, older⟩ := ih later rest (fun member => absent (List.mem_cons_of_mem y member))
          exact ⟨later', by rw [same, List.cons_append], older⟩

def Since (good : α → Prop) (old new : List α) : Prop := ∃ later, new = later ++ old ∧ ∀ x ∈ later, good x

variable {good : α → Prop}

theorem since_refl (old : List α) : Since good old old := ⟨[], rfl, nofun⟩

theorem since_cons (old new : List α) (x : α) (here : good x) (since : Since good old new) : Since good old (x :: new) := by
  obtain ⟨later, rfl, all⟩ := since
  exact ⟨x :: later, rfl, fun y member => (List.mem_cons.mp member).elim (fun same => same ▸ here) (all y)⟩

theorem since_trans (old middle new : List α) (first : Since good old middle) (second : Since good middle new) :
    Since good old new := by
  obtain ⟨later, rfl, all⟩ := first
  obtain ⟨latest, rfl, all'⟩ := second
  refine ⟨latest ++ later, (List.append_assoc _ _ _).symm, fun x member => ?_⟩
  exact (List.mem_append.mp member).elim (all' x) (all x)

theorem since_parts (old middle new : List α) (first : Since (fun _ => True) old middle) (second : Since (fun _ => True) middle new)
    (since : Since good old new) : Since good old middle ∧ Since good middle new := by
  obtain ⟨later, rfl, -⟩ := first
  obtain ⟨latest, rfl, -⟩ := second
  obtain ⟨all, same, each⟩ := since
  have parts : latest ++ later = all := List.append_cancel_right ((List.append_assoc _ _ _).trans same)
  rw [← parts] at each
  exact ⟨⟨later, rfl, fun x member => each x (List.mem_append_right _ member)⟩,
    ⟨latest, rfl, fun x member => each x (List.mem_append_left _ member)⟩⟩

theorem since_foldl {σ ι : Type} (log : σ → List α) (body : σ → ι → σ) (xs : List ι)
    (each : ∀ x ∈ xs, ∀ s, Since good (log s) (log (body s x))) : ∀ s, Since good (log s) (log (xs.foldl body s)) := by
  induction xs with
  | nil => exact fun s => since_refl (log s)
  | cons x xs ih =>
      intro s
      apply since_trans (log s) (log (body s x))
      · exact each x List.mem_cons_self s
      · exact ih (fun y member => each y (List.mem_cons_of_mem x member)) (body s x)

theorem since_beside (good' : β → Prop) (xs : List α) (ys : List β) (beside : Beside rel xs₀ ys₀ xs ys) (since : Since good' ys₀ ys)
    (carried : ∀ x y, rel x y → good' y → good x) : Since good xs₀ xs := by
  obtain ⟨xs', ys', rfl, rfl, step⟩ := beside_since xs ys beside
  obtain ⟨later, same, all⟩ := since
  cases List.append_cancel_right same
  refine ⟨xs', rfl, fun x member => ?_⟩
  obtain ⟨y, member', here⟩ := member_beside xs' x ys' step member
  exact carried x y here (all y member')

theorem first_beside (good' : β → Prop) (xs : List α) (ys before : List β) (y : β) (beside : Beside rel xs₀ ys₀ xs ys)
    (quiet : Since good' ys₀ before) (later : Since (fun _ => True) (y :: before) ys) (carried : ∀ x y, rel x y → good' y → good x) :
    ∃ x before', rel x y ∧ Since good xs₀ before' ∧ Since (fun _ => True) (x :: before') xs := by
  obtain ⟨xs', ys', rfl, rfl, step⟩ := beside_since xs ys beside
  obtain ⟨older, rfl, all⟩ := quiet
  obtain ⟨newer, same, -⟩ := later
  have shape : ys' = newer ++ y :: older := List.append_cancel_right (by simpa using same)
  rw [shape] at step
  obtain ⟨newer', x, older', rfl, -, here, tail⟩ := split_beside newer older y xs' step.flip
  refine ⟨x, older' ++ xs₀, here, ⟨older', rfl, fun x member => ?_⟩, ⟨newer', by simp, fun _ _ => trivial⟩⟩
  obtain ⟨z, member', side⟩ := member_beside older' x older tail.flip member
  exact carried x z side (all z member')

end Log

-- An allocator as its clients see it: the blocks handed out and not yet given
-- back, and the pointers given back, newest first, each with the blocks that
-- were live at that time.
structure Ledger (P : Type) where
  live : List P
  frees : List (P × List P)

namespace Ledger

variable {P : Type} [DecidableEq P]

-- A request that is answered with null takes nothing.
def take (null answer : P) (l : Ledger P) : Ledger P := if answer = null then l else { l with live := answer :: l.live }

def free (p : P) (l : Ledger P) : Ledger P := ⟨l.live.filter (· ≠ p), (p, l.live) :: l.frees⟩

def freeAll (ps : List P) (l : Ledger P) : Ledger P := ps.foldl (fun l p => l.free p) l

-- Null may be given back, anything else must be live.
def Sound (null : P) (call : P × List P) : Prop := call.1 = null ∨ call.1 ∈ call.2

def Fresh (null answer : P) (l : Ledger P) : Prop := answer = null ∨ answer ∉ l.live

variable {null answer p q : P} {l : Ledger P}

theorem take_null : l.take null null = l := if_pos rfl

theorem take_live (served : answer ≠ null) : (l.take null answer).live = answer :: l.live := by
  rw [take, if_neg served]

theorem take_frees : (l.take null answer).frees = l.frees := by
  by_cases served : answer = null
  · rw [take, if_pos served]
  · rw [take, if_neg served]

theorem mem_free : q ∈ (l.free p).live ↔ q ∈ l.live ∧ q ≠ p := by simp [free]

theorem mem_free_all (ps : List P) : q ∈ (l.freeAll ps).live ↔ q ∈ l.live ∧ q ∉ ps := by
  induction ps generalizing l with
  | nil => simp [freeAll]
  | cons p ps ih =>
      change q ∈ ((l.free p).freeAll ps).live ↔ _
      rw [ih, mem_free, List.mem_cons, not_or, and_assoc]

theorem free_all_frees (ps : List P) : (l.freeAll ps).frees.length = ps.length + l.frees.length := by
  induction ps generalizing l with
  | nil => simp [freeAll]
  | cons p ps ih =>
      change ((l.free p).freeAll ps).frees.length = _
      rw [ih, free, List.length_cons, List.length_cons]
      omega

end Ledger
