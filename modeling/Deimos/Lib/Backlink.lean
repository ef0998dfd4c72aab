import Mathlib.Data.Fintype.Card
import Mathlib.Data.List.Nodup
import Deimos.Lib.Comp

set_option autoImplicit false

-- A walk along a chain of cells that compares the back pointer of each with the
-- cell it came from. It meets no cell twice, so it cannot go round in circles.
namespace Backlink

open Comp

section Walk

variable {P : Type} (null head : P) (next prev : P → P) (fine : P → Prop)

inductive Passed : List P → P → Prop
  | start : Passed [] head
  | step (cells : List P) (p : P) (before : Passed cells p) (some_ : p ≠ null) (fits : fine p) (back : prev p = cells.headD null) :
      Passed (p :: cells) (next p)

def Stops (cells : List P) (p : P) : Prop := p = null ∨ ¬fine p ∨ cells.headD null ≠ prev p

variable {null head next prev fine}

theorem passed_unique (cells cells' : List P) (p p' : P) (passed : Passed null head next prev fine cells p)
    (passed' : Passed null head next prev fine cells' p') (same : cells.headD null = cells'.headD null) : cells = cells' := by
  induction passed generalizing cells' p' with
  | start =>
      cases passed' with
      | start => rfl
      | step cells' q before some_ fits back => exact absurd same.symm some_
  | step cells q before some_ fits back ih =>
      cases passed' with
      | start => exact absurd same some_
      | step cells' q' before' some' fits' back' =>
          have here : q = q' := same
          subst here
          rw [ih cells' q before' (back.symm.trans back')]

theorem passed_suffix (cells rest : List P) (p q : P) (passed : Passed null head next prev fine (cells ++ q :: rest) p) :
    Passed null head next prev fine (q :: rest) (next q) := by
  induction cells generalizing p with
  | nil =>
      cases passed with
      | step _ _ before some_ fits back => exact .step rest q before some_ fits back
  | cons c cells ih =>
      cases passed with
      | step _ _ before some_ fits back => exact ih c before

theorem passed_nodup (cells : List P) (p : P) (passed : Passed null head next prev fine cells p) : cells.Nodup := by
  induction cells generalizing p with
  | nil => exact .nil
  | cons q cells ih =>
      cases passed with
      | step _ _ before some_ fits back =>
          refine List.nodup_cons.mpr ⟨fun again => ?_, ih q before⟩
          obtain ⟨front, rest, shape⟩ := List.append_of_mem again
          have whole : Passed null head next prev fine (q :: cells) (next q) := .step cells q before some_ fits back
          have earlier := passed_suffix (q :: front) rest (next q) q (shape ▸ whole)
          have same := passed_unique _ _ _ _ whole earlier rfl
          have length := congrArg List.length (shape.symm.trans (List.cons.inj same).2)
          rw [List.length_append, List.length_cons] at length
          omega

-- By induction on how many cells are left.
theorem comes_to_stop [Fintype P] (cells : List P) (p : P) (passed : Passed null head next prev fine cells p) :
    ∃ cells' p', Passed null head next prev fine cells' p' ∧ Stops null prev fine cells' p' := by
  induction left : Fintype.card P - cells.length using Nat.strongRecOn generalizing cells p with
  | ind n ih =>
      by_cases stops : Stops null prev fine cells p
      · exact ⟨cells, p, passed, stops⟩
      · simp only [Stops, not_or, not_not] at stops
        obtain ⟨some_, fits, back⟩ := stops
        have further : Passed null head next prev fine (p :: cells) (next p) := .step cells p passed some_ fits back.symm
        have few := (passed_nodup _ _ further).length_le_card
        rw [List.length_cons] at few
        exact ih (Fintype.card P - (p :: cells).length) (by rw [List.length_cons]; omega) _ _ further rfl

end Walk

section Check

variable {ε P : Type} [DecidableEq P] (null head : P) (next prev : P → P) (fine : P → Prop) [DecidablePred fine] (unfit stray : ε)

def checkBody (state : P × P) : Except ε (Iter (P × P) Unit) :=
  let (p, last) := state
  if p = null then .ok (.done ())
  else if ¬fine p then .error unfit
  else if last ≠ prev p then .error stray
  else .ok (.next (next p, p))

def check : Comp ε Unit := loop (checkBody null next prev fine unfit stray) (head, null)

def verdict (p : P) : Except ε Unit :=
  if p = null then .ok () else if ¬fine p then .error unfit else .error stray

variable {null head next prev fine unfit stray}

theorem ends_passed (cells : List P) (p : P) (passed : Passed null head next prev fine cells p) (result : Except ε Unit) :
    (check null head next prev fine unfit stray).Ends result ↔
      (loop (checkBody null next prev fine unfit stray) (p, cells.headD null)).Ends result := by
  induction passed with
  | start => rfl
  | step cells p before some_ fits back ih =>
      have pass : checkBody null next prev fine unfit stray (p, cells.headD null) = .ok (.next (next p, p)) := by
        rw [checkBody, if_neg some_, if_neg (not_not.mpr fits), if_neg (not_not.mpr back.symm)]
      exact ih.trans (ends_loop_next _ _ _ _ pass)

theorem ends_stopped (cells : List P) (p : P) (passed : Passed null head next prev fine cells p)
    (stops : Stops null prev fine cells p) (result : Except ε Unit) :
    (check null head next prev fine unfit stray).Ends result ↔ result = verdict null fine unfit stray p := by
  rw [ends_passed cells p passed, verdict]
  by_cases over_ : p = null
  · have pass : checkBody null next prev fine unfit stray (p, cells.headD null) = .ok (.done ()) := if_pos over_
    rw [if_pos over_]
    exact ends_loop_done _ _ _ _ pass
  · rw [if_neg over_]
    by_cases fits : fine p
    · have back := (stops.resolve_left over_).resolve_left (not_not.mpr fits)
      have pass : checkBody null next prev fine unfit stray (p, cells.headD null) = .error stray := by
        rw [checkBody, if_neg over_, if_neg (not_not.mpr fits), if_pos back]
      rw [if_neg (not_not.mpr fits)]
      exact ends_loop_error _ _ _ _ pass
    · have pass : checkBody null next prev fine unfit stray (p, cells.headD null) = .error unfit := by
        rw [checkBody, if_neg over_, if_pos fits]
      rw [if_pos fits]
      exact ends_loop_error _ _ _ _ pass

theorem check_comes_to_stop [Fintype P] : ∃ cells p, Passed null head next prev fine cells p ∧ Stops null prev fine cells p ∧
    (check null head next prev fine unfit stray).Ends (verdict null fine unfit stray p) := by
  have begun : Passed null head next prev fine [] head := .start
  obtain ⟨cells, p, passed, stops⟩ := comes_to_stop [] head begun
  exact ⟨cells, p, passed, stops, (ends_stopped cells p passed stops _).mpr rfl⟩

end Check

end Backlink
