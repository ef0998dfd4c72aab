import Mathlib.Data.List.Basic
import Mathlib.Data.List.TakeWhile
import Mathlib.Algebra.GroupWithZero.Nat
import Mathlib.Tactic.Common

set_option autoImplicit false

-- Delta queues. Every entry of a list waits for its own ticks after the entry
-- before it, so its deadline is the sum of the ticks up to its own.
namespace Deltas

variable {P : Type}

def total (ticks : P → Nat) : List P → Nat
  | [] => 0
  | x :: xs => ticks x + total ticks xs

def deadline [DecidableEq P] (ticks : P → Nat) (y : P) : List P → Nat
  | [] => 0
  | x :: xs => ticks x + if x = y then 0 else deadline ticks y xs

def sums (start : Nat) : List Nat → List Nat
  | [] => []
  | d :: ds => (start + d) :: sums (start + d) ds

variable {ticks ticks' : P → Nat} {x y z : P} {xs ys : List P}

theorem total_append (xs ys : List P) : total ticks (xs ++ ys) = total ticks xs + total ticks ys := by
  induction xs with
  | nil => simp [total]
  | cons x xs ih => simp [total, ih, Nat.add_assoc]

theorem total_congr (same : ∀ x ∈ xs, ticks' x = ticks x) : total ticks' xs = total ticks xs := by
  induction xs with
  | nil => rfl
  | cons x xs ih =>
      rw [total, total, same x List.mem_cons_self, ih (fun y member => same y (List.mem_cons_of_mem x member))]

theorem total_sum (xs : List P) : total ticks xs = (xs.map ticks).sum := by
  induction xs with
  | nil => rfl
  | cons x xs ih => rw [total, ih, List.map_cons, List.sum_cons]

theorem total_insert (own : ticks' y + ticks' z = ticks z) (same : ∀ w ∈ xs ++ ys, ticks' w = ticks w) :
    total ticks' (xs ++ y :: z :: ys) = total ticks (xs ++ z :: ys) := by
  have front : ∀ w ∈ xs, ticks' w = ticks w := fun w member => same w (List.mem_append_left _ member)
  have back : ∀ w ∈ ys, ticks' w = ticks w := fun w member => same w (List.mem_append_right _ member)
  rw [total_append, total_append, total_congr front, total, total, total, total_congr back, ← own, Nat.add_assoc]

variable [DecidableEq P]

theorem deadline_congr (same : ∀ x ∈ xs, ticks' x = ticks x) : deadline ticks' y xs = deadline ticks y xs := by
  induction xs with
  | nil => rfl
  | cons x xs ih =>
      rw [deadline, deadline, same x List.mem_cons_self, ih (fun z member => same z (List.mem_cons_of_mem x member))]

theorem deadline_head : deadline ticks x (x :: xs) = ticks x := by simp [deadline]

theorem deadline_tail (other : x ≠ y) : deadline ticks y (x :: xs) = ticks x + deadline ticks y xs := by simp [deadline, other]

theorem head_le_deadline : ticks x ≤ deadline ticks y (x :: xs) := Nat.le_add_right _ _

theorem deadline_before (member : y ∈ xs) : deadline ticks y (xs ++ ys) = deadline ticks y xs := by
  induction xs with
  | nil => simp at member
  | cons x xs ih =>
      by_cases here : x = y
      · subst here
        rw [List.cons_append, deadline_head, deadline_head]
      · have later : y ∈ xs := (List.mem_cons.mp member).resolve_left (Ne.symm here)
        rw [List.cons_append, deadline_tail here, deadline_tail here, ih later]

theorem deadline_after (absent : y ∉ xs) : deadline ticks y (xs ++ ys) = total ticks xs + deadline ticks y ys := by
  induction xs with
  | nil => simp [total]
  | cons x xs ih =>
      obtain ⟨here, later⟩ := not_or.mp (fun member => absent (List.mem_cons.mpr member))
      rw [List.cons_append, deadline_tail (Ne.symm here), ih later, total, Nat.add_assoc]

theorem deadline_le_total (member : y ∈ xs) : deadline ticks y xs ≤ total ticks xs := by
  induction xs with
  | nil => simp at member
  | cons x xs ih =>
      by_cases here : x = y
      · subst here
        rw [deadline_head, total]
        exact Nat.le_add_right _ _
      · rw [deadline_tail here, total]
        exact Nat.add_le_add_left (ih ((List.mem_cons.mp member).resolve_left (Ne.symm here))) _

theorem deadline_tick (head : ticks' x + 1 = ticks x) (same : ∀ z ∈ xs, ticks' z = ticks z) :
    deadline ticks' y (x :: xs) + 1 = deadline ticks y (x :: xs) := by
  rw [deadline, deadline, deadline_congr same, ← head]
  omega

-- A new entry y before z takes its delta from that of z: no other deadline moves.
theorem deadline_insert (fresh : y ∉ xs ++ z :: ys) (own : ticks' y + ticks' z = ticks z)
    (same : ∀ w ∈ xs ++ ys, ticks' w = ticks w) (w : P) (member : w ∈ xs ++ z :: ys) :
    deadline ticks' w (xs ++ y :: z :: ys) = deadline ticks w (xs ++ z :: ys) := by
  have front : ∀ w ∈ xs, ticks' w = ticks w := fun w member => same w (List.mem_append_left _ member)
  have back : ∀ w ∈ ys, ticks' w = ticks w := fun w member => same w (List.mem_append_right _ member)
  have other : y ≠ w := fun here => fresh (here ▸ member)
  by_cases before : w ∈ xs
  · rw [deadline_before before, deadline_before before, deadline_congr front]
  · rw [deadline_after before, deadline_after before, total_congr front, deadline_tail other]
    by_cases here : z = w
    · subst here
      rw [deadline_head, deadline_head, own]
    · rw [deadline_tail here, deadline_tail here, deadline_congr back, ← own, Nat.add_assoc]

theorem deadline_kept (fresh : y ∉ xs ++ ys) (behind : ∀ z rest, ys = z :: rest → ticks' y + ticks' z = ticks z)
    (same : ∀ w ∈ xs ++ ys.tail, ticks' w = ticks w) (w : P) (member : w ∈ xs ++ ys) :
    deadline ticks' w (xs ++ y :: ys) = deadline ticks w (xs ++ ys) := by
  cases ys with
  | nil =>
      rw [List.append_nil] at member ⊢
      rw [deadline_before member, deadline_congr (fun v here => same v (List.mem_append_left _ here))]
  | cons z rest => exact deadline_insert fresh (behind z rest rfl) same w member

theorem deadline_new (fresh : y ∉ xs) : deadline ticks y (xs ++ y :: ys) = total ticks xs + ticks y := by
  rw [deadline_after fresh, deadline_head]

theorem mem_sums (nodup : xs.Nodup) (start k : Nat) :
    k ∈ sums start (xs.map ticks) ↔ ∃ x ∈ xs, start + deadline ticks x xs = k := by
  induction xs generalizing start with
  | nil => simp [sums]
  | cons x xs ih =>
      obtain ⟨absent, rest⟩ := List.nodup_cons.mp nodup
      have later : ∀ y ∈ xs, start + deadline ticks y (x :: xs) = start + ticks x + deadline ticks y xs := fun y member => by
        rw [deadline_tail (ne_of_mem_of_not_mem member absent).symm, Nat.add_assoc]
      rw [List.map_cons, sums, List.mem_cons, ih rest]
      constructor
      · rintro (rfl | ⟨y, member, rfl⟩)
        · exact ⟨x, List.mem_cons_self, by rw [deadline_head]⟩
        · exact ⟨y, List.mem_cons_of_mem x member, later y member⟩
      · rintro ⟨y, member, rfl⟩
        rcases List.mem_cons.mp member with rfl | behind
        · exact .inl (by rw [deadline_head])
        · exact .inr ⟨y, behind, (later y behind).symm⟩

theorem deadlines_le (nodup : xs.Nodup) (bound : Nat) : (∀ x ∈ xs, deadline ticks x xs ≤ bound) ↔ total ticks xs ≤ bound := by
  refine ⟨fun early => ?_, fun inside x member => Nat.le_trans (deadline_le_total member) inside⟩
  rcases List.eq_nil_or_concat xs with rfl | ⟨front, z, rfl⟩
  · exact Nat.zero_le bound
  · rw [List.concat_eq_append] at nodup early ⊢
    have absent : z ∉ front := (List.nodup_cons.mp (List.perm_append_singleton z front |>.nodup_iff.mp nodup)).1
    have last := early z (List.mem_append_right front List.mem_cons_self)
    rwa [deadline_new absent, show ticks z = total ticks [z] from rfl, ← total_append] at last

theorem due_front (nodup : xs.Nodup) :
    xs.takeWhile (fun x => ticks x = 0) = xs.filter (fun x => deadline ticks x xs = 0) ∧
      xs.dropWhile (fun x => ticks x = 0) = xs.filter (fun x => deadline ticks x xs ≠ 0) := by
  induction xs with
  | nil => exact ⟨rfl, rfl⟩
  | cons x xs ih =>
      obtain ⟨absent, rest⟩ := List.nodup_cons.mp nodup
      obtain ⟨due, left⟩ := ih rest
      by_cases zero : ticks x = 0
      · have later : ∀ y ∈ xs, deadline ticks y (x :: xs) = deadline ticks y xs := fun y member => by
          rw [deadline_tail (ne_of_mem_of_not_mem member absent).symm, zero, Nat.zero_add]
        have first : deadline ticks x (x :: xs) = 0 := deadline_head.trans zero
        rw [List.takeWhile_cons_of_pos (by simpa using zero), List.dropWhile_cons_of_pos (by simpa using zero),
          List.filter_cons_of_pos (by simpa using first), List.filter_cons_of_neg (by simpa using first), due, left]
        exact ⟨congrArg (x :: ·) (List.filter_congr (fun y member => by rw [later y member])),
          List.filter_congr (fun y member => by rw [later y member])⟩
      · have later : ∀ y, deadline ticks y (x :: xs) ≠ 0 := fun y => by
          have early : ticks x ≤ deadline ticks y (x :: xs) := head_le_deadline
          omega
        rw [List.takeWhile_cons_of_neg (by simpa using zero), List.dropWhile_cons_of_neg (by simpa using zero)]
        exact ⟨(List.filter_eq_nil_iff.mpr (fun y _ => by simpa using later y)).symm,
          (List.filter_eq_self.mpr (fun y _ => by simpa using later y)).symm⟩

theorem deadline_left (nodup : xs.Nodup) (member : y ∈ xs.dropWhile (fun x => ticks x = 0)) :
    deadline ticks y (xs.dropWhile (fun x => ticks x = 0)) = deadline ticks y xs := by
  have split := List.takeWhile_append_dropWhile (p := fun x => decide (ticks x = 0)) (l := xs)
  rw [← split] at nodup
  have absent : y ∉ xs.takeWhile (fun x => ticks x = 0) := fun early => (List.nodup_append.mp nodup).2.2 y early y member rfl
  have zero : total ticks (xs.takeWhile (fun x => ticks x = 0)) = 0 := by
    rw [total_sum, List.sum_eq_zero_iff_forall_eq_nat]
    intro k found
    obtain ⟨x, early, rfl⟩ := List.mem_map.mp found
    simpa using List.mem_takeWhile_imp early
  conv_rhs => rw [← split, deadline_after absent, zero, Nat.zero_add]

end Deltas
