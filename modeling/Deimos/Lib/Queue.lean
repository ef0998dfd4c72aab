import Mathlib.Data.List.Nodup
import Mathlib.Logic.Function.Basic
import Mathlib.Tactic.Common

set_option autoImplicit false

-- Intrusive singly linked queues. Every cell p has one link next p; a queue is
-- given by the links, a head and a tail, and null stands for no cell.
namespace LinkedQueue

variable {P : Type}

def Links (null : P) (next : P → P) : P → List P → P → Prop
  | p, [], q => p = q
  | p, x :: xs, q => p = x ∧ x ≠ null ∧ Links null next (next x) xs q

def lastOr (null : P) : List P → P
  | [] => null
  | x :: xs => lastOr x xs

structure Queue (null : P) (next : P → P) (head tail : P) (xs : List P) : Prop where
  links : Links null next head xs null
  tail : tail = lastOr null xs
  nodup : xs.Nodup

variable {null : P} {next next' : P → P} {head tail p q x y z : P} {xs ys zs : List P}

theorem links_congr (links : Links null next p xs q) (same : ∀ x ∈ xs, next' x = next x) : Links null next' p xs q := by
  induction xs generalizing p with
  | nil => exact links
  | cons x xs ih =>
      obtain ⟨here, nonnull, rest⟩ := links
      have tail := ih rest (fun y member => same y (List.mem_cons_of_mem x member))
      exact ⟨here, nonnull, (same x List.mem_cons_self) ▸ tail⟩

theorem links_append : Links null next p (xs ++ ys) q ↔ ∃ r, Links null next p xs r ∧ Links null next r ys q := by
  induction xs generalizing p with
  | nil => simp [Links]
  | cons x xs ih =>
      simp only [List.cons_append, Links, ih]
      constructor
      · rintro ⟨here, nonnull, r, left, right⟩
        exact ⟨r, ⟨here, nonnull, left⟩, right⟩
      · rintro ⟨r, ⟨here, nonnull, left⟩, right⟩
        exact ⟨here, nonnull, r, left, right⟩

theorem links_cut [DecidableEq P] (c : P) (links : Links null next p xs null) :
    ∃ ys, Links null (Function.update next c null) p ys null := by
  induction xs generalizing p with
  | nil => exact ⟨[], links⟩
  | cons x xs ih =>
      obtain ⟨here, nonnull, rest⟩ := links
      by_cases same : x = c
      · have last : Function.update next c null x = null := by rw [same, Function.update_self]
        exact ⟨[x], here, nonnull, last⟩
      · obtain ⟨ys, cut⟩ := ih rest
        have kept : Function.update next c null x = next x := Function.update_of_ne same _ _
        exact ⟨x :: ys, here, nonnull, kept ▸ cut⟩

theorem links_unique (links : Links null next p xs null) (links' : Links null next p ys null) : xs = ys := by
  induction xs generalizing p ys with
  | nil =>
      obtain rfl : p = null := links
      cases ys with
      | nil => rfl
      | cons y ys => exact absurd links'.1.symm links'.2.1
  | cons x xs ih =>
      obtain ⟨rfl, nonnull, links⟩ := links
      cases ys with
      | nil => exact absurd links' nonnull
      | cons y ys =>
          obtain ⟨rfl, -, links'⟩ := links'
          rw [ih links links']

theorem links_nonnull (links : Links null next p xs q) (member : x ∈ xs) : x ≠ null := by
  induction xs generalizing p with
  | nil => simp at member
  | cons y xs ih =>
      rcases List.mem_cons.mp member with rfl | later
      · exact links.2.1
      · exact ih links.2.2 later

theorem last_or_concat (xs : List P) : lastOr null (xs ++ [x]) = x := by
  induction xs generalizing null with
  | nil => rfl
  | cons y xs ih => exact ih

theorem last_or_cons (xs : List P) : lastOr null (x :: xs) = lastOr x xs := rfl

theorem cons_eq_concat (x : P) (xs : List P) : ∃ front, x :: xs = front ++ [lastOr x xs] := by
  rcases List.eq_nil_or_concat xs with rfl | ⟨front, y, rfl⟩
  · exact ⟨[], rfl⟩
  · rw [List.concat_eq_append, last_or_concat]
    exact ⟨x :: front, rfl⟩

theorem last_or_member (xs : List P) (nonempty : xs ≠ []) : lastOr null xs ∈ xs := by
  rcases List.eq_nil_or_concat xs with rfl | ⟨front, x, rfl⟩
  · exact absurd rfl nonempty
  · rw [List.concat_eq_append, last_or_concat]
    exact List.mem_append_right front List.mem_cons_self

theorem last_or_mem_cons (x : P) (xs : List P) : lastOr x xs ∈ x :: xs :=
  @last_or_member P x (x :: xs) (List.cons_ne_nil x xs)

theorem last_or_append (xs : List P) (nonempty : ys ≠ []) : lastOr null (xs ++ ys) = lastOr null ys := by
  rcases List.eq_nil_or_concat ys with rfl | ⟨front, y, rfl⟩
  · exact absurd rfl nonempty
  · rw [List.concat_eq_append, ← List.append_assoc, last_or_concat, last_or_concat]

namespace Queue

variable (queue : Queue null next head tail xs)

include queue

theorem congr (same : ∀ x ∈ xs, next' x = next x) : Queue null next' head tail xs :=
  ⟨links_congr queue.links same, queue.tail, queue.nodup⟩

theorem nonnull (member : x ∈ xs) : x ≠ null := links_nonnull queue.links member

theorem head_eq_null : head = null ↔ xs = [] := by
  have links := queue.links
  cases xs with
  | nil => exact iff_of_true links rfl
  | cons x xs => exact iff_of_false (fun same => links.2.1 (links.1.symm.trans same)) (List.cons_ne_nil x xs)

theorem tail_eq_null : tail = null ↔ xs = [] := by
  by_cases empty : xs = []
  · subst empty
    exact iff_of_true queue.tail rfl
  · have last : tail ∈ xs := by
      rw [queue.tail]
      exact last_or_member xs empty
    exact iff_of_false (queue.nonnull last) empty

theorem tail_member (nonempty : xs ≠ []) : tail ∈ xs := by
  rw [queue.tail]
  exact last_or_member xs nonempty

end Queue

theorem queue_empty : Queue null next null null [] := ⟨rfl, rfl, .nil⟩

theorem head_cons (queue : Queue null next head tail (x :: xs)) : head = x := queue.links.1

theorem head_eq_tail (queue : Queue null next head tail (x :: xs)) : head = tail ↔ xs = [] := by
  rw [head_cons queue, queue.tail]
  constructor
  · intro same
    by_contra more
    have last : x ∈ xs := by
      rw [last_or_cons] at same
      rw [same]
      exact last_or_member xs more
    exact (List.nodup_cons.mp queue.nodup).1 last
  · rintro rfl
    rfl

theorem queue_single (nonnull : y ≠ null) (clear : next y = null) : Queue null next y y [y] :=
  ⟨⟨rfl, nonnull, clear⟩, rfl, List.nodup_singleton y⟩

section Updates

variable [DecidableEq P]

theorem queue_push (queue : Queue null next head tail xs) (nonempty : xs ≠ []) (fresh : y ∉ xs) (nonnull : y ≠ null)
    (clear : next y = null) : Queue null (Function.update next tail y) head y (xs ++ [y]) := by
  rcases List.eq_nil_or_concat xs with rfl | ⟨front, x, rfl⟩
  · exact absurd rfl nonempty
  · rw [List.concat_eq_append] at queue fresh ⊢
    have last : tail = x := queue.tail.trans (last_or_concat front)
    subst last
    obtain ⟨r, before, here, present, _⟩ := links_append.mp queue.links
    have apart : tail ∉ front := by
      have nodup := queue.nodup
      simp only [List.nodup_append, List.mem_singleton] at nodup
      exact fun member => nodup.2.2 tail member tail rfl rfl
    have other : y ≠ tail := fun same => fresh (by simp [same])
    have ends : Function.update next tail y y = null := by rw [Function.update_of_ne other, clear]
    have kept : ∀ z ∈ front, Function.update next tail y z = next z := fun z member =>
      Function.update_of_ne (fun same : z = tail => apart (same ▸ member)) _ _
    refine ⟨?_, (last_or_concat _).symm, ?_⟩
    · rw [List.append_assoc]
      refine links_append.mpr ⟨r, links_congr before kept, here, present, ?_⟩
      rw [Function.update_self]
      exact ⟨rfl, nonnull, ends⟩
    · exact List.nodup_append.mpr ⟨queue.nodup, List.nodup_singleton y, fun a member b single => by
        rw [List.mem_singleton.mp single]
        exact fun same => fresh (same ▸ member)⟩

theorem queue_pop (queue : Queue null next head tail (x :: xs)) :
    Queue null (Function.update next x null) (next x) (if xs = [] then null else tail) xs := by
  obtain ⟨absent, rest⟩ := List.nodup_cons.mp queue.nodup
  refine ⟨links_congr queue.links.2.2 (fun z member => ?_), ?_, rest⟩
  · exact Function.update_of_ne (fun same : z = x => absent (same ▸ member)) _ _
  · by_cases empty : xs = []
    · simp [empty, lastOr]
    · rw [if_neg empty, queue.tail]
      exact last_or_append [x] empty

theorem queue_insert (queue : Queue null next head tail (xs ++ x :: z :: zs)) (fresh : y ∉ xs ++ x :: z :: zs)
    (nonnull : y ≠ null) :
    Queue null (Function.update (Function.update next x y) y z) head tail (xs ++ x :: y :: z :: zs) := by
  obtain ⟨r, before, here, present, link, follows, after⟩ := links_append.mp queue.links
  have nodup := queue.nodup
  have apart : x ∉ xs ∧ x ≠ z ∧ x ∉ zs := by
    simp only [List.nodup_append, List.nodup_cons, List.mem_cons, not_or] at nodup
    exact ⟨fun member => nodup.2.2 x member x (.inl rfl) rfl, nodup.2.1.1.1, nodup.2.1.1.2⟩
  have other : y ≠ x := fun same => fresh (by simp [same])
  have keeps : ∀ c, c ≠ x → c ≠ y → Function.update (Function.update next x y) y z c = next c :=
    fun c left right => by rw [Function.update_of_ne right, Function.update_of_ne left]
  have outside : ∀ c ∈ xs ++ x :: z :: zs, c ≠ y := fun c member same => fresh (same ▸ member)
  refine ⟨links_append.mpr ⟨r, links_congr before (fun c member => ?_), here, present, ?_⟩, ?_, ?_⟩
  · exact keeps c (fun same => apart.1 (same ▸ member)) (outside c (List.mem_append_left _ member))
  · rw [Function.update_of_ne other.symm, Function.update_self]
    refine ⟨rfl, nonnull, ?_⟩
    rw [Function.update_self]
    refine ⟨rfl, follows, ?_⟩
    have zKept := keeps z apart.2.1.symm (outside z (by simp))
    rw [zKept]
    refine links_congr after (fun c member => ?_)
    exact keeps c (fun same => apart.2.2 (same ▸ member)) (outside c (by simp [member]))
  · rw [queue.tail, last_or_append xs (by simp), last_or_append xs (by simp)]
    rfl
  · simp only [List.nodup_append, List.nodup_cons, List.mem_append, List.mem_cons, not_or] at nodup fresh ⊢
    grind

theorem queue_remove (queue : Queue null next head tail (xs ++ x :: z :: zs)) :
    Queue null (Function.update next x (next z)) head (lastOr null (xs ++ x :: zs)) (xs ++ x :: zs) := by
  obtain ⟨r, before, here, present, -, -, after⟩ := links_append.mp queue.links
  have nodup := queue.nodup
  have apart : x ∉ xs ∧ x ∉ zs := by
    simp only [List.nodup_append, List.nodup_cons, List.mem_cons, not_or] at nodup
    exact ⟨fun member => nodup.2.2 x member x (.inl rfl) rfl, nodup.2.1.1.2⟩
  have kept (ys : List P) (absent : x ∉ ys) : ∀ c ∈ ys, Function.update next x (next z) c = next c :=
    fun c member => Function.update_of_ne (fun same : c = x => absent (same ▸ member)) _ _
  refine ⟨links_append.mpr ⟨r, links_congr before (kept xs apart.1), here, present, ?_⟩, rfl, ?_⟩
  · rw [Function.update_self]
    exact links_congr after (kept zs apart.2)
  · have shorter : List.Sublist (x :: zs) (x :: z :: zs) := .cons_cons x (.cons z (List.Sublist.refl zs))
    exact nodup.sublist ((List.Sublist.refl xs).append shorter)

end Updates

end LinkedQueue
