import Mathlib.Algebra.GroupWithZero.Nat
import Mathlib.Data.List.Chain
import Mathlib.Tactic.Common

set_option autoImplicit false

-- Lists of pieces that tile an interval of the naturals. A piece x occupies
-- [lo x, hi x); some pieces are used and the others are free.
namespace Tiling

variable {β : Type} (lo hi : β → Nat) (used : β → Prop)

def Tiles : Nat → List β → Nat → Prop
  | a, [], b => a = b
  | a, x :: xs, b => lo x = a ∧ lo x < hi x ∧ Tiles (hi x) xs b

def Settled (xs : List β) : Prop := xs.IsChain (fun x y => used x ∨ used y)

structure MaximalGap (a b : Nat) (xs : List β) (p q : Nat) : Prop where
  nonempty : p < q
  lower : a ≤ p
  upper : q ≤ b
  free : ∀ x ∈ xs, used x → hi x ≤ p ∨ q ≤ lo x
  left : p = a ∨ ∃ x ∈ xs, used x ∧ hi x = p
  right : q = b ∨ ∃ x ∈ xs, used x ∧ lo x = q

variable {lo hi used}

theorem tiles_append (xs ys : List β) (a b : Nat) :
    Tiles lo hi a (xs ++ ys) b ↔ ∃ c, Tiles lo hi a xs c ∧ Tiles lo hi c ys b := by
  induction xs generalizing a with
  | nil => simp [Tiles]
  | cons x xs ih =>
      simp only [List.cons_append, Tiles, ih]
      constructor
      · rintro ⟨start, positive, c, left, right⟩
        exact ⟨c, ⟨start, positive, left⟩, right⟩
      · rintro ⟨c, ⟨start, positive, left⟩, right⟩
        exact ⟨start, positive, c, left, right⟩

theorem tiles_le (xs : List β) (a b : Nat) (tiles : Tiles lo hi a xs b) : a ≤ b := by
  induction xs generalizing a with
  | nil => exact Nat.le_of_eq tiles
  | cons x xs ih =>
      obtain ⟨start, positive, rest⟩ := tiles
      have later := ih (hi x) rest
      omega

theorem tiles_bounds (xs : List β) (a b : Nat) (tiles : Tiles lo hi a xs b) (x : β) (member : x ∈ xs) :
    a ≤ lo x ∧ lo x < hi x ∧ hi x ≤ b := by
  induction xs generalizing a with
  | nil => simp at member
  | cons y xs ih =>
      obtain ⟨start, positive, rest⟩ := tiles
      rcases List.mem_cons.mp member with rfl | later
      · exact ⟨Nat.le_of_eq start.symm, positive, tiles_le xs (hi x) b rest⟩
      · have bounds := ih (hi y) rest later
        exact ⟨by omega, bounds.2⟩

theorem tiles_pairwise (xs : List β) (a b : Nat) (tiles : Tiles lo hi a xs b) :
    xs.Pairwise (fun x y => hi x ≤ lo y) := by
  induction xs generalizing a with
  | nil => exact .nil
  | cons x xs ih =>
      obtain ⟨_, _, rest⟩ := tiles
      exact .cons (fun y member => (tiles_bounds xs (hi x) b rest y member).1) (ih (hi x) rest)

theorem tiles_disjoint (xs : List β) (a b : Nat) (tiles : Tiles lo hi a xs b) (x y : β)
    (left : x ∈ xs) (right : y ∈ xs) (different : x ≠ y) : hi x ≤ lo y ∨ hi y ≤ lo x := by
  induction xs generalizing a with
  | nil => simp at left
  | cons z xs ih =>
      rcases List.mem_cons.mp left with rfl | leftTail
      · rcases List.mem_cons.mp right with rfl | rightTail
        · exact absurd rfl different
        · exact .inl (tiles_bounds xs (hi x) b tiles.2.2 y rightTail).1
      · rcases List.mem_cons.mp right with rfl | rightTail
        · exact .inr (tiles_bounds xs (hi y) b tiles.2.2 x leftTail).1
        · exact ih (hi z) tiles.2.2 leftTail rightTail

theorem tiles_cover (xs : List β) (a b p : Nat) (tiles : Tiles lo hi a xs b) (lower : a ≤ p) (upper : p < b) :
    ∃ x ∈ xs, lo x ≤ p ∧ p < hi x := by
  induction xs generalizing a with
  | nil =>
      have same : a = b := tiles
      omega
  | cons x xs ih =>
      obtain ⟨start, _, rest⟩ := tiles
      by_cases inside : p < hi x
      · exact ⟨x, List.mem_cons_self, by omega, inside⟩
      · obtain ⟨y, member, bounds⟩ := ih (hi x) rest (by omega)
        exact ⟨y, List.mem_cons_of_mem x member, bounds⟩

theorem tiles_sum (xs : List β) (a b : Nat) (tiles : Tiles lo hi a xs b) :
    (xs.map fun x => hi x - lo x).sum = b - a := by
  induction xs generalizing a with
  | nil =>
      have same : a = b := tiles
      simp [same]
  | cons x xs ih =>
      obtain ⟨start, positive, rest⟩ := tiles
      have after := tiles_le xs (hi x) b rest
      rw [List.map_cons, List.sum_cons, ih (hi x) rest]
      omega

theorem settled_append (xs ys : List β) (x : β) (settled : Settled used (xs ++ x :: ys)) :
    Settled used (xs ++ [x]) ∧ Settled used (x :: ys) := List.isChain_split.mp settled

theorem settled_right (x : β) (xs : List β) (a b : Nat) (tiles : Tiles lo hi a (x :: xs) b)
    (settled : Settled used (x :: xs)) (free : ¬ used x) : hi x = b ∨ ∃ y ∈ xs, used y ∧ lo y = hi x := by
  cases xs with
  | nil => exact .inl tiles.2.2
  | cons y ys =>
      have next : used x ∨ used y := (List.isChain_cons_cons.mp settled).1
      exact .inr ⟨y, List.mem_cons_self, next.resolve_left free, tiles.2.2.1⟩

theorem settled_left (x : β) (xs ys : List β) (a b : Nat) (tiles : Tiles lo hi a (xs ++ x :: ys) b)
    (settled : Settled used (xs ++ x :: ys)) (free : ¬ used x) : lo x = a ∨ ∃ y ∈ xs, used y ∧ hi y = lo x := by
  induction xs generalizing a with
  | nil => exact .inl tiles.1
  | cons y xs ih =>
      cases xs with
      | nil =>
          have next : used y ∨ used x := (List.isChain_cons_cons.mp settled).1
          exact .inr ⟨y, List.mem_cons_self, next.resolve_right free, tiles.2.2.1.symm⟩
      | cons z zs =>
          have rest : Settled used ((z :: zs) ++ x :: ys) := List.IsChain.tail settled
          rcases ih (hi y) tiles.2.2 rest with start | ⟨w, member, taken, touch⟩
          · have inner := (tiles_bounds _ _ _ tiles.2.2.2.2 x (by simp)).1
            have first := tiles.2.2.1
            have positive := tiles.2.2.2.1
            omega
          · exact .inr ⟨w, List.mem_cons_of_mem y member, taken, touch⟩

theorem free_is_gap (x : β) (xs : List β) (a b : Nat) (tiles : Tiles lo hi a xs b) (settled : Settled used xs)
    (member : x ∈ xs) (free : ¬ used x) : MaximalGap lo hi used a b xs (lo x) (hi x) := by
  have bounds := tiles_bounds xs a b tiles x member
  obtain ⟨before, after, rfl⟩ := List.append_of_mem member
  refine ⟨bounds.2.1, bounds.1, bounds.2.2, ?_, ?_, ?_⟩
  · intro y present taken
    have different : y ≠ x := fun same => free (same ▸ taken)
    exact tiles_disjoint _ a b tiles y x present member different
  · rcases settled_left x before after a b tiles settled free with start | ⟨y, present, taken, touch⟩
    · exact .inl start
    · exact .inr ⟨y, List.mem_append_left _ present, taken, touch⟩
  · obtain ⟨c, _, right⟩ := (tiles_append before (x :: after) a b).mp tiles
    rcases settled_right x after c b right (settled_append before after x settled).2 free with stop | ⟨y, present, taken, touch⟩
    · exact .inl stop
    · exact .inr ⟨y, List.mem_append_right _ (List.mem_cons_of_mem x present), taken, touch⟩

theorem gap_unique (xs : List β) (a b p q p' q' : Nat) (tiles : Tiles lo hi a xs b)
    (one : MaximalGap lo hi used a b xs p q) (two : MaximalGap lo hi used a b xs p' q')
    (meet : p < q' ∧ p' < q) : p = p' ∧ q = q' := by
  constructor
  · rcases Nat.lt_trichotomy p p' with less | same | more
    · rcases two.left with start | ⟨x, present, taken, touch⟩
      · have := one.lower
        omega
      · have bounds := tiles_bounds xs a b tiles x present
        rcases one.free x present taken with before | after <;> omega
    · exact same
    · rcases one.left with start | ⟨x, present, taken, touch⟩
      · have := two.lower
        omega
      · have bounds := tiles_bounds xs a b tiles x present
        rcases two.free x present taken with before | after <;> omega
  · rcases Nat.lt_trichotomy q q' with less | same | more
    · rcases one.right with stop | ⟨x, present, taken, touch⟩
      · have := two.upper
        omega
      · have bounds := tiles_bounds xs a b tiles x present
        rcases two.free x present taken with before | after <;> omega
    · exact same
    · rcases two.right with stop | ⟨x, present, taken, touch⟩
      · have := one.upper
        omega
      · have bounds := tiles_bounds xs a b tiles x present
        rcases one.free x present taken with before | after <;> omega

theorem free_iff_gap (xs : List β) (a b p q : Nat) (tiles : Tiles lo hi a xs b) (settled : Settled used xs) :
    (∃ x ∈ xs, ¬ used x ∧ lo x = p ∧ hi x = q) ↔ MaximalGap lo hi used a b xs p q := by
  constructor
  · rintro ⟨x, member, free, rfl, rfl⟩
    exact free_is_gap x xs a b tiles settled member free
  · intro gap
    have inside : p < b := Nat.lt_of_lt_of_le gap.nonempty gap.upper
    obtain ⟨x, member, lower, upper⟩ := tiles_cover xs a b p tiles gap.lower inside
    have nonempty := gap.nonempty
    have free : ¬ used x := by
      intro taken
      rcases gap.free x member taken with before | after <;> omega
    have piece := free_is_gap x xs a b tiles settled member free
    have same := gap_unique xs a b _ _ p q tiles piece gap ⟨by omega, upper⟩
    exact ⟨x, member, free, same.1, same.2⟩

-- Two settled tilings of one interval with the same used pieces are one list,
-- where a piece is determined by its two ends and by whether it is used.
theorem free_heads_le (x y : β) (xs ys : List β) (a b : Nat) (left : Tiles lo hi a (x :: xs) b)
    (right : Tiles lo hi a (y :: ys) b) (settled : Settled used (x :: xs)) (freeX : ¬ used x) (freeY : ¬ used y)
    (same : ∀ z, used z → z ∈ x :: xs → z ∈ y :: ys) : hi y ≤ hi x := by
  rcases settled_right x xs a b left settled freeX with stop | ⟨z, present, taken, touch⟩
  · have := (tiles_bounds _ a b right y List.mem_cons_self).2.2
    omega
  · rcases List.mem_cons.mp (same z taken (List.mem_cons_of_mem x present)) with rfl | later
    · exact absurd taken freeY
    · have := (tiles_bounds ys (hi y) b right.2.2 z later).1
      omega

theorem head_of_used (x y : β) (xs ys : List β) (a b : Nat) (left : Tiles lo hi a (x :: xs) b)
    (right : Tiles lo hi a (y :: ys) b) (present : x ∈ y :: ys) : x = y := by
  rcases List.mem_cons.mp present with same | later
  · exact same
  · have bounds := tiles_bounds ys (hi y) b right.2.2 x later
    obtain ⟨startX, _⟩ := left
    obtain ⟨startY, positive, _⟩ := right
    omega

theorem tail_members (x : β) (xs ys : List β) (a b : Nat) (left : Tiles lo hi a (x :: xs) b) (z : β)
    (same : z ∈ x :: xs → z ∈ x :: ys) (present : z ∈ xs) : z ∈ ys := by
  rcases List.mem_cons.mp (same (List.mem_cons_of_mem x present)) with rfl | later
  · have bounds := tiles_bounds xs (hi z) b left.2.2 z present
    omega
  · exact later

theorem settled_unique (ext : ∀ x y, lo x = lo y → hi x = hi y → (used x ↔ used y) → x = y)
    (xs ys : List β) (a b : Nat) (left : Tiles lo hi a xs b) (right : Tiles lo hi a ys b)
    (settledX : Settled used xs) (settledY : Settled used ys)
    (same : ∀ z, used z → (z ∈ xs ↔ z ∈ ys)) : xs = ys := by
  induction xs generalizing a ys with
  | nil =>
      cases ys with
      | nil => rfl
      | cons y ys =>
          have bounds := tiles_bounds (y :: ys) a b right y List.mem_cons_self
          have empty : a = b := left
          omega
  | cons x xs ih =>
      cases ys with
      | nil =>
          have bounds := tiles_bounds (x :: xs) a b left x List.mem_cons_self
          have empty : a = b := right
          omega
      | cons y ys =>
          have heads : x = y := by
            by_cases taken : used x
            · exact head_of_used x y xs ys a b left right ((same x taken).mp List.mem_cons_self)
            · by_cases other : used y
              · exact (head_of_used y x ys xs a b right left ((same y other).mpr List.mem_cons_self)).symm
              · have le := free_heads_le x y xs ys a b left right settledX taken other (fun z used => (same z used).mp)
                have ge := free_heads_le y x ys xs a b right left settledY other taken (fun z used => (same z used).mpr)
                exact ext x y (left.1.trans right.1.symm) (Nat.le_antisymm ge le) (iff_of_false taken other)
          subst heads
          have tails : xs = ys := by
            refine ih ys (hi x) left.2.2 right.2.2 (List.IsChain.tail settledX) (List.IsChain.tail settledY) ?_
            intro z taken
            exact ⟨tail_members x xs ys a b left z (same z taken).mp, tail_members x ys xs a b right z (same z taken).mpr⟩
          rw [tails]

end Tiling
