import Deimos.Kalloc.Search

set_option autoImplicit false

namespace Deimos.Kalloc

open Mem Tiling

theorem not_used (b : Block) (free : b.allocated = false) : ¬ b.used := by simp [Block.used, free]

-- How an allocation divides a free block: one allocated block, with at most
-- one free block before it and at most one behind it.
structure PlaceShape (align : Bool) (b taken : Block) (lead rest : List Block) : Prop where
  used : taken.allocated = true
  before : ∀ c ∈ lead, c.allocated = false
  behind : ∀ c ∈ rest, c.allocated = false
  short : lead.length ≤ 1 ∧ rest.length ≤ 1
  payload : taken.payload = b.pointer align

theorem place_shape (align : Bool) (size : Word) (b : Block) (free : b.allocated = false) :
    ∃ lead taken rest, b.place align size = lead ++ taken :: rest ∧ PlaceShape align b taken lead rest := by
  cases align with
  | false =>
      by_cases whole : b.size < size + 2 * headerSize ∨ ¬ b.Cuttable (headerSize + size)
      · refine ⟨[], b.tag true, [], if_pos whole, rfl, by simp, by simp, by simp, rfl⟩
      · refine ⟨[], (b.cutFront (headerSize + size)).tag true, [b.cutBack (headerSize + size)], if_neg whole, rfl, by simp, ?_,
          by simp, rfl⟩
        simpa [Block.cutBack] using free
  | true =>
      by_cases large : b.alignedBlock.size > size + 2 * headerSize
      · refine ⟨[b.cutFront b.alignedDist], b.alignedBlock.cutFront (headerSize + size),
          [(b.alignedBlock.cutBack (headerSize + size)).tag false], if_pos large, rfl, ?_, by simp [Block.tag], by simp,
          aligned_block_addr b⟩
        simpa [Block.cutFront] using free
      · refine ⟨[b.cutFront b.alignedDist], b.alignedBlock, [], if_neg large, rfl, ?_, by simp, by simp, aligned_block_addr b⟩
        simpa [Block.cutFront] using free

theorem settled_short (xs : List Block) (short : xs.length ≤ 1) : Settled Block.used xs := by
  match xs, short with
  | [], _ => exact .nil
  | [b], _ => exact .singleton b

theorem settled_shape (align : Bool) (b taken : Block) (lead rest : List Block) (shape : PlaceShape align b taken lead rest) :
    Settled Block.used (lead ++ taken :: rest) := by
  refine List.isChain_append.mpr ⟨settled_short lead shape.short.1, ?_, ?_⟩
  · refine List.isChain_cons.mpr ⟨fun y _ => .inl shape.used, settled_short rest shape.short.2⟩
  · intro x _ y here
    have same : taken = y := by simpa using here
    exact .inr (same ▸ shape.used)

-- A free block of a settled list has only used neighbours, so any settled
-- blocks can take its place.
theorem settled_replace (pre post xs : List Block) (b : Block) (settled : Settled Block.used (pre ++ b :: post))
    (free : b.allocated = false) (inner : Settled Block.used xs) :
    Settled Block.used (pre ++ (xs ++ post)) := by
  obtain ⟨before, here, left⟩ := List.isChain_append.mp settled
  obtain ⟨right, after⟩ := List.isChain_cons.mp here
  refine List.isChain_append.mpr ⟨before, List.isChain_append.mpr ⟨inner, after, ?_⟩, ?_⟩
  · exact fun x _ y next => .inr ((right y next).resolve_left (not_used b free))
  · exact fun x last y _ => .inl ((left x last b rfl).resolve_right (not_used b free))

theorem settled_place (pre post : List Block) (b : Block) (align : Bool) (size : Word)
    (settled : Settled Block.used (pre ++ b :: post)) (free : b.allocated = false) :
    Settled Block.used (pre ++ (b.place align size ++ post)) := by
  obtain ⟨lead, taken, rest, same, shape⟩ := place_shape align size b free
  rw [same]
  exact settled_replace pre post _ b settled free (settled_shape align b taken lead rest shape)

theorem used_place (pre post lead rest : List Block) (b taken z : Block) (align : Bool) (shape : PlaceShape align b taken lead rest)
    (free : b.allocated = false) (used : z.used) :
    z ∈ pre ++ ((lead ++ taken :: rest) ++ post) ↔ z ∈ pre ++ b :: post ∨ z = taken := by
  have notLead : z ∉ lead := fun member => not_used z (shape.before z member) used
  have notRest : z ∉ rest := fun member => not_used z (shape.behind z member) used
  have notBlock : z ≠ b := fun same => not_used z (same ▸ free) used
  simp only [List.mem_append, List.mem_cons, notLead, notRest, notBlock, false_or, or_false]
  tauto

theorem join_next_settled (b : Block) (post : List Block) (settled : Settled Block.used post) (free : b.allocated = false) :
    (joinNext b post).1.allocated = false ∧ Settled Block.used (joinNext b post).2 ∧
      ∀ c ∈ (joinNext b post).2.head?, c.used := by
  cases post with
  | nil => exact ⟨free, settled, by simp [joinNext]⟩
  | cons c rest =>
      cases taken : c.allocated with
      | true =>
          simp only [joinNext, taken, if_true]
          exact ⟨free, settled, fun d here => (Option.some.inj here) ▸ taken⟩
      | false =>
          obtain ⟨right, after⟩ := List.isChain_cons.mp settled
          simp only [joinNext, taken, if_false, Bool.false_eq_true]
          exact ⟨free, after, fun d next => (right d next).resolve_left (not_used c taken)⟩

theorem join_prev_settled (pre post : List Block) (b : Block) (before : Settled Block.used pre) (after : Settled Block.used post)
    (right : ∀ c ∈ post.head?, c.used) : Settled Block.used (joinPrev pre b post) := by
  have behind : ∀ x : Block, Settled Block.used (x :: post) :=
    fun x => List.isChain_cons.mpr ⟨fun c next => .inr (right c next), after⟩
  rcases List.eq_nil_or_concat pre with rfl | ⟨front, p, rfl⟩
  · exact behind b
  · rw [List.concat_eq_append] at before ⊢
    obtain ⟨early, _, left⟩ := List.isChain_append.mp before
    cases taken : p.allocated with
    | true =>
        have same : joinPrev (front ++ [p]) b post = (front ++ [p]) ++ b :: post := by simp [joinPrev, taken]
        rw [same]
        refine List.isChain_append.mpr ⟨before, behind b, ?_⟩
        intro x last y _
        have isLast : p = x := by simpa using last
        exact .inl (isLast ▸ taken)
    | false =>
        have same : joinPrev (front ++ [p]) b post = front ++ p.join b :: post := by simp [joinPrev, taken]
        rw [same]
        refine List.isChain_append.mpr ⟨early, behind (p.join b), ?_⟩
        exact fun x last y _ => .inl ((left x last p rfl).resolve_right (not_used p taken))

theorem settled_free (pre post : List Block) (b : Block) (settled : Settled Block.used (pre ++ b :: post)) :
    Settled Block.used (freeBlock pre b post) := by
  obtain ⟨before, here, _⟩ := List.isChain_append.mp settled
  obtain ⟨_, after, right⟩ := join_next_settled (b.tag false) post (List.isChain_cons.mp here).2 rfl
  exact join_prev_settled pre _ _ before after right

theorem used_join_next (b z : Block) (post : List Block) (used : z.used) : z ∈ (joinNext b post).2 ↔ z ∈ post := by
  cases post with
  | nil => rfl
  | cons c rest =>
      cases taken : c.allocated with
      | true => simp [joinNext, taken]
      | false =>
          have other : z ≠ c := fun same => not_used z (same ▸ taken) used
          simp [joinNext, taken, other]

theorem used_join_prev (pre post : List Block) (b z : Block) (free : b.allocated = false) (used : z.used) :
    z ∈ joinPrev pre b post ↔ z ∈ pre ∨ z ∈ post := by
  have notBlock : z ≠ b := fun same => not_used z (same ▸ free) used
  rcases List.eq_nil_or_concat pre with rfl | ⟨front, p, rfl⟩
  · simp [joinPrev, notBlock]
  · rw [List.concat_eq_append]
    cases taken : p.allocated with
    | true => simp [joinPrev, taken, notBlock, or_assoc]
    | false =>
        have notPrev : z ≠ p := fun same => not_used z (same ▸ taken) used
        have notJoined : z ≠ p.join b := fun same => not_used z (same ▸ taken) used
        simp [joinPrev, taken, notPrev, notJoined]

theorem used_free (base stop : Nat) (pre post : List Block) (b z : Block) (layout : Layout base stop (pre ++ b :: post)) (used : z.used) :
    z ∈ freeBlock pre b post ↔ z ∈ pre ++ b :: post ∧ z ≠ b := by
  have free : (joinNext (b.tag false) post).1.allocated = false := by
    cases post with
    | nil => rfl
    | cons c rest => cases taken : c.allocated <;> simp [joinNext, taken, Block.join, Block.tag]
  have apart := tiles_pairwise _ base stop layout.tiles
  have bounds := layout.bounds (b := b) (by simp)
  simp only [List.pairwise_append, List.pairwise_cons, List.mem_cons, forall_eq_or_imp, Block.start, Block.stop] at apart
  rw [freeBlock, used_join_prev pre _ _ z free used, used_join_next _ z post used, List.mem_append, List.mem_cons]
  constructor
  · rintro (early | late)
    · refine ⟨.inl early, ?_⟩
      rintro rfl
      have := (apart.2.2 z early).1
      omega
    · refine ⟨.inr (.inr late), ?_⟩
      rintro rfl
      have := apart.2.1.1 z late
      omega
  · rintro ⟨early | rfl | late, other⟩
    · exact .inl early
    · exact absurd rfl other
    · exact .inr late

end Deimos.Kalloc
