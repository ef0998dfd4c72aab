import Deimos.Kalloc.Run

set_option autoImplicit false

namespace Deimos.Kalloc

open Mem Tiling Comp

def TrueAnswer (base stop : Nat) (size ptr : Word) (s' : Heap) : Prop :=
  ptr = 0 ∨ ∃ cs, WellFormed base stop s' cs ∧ ∃ b ∈ cs, b.used ∧ b.payload = ptr ∧ size.toNat + headerSize.toNat ≤ b.size.toNat

-- Every answer is true, and no null pointer that split_block returned is followed.
def Honest (base stop : Nat) (size : Word) (align : Bool) (s : Heap) : Prop :=
  (∀ ptr s', (kmallocInt size align s).Returns (ptr, s') → TrueAnswer base stop size ptr s') ∧
    ¬ (kmallocInt size align s).Ends (.error .fault)

-- The block an allocation in b begins with: b itself, or what is left of it from its page-aligned block on.
def Block.given (align : Bool) (b : Block) : Block := if align then b.alignedBlock else b

-- The first block that passes the test of its size is one that the aligned
-- search does not get past, or one that can be cut, and has size bytes of
-- payload if there is a pointer to it.
def Roomy (bs : List Block) (size : Word) (align : Bool) : Prop :=
  ∀ pre post b, bs = pre ++ b :: post → (∀ c ∈ pre, ¬ c.Fits (roundSize size)) → b.Fits (roundSize size) →
    (align = true ∧ b.Stuck (roundSize size)) ∨
      ((align = true → b.Splits (roundSize size)) ∧
        (b.pointer align = 0 ∨ size.toNat + headerSize.toNat ≤ (b.given align).size.toNat))

-- A block cut for a request has the rounded size, so it is large enough if the
-- rounding did not wrap; if it did, no block is.
theorem cut_room (b : Block) (size : Word) (room : 20 ≤ b.size.toNat) (cut : b.Cuttable (headerSize + roundSize size)) :
    size.toNat + headerSize.toNat ≤ (b.cutFront (headerSize + roundSize size)).size.toNat ↔
      size.toNat + headerSize.toNat ≤ b.size.toNat := by
  obtain ⟨low, high⟩ := cuttable_bounds b _ room cut
  have rounded := round_size_mod size
  have bound := b.size.isLt
  simp only [Block.cutFront, headerSize] at low high ⊢
  constructor <;> intro fits <;> bv_omega

theorem place_taken (align : Bool) (size : Word) (b : Block) (free : b.allocated = false) (room : 20 ≤ (b.given align).size.toNat)
    (splits : align = true → b.Splits (roundSize size)) :
    ∃ lead taken rest, b.place align (roundSize size) = lead ++ taken :: rest ∧ PlaceShape align b taken lead rest ∧
      (size.toNat + headerSize.toNat ≤ taken.size.toNat ↔ size.toNat + headerSize.toNat ≤ (b.given align).size.toNat) := by
  obtain ⟨lead, taken, rest, placed, shape⟩ := place_shape align (roundSize size) b free
  refine ⟨lead, taken, rest, placed, shape, ?_⟩
  have member : taken ∈ b.place align (roundSize size) := by simp [placed]
  have used := shape.used
  -- Of the blocks that take the place of b only the one handed out is used.
  cases align with
  | false =>
      change taken ∈ b.carve (roundSize size) at member
      change _ ↔ _ ≤ b.size.toNat
      unfold Block.carve at member
      split at member
      · rw [List.mem_singleton.mp member]
        rfl
      · rename_i cut
        rcases List.mem_pair.mp member with rfl | rfl
        · exact cut_room b size room (not_not.mp (not_or.mp cut).2)
        · exact absurd used (by simp [Block.cutBack, free])
  | true =>
      change taken ∈ b.carveAligned (roundSize size) at member
      change _ ↔ _ ≤ b.alignedBlock.size.toNat
      unfold Block.carveAligned at member
      split at member
      · rename_i large
        simp only [List.mem_cons, List.not_mem_nil, or_false] at member
        rcases member with rfl | rfl | rfl
        · exact absurd used (by simp [Block.cutFront, free])
        · exact cut_room b.alignedBlock size room ((splits rfl).2 large)
        · exact absurd used (by simp [Block.tag])
      · rcases List.mem_pair.mp member with rfl | rfl
        · exact absurd used (by simp [Block.cutFront, free])
        · rfl

section Answers

variable {base stop : Nat} {s : Heap} {size : Word} {align : Bool} {pre post : List Block} {b : Block}

theorem given_room (wf : WellFormed base stop s (pre ++ b :: post)) (splits : align = true → b.Splits (roundSize size)) :
    20 ≤ (b.given align).size.toNat := by
  have room := (wf.bounds (b := b) (by simp)).2.1
  cases align with
  | false => exact room
  | true =>
      obtain ⟨low, high⟩ := cuttable_bounds b _ room (splits rfl).1
      change 20 ≤ (b.size - b.alignedDist).toNat
      bv_omega

theorem true_answer_iff (ptr : Word) (s' : Heap) (wf : WellFormed base stop s (pre ++ b :: post))
    (allocates : Allocates base stop s (pre ++ b :: post) size align ptr s' pre post b) :
    TrueAnswer base stop size ptr s' ↔
      b.pointer align = 0 ∨ size.toNat + headerSize.toNat ≤ (b.given align).size.toNat := by
  have splits := fun aligned => (allocates.room aligned).2
  obtain ⟨lead, taken, rest, placed, shape, sized⟩ :=
    place_taken align size b allocates.fit.1 (given_room wf splits) splits
  have after := allocates.after
  rw [placed] at after
  have inside : taken ∈ pre ++ ((lead ++ taken :: rest) ++ post) := by simp
  have pointer : taken.payload = ptr := shape.payload.trans allocates.pointer.symm
  rw [← allocates.pointer, ← sized]
  constructor
  · rintro (null | ⟨cs, list, c, member, used, same, large⟩)
    · exact .inl null
    · rw [well_formed_unique base stop s' cs _ list after] at member
      have own : c = taken := after.addr_inj member inside (payload_inj c taken (same.trans pointer.symm))
      exact .inr (own ▸ large)
  · rintro (null | large)
    · exact .inl null
    · exact .inr ⟨_, after, taken, inside, shape.used, pointer, large⟩

end Answers

theorem kmalloc_honest_iff (base stop : Nat) (s : Heap) (bs : List Block) (size : Word) (align : Bool)
    (wf : WellFormed base stop s bs) (nonzero : size ≠ 0) : Honest base stop size align s ↔ Roomy bs size align := by
  constructor
  · rintro ⟨answers, safe⟩ pre post b rfl unfit fit
    by_cases stuck : align = true ∧ b.Stuck (roundSize size)
    · exact .inl stuck
    · have loose : align = true → ¬ b.Stuck (roundSize size) := fun aligned => (not_and.mp stuck) aligned
      have splits : align = true → b.Splits (roundSize size) := by
        intro aligned
        by_contra refused
        subst aligned
        exact safe (kmalloc_int_fault wf nonzero unfit fit (loose rfl) refused)
      obtain ⟨s', returned, allocates⟩ := kmalloc_int_serves size align pre post b wf nonzero unfit fit
        (fun aligned => ⟨loose aligned, splits aligned⟩)
      exact .inr ⟨splits, (true_answer_iff _ s' wf allocates).mp (answers _ s' returned)⟩
  · intro roomy
    constructor
    · intro ptr s' returned
      rcases kmalloc_int_returns base stop s bs size align ptr s' wf nonzero returned with ⟨null, _⟩ | ⟨pre, post, b, allocates⟩
      · exact .inl null
      · obtain rfl := allocates.shape
        have room := roomy pre post b rfl allocates.unfit allocates.fit
        have fits := (room.resolve_left (fun stuck => (allocates.room stuck.1).1 stuck.2)).2
        exact (true_answer_iff ptr s' wf allocates).mpr fits
    · intro fault
      rcases first_fit bs (roundSize size) with unfit | ⟨pre, post, b, rfl, unfit, fit⟩
      · exact absurd ((kmalloc_int_none wf nonzero unfit _).mp fault) (by simp)
      · rcases roomy pre post b rfl unfit fit with ⟨rfl, stuck⟩ | ⟨splits, _⟩
        · exact (diverges_iff _).mp (kmalloc_int_stuck wf nonzero unfit fit stuck) _ fault
        · by_cases stuck : align = true ∧ b.Stuck (roundSize size)
          · obtain ⟨rfl, stuck⟩ := stuck
            exact (diverges_iff _).mp (kmalloc_int_stuck wf nonzero unfit fit stuck) _ fault
          · have loose : align = true → ¬ b.Stuck (roundSize size) := fun aligned => (not_and.mp stuck) aligned
            obtain ⟨s', returned, _⟩ := kmalloc_int_serves size align pre post b wf nonzero unfit fit
              (fun aligned => ⟨loose aligned, splits aligned⟩)
            exact absurd (ends_unique _ _ _ returned fault) (by simp)

theorem roomy_single (b : Block) (size : Word) (align : Bool)
    (room : (align = true ∧ b.Stuck (roundSize size)) ∨ ((align = true → b.Splits (roundSize size)) ∧
      (b.pointer align = 0 ∨ size.toNat + headerSize.toNat ≤ (b.given align).size.toNat))) : Roomy [b] size align := by
  intro pre post c shape _ _
  have same : c = b := by
    cases pre with
    | nil => exact ((List.cons.inj shape).1).symm
    | cons d pre => simp at shape
  exact same ▸ room

theorem kmalloc_honest_page : ∃ s, kheapInit 0xC0200000 0x200000 (fun _ => 0) = .ok s ∧
    Honest 0xC0200000 0xC0400000 0x1000 true s := by
  obtain ⟨s, init⟩ := kheap_init_ok 0xC0200000 0x200000 (fun _ => 0) (by decide)
  have wf := kheap_init_list 0xC0200000 0x200000 _ s init (by decide) (by decide)
  exact ⟨s, init, (kmalloc_honest_iff _ _ s _ 0x1000 true wf (by decide)).mpr (roomy_single _ _ _ (by decide))⟩

theorem kmalloc_serves_four_gigabytes : ∃ s ptr s', kheapInit 0xC0200000 0x200000 (fun _ => 0) = .ok s ∧
    (kmalloc 0xFFFFFFFF s).Returns (ptr, s') ∧ ¬ TrueAnswer 0xC0200000 0xC0400000 0xFFFFFFFF ptr s' ∧
    ¬ Honest 0xC0200000 0xC0400000 0xFFFFFFFF false s := by
  obtain ⟨s, init⟩ := kheap_init_ok 0xC0200000 0x200000 (fun _ => 0) (by decide)
  have wf := kheap_init_list 0xC0200000 0x200000 _ s init (by decide) (by decide)
  obtain ⟨s', returned, allocates⟩ := kmalloc_int_serves 0xFFFFFFFF false [] [] ⟨0xC0200000, 0x200000, false⟩ wf (by decide)
    (by simp) (by decide) (by simp)
  have untrue : ¬ TrueAnswer 0xC0200000 0xC0400000 0xFFFFFFFF _ s' := fun answer =>
    absurd ((true_answer_iff _ s' wf allocates).mp answer) (by decide)
  exact ⟨s, _, s', init, returned, untrue, fun honest => untrue (honest.1 _ s' returned)⟩

end Deimos.Kalloc
