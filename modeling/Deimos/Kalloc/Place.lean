import Deimos.Kalloc.Merge

set_option autoImplicit false

namespace Deimos.Kalloc

open Mem Tiling

theorem page_mask_bit (i : Nat) (bound : i < 32) : (0xFFFFF000#32).getLsbD i = decide (12 ≤ i) := by
  have all : ∀ i : Fin 32, (0xFFFFF000#32).getLsbD i = decide (12 ≤ i.val) := by decide
  exact all ⟨i, bound⟩

theorem page_mask (x : Word) : (x &&& 0xFFFFF000#32).toNat = x.toNat / 4096 * 4096 := by
  have shifts : x &&& 0xFFFFF000#32 = (x >>> (12 : Nat)) <<< (12 : Nat) := by
    apply BitVec.eq_of_getLsbD_eq
    intro i bound
    rw [BitVec.getLsbD_and, page_mask_bit i bound]
    by_cases low : i < 12
    · simp [low]
    · have high : 12 ≤ i := by omega
      simp [low, bound, high]
  rw [shifts]
  simp only [BitVec.toNat_shiftLeft, BitVec.toNat_ushiftRight, Nat.shiftLeft_eq, Nat.shiftRight_eq_div_pow]
  have lt := x.isLt
  omega

theorem aligned_addr_eq (h : Word) : (alignedAddr h).toNat = (h.toNat + 4135) % 4294967296 / 4096 * 4096 := by
  rw [alignedAddr, show (h + 2 * headerSize + 0x0FFF : Word) = h + 4135#32 by simp only [headerSize]; bv_omega]
  exact (page_mask _).trans (by simp)

theorem aligned_addr_page (h : Word) : (alignedAddr h).toNat % 4096 = 0 := by
  rw [aligned_addr_eq]
  omega

-- Two headers fit before the aligned address, whatever the block's address:
-- the first continue of the aligned branch is never taken.
theorem aligned_addr_gap (h : Word) : 40 ≤ (alignedAddr h - h).toNat ∧ (alignedAddr h - h).toNat ≤ 4135 := by
  have value := aligned_addr_eq h
  generalize alignedAddr h = a at value ⊢
  constructor <;> bv_omega

-- The test of kmalloc_int and the guard of split_block, read off the list.
def Block.Fits (size : Word) (b : Block) : Prop := b.allocated = false ∧ b.size ≥ size + headerSize

def Block.Cuttable (b : Block) (dist : Word) : Prop := ¬ (dist > b.size - headerSize ∨ dist < headerSize)

-- How far into a block its page-aligned block would start, and the block that is left from there on.
def Block.alignedDist (b : Block) : Word := alignedAddr b.addr - b.addr - headerSize

def Block.alignedBlock (b : Block) : Block := (b.cutBack b.alignedDist).tag true

def Block.Stuck (size : Word) (b : Block) : Prop :=
  alignedAddr b.addr - b.addr < headerSize ∨ alignedAddr b.addr + size > b.addr + b.size

def Block.Splits (size : Word) (b : Block) : Prop :=
  b.Cuttable b.alignedDist ∧
    (b.alignedBlock.size > size + 2 * headerSize → b.alignedBlock.Cuttable (headerSize + size))

instance (size : Word) (b : Block) : Decidable (b.Fits size) := inferInstanceAs (Decidable (_ ∧ _))
instance (b : Block) (dist : Word) : Decidable (b.Cuttable dist) := inferInstanceAs (Decidable (¬ _))
instance (size : Word) (b : Block) : Decidable (b.Stuck size) := inferInstanceAs (Decidable (_ ∨ _))
instance (size : Word) (b : Block) : Decidable (b.Splits size) := inferInstanceAs (Decidable (_ ∧ _))

def Block.carve (size : Word) (b : Block) : List Block :=
  if b.size < size + 2 * headerSize ∨ ¬ b.Cuttable (headerSize + size) then [b.tag true]
  else [(b.cutFront (headerSize + size)).tag true, b.cutBack (headerSize + size)]

def Block.carveAligned (size : Word) (b : Block) : List Block :=
  if b.alignedBlock.size > size + 2 * headerSize then
    [b.cutFront b.alignedDist, b.alignedBlock.cutFront (headerSize + size),
      (b.alignedBlock.cutBack (headerSize + size)).tag false]
  else [b.cutFront b.alignedDist, b.alignedBlock]

theorem fits_iff (m : Mem) (b : Block) (prev next size : Word) (header : HeaderIs m b prev next) :
    Fits m size b.addr ↔ b.Fits size := by
  rw [Fits, Block.Fits, header.allocated, header.size, flag_eq_zero]

theorem cuttable_bounds (b : Block) (dist : Word) (room : 20 ≤ b.size.toNat) (cut : b.Cuttable dist) :
    20 ≤ dist.toNat ∧ dist.toNat + 20 ≤ b.size.toNat := by
  simp only [Block.Cuttable, headerSize, not_or] at cut
  constructor <;> bv_omega

theorem split_refused (m : Mem) (b : Block) (prev next dist : Word) (header : HeaderIs m b prev next)
    (cut : ¬ b.Cuttable dist) : splitBlock m b.addr dist = (m, 0) := by
  apply split_block_refused
  rw [header.size]
  exact not_not.mp cut

theorem take_unaligned_list (m : Mem) (base stop : Nat) (pre post : List Block) (b : Block) (size : Word)
    (list : HeapList m base stop (pre ++ b :: post)) :
    (takeUnaligned m size b.addr).2 = b.payload ∧
      HeapList (takeUnaligned m size b.addr).1 base stop (pre ++ (b.carve size ++ post)) ∧
      ∀ x, OffHeaders (pre ++ (b.carve size ++ post)) x → (takeUnaligned m size b.addr).1 x = m x := by
  have header := list.header
  by_cases whole : b.size < size + 2 * headerSize
  · have carved : b.carve size = [b.tag true] := if_pos (.inl whole)
    simp only [takeUnaligned, header.size, if_pos whole, carved]
    refine ⟨rfl, set_allocated_list m base stop pre post b true list, ?_⟩
    intro x off
    exact store_other m b.addr _ x _ (off.at (b := b.tag true) (by simp))
  · simp only [takeUnaligned, header.size, if_neg whole]
    refine ⟨rfl, ?_⟩
    by_cases cut : b.Cuttable (headerSize + size)
    · have carved : b.carve size = [(b.cutFront (headerSize + size)).tag true, b.cutBack (headerSize + size)] :=
        if_neg (not_or.mpr ⟨whole, not_not.mpr cut⟩)
      obtain ⟨low, high⟩ := cuttable_bounds b _ (list.bounds (by simp)).2.1 cut
      obtain ⟨_, halves, frame⟩ := split_block_list m base stop pre post b _ list low high
      rw [carved]
      refine ⟨set_allocated_list _ base stop pre _ (b.cutFront (headerSize + size)) true halves, ?_⟩
      intro x off
      have offHalves : OffHeaders (pre ++ b.cutFront (headerSize + size) :: b.cutBack (headerSize + size) :: post) x := by
        simpa [OffHeaders, Block.tag] using off
      exact (store_other _ b.addr _ x _ (offHalves.at (b := b.cutFront (headerSize + size)) (by simp))).trans (frame x offHalves)
    · have carved : b.carve size = [b.tag true] := if_pos (.inr cut)
      rw [split_refused m b _ _ _ header cut, carved]
      refine ⟨set_allocated_list m base stop pre post b true list, ?_⟩
      intro x off
      exact store_other m b.addr _ x _ (off.at (b := b.tag true) (by simp))

theorem aligned_block_addr (b : Block) : b.alignedBlock.addr + headerSize = alignedAddr b.addr := by
  simp only [Block.alignedBlock, Block.tag, Block.cutBack, Block.alignedDist, headerSize]
  bv_omega

theorem aligned_cut (m : Mem) (base stop : Nat) (pre post : List Block) (b : Block)
    (list : HeapList m base stop (pre ++ b :: post)) (cut : b.Cuttable b.alignedDist) :
    (splitBlock m b.addr b.alignedDist).2 = b.alignedBlock.addr ∧ b.alignedBlock.addr ≠ 0 ∧
      HeapList (store (splitBlock m b.addr b.alignedDist).1 b.alignedBlock.addr .allocated 1) base stop
        ((pre ++ [b.cutFront b.alignedDist]) ++ b.alignedBlock :: post) ∧
      ∀ x, OffHeaders (pre ++ b.cutFront b.alignedDist :: b.alignedBlock :: post) x →
        store (splitBlock m b.addr b.alignedDist).1 b.alignedBlock.addr .allocated 1 x = m x := by
  obtain ⟨low, high⟩ := cuttable_bounds b _ (list.bounds (by simp)).2.1 cut
  obtain ⟨at', halves, frame⟩ := split_block_list m base stop pre post b _ list low high
  have tagged := set_allocated_list _ base stop (pre ++ [b.cutFront b.alignedDist]) post (b.cutBack b.alignedDist) true
    (by simpa using halves)
  refine ⟨at', tagged.addr_ne (b := b.alignedBlock) (by simp [Block.alignedBlock]), tagged, ?_⟩
  intro x off
  refine (store_other _ _ _ x _ (off.at (b := b.alignedBlock) (by simp))).trans (frame x ?_)
  simpa [OffHeaders, Block.alignedBlock, Block.tag] using off

theorem take_aligned_fault (m : Mem) (base stop : Nat) (pre post : List Block) (b : Block) (size : Word)
    (list : HeapList m base stop (pre ++ b :: post)) (refused : ¬ b.Splits size) :
    takeAligned m size b.addr = .error .fault := by
  have header := list.header
  have dist : alignedAddr b.addr - b.addr - headerSize = b.alignedDist := rfl
  by_cases cut : b.Cuttable b.alignedDist
  · obtain ⟨at', nonnull, tagged, _⟩ := aligned_cut m base stop pre post b list cut
    have large : b.alignedBlock.size > size + 2 * headerSize ∧ ¬ b.alignedBlock.Cuttable (headerSize + size) := by
      by_contra fine
      exact refused ⟨cut, fun large => not_not.mp (fun bad => fine ⟨large, bad⟩)⟩
    simp only [takeAligned, dist, at', deref_ne _ _ nonnull, tagged.header.size, if_pos large.1,
      split_refused _ _ _ _ _ tagged.header large.2]
    rfl
  · simp only [takeAligned, dist, split_refused m b _ _ _ header cut]
    rfl

theorem take_aligned_list (m : Mem) (base stop : Nat) (pre post : List Block) (b : Block) (size : Word)
    (list : HeapList m base stop (pre ++ b :: post)) (fine : b.Splits size) :
    ∃ m', takeAligned m size b.addr = .ok (m', alignedAddr b.addr) ∧
      HeapList m' base stop (pre ++ (b.carveAligned size ++ post)) ∧
      ∀ x, OffHeaders (pre ++ (b.carveAligned size ++ post)) x → m' x = m x := by
  have dist : alignedAddr b.addr - b.addr - headerSize = b.alignedDist := rfl
  obtain ⟨at', nonnull, tagged, frame⟩ := aligned_cut m base stop pre post b list fine.1
  by_cases large : b.alignedBlock.size > size + 2 * headerSize
  · have carved : b.carveAligned size = [b.cutFront b.alignedDist, b.alignedBlock.cutFront (headerSize + size),
        (b.alignedBlock.cutBack (headerSize + size)).tag false] := if_pos large
    obtain ⟨low, high⟩ := cuttable_bounds b.alignedBlock _ (tagged.bounds (by simp)).2.1 (fine.2 large)
    obtain ⟨backAt, halves, frameBack⟩ := split_block_list _ base stop _ post b.alignedBlock _ tagged low high
    have untagged := set_allocated_list _ base stop
      ((pre ++ [b.cutFront b.alignedDist]) ++ [b.alignedBlock.cutFront (headerSize + size)]) post
      (b.alignedBlock.cutBack (headerSize + size)) false (by simpa using halves)
    have backNonnull : b.alignedBlock.addr + (headerSize + size) ≠ 0 :=
      halves.addr_ne (b := b.alignedBlock.cutBack (headerSize + size)) (by simp)
    refine ⟨_, ?_, by simpa [carved] using untagged, ?_⟩
    · simp only [takeAligned, dist, at', deref_ne _ _ nonnull, tagged.header.size, if_pos large, backAt,
        deref_ne _ _ backNonnull, aligned_block_addr]
      rfl
    · intro x off
      rw [carved] at off
      refine (store_other _ _ _ x _ (off.at (b := (b.alignedBlock.cutBack (headerSize + size)).tag false) (by simp))).trans ?_
      refine (frameBack x ?_).trans (frame x ?_)
      · simpa [OffHeaders, Block.tag] using off
      · simp only [OffHeaders, List.map_append, List.map_cons, List.mem_append, List.mem_cons] at off ⊢
        intro h member
        rcases member with early | front | mid | late
        · exact off h (by simp [early])
        · exact off h (by simp [front])
        · exact off h (by simp [mid, Block.cutFront])
        · exact off h (by simp [late])
  · have carved : b.carveAligned size = [b.cutFront b.alignedDist, b.alignedBlock] := if_neg large
    refine ⟨_, ?_, by simpa [carved] using tagged, ?_⟩
    · simp only [takeAligned, dist, at', deref_ne _ _ nonnull, tagged.header.size, if_neg large, aligned_block_addr]
      rfl
    · intro x off
      exact frame x (by simpa [carved] using off)

end Deimos.Kalloc
