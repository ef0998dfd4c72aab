import Deimos.Kalloc.Free

set_option autoImplicit false

namespace Deimos.Kalloc

open Mem Tiling Comp

def Block.Holds (r : Nat) (b : Block) : Prop := b.allocated = false ∧ r + 20 ≤ b.size.toNat

-- What becomes of a block that serves a request for r bytes: what is left of
-- it is a block of its own if that has room for a header and 20 bytes more.
structure Block.Serves (r : Nat) (b : Block) (placed : List Block) : Prop where
  whole : b.size.toNat < r + 40 → placed = [{ b with allocated := true }]
  cut : r + 40 ≤ b.size.toNat → ∃ c : Block, placed = [⟨b.addr, BitVec.ofNat 32 (r + 20), true⟩, c] ∧
    c.allocated = false ∧ c.start = b.start + (r + 20) ∧ c.size.toNat = b.size.toNat - (r + 20)

-- The bytes that are written for it: the block's header, that of the block
-- cut off, and the prev link of the successor.
def Block.Writes (r : Nat) (b : Block) (post : List Block) (x : Word) : Prop :=
  ¬OffHeader b.addr x ∨ (r + 40 ≤ b.size.toNat ∧
    (¬OffHeader (b.addr + BitVec.ofNat 32 (r + 20)) x ∨ ∃ c ∈ post.head?, (x - (c.addr + Field.prev.offset)).toNat < 4))

structure FirstFit (base stop : Nat) (s : Heap) (bs : List Block) (r : Nat) (ptr : Word) (s' : Heap) : Prop where
  null : ptr = 0 ↔ ∀ c ∈ bs, ¬c.Holds r
  idle : ptr = 0 → s' = s
  served : ptr ≠ 0 → ∃ pre b post placed, bs = pre ++ b :: post ∧ b.Holds r ∧ ptr = b.payload ∧
    (∀ c ∈ bs, c.Holds r → b.start ≤ c.start) ∧ b.Serves r placed ∧ WellFormed base stop s' (pre ++ (placed ++ post)) ∧
    ∀ x, ¬b.Writes r post x → s'.mem x = s.mem x

theorem split_block_bytes (m : Mem) (h dist x : Word) (apart : HeaderApart h (h + dist))
    (apartNext : load m h .next ≠ 0 → HeaderApart h (load m h .next) ∧ HeaderApart (h + dist) (load m h .next))
    (front : OffHeader h x) (back : OffHeader (h + dist) x)
    (link : load m h .next ≠ 0 → 4 ≤ (x - (load m h .next + Field.prev.offset)).toNat) : (splitBlock m h dist).1 x = m x := by
  by_cases bad : dist > load m h .size - headerSize ∨ dist < headerSize
  · rw [split_block_refused m h dist bad]
  · have behind := apart.symm
    by_cases last : load m h .next = 0
    · simp only [splitBlock, if_neg bad, load_store_same, load_store_apart, behind, last, ne_eq, not_true, if_false, reduceCtorEq,
        store_other, front, back]
    · obtain ⟨hn, newn⟩ := apartNext last
      have nh := hn.symm
      have linked (m' : Mem) (value : Word) : store m' (load m h .next) .prev value x = m' x :=
        write_other m' _ value x (link last)
      simp only [splitBlock, if_neg bad, load_store_same, load_store_apart, behind, nh, ne_eq, last, not_false_eq_true, if_false,
        if_true, reduceCtorEq, store_other, front, back, linked]

section Serving

variable {base stop : Nat} {s : Heap} {bs pre post : List Block} {b : Block} {size : Word}

theorem fits_iff_holds (small : size.toNat + 20 < 2 ^ 32) (c : Block) : c.Fits size ↔ c.Holds size.toNat := by
  refine and_congr_right (fun _ => ?_)
  simp only [headerSize, ge_iff_le, BitVec.le_def]
  bv_omega

theorem cut_word (r : Nat) (same : size.toNat = r) : headerSize + size = BitVec.ofNat 32 (r + 20) := by
  apply BitVec.eq_of_toNat_eq
  have header : headerSize.toNat = 20 := rfl
  rw [BitVec.toNat_add, BitVec.toNat_ofNat, header, same, Nat.add_comm]

theorem carve_serves (layout : Layout base stop bs) (member : b ∈ bs) (small : size.toNat + 20 < 2 ^ 32) (free : b.allocated = false) :
    b.Serves size.toNat (b.carve size) := by
  have bounds := layout.bounds member
  have bound := layout.bound
  constructor
  · intro whole
    -- Should the first sum wrap, split_block refuses the cut.
    have test : b.size < size + 2 * headerSize ∨ ¬b.Cuttable (headerSize + size) := by
      simp only [Block.Cuttable, headerSize]
      bv_omega
    exact if_pos test
  · intro large
    have test : ¬(b.size < size + 2 * headerSize ∨ ¬b.Cuttable (headerSize + size)) := by
      simp only [Block.Cuttable, headerSize]
      bv_omega
    refine ⟨b.cutBack (headerSize + size), (if_neg test).trans ?_, free, ?_, ?_⟩
    · rw [cut_word size.toNat rfl]
      rfl
    · simp only [Block.start, Block.cutBack, headerSize]
      bv_omega
    · simp only [Block.cutBack, headerSize]
      bv_omega

theorem take_unaligned_bytes (wf : WellFormed base stop s (pre ++ b :: post)) (small : size.toNat + 20 < 2 ^ 32) (x : Word)
    (kept : ¬b.Writes size.toNat post x) : (takeUnaligned s.mem size b.addr).1 x = s.mem x := by
  have header := wf.header
  have room := (wf.bounds (b := b) (by simp)).2.1
  obtain ⟨front, rest⟩ := not_or.mp kept
  have front : OffHeader b.addr x := not_not.mp front
  by_cases whole : b.size < size + 2 * headerSize
  · simp only [takeUnaligned, header.size, if_pos whole]
    exact store_other s.mem b.addr _ x _ front
  · simp only [takeUnaligned, header.size, if_neg whole]
    refine (store_other _ b.addr _ x _ front).trans ?_
    by_cases cut : b.Cuttable (headerSize + size)
    · obtain ⟨low, high⟩ := cuttable_bounds b _ room cut
      have large : size.toNat + 40 ≤ b.size.toNat := by
        simp only [headerSize] at high
        bv_omega
      obtain ⟨back, link⟩ := not_or.mp (not_and.mp rest large)
      rw [← cut_word size.toNat rfl] at back
      have apart := (cut_layout base stop pre post b _ wf.toLayout low high).pairwise
      simp only [List.pairwise_append, List.pairwise_cons, List.mem_cons, forall_eq_or_imp] at apart
      obtain ⟨-, ⟨⟨frontBack, frontPost⟩, backPost, -⟩, -⟩ := apart
      refine split_block_bytes s.mem b.addr _ x frontBack ?_ front (not_not.mp back) ?_
      · rw [header.next]
        exact fun nonnull => ⟨head_or_of_all post _ frontPost nonnull, head_or_of_all post _ backPost nonnull⟩
      · rw [header.next]
        cases post with
        | nil => exact fun nonnull => absurd rfl nonnull
        | cons c post => exact fun _ => Nat.le_of_not_lt (fun near => link ⟨c, rfl, near⟩)
    · rw [split_refused s.mem b _ _ _ header cut]

-- A block that holds at least one byte does not end the address space before its payload.
theorem payload_ne_of_holds (layout : Layout base stop bs) (member : b ∈ bs) (r : Nat) (positive : 0 < r) (holds : b.Holds r) :
    b.payload ≠ 0 := by
  have bounds := layout.bounds member
  have bound := layout.bound
  have room := holds.2
  simp only [Block.payload, headerSize]
  bv_omega

end Serving

theorem kmalloc_first_fit (base stop : Nat) (s : Heap) (bs : List Block) (size : Word) (wf : WellFormed base stop s bs)
    (nonzero : 0 < size.toNat) (small : size.toNat + size.toNat % 4 + 20 < 2 ^ 32) :
    ∃ ptr s', (kmalloc size s).Returns (ptr, s') ∧ FirstFit base stop s bs (size.toNat + size.toNat % 4) ptr s' := by
  have some : size ≠ 0 := by
    rintro rfl
    exact absurd nonzero (by decide)
  have rounded := round_size_to_nat size (by omega)
  have tests (c : Block) : c.Fits (roundSize size) ↔ c.Holds (size.toNat + size.toNat % 4) := by
    rw [← rounded]
    exact fits_iff_holds (by omega) c
  rcases first_fit bs (roundSize size) with unfit | ⟨pre, post, b, rfl, unfit, fit⟩
  · refine ⟨0, s, (kmalloc_int_none wf some unfit _).mpr rfl, ⟨?_, fun _ => rfl, fun nonnull => absurd rfl nonnull⟩⟩
    exact iff_of_true rfl (fun c member holds => unfit c member ((tests c).mpr holds))
  · have holds : b.Holds (size.toNat + size.toNat % 4) := (tests b).mp fit
    have nonnull : b.payload ≠ 0 := payload_ne_of_holds wf.toLayout (by simp) _ (by omega) holds
    obtain ⟨-, list, -⟩ := take_unaligned_list s.mem base stop pre post b (roundSize size) wf.toHeapList
    have serves : b.Serves (roundSize size).toNat (b.carve (roundSize size)) :=
      carve_serves wf.toLayout (by simp) (by omega) fit.1
    have after := wf.update list (List.append_ne_nil_of_right_ne_nil _ (place_ne_nil false _ b post))
    rw [rounded] at serves
    refine ⟨b.payload, _, (kmalloc_int_unaligned wf some unfit fit _).mpr rfl, ⟨?_, fun null => absurd null nonnull, fun _ => ?_⟩⟩
    · exact iff_of_false nonnull (fun none => none b (by simp) holds)
    · refine ⟨pre, b, post, _, rfl, holds, rfl, fun c member large => ?_, serves, after, fun x kept => ?_⟩
      · have ordered := tiles_pairwise _ base stop wf.tiles
        simp only [List.pairwise_append, List.pairwise_cons] at ordered
        rcases List.mem_append.mp member with early | late
        · exact absurd ((tests c).mpr large) (unfit c early)
        · rcases List.mem_cons.mp late with rfl | later
          · exact Nat.le_refl _
          · have before := ordered.2.1.1 c later
            exact Nat.le_trans (Nat.le_add_right _ _) before
      · exact take_unaligned_bytes wf (by omega) x (by rwa [rounded])

theorem kmalloc_first_fit_at_page : ∃ s ptr s', kheapInit 0xC0200000 0x1000 (fun _ => 0) = .ok s ∧
    (kmalloc 100 s).Returns (ptr, s') ∧ FirstFit 0xC0200000 0xC0201000 s [⟨0xC0200000, 0x1000, false⟩] 100 ptr s' := by
  obtain ⟨s, init⟩ := kheap_init_ok 0xC0200000 0x1000 (fun _ => 0) (by decide)
  have wf := kheap_init_list 0xC0200000 0x1000 _ s init (by decide) (by decide)
  obtain ⟨ptr, s', returned, fits⟩ := kmalloc_first_fit _ _ s _ 100 wf (by decide) (by decide)
  exact ⟨s, ptr, s', init, returned, fits⟩

end Deimos.Kalloc
