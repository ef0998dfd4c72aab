import Deimos.Kalloc.Blocks

set_option autoImplicit false

namespace Deimos.Kalloc

open Mem Tiling

structure SplitLoads (m m' : Mem) (h newH dist : Word) : Prop where
  front : ∀ f, load m' h f = if f = .size then dist else if f = .next then newH else load m h f
  back : load m' newH .magic = HEAP_MAGIC ∧ load m' newH .size = load m h .size - dist ∧
    load m' newH .allocated = load m h .allocated ∧ load m' newH .prev = h ∧ load m' newH .next = load m h .next
  next : load m h .next ≠ 0 → ∀ f, load m' (load m h .next) f = if f = .prev then newH else load m (load m h .next) f
  other : ∀ q, HeaderApart h q → HeaderApart newH q → (load m h .next ≠ 0 → HeaderApart (load m h .next) q) →
    ∀ f, load m' q f = load m q f
  bytes : ∀ x, OffHeader h x → OffHeader newH x → (load m h .next ≠ 0 → OffHeader (load m h .next) x) → m' x = m x

theorem split_block_refused (m : Mem) (h dist : Word) (bad : dist > load m h .size - headerSize ∨ dist < headerSize) :
    splitBlock m h dist = (m, 0) := if_pos bad

theorem split_block_loads (m : Mem) (h dist : Word) (good : ¬ (dist > load m h .size - headerSize ∨ dist < headerSize))
    (apart : HeaderApart h (h + dist))
    (apartNext : load m h .next ≠ 0 → HeaderApart h (load m h .next) ∧ HeaderApart (h + dist) (load m h .next)) :
    (splitBlock m h dist).2 = h + dist ∧ SplitLoads m (splitBlock m h dist).1 h (h + dist) dist := by
  have back := apart.symm
  by_cases last : load m h .next = 0
  · simp only [splitBlock, if_neg good, load_store_same, load_store_apart, back, last, ne_eq, not_true,
      if_false, reduceCtorEq]
    refine ⟨trivial, ?_, ?_, ?_, ?_, ?_⟩
    · intro f
      cases f <;> simp [load_store_same, load_store_apart, back]
    · simp [load_store_same, load_store_apart, apart, last]
    · exact fun nonnull => absurd last nonnull
    · intro q hq newq _ f
      simp only [load_store_apart, hq, newq]
    · intro x hx newx _
      simp only [store_other, hx, newx]
  · obtain ⟨hn, newn⟩ := apartNext last
    have nh := hn.symm
    have nnew := newn.symm
    simp only [splitBlock, if_neg good, load_store_same, load_store_apart, back, nh, ne_eq, last,
      not_false_eq_true, if_false, if_true, reduceCtorEq]
    refine ⟨trivial, ?_, ?_, ?_, ?_, ?_⟩
    · intro f
      cases f <;> simp [load_store_same, load_store_apart, back, nh]
    · simp [load_store_same, load_store_apart, apart, nnew]
    · intro _ f
      cases f <;> simp [load_store_same, load_store_apart, hn, newn]
    · intro q hq newq nq f
      simp only [load_store_apart, hq, newq, nq last]
    · intro x hx newx nx
      simp only [store_other, hx, newx, nx last]

theorem linked_at (m : Mem) (pre post : List Block) (b : Block) (prev next : Word) :
    Linked m prev (pre ++ b :: post) next ↔
      Linked m prev pre b.addr ∧ HeaderIs m b (lastOr prev pre) (headOr next post) ∧ Linked m b.addr post next := by
  rw [linked_append]
  rfl

theorem HeapList.header {m : Mem} {base stop : Nat} {pre post : List Block} {b : Block}
    (list : HeapList m base stop (pre ++ b :: post)) : HeaderIs m b (lastOr 0 pre) (headOr 0 post) :=
  ((linked_at m pre post b 0 0).mp list.linked).2.1

def Block.cutFront (b : Block) (dist : Word) : Block := { b with size := dist }

def Block.cutBack (b : Block) (dist : Word) : Block := { b with addr := b.addr + dist, size := b.size - dist }

theorem cut_sizes (base stop : Nat) (bs : List Block) (b : Block) (dist : Word) (layout : Layout base stop bs)
    (member : b ∈ bs) (high : dist.toNat + 20 ≤ b.size.toNat) :
    (b.cutBack dist).addr.toNat = b.addr.toNat + dist.toNat ∧ (b.cutBack dist).size.toNat = b.size.toNat - dist.toNat := by
  have bounds := layout.bounds member
  have bound := layout.bound
  simp only [Block.cutBack]
  constructor <;> bv_omega

theorem cut_layout (base stop : Nat) (pre post : List Block) (b : Block) (dist : Word)
    (layout : Layout base stop (pre ++ b :: post)) (low : 20 ≤ dist.toNat) (high : dist.toNat + 20 ≤ b.size.toNat) :
    Layout base stop (pre ++ b.cutFront dist :: b.cutBack dist :: post) := by
  obtain ⟨start, size⟩ := cut_sizes base stop _ b dist layout (by simp) high
  have header : headerSize.toNat = 20 := rfl
  refine layout.split pre post b _ _ rfl rfl ?_ ?_ low ?_
  · simp only [Block.start, Block.stop, Block.cutFront, start]
  · simp only [Block.stop, start, size]; omega
  · omega

theorem split_block_list (m : Mem) (base stop : Nat) (pre post : List Block) (b : Block) (dist : Word)
    (list : HeapList m base stop (pre ++ b :: post)) (low : 20 ≤ dist.toNat) (high : dist.toNat + 20 ≤ b.size.toNat) :
    (splitBlock m b.addr dist).2 = b.addr + dist ∧
      HeapList (splitBlock m b.addr dist).1 base stop (pre ++ b.cutFront dist :: b.cutBack dist :: post) ∧
      ∀ x, OffHeaders (pre ++ b.cutFront dist :: b.cutBack dist :: post) x → (splitBlock m b.addr dist).1 x = m x := by
  have layout := cut_layout base stop pre post b dist list.toLayout low high
  have apart := layout.pairwise
  simp only [List.pairwise_append, List.pairwise_cons, List.mem_cons, forall_eq_or_imp] at apart
  obtain ⟨_, ⟨⟨frontBack, frontPost⟩, backPost, postPost⟩, before⟩ := apart
  have header := list.header
  have good : ¬ (dist > load m b.addr .size - headerSize ∨ dist < headerSize) := by
    rw [header.size]
    simp only [headerSize]
    bv_omega
  obtain ⟨at', loads⟩ := split_block_loads m b.addr dist good frontBack (by
    rw [header.next]
    exact fun nonnull => ⟨head_or_of_all post _ frontPost nonnull, head_or_of_all post _ backPost nonnull⟩)
  refine ⟨at', ⟨layout, ?_⟩, ?_⟩
  · obtain ⟨early, -, late⟩ := (linked_at m pre post b 0 0).mp list.linked
    rw [linked_append]
    refine ⟨?_, ⟨?_, ?_, ?_, ?_, ?_⟩, ⟨?_, ?_, ?_, ?_, ?_⟩, ?_⟩
    · refine linked_congr m _ 0 b.addr pre early ?_
      intro c member
      obtain ⟨frontC, backC, postC⟩ := before c member
      refine loads.other c.addr frontC.symm backC.symm ?_
      rw [header.next]
      exact fun nonnull => (head_or_of_all post _ postC nonnull).symm
    · exact (loads.front .magic).trans header.magic
    · exact loads.front .size
    · exact (loads.front .allocated).trans header.allocated
    · exact (loads.front .prev).trans header.prev
    · exact loads.front .next
    · exact loads.back.1
    · exact loads.back.2.1.trans (congrArg (· - dist) header.size)
    · exact loads.back.2.2.1.trans header.allocated
    · exact loads.back.2.2.2.1
    · exact loads.back.2.2.2.2.trans header.next
    · refine linked_relink m _ b.addr _ 0 post late (fun d member => list.addr_ne (by simp [member])) ?_ ?_
      · rw [← header.next]
        exact loads.next
      · intro d later
        have member : d ∈ post := List.mem_of_mem_tail later
        refine loads.other d.addr (frontPost d member) (backPost d member) ?_
        rw [header.next]
        intro nonnull
        cases post with
        | nil => simp at member
        | cons e rest => exact (List.rel_of_pairwise_cons postPost later)
  · intro x off
    refine loads.bytes x (off.at (b := b.cutFront dist) (by simp)) (off.at (b := b.cutBack dist) (by simp)) ?_
    rw [header.next]
    exact head_or_of_all post (OffHeader · x) (fun d member => off.at (by simp [member]))

def Block.tag (b : Block) (allocated : Bool) : Block := { b with allocated := allocated }

theorem set_allocated_list (m : Mem) (base stop : Nat) (pre post : List Block) (b : Block) (allocated : Bool)
    (list : HeapList m base stop (pre ++ b :: post)) :
    HeapList (store m b.addr .allocated (flag allocated)) base stop (pre ++ b.tag allocated :: post) := by
  have layout := list.toLayout.retag pre post b (b.tag allocated) rfl rfl rfl
  have apart := layout.pairwise
  simp only [List.pairwise_append, List.pairwise_cons, List.mem_cons, forall_eq_or_imp] at apart
  obtain ⟨_, ⟨herePost, _⟩, before⟩ := apart
  obtain ⟨early, header, late⟩ := (linked_at m pre post b 0 0).mp list.linked
  refine ⟨layout, ?_⟩
  rw [linked_append]
  refine ⟨?_, ⟨?_, ?_, ?_, ?_, ?_⟩, ?_⟩
  · refine linked_congr m _ 0 b.addr pre early ?_
    intro c member f
    exact load_store_apart m b.addr c.addr _ _ f (before c member).1.symm
  · exact (load_store_same m b.addr _ _ .magic).trans header.magic
  · exact (load_store_same m b.addr _ _ .size).trans header.size
  · exact load_store_same m b.addr _ _ .allocated
  · exact (load_store_same m b.addr _ _ .prev).trans header.prev
  · exact (load_store_same m b.addr _ _ .next).trans header.next
  · refine linked_congr m _ b.addr 0 post late ?_
    intro d member f
    exact load_store_apart m b.addr d.addr _ _ f (herePost d member)

end Deimos.Kalloc
