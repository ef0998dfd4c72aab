import Deimos.Kalloc.Search

set_option autoImplicit false

namespace Deimos.Kalloc

open Mem Tiling Comp

theorem free_block_ne_nil (pre post : List Block) (b : Block) : freeBlock pre b post ≠ [] := by
  rw [freeBlock, joinPrev]
  cases pre.getLast? with
  | none => exact List.cons_ne_nil _ _
  | some p => cases taken : p.allocated <;> simp [taken]

theorem join_next_subset (b : Block) (post : List Block) :
    ∀ c ∈ (joinNext b post).2, c ∈ post := by
  cases post with
  | nil => exact fun c member => member
  | cons d rest =>
      cases taken : d.allocated with
      | true => simp [joinNext, taken]
      | false =>
          simp only [joinNext, taken, Bool.false_eq_true, if_false]
          exact fun c member => List.mem_cons_of_mem d member

theorem kfree_list (base stop : Nat) (s : Heap) (pre post : List Block) (b : Block)
    (wf : WellFormed base stop s (pre ++ b :: post)) (nonnull : b.payload ≠ 0) :
    ∃ m', kfree b.payload s = .ok { s with mem := m' } ∧ WellFormed base stop { s with mem := m' } (freeBlock pre b post) ∧
      ∀ x, OffHeaders (pre ++ b :: post) x → m' x = s.mem x := by
  have back : b.payload - headerSize = b.addr := BitVec.add_sub_cancel b.addr headerSize
  have start : b.addr ≠ 0 := wf.addr_ne (by simp)
  have tagged : HeapList (store s.mem b.addr .allocated 0) base stop (pre ++ b.tag false :: post) :=
    set_allocated_list s.mem base stop pre post b false wf.toHeapList
  obtain ⟨ahead, frameAhead⟩ := merge_next_list _ base stop pre post (b.tag false) tagged
  obtain ⟨behind, frameBehind⟩ := merge_prev_list _ base stop pre _ _ ahead
  rw [join_next_addr] at behind frameBehind
  refine ⟨_, ?_, wf.update behind (free_block_ne_nil pre post b), ?_⟩
  · simp only [kfree, if_neg nonnull, back, deref_ne _ _ start, wf.header.magic, ne_eq, not_true, if_false, Block.tag]
  · intro x off
    have offTagged : OffHeaders (pre ++ b.tag false :: post) x := by simpa [OffHeaders, Block.tag] using off
    have offJoined : OffHeaders (pre ++ (joinNext (b.tag false) post).1 :: (joinNext (b.tag false) post).2) x := by
      intro h member
      simp only [List.map_append, List.map_cons, List.mem_append, List.mem_cons, join_next_addr] at member
      refine offTagged h ?_
      simp only [List.map_append, List.map_cons, List.mem_append, List.mem_cons]
      rcases member with early | here | late
      · exact .inl early
      · exact .inr (.inl here)
      · obtain ⟨c, inside, rfl⟩ := List.mem_map.mp late
        exact .inr (.inr (List.mem_map_of_mem (join_next_subset _ post c inside)))
    calc mergePrev (mergeNext (store s.mem b.addr .allocated 0) b.addr) b.addr x
        = mergeNext (store s.mem b.addr .allocated 0) b.addr x := frameBehind x offJoined
      _ = store s.mem b.addr .allocated 0 x := frameAhead x offTagged
      _ = s.mem x := store_other s.mem b.addr 0 x .allocated (off.at (b := b) (by simp))

theorem kfree_null (s : Heap) : kfree 0 s = .ok s := if_pos rfl

theorem kheap_init_list (start size : Word) (m : Mem) (s : Heap) (init : kheapInit start size m = .ok s)
    (room : 20 ≤ size.toNat) (bound : start.toNat + size.toNat ≤ 2 ^ 32) :
    WellFormed start.toNat (start.toNat + size.toNat) s [⟨start, size, false⟩] := by
  have nonnull : start ≠ 0 := by
    rintro rfl
    simp [kheapInit, deref] at init
  rw [kheapInit, deref_ne _ _ nonnull] at init
  simp only [Except.ok.injEq] at init
  subst init
  have positive : 0 < start.toNat := by bv_omega
  refine ⟨⟨⟨⟨rfl, ?_, rfl⟩, ?_, positive, bound⟩, ⟨?_, ?_, ?_, ?_, ?_⟩, trivial⟩, rfl, List.cons_ne_nil _ _⟩
  · simp only [Block.start, Block.stop]
    omega
  · intro b member
    obtain rfl := List.mem_singleton.mp member
    exact room
  all_goals simp [load_store_same, headOr, flag]

theorem kheap_init_ok (start size : Word) (m : Mem) (nonnull : start ≠ 0) : ∃ s, kheapInit start size m = .ok s :=
  ⟨_, deref_ne _ _ nonnull⟩

theorem sanity_loop_returns (m : Mem) (prev : Word) (bs : List Block) (linked : Linked m prev bs 0)
    (nonnull : ∀ b ∈ bs, b.addr ≠ 0) : (loop (sanityBody m) (headOr 0 bs, prev)).Returns () := by
  induction bs generalizing prev with
  | nil =>
      have pass : sanityBody m (0, prev) = .ok (.done ()) := rfl
      exact (ends_loop_done _ _ _ _ pass).mpr rfl
  | cons b bs ih =>
      obtain ⟨header, rest⟩ := linked
      have pass : sanityBody m (b.addr, prev) = .ok (.next (headOr 0 bs, b.addr)) := by
        simp only [sanityBody, if_neg (nonnull b List.mem_cons_self), header.magic, header.prev, header.next, ne_eq, not_true,
          if_false]
      exact (ends_loop_next _ _ _ _ pass).mpr (ih b.addr rest (fun c member => nonnull c (List.mem_cons_of_mem b member)))

theorem heap_sanity_check_returns (base stop : Nat) (s : Heap) (bs : List Block) (wf : WellFormed base stop s bs) :
    (heapSanityCheck s).Returns () := by
  rw [heapSanityCheck, wf.head]
  exact sanity_loop_returns s.mem 0 bs wf.linked (fun b member => wf.addr_ne member)

theorem WellFormed.rewrite {base stop : Nat} {s : Heap} {bs : List Block} (wf : WellFormed base stop s bs) (m : Mem)
    (same : ∀ b ∈ bs, ∀ x : Word, (x - b.addr).toNat < 20 → m x = s.mem x) : WellFormed base stop { s with mem := m } bs := by
  refine ⟨⟨wf.toLayout, linked_congr s.mem m 0 0 bs wf.linked ?_⟩, wf.head, wf.nonempty⟩
  intro b member f
  refine read_congr s.mem m _ (fun x near => same b member x ?_)
  have inside := field_inside f
  bv_omega

theorem Layout.payload_clear {base stop : Nat} {bs : List Block} (layout : Layout base stop bs) (b c : Block) (left : b ∈ bs)
    (right : c ∈ bs) (n : Nat) (room : n + 20 ≤ b.size.toNat) (x : Word) (near : (x - c.addr).toNat < 20) :
    n ≤ (x - b.payload).toNat := by
  have bound := layout.bound
  have here := layout.bounds left
  have there := layout.bounds right
  have apart : b = c ∨ b.stop ≤ c.start ∨ c.stop ≤ b.start := by
    by_cases same : b = c
    · exact .inl same
    · exact .inr (tiles_disjoint bs base stop layout.tiles b c left right same)
  simp only [Block.start, Block.stop, Block.payload, headerSize] at apart ⊢
  rcases apart with rfl | before | behind <;> bv_omega

theorem linked_unique (m : Mem) (prev prev' : Word) (bs cs : List Block) (left : Linked m prev bs 0) (right : Linked m prev' cs 0)
    (nonnull : ∀ b ∈ bs, b.addr ≠ 0) (nonnull' : ∀ c ∈ cs, c.addr ≠ 0) (same : headOr 0 bs = headOr 0 cs) : bs = cs := by
  induction bs generalizing prev prev' cs with
  | nil =>
      cases cs with
      | nil => rfl
      | cons c cs => exact absurd same.symm (nonnull' c List.mem_cons_self)
  | cons b bs ih =>
      cases cs with
      | nil => exact absurd same (nonnull b List.mem_cons_self)
      | cons c cs =>
          obtain ⟨header, rest⟩ := left
          obtain ⟨header', rest'⟩ := right
          have addr : b.addr = c.addr := same
          have size : b.size = c.size := by rw [← header.size, ← header'.size, addr]
          have flags : flag b.allocated = flag c.allocated := by rw [← header.allocated, ← header'.allocated, addr]
          have allocated : b.allocated = c.allocated := by
            cases left : b.allocated <;> cases right : c.allocated <;> simp [left, right, flag] at flags ⊢
          have heads : b = c := by
            cases b; cases c; simp_all
          have tails : bs = cs := by
            refine ih b.addr c.addr cs rest rest' (fun d member => nonnull d (List.mem_cons_of_mem b member))
              (fun d member => nonnull' d (List.mem_cons_of_mem c member)) ?_
            rw [← header.next, ← header'.next, addr]
          rw [heads, tails]

theorem well_formed_unique (base stop : Nat) (s : Heap) (bs cs : List Block) (left : WellFormed base stop s bs)
    (right : WellFormed base stop s cs) : bs = cs :=
  linked_unique s.mem 0 0 bs cs left.linked right.linked (fun _ member => left.addr_ne member)
    (fun _ member => right.addr_ne member) (left.head.symm.trans right.head)

end Deimos.Kalloc
