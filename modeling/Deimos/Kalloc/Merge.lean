import Deimos.Kalloc.Split

set_option autoImplicit false

namespace Deimos.Kalloc

open Mem Tiling

-- Both merges of kfree let a block p take over the block h behind it. They
-- differ in how the source names the two.
def absorb (m : Mem) (p h : Word) : Mem :=
  let m := store m p .size (load m p .size + load m h .size)
  let m := if load m h .next ≠ 0 then store m (load m h .next) .prev p else m
  store m p .next (load m h .next)

theorem merge_next_absorb (m : Mem) (h : Word) (guard : load m h .next ≠ 0 ∧ load m (load m h .next) .allocated = 0)
    (apart : HeaderApart h (load m h .next))
    (apartNext : load m (load m h .next) .next ≠ 0 → HeaderApart h (load m (load m h .next) .next) ∧
      HeaderApart (load m h .next) (load m (load m h .next) .next)) :
    mergeNext m h = absorb m h (load m h .next) := by
  by_cases last : load m (load m h .next) .next = 0
  · simp only [mergeNext, absorb, if_pos guard, load_store_same, load_store_apart, apart, last, ne_eq, not_true,
      if_false, reduceCtorEq]
  · obtain ⟨hnn, nnn⟩ := apartNext last
    have nnh := hnn.symm
    have nnn' := nnn.symm
    simp only [mergeNext, absorb, if_pos guard, load_store_same, load_store_apart, apart, nnh, nnn', last, ne_eq,
      not_false_eq_true, if_true, if_false, reduceCtorEq]

theorem link_prev_absorb (m : Mem) (h : Word) (apart : HeaderApart (load m h .prev) h)
    (apartNext : load m h .next ≠ 0 → HeaderApart h (load m h .next)) :
    (let m := store m (load m h .prev) .size (load m (load m h .prev) .size + load m h .size)
     let m := if load m h .next ≠ 0 then store m (load m h .next) .prev (load m h .prev) else m
     store m (load m h .prev) .next (load m h .next)) = absorb m (load m h .prev) h := by
  by_cases last : load m h .next = 0
  · simp only [absorb, load_store_apart, apart, last, ne_eq, not_true, if_false]
  · have nh := (apartNext last).symm
    simp only [absorb, load_store_apart, apart, nh, last, ne_eq, not_false_eq_true, if_true]

theorem merge_prev_absorb (m : Mem) (h : Word) (guard : load m h .prev ≠ 0 ∧ load m (load m h .prev) .allocated = 0)
    (apart : HeaderApart (load m h .prev) h)
    (apartNext : load m h .next ≠ 0 → HeaderApart h (load m h .next)) :
    mergePrev m h = absorb m (load m h .prev) h := by
  rw [mergePrev, if_pos guard]
  exact link_prev_absorb m h apart apartNext

structure AbsorbLoads (m m' : Mem) (p h : Word) : Prop where
  front : ∀ f, load m' p f = if f = .size then load m p .size + load m h .size
    else if f = .next then load m h .next else load m p f
  next : load m h .next ≠ 0 → ∀ f, load m' (load m h .next) f = if f = .prev then p else load m (load m h .next) f
  other : ∀ q, HeaderApart p q → (load m h .next ≠ 0 → HeaderApart (load m h .next) q) → ∀ f, load m' q f = load m q f
  bytes : ∀ x, OffHeader p x → (load m h .next ≠ 0 → OffHeader (load m h .next) x) → m' x = m x

theorem absorb_loads (m : Mem) (p h : Word) (apart : HeaderApart p h)
    (apartNext : load m h .next ≠ 0 → HeaderApart p (load m h .next) ∧ HeaderApart h (load m h .next)) :
    AbsorbLoads m (absorb m p h) p h := by
  by_cases last : load m h .next = 0
  · simp only [absorb, load_store_apart, apart, last, ne_eq, not_true, if_false]
    refine ⟨?_, ?_, ?_, ?_⟩
    · intro f
      cases f <;> simp [load_store_same, last]
    · exact fun nonnull => absurd last nonnull
    · intro q pq _ f
      simp only [load_store_apart, pq]
    · intro x px _
      simp only [store_other, px]
  · obtain ⟨pn, hn⟩ := apartNext last
    have np := pn.symm
    have nh := hn.symm
    simp only [absorb, load_store_apart, apart, nh, last, ne_eq, not_false_eq_true, if_true]
    refine ⟨?_, ?_, ?_, ?_⟩
    · intro f
      cases f <;> simp [load_store_same, load_store_apart, np]
    · intro _ f
      cases f <;> simp [load_store_same, load_store_apart, pn]
    · intro q pq nq f
      simp only [load_store_apart, pq, nq last]
    · intro x px nx
      simp only [store_other, px, nx last]

def Block.join (b c : Block) : Block := { b with size := b.size + c.size }

theorem join_layout (base stop : Nat) (pre post : List Block) (b c : Block)
    (layout : Layout base stop (pre ++ b :: c :: post)) : Layout base stop (pre ++ b.join c :: post) := by
  have touch : b.stop = c.start := by
    obtain ⟨_, _, _, _, touch, _⟩ := (tiles_append pre (b :: c :: post) base stop).mp layout.tiles
    exact touch.symm
  have bounds := layout.bounds (b := c) (by simp)
  have bound := layout.bound
  have front := layout.bounds (b := b) (by simp)
  have positive := layout.positive
  refine layout.merge pre post b c (b.join c) rfl rfl ?_
  simp only [Block.start, Block.stop, Block.join] at touch ⊢
  bv_omega

theorem absorb_list (m : Mem) (base stop : Nat) (pre post : List Block) (b c : Block)
    (list : HeapList m base stop (pre ++ b :: c :: post)) :
    HeapList (absorb m b.addr c.addr) base stop (pre ++ b.join c :: post) ∧
      ∀ x, OffHeaders (pre ++ b :: c :: post) x → absorb m b.addr c.addr x = m x := by
  have apart := list.toLayout.pairwise
  simp only [List.pairwise_append, List.pairwise_cons, List.mem_cons, forall_eq_or_imp] at apart
  obtain ⟨_, ⟨⟨here, herePost⟩, nextPost, postPost⟩, before⟩ := apart
  obtain ⟨early, header, nextHeader, late⟩ := (linked_at m pre (c :: post) b 0 0).mp list.linked
  have loads := absorb_loads m b.addr c.addr here (by
    rw [nextHeader.next]
    exact fun nonnull => ⟨head_or_of_all post _ herePost nonnull, head_or_of_all post _ nextPost nonnull⟩)
  refine ⟨⟨join_layout base stop pre post b c list.toLayout, ?_⟩, ?_⟩
  · rw [linked_append]
    refine ⟨?_, ⟨?_, ?_, ?_, ?_, ?_⟩, ?_⟩
    · refine linked_congr m _ 0 b.addr pre early ?_
      intro d member
      obtain ⟨bd, _, postD⟩ := before d member
      refine loads.other d.addr bd.symm ?_
      rw [nextHeader.next]
      exact fun nonnull => (head_or_of_all post _ postD nonnull).symm
    · exact (loads.front .magic).trans header.magic
    · exact (loads.front .size).trans (by rw [if_pos rfl, header.size, nextHeader.size, Block.join])
    · exact (loads.front .allocated).trans header.allocated
    · exact (loads.front .prev).trans header.prev
    · exact (loads.front .next).trans nextHeader.next
    · refine linked_relink m _ c.addr _ 0 post late (fun d member => list.addr_ne (by simp [member])) ?_ ?_
      · rw [← nextHeader.next]
        exact loads.next
      · intro d later
        have member : d ∈ post := List.mem_of_mem_tail later
        refine loads.other d.addr (herePost d member) ?_
        rw [nextHeader.next]
        intro _
        cases post with
        | nil => simp at member
        | cons e rest => exact List.rel_of_pairwise_cons postPost later
  · intro x off
    refine loads.bytes x (off.at (b := b) (by simp)) ?_
    rw [nextHeader.next]
    exact head_or_of_all post (OffHeader · x) (fun d member => off.at (by simp [member]))

-- What the merges of kfree do to the list: b takes over a free successor,
-- then a free predecessor takes over b.
def joinNext (b : Block) : List Block → Block × List Block
  | [] => (b, [])
  | c :: rest => if c.allocated then (b, c :: rest) else (b.join c, rest)

def joinPrev (pre : List Block) (b : Block) (post : List Block) : List Block :=
  match pre.getLast? with
  | none => b :: post
  | some p => if p.allocated then pre ++ b :: post else pre.dropLast ++ p.join b :: post

def freeBlock (pre : List Block) (b : Block) (post : List Block) : List Block :=
  joinPrev pre (joinNext (b.tag false) post).1 (joinNext (b.tag false) post).2

theorem join_next_addr (b : Block) (post : List Block) : (joinNext b post).1.addr = b.addr := by
  cases post with
  | nil => rfl
  | cons c rest => cases taken : c.allocated <;> simp [joinNext, taken, Block.join]

theorem merge_next_idle (m : Mem) (b c : Block) (p n : Word) (next : load m b.addr .next = c.addr) (header : HeaderIs m c p n)
    (used : c.allocated = true) : mergeNext m b.addr = m := by
  refine if_neg (fun guard => ?_)
  rw [next, header.allocated, used] at guard
  exact absurd guard.2 (by decide)

theorem merge_next_free (m : Mem) (base stop : Nat) (pre post : List Block) (b c : Block) (layout : Layout base stop (pre ++ b :: c :: post))
    (next : load m b.addr .next = c.addr) (header : HeaderIs m c b.addr (headOr 0 post)) (free : c.allocated = false) :
    mergeNext m b.addr = absorb m b.addr c.addr := by
  have apart := layout.pairwise
  simp only [List.pairwise_append, List.pairwise_cons, List.mem_cons, forall_eq_or_imp] at apart
  obtain ⟨_, ⟨⟨here, herePost⟩, nextPost, _⟩, _⟩ := apart
  rw [← next]
  refine merge_next_absorb m b.addr ⟨?_, ?_⟩ ?_ ?_
  · rw [next]; exact layout.addr_ne (by simp)
  · rw [next, header.allocated, free]; rfl
  · rw [next]; exact here
  · rw [next, header.next]
    exact fun nonnull => ⟨head_or_of_all post _ herePost nonnull, head_or_of_all post _ nextPost nonnull⟩

theorem merge_prev_idle (m : Mem) (p b : Block) (q n : Word) (prev : load m b.addr .prev = p.addr) (header : HeaderIs m p q n)
    (used : p.allocated = true) : mergePrev m b.addr = m := by
  refine if_neg (fun guard => ?_)
  rw [prev, header.allocated, used] at guard
  exact absurd guard.2 (by decide)

theorem merge_prev_free (m : Mem) (base stop : Nat) (pre post : List Block) (p b : Block) (q : Word)
    (layout : Layout base stop (pre ++ p :: b :: post)) (own : HeaderIs m b p.addr (headOr 0 post)) (header : HeaderIs m p q b.addr)
    (free : p.allocated = false) : mergePrev m b.addr = absorb m p.addr b.addr := by
  have apart := layout.pairwise
  simp only [List.pairwise_append, List.pairwise_cons, List.mem_cons, forall_eq_or_imp] at apart
  obtain ⟨_, ⟨⟨here, _⟩, herePost, _⟩, _⟩ := apart
  rw [← own.prev]
  refine merge_prev_absorb m b.addr ⟨?_, ?_⟩ ?_ ?_
  · rw [own.prev]; exact layout.addr_ne (by simp)
  · rw [own.prev, header.allocated, free]; rfl
  · rw [own.prev]; exact here
  · rw [own.next]
    exact head_or_of_all post _ herePost

theorem link_prev_list (m : Mem) (base stop : Nat) (pre post : List Block) (p b : Block)
    (list : HeapList m base stop (pre ++ p :: b :: post)) :
    load m b.addr .prev = p.addr ∧ HeaderApart p.addr b.addr ∧ (load m b.addr .next ≠ 0 → HeaderApart b.addr (load m b.addr .next)) := by
  have apart := list.toLayout.pairwise
  simp only [List.pairwise_append, List.pairwise_cons, List.mem_cons, forall_eq_or_imp] at apart
  obtain ⟨_, ⟨⟨here, _⟩, herePost, _⟩, _⟩ := apart
  have header : HeaderIs m b p.addr (headOr 0 post) := ((linked_at m pre (b :: post) p 0 0).mp list.linked).2.2.1
  refine ⟨header.prev, here, ?_⟩
  rw [header.next]
  exact fun nonnull => head_or_of_all post _ herePost nonnull

theorem merge_next_list (m : Mem) (base stop : Nat) (pre post : List Block) (b : Block)
    (list : HeapList m base stop (pre ++ b :: post)) :
    HeapList (mergeNext m b.addr) base stop (pre ++ (joinNext b post).1 :: (joinNext b post).2) ∧
      ∀ x, OffHeaders (pre ++ b :: post) x → mergeNext m b.addr x = m x := by
  have header := list.header
  cases post with
  | nil =>
      have idle : mergeNext m b.addr = m := if_neg (fun guard => guard.1 header.next)
      rw [idle]
      exact ⟨list, fun _ _ => rfl⟩
  | cons c rest =>
      have next : load m b.addr .next = c.addr := header.next
      have nextHeader : HeaderIs m c b.addr (headOr 0 rest) := ((linked_at m pre (c :: rest) b 0 0).mp list.linked).2.2.1
      cases taken : c.allocated with
      | true =>
          have idle : mergeNext m b.addr = m := merge_next_idle m b c _ _ next nextHeader taken
          simp only [idle, joinNext, taken, if_true]
          exact ⟨list, fun _ _ => trivial⟩
      | false =>
          rw [merge_next_free m base stop pre rest b c list.toLayout next nextHeader taken]
          simpa [joinNext, taken] using absorb_list m base stop pre rest b c list

theorem last_or_concat (prev : Word) (pre : List Block) (p : Block) : lastOr prev (pre ++ [p]) = p.addr := by
  induction pre generalizing prev with
  | nil => rfl
  | cons b pre ih => exact ih b.addr

theorem merge_prev_list (m : Mem) (base stop : Nat) (pre post : List Block) (b : Block)
    (list : HeapList m base stop (pre ++ b :: post)) :
    HeapList (mergePrev m b.addr) base stop (joinPrev pre b post) ∧
      ∀ x, OffHeaders (pre ++ b :: post) x → mergePrev m b.addr x = m x := by
  have header := list.header
  rcases List.eq_nil_or_concat pre with rfl | ⟨front, p, rfl⟩
  · have idle : mergePrev m b.addr = m := if_neg (fun guard => guard.1 header.prev)
    rw [idle]
    exact ⟨list, fun _ _ => rfl⟩
  · rw [List.concat_eq_append] at list header ⊢
    have prev : load m b.addr .prev = p.addr := by rw [header.prev, last_or_concat]
    have whole : (front ++ [p]) ++ b :: post = front ++ p :: b :: post := by simp
    rw [whole] at list ⊢
    have prevHeader := list.header
    cases taken : p.allocated with
    | true =>
        have idle : mergePrev m b.addr = m := merge_prev_idle m p b _ _ prev prevHeader taken
        rw [idle]
        simpa [joinPrev, taken] using list
    | false =>
        have own : HeaderIs m b p.addr (headOr 0 post) := ((linked_at m front (b :: post) p 0 0).mp list.linked).2.2.1
        rw [merge_prev_free m base stop front post p b _ list.toLayout own prevHeader taken]
        simpa [joinPrev, taken] using absorb_list m base stop front post p b list

end Deimos.Kalloc
