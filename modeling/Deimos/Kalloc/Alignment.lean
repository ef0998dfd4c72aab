import Deimos.Kalloc.Run

set_option autoImplicit false

namespace Deimos.Kalloc

open Mem Tiling Comp Run

def Four (x : Word) : Prop := x.toNat % 4 = 0

section Words

variable {x y : Word}

theorem four_add (left : Four x) (right : Four y) : Four (x + y) := by
  simp only [Four] at left right ⊢
  bv_omega

theorem four_sub (left : Four x) (right : Four y) : Four (x - y) := by
  simp only [Four] at left right ⊢
  bv_omega

theorem four_of_add (left : Four x) (sum : Four (x + y)) : Four y := by
  simp only [Four] at left sum ⊢
  bv_omega

theorem four_header : Four headerSize := rfl

theorem four_aligned (h : Word) : Four (alignedAddr h) := by
  have page := aligned_addr_page h
  rw [Four]
  omega

-- Adding size%4 doubles what is over: only an even size is rounded to a multiple of 4.
theorem four_round (size : Word) : Four (roundSize size) ↔ size.toNat % 2 = 0 := by
  rw [Four, round_size_mod]
  omega

end Words

def Block.OnFours (b : Block) : Prop := Four b.addr ∧ Four b.size

-- A request cuts off what is behind the block that it gets.
def Block.CutBehind (align : Bool) (size : Word) (b : Block) : Prop :=
  if align then b.alignedBlock.size > size + 2 * headerSize
  else ¬(b.size < size + 2 * headerSize ∨ ¬b.Cuttable (headerSize + size))

instance (align : Bool) (size : Word) (b : Block) : Decidable (b.CutBehind align size) := by
  unfold Block.CutBehind
  infer_instance

section Blocks

variable {b c : Block} {pre post : List Block}

theorem cut_fours {dist : Word} (block : b.OnFours) (four : Four dist) : (b.cutFront dist).OnFours ∧ (b.cutBack dist).OnFours :=
  ⟨⟨block.1, four⟩, four_add block.1 four, four_sub block.2 four⟩

theorem aligned_fours (block : b.OnFours) : Four b.alignedDist ∧ b.alignedBlock.OnFours := by
  have dist : Four b.alignedDist := four_sub (four_sub (four_aligned b.addr) block.1) four_header
  exact ⟨dist, (cut_fours block dist).2⟩

-- What takes the place of a block on multiples of 4 is there too, unless a
-- header is cut off behind an odd request.
theorem place_fours (align : Bool) (size : Word) (block : b.OnFours) :
    (∀ c ∈ b.place align size, c.OnFours) ↔ (b.CutBehind align size → Four size) := by
  cases align with
  | false =>
      by_cases whole : b.size < size + 2 * headerSize ∨ ¬b.Cuttable (headerSize + size)
      · have placed : b.place false size = [b.tag true] := if_pos whole
        rw [placed]
        refine iff_of_true (fun c member => ?_) (fun cut => absurd whole cut)
        rw [List.mem_singleton.mp member]
        exact block
      · have placed : b.place false size = [(b.cutFront (headerSize + size)).tag true, b.cutBack (headerSize + size)] := if_neg whole
        rw [placed]
        constructor
        · intro fours _
          exact four_of_add four_header (fours _ List.mem_cons_self).2
        · intro rounded c member
          obtain ⟨front, back⟩ := cut_fours block (four_add four_header (rounded whole))
          rcases List.mem_pair.mp member with rfl | rfl
          · exact front
          · exact back
  | true =>
      obtain ⟨dist, given⟩ := aligned_fours block
      obtain ⟨front, -⟩ := cut_fours block dist
      by_cases large : b.alignedBlock.size > size + 2 * headerSize
      · have placed : b.place true size = [b.cutFront b.alignedDist, b.alignedBlock.cutFront (headerSize + size),
            (b.alignedBlock.cutBack (headerSize + size)).tag false] := if_pos large
        rw [placed]
        constructor
        · intro fours _
          exact four_of_add four_header (fours _ (List.mem_cons_of_mem _ List.mem_cons_self)).2
        · intro rounded c member
          obtain ⟨middle, back⟩ := cut_fours given (four_add four_header (rounded large))
          simp only [List.mem_cons, List.not_mem_nil, or_false] at member
          rcases member with rfl | rfl | rfl
          · exact front
          · exact middle
          · exact back
      · have placed : b.place true size = [b.cutFront b.alignedDist, b.alignedBlock] := if_neg large
        rw [placed]
        refine iff_of_true (fun c member => ?_) (fun cut => absurd cut large)
        rcases List.mem_pair.mp member with rfl | rfl
        · exact front
        · exact given

theorem join_fours (block : b.OnFours) (next : c.OnFours) : (b.join c).OnFours := ⟨block.1, four_add block.2 next.2⟩

theorem join_next_fours (block : b.OnFours) (after : ∀ c ∈ post, c.OnFours) :
    (joinNext b post).1.OnFours ∧ ∀ c ∈ (joinNext b post).2, c.OnFours := by
  refine ⟨?_, fun c member => after c (join_next_subset b post c member)⟩
  cases post with
  | nil => exact block
  | cons d rest =>
      cases taken : d.allocated with
      | true => simpa only [joinNext, taken, if_true] using block
      | false => simpa only [joinNext, taken, Bool.false_eq_true, if_false] using join_fours block (after d List.mem_cons_self)

theorem join_prev_fours (block : b.OnFours) (before : ∀ c ∈ pre, c.OnFours) (after : ∀ c ∈ post, c.OnFours) :
    ∀ c ∈ joinPrev pre b post, c.OnFours := by
  rcases List.eq_nil_or_concat pre with rfl | ⟨front, p, rfl⟩
  · exact List.forall_mem_cons.mpr ⟨block, after⟩
  · rw [List.concat_eq_append] at before ⊢
    obtain ⟨early, last⟩ := List.forall_mem_append.mp before
    have prev : p.OnFours := last p List.mem_cons_self
    cases taken : p.allocated with
    | true =>
        have same : joinPrev (front ++ [p]) b post = (front ++ [p]) ++ b :: post := by simp [joinPrev, taken]
        rw [same]
        exact List.forall_mem_append.mpr ⟨before, List.forall_mem_cons.mpr ⟨block, after⟩⟩
    | false =>
        have same : joinPrev (front ++ [p]) b post = front ++ p.join b :: post := by simp [joinPrev, taken]
        rw [same]
        exact List.forall_mem_append.mpr ⟨early, List.forall_mem_cons.mpr ⟨join_fours prev block, after⟩⟩

theorem free_fours (blocks : ∀ c ∈ pre ++ b :: post, c.OnFours) : ∀ c ∈ freeBlock pre b post, c.OnFours := by
  obtain ⟨before, here⟩ := List.forall_mem_append.mp blocks
  obtain ⟨block, after⟩ := List.forall_mem_cons.mp here
  have tagged : (b.tag false).OnFours := block
  obtain ⟨joined, rest⟩ := join_next_fours tagged after
  exact join_prev_fours joined before rest

end Blocks

inductive CallStep (may : Heap → Word → Bool → Prop) : HeapRun → HeapRun → Prop
  | kmalloc (r : HeapRun) (size ptr : Word) (s : Heap) (fine : may r.heap size false)
      (returned : (kmalloc size r.heap).Returns (ptr, s)) : CallStep may r ⟨s, keep false size ptr r.live⟩
  | kmallocA (r : HeapRun) (size ptr : Word) (s : Heap) (fine : may r.heap size true)
      (returned : (kmallocA size r.heap).Returns (ptr, s)) : CallStep may r ⟨s, keep true size ptr r.live⟩
  | kfree (r : HeapRun) (ptr : Word) (s : Heap) (known : ptr = 0 ∨ ptr ∈ r.live.map Live.ptr)
      (returned : kfree ptr r.heap = .ok s) : CallStep may r ⟨s, drop ptr r.live⟩

def Tidy (base stop : Nat) (s : Heap) (size : Word) (align : Bool) : Prop :=
  size.toNat % 2 = 0 ∨ ∀ pre post b, WellFormed base stop s (pre ++ b :: post) → (∀ c ∈ pre, ¬c.Fits (roundSize size)) →
    b.Fits (roundSize size) → ¬b.CutBehind align (roundSize size)

structure Fours (base stop : Nat) (r : HeapRun) (bs : List Block) : Prop where
  wf : WellFormed base stop r.heap bs
  blocks : ∀ b ∈ bs, b.OnFours
  owned : ∀ l ∈ r.live, l.ptr ≠ 0 ∧ ∃ b ∈ bs, b.used ∧ b.payload = l.ptr

section Calls

variable {base stop : Nat} {r : HeapRun} {bs : List Block}

theorem Fours.alloc (fours : Fours base stop r bs) (size ptr : Word) (align : Bool) (s : Heap) (tidy : Tidy base stop r.heap size align)
    (returned : (kmallocInt size align r.heap).Returns (ptr, s)) : ∃ bs', Fours base stop ⟨s, keep align size ptr r.live⟩ bs' := by
  rcases kmalloc_int_outcomes base stop r.heap bs size align ptr s fours.wf returned with ⟨rfl, rfl⟩ | ⟨nonzero, pre, post, b, allocates⟩
  · exact ⟨bs, fours.wf, fours.blocks, fours.owned⟩
  obtain ⟨lead, taken, rest, placed, shape⟩ := place_shape align (roundSize size) b allocates.fit.1
  obtain rfl := allocates.shape
  have rounded : b.CutBehind align (roundSize size) → Four (roundSize size) := by
    intro cut
    rcases tidy with even | uncut
    · exact (four_round size).mpr even
    · exact absurd cut (uncut pre post b fours.wf allocates.unfit allocates.fit)
  obtain ⟨before, here⟩ := List.forall_mem_append.mp fours.blocks
  obtain ⟨block, after⟩ := List.forall_mem_cons.mp here
  have inner := (place_fours align (roundSize size) block).mpr rounded
  have old : ∀ l ∈ r.live, l.ptr ≠ 0 ∧ ∃ c ∈ pre ++ (b.place align (roundSize size) ++ post), c.used ∧ c.payload = l.ptr := by
    intro l member
    obtain ⟨nonnull, c, inside, used, same⟩ := fours.owned l member
    rw [placed]
    exact ⟨nonnull, c, (used_place pre post lead rest b taken c align shape allocates.fit.1 used).mpr (.inl inside), used, same⟩
  refine ⟨_, allocates.after, List.forall_mem_append.mpr ⟨before, List.forall_mem_append.mpr ⟨inner, after⟩⟩, fun l member => ?_⟩
  rw [keep] at member
  split_ifs at member with null
  · exact old l member
  · rcases List.mem_cons.mp member with rfl | earlier
    · exact ⟨null, taken, by simp [placed], shape.used, shape.payload.trans allocates.pointer.symm⟩
    · exact old l earlier

theorem Fours.kfree (fours : Fours base stop r bs) (ptr : Word) (s : Heap) (known : ptr = 0 ∨ ptr ∈ r.live.map Live.ptr)
    (returned : kfree ptr r.heap = .ok s) : ∃ bs', Fours base stop ⟨s, drop ptr r.live⟩ bs' := by
  have absent : (0 : Word) ∉ r.live.map Live.ptr := by
    intro member
    obtain ⟨l, inside, null⟩ := List.mem_map.mp member
    exact (fours.owned l inside).1 null
  rcases known with rfl | live
  · rw [kfree_null] at returned
    obtain rfl := Except.ok.inj returned
    rw [drop_null _ absent]
    exact ⟨bs, fours.wf, fours.blocks, fours.owned⟩
  obtain ⟨l, inside, rfl⟩ := List.mem_map.mp live
  obtain ⟨nonnull, b, member, used, same⟩ := fours.owned l inside
  obtain ⟨pre, post, rfl⟩ := List.append_of_mem member
  rw [← same] at nonnull returned
  obtain ⟨m', freed, after, -⟩ := kfree_list base stop r.heap pre post b fours.wf nonnull
  obtain rfl := Except.ok.inj (freed.symm.trans returned)
  refine ⟨_, after, free_fours fours.blocks, fun l' kept => ?_⟩
  obtain ⟨earlier, other⟩ := List.mem_filter.mp kept
  obtain ⟨nonnull', c, member', used', same'⟩ := fours.owned l' earlier
  refine ⟨nonnull', c, (used_free base stop pre post b c fours.wf.toLayout used').mpr ⟨member', ?_⟩, used', same'⟩
  rintro rfl
  simp [← same', same] at other

theorem fours_step (fours : Fours base stop r bs) (r' : HeapRun) (step : CallStep (Tidy base stop) r r') :
    ∃ bs', Fours base stop r' bs' := by
  cases step with
  | kmalloc size ptr s fine returned => exact fours.alloc size ptr false s fine returned
  | kmallocA size ptr s fine returned => exact fours.alloc size ptr true s fine returned
  | kfree ptr s known returned => exact fours.kfree ptr s known returned

end Calls

-- What kmalloc_int's rounding is for: every header, size and pointer is a multiple of 4.
structure OnFours (base stop : Nat) (r : HeapRun) (bs : List Block) : Prop where
  list : WellFormed base stop r.heap bs
  addrs : ∀ b ∈ bs, b.addr.toNat % 4 = 0
  sizes : ∀ b ∈ bs, b.size.toNat % 4 = 0
  pointers : ∀ l ∈ r.live, l.ptr.toNat % 4 = 0

theorem Fours.onFours {base stop : Nat} {r : HeapRun} {bs : List Block} (fours : Fours base stop r bs) : OnFours base stop r bs where
  list := fours.wf
  addrs b member := (fours.blocks b member).1
  sizes b member := (fours.blocks b member).2
  pointers l member := by
    obtain ⟨-, b, inside, -, same⟩ := fours.owned l member
    rw [← same]
    exact four_add (fours.blocks b inside).1 four_header

theorem heap_stays_on_fours (start size : Word) (m : Mem) (s : Heap) (init : kheapInit start size m = .ok s)
    (room : 20 ≤ size.toNat) (bound : start.toNat + size.toNat ≤ 2 ^ 32) (first : start.toNat % 4 = 0) (whole : size.toNat % 4 = 0)
    (r : HeapRun) (run : Reaches (CallStep (Tidy start.toNat (start.toNat + size.toNat))) (.initial s) r) :
    ∃ bs, OnFours start.toNat (start.toNat + size.toNat) r bs := by
  have initial : Fours start.toNat (start.toNat + size.toNat) (.initial s) [⟨start, size, false⟩] := by
    refine ⟨kheap_init_list start size m s init room bound, fun b member => ?_, nofun⟩
    rw [List.mem_singleton.mp member]
    exact ⟨first, whole⟩
  obtain ⟨bs, fours⟩ := Run.invariant (fun r => ∃ bs, Fours start.toNat (start.toNat + size.toNat) r bs)
    (fun r r' kept step => kept.elim (fun _ fours => fours_step fours r' step)) _ _ ⟨_, initial⟩ run
  exact ⟨bs, fours.onFours⟩

theorem fours_lost (base stop : Nat) (r : HeapRun) (bs : List Block) (fours : Fours base stop r bs) (size ptr : Word) (align : Bool)
    (s : Heap) (returned : (kmallocInt size align r.heap).Returns (ptr, s)) (untidy : ¬Tidy base stop r.heap size align)
    (live : List Live) : ¬∃ bs', OnFours base stop ⟨s, live⟩ bs' := by
  rintro ⟨bs', after⟩
  simp only [Tidy, not_or, not_forall, not_not] at untidy
  obtain ⟨odd, pre, post, b, wf, unfit, fit, cut⟩ := untidy
  obtain rfl := well_formed_unique base stop r.heap _ _ fours.wf wf
  have nonzero : size ≠ 0 := by
    rintro rfl
    exact odd rfl
  have room := kmalloc_int_room size align pre post b wf nonzero unfit fit _ returned
  obtain ⟨s', served, allocates⟩ := kmalloc_int_serves size align pre post b wf nonzero unfit fit room
  have same := returns_unique _ _ _ served returned
  simp only [Prod.mk.injEq] at same
  obtain ⟨-, rfl⟩ := same
  obtain rfl := well_formed_unique base stop s' _ _ after.list allocates.after
  have inner : ∀ c ∈ b.place align (roundSize size), c.OnFours := fun c member =>
    have inside : c ∈ pre ++ (b.place align (roundSize size) ++ post) := by simp [member]
    ⟨after.addrs c inside, after.sizes c inside⟩
  have rounded := (place_fours align (roundSize size) (fours.blocks b (by simp))).mp inner cut
  exact odd ((four_round size).mp rounded)

section Page

theorem page_starts : ∃ s, kheapInit 0xC0200000 0x1000 (fun _ => 0) = .ok s ∧
    Fours 0xC0200000 0xC0201000 (.initial s) [⟨0xC0200000, 0x1000, false⟩] := by
  obtain ⟨s, init⟩ := kheap_init_ok 0xC0200000 0x1000 (fun _ => 0) (by decide)
  have wf := kheap_init_list 0xC0200000 0x1000 _ s init (by decide) (by decide)
  refine ⟨s, init, wf, fun b member => ?_, nofun⟩
  rw [List.mem_singleton.mp member]
  exact ⟨rfl, rfl⟩

theorem heap_on_fours_after_six : ∃ s r bs, kheapInit 0xC0200000 0x1000 (fun _ => 0) = .ok s ∧ r.live = [⟨0xC0200014, 6, false⟩] ∧
    OnFours 0xC0200000 0xC0201000 r bs := by
  obtain ⟨s, init, fours⟩ := page_starts
  obtain ⟨s', returned, -⟩ := kmalloc_int_serves 6 false [] [] ⟨0xC0200000, 0x1000, false⟩ fours.wf (by decide) (by simp) (by decide)
    (by simp)
  have run : Reaches (CallStep (Tidy 0xC0200000 0xC0201000)) (.initial s) ⟨s', [⟨0xC0200014, 6, false⟩]⟩ :=
    .single (.kmalloc (.initial s) 6 _ s' (.inl rfl) returned)
  obtain ⟨bs, after⟩ := heap_stays_on_fours 0xC0200000 0x1000 _ s init (by decide) (by decide) rfl rfl _ run
  exact ⟨s, _, bs, init, rfl, after⟩

theorem heap_off_fours_after_one : ¬∀ (start size : Word) (m : Mem) (s : Heap) (r : HeapRun), kheapInit start size m = .ok s →
    20 ≤ size.toNat → start.toNat + size.toNat ≤ 2 ^ 32 → start.toNat % 4 = 0 → size.toNat % 4 = 0 →
    Reaches (CallStep (fun _ _ _ => True)) (.initial s) r → ∃ bs, OnFours start.toNat (start.toNat + size.toNat) r bs := by
  intro always
  obtain ⟨s, init, fours⟩ := page_starts
  obtain ⟨s', returned, -⟩ := kmalloc_int_serves 1 false [] [] ⟨0xC0200000, 0x1000, false⟩ fours.wf (by decide) (by simp) (by decide)
    (by simp)
  have run : Reaches (CallStep (fun _ _ _ => True)) (.initial s) ⟨s', [⟨0xC0200014, 1, false⟩]⟩ :=
    .single (.kmalloc (.initial s) 1 _ s' trivial returned)
  refine fours_lost _ _ _ _ fours 1 _ false s' returned ?_ _ (always _ _ _ s _ init (by decide) (by decide) rfl rfl run)
  rintro (even | uncut)
  · exact absurd even (by decide)
  · exact uncut [] [] _ fours.wf (by simp) (by decide) (by decide)

end Page

end Deimos.Kalloc
