import Mathlib.Data.List.Nodup
import Deimos.Kalloc.Run

set_option autoImplicit false

namespace Deimos.Kalloc

open Mem Tiling Comp Run

-- Below the top of the address space none of the sums of kmalloc_int wraps,
-- so a block that is not stuck is cut as the source intends.
section Room

variable {base stop : Nat} {bs : List Block} {b : Block} {size : Word}

theorem fit_room (small : size.toNat + 20 < 2 ^ 32) (fit : b.Fits size) : size.toNat + 20 ≤ b.size.toNat := by
  have large := fit.2
  simp only [headerSize] at large
  bv_omega

theorem aligned_room (layout : Layout base stop bs) (top : stop + 8192 < 2 ^ 32) (member : b ∈ bs)
    (room : size.toNat + 20 ≤ b.size.toNat) (loose : ¬ b.Stuck size) :
    (alignedAddr b.addr).toNat + size.toNat ≤ b.addr.toNat + b.size.toNat ∧ b.addr.toNat + 40 ≤ (alignedAddr b.addr).toNat := by
  have bounds := layout.bounds member
  have gap := aligned_addr_gap b.addr
  have fits := (not_or.mp loose).2
  generalize alignedAddr b.addr = a at gap fits ⊢
  constructor <;> bv_omega

theorem aligned_block_size (layout : Layout base stop bs) (top : stop + 8192 < 2 ^ 32) (member : b ∈ bs)
    (room : size.toNat + 20 ≤ b.size.toNat) (loose : ¬ b.Stuck size) :
    b.alignedDist.toNat = (alignedAddr b.addr).toNat - b.addr.toNat - 20 ∧
      b.alignedBlock.size.toNat + (alignedAddr b.addr).toNat = b.addr.toNat + b.size.toNat + 20 := by
  have bounds := layout.bounds member
  have after := aligned_room layout top member room loose
  simp only [Block.alignedBlock, Block.tag, Block.cutBack, Block.alignedDist, headerSize]
  generalize alignedAddr b.addr = a at after ⊢
  constructor <;> bv_omega

theorem splits_of_room (layout : Layout base stop bs) (top : stop + 8192 < 2 ^ 32) (member : b ∈ bs)
    (room : size.toNat + 20 ≤ b.size.toNat) (loose : ¬ b.Stuck size) : b.Splits size := by
  have bounds := layout.bounds member
  have after := aligned_room layout top member room loose
  have sizes := aligned_block_size layout top member room loose
  refine ⟨?_, fun large => ?_⟩
  · simp only [Block.Cuttable, headerSize]
    bv_omega
  · simp only [Block.Cuttable, headerSize] at large ⊢
    bv_omega

theorem place_room (align : Bool) (layout : Layout base stop bs) (top : stop + 8192 < 2 ^ 32) (member : b ∈ bs)
    (free : b.allocated = false) (room : size.toNat + 20 ≤ b.size.toNat) (loose : align = true → ¬ b.Stuck size) :
    ∀ c ∈ b.place align size, c.used → size.toNat + 20 ≤ c.size.toNat := by
  intro c inside used
  have bounds := layout.bounds member
  cases align with
  | false =>
      simp only [Block.place, Block.carve, Bool.false_eq_true, if_false] at inside
      split_ifs at inside with whole
      · obtain rfl := List.mem_singleton.mp inside
        exact room
      · rcases List.mem_pair.mp inside with rfl | rfl
        · simp only [Block.tag, Block.cutFront, headerSize]
          bv_omega
        · exact absurd used (not_used _ free)
  | true =>
      have after := aligned_room layout top member room (loose rfl)
      have sizes := aligned_block_size layout top member room (loose rfl)
      simp only [Block.place, Block.carveAligned, if_true] at inside
      split_ifs at inside with large
      · simp only [List.mem_cons, List.not_mem_nil, or_false] at inside
        rcases inside with rfl | rfl | rfl
        · exact absurd used (not_used _ free)
        · simp only [Block.cutFront, headerSize]
          bv_omega
        · exact absurd used (not_used _ rfl)
      · rcases List.mem_pair.mp inside with rfl | rfl
        · exact absurd used (not_used _ free)
        · omega

end Room

def Backed (bs : List Block) (l : Live) : Prop :=
  ∃ b ∈ bs, b.used ∧ b.payload = l.ptr ∧ l.size.toNat + 20 ≤ b.size.toNat ∧ (l.aligned = true → l.ptr.toNat % 4096 = 0)

theorem backed_step (base stop limit : Nat) (r r' : HeapRun) (bs bs' : List Block) (safe : Safe base stop r bs)
    (top : stop + 8192 < 2 ^ 32) (limited : base + limit ≤ stop) (backed : ∀ l ∈ r.live, Backed bs l)
    (moves : Moves base stop limit r bs r' bs') : ∀ l ∈ r'.live, Backed bs' l := by
  cases moves with
  | idle same => exact same ▸ backed
  | take size ptr align pre post b nonzero small allocates live =>
      obtain ⟨lead, taken, rest, placed, shape⟩ := place_shape align (roundSize size) b allocates.fit.1
      obtain rfl := allocates.shape
      have rounded := round_size_bounds size (by omega)
      have room := fit_room (by omega) allocates.fit
      have sized := place_room align safe.wf.toLayout top (b := b) (by simp) allocates.fit.1 room
        (fun aligned => (allocates.room aligned).1) taken (by simp [placed]) shape.used
      have old : ∀ l ∈ r.live, Backed (pre ++ (b.place align (roundSize size) ++ post)) l := by
        intro l member
        obtain ⟨c, inside, used, rest'⟩ := backed l member
        rw [placed]
        exact ⟨c, (used_place pre post lead rest b taken c align shape allocates.fit.1 used).mpr (.inl inside), used, rest'⟩
      intro l member
      rw [live, keep] at member
      split_ifs at member
      · exact old l member
      · rcases List.mem_cons.mp member with rfl | earlier
        · refine ⟨taken, by simp [placed], shape.used, shape.payload.trans allocates.pointer.symm, by simp only; omega, ?_⟩
          rintro rfl
          rw [allocates.pointer]
          exact aligned_addr_page b.addr
        · exact old l earlier
  | release pre post b shape used after live =>
      subst shape
      intro l member
      rw [live, drop] at member
      obtain ⟨earlier, other⟩ := List.mem_filter.mp member
      obtain ⟨c, inside, taken, same, rest⟩ := backed l earlier
      refine ⟨c, (used_free base stop pre post b c safe.wf.toLayout taken).mpr ⟨inside, ?_⟩, taken, same, rest⟩
      rintro rfl
      simp [same] at other

-- No allowed request ends in an error: below the top of the address space
-- the two cuts of the aligned branch are never refused.
theorem kmalloc_int_no_stop (base stop : Nat) (s : Heap) (bs : List Block) (size : Word) (align : Bool)
    (wf : WellFormed base stop s bs) (top : stop + 8192 < 2 ^ 32) (small : base + size.toNat ≤ stop) (why : Stop) :
    ¬ (kmallocInt size align s).Ends (.error why) := by
  intro ended
  by_cases nonzero : size = 0
  · rw [nonzero, kmalloc_int_zero] at ended
    simp at ended
  · rcases first_fit bs (roundSize size) with unfit | ⟨pre, post, b, rfl, unfit, fit⟩
    · exact absurd ((kmalloc_int_none wf nonzero unfit _).mp ended) (by simp)
    · by_cases stuck : align = true ∧ b.Stuck (roundSize size)
      · obtain ⟨rfl, stuck⟩ := stuck
        exact (diverges_iff _).mp (kmalloc_int_stuck wf nonzero unfit fit stuck) _ ended
      · have rounded := round_size_bounds size (by omega)
        have room := fit_room (by omega) fit
        have loose : align = true → ¬ b.Stuck (roundSize size) := fun aligned spins => stuck ⟨aligned, spins⟩
        obtain ⟨s', served, _⟩ := kmalloc_int_serves size align pre post b wf nonzero unfit fit (fun aligned =>
          ⟨loose aligned, splits_of_room wf.toLayout top (b := b) (by simp) room (loose aligned)⟩)
        exact absurd (ends_unique _ _ _ served ended) (by simp)

def InPayload (m : Mem) (ptr : Word) (x : Nat) : Prop :=
  ptr.toNat ≤ x ∧ x + 20 < ptr.toNat + (load m (ptr - headerSize) .size).toNat

def InHeader (b : Block) (x : Nat) : Prop := b.start ≤ x ∧ x < b.start + 20

structure HeapSafe (start size : Word) (r : HeapRun) (bs : List Block) : Prop where
  -- The list tiles the region, with all magics and links in place.
  list : WellFormed start.toNat (start.toNat + size.toNat) r.heap bs
  sum : (bs.map (fun b => b.size.toNat)).sum = size.toNat
  -- The used blocks are those of the live pointers, one for each.
  pointers : ∀ ptr, ptr ∈ r.live.map Live.ptr ↔ ∃ b ∈ bs, b.used ∧ b.payload = ptr
  distinct : (r.live.map Live.ptr).Nodup
  -- Payloads are large enough, apart from each other and from all headers.
  long : ∀ l ∈ r.live, ∀ x, l.ptr.toNat ≤ x → x < l.ptr.toNat + l.size.toNat → InPayload r.heap.mem l.ptr x
  disjoint : ∀ l ∈ r.live, ∀ l' ∈ r.live, l ≠ l' → ∀ x, ¬ (InPayload r.heap.mem l.ptr x ∧ InPayload r.heap.mem l'.ptr x)
  headers : ∀ l ∈ r.live, ∀ b ∈ bs, ∀ x, ¬ (InPayload r.heap.mem l.ptr x ∧ InHeader b x)
  aligned : ∀ l ∈ r.live, l.aligned = true → l.ptr.toNat % 4096 = 0
  -- No call that is allowed next stops the kernel.
  kmalloc : ∀ n align why, n.toNat ≤ size.toNat → ¬ (kmallocInt n align r.heap).Ends (.error why)
  kfree : ∀ ptr, ptr = 0 ∨ ptr ∈ r.live.map Live.ptr → ∃ s, kfree ptr r.heap = .ok s
  sane : (heapSanityCheck r.heap).Returns ()

theorem in_payload_of_block (base stop : Nat) (s : Heap) (bs : List Block) (wf : WellFormed base stop s bs) (top : stop < 2 ^ 32)
    (b : Block) (member : b ∈ bs) (x : Nat) : InPayload s.mem b.payload x ↔ b.start + 20 ≤ x ∧ x < b.stop := by
  obtain ⟨pre, post, rfl⟩ := List.append_of_mem member
  have at' := (wf.payload_ne top member).2
  have back : b.payload - headerSize = b.addr := BitVec.add_sub_cancel b.addr headerSize
  rw [InPayload, back, wf.header.size, at', Block.start, Block.stop]
  constructor <;> (rintro ⟨low, high⟩; constructor <;> omega)

theorem sizes_sum (base stop : Nat) (bs : List Block) (layout : Layout base stop bs) :
    (bs.map (fun b => b.size.toNat)).sum = stop - base := by
  rw [← tiles_sum bs base stop layout.tiles]
  refine congrArg List.sum (List.map_congr_left (fun b _ => ?_))
  simp only [Block.start, Block.stop]
  omega

theorem live_inj (live : List Live) (distinct : (live.map Live.ptr).Nodup) (l l' : Live) (left : l ∈ live) (right : l' ∈ live)
    (same : l.ptr = l'.ptr) : l = l' := List.inj_on_of_nodup_map distinct left right same

theorem heap_safe_of_safe (start size : Word) (r : HeapRun) (bs : List Block)
    (safe : Safe start.toNat (start.toNat + size.toNat) r bs) (top : start.toNat + size.toNat + 8192 < 2 ^ 32)
    (backed : ∀ l ∈ r.live, Backed bs l) : HeapSafe start size r bs where
  list := safe.wf
  sum := by
    rw [sizes_sum _ _ bs safe.wf.toLayout]
    omega
  pointers := safe.pointers
  distinct := safe.distinct
  long l member x low high := by
    obtain ⟨b, inside, _, same, room, _⟩ := backed l member
    have at' := (safe.wf.payload_ne (by omega) inside).2
    rw [← same] at low high ⊢
    rw [in_payload_of_block _ _ _ bs safe.wf (by omega) b inside, Block.start, Block.stop]
    constructor <;> omega
  disjoint l member l' member' different x both := by
    obtain ⟨b, inside, _, same, _⟩ := backed l member
    obtain ⟨c, inside', _, same', _⟩ := backed l' member'
    have other : b ≠ c := by
      rintro rfl
      exact different (live_inj r.live safe.distinct l l' member member' (same.symm.trans same'))
    rw [← same, ← same', in_payload_of_block _ _ _ bs safe.wf (by omega) b inside,
      in_payload_of_block _ _ _ bs safe.wf (by omega) c inside'] at both
    have apart := tiles_disjoint bs _ _ safe.wf.tiles b c inside inside' other
    omega
  headers l member c inside' x both := by
    obtain ⟨b, inside, _, same, _⟩ := backed l member
    rw [← same, in_payload_of_block _ _ _ bs safe.wf (by omega) b inside, InHeader] at both
    by_cases own : b = c
    · subst own
      omega
    · have apart := tiles_disjoint bs _ _ safe.wf.tiles b c inside inside' own
      have bounds := safe.wf.bounds inside'
      simp only [Block.start, Block.stop] at apart both
      omega
  aligned l member page := by
    obtain ⟨_, _, _, _, _, boundary⟩ := backed l member
    exact boundary page
  kmalloc n align why small := kmalloc_int_no_stop _ _ r.heap bs n align safe.wf (by omega) (by omega) why
  kfree ptr known := by
    rcases known with rfl | live
    · exact ⟨r.heap, kfree_null r.heap⟩
    · obtain ⟨b, inside, _, rfl⟩ := (safe.pointers ptr).mp live
      obtain ⟨pre, post, rfl⟩ := List.append_of_mem inside
      obtain ⟨m', freed, _⟩ := kfree_list _ _ r.heap pre post b safe.wf (safe.wf.payload_ne (by omega) inside).1
      exact ⟨_, freed⟩
  sane := heap_sanity_check_returns _ _ r.heap bs safe.wf

theorem backed_of_runs (start size : Word) (m : Mem) (s : Heap) (init : kheapInit start size m = .ok s)
    (room : 20 ≤ size.toNat) (top : start.toNat + size.toNat + 8192 < 2 ^ 32) (r : HeapRun) (run : Runs size.toNat s r) :
    ∃ bs, Safe start.toNat (start.toNat + size.toNat) r bs ∧ ∀ l ∈ r.live, Backed bs l := by
  refine Run.invariant (fun r => ∃ bs, Safe start.toNat (start.toNat + size.toNat) r bs ∧ ∀ l ∈ r.live, Backed bs l) ?_ _ _
    ⟨_, safe_initial start size m s init room (by omega), by simp [HeapRun.initial]⟩ run
  rintro r r' ⟨bs, safe, backed⟩ step
  obtain ⟨bs', moves⟩ := moves_of_step _ _ size.toNat r r' bs safe (by omega) step
  exact ⟨bs', safe_step _ _ _ r r' bs bs' safe (by omega) moves,
    backed_step _ _ _ r r' bs bs' safe (by omega) (by omega) backed moves⟩

theorem heap_safe_of_runs (start size : Word) (m : Mem) (s : Heap) (init : kheapInit start size m = .ok s)
    (room : 20 ≤ size.toNat) (top : start.toNat + size.toNat + 8192 < 2 ^ 32) (r : HeapRun) (run : Runs size.toNat s r) :
    ∃ bs, HeapSafe start size r bs := by
  obtain ⟨bs, safe, backed⟩ := backed_of_runs start size m s init room top r run
  exact ⟨bs, heap_safe_of_safe start size r bs safe top backed⟩

theorem heap_safe_after_kfree : ∃ s r bs, kheapInit 0xC0200000 0x4000 (fun _ => 0) = .ok s ∧ Runs 0x4000 s r ∧
    r.live = [⟨0xC0201000, 512, true⟩] ∧ HeapSafe 0xC0200000 0x4000 r bs := by
  obtain ⟨s, init⟩ := kheap_init_ok 0xC0200000 0x4000 (fun _ => 0) (by decide)
  have wf := kheap_init_list 0xC0200000 0x4000 _ s init (by decide) (by decide)
  obtain ⟨s₁, first, served⟩ := kmalloc_int_serves 100 false [] [] ⟨0xC0200000, 0x4000, false⟩ wf (by decide) (by simp) (by decide)
    (by simp)
  have wf₁ : WellFormed 0xC0200000 0xC0204000 s₁ ([⟨0xC0200000, 120, true⟩] ++ ⟨0xC0200078, 0x3F88, false⟩ :: []) := served.after
  obtain ⟨s₂, second, served⟩ := kmalloc_int_serves 512 true _ _ _ wf₁ (by decide) (by decide) (by decide) (by decide)
  obtain ⟨m, freed, -⟩ := kfree_list _ _ s₂ [] _ ⟨0xC0200000, 120, true⟩ served.after (by decide)
  have run : Runs 0x4000 s ⟨s₁, [⟨0xC0200014, 100, false⟩]⟩ := .single (.kmalloc (.initial s) 100 _ s₁ (by decide) first)
  have run : Runs 0x4000 s ⟨s₂, [⟨0xC0201000, 512, true⟩, ⟨0xC0200014, 100, false⟩]⟩ :=
    run.tail (.kmallocA ⟨s₁, _⟩ 512 _ s₂ (show (512 : Word).toNat ≤ 0x4000 by decide) second)
  have run := run.tail (.kfree _ 0xC0200014 _ (.inr (List.mem_cons_of_mem _ List.mem_cons_self)) freed)
  obtain ⟨bs, safe⟩ := heap_safe_of_runs 0xC0200000 0x4000 _ s init (by decide) (by decide) _ run
  exact ⟨s, _, bs, init, run, rfl, safe⟩

end Deimos.Kalloc
