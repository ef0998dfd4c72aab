import Deimos.Frame.Counters
import Deimos.Kalloc.Clients
import Deimos.Paging.Contiguous

set_option autoImplicit false

namespace Deimos.Mm

open Comp Run Mem Tiling Kalloc Deimos.Frame Paging

def MULTIBOOT_INFO_MEM_MAP : Word := 0x00000040

structure Memory where
  frames : Frames
  currentPd : PageDirectory
  heap : Heap

-- frame_init reads the map where the boot loader left it, in the 4 MiB that are
-- still mapped to themselves; the heap is behind the kernel's own mapping.
def mmInit (kernelEnd kernelPd mbt : Word) (phys : Mem) (boot : Frames) : Comp Stop Memory := do
  if phys.read mbt &&& MULTIBOOT_INFO_MEM_MAP = 0 then
    liftM (kpanic "no memory map available in multiboot info structure" : Except Stop Memory)
  else do
    let frames ← frameInit phys mbt boot
    let heap ← mmInitHeap kernelEnd (fun v => phys (v - KERNEL_VMA))
    pure ⟨frames, pagingInit kernelPd, heap⟩

structure System where
  client : ClientRun
  frames : FrameRun
  pages : Word → Nat → Option Byte

def System.initial (mem : Memory) : System := ⟨.initial mem.heap, .initial mem.frames, fun _ _ => none⟩

def System.page (p : Word) (i : Nat) (value : Byte) (s : System) : System :=
  { client := { s.client with
      heap := { s.client.heap with mem := Function.update s.client.heap.mem (p + BitVec.ofNat 32 i + KERNEL_VMA) value } }
    frames := s.frames
    pages := Function.update s.pages p (Function.update (s.pages p) i (some value)) }

theorem System.page_mem (p : Word) (i : Nat) (value : Byte) (s : System) : (s.page p i value).client.heap.mem =
    Function.update s.client.heap.mem (p + BitVec.ofNat 32 i + KERNEL_VMA) value := rfl

theorem System.page_pages (p : Word) (i : Nat) (value : Byte) (s : System) : (s.page p i value).pages =
    Function.update s.pages p (Function.update (s.pages p) i (some value)) := rfl

-- A call of kmalloc, kmalloc_a or kfree or a write to a block; a call of
-- alloc_frame or free_frame; or a write to a frame, by its physical address.
inductive MemoryStep (limit : Nat) (s : System) : System → Prop
  | client (r : ClientRun) (step : ClientStep limit s.client r) : MemoryStep limit s { s with client := r }
  | frame (r : FrameRun) (step : Frame.Step FreesOutstanding s.frames r) :
      MemoryStep limit s { s with frames := r, pages := fun p i => if p ∈ s.frames.out ∧ p ∈ r.out then s.pages p i else none }
  | page (p : Word) (i : Nat) (value : Byte) (own : p ∈ s.frames.out) (inside : i < FRAME_SIZE) :
      MemoryStep limit s (s.page p i value)

section Outside

variable {base stop limit : Nat}

theorem off_headers_outside {bs : List Block} (layout : Layout base stop bs) (x : Word) (far : x.toNat < base ∨ stop ≤ x.toNat) :
    OffHeaders bs x := by
  intro h known
  obtain ⟨b, member, rfl⟩ := List.mem_map.mp known
  have bounds := layout.bounds member
  have bound := layout.bound
  by_contra near
  have inside : (x - b.addr).toNat < 20 := Nat.lt_of_not_le near
  bv_omega

theorem client_outside (top : stop + 8192 < 2 ^ 32) (sums : limit + 23 < 2 ^ 32) (r r' : ClientRun) (stored : Stored base stop limit r)
    (step : ClientStep limit r r') (x : Word) (far : x.toNat < base ∨ stop ≤ x.toNat) : r'.heap.mem x = r.heap.mem x := by
  obtain ⟨bs, held⟩ := stored.held
  have allocated (size ptr : Word) (align : Bool) (s : Heap) (returned : (kmallocInt size align r.heap).Returns (ptr, s)) :
      s.mem x = r.heap.mem x := by
    rcases kmalloc_int_outcomes base stop r.heap bs size align ptr s held.wf returned with ⟨-, rfl⟩ | ⟨-, pre, post, b, allocates⟩
    · rfl
    · exact allocates.frame x (off_headers_outside allocates.after.toLayout x far)
  cases step with
  | call r' step =>
      cases step with
      | kmalloc size ptr s small returned => exact allocated size ptr false s returned
      | kmallocA size ptr s small returned => exact allocated size ptr true s returned
      | kfree ptr s known returned =>
          rcases known with rfl | known
          · rw [kfree_null] at returned
            obtain rfl := Except.ok.inj returned
            rfl
          · obtain ⟨b, member, used, rfl⟩ := (held.pointers ptr).mp known
            obtain ⟨pre, post, rfl⟩ := List.append_of_mem member
            obtain ⟨m', freed, -, frame⟩ := kfree_list base stop r.heap pre post b held.wf (held.wf.payload_ne (by omega) member).1
            obtain rfl := Except.ok.inj (freed.symm.trans returned)
            exact frame x (off_headers_outside held.wf.toLayout x far)
  | write l i value own inside =>
      have small := stored.small l own
      obtain ⟨b, member, -, same, room, place⟩ := held.byte l own (by omega) i inside
      have bounds := held.wf.bounds member
      have bound := held.wf.bound
      refine Function.update_of_ne ?_ _ _
      rintro rfl
      rw [← same] at far
      simp only [Block.payload, headerSize] at far
      bv_omega

theorem Stored.elsewhere (top : stop + 8192 < 2 ^ 32) (sums : limit + 23 < 2 ^ 32) (r : ClientRun) (stored : Stored base stop limit r)
    (x : Word) (value : Byte) (far : x.toNat < base ∨ stop ≤ x.toNat) :
    Stored base stop limit { r with heap := { r.heap with mem := Function.update r.heap.mem x value } } := by
  obtain ⟨bs, held⟩ := stored.held
  have bound := held.wf.bound
  refine ⟨⟨bs, held.rewrite _ (fun b member y near => Function.update_of_ne ?_ _ _)⟩, stored.small, fun l member i inside other put => ?_⟩
  · rintro rfl
    have bounds := held.wf.bounds member
    bv_omega
  · have small := stored.small l member
    obtain ⟨b, present, -, same, room, place⟩ := held.byte l member (by omega) i inside
    have bounds := held.wf.bounds present
    refine (Function.update_of_ne ?_ _ _).trans (stored.data l member i inside other put)
    rintro rfl
    rw [← same] at far
    simp only [Block.payload, headerSize] at far
    bv_omega

end Outside

structure Apart (boot : Frames) (r : FrameRun) : Prop where
  high : ∀ b, frameCount ≤ b → b < bitCount → getBit b r.frames = true
  kernel : ∀ b, KernelFrame b → getBit b boot = true
  out : ∀ p ∈ r.out, ∃ b, 0 < b ∧ b < frameCount ∧ p = frameAddr b ∧ getBit b r.frames = true
  zero : getBit 0 r.frames = true
  distinct : r.out.Nodup
  spent : ∀ b < frameCount, getBit b r.frames = false ∨ frameAddr b ∈ r.out ↔ getBit b boot = false

section Frames

variable {boot : Frames} {r : FrameRun} (apart : Apart boot r)
include apart

theorem Apart.frame (p : Word) (member : p ∈ r.out) : ∃ b, 0 < b ∧ b < frameCount ∧ p = frameAddr b ∧ ¬KernelFrame b := by
  obtain ⟨b, positive, below, rfl, -⟩ := apart.out p member
  have clear := (apart.spent b below).mp (.inr member)
  exact ⟨b, positive, below, rfl, fun kernel => nomatch (apart.kernel b kernel).symm.trans clear⟩

theorem Apart.clear_bounds (b : Nat) (below : b < bitCount) (clear : getBit b r.frames = false) : 0 < b ∧ b < frameCount := by
  constructor
  · by_contra none
    obtain rfl : b = 0 := by omega
    exact nomatch apart.zero.symm.trans clear
  · by_contra far
    exact nomatch (apart.high b (Nat.le_of_not_lt far) below).symm.trans clear

theorem Apart.take (b : Nat) (below : b < bitCount) (clear : getBit b r.frames = false) :
    Apart boot (r.afterAlloc (frameAddr b) { setBit b r.frames with numUsed := r.frames.numUsed + 1, numFree := r.frames.numFree - 1 }) := by
  obtain ⟨positive, bound⟩ := apart.clear_bounds b below clear
  have fresh : frameAddr b ∉ r.out := by
    intro member
    obtain ⟨c, -, inside, same, set⟩ := apart.out _ member
    obtain rfl := frame_addr_inj b c bound inside same
    exact nomatch set.symm.trans clear
  rw [FrameRun.afterAlloc, if_neg (frame_addr_ne b bound positive)]
  refine ⟨fun c low top => ?_, apart.kernel, fun p member => ?_, ?_, List.nodup_cons.mpr ⟨fresh, apart.distinct⟩, fun c inside => ?_⟩
  · simp [apart.high c low top]
  · rcases List.mem_cons.mp member with rfl | old
    · exact ⟨b, positive, bound, rfl, by simp⟩
    · obtain ⟨c, above, inside, same, set⟩ := apart.out p old
      exact ⟨c, above, inside, same, by simp [set]⟩
  · simp [apart.zero]
  · rw [← apart.spent c inside]
    by_cases same : c = b
    · subst same
      simp [clear]
    · have other : frameAddr c ≠ frameAddr b := fun equal => same (frame_addr_inj c b inside bound equal)
      simp [same, other]

theorem Apart.give (p : Word) (allowed : FreesOutstanding r p) : Apart boot ⟨freeFrame p r.frames, r.out.erase p, r.returned⟩ := by
  by_cases member : p ∈ r.out
  · obtain ⟨b, positive, below, rfl, set⟩ := apart.out p member
    have index := frame_addr_index b below
    have bits (c : Nat) : getBit c (freeFrame (frameAddr b) r.frames) = (getBit c r.frames && decide (c ≠ b)) := by
      rw [get_free_frame, index]
      simp [Nat.ne_of_gt positive]
    refine ⟨fun c low top => ?_, apart.kernel, fun q later => ?_, ?_, apart.distinct.erase _, fun c inside => ?_⟩
    · rw [bits, apart.high c low top]
      exact decide_eq_true (by omega)
    · obtain ⟨other, old⟩ := apart.distinct.mem_erase_iff.mp later
      obtain ⟨c, above, inside, rfl, set'⟩ := apart.out q old
      refine ⟨c, above, inside, rfl, ?_⟩
      rw [bits, set']
      exact decide_eq_true (fun same => other (congrArg frameAddr same))
    · rw [bits, apart.zero]
      exact decide_eq_true (by omega)
    · rw [← apart.spent c inside, bits, apart.distinct.mem_erase_iff]
      by_cases same : c = b
      · subst same
        simp [member]
      · have other : frameAddr c ≠ frameAddr b := fun equal => same (frame_addr_inj c b inside below equal)
        simp [same, other]
  · obtain rfl : p = 0 := allowed.resolve_right member
    have kept : freeFrame 0 r.frames = r.frames := by
      unfold freeFrame
      exact if_neg (fun guard => guard.1 rfl)
    rw [kept, List.erase_of_not_mem member]
    exact ⟨apart.high, apart.kernel, apart.out, apart.zero, apart.distinct, apart.spent⟩

theorem Apart.step (r' : FrameRun) (step : Frame.Step FreesOutstanding r r') : Apart boot r' := by
  cases step with
  | allocFrame p s answer =>
      rcases alloc_frame_cases r.frames with ⟨none, -⟩ | ⟨b, below, clear, -, found⟩
      · obtain ⟨rfl, rfl⟩ := Prod.mk.inj (none.symm.trans answer)
        exact ⟨apart.high, apart.kernel, apart.out, apart.zero, apart.distinct, apart.spent⟩
      · obtain ⟨rfl, rfl⟩ := Prod.mk.inj (found.symm.trans answer)
        exact apart.take b below clear
  | freeFrame p allowed => exact apart.give p allowed

end Frames

theorem page_place (b i : Nat) (below : b < frameCount) (inside : i < FRAME_SIZE) :
    (frameAddr b + BitVec.ofNat 32 i).toNat = b * 4096 + i := by
  have start := frame_addr_toNat b below
  simp only [frameCount, FRAME_SIZE] at below inside
  rw [BitVec.toNat_add, start, BitVec.toNat_ofNat]
  omega

theorem page_outside (b i base : Nat) (below : b < frameCount) (outside : ¬KernelFrame b) (inside : i < FRAME_SIZE)
    (image : 0xC0100000 ≤ base) (x : Word) (here : x = frameAddr b + BitVec.ofNat 32 i + KERNEL_VMA) :
    x.toNat < base ∨ 0xC0400000 ≤ x.toNat := by
  have place := page_place b i below inside
  have vma : KERNEL_VMA.toNat = 0xC0000000 := rfl
  simp only [KernelFrame, frameCount, FRAME_SIZE] at below outside inside
  rw [here, BitVec.toNat_add, place, vma]
  omega

structure Separate (boot : Frames) (base limit : Nat) (s : System) : Prop where
  stored : Stored base 0xC0400000 limit s.client
  apart : Apart boot s.frames
  pages : ∀ p ∈ s.frames.out, ∀ i < FRAME_SIZE, ∀ value, s.pages p i = some value →
    s.client.heap.mem (p + BitVec.ofNat 32 i + KERNEL_VMA) = value

theorem separate_step (boot : Frames) (base limit : Nat) (image : 0xC0100000 ≤ base) (sums : limit + 23 < 2 ^ 32) (s s' : System)
    (separate : Separate boot base limit s) (step : MemoryStep limit s s') : Separate boot base limit s' := by
  have top : (0xC0400000 : Nat) + 8192 < 2 ^ 32 := by decide
  cases step with
  | client r step =>
      refine ⟨stored_step top sums _ _ separate.stored step, separate.apart, fun p member i inside value put => ?_⟩
      obtain ⟨b, -, below, rfl, outside⟩ := separate.apart.frame p member
      rw [client_outside top sums _ _ separate.stored step _ (page_outside b i base below outside inside image _ rfl)]
      exact separate.pages _ member i inside value put
  | frame r step =>
      refine ⟨separate.stored, separate.apart.step r step, fun p member i inside value put => ?_⟩
      by_cases old : p ∈ s.frames.out
      · exact separate.pages p old i inside value ((if_pos ⟨old, member⟩).symm.trans put)
      · exact nomatch (if_neg (fun both => old both.1)).symm.trans put
  | page p i value own inside =>
      obtain ⟨b, -, below, rfl, outside⟩ := separate.apart.frame p own
      have far := page_outside b i base below outside inside image _ rfl
      refine ⟨Stored.elsewhere top sums s.client separate.stored _ value far, separate.apart, fun q member j inside' other put => ?_⟩
      rw [System.page_pages] at put
      rw [System.page_mem]
      by_cases page : q = frameAddr b
      · subst page
        rw [Function.update_self] at put
        by_cases index : j = i
        · subst index
          rw [Function.update_self] at put ⊢
          exact Option.some.inj put
        · rw [Function.update_of_ne index] at put
          have place := page_place b i below inside
          have place' := page_place b j below inside'
          have apart : frameAddr b + BitVec.ofNat 32 j + KERNEL_VMA ≠ frameAddr b + BitVec.ofNat 32 i + KERNEL_VMA := by
            intro same
            have equal := congrArg BitVec.toNat ((BitVec.add_left_inj KERNEL_VMA).mp same)
            omega
          rw [Function.update_of_ne apart]
          exact separate.pages _ member j inside' other put
      · rw [Function.update_of_ne page] at put
        obtain ⟨c, -, below', rfl, -⟩ := separate.apart.frame q member
        have place := page_place b i below inside
        have place' := page_place c j below' inside'
        have apart : frameAddr c + BitVec.ofNat 32 j + KERNEL_VMA ≠ frameAddr b + BitVec.ofNat 32 i + KERNEL_VMA := by
          intro same
          have equal := congrArg BitVec.toNat ((BitVec.add_left_inj KERNEL_VMA).mp same)
          rw [place, place'] at equal
          simp only [FRAME_SIZE] at inside inside'
          obtain rfl : c = b := by omega
          exact page rfl
        rw [Function.update_of_ne apart]
        exact separate.pages _ member j inside' other put

section Boot

variable (kernelEnd kernelPd mbt : Word) (phys : Mem) (boot : Frames) (mem : Memory)
  (init : (mmInit kernelEnd kernelPd mbt phys boot).Returns mem)
include init

theorem mm_init_returns : ∃ frames heap, (frameInit phys mbt boot).Returns frames ∧
    mmInitHeap kernelEnd (fun v => phys (v - KERNEL_VMA)) = .ok heap ∧ mem = ⟨frames, pagingInit kernelPd, heap⟩ := by
  rw [mmInit] at init
  by_cases absent : phys.read mbt &&& MULTIBOOT_INFO_MEM_MAP = 0
  · rw [if_pos absent] at init
    exact nomatch (ends_lift _ _).mp init
  · rw [if_neg absent] at init
    obtain ⟨frames, returned, rest⟩ := (returns_bind _ _ _).mp init
    obtain ⟨heap, made, last⟩ := (returns_bind _ _ _).mp rest
    exact ⟨frames, heap, returned, ((ends_lift _ _).mp made).symm, Except.ok.inj ((ends_pure _ _).mp last)⟩

theorem mm_init_separate (image : (KERNEL_VMA + Paging.KERNEL_PMA).toNat ≤ kernelEnd.toNat)
    (room : kernelEnd.toNat + 20 ≤ (KERNEL_VMA + Paging.KERNEL_PMA + Paging.KERNEL_SIZE).toNat) (spared : Spared phys mbt) (limit : Nat) :
    Separate mem.frames kernelEnd.toNat limit (.initial mem) := by
  obtain ⟨frames, heap, returned, made, rfl⟩ := mm_init_returns kernelEnd kernelPd mbt phys boot mem init
  obtain ⟨wf, -⟩ := mm_init_heap kernelEnd _ heap image room made
  exact
    { stored := by
        refine ⟨⟨_, wf, fun ptr => ?_, List.nodup_nil, nofun⟩, nofun, nofun⟩
        simp [ClientRun.initial, HeapRun.initial, System.initial, Block.used]
      apart := ⟨frame_init_high phys mbt boot frames returned, (kernel_bits_iff_spared phys mbt boot frames returned).mpr spared,
        nofun, frame_init_zero phys mbt boot frames returned, List.nodup_nil,
        fun b _ => or_iff_left List.not_mem_nil⟩
      pages := nofun }

end Boot

theorem Separate.mapped {boot : Frames} {base limit : Nat} {s : System} (separate : Separate boot base limit s) (kernelPd : Word)
    (image : 0xC0100000 ≤ base) (sums : limit + 23 < 2 ^ 32) (l : Live) (member : l ∈ s.client.live) (i : Nat) (inside : i < l.size.toNat) :
    ∃ x, virtToPhys (some (pagingInit kernelPd)) (l.ptr + BitVec.ofNat 32 i) = .ok x ∧ ∀ p ∈ s.frames.out, FRAME_SIZE ≤ (x - p).toNat := by
  obtain ⟨bs, held⟩ := separate.stored.held
  have small := separate.stored.small l member
  obtain ⟨b, present, -, same, room, place⟩ := held.byte l member (by omega) i inside
  have bounds := held.wf.bounds present
  have vma : KERNEL_VMA.toNat = 0xC0000000 := rfl
  have lies : base ≤ (l.ptr + BitVec.ofNat 32 i).toNat ∧ (l.ptr + BitVec.ofNat 32 i).toNat < 0xC0400000 := by
    rw [← same]
    simp only [Block.payload, headerSize]
    bv_omega
  refine ⟨_, virt_to_phys_mapped kernelPd _ (by omega) (by omega), fun p member => ?_⟩
  obtain ⟨c, -, below, rfl, outside⟩ := separate.apart.frame p member
  have start := frame_addr_toNat c below
  simp only [KernelFrame, FRAME_SIZE] at outside ⊢
  rw [BitVec.toNat_sub, BitVec.toNat_sub, start, vma]
  omega

theorem memory_isolated (kernelEnd kernelPd mbt : Word) (phys : Mem) (boot : Frames) (mem : Memory)
    (image : (KERNEL_VMA + Paging.KERNEL_PMA).toNat ≤ kernelEnd.toNat)
    (room : kernelEnd.toNat + 20 ≤ (KERNEL_VMA + Paging.KERNEL_PMA + Paging.KERNEL_SIZE).toNat)
    (init : (mmInit kernelEnd kernelPd mbt phys boot).Returns mem) (spared : Spared phys mbt) (limit : Nat) (sums : limit + 23 < 2 ^ 32)
    (s : System) (run : Reaches (MemoryStep limit) (.initial mem) s) :
    Separate mem.frames kernelEnd.toNat limit s ∧ (heapSanityCheck s.client.heap).Returns () ∧
      ∀ l ∈ s.client.live, ∀ i < l.size.toNat, ∃ x, virtToPhys (some mem.currentPd) (l.ptr + BitVec.ofNat 32 i) = .ok x ∧
        ∀ p ∈ s.frames.out, FRAME_SIZE ≤ (x - p).toNat := by
  have low : 0xC0100000 ≤ kernelEnd.toNat := image
  have begin := mm_init_separate kernelEnd kernelPd mbt phys boot mem init image room spared limit
  have separate := Run.invariant _ (fun a b kept step => separate_step mem.frames kernelEnd.toNat limit low sums a b kept step) _ s begin run
  obtain ⟨bs, held⟩ := separate.stored.held
  obtain ⟨frames, heap, -, -, rfl⟩ := mm_init_returns kernelEnd kernelPd mbt phys boot mem init
  exact ⟨separate, heap_sanity_check_returns _ _ s.client.heap bs held.wf, separate.mapped kernelPd low sums⟩

-- The boot loader's structures at 0x9000 offer the 4 KiB behind the kernel.
def offered : Mem := (oneEntryMap 0x400000).write 0x9000 MULTIBOOT_INFO_MEM_MAP

theorem offered_fields : offered.read 0x9000 &&& MULTIBOOT_INFO_MEM_MAP ≠ 0 ∧ mmapAddr offered 0x9000 = 0x9100 ∧
    nextEntry offered 0x9100 = mmapStop offered 0x9000 ∧ 0x9100 < mmapStop offered 0x9000 ∧
    entryType offered 0x9100 = MULTIBOOT_MEMORY_AVAILABLE ∧
    (entryAddr offered 0x9100).setWidth 32 = (0x400000 : Word) ∧
    (entryAddr offered 0x9100 + entryLen offered 0x9100 - 1).setWidth 32 = (0x400FFF : Word) := by
  decide +kernel

theorem offered_frees (e : Word) (b : Nat) (visited : Visited offered 0x9000 e) (frees : EntryFrees offered e b) : 0x400 ≤ b := by
  obtain ⟨-, first, next, below, -, low, -⟩ := offered_fields
  obtain rfl := (single_entry_visited offered 0x9000 0x9100 first next below e).mp visited
  rw [EntryFrees, low] at frees
  exact ((mem_region _ _ b).mp frees.2.2).1

theorem offered_init : ∃ mem, (mmInit 0xC0200000 0xC0108000 0x9000 offered ⟨fun _ => 0, 0, 0, 0⟩).Returns mem ∧
    getBit 0x400 mem.frames = false := by
  obtain ⟨present, first, next, below, available, low, high⟩ := offered_fields
  obtain ⟨frames, returned⟩ := single_entry_returns offered 0x9000 0x9100 first next below ⟨fun _ => 0, 0, 0, 0⟩
  obtain ⟨heap, made⟩ := kheap_init_ok 0xC0200000 0x200000 (fun v => offered (v - KERNEL_VMA)) (by decide)
  refine ⟨⟨frames, pagingInit 0xC0108000, heap⟩, ?_, ?_⟩
  · rw [mmInit, if_neg present]
    exact (ends_bind_of_returns _ _ _ _ returned).mpr ((returns_bind _ _ _).mpr ⟨heap, (ends_lift _ _).mpr made.symm, (ends_pure _ _).mpr rfl⟩)
  · refine (frame_init_bits offered 0x9000 _ frames returned 0x400 (by decide)).mpr ⟨0x9100, ?_, available, by decide, ?_⟩
    · exact (single_entry_visited offered 0x9000 0x9100 first next below 0x9100).mpr rfl
    · rw [mem_region, low, high]
      decide

theorem memory_isolated_at_frame : ∃ mem s p, Reaches (MemoryStep 0x1000) (.initial mem) s ∧ s.frames.out = [p] ∧ s.pages p 7 = some 5 ∧
    Separate mem.frames 0xC0200000 0x1000 s := by
  obtain ⟨mem, init, clear⟩ := offered_init
  have spared : Spared offered 0x9000 := by
    intro e visited b kernel frees
    have low := offered_frees e b visited frees
    simp only [KernelFrame] at kernel
    omega
  have begin := mm_init_separate 0xC0200000 0xC0108000 0x9000 offered _ mem init (by decide) (by decide) spared 0x1000
  obtain ⟨b, below, free, -, answer⟩ := (alloc_frame_cases mem.frames).resolve_left (fun none => absurd ((none.2 0x400 (by decide)).symm.trans clear) (by decide))
  obtain ⟨positive, bound⟩ := begin.apart.clear_bounds b below free
  have taken : ((System.initial mem).frames.afterAlloc (frameAddr b)
      { setBit b mem.frames with numUsed := mem.frames.numUsed + 1, numFree := mem.frames.numFree - 1 }).out = [frameAddr b] := by
    rw [FrameRun.afterAlloc, if_neg (frame_addr_ne b bound positive)]
    rfl
  have alloc : MemoryStep 0x1000 (.initial mem) _ := .frame _ (.allocFrame (System.initial mem).frames _ _ answer)
  have run := (Relation.ReflTransGen.single alloc).tail (.page (frameAddr b) 7 5 (taken ▸ List.mem_cons_self) (by decide))
  refine ⟨mem, _, frameAddr b, run, taken, ?_, ?_⟩
  · rw [System.page_pages, Function.update_self, Function.update_self]
  · exact (memory_isolated 0xC0200000 0xC0108000 0x9000 offered _ mem (by decide) (by decide) init spared 0x1000 (by decide) _ run).1

end Deimos.Mm
