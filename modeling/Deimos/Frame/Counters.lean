import Deimos.Frame.Kernel

set_option autoImplicit false

namespace Deimos.Frame

open Bitmap Comp Run

structure Counted (s : Frames) : Prop where
  free : s.numFree = BitVec.ofNat 32 (clearBits s)
  total : s.numTotal = s.numFree
  used : s.numUsed = 0

theorem counted_free_one (s : Frames) (counted : Counted s) (i : Nat) (below : i < bitCount) : Counted (freeOne s i) := by
  unfold freeOne
  by_cases freed : i ≠ 0 ∧ getBit i s = true
  · rw [if_pos freed]
    refine ⟨?_, congrArg (· + 1) counted.total, counted.used⟩
    change s.numFree + 1 = BitVec.ofNat 32 (clearBits (clrBit i s))
    rw [clear_bits_clr s i below freed.2, counted.free, BitVec.ofNat_add]
    rfl
  · rw [if_neg freed]
    exact counted

theorem counted_free_frames (frames : List Nat) (s : Frames) (counted : Counted s) (below : ∀ i ∈ frames, i < bitCount) :
    Counted (frames.foldl freeOne s) := by
  induction frames generalizing s with
  | nil => exact counted
  | cons i rest ih =>
      exact ih _ (counted_free_one s counted i (below i List.mem_cons_self)) (fun j member => below j (List.mem_cons_of_mem i member))

-- A region is given by 32 bits of address, so its frames are below 4 GiB.
theorem region_below (addr size : Word) (b : Nat) (member : b ∈ regionFrames addr size) : b < bitCount := by
  have last := ((mem_region addr size b).mp member).2
  have top := (addr + size - 1).isLt
  simp only [FRAME_SIZE, bitCount, BITMAP_WORDS] at last ⊢
  omega

theorem counted_scan_entry (m : Mem) (e : Word) (s : Frames) (counted : Counted s) : Counted (scanEntry m e s) := by
  unfold scanEntry
  split
  · exact counted_free_frames _ s counted (region_below _ _)
  · exact counted

theorem reserve_counters (frames : List Nat) (s : Frames) :
    (frames.foldl reserveOne s).numFree = s.numFree - BitVec.ofNat 32 (frames.countP (fun b => getBit b s)) ∧
      (frames.foldl reserveOne s).numTotal = s.numTotal - BitVec.ofNat 32 (frames.countP (fun b => getBit b s)) ∧
      (frames.foldl reserveOne s).numUsed = s.numUsed := by
  induction frames generalizing s with
  | nil => exact ⟨(BitVec.sub_zero _).symm, (BitVec.sub_zero _).symm, rfl⟩
  | cons i rest ih =>
      obtain ⟨free, total, used⟩ := ih (reserveOne s i)
      have kept : (fun b => getBit b (reserveOne s i)) = fun b => getBit b s := funext (fun b => get_reserve_frames [i] s b)
      rw [kept] at free total
      rw [List.foldl_cons, free, total, used, List.countP_cons]
      by_cases set : getBit i s = true
      · rw [if_pos set, BitVec.ofNat_add]
        unfold reserveOne
        rw [if_pos set]
        refine ⟨?_, ?_, rfl⟩
        · change s.numFree - 1 - _ = _
          bv_omega
        · change s.numTotal - 1 - _ = _
          bv_omega
      · rw [if_neg set, Nat.add_zero]
        unfold reserveOne
        rw [if_neg set]
        exact ⟨rfl, rfl, rfl⟩

theorem clear_bits_congr (s s' : Frames) (same : ∀ b, getBit b s' = getBit b s) : clearBits s' = clearBits s := by
  rw [clearBits, clearBits, show (fun b => getBit b s') = fun b => getBit b s from funext same]

theorem counted_walk (m : Mem) (mbt last : Word) (s scanned : Frames) (unused : s.numTotal = 0 ∧ s.numFree = 0 ∧ s.numUsed = 0)
    (passes : Reaches (Pass m mbt) (mmapAddr m mbt, markAllUsed s) (last, scanned)) : Counted scanned := by
  have none : clearBits (markAllUsed s) = 0 := (clears_eq_zero _ _).mpr (fun b below => get_mark_all_used b s below)
  have start : Counted (markAllUsed s) := by
    refine ⟨?_, unused.1.trans unused.2.1.symm, unused.2.2⟩
    rw [none]
    exact unused.2.1
  refine Run.invariant (fun a : Word × Frames => Counted a.2) (fun a b counted pass => ?_) _ _ start passes
  rw [((pass_iff m mbt a b).mp pass).2]
  exact counted_scan_entry m a.1 a.2 counted

def usedKernelFrames (s : Frames) : Nat := (regionFrames KERNEL_PMA KERNEL_SIZE).countP (fun b => getBit b s)

theorem mem_kernel_region (b : Nat) : b ∈ regionFrames KERNEL_PMA KERNEL_SIZE ↔ KernelFrame b := by
  have first : KERNEL_PMA.toNat / FRAME_SIZE = 0x100 := rfl
  have last : (KERNEL_PMA + KERNEL_SIZE - 1).toNat / FRAME_SIZE = 0x3FF := rfl
  rw [mem_region, first, last, KernelFrame]
  omega

theorem frame_init_counters (m : Mem) (mbt : Word) (s s' : Frames) (unused : s.numTotal = 0 ∧ s.numFree = 0 ∧ s.numUsed = 0)
    (returned : (frameInit m mbt s).Returns s') :
    s'.numFree = BitVec.ofNat 32 (clearBits s') - BitVec.ofNat 32 (usedKernelFrames s') ∧ s'.numTotal = s'.numFree ∧ s'.numUsed = 0 := by
  obtain ⟨last, scanned, passes, -, reserved⟩ := frame_init_returns m mbt s s' returned
  have counted := counted_walk m mbt last s scanned unused passes
  have same : ∀ b, getBit b (reserveRegion KERNEL_PMA KERNEL_SIZE scanned) = getBit b scanned := get_reserve_frames _ scanned
  obtain ⟨free, total, used⟩ := reserve_counters (regionFrames KERNEL_PMA KERNEL_SIZE) scanned
  rw [reserved, usedKernelFrames, clear_bits_congr _ _ same, funext same, reserveRegion, free, total, used, counted.free, counted.total, counted.free,
    counted.used]
  exact ⟨rfl, rfl, rfl⟩

theorem frame_init_zero (m : Mem) (mbt : Word) (s s' : Frames) (returned : (frameInit m mbt s).Returns s') : getBit 0 s' = true := by
  by_contra clear
  obtain ⟨e, -, frees⟩ := (frame_init_bits m mbt s s' returned 0 (Nat.mul_pos (by decide) (by decide))).mp (by simpa using clear)
  exact frees.2.1 rfl

theorem counters_right (m : Mem) (mbt : Word) (s s' : Frames) (unused : s.numTotal = 0 ∧ s.numFree = 0 ∧ s.numUsed = 0)
    (returned : (frameInit m mbt s).Returns s') : (Start s' ∧ s'.numTotal = s'.numFree) ↔ usedKernelFrames s' = 0 := by
  obtain ⟨free, total, used⟩ := frame_init_counters m mbt s s' unused returned
  have high := frame_init_high m mbt s s' returned
  have clear := clear_bits_le s' high
  have inUse : usedKernelFrames s' ≤ 0x300 := by
    refine Nat.le_trans List.countP_le_length ?_
    rw [regionFrames, List.length_range']
    decide
  have right : s'.numFree.toNat = clearBits s' ↔ usedKernelFrames s' = 0 := by
    simp only [frameCount] at clear
    rw [free, BitVec.toNat_sub, BitVec.toNat_ofNat, BitVec.toNat_ofNat]
    omega
  rw [← right]
  exact ⟨fun start => start.1.free, fun count => ⟨⟨frame_init_zero m mbt s s' returned, high, count, used⟩, total⟩⟩

theorem kernel_freed_iff (m : Mem) (mbt : Word) (s s' : Frames) (returned : (frameInit m mbt s).Returns s') :
    usedKernelFrames s' = 0 ↔ ∀ b, KernelFrame b → ∃ e, Visited m mbt e ∧ EntryFrees m e b := by
  rw [usedKernelFrames, List.countP_eq_zero]
  refine forall_congr' (fun b => ?_)
  rw [mem_kernel_region]
  refine imp_congr_right (fun kernel => ?_)
  have below : b < bitCount := by
    simp only [KernelFrame, bitCount, BITMAP_WORDS] at kernel ⊢
    omega
  rw [← frame_init_bits m mbt s s' returned b below, Bool.not_eq_true]

-- reserve_region tests for the wrong value here too: it counts down for every
-- kernel frame that was not free, so the counters are right exactly when all were.
theorem counters_right_iff (m : Mem) (mbt : Word) (s s' : Frames) (unused : s.numTotal = 0 ∧ s.numFree = 0 ∧ s.numUsed = 0)
    (returned : (frameInit m mbt s).Returns s') :
    (Start s' ∧ s'.numTotal = s'.numFree) ↔ ∀ b, KernelFrame b → ∃ e, Visited m mbt e ∧ EntryFrees m e b :=
  (counters_right m mbt s s' unused returned).trans (kernel_freed_iff m mbt s s' returned)

def kernelMap : Mem := (oneEntryMap 0x100000).write 0x910C KERNEL_SIZE

theorem kernel_map_fields :
    mmapAddr kernelMap 0x9000 = 0x9100 ∧ mmapStop kernelMap 0x9000 = 0x9118 ∧ nextEntry kernelMap 0x9100 = 0x9118 ∧
      entryType kernelMap 0x9100 = MULTIBOOT_MEMORY_AVAILABLE ∧ entryAddr kernelMap 0x9100 = 0x100000 ∧
      entryLen kernelMap 0x9100 = 0x300000 := by
  decide +kernel

theorem counters_right_at_kernel : ∃ s', (frameInit kernelMap 0x9000 ⟨fun _ => 0, 0, 0, 0⟩).Returns s' ∧ Start s' ∧
    s'.numTotal = s'.numFree := by
  obtain ⟨start, stop, next, available, addr, len⟩ := kernel_map_fields
  have below : (0x9100 : Word) < mmapStop kernelMap 0x9000 := by rw [stop]; decide
  obtain ⟨s', returned⟩ := single_entry_returns kernelMap 0x9000 0x9100 start (next.trans stop.symm) below ⟨fun _ => 0, 0, 0, 0⟩
  have only := single_entry_visited kernelMap 0x9000 0x9100 start (next.trans stop.symm) below
  refine ⟨s', returned, (counters_right_iff kernelMap 0x9000 _ s' ⟨rfl, rfl, rfl⟩ returned).mpr (fun b kernel => ?_)⟩
  refine ⟨0x9100, (only _).mpr rfl, available, ?_, ?_⟩
  · simp only [KernelFrame] at kernel
    omega
  · have last : (((0x100000 : BitVec 64).setWidth 32 : Word) + (0x100000 + 0x300000 - 1 : BitVec 64).setWidth 32 - 1).toNat / FRAME_SIZE =
        0x4FF := by decide
    have first : ((0x100000 : BitVec 64).setWidth 32 : Word).toNat / FRAME_SIZE = 0x100 := by decide
    rw [addr, len, mem_region, last, first]
    simp only [KernelFrame] at kernel
    omega

theorem counters_low_past_kernel : ¬ ∀ (m : Mem) (mbt : Word) (s s' : Frames), s.numTotal = 0 ∧ s.numFree = 0 ∧ s.numUsed = 0 →
    (frameInit m mbt s).Returns s' → Start s' ∧ s'.numTotal = s'.numFree := by
  intro right
  obtain ⟨s', returned⟩ := one_entry_returns 0x400000 (.inr rfl) ⟨fun _ => 0, 0, 0, 0⟩
  have none := (counters_right _ _ _ s' ⟨rfl, rfl, rfl⟩ returned).mp (right _ _ _ s' ⟨rfl, rfl, rfl⟩ returned)
  obtain ⟨e, visited, frees⟩ := (kernel_freed_iff _ _ _ s' returned).mp none 0x100 (by decide)
  obtain rfl := (one_entry_visited 0x400000 (.inr rfl) e).mp visited
  have low : 0x400 ≤ 0x100 := ((one_entry_frees 0x400000 (.inr rfl) 0x100).mp frees).2.1
  exact absurd low (by decide)

end Deimos.Frame
