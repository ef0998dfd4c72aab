import Deimos.Frame.Init

set_option autoImplicit false

namespace Deimos.Frame

open Bitmap Comp Run

def FreesReturned (r : FrameRun) (p : Word) : Prop := p = 0 ∨ p ∈ r.returned

def InKernel (p : Word) : Prop := KERNEL_PMA.toNat ≤ p.toNat ∧ p.toNat < KERNEL_PMA.toNat + KERNEL_SIZE.toNat

def KernelFrame (b : Nat) : Prop := 0x100 ≤ b ∧ b < 0x400

instance (p : Word) : Decidable (InKernel p) := inferInstanceAs (Decidable (_ ∧ _))
instance (b : Nat) : Decidable (KernelFrame b) := inferInstanceAs (Decidable (_ ∧ _))

theorem in_kernel_iff (b : Nat) (below : b < frameCount) : InKernel (frameAddr b) ↔ KernelFrame b := by
  have first : KERNEL_PMA.toNat = 0x100000 := rfl
  have length : KERNEL_SIZE.toNat = 0x300000 := rfl
  rw [InKernel, KernelFrame, frame_addr_toNat b below, first, length]
  omega

def KernelKept (s : Frames) : Prop :=
  ∀ r, Reaches (Step FreesReturned) (.initial s) r → ∀ p ∈ r.returned, ¬ InKernel p

structure Kept (r : FrameRun) : Prop where
  kernel : ∀ b, KernelFrame b → getBit b r.frames = true
  high : ∀ b, frameCount ≤ b → b < bitCount → getBit b r.frames = true
  returned : ∀ p ∈ r.returned, ∃ b, b < frameCount ∧ p = frameAddr b ∧ ¬ KernelFrame b

theorem kept_alloc (r : FrameRun) (kept : Kept r) (p : Word) (s : Frames) (answer : allocFrame r.frames = (p, s)) :
    Kept (r.afterAlloc p s) := by
  rcases alloc_frame_cases r.frames with ⟨none, _⟩ | ⟨b, below, clear, _, some'⟩
  · obtain ⟨rfl, rfl⟩ := Prod.mk.inj (none.symm.trans answer)
    exact kept
  · obtain ⟨rfl, rfl⟩ := Prod.mk.inj (some'.symm.trans answer)
    have bound : b < frameCount := by
      by_contra high
      simp [kept.high b (by omega) below] at clear
    have outside : ¬ KernelFrame b := fun inside => by simp [kept.kernel b inside] at clear
    have kernel : ∀ c, KernelFrame c → getBit c (setBit b r.frames) = true := fun c inside => by simp [kept.kernel c inside]
    have high : ∀ c, frameCount ≤ c → c < bitCount → getBit c (setBit b r.frames) = true :=
      fun c low top => by simp [kept.high c low top]
    unfold FrameRun.afterAlloc
    split_ifs with null
    · exact ⟨kernel, high, kept.returned⟩
    · refine ⟨kernel, high, fun q member => ?_⟩
      rcases List.mem_cons.mp member with rfl | earlier
      · exact ⟨b, bound, rfl, outside⟩
      · exact kept.returned q earlier

theorem kept_free (r : FrameRun) (kept : Kept r) (p : Word) (allowed : FreesReturned r p) :
    Kept ⟨freeFrame p r.frames, r.out.erase p, r.returned⟩ := by
  have index : p.toNat / FRAME_SIZE = 0 ∨ (p.toNat / FRAME_SIZE < frameCount ∧ ¬ KernelFrame (p.toNat / FRAME_SIZE)) := by
    rcases allowed with rfl | member
    · exact .inl rfl
    · obtain ⟨b, below, rfl, outside⟩ := kept.returned p member
      rw [frame_addr_index b below]
      exact .inr ⟨below, outside⟩
  have still : ∀ c, getBit c r.frames = true → (p.toNat / FRAME_SIZE = 0 ∨ c ≠ p.toNat / FRAME_SIZE) →
      getBit c (freeFrame p r.frames) = true := by
    intro c set other
    rw [get_free_frame, set, Bool.true_and]
    exact decide_eq_true other
  refine ⟨fun c inside => still c (kept.kernel c inside) ?_, fun c low top => still c (kept.high c low top) ?_, kept.returned⟩
  · exact index.imp_right (fun known same => known.2 (same ▸ inside))
  · exact index.imp_right (fun known same => by omega)

theorem kept_run (s : Frames) (kernel : ∀ b, KernelFrame b → getBit b s = true)
    (high : ∀ b, frameCount ≤ b → b < bitCount → getBit b s = true) : KernelKept s := by
  intro r run p member
  have kept : Kept r := by
    refine Run.invariant Kept (fun a a' kept step => ?_) _ _ ⟨kernel, high, by simp [FrameRun.initial]⟩ run
    cases step with
    | allocFrame p s answer => exact kept_alloc a kept p s answer
    | freeFrame p allowed => exact kept_free a kept p allowed
  obtain ⟨b, below, rfl, outside⟩ := kept.returned p member
  exact fun inside => outside ((in_kernel_iff b below).mp inside)

-- Enough calls of alloc_frame hand out any given free frame: each takes the
-- lowest free one, so the number of free frames below it goes down.
theorem handed_out (k : Nat) (positive : 0 < k) (below : k < frameCount) (n : Nat) (r : FrameRun)
    (count : clears (fun b => getBit b r.frames) k = n) (clear : getBit k r.frames = false) :
    ∃ r', Reaches (Step FreesReturned) r r' ∧ frameAddr k ∈ r'.returned := by
  induction n generalizing r with
  | zero =>
      have lower := (clears_eq_zero _ k).mp count
      rcases alloc_frame_cases r.frames with ⟨_, full⟩ | ⟨b, _, free, first, answer⟩
      · have set := full k (by simp only [frameCount, bitCount, BITMAP_WORDS] at below ⊢; omega)
        simp [clear] at set
      · obtain rfl : b = k := by
          rcases Nat.lt_trichotomy b k with less | same | more
          · simp [lower b less] at free
          · exact same
          · simp [first k more] at clear
        refine ⟨_, .single (.allocFrame r _ _ answer), ?_⟩
        unfold FrameRun.afterAlloc
        rw [if_neg (frame_addr_ne b below positive)]
        exact List.mem_cons_self
  | succ n ih =>
      rcases alloc_frame_cases r.frames with ⟨_, full⟩ | ⟨b, _, free, first, answer⟩
      · have set := full k (by simp only [frameCount, bitCount, BITMAP_WORDS] at below ⊢; omega)
        simp [clear] at set
      · have less : b < k := by
          by_contra above
          have full : clears (fun c => getBit c r.frames) k = 0 :=
            (clears_eq_zero _ k).mpr (fun c inside => first c (by omega))
          omega
        have frames : (r.afterAlloc (frameAddr b)
            { setBit b r.frames with numUsed := r.frames.numUsed + 1, numFree := r.frames.numFree - 1 }).frames =
            { setBit b r.frames with numUsed := r.frames.numUsed + 1, numFree := r.frames.numFree - 1 } := by
          unfold FrameRun.afterAlloc
          split_ifs <;> rfl
        have fewer : clears (fun c => getBit c (setBit b r.frames)) k + 1 = clears (fun c => getBit c r.frames) k :=
          clears_set _ _ k b less free (fun c => get_set_bit b c r.frames)
        obtain ⟨r', run, member⟩ := ih _ (by rw [frames]; simp only [get_bit_counters]; omega) (by
          have other : k ≠ b := by omega
          rw [frames]
          simp [clear, other])
        exact ⟨r', .head (.allocFrame r _ _ answer) run, member⟩

theorem kernel_handed_out (s : Frames) (k : Nat) (kernel : KernelFrame k) (clear : getBit k s = false) : ¬ KernelKept s := by
  have below : k < frameCount := by
    simp only [KernelFrame, frameCount] at kernel ⊢
    omega
  have positive : 0 < k := by
    simp only [KernelFrame] at kernel
    omega
  obtain ⟨r, run, member⟩ := handed_out k positive below _ (.initial s) rfl clear
  exact fun kept => kept r run _ member ((in_kernel_iff k below).mpr kernel)

theorem kernel_kept_iff_bits (s : Frames) (high : ∀ b, frameCount ≤ b → b < bitCount → getBit b s = true) :
    KernelKept s ↔ ∀ b, KernelFrame b → getBit b s = true := by
  constructor
  · intro kept b kernel
    by_contra clear
    exact kernel_handed_out s b kernel (by simpa using clear) kept
  · exact fun kernel => kept_run s kernel high

theorem entry_frees_below (m : Mem) (e : Word) (b : Nat) (frees : EntryFrees m e b) : b < frameCount := by
  have last := ((mem_region _ _ b).mp frees.2.2).2
  have top := ((entryAddr m e).setWidth 32 + (entryAddr m e + entryLen m e - 1).setWidth 32 - 1).isLt
  simp only [FRAME_SIZE, frameCount] at last ⊢
  omega

theorem frame_init_high (m : Mem) (mbt : Word) (s s' : Frames) (returned : (frameInit m mbt s).Returns s') (b : Nat)
    (low : frameCount ≤ b) (below : b < bitCount) : getBit b s' = true := by
  by_contra clear
  obtain ⟨e, _, frees⟩ := (frame_init_bits m mbt s s' returned b below).mp (by simpa using clear)
  have := entry_frees_below m e b frees
  omega

-- The map spares the kernel: no available entry has a kernel frame among those it frees.
def Spared (m : Mem) (mbt : Word) : Prop := ∀ e, Visited m mbt e → ∀ b, KernelFrame b → ¬ EntryFrees m e b

theorem kernel_bits_iff_spared (m : Mem) (mbt : Word) (s s' : Frames) (returned : (frameInit m mbt s).Returns s') :
    (∀ b, KernelFrame b → getBit b s' = true) ↔ Spared m mbt := by
  have inside : ∀ b, KernelFrame b → b < bitCount := by
    intro b kernel
    simp only [KernelFrame, bitCount, BITMAP_WORDS] at kernel ⊢
    omega
  constructor
  · intro set e visited b kernel frees
    have clear := (frame_init_bits m mbt s s' returned b (inside b kernel)).mpr ⟨e, visited, frees⟩
    simp [set b kernel] at clear
  · intro spared b kernel
    by_contra clear
    obtain ⟨e, visited, frees⟩ := (frame_init_bits m mbt s s' returned b (inside b kernel)).mp (by simpa using clear)
    exact spared e visited b kernel frees

def oneEntryMap (addr : Word) : Mem :=
  let m : Mem := fun _ => 0
  let m := m.write 0x902C 24
  let m := m.write 0x9030 0x9100
  let m := m.write 0x9100 20
  let m := m.write 0x9104 addr
  let m := m.write 0x910C 0x1000
  m.write 0x9114 MULTIBOOT_MEMORY_AVAILABLE

theorem one_entry_fields (addr : Word) (known : addr = 0x100000 ∨ addr = 0x400000) :
    mmapAddr (oneEntryMap addr) 0x9000 = 0x9100 ∧ mmapStop (oneEntryMap addr) 0x9000 = 0x9118 ∧
      nextEntry (oneEntryMap addr) 0x9100 = 0x9118 ∧ entryType (oneEntryMap addr) 0x9100 = MULTIBOOT_MEMORY_AVAILABLE ∧
      (entryAddr (oneEntryMap addr) 0x9100).setWidth 32 = addr ∧
      (entryAddr (oneEntryMap addr) 0x9100 + entryLen (oneEntryMap addr) 0x9100 - 1).setWidth 32 = addr + 0xFFF := by
  rcases known with rfl | rfl <;> decide +kernel

theorem one_entry_stop (addr : Word) (known : addr = 0x100000 ∨ addr = 0x400000) :
    nextEntry (oneEntryMap addr) 0x9100 = mmapStop (oneEntryMap addr) 0x9000 ∧ 0x9100 < mmapStop (oneEntryMap addr) 0x9000 := by
  obtain ⟨_, stop, next, _⟩ := one_entry_fields addr known
  rw [stop, next]
  exact ⟨rfl, by decide⟩

theorem one_entry_returns (addr : Word) (known : addr = 0x100000 ∨ addr = 0x400000) (s : Frames) :
    ∃ s', (frameInit (oneEntryMap addr) 0x9000 s).Returns s' :=
  let ⟨next, below⟩ := one_entry_stop addr known
  single_entry_returns _ 0x9000 0x9100 (one_entry_fields addr known).1 next below s

theorem one_entry_visited (addr : Word) (known : addr = 0x100000 ∨ addr = 0x400000) (e : Word) :
    Visited (oneEntryMap addr) 0x9000 e ↔ e = 0x9100 :=
  let ⟨next, below⟩ := one_entry_stop addr known
  single_entry_visited _ 0x9000 0x9100 (one_entry_fields addr known).1 next below e

theorem one_entry_frees (addr : Word) (known : addr = 0x100000 ∨ addr = 0x400000) (b : Nat) :
    EntryFrees (oneEntryMap addr) 0x9100 b ↔
      b ≠ 0 ∧ addr.toNat / FRAME_SIZE ≤ b ∧ b ≤ (addr + (addr + 0xFFF) - 1).toNat / FRAME_SIZE := by
  obtain ⟨_, _, _, available, low, high⟩ := one_entry_fields addr known
  rw [EntryFrees, available, low, high, mem_region]
  simp

-- reserve_region tests for the wrong value and reserves nothing, so the kernel
-- keeps its memory exactly when the map never offered it.
theorem kernel_kept_iff_spared (m : Mem) (mbt : Word) (s s' : Frames) (returned : (frameInit m mbt s).Returns s') :
    KernelKept s' ↔ Spared m mbt := by
  rw [kernel_kept_iff_bits s' (frame_init_high m mbt s s' returned)]
  exact kernel_bits_iff_spared m mbt s s' returned

theorem kernel_kept_past_kernel : ∃ s', (frameInit (oneEntryMap 0x400000) 0x9000 ⟨fun _ => 0, 0, 0, 0⟩).Returns s' ∧ KernelKept s' := by
  obtain ⟨s', returned⟩ := one_entry_returns 0x400000 (.inr rfl) ⟨fun _ => 0, 0, 0, 0⟩
  refine ⟨s', returned, (kernel_kept_iff_spared _ _ _ s' returned).mpr ?_⟩
  intro e visited b kernel frees
  obtain rfl := (one_entry_visited 0x400000 (.inr rfl) e).mp visited
  have low : 0x400 ≤ b := ((one_entry_frees 0x400000 (.inr rfl) b).mp frees).2.1
  simp only [KernelFrame] at kernel
  omega

theorem kernel_handed_out_at_megabyte : ∃ s' r, (frameInit (oneEntryMap 0x100000) 0x9000 ⟨fun _ => 0, 0, 0, 0⟩).Returns s' ∧
    Reaches (Step FreesReturned) (.initial s') r ∧ 0x100000 ∈ r.returned ∧ InKernel 0x100000 ∧ ¬ KernelKept s' := by
  obtain ⟨s', returned⟩ := one_entry_returns 0x100000 (.inl rfl) ⟨fun _ => 0, 0, 0, 0⟩
  have frees : EntryFrees (oneEntryMap 0x100000) 0x9100 0x100 := (one_entry_frees 0x100000 (.inl rfl) 0x100).mpr (by decide)
  have clear : getBit 0x100 s' = false := (frame_init_bits _ _ _ s' returned 0x100 (by decide)).mpr
    ⟨0x9100, (one_entry_visited 0x100000 (.inl rfl) _).mpr rfl, frees⟩
  obtain ⟨r, run, member⟩ := handed_out 0x100 (by decide) (by decide) _ (.initial s') rfl clear
  exact ⟨s', r, returned, run, member, by decide, kernel_handed_out s' 0x100 (by decide) clear⟩

end Deimos.Frame
