import Deimos.Kalloc.Safety
import Deimos.Paging.Model

set_option autoImplicit false

namespace Deimos.Paging

open Comp Kalloc

theorem directory_index (v : Word) : directoryIndex v = v.toNat / 2 ^ 22 := by
  rw [directoryIndex, BitVec.toNat_and, BitVec.toNat_ushiftRight, Nat.shiftRight_eq_div_pow]
  change v.toNat / 2 ^ 22 &&& 2 ^ 10 - 1 = _
  rw [Nat.and_two_pow_sub_one_eq_mod]
  have bound := v.isLt
  omega

theorem init_lookup (kernelPd v : Word) :
    pdLookup (some (pagingInit kernelPd)) v = some (if v.toNat / 2 ^ 22 = 768 then 0x83 else 0) := by
  have kernel : directoryIndex KERNEL_VMA = 768 := by decide
  have value : setFrame (setAttrib (setAttrib (setAttrib 0 PDE_PRESENT) PDE_WRITABLE) PDE_4MB) 0 = 0x83 := by decide
  have entries : ∀ i, (pagingInit kernelPd).entries i = if i = directoryIndex KERNEL_VMA then 0x83 else 0 := by
    intro i
    rw [← value]
    rfl
  rw [pdLookup, Option.map_some, entries, directory_index v, kernel]

theorem page_offset (v : Word) : (v &&& 0x003FFFFF).toNat = v.toNat % 2 ^ 22 := by
  rw [BitVec.toNat_and]
  exact Nat.and_two_pow_sub_one_eq_mod v.toNat 22

theorem virt_to_phys_mapped (kernelPd v : Word) (low : KERNEL_VMA.toNat ≤ v.toNat) (high : v.toNat < KERNEL_VMA.toNat + 0x400000) :
    virtToPhys (some (pagingInit kernelPd)) v = .ok (v - KERNEL_VMA) := by
  have vma : KERNEL_VMA.toNat = 0xC0000000 := rfl
  have here : v.toNat / 2 ^ 22 = 768 := by omega
  have offset : 0#32 ||| (v &&& 0x003FFFFF) = v - KERNEL_VMA := by
    apply BitVec.eq_of_toNat_eq
    rw [BitVec.zero_or, page_offset, BitVec.toNat_sub, vma]
    omega
  rw [virtToPhys, init_lookup, if_pos here]
  exact congrArg Except.ok offset

theorem virt_to_phys_null (kernelPd : Word) : virtToPhys (some (pagingInit kernelPd)) 0 = .ok 0 := by
  rw [virtToPhys, init_lookup]
  rfl

theorem aligned_answer (base stop : Nat) (s s' : Heap) (bs : List Block) (size addr : Word) (wf : WellFormed base stop s bs)
    (top : stop + 8192 < 2 ^ 32) (small : base + size.toNat ≤ stop) (returned : (kmallocInt size true s).Returns (addr, s'))
    (nonnull : addr ≠ 0) : addr.toNat % 4096 = 0 ∧ base ≤ addr.toNat ∧ 0 < size.toNat ∧ addr.toNat + size.toNat ≤ stop := by
  rcases kmalloc_int_outcomes base stop s bs size true addr s' wf returned with ⟨null, -⟩ | ⟨nonzero, pre, post, b, allocates⟩
  · exact absurd null nonnull
  · obtain rfl := allocates.shape
    obtain ⟨lead, taken, rest, placed, shape⟩ := place_shape true (roundSize size) b allocates.fit.1
    have rounded := round_size_bounds size (by omega)
    have room := fit_room (by omega) allocates.fit
    have sized := place_room true wf.toLayout top (b := b) (by simp) allocates.fit.1 room
      (fun aligned => (allocates.room aligned).1) taken (by simp [placed]) shape.used
    have after := allocates.after
    rw [placed] at after
    have inside : taken ∈ pre ++ ((lead ++ taken :: rest) ++ post) := by simp
    have bounds := after.bounds inside
    have payload := (after.payload_ne (by omega) inside).2
    rw [shape.payload.trans allocates.pointer.symm] at payload
    refine ⟨?_, by omega, by bv_omega, by omega⟩
    rw [allocates.pointer]
    exact aligned_addr_page b.addr

-- Every block from kmalloc_ap lies in the kernel's page from end to end, so
-- its physical addresses follow on one another.
theorem kmalloc_ap_contiguous (kernelPd : Word) (base stop : Nat) (s s' : Heap) (bs : List Block) (size addr p : Word)
    (wf : WellFormed base stop s bs) (low : KERNEL_VMA.toNat ≤ base) (high : stop ≤ KERNEL_VMA.toNat + 0x400000)
    (small : size.toNat ≤ stop - base)
    (returned : (kmallocAp size (some (pagingInit kernelPd)) s).Returns (addr, p, s')) :
    (addr = 0 → p = 0) ∧ (addr ≠ 0 → p = addr - KERNEL_VMA ∧ p.toNat % 4096 = 0 ∧
      ∀ i < size.toNat, virtToPhys (some (pagingInit kernelPd)) (addr + BitVec.ofNat 32 i) = .ok (p + BitVec.ofNat 32 i)) := by
  have vma : KERNEL_VMA.toNat = 0xC0000000 := rfl
  obtain ⟨⟨addr', heap⟩, allocated, rest⟩ := (returns_bind _ _ _).mp returned
  obtain ⟨p', translated, last⟩ := (returns_bind _ _ _).mp rest
  have translated := (ends_lift _ _).mp translated
  have same := (ends_pure _ _).mp last
  simp only [Except.ok.injEq, Prod.mk.injEq] at same
  obtain ⟨rfl, rfl, rfl⟩ := same
  constructor
  · rintro rfl
    rw [virt_to_phys_null] at translated
    exact Except.ok.inj translated
  · intro nonnull
    have occupied : base ≤ stop := Tiling.tiles_le bs base stop wf.tiles
    obtain ⟨page, first, positive, last⟩ := aligned_answer base stop s _ bs size _ wf (by omega) (by omega) allocated nonnull
    rw [virt_to_phys_mapped kernelPd _ (by omega) (by omega)] at translated
    obtain rfl := Except.ok.inj translated
    refine ⟨rfl, ?_, fun i inside => ?_⟩
    · rw [BitVec.toNat_sub, vma]
      omega
    · have place : (addr + BitVec.ofNat 32 i).toNat = addr.toNat + i := by
        rw [BitVec.toNat_add, BitVec.toNat_ofNat]
        omega
      rw [virt_to_phys_mapped kernelPd _ (by omega) (by omega)]
      congr 1
      bv_omega

theorem mm_init_heap (kernelEnd : Word) (m : Mem) (s : Heap) (image : (KERNEL_VMA + KERNEL_PMA).toNat ≤ kernelEnd.toNat)
    (room : kernelEnd.toNat + 20 ≤ (KERNEL_VMA + KERNEL_PMA + KERNEL_SIZE).toNat) (init : mmInitHeap kernelEnd m = .ok s) :
    WellFormed kernelEnd.toNat 0xC0400000 s [⟨kernelEnd, 0xC0400000 - kernelEnd, false⟩] ∧ KERNEL_VMA.toNat ≤ kernelEnd.toNat := by
  have first : (KERNEL_VMA + KERNEL_PMA).toNat = 0xC0100000 := rfl
  have end' : (KERNEL_VMA + KERNEL_PMA + KERNEL_SIZE).toNat = 0xC0400000 := rfl
  have vma : KERNEL_VMA.toNat = 0xC0000000 := rfl
  have length : (0xC0400000 - kernelEnd : Word).toNat = 0xC0400000 - kernelEnd.toNat := by bv_omega
  have list := kheap_init_list kernelEnd (0xC0400000 - kernelEnd) m s init (by omega) (by omega)
  rw [show kernelEnd.toNat + (0xC0400000 - kernelEnd : Word).toNat = 0xC0400000 by omega] at list
  exact ⟨list, by omega⟩

theorem kmalloc_ap_contiguous_buffer : ∃ s addr p s', mmInitHeap 0xC0200000 (fun _ => 0) = .ok s ∧
    (kmallocAp 34284 (some (pagingInit 0xC0108000)) s).Returns (addr, p, s') ∧ addr = 0xC0201000 ∧ p = addr - KERNEL_VMA ∧
    ∀ i < 34284, virtToPhys (some (pagingInit 0xC0108000)) (addr + BitVec.ofNat 32 i) = .ok (p + BitVec.ofNat 32 i) := by
  obtain ⟨s, init⟩ := kheap_init_ok 0xC0200000 0x200000 (fun _ => 0) (by decide)
  obtain ⟨wf, low⟩ := mm_init_heap 0xC0200000 (fun _ => 0) s (by decide) (by decide) init
  obtain ⟨s', returned, allocates⟩ := kmalloc_int_serves 34284 true [] [] _ wf (by decide) (by simp) (by decide) (by decide)
  have pointer : Block.pointer true ⟨0xC0200000, 0xC0400000 - 0xC0200000, false⟩ = 0xC0201000 := by decide
  rw [pointer] at returned
  have mapped := virt_to_phys_mapped 0xC0108000 0xC0201000 (by decide) (by decide)
  have answer : (kmallocAp 34284 (some (pagingInit 0xC0108000)) s).Returns (0xC0201000, 0xC0201000 - KERNEL_VMA, s') :=
    (ends_bind_of_returns _ _ _ _ returned).mpr ((returns_bind _ _ _).mpr
      ⟨_, (ends_lift _ _).mpr mapped.symm, (ends_pure _ _).mpr rfl⟩)
  obtain ⟨-, placed⟩ := kmalloc_ap_contiguous 0xC0108000 _ _ s s' _ 34284 _ _ wf low (by decide) (by decide) answer
  exact ⟨s, _, _, s', init, answer, rfl, rfl, (placed (by decide)).2.2⟩

end Deimos.Paging
