import Deimos.Kalloc.Answer
import Deimos.Str.Memory

set_option autoImplicit false

namespace Deimos.Kalloc

open Mem Tiling Comp

def kcalloc (num size : Word) (s : Heap) : Comp Stop (Word × Heap) := do
  let (ptr, s) ← kmalloc (num * size) s
  if ptr = 0 then pure (0, s)
  else
    let (_, m) ← Str.memset ptr 0 (num * size) s.mem
    pure (ptr, { s with mem := m })

-- What a pointer from kcalloc promises: room for the product as numbers
-- multiply, all of it zero, and every used block's payload as it was.
structure Cleared (base stop : Nat) (s : Heap) (bs : List Block) (num size ptr : Word) (s' : Heap) : Prop where
  room : ∃ cs, WellFormed base stop s' cs ∧
    ∃ b ∈ cs, b.used ∧ b.payload = ptr ∧ num.toNat * size.toNat + headerSize.toNat ≤ b.size.toNat
  zero : ∀ i : Nat, i < num.toNat * size.toNat → s'.mem (ptr + BitVec.ofNat 32 i) = 0
  others : ∀ c ∈ bs, c.used → ∀ i : Nat, i + headerSize.toNat < c.size.toNat →
    s'.mem (c.payload + BitVec.ofNat 32 i) = s.mem (c.payload + BitVec.ofNat 32 i)

def CallocSound (base stop : Nat) (s : Heap) (bs : List Block) (num size : Word) : Prop :=
  ∀ ptr s', (kcalloc num size s).Returns (ptr, s') → ptr ≠ 0 → Cleared base stop s bs num size ptr s'

def ProductFits (bs : List Block) (num size : Word) : Prop :=
  num * size = 0 ∨ ∀ pre post b, bs = pre ++ b :: post → (∀ c ∈ pre, ¬c.Fits (roundSize (num * size))) →
    b.Fits (roundSize (num * size)) → b.payload = 0 ∨ num.toNat * size.toNat + headerSize.toNat ≤ b.size.toNat

theorem first_fit_unique {pre pre' post post' : List Block} {b b' : Block} {size : Word} (same : pre ++ b :: post = pre' ++ b' :: post')
    (unfit : ∀ c ∈ pre, ¬c.Fits size) (fit : b.Fits size) (unfit' : ∀ c ∈ pre', ¬c.Fits size) (fit' : b'.Fits size) : b = b' := by
  have found : (pre ++ b :: post).find? (fun c => decide (c.Fits size)) = some b :=
    List.find?_eq_some_iff_append.mpr ⟨by simpa using fit, pre, post, rfl, by simpa using unfit⟩
  have found' : (pre ++ b :: post).find? (fun c => decide (c.Fits size)) = some b' :=
    List.find?_eq_some_iff_append.mpr ⟨by simpa using fit', pre', post', same, by simpa using unfit'⟩
  exact Option.some.inj (found.symm.trans found')

section Calls

variable {s s' : Heap} {num size ptr : Word}

theorem kcalloc_of_null (returned : (kmalloc (num * size) s).Returns (0, s')) : (kcalloc num size s).Returns (0, s') :=
  (ends_bind_of_returns _ _ _ _ returned).mpr ((ends_pure _ _).mpr rfl)

theorem kcalloc_of_pointer (returned : (kmalloc (num * size) s).Returns (ptr, s')) (nonnull : ptr ≠ 0) :
    (kcalloc num size s).Returns (ptr, { s' with mem := s'.mem.fill ptr (num * size).toNat 0 }) := by
  refine (ends_bind_of_returns _ _ _ _ returned).mpr ?_
  simp only [if_neg nonnull]
  exact (ends_bind_of_returns _ _ _ _ (Str.memset_returns ptr 0 (num * size) s'.mem)).mpr ((ends_pure _ _).mpr rfl)

end Calls

section Clearing

variable {base stop : Nat} {s s' : Heap} {bs pre post : List Block} {b c taken : Block} {num size : Word}

theorem carve_within (size : Word) (member : taken ∈ b.carve size) (used : taken.used) (free : b.allocated = false)
    (room : 20 ≤ b.size.toNat) : taken.size.toNat ≤ b.size.toNat := by
  unfold Block.carve at member
  split at member
  · rw [List.mem_singleton.mp member]
    exact Nat.le_refl _
  · rename_i cut
    obtain ⟨-, high⟩ := cuttable_bounds b _ room (not_not.mp (not_or.mp cut).2)
    rcases List.mem_pair.mp member with rfl | rfl
    · exact Nat.le_of_add_right_le high
    · exact absurd used (not_used _ free)

theorem payload_off_headers (layout : Layout base stop bs) (member : c ∈ bs) (i : Nat) (inside : i + 20 < c.size.toNat) :
    OffHeaders bs (c.payload + BitVec.ofNat 32 i) := by
  intro h here
  obtain ⟨d, member', rfl⟩ := List.mem_map.mp here
  have near : (c.payload + BitVec.ofNat 32 i - c.payload).toNat = i := by
    have bound := c.size.isLt
    bv_omega
  refine Nat.le_of_not_lt (fun header => ?_)
  have clear := layout.payload_clear c d member member' (i + 1) (by omega) _ header
  omega

theorem payload_apart (layout : Layout base stop bs) (left : b ∈ bs) (right : c ∈ bs) (different : b ≠ c) (n i : Nat)
    (room : n + 20 ≤ b.size.toNat) (inside : i + 20 < c.size.toNat) : n ≤ (c.payload + BitVec.ofNat 32 i - b.payload).toNat := by
  have bound := layout.bound
  have here := layout.bounds left
  have there := layout.bounds right
  have apart := tiles_disjoint bs base stop layout.tiles b c left right different
  simp only [Block.start, Block.stop, Block.payload, headerSize] at apart ⊢
  rcases apart with before | behind <;> bv_omega

theorem header_of_filled (m : Mem) (h n value : Word) (magic : load (m.fill (h + headerSize) n.toNat 0) h .magic = HEAP_MAGIC)
    (size : load (m.fill (h + headerSize) n.toNat 0) h .size = value) : load m h .size = value := by
  by_cases short : n.toNat + 20 ≤ 2 ^ 32
  · rw [← size]
    refine (read_congr m _ _ (fun x near => fill_outside _ _ _ _ _ ?_)).symm
    simp only [Field.offset, headerSize] at near ⊢
    bv_omega
  · -- A run around the address space clears the magic.
    have first : m.fill (h + headerSize) n.toNat 0 (h + Field.magic.offset) = 0 := by
      refine fill_inside _ _ _ _ _ ?_
      simp only [Field.offset, headerSize]
      bv_omega
    have low := read_low (m.fill (h + headerSize) n.toNat 0) (h + Field.magic.offset)
    rw [first, show Mem.read _ _ = HEAP_MAGIC from magic] at low
    exact absurd low (by decide)

theorem cleared_iff (wf : WellFormed base stop s (pre ++ b :: post))
    (allocates : Allocates base stop s (pre ++ b :: post) (num * size) false b.payload s' pre post b) :
    Cleared base stop s (pre ++ b :: post) num size b.payload { s' with mem := s'.mem.fill b.payload (num * size).toNat 0 } ↔
      num.toNat * size.toNat + headerSize.toNat ≤ b.size.toNat := by
  have free := allocates.fit.1
  have room := (wf.bounds (b := b) (by simp)).2.1
  obtain ⟨lead, taken, rest, placed, shape, sized⟩ := place_taken false (num * size) b free room (by simp)
  have member : taken ∈ b.carve (roundSize (num * size)) := by
    change taken ∈ b.place false _
    simp [placed]
  have within := carve_within _ member shape.used free room
  have own : taken.addr = b.addr := payload_inj taken b shape.payload
  have after := allocates.after
  rw [placed] at after
  have inside : taken ∈ pre ++ ((lead ++ taken :: rest) ++ post) := by simp
  constructor
  · rintro ⟨⟨cs, list, c, there, -, same, large⟩, -, -⟩
    have addr : c.addr = b.addr := payload_inj c b same
    obtain ⟨before, behind, rfl⟩ := List.append_of_mem there
    obtain ⟨front, back, shape'⟩ := List.append_of_mem inside
    have now := list.header
    rw [shape'] at after
    have old := after.header
    have magic := now.magic
    have size' := now.size
    rw [addr] at magic size'
    have size'' := header_of_filled s'.mem b.addr (num * size) c.size magic size'
    have same : c.size = taken.size := by rw [← size'', ← own, old.size]
    rw [same] at large
    exact Nat.le_trans large within
  · intro large
    have bound := b.size.isLt
    have product : (num * size).toNat = num.toNat * size.toNat := by
      rw [BitVec.toNat_mul]
      exact Nat.mod_eq_of_lt (by omega)
    have kept : (num * size).toNat + 20 ≤ taken.size.toNat := by
      refine sized.mpr ?_
      rw [product]
      exact large
    have payload : taken.payload = b.payload := shape.payload
    have clear (x : Word) (d : Block) (there : d ∈ pre ++ ((lead ++ taken :: rest) ++ post)) (near : (x - d.addr).toNat < 20) :
        s'.mem.fill b.payload (num * size).toNat 0 x = s'.mem x := by
      refine fill_outside _ _ _ _ _ ?_
      rw [← payload]
      exact after.payload_clear taken d inside there _ kept x near
    refine ⟨⟨_, after.rewrite _ (fun d there x near => clear x d there near), taken, inside, shape.used, payload, ?_⟩,
      fun i below => ?_, fun c there used i below => ?_⟩
    · rw [← product]
      exact kept
    · have near : (b.payload + BitVec.ofNat 32 i - b.payload).toNat < (num * size).toNat := by
        rw [product]
        bv_omega
      exact fill_inside _ _ _ _ _ near
    · have still := (used_place pre post lead rest b taken c false shape free used).mpr (.inl there)
      have different : taken ≠ c := by
        rintro rfl
        have nodup := wf.toLayout.nodup
        have same := wf.addr_inj there (by simp : b ∈ pre ++ b :: post) own
        rw [same] at used
        exact not_used b free used
      have far := payload_apart after.toLayout inside still different _ i kept below
      rw [payload] at far
      have frame := allocates.frame (c.payload + BitVec.ofNat 32 i)
      rw [placed] at frame
      exact (fill_outside _ _ _ _ _ far).trans (frame (payload_off_headers after.toLayout still i below))

end Clearing

theorem kcalloc_sound_iff (base stop : Nat) (s : Heap) (bs : List Block) (num size : Word) (wf : WellFormed base stop s bs) :
    (∃ answer, (kcalloc num size s).Returns answer) ∧ (CallocSound base stop s bs num size ↔ ProductFits bs num size) := by
  -- A null pointer promises nothing.
  have null (s' : Heap) (returned : (kmalloc (num * size) s).Returns (0, s')) :
      (∃ answer, (kcalloc num size s).Returns answer) ∧ CallocSound base stop s bs num size := by
    have answer := kcalloc_of_null returned
    refine ⟨⟨_, answer⟩, fun ptr s'' other nonnull => ?_⟩
    have same := returns_unique _ _ _ answer other
    simp only [Prod.mk.injEq] at same
    exact absurd same.1.symm nonnull
  by_cases nonzero : num * size = 0
  · obtain ⟨answers, sound⟩ := null s (by rw [kmalloc, nonzero, kmalloc_int_zero]; exact (ends_pure _ _).mpr rfl)
    exact ⟨answers, iff_of_true sound (.inl nonzero)⟩
  rcases first_fit bs (roundSize (num * size)) with unfit | ⟨pre, post, b, rfl, unfit, fit⟩
  · obtain ⟨answers, sound⟩ := null s ((kmalloc_int_none wf nonzero unfit _).mpr rfl)
    refine ⟨answers, iff_of_true sound (.inr (fun pre post b shape _ fit => ?_))⟩
    exact absurd fit (unfit b (by simp [shape]))
  obtain ⟨s', returned, allocates⟩ := kmalloc_int_serves (num * size) false pre post b wf nonzero unfit fit (by simp)
  have only : ProductFits (pre ++ b :: post) num size ↔ b.payload = 0 ∨ num.toNat * size.toNat + headerSize.toNat ≤ b.size.toNat := by
    constructor
    · exact fun fits => fits.resolve_left nonzero pre post b rfl unfit fit
    · intro room
      refine .inr (fun pre' post' b' shape unfit' fit' => ?_)
      obtain rfl := first_fit_unique shape unfit fit unfit' fit'
      exact room
  rw [only]
  by_cases nothing : b.payload = 0
  · change (kmalloc (num * size) s).Returns (b.payload, s') at returned
    rw [nothing] at returned
    obtain ⟨answers, sound⟩ := null s' returned
    exact ⟨answers, iff_of_true sound (.inl nothing)⟩
  have answer := kcalloc_of_pointer returned nothing
  refine ⟨⟨_, answer⟩, ?_⟩
  rw [or_iff_right nothing, ← cleared_iff wf allocates]
  constructor
  · exact fun sound => sound _ _ answer nothing
  · intro cleared ptr s'' other nonnull
    have same := returns_unique _ _ _ answer other
    simp only [Prod.mk.injEq] at same
    obtain ⟨rfl, rfl⟩ := same
    exact cleared

section Fresh

theorem product_fits_single (b : Block) (num size : Word) (room : num.toNat * size.toNat + headerSize.toNat ≤ b.size.toNat) : ProductFits [b] num size := by
  refine .inr (fun pre post c shape _ _ => .inr ?_)
  have member : c ∈ [b] := by simp [shape]
  rw [List.mem_singleton.mp member]
  exact room

theorem kcalloc_sound_at_page : ∃ s answer, kheapInit 0xC0200000 0x1000 (fun _ => 0) = .ok s ∧
    (kcalloc 10 10 s).Returns answer ∧ Cleared 0xC0200000 0xC0201000 s [⟨0xC0200000, 0x1000, false⟩] 10 10 0xC0200014 answer.2 := by
  obtain ⟨s, init⟩ := kheap_init_ok 0xC0200000 0x1000 (fun _ => 0) (by decide)
  have wf := kheap_init_list 0xC0200000 0x1000 _ s init (by decide) (by decide)
  obtain ⟨s', returned, -⟩ := kmalloc_int_serves 100 false [] [] ⟨0xC0200000, 0x1000, false⟩ wf (by decide) (by simp) (by decide) (by simp)
  have answer : (kcalloc 10 10 s).Returns _ := kcalloc_of_pointer returned (by decide)
  have sound := (kcalloc_sound_iff _ _ s _ 10 10 wf).2.mpr (product_fits_single _ 10 10 (by decide))
  exact ⟨s, _, init, answer, sound _ _ answer (by decide)⟩

theorem kcalloc_product_wraps : ∃ s answer, kheapInit 0xC0200000 0x200000 (fun _ => 0) = .ok s ∧
    (kcalloc 0x10000 0x10001 s).Returns answer ∧ answer.1 = 0xC0200014 ∧
    ¬CallocSound 0xC0200000 0xC0400000 s [⟨0xC0200000, 0x200000, false⟩] 0x10000 0x10001 := by
  obtain ⟨s, init⟩ := kheap_init_ok 0xC0200000 0x200000 (fun _ => 0) (by decide)
  have wf := kheap_init_list 0xC0200000 0x200000 _ s init (by decide) (by decide)
  obtain ⟨s', returned, -⟩ := kmalloc_int_serves 0x10000 false [] [] ⟨0xC0200000, 0x200000, false⟩ wf (by decide) (by simp) (by decide)
    (by simp)
  have answer : (kcalloc 0x10000 0x10001 s).Returns _ := kcalloc_of_pointer returned (by decide)
  refine ⟨s, _, init, answer, rfl, fun sound => ?_⟩
  obtain ⟨cs, list, b, member, -, -, large⟩ := (sound _ _ answer (by decide)).room
  have bound := b.size.isLt
  have product : 2 ^ 32 ≤ (0x10000 : Word).toNat * (0x10001 : Word).toNat := by decide
  omega

end Fresh

end Deimos.Kalloc
