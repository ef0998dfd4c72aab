import Deimos.Kalloc.Place

set_option autoImplicit false

namespace Deimos.Kalloc

open Mem Tiling Comp

-- The size that is searched for. Short of the top of the address space it is
-- the request and at most 3 bytes more.
section Rounding

variable (size : Word)

theorem round_size_mod : (roundSize size).toNat = (size.toNat + size.toNat % 4) % 2 ^ 32 := by
  rw [roundSize, BitVec.toNat_add, BitVec.toNat_umod]
  rfl

theorem round_size_to_nat (small : size.toNat + size.toNat % 4 < 2 ^ 32) : (roundSize size).toNat = size.toNat + size.toNat % 4 := by
  rw [round_size_mod, Nat.mod_eq_of_lt small]

theorem round_size_bounds (small : size.toNat + 3 < 2 ^ 32) :
    size.toNat ≤ (roundSize size).toNat ∧ (roundSize size).toNat ≤ size.toNat + 3 := by
  have value := round_size_to_nat size (by omega)
  omega

end Rounding

structure WellFormed (base stop : Nat) (s : Heap) (bs : List Block) : Prop extends HeapList s.mem base stop bs where
  head : s.kheap = headOr 0 bs
  nonempty : bs ≠ []

theorem WellFormed.kheap_ne {base stop : Nat} {s : Heap} {bs : List Block} (wf : WellFormed base stop s bs) :
    s.kheap ≠ 0 := by
  cases bs with
  | nil => exact absurd rfl wf.nonempty
  | cons b rest => exact fun zero => wf.addr_ne (b := b) (by simp) (wf.head.symm.trans zero)

theorem search_body_end (m : Mem) (size : Word) (align : Bool) : searchBody m size align 0 = .ok (.done (m, 0)) := if_pos rfl

theorem search_body_skip (m : Mem) (b : Block) (prev next size : Word) (align : Bool) (header : HeaderIs m b prev next)
    (nonnull : b.addr ≠ 0) (unfit : ¬ b.Fits size) : searchBody m size align b.addr = .ok (.next next) := by
  have small : ¬ Fits m size b.addr := fun fit => unfit ((fits_iff m b prev next size header).mp fit)
  rw [searchBody, if_neg nonnull, if_neg (not_not.mpr header.magic), if_neg small, header.next]

theorem search_body_fit (m : Mem) (b : Block) (prev next size : Word) (align : Bool) (header : HeaderIs m b prev next)
    (nonnull : b.addr ≠ 0) (fit : b.Fits size) :
    searchBody m size align b.addr =
      if align then
        if b.Stuck size then .ok (.next b.addr) else (takeAligned m size b.addr).map .done
      else .ok (.done (takeUnaligned m size b.addr)) := by
  have large : Fits m size b.addr := (fits_iff m b prev next size header).mpr fit
  rw [searchBody, if_neg nonnull, if_neg (not_not.mpr header.magic), if_pos large, header.size]
  cases align with
  | false => rfl
  | true =>
      by_cases tight : alignedAddr b.addr - b.addr < headerSize
      · simp only [Block.Stuck, tight, true_or, if_true]
      · by_cases beyond : alignedAddr b.addr + size > b.addr + b.size
        · simp only [Block.Stuck, tight, beyond, or_true, if_true, if_false]
        · simp only [Block.Stuck, tight, beyond, or_self, if_true, if_false]

theorem search_skip (m : Mem) (size : Word) (align : Bool) (pre post : List Block) (prev : Word)
    (linked : Linked m prev (pre ++ post) 0) (nonnull : ∀ c ∈ pre, c.addr ≠ 0) (unfit : ∀ c ∈ pre, ¬ c.Fits size)
    (result : Except Stop (Mem × Word)) :
    (loop (searchBody m size align) (headOr 0 (pre ++ post))).Ends result ↔
      (loop (searchBody m size align) (headOr 0 post)).Ends result := by
  induction pre generalizing prev with
  | nil => rfl
  | cons c pre ih =>
      obtain ⟨header, rest⟩ := linked
      have pass := search_body_skip m c prev _ size align header (nonnull c List.mem_cons_self) (unfit c List.mem_cons_self)
      rw [List.cons_append, headOr, ends_loop_next _ _ _ _ pass]
      exact ih c.addr rest (fun d member => nonnull d (List.mem_cons_of_mem c member))
        (fun d member => unfit d (List.mem_cons_of_mem c member))

theorem kmalloc_int_zero (align : Bool) (s : Heap) : kmallocInt 0 align s = pure (0, s) := if_pos rfl

section Outcomes

variable {base stop : Nat} {s : Heap} {bs : List Block} {size : Word} {align : Bool}

theorem kmalloc_int_loop (wf : WellFormed base stop s bs) (nonzero : size ≠ 0) :
    kmallocInt size align s = (do
      let (m, ptr) ← loop (searchBody s.mem (roundSize size) align) (headOr 0 bs)
      pure (ptr, { s with mem := m })) := by
  rw [kmallocInt, if_neg nonzero, if_neg wf.kheap_ne, wf.head]

theorem kmalloc_int_none (wf : WellFormed base stop s bs) (nonzero : size ≠ 0)
    (unfit : ∀ c ∈ bs, ¬ c.Fits (roundSize size)) (result : Except Stop (Word × Heap)) :
    (kmallocInt size align s).Ends result ↔ result = .ok (0, s) := by
  have search : (loop (searchBody s.mem (roundSize size) align) (headOr 0 bs)).Returns (s.mem, 0) := by
    have skipped := search_skip s.mem (roundSize size) align bs [] 0 (by simpa using wf.linked)
      (fun c member => wf.addr_ne member) unfit (.ok (s.mem, 0))
    rw [List.append_nil] at skipped
    exact skipped.mpr ((ends_loop_done _ _ _ _ (search_body_end s.mem _ align)).mpr rfl)
  rw [kmalloc_int_loop wf nonzero, ends_bind_of_returns _ _ _ _ search, ends_pure]

variable {pre post : List Block} {b : Block}

theorem kmalloc_int_search (wf : WellFormed base stop s (pre ++ b :: post))
    (unfit : ∀ c ∈ pre, ¬ c.Fits (roundSize size)) (result : Except Stop (Mem × Word)) :
    (loop (searchBody s.mem (roundSize size) align) (headOr 0 (pre ++ b :: post))).Ends result ↔
      (loop (searchBody s.mem (roundSize size) align) b.addr).Ends result :=
  search_skip s.mem (roundSize size) align pre (b :: post) 0 wf.linked (fun c member => wf.addr_ne (by simp [member])) unfit result

theorem kmalloc_int_unaligned (wf : WellFormed base stop s (pre ++ b :: post)) (nonzero : size ≠ 0)
    (unfit : ∀ c ∈ pre, ¬ c.Fits (roundSize size)) (fit : b.Fits (roundSize size)) (result : Except Stop (Word × Heap)) :
    (kmallocInt size false s).Ends result ↔
      result = .ok (b.payload, { s with mem := (takeUnaligned s.mem (roundSize size) b.addr).1 }) := by
  have pass := search_body_fit s.mem b _ _ (roundSize size) false wf.header (wf.addr_ne (by simp)) fit
  have search : (loop (searchBody s.mem (roundSize size) false) (headOr 0 (pre ++ b :: post))).Returns
      (takeUnaligned s.mem (roundSize size) b.addr) :=
    (kmalloc_int_search wf unfit _).mpr ((ends_loop_done _ _ _ _ pass).mpr rfl)
  rw [kmalloc_int_loop wf nonzero, ends_bind_of_returns _ _ _ _ search, ends_pure,
    (take_unaligned_list s.mem base stop pre post b (roundSize size) wf.toHeapList).1]

theorem kmalloc_int_stuck (wf : WellFormed base stop s (pre ++ b :: post)) (nonzero : size ≠ 0)
    (unfit : ∀ c ∈ pre, ¬ c.Fits (roundSize size)) (fit : b.Fits (roundSize size)) (stuck : b.Stuck (roundSize size)) :
    (kmallocInt size true s).Diverges := by
  have pass : searchBody s.mem (roundSize size) true b.addr = .ok (.next b.addr) := by
    rw [search_body_fit s.mem b _ _ (roundSize size) true wf.header (wf.addr_ne (by simp)) fit, if_pos rfl, if_pos stuck]
  have spins := loop_diverges (searchBody s.mem (roundSize size) true) (· = b.addr)
    (fun state here => ⟨b.addr, here ▸ pass, rfl⟩) b.addr rfl
  rw [diverges_iff] at spins ⊢
  intro result ended
  rw [kmalloc_int_loop wf nonzero, ends_bind] at ended
  rcases ended with ⟨value, returned, _⟩ | ⟨stop, stopped, _⟩
  · exact spins _ ((kmalloc_int_search wf unfit _).mp returned)
  · exact spins _ ((kmalloc_int_search wf unfit _).mp stopped)

theorem kmalloc_int_fault (wf : WellFormed base stop s (pre ++ b :: post)) (nonzero : size ≠ 0)
    (unfit : ∀ c ∈ pre, ¬ c.Fits (roundSize size)) (fit : b.Fits (roundSize size)) (loose : ¬ b.Stuck (roundSize size))
    (refused : ¬ b.Splits (roundSize size)) : (kmallocInt size true s).Ends (.error .fault) := by
  have pass : searchBody s.mem (roundSize size) true b.addr = .error .fault := by
    rw [search_body_fit s.mem b _ _ (roundSize size) true wf.header (wf.addr_ne (by simp)) fit, if_pos rfl, if_neg loose,
      take_aligned_fault s.mem base stop pre post b _ wf.toHeapList refused]
    rfl
  rw [kmalloc_int_loop wf nonzero, ends_bind]
  exact .inr ⟨.fault, (kmalloc_int_search wf unfit _).mpr ((ends_loop_error _ _ _ _ pass).mpr rfl), rfl⟩

theorem kmalloc_int_aligned (wf : WellFormed base stop s (pre ++ b :: post)) (nonzero : size ≠ 0)
    (unfit : ∀ c ∈ pre, ¬ c.Fits (roundSize size)) (fit : b.Fits (roundSize size)) (loose : ¬ b.Stuck (roundSize size))
    (m' : Mem) (ptr : Word) (taken : takeAligned s.mem (roundSize size) b.addr = .ok (m', ptr)) (result : Except Stop (Word × Heap)) :
    (kmallocInt size true s).Ends result ↔ result = .ok (ptr, { s with mem := m' }) := by
  have pass : searchBody s.mem (roundSize size) true b.addr = .ok (.done (m', ptr)) := by
    rw [search_body_fit s.mem b _ _ (roundSize size) true wf.header (wf.addr_ne (by simp)) fit, if_pos rfl, if_neg loose, taken]
    rfl
  have search : (loop (searchBody s.mem (roundSize size) true) (headOr 0 (pre ++ b :: post))).Returns (m', ptr) :=
    (kmalloc_int_search wf unfit _).mpr ((ends_loop_done _ _ _ _ pass).mpr rfl)
  rw [kmalloc_int_loop wf nonzero, ends_bind_of_returns _ _ _ _ search, ends_pure]

end Outcomes

theorem Layout.head_eq {base stop : Nat} {bs cs : List Block} (left : Layout base stop bs) (right : Layout base stop cs)
    (nonempty : bs ≠ []) (other : cs ≠ []) : headOr 0 bs = headOr 0 cs := by
  cases bs with
  | nil => exact absurd rfl nonempty
  | cons b bs =>
      cases cs with
      | nil => exact absurd rfl other
      | cons c cs =>
          have start : b.start = base := left.tiles.1
          have start' : c.start = base := right.tiles.1
          exact BitVec.eq_of_toNat_eq (start.trans start'.symm)

theorem WellFormed.update {base stop : Nat} {s : Heap} {bs cs : List Block} {m : Mem} (wf : WellFormed base stop s bs)
    (list : HeapList m base stop cs) (nonempty : cs ≠ []) : WellFormed base stop { s with mem := m } cs :=
  ⟨list, wf.head.trans (wf.toLayout.head_eq list.toLayout wf.nonempty nonempty), nonempty⟩

def Block.pointer (align : Bool) (b : Block) : Word := if align then alignedAddr b.addr else b.payload

def Block.place (align : Bool) (size : Word) (b : Block) : List Block := if align then b.carveAligned size else b.carve size

theorem place_ne_nil (align : Bool) (size : Word) (b : Block) (post : List Block) : b.place align size ++ post ≠ [] := by
  cases align <;> simp only [Block.place, Block.carve, Block.carveAligned, if_true, if_false, Bool.false_eq_true] <;>
    split_ifs <;> simp

structure Allocates (base stop : Nat) (s : Heap) (bs : List Block) (size : Word) (align : Bool) (ptr : Word) (s' : Heap)
    (pre post : List Block) (b : Block) : Prop where
  shape : bs = pre ++ b :: post
  unfit : ∀ c ∈ pre, ¬ c.Fits (roundSize size)
  fit : b.Fits (roundSize size)
  room : align = true → ¬ b.Stuck (roundSize size) ∧ b.Splits (roundSize size)
  pointer : ptr = b.pointer align
  after : WellFormed base stop s' (pre ++ (b.place align (roundSize size) ++ post))
  frame : ∀ x, OffHeaders (pre ++ (b.place align (roundSize size) ++ post)) x → s'.mem x = s.mem x

section Serving

variable {base stop : Nat} {s : Heap} (size : Word) (align : Bool) (pre post : List Block) (b : Block)

theorem kmalloc_int_serves (wf : WellFormed base stop s (pre ++ b :: post)) (nonzero : size ≠ 0)
    (unfit : ∀ c ∈ pre, ¬ c.Fits (roundSize size)) (fit : b.Fits (roundSize size))
    (room : align = true → ¬ b.Stuck (roundSize size) ∧ b.Splits (roundSize size)) :
    ∃ s', (kmallocInt size align s).Returns (b.pointer align, s') ∧
      Allocates base stop s (pre ++ b :: post) size align (b.pointer align) s' pre post b := by
  cases align with
  | false =>
      obtain ⟨_, list, frame⟩ := take_unaligned_list s.mem base stop pre post b (roundSize size) wf.toHeapList
      exact ⟨_, (kmalloc_int_unaligned wf nonzero unfit fit _).mpr rfl, rfl, unfit, fit, room, rfl,
        wf.update list (List.append_ne_nil_of_right_ne_nil _ (place_ne_nil false _ b post)), frame⟩
  | true =>
      obtain ⟨m', taken, list, frame⟩ := take_aligned_list s.mem base stop pre post b (roundSize size) wf.toHeapList (room rfl).2
      exact ⟨_, (kmalloc_int_aligned wf nonzero unfit fit (room rfl).1 m' _ taken _).mpr rfl, rfl, unfit, fit, room, rfl,
        wf.update list (List.append_ne_nil_of_right_ne_nil _ (place_ne_nil true _ b post)), frame⟩

theorem kmalloc_int_room (wf : WellFormed base stop s (pre ++ b :: post)) (nonzero : size ≠ 0)
    (unfit : ∀ c ∈ pre, ¬ c.Fits (roundSize size)) (fit : b.Fits (roundSize size)) (answer : Word × Heap)
    (returned : (kmallocInt size align s).Returns answer) (aligned : align = true) :
    ¬ b.Stuck (roundSize size) ∧ b.Splits (roundSize size) := by
  subst aligned
  have loose : ¬ b.Stuck (roundSize size) := fun stuck =>
    (diverges_iff _).mp (kmalloc_int_stuck wf nonzero unfit fit stuck) _ returned
  refine ⟨loose, ?_⟩
  by_contra refused
  exact absurd (ends_unique _ _ _ returned (kmalloc_int_fault wf nonzero unfit fit loose refused)) (by simp)

end Serving

theorem first_fit (bs : List Block) (size : Word) :
    (∀ c ∈ bs, ¬ c.Fits size) ∨ ∃ pre post b, bs = pre ++ b :: post ∧ (∀ c ∈ pre, ¬ c.Fits size) ∧ b.Fits size := by
  cases found : bs.find? (fun c => decide (c.Fits size)) with
  | none => exact .inl (by simpa using List.find?_eq_none.mp found)
  | some b =>
      obtain ⟨fit, pre, post, rfl, unfit⟩ := List.find?_eq_some_iff_append.mp found
      simp only [decide_eq_true_eq] at fit
      simp only [Bool.not_eq_true', decide_eq_false_iff_not] at unfit
      exact .inr ⟨pre, post, b, rfl, unfit, fit⟩

theorem kmalloc_int_returns (base stop : Nat) (s : Heap) (bs : List Block) (size : Word) (align : Bool) (ptr : Word) (s' : Heap)
    (wf : WellFormed base stop s bs) (nonzero : size ≠ 0) (returned : (kmallocInt size align s).Returns (ptr, s')) :
    (ptr = 0 ∧ s' = s ∧ ∀ c ∈ bs, ¬ c.Fits (roundSize size)) ∨
      ∃ pre post b, Allocates base stop s bs size align ptr s' pre post b := by
  rcases first_fit bs (roundSize size) with unfit | ⟨pre, post, b, rfl, unfit, fit⟩
  · have same := (kmalloc_int_none wf nonzero unfit _).mp returned
    simp only [Except.ok.injEq, Prod.mk.injEq] at same
    exact .inl ⟨same.1, same.2, unfit⟩
  · have room := kmalloc_int_room size align pre post b wf nonzero unfit fit _ returned
    obtain ⟨s'', served, allocates⟩ := kmalloc_int_serves size align pre post b wf nonzero unfit fit room
    have same := returns_unique _ _ _ served returned
    simp only [Prod.mk.injEq] at same
    obtain ⟨rfl, rfl⟩ := same
    exact .inr ⟨pre, post, b, allocates⟩

theorem kmalloc_int_outcomes (base stop : Nat) (s : Heap) (bs : List Block) (size : Word) (align : Bool) (ptr : Word) (s' : Heap)
    (wf : WellFormed base stop s bs) (returned : (kmallocInt size align s).Returns (ptr, s')) :
    (ptr = 0 ∧ s' = s) ∨ (size ≠ 0 ∧ ∃ pre post b, Allocates base stop s bs size align ptr s' pre post b) := by
  by_cases nonzero : size = 0
  · rw [nonzero, kmalloc_int_zero] at returned
    have same := (ends_pure _ _).mp returned
    simp only [Except.ok.injEq, Prod.mk.injEq] at same
    exact .inl same
  · rcases kmalloc_int_returns base stop s bs size align ptr s' wf nonzero returned with ⟨null, same, -⟩ | served
    · exact .inl ⟨null, same⟩
    · exact .inr ⟨nonzero, served⟩

-- When an aligned request gets an answer: the first block that is large
-- enough has room for it at its page-aligned address.
def Served (bs : List Block) (size : Word) (align : Bool) : Prop :=
  align = true → size ≠ 0 → ∀ pre post b, bs = pre ++ b :: post → (∀ c ∈ pre, ¬ c.Fits (roundSize size)) →
    b.Fits (roundSize size) → ¬ b.Stuck (roundSize size) ∧ b.Splits (roundSize size)

theorem kmalloc_int_returns_iff_served (base stop : Nat) (s : Heap) (bs : List Block) (size : Word) (align : Bool)
    (wf : WellFormed base stop s bs) :
    (∃ ptr s', (kmallocInt size align s).Returns (ptr, s')) ↔ Served bs size align := by
  constructor
  · rintro ⟨ptr, s', returned⟩ aligned nonzero pre post b rfl unfit fit
    exact kmalloc_int_room size align pre post b wf nonzero unfit fit _ returned aligned
  · intro served
    by_cases nonzero : size = 0
    · exact ⟨0, s, by rw [nonzero, kmalloc_int_zero]; exact (ends_pure _ _).mpr rfl⟩
    · rcases first_fit bs (roundSize size) with unfit | ⟨pre, post, b, rfl, unfit, fit⟩
      · exact ⟨0, s, (kmalloc_int_none wf nonzero unfit _).mpr rfl⟩
      · have room := fun aligned => served aligned nonzero pre post b rfl unfit fit
        obtain ⟨s', returned, _⟩ := kmalloc_int_serves size align pre post b wf nonzero unfit fit room
        exact ⟨_, s', returned⟩

end Deimos.Kalloc
