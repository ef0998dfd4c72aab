import Deimos.Kalloc.Run

set_option autoImplicit false

namespace Deimos.Kalloc

open Mem Tiling Comp Run

theorem list_of_used (base stop : Nat) (bs cs : List Block) (left : Layout base stop bs) (right : Layout base stop cs)
    (settled : Settled Block.used bs) (settled' : Settled Block.used cs) (same : ∀ z : Block, z.used → (z ∈ bs ↔ z ∈ cs)) :
    bs = cs := by
  refine settled_unique ?_ bs cs base stop left.tiles right.tiles settled settled' same
  rintro ⟨addr, size, allocated⟩ ⟨addr', size', allocated'⟩ start stop used
  simp only [Block.start, Block.stop, Block.used] at start stop used
  obtain rfl : addr = addr' := BitVec.eq_of_toNat_eq start
  obtain rfl : size = size' := BitVec.eq_of_toNat_eq (by omega)
  obtain rfl : allocated = allocated' := Bool.eq_iff_iff.mpr used
  rfl

section Safety

variable {base stop : Nat} {r : HeapRun} {bs : List Block}

theorem Safe.kfree (safe : Safe base stop r bs) (top : stop < 2 ^ 32) (ptr : Word) (live : ptr ∈ r.live.map Live.ptr) :
    ∃ s cs, kfree ptr r.heap = .ok s ∧ Safe base stop ⟨s, drop ptr r.live⟩ cs ∧
      ∀ z : Block, z.used → (z ∈ cs ↔ z ∈ bs ∧ z.payload ≠ ptr) := by
  obtain ⟨b, member, used, rfl⟩ := (safe.pointers ptr).mp live
  obtain ⟨pre, post, rfl⟩ := List.append_of_mem member
  obtain ⟨m', freed, after, _⟩ := kfree_list base stop r.heap pre post b safe.wf (safe.wf.payload_ne top member).1
  refine ⟨_, freeBlock pre b post, freed, ?_, ?_⟩
  · exact safe_step base stop 0 r _ _ _ safe top (.release pre post b rfl used after rfl)
  · intro z taken
    rw [used_free base stop pre post b z safe.wf.toLayout taken]
    constructor
    · rintro ⟨inside, other⟩
      exact ⟨inside, fun same => other (safe.wf.addr_inj inside member (payload_inj z b same))⟩
    · rintro ⟨inside, other⟩
      exact ⟨inside, fun same => other (congrArg Block.payload same)⟩

theorem Safe.kmalloc (safe : Safe base stop r bs) (top : stop < 2 ^ 32) (size ptr : Word) (align : Bool) (s : Heap)
    (returned : (kmallocInt size align r.heap).Returns (ptr, s)) :
    (ptr = 0 ∧ s = r.heap) ∨ ∃ cs, Safe base stop ⟨s, keep align size ptr r.live⟩ cs ∧
      ptr ∈ (keep align size ptr r.live).map Live.ptr ∧ ∀ z : Block, z.used → (z ∈ bs ↔ z ∈ cs ∧ z.payload ≠ ptr) := by
  rcases kmalloc_int_outcomes base stop r.heap bs size align ptr s safe.wf returned with ⟨null, same⟩ | ⟨nonzero, pre, post, b, allocates⟩
  · exact .inl ⟨null, same⟩
  · have next : Safe base stop ⟨s, keep align size ptr r.live⟩ _ :=
      safe_step base stop size.toNat r _ _ _ safe top (.take size ptr align pre post b nonzero (Nat.le_refl _) allocates rfl)
    obtain ⟨lead, taken, rest, placed, shape⟩ := place_shape align (roundSize size) b allocates.fit.1
    obtain rfl := allocates.shape
    have pointer : ptr = taken.payload := allocates.pointer.trans shape.payload.symm
    rw [placed] at next
    have inside : taken ∈ pre ++ ((lead ++ taken :: rest) ++ post) := by simp
    have nonnull : ptr ≠ 0 := pointer ▸ (next.wf.payload_ne top inside).1
    have live : ptr ∈ (keep align size ptr r.live).map Live.ptr := by
      rw [keep, if_neg nonnull]
      exact List.mem_cons_self
    have fresh : ptr ∉ r.live.map Live.ptr := by
      have distinct := next.distinct
      simp only [keep, if_neg nonnull, List.map_cons, List.nodup_cons] at distinct
      exact distinct.1
    refine .inr ⟨_, next, live, ?_⟩
    intro z used
    rw [used_place pre post lead rest b taken z align shape allocates.fit.1 used]
    constructor
    · exact fun member => ⟨.inl member, fun same => fresh ((safe.pointers ptr).mpr ⟨z, member, used, same⟩)⟩
    · rintro ⟨member | rfl, other⟩
      · exact member
      · exact absurd pointer.symm other

theorem Safe.emptied (safe : Safe base stop r bs) (empty : r.live = []) (start size : Word) (room : 20 ≤ size.toNat)
    (first : start.toNat = base) (last : start.toNat + size.toNat = stop) : bs = [⟨start, size, false⟩] := by
  subst first last
  refine list_of_used _ _ _ _ safe.wf.toLayout ⟨⟨rfl, ?_, rfl⟩, ?_, safe.wf.positive, safe.wf.bound⟩ safe.settled (.singleton _) ?_
  · simp only [Block.start, Block.stop]
    omega
  · intro b member
    obtain rfl := List.mem_singleton.mp member
    exact room
  · intro z used
    constructor
    · intro member
      have live := (safe.pointers z.payload).mpr ⟨z, member, used, rfl⟩
      simp [empty] at live
    · intro member
      obtain rfl := List.mem_singleton.mp member
      exact absurd used (not_used _ rfl)

end Safety

theorem frees_commute (base stop : Nat) (r : HeapRun) (bs : List Block) (safe : Safe base stop r bs) (top : stop < 2 ^ 32)
    (p q : Word) (first : p ∈ r.live.map Live.ptr) (second : q ∈ r.live.map Live.ptr) (different : p ≠ q) :
    ∃ s t u v cs, kfree p r.heap = .ok s ∧ kfree q s = .ok t ∧ kfree q r.heap = .ok u ∧ kfree p u = .ok v ∧
      WellFormed base stop t cs ∧ WellFormed base stop v cs := by
  have other : ∀ a b : Word, a ≠ b → b ∈ r.live.map Live.ptr → b ∈ (drop a r.live).map Live.ptr := by
    intro a b apart member
    obtain ⟨l, inside, rfl⟩ := List.mem_map.mp member
    exact List.mem_map_of_mem (List.mem_filter.mpr ⟨inside, by simpa using apart.symm⟩)
  obtain ⟨s, _, freedP, safeP, usedP⟩ := safe.kfree top p first
  obtain ⟨t, cs, freedPQ, safePQ, usedPQ⟩ := safeP.kfree top q (other p q different second)
  obtain ⟨u, _, freedQ, safeQ, usedQ⟩ := safe.kfree top q second
  obtain ⟨v, ds, freedQP, safeQP, usedQP⟩ := safeQ.kfree top p (other q p different.symm first)
  have same : cs = ds := by
    refine list_of_used base stop cs ds safePQ.wf.toLayout safeQP.wf.toLayout safePQ.settled safeQP.settled ?_
    intro z used
    rw [usedPQ z used, usedP z used, usedQP z used, usedQ z used]
    tauto
  exact ⟨s, t, u, v, cs, freedP, freedPQ, freedQ, freedQP, safePQ.wf, same ▸ safeQP.wf⟩

theorem kfree_kmalloc (base stop : Nat) (r : HeapRun) (bs : List Block) (safe : Safe base stop r bs) (top : stop < 2 ^ 32)
    (size ptr : Word) (align : Bool) (s : Heap) (returned : (kmallocInt size align r.heap).Returns (ptr, s)) :
    ∃ t, kfree ptr s = .ok t ∧ WellFormed base stop t bs := by
  rcases safe.kmalloc top size ptr align s returned with ⟨rfl, rfl⟩ | ⟨cs, next, live, grown⟩
  · exact ⟨r.heap, kfree_null r.heap, safe.wf⟩
  · obtain ⟨t, ds, freed, back, shrunk⟩ := next.kfree top ptr live
    have same : ds = bs := by
      refine list_of_used base stop ds bs back.wf.toLayout safe.wf.toLayout back.settled safe.settled ?_
      intro z used
      rw [shrunk z used, grown z used]
    exact ⟨t, freed, same ▸ back.wf⟩

structure Defragmented (start size : Word) (s : Heap) : Prop where
  settled : ∀ r, Runs size.toNat s r → ∃ bs, WellFormed start.toNat (start.toNat + size.toNat) r.heap bs ∧
    Settled Block.used bs ∧
    (∀ p q, (∃ b ∈ bs, ¬ b.used ∧ b.start = p ∧ b.stop = q) ↔
      MaximalGap Block.start Block.stop Block.used start.toNat (start.toNat + size.toNat) bs p q) ∧
    (r.live = [] → bs = [⟨start, size, false⟩])
  unique : ∀ r r' bs bs', Runs size.toNat s r → Runs size.toNat s r' →
    WellFormed start.toNat (start.toNat + size.toNat) r.heap bs → WellFormed start.toNat (start.toNat + size.toNat) r'.heap bs' →
    (∀ z : Block, z.used → (z ∈ bs ↔ z ∈ bs')) → bs = bs'
  commute : ∀ r p q, Runs size.toNat s r → p ∈ r.live.map Live.ptr → q ∈ r.live.map Live.ptr → p ≠ q →
    ∃ t u v w bs, kfree p r.heap = .ok t ∧ kfree q t = .ok u ∧ kfree q r.heap = .ok v ∧ kfree p v = .ok w ∧
      WellFormed start.toNat (start.toNat + size.toNat) u bs ∧ WellFormed start.toNat (start.toNat + size.toNat) w bs
  restore : ∀ r n align ptr t, Runs size.toNat s r → n.toNat ≤ size.toNat → (kmallocInt n align r.heap).Returns (ptr, t) →
    ∃ u bs, kfree ptr t = .ok u ∧ WellFormed start.toNat (start.toNat + size.toNat) r.heap bs ∧
      WellFormed start.toNat (start.toNat + size.toNat) u bs

theorem heap_defragmented (start size : Word) (m : Mem) (s : Heap) (init : kheapInit start size m = .ok s)
    (room : 20 ≤ size.toNat) (top : start.toNat + size.toNat < 2 ^ 32) : Defragmented start size s where
  settled r run := by
    obtain ⟨bs, safe⟩ := safe_of_runs start size m s r init room top _ run
    exact ⟨bs, safe.wf, safe.settled, fun p q => free_iff_gap bs _ _ p q safe.wf.tiles safe.settled,
      fun empty => safe.emptied empty start size room rfl rfl⟩
  unique r r' bs bs' run run' list list' same := by
    obtain ⟨cs, safe⟩ := safe_of_runs start size m s r init room top _ run
    obtain ⟨cs', safe'⟩ := safe_of_runs start size m s r' init room top _ run'
    obtain rfl := well_formed_unique _ _ r.heap bs cs list safe.wf
    obtain rfl := well_formed_unique _ _ r'.heap bs' cs' list' safe'.wf
    exact list_of_used _ _ bs bs' list.toLayout list'.toLayout safe.settled safe'.settled same
  commute r p q run first second different := by
    obtain ⟨bs, safe⟩ := safe_of_runs start size m s r init room top _ run
    exact frees_commute _ _ r bs safe top p q first second different
  restore r n align ptr t run small returned := by
    obtain ⟨bs, safe⟩ := safe_of_runs start size m s r init room top _ run
    obtain ⟨u, freed, list⟩ := kfree_kmalloc _ _ r bs safe top n ptr align t returned
    exact ⟨u, bs, freed, safe.wf, list⟩

theorem heap_defragmented_at_page : ∃ s, kheapInit 0xC0200000 0x1000 (fun _ => 0) = .ok s ∧ Defragmented 0xC0200000 0x1000 s := by
  obtain ⟨s, init⟩ := kheap_init_ok 0xC0200000 0x1000 (fun _ => 0) (by decide)
  exact ⟨s, init, heap_defragmented 0xC0200000 0x1000 _ s init (by decide) (by decide)⟩

end Deimos.Kalloc
