import Deimos.Lib.Run
import Deimos.Kalloc.Free
import Deimos.Kalloc.Settled

set_option autoImplicit false

namespace Deimos.Kalloc

open Mem Tiling Comp Run

-- A pointer that was returned and not yet freed, with what was asked for.
structure Live where
  ptr : Word
  size : Word
  aligned : Bool
deriving DecidableEq, Repr

structure HeapRun where
  heap : Heap
  live : List Live

def keep (align : Bool) (size ptr : Word) (live : List Live) : List Live :=
  if ptr = 0 then live else ⟨ptr, size, align⟩ :: live

def drop (ptr : Word) (live : List Live) : List Live := live.filter (fun l => l.ptr ≠ ptr)

-- One call. Requests are at most limit bytes, every call returns, and kfree
-- is given 0 or a live pointer.
inductive Step (limit : Nat) : HeapRun → HeapRun → Prop
  | kmalloc (r : HeapRun) (size ptr : Word) (s : Heap) (small : size.toNat ≤ limit)
      (returned : (kmalloc size r.heap).Returns (ptr, s)) : Step limit r ⟨s, keep false size ptr r.live⟩
  | kmallocA (r : HeapRun) (size ptr : Word) (s : Heap) (small : size.toNat ≤ limit)
      (returned : (kmallocA size r.heap).Returns (ptr, s)) : Step limit r ⟨s, keep true size ptr r.live⟩
  | kfree (r : HeapRun) (ptr : Word) (s : Heap) (known : ptr = 0 ∨ ptr ∈ r.live.map Live.ptr)
      (returned : kfree ptr r.heap = .ok s) : Step limit r ⟨s, drop ptr r.live⟩

def HeapRun.initial (s : Heap) : HeapRun := ⟨s, []⟩

def Runs (limit : Nat) (s : Heap) (r : HeapRun) : Prop := Reaches (Step limit) (.initial s) r

structure Safe (base stop : Nat) (r : HeapRun) (bs : List Block) : Prop where
  wf : WellFormed base stop r.heap bs
  settled : Settled Block.used bs
  pointers : ∀ ptr, ptr ∈ r.live.map Live.ptr ↔ ∃ b ∈ bs, b.used ∧ b.payload = ptr
  distinct : (r.live.map Live.ptr).Nodup

theorem Layout.payload_ne {base stop : Nat} {bs : List Block} (layout : Layout base stop bs) (top : stop < 2 ^ 32) {b : Block}
    (member : b ∈ bs) : b.payload ≠ 0 ∧ b.payload.toNat = b.addr.toNat + 20 := by
  have bounds := layout.bounds member
  have positive := layout.positive
  simp only [Block.payload, headerSize]
  constructor <;> bv_omega

theorem Layout.nodup {base stop : Nat} {bs : List Block} (layout : Layout base stop bs) : bs.Nodup := by
  refine (tiles_pairwise bs base stop layout.tiles).imp_of_mem ?_
  rintro b c first _ before rfl
  have bounds := layout.bounds first
  simp only [Block.start, Block.stop] at before
  omega

theorem Layout.addr_inj {base stop : Nat} {bs : List Block} (layout : Layout base stop bs) {b c : Block} (first : b ∈ bs)
    (second : c ∈ bs) (same : b.addr = c.addr) : b = c := by
  by_contra different
  have left := layout.bounds first
  have right := layout.bounds second
  have apart := tiles_disjoint bs base stop layout.tiles b c first second different
  simp only [Block.start, Block.stop, same] at apart left
  omega

theorem payload_inj (b c : Block) (same : b.payload = c.payload) : b.addr = c.addr := by
  simp only [Block.payload] at same
  bv_omega

inductive Moves (base stop limit : Nat) (r : HeapRun) (bs : List Block) (r' : HeapRun) : List Block → Prop
  | idle (same : r' = r) : Moves base stop limit r bs r' bs
  | take (size ptr : Word) (align : Bool) (pre post : List Block) (b : Block) (nonzero : size ≠ 0) (small : size.toNat ≤ limit)
      (allocates : Allocates base stop r.heap bs size align ptr r'.heap pre post b)
      (live : r'.live = keep align size ptr r.live) :
      Moves base stop limit r bs r' (pre ++ (b.place align (roundSize size) ++ post))
  | release (pre post : List Block) (b : Block) (shape : bs = pre ++ b :: post) (used : b.used)
      (after : WellFormed base stop r'.heap (freeBlock pre b post)) (live : r'.live = drop b.payload r.live) :
      Moves base stop limit r bs r' (freeBlock pre b post)

theorem moves_alloc (base stop limit : Nat) (r : HeapRun) (bs : List Block) (safe : Safe base stop r bs) (size ptr : Word)
    (align : Bool) (s : Heap) (small : size.toNat ≤ limit) (returned : (kmallocInt size align r.heap).Returns (ptr, s)) :
    ∃ bs', Moves base stop limit r bs ⟨s, keep align size ptr r.live⟩ bs' := by
  rcases kmalloc_int_outcomes base stop r.heap bs size align ptr s safe.wf returned with ⟨rfl, rfl⟩ | ⟨nonzero, pre, post, b, allocates⟩
  · exact ⟨bs, .idle rfl⟩
  · exact ⟨_, .take size ptr align pre post b nonzero small allocates rfl⟩

theorem drop_null (live : List Live) (nonnull : (0 : Word) ∉ live.map Live.ptr) : drop 0 live = live := by
  refine List.filter_eq_self.mpr (fun l member => ?_)
  simp only [ne_eq, decide_not, Bool.not_eq_true', decide_eq_false_iff_not]
  exact fun zero => nonnull (zero ▸ List.mem_map_of_mem member)

theorem Safe.null_not_live {base stop : Nat} {r : HeapRun} {bs : List Block} (safe : Safe base stop r bs) (top : stop < 2 ^ 32) :
    (0 : Word) ∉ r.live.map Live.ptr := by
  intro member
  obtain ⟨b, inside, _, null⟩ := (safe.pointers 0).mp member
  exact (safe.wf.payload_ne top inside).1 null

theorem moves_of_step (base stop limit : Nat) (r r' : HeapRun) (bs : List Block) (safe : Safe base stop r bs) (top : stop < 2 ^ 32)
    (step : Step limit r r') : ∃ bs', Moves base stop limit r bs r' bs' := by
  cases step with
  | kmalloc size ptr s small returned => exact moves_alloc base stop limit r bs safe size ptr false s small returned
  | kmallocA size ptr s small returned => exact moves_alloc base stop limit r bs safe size ptr true s small returned
  | kfree ptr s known returned =>
      rcases known with rfl | live
      · rw [kfree_null] at returned
        obtain rfl := Except.ok.inj returned
        exact ⟨bs, .idle (by rw [drop_null _ (safe.null_not_live top)])⟩
      · obtain ⟨b, member, used, rfl⟩ := (safe.pointers ptr).mp live
        obtain ⟨pre, post, rfl⟩ := List.append_of_mem member
        obtain ⟨m', freed, after, _⟩ := kfree_list base stop r.heap pre post b safe.wf (safe.wf.payload_ne top member).1
        obtain rfl := Except.ok.inj (freed.symm.trans returned)
        exact ⟨_, .release pre post b rfl used after rfl⟩

theorem safe_step (base stop limit : Nat) (r r' : HeapRun) (bs bs' : List Block) (safe : Safe base stop r bs) (top : stop < 2 ^ 32)
    (moves : Moves base stop limit r bs r' bs') : Safe base stop r' bs' := by
  cases moves with
  | idle same => exact same ▸ safe
  | take size ptr align pre post b nonzero small allocates live =>
      obtain ⟨lead, taken, rest, placed, shape⟩ := place_shape align (roundSize size) b allocates.fit.1
      obtain rfl := allocates.shape
      have after := allocates.after
      have settled := settled_place pre post b align (roundSize size) safe.settled allocates.fit.1
      rw [placed] at after settled ⊢
      have inside : taken ∈ pre ++ ((lead ++ taken :: rest) ++ post) := by simp
      have pointer : ptr = taken.payload := allocates.pointer.trans shape.payload.symm
      have nonnull : ptr ≠ 0 := pointer ▸ (after.payload_ne top inside).1
      have fresh : ptr ∉ r.live.map Live.ptr := by
        intro present
        obtain ⟨c, member, used, same⟩ := (safe.pointers ptr).mp present
        have still := (used_place pre post lead rest b taken c align shape allocates.fit.1 used).mpr (.inl member)
        obtain rfl := after.addr_inj still inside (payload_inj c taken (same.trans pointer))
        have nodup := after.toLayout.nodup
        have notBlock : c ≠ b := fun same => not_used b allocates.fit.1 (same ▸ used)
        simp only [List.nodup_append, List.nodup_cons, List.mem_append, List.mem_cons] at member nodup
        grind
      refine ⟨after, settled, ?_, ?_⟩
      · intro p
        rw [live, keep, if_neg nonnull, List.map_cons, List.mem_cons, safe.pointers]
        constructor
        · rintro (rfl | ⟨c, member, used, rfl⟩)
          · exact ⟨taken, inside, shape.used, pointer.symm⟩
          · exact ⟨c, (used_place pre post lead rest b taken c align shape allocates.fit.1 used).mpr (.inl member), used, rfl⟩
        · rintro ⟨c, member, used, rfl⟩
          rcases (used_place pre post lead rest b taken c align shape allocates.fit.1 used).mp member with old | rfl
          · exact .inr ⟨c, old, used, rfl⟩
          · exact .inl pointer.symm
      · rw [live, keep, if_neg nonnull, List.map_cons, List.nodup_cons]
        exact ⟨fresh, safe.distinct⟩
  | release pre post b shape used after live =>
      subst shape
      refine ⟨after, settled_free pre post b safe.settled, ?_, ?_⟩
      · intro p
        have kept : p ∈ (drop b.payload r.live).map Live.ptr ↔ p ∈ r.live.map Live.ptr ∧ p ≠ b.payload := by
          simp only [drop, List.mem_map, List.mem_filter, decide_eq_true_eq]
          constructor
          · rintro ⟨l, ⟨member, other⟩, rfl⟩
            exact ⟨⟨l, member, rfl⟩, other⟩
          · rintro ⟨⟨l, member, rfl⟩, other⟩
            exact ⟨l, ⟨member, other⟩, rfl⟩
        rw [live, kept, safe.pointers]
        constructor
        · rintro ⟨⟨c, member, taken, rfl⟩, other⟩
          refine ⟨c, (used_free base stop pre post b c safe.wf.toLayout taken).mpr ⟨member, ?_⟩, taken, rfl⟩
          exact fun same => other (congrArg Block.payload same)
        · rintro ⟨c, member, taken, rfl⟩
          obtain ⟨old, other⟩ := (used_free base stop pre post b c safe.wf.toLayout taken).mp member
          exact ⟨⟨c, old, taken, rfl⟩, fun same => other (safe.wf.addr_inj old (by simp) (payload_inj c b same))⟩
      · rw [live]
        exact safe.distinct.sublist (List.filter_sublist.map Live.ptr)

theorem safe_initial (start size : Word) (m : Mem) (s : Heap) (init : kheapInit start size m = .ok s) (room : 20 ≤ size.toNat)
    (top : start.toNat + size.toNat < 2 ^ 32) :
    Safe start.toNat (start.toNat + size.toNat) (.initial s) [⟨start, size, false⟩] := by
  refine ⟨kheap_init_list start size m s init room (by omega), .singleton _, ?_, .nil⟩
  intro ptr
  simp [HeapRun.initial, Block.used]

theorem safe_of_runs (start size : Word) (m : Mem) (s : Heap) (r : HeapRun) (init : kheapInit start size m = .ok s)
    (room : 20 ≤ size.toNat) (top : start.toNat + size.toNat < 2 ^ 32) (limit : Nat) (run : Runs limit s r) :
    ∃ bs, Safe start.toNat (start.toNat + size.toNat) r bs := by
  refine Run.invariant (fun r => ∃ bs, Safe start.toNat (start.toNat + size.toNat) r bs) ?_ _ _
    ⟨_, safe_initial start size m s init room top⟩ run
  rintro r r' ⟨bs, safe⟩ step
  obtain ⟨bs', moves⟩ := moves_of_step _ _ limit r r' bs safe top step
  exact ⟨bs', safe_step _ _ limit r r' bs bs' safe top moves⟩

end Deimos.Kalloc
