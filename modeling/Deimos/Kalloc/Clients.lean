import Deimos.Kalloc.Held

set_option autoImplicit false

namespace Deimos.Kalloc

open Mem Tiling Comp Run

-- The heap with those who use it: what each has put into the bytes that it
-- asked for, as far as it has put anything there.
structure ClientRun extends HeapRun where
  contents : Word → Nat → Option Byte

def ClientRun.initial (s : Heap) : ClientRun := ⟨.initial s, fun _ _ => none⟩

-- A call, after which a new block holds nothing yet, or a byte that is put
-- into what was asked for and not freed since.
inductive ClientStep (limit : Nat) : ClientRun → ClientRun → Prop
  | call (r : ClientRun) (r' : HeapRun) (step : Step limit r.toHeapRun r') :
      ClientStep limit r ⟨r', fun ptr i => if ptr ∈ r.live.map Live.ptr then r.contents ptr i else none⟩
  | write (r : ClientRun) (l : Live) (i : Nat) (value : Byte) (own : l ∈ r.live) (inside : i < l.size.toNat) :
      ClientStep limit r
        ⟨⟨{ r.heap with mem := Function.update r.heap.mem (l.ptr + BitVec.ofNat 32 i) value }, r.live⟩,
          Function.update r.contents l.ptr (Function.update (r.contents l.ptr) i (some value))⟩

section Places

variable {base stop : Nat} {s : Heap} {bs : List Block} {live : List Live}

theorem Held.byte (held : Held base stop s bs live) (l : Live) (member : l ∈ live) (small : l.size.toNat + 23 < 2 ^ 32) (i : Nat)
    (inside : i < l.size.toNat) : ∃ b ∈ bs, b.used ∧ b.payload = l.ptr ∧ l.size.toNat + 20 ≤ b.size.toNat ∧
      (l.ptr + BitVec.ofNat 32 i - b.payload).toNat = i := by
  obtain ⟨b, present, used, same, sized⟩ := held.room l member
  refine ⟨b, present, used, same, sized small, ?_⟩
  rw [same]
  bv_omega

theorem Held.bytes_apart (held : Held base stop s bs live) (l l' : Live) (member : l ∈ live) (member' : l' ∈ live)
    (small : l.size.toNat + 23 < 2 ^ 32) (small' : l'.size.toNat + 23 < 2 ^ 32) (i j : Nat) (inside : i < l.size.toNat)
    (inside' : j < l'.size.toNat) (same : l.ptr + BitVec.ofNat 32 i = l'.ptr + BitVec.ofNat 32 j) : l.ptr = l'.ptr ∧ i = j := by
  obtain ⟨b, present, -, here, room, -⟩ := held.byte l member small i inside
  obtain ⟨c, present', -, here', room', -⟩ := held.byte l' member' small' j inside'
  have bound := held.wf.bound
  have low := held.wf.bounds present
  have low' := held.wf.bounds present'
  by_cases one : b = c
  · subst one
    have ptr : l.ptr = l'.ptr := here.symm.trans here'
    exact ⟨ptr, by rw [ptr] at same; bv_omega⟩
  · have apart := tiles_disjoint bs base stop held.wf.tiles b c present present' one
    rw [← here, ← here'] at same
    simp only [Block.start, Block.stop, Block.payload, headerSize] at apart low low' same
    exfalso
    rcases apart with before | behind <;> bv_omega

theorem Held.put (held : Held base stop s bs live) (l : Live) (member : l ∈ live) (small : l.size.toNat + 23 < 2 ^ 32) (i : Nat)
    (inside : i < l.size.toNat) (value : Byte) :
    Held base stop { s with mem := Function.update s.mem (l.ptr + BitVec.ofNat 32 i) value } bs live := by
  obtain ⟨b, present, -, -, room, place⟩ := held.byte l member small i inside
  refine held.rewrite _ (fun c present' x near => Function.update_of_ne ?_ _ _)
  rintro rfl
  have clear := held.wf.payload_clear b c present present' l.size.toNat room _ near
  omega

end Places

structure Stored (base stop limit : Nat) (r : ClientRun) : Prop where
  held : ∃ bs, Held base stop r.heap bs r.live
  small : ∀ l ∈ r.live, l.size.toNat ≤ limit
  data : ∀ l ∈ r.live, ∀ i < l.size.toNat, ∀ value, r.contents l.ptr i = some value → r.heap.mem (l.ptr + BitVec.ofNat 32 i) = value

section Steps

variable {base stop limit : Nat} (top : stop + 8192 < 2 ^ 32) (sums : limit + 23 < 2 ^ 32)

include sums

theorem kept_bytes (r : ClientRun) (bs bs' : List Block) (m' : Mem) (stored : Stored base stop limit r)
    (held : Held base stop r.heap bs r.live) (hidden : List Live) (keeps : Keeps bs bs' r.heap.mem m' hidden) (l : Live)
    (member : l ∈ r.live) (stays : l.ptr ∈ hidden.map Live.ptr) (i : Nat) (inside : i < l.size.toNat) (value : Byte)
    (put : r.contents l.ptr i = some value) : m' (l.ptr + BitVec.ofNat 32 i) = value := by
  have small := stored.small l member
  obtain ⟨b, present, used, same, room, place⟩ := held.byte l member (by omega) i inside
  rw [keeps.bytes b present used (same ▸ stays) _ (by omega)]
  exact stored.data l member i inside value put

include top

theorem stored_call (r : ClientRun) (r' : HeapRun) (stored : Stored base stop limit r) (step : Step limit r.toHeapRun r') :
    Stored base stop limit ⟨r', fun ptr i => if ptr ∈ r.live.map Live.ptr then r.contents ptr i else none⟩ := by
  obtain ⟨bs, held⟩ := stored.held
  have allocated (size ptr : Word) (align : Bool) (s : Heap) (fits : size.toNat ≤ limit)
      (returned : (kmallocInt size align r.heap).Returns (ptr, s)) :
      Stored base stop limit ⟨⟨s, keep align size ptr r.live⟩, fun ptr i => if ptr ∈ r.live.map Live.ptr then r.contents ptr i else none⟩ := by
    obtain ⟨bs', held', keeps⟩ := held.kmalloc_int top r.live size ptr align returned
    have known : ∀ l ∈ keep align size ptr r.live, l = ⟨ptr, size, align⟩ ∨ l ∈ r.live := by
      intro l member
      rw [keep] at member
      split at member
      · exact .inr member
      · exact List.mem_cons.mp member
    refine ⟨⟨bs', held'⟩, fun l member => ?_, fun l member i inside value put => ?_⟩
    · rcases known l member with rfl | old
      · exact fits
      · exact stored.small l old
    · have present : l.ptr ∈ r.live.map Live.ptr := by
        by_contra absent
        simp [absent] at put
      have old : l ∈ r.live := by
        obtain ⟨l', member', same⟩ := List.mem_map.mp present
        have kept : l' ∈ keep align size ptr r.live := by
          rw [keep]
          split
          · exact member'
          · exact List.mem_cons_of_mem _ member'
        rwa [live_inj _ held'.distinct l l' member kept same.symm]
      simp only [if_pos present] at put
      exact kept_bytes sums r bs bs' s.mem stored held r.live keeps l old present i inside value put
  cases step with
  | kmalloc size ptr s fits returned => exact allocated size ptr false s fits returned
  | kmallocA size ptr s fits returned => exact allocated size ptr true s fits returned
  | kfree ptr s known returned =>
      have gone : ptr ∉ (drop ptr r.live).map Live.ptr := fun member => ((mem_drop ptr ptr).mp member).2 rfl
      obtain ⟨bs', held', keeps⟩ := held.kfree top (drop ptr r.live) ptr known gone returned
      refine ⟨⟨bs', held'⟩, fun l member => stored.small l (List.mem_of_mem_filter member), fun l member i inside value put => ?_⟩
      have old := List.mem_of_mem_filter member
      simp only [if_pos (List.mem_map_of_mem old)] at put
      exact kept_bytes sums r bs bs' s.mem stored held _ keeps l old (List.mem_map_of_mem member) i inside value put

theorem stored_step (r r' : ClientRun) (stored : Stored base stop limit r) (step : ClientStep limit r r') : Stored base stop limit r' := by
  cases step with
  | call r' step => exact stored_call top sums r r' stored step
  | write l i value own inside =>
      obtain ⟨bs, held⟩ := stored.held
      have small := stored.small l own
      refine ⟨⟨bs, held.put l own (by omega) i inside value⟩, stored.small, fun l' member j inside' other put => ?_⟩
      have small' := stored.small l' member
      by_cases here : l'.ptr = l.ptr ∧ j = i
      · obtain ⟨ptr, rfl⟩ := here
        simp only [ptr, Function.update_self, Option.some.injEq] at put ⊢
        exact put
      · have apart : l'.ptr + BitVec.ofNat 32 j ≠ l.ptr + BitVec.ofNat 32 i := fun same =>
          here (held.bytes_apart l' l member own (by omega) (by omega) j i inside' inside same)
        refine (Function.update_of_ne apart _ _).trans (stored.data l' member j inside' other ?_)
        by_cases ptr : l'.ptr = l.ptr
        · have index : j ≠ i := fun same => here ⟨ptr, same⟩
          simpa only [ptr, Function.update_self, Function.update_of_ne index] using put
        · simpa only [Function.update_of_ne ptr] using put

end Steps

theorem client_bytes_kept (start size : Word) (m : Mem) (s : Heap) (init : kheapInit start size m = .ok s) (room : 20 ≤ size.toNat)
    (top : start.toNat + size.toNat + 8192 < 2 ^ 32) (limit : Nat) (sums : limit + 23 < 2 ^ 32) (r : ClientRun)
    (run : Reaches (ClientStep limit) (.initial s) r) :
    Stored start.toNat (start.toNat + size.toNat) limit r ∧ (heapSanityCheck r.heap).Returns () := by
  have begin : Stored start.toNat (start.toNat + size.toNat) limit (.initial s) := by
    have safe := safe_initial start size m s init room (by omega)
    exact ⟨⟨_, safe.wf, safe.pointers, safe.distinct, (fun l member => by cases member)⟩, (fun l member => by cases member),
      (fun l member => by cases member)⟩
  have stored := Run.invariant _ (fun r r' stored step => stored_step top sums r r' stored step) _ r begin run
  obtain ⟨bs, held⟩ := stored.held
  exact ⟨stored, heap_sanity_check_returns _ _ r.heap bs held.wf⟩

theorem client_bytes_kept_after_write : ∃ s r, kheapInit 0xC0200000 0x1000 (fun _ => 0) = .ok s ∧
    Reaches (ClientStep 0x1000) (.initial s) r ∧ r.live = [⟨0xC0200014, 100, false⟩] ∧ r.contents 0xC0200014 3 = some 7 ∧
    Stored 0xC0200000 0xC0201000 0x1000 r := by
  obtain ⟨s, init⟩ := kheap_init_ok 0xC0200000 0x1000 (fun _ => 0) (by decide)
  have wf := kheap_init_list 0xC0200000 0x1000 _ s init (by decide) (by decide)
  obtain ⟨s', returned, _⟩ := kmalloc_int_serves 100 false [] [] ⟨0xC0200000, 0x1000, false⟩ wf (by decide) (by simp) (by decide)
    (by simp)
  have call : ClientStep 0x1000 (.initial s) ⟨⟨s', [⟨0xC0200014, 100, false⟩]⟩, _⟩ :=
    .call _ _ (.kmalloc (.initial s) 100 _ s' (by decide) returned)
  have run : Reaches (ClientStep 0x1000) (.initial s) _ :=
    .tail (.single call) (.write _ ⟨0xC0200014, 100, false⟩ 3 7 (List.mem_singleton.mpr rfl) (by decide))
  refine ⟨s, _, init, run, rfl, by simp, ?_⟩
  exact (client_bytes_kept 0xC0200000 0x1000 _ s init (by decide) (by decide) 0x1000 (by decide) _ run).1

end Deimos.Kalloc
