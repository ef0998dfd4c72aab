import Deimos.Kalloc.Clients
import Deimos.Kalloc.Defrag

set_option autoImplicit false

namespace Deimos.Kalloc

open Mem Tiling Comp Run

structure Whole (base stop : Nat) (s : Heap) (bs : List Block) (live : List Live) : Prop extends Held base stop s bs live where
  settled : Settled Block.used bs

def Spares (live : List Live) (m m' : Mem) : Prop :=
  ∀ l ∈ live, l.size.toNat + 23 < 2 ^ 32 → ∀ i < l.size.toNat, m' (l.ptr + BitVec.ofNat 32 i) = m (l.ptr + BitVec.ofNat 32 i)

theorem Spares.trans {live : List Live} {m m' m'' : Mem} (first : Spares live m m') (second : Spares live m' m'') : Spares live m m'' :=
  fun l member small i inside => (second l member small i inside).trans (first l member small i inside)

def Gains (bs cs : List Block) (ptr : Word) : Prop := ∀ z : Block, z.used → (z ∈ bs ↔ z ∈ cs ∧ z.payload ≠ ptr)

section Borrowing

variable {base stop : Nat} {s s' : Heap} {bs cs : List Block} {live : List Live} {l : Live}

theorem Whole.safe (whole : Whole base stop s bs live) : Safe base stop ⟨s, live⟩ bs :=
  ⟨whole.wf, whole.settled, whole.pointers, whole.distinct⟩

theorem whole_of_safe (held : Held base stop s bs live) (safe : Safe base stop ⟨s, live⟩ cs) : Whole base stop s bs live :=
  ⟨held, well_formed_unique base stop s cs bs safe.wf held.wf ▸ safe.settled⟩

theorem spares_of_keeps (held : Held base stop s bs live) (hidden : List Live) (keeps : Keeps bs cs s.mem s'.mem hidden)
    (kept : List Live) (known : ∀ l ∈ kept, l ∈ live ∧ l.ptr ∈ hidden.map Live.ptr) : Spares kept s.mem s'.mem := by
  intro l member small i inside
  obtain ⟨old, stays⟩ := known l member
  obtain ⟨b, present, used, same, room, place⟩ := held.byte l old small i inside
  exact keeps.bytes b present used (same ▸ stays) _ (by omega)

theorem Whole.kmalloc (whole : Whole base stop s bs live) (top : stop + 8192 < 2 ^ 32) (size : Word) :
    ∃ ptr s', (Kalloc.kmalloc size s).Returns (ptr, s') ∧ ((ptr = 0 ∧ s' = s) ∨ (ptr ≠ 0 ∧ ∃ cs,
      Whole base stop s' cs (⟨ptr, size, false⟩ :: live) ∧ Gains bs cs ptr ∧ Spares live s.mem s'.mem)) := by
  obtain ⟨ptr, s', returned⟩ := (kmalloc_int_returns_iff_served base stop s bs size false whole.wf).mpr (fun aligned => by cases aligned)
  refine ⟨ptr, s', returned, ?_⟩
  rcases whole.safe.kmalloc (by omega) size ptr false s' returned with idle | ⟨cs, safe, added, gains⟩
  · exact .inl idle
  · obtain ⟨ds, held, keeps⟩ := whole.toHeld.kmalloc_int top live size ptr false returned
    obtain rfl := well_formed_unique base stop s' cs ds safe.wf held.wf
    have spares := spares_of_keeps whole.toHeld live keeps live (fun l member => ⟨member, List.mem_map_of_mem member⟩)
    have nonnull : ptr ≠ 0 := by
      obtain ⟨b, member, -, same⟩ := (safe.pointers ptr).mp added
      exact same ▸ (safe.wf.payload_ne (by omega) member).1
    rw [keep, if_neg nonnull] at held safe
    exact .inr ⟨nonnull, cs, whole_of_safe held safe, gains, spares⟩

theorem drop_head (distinct : ((l :: live).map Live.ptr).Nodup) : drop l.ptr (l :: live) = live := by
  have fresh := (List.nodup_cons.mp distinct).1
  rw [drop, List.filter_cons_of_neg (by simp)]
  refine List.filter_eq_self.mpr (fun k member => decide_eq_true ?_)
  exact fun same => fresh (same ▸ List.mem_map_of_mem member)

theorem Whole.scribble (whole : Whole base stop s bs live) (own : l ∈ live) (small : l.size.toNat + 23 < 2 ^ 32) (m : Mem)
    (outside : ∀ x : Word, l.size.toNat ≤ (x - l.ptr).toNat → m x = s.mem x) :
    Whole base stop { s with mem := m } bs live ∧ Spares (drop l.ptr live) s.mem m := by
  obtain ⟨b, member, used, same, sized⟩ := whole.room l own
  have room := sized small
  constructor
  · refine ⟨whole.toHeld.rewrite m (fun c present x near => outside x ?_), whole.settled⟩
    have clear := whole.wf.payload_clear b c member present l.size.toNat room x near
    rwa [same] at clear
  · intro k present small' i inside
    obtain ⟨old, other⟩ := List.mem_filter.mp present
    refine outside _ (Nat.le_of_not_lt (fun near => ?_))
    have place : k.ptr + BitVec.ofNat 32 i = l.ptr + BitVec.ofNat 32 (k.ptr + BitVec.ofNat 32 i - l.ptr).toNat := by bv_omega
    have one := (whole.toHeld.bytes_apart k l old own small' small i _ inside near place).1
    exact of_decide_eq_true other one

theorem Whole.kfree (whole : Whole base stop s cs (l :: live)) (top : stop + 8192 < 2 ^ 32) (before : Layout base stop bs)
    (settled : Settled Block.used bs) (gains : Gains bs cs l.ptr) :
    ∃ s', Kalloc.kfree l.ptr s = .ok s' ∧ Whole base stop s' bs live ∧ Spares live s.mem s'.mem := by
  have own : l.ptr ∈ (l :: live).map Live.ptr := List.mem_map_of_mem List.mem_cons_self
  have fresh := (List.nodup_cons.mp whole.distinct).1
  obtain ⟨s', ds, freed, safe, shrinks⟩ := whole.safe.kfree (by omega) l.ptr own
  obtain ⟨es, held, keeps⟩ := whole.toHeld.kfree top live l.ptr (.inr own) fresh freed
  obtain rfl := well_formed_unique base stop s' ds es safe.wf held.wf
  rw [drop_head whole.distinct] at held safe
  have same : ds = bs := list_of_used base stop ds bs safe.wf.toLayout before safe.settled settled
    (fun z used => (shrinks z used).trans (gains z used).symm)
  subst same
  exact ⟨s', freed, ⟨held, safe.settled⟩,
    spares_of_keeps whole.toHeld live keeps live (fun k member => ⟨List.mem_cons_of_mem l member, List.mem_map_of_mem member⟩)⟩

theorem Whole.call {limit : Nat} {r r' : HeapRun} (whole : Whole base stop r.heap bs r.live) (top : stop + 8192 < 2 ^ 32)
    (step : Step limit r r') : ∃ bs', Whole base stop r'.heap bs' r'.live ∧
      ∀ l ∈ r.live, l ∈ r'.live → Spares [l] r.heap.mem r'.heap.mem := by
  obtain ⟨bs', moves⟩ := moves_of_step base stop limit r r' bs whole.safe (by omega) step
  have safe := safe_step base stop limit r r' bs bs' whole.safe (by omega) moves
  have allocated (size ptr : Word) (align : Bool) (s : Heap) (returned : (kmallocInt size align r.heap).Returns (ptr, s)) :
      ∃ cs, Held base stop s cs (keep align size ptr r.live) ∧ ∀ l ∈ r.live, Spares [l] r.heap.mem s.mem := by
    obtain ⟨cs, held, keeps⟩ := whole.toHeld.kmalloc_int top r.live size ptr align returned
    refine ⟨cs, held, fun l member => spares_of_keeps whole.toHeld r.live keeps [l] (fun k one => ?_)⟩
    obtain rfl := List.mem_singleton.mp one
    exact ⟨member, List.mem_map_of_mem member⟩
  cases step with
  | kmalloc size ptr s small returned =>
      obtain ⟨cs, held, spares⟩ := allocated size ptr false s returned
      exact ⟨cs, whole_of_safe held safe, fun l member _ => spares l member⟩
  | kmallocA size ptr s small returned =>
      obtain ⟨cs, held, spares⟩ := allocated size ptr true s returned
      exact ⟨cs, whole_of_safe held safe, fun l member _ => spares l member⟩
  | kfree ptr s known freed =>
      have gone : ptr ∉ (drop ptr r.live).map Live.ptr := fun member => ((mem_drop ptr ptr).mp member).2 rfl
      obtain ⟨cs, held, keeps⟩ := whole.toHeld.kfree top (drop ptr r.live) ptr known gone freed
      refine ⟨cs, whole_of_safe held safe, fun l member stays => spares_of_keeps whole.toHeld _ keeps [l] (fun k one => ?_)⟩
      obtain rfl := List.mem_singleton.mp one
      exact ⟨member, List.mem_map_of_mem stays⟩

end Borrowing

section Runs

variable (start size : Word) (m : Mem) (s : Heap) (init : kheapInit start size m = .ok s) (room : 20 ≤ size.toNat)
  (top : start.toNat + size.toNat + 8192 < 2 ^ 32)

include init room top

theorem whole_initial : ∃ bs, Whole start.toNat (start.toNat + size.toNat) s bs [] := by
  have safe := safe_initial start size m s init room (by omega)
  exact ⟨_, ⟨safe.wf, safe.pointers, safe.distinct, fun l member => by cases member⟩, safe.settled⟩

theorem whole_of_runs (limit : Nat) (r : HeapRun) (run : Runs limit s r) :
    ∃ bs, Whole start.toNat (start.toNat + size.toNat) r.heap bs r.live := by
  refine Run.invariant (fun r : HeapRun => ∃ bs, Whole start.toNat (start.toNat + size.toNat) r.heap bs r.live) ?_ _ r
    (whole_initial start size m s init room top) run
  rintro r r' ⟨bs, whole⟩ step
  obtain ⟨bs', whole', -⟩ := whole.call top step
  exact ⟨bs', whole'⟩

end Runs

end Deimos.Kalloc
