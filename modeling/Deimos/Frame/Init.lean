import Deimos.Frame.Run

set_option autoImplicit false

namespace Deimos.Frame

open Bitmap Comp Run

theorem mem_region (addr size : Word) (b : Nat) :
    b ∈ regionFrames addr size ↔ addr.toNat / FRAME_SIZE ≤ b ∧ b ≤ (addr + size - 1).toNat / FRAME_SIZE := by
  simp only [regionFrames, List.mem_range'_1]
  omega

theorem get_free_one (s : Frames) (i b : Nat) : getBit b (freeOne s i) = (getBit b s && decide (b = 0 ∨ b ≠ i)) := by
  unfold freeOne
  by_cases freed : i ≠ 0 ∧ getBit i s = true
  · rw [if_pos freed, get_bit_counters, get_clr_bit]
    by_cases same : b = i
    · simp [same, freed.1]
    · simp [same]
  · rw [if_neg freed]
    by_cases same : b = i
    · subst i
      by_cases zero : b = 0
      · simp [zero]
      · have clear : getBit b s = false := by simpa [zero] using freed
        simp [clear]
    · simp [same]

theorem get_free_frames (frames : List Nat) (s : Frames) (b : Nat) :
    getBit b (frames.foldl freeOne s) = (getBit b s && decide (b = 0 ∨ b ∉ frames)) := by
  induction frames generalizing s with
  | nil => simp
  | cons i rest ih =>
      rw [List.foldl_cons, ih, get_free_one, Bool.and_assoc, ← Bool.decide_and]
      congr 2
      simp only [List.mem_cons, not_or, eq_iff_iff]
      tauto

-- reserve_region only ever sets bits that are set.
theorem get_reserve_frames (frames : List Nat) (s : Frames) (b : Nat) : getBit b (frames.foldl reserveOne s) = getBit b s := by
  induction frames generalizing s with
  | nil => rfl
  | cons i rest ih =>
      rw [List.foldl_cons, ih]
      unfold reserveOne
      by_cases used : getBit i s = true
      · rw [if_pos used, get_bit_counters, get_set_bit]
        by_cases same : b = i
        · simp [same, used]
        · simp [same]
      · rw [if_neg used]

-- The entries frame_init looks at: it follows the size fields from mmap_addr
-- on, as long as it is below the end of the map.
def Follows (m : Mem) (mbt : Word) (a b : Word) : Prop := a < mmapStop m mbt ∧ b = nextEntry m a

def Visited (m : Mem) (mbt e : Word) : Prop := Reaches (Follows m mbt) (mmapAddr m mbt) e ∧ e < mmapStop m mbt

-- Frame b is one of those free_region gets for the entry, with the arguments frame_init passes.
def EntryFrees (m : Mem) (e : Word) (b : Nat) : Prop :=
  entryType m e = MULTIBOOT_MEMORY_AVAILABLE ∧ b ≠ 0 ∧
    b ∈ regionFrames ((entryAddr m e).setWidth 32) ((entryAddr m e + entryLen m e - 1).setWidth 32)

def scanEntry (m : Mem) (e : Word) (s : Frames) : Frames :=
  if entryType m e = MULTIBOOT_MEMORY_AVAILABLE then freeEntry m e s else s

theorem get_scan_entry (m : Mem) (e : Word) (s : Frames) (b : Nat) :
    getBit b (scanEntry m e s) = false ↔ getBit b s = false ∨ EntryFrees m e b := by
  unfold scanEntry
  by_cases available : entryType m e = MULTIBOOT_MEMORY_AVAILABLE
  · rw [if_pos available, freeEntry, freeRegion, get_free_frames]
    simp only [EntryFrees, available, true_and, Bool.and_eq_false_iff, decide_eq_false_iff_not, not_or, not_not, ne_eq]
  · rw [if_neg available]
    simp [EntryFrees, available]

def Pass (m : Mem) (mbt : Word) (a b : Word × Frames) : Prop := mapBody m (mmapStop m mbt) a = .ok (.next b)

theorem pass_iff (m : Mem) (mbt : Word) (a b : Word × Frames) :
    Pass m mbt a b ↔ Follows m mbt a.1 b.1 ∧ b.2 = scanEntry m a.1 a.2 := by
  obtain ⟨mmap, s⟩ := a
  obtain ⟨mmap', s'⟩ := b
  by_cases below : mmap < mmapStop m mbt
  · have goes : mapBody m (mmapStop m mbt) (mmap, s) = .ok (.next (nextEntry m mmap, scanEntry m mmap s)) := if_pos below
    simp only [Pass, goes, Follows, below, true_and, Except.ok.injEq, Iter.next.injEq, Prod.mk.injEq]
    exact and_congr eq_comm eq_comm
  · simp [Pass, mapBody, below, Follows]

theorem frame_init_returns (m : Mem) (mbt : Word) (s s' : Frames) (returned : (frameInit m mbt s).Returns s') :
    ∃ last scanned, Reaches (Pass m mbt) (mmapAddr m mbt, markAllUsed s) (last, scanned) ∧ ¬ last < mmapStop m mbt ∧
      s' = reserveRegion KERNEL_PMA KERNEL_SIZE scanned := by
  rw [frameInit] at returned
  obtain ⟨scanned, looped, rest⟩ := (returns_bind _ _ _).mp returned
  have same : s' = reserveRegion KERNEL_PMA KERNEL_SIZE scanned := Except.ok.inj ((ends_pure _ _).mp rest)
  obtain ⟨⟨last, before⟩, passes, leaves⟩ := (returns_loop _ _ _).mp looped
  by_cases below : last < mmapStop m mbt
  · have goes : mapBody m (mmapStop m mbt) (last, before) = .ok (.next (nextEntry m last, scanEntry m last before)) :=
      (pass_iff m mbt (last, before) _).mpr ⟨⟨below, rfl⟩, rfl⟩
    rw [goes] at leaves
    simp at leaves
  · have stays : mapBody m (mmapStop m mbt) (last, before) = .ok (.done before) := if_neg below
    obtain rfl : before = scanned := by simpa [stays] using leaves
    exact ⟨last, before, passes, below, same⟩

theorem clear_has_entry (m : Mem) (mbt : Word) (s : Frames) (last : Word × Frames)
    (passes : Reaches (Pass m mbt) (mmapAddr m mbt, markAllUsed s) last) :
    Reaches (Follows m mbt) (mmapAddr m mbt) last.1 ∧
      ∀ b < bitCount, getBit b last.2 = false → ∃ e, Visited m mbt e ∧ EntryFrees m e b := by
  refine Run.invariant (fun a => Reaches (Follows m mbt) (mmapAddr m mbt) a.1 ∧
    ∀ b < bitCount, getBit b a.2 = false → ∃ e, Visited m mbt e ∧ EntryFrees m e b) ?_ _ _ ⟨.refl, ?_⟩ passes
  · rintro ⟨mmap, s⟩ ⟨mmap', s'⟩ ⟨reached, known⟩ pass
    obtain ⟨follows, scan⟩ := (pass_iff m mbt _ _).mp pass
    refine ⟨reached.tail follows, fun b below clear => ?_⟩
    rw [scan] at clear
    rcases (get_scan_entry m mmap s b).mp clear with before | frees
    · exact known b below before
    · exact ⟨mmap, ⟨reached, follows.1⟩, frees⟩
  · intro b below clear
    rw [get_mark_all_used b s below] at clear
    exact absurd clear (by decide)

theorem walk_meets (m : Mem) (mbt e : Word) (s : Frames) (reached : Reaches (Follows m mbt) (mmapAddr m mbt) e) :
    ∃ s', Reaches (Pass m mbt) (mmapAddr m mbt, s) (e, s') := by
  induction reached with
  | refl => exact ⟨s, .refl⟩
  | tail _ follows ih =>
      obtain ⟨s', passes⟩ := ih
      exact ⟨_, passes.tail ((pass_iff m mbt (_, s') (_, _)).mpr ⟨follows, rfl⟩)⟩

theorem pass_unique (m : Mem) (mbt : Word) : Relator.RightUnique (Pass m mbt) := by
  intro a b c left right
  have same := left.symm.trans right
  simpa using same

theorem entry_clears (m : Mem) (mbt e last : Word) (s scanned : Frames) (b : Nat) (visited : Visited m mbt e)
    (frees : EntryFrees m e b) (passes : Reaches (Pass m mbt) (mmapAddr m mbt, s) (last, scanned))
    (ended : ¬ last < mmapStop m mbt) : getBit b scanned = false := by
  obtain ⟨before, meets⟩ := walk_meets m mbt e s visited.1
  have stuck : ∀ a, ¬ Pass m mbt (last, scanned) a := fun a pass => ended ((pass_iff m mbt _ a).mp pass).1.1
  have onward : Reaches (Pass m mbt) (e, before) (last, scanned) := by
    rcases Relation.ReflTransGen.total_of_right_unique (pass_unique m mbt) meets passes with forward | backward
    · exact forward
    · rcases backward.cases_head with same | ⟨a, pass, _⟩
      · rw [same]
      · exact absurd pass (stuck a)
  rcases onward.cases_head with same | ⟨⟨next, after⟩, pass, rest⟩
  · obtain ⟨rfl, -⟩ := Prod.mk.inj same
    exact absurd visited.2 ended
  · obtain ⟨-, scan⟩ := (pass_iff m mbt _ _).mp pass
    have clear : getBit b after = false := by
      rw [show after = scanEntry m e before from scan]
      exact (get_scan_entry m e before b).mpr (.inr frees)
    refine Run.invariant (fun a => getBit b a.2 = false) (fun a a' kept pass => ?_) _ _ clear rest
    rw [((pass_iff m mbt a a').mp pass).2]
    exact (get_scan_entry m a.1 a.2 b).mpr (.inl kept)

theorem frame_init_bits (m : Mem) (mbt : Word) (s s' : Frames) (returned : (frameInit m mbt s).Returns s') (b : Nat)
    (below : b < bitCount) : getBit b s' = false ↔ ∃ e, Visited m mbt e ∧ EntryFrees m e b := by
  obtain ⟨last, scanned, passes, ended, same⟩ := frame_init_returns m mbt s s' returned
  rw [same, reserveRegion, get_reserve_frames]
  constructor
  · exact (clear_has_entry m mbt s (last, scanned) passes).2 b below
  · rintro ⟨e, visited, frees⟩
    exact entry_clears m mbt e last _ scanned b visited frees passes ended

section OneEntry

variable (m : Mem) (mbt e : Word) (start : mmapAddr m mbt = e) (next : nextEntry m e = mmapStop m mbt) (below : e < mmapStop m mbt)

include start next below

theorem single_entry_returns (s : Frames) : ∃ s', (frameInit m mbt s).Returns s' := by
  refine ⟨_, (returns_bind _ _ _).mpr ⟨scanEntry m e (markAllUsed s), ?_, (ends_pure _ _).mpr rfl⟩⟩
  rw [start]
  have first : mapBody m (mmapStop m mbt) (e, markAllUsed s) =
      .ok (.next (mmapStop m mbt, scanEntry m e (markAllUsed s))) := by
    rw [mapBody, if_pos below, next]
    rfl
  have last : mapBody m (mmapStop m mbt) (mmapStop m mbt, scanEntry m e (markAllUsed s)) =
      .ok (.done (scanEntry m e (markAllUsed s))) := by
    rw [mapBody]
    exact if_neg (BitVec.lt_irrefl _)
  exact (ends_loop_next _ _ _ _ first).mpr ((ends_loop_done _ _ _ _ last).mpr rfl)

theorem single_entry_visited (a : Word) : Visited m mbt a ↔ a = e := by
  constructor
  · rintro ⟨reached, inside⟩
    rw [start] at reached
    rcases reached.cases_head with same | ⟨b, ⟨_, rfl⟩, rest⟩
    · exact same.symm
    · rw [next] at rest
      rcases rest.cases_head with rfl | ⟨_, ⟨beyond, _⟩, _⟩
      · exact absurd inside (BitVec.lt_irrefl _)
      · exact absurd beyond (BitVec.lt_irrefl _)
  · rintro rfl
    refine ⟨?_, below⟩
    rw [start]

end OneEntry

end Deimos.Frame
