import Deimos.Lib.Run
import Deimos.Frame.Bits

set_option autoImplicit false

namespace Deimos.Frame

open Bitmap Run

-- The allocator between two calls, with the addresses that are handed out now
-- and those that ever were.
structure FrameRun where
  frames : Frames
  out : List Word
  returned : List Word

def FrameRun.initial (s : Frames) : FrameRun := ⟨s, [], []⟩

def FrameRun.afterAlloc (r : FrameRun) (p : Word) (s : Frames) : FrameRun :=
  if p = 0 then { r with frames := s } else ⟨s, p :: r.out, p :: r.returned⟩

-- One call; may says which addresses free_frame is given.
inductive Step (may : FrameRun → Word → Prop) : FrameRun → FrameRun → Prop
  | allocFrame (r : FrameRun) (p : Word) (s : Frames) (answer : allocFrame r.frames = (p, s)) : Step may r (r.afterAlloc p s)
  | freeFrame (r : FrameRun) (p : Word) (allowed : may r p) : Step may r ⟨freeFrame p r.frames, r.out.erase p, r.returned⟩

def FreesOutstanding (r : FrameRun) (p : Word) : Prop := p = 0 ∨ p ∈ r.out

structure Start (s : Frames) : Prop where
  zero : getBit 0 s = true
  high : ∀ b, frameCount ≤ b → b < bitCount → getBit b s = true
  free : s.numFree.toNat = clearBits s
  used : s.numUsed = 0

structure Sound (n : Nat) (total : Word) (r : FrameRun) : Prop where
  zero : getBit 0 r.frames = true
  high : ∀ b, frameCount ≤ b → b < bitCount → getBit b r.frames = true
  frames : ∀ p ∈ r.out, ∃ b, 0 < b ∧ b < frameCount ∧ p = frameAddr b ∧ getBit b r.frames = true
  distinct : r.out.Nodup
  free : r.frames.numFree.toNat = clearBits r.frames
  used : r.frames.numUsed.toNat = r.out.length
  sum : clearBits r.frames + r.out.length = n
  total : r.frames.numTotal = total

theorem clear_bits_le (s : Frames) (high : ∀ b, frameCount ≤ b → b < bitCount → getBit b s = true) : clearBits s ≤ frameCount :=
  clears_le _ _ _ high

theorem clear_bits_set (s : Frames) (b : Nat) (below : b < bitCount) (clear : getBit b s = false) :
    clearBits (setBit b s) + 1 = clearBits s :=
  clears_set _ _ _ b below clear (fun c => get_set_bit b c s)

theorem clear_bits_clr (s : Frames) (b : Nat) (below : b < bitCount) (set : getBit b s = true) :
    clearBits (clrBit b s) = clearBits s + 1 :=
  clears_clear _ _ _ b below set (fun c => get_clr_bit b c s)

theorem Sound.outside (n : Nat) (total : Word) (r : FrameRun) (sound : Sound n total r) (b : Nat) (below : b < frameCount)
    (clear : getBit b r.frames = false) : frameAddr b ∉ r.out := by
  intro member
  obtain ⟨c, _, bound, same, set⟩ := sound.frames _ member
  obtain rfl := frame_addr_inj b c below bound same
  simp [clear] at set

theorem Sound.clear_bounds (n : Nat) (total : Word) (r : FrameRun) (sound : Sound n total r) (b : Nat) (below : b < bitCount)
    (clear : getBit b r.frames = false) : 0 < b ∧ b < frameCount := by
  constructor
  · by_contra zero
    obtain rfl : b = 0 := by omega
    simp [sound.zero] at clear
  · by_contra high
    simp [sound.high b (by omega) below] at clear

theorem sound_alloc (n : Nat) (total : Word) (r : FrameRun) (sound : Sound n total r) (small : n ≤ frameCount) (b : Nat) (below : b < bitCount)
    (clear : getBit b r.frames = false) :
    Sound n total (r.afterAlloc (frameAddr b)
      { setBit b r.frames with numUsed := r.frames.numUsed + 1, numFree := r.frames.numFree - 1 }) := by
  obtain ⟨positive, bound⟩ := sound.clear_bounds n total r b below clear
  have fewer := clear_bits_set r.frames b below clear
  have free := sound.free
  have used := sound.used
  have sum := sound.sum
  simp only [frameCount] at small
  rw [FrameRun.afterAlloc, if_neg (frame_addr_ne b bound positive)]
  refine ⟨?_, ?_, ?_, ?_, ?_, ?_, ?_, sound.total⟩
  · simp [sound.zero]
  · intro c low high
    simp [sound.high c low high]
  · intro p member
    rcases List.mem_cons.mp member with rfl | earlier
    · exact ⟨b, positive, bound, rfl, by simp⟩
    · obtain ⟨c, above, inside, same, set⟩ := sound.frames p earlier
      exact ⟨c, above, inside, same, by simp [set]⟩
  · exact List.nodup_cons.mpr ⟨sound.outside n total r b bound clear, sound.distinct⟩
  · change (r.frames.numFree - 1).toNat = clearBits (setBit b r.frames)
    bv_omega
  · change (r.frames.numUsed + 1).toNat = r.out.length + 1
    bv_omega
  · change clearBits (setBit b r.frames) + (r.out.length + 1) = n
    omega

theorem sound_free (n : Nat) (total : Word) (r : FrameRun) (sound : Sound n total r) (small : n ≤ frameCount) (p : Word)
    (allowed : FreesOutstanding r p) : Sound n total ⟨freeFrame p r.frames, r.out.erase p, r.returned⟩ := by
  rcases allowed with rfl | member
  · have kept : freeFrame 0 r.frames = r.frames := by
      unfold freeFrame
      exact if_neg (fun guard => guard.1 rfl)
    have absent : (0 : Word) ∉ r.out := by
      intro member
      obtain ⟨b, positive, below, same, _⟩ := sound.frames 0 member
      exact frame_addr_ne b below positive same.symm
    rw [kept, List.erase_of_not_mem absent]
    exact ⟨sound.zero, sound.high, sound.frames, sound.distinct, sound.free, sound.used, sound.sum, sound.total⟩
  · obtain ⟨b, positive, bound, rfl, set⟩ := sound.frames p member
    have below : b < bitCount := by
      simp only [frameCount, bitCount, BITMAP_WORDS] at bound ⊢
      omega
    have freed : freeFrame (frameAddr b) r.frames =
        { clrBit b r.frames with numUsed := r.frames.numUsed - 1, numFree := r.frames.numFree + 1 } := by
      unfold freeFrame
      rw [frame_addr_index b bound]
      exact if_pos ⟨by omega, set⟩
    have more := clear_bits_clr r.frames b below set
    have free := sound.free
    have used := sound.used
    have sum := sound.sum
    have fewer := List.length_erase_of_mem member
    have some' := List.length_pos_of_mem member
    simp only [frameCount] at small
    rw [freed]
    refine ⟨?_, ?_, ?_, sound.distinct.erase _, ?_, ?_, ?_, sound.total⟩
    · have other : (0 : Nat) ≠ b := by omega
      simp [sound.zero, other]
    · intro c low high
      have other : c ≠ b := by omega
      simp [sound.high c low high, other]
    · intro q later
      have different : q ≠ frameAddr b := (sound.distinct.mem_erase_iff.mp later).1
      obtain ⟨c, above, inside, rfl, held⟩ := sound.frames q (List.mem_of_mem_erase later)
      have other : c ≠ b := fun same => different (by rw [same])
      exact ⟨c, above, inside, rfl, by simp [held, other]⟩
    · change (r.frames.numFree + 1).toNat = clearBits (clrBit b r.frames)
      bv_omega
    · change (r.frames.numUsed - 1).toNat = (r.out.erase (frameAddr b)).length
      bv_omega
    · change clearBits (clrBit b r.frames) + (r.out.erase (frameAddr b)).length = n
      omega

theorem sound_step (n : Nat) (total : Word) (r r' : FrameRun) (sound : Sound n total r) (small : n ≤ frameCount)
    (step : Step FreesOutstanding r r') : Sound n total r' := by
  cases step with
  | allocFrame p s answer =>
      rcases alloc_frame_cases r.frames with ⟨none, _⟩ | ⟨b, below, clear, _, some'⟩
      · obtain ⟨rfl, rfl⟩ := Prod.mk.inj (none.symm.trans answer)
        exact sound
      · obtain ⟨rfl, rfl⟩ := Prod.mk.inj (some'.symm.trans answer)
        exact sound_alloc n total r sound small b below clear
  | freeFrame p allowed => exact sound_free n total r sound small p allowed

structure FramesSafe (s0 : Frames) (r : FrameRun) : Prop where
  distinct : r.out.Nodup
  -- An answer other than 0 is the address of the lowest free frame, which nobody holds.
  fresh : ∀ p s, allocFrame r.frames = (p, s) → p ≠ 0 → p ∉ r.out ∧
    ∃ b, b < frameCount ∧ p.toNat = b * 4096 ∧ getBit b r.frames = false ∧ ∀ c < b, getBit c r.frames = true
  none : (allocFrame r.frames).1 = 0 ↔ ∀ b < bitCount, getBit b r.frames = true
  -- The counters are the true numbers, so they have not wrapped.
  free : r.frames.numFree.toNat = clearBits r.frames
  used : r.frames.numUsed.toNat = r.out.length
  sum : r.frames.numFree.toNat + r.frames.numUsed.toNat = s0.numFree.toNat
  total : r.frames.numTotal = s0.numTotal

theorem frames_safe_of_sound (s0 : Frames) (r : FrameRun) (start : Start s0) (sound : Sound (clearBits s0) s0.numTotal r) :
    FramesSafe s0 r where
  distinct := sound.distinct
  fresh p s answer nonnull := by
    rcases alloc_frame_cases r.frames with ⟨none, _⟩ | ⟨b, below, clear, first, some'⟩
    · exact absurd (Prod.mk.inj (none.symm.trans answer)).1.symm nonnull
    · obtain ⟨_, bound⟩ := sound.clear_bounds _ _ r b below clear
      obtain rfl : frameAddr b = p := (Prod.mk.inj (some'.symm.trans answer)).1
      exact ⟨sound.outside _ _ r b bound clear, b, bound, frame_addr_toNat b bound, clear, first⟩
  none := by
    rcases alloc_frame_cases r.frames with ⟨none, full⟩ | ⟨b, below, clear, _, some'⟩
    · simp only [none, true_iff]
      exact full
    · obtain ⟨positive, bound⟩ := sound.clear_bounds _ _ r b below clear
      have answer : (allocFrame r.frames).1 = frameAddr b := congrArg Prod.fst some'
      refine iff_of_false (fun null => frame_addr_ne b bound positive (answer.symm.trans null)) (fun full => ?_)
      simp [full b below] at clear
  free := sound.free
  used := sound.used
  sum := by
    rw [sound.free, sound.used, start.free]
    exact sound.sum
  total := sound.total

theorem sound_initial (s0 : Frames) (start : Start s0) : Sound (clearBits s0) s0.numTotal (.initial s0) := by
  refine ⟨start.zero, start.high, by simp [FrameRun.initial], .nil, start.free, ?_, Nat.add_zero _, rfl⟩
  rw [FrameRun.initial, start.used]
  rfl

theorem frames_safe_of_runs (s0 : Frames) (start : Start s0) (r : FrameRun)
    (run : Reaches (Step FreesOutstanding) (.initial s0) r) : FramesSafe s0 r := by
  have small := clear_bits_le s0 start.high
  refine frames_safe_of_sound s0 r start ?_
  exact Run.invariant (Sound (clearBits s0) s0.numTotal) (fun r r' sound step => sound_step _ _ r r' sound small step) _ _
    (sound_initial s0 start) run

theorem start_one (s : Frames) (one : s.numFree = 1) (none : s.numUsed = 0) : Start (clrBit 1 (markAllUsed s)) := by
  refine ⟨?_, fun b low below => ?_, ?_, none⟩
  · simp [get_mark_all_used 0 s (by decide)]
  · have other : b ≠ 1 := by
      rintro rfl
      simp [frameCount] at low
    simp [get_mark_all_used b s below, other]
  · have full : clearBits (markAllUsed s) = 0 := (clears_eq_zero _ _).mpr (fun b below => get_mark_all_used b s below)
    rw [clear_bits_clr _ 1 (by decide) (get_mark_all_used 1 s (by decide)), full]
    exact congrArg BitVec.toNat one

theorem frames_safe_after_reuse : ∃ s r, Start s ∧ Reaches (Step FreesOutstanding) (.initial s) r ∧ r.out = [0x1000] ∧
    r.returned = [0x1000, 0x1000] ∧ FramesSafe s r := by
  have start := start_one ⟨fun _ => 0, 1, 1, 0⟩ rfl rfl
  rcases alloc_frame_cases (clrBit 1 (markAllUsed ⟨fun _ => 0, 1, 1, 0⟩)) with ⟨_, full⟩ | ⟨b, below, clear, _, answer⟩
  · have set := full 1 (by decide)
    simp at set
  · obtain rfl : b = 1 := by simpa [get_mark_all_used b _ below] using clear
    obtain ⟨s₁, first, bits⟩ : ∃ s₁, allocFrame (clrBit 1 (markAllUsed ⟨fun _ => 0, 1, 1, 0⟩)) = (0x1000, s₁) ∧
        ∀ c < bitCount, getBit c s₁ = true := by
      refine ⟨_, answer, fun c low => ?_⟩
      simp [get_mark_all_used c _ low]
    have run : Reaches (Step FreesOutstanding) (.initial _) ⟨s₁, [0x1000], [0x1000]⟩ := .single (.allocFrame (.initial _) _ _ first)
    have second : allocFrame s₁ = (0, s₁) := by
      rcases alloc_frame_cases s₁ with ⟨none, _⟩ | ⟨c, low, clear, _⟩
      · exact none
      · exact absurd ((bits c low).symm.trans clear) (by decide)
    have run := run.tail (.allocFrame _ 0 s₁ second)
    have run : Reaches (Step FreesOutstanding) _ ⟨freeFrame 0x1000 s₁, [], [0x1000]⟩ := run.tail (.freeFrame _ 0x1000 (.inr List.mem_cons_self))
    have freed (c : Nat) (low : c < bitCount) : getBit c (freeFrame 0x1000 s₁) = decide (c ≠ 1) := by
      rw [get_free_frame, bits c low]
      simp [FRAME_SIZE]
    obtain ⟨s₂, third⟩ : ∃ s₂, allocFrame (freeFrame 0x1000 s₁) = (0x1000, s₂) := by
      rcases alloc_frame_cases (freeFrame 0x1000 s₁) with ⟨_, full⟩ | ⟨c, low, clear, _, answer⟩
      · exact absurd ((freed 1 (by decide)).symm.trans (full 1 (by decide))) (by decide)
      · rw [freed c low, decide_eq_false_iff_not, not_not] at clear
        subst clear
        exact ⟨_, answer⟩
    have run := run.tail (.allocFrame _ 0x1000 s₂ third)
    exact ⟨_, _, start, run, rfl, rfl, frames_safe_of_runs _ start _ run⟩

end Deimos.Frame
