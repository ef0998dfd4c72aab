import Deimos.Frame.Model

set_option autoImplicit false

namespace Deimos.Frame

open Bitmap

-- frame_bitmap has this many bits; the frames of a 4 GiB system are the first eighth of them.
def bitCount : Nat := BITMAP_WORDS * 32

def frameCount : Nat := 1024 * 1024

theorem get_bit_eq (b : Nat) (s : Frames) : getBit b s = bit s.bitmap b := by
  have test := test_iff (w := 32) (by decide) s.bitmap b
  rw [getBit]
  cases value : bit s.bitmap b with
  | true => simpa using test.mpr value
  | false =>
      have off : ¬ bit s.bitmap b = true := by simp [value]
      simpa using mt test.mp off

@[simp] theorem get_set_bit (b c : Nat) (s : Frames) : getBit c (setBit b s) = (getBit c s || decide (c = b)) := by
  rw [get_bit_eq, get_bit_eq]
  exact bit_set (by decide) s.bitmap b c

@[simp] theorem get_clr_bit (b c : Nat) (s : Frames) : getBit c (clrBit b s) = (getBit c s && decide (c ≠ b)) := by
  rw [get_bit_eq, get_bit_eq]
  exact bit_clear (by decide) s.bitmap b c

@[simp] theorem get_bit_counters (b : Nat) (s : Frames) (total free used : Word) :
    getBit b { s with numTotal := total, numFree := free, numUsed := used } = getBit b s := rfl

theorem get_mark_all_used (b : Nat) (s : Frames) (below : b < bitCount) : getBit b (markAllUsed s) = true := by
  simp only [bitCount] at below
  have inside : b / 32 < BITMAP_WORDS := by omega
  have full : (markAllUsed s).bitmap (b / 32) = BitVec.allOnes 32 := if_pos inside
  have low := Nat.mod_lt b (y := 32) (by decide)
  rw [get_bit_eq, bit, full, BitVec.getLsbD_allOnes]
  exact decide_eq_true low

def clearBits (s : Frames) : Nat := clears (fun b => getBit b s) bitCount

theorem search_free_some (s : Frames) (b : Nat) (found : searchFree s = some b) :
    b < bitCount ∧ getBit b s = false ∧ ∀ c < b, getBit c s = true := by
  rw [searchFree] at found
  obtain ⟨i, inside, here, earlier⟩ := find_some_range BITMAP_WORDS _ b found
  have full : ∀ j < i, ∀ k < 32, getBit (j * 32 + k) s = true := by
    intro j less k bound
    have miss := earlier j less
    by_cases all : s.bitmap j = 0xFFFFFFFF
    · rw [get_bit_eq]
      exact (full_word s.bitmap j).mp all k bound
    · rw [if_pos all, Option.map_eq_none_iff, List.find?_eq_none] at miss
      simpa using miss k (List.mem_range.mpr bound)
  split_ifs at here with partial'
  obtain ⟨k, first, rfl⟩ := Option.map_eq_some_iff.mp here
  obtain ⟨clear, member, before⟩ := List.find?_range_eq_some.mp first
  have bound := List.mem_range.mp member
  refine ⟨?_, by simpa using clear, ?_⟩
  · simp only [bitCount]
    omega
  · intro c less
    have place : c / 32 * 32 + c % 32 = c := by omega
    by_cases same : c / 32 = i
    · have low := before (c % 32) (by omega)
      rw [← same, place] at low
      simpa using low
    · rw [← place]
      exact full (c / 32) (by omega) (c % 32) (by omega)

theorem search_free_none (s : Frames) (found : searchFree s = none) : ∀ b < bitCount, getBit b s = true := by
  rw [searchFree] at found
  intro b below
  simp only [bitCount] at below
  have place : b / 32 * 32 + b % 32 = b := by omega
  have miss := List.findSome?_eq_none_iff.mp found (b / 32) (List.mem_range.mpr (by omega))
  rw [← place]
  by_cases all : s.bitmap (b / 32) = 0xFFFFFFFF
  · rw [get_bit_eq]
    exact (full_word s.bitmap (b / 32)).mp all (b % 32) (by omega)
  · rw [if_pos all, Option.map_eq_none_iff, List.find?_eq_none] at miss
    simpa using miss (b % 32) (List.mem_range.mpr (by omega))

def frameAddr (b : Nat) : Word := BitVec.ofNat 32 (b * FRAME_SIZE)

theorem frame_addr_toNat (b : Nat) (below : b < frameCount) : (frameAddr b).toNat = b * 4096 := by
  simp only [frameCount] at below
  rw [frameAddr, FRAME_SIZE, BitVec.toNat_ofNat]
  exact Nat.mod_eq_of_lt (by omega)

theorem frame_addr_index (b : Nat) (below : b < frameCount) : (frameAddr b).toNat / FRAME_SIZE = b := by
  rw [frame_addr_toNat b below, FRAME_SIZE]
  omega

theorem frame_addr_inj (b c : Nat) (left : b < frameCount) (right : c < frameCount) (same : frameAddr b = frameAddr c) : b = c := by
  have index := frame_addr_index b left
  rw [same, frame_addr_index c right] at index
  exact index.symm

theorem frame_addr_ne (b : Nat) (below : b < frameCount) (positive : 0 < b) : frameAddr b ≠ 0 := by
  intro null
  have value := frame_addr_toNat b below
  rw [null] at value
  simp at value
  omega

theorem alloc_frame_cases (s : Frames) :
    (allocFrame s = (0, s) ∧ ∀ b < bitCount, getBit b s = true) ∨
      ∃ b, b < bitCount ∧ getBit b s = false ∧ (∀ c < b, getBit c s = true) ∧
        allocFrame s = (frameAddr b,
          { setBit b s with numUsed := s.numUsed + 1, numFree := s.numFree - 1 }) := by
  cases found : searchFree s with
  | none => exact .inl ⟨congrArg (takeFrame s) found, search_free_none s found⟩
  | some b =>
      obtain ⟨below, clear, first⟩ := search_free_some s b found
      exact .inr ⟨b, below, clear, first, congrArg (takeFrame s) found⟩

theorem get_free_frame (p : Word) (s : Frames) (c : Nat) :
    getBit c (freeFrame p s) = (getBit c s && decide (p.toNat / FRAME_SIZE = 0 ∨ c ≠ p.toNat / FRAME_SIZE)) := by
  simp only [freeFrame]
  generalize p.toNat / FRAME_SIZE = b
  by_cases freed : b ≠ 0 ∧ getBit b s = true
  · rw [if_pos freed, get_bit_counters, get_clr_bit]
    simp [freed.1]
  · rw [if_neg freed]
    by_cases same : c = b
    · subst c
      by_cases zero : b = 0
      · simp [zero]
      · have clear : getBit b s = false := by simpa [zero] using freed
        simp [clear]
    · simp [same]

end Deimos.Frame
