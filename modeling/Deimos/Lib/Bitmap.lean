import Mathlib.Data.Finset.Card
import Mathlib.Data.Finset.Range
import Mathlib.Tactic.Common

set_option autoImplicit false

-- Bitmaps kept in words of w bits: bit b is bit b % w of word b / w.
namespace Bitmap

variable {w : Nat}

def mask (w b : Nat) : BitVec w := 1#w <<< (b % w)

def bit (words : Nat → BitVec w) (b : Nat) : Bool := (words (b / w)).getLsbD (b % w)

def update (words : Nat → BitVec w) (i : Nat) (word : BitVec w) : Nat → BitVec w := fun j => if j = i then word else words j

theorem mask_bit (b i : Nat) (bound : i < w) : (mask w b).getLsbD i = decide (i = b % w) := by
  have positive : 0 < w := by omega
  have low := Nat.mod_lt b positive
  rw [mask, BitVec.getLsbD_shiftLeft, BitVec.getLsbD_one]
  by_cases same : i = b % w
  · simp [same, low, positive]
  · by_cases before : i < b % w
    · simp [same, before]
    · have after : i - b % w ≠ 0 := by omega
      simp [same, after]

theorem test_iff (positive : 0 < w) (words : Nat → BitVec w) (b : Nat) :
    words (b / w) &&& mask w b ≠ 0 ↔ bit words b = true := by
  have low := Nat.mod_lt b positive
  constructor
  · intro set
    by_contra clear
    apply set
    apply BitVec.eq_of_getLsbD_eq
    intro i bound
    rw [BitVec.getLsbD_and, mask_bit b i bound]
    by_cases same : i = b % w
    · subst i
      have off : (words (b / w)).getLsbD (b % w) = false := by simpa [bit] using clear
      simp [off]
    · simp [same]
  · intro set zero
    have both := congrArg (fun x : BitVec w => x.getLsbD (b % w)) zero
    have on : (words (b / w)).getLsbD (b % w) = true := set
    simp [mask_bit b (b % w) low, on] at both

theorem same_place (b c : Nat) (word : c / w = b / w) : c % w = b % w ↔ c = b := by
  constructor
  · intro place
    rw [← Nat.div_add_mod c w, ← Nat.div_add_mod b w, word, place]
  · rintro rfl
    rfl

theorem bit_set (positive : 0 < w) (words : Nat → BitVec w) (b c : Nat) :
    bit (update words (b / w) (words (b / w) ||| mask w b)) c = (bit words c || decide (c = b)) := by
  have low := Nat.mod_lt c positive
  by_cases word : c / w = b / w
  · simp only [bit, update, word, if_true, BitVec.getLsbD_or, mask_bit b _ low, same_place b c word]
  · have other : c ≠ b := fun same => word (by rw [same])
    simp [bit, update, word, other]

theorem bit_clear (positive : 0 < w) (words : Nat → BitVec w) (b c : Nat) :
    bit (update words (b / w) (words (b / w) &&& ~~~ mask w b)) c = (bit words c && decide (c ≠ b)) := by
  have low := Nat.mod_lt c positive
  by_cases word : c / w = b / w
  · simp only [bit, update, word, if_true, BitVec.getLsbD_and, BitVec.getLsbD_not, low, decide_true, Bool.true_and,
      mask_bit b _ low, same_place b c word, decide_not, ne_eq]
  · have other : c ≠ b := fun same => word (by rw [same])
    simp [bit, update, word, other]

theorem full_word (words : Nat → BitVec w) (i : Nat) :
    words i = BitVec.allOnes w ↔ ∀ j < w, bit words (i * w + j) = true := by
  have place : ∀ j < w, bit words (i * w + j) = (words i).getLsbD j := by
    intro j bound
    have quotient : (i * w + j) / w = i := by
      rw [Nat.mul_comm, Nat.mul_add_div (by omega), Nat.div_eq_of_lt bound, Nat.add_zero]
    have remainder : (i * w + j) % w = j := by
      rw [Nat.mul_comm, Nat.mul_add_mod, Nat.mod_eq_of_lt bound]
    rw [bit, quotient, remainder]
  constructor
  · intro full j bound
    rw [place j bound, full]
    simpa using bound
  · intro all
    apply BitVec.eq_of_getLsbD_eq
    intro j bound
    rw [← place j bound, all j bound]
    simpa using bound

theorem find_some_range {β : Type} (n : Nat) (f : Nat → Option β) (hit : β) (found : (List.range n).findSome? f = some hit) :
    ∃ a < n, f a = some hit ∧ ∀ j < a, f j = none := by
  obtain ⟨before, a, after, shape, here, misses⟩ := List.findSome?_eq_some_iff.mp found
  have member : a ∈ List.range n := by simp [shape]
  refine ⟨a, List.mem_range.mp member, here, ?_⟩
  intro j less
  have inside : j ∈ List.range n := List.mem_range.mpr (Nat.lt_trans less (List.mem_range.mp member))
  have sorted := List.pairwise_lt_range (n := n)
  rw [shape] at inside sorted
  rcases List.mem_append.mp inside with early | late
  · exact misses j early
  · have behind := (List.pairwise_append.mp sorted).2.1
    rcases List.mem_cons.mp late with rfl | later
    · exact absurd less (Nat.lt_irrefl j)
    · have := (List.pairwise_cons.mp behind).1 j later
      omega

def clears (p : Nat → Bool) (n : Nat) : Nat := ((Finset.range n).filter (fun b => p b = false)).card

theorem clears_set (p q : Nat → Bool) (n b : Nat) (below : b < n) (clear : p b = false)
    (same : ∀ c, q c = (p c || decide (c = b))) : clears q n + 1 = clears p n := by
  have split : (Finset.range n).filter (fun c => p c = false) = insert b ((Finset.range n).filter (fun c => q c = false)) := by
    ext c
    simp only [Finset.mem_filter, Finset.mem_range, Finset.mem_insert, same, Bool.or_eq_false_iff, decide_eq_false_iff_not]
    by_cases here : c = b
    · simp [here, below, clear]
    · simp [here]
  have fresh : b ∉ (Finset.range n).filter (fun c => q c = false) := by simp [same]
  rw [clears, clears, split, Finset.card_insert_of_notMem fresh]

theorem clears_clear (p q : Nat → Bool) (n b : Nat) (below : b < n) (set : p b = true)
    (same : ∀ c, q c = (p c && decide (c ≠ b))) : clears q n = clears p n + 1 := by
  refine (clears_set q p n b below (by simp [same]) ?_).symm
  intro c
  by_cases here : c = b
  · simp [here, set]
  · simp [same, here]

theorem clears_eq_zero (p : Nat → Bool) (n : Nat) : clears p n = 0 ↔ ∀ b < n, p b = true := by
  simp [clears, Finset.filter_eq_empty_iff]

theorem clears_le (p : Nat → Bool) (n k : Nat) (high : ∀ b, k ≤ b → b < n → p b = true) : clears p n ≤ k := by
  have inside : (Finset.range n).filter (fun b => p b = false) ⊆ Finset.range k := by
    intro b member
    simp only [Finset.mem_filter, Finset.mem_range] at member ⊢
    by_contra above
    have set := high b (by omega) member.1
    simp [set] at member
  have bound := Finset.card_le_card inside
  rwa [Finset.card_range] at bound

end Bitmap
