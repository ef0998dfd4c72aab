import Mathlib.Tactic.Common

set_option autoImplicit false

-- Fields of a machine word: w bits from bit s on.
namespace Fields

variable {n : Nat}

def field (w s : Nat) (x : BitVec n) : BitVec w := (x >>> s).setWidth w

def withField (w s : Nat) (v : BitVec w) (x : BitVec n) : BitVec n :=
  (x &&& ~~~((BitVec.allOnes w).setWidth n <<< s)) ||| (v.setWidth n <<< s)

section Bits

variable (w s : Nat) (v : BitVec w) (x : BitVec n) (i : Nat)

theorem field_bit (inside : i < w) : (field w s x).getLsbD i = x.getLsbD (s + i) := by
  simp [field, inside]

theorem field_of_bits (bits : ∀ k, k < w → x.getLsbD (s + k) = v.getLsbD k) : field w s x = v := by
  apply BitVec.eq_of_getLsbD_eq
  intro k inside
  rw [field_bit w s x k inside, bits k inside]

theorem with_field_bit (bound : i < n) :
    (withField w s v x).getLsbD i = if s ≤ i ∧ i < s + w then v.getLsbD (i - s) else x.getLsbD i := by
  have place : i - s < n := by omega
  simp only [withField, BitVec.getLsbD_or, BitVec.getLsbD_and, BitVec.getLsbD_not, BitVec.getLsbD_shiftLeft, BitVec.getLsbD_setWidth,
    BitVec.getLsbD_allOnes, bound, place, decide_true, Bool.true_and]
  by_cases below : i < s
  · have before : ¬ (s ≤ i ∧ i < s + w) := by omega
    simp [below, before]
  · by_cases inside : i < s + w
    · have here : i - s < w := by omega
      simp [below, inside, here, Nat.not_lt.mp below]
    · have beyond : v.getLsbD (i - s) = false := BitVec.getLsbD_of_ge v _ (by omega)
      have outside : ¬ i - s < w := by omega
      simp [inside, outside, beyond]

end Bits

section Laws

variable (w s : Nat) (v : BitVec w) (x : BitVec n)

theorem field_with_same (room : s + w ≤ n) : field w s (withField w s v x) = v := by
  apply field_of_bits
  intro i inside
  rw [with_field_bit _ _ _ _ _ (by omega), if_pos (by omega), Nat.add_sub_cancel_left]

theorem field_with_apart (w' s' : Nat) (room : s' + w' ≤ n) (apart : s' + w' ≤ s ∨ s + w ≤ s') :
    field w' s' (withField w s v x) = field w' s' x := by
  apply field_of_bits
  intro i inside
  rw [field_bit _ _ _ _ inside, with_field_bit _ _ _ _ _ (by omega), if_neg (by omega)]

end Laws

section Placing

variable (n w s : Nat) (v : BitVec w)

def place (n w s : Nat) (v : BitVec w) : BitVec n := v.setWidth n <<< s

def mask (n w s : Nat) : BitVec n := place n w s (BitVec.allOnes w)

theorem place_bit (i : Nat) (bound : i < n) : (place n w s v).getLsbD i = (decide (s ≤ i) && v.getLsbD (i - s)) := by
  have inside : i - s < n := Nat.lt_of_le_of_lt (Nat.sub_le i s) bound
  rw [place, BitVec.getLsbD_shiftLeft, BitVec.getLsbD_setWidth, decide_eq_true bound, decide_eq_true inside, Bool.true_and, Bool.true_and]
  by_cases below : i < s
  · rw [decide_eq_true below, decide_eq_false (Nat.not_le.mpr below), Bool.not_true]
  · rw [decide_eq_false below, decide_eq_true (Nat.not_lt.mp below), Bool.not_false]

theorem mask_bit (i : Nat) (bound : i < n) : (mask n w s).getLsbD i = decide (s ≤ i ∧ i < s + w) := by
  rw [mask, place_bit _ _ _ _ _ bound, BitVec.getLsbD_allOnes]
  by_cases here : s ≤ i
  · simp only [here, decide_true, Bool.true_and, true_and]
    exact decide_eq_decide.mpr (by omega)
  · simp [here]

theorem place_shift (k : Nat) : place n w s v <<< k = place n w (s + k) v := by rw [place, place, BitVec.shiftLeft_add]

theorem place_widened (n' : Nat) (room : s + w ≤ n) : (place n w s v).setWidth n' = place n' w s v := by
  apply BitVec.eq_of_getLsbD_eq
  intro i bound
  rw [BitVec.getLsbD_setWidth, place_bit _ _ _ _ _ bound, decide_eq_true bound, Bool.true_and]
  by_cases inside : i < n
  · rw [place_bit _ _ _ _ _ inside]
  · have beyond : v.getLsbD (i - s) = false := BitVec.getLsbD_of_ge v _ (by omega)
    rw [BitVec.getLsbD_of_ge _ _ (Nat.not_lt.mp inside), beyond, Bool.and_false]

theorem place_extended (n' : Nat) (room : s + w < n) : (place n w s v).signExtend n' = place n' w s v := by
  have positive : (place n w s v).msb = false := by
    rw [BitVec.msb_eq_getLsbD_last, place_bit _ _ _ _ _ (by omega), BitVec.getLsbD_of_ge v _ (by omega), Bool.and_false]
  rw [BitVec.signExtend_eq_setWidth_of_msb_false positive]
  exact place_widened n w s v n' (Nat.le_of_lt room)

end Placing

section Masking

variable (w s k : Nat) (x : BitVec n)

theorem field_place (v : BitVec w) (room : s + w ≤ n) : field w s (place n w s v) = v := by
  apply field_of_bits
  intro i inside
  rw [place_bit _ _ _ _ _ (by omega), Nat.add_sub_cancel_left, decide_eq_true (Nat.le_add_right s i), Bool.true_and]

theorem field_place_apart (w' s' : Nat) (v : BitVec w) (room : s' + w' ≤ n) (apart : s' + w' ≤ s ∨ s + w ≤ s') :
    field w' s' (place n w s v) = BitVec.ofNat w' 0 := by
  apply field_of_bits
  intro i inside
  rw [place_bit _ _ _ _ _ (by omega), BitVec.getLsbD_zero]
  by_cases below : s' + i < s
  · rw [decide_eq_false (by omega), Bool.false_and]
  · rw [BitVec.getLsbD_of_ge v _ (by omega), Bool.and_false]

theorem field_or (y : BitVec n) : field w s (x ||| y) = field w s x ||| field w s y := by
  rw [field, BitVec.ushiftRight_or_distrib, BitVec.setWidth_or]
  rfl

theorem field_field (w' s' : Nat) (room : s + w ≤ w') : field w s (field w' s' x) = field w (s' + s) x := by
  apply field_of_bits
  intro i inside
  rw [field_bit _ _ _ _ inside, field_bit _ _ _ _ (by omega), Nat.add_assoc]

theorem field_widened (n' : Nat) (wider : n ≤ n') : field w s (x.setWidth n') = field w s x := by
  apply field_of_bits
  intro i inside
  rw [field_bit _ _ _ _ inside, BitVec.getLsbD_setWidth]
  by_cases bound : s + i < n'
  · rw [decide_eq_true bound, Bool.true_and]
  · rw [decide_eq_false bound, Bool.false_and, BitVec.getLsbD_of_ge x _ (by omega)]

theorem field_append (w' : Nat) : field w' (s + w) x ++ field w s x = field (w' + w) s x := by
  symm
  apply field_of_bits
  intro i inside
  rw [BitVec.getLsbD_append]
  by_cases low : i < w
  · rw [if_pos low, field_bit _ _ _ _ low]
  · rw [if_neg low, field_bit _ _ _ _ (by omega), show s + w + (i - w) = s + i by omega]

theorem field_append_high (y : BitVec w) (v : BitVec k) (w' s' : Nat) (beyond : k ≤ s') : field w' s' (y ++ v) = field w' (s' - k) y := by
  apply field_of_bits
  intro i inside
  rw [field_bit _ _ _ _ inside, BitVec.getLsbD_append, if_neg (by omega), show s' + i - k = s' - k + i by omega]

theorem field_append_low (y : BitVec w) (v : BitVec k) (w' s' : Nat) (room : s' + w' ≤ k) : field w' s' (y ++ v) = field w' s' v := by
  apply field_of_bits
  intro i inside
  rw [field_bit _ _ _ _ inside, BitVec.getLsbD_append, if_pos (by omega)]

theorem place_append (w' : Nat) (v' : BitVec w') (v : BitVec w) : place n w' (s + w) v' ||| place n w s v = place n (w' + w) s (v' ++ v) := by
  apply BitVec.eq_of_getLsbD_eq
  intro i bound
  rw [BitVec.getLsbD_or, place_bit _ _ _ _ _ bound, place_bit _ _ _ _ _ bound, place_bit _ _ _ _ _ bound, BitVec.getLsbD_append]
  by_cases before : i < s
  · rw [decide_eq_false (by omega), decide_eq_false (by omega), Bool.false_and, Bool.false_and, Bool.false_and, Bool.false_or]
  by_cases low : i - s < w
  · rw [if_pos low, decide_eq_false (by omega), Bool.false_and, Bool.false_or]
  · rw [if_neg low, decide_eq_true (by omega), decide_eq_true (by omega), BitVec.getLsbD_of_ge v _ (by omega), Bool.and_false, Bool.or_false,
      show i - (s + w) = i - s - w by omega]

theorem place_fields (w' : Nat) : place n w' (s + w) (field w' (s + w) x) ||| place n w s (field w s x) = place n (w' + w) s (field (w' + w) s x) := by
  rw [place_append, field_append]

theorem place_whole : place n n 0 x = x := by
  rw [place, BitVec.setWidth_eq, BitVec.shiftLeft_zero]

theorem field_whole : field n 0 x = x := by
  rw [field, BitVec.ushiftRight_zero, BitVec.setWidth_eq]

theorem and_mask : x &&& mask n w s = place n w s (field w s x) := by
  apply BitVec.eq_of_getLsbD_eq
  intro i bound
  rw [BitVec.getLsbD_and, mask_bit _ _ _ _ bound, place_bit _ _ _ _ _ bound]
  by_cases here : s ≤ i ∧ i < s + w
  · rw [decide_eq_true here, decide_eq_true here.1, field_bit _ _ _ _ (by omega), show s + (i - s) = i by omega, Bool.and_true, Bool.true_and]
  · rw [decide_eq_false here, Bool.and_false]
    by_cases before : s ≤ i
    · rw [BitVec.getLsbD_of_ge (field w s x) _ (by omega), Bool.and_false]
    · rw [decide_eq_false before, Bool.false_and]

theorem shift_left_mask (room : s + w ≤ n) (carried : k ≤ s) : x <<< k &&& mask n w s = place n w s (field w (s - k) x) := by
  rw [and_mask w s (x <<< k)]
  apply congrArg
  apply field_of_bits
  intro i inside
  rw [field_bit _ _ _ _ inside, BitVec.getLsbD_shiftLeft, decide_eq_true (by omega), decide_eq_false (by omega),
    show s + i - k = s - k + i by omega]
  rfl

theorem shift_right_mask : x >>> k &&& mask n w s = place n w s (field w (s + k) x) := by
  rw [and_mask w s (x >>> k)]
  apply congrArg
  apply field_of_bits
  intro i inside
  rw [field_bit _ _ _ _ inside, BitVec.getLsbD_ushiftRight, show k + (s + i) = s + k + i by omega]

end Masking

end Fields
