import Mathlib.Data.Nat.Digits.Lemmas

set_option autoImplicit false

-- Numbers as lists of digits, in any base.
namespace Numerals

def low (b n : Nat) : List Nat := if n = 0 then [0] else Nat.digits b n

structure Canonical (b n : Nat) (ds : List Nat) : Prop where
  nonempty : ds ≠ []
  small : ∀ d ∈ ds, d < b
  leading : ds.head? = some 0 → ds = [0]
  value : Nat.ofDigits b ds.reverse = n

section Low

variable (b n k : Nat)

theorem low_last (base : 1 < b) (last : n / b = 0) : low b n = [n % b] := by
  rw [low]
  split_ifs with zero
  · rw [zero, Nat.zero_mod]
  · rw [Nat.digits_eq_cons_digits_div base zero, last, Nat.digits_zero]

theorem low_step (base : 1 < b) (more : n / b ≠ 0) : low b n = n % b :: low b (n / b) := by
  have positive : n ≠ 0 := by
    rintro rfl
    exact more (Nat.zero_div b)
  rw [low, if_neg positive, low, if_neg more, Nat.digits_eq_cons_digits_div base positive]

theorem low_positive : 0 < (low b n).length := by
  rw [low]
  split_ifs with zero
  · exact Nat.one_pos
  · exact List.length_pos_iff.mpr (Nat.digits_ne_nil_iff_ne_zero.mpr zero)

theorem low_length (base : 1 < b) (positive : 0 < k) (small : n < b ^ k) : (low b n).length ≤ k := by
  rw [low]
  split_ifs
  · exact positive
  · exact (Nat.digits_length_le_iff base n).mpr small

theorem low_small (base : 1 < b) (d : Nat) (member : d ∈ low b n) : d < b := by
  rw [low] at member
  split_ifs at member
  · obtain rfl := List.mem_singleton.mp member
    exact Nat.lt_of_succ_lt base
  · exact Nat.digits_lt_base base member

theorem low_canonical (base : 1 < b) : Canonical b n (low b n).reverse := by
  by_cases zero : n = 0
  · subst zero
    exact ⟨by simp [low], by simpa [low] using Nat.lt_of_succ_lt base, fun _ => by simp [low], by simp [low]⟩
  · refine ⟨?_, fun d member => low_small b n base d (List.mem_reverse.mp member), ?_, ?_⟩
    · rw [low, if_neg zero]
      exact fun empty => Nat.digits_ne_nil_iff_ne_zero.mpr zero (List.reverse_eq_nil_iff.mp empty)
    · intro leading
      rw [List.head?_reverse, low, if_neg zero, List.getLast?_eq_getLast_of_ne_nil (Nat.digits_ne_nil_iff_ne_zero.mpr zero)] at leading
      exact absurd (Option.some.inj leading) (Nat.getLast_digit_ne_zero b zero)
    · rw [List.reverse_reverse, low, if_neg zero, Nat.ofDigits_digits]

end Low

theorem of_digits_foldl (b acc : Nat) (ds : List Nat) :
    ds.foldl (fun v d => v * b + d) acc = acc * b ^ ds.length + Nat.ofDigits b ds.reverse := by
  induction ds generalizing acc with
  | nil => simp
  | cons d ds ih =>
      rw [List.foldl_cons, ih, List.reverse_cons, Nat.ofDigits_append, Nat.ofDigits_singleton, List.length_reverse, List.length_cons,
        Nat.pow_succ]
      ring

end Numerals
