import Deimos.Error
import Deimos.Lib.Bytes
import Deimos.Lib.Comp

set_option autoImplicit false

namespace Deimos.Str

open Comp

-- One pass of each of the for loops of memmove, over i and the memory.
def memmoveUpBody (s1 s2 n : Word) (state : Word × Mem) : Except Stop (Iter (Word × Mem) Mem) :=
  let (i, m) := state
  if i < n then .ok (.next (i + 1, Function.update m (s1 + i) (m (s2 + i)))) else .ok (.done m)

def memmoveDownBody (s1 s2 : Word) (state : Word × Mem) : Except Stop (Iter (Word × Mem) Mem) :=
  let (i, m) := state
  if i ≠ 0 then .ok (.next (i - 1, Function.update m (s1 + (i - 1)) (m (s2 + (i - 1))))) else .ok (.done m)

def memmove (s1 s2 n : Word) (m : Mem) : Comp Stop (Word × Mem) :=
  (if s2 > s1 then loop (memmoveUpBody s1 s2 n) (0, m) else loop (memmoveDownBody s1 s2) (n, m)) >>= fun m => pure (s1, m)

def moved (m : Mem) (s1 s2 : Word) (lo hi : Nat) : Mem := fun x =>
  if lo ≤ (x - s1).toNat ∧ (x - s1).toNat < hi then m (s2 + (x - s1)) else m x

section Moves

variable (m : Mem) (s1 s2 : Word)

theorem moved_none (n : Nat) : moved m s1 s2 n n = m := funext (fun _ => if_neg (by omega))

theorem moved_next (lo hi lo' hi' : Nat) (i : Word) (widened : ∀ k, lo' ≤ k ∧ k < hi' ↔ lo ≤ k ∧ k < hi ∨ k = i.toNat)
    (ahead : ¬(lo ≤ (s2 + i - s1).toNat ∧ (s2 + i - s1).toNat < hi)) :
    Function.update (moved m s1 s2 lo hi) (s1 + i) (moved m s1 s2 lo hi (s2 + i)) = moved m s1 s2 lo' hi' := by
  have source : moved m s1 s2 lo hi (s2 + i) = m (s2 + i) := if_neg ahead
  funext x
  have place : x = s1 + i ↔ (x - s1).toNat = i.toNat := by
    constructor
    · rintro rfl
      congr 1
      bv_omega
    · intro same
      have equal : x - s1 = i := BitVec.eq_of_toNat_eq same
      bv_omega
  rw [source]
  by_cases here : x = s1 + i
  · have offset : x - s1 = i := BitVec.eq_of_toNat_eq (place.mp here)
    have inside : lo' ≤ (x - s1).toNat ∧ (x - s1).toNat < hi' := (widened _).mpr (.inr (place.mp here))
    rw [here, Function.update_self, ← here, moved, if_pos inside, offset]
  · have same : (lo' ≤ (x - s1).toNat ∧ (x - s1).toNat < hi') ↔ lo ≤ (x - s1).toNat ∧ (x - s1).toNat < hi :=
      (widened _).trans (or_iff_left (fun there => here (place.mpr there)))
    rw [Function.update_of_ne here, moved, moved]
    simp only [same]

variable (n : Word)

theorem memmove_up_loop (before : s1 < s2) (top : s2.toNat + n.toNat ≤ 2 ^ 32) (i : Word) (left : Nat) (count : i.toNat + left = n.toNat) :
    (loop (memmoveUpBody s1 s2 n) (i, moved m s1 s2 0 i.toNat)).Returns (moved m s1 s2 0 n.toNat) := by
  induction left generalizing i with
  | zero =>
      have last : i = n := BitVec.eq_of_toNat_eq count
      subst last
      have pass : memmoveUpBody s1 s2 i (i, moved m s1 s2 0 i.toNat) = .ok (.done (moved m s1 s2 0 i.toNat)) :=
        if_neg (BitVec.lt_irrefl i)
      exact (ends_loop_done _ _ _ _ pass).mpr rfl
  | succ left ih =>
      have more : i < n := by bv_omega
      have next : (i + 1).toNat = i.toNat + 1 := by bv_omega
      have ahead : ¬(0 ≤ (s2 + i - s1).toNat ∧ (s2 + i - s1).toNat < i.toNat) := by bv_omega
      have copied := moved_next m s1 s2 0 i.toNat 0 (i + 1).toNat i (fun k => by omega) ahead
      have pass : memmoveUpBody s1 s2 n (i, moved m s1 s2 0 i.toNat) = .ok (.next (i + 1, moved m s1 s2 0 (i + 1).toNat)) := by
        rw [← copied]
        exact if_pos more
      exact (ends_loop_next _ _ _ _ pass).mpr (ih (i + 1) (by omega))

theorem memmove_down_loop (behind : s2 ≤ s1) (top : s1.toNat + n.toNat ≤ 2 ^ 32) (left : Nat) (i : Word) (count : i.toNat = left)
    (inside : left ≤ n.toNat) :
    (loop (memmoveDownBody s1 s2) (i, moved m s1 s2 i.toNat n.toNat)).Returns (moved m s1 s2 0 n.toNat) := by
  induction left generalizing i with
  | zero =>
      have last : i = 0 := BitVec.eq_of_toNat_eq count
      subst last
      have pass : memmoveDownBody s1 s2 (0, moved m s1 s2 0 n.toNat) = .ok (.done (moved m s1 s2 0 n.toNat)) := by
        simp [memmoveDownBody]
      exact (ends_loop_done _ _ _ _ pass).mpr rfl
  | succ left ih =>
      have more : i ≠ 0 := by bv_omega
      have next : (i - 1).toNat = left := by bv_omega
      have ahead : ¬(i.toNat ≤ (s2 + (i - 1) - s1).toNat ∧ (s2 + (i - 1) - s1).toNat < n.toNat) := by bv_omega
      have copied := moved_next m s1 s2 i.toNat n.toNat (i - 1).toNat n.toNat (i - 1) (fun k => by omega) ahead
      have pass : memmoveDownBody s1 s2 (i, moved m s1 s2 i.toNat n.toNat) = .ok (.next (i - 1, moved m s1 s2 (i - 1).toNat n.toNat)) := by
        rw [← copied]
        exact if_pos more
      exact (ends_loop_next _ _ _ _ pass).mpr (ih (i - 1) next (by omega))

theorem memmove_returns (target : s1.toNat + n.toNat ≤ 2 ^ 32) (source : s2.toNat + n.toNat ≤ 2 ^ 32) :
    (memmove s1 s2 n m).Returns (s1, moved m s1 s2 0 n.toNat) := by
  have done : (if s2 > s1 then loop (memmoveUpBody s1 s2 n) (0, m) else loop (memmoveDownBody s1 s2) (n, m)).Returns
      (moved m s1 s2 0 n.toNat) := by
    by_cases before : s2 > s1
    · have walk := memmove_up_loop m s1 s2 n before source 0 n.toNat (Nat.zero_add _)
      rw [show (0 : Word).toNat = 0 from rfl, moved_none] at walk
      rwa [if_pos before]
    · have walk := memmove_down_loop m s1 s2 n (BitVec.not_lt.mp before) target n.toNat n rfl (Nat.le_refl _)
      rw [moved_none] at walk
      rwa [if_neg before]
  exact (ends_bind_of_returns _ (fun m' => pure (s1, m')) _ _ done).mpr ((ends_pure _ _).mpr rfl)

end Moves

theorem memmove_exact (s1 s2 n : Word) (m : Mem) (target : s1.toNat + n.toNat ≤ 2 ^ 32) (source : s2.toNat + n.toNat ≤ 2 ^ 32) :
    ∃ m', (memmove s1 s2 n m).Returns (s1, m') ∧
      (∀ i < n.toNat, m' (s1 + BitVec.ofNat 32 i) = m (s2 + BitVec.ofNat 32 i)) ∧
      ∀ x : Word, ¬(s1.toNat ≤ x.toNat ∧ x.toNat < s1.toNat + n.toNat) → m' x = m x := by
  refine ⟨_, memmove_returns m s1 s2 n target source, fun i inside => ?_, fun x outside => if_neg ?_⟩
  · have offset : s1 + BitVec.ofNat 32 i - s1 = BitVec.ofNat 32 i := by bv_omega
    rw [moved, offset]
    exact if_pos (by bv_omega)
  · bv_omega

theorem memmove_exact_at_overlap : ∃ m', (memmove 0x1001 0x1000 3 (fun x => x.setWidth 8)).Returns (0x1001, m') ∧
    m' 0x1001 = 0 ∧ m' 0x1002 = 1 ∧ m' 0x1003 = 2 := by
  obtain ⟨m', returned, copied, -⟩ := memmove_exact 0x1001 0x1000 3 (fun x => x.setWidth 8) (by decide) (by decide)
  exact ⟨m', returned, copied 0 (by decide), copied 1 (by decide), copied 2 (by decide)⟩

end Deimos.Str
