import Deimos.Error
import Deimos.Lib.Comp

set_option autoImplicit false

namespace Deimos.Str

open Comp

-- One pass of the for loop of memset, over i and the memory.
def memsetBody (s c n : Word) (state : Word × Mem) : Except Stop (Iter (Word × Mem) (Word × Mem)) :=
  let (i, m) := state
  if i < n then .ok (.next (i + 1, Function.update m (s + i) (c.setWidth 8))) else .ok (.done (s, m))

def memset (s c n : Word) (m : Mem) : Comp Stop (Word × Mem) := loop (memsetBody s c n) (0, m)

theorem memset_loop (s c n i : Word) (m : Mem) (left : Nat) (count : i.toNat + left = n.toNat) :
    (loop (memsetBody s c n) (i, m.fill s i.toNat (c.setWidth 8))).Returns (s, m.fill s n.toNat (c.setWidth 8)) := by
  induction left generalizing i with
  | zero =>
      have last : i = n := BitVec.eq_of_toNat_eq count
      subst last
      have pass : memsetBody s c i (i, m.fill s i.toNat (c.setWidth 8)) = .ok (.done (s, m.fill s i.toNat (c.setWidth 8))) :=
        if_neg (BitVec.lt_irrefl i)
      exact (ends_loop_done _ _ _ _ pass).mpr rfl
  | succ left ih =>
      have before : i < n := by bv_omega
      have next : (i + 1).toNat = i.toNat + 1 := by bv_omega
      have pass : memsetBody s c n (i, m.fill s i.toNat (c.setWidth 8)) =
          .ok (.next (i + 1, m.fill s (i + 1).toNat (c.setWidth 8))) := by
        simp only [memsetBody, if_pos before, next, ← Mem.fill_next m s i.toNat (c.setWidth 8) i.isLt, BitVec.ofNat_toNat,
          BitVec.setWidth_eq]
      exact (ends_loop_next _ _ _ _ pass).mpr (ih (i + 1) (by omega))

theorem memset_returns (s c n : Word) (m : Mem) : (memset s c n m).Returns (s, m.fill s n.toNat (c.setWidth 8)) := by
  have start : m = m.fill s (0 : Word).toNat (c.setWidth 8) := (m.fill_none s (c.setWidth 8)).symm
  have walk := memset_loop s c n 0 m n.toNat (Nat.zero_add _)
  rw [← start] at walk
  exact walk

def memcpyBody (s1 s2 n : Word) (state : Word × Mem) : Except Stop (Iter (Word × Mem) (Word × Mem)) :=
  let (i, m) := state
  if i < n then .ok (.next (i + 1, Function.update m (s1 + i) (m (s2 + i)))) else .ok (.done (s1, m))

def memcpy (s1 s2 n : Word) (m : Mem) : Comp Stop (Word × Mem) := loop (memcpyBody s1 s2 n) (0, m)

def Clear (s1 s2 : Word) (n : Nat) : Prop := ∀ i < n, n ≤ (s2 + BitVec.ofNat 32 i - s1).toNat

structure UpTo (s1 s2 : Word) (n k : Nat) (m m' : Mem) : Prop where
  outside : ∀ x : Word, k ≤ (x - s1).toNat → m' x = m x
  inside : Clear s1 s2 n → ∀ i < k, m' (s1 + BitVec.ofNat 32 i) = m (s2 + BitVec.ofNat 32 i)

theorem copied_next (s1 s2 n i : Word) (m m' : Mem) (before : i < n) (copied : UpTo s1 s2 n.toNat i.toNat m m') :
    UpTo s1 s2 n.toNat (i + 1).toNat m (Function.update m' (s1 + i) (m' (s2 + i))) := by
  have next : (i + 1).toNat = i.toNat + 1 := by bv_omega
  refine ⟨fun x far => ?_, fun clear j inside => ?_⟩
  · have other : x ≠ s1 + i := by bv_omega
    rw [Function.update_of_ne other]
    exact copied.outside x (by omega)
  · by_cases last : j = i.toNat
    · have untouched := clear i.toNat (BitVec.lt_def.mp before)
      rw [last, BitVec.ofNat_toNat, BitVec.setWidth_eq, Function.update_self]
      rw [BitVec.ofNat_toNat, BitVec.setWidth_eq] at untouched
      exact copied.outside (s2 + i) (Nat.le_trans (Nat.le_of_lt (BitVec.lt_def.mp before)) untouched)
    · have other : s1 + BitVec.ofNat 32 j ≠ s1 + i := by bv_omega
      rw [Function.update_of_ne other]
      exact copied.inside clear j (by omega)

theorem memcpy_loop (s1 s2 n i : Word) (m m' : Mem) (left : Nat) (count : i.toNat + left = n.toNat)
    (copied : UpTo s1 s2 n.toNat i.toNat m m') :
    ∃ m'', (loop (memcpyBody s1 s2 n) (i, m')).Returns (s1, m'') ∧ UpTo s1 s2 n.toNat n.toNat m m'' := by
  induction left generalizing i m' with
  | zero =>
      have last : i = n := BitVec.eq_of_toNat_eq count
      subst last
      have pass : memcpyBody s1 s2 i (i, m') = .ok (.done (s1, m')) := if_neg (BitVec.lt_irrefl i)
      exact ⟨m', (ends_loop_done _ _ _ _ pass).mpr rfl, copied⟩
  | succ left ih =>
      have before : i < n := by bv_omega
      have pass : memcpyBody s1 s2 n (i, m') = .ok (.next (i + 1, Function.update m' (s1 + i) (m' (s2 + i)))) := if_pos before
      obtain ⟨m'', returned, whole⟩ := ih (i + 1) _ (by bv_omega) (copied_next s1 s2 n i m m' before copied)
      exact ⟨m'', (ends_loop_next _ _ _ _ pass).mpr returned, whole⟩

theorem memcpy_returns (s1 s2 n : Word) (m : Mem) :
    ∃ m', (memcpy s1 s2 n m).Returns (s1, m') ∧ UpTo s1 s2 n.toNat n.toNat m m' :=
  memcpy_loop s1 s2 n 0 m m n.toNat (Nat.zero_add _) ⟨fun _ _ => rfl, fun _ _ none => absurd none (Nat.not_lt_zero _)⟩

end Deimos.Str
