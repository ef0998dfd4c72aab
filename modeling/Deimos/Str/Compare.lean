import Deimos.Error
import Deimos.Lib.Bytes
import Deimos.Lib.Comp

set_option autoImplicit false

namespace Deimos.Str

open Comp

-- How strcmp and strncmp end, on the two chars they stopped at. A char is
-- signed on i386.
def verdict (c d : Byte) : Int := if c = d then 0 else if d.slt c then 1 else -1

-- The loops run over s1p and s2p, and in strncmp and memcmp over i.
def strcmpBody (m : Mem) (state : Word × Word) : Except Stop (Iter (Word × Word) Int) :=
  let (s1p, s2p) := state
  if m s1p ≠ 0 ∧ m s2p ≠ 0 ∧ m s1p = m s2p then .ok (.next (s1p + 1, s2p + 1)) else .ok (.done (verdict (m s1p) (m s2p)))

def strcmp (s1 s2 : Word) (m : Mem) : Comp Stop Int := loop (strcmpBody m) (s1, s2)

def strncmpBody (n : Word) (m : Mem) (state : Word × Word × Word) : Except Stop (Iter (Word × Word × Word) Int) :=
  let (i, s1p, s2p) := state
  if m s1p ≠ 0 ∧ m s2p ≠ 0 ∧ m s1p = m s2p ∧ i < n - 1 then .ok (.next (i + 1, s1p + 1, s2p + 1))
  else .ok (.done (verdict (m s1p) (m s2p)))

def strncmp (s1 s2 n : Word) (m : Mem) : Comp Stop Int := loop (strncmpBody n m) (0, s1, s2)

def memcmpBody (s1 s2 n : Word) (m : Mem) (i : Word) : Except Stop (Iter Word Int) :=
  if i < n then
    if m (s1 + i) = m (s2 + i) then .ok (.next (i + 1))
    else if m (s1 + i) > m (s2 + i) then .ok (.done 1)
    else .ok (.done (-1))
  else .ok (.done 0)

def memcmp (s1 s2 n : Word) (m : Mem) : Comp Stop Int := loop (memcmpBody s1 s2 n m) 0

-- The first two bytes in which two strings differ, the NUL of the shorter one
-- among them.
def firstDiff : List Byte → List Byte → Option (Byte × Byte)
  | [], [] => none
  | [], d :: _ => some (0, d)
  | c :: _, [] => some (c, 0)
  | c :: s, d :: t => if c = d then firstDiff s t else some (c, d)

-- The order of two strings by their first difference, bytes as chars and as numbers.
def signedOrder (s t : List Byte) : Int := (firstDiff s t).elim 0 (fun p => verdict p.1 p.2)

def unsignedOrder (s t : List Byte) : Int := (firstDiff s t).elim 0 (fun p => if p.1 > p.2 then 1 else -1)

section Difference

variable (s t : List Byte)

theorem first_diff_self : firstDiff s s = none := by
  induction s with
  | nil => rfl
  | cons c s ih => rw [firstDiff, if_pos rfl, ih]

theorem first_diff_ne (c d : Byte) (inner : ∀ b ∈ s, b ≠ 0) (inner' : ∀ b ∈ t, b ≠ 0) (differ : firstDiff s t = some (c, d)) : c ≠ d := by
  fun_induction firstDiff s t with
  | case1 => simp at differ
  | case2 d' t =>
      obtain ⟨rfl, rfl⟩ : 0 = c ∧ d' = d := by simpa using differ
      exact (inner' d' List.mem_cons_self).symm
  | case3 c' s =>
      obtain ⟨rfl, rfl⟩ : c' = c ∧ 0 = d := by simpa using differ
      exact inner c' List.mem_cons_self
  | case4 c' s t ih =>
      exact ih (fun b member => inner b (List.mem_cons_of_mem _ member)) (fun b member => inner' b (List.mem_cons_of_mem _ member)) differ
  | case5 c' s d' t other =>
      obtain ⟨rfl, rfl⟩ : c' = c ∧ d' = d := by simpa using differ
      exact other

theorem first_diff_none (inner : ∀ b ∈ s, b ≠ 0) (inner' : ∀ b ∈ t, b ≠ 0) : firstDiff s t = none ↔ s = t := by
  refine ⟨fun same => ?_, fun same => same ▸ first_diff_self s⟩
  fun_induction firstDiff s t with
  | case1 => rfl
  | case2 | case3 | case5 => simp at same
  | case4 c s t ih =>
      rw [ih (fun b member => inner b (List.mem_cons_of_mem _ member)) (fun b member => inner' b (List.mem_cons_of_mem _ member)) same]

theorem first_diff_lt (c d : Byte) (inner' : ∀ b ∈ t, b ≠ 0) (differ : firstDiff s t = some (c, d)) : s < t ↔ c < d := by
  fun_induction firstDiff s t with
  | case1 => simp at differ
  | case2 d' t =>
      obtain ⟨rfl, rfl⟩ : 0 = c ∧ d' = d := by simpa using differ
      have positive := inner' d' List.mem_cons_self
      exact iff_of_true (List.nil_lt_cons d' t) (by bv_omega)
  | case3 c' s =>
      obtain ⟨rfl, rfl⟩ : c' = c ∧ 0 = d := by simpa using differ
      exact iff_of_false (List.not_lt_nil _) (by bv_omega)
  | case4 c' s t ih =>
      rw [List.cons_lt_cons_self]
      exact ih (fun b member => inner' b (List.mem_cons_of_mem _ member)) differ
  | case5 c' s d' t other =>
      obtain ⟨rfl, rfl⟩ : c' = c ∧ d' = d := by simpa using differ
      rw [List.cons_lt_cons_iff]
      exact or_iff_left (fun both => other both.1)

theorem first_diff_swap : firstDiff t s = (firstDiff s t).map Prod.swap := by
  fun_induction firstDiff s t with
  | case1 | case2 | case3 => rfl
  | case4 c s t ih => rw [firstDiff, if_pos rfl, ih]
  | case5 c s d t other => rw [firstDiff, if_neg (fun same => other same.symm), Option.map_some, Prod.swap_prod_mk]

theorem first_diff_take (k : Nat) (apart : ∀ c s' t', s = c :: s' → t ≠ c :: t') :
    firstDiff (s.take (k + 1)) (t.take (k + 1)) = firstDiff s t := by
  cases s with
  | nil => cases t <;> rfl
  | cons c s =>
      cases t with
      | nil => rfl
      | cons d t =>
          have other : c ≠ d := fun same => apart c s t rfl (same ▸ rfl)
          rw [List.take_succ_cons, List.take_succ_cons, firstDiff, firstDiff, if_neg other, if_neg other]

end Difference

section Loops

variable (m : Mem) (a b : Word) (s t : List Byte)

theorem texts_agree (left : m.Text a s) (right : m.Text b t) (agree : m a ≠ 0 ∧ m b ≠ 0 ∧ m a = m b) :
    ∃ c s' t', s = c :: s' ∧ t = c :: t' ∧ m.Text (a + 1) s' ∧ m.Text (b + 1) t' := by
  obtain ⟨nonzero, nonzero', same⟩ := agree
  cases s with
  | nil => exact absurd (left.nil_iff.mpr rfl) nonzero
  | cons c s =>
      cases t with
      | nil => exact absurd (right.nil_iff.mpr rfl) nonzero'
      | cons d t =>
          obtain rfl : c = d := left.tail.1.symm.trans (same.trans right.tail.1)
          exact ⟨c, s, t, rfl, rfl, left.tail.2, right.tail.2⟩

theorem texts_apart (left : m.Text a s) (right : m.Text b t) (differ : ¬(m a ≠ 0 ∧ m b ≠ 0 ∧ m a = m b)) (c : Byte) (s' t' : List Byte)
    (first : s = c :: s') : t ≠ c :: t' := by
  rintro rfl
  subst first
  exact differ ⟨fun zero => List.cons_ne_nil c s' (left.nil_iff.mp zero), fun zero => List.cons_ne_nil c t' (right.nil_iff.mp zero),
    left.tail.1.trans right.tail.1.symm⟩

theorem texts_differ (left : m.Text a s) (right : m.Text b t) (differ : ¬(m a ≠ 0 ∧ m b ≠ 0 ∧ m a = m b)) :
    verdict (m a) (m b) = signedOrder s t := by
  cases s with
  | nil =>
      rw [left.nil_iff.mpr rfl]
      cases t with
      | nil =>
          rw [right.nil_iff.mpr rfl]
          rfl
      | cons d t =>
          rw [right.tail.1]
          rfl
  | cons c s =>
      cases t with
      | nil =>
          rw [right.nil_iff.mpr rfl, left.tail.1]
          rfl
      | cons d t =>
          have other : c ≠ d := fun same => texts_apart m a b (c :: s) (d :: t) left right differ c s t rfl (same ▸ rfl)
          rw [signedOrder, firstDiff, if_neg other, left.tail.1, right.tail.1]
          rfl

theorem strcmp_returns (left : m.Text a s) (right : m.Text b t) : (strcmp a b m).Returns (signedOrder s t) := by
  rw [strcmp]
  induction s generalizing a b t with
  | nil =>
      have differ : ¬(m a ≠ 0 ∧ m b ≠ 0 ∧ m a = m b) := fun agree => agree.1 (left.nil_iff.mpr rfl)
      rw [← texts_differ m a b [] t left right differ]
      exact (ends_loop_done (strcmpBody m) (a, b) _ _ (if_neg differ)).mpr rfl
  | cons c s ih =>
      by_cases agree : m a ≠ 0 ∧ m b ≠ 0 ∧ m a = m b
      · obtain ⟨_, s', t', same, rfl, left', right'⟩ := texts_agree m a b (c :: s) t left right agree
        obtain ⟨rfl, rfl⟩ := List.cons.inj same
        rw [signedOrder, firstDiff, if_pos rfl]
        exact (ends_loop_next (strcmpBody m) (a, b) _ _ (if_pos agree)).mpr (ih (a + 1) (b + 1) t' left' right')
      · rw [← texts_differ m a b (c :: s) t left right agree]
        exact (ends_loop_done (strcmpBody m) (a, b) _ _ (if_neg agree)).mpr rfl

-- The count of strncmp lets it walk over n - 1 bytes, which for n = 0 is one
-- less than the whole address space.
theorem strncmp_loop (n i : Word) (left : m.Text a s) (right : m.Text b t) (k : Nat) (room : i.toNat + k = (n - 1).toNat) :
    (loop (strncmpBody n m) (i, a, b)).Returns (signedOrder (s.take (k + 1)) (t.take (k + 1))) := by
  induction k generalizing i a b s t with
  | zero =>
      have last : ¬ i < n - 1 := by bv_omega
      have pass : strncmpBody n m (i, a, b) = .ok (.done (verdict (m a) (m b))) := if_neg (fun go => last go.2.2.2)
      refine (ends_loop_done _ _ _ _ pass).mpr (congrArg Except.ok ?_)
      by_cases agree : m a ≠ 0 ∧ m b ≠ 0 ∧ m a = m b
      · obtain ⟨c, s', t', rfl, rfl, -, -⟩ := texts_agree m a b s t left right agree
        rw [verdict, if_pos agree.2.2, signedOrder]
        simp [first_diff_self]
      · rw [texts_differ m a b s t left right agree, signedOrder, first_diff_take s t 0 (texts_apart m a b s t left right agree)]
        rfl
  | succ k ih =>
      have more : i < n - 1 := by bv_omega
      have next : (i + 1).toNat + k = (n - 1).toNat := by bv_omega
      by_cases agree : m a ≠ 0 ∧ m b ≠ 0 ∧ m a = m b
      · have pass : strncmpBody n m (i, a, b) = .ok (.next (i + 1, a + 1, b + 1)) :=
          if_pos ⟨agree.1, agree.2.1, agree.2.2, more⟩
        obtain ⟨c, s', t', rfl, rfl, left', right'⟩ := texts_agree m a b s t left right agree
        rw [List.take_succ_cons, List.take_succ_cons, signedOrder, firstDiff, if_pos rfl]
        exact (ends_loop_next _ _ _ _ pass).mpr (ih (a + 1) (b + 1) s' t' (i + 1) left' right' next)
      · have pass : strncmpBody n m (i, a, b) = .ok (.done (verdict (m a) (m b))) :=
          if_neg (fun go => agree ⟨go.1, go.2.1, go.2.2.1⟩)
        rw [signedOrder, first_diff_take s t (k + 1) (texts_apart m a b s t left right agree)]
        exact (ends_loop_done _ _ _ _ pass).mpr (congrArg Except.ok (texts_differ m a b s t left right agree).symm)

theorem strncmp_returns (n : Word) (left : m.Text a s) (right : m.Text b t) :
    (strncmp a b n m).Returns (signedOrder (s.take ((n - 1).toNat + 1)) (t.take ((n - 1).toNat + 1))) :=
  strncmp_loop m a b s t n 0 left right (n - 1).toNat (Nat.zero_add _)

theorem memcmp_stops (n i : Word) (more : i < n) (other : m (a + i) ≠ m (b + i)) :
    (loop (memcmpBody a b n m) i).Returns (if m (a + i) > m (b + i) then 1 else -1) := by
  refine (ends_loop_done _ _ _ _ ?_).mpr rfl
  rw [memcmpBody, if_pos more, if_neg other]
  split_ifs <;> rfl

theorem memcmp_loop (n i : Word) (left : m.Text (a + i) s) (right : m.Text (b + i) t)
    (room : i.toNat + (min s.length t.length + 1) = n.toNat) : (loop (memcmpBody a b n m) i).Returns (unsignedOrder s t) := by
  have more : i < n := by bv_omega
  induction s generalizing i t with
  | nil =>
      have first : m (a + i) = 0 := left.nil_iff.mpr rfl
      cases t with
      | nil =>
          have pass : memcmpBody a b n m i = .ok (.next (i + 1)) := by
            rw [memcmpBody, if_pos more, if_pos (first.trans (right.nil_iff.mpr rfl).symm)]
          have stop : memcmpBody a b n m (i + 1) = .ok (.done 0) := by
            have last : ¬ i + 1 < n := by
              simp only [List.length_nil, Nat.min_self] at room
              bv_omega
            exact if_neg last
          exact (ends_loop_next _ _ _ _ pass).mpr ((ends_loop_done _ _ _ _ stop).mpr rfl)
      | cons d t =>
          have second : m (b + i) = d := right.tail.1
          have other : m (a + i) ≠ m (b + i) := by
            rw [first, second]
            exact (right.inner d List.mem_cons_self).symm
          have stopped := memcmp_stops m a b n i more other
          rwa [first, second] at stopped
  | cons c s ih =>
      have first : m (a + i) = c := left.tail.1
      cases t with
      | nil =>
          have second : m (b + i) = 0 := right.nil_iff.mpr rfl
          have other : m (a + i) ≠ m (b + i) := by
            rw [first, second]
            exact left.inner c List.mem_cons_self
          have stopped := memcmp_stops m a b n i more other
          rwa [first, second] at stopped
      | cons d t =>
          have second : m (b + i) = d := right.tail.1
          by_cases same : c = d
          · subst same
            have pass : memcmpBody a b n m i = .ok (.next (i + 1)) := by
              rw [memcmpBody, if_pos more, if_pos (first.trans second.symm)]
            have shorter : min (c :: s).length (c :: t).length = min s.length t.length + 1 := by
              simp only [List.length_cons, Nat.add_min_add_right]
            have room' : (i + 1).toNat + (min s.length t.length + 1) = n.toNat := by bv_omega
            have walk := ih t (i + 1) (BitVec.add_assoc a i 1 ▸ left.tail.2) (BitVec.add_assoc b i 1 ▸ right.tail.2) room' (by bv_omega)
            rw [unsignedOrder, firstDiff, if_pos rfl]
            exact (ends_loop_next _ _ _ _ pass).mpr walk
          · have stopped := memcmp_stops m a b n i more (by rwa [first, second])
            rw [first, second] at stopped
            rwa [unsignedOrder, firstDiff, if_neg same]

theorem texts_full (left : m.Text a s) (right : m.Text b t) (full : min s.length t.length + 1 = 2 ^ 32) : s = t := by
  have bound := left.length_lt
  have bound' := right.length_lt
  have whole : s.length = 2 ^ 32 - 1 := by omega
  have whole' : t.length = 2 ^ 32 - 1 := by omega
  have last := right.last
  have place : b + BitVec.ofNat 32 t.length = a + BitVec.ofNat 32 (b + BitVec.ofNat 32 t.length - a).toNat := by bv_omega
  have same : a = b := by
    by_cases inside : (b + BitVec.ofNat 32 t.length - a).toNat < s.length
    · rw [place] at last
      exact absurd last (left.inside _ inside)
    · bv_omega
  rw [← left.bytes_eq, ← right.bytes_eq, whole, whole', same]

theorem memcmp_returns (left : m.Text a s) (right : m.Text b t) :
    (memcmp a b (BitVec.ofNat 32 (min s.length t.length + 1)) m).Returns (unsignedOrder s t) := by
  by_cases full : min s.length t.length + 1 = 2 ^ 32
  · obtain rfl := texts_full m a b s t left right full
    rw [full, unsignedOrder, first_diff_self]
    exact (ends_loop_done _ _ _ _ rfl).mpr rfl
  · have bound := left.length_lt
    have count : 0 + (min s.length t.length + 1) = (BitVec.ofNat 32 (min s.length t.length + 1)).toNat := by
      rw [BitVec.toNat_ofNat, Nat.mod_eq_of_lt (by omega), Nat.zero_add]
    have start : ∀ x : Word, x + 0 = x := BitVec.add_zero
    exact memcmp_loop m a b s t _ 0 ((start a).symm ▸ left) ((start b).symm ▸ right) count

end Loops

section Orders

variable (s t : List Byte) (inner : ∀ b ∈ s, b ≠ 0) (inner' : ∀ b ∈ t, b ≠ 0)

theorem verdict_swap (c d : Byte) : verdict d c = -verdict c d := by
  have signed : d.slt c = true ↔ d.toInt < c.toInt := BitVec.slt_iff_toInt_lt
  have signed' : c.slt d = true ↔ c.toInt < d.toInt := BitVec.slt_iff_toInt_lt
  have equal : c = d ↔ c.toInt = d.toInt := BitVec.toInt_inj.symm
  have equal' : d = c ↔ d.toInt = c.toInt := BitVec.toInt_inj.symm
  simp only [verdict, signed, signed', equal, equal']
  split_ifs <;> omega

theorem signed_order_swap : signedOrder t s = -signedOrder s t := by
  rw [signedOrder, signedOrder, first_diff_swap]
  cases firstDiff s t with
  | none => rfl
  | some p => exact verdict_swap p.1 p.2

-- Chars and bytes are ordered alike on each side of 0x80, and the other way
-- round across it.
theorem verdict_eq_iff (c d : Byte) (other : c ≠ d) : verdict c d = (if c > d then 1 else -1) ↔ (c < 0x80 ↔ d < 0x80) := by
  have half : ∀ b : Byte, b < 0x80 ↔ b.msb = false := by decide
  have unsigned : d.ult c = true ↔ c > d := BitVec.ult_iff_lt
  rw [half, half, verdict, if_neg other]
  by_cases same : d.msb = c.msb
  · rw [BitVec.slt_eq_ult_of_msb_eq same, same]
    simp only [unsigned]
  · rw [BitVec.slt_eq_not_ult_of_msb_neq same]
    have opposite : ¬(c.msb = false ↔ d.msb = false) := by
      intro both
      exact same (by grind)
    refine iff_of_false ?_ opposite
    by_cases greater : c > d
    · simp [unsigned.mpr greater, greater]
    · have not_ult : d.ult c = false := Bool.eq_false_iff.mpr (fun ult => greater (unsigned.mp ult))
      simp [not_ult, greater]

end Orders

section Texts

variable (s t : List Byte) (inner : ∀ b ∈ s, b ≠ 0) (inner' : ∀ b ∈ t, b ≠ 0)

include inner inner'

theorem orders_agree_iff : signedOrder s t = unsignedOrder s t ↔ ∀ c d, firstDiff s t = some (c, d) → (c < 0x80 ↔ d < 0x80) := by
  cases differ : firstDiff s t with
  | none => simp [signedOrder, unsignedOrder, differ]
  | some p =>
      rw [signedOrder, unsignedOrder, differ]
      have same := verdict_eq_iff p.1 p.2 (first_diff_ne s t p.1 p.2 inner inner' differ)
      refine same.trans ⟨?_, fun all => all p.1 p.2 rfl⟩
      rintro agree c d found
      obtain rfl := Option.some.inj found
      exact agree

theorem signed_order_zero : signedOrder s t = 0 ↔ s = t := by
  rw [← first_diff_none s t inner inner', signedOrder]
  cases differ : firstDiff s t with
  | none => simp
  | some p =>
      have other := first_diff_ne s t p.1 p.2 inner inner' differ
      simp only [Option.elim_some, reduceCtorEq, iff_false, verdict, if_neg other]
      split_ifs <;> decide

theorem unsigned_order_spec : (unsignedOrder s t = 0 ↔ s = t) ∧ (unsignedOrder s t < 0 ↔ s < t) ∧ (0 < unsignedOrder s t ↔ t < s) := by
  rw [← first_diff_none s t inner inner']
  cases differ : firstDiff s t with
  | none =>
      obtain rfl := (first_diff_none s t inner inner').mp differ
      simp [unsignedOrder, differ]
  | some p =>
      have swapped : firstDiff t s = some (p.2, p.1) := by
        rw [first_diff_swap, differ]
        rfl
      have other := first_diff_ne s t p.1 p.2 inner inner' differ
      rw [first_diff_lt s t p.1 p.2 inner' differ, first_diff_lt t s p.2 p.1 inner swapped, unsignedOrder, differ]
      simp only [Option.elim_some, reduceCtorEq, iff_false]
      by_cases greater : p.1 > p.2
      · simp [greater, BitVec.le_of_lt greater]
      · have less : p.1 < p.2 := by bv_omega
        simp [greater, less]

end Texts

-- The strings are ordered by their bytes just when the first two that differ
-- are on one side of 0x80.
theorem comparisons_agree_iff (m : Mem) (a b : Word) (s t : List Byte) (left : m.Text a s) (right : m.Text b t) :
    ∃ r r', (strcmp a b m).Returns r ∧ (strcmp b a m).Returns (-r) ∧
      (memcmp a b (BitVec.ofNat 32 (min s.length t.length + 1)) m).Returns r' ∧
      ((r = r' ∧ (r = 0 ↔ s = t) ∧ (r < 0 ↔ s < t) ∧ (0 < r ↔ t < s)) ↔
        ∀ c d, firstDiff s t = some (c, d) → (c < 0x80 ↔ d < 0x80)) := by
  have spec := unsigned_order_spec s t left.inner right.inner
  refine ⟨signedOrder s t, unsignedOrder s t, strcmp_returns m a b s t left right, ?_, memcmp_returns m a b s t left right, ?_⟩
  · rw [← signed_order_swap]
    exact strcmp_returns m b a t s right left
  · rw [← orders_agree_iff s t left.inner right.inner]
    refine ⟨And.left, fun same => ⟨same, ?_⟩⟩
    rw [same]
    exact spec

def charAt (c : Byte) : Mem := fun x => if x = 0x1000 then c else 0

theorem char_at_text (c : Byte) (nonzero : c ≠ 0) : (charAt c).Text 0x1000 [c] where
  holds := ⟨rfl, rfl, trivial⟩
  inner := by simpa using nonzero

theorem char_at_empty (c : Byte) : (charAt c).Text 0x2000 [] where
  holds := ⟨rfl, trivial⟩
  inner := by simp

theorem comparisons_agree_at_letter :
    ∃ r r', (strcmp 0x1000 0x2000 (charAt 0x61)).Returns r ∧ (memcmp 0x1000 0x2000 1 (charAt 0x61)).Returns r' ∧ r = r' := by
  obtain ⟨r, r', compared, -, compared', agree⟩ :=
    comparisons_agree_iff (charAt 0x61) 0x1000 0x2000 [0x61] [] (char_at_text 0x61 (by decide)) (char_at_empty 0x61)
  have small : ∀ c d : Byte, firstDiff [0x61] [] = some (c, d) → (c < 0x80 ↔ d < 0x80) := by
    rintro c d differ
    obtain ⟨rfl, rfl⟩ : 0x61 = c ∧ 0 = d := by simpa [firstDiff] using differ
    decide
  exact ⟨r, r', compared, compared', (agree.mpr small).1⟩

theorem comparisons_differ_at_accent : ¬ ∀ (m : Mem) (a b : Word) (s t : List Byte), m.Text a s → m.Text b t →
    ∃ r, (strcmp a b m).Returns r ∧ (memcmp a b (BitVec.ofNat 32 (min s.length t.length + 1)) m).Returns r := by
  intro all
  have left := char_at_text 0xE9 (by decide)
  have right := char_at_empty 0xE9
  obtain ⟨r, compared, compared'⟩ := all (charAt 0xE9) 0x1000 0x2000 [0xE9] [] left right
  have signed := returns_unique _ _ _ compared (strcmp_returns _ _ _ _ _ left right)
  have unsigned := returns_unique _ _ _ compared' (memcmp_returns _ _ _ _ _ left right)
  exact absurd (signed.symm.trans unsigned) (by decide)

-- With n = 0 the bound n - 1 wraps, and the strings are compared to their ends.
theorem strncmp_truncated_iff (m m' : Mem) (a b a' b' n : Word) (s t : List Byte) (left : m.Text a s) (right : m.Text b t)
    (left' : m'.Text a' (s.take n.toNat)) (right' : m'.Text b' (t.take n.toNat)) :
    (∃ r, (strncmp a b n m).Returns r ∧ (strcmp a' b' m').Returns r) ↔ n ≠ 0 ∨ s = t := by
  have bounded := strncmp_returns m a b s t n left right
  have truncated := strcmp_returns m' a' b' _ _ left' right'
  by_cases zero : n = 0
  · subst zero
    have whole : ((0 : Word) - 1).toNat + 1 = 2 ^ 32 := rfl
    rw [whole, List.take_of_length_le (Nat.le_of_lt left.length_lt), List.take_of_length_le (Nat.le_of_lt right.length_lt)] at bounded
    have empty : signedOrder (s.take (0 : Word).toNat) (t.take (0 : Word).toNat) = 0 := rfl
    rw [empty] at truncated
    rw [or_iff_right (not_not.mpr rfl), ← signed_order_zero s t left.inner right.inner]
    constructor
    · rintro ⟨r, compared, compared'⟩
      rw [← returns_unique _ _ _ compared bounded]
      exact returns_unique _ _ _ compared' truncated
    · intro same
      exact ⟨0, same ▸ bounded, truncated⟩
  · have count : (n - 1).toNat + 1 = n.toNat := by bv_omega
    rw [count] at bounded
    exact iff_of_true ⟨_, bounded, truncated⟩ (.inl zero)

theorem strncmp_truncated_at_letter :
    ∃ r, (strncmp 0x1000 0x2000 1 (charAt 0x61)).Returns r ∧ (strcmp 0x1000 0x2000 (charAt 0x61)).Returns r := by
  have left := char_at_text 0x61 (by decide)
  have right := char_at_empty 0x61
  exact (strncmp_truncated_iff (charAt 0x61) (charAt 0x61) 0x1000 0x2000 0x1000 0x2000 1 [0x61] [] left right left right).mpr
    (.inl (by decide))

theorem strncmp_untruncated_at_zero : ¬ ∀ (m m' : Mem) (a b a' b' n : Word) (s t : List Byte), m.Text a s → m.Text b t →
    m'.Text a' (s.take n.toNat) → m'.Text b' (t.take n.toNat) →
    ∃ r, (strncmp a b n m).Returns r ∧ (strcmp a' b' m').Returns r := by
  intro all
  have left := char_at_text 0x61 (by decide)
  have right := char_at_empty 0x61
  obtain ⟨r, bounded, truncated⟩ :=
    all (charAt 0x61) (charAt 0x61) 0x1000 0x2000 0x2000 0x2000 0 [0x61] [] left right right right
  have one := returns_unique _ _ _ bounded (strncmp_returns _ _ _ _ _ 0 left right)
  have zero := returns_unique _ _ _ truncated (strcmp_returns _ _ _ _ _ right right)
  exact absurd (one.symm.trans zero) (by decide)

end Deimos.Str
