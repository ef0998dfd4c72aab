import Mathlib.Algebra.GroupWithZero.Nat
import Mathlib.Tactic.Common

set_option autoImplicit false

-- Byte-addressed memory of a 32-bit little-endian machine. Addresses are
-- words, so an access that runs past the top of the address space wraps.
abbrev Byte := BitVec 8
abbrev Word := BitVec 32
abbrev Mem := Word → Byte

-- Stated once, so that all modules decide membership in a list of words alike.
instance : LawfulBEq Word := inferInstance

namespace Mem

def read (m : Mem) (a : Word) : Word :=
  BitVec.ofNat 32 ((m a).toNat + 256 * (m (a + 1)).toNat + 65536 * (m (a + 2)).toNat + 16777216 * (m (a + 3)).toNat)

def write (m : Mem) (a value : Word) : Mem := fun x =>
  if x = a then BitVec.ofNat 8 value.toNat
  else if x = a + 1 then BitVec.ofNat 8 (value.toNat / 256)
  else if x = a + 2 then BitVec.ofNat 8 (value.toNat / 65536)
  else if x = a + 3 then BitVec.ofNat 8 (value.toNat / 16777216)
  else m x

def Apart (a : Word) (n : Nat) (b : Word) (k : Nat) : Prop := n ≤ (b - a).toNat ∧ k ≤ (a - b).toNat

theorem Apart.symm {a b : Word} {n k : Nat} (apart : Apart a n b k) : Apart b k a n := ⟨apart.2, apart.1⟩

theorem apart_of_le {a b : Word} {n k : Nat} (before : a.toNat + n ≤ b.toNat) (top : b.toNat + k ≤ 2 ^ 32)
    (positive : 0 < n) : Apart a n b k := by
  constructor <;> bv_omega

theorem Apart.offset {a b : Word} {n k : Nat} (apart : Apart a n b k) (i j : Word) (n' k' : Nat)
    (inside : i.toNat + n' ≤ n) (within : j.toNat + k' ≤ k) (left : 0 < n') (right : 0 < k') :
    Apart (a + i) n' (b + j) k' := by
  obtain ⟨forward, backward⟩ := apart
  constructor <;> bv_omega

theorem read_congr (m m' : Mem) (a : Word) (same : ∀ x : Word, (x - a).toNat < 4 → m' x = m x) :
    m'.read a = m.read a := by
  have zero := same a (by bv_omega)
  have one := same (a + 1) (by bv_omega)
  have two := same (a + 2) (by bv_omega)
  have three := same (a + 3) (by bv_omega)
  simp only [read, zero, one, two, three]

theorem write_other (m : Mem) (a value x : Word) (outside : 4 ≤ (x - a).toNat) : m.write a value x = m x := by
  have zero : x ≠ a := by bv_omega
  have one : x ≠ a + 1 := by bv_omega
  have two : x ≠ a + 2 := by bv_omega
  have three : x ≠ a + 3 := by bv_omega
  simp only [write, if_neg zero, if_neg one, if_neg two, if_neg three]

theorem read_write_same (m : Mem) (a value : Word) : (m.write a value).read a = value := by
  have one : a + 1 ≠ a := by bv_omega
  have two : a + 2 ≠ a ∧ a + 2 ≠ a + 1 := by constructor <;> bv_omega
  have three : a + 3 ≠ a ∧ a + 3 ≠ a + 1 ∧ a + 3 ≠ a + 2 := by refine ⟨?_, ?_, ?_⟩ <;> bv_omega
  simp only [read, write, if_neg one, if_neg two.1, if_neg two.2, if_neg three.1, if_neg three.2.1,
    if_neg three.2.2, if_true]
  apply BitVec.eq_of_toNat_eq
  simp only [BitVec.toNat_ofNat]
  have bound := value.isLt
  omega

theorem read_write_apart (m : Mem) (a value b : Word) (apart : Apart a 4 b 4) :
    (m.write a value).read b = m.read b := by
  apply read_congr
  intro x near
  apply write_other
  obtain ⟨forward, backward⟩ := apart
  bv_omega

theorem read_to_nat (m : Mem) (a : Word) : (m.read a).toNat =
    (m a).toNat + 256 * (m (a + 1)).toNat + 65536 * (m (a + 2)).toNat + 16777216 * (m (a + 3)).toNat := by
  have zero := (m a).isLt
  have one := (m (a + 1)).isLt
  have two := (m (a + 2)).isLt
  have three := (m (a + 3)).isLt
  rw [read, BitVec.toNat_ofNat]
  exact Nat.mod_eq_of_lt (by omega)

theorem read_low (m : Mem) (a : Word) : m a = BitVec.ofNat 8 (m.read a).toNat := by
  have whole := m.read_to_nat a
  apply BitVec.eq_of_toNat_eq
  rw [BitVec.toNat_ofNat]
  omega

theorem write_read_self (m : Mem) (a : Word) : m.write a (m.read a) = m := by
  have whole := m.read_to_nat a
  funext x
  simp only [write, whole]
  split_ifs with first second third fourth
  · subst first
    apply BitVec.eq_of_toNat_eq
    rw [BitVec.toNat_ofNat]
    omega
  · subst second
    apply BitVec.eq_of_toNat_eq
    rw [BitVec.toNat_ofNat]
    omega
  · subst third
    apply BitVec.eq_of_toNat_eq
    rw [BitVec.toNat_ofNat]
    omega
  · subst fourth
    apply BitVec.eq_of_toNat_eq
    rw [BitVec.toNat_ofNat]
    omega
  · rfl

def fill (m : Mem) (a : Word) (n : Nat) (value : Byte) : Mem := fun x => if (x - a).toNat < n then value else m x

section Fill

variable (m : Mem) (a x : Word) (n : Nat) (value : Byte)

theorem fill_inside (near : (x - a).toNat < n) : m.fill a n value x = value := if_pos near

theorem fill_outside (far : n ≤ (x - a).toNat) : m.fill a n value x = m x := if_neg (Nat.not_lt.mpr far)

theorem fill_none : m.fill a 0 value = m := funext (fun x => m.fill_outside a x 0 value (Nat.zero_le _))

theorem fill_next (room : n < 2 ^ 32) :
    Function.update (m.fill a n value) (a + BitVec.ofNat 32 n) value = m.fill a (n + 1) value := by
  funext x
  by_cases last : x = a + BitVec.ofNat 32 n
  · subst last
    have near : (a + BitVec.ofNat 32 n - a).toNat < n + 1 := by bv_omega
    rw [Function.update_self, fill_inside _ _ _ _ _ near]
  · rw [Function.update_of_ne last]
    by_cases near : (x - a).toNat < n
    · rw [fill_inside _ _ _ _ _ near, fill_inside _ _ _ _ _ (Nat.lt_succ_of_lt near)]
    · have far : n + 1 ≤ (x - a).toNat := by bv_omega
      rw [fill_outside _ _ _ _ _ (Nat.not_lt.mp near), fill_outside _ _ _ _ _ far]

end Fill

def readHalf (m : Mem) (a : Word) : BitVec 16 := m (a + 1) ++ m a

def writeHalf (m : Mem) (a : Word) (value : BitVec 16) : Mem := fun x =>
  if x = a then value.setWidth 8 else if x = a + 1 then (value >>> 8).setWidth 8 else m x

def halves (m : Mem) (a : Word) (n : Nat) (values : Nat → BitVec 16) : Mem := fun x =>
  if (x - a).toNat < 2 * n then
    if (x - a).toNat % 2 = 0 then (values ((x - a).toNat / 2)).setWidth 8 else (values ((x - a).toNat / 2) >>> 8).setWidth 8
  else m x

section Halves

variable (m : Mem) (a x : Word) (n : Nat) (values : Nat → BitVec 16)

theorem halves_none : m.halves a 0 values = m := funext (fun _ => if_neg (Nat.not_lt_zero _))

theorem halves_outside (far : 2 * n ≤ (x - a).toNat) : m.halves a n values x = m x := if_neg (Nat.not_lt.mpr far)

theorem halves_next (room : 2 * n + 2 ≤ 2 ^ 32) :
    (m.halves a n values).writeHalf (a + BitVec.ofNat 32 (2 * n)) (values n) = m.halves a (n + 1) values := by
  funext x
  have low : x = a + BitVec.ofNat 32 (2 * n) ↔ (x - a).toNat = 2 * n := by constructor <;> bv_omega
  have high : x = a + BitVec.ofNat 32 (2 * n) + 1 ↔ (x - a).toNat = 2 * n + 1 := by constructor <;> bv_omega
  simp only [writeHalf, halves, low, high]
  generalize (x - a).toNat = i
  by_cases first : i = 2 * n
  · have place : i % 2 = 0 ∧ i / 2 = n ∧ i < 2 * (n + 1) := by omega
    rw [if_pos first, if_pos place.2.2, if_pos place.1, place.2.1]
  · by_cases second : i = 2 * n + 1
    · have place : ¬ i % 2 = 0 ∧ i / 2 = n ∧ i < 2 * (n + 1) := by omega
      rw [if_neg first, if_pos second, if_pos place.2.2, if_neg place.1, place.2.1]
    · rw [if_neg first, if_neg second]
      by_cases inside : i < 2 * n
      · rw [if_pos inside, if_pos (Nat.lt_of_lt_of_le inside (Nat.mul_le_mul_left 2 (Nat.le_succ n)))]
      · rw [if_neg inside, if_neg (by omega)]

theorem halves_read (k : Nat) (inside : k < n) (room : 2 * n ≤ 2 ^ 32) :
    (m.halves a n values).readHalf (a + BitVec.ofNat 32 (2 * k)) = values k := by
  have low : (a + BitVec.ofNat 32 (2 * k) - a).toNat = 2 * k := by bv_omega
  have high : (a + BitVec.ofNat 32 (2 * k) + 1 - a).toNat = 2 * k + 1 := by bv_omega
  have place : 2 * k % 2 = 0 ∧ 2 * k / 2 = k ∧ ¬ (2 * k + 1) % 2 = 0 ∧ (2 * k + 1) / 2 = k := by omega
  have first : m.halves a n values (a + BitVec.ofNat 32 (2 * k)) = (values k).setWidth 8 := by
    rw [halves, low, if_pos (by omega), if_pos place.1, place.2.1]
  have second : m.halves a n values (a + BitVec.ofNat 32 (2 * k) + 1) = (values k >>> 8).setWidth 8 := by
    rw [halves, high, if_pos (by omega), if_neg place.2.2.1, place.2.2.2]
  rw [readHalf, first, second]
  apply BitVec.eq_of_getLsbD_eq
  intro i small
  simp only [BitVec.getLsbD_append, BitVec.getLsbD_setWidth, BitVec.getLsbD_ushiftRight]
  grind

end Halves

def pushes (m : Mem) (sp : Word) : List Word → Mem
  | [] => m
  | value :: rest => pushes (m.write (sp - 4) value) (sp - 4) rest

section Pushes

variable (m : Mem) (sp : Word) (values : List Word)

theorem pushes_other (x : Word) (room : 4 * values.length ≤ sp.toNat) (outside : x.toNat + 4 * values.length < sp.toNat ∨ sp.toNat ≤ x.toNat) :
    m.pushes sp values x = m x := by
  induction values generalizing m sp with
  | nil => rfl
  | cons value rest ih =>
      rw [List.length_cons] at room outside
      have lower : (sp - 4).toNat = sp.toNat - 4 := by bv_omega
      rw [pushes, ih _ _ (by omega) (by omega)]
      exact m.write_other _ _ _ (by bv_omega)

theorem pushes_read (room : 4 * values.length ≤ sp.toNat) (k : Nat) (value : Word) (place : values[k]? = some value) :
    (m.pushes sp values).read (sp - BitVec.ofNat 32 (4 * (k + 1))) = value := by
  induction values generalizing m sp k with
  | nil => cases place
  | cons first rest ih =>
      rw [List.length_cons] at room
      have lower : (sp - 4).toNat = sp.toNat - 4 := by bv_omega
      cases k with
      | zero =>
          obtain rfl : first = value := Option.some.inj place
          have kept : ((m.write (sp - 4) first).pushes (sp - 4) rest).read (sp - 4) = (m.write (sp - 4) first).read (sp - 4) := by
            refine read_congr _ _ _ (fun x near => pushes_other _ _ _ x (by omega) ?_)
            exact .inr (by bv_omega)
          exact kept.trans (m.read_write_same _ _)
      | succ k =>
          have found := ih (m.write (sp - 4) first) (sp - 4) (by omega) k place
          rwa [show sp - 4 - BitVec.ofNat 32 (4 * (k + 1)) = sp - BitVec.ofNat 32 (4 * (k + 1 + 1)) by bv_omega] at found

end Pushes

-- Words written one after another, each with the address it goes to.
def writes (ws : List (Word × Word)) (m : Mem) : Mem := ws.foldl (fun m w => m.write w.1 w.2) m

def Hit (ws : List (Word × Word)) (x : Word) : Prop := ∃ w ∈ ws, (x - w.1).toNat < 4

theorem writes_append (ws vs : List (Word × Word)) (m : Mem) : writes (ws ++ vs) m = writes vs (writes ws m) := List.foldl_append

theorem write_inside (m m' : Mem) (a value x : Word) (near : (x - a).toNat < 4) : m.write a value x = m'.write a value x := by
  have four : x = a ∨ x = a + 1 ∨ x = a + 2 ∨ x = a + 3 := by bv_omega
  rcases four with here | here | here | here <;> simp [write, here]

theorem writes_same (ws : List (Word × Word)) (m m' : Mem) (x : Word) (same : m x = m' x) : writes ws m x = writes ws m' x := by
  induction ws generalizing m m' with
  | nil => exact same
  | cons w ws ih =>
      refine ih (m.write w.1 w.2) (m'.write w.1 w.2) ?_
      by_cases near : (x - w.1).toNat < 4
      · exact write_inside m m' w.1 w.2 x near
      · rw [write_other _ _ _ _ (Nat.le_of_not_lt near), write_other _ _ _ _ (Nat.le_of_not_lt near), same]

theorem not_hit_nil (x : Word) : ¬ Hit [] x := by
  rintro ⟨w, member, -⟩
  cases member

theorem hit_cons (w : Word × Word) (ws : List (Word × Word)) (x : Word) : Hit (w :: ws) x ↔ (x - w.1).toNat < 4 ∨ Hit ws x := by
  simp [Hit]

theorem writes_hit (ws : List (Word × Word)) (m m' : Mem) (x : Word) (hit : Hit ws x) : writes ws m x = writes ws m' x := by
  induction ws generalizing m m' with
  | nil => exact absurd hit (not_hit_nil x)
  | cons w ws ih =>
      by_cases near : (x - w.1).toNat < 4
      · exact writes_same ws _ _ x (write_inside m m' w.1 w.2 x near)
      · exact ih _ _ (((hit_cons w ws x).mp hit).resolve_left near)

theorem writes_other (ws : List (Word × Word)) (m : Mem) (x : Word) (missed : ¬ Hit ws x) : writes ws m x = m x := by
  induction ws generalizing m with
  | nil => rfl
  | cons w ws ih =>
      rw [hit_cons, not_or] at missed
      exact (ih _ missed.2).trans (write_other m w.1 w.2 x (Nat.le_of_not_lt missed.1))

theorem hit_append (ws vs : List (Word × Word)) (x : Word) : Hit (ws ++ vs) x ↔ Hit ws x ∨ Hit vs x := by
  simp [Hit, or_and_right, exists_or]

theorem bytes_of_read (m m' : Mem) (a x : Word) (same : m.read a = m'.read a) (near : (x - a).toNat < 4) : m x = m' x := by
  have whole := m.write_read_self a
  have whole' := m'.write_read_self a
  calc m x = m.write a (m.read a) x := by rw [whole]
    _ = m'.write a (m.read a) x := write_inside m m' a _ x near
    _ = m' x := by rw [same, whole']

end Mem
