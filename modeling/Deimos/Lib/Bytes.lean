import Mathlib.Data.List.GetD
import Deimos.Lib.Memory

set_option autoImplicit false

-- Pieces of memory as lists of bytes. A piece may run past the top of the
-- address space, where it goes on at the bottom.
namespace Mem

def Holds (m : Mem) : Word → List Byte → Prop
  | _, [] => True
  | a, x :: xs => m a = x ∧ Holds m (a + 1) xs

structure Text (m : Mem) (a : Word) (s : List Byte) : Prop where
  holds : m.Holds a (s ++ [0])
  inner : ∀ c ∈ s, c ≠ 0

def bytes (m : Mem) (a : Word) (n : Nat) : List Byte := (List.range n).map (fun i => m (a + BitVec.ofNat 32 i))

def put (m : Mem) (a : Word) (xs : List Byte) : Mem := fun x => xs.getD (x - a).toNat (m x)

section Addresses

variable (a : Word) (i j : Nat)

theorem offset_next : a + BitVec.ofNat 32 (i + 1) = a + 1 + BitVec.ofNat 32 i := by
  rw [Nat.add_comm, BitVec.ofNat_add, ← BitVec.add_assoc]
  rfl

theorem next_place : a + BitVec.ofNat 32 i + 1 = a + BitVec.ofNat 32 (i + 1) := by
  rw [BitVec.ofNat_add, ← BitVec.add_assoc]
  rfl

theorem offset_to_nat (small : i < 2 ^ 32) : (a + BitVec.ofNat 32 i - a).toNat = i := by bv_omega

theorem offset_inj (left : i < 2 ^ 32) (right : j < 2 ^ 32) (same : a + BitVec.ofNat 32 i = a + BitVec.ofNat 32 j) : i = j := by
  rw [← offset_to_nat a i left, same, offset_to_nat a j right]

end Addresses

theorem append_to_nat {n : Nat} (high : BitVec n) (low : Byte) : (high ++ low).toNat = 256 * high.toNat + low.toNat := by
  rw [BitVec.toNat_append, ← Nat.shiftLeft_add_eq_or_of_lt low.isLt, Nat.shiftLeft_eq, Nat.mul_comm]

theorem read_append (m : Mem) (a : Word) : m.read a = m (a + 3) ++ m (a + 2) ++ m (a + 1) ++ m a := by
  have whole := m.read_to_nat a
  apply BitVec.eq_of_toNat_eq
  rw [append_to_nat, append_to_nat, append_to_nat]
  omega

section Held

variable {m m' : Mem} {a : Word} {s xs ys : List Byte}

theorem holds_iff : m.Holds a xs ↔ ∀ i b, xs[i]? = some b → m (a + BitVec.ofNat 32 i) = b := by
  induction xs generalizing a with
  | nil => simp [Holds]
  | cons x xs ih =>
      rw [Holds, ih]
      constructor
      · rintro ⟨first, rest⟩ i b found
        cases i with
        | zero =>
            rw [← Option.some.inj found, ← first]
            simp
        | succ i =>
            rw [offset_next]
            exact rest i b found
      · intro all
        refine ⟨?_, fun i b found => ?_⟩
        · have first := all 0 x rfl
          simpa using first
        · rw [← offset_next]
          exact all (i + 1) b found

theorem holds_append : m.Holds a (xs ++ ys) ↔ m.Holds a xs ∧ m.Holds (a + BitVec.ofNat 32 xs.length) ys := by
  induction xs generalizing a with
  | nil => simp [Holds]
  | cons x xs ih =>
      rw [List.cons_append, Holds, Holds, ih, List.length_cons, offset_next, and_assoc]

theorem bytes_of_holds (holds : m.Holds a xs) : m.bytes a xs.length = xs := by
  apply List.ext_getElem
  · simp [bytes]
  · intro i _ inside
    have here := holds_iff.mp holds i xs[i] (List.getElem?_eq_getElem inside)
    simpa [bytes] using here

-- A string is shorter than the address space, which it would fill with no NUL.
theorem Text.length_lt (text : m.Text a s) : s.length < 2 ^ 32 := by
  by_contra long
  obtain ⟨body, last, -⟩ := holds_append.mp text.holds
  have inside : s.length % 2 ^ 32 < s.length := Nat.lt_of_lt_of_le (Nat.mod_lt _ (by decide)) (Nat.le_of_not_lt long)
  have here := holds_iff.mp body (s.length % 2 ^ 32) _ (List.getElem?_eq_getElem inside)
  have wrapped : BitVec.ofNat 32 (s.length % 2 ^ 32) = BitVec.ofNat 32 s.length := by
    apply BitVec.eq_of_toNat_eq
    simp
  rw [wrapped, last] at here
  exact text.inner _ (List.getElem_mem inside) here.symm

theorem Text.nil_iff (text : m.Text a s) : m a = 0 ↔ s = [] := by
  cases s with
  | nil => exact iff_of_true text.holds.1 rfl
  | cons c s =>
      have first : m a = c := text.holds.1
      exact iff_of_false (first ▸ text.inner c List.mem_cons_self) (List.cons_ne_nil c s)

theorem Text.tail {c : Byte} (text : m.Text a (c :: s)) : m a = c ∧ m.Text (a + 1) s :=
  ⟨text.holds.1, text.holds.2, fun d member => text.inner d (List.mem_cons_of_mem c member)⟩

theorem Text.last (text : m.Text a s) : m (a + BitVec.ofNat 32 s.length) = 0 := (holds_append.mp text.holds).2.1

theorem Text.inside (text : m.Text a s) (i : Nat) (small : i < s.length) : m (a + BitVec.ofNat 32 i) ≠ 0 := by
  rw [holds_iff.mp (holds_append.mp text.holds).1 i s[i] (List.getElem?_eq_getElem small)]
  exact text.inner _ (List.getElem_mem small)

theorem Text.bytes_eq (text : m.Text a s) : m.bytes a s.length = s := bytes_of_holds (holds_append.mp text.holds).1

end Held

section Put

variable (m : Mem) (a x : Word) (xs : List Byte)

theorem put_outside (far : xs.length ≤ (x - a).toNat) : m.put a xs x = m x := by
  rw [put, List.getD_eq_default _ _ far]

theorem put_inside (i : Nat) (inside : i < xs.length) (room : xs.length ≤ 2 ^ 32) :
    m.put a xs (a + BitVec.ofNat 32 i) = xs[i] := by
  rw [put, offset_to_nat a i (Nat.lt_of_lt_of_le inside room), List.getD_eq_getElem _ _ inside]

theorem put_next (b : Byte) (room : xs.length < 2 ^ 32) :
    Function.update (m.put a xs) (a + BitVec.ofNat 32 xs.length) b = m.put a (xs ++ [b]) := by
  funext x
  by_cases here : x = a + BitVec.ofNat 32 xs.length
  · subst here
    rw [Function.update_self, put, offset_to_nat a _ room]
    simp [List.getD]
  · have other : (x - a).toNat ≠ xs.length := fun same => here (by bv_omega)
    rw [Function.update_of_ne here, put, put]
    have longer : (xs ++ [b]).length = xs.length + 1 := List.length_append
    rcases Nat.lt_or_gt_of_ne other with inside | outside
    · have inside' : (x - a).toNat < (xs ++ [b]).length := longer ▸ Nat.lt_succ_of_lt inside
      rw [List.getD_eq_getElem _ _ inside, List.getD_eq_getElem _ _ inside', List.getElem_append_left inside]
    · have outside' : (xs ++ [b]).length ≤ (x - a).toNat := longer ▸ outside
      rw [List.getD_eq_default _ _ (Nat.le_of_lt outside), List.getD_eq_default _ _ outside']

theorem put_apart (apart : ∀ i < xs.length, x ≠ a + BitVec.ofNat 32 i) : m.put a xs x = m x := by
  refine put_outside m a x xs (Nat.le_of_not_lt (fun near => apart _ near ?_))
  bv_omega

end Put

end Mem

-- Memory with a record of the addresses that were read and written.
structure Traced where
  mem : Mem
  reads : List Word
  writes : List Word

namespace Traced

def fetch (t : Traced) (a : Word) : Byte × Traced := (t.mem a, { t with reads := a :: t.reads })

def store (t : Traced) (a : Word) (c : Byte) : Traced := { t with mem := Function.update t.mem a c, writes := a :: t.writes }

def Inside (a : Word) (k : Nat) (t : Traced) : Prop := ∀ x ∈ t.reads ++ t.writes, (x - a).toNat < k

section Inside

variable {a x : Word} {k : Nat} {t : Traced}

theorem Inside.fetch (inside : Inside a k t) (near : (x - a).toNat < k) : Inside a k (t.fetch x).2 := by
  intro y member
  rcases List.mem_cons.mp member with rfl | before
  · exact near
  · exact inside y before

theorem Inside.store (inside : Inside a k t) (near : (x - a).toNat < k) (c : Byte) : Inside a k (t.store x c) := by
  intro y member
  rcases List.mem_append.mp member with read | written
  · exact inside y (List.mem_append_left _ read)
  · rcases List.mem_cons.mp written with rfl | before
    · exact near
    · exact inside y (List.mem_append_right _ before)

end Inside

end Traced

-- Pieces of data in a memory of cells, and rings on which positions that
-- only ever grow are kept modulo the size.
namespace Ring

variable {α : Type} {mem : Nat → α} {p q : Nat} {xs ys : List α}

def write (mem : Nat → α) (p : Nat) (xs : List α) : Nat → α :=
  fun a => if p ≤ a then (xs[a - p]?).getD (mem a) else mem a

def Holds (mem : Nat → α) (p : Nat) (xs : List α) : Prop := ∀ i x, xs[i]? = some x → mem (p + i) = x

theorem holds_write : Holds (write mem p xs) p xs := by
  intro i x found
  rw [write, if_pos (Nat.le_add_right p i), Nat.add_sub_cancel_left, found]
  rfl

theorem holds_write_apart (holds : Holds mem q ys) (apart : p + xs.length ≤ q ∨ q + ys.length ≤ p) : Holds (write mem p xs) q ys := by
  intro i x found
  obtain ⟨inside, -⟩ := List.getElem?_eq_some_iff.mp found
  rw [← holds i x found]
  unfold write
  by_cases above : p ≤ q + i
  · rw [if_pos above, List.getElem?_eq_none (by omega)]
    rfl
  · exact if_neg above

theorem Holds.append (holds : Holds mem p (xs ++ ys)) : Holds mem p xs ∧ Holds mem (p + xs.length) ys := by
  constructor
  · intro i x found
    obtain ⟨inside, -⟩ := List.getElem?_eq_some_iff.mp found
    exact holds i x (by rw [List.getElem?_append_left inside]; exact found)
  · intro i x found
    rw [Nat.add_assoc]
    exact holds (xs.length + i) x (by rw [List.getElem?_append_right (Nat.le_add_right _ _), Nat.add_sub_cancel_left]; exact found)

theorem Holds.range (holds : Holds mem p xs) (n : Nat) (short : n ≤ xs.length) :
    (List.range n).map (fun i => mem (p + i)) = xs.take n := by
  apply List.ext_getElem?
  intro i
  by_cases inside : i < n
  · have here : xs[i]? = some xs[i] := List.getElem?_eq_getElem (Nat.lt_of_lt_of_le inside short)
    rw [List.getElem?_take_of_lt inside, here, List.getElem?_map, List.getElem?_range inside]
    exact congrArg some (holds i _ here)
  · have past : n ≤ i := Nat.le_of_not_lt inside
    rw [List.getElem?_eq_none (by simpa using past), List.getElem?_eq_none (by simp; omega)]

theorem wrap_apart (n v w k l : Nat) (positive : 0 < l) (behind : v + k ≤ w) (round : w + l ≤ v + n) :
    v % n + k ≤ w % n ∨ w % n + l ≤ v % n := by
  have split := Nat.div_add_mod v n
  have split' := Nat.div_add_mod w n
  have small : v % n < n := Nat.mod_lt v (by omega)
  have small' : w % n < n := Nat.mod_lt w (by omega)
  have lower : v / n ≤ w / n := Nat.div_le_div_right (by omega)
  have upper : w / n ≤ v / n + 1 := by
    have next : (v + n) / n = v / n + 1 := Nat.add_div_right v (by omega)
    rw [← next]
    exact Nat.div_le_div_right (by omega)
  rcases Nat.eq_or_lt_of_le lower with same | later
  · rw [← same] at split'
    exact .inl (by omega)
  · have next : w / n = v / n + 1 := by omega
    rw [next, Nat.mul_add, Nat.mul_one] at split'
    exact .inr (by omega)

end Ring
