import Deimos.Error
import Deimos.Lib.Bytes
import Deimos.Lib.Comp
import Deimos.Lib.Numerals

set_option autoImplicit false

namespace Deimos.Str

open Comp Numerals

def remainderChar (remainder : Word) : Byte :=
  (if remainder.slt 10 then remainder + 0x30 else remainder + 0x61 - 10).setWidth 8

-- One pass of the do loop of itoa, over p and ud.
def itoaDigitBody (divisor : Word) (state : Word × Word × Traced) : Except Stop (Iter (Word × Word × Traced) (Word × Traced)) :=
  let (p, ud, t) := state
  let t := t.store p (remainderChar (ud % divisor))
  let ud := ud / divisor
  if ud ≠ 0 then .ok (.next (p + 1, ud, t)) else .ok (.done (p + 1, t))

def exchange (p1 p2 : Word) (t : Traced) : Traced :=
  let (tmp, t) := t.fetch p1
  let (c, t) := t.fetch p2
  (t.store p1 c).store p2 tmp

-- One pass of the reversal, over p1 and p2.
def itoaReverseBody (state : Word × Word × Traced) : Except Stop (Iter (Word × Word × Traced) Traced) :=
  let (p1, p2, t) := state
  if p1 < p2 then .ok (.next (p1 + 1, p2 - 1, exchange p1 p2 t)) else .ok (.done t)

-- What itoa does from its do loop on: the digits of ud, lowest first, then
-- their reversal.
def itoaDigits (str ud divisor : Word) (t : Traced) : Comp Stop (Word × Traced) := do
  let (p, t) ← loop (itoaDigitBody divisor) (str, ud, t)
  let t ← loop itoaReverseBody (str, p - 1, t.store p 0)
  pure (str, t)

-- base is 'd', 'u' or 'x'.
def itoa (value str base : Word) (t : Traced) : Comp Stop (Word × Traced) :=
  if base = 0x64 ∧ value.slt 0 then itoaDigits (str + 1) (-value) 10 (t.store str 0x2D)
  else if base = 0x78 then itoaDigits str value 16 t
  else itoaDigits str value 10 t

-- The string: label of printf, over p and what has been printed.
def printfStringBody (state : Word × List Byte × Traced) : Except Stop (Iter (Word × List Byte × Traced) (List Byte × Traced)) :=
  let (p, out, t) := state
  let (c, t) := t.fetch p
  if c ≠ 0 then
    let (c, t) := t.fetch p
    .ok (.next (p + 1, out ++ [c], t))
  else .ok (.done (out, t))

-- What printf does for %d, %u and %x, with c the letter and buf its array of 20.
def printfNumber (value buf c : Word) (t : Traced) : Comp Stop (List Byte × Traced) := do
  let (_, t) ← itoa value buf c t
  loop printfStringBody (buf, [], t)

def figure (d : Nat) : Byte := BitVec.ofNat 8 (Nat.digitChar d).toNat

theorem remainder_char_figure (d : Nat) (small : d < 16) : remainderChar (BitVec.ofNat 32 d) = figure d := by
  have all : ∀ d : Fin 16, remainderChar (BitVec.ofNat 32 d) = figure d := by decide
  exact all ⟨d, small⟩

section Digits

variable (m : Mem) (a buf : Word) (k : Nat) (divisor : Word)

theorem remainder_char_eq (base : 1 < divisor.toNat) (top : divisor.toNat ≤ 16) (ud : Word) :
    remainderChar (ud % divisor) = figure (ud.toNat % divisor.toNat) := by
  have remainder : ud % divisor = BitVec.ofNat 32 (ud.toNat % divisor.toNat) := by
    rw [← BitVec.toNat_umod, BitVec.ofNat_toNat, BitVec.setWidth_eq]
  rw [remainder]
  exact remainder_char_figure _ (Nat.lt_of_lt_of_le (Nat.mod_lt _ (Nat.lt_of_succ_lt base)) top)

theorem digit_loop (base : 1 < divisor.toNat) (top : divisor.toNat ≤ 16) (n : Nat) (ud : Word) (count : ud.toNat = n) (xs : List Byte)
    (t : Traced) (mem : t.mem = m.put a xs) (room : xs.length + (low divisor.toNat n).length < 2 ^ 32) (inside : Traced.Inside buf k t)
    (near : ∀ i < xs.length + (low divisor.toNat n).length, (a + BitVec.ofNat 32 i - buf).toNat < k) :
    ∃ t', (loop (itoaDigitBody divisor) (a + BitVec.ofNat 32 xs.length, ud, t)).Returns
        (a + BitVec.ofNat 32 (xs.length + (low divisor.toNat n).length), t') ∧
      t'.mem = m.put a (xs ++ (low divisor.toNat n).map figure) ∧ Traced.Inside buf k t' := by
  induction n using Nat.strong_induction_on generalizing ud xs t with
  | h n ih =>
      have char := remainder_char_eq divisor base top ud
      have first := low_positive divisor.toNat n
      have quotient : (ud / divisor).toNat = n / divisor.toNat := by rw [BitVec.toNat_udiv, count]
      have stored : (t.store (a + BitVec.ofNat 32 xs.length) (remainderChar (ud % divisor))).mem =
          m.put a (xs ++ [figure (n % divisor.toNat)]) := by
        rw [Traced.store, mem, char, count]
        exact Mem.put_next m a xs _ (by omega)
      have touched := inside.store (near xs.length (Nat.lt_add_of_pos_right first)) (remainderChar (ud % divisor))
      by_cases more : n / divisor.toNat = 0
      · have stop : itoaDigitBody divisor (a + BitVec.ofNat 32 xs.length, ud, t) = .ok (.done (a + BitVec.ofNat 32 (xs.length + 1),
            t.store (a + BitVec.ofNat 32 xs.length) (remainderChar (ud % divisor)))) := by
          rw [← Mem.next_place]
          exact if_neg (not_not.mpr (BitVec.eq_of_toNat_eq (x := ud / divisor) (y := 0) (quotient.trans more)))
        rw [low_last _ _ base more]
        exact ⟨_, (ends_loop_done _ _ _ _ stop).mpr rfl, stored, touched⟩
      · have length : (xs ++ [figure (n % divisor.toNat)]).length = xs.length + 1 := List.length_append
        have pass : itoaDigitBody divisor (a + BitVec.ofNat 32 xs.length, ud, t) = .ok (.next (a + BitVec.ofNat 32
            (xs ++ [figure (n % divisor.toNat)]).length, ud / divisor,
              t.store (a + BitVec.ofNat 32 xs.length) (remainderChar (ud % divisor)))) := by
          rw [length, ← Mem.next_place]
          refine if_pos (fun zero => more ?_)
          rw [← quotient, zero]
          rfl
        rw [low_step _ _ base more] at room near ⊢
        rw [List.length_cons] at room near
        have smaller : n / divisor.toNat < n := Nat.div_lt_self (Nat.pos_of_div_pos (Nat.pos_of_ne_zero more)) base
        obtain ⟨t', returned, mem', inside'⟩ := ih _ smaller (ud / divisor) quotient _ _ stored (by omega) touched
          (fun i before => near i (by omega))
        refine ⟨t', (ends_loop_next _ _ _ _ pass).mpr ?_, ?_, inside'⟩
        · rw [List.length_cons, ← Nat.add_assoc, Nat.add_right_comm, ← length]
          exact returned
        · rw [mem', List.append_assoc]
          rfl

structure Reversed (M : Mem) (L i j : Nat) (t : Traced) : Prop where
  outer : ∀ p q, p + q + 1 = L → p < i ∨ j < p → t.mem (a + BitVec.ofNat 32 p) = M (a + BitVec.ofNat 32 q)
  inner : ∀ p, i ≤ p → p ≤ j → t.mem (a + BitVec.ofNat 32 p) = M (a + BitVec.ofNat 32 p)
  beyond : ∀ x, L ≤ (x - a).toNat → t.mem x = M x

theorem exchange_mem (p1 p2 : Word) (t : Traced) :
    (exchange p1 p2 t).mem = Function.update (Function.update t.mem p1 (t.mem p2)) p2 (t.mem p1) := rfl

theorem exchange_inside (p1 p2 : Word) (t : Traced) (inside : Traced.Inside buf k t) (first : (p1 - buf).toNat < k)
    (last : (p2 - buf).toNat < k) : Traced.Inside buf k (exchange p1 p2 t) :=
  (((inside.fetch first).fetch last).store first _).store last _

theorem Reversed.next (M : Mem) (L i j : Nat) (t : Traced) (reversed : Reversed a M L i (j + 1) t) (room : L ≤ 2 ^ 32)
    (sum : i + (j + 1) + 1 = L) (before : i < j + 1) :
    Reversed a M L (i + 1) j (exchange (a + BitVec.ofNat 32 i) (a + BitVec.ofNat 32 (j + 1)) t) := by
  have apart : ∀ p q, p < L → q < L → p ≠ q → a + BitVec.ofNat 32 p ≠ a + BitVec.ofNat 32 q :=
    fun p q small small' other same => other (Mem.offset_inj a p q (by omega) (by omega) same)
  have kept : ∀ p < L, p ≠ i → p ≠ j + 1 → (exchange (a + BitVec.ofNat 32 i) (a + BitVec.ofNat 32 (j + 1)) t).mem (a + BitVec.ofNat 32 p) =
      t.mem (a + BitVec.ofNat 32 p) := by
    intro p small first last
    rw [exchange_mem, Function.update_of_ne (apart p _ small (by omega) last), Function.update_of_ne (apart p _ small (by omega) first)]
  have low : (exchange (a + BitVec.ofNat 32 i) (a + BitVec.ofNat 32 (j + 1)) t).mem (a + BitVec.ofNat 32 i) =
      M (a + BitVec.ofNat 32 (j + 1)) := by
    rw [exchange_mem, Function.update_of_ne (apart i _ (by omega) (by omega) (by omega)), Function.update_self]
    exact reversed.inner _ (by omega) (by omega)
  have high : (exchange (a + BitVec.ofNat 32 i) (a + BitVec.ofNat 32 (j + 1)) t).mem (a + BitVec.ofNat 32 (j + 1)) =
      M (a + BitVec.ofNat 32 i) := by
    rw [exchange_mem, Function.update_self]
    exact reversed.inner i (Nat.le_refl i) (by omega)
  refine ⟨fun p q whole side => ?_, fun p left right => ?_, fun x far => ?_⟩
  · by_cases first : p = i
    · obtain rfl : q = j + 1 := by omega
      rw [first]
      exact low
    · by_cases last : p = j + 1
      · obtain rfl : q = i := by omega
        rw [last]
        exact high
      · rw [kept p (by omega) first last]
        exact reversed.outer p q whole (by omega)
  · rw [kept p (by omega) (by omega) (by omega)]
    exact reversed.inner p (by omega) (by omega)
  · have away : ∀ p < L, x ≠ a + BitVec.ofNat 32 p := by
      rintro p small rfl
      rw [Mem.offset_to_nat a p (by omega)] at far
      omega
    rw [exchange_mem, Function.update_of_ne (away _ (by omega)), Function.update_of_ne (away _ (by omega))]
    exact reversed.beyond x far

theorem reverse_loop (M : Mem) (L : Nat) (room : a.toNat + L ≤ 2 ^ 32) (near : ∀ p < L, (a + BitVec.ofNat 32 p - buf).toNat < k)
    (i j : Nat) (sum : i + j + 1 = L) (t : Traced) (reversed : Reversed a M L i j t) (inside : Traced.Inside buf k t) :
    ∃ t', (loop itoaReverseBody (a + BitVec.ofNat 32 i, a + BitVec.ofNat 32 j, t)).Returns t' ∧
      (∀ p q, p + q + 1 = L → t'.mem (a + BitVec.ofNat 32 p) = M (a + BitVec.ofNat 32 q)) ∧
      (∀ x, L ≤ (x - a).toNat → t'.mem x = M x) ∧ Traced.Inside buf k t' := by
  have stopped : ∀ i j t, i + j + 1 = L → ¬ i < j → Reversed a M L i j t → Traced.Inside buf k t →
      ∃ t', (loop itoaReverseBody (a + BitVec.ofNat 32 i, a + BitVec.ofNat 32 j, t)).Returns t' ∧
        (∀ p q, p + q + 1 = L → t'.mem (a + BitVec.ofNat 32 p) = M (a + BitVec.ofNat 32 q)) ∧
        (∀ x, L ≤ (x - a).toNat → t'.mem x = M x) ∧ Traced.Inside buf k t' := by
    intro i j t sum met reversed inside
    have left : (a + BitVec.ofNat 32 i).toNat = a.toNat + i := by bv_omega
    have right : (a + BitVec.ofNat 32 j).toNat = a.toNat + j := by bv_omega
    have stop : itoaReverseBody (a + BitVec.ofNat 32 i, a + BitVec.ofNat 32 j, t) = .ok (.done t) := by
      refine if_neg (fun before => met ?_)
      rw [BitVec.lt_def, left, right] at before
      exact Nat.add_lt_add_iff_left.mp before
    refine ⟨t, (ends_loop_done _ _ _ _ stop).mpr rfl, fun p q whole => ?_, reversed.beyond, inside⟩
    by_cases middle : i ≤ p ∧ p ≤ j
    · obtain rfl : q = p := by omega
      exact reversed.inner q middle.1 middle.2
    · exact reversed.outer p q whole (by omega)
  induction j generalizing i t with
  | zero => exact stopped i 0 t sum (Nat.not_lt_zero i) reversed inside
  | succ j ih =>
      by_cases before : i < j + 1
      · have left : (a + BitVec.ofNat 32 i).toNat = a.toNat + i := by bv_omega
        have right : (a + BitVec.ofNat 32 (j + 1)).toNat = a.toNat + (j + 1) := by bv_omega
        have order : a + BitVec.ofNat 32 i < a + BitVec.ofNat 32 (j + 1) := by
          rw [BitVec.lt_def, left, right]
          exact Nat.add_lt_add_left before _
        have back : a + BitVec.ofNat 32 (j + 1) - 1 = a + BitVec.ofNat 32 j := by
          rw [← Mem.next_place, BitVec.add_sub_cancel]
        have first := near i (by omega)
        have last := near (j + 1) (by omega)
        have pass : itoaReverseBody (a + BitVec.ofNat 32 i, a + BitVec.ofNat 32 (j + 1), t) = .ok (.next (a + BitVec.ofNat 32 (i + 1),
            a + BitVec.ofNat 32 j, exchange (a + BitVec.ofNat 32 i) (a + BitVec.ofNat 32 (j + 1)) t)) := by
          rw [← back, ← Mem.next_place a i]
          exact if_pos order
        have next := reversed.next a M L i j t (by omega) sum before
        obtain ⟨t', returned, rest⟩ := ih (i + 1) (by omega) _ next (exchange_inside buf k _ _ t inside first last)
        exact ⟨t', (ends_loop_next _ _ _ _ pass).mpr returned, rest⟩
      · exact stopped i (j + 1) t sum before reversed inside

theorem itoa_digits_text (base : 1 < divisor.toNat) (top : divisor.toNat ≤ 16) (ud : Word) (t : Traced)
    (room : a.toNat + ((low divisor.toNat ud.toNat).length + 1) ≤ 2 ^ 32) (inside : Traced.Inside buf k t)
    (near : ∀ p < (low divisor.toNat ud.toNat).length + 1, (a + BitVec.ofNat 32 p - buf).toNat < k) :
    ∃ t', (itoaDigits a ud divisor t).Returns (a, t') ∧ t'.mem.Text a ((low divisor.toNat ud.toNat).reverse.map figure) ∧
      (∀ x, (low divisor.toNat ud.toNat).length + 1 ≤ (x - a).toNat → t'.mem x = t.mem x) ∧ Traced.Inside buf k t' := by
  obtain ⟨L, length⟩ : ∃ L, (low divisor.toNat ud.toNat).length = L := ⟨_, rfl⟩
  have positive := low_positive divisor.toNat ud.toNat
  have start : a + BitVec.ofNat 32 0 = a := BitVec.add_zero a
  rw [length] at room near positive ⊢
  obtain ⟨t₁, digits, mem₁, inside₁⟩ := digit_loop t.mem a buf k divisor base top ud.toNat ud rfl [] t rfl
    (by rw [List.length_nil, Nat.zero_add, length]; omega) inside
    (fun i before => near i (by rw [List.length_nil, Nat.zero_add, length] at before; omega))
  rw [List.length_nil, Nat.zero_add, length, start] at digits
  rw [List.nil_append] at mem₁
  have filled : (t₁.store (a + BitVec.ofNat 32 L) 0).mem = t.mem.put a ((low divisor.toNat ud.toNat).map figure ++ [0]) := by
    have next := Mem.put_next t.mem a ((low divisor.toNat ud.toNat).map figure) 0 (by rw [List.length_map, length]; omega)
    rw [List.length_map, length] at next
    rw [Traced.store, mem₁]
    exact next
  obtain ⟨t₂, reversed, turned, kept, inside₂⟩ := reverse_loop a buf k (t₁.store (a + BitVec.ofNat 32 L) 0).mem L (by omega)
    (fun p small => near p (by omega)) 0 (L - 1) (by omega) (t₁.store (a + BitVec.ofNat 32 L) 0)
    ⟨fun p q whole side => by omega, fun p _ _ => rfl, fun x _ => rfl⟩ (inside₁.store (near L (Nat.lt_succ_self L)) 0)
  have back : a + BitVec.ofNat 32 L - 1 = a + BitVec.ofNat 32 (L - 1) := by
    rw [← Nat.sub_add_cancel positive, ← Mem.next_place, BitVec.add_sub_cancel]
    rfl
  rw [start, ← back] at reversed
  refine ⟨t₂, ?_, ⟨Mem.holds_append.mpr ⟨?_, ?_⟩, ?_⟩, fun x far => ?_, inside₂⟩
  · refine (ends_bind_of_returns _ _ _ _ digits).mpr ?_
    refine (ends_bind_of_returns _ _ _ _ reversed).mpr ?_
    exact (ends_pure _ _).mpr rfl
  · refine Mem.holds_iff.mpr (fun p b found => ?_)
    obtain ⟨small, rfl⟩ := List.getElem?_eq_some_iff.mp found
    rw [List.length_map, List.length_reverse, length] at small
    have byte := Mem.put_inside t.mem a ((low divisor.toNat ud.toNat).map figure ++ [0]) (L - 1 - p) (by simp; omega) (by simp; omega)
    rw [turned p (L - 1 - p) (by omega), filled, byte, List.getElem_append_left (by simp; omega)]
    simp only [List.getElem_map, List.getElem_reverse, length]
  · have last := Mem.put_inside t.mem a ((low divisor.toNat ud.toNat).map figure ++ [0]) L (by simp; omega) (by simp; omega)
    refine ⟨?_, trivial⟩
    rw [List.length_map, List.length_reverse, length, kept _ (by rw [Mem.offset_to_nat a L (by omega)]), filled, last,
      List.getElem_append_right (by simp [length])]
    simp
  · intro c member
    obtain ⟨d, digit, rfl⟩ := List.mem_map.mp member
    have small := low_small divisor.toNat ud.toNat base d (List.mem_reverse.mp digit)
    have all : ∀ d : Fin 16, figure d ≠ 0 := by decide
    exact all ⟨d, Nat.lt_of_lt_of_le small top⟩
  · rw [kept x (by omega), filled, Mem.put_outside]
    simpa [length] using far

end Digits

section Calls

variable (value buf : Word) (k : Nat) (t : Traced)

theorem itoa_digits_fits (ud divisor : Word) (n : Nat) (base : 1 < divisor.toNat) (top : divisor.toNat ≤ 16) (positive : 0 < n)
    (small : ud.toNat < divisor.toNat ^ n) (room : buf.toNat + (n + 1) ≤ 2 ^ 32) (inside : Traced.Inside buf k t)
    (enough : (low divisor.toNat ud.toNat).length + 1 ≤ k) :
    ∃ t', (itoaDigits buf ud divisor t).Returns (buf, t') ∧ t'.mem.Text buf ((low divisor.toNat ud.toNat).reverse.map figure) ∧
      Traced.Inside buf k t' := by
  have length := low_length divisor.toNat ud.toNat n base positive small
  obtain ⟨t', returned, text, -, inside'⟩ := itoa_digits_text buf buf k divisor base top ud t (by omega) inside (fun p before => by
    rw [Mem.offset_to_nat buf p (by omega)]
    omega)
  exact ⟨t', returned, text, inside'⟩

theorem itoa_unsigned (room : buf.toNat + 11 ≤ 2 ^ 32) (inside : Traced.Inside buf k t) (enough : (low 10 value.toNat).length + 1 ≤ k) :
    ∃ t', (itoa value buf 0x75 t).Returns (buf, t') ∧ t'.mem.Text buf ((low 10 value.toNat).reverse.map figure) ∧
      Traced.Inside buf k t' :=
  itoa_digits_fits buf k t value 10 10 (by decide) (by decide) (by decide)
    (Nat.lt_trans value.isLt (show 2 ^ 32 < 10 ^ 10 by decide)) room inside enough

theorem itoa_hex (room : buf.toNat + 9 ≤ 2 ^ 32) (inside : Traced.Inside buf k t) (enough : (low 16 value.toNat).length + 1 ≤ k) :
    ∃ t', (itoa value buf 0x78 t).Returns (buf, t') ∧ t'.mem.Text buf ((low 16 value.toNat).reverse.map figure) ∧
      Traced.Inside buf k t' :=
  itoa_digits_fits buf k t value 16 8 (by decide) (by decide) (by decide) value.isLt room inside enough

theorem magnitude_negative (negative : value.toInt < 0) : (-value).toNat = value.toInt.natAbs := by
  have bound := value.isLt
  rw [BitVec.toInt_eq_toNat_cond] at negative ⊢
  rw [BitVec.toNat_neg]
  split_ifs at negative ⊢ <;> omega

theorem magnitude_positive (positive : ¬ value.toInt < 0) : value.toNat = value.toInt.natAbs := by
  have bound := value.isLt
  rw [BitVec.toInt_eq_toNat_cond] at positive ⊢
  split_ifs at positive ⊢ <;> omega

theorem magnitude_length : (low 10 value.toInt.natAbs).length ≤ 10 := by
  have least := value.le_toInt
  have most := value.toInt_lt
  exact low_length 10 _ 10 (by decide) (by decide) (by omega)

def signChars : List Byte := if value.toInt < 0 then [0x2D] else []

theorem itoa_decimal (room : buf.toNat + 12 ≤ 2 ^ 32) (inside : Traced.Inside buf k t)
    (enough : (signChars value).length + (low 10 value.toInt.natAbs).length + 1 ≤ k) :
    ∃ r t', (itoa value buf 0x64 t).Returns (r, t') ∧
      t'.mem.Text buf (signChars value ++ (low 10 value.toInt.natAbs).reverse.map figure) ∧ Traced.Inside buf k t' := by
  have length := magnitude_length value
  by_cases negative : value.toInt < 0
  · have signed : value.slt 0 = true := BitVec.slt_iff_toInt_lt.mpr negative
    have magnitude := magnitude_negative value negative
    have sign : signChars value = [0x2D] := if_pos negative
    rw [sign] at enough ⊢
    have start : (buf - buf).toNat < k := by
      rw [BitVec.sub_self]
      exact Nat.lt_of_lt_of_le (Nat.succ_pos _) enough
    rw [← magnitude] at length enough ⊢
    have room' : (buf + 1).toNat + ((low 10 (-value).toNat).length + 1) ≤ 2 ^ 32 := by
      have next : (buf + 1).toNat = buf.toNat + 1 := by bv_omega
      omega
    have near : ∀ p < (low 10 (-value).toNat).length + 1, (buf + 1 + BitVec.ofNat 32 p - buf).toNat < k := by
      intro p small
      rw [← Mem.offset_next, Mem.offset_to_nat buf (p + 1) (by omega)]
      simp only [List.length_singleton] at enough
      omega
    obtain ⟨t', returned, text, kept, inside'⟩ := itoa_digits_text (buf + 1) buf k 10 (by decide) (by decide) (-value)
      (t.store buf 0x2D) room' (inside.store start 0x2D) near
    have behind : (low 10 (-value).toNat).length + 1 ≤ (buf - (buf + 1)).toNat := by
      have last : (buf - (buf + 1)).toNat = 2 ^ 32 - 1 := by bv_omega
      omega
    have first : t'.mem buf = 0x2D := (kept buf behind).trans (Function.update_self ..)
    refine ⟨buf + 1, t', ?_, ⟨⟨first, text.holds⟩, ?_⟩, inside'⟩
    · rw [itoa, if_pos ⟨rfl, signed⟩]
      exact returned
    · rintro c (_ | ⟨_, member⟩)
      · decide
      · exact text.inner c member
  · have unsigned : ¬((0x64 : Word) = 0x64 ∧ value.slt 0 = true) := fun both => negative (BitVec.slt_iff_toInt_lt.mp both.2)
    have magnitude := magnitude_positive value negative
    have sign : signChars value = [] := if_neg negative
    rw [← magnitude] at length enough ⊢
    rw [sign] at enough ⊢
    obtain ⟨t', returned, text, inside'⟩ := itoa_digits_fits buf k t value 10 10 (by decide) (by decide) (by decide)
      (Nat.lt_trans value.isLt (show 2 ^ 32 < 10 ^ 10 by decide)) (by omega) inside (by simpa using enough)
    refine ⟨buf, t', ?_, text, inside'⟩
    rw [itoa, if_neg unsigned]
    exact returned

theorem print_loop (s out : List Byte) (p : Word) (text : t.mem.Text p s) (inside : Traced.Inside buf k t)
    (near : ∀ i < s.length + 1, (p + BitVec.ofNat 32 i - buf).toNat < k) :
    ∃ t', (loop printfStringBody (p, out, t)).Returns (out ++ s, t') ∧ Traced.Inside buf k t' := by
  have here : (p - buf).toNat < k := by
    have first := near 0 (Nat.succ_pos _)
    rwa [show p + BitVec.ofNat 32 0 = p from BitVec.add_zero p] at first
  induction s generalizing p out t with
  | nil =>
      have stop : printfStringBody (p, out, t) = .ok (.done (out, (t.fetch p).2)) := if_neg (not_not.mpr (text.nil_iff.mpr rfl))
      rw [List.append_nil]
      exact ⟨_, (ends_loop_done _ _ _ _ stop).mpr rfl, inside.fetch here⟩
  | cons c s ih =>
      have nonzero : t.mem p ≠ 0 := fun zero => List.cons_ne_nil c s (text.nil_iff.mp zero)
      have pass : printfStringBody (p, out, t) = .ok (.next (p + 1, out ++ [c], ((t.fetch p).2.fetch p).2)) := by
        rw [← text.tail.1]
        exact if_pos nonzero
      have near' : ∀ i < s.length + 1, (p + 1 + BitVec.ofNat 32 i - buf).toNat < k := by
        intro i small
        rw [← Mem.offset_next]
        exact near (i + 1) (Nat.succ_lt_succ small)
      have here' : (p + 1 - buf).toNat < k := near 1 (Nat.succ_lt_succ (Nat.succ_pos _))
      obtain ⟨t', returned, inside'⟩ := ih ((t.fetch p).2.fetch p).2 (out ++ [c]) (p + 1) text.tail.2 ((inside.fetch here).fetch here) near' here'
      refine ⟨t', (ends_loop_next _ _ _ _ pass).mpr ?_, inside'⟩
      rwa [List.append_assoc, List.singleton_append] at returned

theorem printf_number_returns (c r : Word) (s : List Byte) (t' : Traced) (converted : (itoa value buf c t).Returns (r, t'))
    (text : t'.mem.Text buf s) (inside : Traced.Inside buf k t') (enough : s.length + 1 ≤ k) (room : s.length + 1 ≤ 2 ^ 32) :
    ∃ t'', (printfNumber value buf c t).Returns (s, t'') ∧ Traced.Inside buf k t'' := by
  obtain ⟨t'', printed, inside''⟩ := print_loop buf k t' s [] buf text inside (fun i small => by
    rw [Mem.offset_to_nat buf i (by omega)]
    omega)
  exact ⟨t'', (ends_bind_of_returns _ _ _ _ converted).mpr printed, inside''⟩

end Calls

end Deimos.Str
