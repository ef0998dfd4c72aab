import Deimos.Str.Itoa

set_option autoImplicit false

namespace Deimos.Str

open Comp Numerals

def isspace (c : Word) : Bool := c = 0x20 ∨ c = 0x09 ∨ c = 0x0A ∨ c = 0x0B ∨ c = 0x0C ∨ c = 0x0D

def isdigit (c : Word) : Bool := (0x30 : Word).sle c ∧ c.sle 0x39

-- A char as the int that it is passed as.
def promoted (c : Byte) : Word := c.signExtend 32

def atoiSpaceBody (m : Mem) (str : Word) : Except Stop (Iter Word Word) :=
  if m str ≠ 0 ∧ isspace (promoted (m str)) then .ok (.next (str + 1)) else .ok (.done str)

def atoiDigitBody (m : Mem) (state : Word × Word) : Except Stop (Iter (Word × Word) Word) :=
  let (i, str) := state
  if m str ≠ 0 ∧ isdigit (promoted (m str)) then .ok (.next (i * 10 + (promoted (m str) - 0x30), str + 1)) else .ok (.done i)

def atoiSign (m : Mem) (str : Word) : Word × Word :=
  if m str = 0x2D then (-1, str + 1) else if m str = 0x2B then (1, str + 1) else (1, str)

def atoi (str : Word) (m : Mem) : Comp Stop Word := do
  let str ← loop (atoiSpaceBody m) str
  let (sign, str) := atoiSign m str
  let i ← loop (atoiDigitBody m) (0, str)
  pure (sign * i)

section Loops

variable (m : Mem) (a : Word)

theorem space_loop (ws : List Byte) (x : Byte) (rest : List Byte) (holds : m.Holds a (ws ++ x :: rest))
    (spaces : ∀ c ∈ ws, isspace (promoted c)) (stop : isspace (promoted x) = false) :
    ∃ a', (loop (atoiSpaceBody m) a).Returns a' ∧ m.Holds a' (x :: rest) := by
  induction ws generalizing a with
  | nil =>
      have here : m a = x := holds.1
      have pass : atoiSpaceBody m a = .ok (.done a) := by
        refine if_neg ?_
        rw [here, stop]
        simp
      exact ⟨a, (ends_loop_done _ _ _ _ pass).mpr rfl, holds⟩
  | cons c ws ih =>
      have here : m a = c := holds.1
      have space := spaces c List.mem_cons_self
      have nonzero : c ≠ 0 := by
        rintro rfl
        exact absurd space (by decide)
      have pass : atoiSpaceBody m a = .ok (.next (a + 1)) := if_pos ⟨here ▸ nonzero, here ▸ space⟩
      obtain ⟨a', returned, holds'⟩ := ih (a + 1) holds.2 (fun d member => spaces d (List.mem_cons_of_mem c member))
      exact ⟨a', (ends_loop_next _ _ _ _ pass).mpr returned, holds'⟩

theorem figure_digit (d : Nat) (small : d < 10) : figure d ≠ 0 ∧ isdigit (promoted (figure d)) = true ∧
    isspace (promoted (figure d)) = false ∧ promoted (figure d) - 0x30 = BitVec.ofNat 32 d ∧ figure d ≠ 0x2D ∧ figure d ≠ 0x2B := by
  have all : ∀ d : Fin 10, figure d ≠ 0 ∧ isdigit (promoted (figure d)) = true ∧ isspace (promoted (figure d)) = false ∧
    promoted (figure d) - 0x30 = BitVec.ofNat 32 d ∧ figure d ≠ 0x2D ∧ figure d ≠ 0x2B := by decide
  exact all ⟨d, small⟩

theorem number_loop (ds : List Nat) (c : Byte) (n : Nat) (holds : m.Holds a (ds.map figure ++ [c])) (small : ∀ d ∈ ds, d < 10)
    (stop : isdigit (promoted c) = false) :
    (loop (atoiDigitBody m) (BitVec.ofNat 32 n, a)).Returns (BitVec.ofNat 32 (ds.foldl (fun v d => v * 10 + d) n)) := by
  induction ds generalizing a n with
  | nil =>
      have here : m a = c := holds.1
      have pass : atoiDigitBody m (BitVec.ofNat 32 n, a) = .ok (.done (BitVec.ofNat 32 n)) := by
        refine if_neg ?_
        rw [here, stop]
        simp
      exact (ends_loop_done _ _ _ _ pass).mpr rfl
  | cons d ds ih =>
      have here : m a = figure d := holds.1
      obtain ⟨nonzero, digit, -, number, -⟩ := figure_digit d (small d List.mem_cons_self)
      have next : BitVec.ofNat 32 n * 10 + (promoted (m a) - 0x30) = BitVec.ofNat 32 (n * 10 + d) := by
        rw [here, number, BitVec.ofNat_add, BitVec.ofNat_mul]
        rfl
      have pass : atoiDigitBody m (BitVec.ofNat 32 n, a) = .ok (.next (BitVec.ofNat 32 (n * 10 + d), a + 1)) := by
        rw [← next]
        exact if_pos ⟨here ▸ nonzero, here ▸ digit⟩
      exact (ends_loop_next _ _ _ _ pass).mpr (ih (a + 1) (n * 10 + d) holds.2 (fun e member => small e (List.mem_cons_of_mem d member)))

end Loops

-- Without a sign and digits, what follows must not be taken for more of them.
structure Numeral (m : Mem) (a : Word) (ws sign : List Byte) (ds : List Nat) (c : Byte) : Prop where
  holds : m.Holds a (ws ++ (sign ++ (ds.map figure ++ [c])))
  spaces : ∀ b ∈ ws, isspace (promoted b)
  optional : sign = [] ∨ sign = [0x2D] ∨ sign = [0x2B]
  small : ∀ d ∈ ds, d < 10
  stop : isdigit (promoted c) = false
  ended : sign = [] → ds = [] → isspace (promoted c) = false ∧ c ≠ 0x2D ∧ c ≠ 0x2B

def signed (sign : List Byte) (n : Nat) : Int := if sign = [0x2D] then -n else n

section Parsing

variable (m : Mem) (a : Word) (ws sign : List Byte) (ds : List Nat) (c : Byte)

theorem Numeral.first (numeral : Numeral m a ws sign ds c) : ∃ x rest, sign ++ (ds.map figure ++ [c]) = x :: rest ∧
    isspace (promoted x) = false ∧ (sign = [] → x ≠ 0x2D ∧ x ≠ 0x2B) := by
  rcases numeral.optional with rfl | rfl | rfl
  · cases ds with
    | nil =>
        obtain ⟨space, plain⟩ := numeral.ended rfl rfl
        exact ⟨c, [], rfl, space, fun _ => plain⟩
    | cons d ds =>
        obtain ⟨-, -, space, -, plain⟩ := figure_digit d (numeral.small d List.mem_cons_self)
        exact ⟨figure d, ds.map figure ++ [c], rfl, space, fun _ => plain⟩
  · exact ⟨0x2D, ds.map figure ++ [c], rfl, by decide, fun empty => absurd empty (List.cons_ne_nil _ _)⟩
  · exact ⟨0x2B, ds.map figure ++ [c], rfl, by decide, fun empty => absurd empty (List.cons_ne_nil _ _)⟩

theorem atoi_sign_returns (numeral : Numeral m a ws sign ds c) : ∃ a', (loop (atoiSpaceBody m) a).Returns a' ∧
    m.Holds (atoiSign m a').2 (ds.map figure ++ [c]) ∧ (atoiSign m a').1 = if sign = [0x2D] then -1 else 1 := by
  obtain ⟨x, rest, shape, space, plain⟩ := numeral.first m a ws sign ds c
  have holds := numeral.holds
  rw [shape] at holds
  obtain ⟨a', skipped, left⟩ := space_loop m a ws x rest holds numeral.spaces space
  have here : m a' = x := left.1
  refine ⟨a', skipped, ?_⟩
  rw [← shape] at left
  rcases numeral.optional with rfl | rfl | rfl
  · have none : atoiSign m a' = (1, a') := by
      rw [atoiSign, here, if_neg (plain rfl).1, if_neg (plain rfl).2]
    rw [none]
    exact ⟨left, rfl⟩
  · have minus : atoiSign m a' = (-1, a' + 1) := if_pos left.1
    rw [minus]
    exact ⟨left.2, rfl⟩
  · have plus : atoiSign m a' = (1, a' + 1) := by
      rw [atoiSign, if_neg (by rw [left.1]; decide), if_pos left.1]
    rw [plus]
    exact ⟨left.2, rfl⟩

theorem atoi_returns (numeral : Numeral m a ws sign ds c) :
    (atoi a m).Returns (BitVec.ofInt 32 (signed sign (Nat.ofDigits 10 ds.reverse))) := by
  obtain ⟨a', skipped, digits, sign'⟩ := atoi_sign_returns m a ws sign ds c numeral
  have walk := number_loop m _ ds c 0 digits numeral.small numeral.stop
  rw [of_digits_foldl, Nat.zero_mul, Nat.zero_add] at walk
  have whole : (atoi a m).Returns ((atoiSign m a').1 * BitVec.ofNat 32 (Nat.ofDigits 10 ds.reverse)) :=
    (ends_bind_of_returns _ _ _ _ skipped).mpr ((ends_bind_of_returns _ _ _ _ walk).mpr ((ends_pure _ _).mpr rfl))
  have value : (atoiSign m a').1 * BitVec.ofNat 32 (Nat.ofDigits 10 ds.reverse) =
      BitVec.ofInt 32 (signed sign (Nat.ofDigits 10 ds.reverse)) := by
    rw [sign', signed]
    split_ifs
    · rw [BitVec.ofInt_neg, BitVec.ofInt_natCast]
      exact (BitVec.neg_eq_neg_one_mul _).symm
    · rw [BitVec.ofInt_natCast]
      exact BitVec.one_mul _
  rwa [value] at whole

end Parsing

section Numerals

variable (m : Mem) (buf value : Word)

theorem numeral_of_text (text : m.Text buf (signChars value ++ (low 10 value.toInt.natAbs).reverse.map figure)) :
    Numeral m buf [] (signChars value) (low 10 value.toInt.natAbs).reverse 0 where
  holds := by
    have holds := text.holds
    rwa [List.append_assoc] at holds
  spaces := by simp
  optional := by
    rw [signChars]
    split_ifs
    · exact .inr (.inl rfl)
    · exact .inl rfl
  small d member := low_small 10 value.toInt.natAbs (by decide) d (List.mem_reverse.mp member)
  stop := by decide
  ended _ _ := by decide

theorem signed_magnitude : BitVec.ofInt 32 (signed (signChars value) (Nat.ofDigits 10 (low 10 value.toInt.natAbs).reverse.reverse)) = value := by
  rw [(low_canonical 10 value.toInt.natAbs (by decide)).value, signed, signChars]
  have whole : (if (if value.toInt < 0 then [(0x2D : Byte)] else []) = [0x2D] then -(value.toInt.natAbs : Int) else value.toInt.natAbs) =
      value.toInt := by
    split_ifs <;> grind
  rw [whole, BitVec.ofInt_toInt]

theorem untouched (k : Nat) : Traced.Inside buf k ⟨m, [], []⟩ := fun x member => absurd member (by simp)

theorem sign_length : (signChars value).length ≤ 1 := by
  rw [signChars]
  split_ifs <;> decide

theorem unsigned_length : (low 10 value.toNat).length ≤ 10 :=
  low_length 10 value.toNat 10 (by decide) (by decide) (Nat.lt_trans value.isLt (show 2 ^ 32 < 10 ^ 10 by decide))

theorem hex_length : (low 16 value.toNat).length ≤ 8 := low_length 16 value.toNat 8 (by decide) (by decide) value.isLt

theorem decimal_text (room : buf.toNat + 12 ≤ 2 ^ 32) :
    ∃ r t ds, (itoa value buf 0x64 ⟨m, [], []⟩).Returns (r, t) ∧ Canonical 10 value.toInt.natAbs ds ∧
      t.mem.Text buf (signChars value ++ ds.map figure) ∧ (signChars value ++ ds.map figure).length + 1 ≤ 12 ∧
      Traced.Inside buf 12 t ∧ (atoi buf t.mem).Returns value := by
  have length := magnitude_length value
  have sign := sign_length value
  obtain ⟨r, t, returned, text, inside⟩ := itoa_decimal value buf 12 _ room (untouched m buf 12) (by omega)
  have back := atoi_returns _ _ _ _ _ _ (numeral_of_text t.mem buf value text)
  rw [signed_magnitude] at back
  refine ⟨r, t, _, returned, low_canonical 10 _ (by decide), text, ?_, inside, back⟩
  rw [List.length_append, List.length_map, List.length_reverse]
  omega

theorem unsigned_text (room : buf.toNat + 11 ≤ 2 ^ 32) :
    ∃ r t ds, (itoa value buf 0x75 ⟨m, [], []⟩).Returns (r, t) ∧ Canonical 10 value.toNat ds ∧ t.mem.Text buf (ds.map figure) ∧
      (ds.map figure).length + 1 ≤ 11 ∧ Traced.Inside buf 11 t := by
  have length := unsigned_length value
  obtain ⟨t, returned, text, inside⟩ := itoa_unsigned value buf 11 _ room (untouched m buf 11) (by omega)
  refine ⟨buf, t, _, returned, low_canonical 10 _ (by decide), text, ?_, inside⟩
  rw [List.length_map, List.length_reverse]
  omega

theorem hex_text (room : buf.toNat + 11 ≤ 2 ^ 32) :
    ∃ r t ds, (itoa value buf 0x78 ⟨m, [], []⟩).Returns (r, t) ∧ Canonical 16 value.toNat ds ∧ t.mem.Text buf (ds.map figure) ∧
      (ds.map figure).length + 1 ≤ 11 ∧ Traced.Inside buf 11 t := by
  have length := hex_length value
  obtain ⟨t, returned, text, inside⟩ := itoa_hex value buf 11 _ (by omega) (untouched m buf 11) (by omega)
  refine ⟨buf, t, _, returned, low_canonical 16 _ (by decide), text, ?_, inside⟩
  rw [List.length_map, List.length_reverse]
  omega

theorem printf_number_inside (c : Word) (letter : c = 0x64 ∨ c = 0x75 ∨ c = 0x78) (room : buf.toNat + 20 ≤ 2 ^ 32) :
    ∃ out t, (printfNumber value buf c ⟨m, [], []⟩).Returns (out, t) ∧ Traced.Inside buf 20 t := by
  obtain ⟨r, t, s, returned, text, inside, length⟩ : ∃ r t s, (itoa value buf c ⟨m, [], []⟩).Returns (r, t) ∧ t.mem.Text buf s ∧
      Traced.Inside buf 20 t ∧ s.length ≤ 11 := by
    have begun := untouched m buf 20
    rcases letter with rfl | rfl | rfl
    · have length := magnitude_length value
      have sign := sign_length value
      obtain ⟨r, t, returned, text, inside⟩ := itoa_decimal value buf 20 _ (by omega) begun (by omega)
      refine ⟨r, t, _, returned, text, inside, ?_⟩
      rw [List.length_append, List.length_map, List.length_reverse]
      omega
    · have length := unsigned_length value
      obtain ⟨t, returned, text, inside⟩ := itoa_unsigned value buf 20 _ (by omega) begun (by omega)
      refine ⟨buf, t, _, returned, text, inside, ?_⟩
      rw [List.length_map, List.length_reverse]
      omega
    · have length := hex_length value
      obtain ⟨t, returned, text, inside⟩ := itoa_hex value buf 20 _ (by omega) begun (by omega)
      refine ⟨buf, t, _, returned, text, inside, ?_⟩
      rw [List.length_map, List.length_reverse]
      omega
  obtain ⟨t', printed, inside'⟩ := printf_number_returns value buf 20 _ c r s t returned text inside (by omega) (by omega)
  exact ⟨s, t', printed, inside'⟩

end Numerals

theorem decimal_text_round_trip :
    (∀ (m : Mem) (buf value : Word), buf.toNat + 12 ≤ 2 ^ 32 →
      ∃ r t ds, (itoa value buf 0x64 ⟨m, [], []⟩).Returns (r, t) ∧ Canonical 10 value.toInt.natAbs ds ∧
        t.mem.Text buf (signChars value ++ ds.map figure) ∧ (signChars value ++ ds.map figure).length + 1 ≤ 12 ∧
        Traced.Inside buf 12 t ∧ (atoi buf t.mem).Returns value) ∧
    (∀ (m : Mem) (buf value : Word), buf.toNat + 11 ≤ 2 ^ 32 →
      ∃ r t ds, (itoa value buf 0x75 ⟨m, [], []⟩).Returns (r, t) ∧ Canonical 10 value.toNat ds ∧ t.mem.Text buf (ds.map figure) ∧
        (ds.map figure).length + 1 ≤ 11 ∧ Traced.Inside buf 11 t) ∧
    (∀ (m : Mem) (buf value : Word), buf.toNat + 11 ≤ 2 ^ 32 →
      ∃ r t ds, (itoa value buf 0x78 ⟨m, [], []⟩).Returns (r, t) ∧ Canonical 16 value.toNat ds ∧ t.mem.Text buf (ds.map figure) ∧
        (ds.map figure).length + 1 ≤ 11 ∧ Traced.Inside buf 11 t) ∧
    (∀ (m : Mem) (buf value c : Word), c = 0x64 ∨ c = 0x75 ∨ c = 0x78 → buf.toNat + 20 ≤ 2 ^ 32 →
      ∃ out t, (printfNumber value buf c ⟨m, [], []⟩).Returns (out, t) ∧ Traced.Inside buf 20 t) ∧
    ∀ (m : Mem) (a : Word) (ws sign : List Byte) (ds : List Nat) (c : Byte), Numeral m a ws sign ds c →
      (atoi a m).Returns (BitVec.ofInt 32 (signed sign (Nat.ofDigits 10 ds.reverse))) :=
  ⟨decimal_text, unsigned_text, hex_text, printf_number_inside, atoi_returns⟩

theorem decimal_text_of_least : ∃ r t, (itoa 0x80000000 0x1000 0x64 ⟨fun _ => 0, [], []⟩).Returns (r, t) ∧
    (atoi 0x1000 t.mem).Returns 0x80000000 := by
  obtain ⟨r, t, ds, returned, -, -, -, -, back⟩ := decimal_text_round_trip.1 (fun _ => 0) 0x1000 0x80000000 (by decide)
  exact ⟨r, t, returned, back⟩

end Deimos.Str
