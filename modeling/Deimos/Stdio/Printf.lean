import Deimos.Lib.Comp
import Deimos.Str.Itoa

set_option autoImplicit false

namespace Deimos.Stdio

open Comp Numerals Str

-- One pass of the while loop of printf, over format, arg, what has been
-- printed, and the memory. null is where the string "(null)" lies, buf the
-- array of 20.
def printfBody (null buf : Word) (state : Word × Word × List Byte × Traced) :
    Comp Stop (Iter (Word × Word × List Byte × Traced) (List Byte × Traced)) :=
  let (format, arg, out, t) := state
  let (c, t) := t.fetch format
  let format := format + 1
  if c = 0 then pure (.done (out, t))
  else if c ≠ 0x25 then pure (.next (format, arg, out ++ [c], t))
  else
    let (c, t) := t.fetch format
    let format := format + 1
    let word := t.mem.read arg
    if c = 0x64 ∨ c = 0x75 ∨ c = 0x78 then do
      let (digits, t) ← printfNumber word buf (c.setWidth 32) t
      pure (.next (format, arg + 4, out ++ digits, t))
    else if c = 0x73 then do
      let (out, t) ← loop printfStringBody (if word = 0 then null else word, out, t)
      pure (.next (format, arg + 4, out, t))
    else pure (.next (format, arg + 4, out ++ [word.setWidth 8], t))

-- arg is the address of the first argument behind format.
def printf (null buf format arg : Word) (t : Traced) : Comp Stop (List Byte × Traced) :=
  rounds (printfBody null buf) (format, arg, [], t)

-- What a format says. A letter that is none of d, u, x and s asks for a
-- character, the percent sign not excepted.
inductive Piece where
  | plain (c : Byte)
  | number (letter : Byte)
  | string
  | char
deriving DecidableEq, Repr

def Piece.of (letter : Byte) : Piece :=
  if letter = 0x64 ∨ letter = 0x75 ∨ letter = 0x78 then .number letter else if letter = 0x73 then .string else .char

def pieces : List Byte → Option (List Piece)
  | [] => some []
  | c :: rest =>
      if c ≠ 0x25 then (pieces rest).map (.plain c :: ·)
      else
        match rest with
        | [] => none
        | letter :: rest => (pieces rest).map (Piece.of letter :: ·)

theorem pieces_plain (c : Byte) (s : List Byte) (ordinary : c ≠ 0x25) : pieces (c :: s) = (pieces s).map (.plain c :: ·) := by
  rw [pieces.eq_def]
  exact if_pos ordinary

def numeral (letter : Byte) (value : Word) : List Byte :=
  if letter = 0x64 then signChars value ++ (low 10 value.toInt.natAbs).reverse.map figure
  else if letter = 0x78 then (low 16 value.toNat).reverse.map figure
  else (low 10 value.toNat).reverse.map figure

inductive Arg where
  | word (value : Word)
  | string (s : List Byte)
deriving DecidableEq, Repr

def render : List Piece → List Arg → Option (List Byte)
  | [], _ => some []
  | .plain c :: ps, args => (render ps args).map (c :: ·)
  | .number letter :: ps, .word value :: args => (render ps args).map (numeral letter value ++ ·)
  | .char :: ps, .word value :: args => (render ps args).map (value.setWidth 8 :: ·)
  | .string :: ps, .string s :: args => (render ps args).map (s ++ ·)
  | _, _ => none

def used : List Piece → Nat
  | [] => 0
  | .plain _ :: ps => used ps
  | .number _ :: ps => used ps + 1
  | .string :: ps => used ps + 1
  | .char :: ps => used ps + 1

section Render

variable (letter : Byte) (ps : List Piece) (args : List Arg) (rest : List Byte)

theorem render_plain (c : Byte) (fits : render (.plain c :: ps) args = some rest) : ∃ tail, render ps args = some tail ∧ rest = c :: tail := by
  rw [render] at fits
  obtain ⟨tail, fits', same⟩ := Option.map_eq_some_iff.mp fits
  exact ⟨tail, fits', same.symm⟩

theorem render_number (fits : render (.number letter :: ps) args = some rest) :
    ∃ value args' tail, args = .word value :: args' ∧ render ps args' = some tail ∧ rest = numeral letter value ++ tail := by
  cases args with
  | nil => cases fits
  | cons first args =>
      cases first with
      | string s => cases fits
      | word value =>
          rw [render] at fits
          obtain ⟨tail, fits', same⟩ := Option.map_eq_some_iff.mp fits
          exact ⟨value, args, tail, rfl, fits', same.symm⟩

theorem render_char (fits : render (.char :: ps) args = some rest) :
    ∃ value args' tail, args = .word value :: args' ∧ render ps args' = some tail ∧ rest = value.setWidth 8 :: tail := by
  cases args with
  | nil => cases fits
  | cons first args =>
      cases first with
      | string s => cases fits
      | word value =>
          rw [render] at fits
          obtain ⟨tail, fits', same⟩ := Option.map_eq_some_iff.mp fits
          exact ⟨value, args, tail, rfl, fits', same.symm⟩

theorem render_string (fits : render (.string :: ps) args = some rest) :
    ∃ s args' tail, args = .string s :: args' ∧ render ps args' = some tail ∧ rest = s ++ tail := by
  cases args with
  | nil => cases fits
  | cons first args =>
      cases first with
      | word value => cases fits
      | string s =>
          rw [render] at fits
          obtain ⟨tail, fits', same⟩ := Option.map_eq_some_iff.mp fits
          exact ⟨s, args, tail, rfl, fits', same.symm⟩

end Render

def Off (buf a : Word) (n : Nat) : Prop := ∀ i < n, 20 ≤ (a + BitVec.ofNat 32 i - buf).toNat

def Passed (null buf : Word) (m : Mem) : Word → List Arg → Prop
  | _, [] => True
  | arg, .word value :: args => Off buf arg 4 ∧ m.read arg = value ∧ Passed null buf m (arg + 4) args
  | arg, .string s :: args => Off buf arg 4 ∧ m.Text (if m.read arg = 0 then null else m.read arg) s ∧
      Off buf (if m.read arg = 0 then null else m.read arg) (s.length + 1) ∧ Passed null buf m (arg + 4) args

def Keeps (buf : Word) (m m' : Mem) : Prop := ∀ x : Word, 20 ≤ (x - buf).toNat → m' x = m x

section Memory

variable {null buf : Word} {m m' : Mem}

theorem Off.tail {a : Word} {n : Nat} (off : Off buf a (n + 1)) : Off buf (a + 1) n := by
  intro i small
  rw [← Mem.offset_next]
  exact off (i + 1) (Nat.succ_lt_succ small)

theorem Keeps.trans {m'' : Mem} (first : Keeps buf m m') (second : Keeps buf m' m'') : Keeps buf m m'' :=
  fun x far => (second x far).trans (first x far)

theorem Keeps.byte (keeps : Keeps buf m m') {a : Word} {n : Nat} (off : Off buf a n) (i : Nat) (small : i < n) :
    m' (a + BitVec.ofNat 32 i) = m (a + BitVec.ofNat 32 i) := keeps _ (off i small)

theorem Keeps.holds (keeps : Keeps buf m m') {a : Word} {xs : List Byte} (off : Off buf a xs.length) (holds : m.Holds a xs) : m'.Holds a xs := by
  refine Mem.holds_iff.mpr (fun i b found => ?_)
  rw [keeps.byte off i (List.getElem?_eq_some_iff.mp found).1]
  exact Mem.holds_iff.mp holds i b found

theorem Keeps.text (keeps : Keeps buf m m') {a : Word} {s : List Byte} (off : Off buf a (s.length + 1)) (text : m.Text a s) : m'.Text a s := by
  refine ⟨keeps.holds ?_ text.holds, text.inner⟩
  rwa [List.length_append, List.length_singleton]

theorem Keeps.word (keeps : Keeps buf m m') {arg : Word} (off : Off buf arg 4) : m'.read arg = m.read arg := by
  refine Mem.read_congr _ _ _ (fun x near => ?_)
  have same := keeps.byte off (x - arg).toNat near
  rwa [show arg + BitVec.ofNat 32 (x - arg).toNat = x by bv_omega] at same

theorem Keeps.passed (keeps : Keeps buf m m') (args : List Arg) (arg : Word) (passed : Passed null buf m arg args) :
    Passed null buf m' arg args := by
  induction args generalizing arg with
  | nil => trivial
  | cons first args ih =>
      cases first with
      | word value =>
          obtain ⟨off, here, rest⟩ := passed
          exact ⟨off, (keeps.word off).trans here, ih _ rest⟩
      | string s =>
          obtain ⟨off, text, away, rest⟩ := passed
          rw [Passed, keeps.word off]
          exact ⟨off, keeps.text away text, away, ih _ rest⟩

end Memory

section Calls

variable (null buf : Word) (room : buf.toNat + 20 ≤ 2 ^ 32)

omit room in
theorem print_string (s : List Byte) (p : Word) (t : Traced) (text : t.mem.Text p s) :
    ∃ t', (∀ out, (loop printfStringBody (p, out, t)).Returns (out ++ s, t')) ∧ t'.mem = t.mem := by
  induction s generalizing p t with
  | nil =>
      refine ⟨(t.fetch p).2, fun out => ?_, rfl⟩
      have stop : printfStringBody (p, out, t) = .ok (.done (out, (t.fetch p).2)) := if_neg (not_not.mpr (text.nil_iff.mpr rfl))
      rw [List.append_nil]
      exact (ends_loop_done _ _ _ _ stop).mpr rfl
  | cons c s ih =>
      have nonzero : t.mem p ≠ 0 := fun zero => List.cons_ne_nil c s (text.nil_iff.mp zero)
      obtain ⟨t', returned, same⟩ := ih (p + 1) ((t.fetch p).2.fetch p).2 text.tail.2
      refine ⟨t', fun out => ?_, same⟩
      have pass : printfStringBody (p, out, t) = .ok (.next (p + 1, out ++ [c], ((t.fetch p).2.fetch p).2)) := by
        rw [← text.tail.1]
        exact if_pos nonzero
      have rest := returned (out ++ [c])
      rw [List.append_assoc, List.singleton_append] at rest
      exact (ends_loop_next _ _ _ _ pass).mpr rest

include room

theorem digits_kept (a ud divisor : Word) (n : Nat) (t : Traced) (base : 1 < divisor.toNat) (top : divisor.toNat ≤ 16) (positive : 0 < n)
    (small : ud.toNat < divisor.toNat ^ n) (start : a.toNat = buf.toNat ∨ a.toNat = buf.toNat + 1) (short : n ≤ 10) :
    ∃ t', (itoaDigits a ud divisor t).Returns (a, t') ∧ t'.mem.Text a ((low divisor.toNat ud.toNat).reverse.map figure) ∧
      (∀ x : Word, x.toNat < a.toNat ∨ buf.toNat + 20 ≤ x.toNat → t'.mem x = t.mem x) := by
  have length := low_length divisor.toNat ud.toNat n base positive small
  obtain ⟨t', returned, text, kept, -⟩ := itoa_digits_text a 0 (2 ^ 32) divisor base top ud t (by omega)
    (fun x _ => (x - 0).isLt) (fun p _ => (a + BitVec.ofNat 32 p - 0).isLt)
  refine ⟨t', returned, text, fun x far => kept x ?_⟩
  have size : (low divisor.toNat ud.toNat).length + 1 ≤ 11 := by omega
  generalize (low divisor.toNat ud.toNat).length + 1 = k at size
  bv_omega

theorem itoa_kept (letter : Byte) (known : letter = 0x64 ∨ letter = 0x75 ∨ letter = 0x78) (value : Word) (t : Traced) :
    ∃ r t', (itoa value buf (letter.setWidth 32) t).Returns (r, t') ∧ t'.mem.Text buf (numeral letter value) ∧ Keeps buf t.mem t'.mem := by
  have outside (t' : Traced) (kept : ∀ x : Word, x.toNat < buf.toNat ∨ buf.toNat + 20 ≤ x.toNat → t'.mem x = t.mem x) :
      Keeps buf t.mem t'.mem := fun x far => kept x (by bv_omega)
  rcases known with rfl | rfl | rfl
  · by_cases negative : value.toInt < 0
    · have signed : value.slt 0 = true := BitVec.slt_iff_toInt_lt.mpr negative
      have magnitude := magnitude_negative value negative
      have next : (buf + 1).toNat = buf.toNat + 1 := by bv_omega
      obtain ⟨t', returned, text, kept⟩ := digits_kept buf room (buf + 1) (-value) 10 10 (t.store buf 0x2D) (by decide) (by decide) (by decide)
        (Nat.lt_trans (-value).isLt (show 2 ^ 32 < 10 ^ 10 by decide)) (.inr next) (Nat.le_refl 10)
      have first : t'.mem buf = 0x2D := (kept buf (.inl (by omega))).trans (Function.update_self ..)
      have sign : numeral 0x64 value = 0x2D :: (low 10 (-value).toNat).reverse.map figure := by
        rw [numeral, if_pos rfl, signChars, if_pos negative, magnitude, List.singleton_append]
      refine ⟨buf + 1, t', ?_, ?_, outside t' (fun x far => ?_)⟩
      · change (itoa value buf 0x64 t).Returns (buf + 1, t')
        rw [itoa, if_pos ⟨rfl, signed⟩]
        exact returned
      · rw [sign]
        refine ⟨⟨first, text.holds⟩, fun c member => ?_⟩
        rcases List.mem_cons.mp member with rfl | member
        · decide
        · exact text.inner c member
      · have other : x ≠ buf := by
          rintro rfl
          omega
        exact (kept x (by omega)).trans (Function.update_of_ne other _ _)
    · have unsigned : ¬((0x64 : Word) = 0x64 ∧ value.slt 0 = true) := fun both => negative (BitVec.slt_iff_toInt_lt.mp both.2)
      obtain ⟨t', returned, text, kept⟩ := digits_kept buf room buf value 10 10 t (by decide) (by decide) (by decide)
        (Nat.lt_trans value.isLt (show 2 ^ 32 < 10 ^ 10 by decide)) (.inl rfl) (Nat.le_refl 10)
      refine ⟨buf, t', ?_, ?_, outside t' kept⟩
      · change (itoa value buf 0x64 t).Returns (buf, t')
        rw [itoa, if_neg unsigned]
        exact returned
      · rw [numeral, if_pos rfl, signChars, if_neg negative, ← magnitude_positive value negative]
        exact text
  · obtain ⟨t', returned, text, kept⟩ := digits_kept buf room buf value 10 10 t (by decide) (by decide) (by decide)
      (Nat.lt_trans value.isLt (show 2 ^ 32 < 10 ^ 10 by decide)) (.inl rfl) (Nat.le_refl 10)
    exact ⟨buf, t', returned, text, outside t' kept⟩
  · obtain ⟨t', returned, text, kept⟩ := digits_kept buf room buf value 16 8 t (by decide) (by decide) (by decide) value.isLt (.inl rfl)
      (by decide)
    exact ⟨buf, t', returned, text, outside t' kept⟩

theorem number_printed (letter : Byte) (known : letter = 0x64 ∨ letter = 0x75 ∨ letter = 0x78) (value : Word) (t : Traced) :
    ∃ t', (printfNumber value buf (letter.setWidth 32) t).Returns (numeral letter value, t') ∧ Keeps buf t.mem t'.mem := by
  obtain ⟨r, t₁, converted, text, keeps⟩ := itoa_kept buf room letter known value t
  obtain ⟨t₂, printed, same⟩ := print_string (numeral letter value) buf t₁ text
  exact ⟨t₂, (ends_bind_of_returns _ _ _ _ converted).mpr (printed []), same ▸ keeps⟩

end Calls

section Format

variable (null buf : Word) (room : buf.toNat + 20 ≤ 2 ^ 32)

def Advances (format arg : Word) (t : Traced) (format' arg' : Word) (t' : Traced) (new : List Byte) : Prop :=
  (∀ out result, (rounds (printfBody null buf) (format, arg, out, t)).Ends result ↔
    (rounds (printfBody null buf) (format', arg', out ++ new, t')).Ends result) ∧ Keeps buf t.mem t'.mem

theorem advances_pass (format format' format'' arg arg' arg'' : Word) (t t' t'' : Traced) (new more : List Byte)
    (pass : ∀ out, (printfBody null buf (format, arg, out, t)).Returns (.next (format', arg', out ++ new, t')))
    (keeps : Keeps buf t.mem t'.mem) (rest : Advances null buf format' arg' t' format'' arg'' t'' more) :
    Advances null buf format arg t format'' arg'' t'' (new ++ more) := by
  obtain ⟨ends, keeps'⟩ := rest
  refine ⟨fun out result => ?_, keeps.trans keeps'⟩
  rw [ends_rounds_next _ _ _ _ (pass out), ends (out ++ new) result, List.append_assoc]

theorem advances_refl (format arg : Word) (t : Traced) : Advances null buf format arg t format arg t [] :=
  ⟨fun out result => by rw [List.append_nil], fun _ _ => rfl⟩

theorem plain_pass (format arg : Word) (out : List Byte) (t : Traced) (c : Byte) (here : t.mem format = c) (nonzero : c ≠ 0)
    (ordinary : c ≠ 0x25) : (printfBody null buf (format, arg, out, t)).Returns (.next (format + 1, arg, out ++ [c], (t.fetch format).2)) := by
  rw [printfBody, Traced.fetch]
  simp only [here, if_neg nonzero, if_pos ordinary]
  exact (ends_pure _ _).mpr rfl

def conversion (letter : Byte) (format arg : Word) (out : List Byte) (t : Traced) :
    Comp Stop (Iter (Word × Word × List Byte × Traced) (List Byte × Traced)) :=
  if letter = 0x64 ∨ letter = 0x75 ∨ letter = 0x78 then do
    let (digits, t) ← printfNumber (t.mem.read arg) buf (letter.setWidth 32) t
    pure (.next (format, arg + 4, out ++ digits, t))
  else if letter = 0x73 then do
    let (out, t) ← loop printfStringBody (if t.mem.read arg = 0 then null else t.mem.read arg, out, t)
    pure (.next (format, arg + 4, out, t))
  else pure (.next (format, arg + 4, out ++ [(t.mem.read arg).setWidth 8], t))

theorem percent_pass (format arg : Word) (out : List Byte) (t : Traced) (here : t.mem format = 0x25) :
    printfBody null buf (format, arg, out, t) =
      conversion null buf (t.mem (format + 1)) (format + 1 + 1) arg out ((t.fetch format).2.fetch (format + 1)).2 := by
  have nonzero : ¬(0x25 : Byte) = 0 := by decide
  have sign : ¬(0x25 : Byte) ≠ 0x25 := fun other => other rfl
  rw [printfBody, Traced.fetch]
  simp only [here, if_neg nonzero, if_neg sign]
  rfl

include room

theorem number_pass (letter : Byte) (known : letter = 0x64 ∨ letter = 0x75 ∨ letter = 0x78) (format arg : Word) (t : Traced) :
    ∃ t', (∀ out, (conversion null buf letter format arg out t).Returns
      (.next (format, arg + 4, out ++ numeral letter (t.mem.read arg), t'))) ∧ Keeps buf t.mem t'.mem := by
  obtain ⟨t', printed, keeps⟩ := number_printed buf room letter known (t.mem.read arg) t
  refine ⟨t', fun out => ?_, keeps⟩
  rw [conversion, if_pos known]
  exact (ends_bind_of_returns _ _ _ _ printed).mpr ((ends_pure _ _).mpr rfl)

omit room in
theorem string_pass (s : List Byte) (format arg : Word) (t : Traced)
    (text : t.mem.Text (if t.mem.read arg = 0 then null else t.mem.read arg) s) :
    ∃ t', (∀ out, (conversion null buf 0x73 format arg out t).Returns (.next (format, arg + 4, out ++ s, t'))) ∧ t'.mem = t.mem := by
  obtain ⟨t', printed, same⟩ := print_string s _ t text
  refine ⟨t', fun out => ?_, same⟩
  rw [conversion, if_neg (by decide), if_pos rfl]
  exact (ends_bind_of_returns _ _ _ _ (printed out)).mpr ((ends_pure _ _).mpr rfl)

omit room in
theorem char_pass (letter : Byte) (number : ¬(letter = 0x64 ∨ letter = 0x75 ∨ letter = 0x78)) (string : letter ≠ 0x73) (format arg : Word)
    (t : Traced) (out : List Byte) : (conversion null buf letter format arg out t).Returns
      (.next (format, arg + 4, out ++ [(t.mem.read arg).setWidth 8], t)) := by
  rw [conversion, if_neg number, if_neg string]
  exact (ends_pure _ _).mpr rfl

theorem advances_pieces (s : List Byte) (ps : List Piece) (parsed : pieces s = some ps) (format arg : Word) (args : List Arg)
    (rest : List Byte) (t : Traced) (holds : t.mem.Holds format s) (inner : ∀ c ∈ s, c ≠ 0) (off : Off buf format s.length)
    (passed : Passed null buf t.mem arg args) (fits : render ps args = some rest) :
    ∃ t', Advances null buf format arg t (format + BitVec.ofNat 32 s.length) (arg + BitVec.ofNat 32 (4 * used ps)) t' rest := by
  induction s using pieces.induct generalizing ps format arg args rest t with
  | case1 =>
      obtain rfl : ps = [] := (Option.some.inj parsed).symm
      obtain rfl : rest = [] := (Option.some.inj fits).symm
      refine ⟨t, ?_⟩
      rw [List.length_nil, used, show format + BitVec.ofNat 32 0 = format from BitVec.add_zero _,
        show arg + BitVec.ofNat 32 (4 * 0) = arg from BitVec.add_zero _]
      exact advances_refl null buf format arg t
  | case2 c s ordinary ih =>
      rw [pieces_plain c s ordinary] at parsed
      obtain ⟨qs, parsed', rfl⟩ := Option.map_eq_some_iff.mp parsed
      obtain ⟨tail, fits', rfl⟩ := render_plain qs args rest c fits
      obtain ⟨t', advances⟩ := ih qs parsed' (format + 1) arg args tail (t.fetch format).2 holds.2
        (fun d member => inner d (List.mem_cons_of_mem c member)) off.tail passed fits'
      rw [List.length_cons, used, Mem.offset_next]
      exact ⟨t', advances_pass null buf _ _ _ _ _ _ _ _ _ [c] tail
        (fun out => plain_pass null buf format arg out t c holds.1 (inner c List.mem_cons_self) ordinary) (fun _ _ => rfl) advances⟩
  | case3 c sign =>
      simp only [pieces, if_neg sign] at parsed
      cases parsed
  | case4 c sign letter s ih =>
      simp only [pieces, if_neg sign] at parsed
      obtain ⟨qs, parsed', rfl⟩ := Option.map_eq_some_iff.mp parsed
      have here : t.mem format = 0x25 := holds.1.trans (not_not.mp sign)
      have behind : t.mem (format + 1) = letter := holds.2.1
      have pass (out : List Byte) := percent_pass null buf format arg out t here
      rw [behind] at pass
      rw [List.length_cons, List.length_cons, Mem.offset_next, Mem.offset_next]
      have place (ps : List Piece) : arg + BitVec.ofNat 32 (4 * (used ps + 1)) = arg + 4 + BitVec.ofNat 32 (4 * used ps) := by bv_omega
      -- The rest of the format and of the arguments is read in a memory that differs in buf.
      have later (args' : List Arg) (tail : List Byte) (t' : Traced) (keeps : Keeps buf t.mem t'.mem) (follow : Passed null buf t.mem (arg + 4) args')
          (fits' : render qs args' = some tail) := ih qs parsed' (format + 1 + 1) (arg + 4) args' tail t' (keeps.holds off.tail.tail holds.2.2)
        (fun d member => inner d (List.mem_cons_of_mem c (List.mem_cons_of_mem letter member))) off.tail.tail (keeps.passed args' _ follow) fits'
      by_cases number : letter = 0x64 ∨ letter = 0x75 ∨ letter = 0x78
      · rw [Piece.of, if_pos number] at fits ⊢
        obtain ⟨value, args', tail, rfl, fits', rfl⟩ := render_number letter qs args rest fits
        obtain ⟨-, read, follow⟩ := passed
        obtain ⟨t', returned, keeps⟩ := number_pass null buf room letter number (format + 1 + 1) arg ((t.fetch format).2.fetch (format + 1)).2
        rw [show ((t.fetch format).2.fetch (format + 1)).2.mem.read arg = value from read] at returned
        obtain ⟨t'', advances⟩ := later args' tail t' keeps follow fits'
        rw [used, place]
        exact ⟨t'', advances_pass null buf _ _ _ _ _ _ _ _ _ _ _ (fun out => (pass out).symm ▸ returned out) keeps advances⟩
      · by_cases string : letter = 0x73
        · rw [Piece.of, if_neg number, if_pos string] at fits ⊢
          obtain ⟨s', args', tail, rfl, fits', rfl⟩ := render_string qs args rest fits
          obtain ⟨-, text', -, follow⟩ := passed
          obtain ⟨t', returned, same⟩ := string_pass null buf s' (format + 1 + 1) arg ((t.fetch format).2.fetch (format + 1)).2 text'
          rw [← string] at returned
          have keeps : Keeps buf t.mem t'.mem := fun x _ => congrFun same x
          obtain ⟨t'', advances⟩ := later args' tail t' keeps follow fits'
          rw [used, place]
          exact ⟨t'', advances_pass null buf _ _ _ _ _ _ _ _ _ _ _ (fun out => (pass out).symm ▸ returned out) keeps advances⟩
        · rw [Piece.of, if_neg number, if_neg string] at fits ⊢
          obtain ⟨value, args', tail, rfl, fits', rfl⟩ := render_char qs args rest fits
          obtain ⟨-, read, follow⟩ := passed
          have returned := char_pass null buf letter number string (format + 1 + 1) arg ((t.fetch format).2.fetch (format + 1)).2
          rw [show ((t.fetch format).2.fetch (format + 1)).2.mem.read arg = value from read] at returned
          obtain ⟨t'', advances⟩ := later args' tail ((t.fetch format).2.fetch (format + 1)).2 (fun _ _ => rfl) follow fits'
          rw [used, place]
          exact ⟨t'', advances_pass null buf _ _ _ _ _ _ _ ((t.fetch format).2.fetch (format + 1)).2 _ [value.setWidth 8] tail
            (fun out => (pass out).symm ▸ returned out) (fun _ _ => rfl) advances⟩

theorem printf_returns (format arg : Word) (t : Traced) (s : List Byte) (ps : List Piece) (args : List Arg) (out : List Byte)
    (text : t.mem.Text format s) (off : Off buf format (s.length + 1)) (passed : Passed null buf t.mem arg args) (parsed : pieces s = some ps)
    (fits : render ps args = some out) : ∃ t', (printf null buf format arg t).Returns (out, t') ∧ Keeps buf t.mem t'.mem := by
  obtain ⟨t', ends, keeps⟩ := advances_pieces null buf room s ps parsed format arg args out t (Mem.holds_append.mp text.holds).1 text.inner
    (fun i small => off i (Nat.lt_succ_of_lt small)) passed fits
  have last : t'.mem (format + BitVec.ofNat 32 s.length) = 0 := (keeps.byte off s.length (Nat.lt_succ_self _)).trans text.last
  refine ⟨(t'.fetch (format + BitVec.ofNat 32 s.length)).2, (ends [] _).mpr (returns_rounds_done _ _ _ ?_), keeps⟩
  rw [printfBody, Traced.fetch]
  simp only [last, if_pos, List.nil_append]
  exact (ends_pure _ _).mpr rfl

end Format

theorem pieces_none_iff (s : List Byte) : pieces s = none ↔ ∃ front ps, s = front ++ [0x25] ∧ pieces front = some ps := by
  constructor
  · intro none
    induction s using pieces.induct with
    | case1 => cases none
    | case2 c s ordinary ih =>
        rw [pieces_plain c s ordinary, Option.map_eq_none_iff] at none
        obtain ⟨front, ps, rfl, parsed⟩ := ih none
        exact ⟨c :: front, .plain c :: ps, rfl, by rw [pieces_plain c front ordinary, parsed, Option.map_some]⟩
    | case3 c sign => exact ⟨[], [], by rw [not_not.mp sign]; rfl, rfl⟩
    | case4 c sign letter s ih =>
        simp only [pieces, if_neg sign, Option.map_eq_none_iff] at none
        obtain ⟨front, ps, rfl, parsed⟩ := ih none
        refine ⟨c :: letter :: front, Piece.of letter :: ps, rfl, ?_⟩
        simp only [pieces, if_neg sign, parsed, Option.map_some]
  · rintro ⟨front, ps, rfl, parsed⟩
    induction front using pieces.induct generalizing ps with
    | case1 => rfl
    | case2 c s ordinary ih =>
        rw [pieces_plain c s ordinary] at parsed
        obtain ⟨qs, parsed', -⟩ := Option.map_eq_some_iff.mp parsed
        rw [List.cons_append, pieces_plain c _ ordinary, ih qs parsed', Option.map_none]
    | case3 c sign =>
        simp only [pieces, if_neg sign] at parsed
        cases parsed
    | case4 c sign letter s ih =>
        simp only [pieces, if_neg sign] at parsed
        obtain ⟨qs, parsed', -⟩ := Option.map_eq_some_iff.mp parsed
        simp only [List.cons_append, pieces, if_neg sign, ih qs parsed', Option.map_none]

-- Arguments that fit what a format says: printf prints what it says of them,
-- its array is large enough, and nothing else in memory is changed. A format
-- that ends in a percent sign is read on behind its NUL, with one argument
-- printed for the NUL.
theorem printf_exact (null buf format arg : Word) (t : Traced) (s : List Byte) (args : List Arg) (out : List Byte)
    (room : buf.toNat + 20 ≤ 2 ^ 32) (text : t.mem.Text format s) (off : Off buf format (s.length + 1)) (passed : Passed null buf t.mem arg args) :
    (∀ ps, pieces s = some ps → render ps args = some out → ∃ t', (printf null buf format arg t).Returns (out, t') ∧ Keeps buf t.mem t'.mem) ∧
    (pieces s = none → ∃ front ps, s = front ++ [0x25] ∧ pieces front = some ps ∧ (render ps args = some out → ∃ c t', ∀ result,
      (printf null buf format arg t).Ends result ↔
        (rounds (printfBody null buf) (format + BitVec.ofNat 32 (s.length + 1), arg + BitVec.ofNat 32 (4 * (used ps + 1)), out ++ [c], t')).Ends
          result)) ∧
    (pieces s = none ↔ ∃ front ps, s = front ++ [0x25] ∧ pieces front = some ps) := by
  refine ⟨?_, ?_, pieces_none_iff s⟩
  · exact fun ps parsed fits => printf_returns null buf room format arg t s ps args out text off passed parsed fits
  · intro none
    obtain ⟨front, ps, rfl, parsed⟩ := (pieces_none_iff s).mp none
    refine ⟨front, ps, rfl, parsed, fun fits => ?_⟩
    have whole : (front ++ [(0x25 : Byte)]).length = front.length + 1 := List.length_append
    have holds := Mem.holds_append.mp (Mem.holds_append.mp text.holds).1
    obtain ⟨t', ends, keeps⟩ := advances_pieces null buf room front ps parsed format arg args out t holds.1
      (fun c member => text.inner c (List.mem_append_left _ member)) (fun i small => off i (by omega)) passed fits
    have sign : t'.mem (format + BitVec.ofNat 32 front.length) = 0x25 := (keeps.byte off front.length (by omega)).trans holds.2.1
    have last : t'.mem (format + BitVec.ofNat 32 front.length + 1) = 0 := by
      rw [Mem.next_place, ← whole]
      exact (keeps.byte off _ (Nat.lt_succ_self _)).trans text.last
    obtain ⟨t₂, pass⟩ : ∃ t₂, printfBody null buf (format + BitVec.ofNat 32 front.length, arg + BitVec.ofNat 32 (4 * used ps), out, t') =
        conversion null buf 0 (format + BitVec.ofNat 32 front.length + 1 + 1) (arg + BitVec.ofNat 32 (4 * used ps)) out t₂ :=
      ⟨_, last ▸ percent_pass null buf _ (arg + BitVec.ofNat 32 (4 * used ps)) out t' sign⟩
    have next := char_pass null buf 0 (by decide) (by decide) (format + BitVec.ofNat 32 front.length + 1 + 1)
      (arg + BitVec.ofNat 32 (4 * used ps)) t₂ out
    rw [← pass, Mem.next_place, Mem.next_place, ← whole,
      show arg + BitVec.ofNat 32 (4 * used ps) + 4 = arg + BitVec.ofNat 32 (4 * (used ps + 1)) by bv_omega] at next
    refine ⟨(t₂.mem.read (arg + BitVec.ofNat 32 (4 * used ps))).setWidth 8, t₂, fun result => ?_⟩
    rw [printf, ends [] result, List.nil_append]
    exact ends_rounds_next _ _ _ _ next

theorem printf_exact_number : ∃ t t' : Traced, t.mem.Text 0x1000 [0x61, 0x25, 0x75] ∧ t.mem.read 0x2000 = 7 ∧
    (printf 0x4000 0x3000 0x1000 0x2000 t).Returns (0x61 :: numeral 0x75 7, t') ∧ Keeps 0x3000 t.mem t'.mem := by
  obtain ⟨t, text, read⟩ : ∃ t : Traced, t.mem.Text 0x1000 [0x61, 0x25, 0x75] ∧ t.mem.read 0x2000 = 7 := by
    refine ⟨⟨fun x => if x = 0x1000 then 0x61 else if x = 0x1001 then 0x25 else if x = 0x1002 then 0x75 else if x = 0x2000 then 7 else 0,
      [], []⟩, ⟨⟨rfl, rfl, rfl, rfl, trivial⟩, by decide⟩, by decide⟩
  have off : Off 0x3000 0x2000 4 := by
    unfold Off
    decide
  obtain ⟨t', printed, keeps⟩ := (printf_exact 0x4000 0x3000 0x1000 0x2000 t [0x61, 0x25, 0x75] [.word 7] (0x61 :: numeral 0x75 7) (by decide) text
    (by unfold Off; decide) ⟨off, read, trivial⟩).1 [.plain 0x61, .number 0x75] rfl (by simp [render])
  exact ⟨t, t', text, read, printed, keeps⟩

end Deimos.Stdio
