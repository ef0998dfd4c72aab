import Deimos.Kbd.Modifiers
import Deimos.Kbd.Typing

set_option autoImplicit false

namespace Deimos.Kbd

-- The keyboard's one byte of buffer, seen from both ends: what the keys pressed
-- so far stand for, and what tty_getchar has returned, each with the last first.
structure Session extends Console where
  typed : List Byte

def session : Session := ⟨console, []⟩

def charOf (behind : Nat → KeyCode) (k : Keyboard) : Byte := kbdKeyToAscii ((scanAt behind k.buf.toNat).setWidth 8) k

def some_ (c : Byte) : List Byte := if c = 0 then [] else [c]

def newChar (behind : Nat → KeyCode) (status scanCode : Byte) (k : Keyboard) : List Byte :=
  match makeCode status scanCode with
  | some _ => some_ (charOf behind (kbdIsr behind status scanCode k))
  | none => []

def Session.after (behind : Nat → KeyCode) (s : Session) (op : Move) : Session where
  toConsole := move behind s.toConsole op
  typed :=
    match op with
    | .isr status scanCode => newChar behind status scanCode s.kbd ++ s.typed
    | _ => s.typed

def pending (behind : Nat → KeyCode) (s : Console) : List Byte :=
  match s.reader with
  | .leaving c _ => [c]
  | _ => some_ (charOf behind s.kbd)

def Vacant (behind : Nat → KeyCode) (s : Console) : Prop :=
  pending behind s = [] ∧ ∀ key poll, s.reader = .fetched key poll → kbdIsAsciiPrintable key = false

def Patient (behind : Nat → KeyCode) (s : Session) : Move → Prop
  | .isr status scanCode =>
      makeCode status scanCode = none ∧ (kbdIsr behind status scanCode s.kbd).shift = s.kbd.shift ∨ Vacant behind s.toConsole
  | _ => True

def Patiently (behind : Nat → KeyCode) : Session → List Move → Prop
  | _, [] => True
  | s, op :: ops => Patient behind s op ∧ Patiently behind (s.after behind op) ops

section Characters

def Alike (k k' : Keyboard) : Prop := k'.shift = k.shift ∧ k'.capslock = k.capslock

theorem key_to_ascii_alike (key : Byte) (k k' : Keyboard) (alike : Alike k k') : kbdKeyToAscii key k' = kbdKeyToAscii key k := by
  unfold kbdKeyToAscii
  rw [alike.1, alike.2]

def modes (shift caps : Bool) : Keyboard := { boot with shift := if shift then 1 else 0, capslock := if caps then 1 else 0 }

theorem key_to_ascii_modes (key : Byte) (k : Keyboard) : kbdKeyToAscii key k = kbdKeyToAscii key (modes (k.shift ≠ 0) (k.capslock ≠ 0)) := by
  have set (b : Byte) : (if decide (b ≠ 0) = true then (1 : Byte) else 0) ≠ 0 ↔ b ≠ 0 := by
    by_cases zero : b = 0 <;> simp [zero]
  have unset (b : Byte) : (if decide (b ≠ 0) = true then (1 : Byte) else 0) = 0 ↔ b = 0 := not_iff_not.mp (set b)
  unfold kbdKeyToAscii
  simp only [modes, set, unset]

theorem char_zero_iff (key : Byte) (k : Keyboard) : kbdKeyToAscii key k = 0 ↔ kbdIsAsciiPrintable key = false := by
  have all : ∀ (shift caps : Bool) (key : Byte), kbdKeyToAscii key (modes shift caps) = 0 ↔ kbdIsAsciiPrintable key = false := by
    decide +kernel
  rw [key_to_ascii_modes]
  exact all _ _ key

theorem some_eq_nil (c : Byte) : some_ c = [] ↔ c = 0 := by
  unfold some_
  by_cases zero : c = 0 <;> simp [zero]

theorem some_nonzero (c : Byte) (nonzero : c ≠ 0) : some_ c = [c] := if_neg nonzero

end Characters

section Interrupts

variable (behind : Nat → KeyCode)

theorem released_caps (key : KeyCode) (k : Keyboard) : (released key k).capslock = k.capslock := by
  unfold released
  split_ifs <;> rfl

theorem released_alike (key : KeyCode) (k k' : Keyboard) (alike : Alike k k') : Alike (released key k) (released key k') := by
  unfold released
  split_ifs
  · exact alike
  · exact ⟨rfl, alike.2⟩
  · exact alike
  · exact alike

theorem pressed_shift (key : KeyCode) (k : Keyboard) : (pressed key k).shift =
    if key = KEY_LCTRL ∨ key = KEY_RCTRL then k.shift else if key = KEY_LSHIFT ∨ key = KEY_RSHIFT then 1 else k.shift := by
  unfold pressed
  split_ifs <;> rfl

theorem pressed_caps (key : KeyCode) (k : Keyboard) : (pressed key k).capslock =
    if key = KEY_CAPSLOCK then if k.capslock ≠ 0 then 0 else 1 else k.capslock := by
  by_cases caps : key = KEY_CAPSLOCK
  · rw [if_pos caps, caps]
    rfl
  · rw [if_neg caps]
    unfold pressed
    rw [if_neg caps]
    split_ifs <;> rfl

theorem pressed_alike (key : KeyCode) (k k' : Keyboard) (alike : Alike k k') : Alike (pressed key k) (pressed key k') := by
  constructor
  · rw [pressed_shift, pressed_shift, alike.1]
  · rw [pressed_caps, pressed_caps, alike.2]

theorem isr_alike (status scanCode : Byte) (k k' : Keyboard) (alike : Alike k k') :
    Alike (kbdIsr behind status scanCode k) (kbdIsr behind status scanCode k') := by
  unfold kbdIsr
  split_ifs
  · exact alike
  · exact alike
  · exact released_alike _ _ _ alike
  · exact pressed_alike _ _ _ alike

theorem isr_caps (status scanCode : Byte) (k : Keyboard) (noMake : makeCode status scanCode = none) :
    (kbdIsr behind status scanCode k).capslock = k.capslock := by
  unfold makeCode at noMake
  unfold kbdIsr
  by_cases quiet : status &&& PS2_STATUS_OUTBUFRDY = 0
  · rw [if_pos quiet]
  rw [if_neg quiet]
  by_cases first : scanCode = 0xE0 ∨ scanCode = 0xE1
  · rw [if_pos first]
  rw [if_neg first]
  by_cases broken : scanCode &&& 0x80 ≠ 0
  · rw [if_pos broken]
    exact released_caps _ _
  · have make : ¬(status &&& PS2_STATUS_OUTBUFRDY = 0 ∨ scanCode = 0xE0 ∨ scanCode = 0xE1 ∨ scanCode &&& 0x80 ≠ 0) := by
      rintro (one | two | three | four)
      · exact quiet one
      · exact first (.inl two)
      · exact first (.inr three)
      · exact broken four
    rw [if_neg make] at noMake
    exact nomatch noMake

theorem char_alike (k k' : Keyboard) (alike : Alike k k') (buf : k'.buf = k.buf) : charOf behind k' = charOf behind k := by
  unfold charOf
  rw [buf]
  exact key_to_ascii_alike _ _ _ alike

end Interrupts

section Sessions

variable (behind : Nat → KeyCode)

structure Kept (s : Session) : Prop where
  chars : s.typed = pending behind s.toConsole ++ s.returned.map Prod.fst
  fetched : ∀ key poll, s.reader = .fetched key poll →
    kbdIsAsciiPrintable key = false ∨ key = (scanAt behind s.kbd.buf.toNat).setWidth 8

theorem kept_session : Kept behind session := by
  refine ⟨?_, nofun⟩
  have none : charOf behind boot = 0 := rfl
  change [] = some_ (charOf behind boot) ++ []
  rw [none]
  rfl

variable (s : Session) (kept : Kept behind s)

theorem char_cleared : charOf behind (kbdClrKey s.kbd) = 0 := by
  rw [charOf, char_zero_iff]
  rfl

theorem after_reading (op : Move) (c : Console) (reading : ∀ status scanCode, op ≠ .isr status scanCode) (moved : move behind s.toConsole op = c) :
    s.after behind op = ⟨c, s.typed⟩ := by
  cases op with
  | isr status scanCode => exact absurd rfl (reading status scanCode)
  | call | fetch | convert | leave => exact congrArg (Session.mk · s.typed) moved

theorem pending_waiting (c : Console) (free : ∀ x poll, c.reader ≠ .leaving x poll) : pending behind c = some_ (charOf behind c.kbd) := by
  unfold pending
  cases reader : c.reader with
  | leaving x poll => exact absurd reader (free x poll)
  | outside => rfl
  | polling => rfl
  | fetched key poll => rfl

include kept

theorem kept_isr (status scanCode : Byte) (patient : Patient behind s (.isr status scanCode)) : Kept behind (s.after behind (.isr status scanCode)) := by
  have buf := isr_buf behind status scanCode s.kbd
  let k := kbdIsr behind status scanCode s.kbd
  rcases patient with ⟨noMake, shift⟩ | ⟨empty, stale⟩
  · rw [noMake] at buf
    have same : charOf behind k = charOf behind s.kbd := char_alike behind s.kbd k ⟨shift, isr_caps behind _ _ _ noMake⟩ buf
    refine ⟨?_, fun key poll reader => (kept.fetched key poll reader).imp_right (fun here => here.trans ?_)⟩
    · have none : newChar behind status scanCode s.kbd = [] := by rw [newChar, noMake]
      have still : pending behind (move behind s.toConsole (.isr status scanCode)) = pending behind s.toConsole := by
        unfold pending
        cases reader : s.reader with
        | leaving c poll => simp only [move, reader]
        | outside | polling | fetched =>
            simp only [move, reader]
            exact congrArg some_ same
      change newChar behind status scanCode s.kbd ++ s.typed = pending behind (move behind s.toConsole (.isr status scanCode)) ++ _
      rw [none, still]
      exact kept.chars
    · change _ = (scanAt behind k.buf.toNat).setWidth 8
      rw [show k.buf = s.kbd.buf from buf]
  · have free (x : Byte) (poll : Poll) : s.reader ≠ .leaving x poll := by
      intro leaving
      rw [pending, leaving] at empty
      exact List.cons_ne_nil _ _ empty
    have now : pending behind (move behind s.toConsole (.isr status scanCode)) = some_ (charOf behind k) := pending_waiting behind _ free
    refine ⟨?_, fun key poll reader => .inl (stale key poll reader)⟩
    change newChar behind status scanCode s.kbd ++ s.typed = pending behind (move behind s.toConsole (.isr status scanCode)) ++ _
    rw [now, kept.chars, empty, List.nil_append]
    cases made : makeCode status scanCode with
    | some code =>
        rw [newChar, made]
        rfl
    | none =>
        rw [made] at buf
        rw [pending_waiting behind _ free, some_eq_nil, charOf, char_zero_iff] at empty
        have still : charOf behind k = 0 := by
          rw [charOf, char_zero_iff, show k.buf = s.kbd.buf from buf]
          exact empty
        rw [newChar, made, still]
        rfl

theorem kept_call : Kept behind (s.after behind .call) := by
  by_cases outside : s.reader = .outside
  · have moved : move behind s.toConsole .call = { s.toConsole with reader := .polling } := if_pos outside
    have before := pending_waiting behind s.toConsole (fun x poll same => Reader.noConfusion (outside.symm.trans same))
    rw [after_reading behind s .call _ nofun moved]
    refine ⟨?_, nofun⟩
    rw [kept.chars, before]
    rfl
  · rw [after_reading behind s .call s.toConsole nofun (if_neg outside)]
    exact kept

theorem kept_fetch : Kept behind (s.after behind .fetch) := by
  by_cases polling : s.reader = .polling
  · have moved : move behind s.toConsole .fetch = { s.toConsole with
        kbd := (kbdGetKey behind s.kbd).2,
        reader := .fetched (kbdGetKey behind s.kbd).1 ⟨s.makes.head?, s.makes.length⟩ } := if_pos polling
    have before := pending_waiting behind s.toConsole (fun x poll same => Reader.noConfusion (polling.symm.trans same))
    rw [after_reading behind s .fetch _ nofun moved]
    refine ⟨?_, fun key poll reader => .inr (Reader.fetched.inj reader).1.symm⟩
    rw [kept.chars, before]
    rfl
  · rw [after_reading behind s .fetch s.toConsole nofun (if_neg polling)]
    exact kept

theorem kept_convert : Kept behind (s.after behind .convert) := by
  cases reader : s.reader with
  | fetched key poll =>
      have moved : move behind s.toConsole .convert = { s.toConsole with
          reader := if kbdKeyToAscii key s.kbd = 0 then .polling else .leaving (kbdKeyToAscii key s.kbd) poll } := by
        simp only [move, reader]
      have before := pending_waiting behind s.toConsole (fun x poll same => Reader.noConfusion (reader.symm.trans same))
      have chars := kept.chars
      rw [before] at chars
      rw [after_reading behind s .convert _ (fun _ _ same => Move.noConfusion same) moved]
      by_cases empty : kbdKeyToAscii key s.kbd = 0
      · rw [if_pos empty]
        exact ⟨chars, fun _ _ same => Reader.noConfusion same⟩
      · rw [if_neg empty]
        refine ⟨?_, fun _ _ same => Reader.noConfusion same⟩
        have current : key = (scanAt behind s.kbd.buf.toNat).setWidth 8 :=
          (kept.fetched key poll reader).resolve_left (fun silent => empty ((char_zero_iff key s.kbd).mpr silent))
        have char : charOf behind s.kbd = kbdKeyToAscii key s.kbd := by rw [charOf, ← current]
        rw [chars, char, some_nonzero _ empty]
        rfl
  | outside | polling | leaving =>
      have stays : move behind s.toConsole .convert = s.toConsole := by simp only [move, reader]
      rw [after_reading behind s .convert _ (fun _ _ same => Move.noConfusion same) stays]
      exact kept

theorem kept_leave : Kept behind (s.after behind .leave) := by
  cases reader : s.reader with
  | leaving c poll =>
      have moved : move behind s.toConsole .leave =
          { s.toConsole with kbd := kbdClrKey s.kbd, reader := .outside, returned := (c, poll) :: s.returned } := by
        simp only [move, reader]
      have before : pending behind s.toConsole = [c] := by rw [pending, reader]
      rw [after_reading behind s .leave _ (fun _ _ same => Move.noConfusion same) moved]
      refine ⟨?_, fun _ _ same => Reader.noConfusion same⟩
      change s.typed = some_ (charOf behind (kbdClrKey s.kbd)) ++ c :: s.returned.map Prod.fst
      rw [kept.chars, before, char_cleared]
      rfl
  | outside | polling | fetched =>
      have stays : move behind s.toConsole .leave = s.toConsole := by simp only [move, reader]
      rw [after_reading behind s .leave _ (fun _ _ same => Move.noConfusion same) stays]
      exact kept

theorem kept_after (op : Move) (patient : Patient behind s op) : Kept behind (s.after behind op) := by
  cases op with
  | isr status scanCode => exact kept_isr behind s kept status scanCode patient
  | call => exact kept_call behind s kept
  | fetch => exact kept_fetch behind s kept
  | convert => exact kept_convert behind s kept
  | leave => exact kept_leave behind s kept

theorem kept_run (ops : List Move) (patient : Patiently behind s ops) : Kept behind (ops.foldl (Session.after behind) s) := by
  induction ops generalizing s with
  | nil => exact kept
  | cons op ops ih => exact ih (s.after behind op) (kept_after behind s kept op patient.1) patient.2

end Sessions

section Reading

variable (behind : Nat → KeyCode)

def reading : List Move := [.convert, .leave, .call, .fetch, .convert, .leave]

def Idle (c : Console) : Prop := c.reader = .outside ∨ c.reader = .polling

theorem idle_after (c : Console) : Idle (move behind (move behind c .convert) .leave) := by
  cases reader : c.reader with
  | outside => exact .inl (by simp only [move, reader])
  | polling => exact .inr (by simp only [move, reader])
  | leaving x poll => exact .inl (by simp only [move, reader])
  | fetched key poll =>
      by_cases none : kbdKeyToAscii key c.kbd = 0
      · exact .inr (by simp only [move, reader, if_pos none])
      · exact .inl (by simp only [move, reader, if_neg none])

theorem call_polls (c : Console) (idle : Idle c) : move behind c .call = { c with reader := .polling } := by
  rcases idle with outside | polling
  · exact if_pos outside
  · have inside : ¬c.reader = .outside := fun outside => Reader.noConfusion (outside.symm.trans polling)
    have stays : move behind c .call = c := if_neg inside
    rw [stays, ← polling]

theorem reads_out (c : Console) (idle : Idle c) (c' : Console) (read : [Move.call, .fetch, .convert, .leave].foldl (move behind) c = c') :
    charOf behind c'.kbd = 0 ∧ Idle c' := by
  rw [← read]
  simp only [List.foldl_cons, List.foldl_nil, call_polls behind c idle]
  by_cases none : kbdKeyToAscii ((scanAt behind c.kbd.buf.toNat).setWidth 8) (c.kbd.read c.kbd.buf.toNat) = 0
  · simp only [move, kbdGetKey, if_true, if_pos none]
    exact ⟨none, .inr rfl⟩
  · simp only [move, kbdGetKey, if_true, if_neg none]
    exact ⟨char_cleared behind ⟨{ c with kbd := c.kbd.read c.kbd.buf.toNat }, []⟩, .inl rfl⟩

variable (s : Session)

theorem reading_patient (ops : List Move) (none : ∀ status scanCode, Move.isr status scanCode ∉ ops) : Patiently behind s ops := by
  induction ops generalizing s with
  | nil => trivial
  | cons op ops ih =>
      refine ⟨?_, ih (s.after behind op) (fun status scanCode member => none status scanCode (List.mem_cons_of_mem op member))⟩
      cases op with
      | isr status scanCode => exact absurd List.mem_cons_self (none status scanCode)
      | call | fetch | convert | leave => trivial

theorem reading_typed (ops : List Move) (none : ∀ status scanCode, Move.isr status scanCode ∉ ops) :
    ops.foldl (Session.after behind) s = ⟨ops.foldl (move behind) s.toConsole, s.typed⟩ := by
  induction ops generalizing s with
  | nil => rfl
  | cons op ops ih =>
      have first : s.after behind op = ⟨move behind s.toConsole op, s.typed⟩ :=
        after_reading behind s op _ (fun status scanCode same => none status scanCode (same ▸ List.mem_cons_self)) rfl
      rw [List.foldl_cons, List.foldl_cons, first]
      exact ih _ (fun status scanCode member => none status scanCode (List.mem_cons_of_mem op member))

theorem reading_returns (kept : Kept behind s) : (reading.foldl (move behind) s.toConsole).returned.map Prod.fst = s.typed := by
  have none : ∀ status scanCode, Move.isr status scanCode ∉ reading := by simp [reading]
  have after := kept_run behind s kept reading (reading_patient behind s reading none)
  rw [reading_typed behind s reading none] at after
  obtain ⟨empty, idle⟩ := reads_out behind _ (idle_after behind s.toConsole) _ rfl
  have free (x : Byte) (poll : Poll) : (reading.foldl (move behind) s.toConsole).reader ≠ .leaving x poll := by
    intro leaving
    rcases idle with outside | polling
    · exact Reader.noConfusion (outside.symm.trans leaving)
    · exact Reader.noConfusion (polling.symm.trans leaving)
  have chars := after.chars
  have nothing : charOf behind (reading.foldl (move behind) s.toConsole).kbd = 0 := empty
  rw [pending_waiting behind _ free, nothing] at chars
  exact chars.symm

end Reading

section Strokes

def isrBytes (ops : List Move) : List Byte := ops.filterMap (fun op => match op with | .isr _ scanCode => some scanCode | _ => none)

def charsOf (behind : Nat → KeyCode) : Keyboard → List Byte → List Byte
  | _, [] => []
  | k, b :: bytes => newChar behind PS2_STATUS_OUTBUFRDY b k ++ charsOf behind (receive behind k b) bytes

def asciiCodes : List Byte := ((List.range xtScan.length).filter (fun i => xtScan.getD i 0 < 0x100)).map (BitVec.ofNat 8)

def codeFor (shift : Bool) (c : Byte) : Option Byte :=
  asciiCodes.find? (fun code => kbdKeyToAscii ((xtScan.getD code.toNat 0).setWidth 8) (modes shift false) = c)

def stroke (c : Byte) : List Byte :=
  match codeFor false c with
  | some code => [code, code ||| 0x80]
  | none =>
      match codeFor true c with
      | some code => [0x2A, code, code ||| 0x80, 0xAA]
      | none => []

def keystrokes (text : List Byte) : List Byte := text.flatMap stroke

variable (behind : Nat → KeyCode)

theorem make_code_ready (status scanCode : Byte) (ready : status &&& PS2_STATUS_OUTBUFRDY ≠ 0) :
    makeCode status scanCode = makeCode PS2_STATUS_OUTBUFRDY scanCode := by
  have one : ¬PS2_STATUS_OUTBUFRDY &&& PS2_STATUS_OUTBUFRDY = 0 := by decide
  simp only [makeCode, ready, one, false_or]

theorem isr_ready (status scanCode : Byte) (ready : status &&& PS2_STATUS_OUTBUFRDY ≠ 0) (k : Keyboard) :
    kbdIsr behind status scanCode k = receive behind k scanCode := by
  have one : ¬PS2_STATUS_OUTBUFRDY &&& PS2_STATUS_OUTBUFRDY = 0 := by decide
  rw [receive, kbdIsr, kbdIsr, if_neg ready, if_neg one]

theorem new_char_alike (status scanCode : Byte) (k k' : Keyboard) (alike : Alike k k') :
    newChar behind status scanCode k' = newChar behind status scanCode k := by
  unfold newChar
  cases made : makeCode status scanCode with
  | none => rfl
  | some code =>
      have buf (k : Keyboard) : (kbdIsr behind status scanCode k).buf = code := by rw [isr_buf, made]; rfl
      exact congrArg some_ (char_alike behind _ _ (isr_alike behind status scanCode k k' alike) ((buf k').trans (buf k).symm))

theorem new_char_reverse (status scanCode : Byte) (k : Keyboard) : (newChar behind status scanCode k).reverse = newChar behind status scanCode k := by
  unfold newChar some_
  split
  · split_ifs <;> rfl
  · rfl

theorem chars_alike (bytes : List Byte) (k k' : Keyboard) (alike : Alike k k') : charsOf behind k' bytes = charsOf behind k bytes := by
  induction bytes generalizing k k' with
  | nil => rfl
  | cons b bytes ih =>
      have next : Alike (receive behind k b) (receive behind k' b) := isr_alike behind _ b k k' alike
      rw [charsOf, charsOf, new_char_alike behind _ b k k' alike, ih _ _ next]

theorem chars_append (k : Keyboard) (front rest : List Byte) :
    charsOf behind k (front ++ rest) = charsOf behind k front ++ charsOf behind (front.foldl (receive behind) k) rest := by
  induction front generalizing k with
  | nil => rfl
  | cons b front ih => rw [List.cons_append, charsOf, charsOf, ih, List.append_assoc, List.foldl_cons]

theorem move_alike (c : Console) (op : Move) (reading : ∀ status scanCode, op ≠ .isr status scanCode) : Alike c.kbd (move behind c op).kbd := by
  cases op with
  | isr status scanCode => exact absurd rfl (reading status scanCode)
  | call =>
      unfold move
      split_ifs <;> exact ⟨rfl, rfl⟩
  | fetch =>
      unfold move
      dsimp only
      split_ifs <;> exact ⟨rfl, rfl⟩
  | convert => cases reader : c.reader <;> simp only [move, reader] <;> exact ⟨rfl, rfl⟩
  | leave => cases reader : c.reader <;> simp only [move, reader] <;> exact ⟨rfl, rfl⟩

theorem typed_chars (ops : List Move) (ready : ∀ status scanCode, Move.isr status scanCode ∈ ops → status &&& PS2_STATUS_OUTBUFRDY ≠ 0)
    (s : Session) : (ops.foldl (Session.after behind) s).typed = (charsOf behind s.kbd (isrBytes ops)).reverse ++ s.typed := by
  induction ops generalizing s with
  | nil => rfl
  | cons op ops ih =>
      have silent (op : Move) (reading : ∀ status scanCode, op ≠ .isr status scanCode) :
          charsOf behind (s.after behind op).kbd (isrBytes ops) = charsOf behind s.kbd (isrBytes ops) :=
        chars_alike behind _ _ _ (move_alike behind s.toConsole op reading)
      rw [List.foldl_cons, ih (fun status scanCode member => ready status scanCode (List.mem_cons_of_mem op member))]
      cases op with
      | isr status scanCode =>
          have now := ready status scanCode List.mem_cons_self
          have bytes : isrBytes (.isr status scanCode :: ops) = scanCode :: isrBytes ops := rfl
          have kbd : (s.after behind (.isr status scanCode)).kbd = receive behind s.kbd scanCode := isr_ready behind status scanCode now s.kbd
          have char : newChar behind status scanCode s.kbd = newChar behind PS2_STATUS_OUTBUFRDY scanCode s.kbd := by
            rw [newChar, newChar, make_code_ready status scanCode now, isr_ready behind status scanCode now]
            rfl
          rw [bytes, charsOf, List.reverse_append, new_char_reverse, List.append_assoc, ← char, kbd]
          rfl
      | call =>
          rw [silent .call nofun]
          rfl
      | fetch =>
          rw [silent .fetch nofun]
          rfl
      | convert =>
          rw [silent .convert nofun]
          rfl
      | leave =>
          rw [silent .leave nofun]
          rfl

theorem ascii_code (code : Byte) (member : code ∈ asciiCodes) : code.toNat < xtScan.length ∧ xtScan.getD code.toNat 0 < 0x100 := by
  obtain ⟨i, found, rfl⟩ := List.mem_map.mp member
  obtain ⟨range, small⟩ := List.mem_filter.mp found
  have inside : i < 83 := List.mem_range.mp range
  have same : (BitVec.ofNat 8 i).toNat = i := by
    rw [BitVec.toNat_ofNat]
    omega
  rw [same]
  exact ⟨inside, of_decide_eq_true small⟩

theorem scan_inside (i : Nat) (inside : i < xtScan.length) : scanAt behind i = xtScan.getD i 0 := by
  rw [scanAt, List.getD_eq_getElem _ _ inside, List.getD_eq_getElem _ _ inside]

theorem switch_ascii (key : KeyCode) (small : key < 0x100) (other : KeyCode) (large : 0x100 ≤ other) : key ≠ other := by
  rintro rfl
  bv_omega

theorem pressed_ascii (key : KeyCode) (small : key < 0x100) (k : Keyboard) : Alike k (pressed key k) := by
  have apart := switch_ascii key small
  refine ⟨?_, ?_⟩
  · rw [pressed_shift, if_neg (not_or.mpr ⟨apart _ (by decide), apart _ (by decide)⟩), if_neg (not_or.mpr ⟨apart _ (by decide), apart _ (by decide)⟩)]
  · rw [pressed_caps, if_neg (apart _ (by decide))]

theorem released_ascii (key : KeyCode) (small : key < 0x100) (k : Keyboard) : released key k = k := by
  have apart := switch_ascii key small
  rw [released, if_neg (not_or.mpr ⟨apart _ (by decide), apart _ (by decide)⟩), if_neg (not_or.mpr ⟨apart _ (by decide), apart _ (by decide)⟩),
    if_neg (not_or.mpr ⟨apart _ (by decide), apart _ (by decide)⟩)]

variable (k : Keyboard)

theorem low_code : ∀ code : Byte, code.toNat < 83 → ¬(code = 0xE0 ∨ code = 0xE1) ∧ ¬code &&& 0x80 ≠ 0 ∧
    ¬(code ||| 0x80 = 0xE0 ∨ code ||| 0x80 = 0xE1) ∧ (code ||| 0x80) &&& 0x80 ≠ 0 ∧ (code ||| 0x80).toNat - 0x80 = code.toNat := by
  decide +kernel

theorem press_ascii (code : Byte) (member : code ∈ asciiCodes) : Alike k (receive behind k code) ∧
    newChar behind PS2_STATUS_OUTBUFRDY code k = some_ (kbdKeyToAscii ((xtScan.getD code.toNat 0).setWidth 8) k) := by
  obtain ⟨inside, small⟩ := ascii_code code member
  obtain ⟨first, make, -⟩ := low_code code inside
  have ready : ¬PS2_STATUS_OUTBUFRDY &&& PS2_STATUS_OUTBUFRDY = 0 := by decide
  let k' := Keyboard.read code.toNat { k with buf := code }
  have received : kbdIsr behind PS2_STATUS_OUTBUFRDY code k = pressed (xtScan.getD code.toNat 0) k' := by
    rw [kbdIsr, if_neg ready, if_neg first, if_neg make]
    dsimp only
    rw [scan_inside behind _ inside]
  have same : Alike k (receive behind k code) := by
    rw [receive, received]
    exact pressed_ascii _ small k'
  have made : makeCode PS2_STATUS_OUTBUFRDY code = some code := by
    refine if_neg ?_
    rintro (one | two | three | four)
    · exact ready one
    · exact first (.inl two)
    · exact first (.inr three)
    · exact make four
  refine ⟨same, ?_⟩
  have buf : (kbdIsr behind PS2_STATUS_OUTBUFRDY code k).buf = code := by rw [isr_buf, made]; rfl
  rw [newChar, made]
  dsimp only
  rw [charOf, buf, scan_inside behind _ inside]
  exact congrArg some_ (key_to_ascii_alike _ _ _ same)

theorem release_ascii (code : Byte) (member : code ∈ asciiCodes) : Alike k (receive behind k (code ||| 0x80)) ∧
    newChar behind PS2_STATUS_OUTBUFRDY (code ||| 0x80) k = [] := by
  obtain ⟨inside, small⟩ := ascii_code code member
  obtain ⟨-, -, first, broken, index⟩ := low_code code inside
  have ready : ¬PS2_STATUS_OUTBUFRDY &&& PS2_STATUS_OUTBUFRDY = 0 := by decide
  constructor
  · rw [receive, kbdIsr, if_neg ready, if_neg first, if_pos broken]
    dsimp only
    rw [index, scan_inside behind _ inside, released_ascii _ small]
    exact ⟨rfl, rfl⟩
  · have made : makeCode PS2_STATUS_OUTBUFRDY (code ||| 0x80) = none := if_pos (.inr (.inr (.inr broken)))
    rw [newChar, made]

theorem key_chars (code : Byte) (member : code ∈ asciiCodes) :
    charsOf behind k [code, code ||| 0x80] = some_ (kbdKeyToAscii ((xtScan.getD code.toNat 0).setWidth 8) k) ∧
      Alike k ([code, code ||| 0x80].foldl (receive behind) k) := by
  obtain ⟨same, char⟩ := press_ascii behind k code member
  obtain ⟨same', none⟩ := release_ascii behind (receive behind k code) code member
  refine ⟨?_, same'.1.trans same.1, same'.2.trans same.2⟩
  rw [charsOf, charsOf, char, none]
  exact List.append_nil _

theorem shift_down : (receive behind k 0x2A).shift = 1 ∧ (receive behind k 0x2A).capslock = k.capslock ∧
    newChar behind PS2_STATUS_OUTBUFRDY 0x2A k = [] := by
  refine ⟨rfl, rfl, ?_⟩
  have buf : (kbdIsr behind PS2_STATUS_OUTBUFRDY 0x2A k).buf = 0x2A := rfl
  have none : charOf behind (kbdIsr behind PS2_STATUS_OUTBUFRDY 0x2A k) = 0 := by
    rw [charOf, char_zero_iff, buf, scan_inside behind _ (by decide)]
    decide
  have made : makeCode PS2_STATUS_OUTBUFRDY 0x2A = some 0x2A := rfl
  rw [newChar, made, none]
  rfl

theorem shift_up : (receive behind k 0xAA).shift = 0 ∧ (receive behind k 0xAA).capslock = k.capslock ∧
    newChar behind PS2_STATUS_OUTBUFRDY 0xAA k = [] := ⟨rfl, rfl, rfl⟩

theorem code_exists : ∀ c : Byte, kbdIsAsciiPrintable c = true → codeFor false c ≠ none ∨ codeFor true c ≠ none := by decide +kernel

theorem code_for (shift : Bool) (c code : Byte) (found : codeFor shift c = some code) :
    code ∈ asciiCodes ∧ kbdKeyToAscii ((xtScan.getD code.toNat 0).setWidth 8) (modes shift false) = c := by
  unfold codeFor at found
  have here := List.find?_some found
  exact ⟨List.mem_of_find?_eq_some found, of_decide_eq_true here⟩

theorem stroke_chars (c : Byte) (printable : kbdIsAsciiPrintable c = true) (off : Alike (modes false false) k) :
    charsOf behind k (stroke c) = [c] ∧ Alike (modes false false) ((stroke c).foldl (receive behind) k) := by
  have nonzero : c ≠ 0 := by
    rintro rfl
    exact absurd printable (by decide)
  unfold stroke
  cases plain : codeFor false c with
  | some code =>
      obtain ⟨member, char⟩ := code_for false c code plain
      obtain ⟨chars, same⟩ := key_chars behind k code member
      rw [key_to_ascii_alike _ _ _ off, char, some_nonzero c nonzero] at chars
      exact ⟨chars, same.1.trans off.1, same.2.trans off.2⟩
  | none =>
      cases shifted : codeFor true c with
      | none => exact absurd (code_exists c printable) (by simp [plain, shifted])
      | some code =>
          obtain ⟨member, char⟩ := code_for true c code shifted
          obtain ⟨down, caps, silent⟩ := shift_down behind k
          obtain ⟨chars, same⟩ := key_chars behind (receive behind k 0x2A) code member
          have held : Alike (modes true false) (receive behind k 0x2A) := ⟨down, caps.trans off.2⟩
          rw [key_to_ascii_alike _ _ _ held, char, some_nonzero c nonzero] at chars
          let k' := [code, code ||| 0x80].foldl (receive behind) (receive behind k 0x2A)
          obtain ⟨up, caps', silent'⟩ := shift_up behind k'
          refine ⟨?_, up, caps'.trans (same.2.trans held.2)⟩
          have split : charsOf behind k [0x2A, code, code ||| 0x80, 0xAA] =
              newChar behind PS2_STATUS_OUTBUFRDY 0x2A k ++ (charsOf behind (receive behind k 0x2A) [code, code ||| 0x80] ++ charsOf behind k' [0xAA]) :=
            congrArg (newChar behind PS2_STATUS_OUTBUFRDY 0x2A k ++ ·) (chars_append behind (receive behind k 0x2A) [code, code ||| 0x80] [0xAA])
          rw [split, silent, chars, charsOf, silent']
          rfl

theorem keystrokes_chars (text : List Byte) (printable : ∀ c ∈ text, kbdIsAsciiPrintable c = true) (off : Alike (modes false false) k) :
    charsOf behind k (keystrokes text) = text := by
  induction text generalizing k with
  | nil => rfl
  | cons c text ih =>
      obtain ⟨char, still⟩ := stroke_chars behind k c (printable c List.mem_cons_self) off
      rw [keystrokes, List.flatMap_cons, chars_append, char]
      exact congrArg (c :: ·) (ih _ (fun d member => printable d (List.mem_cons_of_mem c member)) still)

end Strokes

theorem keys_reach_reader (behind : Nat → KeyCode) (ops : List Move) (patient : Patiently behind session ops) :
    let s := ops.foldl (Session.after behind) session
    s.typed = pending behind s.toConsole ++ s.returned.map Prod.fst ∧
      (reading.foldl (move behind) s.toConsole).returned.map Prod.fst = s.typed ∧
      ((∀ status scanCode, Move.isr status scanCode ∈ ops → status &&& PS2_STATUS_OUTBUFRDY ≠ 0) →
        ∀ text, (∀ c ∈ text, kbdIsAsciiPrintable c = true) → isrBytes ops = keystrokes text → s.typed = text.reverse) := by
  intro s
  have kept : Kept behind s := kept_run behind session (kept_session behind) ops patient
  refine ⟨kept.chars, reading_returns behind s kept, fun ready text printable sent => ?_⟩
  have typed := typed_chars behind ops ready session
  rw [sent, keystrokes_chars behind session.kbd text printable ⟨rfl, rfl⟩] at typed
  exact typed.trans (List.append_nil _)

def capital : List Move :=
  [.call, .fetch, .isr 0x01 0x2A, .convert, .isr 0x01 0x1E, .fetch, .convert, .isr 0x01 0x9E, .leave, .isr 0x01 0xAA]

theorem keys_reach_reader_shifted : (capital.foldl (Session.after (fun _ => 0)) session).typed = [0x41] ∧
    (reading.foldl (move (fun _ => 0)) (capital.foldl (Session.after (fun _ => 0)) session).toConsole).returned.map Prod.fst = [0x41] := by
  have patient : Patiently (fun _ => 0) session capital := by
    refine ⟨trivial, trivial, .inr ⟨by decide, ?_⟩, trivial, .inr ⟨by decide, nofun⟩, trivial, trivial, .inl ⟨by decide, by decide⟩, trivial,
      .inr ⟨by decide, nofun⟩, trivial⟩
    intro key poll reader
    obtain ⟨rfl, -⟩ := Reader.fetched.inj reader
    decide
  obtain ⟨-, read, text⟩ := keys_reach_reader (fun _ => 0) capital patient
  have ready (status scanCode : Byte) (member : Move.isr status scanCode ∈ capital) : status &&& PS2_STATUS_OUTBUFRDY ≠ 0 := by
    have one : status = 0x01 := by
      simp only [capital, List.mem_cons, Move.isr.injEq, reduceCtorEq, false_or, List.not_mem_nil, or_false] at member
      rcases member with h | h | h | h <;> exact h.1
    rw [one]
    decide
  have typed := text ready [0x41] (by decide) (by decide)
  exact ⟨typed, read.trans typed⟩

end Deimos.Kbd
