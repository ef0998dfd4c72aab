import Mathlib.Data.List.GetD
import Deimos.Kbd.Table
import Deimos.Lib.Run

set_option autoImplicit false

namespace Deimos.Kbd

def KEY_EXCLAMATION : KeyCode := 0x21
def KEY_DOUBLEQUOTE : KeyCode := 0x22
def KEY_HASH : KeyCode := 0x23
def KEY_DOLLAR : KeyCode := 0x24
def KEY_PERCENT : KeyCode := 0x25
def KEY_AMPERSAND : KeyCode := 0x26
def KEY_LEFTPARENTHESIS : KeyCode := 0x28
def KEY_RIGHTPARENTHESIS : KeyCode := 0x29
def KEY_PLUS : KeyCode := 0x2B
def KEY_COLON : KeyCode := 0x3A
def KEY_LESS : KeyCode := 0x3C
def KEY_GREATER : KeyCode := 0x3E
def KEY_QUESTION : KeyCode := 0x3F
def KEY_AT : KeyCode := 0x40
def KEY_CARRET : KeyCode := 0x5E
def KEY_UNDERSCORE : KeyCode := 0x5F
def KEY_LEFTCURL : KeyCode := 0x7B
def KEY_BAR : KeyCode := 0x7C
def KEY_RIGHTCURL : KeyCode := 0x7D
def KEY_TILDE : KeyCode := 0x7E

def kbdIsAsciiPrintable (key : Byte) : Bool := (0x20 ≤ key ∧ key ≤ 0x7E) ∨ key = 0x0A ∨ key = 0x09 ∨ key = 0x08

-- The switch of kbd_key_to_ascii.
def shiftedKeys : List (Byte × KeyCode) := [
  (0x31, KEY_EXCLAMATION), (0x32, KEY_AT), (0x33, KEY_HASH), (0x34, KEY_DOLLAR), (0x35, KEY_PERCENT),
  (0x36, KEY_CARRET), (0x37, KEY_AMPERSAND), (0x38, KEY_ASTERISK), (0x39, KEY_LEFTPARENTHESIS), (0x30, KEY_RIGHTPARENTHESIS),
  (0x60, KEY_TILDE), (0x2D, KEY_UNDERSCORE), (0x3D, KEY_PLUS), (0x5B, KEY_LEFTCURL), (0x5D, KEY_RIGHTCURL),
  (0x5C, KEY_BAR), (0x3B, KEY_COLON), (0x27, KEY_DOUBLEQUOTE), (0x2C, KEY_LESS), (0x2E, KEY_GREATER), (0x2F, KEY_QUESTION)]

def kbdKeyToAscii (key : Byte) (k : Keyboard) : Byte :=
  if ¬ kbdIsAsciiPrintable key then 0
  else if (k.shift ≠ 0 ∨ k.capslock ≠ 0) ∧ key ≥ 0x61 ∧ key ≤ 0x7A then key - 32
  else if k.shift ≠ 0 ∧ k.capslock = 0 then ((shiftedKeys.lookup key).getD (key.setWidth 16)).setWidth 8
  else key

-- What a poll goes by: the last make code before it, and which one that was.
structure Poll where
  last : Option Byte
  number : Nat
deriving DecidableEq

-- Where the caller of tty_getchar is: between calls, before kbd_get_key, with
-- the key that it returned, and with the character that ends the loop.
inductive Reader where
  | outside
  | polling
  | fetched (key : Byte) (poll : Poll)
  | leaving (c : Byte) (poll : Poll)
deriving DecidableEq

-- The keyboard and its reader, with the make codes that have come and the
-- characters that tty_getchar has returned, the last one first.
structure Console where
  kbd : Keyboard
  reader : Reader
  makes : List Byte
  returned : List (Byte × Poll)

def console : Console := ⟨boot, .outside, [], []⟩

inductive Move where
  | isr (status scanCode : Byte)
  | call
  | fetch
  | convert
  | leave
deriving DecidableEq

-- The byte that an interrupt takes for a make code.
def makeCode (status scanCode : Byte) : Option Byte :=
  if status &&& PS2_STATUS_OUTBUFRDY = 0 ∨ scanCode = 0xE0 ∨ scanCode = 0xE1 ∨ scanCode &&& 0x80 ≠ 0 then none else some scanCode

-- kbd_isr may come between any two statements of tty_getchar. A move of the
-- reader that is not where it starts changes nothing.
def move (behind : Nat → KeyCode) (s : Console) : Move → Console
  | .isr status scanCode =>
      { s with kbd := kbdIsr behind status scanCode s.kbd, makes := (makeCode status scanCode).toList ++ s.makes }
  | .call => if s.reader = .outside then { s with reader := .polling } else s
  | .fetch =>
      if s.reader = .polling then
        let (key, kbd) := kbdGetKey behind s.kbd
        { s with kbd := kbd, reader := .fetched key ⟨s.makes.head?, s.makes.length⟩ }
      else s
  | .convert =>
      match s.reader with
      | .fetched key poll =>
          let c := kbdKeyToAscii key s.kbd
          { s with reader := if c = 0 then .polling else .leaving c poll }
      | _ => s
  | .leave =>
      match s.reader with
      | .leaving c poll => { s with kbd := kbdClrKey s.kbd, reader := .outside, returned := (c, poll) :: s.returned }
      | _ => s

def Poll.In (poll : Poll) (makes : List Byte) : Prop :=
  0 < poll.number ∧ poll.number ≤ makes.length ∧ makes.reverse[poll.number - 1]? = poll.last

-- F8, F9 and F10, whose entries 0x1008, 0x1009 and 0x100A end like \b, \t and \n.
def narrowed : List Byte := [0x42, 0x43, 0x44]

def Poll.Gives (behind : Nat → KeyCode) (poll : Poll) (key : Byte) : Prop :=
  ∃ code, poll.last = some code ∧ code.toNat < xtScan.length ∧ code ∉ narrowed ∧ key = (scanAt behind code.toNat).setWidth 8

def Pending (behind : Nat → KeyCode) (s : Console) (key : Byte) (poll : Poll) : Prop :=
  poll.Gives behind key ∧ poll.In s.makes ∧ ∀ e ∈ s.returned, e.2.number < poll.number

def Typed (behind : Nat → KeyCode) (makes : List Byte) (e : Byte × Poll) : Prop :=
  ∃ key k, e.2.Gives behind key ∧ e.2.In makes ∧ e.1 = kbdKeyToAscii key k ∧ e.1 ≠ 0

structure Sound (behind : Nat → KeyCode) (s : Console) : Prop where
  stored : s.kbd.buf.toNat < xtScan.length
  slot : s.kbd.buf = 0 ∨ s.makes.head? = some s.kbd.buf ∧ ∀ e ∈ s.returned, e.2.number < s.makes.length
  fetched : ∀ key poll, s.reader = .fetched key poll → key = 0 ∨ Pending behind s key poll
  leaving : ∀ c poll, s.reader = .leaving c poll → c ≠ 0 ∧ ∃ key k, Pending behind s key poll ∧ c = kbdKeyToAscii key k
  typed : ∀ e ∈ s.returned, Typed behind s.makes e
  once : s.returned.Pairwise (fun e f => f.2.number < e.2.number)

section Polls

variable (behind : Nat → KeyCode)

theorem Poll.In.more (poll : Poll) (makes new : List Byte) (within : poll.In makes) : poll.In (new ++ makes) := by
  obtain ⟨positive, le, here⟩ := within
  refine ⟨positive, ?_, ?_⟩
  · rw [List.length_append]
    omega
  · rw [List.reverse_append, List.getElem?_append_left, here]
    rw [List.length_reverse]
    omega

theorem Poll.in_of_head (makes : List Byte) (code : Byte) (last : makes.head? = some code) :
    (⟨makes.head?, makes.length⟩ : Poll).In makes := by
  cases makes with
  | nil => simp at last
  | cons x makes =>
      refine ⟨Nat.succ_pos _, Nat.le_refl _, ?_⟩
      simp

end Polls

section Steps

variable (behind : Nat → KeyCode) (s : Console)

theorem isr_buf (status scanCode : Byte) (k : Keyboard) :
    (kbdIsr behind status scanCode k).buf = (makeCode status scanCode).getD k.buf := by
  unfold kbdIsr makeCode
  by_cases quiet : status &&& PS2_STATUS_OUTBUFRDY = 0
  · rw [if_pos quiet, if_pos (.inl quiet)]
    rfl
  rw [if_neg quiet]
  by_cases first : scanCode = 0xE0 ∨ scanCode = 0xE1
  · rw [if_pos first, if_pos (.inr (or_assoc.mp (.inl first)))]
    rfl
  rw [if_neg first]
  by_cases broken : scanCode &&& 0x80 ≠ 0
  · rw [if_pos broken, if_pos (.inr (.inr (.inr broken)))]
    exact released_buf _ _
  · have make : ¬(status &&& PS2_STATUS_OUTBUFRDY = 0 ∨ scanCode = 0xE0 ∨ scanCode = 0xE1 ∨ scanCode &&& 0x80 ≠ 0) := by
      rintro (one | two | three | four)
      · exact quiet one
      · exact first (.inl two)
      · exact first (.inr three)
      · exact broken four
    rw [if_neg broken, if_neg make]
    exact pressed_buf _ _

theorem pending_isr (status scanCode key : Byte) (poll : Poll) (pending : Pending behind s key poll) :
    Pending behind (move behind s (.isr status scanCode)) key poll :=
  ⟨pending.1, Poll.In.more _ _ _ pending.2.1, pending.2.2⟩

theorem typed_isr (status scanCode : Byte) (e : Byte × Poll) (typed : Typed behind s.makes e) :
    Typed behind ((makeCode status scanCode).toList ++ s.makes) e := by
  obtain ⟨key, k, gives, within, rest⟩ := typed
  exact ⟨key, k, gives, Poll.In.more _ _ _ within, rest⟩

theorem sound_isr (status scanCode : Byte) (covered : Covered (.isr status scanCode)) (sound : Sound behind s) :
    Sound behind (move behind s (.isr status scanCode)) where
  stored := (isr_inside behind s.kbd status scanCode sound.stored).2 covered
  slot := by
    have buf : (move behind s (.isr status scanCode)).kbd.buf = (makeCode status scanCode).getD s.kbd.buf := isr_buf behind status scanCode s.kbd
    rw [buf]
    cases made : makeCode status scanCode with
    | none =>
        have makes : (move behind s (.isr status scanCode)).makes = s.makes := by simp [move, made]
        rw [makes]
        exact sound.slot
    | some code =>
        have makes : (move behind s (.isr status scanCode)).makes = code :: s.makes := by simp [move, made]
        rw [makes]
        refine .inr ⟨rfl, fun e member => ?_⟩
        obtain ⟨key, k, gives, ⟨positive, le, here⟩, rest⟩ := sound.typed e member
        exact Nat.lt_succ_of_le le
  fetched key poll reader := (sound.fetched key poll reader).imp_right (pending_isr behind s status scanCode key poll)
  leaving c poll reader := by
    obtain ⟨nonzero, key, k, pending, char⟩ := sound.leaving c poll reader
    exact ⟨nonzero, key, k, pending_isr behind s status scanCode key poll pending, char⟩
  typed e member := typed_isr behind s status scanCode e (sound.typed e member)
  once := sound.once

theorem sound_call (sound : Sound behind s) : Sound behind (move behind s .call) := by
  by_cases outside : s.reader = .outside
  · have moved : move behind s .call = { s with reader := .polling } := if_pos outside
    rw [moved]
    exact ⟨sound.stored, sound.slot, nofun, nofun, sound.typed, sound.once⟩
  · have stays : move behind s .call = s := if_neg outside
    rwa [stays]

theorem sound_fetch (sound : Sound behind s) (polling : s.reader = .polling) (plain : s.kbd.buf ∉ narrowed) :
    Sound behind (move behind s .fetch) := by
  have moved : move behind s .fetch = { s with
      kbd := (kbdGetKey behind s.kbd).2,
      reader := .fetched (kbdGetKey behind s.kbd).1 ⟨s.makes.head?, s.makes.length⟩ } := if_pos polling
  rw [moved]
  refine ⟨sound.stored, sound.slot, ?_, nofun, sound.typed, sound.once⟩
  intro key poll reader
  obtain ⟨rfl, rfl⟩ := Reader.fetched.inj reader
  rcases sound.slot with empty | ⟨last, fresh⟩
  · left
    rw [kbdGetKey, empty]
    rfl
  · exact .inr ⟨⟨s.kbd.buf, last, sound.stored, plain, rfl⟩, Poll.in_of_head s.makes s.kbd.buf last, fresh⟩

theorem sound_convert (sound : Sound behind s) : Sound behind (move behind s .convert) := by
  cases reader : s.reader with
  | fetched key poll =>
      have moved : move behind s .convert = { s with
          reader := if kbdKeyToAscii key s.kbd = 0 then .polling else .leaving (kbdKeyToAscii key s.kbd) poll } := by
        simp only [move, reader]
      rw [moved]
      by_cases empty : kbdKeyToAscii key s.kbd = 0
      · rw [if_pos empty]
        exact ⟨sound.stored, sound.slot, nofun, nofun, sound.typed, sound.once⟩
      · rw [if_neg empty]
        refine ⟨sound.stored, sound.slot, nofun, ?_, sound.typed, sound.once⟩
        intro c poll' leaving
        obtain ⟨rfl, rfl⟩ := Reader.leaving.inj leaving
        rcases sound.fetched key poll reader with rfl | pending
        · exact absurd rfl empty
        · exact ⟨empty, key, s.kbd, pending, rfl⟩
  | outside | polling | leaving =>
      have stays : move behind s .convert = s := by simp only [move, reader]
      rwa [stays]

theorem sound_leave (sound : Sound behind s) : Sound behind (move behind s .leave) := by
  cases reader : s.reader with
  | leaving c poll =>
      have moved : move behind s .leave =
          { s with kbd := kbdClrKey s.kbd, reader := .outside, returned := (c, poll) :: s.returned } := by
        simp only [move, reader]
      obtain ⟨nonzero, key, k, ⟨gives, within, fresh⟩, char⟩ := sound.leaving c poll reader
      rw [moved]
      refine ⟨table_nonempty, .inl rfl, nofun, nofun, ?_, List.pairwise_cons.mpr ⟨fresh, sound.once⟩⟩
      rintro e member
      rcases List.mem_cons.mp member with rfl | before
      · exact ⟨key, k, gives, within, char, nonzero⟩
      · exact sound.typed e before
  | outside | polling | fetched =>
      have stays : move behind s .leave = s := by simp only [move, reader]
      rwa [stays]

end Steps

def Fits (s : Console) : Move → Prop
  | .isr status scanCode => Covered (.isr status scanCode)
  | .fetch => s.reader = .polling → s.kbd.buf ∉ narrowed
  | _ => True

def Moves (behind : Nat → KeyCode) (s s' : Console) : Prop := ∃ op, Fits s op ∧ s' = move behind s op

theorem sound_kept (behind : Nat → KeyCode) (s s' : Console) (sound : Sound behind s) (moves : Moves behind s s') : Sound behind s' := by
  obtain ⟨op, fits, rfl⟩ := moves
  cases op with
  | isr status scanCode => exact sound_isr behind s status scanCode fits sound
  | call => exact sound_call behind s sound
  | fetch =>
      by_cases polling : s.reader = .polling
      · exact sound_fetch behind s sound polling (fits polling)
      · have stays : move behind s .fetch = s := if_neg polling
        rwa [stays]
  | convert => exact sound_convert behind s sound
  | leave => exact sound_leave behind s sound

theorem sound_console (behind : Nat → KeyCode) : Sound behind console :=
  ⟨table_nonempty, .inl rfl, nofun, nofun, nofun, .nil⟩

-- Of the entries whose low byte is printable, only those of F8, F9 and F10 are no ASCII keys.
theorem printable_entry (i : Nat) (inside : i < xtScan.length) (printable : kbdIsAsciiPrintable ((xtScan.getD i 0).setWidth 8) = true)
    (plain : BitVec.ofNat 8 i ∉ narrowed) : xtScan.getD i 0 < 0x100 := by
  have all : ∀ i : Fin 83, kbdIsAsciiPrintable ((xtScan.getD i 0).setWidth 8) = true → BitVec.ofNat 8 i ∉ narrowed →
    xtScan.getD i 0 < 0x100 := by decide
  exact all ⟨i, inside⟩ printable plain

theorem printable_of_typed (key : Byte) (k : Keyboard) (typed : kbdKeyToAscii key k ≠ 0) : kbdIsAsciiPrintable key = true := by
  by_contra silent
  exact typed (if_pos silent)

theorem characters_from_keys (behind : Nat → KeyCode) (s : Console) (run : Run.Reaches (Moves behind) console s) :
    (∀ e ∈ s.returned, ∃ code key k, e.2.last = some code ∧ s.makes.reverse[e.2.number - 1]? = some code ∧
      xtScan[code.toNat]? = some key ∧ key < 0x100 ∧ e.1 = kbdKeyToAscii (key.setWidth 8) k) ∧
    s.returned.Pairwise (fun e f => f.2.number < e.2.number) := by
  have sound := Run.invariant (Sound behind) (sound_kept behind) console s (sound_console behind) run
  refine ⟨fun e member => ?_, sound.once⟩
  obtain ⟨key, k, ⟨code, last, inside, plain, rfl⟩, ⟨-, -, here⟩, char, nonzero⟩ := sound.typed e member
  have entry : scanAt behind code.toNat = xtScan.getD code.toNat 0 := by
    rw [scanAt, List.getD_eq_getElem _ _ inside, List.getD_eq_getElem _ _ inside]
  rw [entry] at char
  have printable := printable_of_typed _ k (char ▸ nonzero)
  have small := printable_entry code.toNat inside printable (by rwa [BitVec.ofNat_toNat, BitVec.setWidth_eq])
  exact ⟨code, xtScan.getD code.toNat 0, k, last, here.trans last, by simp [inside], small, char⟩

def AllFit (behind : Nat → KeyCode) : Console → List Move → Prop
  | _, [] => True
  | s, op :: ops => Fits s op ∧ AllFit behind (move behind s op) ops

theorem moves_of_fit (behind : Nat → KeyCode) (ops : List Move) (s : Console) (fits : AllFit behind s ops) :
    Run.Reaches (Moves behind) s (ops.foldl (move behind) s) := by
  induction ops generalizing s with
  | nil => exact .refl
  | cons op ops ih => exact .head ⟨op, fits.1, rfl⟩ (ih (move behind s op) fits.2)

theorem characters_from_two_keys : ∃ s, Run.Reaches (Moves (fun _ => 0)) console s ∧
    s.returned = [(0x62, ⟨some 0x30, 3⟩), (0x41, ⟨some 0x1E, 2⟩)] ∧ s.returned.Pairwise (fun e f => f.2.number < e.2.number) := by
  have run := moves_of_fit (fun _ => 0) [.isr 0x01 0x2A, .isr 0x01 0x1E, .call, .fetch, .convert, .leave, .isr 0x01 0xAA, .isr 0x01 0x30,
    .call, .fetch, .convert, .leave] console
    ⟨fun _ => .inr (.inr (by decide)), fun _ => .inr (.inr (by decide)), trivial, fun _ => by decide, trivial, trivial,
      fun _ => .inr (.inr (by decide)), fun _ => .inr (.inr (by decide)), trivial, fun _ => by decide, trivial, trivial, trivial⟩
  exact ⟨_, run, by decide, (characters_from_keys (fun _ => 0) _ run).2⟩

theorem character_from_f9 : ¬ ∀ (behind : Nat → KeyCode) (ops : List Move),
    (∀ status scanCode, .isr status scanCode ∈ ops → Covered (.isr status scanCode)) →
    ∀ e ∈ (ops.foldl (move behind) console).returned, ∃ code key, e.2.last = some code ∧ xtScan[code.toNat]? = some key ∧ key < 0x100 := by
  intro all
  have covered : ∀ status scanCode, Move.isr status scanCode ∈ [Move.isr 0x01 0x43, .call, .fetch, .convert, .leave] →
      Covered (.isr status scanCode) := by
    intro status scanCode member
    obtain ⟨rfl, rfl⟩ : status = 0x01 ∧ scanCode = 0x43 := by simpa using member
    exact fun _ => .inr (.inr (by decide))
  obtain ⟨code, key, last, entry, small⟩ := all (fun _ => 0) _ covered (0x09, ⟨some 0x43, 1⟩) (by decide)
  obtain rfl : 0x43 = code := Option.some.inj last
  obtain rfl : KEY_F9 = key := Option.some.inj entry
  exact absurd small (by decide)

end Deimos.Kbd
