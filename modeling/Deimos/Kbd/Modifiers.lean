import Mathlib.Data.List.Induction
import Mathlib.Tactic.Common
import Deimos.Kbd.Model

set_option autoImplicit false

namespace Deimos.Kbd

inductive Modifier where
  | shift | ctrl | alt
deriving DecidableEq, Repr

inductive Side where
  | left | right
deriving DecidableEq, Repr

def Side.other : Side → Side
  | .left => .right
  | .right => .left

def Keyboard.flag (k : Keyboard) : Modifier → Byte
  | .shift => k.shift
  | .ctrl => k.ctrl
  | .alt => k.alt

def Modifier.keys : Modifier → List KeyCode
  | .shift => [KEY_LSHIFT, KEY_RSHIFT]
  | .ctrl => [KEY_LCTRL, KEY_RCTRL]
  | .alt => [KEY_LALT, KEY_RALT]

structure PlainCode where
  code : Byte
  covered : code.toNat < xtScan.length
  plain : ∀ m : Modifier, xtScan[code.toNat] ∉ m.keys
deriving DecidableEq

-- The keys of an XT keyboard that xt_scan covers. Keys with the same code
-- differ in the byte 0xE0 in front of it.
inductive Key where
  | modifier (m : Modifier) (side : Side)
  | plain (extended : Bool) (code : PlainCode)
deriving DecidableEq

def Key.code : Key → Byte
  | .modifier .shift .left => 0x2A
  | .modifier .shift .right => 0x36
  | .modifier .ctrl _ => 0x1D
  | .modifier .alt _ => 0x38
  | .plain _ c => c.code

def Key.extended : Key → Bool
  | .modifier .shift _ => false
  | .modifier _ side => side = .right
  | .plain extended _ => extended

inductive Event where
  | press (key : Key)
  | release (key : Key)
deriving DecidableEq

def Event.key : Event → Key
  | .press key => key
  | .release key => key

def Event.code : Event → Byte
  | .press key => key.code
  | .release key => key.code + 0x80

def Event.bytes (e : Event) : List Byte := if e.key.extended then [0xE0, e.code] else [e.code]

def receive (behind : Nat → KeyCode) (k : Keyboard) (scanCode : Byte) : Keyboard := kbdIsr behind PS2_STATUS_OUTBUFRDY scanCode k

def feed (behind : Nat → KeyCode) (k : Keyboard) (e : Event) : Keyboard := e.bytes.foldl (receive behind) k

def typed (behind : Nat → KeyCode) (events : List Event) : Keyboard := events.foldl (feed behind) boot

def Event.after (held : Key → Bool) : Event → Key → Bool
  | .press key => Function.update held key true
  | .release key => Function.update held key false

def heldAfter (events : List Event) : Key → Bool := events.foldl Event.after (fun _ => false)

def Typeable (held : Key → Bool) : List Event → Prop
  | [] => True
  | .press key :: events => Typeable (Event.after held (.press key)) events
  | .release key :: events => held key = true ∧ Typeable (Event.after held (.release key)) events

def Event.concerns (m : Modifier) (e : Event) : Bool := e.key = .modifier m .left || e.key = .modifier m .right

def lastOf (m : Modifier) (events : List Event) : Option Event := (events.filter (Event.concerns m)).getLast?

def Mirrors (behind : Nat → KeyCode) (events : List Event) (m : Modifier) : Prop :=
  (typed behind events).flag m ≠ 0 ↔ ∃ side, heldAfter events (.modifier m side) = true

section Codes

variable (behind : Nat → KeyCode) (key : Key) (m : Modifier) (k : Keyboard)

theorem mem_keys (code : KeyCode) : code ∈ m.keys ↔
    match m with
    | .shift => code = KEY_LSHIFT ∨ code = KEY_RSHIFT
    | .ctrl => code = KEY_LCTRL ∨ code = KEY_RCTRL
    | .alt => code = KEY_LALT ∨ code = KEY_RALT := by
  cases m <;> simp [Modifier.keys]

theorem keys_apart (m' : Modifier) (code : KeyCode) (left : code ∈ m.keys) (right : code ∈ m'.keys) : m = m' := by
  rw [mem_keys] at left
  cases m <;> cases m' <;> first
    | rfl
    | rcases left with rfl | rfl <;> exact absurd right (by decide)

theorem code_covered : key.code.toNat < xtScan.length := by
  match key with
  | .modifier .shift .left => decide
  | .modifier .shift .right => decide
  | .modifier .ctrl _ => exact (by decide : 0x1D < xtScan.length)
  | .modifier .alt _ => exact (by decide : 0x38 < xtScan.length)
  | .plain _ c => exact c.covered

theorem code_keys : scanAt behind key.code.toNat ∈ m.keys ↔ key = .modifier m .left ∨ key = .modifier m .right := by
  have scanned : scanAt behind key.code.toNat = xtScan.get ⟨key.code.toNat, code_covered key⟩ := by
    simp [scanAt, List.getD, code_covered key]
  rw [scanned]
  cases key with
  | modifier m' side => cases m' <;> cases side <;> cases m <;> decide
  | plain extended c => exact iff_of_false (c.plain m) (by simp)

theorem update_leds_flag : (updateLeds k).flag m = k.flag m := by cases m <;> rfl

theorem pressed_other (code : KeyCode) (none : ∀ m : Modifier, code ∉ m.keys) : (pressed code k).flag m = k.flag m := by
  simp only [mem_keys] at none
  rw [pressed, if_neg (none .ctrl), if_neg (none .shift), if_neg (none .alt)]
  by_cases caps : code = KEY_CAPSLOCK
  · rw [if_pos caps, update_leds_flag]
    cases m <;> rfl
  by_cases num : code = KEY_NUMLOCK
  · rw [if_neg caps, if_pos num, update_leds_flag]
    cases m <;> rfl
  by_cases scroll : code = KEY_SCROLLLOCK
  · rw [if_neg caps, if_neg num, if_pos scroll, update_leds_flag]
    cases m <;> rfl
  · rw [if_neg caps, if_neg num, if_neg scroll]

theorem released_other (code : KeyCode) (none : ∀ m : Modifier, code ∉ m.keys) : released code k = k := by
  simp only [mem_keys] at none
  rw [released, if_neg (none .ctrl), if_neg (none .shift), if_neg (none .alt)]

theorem pressed_own (m' : Modifier) (code : KeyCode) (own : code ∈ m'.keys) :
    (pressed code k).flag m = if m' = m then 1 else k.flag m := by
  rw [mem_keys] at own
  cases m' <;> rcases own with rfl | rfl <;> cases m <;> rfl

theorem released_own (m' : Modifier) (code : KeyCode) (own : code ∈ m'.keys) :
    (released code k).flag m = if m' = m then 0 else k.flag m := by
  rw [mem_keys] at own
  cases m' <;> rcases own with rfl | rfl <;> cases m <;> rfl

theorem owner_iff (m' : Modifier) (code : KeyCode) (own : code ∈ m'.keys) : code ∈ m.keys ↔ m' = m :=
  ⟨keys_apart m' m code own, fun same => same ▸ own⟩

theorem pressed_flag (code : KeyCode) : (pressed code k).flag m = if code ∈ m.keys then 1 else k.flag m := by
  by_cases none : ∀ m : Modifier, code ∉ m.keys
  · rw [pressed_other m k code none, if_neg (none m)]
  · obtain ⟨m', own⟩ := not_forall_not.mp none
    simp only [pressed_own m k m' code own, owner_iff m m' code own]

theorem released_flag (code : KeyCode) : (released code k).flag m = if code ∈ m.keys then 0 else k.flag m := by
  by_cases none : ∀ m : Modifier, code ∉ m.keys
  · rw [released_other k code none, if_neg (none m)]
  · obtain ⟨m', own⟩ := not_forall_not.mp none
    simp only [released_own m k m' code own, owner_iff m m' code own]

theorem receive_lead : receive behind k 0xE0 = k := by
  rw [receive, kbdIsr, if_neg (by decide), if_pos (.inl rfl)]

theorem receive_make (code : Byte) (low : code.toNat < xtScan.length) :
    receive behind k code = pressed (scanAt behind code.toNat) (Keyboard.read code.toNat { k with buf := code }) := by
  have short : code.toNat < 83 := low
  have whole : ¬ (code = 0xE0 ∨ code = 0xE1) := by
    rintro (rfl | rfl) <;> exact absurd short (by decide)
  have make : ¬ code &&& 0x80 ≠ 0 := fun broken => by
    have high := (break_bit code).mp broken
    omega
  rw [receive, kbdIsr, if_neg (by decide), if_neg whole, if_neg make]

theorem receive_break (code : Byte) (low : code.toNat < xtScan.length) :
    receive behind k (code + 0x80) = released (scanAt behind code.toNat) (k.read code.toNat) := by
  have short : code.toNat < 83 := low
  have value : (code + 0x80).toNat = code.toNat + 128 := by bv_omega
  have whole : ¬ (code + 0x80 = 0xE0 ∨ code + 0x80 = 0xE1) := by bv_omega
  have broken : (code + 0x80) &&& 0x80 ≠ 0 := (break_bit _).mpr (by omega)
  rw [receive, kbdIsr, if_neg (by decide), if_neg whole, if_pos broken]
  dsimp only
  rw [value, Nat.add_sub_cancel]

theorem feed_code (e : Event) : feed behind k e = receive behind k e.code := by
  rw [feed, Event.bytes]
  cases e.key.extended with
  | false => rfl
  | true => exact congrArg (receive behind · e.code) (receive_lead behind k)

theorem concerns_iff (e : Event) : e.concerns m = true ↔ e.key = .modifier m .left ∨ e.key = .modifier m .right := by
  simp [Event.concerns]

theorem feed_flag (e : Event) : (feed behind k e).flag m =
    if e.concerns m then (match e with | .press _ => 1 | .release _ => 0) else k.flag m := by
  have keys := code_keys behind e.key m
  rw [← concerns_iff] at keys
  rw [feed_code]
  cases e with
  | press key =>
      rw [Event.code, receive_make behind k key.code (code_covered key), pressed_flag]
      simp only [show scanAt behind key.code.toNat ∈ m.keys ↔ _ from keys]
      cases m <;> rfl
  | release key =>
      rw [Event.code, receive_break behind k key.code (code_covered key), released_flag]
      simp only [show scanAt behind key.code.toNat ∈ m.keys ↔ _ from keys]
      cases m <;> rfl

end Codes

section Runs

variable (behind : Nat → KeyCode) (events : List Event) (e : Event) (m : Modifier)

theorem last_of_next : lastOf m (events ++ [e]) = if e.concerns m then some e else lastOf m events := by
  rw [lastOf, List.filter_append]
  by_cases concerned : e.concerns m = true
  · rw [List.filter_cons_of_pos concerned, if_pos concerned]
    exact List.getLast?_concat
  · rw [List.filter_cons_of_neg concerned, if_neg concerned, List.filter_nil, List.append_nil]
    rfl

theorem typed_next : typed behind (events ++ [e]) = feed behind (typed behind events) e := List.foldl_append

theorem held_next : heldAfter (events ++ [e]) = e.after (heldAfter events) := List.foldl_append

theorem last_of_key (last : lastOf m events = some e) : ∃ side, e.key = .modifier m side := by
  have member := List.mem_of_getLast? last
  rcases (concerns_iff m e).mp (List.mem_filter.mp member).2 with left | right
  · exact ⟨.left, left⟩
  · exact ⟨.right, right⟩

theorem flag_last : (typed behind events).flag m ≠ 0 ↔ ∃ side, lastOf m events = some (.press (.modifier m side)) := by
  induction events using List.reverseRecOn with
  | nil => cases m <;> simp [typed, boot, Keyboard.flag, lastOf]
  | append_singleton events e ih =>
      rw [typed_next, feed_flag, last_of_next]
      by_cases concerned : e.concerns m = true
      · rw [if_pos concerned, if_pos concerned]
        cases e with
        | press key =>
            rcases (concerns_iff m _).mp concerned with left | right
            · exact iff_of_true (by decide : (1 : Byte) ≠ 0) ⟨.left, congrArg (fun key => some (Event.press key)) left⟩
            · exact iff_of_true (by decide : (1 : Byte) ≠ 0) ⟨.right, congrArg (fun key => some (Event.press key)) right⟩
        | release key => simp
      · rw [if_neg concerned, if_neg concerned]
        exact ih

theorem held_last (side : Side) :
    (lastOf m events = none → heldAfter events (.modifier m side) = false) ∧
      (lastOf m events = some (.press (.modifier m side)) → heldAfter events (.modifier m side) = true) ∧
      (lastOf m events = some (.release (.modifier m side)) → heldAfter events (.modifier m side) = false) := by
  induction events using List.reverseRecOn with
  | nil => simp [lastOf, heldAfter]
  | append_singleton events e ih =>
      rw [last_of_next, held_next]
      by_cases concerned : e.concerns m = true
      · rw [if_pos concerned]
        refine ⟨nofun, fun last => ?_, fun last => ?_⟩
        · obtain rfl := Option.some.inj last
          exact Function.update_self _ _ _
        · obtain rfl := Option.some.inj last
          exact Function.update_self _ _ _
      · have apart : Key.modifier m side ≠ e.key := by
          intro same
          apply concerned
          rw [concerns_iff, ← same]
          cases side
          · exact .inl rfl
          · exact .inr rfl
        have kept : e.after (heldAfter events) (.modifier m side) = heldAfter events (.modifier m side) := by
          cases e with
          | press key => exact Function.update_of_ne apart _ _
          | release key => exact Function.update_of_ne apart _ _
        rw [if_neg concerned, kept]
        exact ih

theorem mirrors_iff : Mirrors behind events m ↔
    ∀ side, lastOf m events = some (.release (.modifier m side)) → heldAfter events (.modifier m side.other) = false := by
  rw [Mirrors, flag_last]
  cases last : lastOf m events with
  | none =>
      have free (side : Side) := (held_last events m side).1 last
      simp [free]
  | some e =>
      obtain ⟨side, own⟩ := last_of_key events e m last
      cases e with
      | press key =>
          obtain rfl : key = _ := own
          have held := (held_last events m side).2.1 last
          exact iff_of_true (iff_of_true ⟨side, rfl⟩ ⟨side, held⟩) (by simp)
      | release key =>
          obtain rfl : key = _ := own
          have free := (held_last events m side).2.2 last
          have nobody : ¬ ∃ s, some (Event.release (.modifier m side)) = some (.press (.modifier m s)) := by simp
          have others : (∃ s, heldAfter events (.modifier m s) = true) ↔ heldAfter events (.modifier m side.other) = true := by
            refine ⟨fun ⟨s, held⟩ => ?_, fun held => ⟨side.other, held⟩⟩
            cases side <;> cases s <;> first
              | exact held
              | exact absurd (free.symm.trans held) (by decide)
          rw [iff_false_left nobody, others, Bool.not_eq_true]
          refine ⟨fun free' s same => ?_, fun all => all side rfl⟩
          obtain rfl : side = s := by simpa using same
          exact free'

end Runs

-- A flag is wrong exactly when the last thing that happened to the modifier's
-- keys is that one was released with the other held.
theorem flags_mirror_iff (behind : Nat → KeyCode) (events : List Event) : (∀ m, Mirrors behind events m) ↔
    ∀ m side, lastOf m events = some (.release (.modifier m side)) → heldAfter events (.modifier m side.other) = false :=
  forall_congr' (fun m => mirrors_iff behind events m)

theorem shift_lost_under_held_key : ¬ ∀ (behind : Nat → KeyCode) (events : List Event) (m : Modifier),
    Typeable (fun _ => false) events → Mirrors behind events m := by
  intro claim
  let left : Key := .modifier .shift .left
  let right : Key := .modifier .shift .right
  have mirrors := claim (fun _ => 0) [.press left, .press right, .release left] .shift ⟨by decide, trivial⟩
  have free := (mirrors_iff _ _ _).mp mirrors .left (by decide)
  exact absurd free (by decide)

end Deimos.Kbd
