import Deimos.Rtl.Bounds

set_option autoImplicit false

namespace Deimos.Rtl

open Run

-- The card's register beside the driver, and its count of the ring bytes it
-- has stored between CAPR + 16 and its write offset.
structure Card extends Receiver where
  capr : BitVec 16
  stored : Nat

-- outb(iobase + CAPR, value) leaves the register's high byte.
def outbCapr (value : Byte) (s : Card) : Card := { s with capr := (s.capr >>> 8).setWidth 8 ++ value }

def between (s : Card) : Nat := (s.writeOffset + RING - (s.capr.toNat + 16) % RING) % RING

-- An iteration of the handler's loop. The card counts anew when it is told the pointer.
def receiveTell (served : Bool) (s : Card) : Card :=
  let s : Card := { s with toReceiver := rtlReceive served s.toReceiver }
  let s := outbCapr ((s.rxPtr.setWidth 32 - 16 : Word).setWidth 8) s
  { s with stored := between s }

-- The next pointer, less 16, is to have the high byte that the register has.
def SamePage (s : Card) : Prop :=
  ((readOffset s.toReceiver + (rxSize s.toReceiver).toNat + 7) / 4 * 4 + 65536 - 16) / 256 % 256 = s.capr.toNat / 256

instance (s : Card) : Decidable (SamePage s) := inferInstanceAs (Decidable (_ = _))

-- The card stores no frame into the ring bytes between CAPR + 16 and its write
-- offset. The rest is as before; may says which iterations are made.
inductive CardStep (may : Card → Prop) (s : Card) : Card → Prop
  | deliver (f : Frame) (room : s.stored + f.room ≤ RING) :
      CardStep may s { s with toReceiver := deliver f s.toReceiver, stored := s.stored + f.room }
  | interrupt (idle : s.handling = false) : CardStep may s { s with handling := true }
  | receive (served : Bool) (handling : s.handling = true) (some : ¬BufferEmpty s.toReceiver) (allowed : may s) :
      CardStep may s (receiveTell served s)
  | leave (handling : s.handling = true) (none : BufferEmpty s.toReceiver) : CardStep may s { s with handling := false }

def Intact (s : Receiver) : Prop :=
  ∀ (k : Nat) p, s.reads.length ≤ k → s.placed[k]? = some p → Ring.Holds s.rxBuf p.offset p.frame.wire

section Told

variable (served : Bool) (s : Card)

theorem told_capr : (receiveTell served s).capr.toNat =
    s.capr.toNat / 256 * 256 + ((receiveTell served s).rxPtr.toNat + 65536 - 16) % 256 := by
  have high : ((s.capr >>> 8).setWidth 8 : Byte).toNat = s.capr.toNat / 256 := by
    have bound := s.capr.isLt
    rw [BitVec.toNat_setWidth, BitVec.toNat_ushiftRight, Nat.shiftRight_eq_div_pow]
    omega
  have low (ptr : BitVec 16) : ((ptr.setWidth 32 - 16 : Word).setWidth 8 : Byte).toNat = (ptr.toNat + 65536 - 16) % 256 := by
    have bound := ptr.isLt
    rw [BitVec.toNat_setWidth, BitVec.toNat_sub, BitVec.toNat_setWidth]
    change (2 ^ 32 - 16 + ptr.toNat % 2 ^ 32) % 2 ^ 32 % 2 ^ 8 = _
    omega
  change ((s.capr >>> 8).setWidth 8 ++ ((receiveTell served s).rxPtr.setWidth 32 - 16 : Word).setWidth 8 : BitVec 16).toNat = _
  rw [BitVec.toNat_append, ← Nat.shiftLeft_add_eq_or_of_lt (BitVec.isLt _), high, low, Nat.shiftLeft_eq]

theorem told_ptr : (receiveTell served s).rxPtr.toNat =
    (readOffset s.toReceiver + (rxSize s.toReceiver).toNat + 7) / 4 * 4 % 65536 :=
  next_value (wrapPtr s.rxPtr) (rxSize s.toReceiver)

theorem told_agrees_iff : (receiveTell served s).capr = (receiveTell served s).rxPtr - 16 ↔ SamePage s := by
  have capr := told_capr served s
  have ptr := told_ptr served s
  have less : ((receiveTell served s).rxPtr - 16).toNat = ((receiveTell served s).rxPtr.toNat + 65536 - 16) % 65536 := by
    rw [BitVec.toNat_sub]
    change (2 ^ 16 - 16 + _) % 2 ^ 16 = _
    omega
  have bound := s.capr.isLt
  rw [BitVec.toNat_eq, capr, less, ptr, SamePage]
  omega

end Told

structure CaprInv (s : Card) : Prop where
  inv : ReceiveInv s.toReceiver
  before : BeforeWrap s.toReceiver
  near : s.rxPtr.toNat ≤ 1551
  page : s.reads ≠ [] → s.capr.toNat / 256 ≤ 5
  agrees : s.reads ≠ [] → s.capr = s.rxPtr - 16
  stored : total (s.placed.drop s.reads.length) ≤ s.stored

theorem capr_deliver (s : Card) (inv : CaprInv s) (f : Frame) (room : s.stored + f.room ≤ RING) :
    CaprInv { s with toReceiver := deliver f s.toReceiver, stored := s.stored + f.room } := by
  have behind := inv.inv.behind
  have stored := inv.stored
  refine ⟨deliver_inv s.toReceiver inv.inv f (by omega), (before_wrap_deliver s.toReceiver behind f).mpr inv.before, inv.near,
    inv.page, inv.agrees, ?_⟩
  change total ((s.placed ++ [(⟨s.writeOffset, f⟩ : Put)]).drop s.reads.length) ≤ s.stored + f.room
  rw [List.drop_append_of_le_length behind, total_concat]
  exact Nat.add_le_add_right stored f.room

theorem capr_receive (s : Card) (inv : CaprInv s) (served : Bool) (some : ¬BufferEmpty s.toReceiver) (same : SamePage s) :
    CaprInv (receiveTell served s) := by
  have unread : s.reads.length < s.placed.length := Nat.lt_of_not_le some
  have found : s.placed[s.reads.length]? = .some s.placed[s.reads.length] := List.getElem?_eq_getElem unread
  have size : (receiveTell served s).reads.length = s.reads.length + 1 := List.length_append
  obtain ⟨pointer, -⟩ := inv.inv.synced inv.before
  have here : start s.toReceiver s.reads.length < RING := by
    have near := inv.near
    unfold RING
    omega
  have kept : ReceiveInv (receiveTell served s).toReceiver := receive_inv s.toReceiver inv.inv served some
  have before : BeforeWrap (receiveTell served s).toReceiver := (before_wrap_receive s.toReceiver served).mpr ⟨inv.before, here⟩
  have agrees : (receiveTell served s).capr = (receiveTell served s).rxPtr - 16 := (told_agrees_iff served s).mpr same
  have next : (receiveTell served s).rxPtr.toNat = start s.toReceiver (s.reads.length + 1) := by
    have value := (kept.synced before).1
    rwa [size] at value
  have step := start_next s.toReceiver _ _ found
  have room := room_bounds (s.placed[s.reads.length]).frame
  have long := (s.placed[s.reads.length]).frame.long
  have capr := told_capr served s
  have ptr := told_ptr served s
  unfold SamePage at same
  have page : s.capr.toNat / 256 ≤ 5 := by
    by_cases first : s.reads = []
    · have origin : start s.toReceiver s.reads.length = 0 := by rw [first]; rfl
      omega
    · exact inv.page first
  refine ⟨kept, before, ?_, fun _ => ?_, fun _ => agrees, ?_⟩
  · omega
  · omega
  · -- What is stored is what is unread, less than a whole ring since a frame has just been read.
    have split : start s.toReceiver s.placed.length =
        start s.toReceiver (s.reads.length + 1) + total ((receiveTell served s).placed.drop (receiveTell served s).reads.length) := by
      have split := start_unread (receiveTell served s).toReceiver
      rw [size] at split ⊢
      exact split
    have write : (receiveTell served s).writeOffset = start s.toReceiver s.placed.length % RING := inv.inv.write
    have count : (receiveTell served s).stored =
        ((receiveTell served s).writeOffset + RING - ((receiveTell served s).capr.toNat + 16) % RING) % RING := rfl
    have told : (receiveTell served s).capr.toNat + 16 = start s.toReceiver (s.reads.length + 1) := by omega
    have inside := inv.inv.room
    have after := start_mono s.toReceiver (s.reads.length + 1) s.placed.length unread
    rw [count, write, told]
    unfold RING at inside here ⊢
    omega

theorem capr_step_inv (s s' : Card) (inv : CaprInv s) (step : CardStep SamePage s s') : CaprInv s' := by
  cases step with
  | deliver f room => exact capr_deliver s inv f room
  | interrupt _ => exact ⟨receive_step_inv s.toReceiver _ inv.inv (.interrupt ‹_›), inv.before, inv.near, inv.page, inv.agrees, inv.stored⟩
  | receive served _ some same => exact capr_receive s inv served some same
  | leave handling none =>
      exact ⟨receive_step_inv s.toReceiver _ inv.inv (.leave handling none), inv.before, inv.near, inv.page, inv.agrees, inv.stored⟩

-- In a run whose iterations all stay on the register's page, CAPR is the
-- driver's pointer less 16 and no unread frame is overwritten, whatever the
-- card took for stored at first. The next iteration keeps CAPR right exactly
-- when it stays there too.
theorem capr_agrees (s₀ s : Card) (fresh : Fresh s₀.toReceiver) (run : Reaches (CardStep SamePage) s₀ s) :
    (s.reads ≠ [] → s.capr = s.rxPtr - 16) ∧ Intact s.toReceiver ∧
      ∀ served, (receiveTell served s).capr = (receiveTell served s).rxPtr - 16 ↔ SamePage s := by
  have initial : CaprInv s₀ := by
    refine ⟨fresh_inv s₀.toReceiver fresh, fun k read => ?_, ?_, fun read => absurd fresh.reads read, fun read => absurd fresh.reads read, ?_⟩
    · rw [fresh.reads] at read
      exact absurd read (Nat.not_lt_zero k)
    · rw [fresh.rxPtr]
      exact Nat.zero_le _
    · rw [fresh.placed, List.drop_nil]
      exact Nat.zero_le _
  have inv := invariant CaprInv capr_step_inv s₀ s initial run
  exact ⟨inv.agrees, inv.inv.holds, fun served => told_agrees_iff served s⟩

def quietCard (capr : BitVec 16) : Card := ⟨quiet, capr, 0⟩

def oneStored (capr : BitVec 16) : Card := ⟨{ deliver shortest quiet with handling := true }, capr, 0 + shortest.room⟩

theorem one_told (may : Card → Prop) (capr : BitVec 16) (allowed : may (oneStored capr)) :
    Reaches (CardStep may) (quietCard capr) (receiveTell true (oneStored capr)) := by
  have room : (quietCard capr).stored + shortest.room ≤ RING := show 0 + shortest.room ≤ RING by decide
  have delivered : CardStep may (quietCard capr) ⟨deliver shortest quiet, capr, 0 + shortest.room⟩ := .deliver shortest room
  have entered : CardStep may ⟨deliver shortest quiet, capr, 0 + shortest.room⟩ (oneStored capr) := .interrupt rfl
  have read : CardStep may (oneStored capr) (receiveTell true (oneStored capr)) := .receive true rfl (Nat.not_le_of_lt Nat.one_pos) allowed
  exact ((Relation.ReflTransGen.single delivered).tail entered).tail read

theorem capr_agrees_at_first : (receiveTell true (oneStored 0)).capr = (receiveTell true (oneStored 0)).rxPtr - 16 ∧
    Intact (receiveTell true (oneStored 0)).toReceiver := by
  obtain ⟨agrees, intact, -⟩ := capr_agrees (quietCard 0) _ quiet_fresh (one_told SamePage 0 (by decide))
  exact ⟨agrees (List.cons_ne_nil _ _), intact⟩

theorem capr_keeps_high_byte : ¬ ∀ s₀ s : Card, Fresh s₀.toReceiver → s₀.stored = 0 → Reaches (CardStep (fun _ => True)) s₀ s →
    (s.reads ≠ [] → s.capr = s.rxPtr - 16) ∧ Intact s.toReceiver := by
  intro claim
  have agrees := (claim (quietCard 0xFFF0) _ quiet_fresh rfl (one_told _ 0xFFF0 trivial)).1 (List.cons_ne_nil _ _)
  have same := (told_agrees_iff true (oneStored 0xFFF0)).mp agrees
  exact absurd same (by decide)

end Deimos.Rtl
