import Mathlib.Tactic.IntervalCases
import Deimos.Lib.Fields
import Deimos.Pci.Model

set_option autoImplicit false

namespace Deimos.Pci

open Fields

def PciDev.bdf (p : PciDev) : Bdf := ⟨p.bus, p.dev.setWidth 5, p.func.setWidth 3⟩

def PciDev.Valid (p : PciDev) : Prop := p.dev.toNat < 32 ∧ p.func.toNat < 8

def PciDev.SameFunction (p q : PciDev) : Prop := q.bus = p.bus ∧ q.dev = p.dev ∧ q.func = p.func

def registerOf (offset : Byte) : BitVec 6 := (offset >>> 2).setWidth 6

def Host.byteAt (h : Host) (f : Bdf) (offset : Byte) : Byte := field 8 (8 * (offset.toNat % 4)) (h.config f (registerOf offset))

def Host.wordAt (h : Host) (f : Bdf) (offset : Byte) : Half := field 16 (16 * (offset.toNat % 4 / 2)) (h.config f (registerOf offset))

theorem bdf_same (p q : PciDev) (valid : p.Valid) (valid' : q.Valid) : q.bdf = p.bdf ↔ p.SameFunction q := by
  obtain ⟨dev, func⟩ := valid
  obtain ⟨dev', func'⟩ := valid'
  simp only [PciDev.bdf, Bdf.mk.injEq, PciDev.SameFunction]
  bv_omega

theorem register_same (o offset : Byte) : registerOf o = registerOf offset ↔ o.toNat / 4 = offset.toNat / 4 := by
  simp only [registerOf, BitVec.toNat_eq, BitVec.toNat_setWidth, BitVec.toNat_ushiftRight, Nat.shiftRight_eq_div_pow]
  omega

section Address

variable (p : PciDev) (offset : Byte) (h : Host)

theorem address_enabled : (outlAddress (calcPciAddr p offset) h).enabled = true := by
  simp [outlAddress, calcPciAddr, Host.enabled]

theorem address_function : (outlAddress (calcPciAddr p offset) h).function = p.bdf := by
  simp only [Host.function, outlAddress, PciDev.bdf, Bdf.mk.injEq]
  refine ⟨?_, ?_, ?_⟩
  all_goals
    apply BitVec.eq_of_getLsbD_eq
    intro i bound
    interval_cases i <;> simp [calcPciAddr]

theorem address_register : (outlAddress (calcPciAddr p offset) h).register = registerOf offset := by
  apply BitVec.eq_of_getLsbD_eq
  intro i bound
  interval_cases i <;> simp [Host.register, outlAddress, calcPciAddr, registerOf]

end Address

theorem word_shift (offset : Byte) : (offset &&& 2).toNat * 8 = 16 * (offset.toNat % 4 / 2) := by
  have all : ∀ o : Byte, (o &&& 2).toNat * 8 = 16 * (o.toNat % 4 / 2) := by decide
  exact all offset

theorem byte_shift (offset : Byte) : (offset &&& 3).toNat * 8 = 8 * (offset.toNat % 4) := by
  have all : ∀ o : Byte, (o &&& 3).toNat * 8 = 8 * (o.toNat % 4) := by decide
  exact all offset

section Accesses

variable (p : PciDev) (offset : Byte) (h : Host)

theorem read_long : (pciReadl p offset h).1 = h.config p.bdf (registerOf offset) := by
  simp only [pciReadl, inlData, address_enabled, address_function, address_register]
  rfl

theorem read_word : (pciReadw p offset h).1 = field 16 (16 * (offset.toNat % 4 / 2)) (pciReadl p offset h).1 := by
  simp only [pciReadw, word_shift]
  apply BitVec.eq_of_getLsbD_eq
  intro i bound
  interval_cases i <;> simp [field]

theorem read_byte : (pciReadb p offset h).1 = field 8 (8 * (offset.toNat % 4)) (pciReadl p offset h).1 := by
  simp only [pciReadb, byte_shift]
  apply BitVec.eq_of_getLsbD_eq
  intro i bound
  interval_cases i <;> simp [field]

theorem read_byte_at : (pciReadb p offset h).1 = h.byteAt p.bdf offset := by rw [read_byte, read_long, Host.byteAt]

theorem read_word_at : (pciReadw p offset h).1 = h.wordAt p.bdf offset := by rw [read_word, read_long, Host.wordAt]

theorem write_long (value : Word) : (pciWritel p offset value h).config =
    Function.update h.config p.bdf (Function.update (h.config p.bdf) (registerOf offset) value) := by
  simp only [pciWritel, outlData, address_enabled, address_function, address_register, if_true]
  rfl

theorem write_word (value : Half) : (pciWritew p offset value h).config =
    (pciWritel p offset (withField 16 (16 * (offset.toNat % 4 / 2)) value (h.config p.bdf (registerOf offset))) h).config := by
  rw [← word_shift, ← read_long]
  rfl

theorem write_byte (value : Byte) : (pciWriteb p offset value h).config =
    (pciWritel p offset (withField 8 (8 * (offset.toNat % 4)) value (h.config p.bdf (registerOf offset))) h).config := by
  rw [← byte_shift, ← read_long]
  rfl

theorem read_written (value : Word) : (pciWritel p offset value h).config p.bdf (registerOf offset) = value := by
  rw [write_long, Function.update_self, Function.update_self]

theorem written_elsewhere (value : Word) (f : Bdf) (r : BitVec 6) (other : ¬(f = p.bdf ∧ r = registerOf offset)) :
    (pciWritel p offset value h).config f r = h.config f r := by
  rw [write_long]
  by_cases same : f = p.bdf
  · have apart : r ≠ registerOf offset := fun here => other ⟨same, here⟩
    rw [same, Function.update_self, Function.update_of_ne apart]
  · rw [Function.update_of_ne same]

end Accesses

def KeepsBytes (p : PciDev) (addressed : Byte → Prop) (h h' : Host) : Prop :=
  ∀ (q : PciDev) (o : Byte), q.Valid → ¬(p.SameFunction q ∧ addressed o) → h'.byteAt q.bdf o = h.byteAt q.bdf o

theorem KeepsBytes.mono {p : PciDev} {addressed addressed' : Byte → Prop} {h h' : Host} (keeps : KeepsBytes p addressed h h')
    (fewer : ∀ o, addressed o → addressed' o) : KeepsBytes p addressed' h h' :=
  fun q o valid' other => keeps q o valid' (fun here => other ⟨here.1, fewer o here.2⟩)

section Stores

variable (p : PciDev) (offset : Byte) (h : Host) (valid : p.Valid)
include valid

theorem write_keeps (h' : Host) (w s : Nat) (value : BitVec w)
    (written : h'.config = (pciWritel p offset (withField w s value (h.config p.bdf (registerOf offset))) h).config) :
    KeepsBytes p (fun o => o.toNat / 4 = offset.toNat / 4 ∧ ¬(8 * (o.toNat % 4) + 8 ≤ s ∨ s + w ≤ 8 * (o.toNat % 4))) h h' := by
  intro q o valid' other
  rw [bdf_same p q valid valid' |>.symm] at other
  rw [Host.byteAt, Host.byteAt, written]
  by_cases here : q.bdf = p.bdf ∧ registerOf o = registerOf offset
  · rw [here.1, here.2, read_written]
    have apart : 8 * (o.toNat % 4) + 8 ≤ s ∨ s + w ≤ 8 * (o.toNat % 4) := by
      by_contra meets
      exact other ⟨here.1, (register_same o offset).mp here.2, meets⟩
    exact field_with_apart w s value _ 8 _ (by omega) apart
  · rw [written_elsewhere _ _ _ _ _ _ here]

theorem write_long_keeps (value : Word) : KeepsBytes p (fun o => o.toNat / 4 = offset.toNat / 4) h (pciWritel p offset value h) := by
  intro q o valid' other
  have elsewhere : ¬(q.bdf = p.bdf ∧ registerOf o = registerOf offset) := by
    rw [bdf_same p q valid valid', register_same]
    exact other
  rw [Host.byteAt, written_elsewhere _ _ _ _ _ _ elsewhere, Host.byteAt]

theorem write_word_keeps (value : Half) : KeepsBytes p (fun o => o.toNat / 2 = offset.toNat / 2) h (pciWritew p offset value h) :=
  (write_keeps p offset h valid _ 16 _ value (write_word p offset h value)).mono (fun o here => by omega)

theorem write_byte_keeps (value : Byte) : KeepsBytes p (fun o => o = offset) h (pciWriteb p offset value h) :=
  (write_keeps p offset h valid _ 8 _ value (write_byte p offset h value)).mono (fun o here => by
    apply BitVec.eq_of_toNat_eq
    omega)

end Stores

theorem config_access_exact (p : PciDev) (valid : p.Valid) (offset : Byte) (h : Host) :
    (∀ value, (pciReadl p offset (pciWritel p offset value h)).1 = value ∧
      KeepsBytes p (fun o => o.toNat / 4 = offset.toNat / 4) h (pciWritel p offset value h)) ∧
    (∀ value, (pciReadw p offset (pciWritew p offset value h)).1 = value ∧
      KeepsBytes p (fun o => o.toNat / 2 = offset.toNat / 2) h (pciWritew p offset value h)) ∧
    (∀ value, (pciReadb p offset (pciWriteb p offset value h)).1 = value ∧
      KeepsBytes p (fun o => o = offset) h (pciWriteb p offset value h)) ∧
    (pciReadw p offset h).1 = field 16 (16 * (offset.toNat % 4 / 2)) (pciReadl p offset h).1 ∧
    (pciReadb p offset h).1 = field 8 (8 * (offset.toNat % 4)) (pciReadl p offset h).1 := by
  refine ⟨fun value => ⟨?_, write_long_keeps p offset h valid value⟩, fun value => ⟨?_, write_word_keeps p offset h valid value⟩,
    fun value => ⟨?_, write_byte_keeps p offset h valid value⟩, read_word p offset h, read_byte p offset h⟩
  · rw [read_long, read_written]
  · rw [read_word, read_long, write_word, read_written]
    exact field_with_same 16 _ value _ (by omega)
  · rw [read_byte, read_long, write_byte, read_written]
    exact field_with_same 8 _ value _ (by omega)

def networkCard : PciDev := { blank with bus := 0, dev := 3, func := 0 }

theorem config_access_exact_at_command : ∃ h, h = pciWritew networkCard 0x04 0x0107 ⟨0, fun _ _ => 0⟩ ∧ (pciReadw networkCard 0x04 h).1 = 0x0107 ∧
    KeepsBytes networkCard (fun o => o.toNat / 2 = 2) ⟨0, fun _ _ => 0⟩ h ∧
    (pciReadb networkCard 0x05 h).1 = field 8 8 (pciReadl networkCard 0x05 h).1 := by
  have valid : networkCard.Valid := by unfold PciDev.Valid; decide
  obtain ⟨read, kept⟩ := (config_access_exact networkCard valid 0x04 ⟨0, fun _ _ => 0⟩).2.1 0x0107
  exact ⟨_, rfl, read, kept, (config_access_exact networkCard valid 0x05 _).2.2.2.2⟩

end Deimos.Pci
