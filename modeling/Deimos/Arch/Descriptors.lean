import Mathlib.Logic.Equiv.Defs
import Deimos.Arch.Model

set_option autoImplicit false

namespace Deimos.Arch

open Fields

-- What the processor takes a segment descriptor and a gate to say.
structure Segment where
  base : Word
  limit : BitVec 20
  access : Byte
  flags : BitVec 4
deriving DecidableEq, Repr

structure Gate where
  selector : Half
  offset : Word
  zero : Byte
  flags : Byte
deriving DecidableEq, Repr

def GdtEntry.segment (e : GdtEntry) : Segment :=
  ⟨e.baseHi ++ e.baseMid ++ e.baseLow, field 4 0 e.granularity ++ e.limit, e.access, field 4 4 e.granularity⟩

def IdtEntry.gate (e : IdtEntry) : Gate := ⟨e.selector, e.offsetHi ++ e.offsetLow, e.zero, e.types⟩

theorem segment_fields (e : GdtEntry) : e.segment =
    ⟨field 8 56 e.bits ++ field 8 32 e.bits ++ field 16 16 e.bits, field 4 48 e.bits ++ field 16 0 e.bits, field 8 40 e.bits,
      field 4 52 e.bits⟩ := by
  have low : field 4 0 e.granularity = field 4 48 e.bits := field_field 4 0 e.bits 8 48 (by decide)
  have high : field 4 4 e.granularity = field 4 52 e.bits := field_field 4 4 e.bits 8 48 (by decide)
  rw [GdtEntry.segment, low, high]
  rfl

section Encoding

variable (base limit : Word) (flags : Half) (selector : Half) (offset : Word) (types : Byte)

theorem gdt_create_entry_bits : (gdtCreateEntry base limit flags).bits =
    place 64 8 56 (field 8 24 base) ||| place 64 4 52 (field 4 12 flags) ||| place 64 4 48 (field 4 16 limit) |||
      place 64 8 40 (field 8 0 flags) ||| place 64 8 32 (field 8 16 base) ||| place 64 16 16 (field 16 0 base) |||
        place 64 16 0 (field 16 0 limit) := by
  have high : base &&& 0xFF000000 = place 32 8 24 (field 8 24 base) := and_mask 8 24 base
  have nibble : (promote flags <<< 8) &&& 0x00F00000 = place 32 4 20 (field 4 12 (promote flags)) :=
    shift_left_mask 4 20 8 (promote flags) (by decide) (by decide)
  have top : limit &&& 0x000F0000 = place 32 4 16 (field 4 16 limit) := and_mask 4 16 limit
  have access : (promote flags <<< 8) &&& 0x0000FF00 = place 32 8 8 (field 8 0 (promote flags)) :=
    shift_left_mask 8 8 8 (promote flags) (by decide) (by decide)
  have middle : (base >>> 16) &&& 0x000000FF = place 32 8 0 (field 8 16 base) := shift_right_mask 8 0 16 base
  have low : (base <<< 16) &&& 0xFFFF0000 = place 32 16 16 (field 16 0 base) := shift_left_mask 16 16 16 base (by decide) (by decide)
  have rest : limit &&& 0x0000FFFF = place 32 16 0 (field 16 0 limit) := and_mask 16 0 limit
  simp only [gdtCreateEntry, high, nibble, top, access, middle, low, rest, ofUnsigned, ofInt]
  rw [place_widened, place_extended, place_widened, place_extended, place_widened, place_widened, place_widened]
  · simp only [BitVec.shiftLeft_or_distrib, place_shift, promote, field_widened _ _ flags 32 (by decide), BitVec.ofNat_eq_ofNat,
      BitVec.zero_or]
  all_goals decide

theorem idt_create_entry_bits : (idtCreateEntry selector offset types).bits =
    place 64 16 48 (field 16 16 offset) ||| place 64 8 40 (field 8 0 types) ||| place 64 16 16 (field 16 0 selector) |||
      place 64 16 0 (field 16 0 offset) := by
  have high : offset &&& 0xFFFF0000 = place 32 16 16 (field 16 16 offset) := and_mask 16 16 offset
  have kind : (promote types <<< 8) &&& 0x0000FF00 = place 32 8 8 (field 8 0 (promote types)) :=
    shift_left_mask 8 8 8 (promote types) (by decide) (by decide)
  have chosen : (promote selector <<< 16) &&& 0xFFFF0000 = place 32 16 16 (field 16 0 (promote selector)) :=
    shift_left_mask 16 16 16 (promote selector) (by decide) (by decide)
  have low : offset &&& 0x0000FFFF = place 32 16 0 (field 16 0 offset) := and_mask 16 0 offset
  simp only [idtCreateEntry, high, kind, chosen, low, ofUnsigned, ofInt]
  rw [place_widened, place_extended, place_widened, place_widened]
  · simp only [BitVec.shiftLeft_or_distrib, place_shift, promote, field_widened _ _ types 32 (by decide),
      field_widened _ _ selector 32 (by decide), BitVec.ofNat_eq_ofNat, BitVec.zero_or]
  all_goals decide

-- For all arguments: of the limit only 20 bits count, of the flags not bits 8 to 11.
theorem gdt_create_entry_segment : (gdtCreateEntry base limit flags).segment = ⟨base, field 20 0 limit, field 8 0 flags, field 4 12 flags⟩ := by
  have high : field 8 24 base ++ field 8 16 base = field 16 16 base := field_append 8 16 base 8
  have whole : field 16 16 base ++ field 16 0 base = base := (field_append 16 0 base 16).trans (field_whole base)
  have short : field 4 16 limit ++ field 16 0 limit = field 20 0 limit := field_append 16 0 limit 4
  rw [segment_fields, gdt_create_entry_bits]
  simp only [field_or]
  simp (disch := decide) only [field_place, field_place_apart, BitVec.zero_or, BitVec.or_zero]
  rw [high, whole, short]

theorem idt_create_entry_gate : (idtCreateEntry selector offset types).gate = ⟨selector, offset, 0, types⟩ := by
  have whole : field 16 16 offset ++ field 16 0 offset = offset := (field_append 16 0 offset 16).trans (field_whole offset)
  have gate : (idtCreateEntry selector offset types).gate = ⟨field 16 0 selector, field 16 16 offset ++ field 16 0 offset, 0, field 8 0 types⟩ := by
    simp only [IdtEntry.gate, IdtEntry.selector, IdtEntry.offsetHi, IdtEntry.offsetLow, IdtEntry.zero, IdtEntry.types, idt_create_entry_bits,
      field_or]
    simp (disch := decide) only [field_place, field_place_apart, BitVec.zero_or, BitVec.or_zero]
    rfl
  rw [gate, whole, field_whole selector, field_whole types]

end Encoding

def Segment.entry (d : Segment) : GdtEntry := gdtCreateEntry d.base (d.limit.setWidth 32) (d.flags ++ (0 : BitVec 4) ++ d.access)

theorem segment_of_entry (d : Segment) : d.entry.segment = d := by
  rw [Segment.entry, gdt_create_entry_segment]
  simp (disch := decide) only [field_append_high, field_append_low, field_widened, field_whole, Nat.reduceSub]

theorem entry_of_segment (e : GdtEntry) : e.segment.entry = e := by
  have bits : e.segment.entry.bits = e.bits := by
    have first : place 64 8 56 (field 8 56 e.bits) ||| place 64 4 52 (field 4 52 e.bits) = place 64 12 52 (field 12 52 e.bits) :=
      place_fields 4 52 e.bits 8
    have second : place 64 12 52 (field 12 52 e.bits) ||| place 64 4 48 (field 4 48 e.bits) = place 64 16 48 (field 16 48 e.bits) :=
      place_fields 4 48 e.bits 12
    have third : place 64 16 48 (field 16 48 e.bits) ||| place 64 8 40 (field 8 40 e.bits) = place 64 24 40 (field 24 40 e.bits) :=
      place_fields 8 40 e.bits 16
    have fourth : place 64 24 40 (field 24 40 e.bits) ||| place 64 8 32 (field 8 32 e.bits) = place 64 32 32 (field 32 32 e.bits) :=
      place_fields 8 32 e.bits 24
    have fifth : place 64 32 32 (field 32 32 e.bits) ||| place 64 16 16 (field 16 16 e.bits) = place 64 48 16 (field 48 16 e.bits) :=
      place_fields 16 16 e.bits 32
    have last : place 64 48 16 (field 48 16 e.bits) ||| place 64 16 0 (field 16 0 e.bits) = place 64 64 0 (field 64 0 e.bits) :=
      place_fields 16 0 e.bits 48
    rw [Segment.entry, gdt_create_entry_bits, segment_fields]
    simp (disch := decide) only [field_append_high, field_append_low, field_widened, field_whole, Nat.reduceSub]
    rw [first, second, third, fourth, fifth, last, place_whole, field_whole]
  exact congrArg GdtEntry.mk bits

def segmentEquiv : Segment ≃ GdtEntry := ⟨Segment.entry, GdtEntry.segment, segment_of_entry, entry_of_segment⟩

-- What a caller has to keep to: a limit of 20 bits, and bits 8 to 11 of the
-- flags clear, where the limit goes.
structure Encodable (limit : Word) (flags : Half) : Prop where
  short : limit.toNat < 2 ^ 20
  clear : flags &&& 0x0F00 = 0

section Decoding

variable {base limit base' limit' : Word} {flags flags' selector selector' : Half} {offset offset' : Word} {types types' : Byte}

theorem limit_decoded (args : Encodable limit flags) : (field 20 0 limit).setWidth 32 = limit := by
  apply BitVec.eq_of_toNat_eq
  rw [field, BitVec.ushiftRight_zero, BitVec.toNat_setWidth, BitVec.toNat_setWidth, Nat.mod_eq_of_lt args.short]
  exact Nat.mod_eq_of_lt limit.isLt

theorem flags_decoded (args : Encodable limit flags) : field 4 12 flags ++ (0 : BitVec 4) ++ field 8 0 flags = flags := by
  have none : place 16 4 8 (field 4 8 flags) = 0 := (and_mask 4 8 flags).symm.trans args.clear
  have gap : field 4 8 flags = 0 := by
    have placed : field 4 8 (place 16 4 8 (field 4 8 flags)) = field 4 8 flags := field_place 4 8 (field 4 8 flags) (by decide)
    rw [← placed, none]
    rfl
  have high : field 4 12 flags ++ field 4 8 flags = field 8 8 flags := field_append 4 8 flags 4
  have whole : field 8 8 flags ++ field 8 0 flags = flags := (field_append 8 0 flags 8).trans (field_whole flags)
  rw [← gap, high, whole]

theorem gdt_create_entry_injective (args : Encodable limit flags) (args' : Encodable limit' flags')
    (same : gdtCreateEntry base limit flags = gdtCreateEntry base' limit' flags') : base = base' ∧ limit = limit' ∧ flags = flags' := by
  have decoded := congrArg GdtEntry.segment same
  simp only [gdt_create_entry_segment, Segment.mk.injEq] at decoded
  obtain ⟨bases, limits, accesses, nibbles⟩ := decoded
  refine ⟨bases, ?_, ?_⟩
  · rw [← limit_decoded args, limits, limit_decoded args']
  · rw [← flags_decoded args, accesses, nibbles, flags_decoded args']

theorem idt_create_entry_injective (same : idtCreateEntry selector offset types = idtCreateEntry selector' offset' types') :
    selector = selector' ∧ offset = offset' ∧ types = types' := by
  have decoded := congrArg IdtEntry.gate same
  simp only [idt_create_entry_gate, Gate.mk.injEq, true_and] at decoded
  exact decoded

end Decoding

theorem encoders_exact :
    (∀ (base limit : Word) (flags : Half), Encodable limit flags →
      (gdtCreateEntry base limit flags).segment.base = base ∧
      (gdtCreateEntry base limit flags).segment.limit.setWidth 32 = limit ∧
      (gdtCreateEntry base limit flags).segment.access = field 8 0 flags ∧
      (gdtCreateEntry base limit flags).segment.flags = field 4 12 flags) ∧
    (∀ (selector : Half) (offset : Word) (flags : Byte),
      (idtCreateEntry selector offset flags).gate = { selector := selector, offset := offset, zero := 0, flags := flags }) ∧
    (∀ (base limit base' limit' : Word) (flags flags' : Half), Encodable limit flags → Encodable limit' flags' →
      gdtCreateEntry base limit flags = gdtCreateEntry base' limit' flags' → base = base' ∧ limit = limit' ∧ flags = flags') ∧
    (∀ (selector selector' : Half) (offset offset' : Word) (flags flags' : Byte),
      idtCreateEntry selector offset flags = idtCreateEntry selector' offset' flags' →
      selector = selector' ∧ offset = offset' ∧ flags = flags') := by
  refine ⟨?_, ?_, ?_, ?_⟩
  · intro base limit flags args
    rw [gdt_create_entry_segment]
    exact ⟨rfl, limit_decoded args, rfl, rfl⟩
  · intro selector offset flags
    exact idt_create_entry_gate selector offset flags
  · intro base limit base' limit' flags flags' args args' same
    exact gdt_create_entry_injective args args' same
  · intro selector selector' offset offset' flags flags' same
    exact idt_create_entry_injective same

theorem encoders_exact_kernel_code :
    Encodable 0xFFFFF 0xC09A ∧ (gdtCreateEntry 0 0xFFFFF 0xC09A).segment.limit.setWidth 32 = 0xFFFFF#32 ∧
      (gdtCreateEntry 0 0xFFFFF 0xC09A).segment.access = field 8 0 (0xC09A : Half) := by
  have args : Encodable 0xFFFFF 0xC09A := ⟨by decide, by decide⟩
  obtain ⟨-, limit, access, -⟩ := encoders_exact.1 0 0xFFFFF 0xC09A args
  exact ⟨args, limit, access⟩

end Deimos.Arch
