import Deimos.Arch.Vectors
import Deimos.Arch.Wrappers
import Deimos.Irq.Dispatch
import Deimos.Irq.Registry

set_option autoImplicit false

namespace Deimos.Irq

open Comp LinkedQueue Run

abbrev vectorOf (irq : Word) : BitVec 8 := (irq + 32).setWidth 8

section Line

variable (irq : Word) (line : Line irq)

include line

theorem vector_of_line : ((vectorOf irq).setWidth 32 : Word) = irq + 32 ∧ (vectorOf irq).toNat = slotOf irq := by
  obtain ⟨low, -⟩ := line
  have inside : (irq + 32).toNat < 48 := by bv_omega
  constructor
  · apply BitVec.eq_of_toNat_eq
    simp only [vectorOf, BitVec.toNat_setWidth]
    omega
  · simp only [vectorOf, slotOf, BitVec.toNat_setWidth]
    omega

theorem stub_of_line : (vectorOf irq, true) ∈ Arch.isrStubs ∧ vectorOf irq ∈ Arch.isrWrappers ∧ Arch.Cpu.pushesError (vectorOf irq) = false := by
  have all : ∀ n : Fin 16, n.val ≠ 2 → (BitVec.ofNat 8 (n.val + 32), true) ∈ Arch.isrStubs ∧
      BitVec.ofNat 8 (n.val + 32) ∈ Arch.isrWrappers ∧ Arch.Cpu.pushesError (BitVec.ofNat 8 (n.val + 32)) = false := by decide
  obtain ⟨low, other⟩ := line
  have number : vectorOf irq = BitVec.ofNat 8 (irq.toNat + 32) := by
    apply BitVec.eq_of_toNat_eq
    simp only [vectorOf, BitVec.toNat_setWidth, BitVec.toNat_ofNat]
    bv_omega
  rw [number]
  exact all ⟨irq.toNat, low⟩ (fun two => other (BitVec.eq_of_toNat_eq two))

end Line

theorem registered_of_run (s₀ s : State) (lists : Lists) (run : Reaches Step (boot s₀, fun _ => []) (s, lists)) :
    ∃ nodes, Inv s₀.heap.live s lists nodes := by
  apply invariant (fun here : State × Lists => ∃ nodes, Inv s₀.heap.live here.1 here.2 nodes) _ _ _ ⟨_, inv_boot s₀⟩ run
  rintro ⟨t, lists⟩ ⟨t', lists'⟩ ⟨nodes, inv⟩ ⟨op, ret, allowed, returned, rfl⟩
  obtain ⟨ret', u, returned', outcome⟩ := exec_outcome _ op t lists nodes inv allowed
  cases returns_unique _ _ _ returned returned'
  exact outcome.inv

-- IRQ 7 and IRQ 15 are taken for genuine only when both are in service.
def Genuine (irq : Word) (pics : Pics) : Prop := irq = 7 ∨ irq = 15 → pics.inService.getLsbD 7 = true ∧ pics.inService.getLsbD 15 = true

theorem handled_genuine (irq : Word) (line : Line irq) (pics : Pics) (genuine : Genuine irq pics) (chain : List Entry) :
    handled (vectorOf irq) pics.inService chain = acks (vectorOf irq) ++ (chain.takeWhile handles).map .call := by
  have shared : vectorOf irq = 39 ∨ vectorOf irq = 47 → irq = 7 ∨ irq = 15 := by
    have number := (vector_of_line irq line).1
    rintro (here | here)
    · rw [here] at number
      exact .inl (by bv_omega)
    · rw [here] at number
      exact .inr (by bv_omega)
  have low : ¬((vectorOf irq = 39 ∨ vectorOf irq = 47) ∧ pics.inService.getLsbD 7 = false) := by
    rintro ⟨both, clear⟩
    rw [(genuine (shared both)).1] at clear
    cases clear
  have high : ¬((vectorOf irq = 39 ∨ vectorOf irq = 47) ∧ pics.inService.getLsbD 15 = false) := by
    rintro ⟨both, clear⟩
    rw [(genuine (shared both)).2] at clear
    cases clear
  rw [handled, if_neg low, if_neg high]

-- From a line of the PICs to its handlers and back: after any calls to the
-- registry the line is open if and only if it has handlers, the gate of its
-- interrupt leads to its wrapper, isr_handler is given its number, acknowledges
-- it and calls exactly these handlers in their order, and then the interrupted
-- code goes on with its own registers.
theorem irq_delivered (arch : Arch.State) (wrapper : Byte → Word) (s₀ s : State) (lists : Lists)
    (run : Reaches Step (boot s₀, fun _ => []) (s, lists)) (irq : Word) (line : Line irq) (pics : Pics) (genuine : Genuine irq pics)
    (l : Arch.Link) (c : Arch.Cpu) (room : 56 ≤ c.esp.toNat) :
    (masked s (irq.setWidth 8) = false ↔ lists (slotOf irq) ≠ []) ∧
    Arch.vector (Arch.isrInit wrapper (Arch.boot arch)) (vectorOf irq) = some (wrapper (vectorOf irq)) ∧
    (∃ pics', (isrHandler (Arch.regsAt (Arch.enter l (vectorOf irq) true none c).mem (c.esp - 52)).intNo pics s).Returns pics' ∧
      pics'.log.filter Event.counts = pics.log.filter Event.counts ++ acks (vectorOf irq) ++ (lists (slotOf irq)).map .call) ∧
    ∀ d : Arch.Cpu, d.esp = c.esp - 52 →
      (∀ x : Word, c.esp.toNat ≤ x.toNat + 52 → x.toNat < c.esp.toNat → d.mem x = (Arch.enter l (vectorOf irq) true none c).mem x) →
      Arch.leave d = { c with mem := d.mem } := by
  obtain ⟨nodes, inv⟩ := registered_of_run s₀ s lists run
  obtain ⟨stub, wrapped, errorless⟩ := stub_of_line irq line
  obtain ⟨number, place⟩ := vector_of_line irq line
  have inside := (slot_of_line irq line).2
  have slot := inv.slot (slotOf irq) inside
  refine ⟨inv.mask irq line, ?_, ?_, fun d returned kept => ?_⟩
  · rw [Arch.isr_init_vector _ wrapper (Arch.boot_loaded arch)]
    exact if_pos wrapped
  · rw [Arch.enter_regs l _ true none c stub errorless.symm room]
    obtain ⟨pics', returned, events⟩ := isr_handler_returns (vectorOf irq) pics s (refs (slotOf irq) (nodes (slotOf irq)))
      (place ▸ slot.chain.links)
    refine ⟨pics', returned, ?_⟩
    have calls := returns_unique _ _ _ (isr_handlers_calls s (irq + 32) _ inside slot.chain.links)
      (isr_handlers_returns s (irq + 32) _ _ inside slot)
    rw [events, handled_genuine irq line pics genuine, calls, List.append_assoc]
  · exact Arch.leave_unchanged l _ true none c d stub errorless.symm room returned kept

theorem keyboard_irq_delivered : ∃ (arch : Arch.State) (wrapper : Byte → Word) (s : State) (pics : Pics) (l : Arch.Link) (c : Arch.Cpu),
    Reaches Step (boot cold, fun _ => []) (s, meant 0 keyboard (fun _ => [])) ∧
    Arch.vector (Arch.isrInit wrapper (Arch.boot arch)) 33 = some (wrapper 33) ∧
    ∃ pics', (isrHandler (Arch.regsAt (Arch.enter l 33 true none c).mem (c.esp - 52)).intNo pics s).Returns pics' ∧
      pics'.log.filter Event.counts = [ack PIC_MASTER_CMD, .call (7, 0xC0100000)] := by
  have line : Line 1 := by unfold Line; decide
  obtain ⟨s, returned⟩ := keyboard_returns
  have run : Reaches Step (boot cold, fun _ => []) (s, meant 0 keyboard (fun _ => [])) :=
    .single ⟨keyboard, 0, ⟨line, by decide, .inl rfl⟩, returned, rfl⟩
  have genuine : Genuine 1 ⟨0, 2, fun _ => 0, []⟩ := fun shared => by rcases shared with same | same <;> cases same
  obtain ⟨-, gate, calls, -⟩ := irq_delivered
    ⟨0xC0110000, ⟨0, 0⟩, fun _ => ⟨0⟩, 0xC0111000, ⟨0, 0⟩, fun _ => ⟨0⟩, ⟨0, 0⟩, ⟨0, 0⟩, 0, 0, 0, 0, 0, 0⟩ (fun i => 0xC0102000 + 16 * i.setWidth 32)
    cold s _ run 1 line ⟨0, 2, fun _ => 0, []⟩ genuine ⟨0xC0101000, 0xC0100010⟩
    ⟨1, 2, 3, 4, 0x8000, 5, 6, 7, 0xC0102000, 0x08, 0x202, fun _ => 0⟩ (by decide)
  exact ⟨_, _, s, _, _, _, run, gate, calls⟩

end Deimos.Irq
