import Mathlib.Data.List.Induction
import Mathlib.Tactic.Common
import Deimos.Kbd.Model

set_option autoImplicit false

namespace Deimos.Kbd

-- What may happen to the keyboard's state: interrupts, whatever the controller
-- says, and the calls of those who read keys.
inductive Op where
  | isr (status scanCode : Byte)
  | getScan
  | clrScan
  | getKey
  | clrKey
deriving DecidableEq, Repr

def exec (behind : Nat → KeyCode) (k : Keyboard) : Op → Keyboard
  | .isr status scanCode => kbdIsr behind status scanCode k
  | .getScan => k
  | .clrScan => kbdClrScan k
  | .getKey => (kbdGetKey behind k).2
  | .clrKey => kbdClrKey k

def run (behind : Nat → KeyCode) (ops : List Op) : Keyboard := ops.foldl (exec behind) boot

def Covered : Op → Prop
  | .isr status scanCode =>
      status &&& PS2_STATUS_OUTBUFRDY ≠ 0 → scanCode = 0xE0 ∨ scanCode = 0xE1 ∨ scanCode.toNat % 128 < xtScan.length
  | _ => True

def Inside (k : Keyboard) : Prop := ∀ i ∈ k.reads, i < xtScan.length

theorem table_nonempty : (0 : Byte).toNat < xtScan.length := by decide

section Switches

variable (key : KeyCode) (k : Keyboard)

theorem released_reads : (released key k).reads = k.reads := by
  unfold released
  split_ifs <;> rfl

theorem released_buf : (released key k).buf = k.buf := by
  unfold released
  split_ifs <;> rfl

theorem pressed_reads : (pressed key k).reads = k.reads := by
  unfold pressed
  split_ifs <;> rfl

theorem pressed_buf : (pressed key k).buf = k.buf := by
  unfold pressed
  split_ifs <;> rfl

end Switches

section Steps

variable (behind : Nat → KeyCode) (k : Keyboard)

theorem inside_read (i : Nat) : Inside (k.read i) ↔ i < xtScan.length ∧ Inside k := List.forall_mem_cons

theorem isr_inside (status scanCode : Byte) (stored : k.buf.toNat < xtScan.length) :
    (Inside (kbdIsr behind status scanCode k) ↔ Inside k ∧ Covered (.isr status scanCode)) ∧
      (Covered (.isr status scanCode) → (kbdIsr behind status scanCode k).buf.toNat < xtScan.length) := by
  unfold kbdIsr
  by_cases quiet : status &&& PS2_STATUS_OUTBUFRDY = 0
  · have covered : Covered (.isr status scanCode) := fun ready => absurd quiet ready
    rw [if_pos quiet]
    exact ⟨(and_iff_left covered).symm, fun _ => stored⟩
  rw [if_neg quiet]
  by_cases first : scanCode = 0xE0 ∨ scanCode = 0xE1
  · have covered : Covered (.isr status scanCode) := fun _ => first.imp_right .inl
    rw [if_pos first]
    exact ⟨(and_iff_left covered).symm, fun _ => stored⟩
  rw [if_neg first]
  have code : Covered (.isr status scanCode) ↔ scanCode.toNat % 128 < xtScan.length := by
    rw [Covered, ← or_assoc, or_iff_right first]
    exact forall_prop_of_true quiet
  by_cases broken : scanCode &&& 0x80 ≠ 0
  · have index : scanCode.toNat - 0x80 = scanCode.toNat % 128 := by
      have high := (break_bit scanCode).mp broken
      have bound := scanCode.isLt
      omega
    rw [if_pos broken, code]
    dsimp only
    rw [Inside, released_reads, released_buf, index]
    exact ⟨(inside_read k _).trans and_comm, fun _ => stored⟩
  · have index : scanCode.toNat = scanCode.toNat % 128 := by
      have low := mt (break_bit scanCode).mpr broken
      omega
    rw [if_neg broken, code, ← index]
    dsimp only
    rw [Inside, pressed_reads, pressed_buf]
    exact ⟨(inside_read _ _).trans and_comm, fun covered => covered⟩

theorem exec_inside (op : Op) (stored : k.buf.toNat < xtScan.length) :
    (Inside (exec behind k op) ↔ Inside k ∧ Covered op) ∧ (Covered op → (exec behind k op).buf.toNat < xtScan.length) := by
  cases op with
  | isr status scanCode => exact isr_inside behind k status scanCode stored
  | getScan => exact ⟨(and_iff_left trivial).symm, fun _ => stored⟩
  | clrScan => exact ⟨(and_iff_left trivial).symm, fun _ => table_nonempty⟩
  | getKey => exact ⟨(inside_read k _).trans (and_comm.trans (and_congr_right (fun _ => iff_of_true stored trivial))), fun _ => stored⟩
  | clrKey => exact ⟨(and_iff_left trivial).symm, fun _ => table_nonempty⟩

theorem exec_reads (op : Op) (i : Nat) (member : i ∈ k.reads) : i ∈ (exec behind k op).reads := by
  cases op with
  | isr status scanCode =>
      simp only [exec, kbdIsr]
      split_ifs
      · exact member
      · exact member
      · rw [released_reads]
        exact List.mem_cons_of_mem _ member
      · rw [pressed_reads]
        exact List.mem_cons_of_mem _ member
  | getKey => exact List.mem_cons_of_mem _ member
  | _ => exact member

end Steps

-- Over any stream the stored code is one of the table as long as all bytes
-- were, and a byte that is not is an index at once.
theorem table_indices_iff (behind : Nat → KeyCode) (ops : List Op) : Inside (run behind ops) ↔ ∀ op ∈ ops, Covered op := by
  have both : (Inside (run behind ops) ↔ ∀ op ∈ ops, Covered op) ∧
      ((∀ op ∈ ops, Covered op) → (run behind ops).buf.toNat < xtScan.length) := by
    induction ops using List.reverseRecOn with
    | nil =>
        have inside : Inside (run behind []) := fun i none => absurd none List.not_mem_nil
        exact ⟨iff_of_true inside (fun op none => absurd none List.not_mem_nil), fun _ => table_nonempty⟩
    | append_singleton ops op ih =>
        obtain ⟨inside, stored⟩ := ih
        have next : run behind (ops ++ [op]) = exec behind (run behind ops) op := List.foldl_append
        have all : (∀ o ∈ ops ++ [op], Covered o) ↔ (∀ o ∈ ops, Covered o) ∧ Covered op := by
          simp only [List.forall_mem_append, List.forall_mem_singleton]
        rw [next, all]
        by_cases covered : ∀ o ∈ ops, Covered o
        · have step := exec_inside behind (run behind ops) op (stored covered)
          exact ⟨step.1.trans (and_congr_left' inside), fun both => step.2 both.2⟩
        · refine ⟨iff_of_false (fun after => covered (inside.mp ?_)) (fun both => covered both.1), fun both => absurd both.1 covered⟩
          exact fun i member => after i (exec_reads behind (run behind ops) op i member)
  exact both.1

-- Caps Lock makes update_leds send a command, and the keyboard acknowledges it
-- with 0xFA, a break code of no key in the table.
theorem table_left_by_acknowledgement : ¬ ∀ (behind : Nat → KeyCode) (ops : List Op), Inside (run behind ops) := by
  intro inside
  have index := inside (fun _ => 0) [.isr 0x01 0x3A, .isr 0x01 0xFA] 0x7A (by decide)
  exact absurd index (by decide)

end Deimos.Kbd
