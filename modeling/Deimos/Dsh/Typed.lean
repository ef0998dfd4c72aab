import Deimos.Dsh.Shell
import Deimos.Kbd.Text

set_option autoImplicit false

namespace Deimos.Dsh

open Mem Comp

section Typed

variable (behind : Nat → Kbd.KeyCode) (ops : List Kbd.Move)

def readChars : List Byte :=
  ((Kbd.reading.foldl (Kbd.move behind) (ops.foldl (Kbd.Session.after behind) Kbd.session).toConsole).returned.map Prod.fst).reverse

variable (patient : Kbd.Patiently behind Kbd.session ops)
variable (ready : ∀ status scanCode, Kbd.Move.isr status scanCode ∈ ops → status &&& Kbd.PS2_STATUS_OUTBUFRDY ≠ 0)
include patient ready

theorem read_chars_typed (input : List Byte) (printable : ∀ c ∈ input, Kbd.kbdIsAsciiPrintable c = true)
    (sent : Kbd.isrBytes ops = Kbd.keystrokes input) : readChars behind ops = input := by
  have kept := Kbd.kept_run behind Kbd.session (Kbd.kept_session behind) ops patient
  have typed := Kbd.typed_chars behind ops ready Kbd.session
  rw [sent, Kbd.keystrokes_chars behind Kbd.session.kbd input printable ⟨rfl, rfl⟩] at typed
  rw [readChars, Kbd.reading_returns behind _ kept, typed]
  exact (congrArg List.reverse (List.append_nil _)).trans input.reverse_reverse

theorem typed_lines_obeyed (image : Image) (buf : Word) (holds : Mem → Prop) (guarded : Guarded image buf holds) (m : Mem) (kept : holds m)
    (input : List Byte) (printable : ∀ c ∈ input, Kbd.kbdIsAsciiPrintable c = true) (sent : Kbd.isrBytes ops = Kbd.keystrokes input) :
    ∃ s, (dshLoop image buf ⟨m, readChars behind ops, []⟩).Returns ((heard [] input).2, s) ∧ holds s.mem ∧
      s.log = .prompt :: (heard [] input).1 ∧
      ∀ lines : List (List Byte), (∀ line ∈ lines, Plain line) → input = lines.flatMap (· ++ [0x0A]) →
        s.log = .prompt :: lines.flatMap (fun line => line.map .echo ++ [.echo 0x0A, told line, .prompt]) := by
  have nonzero (c : Byte) (member : c ∈ input) : c ≠ 0 := by
    rintro rfl
    exact absurd (printable 0 member) (by decide)
  rw [read_chars_typed behind ops patient ready input printable sent]
  obtain ⟨s, returned, kept', log⟩ := dsh_loop_returns guarded input nonzero m kept []
  refine ⟨s, returned, kept', log, fun lines plain same => ?_⟩
  rw [log, same, heard_lines lines plain]
  rfl

end Typed

def asking : List Kbd.Move :=
  [.isr 0x01 0x2A, .call, .isr 0x01 0x35, .fetch, .convert, .leave, .isr 0x01 0xB5, .isr 0x01 0xAA, .isr 0x01 0x1C, .call, .fetch, .convert,
    .isr 0x01 0x9C]

theorem typed_lines_obeyed_asking : ∃ s,
    (dshLoop ⟨literalOf, fun _ m => m⟩ 0x3000 ⟨literals, readChars (fun _ => 0) asking, []⟩).Returns (.waiting, s) ∧
      s.log = [.prompt, .echo 0x3F, .echo 0x0A, .call .help, .prompt] := by
  have patient : Kbd.Patiently (fun _ => 0) Kbd.session asking :=
    ⟨.inr ⟨by decide, nofun⟩, trivial, .inr ⟨by decide, nofun⟩, trivial, trivial, trivial, .inl ⟨by decide, by decide⟩, .inr ⟨by decide, nofun⟩,
      .inr ⟨by decide, nofun⟩, trivial, trivial, trivial, .inl ⟨by decide, by decide⟩, trivial⟩
  have ready (status scanCode : Byte) (member : Kbd.Move.isr status scanCode ∈ asking) : status &&& Kbd.PS2_STATUS_OUTBUFRDY ≠ 0 := by
    have one : status = 0x01 := by
      simp only [asking, List.mem_cons, Kbd.Move.isr.injEq, reduceCtorEq, false_or, List.not_mem_nil, or_false] at member
      rcases member with h | h | h | h | h | h <;> exact h.1
    rw [one]
    decide
  obtain ⟨s, returned, -, log, -⟩ := typed_lines_obeyed (fun _ => 0) asking patient ready ⟨literalOf, fun _ m => m⟩ 0x3000 _ literals_guarded
    literals (fun _ _ => rfl) [0x3F, 0x0A] (by decide) (by decide)
  exact ⟨s, returned, log⟩

end Deimos.Dsh
