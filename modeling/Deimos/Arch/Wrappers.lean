import Mathlib.Logic.Relation
import Deimos.Arch.Model
import Deimos.Lib.Memory

set_option autoImplicit false

namespace Deimos.Arch

open Mem

structure Cpu where
  eax : Word
  ecx : Word
  edx : Word
  ebx : Word
  esp : Word
  ebp : Word
  esi : Word
  edi : Word
  eip : Word
  cs : Half
  eflags : Word
  mem : Mem

-- regs_t.
structure Regs where
  edi : Word
  esi : Word
  ebp : Word
  esp : Word
  ebx : Word
  edx : Word
  ecx : Word
  eax : Word
  intNo : Word
  errCode : Word
  eip : Word
  cs : Word
  eflags : Word
deriving DecidableEq, Repr

def regsAt (m : Mem) (a : Word) : Regs :=
  { edi := m.read a, esi := m.read (a + 4), ebp := m.read (a + 8), esp := m.read (a + 12), ebx := m.read (a + 16),
    edx := m.read (a + 20), ecx := m.read (a + 24), eax := m.read (a + 28), intNo := m.read (a + 32),
    errCode := m.read (a + 36), eip := m.read (a + 40), cs := m.read (a + 44), eflags := m.read (a + 48) }

namespace Cpu

def push (value : Word) (c : Cpu) : Cpu := { c with esp := c.esp - 4, mem := c.mem.write (c.esp - 4) value }

def pop (c : Cpu) : Word × Cpu := (c.mem.read c.esp, { c with esp := c.esp + 4 })

def pushAll (values : List Word) (c : Cpu) : Cpu := values.foldl (fun c value => c.push value) c

def pushal (c : Cpu) : Cpu := c.pushAll [c.eax, c.ecx, c.edx, c.ebx, c.esp, c.ebp, c.esi, c.edi]

-- The word where pushal has left esp is skipped.
def popal (c : Cpu) : Cpu :=
  let (edi, c) := c.pop
  let (esi, c) := c.pop
  let (ebp, c) := c.pop
  let (_, c) := c.pop
  let (ebx, c) := c.pop
  let (edx, c) := c.pop
  let (ecx, c) := c.pop
  let (eax, c) := c.pop
  { c with edi := edi, esi := esi, ebp := ebp, ebx := ebx, edx := edx, ecx := ecx, eax := eax }

def EFLAGS_IF : Word := 0x200

def cli (c : Cpu) : Cpu := { c with eflags := c.eflags &&& ~~~EFLAGS_IF }

def sti (c : Cpu) : Cpu := { c with eflags := c.eflags ||| EFLAGS_IF }

def call (function back : Word) (c : Cpu) : Cpu := { c.push back with eip := function }

def ret (c : Cpu) : Cpu :=
  let (eip, c) := c.pop
  { c with eip := eip }

def iret (c : Cpu) : Cpu :=
  let (eip, c) := c.pop
  let (cs, c) := c.pop
  let (eflags, c) := c.pop
  { c with eip := eip, cs := cs.setWidth 16, eflags := eflags }

-- The exceptions for which the processor pushes an error code.
def pushesError (vector : Byte) : Bool := vector ∈ [8, 10, 11, 12, 13, 14, 17, 21, 29, 30]

-- An interrupt gate of the kernel is entered: TF, IF, NT, RF and VM are cleared.
def interrupt (error : Option Word) (c : Cpu) : Cpu :=
  { c.pushAll ([c.eflags, c.cs.setWidth 32, c.eip] ++ error.toList) with cs := 0x08, eflags := c.eflags &&& ~~~0x00034300 }

end Cpu

-- The wrappers, and whether they push a dummy in place of an error code.
def isrStubs : List (Byte × Bool) :=
  [(0, true), (1, true), (2, true), (3, true), (4, true), (5, true), (6, true), (7, true), (8, false), (10, false), (11, false),
    (12, false), (13, false), (14, false), (16, true), (17, false), (18, true), (19, true), (20, true), (30, false), (32, true),
    (33, true), (35, true), (36, true), (37, true), (38, true), (39, true), (40, true), (41, true), (42, true), (43, true),
    (44, true), (45, true), (46, true), (47, true)]

def stub (vector : Byte) (dummy : Bool) (c : Cpu) : Cpu := c.pushAll (if dummy then [0, vector.setWidth 32] else [vector.setWidth 32])

-- Where the linker puts isr_handler, and the instruction after the call of it.
structure Link where
  isrHandler : Word
  back : Word

-- From an interrupt to the first instruction of isr_handler, and from its return to where it came.
def enter (l : Link) (vector : Byte) (dummy : Bool) (error : Option Word) (c : Cpu) : Cpu :=
  let c := stub vector dummy (c.interrupt error)
  let c := c.cli.pushal
  c.call l.isrHandler l.back

def leave (c : Cpu) : Cpu :=
  let c := c.popal
  let c := { c with esp := c.esp + 8 }
  c.sti.iret

def saved (vector : Byte) (error : Option Word) (c : Cpu) : Regs :=
  { edi := c.edi, esi := c.esi, ebp := c.ebp, esp := c.esp - 20, ebx := c.ebx, edx := c.edx, ecx := c.ecx, eax := c.eax,
    intNo := vector.setWidth 32, errCode := error.getD 0, eip := c.eip, cs := c.cs.setWidth 32, eflags := c.eflags }

def restored (c : Cpu) (r : Regs) (esp : Word) : Cpu :=
  { eax := r.eax, ecx := r.ecx, edx := r.edx, ebx := r.ebx, esp := esp, ebp := r.ebp, esi := r.esi, edi := r.edi, eip := r.eip,
    cs := r.cs.setWidth 16, eflags := r.eflags, mem := c.mem }

theorem push_all_eq (values : List Word) (c : Cpu) :
    c.pushAll values = { c with esp := c.esp - BitVec.ofNat 32 (4 * values.length), mem := c.mem.pushes c.esp values } := by
  induction values generalizing c with
  | nil => rw [List.length_nil, show c.esp - BitVec.ofNat 32 (4 * 0) = c.esp from BitVec.sub_zero c.esp, pushes, Cpu.pushAll, List.foldl_nil]
  | cons value rest ih =>
      have lower : c.esp - 4 - BitVec.ofNat 32 (4 * rest.length) = c.esp - BitVec.ofNat 32 (4 * (value :: rest).length) := by
        rw [List.length_cons]
        bv_omega
      exact (ih (c.push value)).trans (congrArg (fun esp => { c with esp := esp, mem := c.mem.pushes c.esp (value :: rest) }) lower)

theorem push_all_append (values more : List Word) (c : Cpu) : (c.pushAll values).pushAll more = c.pushAll (values ++ more) :=
  List.foldl_append.symm

theorem push_all_flags (values : List Word) (c : Cpu) (cs : Half) (eflags : Word) :
    ({ c with cs := cs, eflags := eflags } : Cpu).pushAll values = { c.pushAll values with cs := cs, eflags := eflags } := by
  rw [push_all_eq, push_all_eq]

theorem pushal_flags (values : List Word) (c : Cpu) (cs : Half) (eflags : Word) :
    Cpu.pushal { c.pushAll values with cs := cs, eflags := eflags } =
      { c.pushAll (values ++ [c.eax, c.ecx, c.edx, c.ebx, c.esp - BitVec.ofNat 32 (4 * values.length), c.ebp, c.esi, c.edi]) with
        cs := cs, eflags := eflags } := by
  have registers : Cpu.pushal { c.pushAll values with cs := cs, eflags := eflags } =
      ({ c.pushAll values with cs := cs, eflags := eflags } : Cpu).pushAll
        [c.eax, c.ecx, c.edx, c.ebx, c.esp - BitVec.ofNat 32 (4 * values.length), c.ebp, c.esi, c.edi] := by
    rw [push_all_eq values c]
    rfl
  rw [registers, push_all_flags, push_all_append]

theorem stubs_registered : isrStubs.map Prod.fst = isrWrappers := by decide

theorem stubs_balanced : ∀ s ∈ isrStubs, s.2 = !Cpu.pushesError s.1 := by decide +kernel

section Service

variable (l : Link) (vector : Byte) (dummy : Bool) (error : Option Word) (c : Cpu) (known : (vector, dummy) ∈ isrStubs)
  (coded : error.isSome = Cpu.pushesError vector)

def frame (l : Link) (vector : Byte) (error : Option Word) (c : Cpu) : List Word :=
  [c.eflags, c.cs.setWidth 32, c.eip, error.getD 0, vector.setWidth 32, c.eax, c.ecx, c.edx, c.ebx, c.esp - 20, c.ebp, c.esi, c.edi, l.back]

include known coded

theorem enter_eq : enter l vector dummy error c = { c.pushAll (frame l vector error c) with
    eip := l.isrHandler, cs := 0x08, eflags := (c.eflags &&& ~~~0x00034300) &&& ~~~Cpu.EFLAGS_IF } := by
  have balanced := stubs_balanced (vector, dummy) known
  have five : [c.eflags, c.cs.setWidth 32, c.eip] ++ error.toList ++ (if dummy then [0, vector.setWidth 32] else [vector.setWidth 32]) =
      [c.eflags, c.cs.setWidth 32, c.eip, error.getD 0, vector.setWidth 32] := by
    rw [← coded] at balanced
    cases error with
    | none =>
        obtain rfl : dummy = true := balanced
        rfl
    | some code =>
        obtain rfl : dummy = false := balanced
        rfl
  have stubbed : (stub vector dummy (c.interrupt error)).cli = { c.pushAll [c.eflags, c.cs.setWidth 32, c.eip, error.getD 0, vector.setWidth 32] with
      cs := 0x08, eflags := (c.eflags &&& ~~~0x00034300) &&& ~~~Cpu.EFLAGS_IF } := by
    rw [stub, Cpu.interrupt, push_all_flags, push_all_append, five, Cpu.cli]
  have called (b : Cpu) : b.call l.isrHandler l.back = { b.pushAll [l.back] with eip := l.isrHandler } := rfl
  rw [enter, stubbed, pushal_flags, called, push_all_flags, push_all_append]
  rfl

theorem enter_esp : (enter l vector dummy error c).esp = c.esp - 56 := by
  rw [enter_eq l vector dummy error c known coded, push_all_eq]
  rfl

theorem enter_other (room : 56 ≤ c.esp.toNat) (x : Word) (outside : x.toNat + 56 < c.esp.toNat ∨ c.esp.toNat ≤ x.toNat) :
    (enter l vector dummy error c).mem x = c.mem x := by
  rw [enter_eq l vector dummy error c known coded, push_all_eq]
  exact pushes_other c.mem c.esp (frame l vector error c) x room outside

theorem enter_regs (room : 56 ≤ c.esp.toNat) : regsAt (enter l vector dummy error c).mem (c.esp - 52) = saved vector error c := by
  have word (k : Nat) (value : Word) (place : (frame l vector error c)[k]? = some value) :
      (enter l vector dummy error c).mem.read (c.esp - BitVec.ofNat 32 (4 * (k + 1))) = value := by
    rw [enter_eq l vector dummy error c known coded, push_all_eq]
    exact pushes_read c.mem c.esp (frame l vector error c) room k value place
  have at' (a : Word) (k : Nat) (value : Word) (same : a = c.esp - BitVec.ofNat 32 (4 * (k + 1)))
      (place : (frame l vector error c)[k]? = some value) : (enter l vector dummy error c).mem.read a = value :=
    same ▸ word k value place
  rw [regsAt, saved]
  congr 1
  · exact at' _ 12 _ (by bv_omega) rfl
  · exact at' _ 11 _ (by bv_omega) rfl
  · exact at' _ 10 _ (by bv_omega) rfl
  · exact at' _ 9 _ (by bv_omega) rfl
  · exact at' _ 8 _ (by bv_omega) rfl
  · exact at' _ 7 _ (by bv_omega) rfl
  · exact at' _ 6 _ (by bv_omega) rfl
  · exact at' _ 5 _ (by bv_omega) rfl
  · exact at' _ 4 _ (by bv_omega) rfl
  · exact at' _ 3 _ (by bv_omega) rfl
  · exact at' _ 2 _ (by bv_omega) rfl
  · exact at' _ 1 _ (by bv_omega) rfl
  · exact at' _ 0 _ (by bv_omega) rfl

end Service

theorem leave_eq (c : Cpu) : leave c = restored c (regsAt c.mem c.esp) (c.esp + 52) := by
  have popped : c.popal = { c with
      edi := c.mem.read c.esp, esi := c.mem.read (c.esp + 4), ebp := c.mem.read (c.esp + 8), ebx := c.mem.read (c.esp + 16),
      edx := c.mem.read (c.esp + 20), ecx := c.mem.read (c.esp + 24), eax := c.mem.read (c.esp + 28), esp := c.esp + 32 } := by
    simp only [Cpu.popal, Cpu.pop, BitVec.add_assoc, BitVec.reduceAdd]
    rfl
  have returned (b : Cpu) : b.iret = { b with
      eip := b.mem.read b.esp, cs := (b.mem.read (b.esp + 4)).setWidth 16, eflags := b.mem.read (b.esp + 8), esp := b.esp + 12 } := by
    simp only [Cpu.iret, Cpu.pop, BitVec.add_assoc, BitVec.reduceAdd]
    rfl
  rw [leave, popped, Cpu.sti, returned]
  simp only [restored, regsAt, BitVec.add_assoc, BitVec.reduceAdd]
  rfl

theorem regs_congr (m m' : Mem) (a : Word) (same : ∀ x : Word, (x - a).toNat < 52 → m' x = m x) : regsAt m' a = regsAt m a := by
  have word (i : Word) (inside : i.toNat ≤ 48) : m'.read (a + i) = m.read (a + i) :=
    read_congr _ _ _ (fun x near => same x (by bv_omega))
  have first : m'.read a = m.read a := read_congr _ _ _ (fun x near => same x (by omega))
  simp only [regsAt, first, word 4 (by decide), word 8 (by decide), word 12 (by decide), word 16 (by decide), word 20 (by decide),
    word 24 (by decide), word 28 (by decide), word 32 (by decide), word 36 (by decide), word 40 (by decide), word 44 (by decide),
    word 48 (by decide)]

theorem leave_unchanged (l : Link) (vector : Byte) (dummy : Bool) (error : Option Word) (c d : Cpu) (known : (vector, dummy) ∈ isrStubs)
    (coded : error.isSome = Cpu.pushesError vector) (room : 56 ≤ c.esp.toNat) (returned : d.esp = c.esp - 52)
    (kept : ∀ x : Word, c.esp.toNat ≤ x.toNat + 52 → x.toNat < c.esp.toNat → d.mem x = (enter l vector dummy error c).mem x) :
    leave d = { c with mem := d.mem } := by
  have same : regsAt d.mem (c.esp - 52) = saved vector error c := by
    rw [← enter_regs l vector dummy error c known coded room]
    exact regs_congr _ _ _ (fun x near => kept x (by bv_omega) (by bv_omega))
  have cs : (c.cs.setWidth 32).setWidth 16 = c.cs := BitVec.setWidth_setWidth_of_le c.cs (by decide)
  have esp : c.esp - 52 + 52 = c.esp := BitVec.sub_add_cancel c.esp 52
  rw [leave_eq, returned, same]
  simp only [restored, saved, cs, esp]

-- Code that runs down to floor on a stack below top, and the interrupts that
-- come while it does. Each runs code in the same way, on the stack below its
-- regs_t, and other interrupts may come meanwhile.
inductive Nested (l : Link) (code : Cpu → Cpu → Prop) (top : Nat) : Nat → Cpu → Cpu → Prop
  | start (floor : Nat) (c : Cpu) (low : c.esp.toNat ≤ floor) : Nested l code top floor c c
  | code (floor : Nat) (c d e : Cpu) (before : Nested l code top floor c d) (step : code d e) (low : e.esp.toNat ≤ floor)
      (kept : ∀ x : Word, floor ≤ x.toNat → x.toNat < top → e.mem x = d.mem x) : Nested l code top floor c e
  | interrupt (floor : Nat) (c d e : Cpu) (before : Nested l code top floor c d) (vector : Byte) (dummy : Bool) (error : Option Word)
      (known : (vector, dummy) ∈ isrStubs) (coded : error.isSome = Cpu.pushesError vector) (room : 56 ≤ d.esp.toNat)
      (served : Nested l code top (d.esp.toNat - 52) (enter l vector dummy error d) e) (returned : e.esp = d.esp - 52) :
      Nested l code top floor c (leave e)

-- From the code's point of view the memory has changed meanwhile, but not its stack.
def Meanwhile (top : Nat) (c d : Cpu) : Prop :=
  ∃ m, d = { c with mem := m } ∧ ∀ x : Word, c.esp.toNat ≤ x.toNat → x.toNat < top → m x = c.mem x

-- Code that is interrupted, as often and as deep as may be, does what it does
-- on its own, and only finds the memory changed in between.
theorem interrupts_transparent (l : Link) (code : Cpu → Cpu → Prop) (top floor : Nat) (c e : Cpu) (fits : floor ≤ top)
    (run : Nested l code top floor c e) :
    Relation.ReflTransGen (fun c d => code c d ∨ Meanwhile top c d) c e ∧ e.esp.toNat ≤ floor ∧
      ∀ x : Word, floor ≤ x.toNat → x.toNat < top → e.mem x = c.mem x := by
  induction run with
  | start floor c low => exact ⟨.refl, low, fun x _ _ => rfl⟩
  | code floor c d e _ step low kept ih =>
      obtain ⟨steps, -, same⟩ := ih fits
      exact ⟨steps.tail (.inl step), low, fun x above below => (kept x above below).trans (same x above below)⟩
  | interrupt floor c d e _ vector dummy error known coded room _ returned before served =>
      obtain ⟨steps, low, same⟩ := before fits
      obtain ⟨-, -, kept⟩ := served (by omega)
      have resumed := leave_unchanged l vector dummy error d e known coded room returned (fun x above below => kept x (by omega) (by omega))
      have stack : ∀ x : Word, d.esp.toNat ≤ x.toNat → x.toNat < top → e.mem x = d.mem x := fun x above below =>
        (kept x (by omega) below).trans (enter_other l vector dummy error d known coded room x (.inr above))
      rw [resumed]
      exact ⟨steps.tail (.inr ⟨e.mem, rfl, stack⟩), low, fun x above below => (stack x (by omega) below).trans (same x above below)⟩

theorem interrupts_transparent_at_timer : ∃ l c, c.esp = 0x8000 ∧
    Nested l (fun c d => d = c.ret) 0x9000 0x8000 c (leave (enter l 32 true none c).ret) ∧
    Relation.ReflTransGen (fun c d => d = c.ret ∨ Meanwhile 0x9000 c d) c (leave (enter l 32 true none c).ret) := by
  obtain ⟨l, c, start⟩ : ∃ (_ : Link) (c : Cpu), c.esp = 0x8000 :=
    ⟨⟨0xC0101000, 0xC0100010⟩, ⟨1, 2, 3, 4, 0x8000, 5, 6, 7, 0xC0102000, 0x08, 0x202, fun _ => 0⟩, rfl⟩
  have known : ((32 : Byte), true) ∈ isrStubs := by decide
  have esp : (enter l 32 true none c).esp = 0x7FC8 := (enter_esp l 32 true none c known rfl).trans (by rw [start]; decide)
  have back : (enter l 32 true none c).ret.esp = 0x7FCC := congrArg (· + 4) esp
  have entered : Nested l (fun c d => d = c.ret) 0x9000 (c.esp.toNat - 52) (enter l 32 true none c) (enter l 32 true none c) :=
    .start _ _ (by rw [esp, start]; decide)
  have served := entered.code _ _ _ _ rfl (by rw [back, start]; decide) (fun _ _ _ => rfl)
  have run : Nested l (fun c d => d = c.ret) 0x9000 0x8000 c (leave (enter l 32 true none c).ret) :=
    .interrupt _ _ _ _ (.start _ _ (by rw [start]; decide)) 32 true none known rfl (by rw [start]; decide) served (by rw [back, start]; decide)
  exact ⟨l, c, start, run, (interrupts_transparent l _ _ _ _ _ (by decide) run).1⟩

end Deimos.Arch
