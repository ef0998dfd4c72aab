import Deimos.Arch.Descriptors

set_option autoImplicit false

namespace Deimos.Arch

open Fields

-- The processor on its own: which segment a selector names, and where an
-- interrupt goes.
def Segment.top (d : Segment) : Nat := if d.flags.getLsbD 3 then d.limit.toNat * 4096 + 4095 else d.limit.toNat

def Segment.code (d : Segment) : Bool := field 1 7 d.access == 1 && field 2 3 d.access == 3

def Segment.writable (d : Segment) : Bool := field 1 7 d.access == 1 && field 2 3 d.access == 2 && field 1 1 d.access == 1

def Gate.interrupt (g : Gate) : Bool := field 1 7 g.flags == 1 && field 5 0 g.flags == 0x0E

def segmentAt (s : State) (selector : Half) : Option Segment :=
  if index : 0 < (field 13 3 selector).toNat ∧ (field 13 3 selector).toNat < GDT_NUM_ENTRIES then
    if s.gdtr.offset = s.gdtAt ∧ (field 13 3 selector).toNat * 8 + 7 ≤ s.gdtr.size.toNat ∧ field 1 2 selector = 0 then
      some (s.gdt ⟨(field 13 3 selector).toNat, index.2⟩).segment
    else none
  else none

def gateAt (s : State) (interrupt : Byte) : Option Gate :=
  if s.idtr.offset = s.idtAt ∧ interrupt.toNat * 8 + 7 ≤ s.idtr.size.toNat then some (s.idt interrupt).gate else none

def target (s : State) (g : Gate) : Option Word :=
  if g.interrupt then
    (segmentAt s g.selector).bind (fun d => if d.code && decide (g.offset.toNat ≤ d.top) then some (d.base + g.offset) else none)
  else none

def vector (s : State) (interrupt : Byte) : Option Word := (gateAt s interrupt).bind (target s)

-- What the two calls mean: a function that an interrupt goes to, if any.
abbrev Vectors := Byte → Option Word

def Op.meant : Op → Vectors → Vectors
  | .idtRegisterIsr interrupt funcPtr, v => Function.update v interrupt (some funcPtr)
  | .idtClearIsr interrupt, v => Function.update v interrupt none

def run (ops : List Op) (s : State) : State := ops.foldl (fun s op => exec op s) s

def kernelCode : Segment := ⟨0, 0xFFFFF, 0x9A, 0xC⟩

structure Loaded (s : State) : Prop where
  segments : s.gdtr = ⟨0x27, s.gdtAt⟩
  gates : s.idtr = ⟨0x7FF, s.idtAt⟩
  code : (s.gdt 1).segment = kernelCode

def Kernel (s : State) : Prop := ∀ i, (s.idt i).gate.interrupt = true → (s.idt i).gate.selector = 0x08

section Step

variable (s : State) (interrupt : Byte) (e : IdtEntry) (funcPtr : Word)

theorem segment_of_index (selector : Half) (i : Fin GDT_NUM_ENTRIES) (index : (field 13 3 selector).toNat = i.val) (used : i ≠ 0)
    (loaded : s.gdtr = ⟨0x27, s.gdtAt⟩) (global : field 1 2 selector = 0) : segmentAt s selector = some (s.gdt i).segment := by
  have positive : 0 < i.val := Nat.pos_of_ne_zero (fun zero => used (Fin.ext zero))
  have inside : i.val < 5 := i.isLt
  have bound : i.val * 8 + 7 ≤ 0x27 := by omega
  have same : (⟨(field 13 3 selector).toNat, index ▸ i.isLt⟩ : Fin GDT_NUM_ENTRIES) = i := Fin.ext index
  rw [segmentAt, dif_pos ⟨index ▸ positive, index ▸ i.isLt⟩, loaded, if_pos ⟨rfl, index ▸ bound, global⟩, same]

theorem segment_found (selector : Half) (d : Segment) (found : segmentAt s selector = some d) : ∃ i, i ≠ 0 ∧ d = (s.gdt i).segment := by
  rw [segmentAt] at found
  split at found
  · rename_i index
    split at found
    · exact ⟨⟨_, index.2⟩, fun zero => Nat.ne_of_gt index.1 (congrArg Fin.val zero), (Option.some.inj found).symm⟩
    · cases found
  · cases found

theorem code_segment (loaded : Loaded s) : segmentAt s 0x08 = some kernelCode := by
  rw [segment_of_index s 0x08 1 (by decide) (by decide) loaded.segments (by decide), loaded.code]

theorem gate_of_loaded (loaded : Loaded s) : gateAt s interrupt = some (s.idt interrupt).gate := by
  have bound : interrupt.toNat * 8 + 7 ≤ 0x7FF := by omega
  rw [gateAt, loaded.gates, if_pos ⟨rfl, bound⟩]

theorem vector_of_loaded (loaded : Loaded s) : vector s interrupt = target s (s.idt interrupt).gate := by
  rw [vector, gate_of_loaded s interrupt loaded]
  rfl

theorem set_gate_same : (setGate interrupt e s).idt interrupt = e := by
  rw [setGate]
  exact Function.update_self _ _ _

theorem set_gate_other (i : Byte) (other : i ≠ interrupt) : (setGate interrupt e s).idt i = s.idt i := by
  rw [setGate]
  exact Function.update_of_ne other _ _

theorem set_gate_loaded (loaded : Loaded s) : Loaded (setGate interrupt e s) := ⟨loaded.segments, loaded.gates, loaded.code⟩

theorem vector_set_gate (loaded : Loaded s) :
    vector (setGate interrupt e s) = Function.update (vector s) interrupt (target s e.gate) := by
  have kept : target (setGate interrupt e s) = target s := rfl
  funext i
  rw [vector_of_loaded _ i (set_gate_loaded s interrupt e loaded), kept]
  by_cases here : i = interrupt
  · rw [here, Function.update_self, set_gate_same]
  · rw [Function.update_of_ne here, set_gate_other s interrupt e i here, vector_of_loaded s i loaded]

theorem target_registered (loaded : Loaded s) : target s (idtCreateEntry 0x08 funcPtr IDT_KERNEL_INT).gate = some funcPtr := by
  have kind : Gate.interrupt ⟨0x08, funcPtr, 0, IDT_KERNEL_INT⟩ = true := by
    change (field 1 7 IDT_KERNEL_INT == 1 && field 5 0 IDT_KERNEL_INT == 0x0E) = true
    decide
  have code : kernelCode.code = true := by decide
  have reach : funcPtr.toNat ≤ kernelCode.top := Nat.le_of_lt_succ funcPtr.isLt
  rw [idt_create_entry_gate, target, if_pos kind, code_segment s loaded, Option.bind_some, code, decide_eq_true reach, Bool.and_self, if_pos rfl]
  exact congrArg some (BitVec.zero_add funcPtr)

theorem exec_loaded (op : Op) (loaded : Loaded s) : Loaded (exec op s) := by
  cases op with
  | idtRegisterIsr interrupt funcPtr => exact set_gate_loaded s _ _ loaded
  | idtClearIsr interrupt => exact set_gate_loaded s _ _ loaded

theorem set_gate_kernel (kernel : Kernel s) (own : e.gate.interrupt = true → e.gate.selector = 0x08) : Kernel (setGate interrupt e s) := by
  intro i
  by_cases here : i = interrupt
  · rw [here, set_gate_same]
    exact own
  · rw [set_gate_other s interrupt e i here]
    exact kernel i

theorem registered_kernel : (idtCreateEntry 0x08 funcPtr IDT_KERNEL_INT).gate.selector = 0x08 := by
  rw [idt_create_entry_gate]

theorem cleared_idle : (idtCreateEntry 0 0 IDT_KERNEL_NULL).gate.interrupt = false := by
  rw [idt_create_entry_gate]
  decide

theorem target_cleared : target s (idtCreateEntry 0 0 IDT_KERNEL_NULL).gate = none := by
  rw [target, cleared_idle]
  rfl

theorem exec_kernel (op : Op) (kernel : Kernel s) : Kernel (exec op s) := by
  cases op with
  | idtRegisterIsr interrupt funcPtr => exact set_gate_kernel s _ _ kernel (fun _ => registered_kernel funcPtr)
  | idtClearIsr interrupt => exact set_gate_kernel s _ _ kernel (fun present => absurd (cleared_idle.symm.trans present) (by decide))

theorem vector_exec (op : Op) (loaded : Loaded s) : vector (exec op s) = op.meant (vector s) := by
  cases op with
  | idtRegisterIsr interrupt funcPtr =>
      have set := vector_set_gate s interrupt (idtCreateEntry 0x08 funcPtr IDT_KERNEL_INT) loaded
      rwa [target_registered s funcPtr loaded] at set
  | idtClearIsr interrupt =>
      have set := vector_set_gate s interrupt (idtCreateEntry 0 0 IDT_KERNEL_NULL) loaded
      rwa [target_cleared s] at set

end Step

theorem vector_run (ops : List Op) (s : State) (loaded : Loaded s) :
    Loaded (run ops s) ∧ vector (run ops s) = ops.foldl (fun v op => op.meant v) (vector s) := by
  induction ops generalizing s with
  | nil => exact ⟨loaded, rfl⟩
  | cons op ops ih =>
      have rest := ih (exec op s) (exec_loaded s op loaded)
      rw [vector_exec s op loaded] at rest
      exact rest

theorem kernel_run (ops : List Op) (s : State) (kernel : Kernel s) : Kernel (run ops s) := by
  induction ops generalizing s with
  | nil => exact kernel
  | cons op ops ih => exact ih (exec op s) (exec_kernel s op kernel)

section Boot

variable (s : State)

def installed : Fin GDT_NUM_ENTRIES → Segment
  | 0 => ⟨0, 0, 0, 0⟩
  | 1 => kernelCode
  | 2 => { kernelCode with access := 0x92 }
  | 3 => { kernelCode with access := 0xFA }
  | 4 => { kernelCode with access := 0xF2 }

theorem set_segment_same (i : Fin GDT_NUM_ENTRIES) (e : GdtEntry) : (setSegment i e s).gdt i = e := by
  rw [setSegment]
  exact Function.update_self _ _ _

theorem set_segment_other (i j : Fin GDT_NUM_ENTRIES) (e : GdtEntry) (other : i ≠ j) : (setSegment j e s).gdt i = s.gdt i := by
  rw [setSegment]
  exact Function.update_of_ne other _ _

theorem gdt_init_segments (i : Fin GDT_NUM_ENTRIES) : ((gdtInit s).gdt i).segment = installed i := by
  match i with
  | 0 | 1 | 2 | 3 | 4 =>
      simp (disch := decide) only [gdtInit, gdtLoad, set_segment_same, set_segment_other, gdt_create_entry_segment]
      decide

theorem gdt_init_flat (selector : Half) (d : Segment) (found : segmentAt (gdtInit s) selector = some d) :
    d.base = 0 ∧ ∀ a : Word, a.toNat ≤ d.top := by
  have shape : ∀ i, i ≠ 0 → (installed i).base = 0 ∧ (installed i).top = 0xFFFFFFFF := by decide
  obtain ⟨i, used, rfl⟩ := segment_found (gdtInit s) selector d found
  obtain ⟨base, top⟩ := shape i used
  rw [gdt_init_segments, base, top]
  exact ⟨rfl, fun a => Nat.le_of_lt_succ a.isLt⟩

theorem gdt_init_registers :
    (∃ d, segmentAt (gdtInit s) (gdtInit s).cs = some d ∧ d.code = true) ∧
      ∀ r ∈ [(gdtInit s).ds, (gdtInit s).es, (gdtInit s).fs, (gdtInit s).gs, (gdtInit s).ss],
        ∃ d, segmentAt (gdtInit s) r = some d ∧ d.writable = true := by
  have code : segmentAt (gdtInit s) 0x08 = some (installed 1) := by
    rw [segment_of_index (gdtInit s) 0x08 1 (by decide) (by decide) rfl (by decide), gdt_init_segments]
  have data : segmentAt (gdtInit s) 0x10 = some (installed 2) := by
    rw [segment_of_index (gdtInit s) 0x10 2 (by decide) (by decide) rfl (by decide), gdt_init_segments]
  refine ⟨⟨installed 1, code, by decide⟩, fun r member => ⟨installed 2, ?_, by decide⟩⟩
  have same : r = 0x10 := List.eq_of_mem_replicate (n := 5) member
  rw [same, data]

theorem set_gates (interrupts : List Byte) (e : Byte → IdtEntry) :
    interrupts.foldl (fun s i => setGate i (e i) s) s = { s with idt := fun i => if i ∈ interrupts then e i else s.idt i } := by
  induction interrupts generalizing s with
  | nil => simp
  | cons first rest ih =>
      rw [List.foldl_cons, ih]
      refine congrArg (fun idt => { s with idt := idt }) (funext fun i => ?_)
      by_cases here : i = first
      · rw [here, set_gate_same, ite_self, if_pos List.mem_cons_self]
      · rw [set_gate_other s first (e first) i here]
        simp [here]

theorem idt_init_state : idtInit s =
    { s with iptr := ⟨0x7FF, s.idtAt⟩, idtr := ⟨0x7FF, s.idtAt⟩, idt := fun _ => idtCreateEntry 0 0 IDT_KERNEL_NULL } := by
  have all : ∀ i : Byte, i ∈ (List.range IDT_NUM_ENTRIES).map (BitVec.ofNat 8) := fun i =>
    List.mem_map.mpr ⟨i.toNat, List.mem_range.mpr i.isLt, (BitVec.ofNat_toNat 8 i).trans (BitVec.setWidth_eq i)⟩
  have cleared : ∀ t : State, (List.range IDT_NUM_ENTRIES).foldl (fun t i => setGate (BitVec.ofNat 8 i) (idtCreateEntry 0 0 IDT_KERNEL_NULL) t) t =
      { t with idt := fun _ => idtCreateEntry 0 0 IDT_KERNEL_NULL } := by
    intro t
    refine (List.foldl_map.symm.trans (set_gates t _ (fun _ => idtCreateEntry 0 0 IDT_KERNEL_NULL))).trans ?_
    exact congrArg (fun idt => { t with idt := idt }) (funext fun i => if_pos (all i))
  rw [idtInit, cleared]
  rfl

def boot (s : State) : State := idtInit (gdtInit s)

theorem boot_loaded : Loaded (boot s) := by
  rw [boot, idt_init_state]
  exact ⟨rfl, rfl, gdt_init_segments s 1⟩

theorem boot_vector : vector (boot s) = fun _ => none := by
  have cleared : ∀ i, (boot s).idt i = idtCreateEntry 0 0 IDT_KERNEL_NULL := fun i => by rw [boot, idt_init_state]
  funext i
  rw [vector_of_loaded _ i (boot_loaded s), cleared, target_cleared]

theorem isr_init_state (wrapper : Byte → Word) : isrInit wrapper s =
    { s with idt := fun i => if i ∈ isrWrappers then idtCreateEntry 0x08 (wrapper i) IDT_KERNEL_INT else s.idt i } := by
  rw [isrInit]
  exact set_gates s isrWrappers (fun i => idtCreateEntry 0x08 (wrapper i) IDT_KERNEL_INT)

theorem isr_init_loaded (wrapper : Byte → Word) (loaded : Loaded s) : Loaded (isrInit wrapper s) := by
  rw [isr_init_state]
  exact ⟨loaded.segments, loaded.gates, loaded.code⟩

theorem isr_init_vector (wrapper : Byte → Word) (loaded : Loaded s) :
    vector (isrInit wrapper s) = fun i => if i ∈ isrWrappers then some (wrapper i) else vector s i := by
  have after := isr_init_loaded s wrapper loaded
  funext i
  rw [vector_of_loaded _ i after, vector_of_loaded s i loaded]
  by_cases member : i ∈ isrWrappers
  · have entry : (isrInit wrapper s).idt i = idtCreateEntry 0x08 (wrapper i) IDT_KERNEL_INT := by
      rw [isr_init_state]
      exact if_pos member
    rw [if_pos member, entry, target_registered _ _ after]
  · have entry : (isrInit wrapper s).idt i = s.idt i := by
      rw [isr_init_state]
      exact if_neg member
    have kept : target (isrInit wrapper s) = target s := by
      rw [isr_init_state]
      rfl
    rw [if_neg member, entry, kept]

theorem isr_init_kernel (wrapper : Byte → Word) : Kernel (isrInit wrapper (boot s)) := by
  intro i
  rw [isr_init_state]
  dsimp only
  split
  · exact fun _ => registered_kernel (wrapper i)
  · rw [boot, idt_init_state]
    exact fun present => absurd (cleared_idle.symm.trans present) (by decide)

end Boot

theorem vectors_of_calls (s : State) (wrapper : Byte → Word) (ops : List Op) :
    vector (run ops (isrInit wrapper (boot s))) =
      ops.foldl (fun v op => op.meant v) (fun i => if i ∈ isrWrappers then some (wrapper i) else none) ∧
    ∀ i g, gateAt (run ops (isrInit wrapper (boot s))) i = some g → g.interrupt = true →
      ∃ d, segmentAt (run ops (isrInit wrapper (boot s))) g.selector = some d ∧ d.code = true ∧ d.base = 0 ∧ ∀ a : Word, a.toNat ≤ d.top := by
  have loaded := isr_init_loaded (boot s) wrapper (boot_loaded s)
  obtain ⟨loaded', vectors⟩ := vector_run ops _ loaded
  have kernel := kernel_run ops _ (isr_init_kernel s wrapper)
  constructor
  · rw [vectors, isr_init_vector _ wrapper (boot_loaded s), boot_vector]
  · intro i g found present
    rw [gate_of_loaded _ i loaded'] at found
    obtain rfl := Option.some.inj found
    refine ⟨kernelCode, ?_, by decide, rfl, fun a => Nat.le_of_lt_succ a.isLt⟩
    rw [kernel i present, code_segment _ loaded']

end Deimos.Arch
