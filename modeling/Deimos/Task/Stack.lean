import Deimos.Task.Model
import Deimos.Kalloc.Run

set_option autoImplicit false

namespace Deimos.Task

open Mem Comp Kalloc Run

theorem task_field_far (f g : TaskField) (other : g ≠ f) : 4 ≤ (g.offset - f.offset).toNat := by
  revert other
  cases f <;> cases g <;> decide

theorem load_store_task (m : Mem) (t value : Word) (f g : TaskField) :
    loadTask (storeTask m t f value) t g = if g = f then value else loadTask m t g := by
  by_cases same : g = f
  · subst g
    rw [if_pos rfl]
    exact read_write_same m (t + f.offset) value
  · rw [if_neg same]
    have far := task_field_far f g same
    have near := task_field_far g f (Ne.symm same)
    apply read_write_apart
    constructor <;> bv_omega

theorem store_task_other (m : Mem) (t value x : Word) (f : TaskField) (off : taskSize.toNat ≤ (x - t).toNat) :
    storeTask m t f value x = m x := by
  apply write_other
  have outside : 48 ≤ (x - t).toNat := off
  cases f <;> simp only [TaskField.offset] <;> bv_omega

theorem store_task_read (m : Mem) (t value a : Word) (f : TaskField) (apart : Apart t 48 a 4) :
    (storeTask m t f value).read a = m.read a := by
  have inside : f.offset.toNat + 4 ≤ 48 := by cases f <;> decide
  exact read_write_apart _ _ _ _ (by simpa using apart.offset f.offset 0 4 4 inside (by decide) (by decide) (by decide))

theorem init_task_other (m : Mem) (t pid currentPd x : Word) (off : taskSize.toNat ≤ (x - t).toNat) :
    initTask m t pid currentPd x = m x := by
  simp only [initTask, store_task_other, off]

@[simp] theorem push_sp (value : Word) (s : Stack) : (push value s).sp = s.sp - 4 := rfl

@[simp] theorem push_pushed (value : Word) (s : Stack) : (push value s).pushed = s.pushed ++ [s.sp - 4] := rfl

theorem fill_stack_pushed (m : Mem) (t esp schedKill : Word) :
    (fillStack m t esp schedKill).sp = esp - 64 ∧
      (fillStack m t esp schedKill).pushed = (List.range 16).map (fun k => esp - 4 - 4 * BitVec.ofNat 32 k) := by
  constructor
  · simp only [fillStack, push_sp]
    bv_omega
  · simp only [fillStack, push_sp, push_pushed, List.nil_append, List.cons_append, List.range, List.range.loop, List.map_cons,
      List.map_nil, List.cons.injEq, and_true]
    simp [BitVec.sub_sub]

theorem push_keeps (value esp : Word) (s : Stack) (low : 4 ≤ (esp - s.sp).toNat) (high : (esp - s.sp).toNat ≤ 60) :
    (push value s).mem.read (esp - 4) = s.mem.read (esp - 4) := by
  apply read_write_apart
  constructor <;> bv_omega

theorem fill_stack_first (m : Mem) (t esp schedKill : Word) : (fillStack m t esp schedKill).mem.read (esp - 4) = 0x202 := by
  simp only [fillStack]
  iterate 15 rw [push_keeps]
  · exact read_write_same _ _ _
  all_goals
    simp only [push_sp, BitVec.sub_sub, BitVec.ofNat_eq_ofNat, BitVec.reduceAdd]
    bv_omega

structure StackAt (k : Kernel) (t esp : Word) : Prop where
  top : esp = k.block + 0x10000
  pushed : k.pushed = (List.range 16).map (fun i => esp - 4 - 4 * BitVec.ofNat 32 i)
  storedEsp : loadTask k.heap.mem t .esp = esp - 64
  storedEbp : loadTask k.heap.mem t .ebp = esp

def stackKernel (k : Kernel) (t p : Word) (h : Heap) : Kernel :=
  let esp := wordPointerAdd p STACK_SIZE
  let s := fillStack (storeTask h.mem t .stack p) t esp k.schedKill
  let m := storeTask s.mem t .esp s.sp
  { k with heap := { h with mem := storeTask m t .ebp esp }, block := p, pushed := s.pushed }

def madeKernel (k : Kernel) (t p : Word) (h : Heap) : Kernel :=
  let k := stackKernel { k with nPid := k.nPid + 1 } t p h
  let m := storeTask k.heap.mem t .nextTask 0
  { k with heap := { k.heap with mem := storeTask m t .sleepTicks 0 } }

inductive Makes (k : Kernel) : Word → Kernel → Prop where
  | noTask (h : Heap) (first : (kmalloc taskSize k.heap).Returns (0, h)) : Makes k 0 { k with heap := h }
  | noStack (t : Word) (h₁ h₂ h₃ : Heap) (created : t ≠ 0) (first : (kmalloc taskSize k.heap).Returns (t, h₁))
      (second : (kmallocA STACK_SIZE { h₁ with mem := initTask h₁.mem t k.nPid k.currentPd }).Returns (0, h₂))
      (freed : kfree t { h₂ with mem := storeTask h₂.mem t .stack 0 } = .ok h₃) : Makes k 0 { k with heap := h₃, nPid := k.nPid + 1 }
  | made (t p : Word) (h₁ h₂ : Heap) (created : t ≠ 0) (stacked : p ≠ 0) (first : (kmalloc taskSize k.heap).Returns (t, h₁))
      (second : (kmallocA STACK_SIZE { h₁ with mem := initTask h₁.mem t k.nPid k.currentPd }).Returns (p, h₂)) :
      Makes k t (madeKernel k t p h₂)

theorem new_task_makes (k k' : Kernel) (t : Word) (returned : (newTask k).Returns (t, k')) : Makes k t k' := by
  obtain ⟨⟨t', h₁⟩, first, rest⟩ := (returns_bind _ _ _).mp returned
  by_cases null : t' = 0
  · subst null
    cases (ends_pure _ _).mp rest
    exact .noTask h₁ first
  · simp only [if_neg null] at rest
    obtain ⟨⟨ready, k₁⟩, set, rest⟩ := (returns_bind _ _ _).mp rest
    obtain ⟨⟨p, h₂⟩, second, left⟩ := (returns_bind _ _ _).mp set
    by_cases none : p = 0
    · subst none
      cases (ends_pure _ _).mp left
      obtain ⟨h₃, freed, rest⟩ := (returns_bind _ _ _).mp rest
      cases (ends_pure _ _).mp rest
      exact .noStack t' h₁ h₂ h₃ null first second ((ends_lift _ _).mp freed).symm
    · simp only [if_neg none, load_store_task, if_true] at left
      cases (ends_pure _ _).mp left
      cases (ends_pure _ _).mp rest
      exact .made t p h₁ h₂ null none first second

theorem new_task_at (k k' : Kernel) (t : Word) (returned : (newTask k).Returns (t, k')) (created : t ≠ 0) :
    ∃ esp, StackAt k' t esp := by
  cases new_task_makes k k' t returned with
  | noTask => exact absurd rfl created
  | noStack => exact absurd rfl created
  | made t p h₁ h₂ =>
      obtain ⟨sp, pushed⟩ := fill_stack_pushed (storeTask h₂.mem t .stack p) t (wordPointerAdd p STACK_SIZE) k.schedKill
      refine ⟨wordPointerAdd p STACK_SIZE, rfl, pushed, ?_, ?_⟩
      · simpa [madeKernel, stackKernel, load_store_task] using sp
      · simp [madeKernel, stackKernel, load_store_task]

theorem new_task_serves (k : Kernel) (t block : Word) (h1 h2 : Heap) (created : t ≠ 0) (stacked : block ≠ 0)
    (first : (kmalloc taskSize k.heap).Returns (t, h1))
    (second : (kmallocA STACK_SIZE { h1 with mem := initTask h1.mem t k.nPid k.currentPd }).Returns (block, h2)) :
    (newTask k).Returns (t, madeKernel k t block h2) ∧ ∀ a, Apart t 48 a 4 → (madeKernel k t block h2).heap.mem.read a =
      (fillStack (storeTask h2.mem t .stack block) t (block + 0x10000) k.schedKill).mem.read a := by
  constructor
  · have set : (setupStack t { k with heap := { h1 with mem := initTask h1.mem t k.nPid k.currentPd }, nPid := k.nPid + 1 }).Returns
        (true, stackKernel { k with nPid := k.nPid + 1 } t block h2) := by
      refine (returns_bind _ _ _).mpr ⟨(block, h2), second, ?_⟩
      simp only [if_neg stacked, load_store_task, if_true]
      exact (ends_pure _ _).mpr rfl
    refine (returns_bind _ _ _).mpr ⟨(t, h1), first, ?_⟩
    simp only [if_neg created]
    exact (returns_bind _ _ _).mpr ⟨_, set, (ends_pure _ _).mpr rfl⟩
  · intro a apart
    simp only [madeKernel, stackKernel, store_task_read _ _ _ a _ apart]
    rfl

theorem hole_state (n q : Word) (b₁ c₁ b₂ c₂ : Block) (fit : Block.Fits (roundSize n) ⟨0xC0200000, 0x200000, false⟩)
    (placed : Block.place false (roundSize n) ⟨0xC0200000, 0x200000, false⟩ = [b₁, c₁]) (fit' : c₁.Fits (roundSize q))
    (placed' : c₁.place false (roundSize q) = [b₂, c₂]) (used : b₁.allocated = true) (used' : b₂.allocated = true)
    (nonzero : n ≠ 0) (nonzero' : q ≠ 0) (small : n.toNat ≤ 0x200000) (small' : q.toNat ≤ 0x200000)
    (first : b₁.payload = 0xC0200014) (second : c₁.payload = b₂.payload) (apart : (0xC0200014 : Word) ≠ b₂.payload) (nonnull : b₂.payload ≠ 0) :
    ∃ s r, kheapInit 0xC0200000 0x200000 (fun _ => 0) = .ok s ∧ Runs 0x200000 s r ∧ r.live = [⟨b₂.payload, q, false⟩] ∧
      WellFormed 0xC0200000 0xC0400000 r.heap [b₁.tag false, b₂, c₂] := by
  obtain ⟨s, init⟩ := kheap_init_ok 0xC0200000 0x200000 (fun _ => 0) (by decide)
  have fresh : WellFormed 0xC0200000 0xC0400000 s [⟨0xC0200000, 0x200000, false⟩] :=
    kheap_init_list 0xC0200000 0x200000 _ s init (by decide) (by decide)
  obtain ⟨s1, taken, allocates⟩ := kmalloc_int_serves n false [] [] ⟨0xC0200000, 0x200000, false⟩ fresh nonzero (by simp) fit (by simp)
  have one := allocates.after
  rw [placed] at one
  have busy : ¬ b₁.Fits (roundSize q) := fun fits => absurd (used.symm.trans fits.1) (by decide)
  obtain ⟨s2, taken', allocates'⟩ := kmalloc_int_serves q false [b₁] [] c₁ one nonzero' (by simpa using busy) fit' (by simp)
  have two := allocates'.after
  rw [placed'] at two
  obtain ⟨m, freed, three, _⟩ := kfree_list 0xC0200000 0xC0400000 s2 [] [b₂, c₂] b₁ two (by rw [first]; decide)
  rw [freeBlock, joinNext, used', if_pos rfl] at three
  rw [first] at freed
  rw [show c₁.pointer false = b₂.payload from second] at taken'
  have run1 : Runs 0x200000 s ⟨s1, [⟨0xC0200014, n, false⟩]⟩ := .single (.kmalloc (.initial s) n 0xC0200014 s1 small taken)
  have kept : keep false q b₂.payload [⟨0xC0200014, n, false⟩] = [⟨b₂.payload, q, false⟩, ⟨0xC0200014, n, false⟩] := if_neg nonnull
  have run2 : Runs 0x200000 s ⟨s2, [⟨b₂.payload, q, false⟩, ⟨0xC0200014, n, false⟩]⟩ :=
    run1.tail (kept ▸ .kmalloc ⟨s1, _⟩ q b₂.payload s2 small' taken')
  have dropped : drop 0xC0200014 [⟨b₂.payload, q, false⟩, ⟨0xC0200014, n, false⟩] = [⟨b₂.payload, q, false⟩] := by
    rw [drop, List.filter_cons_of_pos (by simpa using apart.symm), List.filter_cons_of_neg (by simp), List.filter_nil]
  exact ⟨s, ⟨_, [⟨b₂.payload, q, false⟩]⟩, init, run2.tail (dropped ▸ .kfree ⟨s2, _⟩ 0xC0200014 _ (.inr (by simp)) freed), rfl, three⟩

theorem overwrite_state : ∃ s r, kheapInit 0xC0200000 0x200000 (fun _ => 0) = .ok s ∧ Runs 0x200000 s r ∧
    r.live = [⟨0xC0208028, 0x10000, false⟩] ∧
    WellFormed 0xC0200000 0xC0400000 r.heap
      [⟨0xC0200000, 0x8014, false⟩, ⟨0xC0208014, 0x10014, true⟩, ⟨0xC0218028, 0x1E7FD8, false⟩] :=
  hole_state 0x8000 0x10000 ⟨0xC0200000, 0x8014, true⟩ ⟨0xC0208014, 0x1F7FEC, false⟩ ⟨0xC0208014, 0x10014, true⟩ ⟨0xC0218028, 0x1E7FD8, false⟩
    (by decide) (by decide) (by decide) (by decide) rfl rfl (by decide) (by decide) (by decide) (by decide) (by decide) rfl (by decide) (by decide)

theorem hole_serves (k : Kernel) (n : Word) (cs : List Block) (c : Block) (list : WellFormed 0xC0200000 0xC0400000 k.heap (⟨0xC0200000, n, false⟩ :: cs))
    (fit : Block.Fits (roundSize taskSize) ⟨0xC0200000, n, false⟩)
    (placed : Block.place false (roundSize taskSize) ⟨0xC0200000, n, false⟩ = [⟨0xC0200000, 68, true⟩, c])
    (fit' : c.Fits (roundSize STACK_SIZE)) (room : true = true → ¬ c.Stuck (roundSize STACK_SIZE) ∧ c.Splits (roundSize STACK_SIZE))
    (pointer : c.pointer true = 0xC0201000) :
    ∃ (h2 : Heap) (k' : Kernel), (newTask k).Returns (0xC0200014, k') ∧ ∀ a, Apart 0xC0200014 48 a 4 → k'.heap.mem.read a =
      (fillStack (storeTask h2.mem 0xC0200014 .stack 0xC0201000) 0xC0200014 (0xC0201000 + 0x10000) k.schedKill).mem.read a := by
  obtain ⟨h1, first, allocates⟩ := kmalloc_int_serves taskSize false [] cs _ list (by decide) (by simp) fit (by simp)
  have one := allocates.after
  rw [placed] at one
  have two := one.rewrite (initTask h1.mem 0xC0200014 k.nPid k.currentPd) (fun c member x near => init_task_other _ _ _ _ x
    (one.payload_clear ⟨0xC0200000, 68, true⟩ c (by simp) member 48 (by decide) x near))
  obtain ⟨h2, second, -⟩ := kmalloc_int_serves STACK_SIZE true [⟨0xC0200000, 68, true⟩] cs c two (by decide) (by decide) fit' room
  rw [pointer] at second
  exact ⟨h2, _, new_task_serves k 0xC0200014 0xC0201000 h1 h2 (by decide) (by decide) first second⟩

theorem overwrite_run : ∃ s r k t k', kheapInit 0xC0200000 0x200000 (fun _ => 0) = .ok s ∧ Runs 0x200000 s r ∧
    r.live = [⟨0xC0208028, 0x10000, false⟩] ∧ k.heap = { r.heap with mem := r.heap.mem.write 0xC0210FFC 0x12345678 } ∧
    (newTask k).Returns (t, k') ∧ t ≠ 0 ∧
    k.heap.mem.read 0xC0210FFC = 0x12345678 ∧ k'.heap.mem.read 0xC0210FFC = 0x202 := by
  obtain ⟨s, r, init, run, live, list⟩ := overwrite_state
  -- The owner of the live block writes a word of its payload.
  have owned : ∀ c ∈ ([⟨0xC0200000, 0x8014, false⟩, ⟨0xC0208014, 0x10014, true⟩, ⟨0xC0218028, 0x1E7FD8, false⟩] : List Block),
      ∀ x : Word, (x - c.addr).toNat < 20 → r.heap.mem.write 0xC0210FFC 0x12345678 x = r.heap.mem x := by
    intro c member x near
    have clear := list.payload_clear ⟨0xC0208014, 0x10014, true⟩ c (by simp) member 0x10000 (by decide) x near
    apply write_other
    simp only [Block.payload, headerSize] at clear
    bv_omega
  have ready := list.rewrite _ owned
  obtain ⟨h2, k', returned, words⟩ := hole_serves ⟨{ r.heap with mem := r.heap.mem.write 0xC0210FFC 0x12345678 }, 0, 0, 0, 0, []⟩
    0x8014 _ ⟨0xC0200044, 0x7FD0, false⟩ ready (by decide) rfl (by decide) (fun _ => by decide) (by decide)
  have top : k'.heap.mem.read 0xC0210FFC = 0x202 := by
    rw [words 0xC0210FFC (by constructor <;> decide)]
    exact fill_stack_first _ _ 0xC0211000 _
  exact ⟨s, r, _, _, k', init, run, live, rfl, returned, by decide, read_write_same _ _ _, top⟩

def Within (block a : Word) (n : Nat) : Prop := (a - block).toNat + n ≤ STACK_SIZE.toNat

-- What the stack of a new task should look like: every pushed word and both
-- registers inside the block kmalloc_a(STACK_SIZE) returned.
structure StackInside (k : Kernel) (t : Word) : Prop where
  words : ∀ a ∈ k.pushed, Within k.block a 4
  esp : Within k.block (loadTask k.heap.mem t .esp) 0
  ebp : Within k.block (loadTask k.heap.mem t .ebp) 0

theorem StackAt.outside (k : Kernel) (t esp : Word) (stack : StackAt k t esp) :
    (∀ a ∈ k.pushed, ¬ Within k.block a 4) ∧ ¬ Within k.block (loadTask k.heap.mem t .esp) 0 ∧
      ¬ Within k.block (loadTask k.heap.mem t .ebp) 0 := by
  have top := stack.top
  refine ⟨?_, ?_, ?_⟩
  · intro a member
    rw [stack.pushed] at member
    obtain ⟨i, less, rfl⟩ := List.mem_map.mp member
    have small := List.mem_range.mp less
    simp only [Within, STACK_SIZE]
    bv_omega
  · rw [stack.storedEsp]
    simp only [Within, STACK_SIZE]
    bv_omega
  · rw [stack.storedEbp]
    simp only [Within, STACK_SIZE]
    bv_omega

-- stack is a pointer to unsigned int, so stack + STACK_SIZE lies 0x10000 bytes
-- above the block and nothing of the initial frame is inside it.
theorem new_task_stack_outside (k k' : Kernel) (t : Word) (returned : (newTask k).Returns (t, k')) (created : t ≠ 0) :
    ¬ StackInside k' t := by
  obtain ⟨esp, stack⟩ := new_task_at k k' t returned created
  exact fun inside => (stack.outside k' t esp).2.2 inside.ebp

theorem new_task_stack_outside_at_hole : ∃ k t k', (newTask k).Returns (t, k') ∧ ¬ StackInside k' t := by
  obtain ⟨_, _, k, t, k', _, _, _, _, returned, created, _⟩ := overwrite_run
  exact ⟨k, t, k', returned, new_task_stack_outside k k' t returned created⟩

theorem new_task_overwrites : ∃ s r k t k', kheapInit 0xC0200000 0x200000 (fun _ => 0) = .ok s ∧ Runs 0x200000 s r ∧
    r.live = [⟨0xC0208028, 0x10000, false⟩] ∧ k.heap = { r.heap with mem := r.heap.mem.write 0xC0210FFC 0x12345678 } ∧
    (newTask k).Returns (t, k') ∧ t ≠ 0 ∧ ¬ StackInside k' t ∧
    k.heap.mem.read 0xC0210FFC = 0x12345678 ∧ k'.heap.mem.read 0xC0210FFC = 0x202 := by
  obtain ⟨s, r, k, t, k', init, run, live, owned, returned, created, before, after⟩ := overwrite_run
  obtain ⟨esp, stack⟩ := new_task_at k k' t returned created
  exact ⟨s, r, k, t, k', init, run, live, owned, returned, created, fun inside => (stack.outside k' t esp).2.2 inside.ebp, before, after⟩

end Deimos.Task
