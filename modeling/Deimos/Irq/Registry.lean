import Deimos.Lib.Run
import Deimos.Irq.Chains

set_option autoImplicit false

namespace Deimos.Irq

open Comp LinkedQueue Run

-- The registry as a client sees it: for each entry of handlers, who is attached to it.
abbrev Lists := Nat → List Entry

abbrev slotOf (irq : Word) : Nat := (irq + 32).toNat

inductive Op where
  | requestIrq (irq id handler answer : Word)
  | releaseIrq (irq id : Word)
deriving DecidableEq, Repr

def Op.irq : Op → Word
  | .requestIrq irq _ _ _ => irq
  | .releaseIrq irq _ => irq

def Op.slot (op : Op) : Nat := slotOf op.irq

def exec : Op → State → Comp Stop (Word × State)
  | .requestIrq irq id handler answer, s => requestIrq irq id handler answer s
  | .releaseIrq irq id, s => do
      let s ← releaseIrq irq id s
      pure (0, s)

-- What a call that returns ret means for the lists.
def meant (ret : Word) : Op → Lists → Lists
  | .requestIrq irq id handler _, lists =>
      if ret = 0 then Function.update lists (slotOf irq) (lists (slotOf irq) ++ [(id, handler)]) else lists
  | .releaseIrq irq id, lists => Function.update lists (slotOf irq) ((lists (slotOf irq)).eraseP (·.1 = id))

-- IRQ 2 is for PIC chaining.
def Line (irq : Word) : Prop := irq.toNat < 16 ∧ irq ≠ 2

def Allowed : Op → State → Prop
  | .requestIrq irq _ handler answer, s => Line irq ∧ handler ≠ 0 ∧ s.heap.Fresh 0 answer
  | .releaseIrq irq _, _ => Line irq

def Step (before after : State × Lists) : Prop :=
  ∃ op ret, Allowed op before.1 ∧ (exec op before.1).Returns (ret, after.1) ∧ after.2 = meant ret op before.2

def boot (s : State) : State := isrInit (picInit s)

def masked (s : State) (irq : BitVec 8) : Bool := (s.inb (picPort irq)).getLsbD (picLine irq).toNat

theorem one_shift_bit (k j : Nat) (inside : j < 32) : (1#32 <<< k).getLsbD j = decide (j = k) := by
  rw [BitVec.getLsbD_shiftLeft, BitVec.getLsbD_one]
  by_cases same : j = k
  · simp [same, same ▸ inside]
  · by_cases below : j < k
    · simp [same, below]
    · have positive : ¬j - k = 0 := by omega
      rw [decide_eq_false positive, decide_eq_false same, Bool.and_false, Bool.and_false]

theorem mask_bit (mask : BitVec 8) (k j : Nat) (inside : j < 8) :
    ((mask.setWidth 32 ||| (1#32 <<< k)).setWidth 8).getLsbD j = (mask.getLsbD j || decide (j = k)) := by
  have wide : j < 32 := by omega
  rw [BitVec.getLsbD_setWidth, BitVec.getLsbD_or, BitVec.getLsbD_setWidth, one_shift_bit k j wide]
  simp [inside, wide]

theorem unmask_bit (mask : BitVec 8) (k j : Nat) (inside : j < 8) :
    ((mask.setWidth 32 &&& ~~~(1#32 <<< k)).setWidth 8).getLsbD j = (mask.getLsbD j && !decide (j = k)) := by
  have wide : j < 32 := by omega
  rw [BitVec.getLsbD_setWidth, BitVec.getLsbD_and, BitVec.getLsbD_not, BitVec.getLsbD_setWidth, one_shift_bit k j wide]
  simp [inside, wide]

theorem pic_master (irq : BitVec 8) (low : irq.toNat < 8) : picPort irq = PIC_MASTER_DATA ∧ picLine irq = irq :=
  ⟨if_pos low, if_pos low⟩

theorem pic_slave (irq : BitVec 8) (high : 8 ≤ irq.toNat) :
    picPort irq = PIC_SLAVE_DATA ∧ (picLine irq).toNat = irq.toNat - 8 := by
  have other : ¬irq < 8 := Nat.not_lt.mpr high
  refine ⟨if_neg other, ?_⟩
  rw [picLine, if_neg other]
  bv_omega

theorem pic_line_bound (irq : BitVec 8) (inside : irq.toNat < 16) : (picLine irq).toNat < 8 := by
  by_cases low : irq.toNat < 8
  · rw [(pic_master irq low).2]
    exact low
  · rw [(pic_slave irq (by omega)).2]
    omega

theorem pic_line_inj (irq other : BitVec 8) (port : picPort other = picPort irq) :
    (picLine other).toNat = (picLine irq).toNat ↔ other = irq := by
  rw [← BitVec.toNat_inj]
  by_cases low : irq.toNat < 8
  · obtain ⟨master, line⟩ := pic_master irq low
    by_cases low' : other.toNat < 8
    · rw [line, (pic_master other low').2]
    · rw [master, (pic_slave other (by omega)).1] at port
      exact absurd port (by decide)
  · obtain ⟨slave, line⟩ := pic_slave irq (by omega)
    by_cases low' : other.toNat < 8
    · rw [slave, (pic_master other low').1] at port
      exact absurd port (by decide)
    · rw [line, (pic_slave other (by omega)).2]
      omega

theorem masked_mask (s : State) (irq other : BitVec 8) (inside : other.toNat < 16) :
    masked (picMaskIrq irq s) other = (masked s other || decide (other = irq)) := by
  unfold masked picMaskIrq
  simp only [State.inb, State.outb, Function.update_apply]
  by_cases port : picPort other = picPort irq
  · rw [if_pos port, mask_bit _ _ _ (pic_line_bound other inside), port]
    simp only [pic_line_inj irq other port]
  · have different : other ≠ irq := fun same => port (by rw [same])
    rw [if_neg port, decide_eq_false different, Bool.or_false]

theorem masked_unmask (s : State) (irq other : BitVec 8) (inside : other.toNat < 16) :
    masked (picUnmaskIrq irq s) other = (masked s other && !decide (other = irq)) := by
  unfold masked picUnmaskIrq
  simp only [State.inb, State.outb, Function.update_apply]
  by_cases port : picPort other = picPort irq
  · rw [if_pos port, unmask_bit _ _ _ (pic_line_bound other inside), port]
    simp only [pic_line_inj irq other port]
  · have different : other ≠ irq := fun same => port (by rw [same])
    rw [if_neg port, decide_eq_false different, Bool.not_false, Bool.and_true]

theorem full_bit (j : Nat) (inside : j < 8) : (0xFF : BitVec 8).getLsbD j = true := by
  have ones : (0xFF : BitVec 8) = BitVec.allOnes 8 := by decide
  rw [ones, BitVec.getLsbD_allOnes]
  exact decide_eq_true inside

theorem masked_boot (s : State) (irq : BitVec 8) (inside : irq.toNat < 16) : masked (boot s) irq = !decide (irq = 2) := by
  have apart : PIC_MASTER_DATA ≠ PIC_SLAVE_DATA := by decide
  have last (t : State) : ((t.outb PIC_MASTER_DATA PIC_MASTER_MASK).outb PIC_SLAVE_DATA PIC_SLAVE_MASK).inb (picPort irq) = 0xFF := by
    unfold picPort
    simp only [State.inb, State.outb, Function.update_apply]
    by_cases low : irq < 8
    · rw [if_pos low, if_neg apart, if_pos rfl]
      rfl
    · rw [if_neg low, if_pos rfl]
      rfl
  have full (t : State) : masked ((t.outb PIC_MASTER_DATA PIC_MASTER_MASK).outb PIC_SLAVE_DATA PIC_SLAVE_MASK) irq = true := by
    rw [masked, last]
    exact full_bit _ (pic_line_bound irq inside)
  calc masked (boot s) irq
      = masked (picInit s) irq := rfl
    _ = !decide (irq = 2) := by
        rw [picInit, masked_unmask _ 2 irq inside, full, Bool.true_and]

theorem slot_of_line (irq : Word) (line : Line irq) : slotOf irq = irq.toNat + 32 ∧ slotOf irq < 256 := by
  have inside := line.1
  unfold slotOf
  constructor <;> bv_omega

theorem slot_of_inj (irq other : Word) (line : Line irq) (line' : Line other) (same : slotOf irq = slotOf other) : irq = other := by
  have left := (slot_of_line irq line).1
  have right := (slot_of_line other line').1
  apply BitVec.eq_of_toNat_eq
  omega

theorem line_byte (irq : Word) (line : Line irq) : (irq.setWidth 8).toNat = irq.toNat := by
  have inside := line.1
  rw [BitVec.toNat_setWidth]
  omega

theorem line_byte_inj (irq other : Word) (line : Line irq) (line' : Line other) :
    irq.setWidth 8 = other.setWidth 8 ↔ irq = other := by
  rw [← BitVec.toNat_inj, line_byte irq line, line_byte other line', BitVec.toNat_inj]

theorem line_not_two (irq : Word) (line : Line irq) : irq.setWidth 8 ≠ 2 := by
  intro two
  apply line.2
  apply BitVec.eq_of_toNat_eq
  rw [← line_byte irq line, two]
  rfl

def Chained (s : State) (i : Nat) (nodes : List Word) : Prop :=
  Links (.node 0) s.next (s.next (.table i)) (nodes.map .node) (.node 0)

-- What the registry guarantees, the blocks in live₀ being other people's.
structure Agrees (live₀ : List Word) (s : State) (lists : Lists) : Prop where
  chain : ∀ irq, Line irq → (isrHandlers (irq + 32) s).Returns (lists (slotOf irq))
  nodes : ∃ nodes : Nat → List Word, (∀ irq, Line irq → Chained s (slotOf irq) (nodes (slotOf irq))) ∧
    ∀ p, p ∈ s.heap.live ↔ p ∈ live₀ ∨ ∃ irq, Line irq ∧ p ∈ nodes (slotOf irq)
  mask : ∀ irq, Line irq → (masked s (irq.setWidth 8) = false ↔ lists (slotOf irq) ≠ [])
  cascade : masked s 2 = false

def FreesLeaving (i : Nat) (s s' : State) : Prop :=
  ∃ before after, Chained s i before ∧ Chained s' i after ∧
    s'.heap.frees = (before.filter (· ∉ after)).map (fun p => (p, s.heap.live)) ++ s.heap.frees

structure Inv (live₀ : List Word) (s : State) (lists : Lists) (nodes : Nat → List Word) : Prop extends Registered s lists nodes where
  owned : ∀ p, p ∈ s.heap.live ↔ p ∈ live₀ ∨ ∃ irq, Line irq ∧ p ∈ nodes (slotOf irq)
  foreign : ∀ i < 256, ∀ p ∈ nodes i, p ∉ live₀
  mask : ∀ irq, Line irq → (masked s (irq.setWidth 8) = false ↔ lists (slotOf irq) ≠ [])
  cascade : masked s 2 = false

theorem agrees_of_inv (live₀ : List Word) (s : State) (lists : Lists) (nodes : Nat → List Word) (inv : Inv live₀ s lists nodes) :
    Agrees live₀ s lists := by
  refine ⟨fun irq line => ?_, ⟨nodes, fun irq line => ?_, inv.owned⟩, inv.mask, inv.cascade⟩
  · have inside := (slot_of_line irq line).2
    exact isr_handlers_returns s (irq + 32) _ _ inside (inv.slot (slotOf irq) inside)
  · exact (inv.slot (slotOf irq) (slot_of_line irq line).2).chain.links.2.2

theorem filter_left (front back : List Word) (p : Word) (nodup : (front ++ p :: back).Nodup) :
    (front ++ p :: back).filter (· ∉ front ++ back) = [p] := by
  have middle : (front ++ p :: back).Perm (p :: (front ++ back)) := List.perm_middle
  have absent : p ∉ front ++ back := (List.nodup_cons.mp (middle.nodup_iff.mp nodup)).1
  have none (xs : List Word) (inside : ∀ q ∈ xs, q ∈ front ++ back) : xs.filter (· ∉ front ++ back) = [] := by
    apply List.filter_eq_nil_iff.mpr
    exact fun q member outside => of_decide_eq_true outside (inside q member)
  rw [List.filter_append, List.filter_cons_of_pos (by simpa using absent), none front (fun q member => List.mem_append_left _ member),
    none back (fun q member => List.mem_append_right _ member), List.nil_append]

theorem filter_none (before after : List Word) (subset : ∀ p ∈ before, p ∈ after) : before.filter (· ∉ after) = [] := by
  apply List.filter_eq_nil_iff.mpr
  exact fun p member outside => of_decide_eq_true outside (subset p member)

theorem released_leaving (s s' : State) (i : Nat) (before after : List Word) (entries entries' : List Entry)
    (slot : Slot s i entries before) (slot' : Slot s' i entries' after) (released : Released s.heap s'.heap before after) :
    FreesLeaving i s s' := by
  refine ⟨before, after, slot.chain.links.2.2, slot'.chain.links.2.2, ?_⟩
  have nodup := slot.nodes_nodup
  cases released with
  | kept _ same => rw [same, filter_none before before (fun _ member => member), List.map_nil, List.nil_append]
  | freed front back p gone =>
      rw [gone, filter_left front back p nodup]
      rfl

theorem requested_leaving (s s' : State) (i : Nat) (before after : List Word) (entries entries' : List Entry) (answer ret : Word)
    (slot : Slot s i entries before) (slot' : Slot s' i entries' after) (requested : Requested s s' entries answer before ret after) :
    FreesLeaving i s s' := by
  refine ⟨before, after, slot.chain.links.2.2, slot'.chain.links.2.2, ?_⟩
  rw [filter_none before after requested.subset, List.map_nil, List.nil_append]
  cases requested with
  | refused taken failed same => rw [same]
  | first none heap => rw [heap]
  | appended taken served heap => rw [heap, Ledger.take_frees]

theorem inv_boot (s : State) : Inv s.heap.live (boot s) (fun _ => []) (fun _ => []) := by
  refine ⟨⟨fun i inside => ?_, by simp, by simp⟩, fun p => ?_, by simp, fun irq line => ?_, ?_⟩
  · exact slot_clear (boot s) i (if_pos inside)
  · change p ∈ s.heap.live ↔ _
    simp
  · have inside : (irq.setWidth 8).toNat < 16 := by
      rw [line_byte irq line]
      exact line.1
    rw [masked_boot s _ inside, decide_eq_false (line_not_two irq line)]
    simp
  · exact masked_boot s 2 (by decide)

theorem Inv.step (live₀ : List Word) (s s' : State) (lists : Lists) (nodes : Nat → List Word) (inv : Inv live₀ s lists nodes)
    (irq : Word) (line : Line irq) (entries' : List Entry) (nodes' : List Word)
    (registered : Registered s' (Function.update lists (slotOf irq) entries') (Function.update nodes (slotOf irq) nodes'))
    (source : ∀ p ∈ nodes', p ∈ nodes (slotOf irq) ∨ p ∉ s.heap.live)
    (live : ∀ p, p ∈ s'.heap.live ↔ p ∈ s.heap.live ∧ p ∉ nodes (slotOf irq) ∨ p ∈ nodes')
    (mask : masked s' (irq.setWidth 8) = false ↔ entries' ≠ [])
    (others : ∀ other : BitVec 8, other.toNat < 16 → other ≠ irq.setWidth 8 → masked s' other = masked s other) :
    Inv live₀ s' (Function.update lists (slotOf irq) entries') (Function.update nodes (slotOf irq) nodes') := by
  have inside := (slot_of_line irq line).2
  have old (p : Word) (member : p ∈ live₀) : p ∈ s.heap.live := (inv.owned p).mpr (.inl member)
  refine ⟨registered, fun p => ?_, fun i bound p member => ?_, fun other line' => ?_, ?_⟩
  · rw [live]
    constructor
    · rintro (⟨member, outside⟩ | member)
      · rcases (inv.owned p).mp member with given | ⟨other, line', here⟩
        · exact .inl given
        · have different : slotOf other ≠ slotOf irq := fun same => outside (same ▸ here)
          exact .inr ⟨other, line', by rw [Function.update_of_ne different]; exact here⟩
      · exact .inr ⟨irq, line, by rw [Function.update_self]; exact member⟩
    · rintro (given | ⟨other, line', here⟩)
      · exact .inl ⟨old p given, fun member => inv.foreign _ inside p member given⟩
      · by_cases same : slotOf other = slotOf irq
        · rw [same, Function.update_self] at here
          exact .inr here
        · rw [Function.update_of_ne same] at here
          have bound := (slot_of_line other line').2
          exact .inl ⟨inv.live _ bound p here, fun mine => same (inv.apart _ bound _ inside p here mine)⟩
  · by_cases same : i = slotOf irq
    · rw [same, Function.update_self] at member
      rcases source p member with mine | fresh
      · exact inv.foreign _ inside p mine
      · exact fun given => fresh (old p given)
    · rw [Function.update_of_ne same] at member
      exact inv.foreign i bound p member
  · by_cases same : other = irq
    · rw [same, Function.update_self]
      exact mask
    · have different : slotOf other ≠ slotOf irq := fun here => same (slot_of_inj other irq line' line here)
      have byte : (other.setWidth 8).toNat < 16 := by
        rw [line_byte other line']
        exact line'.1
      rw [Function.update_of_ne different, others _ byte (fun here => same ((line_byte_inj other irq line' line).mp here))]
      exact inv.mask other line'
  · rw [others 2 (by decide) (line_not_two irq line).symm]
    exact inv.cascade

structure Outcome (live₀ : List Word) (op : Op) (s : State) (lists : Lists) (ret : Word) (s' : State) : Prop where
  inv : ∃ nodes, Inv live₀ s' (meant ret op lists) nodes
  failed : ret = 0 ∨ ret = 1 ∧ s' = s
  leaving : FreesLeaving op.slot s s'

section Calls

variable (live₀ : List Word) (s : State) (lists : Lists) (nodes : Nat → List Word) (inv : Inv live₀ s lists nodes) (irq id : Word)
  (line : Line irq)

include inv line

theorem request_irq_outcome (handler answer : Word) (nonnull : handler ≠ 0) (fresh : s.heap.Fresh 0 answer) :
    ∃ ret s', (requestIrq irq id handler answer s).Returns (ret, s') ∧
      Outcome live₀ (.requestIrq irq id handler answer) s lists ret s' := by
  have inside := (slot_of_line irq line).2
  have slot := inv.slot (slotOf irq) inside
  obtain ⟨ret, t, nodes', returned, requested, ports, registered⟩ :=
    inv.toRegistered.request (irq + 32) id handler answer inside nonnull fresh
  have ended : (requestIrq irq id handler answer s).Returns (ret, if ret = 0 then picUnmaskIrq (irq.setWidth 8) t else t) :=
    (ends_bind_of_returns _ _ _ _ returned).mpr ((ends_pure _ _).mpr rfl)
  have live := requested.mem_live (inv.live _ inside)
  have source : ∀ p ∈ nodes', p ∈ nodes (slotOf irq) ∨ p ∉ s.heap.live := by
    intro p member
    by_cases old : p ∈ nodes (slotOf irq)
    · exact .inl old
    · exact .inr (requested.fresh fresh p member old)
  have after := registered.slot (slotOf irq) inside
  rw [Function.update_self, Function.update_self] at after
  have leaving := requested_leaving s t (slotOf irq) _ _ _ _ answer ret slot after requested
  have served (zero : ret = 0) : Outcome live₀ (.requestIrq irq id handler answer) s lists ret (picUnmaskIrq (irq.setWidth 8) t) := by
    rw [if_pos zero] at registered
    refine ⟨⟨Function.update nodes (slotOf irq) nodes', ?_⟩, .inl zero, leaving⟩
    rw [meant, if_pos zero]
    have final : Registered (picUnmaskIrq (irq.setWidth 8) t) _ _ := registered.congr rfl registered.live
    apply inv.step live₀ s _ lists nodes irq line _ nodes' final source live
    · have byte : (irq.setWidth 8).toNat < 16 := by
        rw [line_byte irq line]
        exact line.1
      rw [masked_unmask t _ _ byte]
      simp
    · intro other bound different
      rw [masked_unmask t _ _ bound, decide_eq_false different, Bool.not_false, Bool.and_true, masked, State.inb, ports]
      rfl
  cases requested with
  | refused taken failed same =>
      rw [same] at ended leaving
      refine ⟨1, s, ended, ⟨nodes, ?_⟩, .inr ⟨rfl, rfl⟩, leaving⟩
      exact inv
  | first none heap => exact ⟨0, _, ended, served rfl⟩
  | appended taken answered heap => exact ⟨0, _, ended, served rfl⟩

theorem release_irq_outcome :
    ∃ s', (releaseIrq irq id s).Returns s' ∧ Outcome live₀ (.releaseIrq irq id) s lists 0 s' := by
  have inside := (slot_of_line irq line).2
  have slot := inv.slot (slotOf irq) inside
  obtain ⟨t, nodes', returned, released, ports, registered⟩ := inv.toRegistered.release (irq + 32) id inside
  have after := registered.slot (slotOf irq) inside
  rw [Function.update_self, Function.update_self] at after
  have leaving := released_leaving s t (slotOf irq) _ _ _ _ slot after released
  have live := released.mem_live slot.nodes_nodup (inv.live _ inside)
  have source : ∀ p ∈ nodes', p ∈ nodes (slotOf irq) ∨ p ∉ s.heap.live := fun p member => .inl (released.subset p member)
  have byte : (irq.setWidth 8).toNat < 16 := by
    rw [line_byte irq line]
    exact line.1
  have before (other : BitVec 8) : masked t other = masked s other := by rw [masked, State.inb, ports]; rfl
  have ended : (releaseIrq irq id s).Returns
      (if (t.cells (.table (slotOf irq))).handler = 0 then picMaskIrq (irq.setWidth 8) t else t) := by
    apply (ends_bind_of_returns _ _ _ _ returned).mpr
    apply (ends_bind_of_returns _ _ _ _ (handler_entry (irq + 32) inside)).mpr
    exact (ends_pure _ _).mpr rfl
  by_cases none : (t.cells (.table (slotOf irq))).handler = 0
  · rw [if_pos none] at ended
    refine ⟨_, ended, ⟨Function.update nodes (slotOf irq) nodes', ?_⟩, .inl rfl, leaving⟩
    have final : Registered (picMaskIrq (irq.setWidth 8) t) _ _ := registered.congr rfl registered.live
    apply inv.step live₀ s _ lists nodes irq line _ nodes' final source live
    · rw [masked_mask t _ _ byte, after.empty_iff.mp none]
      simp
    · intro other bound different
      rw [masked_mask t _ _ bound, decide_eq_false different, Bool.or_false, before]
  · rw [if_neg none] at ended
    have left := mt after.empty_iff.mpr none
    refine ⟨_, ended, ⟨Function.update nodes (slotOf irq) nodes', ?_⟩, .inl rfl, leaving⟩
    apply inv.step live₀ s _ lists nodes irq line _ nodes' registered source live
    · have some : lists (slotOf irq) ≠ [] := fun empty => left (by rw [empty]; rfl)
      rw [before]
      exact iff_of_true ((inv.mask irq line).mpr some) left
    · exact fun other _ _ => before other

end Calls

theorem exec_outcome (live₀ : List Word) (op : Op) (s : State) (lists : Lists) (nodes : Nat → List Word) (inv : Inv live₀ s lists nodes)
    (allowed : Allowed op s) : ∃ ret s', (exec op s).Returns (ret, s') ∧ Outcome live₀ op s lists ret s' := by
  cases op with
  | requestIrq irq id handler answer =>
      obtain ⟨line, nonnull, fresh⟩ := allowed
      exact request_irq_outcome live₀ s lists nodes inv irq id line handler answer nonnull fresh
  | releaseIrq irq id =>
      obtain ⟨s', returned, outcome⟩ := release_irq_outcome live₀ s lists nodes inv irq id allowed
      exact ⟨0, s', (ends_bind_of_returns _ _ _ _ returned).mpr ((ends_pure _ _).mpr rfl), outcome⟩

theorem irq_registry_refines_lists (s₀ s : State) (lists : Lists) (run : Reaches Step (boot s₀, fun _ => []) (s, lists)) :
    Agrees s₀.heap.live s lists ∧
    ∀ op, Allowed op s → ∃ ret s', (exec op s).Returns (ret, s') ∧ (ret = 0 ∨ ret = 1 ∧ s' = s) ∧ FreesLeaving op.slot s s' := by
  have known : ∃ nodes, Inv s₀.heap.live s lists nodes := by
    apply invariant (fun here : State × Lists => ∃ nodes, Inv s₀.heap.live here.1 here.2 nodes) _ _ _ ⟨_, inv_boot s₀⟩ run
    rintro ⟨t, lists⟩ ⟨t', lists'⟩ ⟨nodes, inv⟩ ⟨op, ret, allowed, returned, rfl⟩
    obtain ⟨ret', u, returned', outcome⟩ := exec_outcome _ op t lists nodes inv allowed
    cases returns_unique _ _ _ returned returned'
    exact outcome.inv
  obtain ⟨nodes, inv⟩ := known
  refine ⟨agrees_of_inv _ s lists nodes inv, fun op allowed => ?_⟩
  obtain ⟨ret, s', returned, outcome⟩ := exec_outcome _ op s lists nodes inv allowed
  exact ⟨ret, s', returned, outcome.failed, outcome.leaving⟩

def cold : State := ⟨fun _ => ⟨0, 0, 0⟩, fun _ => 0, ⟨[], []⟩⟩

def keyboard : Op := .requestIrq 1 7 0xC0100000 0

theorem keyboard_returns : ∃ s, (exec keyboard (boot cold)).Returns (0, s) := by
  have free : ((boot cold).cells (.table 33)).handler = 0 := by decide
  let t : State := (boot cold).setCell (.table 33) (fun c => { c with id := 7, handler := 0xC0100000 })
  have first : (requestIsr (1 + 32) 7 0xC0100000 0 (boot cold)).Returns (0, t) := by
    unfold requestIsr Returns
    rw [if_neg (by decide), ends_bind_of_returns _ _ _ _ (handler_entry (1 + 32) (by decide)), if_pos (by exact free)]
    exact (ends_pure _ _).mpr rfl
  exact ⟨picUnmaskIrq (BitVec.setWidth 8 (1 : Word)) t, (ends_bind_of_returns _ _ _ _ first).mpr ((ends_pure _ _).mpr rfl)⟩

theorem irq_registry_after_release : ∃ s lists, Reaches Step (boot cold, fun _ => []) (s, lists) ∧ lists 33 = [(8, 0xC0200000)] ∧
    Agrees [] s lists ∧ (isrHandlers (1 + 32) s).Returns [(8, 0xC0200000)] := by
  have line : Line 1 := by unfold Line; decide
  obtain ⟨s₁, s₂, s₃, s₄, first, second, third, fourth, empty⟩ : ∃ s₁ s₂ s₃ s₄, (exec keyboard (boot cold)).Returns (0, s₁) ∧
      (exec (.requestIrq 1 8 0xC0200000 0x5000) s₁).Returns (0, s₂) ∧ (exec (.requestIrq 1 9 0xC0300000 0) s₂).Returns (1, s₃) ∧
      (exec (.releaseIrq 1 7) s₃).Returns (0, s₄) ∧ s₁.heap.live = [] :=
    ⟨_, _, _, _, ⟨9, rfl⟩, ⟨9, rfl⟩, ⟨9, rfl⟩, ⟨9, rfl⟩, rfl⟩
  have next (s s' : State) (lists : Lists) (op : Op) (ret : Word) (run : Reaches Step (boot cold, fun _ => []) (s, lists))
      (returned : (exec op s).Returns (ret, s')) (allowed : Allowed op s) : Reaches Step (boot cold, fun _ => []) (s', meant ret op lists) :=
    run.tail ⟨op, ret, allowed, returned, rfl⟩
  have run := next _ s₁ _ _ 0 .refl first ⟨line, by decide, .inl rfl⟩
  have run := next s₁ s₂ _ _ 0 run second ⟨line, by decide, .inr (by rw [empty]; exact List.not_mem_nil)⟩
  have run := next s₂ s₃ _ _ 1 run third ⟨line, by decide, .inl rfl⟩
  have run := next s₃ s₄ _ _ 0 run fourth line
  obtain ⟨agrees, -⟩ := irq_registry_refines_lists cold s₄ _ run
  exact ⟨s₄, _, run, rfl, agrees, agrees.chain 1 line⟩

end Deimos.Irq
