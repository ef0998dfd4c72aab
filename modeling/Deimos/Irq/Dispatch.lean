import Mathlib.Tactic.IntervalCases
import Deimos.Irq.Chains

set_option autoImplicit false

namespace Deimos.Irq

open Comp LinkedQueue

def PIC_EOI : BitVec 8 := 0x20
def PIC_REG_IRR : BitVec 8 := 0x0A
def PIC_REG_ISR : BitVec 8 := 0x0B

inductive Event where
  | out (port : Port) (value : BitVec 8)
  | call (entry : Entry)
  | panic (message : String)
deriving DecidableEq

-- The two PICs, IRQ 0-7 in the low bytes of their registers and 8-15 in the
-- high ones. A command port reads the register that it was told to last.
structure Pics where
  request : BitVec 16
  inService : BitVec 16
  reads : Port → BitVec 8
  log : List Event

namespace Pics

def outb (port : Port) (value : BitVec 8) (c : Pics) : Pics :=
  { c with
    reads := if value = PIC_REG_IRR ∨ value = PIC_REG_ISR then Function.update c.reads port value else c.reads
    log := c.log ++ [.out port value] }

def inb (port : Port) (c : Pics) : BitVec 8 :=
  let register := if c.reads port = PIC_REG_ISR then c.inService else c.request
  if port = PIC_SLAVE_CMD then (register >>> 8).setWidth 8 else register.setWidth 8

end Pics

def picReadReg (picReg : BitVec 8) (c : Pics) : BitVec 16 × Pics :=
  let c := c.outb PIC_MASTER_CMD picReg
  let c := c.outb PIC_SLAVE_CMD picReg
  (((c.inb PIC_SLAVE_CMD).setWidth 16 <<< 8) ||| (c.inb PIC_MASTER_CMD).setWidth 16, c)

def picSendEoi (irq : BitVec 8) (c : Pics) : Pics :=
  let c := if irq ≥ 8 then c.outb PIC_SLAVE_CMD PIC_EOI else c
  c.outb PIC_MASTER_CMD PIC_EOI

def picIsSpurious (c : Pics) : Bool × Pics :=
  let (irqs, c) := picReadReg PIC_REG_ISR c
  if irqs &&& 0x0080 = 0 then (true, c)
  else if irqs &&& 0x8000 = 0 then (true, c.outb PIC_MASTER_CMD PIC_EOI)
  else (false, c)

-- With no handler it ends in a panic, which is the last event.
def isrHandler (intNo : Word) (c : Pics) (s : State) : Comp Stop Pics :=
  let (spurious, c) := if intNo = 39 ∨ intNo = 47 then picIsSpurious c else (false, c)
  if spurious then pure c
  else do
    let c := if intNo > 31 ∧ intNo < 48 then picSendEoi ((intNo - 32).setWidth 8) c else c
    let called ← isrHandlers intNo s
    pure { c with log := c.log ++ called.map .call ++ if called = [] then [.panic "uncaught interrupt"] else [] }

def Event.counts : Event → Bool
  | .out _ value => value = PIC_EOI
  | .call _ => true
  | .panic _ => false

def ack (port : Port) : Event := .out port PIC_EOI

def acks (vector : BitVec 8) : List Event :=
  if 32 ≤ vector.toNat ∧ vector.toNat < 40 then [ack PIC_MASTER_CMD]
  else if 40 ≤ vector.toNat ∧ vector.toNat < 48 then [ack PIC_SLAVE_CMD, ack PIC_MASTER_CMD]
  else []

-- What is to happen: nothing is called for a spurious interrupt, and the PIC
-- that raised it is not acknowledged.
def dispatched (vector : BitVec 8) (inService : BitVec 16) (chain : List Entry) : List Event :=
  if vector = 39 ∧ inService.getLsbD 7 = false then []
  else if vector = 47 ∧ inService.getLsbD 15 = false then [ack PIC_MASTER_CMD]
  else acks vector ++ (chain.filter handles).map .call

def handled (vector : BitVec 8) (inService : BitVec 16) (chain : List Entry) : List Event :=
  if (vector = 39 ∨ vector = 47) ∧ inService.getLsbD 7 = false then []
  else if (vector = 39 ∨ vector = 47) ∧ inService.getLsbD 15 = false then [ack PIC_MASTER_CMD]
  else acks vector ++ (chain.takeWhile handles).map .call

section Registers

variable (c : Pics)

theorem read_in_service : picReadReg PIC_REG_ISR c = (c.inService, (c.outb PIC_MASTER_CMD PIC_REG_ISR).outb PIC_SLAVE_CMD PIC_REG_ISR) := by
  refine Prod.ext ?_ rfl
  have slave : ((c.outb PIC_MASTER_CMD PIC_REG_ISR).outb PIC_SLAVE_CMD PIC_REG_ISR).inb PIC_SLAVE_CMD = (c.inService >>> 8).setWidth 8 := rfl
  have master : ((c.outb PIC_MASTER_CMD PIC_REG_ISR).outb PIC_SLAVE_CMD PIC_REG_ISR).inb PIC_MASTER_CMD = c.inService.setWidth 8 := rfl
  simp only [picReadReg, slave, master]
  ext i bound
  interval_cases i <;> simp

omit c in
theorem bit_clear_iff (x : BitVec 16) (i : Nat) (bound : i < 16) : x &&& BitVec.twoPow 16 i = 0 ↔ x.getLsbD i = false := by
  have set : BitVec.twoPow 16 i ≠ 0#16 := by
    intro zero
    have bit : (BitVec.twoPow 16 i).getLsbD i = false := by rw [zero, BitVec.getLsbD_zero]
    rw [BitVec.getLsbD_twoPow] at bit
    simp [bound] at bit
  rw [BitVec.and_twoPow]
  cases x.getLsbD i <;> simp [set]

def selected : Pics := (c.outb PIC_MASTER_CMD PIC_REG_ISR).outb PIC_SLAVE_CMD PIC_REG_ISR

theorem selected_log : (selected c).log.filter Event.counts = c.log.filter Event.counts := by
  simp only [selected, Pics.outb, List.append_assoc, List.filter_append]
  exact List.append_nil _

theorem pic_is_spurious_eq : picIsSpurious c =
    if c.inService.getLsbD 7 = false then (true, selected c)
    else if c.inService.getLsbD 15 = false then (true, (selected c).outb PIC_MASTER_CMD PIC_EOI)
    else (false, selected c) := by
  have low : c.inService &&& 0x0080 = 0 ↔ c.inService.getLsbD 7 = false := bit_clear_iff c.inService 7 (by decide)
  have high : c.inService &&& 0x8000 = 0 ↔ c.inService.getLsbD 15 = false := bit_clear_iff c.inService 15 (by decide)
  rw [picIsSpurious, read_in_service]
  simp only [low, high]
  rfl

end Registers

section Vectors

variable (vector : BitVec 8)

theorem shared_iff : vector.setWidth 32 = 39 ∨ vector.setWidth 32 = 47 ↔ vector = 39 ∨ vector = 47 := by
  have all : ∀ vector : BitVec 8, vector.setWidth 32 = 39 ∨ vector.setWidth 32 = 47 ↔ vector = 39 ∨ vector = 47 := by decide
  exact all vector

theorem irq_iff : vector.setWidth 32 > (31 : Word) ∧ vector.setWidth 32 < (48 : Word) ↔ 32 ≤ vector.toNat ∧ vector.toNat < 48 := by
  have all : ∀ vector : BitVec 8,
      vector.setWidth 32 > (31 : Word) ∧ vector.setWidth 32 < (48 : Word) ↔ 32 ≤ vector.toNat ∧ vector.toNat < 48 := by decide
  exact all vector

theorem slave_iff (low : 32 ≤ vector.toNat) :
    (vector.setWidth 32 - 32 : Word).setWidth 8 ≥ (8 : BitVec 8) ↔ 40 ≤ vector.toNat := by
  have all : ∀ vector : BitVec 8, 32 ≤ vector.toNat →
      ((vector.setWidth 32 - 32 : Word).setWidth 8 ≥ (8 : BitVec 8) ↔ 40 ≤ vector.toNat) := by decide
  exact all vector low

theorem acknowledged (c : Pics) :
    ((if vector.setWidth 32 > (31 : Word) ∧ vector.setWidth 32 < (48 : Word) then picSendEoi ((vector.setWidth 32 - 32 : Word).setWidth 8) c
      else c)).log.filter Event.counts = c.log.filter Event.counts ++ acks vector := by
  by_cases irq : 32 ≤ vector.toNat ∧ vector.toNat < 48
  · rw [if_pos ((irq_iff vector).mpr irq), picSendEoi]
    by_cases slave : 40 ≤ vector.toNat
    · have both : acks vector = [ack PIC_SLAVE_CMD, ack PIC_MASTER_CMD] := by
        rw [acks, if_neg (by omega), if_pos (by omega)]
      rw [both, if_pos ((slave_iff vector irq.1).mpr slave)]
      simp only [Pics.outb, List.append_assoc, List.filter_append]
      rfl
    · have master : acks vector = [ack PIC_MASTER_CMD] := if_pos (by omega)
      rw [master, if_neg (fun high => slave ((slave_iff vector irq.1).mp high))]
      simp only [Pics.outb, List.filter_append]
      rfl
  · have none : acks vector = [] := by rw [acks, if_neg (by omega), if_neg (by omega)]
    rw [if_neg (fun inside => irq ((irq_iff vector).mp inside)), none, List.append_nil]

end Vectors

section Runs

variable (vector : BitVec 8) (c : Pics) (s : State) (cells : List Ref)
  (links : Links (.node 0) s.next (.table vector.toNat) cells (.node 0))

def dispatch (intNo : Word) : Comp Stop Pics := do
  let c := if intNo > 31 ∧ intNo < 48 then picSendEoi ((intNo - 32).setWidth 8) c else c
  let called ← isrHandlers intNo s
  pure { c with log := c.log ++ called.map .call ++ if called = [] then [.panic "uncaught interrupt"] else [] }

theorem isr_handler_eq (intNo : Word) : isrHandler intNo c s =
    if intNo = 39 ∨ intNo = 47 then
      if c.inService.getLsbD 7 = false then pure (selected c)
      else if c.inService.getLsbD 15 = false then pure ((selected c).outb PIC_MASTER_CMD PIC_EOI)
      else dispatch (selected c) s intNo
    else dispatch c s intNo := by
  by_cases shared : intNo = 39 ∨ intNo = 47
  · rw [if_pos shared]
    simp only [isrHandler, if_pos shared, pic_is_spurious_eq]
    by_cases low : c.inService.getLsbD 7 = false
    · simp only [if_pos low, if_true]
    · by_cases high : c.inService.getLsbD 15 = false
      · simp only [if_neg low, if_pos high, if_true]
      · simp only [if_neg low, if_neg high, dispatch]
        rfl
  · rw [if_neg shared]
    simp only [isrHandler, if_neg shared, dispatch]
    rfl

include links

theorem dispatch_returns : ∃ c', (dispatch c s (vector.setWidth 32)).Returns c' ∧ c'.log.filter Event.counts =
    c.log.filter Event.counts ++ (acks vector ++ ((cells.map s.entry).takeWhile handles).map .call) := by
  have place : (vector.setWidth 32).toNat = vector.toNat := by
    rw [BitVec.toNat_setWidth]
    omega
  have called : (isrHandlers (vector.setWidth 32) s).Returns ((cells.map s.entry).takeWhile handles) :=
    isr_handlers_calls s _ cells (by omega) (place ▸ links)
  have calls (xs : List Entry) : (xs.map Event.call).filter Event.counts = xs.map Event.call := by
    apply List.filter_eq_self.mpr
    intro e member
    obtain ⟨x, -, rfl⟩ := List.mem_map.mp member
    rfl
  have panics (xs : List Entry) : (if xs = [] then [Event.panic "uncaught interrupt"] else []).filter Event.counts = [] := by
    by_cases none : xs = []
    · rw [if_pos none]
      rfl
    · rw [if_neg none]
      rfl
  refine ⟨_, (ends_bind_of_returns _ _ _ _ called).mpr ((ends_pure _ _).mpr rfl), ?_⟩
  simp only [List.filter_append, acknowledged, calls, panics, List.append_nil, List.append_assoc]

theorem isr_handler_returns : ∃ c', (isrHandler (vector.setWidth 32) c s).Returns c' ∧
    c'.log.filter Event.counts = c.log.filter Event.counts ++ handled vector c.inService (cells.map s.entry) := by
  rw [isr_handler_eq]
  by_cases shared : vector = 39 ∨ vector = 47
  · rw [if_pos ((shared_iff vector).mpr shared)]
    by_cases low : c.inService.getLsbD 7 = false
    · rw [if_pos low, handled, if_pos ⟨shared, low⟩, List.append_nil, ← selected_log]
      exact ⟨_, (ends_pure _ _).mpr rfl, rfl⟩
    · rw [if_neg low]
      by_cases high : c.inService.getLsbD 15 = false
      · have what : handled vector c.inService (cells.map s.entry) = [ack PIC_MASTER_CMD] := by
          rw [handled, if_neg (fun spurious => low spurious.2), if_pos ⟨shared, high⟩]
        rw [if_pos high, what, ← selected_log]
        exact ⟨_, (ends_pure _ _).mpr rfl, List.filter_append _ _⟩
      · have what : handled vector c.inService (cells.map s.entry) =
            acks vector ++ ((cells.map s.entry).takeWhile handles).map .call := by
          rw [handled, if_neg (fun spurious => low spurious.2), if_neg (fun spurious => high spurious.2)]
        rw [if_neg high, what, ← selected_log]
        exact dispatch_returns vector (selected c) s cells links
  · rw [if_neg (fun same => shared ((shared_iff vector).mp same)), handled, if_neg (fun spurious => shared spurious.1),
      if_neg (fun spurious => shared spurious.1)]
    exact dispatch_returns vector c s cells links

end Runs

-- A walk that stops at the first that fails a test finds all that pass it if
-- none of these stands behind one that fails.
theorem take_while_eq_filter_iff (chain : List Entry) :
    chain.takeWhile handles = chain.filter handles ↔ chain.Pairwise (fun e e' => handles e' = true → handles e = true) := by
  induction chain with
  | nil => simp
  | cons e chain ih =>
      rw [List.pairwise_cons]
      by_cases here : handles e = true
      · rw [List.takeWhile_cons_of_pos here, List.filter_cons_of_pos here, List.cons_inj_right, ih]
        exact (and_iff_right (fun _ _ _ => here)).symm
      · rw [List.takeWhile_cons_of_neg here, List.filter_cons_of_neg here, eq_comm, List.filter_eq_nil_iff]
        constructor
        · intro none
          exact ⟨fun e' member calls => absurd calls (none e' member),
            List.pairwise_of_forall_mem_list (fun _ _ e' member calls => absurd calls (none e' member))⟩
        · exact fun behind e' member calls => here (behind.1 e' member calls)

theorem handled_right_iff (vector : BitVec 8) (inService : BitVec 16) (chain : List Entry) :
    handled vector inService chain = dispatched vector inService chain ↔
      (vector = 39 → inService.getLsbD 7 = true → inService.getLsbD 15 = true ∨ chain.filter handles = []) ∧
      (vector = 47 → inService.getLsbD 7 = true) ∧
      (¬(vector = 39 ∧ inService.getLsbD 7 = false ∨ vector = 47 ∧ inService.getLsbD 15 = false) →
        chain.Pairwise (fun e e' => handles e' = true → handles e = true)) := by
  have injective : Function.Injective Event.call := fun e e' same => Event.call.inj same
  have chained : acks vector ++ (chain.takeWhile handles).map Event.call = acks vector ++ (chain.filter handles).map Event.call ↔
      chain.Pairwise (fun e e' => handles e' = true → handles e = true) := by
    rw [List.append_cancel_left_eq, List.map_inj_right injective, take_while_eq_filter_iff]
  have empty (none : chain.filter handles = []) : chain.Pairwise (fun e e' => handles e' = true → handles e = true) :=
    List.pairwise_of_forall_mem_list (fun _ _ e' member calls => absurd calls (List.filter_eq_nil_iff.mp none e' member))
  unfold handled dispatched
  generalize inService.getLsbD 7 = low
  generalize inService.getLsbD 15 = high
  by_cases seven : vector = 39#8
  · subst seven
    have master : acks 39#8 = [ack PIC_MASTER_CMD] := rfl
    cases low <;> cases high
    · simp
    · simp
    · simp only [master, List.cons_append, List.nil_append]
      simpa using empty
    · simpa using chained
  · by_cases fifteen : vector = 47#8
    · subst fifteen
      have both : acks 47#8 = [ack PIC_SLAVE_CMD, ack PIC_MASTER_CMD] := rfl
      cases low <;> cases high
      · simp
      · simp [both]
      · simp
      · simpa using chained
    · simpa [seven, fifteen] using chained

-- The shared test takes IRQ 7 for spurious when IRQ 15 is not in service, and
-- IRQ 15 when IRQ 7 is not.
theorem dispatch_exact_iff (vector : BitVec 8) (request inService : BitVec 16) (reads : Port → BitVec 8) (s : State) (cells : List Ref)
    (links : Links (.node 0) s.next (.table vector.toNat) cells (.node 0)) :
    (∃ c', (isrHandler (vector.setWidth 32) ⟨request, inService, reads, []⟩ s).Returns c' ∧
      c'.log.filter Event.counts = dispatched vector inService (cells.map s.entry)) ↔
      (vector = 39 → inService.getLsbD 7 = true → inService.getLsbD 15 = true ∨ (cells.map s.entry).filter handles = []) ∧
      (vector = 47 → inService.getLsbD 7 = true) ∧
      (¬(vector = 39 ∧ inService.getLsbD 7 = false ∨ vector = 47 ∧ inService.getLsbD 15 = false) →
        (cells.map s.entry).Pairwise (fun e e' => handles e' = true → handles e = true)) := by
  obtain ⟨c', returned, events⟩ := isr_handler_returns vector ⟨request, inService, reads, []⟩ s cells links
  rw [List.filter_nil, List.nil_append] at events
  rw [← handled_right_iff]
  constructor
  · rintro ⟨c'', returned', right⟩
    obtain rfl := returns_unique _ _ _ returned returned'
    exact events.symm.trans right
  · exact fun right => ⟨c', returned, events.trans right⟩

def oneHandler (vector : Nat) : State :=
  { cells := fun h => if h = .table vector then ⟨1, 0xC0101000, 0⟩ else ⟨0, 0, 0⟩, ports := fun _ => 0, heap := ⟨∅, []⟩ }

theorem one_handler_links (vector : Nat) : Links (.node 0) (oneHandler vector).next (.table vector) [.table vector] (.node 0) := by
  have last : (oneHandler vector).next (.table vector) = .node 0 := by simp [oneHandler, State.next]
  exact ⟨rfl, Ref.noConfusion, last⟩

theorem dispatch_exact_at_timer : ∃ c', (isrHandler 32 ⟨0, 1, fun _ => 0, []⟩ (oneHandler 32)).Returns c' ∧
    c'.log.filter Event.counts = [ack PIC_MASTER_CMD, .call (1, 0xC0101000)] :=
  (dispatch_exact_iff 32 0 1 (fun _ => 0) (oneHandler 32) [.table 32] (one_handler_links 32)).mpr
    ⟨by decide, by decide, fun _ => List.pairwise_singleton _ _⟩

theorem disk_interrupt_dropped : ¬∀ (vector : BitVec 8) (request inService : BitVec 16) (reads : Port → BitVec 8) (s : State)
    (cells : List Ref), Links (.node 0) s.next (.table vector.toNat) cells (.node 0) →
    ∃ c', (isrHandler (vector.setWidth 32) ⟨request, inService, reads, []⟩ s).Returns c' ∧
      c'.log.filter Event.counts = dispatched vector inService (cells.map s.entry) := by
  intro claim
  obtain ⟨c', returned, right⟩ := claim 47 0 0x8004 (fun _ => 0) (oneHandler 47) [.table 47] (one_handler_links 47)
  obtain ⟨c'', returned', events⟩ := isr_handler_returns 47 ⟨0, 0x8004, fun _ => 0, []⟩ (oneHandler 47) [.table 47] (one_handler_links 47)
  obtain rfl := returns_unique _ _ _ returned returned'
  rw [right] at events
  exact absurd events (by decide)

end Deimos.Irq
