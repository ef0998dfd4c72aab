import Deimos.Irq.Delivery
import Deimos.Lib.Chain
import Deimos.Tty.Console

set_option autoImplicit false

namespace Deimos.Irq

open Comp LinkedQueue Run Tty Walk

def handlerLine (i : Nat) (e : Entry) : Tty.Line :=
  ⟨chars "int:%x\tid:0x%x\thandler:0x%x\n", [.word (BitVec.ofNat 32 i), .word e.1, .word e.2]⟩

def printHandlers (s : State) (i : Nat) : Comp Stop (List Tty.Line) :=
  walk (fun h => h = .node 0 || (s.cells h).handler = 0) s.next (fun h => pure [handlerLine i (s.entry h)]) (.table i)

def interruptsPrintInfo (s : State) : Comp Stop (List Tty.Line) :=
  (List.range' 0 256).foldlM (fun out i => do
    let lines ← printHandlers s i
    pure (out ++ lines)) []

theorem handler_lines_displayed (lists : Lists) (n : Nat) :
    Displayed ((List.range n).flatMap (fun i => (lists i).map (handlerLine i))) := by
  refine displayed _ (fun line member => ?_)
  obtain ⟨i, -, member⟩ := List.mem_flatMap.mp member
  obtain ⟨e, -, rfl⟩ := List.mem_map.mp member
  exact words_text 3 _ (by decide +kernel) [BitVec.ofNat 32 i, e.1, e.2] rfl

section Chain

variable {s : State} {i : Nat} {entries : List Entry} {nodes : List Word} (slot : Slot s i entries nodes)

include slot

theorem Slot.printed : (printHandlers s i).Returns (entries.map (handlerLine i)) := by
  by_cases none : entries = []
  · have clear : (s.cells (.table i)).handler = 0 := slot.empty_iff.mpr none
    rw [none]
    refine Walk.walk_returns id (fun _ => []) [] (.node 0) _ (.table i) rfl (fun h member => absurd member List.not_mem_nil) ?_
      (fun h member => absurd member List.not_mem_nil)
    rw [decide_eq_true clear, Bool.or_true]
  · have handler (h : Ref) (member : h ∈ refs i nodes) : (s.cells h).handler ≠ 0 :=
      slot.handlers (s.entry h) (slot.listed none ▸ List.mem_map_of_mem member)
    rw [slot.listed none, List.map_map, List.map_eq_flatMap]
    refine Walk.walk_returns id _ (refs i nodes) (.node 0) _ (.node 0) ((refs i nodes).map_id.symm ▸ slot.chain.links) (fun h member => ?_) rfl
      (fun h _ => (ends_pure _ _).mpr rfl)
    rw [id, decide_eq_false (slot.chain.nonnull member), decide_eq_false (handler h member), Bool.or_false]

end Chain

theorem interrupts_printed {s : State} {lists : Lists} {nodes : Nat → List Word} (registered : Registered s lists nodes) :
    (interruptsPrintInfo s).Returns ((List.range 256).flatMap (fun i => (lists i).map (handlerLine i))) := by
  obtain ⟨out, returned, whole⟩ := returns_range (fun out i => do
      let lines ← printHandlers s i
      pure (out ++ lines)) (fun n out => out = (List.range n).flatMap (fun i => (lists i).map (handlerLine i))) 0 256 [] rfl
    (fun i out _ inside same => by
      refine ⟨out ++ (lists i).map (handlerLine i), ?_, ?_⟩
      · exact (ends_bind_of_returns _ _ _ _ (registered.slot i (by omega)).printed).mpr ((ends_pure _ _).mpr rfl)
      · rw [same, List.range_succ, List.flatMap_append, List.flatMap_singleton])
  exact whole ▸ returned

theorem interrupts_listing_exact (s₀ s : State) (lists : Lists) (run : Reaches Step (boot s₀, fun _ => []) (s, lists)) :
    (interruptsPrintInfo s).Returns ((List.range 256).flatMap (fun i => (lists i).map (handlerLine i))) ∧
    (∀ i < 256, (isrHandlers (BitVec.ofNat 32 i) s).Returns (lists i)) ∧
    Displayed ((List.range 256).flatMap (fun i => (lists i).map (handlerLine i))) := by
  obtain ⟨nodes, inv⟩ := registered_of_run s₀ s lists run
  refine ⟨interrupts_printed inv.toRegistered, fun i inside => ?_, handler_lines_displayed lists 256⟩
  have number : (BitVec.ofNat 32 i).toNat = i := Nat.mod_eq_of_lt (by omega)
  refine isr_handlers_returns s (BitVec.ofNat 32 i) (lists i) (nodes i) (by omega) ?_
  rw [number]
  exact inv.slot i inside

theorem interrupts_listing_of_keyboard : ∃ s, Reaches Step (boot cold, fun _ => []) (s, meant 0 keyboard (fun _ => [])) ∧
    (interruptsPrintInfo s).Returns [handlerLine 33 (7, 0xC0100000)] := by
  have line : Line 1 := by unfold Line; decide
  obtain ⟨s, returned⟩ := keyboard_returns
  have run : Reaches Step (boot cold, fun _ => []) (s, meant 0 keyboard (fun _ => [])) :=
    .single ⟨keyboard, 0, ⟨line, by decide, .inl rfl⟩, returned, rfl⟩
  have lines : (List.range 256).flatMap (fun i => (meant 0 keyboard (fun _ => []) i).map (handlerLine i)) = [handlerLine 33 (7, 0xC0100000)] := by
    decide +kernel
  exact ⟨s, run, lines ▸ (interrupts_listing_exact cold s _ run).1⟩

end Deimos.Irq
