import Deimos.Irq.Chains

set_option autoImplicit false

namespace Deimos.Irq

open Comp LinkedQueue

def State.Chained (s : State) : Prop := ∀ i < 256, ∃ cells, Links (.node 0) s.next (.table i) cells (.node 0)

def Within (s s' : State) : Prop := ∀ i, 256 ≤ i → s'.cells (.table i) = s.cells (.table i)

def Attached (s : State) (vector : Nat) (e : Entry) : Prop :=
  ∃ h, Relation.ReflTransGen (fun a b => s.next a = b) (.table vector) h ∧ s.entry h = e

theorem chain_inside {s : State} {p h : Ref} {cells : List Ref} (links : Links (.node 0) s.next p cells (.node 0)) (member : h ∈ cells) :
    h = p ∨ ∃ n, h = .node n := by
  induction cells generalizing p with
  | nil => exact absurd member List.not_mem_nil
  | cons t cells ih =>
      obtain ⟨rfl, -, rest⟩ := links
      rcases List.mem_cons.mp member with rfl | later
      · exact .inl rfl
      · rcases ih rest later with rfl | node
        · exact .inr ⟨_, rfl⟩
        · exact .inr node

theorem beyond_chain {h : Ref} (v i : Nat) (inside : v < 256) (beyond : 256 ≤ i) (here : h = .table v ∨ ∃ n, h = .node n) :
    Ref.table i ≠ h := by
  rcases here with rfl | ⟨n, rfl⟩
  · intro same
    have index := Ref.table.inj same
    omega
  · exact Ref.noConfusion

section Frames

variable {s s' : State} {h : Ref} (within : Within s s') (v : Nat) (inside : v < 256) (here : h = .table v ∨ ∃ n, h = .node n)
include within inside here

theorem within_set (f : HandlerPtr → HandlerPtr) : Within s (s'.setCell h f) := fun i beyond =>
  (set_cell_other s' h _ f (beyond_chain v i inside beyond here)).trans (within i beyond)

theorem within_unlink : Within s (unlink h s') := fun i beyond =>
  (unlink_other s' h _ (beyond_chain v i inside beyond here)).trans (within i beyond)

end Frames

section Requests

variable (s : State) (interrupt id handler answer : Word)

-- 256 passes the check and is no index.
theorem request_isr_outside (outside : interrupt = 256) (r : Word × State) : ¬(requestIsr interrupt id handler answer s).Returns r := by
  subst outside
  intro returned
  obtain ⟨h, entry, -⟩ := (returns_bind _ _ _).mp returned
  exact absurd ((ends_lift _ _).mp entry) (by simp [handlerEntry])

theorem accepted_inside (s' : State) (accepted : (requestIsr interrupt id handler answer s).Returns (0, s')) : interrupt.toNat < 256 := by
  by_cases large : interrupt > 256
  · rw [requestIsr, if_pos large] at accepted
    have same : (0 : Word) = 1 := congrArg Prod.fst (Except.ok.inj ((ends_pure _ _).mp accepted))
    exact absurd same (by decide)
  · rw [requestIsr, if_neg large] at accepted
    obtain ⟨h, entry, -⟩ := (returns_bind _ _ _).mp accepted
    have found := (ends_lift _ _).mp entry
    by_contra outside
    rw [handlerEntry, if_neg outside] at found
    exact absurd found (by simp)

theorem last_of_chain {s : State} {v : Nat} {cells : List Ref} (links : Links (.node 0) s.next (.table v) cells (.node 0)) :
    ∃ h, (Chain.last (.node 0) (fun _ => .ok ()) s.next (.table v) : Comp Stop Ref).Returns h ∧ (h = .table v ∨ ∃ n, h = .node n) := by
  cases cells with
  | nil => exact Ref.noConfusion links
  | cons t cells =>
      obtain rfl := links.1
      exact ⟨lastOr (.table v) cells, Chain.last_returns links (fun _ _ => rfl), chain_inside links (last_or_mem_cons _ _)⟩

theorem attached_last {s : State} {v : Nat} {h : Ref} {n : Word} {e : Entry}
    (last : (Chain.last (.node 0) (fun _ => .ok ()) s.next (.table v) : Comp Stop Ref).Returns h) (node : s.entry (.node n) = e) :
    Attached (s.setCell h (fun c => { c with next := n })) v e := by
  obtain ⟨ends, path⟩ := Chain.last_reached (fun _ => rfl) last
  have next := set_cell_next s h (fun c => { c with next := n })
  refine ⟨.node n, .tail (b := h) ?_ ?_, ?_⟩
  · refine Relation.ReflTransGen.mono (fun a b pass => ?_) _ _ path
    have before : a ≠ h := fun same => pass.1 (same ▸ ends)
    rw [next, Function.update_of_ne before]
    exact pass.2
  · rw [next, Function.update_self]
  · rw [set_cell_entry s h (fun c => { c with next := n }) (fun _ => ⟨rfl, rfl⟩)]
    exact node

theorem request_isr_inside (chained : s.Chained) (other : interrupt ≠ 256) :
    ∃ ret s', (requestIsr interrupt id handler answer s).Returns (ret, s') ∧ Within s s' ∧ s'.ports = s.ports ∧
      ((ret = 1 ∧ s'.cells = s.cells ∧ (256 < interrupt.toNat ∨ (s.cells (.table interrupt.toNat)).handler ≠ 0 ∧ answer = 0)) ∨
        ret = 0 ∧ interrupt.toNat < 256 ∧ ((s.cells (.table interrupt.toNat)).handler ≠ 0 → answer ≠ 0) ∧
          Attached s' interrupt.toNat (id, handler)) := by
  by_cases large : interrupt > 256
  · refine ⟨1, s, ?_, fun _ _ => rfl, rfl, .inl ⟨rfl, rfl, .inl large⟩⟩
    rw [requestIsr, if_pos large]
    exact (ends_pure _ _).mpr rfl
  have inside : interrupt.toNat < 256 := by bv_omega
  have table := handler_entry interrupt inside
  unfold requestIsr
  simp only [if_neg large, Returns, ends_bind_of_returns _ _ _ _ table]
  by_cases free : (s.cells (.table interrupt.toNat)).handler = 0
  · rw [if_pos free]
    refine ⟨0, _, (ends_pure _ _).mpr rfl, within_set (fun _ _ => rfl) _ inside (.inl rfl) _, rfl,
      .inr ⟨rfl, inside, fun taken => absurd free taken, .table interrupt.toNat, .refl, ?_⟩⟩
    rw [State.entry, set_cell_self]
  rw [if_neg free]
  by_cases failed : answer = 0
  · rw [if_pos (show (s.kmalloc answer).1 = 0 from failed)]
    exact ⟨1, _, (ends_pure _ _).mpr rfl, fun _ _ => rfl, rfl, .inl ⟨rfl, rfl, .inr ⟨free, failed⟩⟩⟩
  · obtain ⟨cells, links⟩ := chained interrupt.toNat inside
    rw [if_neg (show ¬(s.kmalloc answer).1 = 0 from failed)]
    obtain ⟨cells', links'⟩ := links_cut (.node answer) links
    have next := set_cell_next (s.kmalloc answer).2 (.node answer) (fun _ => ⟨id, handler, 0⟩)
    obtain ⟨h, last, here⟩ := last_of_chain (next ▸ links')
    simp only [State.kmalloc] at last
    simp only [State.kmalloc, ends_bind_of_returns _ _ _ _ last]
    refine ⟨0, _, (ends_pure _ _).mpr rfl, within_set (within_set (fun _ _ => rfl) _ inside (.inr ⟨answer, rfl⟩) _) _ inside here _,
      rfl, .inr ⟨rfl, inside, fun _ => failed, attached_last last ?_⟩⟩
    rw [State.entry, set_cell_self]

end Requests

section Releases

variable (s : State) (interrupt id : Word) (chained : s.Chained)
include chained

theorem release_isr_inside (inside : interrupt.toNat < 256) : ∃ s', (releaseIsr interrupt id s).Returns s' ∧ Within s s' := by
  have same : Within s s := fun _ _ => rfl
  by_cases first : (s.cells (.table interrupt.toNat)).id = id
  · have returned := release_isr_front s interrupt id inside first
    by_cases more : (s.cells (.table interrupt.toNat)).next ≠ 0
    · rw [if_pos more] at returned
      exact ⟨_, returned, within_unlink (within_set same _ inside (.inl rfl) _) _ inside (.inl rfl)⟩
    · rw [if_neg more] at returned
      exact ⟨_, returned, within_set same _ inside (.inl rfl) _⟩
  · obtain ⟨cells, links⟩ := chained interrupt.toNat inside
    cases cells with
    | nil => exact Ref.noConfusion links
    | cons t cells =>
        obtain rfl := links.1
        have free (y : Ref) (_ : y ∈ .table interrupt.toNat :: cells) : (.ok () : Except Stop Unit) = .ok () := rfl
        obtain ⟨r, found, member⟩ := Chain.before_ends (fun t => (s.cells t).id = id) links free
        have returned := release_isr_behind s interrupt id inside first r found
        cases r with
        | none => exact ⟨s, returned, same⟩
        | some h => exact ⟨unlink h s, returned, within_unlink same _ inside (chain_inside links (member h rfl))⟩

theorem release_irq_inside (irq : Word) (inside : (irq + 32).toNat < 256) : ∃ s', (releaseIrq irq id s).Returns s' ∧ Within s s' := by
  obtain ⟨s', released, within⟩ := release_isr_inside s (irq + 32) id chained inside
  unfold releaseIrq
  simp only [Returns, ends_bind_of_returns _ _ _ _ released, ends_bind_of_returns _ _ _ _ (handler_entry (irq + 32) inside)]
  refine ⟨_, (ends_pure _ _).mpr rfl, ?_⟩
  by_cases last : (s'.cells (.table (irq + 32).toNat)).handler = 0
  · rw [if_pos last]
    exact within
  · rw [if_neg last]
    exact within

end Releases

def IrqKept (irq id handler answer : Word) (s : State) : Prop :=
  ∃ ret s', (requestIrq irq id handler answer s).Returns (ret, s') ∧ Within s s' ∧
    (ret = 1 ∧ s'.cells = s.cells ∧ s'.ports = s.ports ∨
      ret = 0 ∧ 32 ≤ (irq + 32).toNat ∧ (irq + 32).toNat < 256 ∧ Attached s' (irq + 32).toNat (id, handler))

section Irqs

variable (s : State) (irq id handler answer : Word)

theorem request_irq_bind : requestIrq irq id handler answer s =
    requestIsr (irq + 32) id handler answer s >>= fun r => pure (r.1, if r.1 = 0 then picUnmaskIrq (irq.setWidth 8) r.2 else r.2) := rfl

theorem irq_kept_iff (chained : s.Chained) : IrqKept irq id handler answer s ↔
    irq ≠ 224 ∧ (irq.toNat < 2 ^ 32 - 32 ∨ (s.cells (.table (irq + 32).toNat)).handler ≠ 0 ∧ answer = 0) := by
  constructor
  · rintro ⟨ret, s', returned, -, outcome⟩
    rw [request_irq_bind] at returned
    obtain ⟨⟨ret', s₁⟩, requested, last⟩ := (returns_bind _ _ _).mp returned
    have other : irq + 32 ≠ 256 := fun outside => request_isr_outside s _ id handler answer outside _ requested
    obtain ⟨rfl, -⟩ := Prod.mk.inj (Except.ok.inj ((ends_pure _ _).mp last))
    refine ⟨by bv_omega, ?_⟩
    by_cases small : irq.toNat < 2 ^ 32 - 32
    · exact .inl small
    · have wraps : (irq + 32).toNat < 32 := by bv_omega
      obtain ⟨ret', s'', requested', -, -, outcome'⟩ := request_isr_inside s (irq + 32) id handler answer chained other
      obtain ⟨rfl, rfl⟩ := Prod.mk.inj (returns_unique _ _ _ requested requested')
      rcases outcome with ⟨rfl, -, -⟩ | ⟨-, high, -⟩
      · rcases outcome' with ⟨-, -, high | failed⟩ | ⟨zero, -⟩
        · omega
        · exact .inr failed
        · exact absurd zero (by decide)
      · omega
  · rintro ⟨other, within⟩
    obtain ⟨ret, s', requested, kept, ports, outcome⟩ := request_isr_inside s (irq + 32) id handler answer chained (by bv_omega)
    rw [IrqKept, request_irq_bind]
    simp only [Returns, ends_bind_of_returns _ _ _ _ requested]
    rcases outcome with ⟨rfl, cells, -⟩ | ⟨rfl, inside, served, attached⟩
    · exact ⟨1, s', (ends_pure _ _).mpr rfl, kept, .inl ⟨rfl, cells, ports⟩⟩
    · refine ⟨0, picUnmaskIrq (irq.setWidth 8) s', (ends_pure _ _).mpr rfl, kept, .inr ⟨rfl, ?_, inside, attached⟩⟩
      rcases within with small | ⟨taken, failed⟩
      · bv_omega
      · exact absurd failed (served taken)

end Irqs

-- The table is left at 256 alone, and an exception's vector taken from -32 on.
theorem handlers_bounded_iff (s : State) (chained : s.Chained) :
    (∀ interrupt id handler answer,
      (∃ ret s', (requestIsr interrupt id handler answer s).Returns (ret, s') ∧ Within s s') ↔ interrupt ≠ 256) ∧
    (∀ irq id handler answer, IrqKept irq id handler answer s ↔
      irq ≠ 224 ∧ (irq.toNat < 2 ^ 32 - 32 ∨ (s.cells (.table (irq + 32).toNat)).handler ≠ 0 ∧ answer = 0)) ∧
    (∀ (line : BitVec 8) id handler answer, IrqKept (line.setWidth 32) id handler answer s ↔ line ≠ 224) ∧
    (∀ interrupt id, (∃ id' handler answer s₀ s₁, (requestIsr interrupt id' handler answer s₀).Returns (0, s₁)) →
      ∃ s', (releaseIsr interrupt id s).Returns s' ∧ Within s s') ∧
    ∀ irq id, (∃ id' handler answer s₀ s₁, (requestIrq irq id' handler answer s₀).Returns (0, s₁)) →
      ∃ s', (releaseIrq irq id s).Returns s' ∧ Within s s' := by
  refine ⟨fun interrupt id handler answer => ⟨?_, fun other => ?_⟩, fun irq id handler answer => irq_kept_iff s irq id handler answer chained,
    fun line id handler answer => ?_, fun interrupt id accepted => ?_, fun irq id accepted => ?_⟩
  · rintro ⟨ret, s', returned, -⟩ outside
    exact request_isr_outside s interrupt id handler answer outside _ returned
  · obtain ⟨ret, s', returned, within, -⟩ := request_isr_inside s interrupt id handler answer chained other
    exact ⟨ret, s', returned, within⟩
  · rw [irq_kept_iff s _ id handler answer chained]
    have small : (line.setWidth 32).toNat < 2 ^ 32 - 32 := by
      have bound := line.isLt
      rw [BitVec.toNat_setWidth]
      omega
    have same : line.setWidth 32 = 224 ↔ line = 224 := by bv_omega
    rw [and_iff_left (.inl small), ne_eq, same]
  · obtain ⟨id', handler, answer, s₀, s₁, requested⟩ := accepted
    exact release_isr_inside s interrupt id chained (accepted_inside s₀ interrupt id' handler answer s₁ requested)
  · obtain ⟨id', handler, answer, s₀, s₁, returned⟩ := accepted
    rw [request_irq_bind] at returned
    obtain ⟨⟨ret, s₂⟩, requested, last⟩ := (returns_bind _ _ _).mp returned
    obtain ⟨rfl, -⟩ := Prod.mk.inj (Except.ok.inj ((ends_pure _ _).mp last))
    exact release_irq_inside s id chained irq (accepted_inside s₀ (irq + 32) id' handler answer s₂ requested)

def noHandlers : State := { cells := fun _ => ⟨0, 0, 0⟩, ports := fun _ => 0xFF, heap := ⟨∅, []⟩ }

theorem no_handlers_chained : noHandlers.Chained := fun i _ => ⟨[.table i], rfl, Ref.noConfusion, rfl⟩

theorem handlers_bounded_at_empty : IrqKept 11 0x1000 0xC0101000 0 noHandlers :=
  ((handlers_bounded_iff noHandlers no_handlers_chained).2.1 11 0x1000 0xC0101000 0).mpr ⟨by decide, .inl (by decide)⟩

theorem request_leaves_table : ¬∀ (s : State) (interrupt id handler answer : Word), s.Chained →
    ∃ ret s', (requestIsr interrupt id handler answer s).Returns (ret, s') ∧ Within s s' := by
  intro claim
  obtain ⟨ret, s', returned, -⟩ := claim noHandlers 256 0x1000 0xC0101000 0 no_handlers_chained
  exact request_isr_outside noHandlers 256 _ _ _ rfl _ returned

end Deimos.Irq
