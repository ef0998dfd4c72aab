import Mathlib.Data.List.TakeWhile
import Deimos.Irq.Model

set_option autoImplicit false

namespace Deimos.Irq

open Comp LinkedQueue

abbrev Entry := Word × Word

def State.entry (s : State) (h : Ref) : Entry := ((s.cells h).id, (s.cells h).handler)

def refs (i : Nat) (nodes : List Word) : List Ref := .table i :: nodes.map .node

-- The chain of handlers[i]: its first entry is in the table, the others are
-- in the nodes, and with no entries the table is clear.
structure Slot (s : State) (i : Nat) (entries : List Entry) (nodes : List Word) : Prop where
  chain : Queue (.node 0) s.next (.table i) (lastOr (.node 0) (refs i nodes)) (refs i nodes)
  contents : entries = [] ∧ nodes = [] ∧ s.cells (.table i) = ⟨0, 0, 0⟩ ∨ entries = (refs i nodes).map s.entry
  handlers : ∀ e ∈ entries, e.2 ≠ 0

structure Registered (s : State) (lists : Nat → List Entry) (nodes : Nat → List Word) : Prop where
  slot : ∀ i < 256, Slot s i (lists i) (nodes i)
  apart : ∀ i < 256, ∀ j < 256, ∀ p, p ∈ nodes i → p ∈ nodes j → i = j
  live : ∀ i < 256, ∀ p ∈ nodes i, p ∈ s.heap.live

-- What becomes of the nodes of a chain that an id is released from.
inductive Released (heap heap' : Ledger Word) : List Word → List Word → Prop
  | kept (nodes : List Word) (same : heap' = heap) : Released heap heap' nodes nodes
  | freed (front back : List Word) (p : Word) (after : heap' = heap.free p) : Released heap heap' (front ++ p :: back) (front ++ back)

theorem set_cell_self (s : State) (h : Ref) (f : HandlerPtr → HandlerPtr) : (s.setCell h f).cells h = f (s.cells h) :=
  Function.update_self h _ s.cells

theorem set_cell_other (s : State) (h h' : Ref) (f : HandlerPtr → HandlerPtr) (other : h' ≠ h) :
    (s.setCell h f).cells h' = s.cells h' := Function.update_of_ne other _ s.cells

theorem set_cell_next (s : State) (h : Ref) (f : HandlerPtr → HandlerPtr) :
    (s.setCell h f).next = Function.update s.next h (.node (f (s.cells h)).next) := by
  funext h'
  by_cases here : h' = h
  · rw [here, State.next, set_cell_self, Function.update_self]
  · rw [State.next, set_cell_other s h h' f here, Function.update_of_ne here]
    rfl

theorem set_cell_entry (s : State) (h : Ref) (f : HandlerPtr → HandlerPtr) (same : ∀ c, (f c).id = c.id ∧ (f c).handler = c.handler) :
    (s.setCell h f).entry = s.entry := by
  funext h'
  by_cases here : h' = h
  · rw [here, State.entry, set_cell_self, (same _).1, (same _).2]
    rfl
  · rw [State.entry, set_cell_other s h h' f here]
    rfl

theorem mem_refs (i : Nat) (nodes : List Word) (h : Ref) : h ∈ refs i nodes ↔ h = .table i ∨ ∃ p ∈ nodes, h = .node p := by
  simp only [refs, List.mem_cons, List.mem_map]
  constructor
  · rintro (here | ⟨p, member, rfl⟩)
    · exact .inl here
    · exact .inr ⟨p, member, rfl⟩
  · rintro (here | ⟨p, member, rfl⟩)
    · exact .inl here
    · exact .inr ⟨p, member, rfl⟩

theorem refs_apart {i j : Nat} {nodes nodes' : List Word} (other : j ≠ i) (apart : ∀ p ∈ nodes', p ∉ nodes) (h : Ref)
    (member : h ∈ refs j nodes') : h ∉ refs i nodes := by
  intro shared
  rcases (mem_refs j nodes' h).mp member with rfl | ⟨p, inner, rfl⟩ <;> rcases (mem_refs i nodes _).mp shared with same | ⟨q, here, same⟩
  · exact other (Ref.table.inj same)
  · cases same
  · cases same
  · exact apart p inner (Ref.node.inj same ▸ here)

theorem last_mem_refs (i : Nat) (front back : List Word) : lastOr (Ref.table i) (front.map Ref.node) ∈ refs i (front ++ back) := by
  obtain ⟨first, shape⟩ := cons_eq_concat (Ref.table i) (front.map Ref.node)
  rw [refs, List.map_append, ← List.cons_append, shape]
  exact List.mem_append_left _ (List.mem_append_right first (List.mem_singleton.mpr rfl))

section Slots

variable {s s' : State} {i : Nat} {entries : List Entry} {nodes : List Word}

theorem Slot.congr (slot : Slot s i entries nodes) (same : ∀ h ∈ refs i nodes, s'.cells h = s.cells h) : Slot s' i entries nodes := by
  refine ⟨slot.chain.congr (fun h member => ?_), ?_, slot.handlers⟩
  · rw [State.next, same h member]
    rfl
  · have table := same (.table i) ((mem_refs i nodes _).mpr (.inl rfl))
    have map : (refs i nodes).map s'.entry = (refs i nodes).map s.entry :=
      List.map_congr_left (fun h member => by rw [State.entry, same h member]; rfl)
    rw [table, map]
    exact slot.contents

theorem Slot.nonnull (slot : Slot s i entries nodes) (p : Word) (member : p ∈ nodes) : p ≠ 0 := by
  rintro rfl
  exact slot.chain.nonnull ((mem_refs i nodes _).mpr (.inr ⟨0, member, rfl⟩)) rfl

theorem Slot.empty_iff (slot : Slot s i entries nodes) : (s.cells (.table i)).handler = 0 ↔ entries = [] := by
  rcases slot.contents with ⟨none, -, clear⟩ | some
  · exact iff_of_true (by rw [clear]) none
  · have member : s.entry (.table i) ∈ entries := by
      rw [some]
      exact List.mem_map_of_mem ((mem_refs i nodes _).mpr (.inl rfl))
    exact iff_of_false (slot.handlers _ member) (List.ne_nil_of_mem member)

theorem Slot.listed (slot : Slot s i entries nodes) (nonempty : entries ≠ []) : entries = (refs i nodes).map s.entry :=
  slot.contents.resolve_left (fun none => nonempty none.1)

theorem Slot.nonempty (slot : Slot s i entries nodes) (p : Word) (member : p ∈ nodes) : entries ≠ [] := by
  rintro rfl
  rcases slot.contents with clear | listed
  · rw [clear.2.1] at member
    exact List.not_mem_nil member
  · exact List.cons_ne_nil _ _ listed.symm

theorem Slot.start (slot : Slot s i [] nodes) (id handler : Word) (nonnull : handler ≠ 0) :
    Slot (s.setCell (.table i) (fun c => { c with id := id, handler := handler })) i [(id, handler)] nodes := by
  have clear : nodes = [] ∧ s.cells (.table i) = ⟨0, 0, 0⟩ := by
    rcases slot.contents with none | some
    · exact none.2
    · exact absurd some.symm (by simp [refs])
  refine ⟨?_, .inr ?_, fun e member => ?_⟩
  · rw [set_cell_next]
    have same : Function.update s.next (.table i) (.node (s.cells (.table i)).next) = s.next := Function.update_eq_self _ _
    rw [same]
    exact slot.chain
  · rw [clear.1, refs, List.map_nil, List.map_singleton, State.entry, set_cell_self]
  · rw [List.mem_singleton.mp member]
    exact nonnull

theorem Slot.append (slot : Slot s i entries nodes) (n id handler : Word) (nonnull : handler ≠ 0) (null : n ≠ 0) (fresh : n ∉ nodes)
    (nonempty : entries ≠ []) (filled : s.cells (.node n) = ⟨id, handler, 0⟩) :
    Slot (s.setCell (lastOr (.table i) (nodes.map .node)) (fun c => { c with next := n })) i (entries ++ [(id, handler)])
      (nodes ++ [n]) := by
  have fresh' : Ref.node n ∉ refs i nodes := by
    rw [mem_refs]
    rintro (table | ⟨p, member, same⟩)
    · cases table
    · cases same
      exact fresh member
  have clear : s.next (.node n) = .node 0 := by rw [State.next, filled]
  have longer : refs i (nodes ++ [n]) = refs i nodes ++ [.node n] := by simp [refs]
  have pushed := queue_push slot.chain (List.cons_ne_nil _ _) fresh' (by simpa using null) clear
  refine ⟨?_, .inr ?_, fun e member => ?_⟩
  · rw [set_cell_next, longer, last_or_concat]
    exact pushed
  · have last : s.entry (.node n) = (id, handler) := by rw [State.entry, filled]
    rw [set_cell_entry s _ (fun c => { c with next := n }) (fun _ => ⟨rfl, rfl⟩), longer, List.map_append, ← slot.listed nonempty,
      List.map_singleton, last]
  · rcases List.mem_append.mp member with old | new
    · exact slot.handlers e old
    · rw [List.mem_singleton.mp new]
      exact nonnull

end Slots

theorem unlink_chain (s : State) (i : Nat) (front back : List Word) (p : Word) (h : Ref)
    (last : lastOr (Ref.table i) (front.map Ref.node) = h)
    (chain : Queue (.node 0) s.next (.table i) (lastOr (.node 0) (refs i (front ++ p :: back))) (refs i (front ++ p :: back))) :
    Queue (.node 0) (unlink h s).next (.table i) (lastOr (.node 0) (refs i (front ++ back))) (refs i (front ++ back)) ∧
      (unlink h s).heap = s.heap.free p := by
  obtain ⟨first, shape⟩ := cons_eq_concat (Ref.table i) (front.map Ref.node)
  rw [last] at shape
  have whole (rest : List Word) : refs i (front ++ rest) = first ++ h :: rest.map .node := by
    rw [refs, List.map_append, ← List.cons_append, shape, List.append_assoc]
    rfl
  rw [whole, List.map_cons] at chain
  obtain ⟨-, -, -, -, here, -⟩ := links_append.mp chain.links
  have link : (s.cells h).next = p := Ref.node.inj here
  constructor
  · have after : (unlink h s).next = Function.update s.next h (s.next (.node p)) := by
      rw [← link]
      exact set_cell_next s h (fun c => { c with next := (s.cells (.node (s.cells h).next)).next })
    rw [after, whole]
    exact queue_remove chain
  · rw [← link]
    rfl

section Release

variable {s : State} {i : Nat} {entries : List Entry} {nodes : List Word}

theorem unlink_entry (s : State) (h : Ref) : (unlink h s).entry = s.entry :=
  set_cell_entry s h (fun c => { c with next := (s.cells (.node (s.cells h).next)).next }) (fun _ => ⟨rfl, rfl⟩)

theorem unlink_other (s : State) (h h' : Ref) (other : h' ≠ h) : (unlink h s).cells h' = s.cells h' :=
  set_cell_other s h h' (fun c => { c with next := (s.cells (.node (s.cells h).next)).next }) other

def moveUp (h : Ref) (s : State) : State :=
  s.setCell h (fun c => { c with id := (s.cells (s.next h)).id, handler := (s.cells (s.next h)).handler })

theorem Slot.next_table (p : Word) (slot : Slot s i entries (p :: nodes)) : s.next (.table i) = .node p :=
  slot.chain.links.2.2.1

theorem Slot.release_first (p : Word) (slot : Slot s i entries (p :: nodes)) :
    Slot (unlink (.table i) (moveUp (.table i) s)) i entries.tail nodes ∧
      (unlink (.table i) (moveUp (.table i) s)).heap = s.heap.free p := by
  have links : (moveUp (.table i) s).next = s.next := by
    rw [moveUp, set_cell_next]
    exact Function.update_eq_self _ _
  have chain := slot.chain
  rw [← links] at chain
  obtain ⟨after, heap⟩ := unlink_chain (moveUp (.table i) s) i [] nodes p (.table i) rfl chain
  have nonempty := slot.nonempty p List.mem_cons_self
  have table : (moveUp (.table i) s).entry (.table i) = s.entry (.node p) := by
    rw [State.entry, moveUp, set_cell_self, slot.next_table]
    rfl
  have others : (nodes.map Ref.node).map (moveUp (.table i) s).entry = (nodes.map Ref.node).map s.entry := by
    apply List.map_congr_left
    intro h member
    obtain ⟨q, -, rfl⟩ := List.mem_map.mp member
    rw [State.entry, moveUp, set_cell_other s _ _ _ (by simp)]
    rfl
  refine ⟨⟨after, .inr ?_, fun e member => slot.handlers e (List.mem_of_mem_tail member)⟩, heap⟩
  rw [unlink_entry]
  change entries.tail = ((.table i :: nodes.map .node : List Ref)).map (moveUp (.table i) s).entry
  rw [List.map_cons, table, others, slot.listed nonempty]
  rfl

theorem slot_clear (s : State) (i : Nat) (clear : s.cells (.table i) = ⟨0, 0, 0⟩) : Slot s i [] [] := by
  refine ⟨⟨⟨rfl, by simp, ?_⟩, rfl, List.nodup_singleton _⟩, .inl ⟨rfl, rfl, clear⟩, by simp⟩
  rw [State.next, clear]
  rfl

theorem Slot.release_later (front back : List Word) (p : Word) (h : Ref) (last : lastOr (Ref.table i) (front.map Ref.node) = h)
    (slot : Slot s i entries (front ++ p :: back)) :
    Slot (unlink h s) i ((refs i (front ++ back)).map s.entry) (front ++ back) ∧ (unlink h s).heap = s.heap.free p := by
  obtain ⟨after, heap⟩ := unlink_chain s i front back p h last slot.chain
  have listed : entries = (refs i (front ++ p :: back)).map s.entry := by
    rcases slot.contents with none | some
    · exact absurd none.2.1 (by simp)
    · exact some
  refine ⟨⟨after, .inr (by rw [unlink_entry]), fun e member => slot.handlers e ?_⟩, heap⟩
  rw [listed]
  obtain ⟨h, inside, rfl⟩ := List.mem_map.mp member
  apply List.mem_map_of_mem
  rw [mem_refs] at inside ⊢
  rcases inside with table | ⟨q, listed, rfl⟩
  · exact .inl table
  · refine .inr ⟨q, ?_, rfl⟩
    rcases List.mem_append.mp listed with before | behind
    · exact List.mem_append_left _ before
    · exact List.mem_append_right _ (List.mem_cons_of_mem p behind)

theorem handler_entry (interrupt : Word) (inside : interrupt.toNat < 256) :
    (liftM (handlerEntry interrupt) : Comp Stop Ref).Returns (.table interrupt.toNat) :=
  (ends_lift _ _).mpr (if_pos inside).symm

def hasId (s : State) (id p : Word) : Bool := decide ((s.cells (.node p)).id = id)

theorem erase_refs (s : State) (i : Nat) (id : Word) (nodes : List Word) (first : (s.cells (.table i)).id ≠ id) :
    ((refs i nodes).map s.entry).eraseP (·.1 = id) = (refs i (nodes.eraseP (hasId s id))).map s.entry := by
  rw [refs, refs, List.map_cons, List.map_cons, List.eraseP_cons_of_neg (by exact fun same => first (of_decide_eq_true same)), List.eraseP_map,
    List.eraseP_map]
  rfl

theorem Slot.erase_front (id : Word) (slot : Slot s i entries nodes) (first : (s.cells (.table i)).id = id) :
    entries.eraseP (·.1 = id) = entries.tail := by
  by_cases none : entries = []
  · rw [none]
    rfl
  · rw [slot.listed none]
    exact List.eraseP_cons_of_pos (by exact decide_eq_true first)

theorem Slot.erase_none (id : Word) (slot : Slot s i entries nodes) (first : (s.cells (.table i)).id ≠ id)
    (absent : ∀ p ∈ nodes, hasId s id p = false) : entries.eraseP (·.1 = id) = entries := by
  by_cases none : entries = []
  · rw [none]
    rfl
  · rw [slot.listed none, erase_refs s i id nodes first,
      List.eraseP_of_forall_not (fun p member => by rw [absent p member]; exact Bool.false_ne_true)]

-- The search of release_isr for the cell in front.
def seek (s : State) (id : Word) (h : Ref) : Comp Stop (Option Ref) :=
  Chain.before (.node 0) (fun _ => .ok ()) s.next (fun t => (s.cells t).id = id) h

theorem Slot.seek_found (id : Word) (front back : List Word) (p : Word) (slot : Slot s i entries (front ++ p :: back))
    (absent : ∀ q ∈ front, ¬hasId s id q) (here : hasId s id p) :
    (seek s id (.table i)).Returns (some (lastOr (Ref.table i) (front.map Ref.node))) := by
  have links := slot.chain.links
  rw [refs, List.map_append, List.map_cons] at links
  apply Chain.before_some _ links (fun _ _ => rfl) here
  intro t inside
  obtain ⟨q, before, rfl⟩ := List.mem_map.mp inside
  exact eq_false_of_ne_true (absent q before)

theorem Slot.seek_missing (id : Word) (slot : Slot s i entries nodes) (absent : ∀ p ∈ nodes, hasId s id p = false) :
    (seek s id (.table i)).Returns none := by
  apply Chain.before_none _ slot.chain.links (fun _ _ => rfl)
  intro t inside
  obtain ⟨q, before, rfl⟩ := List.mem_map.mp inside
  exact absent q before

theorem release_isr_front (s : State) (interrupt id : Word) (inside : interrupt.toNat < 256)
    (first : (s.cells (.table interrupt.toNat)).id = id) :
    (releaseIsr interrupt id s).Returns
      (if (s.cells (.table interrupt.toNat)).next ≠ 0 then unlink (.table interrupt.toNat) (moveUp (.table interrupt.toNat) s)
      else s.setCell (.table interrupt.toNat) (fun _ => ⟨0, 0, 0⟩)) := by
  unfold releaseIsr
  apply (ends_bind_of_returns _ _ _ _ (handler_entry interrupt inside)).mpr
  rw [if_pos first]
  by_cases more : (s.cells (.table interrupt.toNat)).next ≠ 0
  · rw [if_pos more, if_pos more]
    exact (ends_pure _ _).mpr rfl
  · rw [if_neg more, if_neg more]
    exact (ends_pure _ _).mpr rfl

theorem release_isr_behind (s : State) (interrupt id : Word) (inside : interrupt.toNat < 256)
    (first : (s.cells (.table interrupt.toNat)).id ≠ id) (r : Option Ref) (found : (seek s id (.table interrupt.toNat)).Returns r) :
    (releaseIsr interrupt id s).Returns (r.elim s (unlink · s)) := by
  unfold releaseIsr
  apply (ends_bind_of_returns _ _ _ _ (handler_entry interrupt inside)).mpr
  rw [if_neg first]
  apply (ends_bind_of_returns _ _ _ _ found).mpr
  cases r with
  | none => exact (ends_pure _ _).mpr rfl
  | some h => exact (ends_pure _ _).mpr rfl

theorem release_isr_slot (interrupt id : Word) (inside : interrupt.toNat < 256) (slot : Slot s interrupt.toNat entries nodes) :
    ∃ s' nodes', (releaseIsr interrupt id s).Returns s' ∧ Slot s' interrupt.toNat (entries.eraseP (·.1 = id)) nodes' ∧
      Released s.heap s'.heap nodes nodes' ∧ s'.ports = s.ports ∧ ∀ h, h ∉ refs interrupt.toNat nodes → s'.cells h = s.cells h := by
  have table : Ref.table interrupt.toNat ∈ refs interrupt.toNat nodes := (mem_refs _ nodes _).mpr (.inl rfl)
  by_cases first : (s.cells (.table interrupt.toNat)).id = id
  · have returned := release_isr_front s interrupt id inside first
    rw [slot.erase_front id first]
    cases nodes with
    | nil =>
        have last : (s.cells (.table interrupt.toNat)).next = 0 := Ref.node.inj slot.chain.links.2.2
        have none : entries.tail = [] := by
          rcases slot.contents with clear | single
          · rw [clear.1]
            rfl
          · rw [single]
            rfl
        rw [if_neg (not_not.mpr last)] at returned
        refine ⟨_, [], returned, ?_, .kept [] rfl, rfl, fun h outside => ?_⟩
        · rw [none]
          exact slot_clear _ _ (set_cell_self s _ _)
        · exact set_cell_other s _ h _ (fun same => outside (same ▸ table))
    | cons p back =>
        have link : (s.cells (.table interrupt.toNat)).next = p := Ref.node.inj slot.next_table
        have nonnull : p ≠ 0 := slot.nonnull p List.mem_cons_self
        obtain ⟨after, heap⟩ := slot.release_first p
        rw [if_pos (by rw [link]; exact nonnull)] at returned
        refine ⟨_, back, returned, after, heap ▸ .freed [] back p rfl, rfl, fun h outside => ?_⟩
        have other : h ≠ .table interrupt.toNat := fun same => outside (same ▸ table)
        rw [unlink_other _ _ h other, moveUp, set_cell_other s _ h _ other]
  · by_cases present : ∃ p ∈ nodes, hasId s id p
    · obtain ⟨q, member, same⟩ := present
      obtain ⟨p, front, back, absent, here, rfl, shorter⟩ := List.exists_of_eraseP member same
      have returned := release_isr_behind s interrupt id inside first _ (slot.seek_found id front back p absent here)
      obtain ⟨after, heap⟩ := slot.release_later front back p _ rfl
      have last := last_mem_refs interrupt.toNat front (p :: back)
      refine ⟨_, front ++ back, returned, ?_, heap ▸ .freed front back p rfl, rfl, fun h outside => ?_⟩
      · rw [slot.listed (slot.nonempty q member), erase_refs s _ id _ first, shorter]
        exact after
      · exact unlink_other s _ h (fun same => outside (same ▸ last))
    · have absent (p : Word) (member : p ∈ nodes) : hasId s id p = false := eq_false_of_ne_true (fun same => present ⟨p, member, same⟩)
      have returned := release_isr_behind s interrupt id inside first _ (slot.seek_missing id absent)
      refine ⟨_, nodes, returned, ?_, .kept nodes rfl, rfl, fun _ _ => rfl⟩
      rw [slot.erase_none id first absent]
      exact slot

end Release

inductive Requested (s s' : State) (entries : List Entry) (answer : Word) (nodes : List Word) : Word → List Word → Prop
  | refused (taken : entries ≠ []) (failed : answer = 0) (same : s' = s) : Requested s s' entries answer nodes 1 nodes
  | first (none : entries = []) (heap : s'.heap = s.heap) : Requested s s' entries answer nodes 0 nodes
  | appended (taken : entries ≠ []) (served : answer ≠ 0) (heap : s'.heap = s.heap.take 0 answer) :
      Requested s s' entries answer nodes 0 (nodes ++ [answer])

theorem request_isr_slot (s : State) (entries : List Entry) (nodes : List Word) (interrupt id handler answer : Word)
    (inside : interrupt.toNat < 256) (nonnull : handler ≠ 0) (fresh : answer ∉ nodes) (slot : Slot s interrupt.toNat entries nodes) :
    ∃ ret s' nodes', (requestIsr interrupt id handler answer s).Returns (ret, s') ∧
      Slot s' interrupt.toNat (if ret = 0 then entries ++ [(id, handler)] else entries) nodes' ∧
      Requested s s' entries answer nodes ret nodes' ∧ s'.ports = s.ports ∧
      ∀ h, h ∉ refs interrupt.toNat nodes' → s'.cells h = s.cells h := by
  have small : ¬interrupt > 256 := by
    rw [gt_iff_lt, BitVec.lt_def, Nat.not_lt]
    exact Nat.le_of_lt inside
  unfold requestIsr Returns
  simp only [if_neg small, ends_bind_of_returns _ _ _ _ (handler_entry interrupt inside)]
  generalize interrupt.toNat = i at slot
  by_cases none : entries = []
  · subst none
    refine ⟨0, _, nodes, ?_, slot.start id handler nonnull, .first rfl rfl, rfl, fun h outside => ?_⟩
    · rw [if_pos (slot.empty_iff.mpr rfl)]
      exact (ends_pure _ _).mpr rfl
    · exact set_cell_other s _ h _ (fun same => outside ((mem_refs i nodes h).mpr (.inl same)))
  · simp only [if_neg (fun clear => none (slot.empty_iff.mp clear))]
    by_cases failed : answer = 0
    · refine ⟨1, s, nodes, ?_, slot, .refused none failed rfl, rfl, fun _ _ => rfl⟩
      rw [failed, State.kmalloc, if_pos rfl, Ledger.take_null]
      exact (ends_pure _ _).mpr rfl
    · let s' : State := { s with heap := s.heap.take 0 answer }.setCell (.node answer) (fun _ => ⟨id, handler, 0⟩)
      have other (h : Ref) (old : h ∈ refs i nodes) : h ≠ .node answer := by
        rintro rfl
        rcases (mem_refs i nodes _).mp old with table | ⟨p, member, same⟩
        · cases table
        · cases same
          exact fresh member
      have kept : Slot s' i entries nodes := slot.congr (fun h member => set_cell_other _ _ h _ (other h member))
      have filled : s'.cells (.node answer) = ⟨id, handler, 0⟩ := set_cell_self _ _ _
      have last : (Chain.last (.node 0) (fun _ => .ok ()) s'.next (.table i) : Comp Stop Ref).Returns (lastOr (Ref.table i) (nodes.map Ref.node)) :=
        Chain.last_returns kept.chain.links (fun _ _ => rfl)
      refine ⟨0, _, nodes ++ [answer], ?_, kept.append answer id handler nonnull failed fresh none filled,
        .appended none failed rfl, rfl, fun h outside => ?_⟩
      · rw [if_neg (show ¬(s.kmalloc answer).1 = 0 from failed)]
        exact (ends_bind_of_returns _ _ _ _ last).mpr ((ends_pure _ _).mpr rfl)
      · have here : h ≠ .node answer := fun same => outside ((mem_refs i _ h).mpr (.inr ⟨answer, by simp, same⟩))
        have tail : h ≠ lastOr (Ref.table i) (nodes.map Ref.node) := fun same => outside (same ▸ last_mem_refs i nodes [answer])
        rw [set_cell_other _ _ h _ tail]
        exact set_cell_other _ _ h _ here

def handles (e : Entry) : Bool := e.2 ≠ 0

theorem handles_iff (e : Entry) : handles e = true ↔ e.2 ≠ 0 := decide_eq_true_iff

theorem walk_returns (s : State) (p : Ref) (cells : List Ref) (called : List Entry)
    (links : Links (.node 0) s.next p cells (.node 0)) :
    (loop (walkBody s) (p, called)).Returns (called.reverse ++ (cells.map s.entry).takeWhile handles) := by
  induction cells generalizing p called with
  | nil =>
      have ends : walkBody s (p, called) = .ok (.done called.reverse) := if_pos (.inl links)
      rw [Returns, ends_loop_done _ _ _ _ ends, List.map_nil, List.takeWhile_nil, List.append_nil]
  | cons h cells ih =>
      obtain ⟨rfl, nonnull, rest⟩ := links
      rw [List.map_cons]
      by_cases none : (s.cells p).handler = 0
      · have ends : walkBody s (p, called) = .ok (.done called.reverse) := if_pos (.inr none)
        rw [Returns, ends_loop_done _ _ _ _ ends, List.takeWhile_cons_of_neg (fun calls => (handles_iff _).mp calls none), List.append_nil]
      · have pass : walkBody s (p, called) = .ok (.next (s.next p, s.entry p :: called)) := if_neg (not_or.mpr ⟨nonnull, none⟩)
        have whole := ih (s.next p) (s.entry p :: called) rest
        rw [Returns, ends_loop_next _ _ _ _ pass, List.takeWhile_cons_of_pos ((handles_iff _).mpr none)]
        rwa [List.reverse_cons, List.append_assoc] at whole

theorem isr_handlers_calls (s : State) (interrupt : Word) (cells : List Ref) (inside : interrupt.toNat < 256)
    (links : Links (.node 0) s.next (.table interrupt.toNat) cells (.node 0)) :
    (isrHandlers interrupt s).Returns ((cells.map s.entry).takeWhile handles) := by
  unfold isrHandlers Returns
  rw [ends_bind_of_returns _ _ _ _ (handler_entry interrupt inside)]
  exact walk_returns s _ cells [] links

theorem isr_handlers_returns (s : State) (interrupt : Word) (entries : List Entry) (nodes : List Word)
    (inside : interrupt.toNat < 256) (slot : Slot s interrupt.toNat entries nodes) : (isrHandlers interrupt s).Returns entries := by
  have calls := isr_handlers_calls s interrupt _ inside slot.chain.links
  by_cases none : entries = []
  · have clear : (s.cells (.table interrupt.toNat)).handler = 0 := slot.empty_iff.mpr none
    rw [refs, List.map_cons, List.takeWhile_cons_of_neg (fun calls => (handles_iff _).mp calls clear)] at calls
    rwa [none]
  · rw [← slot.listed none] at calls
    rwa [List.takeWhile_eq_self_iff.mpr (fun e member => (handles_iff e).mpr (slot.handlers e member))] at calls

section Table

variable {s s' : State} {lists : Nat → List Entry} {nodes : Nat → List Word}

theorem Registered.step (registered : Registered s lists nodes) (i : Nat) (entries' : List Entry) (nodes' : List Word)
    (slot : Slot s' i entries' nodes') (frame : ∀ h, h ∉ refs i (nodes i) → h ∉ refs i nodes' → s'.cells h = s.cells h)
    (inside : i < 256) (source : ∀ p ∈ nodes', p ∈ nodes i ∨ p ∉ s.heap.live)
    (live : ∀ p, p ∈ s'.heap.live ↔ p ∈ s.heap.live ∧ p ∉ nodes i ∨ p ∈ nodes') :
    Registered s' (Function.update lists i entries') (Function.update nodes i nodes') := by
  have foreign (j : Nat) (bound : j < 256) (other : j ≠ i) (p : Word) (member : p ∈ nodes j) : p ∉ nodes i ∧ p ∉ nodes' := by
    have mine : p ∉ nodes i := fun here => other (registered.apart j bound i inside p member here)
    refine ⟨mine, fun here => ?_⟩
    rcases source p here with old | fresh
    · exact mine old
    · exact fresh (registered.live j bound p member)
  have away (j : Nat) (bound : j < 256) (other : j ≠ i) : ∀ h ∈ refs j (nodes j), s'.cells h = s.cells h := by
    intro h member
    have foreign := foreign j bound other
    exact frame h (refs_apart other (fun p inner => (foreign p inner).1) h member) (refs_apart other (fun p inner => (foreign p inner).2) h member)
  refine ⟨fun j bound => ?_, fun j bound k bound' p left right => ?_, fun j bound p member => ?_⟩
  · by_cases here : j = i
    · subst here
      rw [Function.update_self, Function.update_self]
      exact slot
    · rw [Function.update_of_ne here, Function.update_of_ne here]
      exact (registered.slot j bound).congr (away j bound here)
  · by_cases here : j = i <;> by_cases there : k = i
    · rw [here, there]
    · rw [here, Function.update_self] at left
      rw [Function.update_of_ne there] at right
      exact absurd left (foreign k bound' there p right).2
    · rw [there, Function.update_self] at right
      rw [Function.update_of_ne here] at left
      exact absurd right (foreign j bound here p left).2
    · rw [Function.update_of_ne here] at left
      rw [Function.update_of_ne there] at right
      exact registered.apart j bound k bound' p left right
  · by_cases here : j = i
    · rw [here, Function.update_self] at member
      exact (live p).mpr (.inr member)
    · rw [Function.update_of_ne here] at member
      exact (live p).mpr (.inl ⟨registered.live j bound p member, (foreign j bound here p member).1⟩)

theorem Released.subset {heap heap' : Ledger Word} {before after : List Word} (released : Released heap heap' before after) :
    ∀ p ∈ after, p ∈ before := by
  intro p member
  cases released with
  | kept _ same => exact member
  | freed front back q gone =>
      rcases List.mem_append.mp member with early | late
      · exact List.mem_append_left _ early
      · exact List.mem_append_right _ (List.mem_cons_of_mem q late)

theorem Released.mem_live {heap heap' : Ledger Word} {before after : List Word} (released : Released heap heap' before after)
    (nodup : before.Nodup) (held : ∀ p ∈ before, p ∈ heap.live) (p : Word) :
    p ∈ heap'.live ↔ p ∈ heap.live ∧ p ∉ before ∨ p ∈ after := by
  cases released with
  | kept _ same =>
      rw [same]
      by_cases mine : p ∈ before
      · exact iff_of_true (held p mine) (.inr mine)
      · simp [mine]
  | freed front back q gone =>
      have middle : (front ++ q :: back).Perm (q :: (front ++ back)) := List.perm_middle
      have absent : q ∉ front ++ back := (List.nodup_cons.mp (middle.nodup_iff.mp nodup)).1
      rw [gone, Ledger.mem_free, middle.mem_iff, List.mem_cons, not_or]
      by_cases mine : p ∈ front ++ back
      · have other : p ≠ q := fun same => absent (same ▸ mine)
        exact iff_of_true ⟨held p (middle.mem_iff.mpr (List.mem_cons_of_mem q mine)), other⟩ (.inr mine)
      · simp only [mine, not_false_eq_true, and_true, or_false]

theorem Requested.mem_live {entries : List Entry} {answer ret : Word} {before after : List Word}
    (requested : Requested s s' entries answer before ret after) (held : ∀ p ∈ before, p ∈ s.heap.live) (p : Word) :
    p ∈ s'.heap.live ↔ p ∈ s.heap.live ∧ p ∉ before ∨ p ∈ after := by
  have old (heap : s'.heap = s.heap) : p ∈ s'.heap.live ↔ p ∈ s.heap.live ∧ p ∉ before ∨ p ∈ before := by
    rw [heap]
    by_cases mine : p ∈ before
    · exact iff_of_true (held p mine) (.inr mine)
    · simp [mine]
  cases requested with
  | refused taken failed same => exact old (congrArg State.heap same)
  | first none heap => exact old heap
  | appended taken served heap =>
      rw [heap, Ledger.take_live served, List.mem_cons, List.mem_append, List.mem_singleton]
      by_cases mine : p ∈ before
      · exact iff_of_true (.inr (held p mine)) (.inr (.inl mine))
      · simp only [mine, not_false_eq_true, and_true, false_or]
        exact or_comm

theorem Requested.subset {entries : List Entry} {answer ret : Word} {before after : List Word}
    (requested : Requested s s' entries answer before ret after) : ∀ p ∈ before, p ∈ after := by
  intro p member
  cases requested with
  | refused taken failed same => exact member
  | first none heap => exact member
  | appended taken served heap => exact List.mem_append_left _ member

theorem Requested.fresh {entries : List Entry} {answer ret : Word} {before after : List Word}
    (requested : Requested s s' entries answer before ret after) (fresh : s.heap.Fresh 0 answer) (p : Word) (member : p ∈ after)
    (new : p ∉ before) : p ∉ s.heap.live := by
  cases requested with
  | refused taken failed same => exact absurd member new
  | first none heap => exact absurd member new
  | appended taken served heap =>
      rcases List.mem_append.mp member with old | here
      · exact absurd old new
      · rw [List.mem_singleton.mp here]
        exact fresh.resolve_left served

theorem Slot.nodes_nodup {s : State} {i : Nat} {entries : List Entry} {nodes : List Word} (slot : Slot s i entries nodes) :
    nodes.Nodup := by
  have nodup := (List.nodup_cons.mp slot.chain.nodup).2
  exact List.Nodup.of_map _ nodup

theorem Registered.congr (registered : Registered s lists nodes) (cells : s'.cells = s.cells)
    (live : ∀ i < 256, ∀ p ∈ nodes i, p ∈ s'.heap.live) : Registered s' lists nodes :=
  ⟨fun i inside => (registered.slot i inside).congr (fun h _ => congrFun cells h), registered.apart, live⟩

theorem Registered.release (registered : Registered s lists nodes) (interrupt id : Word) (inside : interrupt.toNat < 256) :
    ∃ s' nodes', (releaseIsr interrupt id s).Returns s' ∧ Released s.heap s'.heap (nodes interrupt.toNat) nodes' ∧
      s'.ports = s.ports ∧ Registered s'
        (Function.update lists interrupt.toNat ((lists interrupt.toNat).eraseP (·.1 = id))) (Function.update nodes interrupt.toNat nodes') := by
  have slot := registered.slot interrupt.toNat inside
  obtain ⟨s', nodes', returned, after, released, ports, frame⟩ := release_isr_slot interrupt id inside slot
  refine ⟨s', nodes', returned, released, ports, ?_⟩
  apply registered.step interrupt.toNat _ nodes' after (fun h old _ => frame h old) inside
  · exact fun p member => .inl (released.subset p member)
  · exact released.mem_live slot.nodes_nodup (registered.live interrupt.toNat inside)

theorem Registered.request (registered : Registered s lists nodes) (interrupt id handler answer : Word)
    (inside : interrupt.toNat < 256) (nonnull : handler ≠ 0) (fresh : s.heap.Fresh 0 answer) :
    ∃ ret s' nodes', (requestIsr interrupt id handler answer s).Returns (ret, s') ∧
      Requested s s' (lists interrupt.toNat) answer (nodes interrupt.toNat) ret nodes' ∧ s'.ports = s.ports ∧
      Registered s' (Function.update lists interrupt.toNat
        (if ret = 0 then lists interrupt.toNat ++ [(id, handler)] else lists interrupt.toNat))
        (Function.update nodes interrupt.toNat nodes') := by
  have slot := registered.slot interrupt.toNat inside
  have unused : answer ∉ nodes interrupt.toNat := by
    rcases fresh with null | fresh
    · rw [null]
      exact fun member => slot.nonnull 0 member rfl
    · exact fun member => fresh (registered.live interrupt.toNat inside answer member)
  obtain ⟨ret, s', nodes', returned, after, requested, ports, frame⟩ :=
    request_isr_slot s _ _ interrupt id handler answer inside nonnull unused slot
  refine ⟨ret, s', nodes', returned, requested, ports, ?_⟩
  apply registered.step interrupt.toNat _ nodes' after (fun h _ new => frame h new) inside
  · intro p member
    by_cases old : p ∈ nodes interrupt.toNat
    · exact .inl old
    · exact .inr (requested.fresh fresh p member old)
  · exact requested.mem_live (registered.live interrupt.toNat inside)

theorem Registered.request_irq (registered : Registered s lists nodes) (irq id handler answer : Word)
    (inside : (irq + 32).toNat < 256) (nonnull : handler ≠ 0) (fresh : s.heap.Fresh 0 answer) :
    ∃ ret s' nodes', (requestIrq irq id handler answer s).Returns (ret, s') ∧
      Requested s s' (lists (irq + 32).toNat) answer (nodes (irq + 32).toNat) ret nodes' ∧
      Registered s' (Function.update lists (irq + 32).toNat
        (if ret = 0 then lists (irq + 32).toNat ++ [(id, handler)] else lists (irq + 32).toNat))
        (Function.update nodes (irq + 32).toNat nodes') := by
  obtain ⟨ret, t, nodes', returned, requested, -, after⟩ := registered.request (irq + 32) id handler answer inside nonnull fresh
  have ended : (requestIrq irq id handler answer s).Returns (ret, if ret = 0 then picUnmaskIrq (irq.setWidth 8) t else t) :=
    (ends_bind_of_returns _ _ _ _ returned).mpr ((ends_pure _ _).mpr rfl)
  by_cases zero : ret = 0
  · rw [if_pos zero] at ended
    refine ⟨ret, _, nodes', ended, ?_, after.congr rfl after.live⟩
    cases requested with
    | refused taken failed same => exact absurd zero (by decide)
    | first none heap => exact .first none heap
    | appended taken served heap => exact .appended taken served heap
  · rw [if_neg zero] at ended
    exact ⟨ret, t, nodes', ended, requested, after⟩

theorem Registered.release_irq (registered : Registered s lists nodes) (irq id : Word) (inside : (irq + 32).toNat < 256) :
    ∃ s' nodes', (releaseIrq irq id s).Returns s' ∧ Released s.heap s'.heap (nodes (irq + 32).toNat) nodes' ∧
      Registered s' (Function.update lists (irq + 32).toNat ((lists (irq + 32).toNat).eraseP (·.1 = id)))
        (Function.update nodes (irq + 32).toNat nodes') := by
  obtain ⟨t, nodes', returned, released, -, after⟩ := registered.release (irq + 32) id inside
  have ended : (releaseIrq irq id s).Returns
      (if (t.cells (.table (irq + 32).toNat)).handler = 0 then picMaskIrq (irq.setWidth 8) t else t) := by
    apply (ends_bind_of_returns _ _ _ _ returned).mpr
    apply (ends_bind_of_returns _ _ _ _ (handler_entry (irq + 32) inside)).mpr
    exact (ends_pure _ _).mpr rfl
  by_cases none : (t.cells (.table (irq + 32).toNat)).handler = 0
  · rw [if_pos none] at ended
    exact ⟨_, nodes', ended, released, after.congr rfl after.live⟩
  · rw [if_neg none] at ended
    exact ⟨_, nodes', ended, released, after⟩

end Table

end Deimos.Irq
