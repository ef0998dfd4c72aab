import Mathlib.Logic.Function.Basic

set_option autoImplicit false

-- Processors that share a memory and delay their stores: each has a buffer of
-- stores that the others do not see yet, the oldest first.
namespace Tso

variable {Cpu Addr Val : Type} [DecidableEq Cpu] [DecidableEq Addr]

def settle (m : Addr → Val) : List (Addr × Val) → Addr → Val
  | [] => m
  | (a, v) :: stores => settle (Function.update m a v) stores

def Absent (a : Addr) (stores : List (Addr × Val)) : Prop := ∀ e ∈ stores, e.1 ≠ a

structure Machine (Cpu Addr Val : Type) where
  mem : Addr → Val
  buf : Cpu → List (Addr × Val)

def Machine.view (s : Machine Cpu Addr Val) (c : Cpu) : Addr → Val := settle s.mem (s.buf c)

def Machine.store (c : Cpu) (a : Addr) (v : Val) (s : Machine Cpu Addr Val) : Machine Cpu Addr Val :=
  { s with buf := Function.update s.buf c (s.buf c ++ [(a, v)]) }

def Machine.drain (c : Cpu) (s : Machine Cpu Addr Val) : Machine Cpu Addr Val :=
  match s.buf c with
  | [] => s
  | (a, v) :: rest => ⟨Function.update s.mem a v, Function.update s.buf c rest⟩

section Stores

variable (m : Addr → Val) (stores : List (Addr × Val)) (a : Addr)

theorem settle_store (v : Val) : settle m (stores ++ [(a, v)]) = Function.update (settle m stores) a v := by
  induction stores generalizing m with
  | nil => rfl
  | cons e stores ih => exact ih (Function.update m e.1 e.2)

theorem settle_congr (m' : Addr → Val) (same : m a = m' a) : settle m stores a = settle m' stores a := by
  induction stores generalizing m m' with
  | nil => exact same
  | cons e stores ih =>
      refine ih (Function.update m e.1 e.2) (Function.update m' e.1 e.2) ?_
      by_cases here : a = e.1
      · rw [here, Function.update_self, Function.update_self]
      · rw [Function.update_of_ne here, Function.update_of_ne here, same]

omit [DecidableEq Addr] in
theorem absent_store (b : Addr) (v : Val) (absent : Absent a stores) (other : b ≠ a) : Absent a (stores ++ [(b, v)]) := by
  intro e member
  cases List.mem_append.mp member with
  | inl old => exact absent e old
  | inr new =>
      rw [List.mem_singleton.mp new]
      exact other

end Stores

section Steps

variable (s : Machine Cpu Addr Val) (c d : Cpu) (a x : Addr)

omit [DecidableEq Cpu] in
theorem view_drained (drained : s.buf c = []) : s.view c = s.mem := by
  rw [Machine.view, drained]
  rfl

omit [DecidableEq Addr] in
theorem store_buf (v : Val) : (s.store c a v).buf c = s.buf c ++ [(a, v)] := Function.update_self c _ s.buf

omit [DecidableEq Addr] in
theorem store_buf_other (v : Val) (other : d ≠ c) : (s.store c a v).buf d = s.buf d := Function.update_of_ne other _ s.buf

theorem view_store (v : Val) : (s.store c a v).view c = Function.update (s.view c) a v := by
  rw [Machine.view, store_buf, settle_store]
  rfl

theorem drain_empty (empty : s.buf c = []) : s.drain c = s := by
  rw [Machine.drain, empty]

variable (v : Val) (rest : List (Addr × Val)) (first : s.buf c = (a, v) :: rest)
include first

theorem drain_next : s.drain c = ⟨Function.update s.mem a v, Function.update s.buf c rest⟩ := by
  rw [Machine.drain, first]

theorem drain_buf : (s.drain c).buf c = rest := by
  rw [drain_next s c a v rest first]
  exact Function.update_self c rest s.buf

theorem drain_mem : (s.drain c).mem a = v := by
  rw [drain_next s c a v rest first]
  exact Function.update_self a v s.mem

omit first

theorem drain_buf_other (other : d ≠ c) : (s.drain c).buf d = s.buf d := by
  cases first : s.buf c with
  | nil => rw [drain_empty s c first]
  | cons e rest =>
      rw [drain_next s c e.1 e.2 rest first]
      exact Function.update_of_ne other rest s.buf

theorem drain_among (e : Addr × Val) (member : e ∈ (s.drain c).buf d) : e ∈ s.buf d := by
  by_cases same : d = c
  · subst same
    cases first : s.buf d with
    | nil => rwa [drain_empty s d first, first] at member
    | cons f rest =>
        rw [drain_buf s d f.1 f.2 rest first] at member
        exact List.mem_cons_of_mem f member
  · rwa [drain_buf_other s c d same] at member

theorem view_drain : (s.drain c).view c = s.view c := by
  cases first : s.buf c with
  | nil => rw [drain_empty s c first]
  | cons e rest =>
      rw [Machine.view, Machine.view, drain_buf s c e.1 e.2 rest first, first, drain_next s c e.1 e.2 rest first]
      rfl

theorem drain_mem_absent (absent : Absent x (s.buf c)) : (s.drain c).mem x = s.mem x := by
  cases first : s.buf c with
  | nil => rw [drain_empty s c first]
  | cons e rest =>
      have other : x ≠ e.1 := Ne.symm (absent e (first ▸ List.mem_cons_self))
      rw [drain_next s c e.1 e.2 rest first]
      exact Function.update_of_ne other e.2 s.mem

theorem view_drain_other (other : d ≠ c) (absent : Absent x (s.buf c)) : (s.drain c).view d x = s.view d x := by
  rw [Machine.view, Machine.view, drain_buf_other s c d other]
  exact settle_congr _ (s.buf d) x s.mem (drain_mem_absent s c x absent)

end Steps

end Tso
