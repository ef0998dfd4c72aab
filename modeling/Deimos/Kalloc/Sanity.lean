import Mathlib.Data.BitVec
import Mathlib.Data.Fintype.OfMap
import Deimos.Kalloc.Free
import Deimos.Lib.Backlink

set_option autoImplicit false

namespace Deimos.Kalloc

open Comp Backlink

-- The blocks that can be walked from kheap on with every magic and prev right,
-- the last one first, and where next leads from there.
def Walked (s : Heap) : List Word → Word → Prop :=
  Passed 0 s.kheap (fun h => load s.mem h .next) (fun h => load s.mem h .prev) (fun h => load s.mem h .magic = HEAP_MAGIC)

-- One pass of heap_print_info: the block, and the bytes free and used so far.
def totalsBody (m : Mem) (state : Word × Word × Word) : Except Stop (Iter (Word × Word × Word) (Word × Word)) :=
  let (h, free, used) := state
  if h = 0 then .ok (.done (free, used))
  else if load m h .allocated ≠ 0 then .ok (.next (load m h .next, free, used + load m h .size))
  else .ok (.next (load m h .next, free + load m h .size, used))

def heapPrintInfo (s : Heap) : Comp Stop (Word × Word × Word) := do
  let (free, used) ← loop (totalsBody s.mem) (s.kheap, 0, 0)
  pure ((free + used) / 1024, free / 1024, used / 1024)

def sizes (m : Mem) (wanted : Word → Bool) (hs : List Word) : Word := ((hs.filter wanted).map (fun h => load m h .size)).sum

def taken (m : Mem) (h : Word) : Bool := load m h .allocated ≠ 0

section Totals

variable (s : Heap)

theorem sizes_cons (m : Mem) (wanted : Word → Bool) (h : Word) (hs : List Word) :
    sizes m wanted (h :: hs) = if wanted h then sizes m wanted hs + load m h .size else sizes m wanted hs := by
  by_cases here : wanted h = true
  · rw [if_pos here, sizes, List.filter_cons_of_pos here, List.map_cons, List.sum_cons, BitVec.add_comm]
    rfl
  · rw [if_neg here, sizes, List.filter_cons_of_neg here]
    rfl

theorem totals_walked (hs : List Word) (h : Word) (walked : Walked s hs h) (result : Except Stop (Word × Word)) :
    (loop (totalsBody s.mem) (s.kheap, 0, 0)).Ends result ↔
      (loop (totalsBody s.mem) (h, sizes s.mem (fun h => !taken s.mem h) hs, sizes s.mem (taken s.mem) hs)).Ends result := by
  induction walked with
  | start => rfl
  | step hs h before some_ fits back ih =>
      rw [ih, sizes_cons, sizes_cons]
      by_cases used : load s.mem h .allocated ≠ 0
      · have here : taken s.mem h = true := decide_eq_true used
        rw [here]
        refine ends_loop_next _ _ _ _ ?_
        rw [totalsBody, if_neg some_, if_pos used]
        rfl
      · have here : taken s.mem h = false := decide_eq_false used
        rw [here]
        refine ends_loop_next _ _ _ _ ?_
        rw [totalsBody, if_neg some_, if_neg used]
        rfl

theorem totals_return (hs : List Word) (walked : Walked s hs 0) : (loop (totalsBody s.mem) (s.kheap, 0, 0)).Returns
    (sizes s.mem (fun h => !taken s.mem h) hs, sizes s.mem (taken s.mem) hs) :=
  (totals_walked s hs 0 walked _).mpr ((ends_loop_done _ _ _ _ rfl).mpr rfl)

end Totals

theorem heap_sanity_check_exact (s : Heap) : ∃ hs h, Walked s hs h ∧ hs.Nodup ∧
    (h = 0 ∧ (heapSanityCheck s).Returns () ∧ (heapPrintInfo s).Returns
        ((sizes s.mem (fun h => !taken s.mem h) hs + sizes s.mem (taken s.mem) hs) / 1024,
          sizes s.mem (fun h => !taken s.mem h) hs / 1024, sizes s.mem (taken s.mem) hs / 1024) ∨
      h ≠ 0 ∧ load s.mem h .magic ≠ HEAP_MAGIC ∧ (heapSanityCheck s).Ends (kpanic "kheap: heap magic violated") ∨
      h ≠ 0 ∧ load s.mem h .magic = HEAP_MAGIC ∧ load s.mem h .prev ≠ hs.headD 0 ∧
        (heapSanityCheck s).Ends (kpanic "kheap: bad prev pointer")) := by
  have finite : Fintype Word := Fintype.ofInjective (BitVec.toFin : Word → Fin (2 ^ 32)) BitVec.toFin_injective
  have walk : ∃ hs h, Walked s hs h ∧ Stops 0 (fun h => load s.mem h .prev) (fun h => load s.mem h .magic = HEAP_MAGIC) hs h ∧
      (heapSanityCheck s).Ends (if h = 0 then .ok () else if ¬load s.mem h .magic = HEAP_MAGIC then kpanic "kheap: heap magic violated"
        else kpanic "kheap: bad prev pointer") := check_comes_to_stop
  obtain ⟨hs, h, walked, stops, ends⟩ := walk
  refine ⟨hs, h, walked, passed_nodup hs h walked, ?_⟩
  by_cases done : h = 0
  · subst done
    have totals := totals_return s hs walked
    exact .inl ⟨rfl, ends, (ends_bind_of_returns _ _ _ _ totals).mpr ((ends_pure _ _).mpr rfl)⟩
  · rw [if_neg done] at ends
    have wrong := stops.resolve_left done
    by_cases magic : load s.mem h .magic = HEAP_MAGIC
    · rw [if_neg (not_not.mpr magic)] at ends
      exact .inr (.inr ⟨done, magic, (wrong.resolve_left (not_not.mpr magic)).symm, ends⟩)
    · rw [if_pos magic] at ends
      exact .inr (.inl ⟨done, magic, ends⟩)

end Deimos.Kalloc
