import Deimos.Lib.Chain
import Deimos.Pci.Enumerate
import Deimos.Tty.Console

set_option autoImplicit false

namespace Deimos.Pci

open Comp LinkedQueue Tty Walk

def devLine (p : PciDev) : Line :=
  ⟨chars "bdf:%d,%d,%d | vend:%x dev:%x | class:%x subclass:%x\n",
    [.word (p.bus.setWidth 32), .word (p.dev.setWidth 32), .word (p.func.setWidth 32), .word (p.vendorid.setWidth 32),
      .word (p.deviceid.setWidth 32), .word (p.pciClass.setWidth 32), .word (p.subclass.setWidth 32)]⟩

def pciPrintInfo (s : State) : Comp Stop (List Line) :=
  walk (fun p => p = 0) s.pciDevList.next (fun p => pure [devLine (s.devs p)]) s.pciDevList.head

theorem dev_lines_displayed (ps : List PciDev) : Displayed (ps.map devLine) := by
  refine displayed _ (fun line member => ?_)
  obtain ⟨p, -, rfl⟩ := List.mem_map.mp member
  exact words_text 7 _ (by decide +kernel) [p.bus.setWidth 32, p.dev.setWidth 32, p.func.setWidth 32, p.vendorid.setWidth 32,
    p.deviceid.setWidth 32, p.pciClass.setWidth 32, p.subclass.setWidth 32] rfl

theorem Scanned.printed {alloc : Alloc} {h : Host} {place : Nat} {fs : List Bdf} {s : State} (scanned : Scanned alloc h place fs s) :
    (pciPrintInfo s).Returns ((fs.map (recorded h)).map devLine) := by
  rw [List.map_map, List.map_eq_flatMap]
  refine walk_returns (entryOf alloc) _ fs 0 _ 0 scanned.listed.links
    (fun f member => decide_eq_false (scanned.listed.nonnull (List.mem_map_of_mem member))) rfl (fun f member => (ends_pure _ _).mpr ?_)
  rw [scanned.entries f member]
  rfl

theorem pci_listing_exact (alloc : Alloc) (s : State) (empty : s.pciDevList.head = 0) (served : Served alloc s.host) :
    ∃ s', ∃ fs : List Bdf, (pciInit alloc s).Returns s' ∧ fs.Pairwise Bdf.Before ∧ (∀ f, f ∈ fs ↔ Listed s.host f) ∧
      (pciPrintInfo s').Returns ((fs.map (recorded s.host)).map devLine) ∧ Displayed ((fs.map (recorded s.host)).map devLine) := by
  obtain ⟨s', returned, fs, scanned⟩ := pci_init_reaches served s (reached_start s empty)
  have enumerated := scanned_enumerated scanned
  exact ⟨s', fs, returned, enumerated.sorted, enumerated.exact_, scanned.printed, dev_lines_displayed _⟩

theorem pci_listing_of_card : ∃ s', (pciInit cardAlloc (cardState 0)).Returns s' ∧
    (pciPrintInfo s').Returns [devLine (recorded (cardState 0).host ⟨0, 0, 0⟩)] := by
  obtain ⟨s', fs, returned, sorted, exact_, printed, -⟩ := pci_listing_exact cardAlloc (cardState 0) rfl (card_served 0)
  have found : Listed (cardState 0).host ⟨0, 0, 0⟩ := ⟨by decide, .inl rfl⟩
  have only (f : Bdf) (member : f ∈ fs) : f = ⟨0, 0, 0⟩ := card_only 0 f ((exact_ f).mp member)
  cases fs with
  | nil => exact absurd ((exact_ _).mpr found) List.not_mem_nil
  | cons f fs =>
      obtain rfl := only f List.mem_cons_self
      cases fs with
      | nil => exact ⟨s', returned, printed⟩
      | cons g fs =>
          obtain rfl := only g (List.mem_cons_of_mem _ List.mem_cons_self)
          have before := (List.pairwise_cons.mp sorted).1 _ List.mem_cons_self
          exact absurd ((before_iff _ _).mp before) (Nat.lt_irrefl _)

end Deimos.Pci
