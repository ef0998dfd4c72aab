import Mathlib.Data.List.Find
import Deimos.Pci.Config

set_option autoImplicit false

namespace Deimos.Pci

open Comp LinkedQueue

-- The functions pci_init is to find: function 0 of every device there is, and
-- the others of one whose header says that it has them.
def Listed (h : Host) (f : Bdf) : Prop :=
  h.wordAt ⟨f.bus, f.dev, 0⟩ CFG_W_VENDORID ≠ 0xFFFF ∧
    (f.func = 0 ∨ h.byteAt ⟨f.bus, f.dev, 0⟩ CFG_B_HEADERTYPE &&& 0x80 ≠ 0 ∧ h.wordAt f CFG_W_VENDORID ≠ 0xFFFF)

def Bdf.Before (f g : Bdf) : Prop := f.bus < g.bus ∨ f.bus = g.bus ∧ (f.dev < g.dev ∨ f.dev = g.dev ∧ f.func < g.func)

def Bdf.place (f : Bdf) : Nat := f.bus.toNat * 256 + f.dev.toNat * 8 + f.func.toNat

def entryOf (alloc : Alloc) (f : Bdf) : Word := alloc f.bus (f.dev.setWidth 8) (f.func.setWidth 8)

def pdevOf (f : Bdf) : PciDev := { blank with bus := f.bus, dev := f.dev.setWidth 8, func := f.func.setWidth 8 }

def recorded (h : Host) (f : Bdf) : PciDev :=
  { pdevOf f with
    vendorid := h.wordAt f CFG_W_VENDORID
    deviceid := h.wordAt f CFG_W_DEVICEID
    pciClass := h.byteAt f CFG_B_CLASSID
    subclass := h.byteAt f CFG_B_SUBCLASSID
    headertype := h.byteAt f CFG_B_HEADERTYPE
    intline := if h.byteAt f CFG_B_HEADERTYPE = 0 then h.byteAt f CFG0_B_INTLINE else 0 }

structure Served (alloc : Alloc) (h : Host) : Prop where
  nonnull : ∀ f, Listed h f → entryOf alloc f ≠ 0
  apart : ∀ f g, Listed h f → Listed h g → entryOf alloc f = entryOf alloc g → f = g

structure Scanned (alloc : Alloc) (h : Host) (place : Nat) (fs : List Bdf) (s : State) : Prop where
  config : s.host.config = h.config
  sorted : fs.Pairwise (fun f g => f.place < g.place)
  exact_ : ∀ f, f ∈ fs ↔ Listed h f ∧ f.place < place
  listed : Linked.Spells 0 s.pciDevList (fs.map (entryOf alloc))
  entries : ∀ f ∈ fs, s.devs (entryOf alloc f) = recorded h f

section Places

variable (f g : Bdf)

theorem before_iff : f.Before g ↔ f.place < g.place := by
  have bounds := And.intro f.dev.isLt (And.intro f.func.isLt (And.intro g.dev.isLt g.func.isLt))
  simp only [Bdf.Before, Bdf.place, BitVec.lt_def, BitVec.toNat_eq]
  omega

theorem place_inj (same : f.place = g.place) : f = g := by
  obtain ⟨bus, dev, func⟩ := f
  obtain ⟨bus', dev', func'⟩ := g
  simp only [Bdf.place] at same
  simp only [Bdf.mk.injEq, BitVec.toNat_eq]
  omega

theorem place_bound : f.place < 65536 := by
  have bounds := And.intro f.bus.isLt (And.intro f.dev.isLt f.func.isLt)
  simp only [Bdf.place]
  omega

theorem pdev_bdf : (pdevOf f).bdf = f := by
  obtain ⟨bus, dev, func⟩ := f
  simp [pdevOf, PciDev.bdf]

end Places

theorem word_at_address (value : Word) (h : Host) : (outlAddress value h).wordAt = h.wordAt := rfl

theorem byte_at_address (value : Word) (h : Host) : (outlAddress value h).byteAt = h.byteAt := rfl

theorem read_w (p : PciDev) (offset : Byte) (h : Host) :
    pciReadw p offset h = (h.wordAt p.bdf offset, outlAddress (calcPciAddr p offset) h) :=
  Prod.ext (read_word_at p offset h) rfl

theorem read_b (p : PciDev) (offset : Byte) (h : Host) :
    pciReadb p offset h = (h.byteAt p.bdf offset, outlAddress (calcPciAddr p offset) h) :=
  Prod.ext (read_byte_at p offset h) rfl

theorem word_at_same (h h' : Host) (same : h'.config = h.config) : h'.wordAt = h.wordAt := by
  cases h
  cases h'
  cases same
  rfl

theorem byte_at_same (h h' : Host) (same : h'.config = h.config) : h'.byteAt = h.byteAt := by
  cases h
  cases h'
  cases same
  rfl

theorem recorded_same (h h' : Host) (same : h'.config = h.config) : recorded h' = recorded h := by
  cases h
  cases h'
  cases same
  rfl

theorem add_pci_dev_shape (f : Bdf) (answer : Word) (s : State) (nonnull : answer ≠ 0) : ∃ h : Host, h.config = s.host.config ∧
    addPciDev f.bus (f.dev.setWidth 8) (f.func.setWidth 8) answer s = (do
      let l ← s.pciDevList.append 0 (fun _ => .ok ()) answer
      pure { host := h, devs := Function.update s.devs answer (recorded s.host f), pciDevList := l }) := by
  have same : (⟨f.bus, (f.dev.setWidth 8).setWidth 5, (f.func.setWidth 8).setWidth 3⟩ : Bdf) = f := pdev_bdf f
  by_cases layout : s.host.byteAt f CFG_B_HEADERTYPE = 0
  · refine ⟨outlAddress (calcPciAddr (pdevOf f) CFG0_B_INTLINE) s.host, rfl, ?_⟩
    simp only [addPciDev, nonnull, if_false, read_w, read_b, word_at_address, byte_at_address, PciDev.bdf, same, layout, if_true, recorded,
      pdevOf]
    rfl
  · refine ⟨outlAddress (calcPciAddr (pdevOf f) CFG_B_HEADERTYPE) s.host, rfl, ?_⟩
    simp only [addPciDev, nonnull, if_false, read_w, read_b, word_at_address, byte_at_address, PciDev.bdf, same, layout, recorded, pdevOf]
    rfl

section Scan

variable {alloc : Alloc} {h : Host} {place : Nat} {fs : List Bdf} {s : State}

theorem Scanned.skip (scanned : Scanned alloc h place fs s) (later : Nat) (s' : State) (le : place ≤ later)
    (none : ∀ f, place ≤ f.place → f.place < later → ¬Listed h f) (config : s'.host.config = h.config)
    (devs : s'.devs = s.devs) (list : s'.pciDevList = s.pciDevList) : Scanned alloc h later fs s' := by
  refine ⟨config, scanned.sorted, fun f => ?_, list ▸ scanned.listed, fun f member => devs ▸ scanned.entries f member⟩
  rw [scanned.exact_]
  refine and_congr_right (fun found => ⟨fun low => Nat.lt_of_lt_of_le low le, fun low => ?_⟩)
  by_contra beyond
  exact none f (Nat.not_lt.mp beyond) low found

theorem Scanned.add (scanned : Scanned alloc h place fs s) (served : Served alloc h) (f : Bdf) (here : f.place = place)
    (found : Listed h f) :
    ∃ s', (addPciDev f.bus (f.dev.setWidth 8) (f.func.setWidth 8) (entryOf alloc f) s).Returns s' ∧
      Scanned alloc h (place + 1) (fs ++ [f]) s' := by
  have before (g : Bdf) (old : g ∈ fs) : g.place < f.place :=
    Nat.lt_of_lt_of_eq ((scanned.exact_ g).mp old).2 here.symm
  have nonnull := served.nonnull f found
  have elsewhere (g : Bdf) (old : g ∈ fs) : entryOf alloc g ≠ entryOf alloc f := fun same =>
    absurd (before g old) (served.apart g f ((scanned.exact_ g).mp old).1 found same ▸ Nat.lt_irrefl _)
  have unlisted : entryOf alloc f ∉ fs.map (entryOf alloc) := by
    intro old
    obtain ⟨g, member, same⟩ := List.mem_map.mp old
    exact elsewhere g member same
  have checked : ∀ p ∈ entryOf alloc f :: fs.map (entryOf alloc), (fun _ => .ok () : Word → Except Stop Unit) p = .ok () :=
    fun _ _ => rfl
  obtain ⟨l, returned, spells, -⟩ := Linked.append_returns scanned.listed nonnull unlisted checked
  obtain ⟨host, config, shape⟩ := add_pci_dev_shape f (entryOf alloc f) s nonnull
  refine ⟨{ host := host, devs := Function.update s.devs (entryOf alloc f) (recorded s.host f), pciDevList := l }, ?_,
    config.trans scanned.config, ?_, fun g => ?_, ?_, fun g member => ?_⟩
  · rw [shape]
    exact (ends_bind_of_returns _ _ _ _ returned).mpr ((ends_pure _ _).mpr rfl)
  · refine List.pairwise_append.mpr ⟨scanned.sorted, List.pairwise_singleton _ _, fun g old g' new => ?_⟩
    rw [List.mem_singleton.mp new]
    exact before g old
  · rw [List.mem_append, List.mem_singleton, scanned.exact_]
    constructor
    · rintro (⟨old, low⟩ | rfl)
      · exact ⟨old, Nat.lt_succ_of_lt low⟩
      · exact ⟨found, by omega⟩
    · rintro ⟨old, low⟩
      by_cases last : g.place = place
      · exact .inr (place_inj g f (last.trans here.symm))
      · exact .inl ⟨old, by omega⟩
  · rw [List.map_append]
    exact spells
  · rw [recorded_same h s.host scanned.config]
    rcases List.mem_append.mp member with old | new
    · exact (Function.update_of_ne (elsewhere g old) _ _).trans (scanned.entries g old)
    · rw [List.mem_singleton.mp new]
      exact Function.update_self _ _ _

end Scan

def Bdf.at (bus dev func : Nat) : Bdf := ⟨BitVec.ofNat 8 bus, BitVec.ofNat 5 dev, BitVec.ofNat 3 func⟩

section Counters

variable (bus dev func : Nat) (devBound : dev < 32) (funcBound : func < 8)
include devBound

theorem place_device (busBound : bus < 256) (f : Bdf) (low : bus * 256 + dev * 8 ≤ f.place)
    (high : f.place < bus * 256 + dev * 8 + 8) : (⟨f.bus, f.dev, 0⟩ : Bdf) = Bdf.at bus dev 0 := by
  have bounds := And.intro f.dev.isLt f.func.isLt
  simp only [Bdf.place] at low high
  simp only [Bdf.at, Bdf.mk.injEq, BitVec.toNat_eq, BitVec.toNat_ofNat]
  refine ⟨?_, ?_, rfl⟩
  all_goals omega

include funcBound

theorem place_at (busBound : bus < 256) : (Bdf.at bus dev func).place = bus * 256 + dev * 8 + func := by
  simp only [Bdf.at, Bdf.place, BitVec.toNat_ofNat]
  omega

omit funcBound in
theorem dev_at : (Bdf.at bus dev func).dev.setWidth 8 = BitVec.ofNat 8 dev := by
  apply BitVec.eq_of_toNat_eq
  simp only [Bdf.at, BitVec.toNat_setWidth, BitVec.toNat_ofNat]
  omega

omit devBound in
theorem func_at : (Bdf.at bus dev func).func.setWidth 8 = BitVec.ofNat 8 func := by
  apply BitVec.eq_of_toNat_eq
  simp only [Bdf.at, BitVec.toNat_setWidth, BitVec.toNat_ofNat]
  omega

theorem pdev_at : pdevOf (Bdf.at bus dev func) =
    { blank with bus := BitVec.ofNat 8 bus, dev := BitVec.ofNat 8 dev, func := BitVec.ofNat 8 func } := by
  rw [pdevOf, dev_at bus dev func devBound, func_at bus dev func funcBound]
  rfl

end Counters

section Loops

variable {alloc : Alloc} {h : Host} {bus dev : Nat} (served : Served alloc h) (busBound : bus < 256)

def Reached (alloc : Alloc) (h : Host) (place : Nat) (s : State) : Prop := ∃ fs, Scanned alloc h place fs s

def addressed (p : PciDev) (offset : Byte) (s : State) : State := { s with host := outlAddress (calcPciAddr p offset) s.host }

theorem scanned_addressed {place : Nat} {fs : List Bdf} {s : State} (scanned : Scanned alloc h place fs s) (p : PciDev) (offset : Byte) :
    Scanned alloc h place fs (addressed p offset s) :=
  scanned.skip place _ (Nat.le_refl place) (fun _ low high => absurd low (Nat.not_le.mpr high)) scanned.config rfl rfl

section Unfold

variable (s : State) (f : Bdf) (devBound : dev < 32)
include devBound

theorem scan_func_eq (func : Nat) (here : f = Bdf.at bus dev func) (funcBound : func < 8) :
    scanFunc alloc bus dev s func =
      if s.host.wordAt f CFG_W_VENDORID = 0xFFFF then pure (addressed (pdevOf f) CFG_W_VENDORID s)
      else addPciDev f.bus (f.dev.setWidth 8) (f.func.setWidth 8) (entryOf alloc f) (addressed (pdevOf f) CFG_W_VENDORID s) := by
  rw [entryOf, here, dev_at bus dev func devBound, func_at bus dev func funcBound]
  simp only [scanFunc, ← pdev_at bus dev func devBound funcBound, read_w, pdev_bdf]
  rw [pdevOf, dev_at bus dev func devBound, func_at bus dev func funcBound]
  rfl

theorem scan_dev_eq (here : f = Bdf.at bus dev 0) :
    scanDev alloc bus s dev =
      if s.host.wordAt f CFG_W_VENDORID = 0xFFFF then pure (addressed (pdevOf f) CFG_W_VENDORID s)
      else (do
        let s ← addPciDev f.bus (f.dev.setWidth 8) (f.func.setWidth 8) (entryOf alloc f) (addressed (pdevOf f) CFG_W_VENDORID s)
        if s.host.byteAt f CFG_B_HEADERTYPE &&& 0x80 ≠ 0 then
          (List.range' 1 7).foldlM (scanFunc alloc bus dev) (addressed (pdevOf f) CFG_B_HEADERTYPE s)
        else pure (addressed (pdevOf f) CFG_B_HEADERTYPE s)) := by
  have fields := pdev_at bus dev 0 devBound (by omega)
  change pdevOf (Bdf.at bus dev 0) = { blank with bus := BitVec.ofNat 8 bus, dev := BitVec.ofNat 8 dev, func := 0 } at fields
  rw [entryOf, here, dev_at bus dev 0 devBound]
  simp only [scanDev, ← fields, read_w, read_b, pdev_bdf]
  rw [pdevOf, dev_at bus dev 0 devBound]
  rfl

end Unfold

include served busBound

theorem scan_func_reaches (devBound : dev < 32) (func : Nat) (funcBound : func < 8) (other : func ≠ 0)
    (present : h.wordAt (Bdf.at bus dev 0) CFG_W_VENDORID ≠ 0xFFFF)
    (several : h.byteAt (Bdf.at bus dev 0) CFG_B_HEADERTYPE &&& 0x80 ≠ 0) (s : State)
    (reached : Reached alloc h (bus * 256 + dev * 8 + func) s) :
    ∃ s', (scanFunc alloc bus dev s func).Returns s' ∧ Reached alloc h (bus * 256 + dev * 8 + (func + 1)) s' := by
  rw [← Nat.add_assoc]
  obtain ⟨fs, scanned⟩ := reached
  have place := place_at bus dev func devBound funcBound busBound
  have addressed_ := scanned_addressed scanned (pdevOf (Bdf.at bus dev func)) CFG_W_VENDORID
  have nonzero : BitVec.ofNat 3 func ≠ 0 := by
    intro zero
    have same : (BitVec.ofNat 3 func).toNat = 0 := congrArg BitVec.toNat zero
    simp only [BitVec.toNat_ofNat] at same
    omega
  rw [scan_func_eq s _ devBound func rfl funcBound, word_at_same h s.host scanned.config]
  by_cases absent : h.wordAt (Bdf.at bus dev func) CFG_W_VENDORID = 0xFFFF
  · rw [if_pos absent]
    refine ⟨_, (ends_pure _ _).mpr rfl, fs, addressed_.skip _ _ (by omega) (fun f low high listed => ?_) addressed_.config rfl rfl⟩
    obtain rfl : f = Bdf.at bus dev func := place_inj f _ (by omega)
    rcases listed.2 with zero | ⟨-, found⟩
    · exact nonzero zero
    · exact found absent
  · rw [if_neg absent]
    obtain ⟨s', returned, added⟩ := addressed_.add served (Bdf.at bus dev func) place ⟨present, .inr ⟨several, absent⟩⟩
    exact ⟨s', returned, _, added⟩

theorem scan_dev_reaches (devBound : dev < 32) (s : State) (reached : Reached alloc h (bus * 256 + dev * 8) s) :
    ∃ s', (scanDev alloc bus s dev).Returns s' ∧ Reached alloc h (bus * 256 + (dev + 1) * 8) s' := by
  obtain ⟨fs, scanned⟩ := reached
  have place : (Bdf.at bus dev 0).place = bus * 256 + dev * 8 := (place_at bus dev 0 devBound (by omega) busBound).trans (Nat.add_zero _)
  have addressed_ := scanned_addressed scanned (pdevOf (Bdf.at bus dev 0)) CFG_W_VENDORID
  have end_ : bus * 256 + (dev + 1) * 8 = bus * 256 + dev * 8 + 8 := by omega
  rw [end_, scan_dev_eq s _ devBound rfl, word_at_same h s.host scanned.config]
  by_cases absent : h.wordAt (Bdf.at bus dev 0) CFG_W_VENDORID = 0xFFFF
  · rw [if_pos absent]
    refine ⟨_, (ends_pure _ _).mpr rfl, fs, addressed_.skip _ _ (by omega) (fun f low high listed => ?_) addressed_.config rfl rfl⟩
    exact listed.1 (place_device bus dev devBound busBound f low high ▸ absent)
  · rw [if_neg absent]
    obtain ⟨s₁, returned, added⟩ := addressed_.add served (Bdf.at bus dev 0) place ⟨absent, .inl rfl⟩
    have added := scanned_addressed added (pdevOf (Bdf.at bus dev 0)) CFG_B_HEADERTYPE
    simp only [Returns, ends_bind_of_returns _ _ _ _ returned, byte_at_same h s₁.host added.config]
    by_cases several : h.byteAt (Bdf.at bus dev 0) CFG_B_HEADERTYPE &&& 0x80 ≠ 0
    · rw [if_pos several]
      exact returns_range _ (fun func s => Reached alloc h (bus * 256 + dev * 8 + func) s) 1 7 _ ⟨_, added⟩ (fun func s low high here =>
        scan_func_reaches served busBound devBound func high (Nat.ne_of_gt low) absent several s here)
    · rw [if_neg several]
      have le : bus * 256 + dev * 8 + 1 ≤ bus * 256 + dev * 8 + 8 := by omega
      have none (f : Bdf) (low : bus * 256 + dev * 8 + 1 ≤ f.place) (high : f.place < bus * 256 + dev * 8 + 8) : ¬Listed h f := by
        intro listed
        have device := place_device bus dev devBound busBound f (Nat.le_of_succ_le low) high
        rcases listed.2 with zero | ⟨found, -⟩
        · have here : f = Bdf.at bus dev 0 := by rw [← device, ← zero]
          rw [here, place] at low
          omega
        · exact several (device ▸ found)
      exact ⟨_, (ends_pure _ _).mpr rfl, _, added.skip _ _ le none added.config rfl rfl⟩

theorem scan_bus_reaches (s : State) (reached : Reached alloc h (bus * 256) s) :
    ∃ s', (scanBus alloc s bus).Returns s' ∧ Reached alloc h ((bus + 1) * 256) s' := by
  have start : Reached alloc h (bus * 256 + 0 * 8) s := by rwa [Nat.zero_mul, Nat.add_zero]
  have scan := returns_range (scanDev alloc bus) (fun dev s => Reached alloc h (bus * 256 + dev * 8) s) 0 32 s start
    (fun dev s _ high here => scan_dev_reaches served busBound (by omega) s here)
  have whole : (bus + 1) * 256 = bus * 256 + (0 + 32) * 8 := by omega
  rw [scanBus, List.range_eq_range', whole]
  exact scan

omit busBound in
theorem pci_init_reaches (s : State) (reached : Reached alloc h 0 s) :
    ∃ s', (pciInit alloc s).Returns s' ∧ Reached alloc h 65536 s' := by
  rw [pciInit, List.range_eq_range']
  exact returns_range (scanBus alloc) (fun bus s => Reached alloc h (bus * 256) s) 0 256 s reached
    (fun bus s _ high here => scan_bus_reaches served (by omega) s here)

omit busBound served in
theorem reached_start (s : State) (empty : s.pciDevList.head = 0) : Reached alloc s.host 0 s :=
  ⟨[], rfl, .nil, fun f => by simp, ⟨empty, rfl, .nil⟩, fun f none => absurd none List.not_mem_nil⟩

end Loops

theorem pci_search_walks (vendorid deviceid : Half) (s : State) (ps : List Word) (p : Word)
    (links : Links 0 s.pciDevList.next p ps 0) :
    (loop (searchBody vendorid deviceid s) p).Returns
      ((ps.find? (fun p => (s.devs p).vendorid = vendorid ∧ (s.devs p).deviceid = deviceid)).getD 0) := by
  induction ps generalizing p with
  | nil =>
      have ends : searchBody vendorid deviceid s p = .ok (.done 0) := if_pos links
      exact (ends_loop_done _ _ _ _ ends).mpr rfl
  | cons q ps ih =>
      obtain ⟨rfl, nonnull, rest⟩ := links
      by_cases found : (s.devs p).vendorid = vendorid ∧ (s.devs p).deviceid = deviceid
      · have ends : searchBody vendorid deviceid s p = .ok (.done p) := by rw [searchBody, if_neg nonnull, if_pos found]
        rw [List.find?_cons_of_pos (by simpa using found)]
        exact (ends_loop_done _ _ _ _ ends).mpr rfl
      · have pass : searchBody vendorid deviceid s p = .ok (.next (s.pciDevList.next p)) := by
          rw [searchBody, if_neg nonnull, if_neg found]
        rw [List.find?_cons_of_neg (by simpa using found)]
        exact (ends_loop_next _ _ _ _ pass).mpr (ih _ rest)

theorem pci_search_finds {alloc : Alloc} {h : Host} {place : Nat} {fs : List Bdf} {s : State} (scanned : Scanned alloc h place fs s)
    (vendorid deviceid : Half) : (pciSearch vendorid deviceid s).Returns
      (((fs.find? (fun f => h.wordAt f CFG_W_VENDORID = vendorid ∧ h.wordAt f CFG_W_DEVICEID = deviceid)).map (entryOf alloc)).getD 0) := by
  have walked := pci_search_walks vendorid deviceid s (fs.map (entryOf alloc)) s.pciDevList.head scanned.listed.links
  have same : (fs.map (entryOf alloc)).find? (fun p => (s.devs p).vendorid = vendorid ∧ (s.devs p).deviceid = deviceid) =
      (fs.find? (fun f => h.wordAt f CFG_W_VENDORID = vendorid ∧ h.wordAt f CFG_W_DEVICEID = deviceid)).map (entryOf alloc) := by
    rw [List.find?_map]
    refine congrArg (Option.map (entryOf alloc)) (List.find?_congr (fun f member => ?_))
    simp only [Function.comp, scanned.entries f member, recorded]
  rwa [same] at walked

structure Enumerated (alloc : Alloc) (h : Host) (fs : List Bdf) (s : State) : Prop where
  sorted : fs.Pairwise Bdf.Before
  exact_ : ∀ f, f ∈ fs ↔ Listed h f
  listed : Linked.Spells 0 s.pciDevList (fs.map (entryOf alloc))
  place : ∀ f ∈ fs, (s.devs (entryOf alloc f)).bus = f.bus ∧ (s.devs (entryOf alloc f)).dev = f.dev.setWidth 8 ∧
    (s.devs (entryOf alloc f)).func = f.func.setWidth 8
  ids : ∀ f ∈ fs, (s.devs (entryOf alloc f)).vendorid = h.wordAt f CFG_W_VENDORID ∧
    (s.devs (entryOf alloc f)).deviceid = h.wordAt f CFG_W_DEVICEID
  kind : ∀ f ∈ fs, (s.devs (entryOf alloc f)).pciClass = h.byteAt f CFG_B_CLASSID ∧
    (s.devs (entryOf alloc f)).subclass = h.byteAt f CFG_B_SUBCLASSID ∧
    (s.devs (entryOf alloc f)).headertype = h.byteAt f CFG_B_HEADERTYPE
  search : ∀ vendorid deviceid, (pciSearch vendorid deviceid s).Returns
    (((fs.find? (fun f => h.wordAt f CFG_W_VENDORID = vendorid ∧ h.wordAt f CFG_W_DEVICEID = deviceid)).map (entryOf alloc)).getD 0)

def LinesRead (alloc : Alloc) (h : Host) (fs : List Bdf) (s : State) : Prop :=
  ∀ f ∈ fs, h.byteAt f CFG_B_HEADERTYPE &&& 0x7F = 0 → (s.devs (entryOf alloc f)).intline = h.byteAt f CFG0_B_INTLINE

section Result

variable {alloc : Alloc} {h : Host} {fs : List Bdf} {s : State}

theorem scanned_enumerated (scanned : Scanned alloc h 65536 fs s) : Enumerated alloc h fs s where
  sorted := scanned.sorted.imp (fun lower => (before_iff _ _).mpr lower)
  exact_ f := (scanned.exact_ f).trans (and_iff_left (place_bound f))
  listed := scanned.listed
  place f member := by simp only [scanned.entries f member, recorded, pdevOf, and_self]
  ids f member := by simp only [scanned.entries f member, recorded, and_self]
  kind f member := by simp only [scanned.entries f member, recorded, and_self]
  search := pci_search_finds scanned

theorem layout_zero (header : Byte) : header &&& 0x7F = 0 ↔ header = 0 ∨ header = 0x80 := by
  have all : ∀ header : Byte, header &&& 0x7F = 0 ↔ header = 0 ∨ header = 0x80 := by decide
  exact all header

-- The line is left at zero under a header of 0x80.
theorem lines_read_iff (scanned : Scanned alloc h 65536 fs s) : LinesRead alloc h fs s ↔
    ∀ f, Listed h f → h.byteAt f CFG_B_HEADERTYPE = 0x80 → h.byteAt f CFG0_B_INTLINE = 0 := by
  have member (f : Bdf) : f ∈ fs ↔ Listed h f := (scanned.exact_ f).trans (and_iff_left (place_bound f))
  constructor
  · intro lines f found header
    have line := lines f ((member f).mpr found) ((layout_zero _).mpr (.inr header))
    rw [scanned.entries f ((member f).mpr found), recorded, header] at line
    exact line.symm
  · intro unwired f found layout
    rw [scanned.entries f found]
    rcases (layout_zero _).mp layout with plain | several
    · exact if_pos plain
    · have line := unwired f ((member f).mp found) several
      rw [recorded, several, line]
      rfl

end Result

-- The list is exact but for the interrupt lines, which it has unless the
-- header type of a function with one is that of a multi-function device.
theorem enumeration_exact_iff (alloc : Alloc) (s : State) (empty : s.pciDevList.head = 0) (served : Served alloc s.host) :
    (∃ s' fs, (pciInit alloc s).Returns s' ∧ Enumerated alloc s.host fs s') ∧
    ((∃ s' fs, (pciInit alloc s).Returns s' ∧ Enumerated alloc s.host fs s' ∧ LinesRead alloc s.host fs s') ↔
      ∀ f, Listed s.host f → s.host.byteAt f CFG_B_HEADERTYPE = 0x80 → s.host.byteAt f CFG0_B_INTLINE = 0) := by
  obtain ⟨s', returned, fs, scanned⟩ := pci_init_reaches served s (reached_start s empty)
  refine ⟨⟨s', fs, returned, scanned_enumerated scanned⟩, ?_⟩
  constructor
  · rintro ⟨s'', gs, returned', enumerated, lines⟩
    obtain rfl := returns_unique _ _ _ returned returned'
    have same (f : Bdf) : f ∈ gs ↔ f ∈ fs := (enumerated.exact_ f).trans ((scanned_enumerated scanned).exact_ f).symm
    exact (lines_read_iff scanned).mp (fun f member => lines f ((same f).mpr member))
  · intro unwired
    exact ⟨s', fs, returned, scanned_enumerated scanned, (lines_read_iff scanned).mpr unwired⟩

def cardConfig (header : Byte) : Config := fun f r =>
  if f = ⟨0, 0, 0⟩ then
    if r = 0 then 0x813910EC
    else if r = 3 then header.setWidth 32 <<< 16
    else if r = 15 then 0x0000000B
    else 0
  else 0xFFFFFFFF

def cardState (header : Byte) : State := ⟨⟨0, cardConfig header⟩, fun _ => blank, ⟨0, fun _ => 0⟩⟩

def cardAlloc : Alloc := fun _ _ _ => 0x1000

theorem card_only (header : Byte) (f : Bdf) (found : Listed (cardState header).host f) : f = ⟨0, 0, 0⟩ := by
  have absent (g : Bdf) (elsewhere : g ≠ ⟨0, 0, 0⟩) : (cardState header).host.wordAt g CFG_W_VENDORID = 0xFFFF := by
    simp only [Host.wordAt, cardState, cardConfig, if_neg elsewhere]
    decide
  by_contra elsewhere
  rcases found.2 with zero | ⟨-, present⟩
  · obtain ⟨bus, dev, func⟩ := f
    obtain rfl : func = 0 := zero
    exact found.1 (absent _ elsewhere)
  · exact present (absent f elsewhere)

theorem card_served (header : Byte) : Served cardAlloc (cardState header).host where
  nonnull f _ := by
    change (0x1000 : Word) ≠ 0
    decide
  apart f g found found' _ := (card_only header f found).trans (card_only header g found').symm

theorem enumeration_exact_at_card :
    ∃ s' fs, (pciInit cardAlloc (cardState 0)).Returns s' ∧ Enumerated cardAlloc (cardState 0).host fs s' ∧
      LinesRead cardAlloc (cardState 0).host fs s' := by
  refine (enumeration_exact_iff cardAlloc (cardState 0) rfl (card_served 0)).2.mpr (fun f found header => ?_)
  rw [card_only 0 f found] at header
  exact absurd header (by decide)

theorem line_missed_on_multifunction : ¬∀ (alloc : Alloc) (s : State), s.pciDevList.head = 0 → Served alloc s.host →
    ∃ s' fs, (pciInit alloc s).Returns s' ∧ Enumerated alloc s.host fs s' ∧ LinesRead alloc s.host fs s' := by
  intro claim
  obtain ⟨s', fs, returned, enumerated, lines⟩ := claim cardAlloc (cardState 0x80) rfl (card_served 0x80)
  obtain ⟨s'', returned', gs, scanned⟩ := pci_init_reaches (card_served 0x80) (cardState 0x80) (reached_start _ rfl)
  obtain rfl := returns_unique _ _ _ returned returned'
  have found : Listed (cardState 0x80).host ⟨0, 0, 0⟩ := ⟨by decide, .inl rfl⟩
  have member : (⟨0, 0, 0⟩ : Bdf) ∈ gs := (scanned.exact_ _).mpr ⟨found, by decide⟩
  have line := lines ⟨0, 0, 0⟩ ((enumerated.exact_ _).mpr found) (by decide)
  rw [scanned.entries _ member] at line
  exact absurd line (by decide)

end Deimos.Pci
