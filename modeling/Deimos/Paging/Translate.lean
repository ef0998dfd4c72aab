import Deimos.Paging.Contiguous

set_option autoImplicit false

namespace Deimos.Paging

inductive Setting where
  | attrib (mask : Word)
  | clear (mask : Word)
  | frame (addr : Word)

def Setting.apply : Setting → Word → Word
  | .attrib mask, e => setAttrib e mask
  | .clear mask, e => clearAttrib e mask
  | .frame addr, e => setFrame e addr

def applyAll (settings : List Setting) (e : Word) : Word := settings.foldl (fun e setting => setting.apply e) e

-- They work on the entry that pd_lookup gives a pointer to.
def setPde (v : Word) (settings : List Setting) (pd : PageDirectory) : PageDirectory :=
  { pd with entries := Function.update pd.entries (directoryIndex v) (applyAll settings (pd.entries (directoryIndex v))) }

-- Here on the one that pt_lookup does, in the table of the directory entry.
def setPte (v : Word) (settings : List Setting) (pd : PageDirectory) : PageDirectory :=
  { pd with
    tables := Function.update pd.tables (directoryIndex v)
      ((pd.tables (directoryIndex v)).map (fun pt =>
        { pt with entries := Function.update pt.entries (tableIndex v) (applyAll settings (pt.entries (tableIndex v))) })) }

def PageDirectory.Tabled (pd : PageDirectory) (i : Nat) : Prop :=
  getAttrib (pd.entries i) PDE_PRESENT ≠ 0 ∧ getAttrib (pd.entries i) PDE_4MB = 0

def PageDirectory.WellFormed (pd : PageDirectory) : Prop := ∀ i < 1024, pd.Tabled i → pd.tables i ≠ none

def SamePage (v w : Word) : Prop := w.toNat / 2 ^ 12 = v.toNat / 2 ^ 12

def SameLargePage (v w : Word) : Prop := w.toNat / 2 ^ 22 = v.toNat / 2 ^ 22

section Bits

variable (e a f : Word)

theorem frame_bit (i : Nat) (bound : i < 32) : PDE_FRAME[i] = decide (12 ≤ i) := by
  have all : ∀ (i : Nat) (bound : i < 32), PDE_FRAME[i] = decide (12 ≤ i) := by decide
  exact all i bound

theorem low_bit (low : a.toNat < 2 ^ 12) (i : Nat) (bound : i < 32) (high : 12 ≤ i) : a[i] = false :=
  Nat.testBit_lt_two_pow (Nat.lt_of_lt_of_le low (Nat.pow_le_pow_right (by decide) high))

theorem frame_of_set_frame : getFrame (setFrame e f) = f &&& PDE_FRAME := by
  ext i bound
  by_cases high : 12 ≤ i <;> simp [getFrame, setFrame, frame_bit i bound, high]

theorem attrib_of_set_frame (low : a.toNat < 2 ^ 12) : getAttrib (setFrame e f) a = getAttrib e a := by
  ext i bound
  by_cases high : 12 ≤ i
  · simp [getAttrib, low_bit a low i bound high]
  · simp [getAttrib, setFrame, frame_bit i bound, high]

theorem frame_of_set_attrib (low : a.toNat < 2 ^ 12) : getFrame (setAttrib e a) = getFrame e := by
  ext i bound
  by_cases high : 12 ≤ i
  · simp [getFrame, setAttrib, low_bit a low i bound high]
  · simp [getFrame, frame_bit i bound, high]

theorem frame_of_clear_attrib (low : a.toNat < 2 ^ 12) : getFrame (clearAttrib e a) = getFrame e := by
  ext i bound
  by_cases high : 12 ≤ i
  · simp [getFrame, clearAttrib, low_bit a low i bound high]
  · simp [getFrame, frame_bit i bound, high]

theorem attrib_of_set_attrib : getAttrib (setAttrib e a) a = a := by
  ext i bound
  cases bit : a[i] <;> simp [getAttrib, setAttrib, bit]

theorem attrib_of_clear_attrib : getAttrib (clearAttrib e a) a = 0 := by
  ext i bound
  cases bit : a[i] <;> simp [getAttrib, clearAttrib, bit]

theorem attrib_of_set_other (b : Word) (apart : a &&& b = 0) : getAttrib (setAttrib e a) b = getAttrib e b := by
  rw [getAttrib, setAttrib, BitVec.and_or_distrib_right, apart]
  exact BitVec.or_zero

theorem attrib_of_clear_other (b : Word) (apart : a &&& b = 0) : getAttrib (clearAttrib e a) b = getAttrib e b := by
  ext i bound
  have clear : (a &&& b)[i] = false := by simp [apart]
  rw [BitVec.getElem_and] at clear
  cases bit : b[i] <;> simp_all [getAttrib, clearAttrib]

theorem set_frame_attrib (low : a.toNat < 2 ^ 12) : setFrame (setAttrib e a) f = setAttrib (setFrame e f) a := by
  ext i bound
  by_cases high : 12 ≤ i
  · simp [setFrame, setAttrib, frame_bit i bound, low_bit a low i bound high, high]
  · simp [setFrame, setAttrib, frame_bit i bound, high]

theorem set_attrib_attrib (b : Word) : setAttrib (setAttrib e a) b = setAttrib (setAttrib e b) a := by
  rw [setAttrib, setAttrib, setAttrib, setAttrib, BitVec.or_assoc, BitVec.or_comm a b, BitVec.or_assoc]

theorem frame_or_offset (w : Word) : f &&& PDE_FRAME ||| (w &&& ~~~ PTE_FRAME) = (f &&& PDE_FRAME) + (w &&& ~~~ PTE_FRAME) := by
  refine (BitVec.add_eq_or_of_and_eq_zero _ _ ?_).symm
  change f &&& PDE_FRAME &&& (w &&& ~~~ PDE_FRAME) = 0
  ext i bound
  cases frame : PDE_FRAME[i] <;> simp [frame]

theorem large_frame_or_offset (w : Word) (large : f.toNat % 2 ^ 22 = 0) :
    f &&& PDE_FRAME ||| (w &&& 0x003FFFFF) = f + (w &&& 0x003FFFFF) := by
  have bits : f &&& 0x003FFFFF = 0#32 := BitVec.eq_of_toNat_eq ((page_offset f).trans large)
  have whole : f &&& PDE_FRAME = f := by
    ext i bound
    have all : ∀ (i : Nat) (bound : i < 32), i < 12 → (0x003FFFFF : Word)[i] = true := by decide
    have clear : (f &&& 0x003FFFFF)[i] = false := by rw [bits, BitVec.getElem_zero]
    rw [BitVec.getElem_and] at clear ⊢
    by_cases high : 12 ≤ i
    · simp [frame_bit i bound, high]
    · rw [all i bound (Nat.not_le.mp high), Bool.and_true] at clear
      rw [clear, Bool.false_and]
  rw [whole]
  refine (BitVec.add_eq_or_of_and_eq_zero _ _ ?_).symm
  rw [BitVec.and_comm w, ← BitVec.and_assoc, bits, BitVec.zero_and]

end Bits

section Order

variable {settings : List Setting} (e f : Word)

theorem apply_all_perm {xs ys : List Setting} (perm : xs.Perm ys)
    (comm : ∀ x ∈ xs, ∀ y ∈ xs, ∀ e, y.apply (x.apply e) = x.apply (y.apply e)) : applyAll xs e = applyAll ys e :=
  perm.foldl_eq' (fun x member y member' e => comm x member y member' e) e

theorem mapped_entry (order : settings.Perm [.frame f, .attrib PTE_PRESENT]) :
    applyAll settings e = setAttrib (setFrame e f) PTE_PRESENT := by
  refine apply_all_perm e order (fun x member y member' e => ?_)
  rw [order.mem_iff] at member member'
  have swap := set_frame_attrib e PTE_PRESENT f (by decide)
  simp only [List.mem_cons, List.not_mem_nil, or_false] at member member'
  rcases member with rfl | rfl <;> rcases member' with rfl | rfl
  all_goals first | rfl | exact swap | exact swap.symm

theorem mapped_large_entry (order : settings.Perm [.frame f, .attrib PDE_4MB, .attrib PDE_PRESENT]) :
    applyAll settings e = setAttrib (setAttrib (setFrame e f) PDE_4MB) PDE_PRESENT := by
  refine apply_all_perm e order (fun x member y member' e => ?_)
  rw [order.mem_iff] at member member'
  have swap := set_frame_attrib e PDE_PRESENT f (by decide)
  have swap' := set_frame_attrib e PDE_4MB f (by decide)
  have swap'' := set_attrib_attrib e PDE_PRESENT PDE_4MB
  simp only [List.mem_cons, List.not_mem_nil, or_false] at member member'
  rcases member with rfl | rfl | rfl <;> rcases member' with rfl | rfl | rfl
  all_goals first | rfl | exact swap | exact swap.symm | exact swap' | exact swap'.symm | exact swap'' | exact swap''.symm

end Order

section Pages

variable (v w : Word)

theorem table_index : tableIndex v = v.toNat / 2 ^ 12 % 2 ^ 10 := by
  rw [tableIndex, BitVec.toNat_and, BitVec.toNat_ushiftRight, Nat.shiftRight_eq_div_pow]
  exact Nat.and_two_pow_sub_one_eq_mod _ 10

theorem directory_bound : directoryIndex v < 1024 := by
  have bound := v.isLt
  rw [directory_index]
  omega

theorem same_large_page_iff : SameLargePage v w ↔ directoryIndex w = directoryIndex v := by
  rw [directory_index, directory_index, SameLargePage]

theorem same_page_iff : SamePage v w ↔ directoryIndex w = directoryIndex v ∧ tableIndex w = tableIndex v := by
  rw [directory_index, directory_index, table_index, table_index, SamePage]
  omega

end Pages

section Translation

variable (pd : PageDirectory) (v w : Word) (settings : List Setting)

theorem virt_to_phys_congr (pd' : PageDirectory) (entry : pd'.entries (directoryIndex w) = pd.entries (directoryIndex w))
    (table : ptLookup (pd'.tables (directoryIndex w)) w = ptLookup (pd.tables (directoryIndex w)) w) :
    virtToPhys (some pd') w = virtToPhys (some pd) w := by
  simp only [virtToPhys, pdLookup, Option.map_some, Option.bind_some, entry, table]

theorem set_pde_elsewhere (apart : ¬SameLargePage v w) : virtToPhys (some (setPde v settings pd)) w = virtToPhys (some pd) w :=
  virt_to_phys_congr pd w _ (Function.update_of_ne (fun same => apart ((same_large_page_iff v w).mpr same)) _ _) rfl

theorem set_pte_elsewhere (apart : ¬SamePage v w) : virtToPhys (some (setPte v settings pd)) w = virtToPhys (some pd) w := by
  refine virt_to_phys_congr pd w _ rfl ?_
  by_cases same : directoryIndex w = directoryIndex v
  · have other : tableIndex w ≠ tableIndex v := fun equal => apart ((same_page_iff v w).mpr ⟨same, equal⟩)
    simp only [setPte, ptLookup, same, Function.update_self, Option.map_map]
    congr 1
    funext pt
    exact Function.update_of_ne other _ _
  · simp only [setPte, Function.update_of_ne same]

theorem set_pde_entry (same : SameLargePage v w) :
    pdLookup (some (setPde v settings pd)) w = some (applyAll settings (pd.entries (directoryIndex v))) := by
  rw [same_large_page_iff] at same
  simp only [pdLookup, Option.map_some, setPde, same, Function.update_self]

theorem set_pte_entry (pt : PageTable) (table : pd.tables (directoryIndex v) = some pt) (same : SamePage v w) :
    ptLookup ((setPte v settings pd).tables (directoryIndex w)) w = some (applyAll settings (pt.entries (tableIndex v))) := by
  obtain ⟨directory, entry⟩ := (same_page_iff v w).mp same
  simp only [setPte, ptLookup, directory, entry, table, Function.update_self, Option.map_some]

theorem set_pte_translates (tabled : pd.Tabled (directoryIndex v)) (pt : PageTable) (table : pd.tables (directoryIndex v) = some pt)
    (same : SamePage v w) : virtToPhys (some (setPte v settings pd)) w =
      if getAttrib (applyAll settings (pt.entries (tableIndex v))) PTE_PRESENT = 0 then .ok 0
      else .ok (getFrame (applyAll settings (pt.entries (tableIndex v))) ||| (w &&& ~~~ PTE_FRAME)) := by
  have directory := ((same_page_iff v w).mp same).1
  have entry : pdLookup (some (setPte v settings pd)) w = some (pd.entries (directoryIndex v)) := congrArg (some ∘ pd.entries) directory
  have lookup := set_pte_entry pd v w settings pt table same
  simp only [virtToPhys, entry, if_neg tabled.1, tabled.2, ne_eq, not_true, if_false, Option.bind_some, lookup]

theorem offset_of_page : w &&& ~~~ PTE_FRAME = BitVec.ofNat 32 (w.toNat % 2 ^ 12) := by
  apply BitVec.eq_of_toNat_eq
  have low : (w &&& ~~~ PTE_FRAME).toNat = w.toNat % 2 ^ 12 := by
    rw [BitVec.toNat_and]
    exact Nat.and_two_pow_sub_one_eq_mod w.toNat 12
  rw [low, BitVec.toNat_ofNat]
  omega

theorem offset_of_large_page : w &&& 0x003FFFFF = BitVec.ofNat 32 (w.toNat % 2 ^ 22) := by
  apply BitVec.eq_of_toNat_eq
  rw [page_offset, BitVec.toNat_ofNat]
  omega

theorem set_pte_maps (f : Word) (wf : pd.WellFormed) (tabled : pd.Tabled (directoryIndex v))
    (order : settings.Perm [.frame f, .attrib PTE_PRESENT]) (same : SamePage v w) :
    virtToPhys (some (setPte v settings pd)) w = .ok ((f &&& PTE_FRAME) + BitVec.ofNat 32 (w.toNat % 2 ^ 12)) := by
  obtain ⟨pt, table⟩ := Option.ne_none_iff_exists'.mp (wf (directoryIndex v) (directory_bound v) tabled)
  have present : ¬getAttrib (setAttrib (setFrame (pt.entries (tableIndex v)) f) PTE_PRESENT) PTE_PRESENT = 0 := by
    rw [attrib_of_set_attrib]
    decide
  rw [set_pte_translates pd v w settings tabled pt table same, mapped_entry _ f order, if_neg present,
    frame_of_set_attrib _ PTE_PRESENT (by decide), frame_of_set_frame, frame_or_offset, offset_of_page]
  rfl

theorem set_pte_unmaps (wf : pd.WellFormed) (tabled : pd.Tabled (directoryIndex v)) (same : SamePage v w) :
    virtToPhys (some (setPte v [.clear PTE_PRESENT] pd)) w = .ok 0 := by
  obtain ⟨pt, table⟩ := Option.ne_none_iff_exists'.mp (wf (directoryIndex v) (directory_bound v) tabled)
  rw [set_pte_translates pd v w _ tabled pt table same]
  exact if_pos (attrib_of_clear_attrib _ PTE_PRESENT)

theorem set_pde_maps (f : Word) (large : f.toNat % 2 ^ 22 = 0)
    (order : settings.Perm [.frame f, .attrib PDE_4MB, .attrib PDE_PRESENT]) (same : SameLargePage v w) :
    virtToPhys (some (setPde v settings pd)) w = .ok (f + BitVec.ofNat 32 (w.toNat % 2 ^ 22)) := by
  have entry := set_pde_entry pd v w settings same
  rw [mapped_large_entry _ f order] at entry
  have present : ¬getAttrib (setAttrib (setAttrib (setFrame (pd.entries (directoryIndex v)) f) PDE_4MB) PDE_PRESENT) PDE_PRESENT = 0 := by
    rw [attrib_of_set_attrib]
    decide
  have wide : getAttrib (setAttrib (setAttrib (setFrame (pd.entries (directoryIndex v)) f) PDE_4MB) PDE_PRESENT) PDE_4MB ≠ 0 := by
    rw [attrib_of_set_other _ PDE_PRESENT PDE_4MB (by decide), attrib_of_set_attrib]
    decide
  rw [virtToPhys, entry]
  simp only [if_neg present, if_pos wide]
  rw [frame_of_set_attrib _ PDE_PRESENT (by decide), frame_of_set_attrib _ PDE_4MB (by decide), frame_of_set_frame,
    large_frame_or_offset f w large, offset_of_large_page]

theorem set_pde_unmaps (same : SameLargePage v w) : virtToPhys (some (setPde v [.clear PDE_PRESENT] pd)) w = .ok 0 := by
  rw [virtToPhys, set_pde_entry pd v w _ same]
  exact if_pos (attrib_of_clear_attrib _ PDE_PRESENT)

end Translation

theorem translation_reads_back (pd : PageDirectory) (wf : pd.WellFormed) (v : Word) :
    (∀ f settings, pd.Tabled (directoryIndex v) → settings.Perm [.frame f, .attrib PTE_PRESENT] →
      (∀ w, SamePage v w →
        virtToPhys (some (setPte v settings pd)) w = .ok ((f &&& PTE_FRAME) + BitVec.ofNat 32 (w.toNat % 2 ^ 12))) ∧
      ∀ w, ¬SamePage v w → virtToPhys (some (setPte v settings pd)) w = virtToPhys (some pd) w) ∧
    (∀ f settings, f.toNat % 2 ^ 22 = 0 → settings.Perm [.frame f, .attrib PDE_4MB, .attrib PDE_PRESENT] →
      (∀ w, SameLargePage v w →
        virtToPhys (some (setPde v settings pd)) w = .ok (f + BitVec.ofNat 32 (w.toNat % 2 ^ 22))) ∧
      ∀ w, ¬SameLargePage v w → virtToPhys (some (setPde v settings pd)) w = virtToPhys (some pd) w) ∧
    (∀ e f a, a.toNat < 2 ^ 12 → getAttrib (setFrame e f) a = getAttrib e a ∧ getFrame (setAttrib e a) = getFrame e ∧
      getFrame (clearAttrib e a) = getFrame e) ∧
    (∀ e a b, a &&& b = 0 → getAttrib (setAttrib e a) b = getAttrib e b ∧ getAttrib (clearAttrib e a) b = getAttrib e b) ∧
    (pd.Tabled (directoryIndex v) →
      (∀ w, SamePage v w → virtToPhys (some (setPte v [.clear PTE_PRESENT] pd)) w = .ok 0) ∧
      ∀ w, ¬SamePage v w → virtToPhys (some (setPte v [.clear PTE_PRESENT] pd)) w = virtToPhys (some pd) w) ∧
    (∀ w, SameLargePage v w → virtToPhys (some (setPde v [.clear PDE_PRESENT] pd)) w = .ok 0) ∧
    ∀ w, ¬SameLargePage v w → virtToPhys (some (setPde v [.clear PDE_PRESENT] pd)) w = virtToPhys (some pd) w := by
  refine ⟨fun f settings tabled order => ⟨?_, ?_⟩, fun f settings large order => ⟨?_, ?_⟩, fun e f a low => ⟨?_, ?_, ?_⟩,
    fun e a b apart => ⟨?_, ?_⟩, fun tabled => ⟨?_, ?_⟩, ?_, ?_⟩
  · exact fun w => set_pte_maps pd v w settings f wf tabled order
  · exact fun w => set_pte_elsewhere pd v w settings
  · exact fun w => set_pde_maps pd v w settings f large order
  · exact fun w => set_pde_elsewhere pd v w settings
  · exact attrib_of_set_frame e a f low
  · exact frame_of_set_attrib e a low
  · exact frame_of_clear_attrib e a low
  · exact attrib_of_set_other e a b apart
  · exact attrib_of_clear_other e a b apart
  · exact fun w => set_pte_unmaps pd v w wf tabled
  · exact fun w => set_pte_elsewhere pd v w _
  · exact fun w => set_pde_unmaps pd v w
  · exact fun w => set_pde_elsewhere pd v w _

def oneTable : PageDirectory :=
  { entries := fun i => if i = 0 then PDE_PRESENT else 0, tables := fun i => if i = 0 then some ⟨fun _ => 0⟩ else none, phys := 0 }

theorem one_table_well_formed : oneTable.WellFormed := by
  intro i _ tabled
  by_cases first : i = 0
  · subst first
    exact Option.some_ne_none _
  · have absent : oneTable.entries i = 0 := if_neg first
    rw [PageDirectory.Tabled, absent] at tabled
    exact absurd tabled.1 (by decide)

theorem translation_reads_back_at_page : virtToPhys (some (setPte 0x1234 [.attrib PTE_PRESENT, .frame 0x5678] oneTable)) 0x1ABC = .ok 0x5ABC :=
  ((translation_reads_back oneTable one_table_well_formed 0x1234).1 0x5678 _ ⟨by decide, by decide⟩ (List.Perm.swap _ _ [])).1 0x1ABC rfl

end Deimos.Paging
