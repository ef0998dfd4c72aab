import Deimos.Disk.Drives

set_option autoImplicit false

namespace Deimos.Disk

open Comp Ata LinkedQueue

structure Unregistered (d : Word) (list : List Word) (s : State) : Prop where
  listed : Linked.Spells 0 s.driveList list
  absent : d ∉ list
  empty : (s.driveData d).childVolumes = 0
  drive : d ∈ s.heap.live
  drives : ∀ e ∈ list, e ∈ s.heap.live
  null : 0 ∉ s.heap.live

def numbered (d : Word) (s : State) : State :=
  { s.setDrive d ({ · with driveId := s.nextDriveId }) with nextDriveId := s.nextDriveId + 1 }

def slots : List Nat := List.range 4

def blocksOf (probe : Probe) (entries : List Nat) : List Word := entries.map probe.volumeBlocks

section Outcomes

variable {d : Word} {list : List Word} {s : State} (unregistered : Unregistered d list s) (probe : Probe)
include unregistered

theorem numbered_children : Linked.Spells 0 ((numbered d s).children d) [] := by
  have head : ((numbered d s).children d).head = 0 := by
    simp only [State.children, numbered, State.setDrive, Function.update_self]
    exact unregistered.empty
  exact ⟨head, rfl, .nil⟩

theorem register_drive_refused (fails : Bool) (refused : fails = true ∨ signature probe.sector ≠ 0xAA55) :
    (registerDrive d fails probe s).Returns (1, s) := by
  have checked := check_returns s d unregistered.drive
  have parsed : (parseMbr d fails probe s).Returns (1, s) := by
    refine (ends_bind_of_returns _ _ _ _ checked).mpr ?_
    by_cases failed : fails = true
    · rw [if_pos failed]
      exact (ends_pure _ _).mpr rfl
    · rw [if_neg failed, if_pos (refused.resolve_left failed)]
      exact (ends_pure _ _).mpr rfl
  have none : (loop (freeVolumesBody (fun _ => false)) ((s.driveData d).childVolumes, s)).Returns (false, s) := by
    rw [unregistered.empty]
    exact (ends_loop_done _ _ (false, s) _ rfl).mpr rfl
  refine (ends_bind_of_returns _ _ _ _ parsed).mpr ?_
  dsimp only
  rw [if_pos (by decide)]
  exact (ends_bind_of_returns _ _ _ _ checked).mpr ((ends_bind_of_returns _ _ _ _ none).mpr ((ends_pure _ _).mpr rfl))

variable (signed : signature probe.sector = 0xAA55) (fresh : Fresh probe slots s.heap.live)
include signed fresh

theorem parse_mbr_returns : ∃ s', Added d probe [] (made probe slots) (numbered d s) s' ∧
    (parseMbr d false probe s).Returns (if made probe slots = used probe slots then 0 else 1, s') := by
  obtain ⟨s', added, returned⟩ := add_volumes_returns d probe slots List.nodup_range [] (numbered d s) (numbered_children unregistered)
    unregistered.drive (fun v none => absurd none List.not_mem_nil) fresh
  refine ⟨s', added, (ends_bind_of_returns _ _ _ _ (check_returns s d unregistered.drive)).mpr ?_⟩
  rw [if_neg (by decide), if_neg (not_not.mpr signed)]
  exact returned

theorem register_drive_taken (served : made probe slots = used probe slots) : ∃ s' l,
    Added d probe [] (used probe slots) (numbered d s) s' ∧ Linked.Spells 0 l (list ++ [d]) ∧
      (registerDrive d false probe s).Returns (0, { s' with driveList := l }) := by
  obtain ⟨s', added, parsed⟩ := parse_mbr_returns unregistered probe signed fresh
  rw [served] at added
  rw [if_pos served] at parsed
  have live (e : Word) (old : e ∈ s.heap.live) : e ∈ s'.heap.live := (added.live e).mpr (.inr old)
  have checked (e : Word) (member : e ∈ d :: list) : check s' e = .ok () := by
    apply if_pos
    rcases List.mem_cons.mp member with rfl | listed
    · exact live e unregistered.drive
    · exact live e (unregistered.drives e listed)
  have nonnull : d ≠ 0 := fun same => unregistered.null (same ▸ unregistered.drive)
  have listed : Linked.Spells 0 s'.driveList list := added.driveList ▸ unregistered.listed
  obtain ⟨l, returned, spells, -⟩ := Linked.append_returns listed nonnull unregistered.absent checked
  refine ⟨s', l, added, spells, (ends_bind_of_returns _ _ _ _ parsed).mpr ?_⟩
  dsimp only
  rw [if_neg (by decide)]
  exact (ends_bind_of_returns _ _ _ _ returned).mpr ((ends_pure _ _).mpr rfl)

theorem register_drive_failed (short : made probe slots ≠ used probe slots) : ∃ s',
    Added d probe [] (made probe slots) (numbered d s) s' ∧
      (registerDrive d false probe s).Returns (1, freed (blocksOf probe (made probe slots)) s') := by
  obtain ⟨s', added, parsed⟩ := parse_mbr_returns unregistered probe signed fresh
  rw [if_neg short] at parsed
  have live (v : Word) (member : v ∈ blocksOf probe (made probe slots)) : v ∈ s'.heap.live := (added.live v).mpr (.inl member)
  have drive : d ∈ s'.heap.live := (added.live d).mpr (.inr unregistered.drive)
  have frees : (loop (freeVolumesBody (fun _ => false)) ((s'.driveData d).childVolumes, s')).Returns _ :=
    free_volumes_frees (fun _ => false) (blocksOf probe (made probe slots)) s' _ added.children.links added.children.nodup live
  have all : (blocksOf probe (made probe slots)).takeWhile (fun _ => !false) = blocksOf probe (made probe slots) :=
    List.takeWhile_eq_self_iff.mpr (fun _ _ => rfl)
  rw [all] at frees
  refine ⟨s', added, (ends_bind_of_returns _ _ _ _ parsed).mpr ?_⟩
  dsimp only
  rw [if_pos (by decide)]
  refine (ends_bind_of_returns _ _ _ _ (check_returns s' d drive)).mpr ?_
  exact (ends_bind_of_returns _ _ _ _ frees).mpr ((ends_pure _ _).mpr rfl)

end Outcomes

theorem made_all_iff (probe : Probe) (entries : List Nat) :
    made probe entries = used probe entries ↔ ∀ i ∈ used probe entries, probe.volumeBlocks i ≠ 0 := by
  rw [made, List.takeWhile_eq_self_iff]
  simp only [decide_eq_true_iff]

theorem made_none_iff (probe : Probe) (entries : List Nat) :
    made probe entries = [] ↔ ∀ i ∈ (used probe entries).head?, probe.volumeBlocks i = 0 := by
  rw [made]
  cases used probe entries with
  | nil => simp
  | cons i rest => by_cases served : probe.volumeBlocks i = 0 <;> simp [served]

def Traceless (d : Word) (s s' : State) : Prop :=
  (∀ p, p ∈ s'.heap.live ↔ p ∈ s.heap.live) ∧ s'.driveList = s.driveList ∧ (s'.driveData d).childVolumes = 0

-- Once volumes have been given back, the drive still refers to the first.
theorem freed_traceless_iff {d : Word} {probe : Probe} {s s' : State} (fresh : Fresh probe slots s.heap.live)
    (added : Added d probe [] (made probe slots) (numbered d s) s') :
    Traceless d s (freed (blocksOf probe (made probe slots)) s') ↔ made probe slots = [] := by
  have children : Linked.Spells 0 (s'.children d) (blocksOf probe (made probe slots)) := added.children
  have empty : (s'.driveData d).childVolumes = 0 ↔ made probe slots = [] := children.head_eq_null.trans List.map_eq_nil_iff
  have live (p : Word) : p ∈ (freed (blocksOf probe (made probe slots)) s').heap.live ↔ p ∈ s.heap.live := by
    have now : p ∈ s'.heap.live ↔ p ∈ blocksOf probe (made probe slots) ∨ p ∈ s.heap.live := added.live p
    change p ∈ (s'.heap.freeAll (blocksOf probe (made probe slots))).live ↔ _
    rw [Ledger.mem_free_all, now]
    constructor
    · rintro ⟨mine | old, other⟩
      · exact absurd mine other
      · exact old
    · intro old
      refine ⟨.inr old, fun mine => ?_⟩
      obtain ⟨i, member, rfl⟩ := List.mem_map.mp mine
      exact fresh.new i (made_used probe slots member) old
  exact ⟨fun traceless => empty.mp traceless.2.2, fun none => ⟨live, added.driveList, empty.mpr none⟩⟩

theorem failed_register_traceless_iff (d : Word) (list : List Word) (fails : Bool) (probe : Probe) (s : State)
    (unregistered : Unregistered d list s) (fresh : Fresh probe slots s.heap.live) :
    (∃ ret s', (registerDrive d fails probe s).Returns (ret, s') ∧ (ret = 1 → Traceless d s s')) ↔
      fails = true ∨ signature probe.sector ≠ 0xAA55 ∨ (∀ i ∈ used probe slots, probe.volumeBlocks i ≠ 0) ∨
        ∀ i ∈ (used probe slots).head?, probe.volumeBlocks i = 0 := by
  rw [← made_all_iff, ← made_none_iff]
  by_cases refused : fails = true ∨ signature probe.sector ≠ 0xAA55
  · have returned := register_drive_refused unregistered probe fails refused
    refine iff_of_true ⟨1, s, returned, fun _ => ⟨fun _ => Iff.rfl, rfl, unregistered.empty⟩⟩ ?_
    exact refused.imp_right .inl
  obtain ⟨passed, signed⟩ := not_or.mp refused
  obtain rfl : fails = false := eq_false_of_ne_true passed
  have signed := not_not.mp signed
  by_cases served : made probe slots = used probe slots
  · obtain ⟨s', l, -, -, returned⟩ := register_drive_taken unregistered probe signed fresh served
    exact iff_of_true ⟨0, _, returned, fun failed => absurd failed (by decide)⟩ (.inr (.inr (.inl served)))
  · obtain ⟨s', added, returned⟩ := register_drive_failed unregistered probe signed fresh served
    have traceless := freed_traceless_iff fresh added
    have same : (false = true ∨ signature probe.sector ≠ 0xAA55 ∨ made probe slots = used probe slots ∨ made probe slots = []) ↔
        made probe slots = [] := by simp [signed, served]
    rw [same, ← traceless]
    constructor
    · rintro ⟨ret, s'', returned', kept⟩
      obtain ⟨rfl, rfl⟩ := Prod.mk.inj (returns_unique _ _ _ returned returned')
      exact kept rfl
    · exact fun none => ⟨1, _, returned, fun _ => none⟩

def twoPartitions (second : Word) : Probe :=
  { status := 0, ready := 0, lbaMid := 0, lbaHigh := 0, info := fun _ => 0
    sector := fun i => if i = 510 then 0x55 else if i = 511 then 0xAA else if i = 450 ∨ i = 466 then 0x83 else 0
    infoBlock := 0, driveBlock := 0, privBlock := 0
    volumeBlocks := fun i => if i = 0 then 0x2000 else second }

def oneDrive : State :=
  { heap := ⟨[0x1000], []⟩
    driveList := ⟨0, fun _ => 0⟩
    driveData := fun _ => ⟨0, 512, 0, 0, 0, .lba48, 0⟩
    privs := fun _ => ⟨.lba48, BUS0, MASTERLBA48, BUS0_STATUS⟩
    volumes := fun _ => ⟨false, 0, 0, 0, 0, 0⟩
    volumeNext := fun _ => 0
    nextDriveId := 0
    drives := fun _ => 0
    started := true }

theorem one_drive_unregistered : Unregistered 0x1000 [] oneDrive where
  listed := ⟨rfl, rfl, .nil⟩
  absent := List.not_mem_nil
  empty := rfl
  drive := List.mem_cons_self
  drives := by simp
  null := by simp [oneDrive]

theorem two_partitions_used (second : Word) : used (twoPartitions second) slots = [0, 1] := rfl

theorem two_partitions_fresh (second : Word) (other : second ≠ 0x1000) (other' : second ≠ 0x2000) :
    Fresh (twoPartitions second) slots oneDrive.heap.live := by
  have first : (twoPartitions second).volumeBlocks 0 = 0x2000 := rfl
  have last : (twoPartitions second).volumeBlocks 1 = second := rfl
  have both (i : Nat) (member : i ∈ used (twoPartitions second) slots) : i = 0 ∨ i = 1 := by
    rw [two_partitions_used] at member
    simpa using member
  refine ⟨fun i member => ?_, fun i member j member' _ same => ?_⟩
  · rcases both i member with rfl | rfl
    · simp [first, oneDrive]
    · simpa [last, oneDrive] using other
  · rcases both i member with rfl | rfl <;> rcases both j member' with rfl | rfl
    · rfl
    · exact absurd (same.symm.trans first) other'
    · exact absurd (same.trans first) other'
    · rfl

theorem failed_register_traceless_at_two : ∃ ret s', (registerDrive 0x1000 false (twoPartitions 0x3000) oneDrive).Returns (ret, s') ∧
    (ret = 1 → Traceless 0x1000 oneDrive s') :=
  (failed_register_traceless_iff 0x1000 [] false (twoPartitions 0x3000) oneDrive one_drive_unregistered
    (two_partitions_fresh 0x3000 (by decide) (by decide))).mpr (.inr (.inr (.inl ((made_all_iff _ _).mp (by decide)))))

theorem register_leaves_freed_volume : ¬∀ (d : Word) (list : List Word) (fails : Bool) (probe : Probe) (s : State),
    Unregistered d list s → Fresh probe slots s.heap.live →
    ∃ ret s', (registerDrive d fails probe s).Returns (ret, s') ∧ (ret = 1 → Traceless d s s') := by
  intro claim
  have fresh := two_partitions_fresh 0 (by decide) (by decide)
  obtain ⟨ret, s', returned, kept⟩ := claim 0x1000 [] false (twoPartitions 0) oneDrive one_drive_unregistered fresh
  have made_ : made (twoPartitions 0) slots = [0] := by decide
  obtain ⟨s₁, added, failed⟩ := register_drive_failed one_drive_unregistered (twoPartitions 0) (by decide) fresh (by decide)
  obtain ⟨rfl, rfl⟩ := Prod.mk.inj (returns_unique _ _ _ failed returned)
  have none := (freed_traceless_iff fresh added).mp (kept rfl)
  rw [made_] at none
  exact absurd none (by decide)

end Deimos.Disk
