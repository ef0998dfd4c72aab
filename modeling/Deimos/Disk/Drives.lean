import Deimos.Disk.Model
import Deimos.Disk.Volumes

set_option autoImplicit false

namespace Deimos.Disk

open Comp Ata LinkedQueue

structure Consistent (d : Word) (list vols : List Word) (s : State) : Prop where
  listed : Linked.Spells 0 s.driveList list
  children : Linked.Spells 0 (s.children d) vols
  drive : d ∈ s.heap.live
  drives : ∀ e ∈ list, e ∈ s.heap.live
  volumes : ∀ v ∈ vols, v ∈ s.heap.live
  apart : ∀ v ∈ vols, v ∉ list

def unmounted (s : State) (v : Word) : Bool := !(s.volumes v).mounted

def freed (ps : List Word) (s : State) : State := { s with heap := s.heap.freeAll ps }

section Removal

variable {d : Word} {list vols : List Word} {s : State}

def removeListed (d : Word) (s : State) : Comp Misuse (Word × State) := do
  if s.driveList.head = 0 then pure (1, s)
  else do
    match ← s.driveList.remove 0 (check s) d with
    | some l => pure (0, { s with driveList := l })
    | none => pure (1, s)

theorem remove_listed_returns (listed : Linked.Spells 0 s.driveList list) (live : ∀ e ∈ list, e ∈ s.heap.live) (member : d ∈ list) :
    ∃ l, (removeListed d s).Returns (0, { s with driveList := l }) ∧ Linked.Spells 0 l (list.erase d) := by
  have nonempty : s.driveList.head ≠ 0 := fun null => List.ne_nil_of_mem member (listed.head_eq_null.mp null)
  obtain ⟨ys, zs, shape⟩ := List.append_of_mem member
  have absent : d ∉ ys := by
    have nodup := shape ▸ listed.nodup
    exact fun front => List.disjoint_of_nodup_append nodup front List.mem_cons_self
  have left : list.erase d = ys ++ zs := by rw [shape, List.erase_append_right _ absent, List.erase_cons_head]
  rw [shape] at listed live
  obtain ⟨l, removed, spells, -⟩ := Linked.remove_returns listed (fun e member => if_pos (live e member))
  refine ⟨l, ?_, left ▸ spells⟩
  rw [removeListed, if_neg nonempty]
  exact (ends_bind_of_returns _ _ _ _ removed).mpr ((ends_pure _ _).mpr rfl)

theorem remove_listed_refused (listed : Linked.Spells 0 s.driveList list) (live : ∀ e ∈ list, e ∈ s.heap.live) (absent : d ∉ list) :
    (removeListed d s).Returns (1, s) := by
  by_cases empty : s.driveList.head = 0
  · rw [removeListed, if_pos empty]
    exact (ends_pure _ _).mpr rfl
  · have nonempty : list ≠ [] := fun none => empty (listed.head_eq_null.mpr none)
    have missing : (s.driveList.remove 0 (check s) d).Returns none :=
      Linked.remove_absent listed absent nonempty (fun e member => if_pos (live e member))
    rw [removeListed, if_neg empty]
    exact (ends_bind_of_returns _ _ _ _ missing).mpr ((ends_pure _ _).mpr rfl)

theorem remove_drive_ends (consistent : Consistent d list vols s) (result : Except Misuse (Word × State)) :
    (removeDrive d s).Ends result ↔
      (if vols.any (fun v => (s.volumes v).mounted) then pure (1, freed (vols.takeWhile (unmounted s)) s)
      else removeListed d (freed (vols.takeWhile (unmounted s)) s) : Comp Misuse (Word × State)).Ends result := by
  have frees : (loop (freeVolumesBody Volume.mounted) ((s.driveData d).childVolumes, s)).Returns _ :=
    free_volumes_frees Volume.mounted vols s _ consistent.children.links consistent.children.nodup consistent.volumes
  unfold removeDrive
  rw [ends_bind_of_returns _ _ _ _ (check_returns s d consistent.drive), ends_bind_of_returns _ _ _ _ frees]
  rfl

variable (consistent : Consistent d list vols s)
include consistent

theorem drives_left (e : Word) (member : e ∈ list) : e ∈ (freed vols s).heap.live :=
  (Ledger.mem_free_all vols).mpr ⟨consistent.drives e member, fun volume => consistent.apart e volume member⟩

theorem remove_drive_mounted (mounted : ∃ v ∈ vols, (s.volumes v).mounted = true) :
    (removeDrive d s).Returns (1, freed (vols.takeWhile (unmounted s)) s) := by
  rw [Returns, remove_drive_ends consistent, if_pos (List.any_eq_true.mpr mounted)]
  exact (ends_pure _ _).mpr rfl

theorem remove_drive_unmounted (none : ∀ v ∈ vols, (s.volumes v).mounted = false) (result : Except Misuse (Word × State)) :
    (removeDrive d s).Ends result ↔ (removeListed d (freed vols s)).Ends result := by
  have all : vols.takeWhile (unmounted s) = vols := List.takeWhile_eq_self_iff.mpr (fun v member => by simp [unmounted, none v member])
  rw [remove_drive_ends consistent, all, if_neg (by simpa using none)]

theorem remove_drive_unlisted (none : ∀ v ∈ vols, (s.volumes v).mounted = false) (absent : d ∉ list) :
    (removeDrive d s).Returns (1, freed vols s) :=
  (remove_drive_unmounted consistent none _).mpr (remove_listed_refused consistent.listed (drives_left consistent) absent)

theorem remove_drive_listed (none : ∀ v ∈ vols, (s.volumes v).mounted = false) (member : d ∈ list) :
    ∃ l, (removeDrive d s).Returns (0, { freed vols s with driveList := l }) ∧ Linked.Spells 0 l (list.erase d) := by
  obtain ⟨l, returned, spells⟩ := remove_listed_returns (s := freed vols s) consistent.listed (drives_left consistent) member
  exact ⟨l, (remove_drive_unmounted consistent none _).mpr returned, spells⟩

end Removal

def Untouched (d : Word) (vols : List Word) (s s' : State) : Prop :=
  Linked.Spells 0 (s'.children d) vols ∧ (∀ v ∈ vols, v ∈ s'.heap.live) ∧ s'.heap.frees = s.heap.frees ∧ s'.driveList = s.driveList

theorem freed_frees (ps : List Word) (s : State) (kept : (freed ps s).heap.frees = s.heap.frees) : ps = [] := by
  have count := Ledger.free_all_frees (l := s.heap) ps
  rw [show (s.heap.freeAll ps).frees = s.heap.frees from kept] at count
  exact List.eq_nil_of_length_eq_zero (by omega)

-- A refusal comes too late once a volume has been given back.
theorem refused_remove_untouched_iff (d : Word) (list vols : List Word) (s : State) (consistent : Consistent d list vols s) :
    (∃ ret s', (removeDrive d s).Returns (ret, s') ∧ (ret = 1 → Untouched d vols s s')) ↔
      (∀ v ∈ vols.head?, (s.volumes v).mounted = true) ∨ (∀ v ∈ vols, (s.volumes v).mounted = false) ∧ d ∈ list := by
  have still : Untouched d vols s (freed [] s) := ⟨consistent.children, consistent.volumes, rfl, rfl⟩
  by_cases mounted : ∃ v ∈ vols, (s.volumes v).mounted = true
  · have returned := remove_drive_mounted consistent mounted
    obtain ⟨v, member, here⟩ := mounted
    have some_ : ¬∀ v ∈ vols, (s.volumes v).mounted = false := fun none => absurd (none v member) (by rw [here]; decide)
    have first : vols.takeWhile (unmounted s) = [] ↔ ∀ v ∈ vols.head?, (s.volumes v).mounted = true := by
      cases vols with
      | nil => exact absurd member List.not_mem_nil
      | cons w vols => cases stop : (s.volumes w).mounted <;> simp [unmounted, stop]
    rw [or_iff_left (fun unmounted => some_ unmounted.1), ← first]
    constructor
    · rintro ⟨ret, s', returned', kept⟩
      obtain ⟨rfl, rfl⟩ := Prod.mk.inj (returns_unique _ _ _ returned returned')
      exact freed_frees _ s (kept rfl).2.2.1
    · intro none
      rw [none] at returned
      exact ⟨1, _, returned, fun _ => still⟩
  · have none (v : Word) (member : v ∈ vols) : (s.volumes v).mounted = false := eq_false_of_ne_true (fun here => mounted ⟨v, member, here⟩)
    by_cases member : d ∈ list
    · obtain ⟨l, returned, -⟩ := remove_drive_listed consistent none member
      exact iff_of_true ⟨0, _, returned, fun refused => absurd refused (by decide)⟩ (.inr ⟨none, member⟩)
    · have returned := remove_drive_unlisted consistent none member
      rw [or_iff_left (fun listed => member listed.2)]
      have empty : vols = [] ↔ ∀ v ∈ vols.head?, (s.volumes v).mounted = true := by
        cases vols with
        | nil => simp
        | cons w vols => simp [none w List.mem_cons_self]
      rw [← empty]
      constructor
      · rintro ⟨ret, s', returned', kept⟩
        obtain ⟨rfl, rfl⟩ := Prod.mk.inj (returns_unique _ _ _ returned returned')
        exact freed_frees _ s (kept rfl).2.2.1
      · rintro rfl
        exact ⟨1, _, returned, fun _ => still⟩

def twoVolumes (mounted : Word → Bool) : State :=
  { heap := ⟨[0x1000, 0x2000, 0x3000], []⟩
    driveList := ⟨0x1000, fun _ => 0⟩
    driveData := fun _ => ⟨0, 512, 0, 0, 0, .lba48, 0x2000⟩
    privs := fun _ => ⟨.lba48, BUS0, MASTERLBA48, BUS0_STATUS⟩
    volumes := fun v => ⟨mounted v, 512, 0, 0, 0, 0x1000⟩
    volumeNext := fun v => if v = 0x2000 then 0x3000 else 0
    nextDriveId := 1
    drives := fun _ => 0
    started := true }

theorem two_volumes_consistent (mounted : Word → Bool) : Consistent 0x1000 [0x1000] [0x2000, 0x3000] (twoVolumes mounted) where
  listed := ⟨⟨rfl, by decide, rfl⟩, rfl, by decide⟩
  children := ⟨⟨rfl, by decide, rfl, by decide, rfl⟩, rfl, by decide⟩
  drive := List.mem_cons_self
  drives := by simp [twoVolumes]
  volumes := by simp [twoVolumes]
  apart := by simp

theorem refused_remove_untouched_at_first : ∃ ret s', (removeDrive 0x1000 (twoVolumes (· = 0x2000))).Returns (ret, s') ∧
    (ret = 1 → Untouched 0x1000 [0x2000, 0x3000] (twoVolumes (· = 0x2000)) s') :=
  (refused_remove_untouched_iff 0x1000 [0x1000] [0x2000, 0x3000] _ (two_volumes_consistent _)).mpr
    (.inl (by simp [twoVolumes]))

theorem remove_frees_before_refusing : ¬∀ (d : Word) (list vols : List Word) (s : State), Consistent d list vols s →
    ∃ ret s', (removeDrive d s).Returns (ret, s') ∧ (ret = 1 → Untouched d vols s s') := by
  intro claim
  have consistent := two_volumes_consistent (· = 0x3000)
  obtain ⟨ret, s', returned, kept⟩ := claim 0x1000 [0x1000] [0x2000, 0x3000] _ consistent
  have freed_ := remove_drive_mounted consistent ⟨0x3000, by decide, by decide⟩
  obtain ⟨rfl, rfl⟩ := Prod.mk.inj (returns_unique _ _ _ freed_ returned)
  have none := freed_frees _ _ (kept rfl).2.2.1
  exact absurd none (by decide)

end Deimos.Disk
