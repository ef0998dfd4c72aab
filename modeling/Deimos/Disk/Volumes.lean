import Mathlib.Data.List.TakeWhile
import Deimos.Ata.Model

set_option autoImplicit false

namespace Deimos.Disk

open Comp Ata LinkedQueue

-- The slots of the partition table that are in use, and those of them that
-- get a volume before the memory gives out.
def used (probe : Probe) (entries : List Nat) : List Nat := entries.filter (fun i => systemId probe.sector i ≠ 0)

def made (probe : Probe) (entries : List Nat) : List Nat := (used probe entries).takeWhile (fun i => probe.volumeBlocks i ≠ 0)

def volumeOf (d : Word) (probe : Probe) (blockSize : Word) (i : Nat) : Volume :=
  { mounted := false, blockSize := blockSize, offsetLba := relativeSector probe.sector i, numBlocks := totalSectors probe.sector i,
    volumeId := BitVec.ofNat 32 i, parentDrive := d }

-- What kmalloc gives for the volumes is free, and given once.
structure Fresh (probe : Probe) (entries : List Nat) (live : List Word) : Prop where
  new : ∀ i ∈ used probe entries, probe.volumeBlocks i ∉ live
  once : ∀ i ∈ used probe entries, ∀ j ∈ used probe entries, probe.volumeBlocks i ≠ 0 →
    probe.volumeBlocks i = probe.volumeBlocks j → i = j

structure Added (d : Word) (probe : Probe) (vols : List Word) (slots : List Nat) (s s' : State) : Prop where
  live : ∀ p, p ∈ s'.heap.live ↔ p ∈ slots.map probe.volumeBlocks ∨ p ∈ s.heap.live
  driveList : s'.driveList = s.driveList
  counter : s'.nextDriveId = s.nextDriveId
  children : Linked.Spells 0 (s'.children d) (vols ++ slots.map probe.volumeBlocks)
  drive : s'.driveData d = { s.driveData d with childVolumes := (s'.driveData d).childVolumes }
  others : ∀ e, e ≠ d → s'.driveData e = s.driveData e
  records : ∀ i ∈ slots, s'.volumes (probe.volumeBlocks i) = volumeOf d probe (s.driveData d).blockSize i
  volumes : ∀ p, p ∉ slots.map probe.volumeBlocks → s'.volumes p = s.volumes p
  links : ∀ p, p ∉ vols ++ slots.map probe.volumeBlocks → s'.volumeNext p = s.volumeNext p

section Slots

variable (probe : Probe) (i : Nat) (rest : List Nat)

theorem used_unused (unused : systemId probe.sector i = 0) : used probe (i :: rest) = used probe rest :=
  List.filter_cons_of_neg (fun inUse => of_decide_eq_true inUse unused)

theorem used_cons (inUse : systemId probe.sector i ≠ 0) : used probe (i :: rest) = i :: used probe rest :=
  List.filter_cons_of_pos (decide_eq_true inUse)

theorem made_unused (unused : systemId probe.sector i = 0) : made probe (i :: rest) = made probe rest := by
  rw [made, used_unused probe i rest unused, made]

theorem made_failed (inUse : systemId probe.sector i ≠ 0) (failed : probe.volumeBlocks i = 0) : made probe (i :: rest) = [] := by
  rw [made, used_cons probe i rest inUse]
  exact List.takeWhile_cons_of_neg (fun served => of_decide_eq_true served failed)

theorem made_cons (inUse : systemId probe.sector i ≠ 0) (served : probe.volumeBlocks i ≠ 0) :
    made probe (i :: rest) = i :: made probe rest := by
  rw [made, used_cons probe i rest inUse]
  exact List.takeWhile_cons_of_pos (decide_eq_true served)

theorem made_used {j : Nat} (member : j ∈ made probe rest) : j ∈ used probe rest :=
  (List.takeWhile_sublist _).subset member

theorem used_member {j : Nat} (member : j ∈ used probe rest) : j ∈ rest := List.mem_of_mem_filter member

end Slots

section Joins

variable {d : Word} {probe : Probe} {vols : List Word} {s s₁ s' : State}

theorem Added.refl (children : Linked.Spells 0 (s.children d) vols) : Added d probe vols [] s s := by
  refine ⟨fun p => by simp, rfl, rfl, ?_, rfl, fun _ _ => rfl, fun i none => absurd none List.not_mem_nil, fun _ _ => rfl, fun _ _ => rfl⟩
  rwa [List.map_nil, List.append_nil]

theorem Added.trans {slots : List Nat} {i : Nat} (first : Added d probe vols [i] s s₁)
    (rest : Added d probe (vols ++ [probe.volumeBlocks i]) slots s₁ s') (apart : probe.volumeBlocks i ∉ slots.map probe.volumeBlocks) :
    Added d probe vols (i :: slots) s s' := by
  have whole : vols ++ (i :: slots).map probe.volumeBlocks = (vols ++ [probe.volumeBlocks i]) ++ slots.map probe.volumeBlocks := by
    rw [List.map_cons, List.append_assoc]
    rfl
  have size : (s₁.driveData d).blockSize = (s.driveData d).blockSize := by rw [first.drive]
  refine ⟨fun p => ?_, rest.driveList.trans first.driveList, rest.counter.trans first.counter, ?_, ?_, fun e other => ?_, fun j member => ?_,
    fun p outside => ?_, fun p outside => ?_⟩
  · rw [rest.live, first.live, List.map_cons, List.map_cons, List.mem_cons, List.mem_cons, List.map_nil]
    simp only [List.not_mem_nil, or_false]
    exact or_left_comm.trans or_assoc.symm
  · rw [whole]
    exact rest.children
  · rw [rest.drive, first.drive]
  · rw [rest.others e other, first.others e other]
  · rcases List.mem_cons.mp member with rfl | later
    · rw [rest.volumes _ apart, first.records j List.mem_cons_self]
    · rw [rest.records j later, size]
  · rw [List.map_cons, List.mem_cons, not_or] at outside
    rw [rest.volumes p outside.2, first.volumes p (by simpa using outside.1)]
  · rw [whole] at outside
    rw [rest.links p outside, first.links p (fun inner => outside (List.mem_append_left _ inner))]

end Joins

theorem add_volume_returns (d : Word) (probe : Probe) (vols : List Word) (i : Nat) (s t : State)
    (children : Linked.Spells 0 (s.children d) vols) (live : ∀ v ∈ vols, v ∈ s.heap.live) (served : probe.volumeBlocks i ≠ 0)
    (fresh : probe.volumeBlocks i ∉ s.heap.live)
    (shape : t = { s with
      heap := s.heap.take 0 (probe.volumeBlocks i)
      volumes := Function.update s.volumes (probe.volumeBlocks i) (volumeOf d probe (s.driveData d).blockSize i) }) :
    ∃ l : Linked Word, ((t.children d).append 0 (check t) (probe.volumeBlocks i)).Returns l ∧
      Added d probe vols [i] s { t.setDrive d ({ · with childVolumes := l.head }) with volumeNext := l.next } := by
  have same : t.children d = s.children d := by rw [shape]; rfl
  have taken : t.heap.live = probe.volumeBlocks i :: s.heap.live := by rw [shape, Ledger.take_live served]
  have checked (p : Word) (member : p ∈ probe.volumeBlocks i :: vols) : check t p = .ok () := by
    apply if_pos
    rw [taken]
    exact List.mem_cons.mpr ((List.mem_cons.mp member).imp_right (live p))
  obtain ⟨l, returned, spells, others⟩ := Linked.append_returns children served (fun old => fresh (live _ old)) checked
  refine ⟨l, by rw [same]; exact returned, ?_⟩
  subst shape
  refine ⟨fun p => ?_, rfl, rfl, ?_, ?_, fun e other => Function.update_of_ne other _ _, fun j member => ?_, fun p outside => ?_,
    fun p outside => ?_⟩
  · change p ∈ (s.heap.take 0 (probe.volumeBlocks i)).live ↔ _
    rw [Ledger.take_live served, List.mem_cons]
    simp
  · simp only [State.children, State.setDrive, Function.update_self]
    exact spells
  · simp only [State.setDrive, Function.update_self]
  · rw [List.mem_singleton.mp member]
    exact Function.update_self _ _ _
  · exact Function.update_of_ne (fun here => outside (by simp [here])) _ _
  · apply others p
    intro inner
    apply outside
    rcases List.mem_cons.mp inner with here | old
    · exact List.mem_append_right _ (by simp [here])
    · exact List.mem_append_left _ old

theorem kmalloc_fresh (s : State) (answer : Word) (fresh : answer ∉ s.heap.live) :
    (liftM (kmalloc answer s) : Comp Misuse (Word × State)).Returns (answer, { s with heap := s.heap.take 0 answer }) :=
  (ends_lift _ _).mpr (if_neg fresh).symm

theorem check_returns (s : State) (p : Word) (live : p ∈ s.heap.live) : (liftM (check s p) : Comp Misuse Unit).Returns () :=
  (ends_lift _ _).mpr (if_pos live).symm

theorem add_volumes_returns (d : Word) (probe : Probe) (entries : List Nat) (nodup : entries.Nodup) (vols : List Word) (s : State)
    (children : Linked.Spells 0 (s.children d) vols) (drive : d ∈ s.heap.live) (live : ∀ v ∈ vols, v ∈ s.heap.live)
    (fresh : Fresh probe entries s.heap.live) : ∃ s', Added d probe vols (made probe entries) s s' ∧
      (addVolumes d probe entries s).Returns (if made probe entries = used probe entries then 0 else 1, s') := by
  induction entries generalizing s vols with
  | nil => exact ⟨s, .refl children, (ends_pure _ _).mpr rfl⟩
  | cons i entries ih =>
      obtain ⟨new, nodup⟩ := List.nodup_cons.mp nodup
      unfold addVolumes
      by_cases unused : systemId probe.sector i = 0
      · rw [if_pos unused, made_unused probe i entries unused, used_unused probe i entries unused]
        have same := used_unused probe i entries unused
        exact ih nodup vols s children drive live ⟨same ▸ fresh.new, same ▸ fresh.once⟩
      have slots := used_cons probe i entries unused
      have first : i ∈ used probe (i :: entries) := slots ▸ List.mem_cons_self
      have later (j : Nat) (member : j ∈ used probe entries) : j ∈ used probe (i :: entries) := slots ▸ List.mem_cons_of_mem i member
      have unused' := fresh.new i first
      have allocated := kmalloc_fresh s (probe.volumeBlocks i) unused'
      rw [if_neg unused, slots]
      by_cases failed : probe.volumeBlocks i = 0
      · rw [made_failed probe i entries unused failed, if_neg (List.cons_ne_nil _ _).symm]
        refine ⟨s, .refl children, (ends_bind_of_returns _ _ _ _ allocated).mpr ?_⟩
        rw [failed, Ledger.take_null]
        exact (ends_pure _ _).mpr rfl
      · rw [made_cons probe i entries unused failed]
        obtain ⟨l, appended, added⟩ := add_volume_returns d probe vols i s _ children live failed unused' rfl
        have live' (p : Word) (old : p ∈ s.heap.live) := (added.live p).mpr (.inr old)
        have volumes (v : Word) (member : v ∈ vols ++ [probe.volumeBlocks i]) := (added.live v).mpr (by
          rcases List.mem_append.mp member with old | new
          · exact .inr (live v old)
          · exact .inl new)
        have repeated (j : Nat) (member : j ∈ used probe entries) : probe.volumeBlocks j ≠ probe.volumeBlocks i := fun same =>
          new (fresh.once i first j (later j member) failed same.symm ▸ used_member probe entries member)
        have fresh' : Fresh probe entries _ := ⟨fun j member taken => by
          rcases (added.live _).mp taken with here | old
          · exact repeated j member (by simpa using here)
          · exact fresh.new j (later j member) old, fun j member k member' => fresh.once j (later j member) k (later k member')⟩
        obtain ⟨s', more, rest⟩ := ih nodup (vols ++ [probe.volumeBlocks i]) _ added.children (live' d drive) volumes fresh'
        refine ⟨s', added.trans more (fun again => ?_), ?_⟩
        · obtain ⟨j, member, same⟩ := List.mem_map.mp again
          exact repeated j (made_used probe entries member) same
        · simp only [List.cons_inj_right]
          refine (ends_bind_of_returns _ _ _ _ allocated).mpr ?_
          rw [if_neg failed]
          have checked := check_returns { s with heap := s.heap.take 0 (probe.volumeBlocks i) }
          refine (ends_bind_of_returns _ _ _ _ (checked _ (volumes _ (List.mem_append_right _ List.mem_cons_self)))).mpr ?_
          refine (ends_bind_of_returns _ _ _ _ (checked d (live' d drive))).mpr ?_
          exact (ends_bind_of_returns _ _ _ _ appended).mpr rest

theorem free_volumes_frees (stop : Volume → Bool) (vols : List Word) (s : State) (v : Word) (links : Links 0 s.volumeNext v vols 0)
    (nodup : vols.Nodup) (live : ∀ w ∈ vols, w ∈ s.heap.live) :
    (loop (freeVolumesBody stop) (v, s)).Returns
      (vols.any (fun w => stop (s.volumes w)), { s with heap := s.heap.freeAll (vols.takeWhile (fun w => !stop (s.volumes w))) }) := by
  induction vols generalizing v s with
  | nil =>
      have last : v = 0 := links
      subst last
      exact (ends_loop_done _ _ (false, s) _ rfl).mpr rfl
  | cons w vols ih =>
      obtain ⟨rfl, nonnull, links⟩ := links
      obtain ⟨absent, nodup⟩ := List.nodup_cons.mp nodup
      have present : check s v = .ok () := if_pos (live v List.mem_cons_self)
      have body : freeVolumesBody stop (v, s) =
          if stop (s.volumes v) then .ok (.done (true, s)) else .ok (.next (s.volumeNext v, { s with heap := s.heap.free v })) := by
        unfold freeVolumesBody kfree
        dsimp only
        rw [if_neg nonnull, if_neg nonnull, present]
        rfl
      by_cases stops : stop (s.volumes v) = true
      · rw [if_pos stops] at body
        rw [List.any_cons, stops, Bool.true_or, List.takeWhile_cons_of_neg (by simp [stops])]
        exact (ends_loop_done _ _ _ _ body).mpr rfl
      · rw [if_neg stops] at body
        have passes : stop (s.volumes v) = false := eq_false_of_ne_true stops
        rw [List.any_cons, passes, Bool.false_or, List.takeWhile_cons_of_pos (by simp [passes])]
        refine (ends_loop_next _ _ _ _ body).mpr (ih { s with heap := s.heap.free v } (s.volumeNext v) links nodup (fun x member => ?_))
        exact Ledger.mem_free.mpr ⟨live x (List.mem_cons_of_mem v member), fun same => absent (same ▸ member)⟩

end Deimos.Disk
