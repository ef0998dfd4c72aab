import Deimos.Ata.Stock
import Deimos.Disk.Volumes

set_option autoImplicit false

namespace Deimos.Ata

open Comp LinkedQueue

def Identified (probe : Probe) : Prop :=
  probe.status ≠ 0 ∧ ¬(probe.ready &&& ERR ≠ 0 ∨ probe.lbaMid ≠ 0 ∨ probe.lbaHigh ≠ 0) ∧ probe.infoBlock ≠ 0 ∧
    probe.info I_SERIAL ≠ 0 ∧ probe.driveBlock ≠ 0 ∧ probe.privBlock ≠ 0

def Probe.mode (probe : Probe) : Mode := if probe.info 83 &&& 0x0400 ≠ 0 then .lba48 else .chs

def Probe.owned (probe : Probe) : Owned := ⟨probe.driveBlock, probe.privBlock, []⟩

inductive IdentifyOutcome (live₀ list : List Word) (owned : List Owned) (probe : Probe) (s : State) : Word × State → Prop
  | none (s' : State) (absent : ¬Identified probe) (stock : Stock live₀ list s' [] owned) (frame : Frame nothing s s') :
      IdentifyOutcome live₀ list owned probe s (0, s')
  | found (s' : State) (identified : Identified probe) (stock : Stock live₀ list s' [] (probe.owned :: owned))
      (frame : Frame (· = probe.driveBlock) s s') (unlisted : probe.driveBlock ∉ list)
      (unowned : ∀ o ∈ owned, o.drive ≠ probe.driveBlock)
      (callback : (s'.driveData probe.driveBlock).readcallback = probe.mode) :
      IdentifyOutcome live₀ list owned probe s (probe.driveBlock, s')

section Identify

variable (live₀ list : List Word) (owned : List Owned) (s : State) (stock : Stock live₀ list s [] owned)

include stock

theorem Stock.heap (heap : Ledger Word) (owns : Owns live₀ (owned.flatMap Owned.blocks) { s with heap := heap }) :
    Stock live₀ list { s with heap := heap } [] owned := by
  exact stock.carry { s with heap := heap } [] owns rfl (fun _ _ => rfl) (fun _ _ => rfl) rfl rfl

theorem found_fine (probe : Probe) (identified : Identified probe) (t : State) (data : Drive)
    (owns : Owns live₀ (probe.infoBlock :: probe.driveBlock :: probe.privBlock :: owned.flatMap Owned.blocks) t)
    (fresh : probe.driveBlock ∉ s.heap.live) (driveData : t.driveData = Function.update s.driveData probe.driveBlock data)
    (driveList : t.driveList = { s.driveList with next := Function.update s.driveList.next probe.driveBlock 0 })
    (priv : data.priv = probe.privBlock) (children : data.childVolumes = 0) (mode : data.readcallback = probe.mode)
    (volumeNext : t.volumeNext = s.volumeNext) (volumes : t.volumes = s.volumes) (drives : t.drives = s.drives)
    (started : t.started = s.started) :
    Fine Broken (IdentifyOutcome live₀ list owned probe s)
      (kfree probe.infoBlock t >>= fun s => (pure (probe.driveBlock, s) : Except Misuse (Word × State))) := by
  apply fine_kfree owns _ List.mem_cons_self
  have still (d : Word) (member : d ∈ s.heap.live) : d ≠ probe.driveBlock := fun same => fresh (same ▸ member)
  have own : t.driveData probe.driveBlock = data := by rw [driveData, Function.update_self]
  let t' : State := { t with heap := t.heap.free probe.infoBlock }
  have owns' : Owns live₀ (probe.driveBlock :: probe.privBlock :: owned.flatMap Owned.blocks) t' := owns.free
  have rest : Stock live₀ list t' [probe.driveBlock, probe.privBlock] owned := by
    apply stock.carry t' _ owns' _ _ _ volumeNext volumes
    · change t.driveList.head = _
      rw [driveList]
    · intro d member
      change t.driveList.next d = _
      rw [driveList]
      exact Function.update_of_ne (still d (stock.linked_live d member)) _ _
    · intro o member
      change t.driveData o.drive = _
      rw [driveData]
      exact Function.update_of_ne (still _ (stock.mine member _ List.mem_cons_self)) _ _
  have mine : Keeps t' probe.owned := by
    refine ⟨?_, ?_, by simp [Probe.owned]⟩
    · change (t.driveData probe.driveBlock).priv = _
      rw [own, priv]
      rfl
    · have empty : t'.children probe.driveBlock = ⟨0, t.volumeNext⟩ := by
        change (⟨(t.driveData probe.driveBlock).childVolumes, t.volumeNext⟩ : Linked Word) = _
        rw [own, children]
      change Linked.Spells 0 (t'.children probe.driveBlock) []
      rw [empty]
      exact queue_empty
  refine .found t' identified ⟨owns', rest.listed, fun d member => ?_, fun o member => ?_⟩ ⟨drives, started, fun e other => ?_⟩
    (fun member => still _ (stock.linked_live _ member) rfl) (fun o member => still _ (stock.mine member _ List.mem_cons_self)) ?_
  · exact (rest.linked d member).imp_right (fun ⟨o, mine, same⟩ => ⟨o, List.mem_cons_of_mem _ mine, same⟩)
  · rcases List.mem_cons.mp member with rfl | old
    · exact mine
    · exact rest.keeps o old
  · change (t.driveData e).readcallback = _
    rw [driveData, Function.update_of_ne other]
  · change (t.driveData probe.driveBlock).readcallback = _
    rw [own, mode]

theorem identify_fine (bus drive statusReg : Port) (probe : Probe) :
    Fine Broken (IdentifyOutcome live₀ list owned probe s) (identify bus drive statusReg probe s) := by
  have quiet (absent : ¬Identified probe) : Fine Broken (IdentifyOutcome live₀ list owned probe s) (.ok (0, s)) :=
    .none s absent stock ⟨rfl, rfl, fun _ _ => rfl⟩
  unfold identify
  by_cases missing : probe.status = 0
  · rw [if_pos missing]
    exact quiet (fun identified => identified.1 missing)
  rw [if_neg missing]
  by_cases other : probe.ready &&& ERR ≠ 0 ∨ probe.lbaMid ≠ 0 ∨ probe.lbaHigh ≠ 0
  · rw [if_pos other]
    exact quiet (fun identified => identified.2.1 other)
  rw [if_neg other]
  apply fine_bind _ _ _ (kmalloc_fine stock.owns probe.infoBlock)
  rintro ⟨info, s₁⟩ ⟨rfl, outcome⟩
  dsimp only at outcome ⊢
  rcases outcome with ⟨failed, rfl⟩ | ⟨served, fresh, rfl, owns⟩
  · rw [if_pos failed]
    exact quiet (fun identified => identified.2.2.1 failed)
  rw [if_neg served]
  apply fine_check _ (owns.mine _ List.mem_cons_self)
  by_cases blank : probe.info I_SERIAL = 0
  · rw [if_pos blank]
    apply fine_kfree owns _ List.mem_cons_self
    exact .none _ (fun identified => identified.2.2.2.1 blank) (stock.heap _ _ _ _ _ owns.free) ⟨rfl, rfl, fun _ _ => rfl⟩
  rw [if_neg blank]
  apply fine_bind _ _ _ (kmalloc_fine owns probe.driveBlock)
  rintro ⟨d, s₂⟩ ⟨rfl, outcome⟩
  dsimp only at outcome ⊢
  rcases outcome with ⟨noDrive, rfl⟩ | ⟨gotDrive, freshDrive, rfl, ownsDrive⟩
  · apply fine_bind _ _ _ (kmalloc_fine owns probe.privBlock)
    rintro ⟨p, s₃⟩ ⟨rfl, outcome⟩
    dsimp only at outcome ⊢
    rw [if_pos (.inl noDrive), noDrive]
    apply fine_kfree_null
    rcases outcome with ⟨noPriv, rfl⟩ | ⟨-, -, rfl, ownsPriv⟩
    · rw [noPriv]
      apply fine_kfree_null
      apply fine_kfree owns _ List.mem_cons_self
      exact .none _ (fun identified => identified.2.2.2.2.1 noDrive) (stock.heap _ _ _ _ _ owns.free) ⟨rfl, rfl, fun _ _ => rfl⟩
    · apply fine_kfree ownsPriv _ List.mem_cons_self
      apply fine_kfree ownsPriv.free _ List.mem_cons_self
      exact .none _ (fun identified => identified.2.2.2.2.1 noDrive) (stock.heap _ _ _ _ _ ownsPriv.free.free) ⟨rfl, rfl, fun _ _ => rfl⟩
  · apply fine_bind _ _ _ (kmalloc_fine ownsDrive probe.privBlock)
    rintro ⟨p, s₃⟩ ⟨rfl, outcome⟩
    dsimp only at outcome ⊢
    rcases outcome with ⟨noPriv, rfl⟩ | ⟨gotPriv, freshPriv, rfl, ownsPriv⟩
    · rw [if_pos (.inr noPriv), noPriv]
      apply fine_kfree ownsDrive _ List.mem_cons_self
      apply fine_kfree_null
      apply fine_kfree ownsDrive.free _ List.mem_cons_self
      exact .none _ (fun identified => identified.2.2.2.2.2 noPriv) (stock.heap _ _ _ _ _ ownsDrive.free.free) ⟨rfl, rfl, fun _ _ => rfl⟩
    · rw [if_neg (not_or.mpr ⟨gotDrive, gotPriv⟩)]
      apply fine_check _ (ownsPriv.mine _ List.mem_cons_self)
      apply fine_check _ (ownsPriv.mine _ (by simp))
      have identified : Identified probe := ⟨missing, other, served, blank, gotDrive, gotPriv⟩
      have unused : probe.driveBlock ∉ s.heap.live := by
        intro member
        apply freshDrive
        rw [Ledger.take_live served]
        exact List.mem_cons_of_mem _ member
      have order : (probe.privBlock :: probe.driveBlock :: probe.infoBlock :: ([] ++ owned.flatMap Owned.blocks)).Perm
          (probe.infoBlock :: probe.driveBlock :: probe.privBlock :: owned.flatMap Owned.blocks) := by
        apply List.perm_iff_count.mpr
        intro p
        simp only [List.count_cons, List.nil_append]
        omega
      exact found_fine live₀ list owned s stock probe identified _ _ ((ownsPriv.perm order).congr rfl) unused rfl rfl rfl rfl rfl
        rfl rfl rfl rfl

end Identify

-- Every entry of the partition table that is in use gets its volume.
def Served (probe : Probe) (entries : List Nat) : Prop := ∀ i ∈ entries, systemId probe.sector i ≠ 0 → probe.volumeBlocks i ≠ 0

section Volumes

variable (live₀ list : List Word) (owned : List Owned)

theorem Owns.split {live₀ : List Word} {owned : List Owned} {s : State} {o : Owned}
    (owns : Owns live₀ ([] ++ (o :: owned).flatMap Owned.blocks) s) : o.blocks.Nodup ∧
      ∀ o' ∈ owned, ∀ p ∈ o'.blocks, p ∉ o.blocks := by
  have nodup := owns.nodup
  rw [List.nil_append, List.flatMap_cons, List.nodup_append] at nodup
  exact ⟨nodup.1, fun o' member p inner outer => nodup.2.2 p outer p (mem_blocks member p inner) rfl⟩

theorem volume_stock (probe : Probe) (i : Nat) (s : State) (o : Owned) (stock : Stock live₀ list s [] (o :: owned))
    (served : probe.volumeBlocks i ≠ 0) (fresh : probe.volumeBlocks i ∉ s.heap.live) (t : State)
    (shape : t = { s with
      heap := s.heap.take 0 (probe.volumeBlocks i)
      volumes := Function.update s.volumes (probe.volumeBlocks i) (Disk.volumeOf o.drive probe (s.driveData o.drive).blockSize i) }) :
    ∃ l : Linked Word, ((t.children o.drive).append 0 (check t) (probe.volumeBlocks i)).Returns l ∧
      Stock live₀ list { t.setDrive o.drive ({ · with childVolumes := l.head }) with volumeNext := l.next } []
        ({ o with vols := o.vols ++ [probe.volumeBlocks i] } :: owned) := by
  have keeps := stock.keeps o List.mem_cons_self
  have vol (o' : Owned) (w : Word) (member : w ∈ o'.vols) : w ∈ o'.blocks := List.mem_cons_of_mem _ (List.mem_cons_of_mem _ member)
  have volLive (w : Word) (member : w ∈ o.vols) : w ∈ s.heap.live := stock.mine List.mem_cons_self w (vol o w member)
  have new (w : Word) (old : w ∈ s.heap.live) : w ∉ [i].map probe.volumeBlocks := fun here => fresh (List.mem_singleton.mp here ▸ old)
  obtain ⟨l, returned, added⟩ := Disk.add_volume_returns o.drive probe o.vols i s t keeps.vols volLive served fresh shape
  refine ⟨l, returned, ?_⟩
  obtain ⟨nodup, apart⟩ := stock.owns.split
  subst shape
  have owns := stock.owns.take _ served fresh
  have order : (probe.volumeBlocks i :: ([] ++ (o :: owned).flatMap Owned.blocks)).Perm
      ([] ++ (({ o with vols := o.vols ++ [probe.volumeBlocks i] } : Owned) :: owned).flatMap Owned.blocks) := by
    refine ((o.blocks_perm owned).cons _).trans (.trans ?_ (Owned.blocks_perm _ owned).symm)
    rw [List.append_assoc]
    exact List.perm_middle.symm
  refine ⟨(owns.perm order).congr rfl, stock.listed, fun d member => ?_, fun o' member => ?_⟩
  · rcases stock.linked d member with other | ⟨o', mine, rfl⟩
    · exact .inl other
    · rcases List.mem_cons.mp mine with rfl | old
      · exact .inr ⟨_, List.mem_cons_self, rfl⟩
      · exact .inr ⟨o', List.mem_cons_of_mem _ old, rfl⟩
  rcases List.mem_cons.mp member with rfl | old
  · refine ⟨?_, added.children, fun w member => ?_⟩
    · exact (congrArg Drive.priv added.drive).trans keeps.priv
    · rcases List.mem_append.mp member with old | last
      · rw [added.volumes w (new w (volLive w old))]
        exact keeps.unmounted w old
      · rw [List.mem_singleton.mp last, added.records i List.mem_cons_self]
        rfl
  · have foreign (w : Word) (member : w ∈ o'.vols) := new w (stock.mine (List.mem_cons_of_mem o old) w (vol o' w member))
    have different : o'.drive ≠ o.drive := fun same => apart o' old o'.drive List.mem_cons_self (by rw [same]; exact List.mem_cons_self)
    apply (stock.keeps o' (List.mem_cons_of_mem o old)).congr (added.others _ different)
    · intro w member
      apply added.links
      rw [List.mem_append, not_or]
      exact ⟨fun inner => apart o' old w (vol o' w member) (vol o w inner), foreign w member⟩
    · exact fun w member => added.volumes w (foreign w member)

theorem add_volumes_meets (probe : Probe) (entries : List Nat) (s : State) (o : Owned) (stock : Stock live₀ list s [] (o :: owned)) :
    Meets Broken (addVolumes o.drive probe entries s) (fun r => ∃ vols, Stock live₀ list r.2 [] ({ o with vols := vols } :: owned) ∧
      Frame nothing s r.2 ∧ (r.1 = 0 ∧ Served probe entries ∨ r.1 = 1 ∧ ¬Served probe entries)) := by
  induction entries generalizing s o with
  | nil => exact meets_pure _ ⟨o.vols, stock, .refl _ s, .inl ⟨rfl, by simp [Served]⟩⟩
  | cons i entries ih =>
      unfold addVolumes
      by_cases unused : systemId probe.sector i = 0
      · rw [if_pos unused]
        have same : Served probe (i :: entries) ↔ Served probe entries := by simp [Served, unused]
        rw [same]
        exact ih s o stock
      · rw [if_neg unused]
        have owns := stock.owns
        apply meets_bind _ _ (meets_lift _ (kmalloc_fine owns (probe.volumeBlocks i)))
        rintro ⟨v, s₁⟩ ⟨rfl, outcome⟩
        dsimp only at outcome ⊢
        rcases outcome with ⟨failed, rfl⟩ | ⟨served, fresh, rfl, taken⟩
        · rw [if_pos failed]
          exact meets_pure _ ⟨o.vols, stock, .refl _ s₁, .inr ⟨rfl, fun all => all i List.mem_cons_self unused failed⟩⟩
        · rw [if_neg served]
          have same : Served probe (i :: entries) ↔ Served probe entries :=
            List.forall_mem_cons.trans (and_iff_right (fun _ => served))
          rw [same]
          apply meets_bind_returns _ _ () ((ends_lift _ _).mpr (check_live _ (taken.mine _ List.mem_cons_self)).symm)
          apply meets_bind_returns _ _ () ((ends_lift _ _).mpr (check_live _ (taken.mine _ (by simp [Owned.blocks]))).symm)
          obtain ⟨l, returned, stock'⟩ := volume_stock live₀ list owned probe i s o stock served fresh _ rfl
          apply meets_bind_returns _ _ l returned
          apply meets_mono _ (ih _ _ stock')
          rintro r ⟨vols, after, frame, outcome⟩
          refine ⟨vols, after, ⟨frame.drives, frame.started, fun e old => ?_⟩, outcome⟩
          rw [frame.callback e old]
          exact set_callback o.drive ({ · with childVolumes := l.head }) s (fun _ => rfl) e

end Volumes

end Deimos.Ata
