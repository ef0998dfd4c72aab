import Deimos.Ata.Calls
import Deimos.Disk.Drives

set_option autoImplicit false

namespace Deimos.Ata

open Comp LinkedQueue

-- register_drive takes a drive if its sector can be read, is a boot sector
-- and there is memory for every volume on it.
def Registrable (probe : Probe) : Prop :=
  probe.mode = .lba48 ∧ signature probe.sector = 0xAA55 ∧ Served probe (List.range 4)

section Volumes

variable {live₀ blocks list loose : List Word} {owned : List Owned} {o : Owned}

theorem meets_check {α : Type} {post : α → Prop} (s : State) (p : Word) (live : p ∈ s.heap.live) (rest : Unit → Comp Misuse α)
    (after : Meets Broken (rest ()) post) : Meets Broken (liftM (check s p) >>= rest) post :=
  meets_bind_returns _ _ () ((ends_lift _ _).mpr (check_live p live).symm) after

theorem free_volumes_returns (stop : Volume → Bool) (vols : List Word) (s : State) (v : Word)
    (links : Links 0 s.volumeNext v vols 0) (owns : Owns live₀ (vols ++ blocks) s) (passed : ∀ w ∈ vols, stop (s.volumes w) = false) :
    ∃ heap, (loop (freeVolumesBody stop) (v, s)).Returns (false, { s with heap := heap }) ∧ Owns live₀ blocks { s with heap := heap } := by
  have nodup : vols.Nodup := List.Nodup.of_append_left owns.nodup
  have live (w : Word) (member : w ∈ vols) : w ∈ s.heap.live := owns.mine w (List.mem_append_left blocks member)
  have none : vols.any (fun w => stop (s.volumes w)) = false := by simpa using passed
  have all : vols.takeWhile (fun w => !stop (s.volumes w)) = vols :=
    List.takeWhile_eq_self_iff.mpr (fun w member => by rw [passed w member]; rfl)
  have returned := Disk.free_volumes_frees stop vols s v links nodup live
  rw [none, all] at returned
  exact ⟨_, returned, owns.free_all⟩

end Volumes

section Register

variable (live₀ list : List Word) (owned : List Owned) (o : Owned) (probe : Probe)

theorem parse_mbr_meets (s : State) (stock : Stock live₀ list s [] (o :: owned))
    (callback : (s.driveData o.drive).readcallback = probe.mode) :
    Meets Broken (parseMbr o.drive probe s) (fun r => ∃ vols, Stock live₀ list r.2 [] ({ o with vols := vols } :: owned) ∧
      Frame nothing s r.2 ∧ (r.1 = 0 ∧ Registrable probe ∨ r.1 = 1 ∧ ¬Registrable probe)) := by
  have keeps := stock.keeps o List.mem_cons_self
  have live (p : Word) (block : p ∈ o.blocks) : p ∈ s.heap.live := stock.mine List.mem_cons_self p block
  have refused (unfit : ¬Registrable probe) : ∃ vols, Stock live₀ list s [] ({ o with vols := vols } :: owned) ∧
      Frame nothing s s ∧ ((1 : Word) = 0 ∧ Registrable probe ∨ (1 : Word) = 1 ∧ ¬Registrable probe) :=
    ⟨o.vols, stock, .refl _ s, .inr ⟨rfl, unfit⟩⟩
  unfold parseMbr
  apply meets_check s _ (live _ List.mem_cons_self)
  rw [callback]
  cases mode : probe.mode with
  | chs => exact meets_pure _ (refused (fun fit => by simp [fit.1] at mode))
  | lba48 =>
      apply meets_check s _ (by rw [keeps.priv]; exact live _ (by simp [Owned.blocks]))
      by_cases signed : signature probe.sector = 0xAA55
      · rw [if_neg (not_not.mpr signed)]
        have fit : Registrable probe ↔ Served probe (List.range 4) := by simp [Registrable, mode, signed]
        rw [fit]
        have numbered : Stock live₀ list
            { s.setDrive o.drive ({ · with driveId := s.nextDriveId }) with nextDriveId := s.nextDriveId + 1 } [] (o :: owned) := by
          refine ⟨stock.owns.congr rfl, stock.listed, stock.linked, fun o' member => ?_⟩
          have kept := stock.keeps o' member
          by_cases same : o'.drive = o.drive
          · refine ⟨?_, ?_, kept.unmounted⟩
            · rw [← kept.priv, same]
              simp only [State.setDrive, Function.update_self]
            · have children := kept.vols
              rw [same] at children ⊢
              simp only [State.setDrive, State.children, Function.update_self]
              exact children
          · exact kept.congr (Function.update_of_ne same _ _) (fun _ _ => rfl) (fun _ _ => rfl)
        apply meets_mono _ (add_volumes_meets live₀ list owned probe (List.range 4) _ o numbered)
        rintro r ⟨vols, after, frame, outcome⟩
        refine ⟨vols, after, ⟨frame.drives, frame.started, fun e old => ?_⟩, outcome⟩
        rw [frame.callback e old]
        exact set_callback o.drive ({ · with driveId := s.nextDriveId }) s (fun _ => rfl) e
      · rw [if_pos signed]
        exact meets_pure _ (refused (fun fit => signed fit.2.1))

theorem register_drive_meets (s : State) (stock : Stock live₀ list s [] (o :: owned))
    (callback : (s.driveData o.drive).readcallback = probe.mode) (unlisted : o.drive ∉ list) :
    Meets Broken (registerDrive o.drive probe s) (fun r => Frame nothing s r.2 ∧
      (r.1 = 0 ∧ Registrable probe ∧ (∃ vols, Stock live₀ (list ++ [o.drive]) r.2 [] ({ o with vols := vols } :: owned)) ∨
        r.1 = 1 ∧ ¬Registrable probe ∧ Stock live₀ list r.2 [o.drive, o.priv] owned)) := by
  unfold registerDrive
  apply meets_bind _ _ (parse_mbr_meets live₀ list owned o probe s stock callback)
  rintro ⟨failed, t⟩ ⟨vols, stock, frame, ⟨passed, fit⟩ | ⟨refused, unfit⟩⟩
  all_goals
    dsimp only at stock frame ⊢
    have keeps := stock.keeps _ List.mem_cons_self
    have live (p : Word) (block : p ∈ ({ o with vols := vols } : Owned).blocks) : p ∈ t.heap.live :=
      stock.mine List.mem_cons_self p block
  · have passed : failed = 0 := passed
    rw [if_neg (not_not.mpr passed)]
    have present := live o.drive List.mem_cons_self
    have checked (p : Word) (member : p ∈ o.drive :: list) : check t p = .ok () := by
      rcases List.mem_cons.mp member with rfl | listed
      · exact check_live _ present
      · exact check_live p (stock.linked_live p listed)
    have nonnull : o.drive ≠ 0 := stock.owns.nonnull o.drive List.mem_cons_self
    obtain ⟨l, returned, spells, -⟩ := Linked.append_returns stock.listed nonnull unlisted checked
    apply meets_bind_returns _ _ l returned
    refine meets_pure _ ⟨⟨frame.drives, frame.started, frame.callback⟩, .inl ⟨rfl, fit, vols, stock.owns.congr rfl, spells, ?_, ?_⟩⟩
    · intro d member
      rcases List.mem_append.mp member with old | last
      · exact stock.linked d old
      · exact .inr ⟨_, List.mem_cons_self, (List.mem_singleton.mp last).symm⟩
    · intro o' member
      exact (stock.keeps o' member).congr rfl (fun _ _ => rfl) (fun _ _ => rfl)
  · have refused : failed = 1 := refused
    rw [refused, if_pos (by decide)]
    apply meets_check t _ (live _ List.mem_cons_self)
    have order := ({ o with vols := vols } : Owned).blocks_perm owned
    obtain ⟨heap, returned, owns⟩ := free_volumes_returns (fun _ => false) vols t _ keeps.vols.links (stock.owns.perm order) (fun _ _ => rfl)
    apply meets_bind_returns _ _ _ returned
    refine meets_pure _ ⟨⟨frame.drives, frame.started, frame.callback⟩, .inr ⟨rfl, unfit, owns, stock.listed, ?_, ?_⟩⟩
    · intro d member
      rcases stock.linked d member with other | ⟨o', mine, same⟩
      · exact .inl other
      · rcases List.mem_cons.mp mine with rfl | old
        · exact absurd (same ▸ member) unlisted
        · exact .inr ⟨o', old, same⟩
    · intro o' member
      exact (stock.keeps o' (List.mem_cons_of_mem _ member)).congr rfl (fun _ _ => rfl) (fun _ _ => rfl)

theorem remove_drive_returns (s : State) (stock : Stock live₀ list s [] (o :: owned)) (member : o.drive ∈ list) :
    ∃ t list', (removeDrive o.drive s).Returns (0, t) ∧ t.drives = s.drives ∧ t.started = s.started ∧
      (t.driveData o.drive).priv = o.priv ∧ Owns live₀ (o.priv :: o.drive :: owned.flatMap Owned.blocks) t ∧
      (∀ d ∈ list, d ≠ o.drive → d ∈ list') ∧
      Stock live₀ list' { t with heap := (t.heap.free o.priv).free o.drive } [] owned := by
  have keeps := stock.keeps o List.mem_cons_self
  have order : ([] ++ (o :: owned).flatMap Owned.blocks).Perm (o.vols ++ (o.priv :: o.drive :: owned.flatMap Owned.blocks)) :=
    (o.blocks_perm owned).trans ((List.Perm.swap _ _ _).append_left o.vols)
  have owns := stock.owns.perm order
  have live (p : Word) (block : p ∈ o.blocks) : p ∈ s.heap.live := stock.mine List.mem_cons_self p block
  have apart (v : Word) (volume : v ∈ o.vols) : v ∉ list := by
    intro listed
    rcases stock.linked v listed with other | ⟨o', mine, rfl⟩
    · exact owns.apart v (List.mem_append_left _ volume) other
    · refine List.disjoint_of_nodup_append owns.nodup volume ?_
      rcases List.mem_cons.mp mine with rfl | old
      · exact List.mem_cons_of_mem _ List.mem_cons_self
      · exact List.mem_cons_of_mem _ (List.mem_cons_of_mem _ (mem_blocks old o'.drive List.mem_cons_self))
  have consistent : Disk.Consistent o.drive list o.vols s :=
    ⟨stock.listed, keeps.vols, live _ List.mem_cons_self, stock.linked_live, fun v volume => live v (by simp [Owned.blocks, volume]), apart⟩
  obtain ⟨l, returned, spells⟩ := Disk.remove_drive_listed consistent keeps.unmounted member
  refine ⟨{ Disk.freed o.vols s with driveList := l }, list.erase o.drive, returned, rfl, rfl, keeps.priv, owns.free_all.congr rfl,
    fun d member other => (List.mem_erase_of_ne other).mpr member, owns.free_all.free.free.congr rfl, spells, fun d left => ?_,
    fun o' member => (stock.keeps o' (List.mem_cons_of_mem o member)).congr rfl (fun _ _ => rfl) (fun _ _ => rfl)⟩
  obtain ⟨other, old⟩ := stock.listed.nodup.mem_erase_iff.mp left
  rcases stock.linked d old with foreign | ⟨o', mine, same⟩
  · exact .inl foreign
  · rcases List.mem_cons.mp mine with rfl | later
    · exact absurd same.symm other
    · exact .inr ⟨o', later, same⟩

end Register

end Deimos.Ata
