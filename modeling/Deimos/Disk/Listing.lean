import Deimos.Disk.Registry
import Deimos.Lib.Chain
import Deimos.Tty.Console

set_option autoImplicit false

namespace Deimos.Disk

open Comp Ata LinkedQueue Run Tty Walk

def driveLine (d : Drive) : Line := ⟨chars "hdd%u\tsize:%x%x\n", [.word d.driveId, .word d.blocksHigh, .word d.blocksLow]⟩

def volumeLine (driveId : Word) (v : Volume) : Line :=
  ⟨chars "\thdd%uvol%u\toffset:%x%x\tsize:%x%x\n",
    [.word driveId, .word v.volumeId, .word 0, .word v.offsetLba, .word 0, .word v.numBlocks]⟩

def printVolume (s : State) (v : Word) : Comp Misuse (List Line) := do
  check s v
  check s (s.volumes v).parentDrive
  pure [volumeLine (s.driveData (s.volumes v).parentDrive).driveId (s.volumes v)]

def printDrive (s : State) (d : Word) : Comp Misuse (List Line) := do
  check s d
  let volumes ← walk (fun v => v = 0) s.volumeNext (printVolume s) (s.driveData d).childVolumes
  pure (driveLine (s.driveData d) :: volumes)

-- The calls of printf that disk_print_info makes.
def diskPrintInfo (s : State) : Comp Misuse (List Line) := walk (fun d => d = 0) s.driveList.next (printDrive s) s.driveList.head

def partitionLine (driveId : Word) (sector : Nat → BitVec 8) (i : Nat) : Line :=
  ⟨chars "\thdd%uvol%u\toffset:%x%x\tsize:%x%x\n",
    [.word driveId, .word (BitVec.ofNat 32 i), .word 0, .word (BitVec.ofNat 32 (wordAt sector (446 + 16 * i + 8))), .word 0,
      .word (BitVec.ofNat 32 (wordAt sector (446 + 16 * i + 12)))]⟩

def regLines (s : State) (r : Reg) : List Line :=
  driveLine { s.driveData r.drive with driveId := BitVec.ofNat 32 r.id } ::
    ((List.range 4).filter (fun i => r.probe.sector (446 + 16 * i + 4) ≠ 0)).map (partitionLine (BitVec.ofNat 32 r.id) r.probe.sector)

theorem partition_line (r : Reg) (i : Nat) (v : Volume) (record : clear v = volumeOf r.drive r.probe 512 i) :
    volumeLine (BitVec.ofNat 32 r.id) v = partitionLine (BitVec.ofNat 32 r.id) r.probe.sector i := by
  have id : v.volumeId = BitVec.ofNat 32 i := congrArg Volume.volumeId record
  have offset : v.offsetLba.toNat = wordAt r.probe.sector (446 + 16 * i + 8) :=
    (congrArg (fun v => v.offsetLba.toNat) record).trans (word_at_append _ _)
  have size : v.numBlocks.toNat = wordAt r.probe.sector (446 + 16 * i + 12) :=
    (congrArg (fun v => v.numBlocks.toNat) record).trans (word_at_append _ _)
  rw [volumeLine, partitionLine, id, ← offset, ← size, BitVec.ofNat_toNat, BitVec.ofNat_toNat, BitVec.setWidth_eq, BitVec.setWidth_eq]

section Lines

variable {s : State} {b : Book} (kept : Kept s b)

theorem drive_line_text (d : Drive) : ∃ out, (driveLine d).text = some out :=
  words_text 3 _ (by decide +kernel) [d.driveId, d.blocksHigh, d.blocksLow] rfl

theorem partition_line_text (driveId : Word) (sector : Nat → BitVec 8) (i : Nat) : ∃ out, (partitionLine driveId sector i).text = some out :=
  words_text 6 _ (by decide +kernel) [driveId, BitVec.ofNat 32 i, 0, BitVec.ofNat 32 (wordAt sector (446 + 16 * i + 8)), 0,
    BitVec.ofNat 32 (wordAt sector (446 + 16 * i + 12))] rfl

theorem reg_lines_displayed (regs : List Reg) : Displayed (regs.flatMap (regLines s)) := by
  refine displayed _ (fun line member => ?_)
  obtain ⟨r, -, member⟩ := List.mem_flatMap.mp member
  rcases List.mem_cons.mp member with rfl | member
  · exact drive_line_text _
  · obtain ⟨i, -, rfl⟩ := List.mem_map.mp member
    exact partition_line_text _ _ i

include kept

theorem Kept.volume_printed (r : Reg) (member : r ∈ b.regs) (i : Nat) (inUse : i ∈ used r.probe slots) :
    (printVolume s (r.probe.volumeBlocks i)).Returns [partitionLine (BitVec.ofNat 32 r.id) r.probe.sector i] := by
  have record := (kept.parsed r member).records i inUse
  have parent : (s.volumes (r.probe.volumeBlocks i)).parentDrive = r.drive := congrArg Volume.parentDrive record
  have volume : r.probe.volumeBlocks i ∈ r.blocks := List.mem_cons_of_mem _ (List.mem_map_of_mem inUse)
  unfold printVolume Returns
  rw [parent, (kept.parsed r member).id, partition_line r i _ record,
    ends_bind_of_returns _ _ _ _ (check_returns s _ (kept.live r member _ volume)),
    ends_bind_of_returns _ _ _ _ (check_returns s _ (kept.live r member _ List.mem_cons_self))]
  exact (ends_pure _ _).mpr rfl

theorem Kept.drive_printed (r : Reg) (member : r ∈ b.regs) : (printDrive s r.drive).Returns (regLines s r) := by
  have parsed := kept.parsed r member
  have volumes : (walk (fun v => v = 0) s.volumeNext (printVolume s) (s.driveData r.drive).childVolumes).Returns
      ((used r.probe slots).flatMap (fun i => [partitionLine (BitVec.ofNat 32 r.id) r.probe.sector i])) :=
    walk_returns r.probe.volumeBlocks _ (used r.probe slots) 0 _ 0 parsed.children.links
      (fun i inUse => decide_eq_false (parsed.children.nonnull (List.mem_map_of_mem inUse))) rfl (kept.volume_printed r member)
  rw [← List.map_eq_flatMap] at volumes
  unfold printDrive Returns
  rw [ends_bind_of_returns _ _ _ _ (check_returns s _ (kept.live r member _ List.mem_cons_self)), ends_bind_of_returns _ _ _ _ volumes]
  refine (ends_pure _ _).mpr ?_
  rw [regLines, ← parsed.id]
  rfl

theorem Kept.printed : (diskPrintInfo s).Returns (b.regs.flatMap (regLines s)) :=
  walk_returns Reg.drive _ b.regs 0 _ 0 kept.listed.links
    (fun _ member => decide_eq_false (kept.listed.nonnull (List.mem_map_of_mem member))) rfl kept.drive_printed

end Lines

theorem disk_listing_exact (s₀ s : State) (b : Book) (start : Start s₀) (run : Reaches Step (s₀, .blank) (s, b)) :
    (diskPrintInfo s).Returns (b.regs.flatMap (regLines s)) ∧ Displayed (b.regs.flatMap (regLines s)) :=
  ⟨(kept_run start run).printed, reg_lines_displayed b.regs⟩

theorem disk_listing_of_second : ∃ s, Reaches Step (twoDrives, .blank) (s, ⟨[⟨0x4000, 1, otherPartitions⟩], 2⟩) ∧
    (diskPrintInfo s).Returns (regLines s ⟨0x4000, 1, otherPartitions⟩) := by
  obtain ⟨s, run⟩ := two_drives_registered
  have listed := (disk_listing_exact twoDrives s _ ⟨rfl, rfl, by decide⟩ run).1
  rw [List.flatMap_singleton] at listed
  exact ⟨s, run, listed⟩

end Deimos.Disk
